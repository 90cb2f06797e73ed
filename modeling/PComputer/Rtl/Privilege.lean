import PComputer.Foundation.ByteLanes

/-!
# `privilege.v`

The machine-mode CSRs and the FSM that turns a pending interrupt into the level
`interrupt` towards the CPU.  The read side of five CSRs masks with constants
that contain `x` bits; synthesis may tie each of them either way, so a
resolution `ReadX` is a parameter of every read.
-/

namespace PComputer.Rtl

open PComputer.Foundation

inductive IntState where
  | IDLE | ISSUE | REPLY | END
  deriving DecidableEq, Repr, Inhabited

structure Privilege where
  mstatus : Word
  misa : Word
  mie : Word
  mtvec : Word
  mscratch : Word
  mepc : Word
  mcause : Word
  mtval : Word
  mip : Word
  mepcReg : Word
  mtvecReg : Word
  intReplyReg : Bool
  intPending : Bool
  eipReg : Bool
  eipIstimerReg : Bool
  meieReg : Bool
  mtieReg : Bool
  intSource : BitVec 2
  state : IntState
  interrupt : Bool
  eipReply : Bool
  mcauseICode : BitVec 4
  deriving Inhabited

structure PrivilegeIn where
  rst : Bool
  a : BitVec 12
  d : Word
  we : Bool
  eip : Bool
  eipIstimer : Bool
  onExcEnter : Bool
  onExcIsint : Bool
  pcIn : Word
  mcauseCodeIn : BitVec 4
  onExcLeave : Bool
  intReply : Bool

/-- What the `x` bits of the `*_read_val` constants are tied to. -/
structure ReadX where
  mstatus : Word
  mie : Word
  mtvec : Word
  mepc : Word
  mip : Bool

namespace Privilege

/-! ## Masks -/

def mstatusReadMask : Word := 0xFFFFFF77
def mstatusWriteMask : Word := 0xFFFFFF77
def mtvecReadMask : Word := 0x00000003
def mtvecWriteMask : Word := 0x00000003
def mipReadMask : Word := 0xFFFFFFF7
def mipWriteMask : Word := 0xFFFFFFF7
def mieReadMask : Word := 0x00000888
def mieWriteMask : Word := 0xFFFFF777
def mepcReadMask : Word := 0x00000003
def mepcWriteMask : Word := 0x00000003

def mstatusReadVal (x : ReadX) : Word := x.mstatus &&& 0x00000088
def mieReadVal (x : ReadX) : Word := x.mie &&& 0x00000888
def mtvecReadVal (x : ReadX) : Word := x.mtvec &&& 0xFFFFFFFC
def mepcReadVal (x : ReadX) : Word := x.mepc &&& 0xFFFFFFFC

def mipReadVal (x : ReadX) (eip eipIstimer : Bool) : Word :=
  0#20 ++ BitVec.ofBool (eip && !eipIstimer) ++ 0#3 ++ BitVec.ofBool (eip && eipIstimer) ++
    0#3 ++ BitVec.ofBool x.mip ++ 0#3

/--
The read expression `val & mask + csr & ~mask`.  In Verilog `+` binds tighter
than `&`, so the sum is taken first.
-/
def readMasked (val mask csr : Word) : Word := val &&& (mask + csr) &&& ~~~mask

def writeMasked (csr mask d : Word) : Word := (csr &&& mask) + (d &&& ~~~mask)

theorem writeMasked_eq_or (csr mask d : Word) :
    writeMasked csr mask d = csr &&& mask ||| d &&& ~~~mask := by
  refine BitVec.add_eq_or_of_and_eq_zero _ _ (BitVec.eq_of_getLsbD_eq fun k hk => ?_)
  simp only [BitVec.getLsbD_and, BitVec.getLsbD_not, BitVec.getLsbD_zero]
  cases mask.getLsbD k <;> simp

theorem getLsbD_writeMasked (csr mask d : Word) (k : Nat) :
    (writeMasked csr mask d).getLsbD k = if mask.getLsbD k then csr.getLsbD k else d.getLsbD k := by
  rw [writeMasked_eq_or, BitVec.getLsbD_or, BitVec.getLsbD_and, BitVec.getLsbD_and,
    BitVec.getLsbD_not]
  cases hmask : mask.getLsbD k with
  | false =>
      by_cases hk : k < 32
      · simp [hk]
      · simp [hk, BitVec.getLsbD_of_ge d k (by omega)]
  | true => simp

theorem readMasked_eq_and {val mask csr : Word} (h : mask &&& csr = 0#32) :
    readMasked val mask csr = val &&& csr := by
  rw [readMasked, BitVec.add_eq_or_of_and_eq_zero _ _ h]
  apply BitVec.eq_of_getLsbD_eq
  intro k hk
  have hbit := congrArg (BitVec.getLsbD · k) h
  simp only [BitVec.getLsbD_and, BitVec.getLsbD_or, BitVec.getLsbD_not, BitVec.getLsbD_zero,
    hk, decide_true, Bool.true_and] at hbit ⊢
  revert hbit
  cases val.getLsbD k <;> cases mask.getLsbD k <;> cases csr.getLsbD k <;> decide

/-! ## Combinational outputs -/

def spo (x : ReadX) (p : Privilege) (eip eipIstimer : Bool) (a : BitVec 12) : Word :=
  if a = 0x300 then readMasked (mstatusReadVal x) mstatusReadMask p.mstatus
  else if a = 0x301 then p.misa
  else if a = 0x304 then readMasked (mieReadVal x) mieReadMask p.mie
  else if a = 0x305 then readMasked (mtvecReadVal x) mtvecReadMask p.mtvec
  else if a = 0x340 then p.mscratch
  else if a = 0x341 then readMasked (mepcReadVal x) mepcReadMask p.mepc
  else if a = 0x342 then p.mcause
  else if a = 0x343 then p.mtval
  else if a = 0x344 then readMasked (mipReadVal x eip eipIstimer) mipReadMask p.mip
  else 0

def mepcOut (p : Privilege) : Word := p.mepcReg

def mtvecOut (p : Privilege) : Word := p.mtvecReg

def mstatusMie (p : Privilege) : Bool := p.mstatus.getLsbD 3

def mipSip (p : Privilege) : Bool := p.mip.getLsbD 4

def meie (p : Privilege) : Bool := p.mie.getLsbD 11

def mtie (p : Privilege) : Bool := p.mie.getLsbD 7

def msie (p : Privilege) : Bool := p.mie.getLsbD 3

/-! ## CSR update -/

def csrReset (p : Privilege) : Privilege :=
  { p with
    mstatus := 0x00000080
    misa := 0x40001100
    mie := 0
    mtvec := 0
    mscratch := 0
    mepc := 0
    mcause := 0
    mtval := 0
    mip := 0 }

def csrWrite (p : Privilege) (a : BitVec 12) (d : Word) : Privilege :=
  if a = 0x300 then { p with mstatus := writeMasked p.mstatus mstatusWriteMask d }
  else if a = 0x304 then { p with mie := writeMasked p.mie mieWriteMask d }
  else if a = 0x305 then { p with mtvec := writeMasked p.mtvec mtvecWriteMask d }
  else if a = 0x340 then { p with mscratch := d }
  else if a = 0x341 then { p with mepc := writeMasked p.mepc mepcWriteMask d }
  else if a = 0x342 then { p with mcause := d }
  else if a = 0x343 then { p with mtval := d }
  else if a = 0x344 then { p with mip := writeMasked p.mip mipWriteMask d }
  else p

/-- `{mstatus[31:8], mstatus[3], mstatus[6:4], 1'b0, mstatus[2:0]}` -/
def mstatusEnter (mstatus : Word) : Word :=
  mstatus.extractLsb' 8 24 ++ mstatus.extractLsb' 3 1 ++ mstatus.extractLsb' 4 3 ++ 0#1 ++
    mstatus.extractLsb' 0 3

def mstatusLeave (mstatus : Word) : Word :=
  mstatus.extractLsb' 8 24 ++ 1#1 ++ mstatus.extractLsb' 4 3 ++ mstatus.extractLsb' 7 1 ++
    mstatus.extractLsb' 0 3

def excEnter (p : Privilege) (i : PrivilegeIn) : Privilege :=
  { p with
    mstatus := mstatusEnter p.mstatus
    mepc := i.pcIn
    mcause :=
      if i.onExcIsint then 1#1 ++ 0#27 ++ p.mcauseICode else 0#1 ++ 0#27 ++ i.mcauseCodeIn }

def excLeave (p : Privilege) : Privilege := { p with mstatus := mstatusLeave p.mstatus }

def csrUpdate (i : PrivilegeIn) (p : Privilege) : Privilege :=
  if i.rst then p.csrReset
  else if i.we then p.csrWrite i.a i.d
  else if i.onExcEnter then p.excEnter i
  else if i.onExcLeave then p.excLeave
  else p

/-! ## Interrupt FSM -/

def intCond (i : PrivilegeIn) (p : Privilege) : Bool :=
  p.mstatusMie &&
    ((i.eip && !i.eipIstimer && p.meie) || (i.eip && i.eipIstimer && p.mtie) ||
      (p.mipSip && p.msie))

/-- Registers that sample every cycle, also during reset. -/
def sample (i : PrivilegeIn) (p q : Privilege) : Privilege :=
  { q with
    mepcReg := p.mepc
    mtvecReg := p.mtvec
    intReplyReg := i.intReply
    intPending := intCond i p
    eipReg := i.eip
    eipIstimerReg := i.eipIstimer
    meieReg := p.meie
    mtieReg := p.mtie }

def intReset (q : Privilege) : Privilege :=
  { q with state := .IDLE, interrupt := false, eipReply := false }

/-- One step of the FSM, read from `p` and written to `q`. -/
def intStep (p q : Privilege) : Privilege :=
  match p.state with
  | .IDLE =>
      if p.intPending then
        { q with
          intSource :=
            BitVec.ofBool (p.eipReg && !p.eipIstimerReg && p.meieReg) ++
              BitVec.ofBool (p.eipReg && p.eipIstimerReg && p.mtieReg)
          state := .ISSUE }
      else q
  | .ISSUE =>
      if p.intSource.getLsbD 1 then
        { q with interrupt := true, eipReply := true, mcauseICode := 11, state := .REPLY }
      else if p.intSource.getLsbD 0 then
        { q with interrupt := true, eipReply := true, mcauseICode := 7, state := .REPLY }
      else { q with interrupt := true, mcauseICode := 3, state := .REPLY }
  | .REPLY =>
      if p.intReplyReg then { q with eipReply := false, interrupt := false, state := .END }
      else { q with eipReply := false }
  | .END => { q with state := .IDLE }

def cycle (i : PrivilegeIn) (p : Privilege) : Privilege :=
  let q := sample i p (csrUpdate i p)
  if i.rst then intReset q else intStep p q

/-! ## The interrupt registers after one cycle -/

section Cycle

variable {i : PrivilegeIn} (p : Privilege)

private theorem csrWrite_fsm (a : BitVec 12) (d : Word) :
    (p.csrWrite a d).state = p.state ∧ (p.csrWrite a d).interrupt = p.interrupt ∧
      (p.csrWrite a d).eipReply = p.eipReply := by
  unfold csrWrite
  split_ifs <;> exact ⟨rfl, rfl, rfl⟩

theorem csrUpdate_fsm (i : PrivilegeIn) :
    (p.csrUpdate i).state = p.state ∧ (p.csrUpdate i).interrupt = p.interrupt ∧
      (p.csrUpdate i).eipReply = p.eipReply := by
  unfold csrUpdate
  split_ifs
  · exact ⟨rfl, rfl, rfl⟩
  · exact csrWrite_fsm p i.a i.d
  · exact ⟨rfl, rfl, rfl⟩
  · exact ⟨rfl, rfl, rfl⟩
  · exact ⟨rfl, rfl, rfl⟩

private theorem intStep_sampled (q : Privilege) :
    (p.intStep q).mstatus = q.mstatus ∧ (p.intStep q).intPending = q.intPending ∧
      (p.intStep q).intReplyReg = q.intReplyReg := by
  unfold intStep
  cases p.state with
  | IDLE | ISSUE | REPLY => dsimp only; split_ifs <;> exact ⟨rfl, rfl, rfl⟩
  | END => exact ⟨rfl, rfl, rfl⟩

def stateNext : IntState :=
  match p.state with
  | .IDLE => if p.intPending then .ISSUE else .IDLE
  | .ISSUE => .REPLY
  | .REPLY => if p.intReplyReg then .END else .REPLY
  | .END => .IDLE

def interruptNext : Bool :=
  match p.state with
  | .ISSUE => true
  | .REPLY => if p.intReplyReg then false else p.interrupt
  | .IDLE | .END => p.interrupt

theorem cycle_state (hrst : i.rst = false) : (p.cycle i).state = p.stateNext := by
  obtain ⟨hstate, -⟩ := csrUpdate_fsm p i
  simp only [cycle, hrst, Bool.false_eq_true, if_false, intStep, stateNext]
  cases h : p.state with
  | IDLE | REPLY =>
      dsimp only
      split_ifs
      · rfl
      · exact hstate.trans h
  | ISSUE => dsimp only; split_ifs <;> rfl
  | END => rfl

theorem cycle_interrupt (hrst : i.rst = false) : (p.cycle i).interrupt = p.interruptNext := by
  obtain ⟨-, hinterrupt, -⟩ := csrUpdate_fsm p i
  simp only [cycle, hrst, Bool.false_eq_true, if_false, intStep, interruptNext]
  cases h : p.state with
  | IDLE => dsimp only; split_ifs <;> exact hinterrupt
  | REPLY =>
      dsimp only
      split_ifs
      · rfl
      · exact hinterrupt
  | ISSUE => dsimp only; split_ifs <;> rfl
  | END => exact hinterrupt

theorem cycle_sampled (hrst : i.rst = false) :
    (p.cycle i).mstatus = (p.csrUpdate i).mstatus ∧ (p.cycle i).intPending = p.intCond i ∧
      (p.cycle i).intReplyReg = i.intReply := by
  obtain ⟨hmstatus, hpending, hreply⟩ := intStep_sampled p (sample i p (p.csrUpdate i))
  simp only [cycle, hrst, Bool.false_eq_true, if_false, hmstatus, hpending, hreply]
  exact ⟨rfl, rfl, rfl⟩

private theorem intStep_csrs (q : Privilege) :
    (p.intStep q).mepc = q.mepc ∧ (p.intStep q).mepcReg = q.mepcReg ∧
      (p.intStep q).mcause = q.mcause := by
  unfold intStep
  cases p.state with
  | IDLE | ISSUE | REPLY => dsimp only; split_ifs <;> exact ⟨rfl, rfl, rfl⟩
  | END => exact ⟨rfl, rfl, rfl⟩

theorem cycle_csrs (hrst : i.rst = false) :
    (p.cycle i).mepc = (p.csrUpdate i).mepc ∧ (p.cycle i).mepcReg = p.mepc ∧
      (p.cycle i).mcause = (p.csrUpdate i).mcause := by
  obtain ⟨hmepc, hreg, hmcause⟩ := intStep_csrs p (sample i p (p.csrUpdate i))
  simp only [cycle, hrst, Bool.false_eq_true, if_false, hmepc, hreg, hmcause]
  exact ⟨rfl, rfl, rfl⟩

end Cycle

end Privilege

end PComputer.Rtl
