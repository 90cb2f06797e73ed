import PComputer.Rtl.Precise

/-!
# Cores that later phases cannot tell apart

The temporaries of the core live for a few phases only: each is reloaded in every
cycle and read by the phases of one instruction.  `Alike` relates two states of a
unit that agree on what is still to be read; one lemma per unit shows that a cycle
keeps it.  The CSR units may also differ in what a trap leaves behind: `MPIE`,
`mepc` and `mcause`.
-/

namespace PComputer.Rtl

open PComputer.Foundation

/-- The CSRs apart from what a trap leaves behind: `MPIE`, `mepc` and `mcause`. -/
def Csrs.untrapped (c : Csrs) : Csrs :=
  { c with mstatus := c.mstatus ||| 0x80, mepc := 0, mcause := 0 }

def Csrs.write (c : Csrs) (a : BitVec 12) (d : Word) : Csrs :=
  if a = 0x300 then
    { c with mstatus := Privilege.writeMasked c.mstatus Privilege.mstatusWriteMask d }
  else if a = 0x304 then { c with mie := Privilege.writeMasked c.mie Privilege.mieWriteMask d }
  else if a = 0x305 then
    { c with mtvec := Privilege.writeMasked c.mtvec Privilege.mtvecWriteMask d }
  else if a = 0x340 then { c with mscratch := d }
  else if a = 0x341 then { c with mepc := Privilege.writeMasked c.mepc Privilege.mepcWriteMask d }
  else if a = 0x342 then { c with mcause := d }
  else if a = 0x343 then { c with mtval := d }
  else if a = 0x344 then { c with mip := Privilege.writeMasked c.mip Privilege.mipWriteMask d }
  else c

def isTrapCsr (a : BitVec 12) : Prop := a = 0x300 ∨ a = 0x341 ∨ a = 0x342

instance (a : BitVec 12) : Decidable (isTrapCsr a) :=
  inferInstanceAs (Decidable (_ ∨ _ ∨ _))

theorem Csrs.untrapped_write (c : Csrs) {a : BitVec 12} (ha : ¬ isTrapCsr a) (d : Word) :
    (c.write a d).untrapped = c.untrapped.write a d := by
  simp only [isTrapCsr, not_or] at ha
  simp only [Csrs.write, ha, if_false, apply_ite Csrs.untrapped]
  rfl

/-! ## The multiplier -/

namespace Rv32m

/-- Equal but for the last result, as long as it is not valid. -/
structure Alike (s s' : Rv32m) : Prop where
  mreg : s.mreg = s'.mreg
  aext : s.aext = s'.aext
  bext : s.bext = s'.bext
  result : s.result = s'.result
  cnt : s.cnt = s'.cnt
  divfix : s.divfix = s'.divfix
  remfix : s.remfix = s'.remfix
  finish : s.finish = s'.finish
  r : s.finish = true → s.r = s'.r

theorem alike_start (s s' : Rv32m) (i : Rv32mIn) : (s.start i).Alike (s'.start i) := by
  refine ⟨rfl, rfl, rfl, rfl, rfl, rfl, rfl, rfl, fun h => ?_⟩
  cases h

variable {s s' : Rv32m} {i : Rv32mIn}

theorem Alike.eq (h : s.Alike s') : s' = { s with r := s'.r } := by
  obtain ⟨h₁, h₂, h₃, h₄, h₅, h₆, h₇, h₈, -⟩ := h
  cases s
  cases s'
  subst h₁ h₂ h₃ h₄ h₅ h₆ h₇ h₈
  rfl

theorem Alike.mulStep (h : s.Alike s') : s.mulStep.Alike s'.mulStep := by
  rw [h.eq]
  refine ⟨rfl, rfl, rfl, rfl, rfl, rfl, rfl, rfl, fun hfinish => ?_⟩
  change (if s.finishCond then true else s.finish) = true at hfinish
  change (if s.finishCond then _ else s.r) = if s.finishCond then _ else s'.r
  by_cases hcond : s.finishCond = true
  · rw [if_pos hcond, if_pos hcond]
  · rw [if_neg hcond] at hfinish ⊢
    rw [if_neg hcond]
    exact h.r hfinish

theorem Alike.divStep (h : s.Alike s') : s.divStep.Alike s'.divStep := by
  rw [h.eq]
  refine ⟨rfl, rfl, rfl, rfl, rfl, rfl, rfl, rfl, fun hfinish => ?_⟩
  change (if s.finishCond then true else s.finish) = true at hfinish
  change (if s.finishCond then _ else s.r) = if s.finishCond then _ else s'.r
  by_cases hcond : s.finishCond = true
  · rw [if_pos hcond, if_pos hcond]
    rfl
  · rw [if_neg hcond] at hfinish ⊢
    rw [if_neg hcond]
    exact h.r hfinish

theorem Alike.cycle (h : s.Alike s') {i' : Rv32mIn} (hstart : i.start = false)
    (hstart' : i'.start = false) : (s.cycle i).Alike (s'.cycle i') := by
  have hmode : s'.mulOrDiv = s.mulOrDiv := by rw [mulOrDiv, mulOrDiv, h.mreg]
  simp only [Rv32m.cycle, hstart, hstart', hmode, Bool.false_eq_true, if_false]
  split_ifs
  · exact h.mulStep
  · exact h.divStep

end Rv32m

/-! ## The CSR unit -/

namespace Privilege

variable {p p' : Privilege}

theorem csrs_csrWrite (p : Privilege) (a : BitVec 12) (d : Word) :
    (p.csrWrite a d).csrs = p.csrs.write a d := by
  simp only [csrWrite, Csrs.write, apply_ite Privilege.csrs]
  rfl

theorem mstatusEnter_congr {m m' : Word} (h : m ||| 0x80 = m' ||| 0x80) :
    mstatusEnter m = mstatusEnter m' := by
  have hbit (k : Nat) (hk : k ≠ 7) : m.getLsbD k = m'.getLsbD k := by
    have := congrArg (BitVec.getLsbD · k) h
    simp only [BitVec.getLsbD_or] at this
    by_cases hlt : k < 32
    · interval_cases k <;> simp_all
    · simp [BitVec.getLsbD_of_ge, Nat.not_lt.mp hlt]
  apply BitVec.eq_of_getLsbD_eq
  intro k hk
  simp only [mstatusEnter, BitVec.getLsbD_append, BitVec.getLsbD_extractLsb']
  split_ifs
  · rw [hbit _ (by omega)]
  · rfl
  · rw [hbit _ (by omega)]
  · rw [hbit _ (by omega)]
  · rw [hbit _ (by omega)]

private theorem mstatusMie_congr (h : p.csrs.untrapped = p'.csrs.untrapped) :
    p.mstatusMie = p'.mstatusMie := by
  have := congrArg (fun c => c.mstatus.getLsbD 3) h
  simpa [Csrs.untrapped, csrs, mstatusMie] using this

theorem spo_congr (h : p.csrs.untrapped = p'.csrs.untrapped) {a : BitVec 12} (ha : ¬ isTrapCsr a)
    (x : ReadX) (eip eipIstimer : Bool) : p.spo x eip eipIstimer a = p'.spo x eip eipIstimer a := by
  simp only [csrs, Csrs.untrapped, Csrs.mk.injEq] at h
  obtain ⟨-, h₂, h₃, h₄, h₅, -, -, h₈, h₉⟩ := h
  simp only [isTrapCsr, not_or] at ha
  simp only [spo, ha, if_false, h₂, h₃, h₄, h₅, h₈, h₉]

theorem spo_congr_csrs (h : p.csrs = p'.csrs) (x : ReadX) (eip eipIstimer : Bool)
    (a : BitVec 12) : p.spo x eip eipIstimer a = p'.spo x eip eipIstimer a := by
  simp only [csrs, Csrs.mk.injEq] at h
  obtain ⟨h₁, h₂, h₃, h₄, h₅, h₆, h₇, h₈, h₉⟩ := h
  simp only [spo, h₁, h₂, h₃, h₄, h₅, h₆, h₇, h₈, h₉]

/-- Equal as far as the next cycles read them; `fresh` once a trap has written its CSRs. -/
structure Alike (fresh : Prop) (p p' : Privilege) : Prop where
  csrs : p.csrs.untrapped = p'.csrs.untrapped
  trapped : fresh → p.csrs = p'.csrs
  state : p.state = p'.state
  interrupt : p.interrupt = p'.interrupt
  intPending : p.intPending = p'.intPending
  sources : p.intPending = true → p.eipReg = p'.eipReg ∧ p.eipIstimerReg = p'.eipIstimerReg ∧
    p.meieReg = p'.meieReg ∧ p.mtieReg = p'.mtieReg
  intSource : p.state = .ISSUE → p.intSource = p'.intSource
  intReplyReg : p.state = .REPLY → p.intReplyReg = p'.intReplyReg
  mcauseICode : p.interrupt = true → p.mcauseICode = p'.mcauseICode

private theorem csrUpdate_source (p : Privilege) (i : PrivilegeIn) :
    (p.csrUpdate i).intSource = p.intSource ∧ (p.csrUpdate i).mcauseICode = p.mcauseICode := by
  constructor
  · simp only [csrUpdate, csrWrite, csrReset, excEnter, excLeave, apply_ite Privilege.intSource,
      ite_self]
  · simp only [csrUpdate, csrWrite, csrReset, excEnter, excLeave, apply_ite Privilege.mcauseICode,
      ite_self]

section Cycle

variable {i i' : PrivilegeIn}

private theorem cycle_sources (hrst : i.rst = false) (p : Privilege) :
    (p.cycle i).eipReg = i.eip ∧ (p.cycle i).eipIstimerReg = i.eipIstimer ∧
      (p.cycle i).meieReg = p.meie ∧ (p.cycle i).mtieReg = p.mtie := by
  simp only [cycle, hrst, Bool.false_eq_true, if_false, intStep]
  cases p.state with
  | IDLE | ISSUE | REPLY => dsimp only; split_ifs <;> exact ⟨rfl, rfl, rfl, rfl⟩
  | END => exact ⟨rfl, rfl, rfl, rfl⟩

private theorem cycle_intSource (hrst : i.rst = false) (p : Privilege)
    (hissue : (p.cycle i).state = .ISSUE) :
    p.state = .IDLE ∧ p.intPending = true ∧ (p.cycle i).intSource =
      BitVec.ofBool (p.eipReg && !p.eipIstimerReg && p.meieReg) ++
        BitVec.ofBool (p.eipReg && p.eipIstimerReg && p.mtieReg) := by
  rw [cycle_state p hrst, stateNext] at hissue
  cases hst : p.state <;> simp only [hst] at hissue
  case IDLE =>
    split_ifs at hissue with hpending
    refine ⟨rfl, hpending, ?_⟩
    simp [cycle, hrst, intStep, hst, hpending]
  case REPLY => split_ifs at hissue
  all_goals cases hissue

theorem cycle_mcauseICode (hrst : i.rst = false) (p : Privilege) :
    (p.cycle i).mcauseICode =
      if p.state = .ISSUE then
        if p.intSource.getLsbD 1 then 11 else if p.intSource.getLsbD 0 then 7 else 3
      else p.mcauseICode := by
  obtain ⟨-, hcode⟩ := csrUpdate_source p i
  simp only [cycle, hrst, Bool.false_eq_true, if_false, intStep]
  cases h : p.state with
  | IDLE | REPLY =>
      simp only [reduceCtorEq, if_false]
      split_ifs <;> exact hcode
  | ISSUE =>
      simp only [if_true]
      split_ifs <;> rfl
  | END =>
      simp only [reduceCtorEq, if_false]
      exact hcode

private theorem intCond_congr (h : p.csrs.untrapped = p'.csrs.untrapped) (heip : i.eip = i'.eip)
    (htimer : i.eipIstimer = i'.eipIstimer) : p.intCond i = p'.intCond i' := by
  have hmie := mstatusMie_congr h
  simp only [Privilege.csrs, Csrs.untrapped, Csrs.mk.injEq] at h
  obtain ⟨-, -, h₃, -, -, -, -, -, h₉⟩ := h
  simp only [intCond, hmie, meie, mtie, msie, mipSip, h₃, h₉, heip, htimer]

/-- One cycle keeps the likeness if the CSR updates do. -/
theorem Alike.cycle {fresh fresh' : Prop} (h : p.Alike fresh p') (hrst : i.rst = false)
    (hrst' : i'.rst = false) (heip : i.eip = i'.eip) (htimer : i.eipIstimer = i'.eipIstimer)
    (hreply : i.intReply = i'.intReply)
    (hcsrs : (p.csrUpdate i).csrs.untrapped = (p'.csrUpdate i').csrs.untrapped)
    (htrapped : fresh' → (p.csrUpdate i).csrs = (p'.csrUpdate i').csrs) :
    (p.cycle i).Alike fresh' (p'.cycle i') := by
  have hstate : (p.cycle i).state = (p'.cycle i').state := by
    rw [cycle_state p hrst, cycle_state p' hrst', stateNext, stateNext, ← h.state, ← h.intPending]
    cases hst : p.state with
    | REPLY => simp only [h.intReplyReg hst]
    | _ => rfl
  refine ⟨?_, ?_, hstate, ?_, ?_, fun _ => ?_, fun hissue => ?_, fun _ => ?_, fun hint => ?_⟩
  · rw [csrs_cycle hrst, csrs_cycle hrst', hcsrs]
  · rw [csrs_cycle hrst, csrs_cycle hrst']
    exact htrapped
  · rw [cycle_interrupt p hrst, cycle_interrupt p' hrst', interruptNext, interruptNext, ← h.state,
      ← h.interrupt]
    cases hst : p.state with
    | REPLY => simp only [h.intReplyReg hst]
    | _ => rfl
  · rw [(cycle_sampled p hrst).2.1, (cycle_sampled p' hrst').2.1]
    exact intCond_congr h.csrs heip htimer
  · obtain ⟨h₁, h₂, h₃, h₄⟩ := cycle_sources hrst p
    obtain ⟨h₁', h₂', h₃', h₄'⟩ := cycle_sources hrst' p'
    have hmie : p.mie = p'.mie := congrArg Csrs.mie h.csrs
    rw [h₁, h₂, h₃, h₄, h₁', h₂', h₃', h₄', meie, meie, mtie, mtie, hmie]
    exact ⟨heip, htimer, rfl, rfl⟩
  · obtain ⟨-, hpending, hsource⟩ := cycle_intSource hrst p hissue
    obtain ⟨-, -, hsource'⟩ := cycle_intSource hrst' p' (hstate ▸ hissue)
    obtain ⟨h₁, h₂, h₃, h₄⟩ := h.sources hpending
    rw [hsource, hsource', h₁, h₂, h₃, h₄]
  · rw [(cycle_sampled p hrst).2.2, (cycle_sampled p' hrst').2.2, hreply]
  · rw [cycle_mcauseICode hrst, cycle_mcauseICode hrst', ← h.state]
    by_cases hissue : p.state = .ISSUE
    · rw [h.intSource hissue]
      split_ifs <;> rfl
    · rw [if_neg hissue, if_neg hissue]
      -- outside `ISSUE` the level does not rise
      refine h.mcauseICode ?_
      rw [cycle_interrupt p hrst, interruptNext] at hint
      cases hst : p.state <;> simp only [hst] at hint hissue
      case REPLY => split_ifs at hint; exact hint
      case ISSUE => exact absurd trivial hissue
      all_goals exact hint

end Cycle

end Privilege

/-! ## The core -/

namespace Core

/-- Past `ID_RF`, with the fetched instruction under way. -/
def Executing (c : Core) : Prop :=
  c.phase ≠ .IF ∧ c.phase ≠ .ID_RF ∧ (c.phase = .MEM_WAIT → c.phaseReturn ≠ .ID_RF)

def WaitsFor (c : Core) (phaseReturn : Phase) : Prop :=
  phaseReturn = .ID_RF ∨ phaseReturn = .EXU ∨ phaseReturn = .IF ∨
    (phaseReturn = .WB ∧ c.op = OP_LOAD)

/-- Equal as far as the phases to come read them. -/
structure Alike (c c' : Core) : Prop where
  phase : c.phase = c'.phase
  pc : c.pc = c'.pc
  regfile : c.regfile = c'.regfile
  instruction : c.phase ≠ .IF → c.instruction = c'.instruction
  mar : c.phase ≠ .IF → c.mar = c'.mar
  mdr : c.phase ≠ .IF → c.mdr = c'.mdr
  phaseReturn : c.phase ≠ .IF → c.phaseReturn = c'.phaseReturn
  A : c.Executing → c.A = c'.A
  B : c.Executing → c.B = c'.B
  ALUOut : c.Executing → c.ALUOut = c'.ALUOut
  mwr : c.Executing → c.mwr = c'.mwr
  oldpc : c.Executing → c.oldpc = c'.oldpc
  ALUOut2 : c.phase = .WB → c.op = OP_BR → c.ALUOut2 = c'.ALUOut2
  RV32MOut : c.phase = .WB → c.op = OP_R → c.isRV32M = true → c.RV32MOut = c'.RV32MOut
  csrr : c.phase = .WB → c.op = OP_PRIV → c.privCsr = true → c.csrr = c'.csrr
  mcauseCodeOut : c.phase = .EXCEPTION → c.mcauseCodeOut = c'.mcauseCodeOut
  multiplies : c.phase = .RV32M_WAIT → c.op = OP_R ∧ c.isRV32M = true
  returns : c.phase = .MEM_WAIT → c.WaitsFor c.phaseReturn

structure InAlike (c : Core) (i i' : CoreIn) : Prop where
  spo : i.spo = i'.spo
  ready : i.ready = i'.ready
  interrupt : i.interrupt = i'.interrupt
  idle : c.phase = .IF → i.ready = false
  csrSpo : c.phase = .EX → c.op = OP_PRIV → c.privCsr = true → i.csrSpo = i'.csrSpo
  mtvecIn : c.phase ≠ .IF → i.mtvecIn = i'.mtvecIn
  mepcIn : c.phase = .MRET → i.mepcIn = i'.mepcIn
  RV32MReady : c.phase = .RV32M_WAIT → i.RV32MReady = i'.RV32MReady
  RV32MResult : c.phase = .RV32M_WAIT → i.RV32MReady = true → i.RV32MResult = i'.RV32MResult

variable {c c' : Core} {i i' : CoreIn}

/-! ### What depends on the instruction alone -/

private theorem congr_instruction {β : Type} {f : Core → β} (h : c.instruction = c'.instruction)
    (hf : ∀ d : Core, f { c with instruction := d.instruction } = f d) : f c = f c' := by
  rw [← hf c', ← h]

theorem op_congr (h : c.instruction = c'.instruction) : c.op = c'.op :=
  congr_instruction h fun _ => rfl

private theorem bit_congr (h : c.instruction = c'.instruction) (k : Nat) : c.bit k = c'.bit k :=
  congr_instruction (f := (Core.bit · k)) h fun _ => rfl

theorem privCsr_congr (h : c.instruction = c'.instruction) : c.privCsr = c'.privCsr :=
  congr_instruction h fun _ => rfl

theorem phaseNextID_RF_congr (h : c.instruction = c'.instruction) (interrupt : Bool) :
    c.phaseNextID_RF interrupt = c'.phaseNextID_RF interrupt :=
  congr_instruction (f := (Core.phaseNextID_RF · interrupt)) h fun _ => rfl

/-! ### The outputs -/

theorem Alike.readData1 (h : c.Alike c') (hphase : c.phase ≠ .IF) :
    c.readData1 = c'.readData1 := by
  rw [Core.readData1, Core.readData1, h.instruction hphase, h.regfile]

theorem Alike.readData2 (h : c.Alike c') (hphase : c.phase ≠ .IF) :
    c.readData2 = c'.readData2 := by
  rw [Core.readData2, Core.readData2, h.instruction hphase, h.regfile]

theorem Alike.eq (h : c.Alike c') (hx : c.Executing) :
    c' = { c with
      ALUOut2 := c'.ALUOut2
      RV32MOut := c'.RV32MOut
      csrr := c'.csrr
      mcauseCodeOut := c'.mcauseCodeOut } := by
  have hIF := hx.1
  have h₁ := h.phase
  have h₂ := h.pc
  have h₃ := h.regfile
  have h₄ := h.instruction hIF
  have h₅ := h.mar hIF
  have h₆ := h.mdr hIF
  have h₇ := h.phaseReturn hIF
  have h₈ := h.A hx
  have h₉ := h.B hx
  have h₁₀ := h.ALUOut hx
  have h₁₁ := h.mwr hx
  have h₁₂ := h.oldpc hx
  cases c
  cases c'
  simp only at h₁ h₂ h₃ h₄ h₅ h₆ h₇ h₈ h₉ h₁₀ h₁₁ h₁₂
  subst h₁ h₂ h₃ h₄ h₅ h₆ h₇ h₈ h₉ h₁₀ h₁₁ h₁₂
  rfl

private theorem phase_kinds (c : Core) :
    c.phase = .IF ∨ c.phase = .ID_RF ∨ (c.phase = .MEM_WAIT ∧ c.phaseReturn = .ID_RF) ∨
      c.Executing := by
  by_cases hIF : c.phase = .IF
  · exact .inl hIF
  by_cases hid : c.phase = .ID_RF
  · exact .inr (.inl hid)
  by_cases hwait : c.phase = .MEM_WAIT ∧ c.phaseReturn = .ID_RF
  · exact .inr (.inr (.inl hwait))
  · exact .inr (.inr (.inr ⟨hIF, hid, fun h h' => hwait ⟨h, h'⟩⟩))

theorem Alike.control (h : c.Alike c') (ready : Bool) : c.control ready = c'.control ready := by
  rcases c.phase_kinds with hp | hp | ⟨hp, hreturn⟩ | hx
  · simp only [Core.control, hp, ← h.phase]
  · simp only [Core.control, hp, ← h.phase]
  · simp only [Core.control, hp, ← h.phase, ← h.phaseReturn (by simp [hp])]
  · rw [h.eq hx]
    rfl

theorem Alike.memAddr (h : c.Alike c') (ready : Bool) :
    c.memAddr (c.control ready) = c'.memAddr (c.control ready) := by
  rcases c.phase_kinds with hp | hp | ⟨hp, -⟩ | hx
  · simp [Core.memAddr, Core.control, hp, h.pc]
  · simp [Core.memAddr, Core.control, hp, h.pc]
  · simp [Core.memAddr, Core.control, hp, h.mar]
  · rw [h.eq hx]
    rfl

theorem Alike.rd (h : c.Alike c') : c.rd = c'.rd := by rw [Core.rd, Core.rd, h.control]

theorem Alike.we (h : c.Alike c') : c.we = c'.we := by rw [Core.we, Core.we, h.control]

theorem Alike.a (h : c.Alike c') : c.a = c'.a := by rw [Core.a, Core.a, h.memAddr, h.control]

theorem Alike.d (h : c.Alike c') (hx : c.Executing) : c.d = c'.d := by
  rw [h.eq hx]
  rfl

/-! ### One cycle -/

private theorem Alike.advance_IF (h : c.Alike c') (hi : c.InAlike i i') (hp : c.phase = .IF) :
    (c.advance i).Alike (c'.advance i') := by
  have hp' : c'.phase = .IF := h.phase.symm.trans hp
  have hready := hi.idle hp
  have hready' : i'.ready = false := hi.ready.symm.trans hready
  have hphase : (c.advance i).phase = .MEM_WAIT := by
    simp [Core.phaseNext, hp, hready]
  have hreturn : (c.advance i).phaseReturn = .ID_RF := by
    simp [Core.phaseReturnNext, hp, hready]
  have hnot : ¬ (c.advance i).Executing := fun hx => hx.2.2 hphase hreturn
  constructor
  case phase => simp [Core.phaseNext, hp, hp', hready, hready']
  case pc => simp [Core.control, hp, hp', h.pc]
  case regfile => simp [Core.control, hp, hp', h.regfile]
  case instruction => simp [Core.control, hp, hp', hi.spo]
  case mar => simp [Core.control, Core.memAddr, hp, hp', h.pc]
  case mdr => simp [hi.spo]
  case phaseReturn => simp [Core.phaseReturnNext, hp, hp', hready, hready']
  case returns => exact fun _ => .inl hreturn
  all_goals first | exact fun hx => absurd hx hnot | (rw [hphase]; simp)

private theorem Alike.advance_fetch (h : c.Alike c') (hi : c.InAlike i i')
    (hp : c.phase = .MEM_WAIT)
    (hr : c.phaseReturn = .ID_RF) : (c.advance i).Alike (c'.advance i') := by
  have hp' : c'.phase = .MEM_WAIT := h.phase.symm.trans hp
  have hIF : c.phase ≠ .IF := by simp [hp]
  have hr' : c'.phaseReturn = .ID_RF := (h.phaseReturn hIF).symm.trans hr
  have hphase : (c.advance i).phase = if i.ready then .ID_RF else .MEM_WAIT := by
    simp [Core.phaseNext, hp, hr]
  have hreturn : (c.advance i).phaseReturn = .ID_RF := by
    simp [Core.phaseReturnNext, hp, hr]
  have hnot : ¬ (c.advance i).Executing := by
    rintro ⟨-, hid, hwait⟩
    rw [hphase] at hid hwait
    split_ifs at hid hwait
    · exact hid rfl
    · exact hwait rfl hreturn
  constructor
  case phase => simp [Core.phaseNext, hp, hp', hr, hr', hi.ready]
  case pc => simp [Core.control, hp, hp', h.pc]
  case regfile => simp [Core.control, hp, hp', h.regfile]
  case instruction =>
      simp [Core.control, hp, hp', hr, hr', hi.spo, hi.ready, h.instruction hIF]
  case mar => simp [Core.control, Core.memAddr, hp, hp', h.mar hIF]
  case mdr => simp [hi.spo]
  case phaseReturn => simp [Core.phaseReturnNext, hp, hp', hr, hr']
  case returns => exact fun _ => .inl hreturn
  all_goals first
    | exact fun hx => absurd hx hnot
    | (rw [hphase]; split_ifs <;> simp)

private theorem phaseNextID_RF_eq_WB {interrupt : Bool} (h : c.phaseNextID_RF interrupt = .WB) :
    c.op = OP_LUI ∨ c.op = OP_AUIPC ∨ c.op = OP_JAL := by
  unfold phaseNextID_RF at h
  split_ifs at h with _ _ _ _ _ hop
  exact hop

private theorem phaseNextID_RF_eq_EXCEPTION {interrupt : Bool}
    (h : c.phaseNextID_RF interrupt = .EXCEPTION) :
    c.op = OP_PRIV ∧ (c.privEbreak = true ∨ c.privEcall = true) := by
  unfold phaseNextID_RF at h
  split_ifs at h with _ _ _ hebreak hecall
  · exact ⟨hebreak.1, .inl hebreak.2⟩
  · exact ⟨hecall.1, .inr hecall.2⟩

private theorem phaseNextID_RF_ne (interrupt : Bool) : c.phaseNextID_RF interrupt ≠ .MEM_WAIT ∧
    c.phaseNextID_RF interrupt ≠ .RV32M_WAIT := by
  unfold phaseNextID_RF
  split_ifs <;> simp

private theorem mcauseCodeNext_congr (h : c.instruction = c'.instruction) (hop : c.op = OP_PRIV)
    (htrap : c.privEbreak = true ∨ c.privEcall = true) :
    c.mcauseCodeNext = c'.mcauseCodeNext := by
  have hebreak : c.privEbreak = c'.privEbreak := congr_instruction h fun _ => rfl
  have hecall : c.privEcall = c'.privEcall := congr_instruction h fun _ => rfl
  rw [mcauseCodeNext, mcauseCodeNext, ← op_congr h, ← hebreak, ← hecall, if_pos hop, if_pos hop]
  rcases htrap with htrap | htrap
  · rw [if_pos htrap, if_pos htrap]
  · rw [if_pos htrap, if_pos htrap]

private theorem Alike.advance_ID_RF (h : c.Alike c') (hi : c.InAlike i i') (hp : c.phase = .ID_RF) :
    (c.advance i).Alike (c'.advance i') := by
  have hp' : c'.phase = .ID_RF := h.phase.symm.trans hp
  have hIF : c.phase ≠ .IF := by simp [hp]
  have hinstruction := h.instruction hIF
  have hphase : (c.advance i).phase = c.phaseNextID_RF i.interrupt := by
    simp [Core.phaseNext, hp]
  have hphase' : (c'.advance i').phase = c'.phaseNextID_RF i'.interrupt := by
    simp [Core.phaseNext, hp']
  have hword : (c.advance i).instruction = c.instruction := by
    simp [Core.control, hp]
  have hne := c.phaseNextID_RF_ne i.interrupt
  -- the instructions that go straight to `WB` read none of the results
  have hwb (hWB : (c.advance i).phase = .WB) :
      (c.advance i).op = OP_LUI ∨ (c.advance i).op = OP_AUIPC ∨ (c.advance i).op = OP_JAL := by
    rw [op_congr hword]
    exact phaseNextID_RF_eq_WB (hphase.symm.trans hWB)
  constructor
  case phase => rw [hphase, hphase', ← hi.interrupt, phaseNextID_RF_congr hinstruction]
  case pc => simp [Core.control, Core.newpc, hp, hp', h.pc]
  case regfile => simp [Core.control, hp, hp', h.regfile]
  case instruction => simp [Core.control, hp, hp', hinstruction]
  case mar => simp [Core.control, Core.memAddr, hp, hp', h.pc]
  case mdr => simp [hi.spo]
  case phaseReturn =>
      simp [Core.phaseReturnNext, hp, hp', h.phaseReturn hIF]
  case A => exact fun _ => h.readData1 hIF
  case B => exact fun _ => h.readData2 hIF
  case ALUOut =>
      simp [Core.control, Core.ALUIn1, Core.ALUIn2, hp, hp', h.pc,
        System.imm_congr hinstruction]
  case mwr =>
      simp [Core.control, Core.memwriteData, Core.storebyte, hp, hp', h.mar hIF,
        h.mdr hIF, h.readData2 hIF]
  case oldpc => simp [Core.control, hp, hp', h.pc]
  case ALUOut2 | RV32MOut | csrr =>
      intro hWB hop
      have hshort := hwb hWB
      rw [hop] at hshort
      simp at hshort
  case mcauseCodeOut =>
      intro hexception
      obtain ⟨hop, htrap⟩ := phaseNextID_RF_eq_EXCEPTION (hphase.symm.trans hexception)
      exact mcauseCodeNext_congr hinstruction hop htrap
  case multiplies => exact fun hwait => absurd (hphase.symm.trans hwait) hne.2
  case returns => exact fun hwait => absurd (hphase.symm.trans hwait) hne.1

/-! ### What `pc` and the registers are written with -/

private theorem controlEX_PCSrc : c.controlEX.PCSrc = 0 := by
  simp only [controlEX, apply_ite Control.PCSrc, ite_self]

private theorem controlMEM_PCSrc : c.controlMEM.PCSrc = 0 := by
  simp only [controlMEM, apply_ite Control.PCSrc, ite_self]

private theorem controlWB_PCSrc : c.controlWB.PCSrc =
    if c.op = OP_JAL then 2 else if c.op = OP_JALR then 3 else if c.op = OP_BR then 1 else 0 := by
  by_cases hjal : c.op = OP_JAL
  · simp [controlWB, hjal]
  by_cases hjalr : c.op = OP_JALR
  · simp [controlWB, hjalr]
  by_cases hbr : c.op = OP_BR
  · simp [controlWB, hbr]
  · simp only [controlWB, hjal, hjalr, hbr, if_false, apply_ite Control.PCSrc, ite_self]

private theorem PCSrc_branch {ready : Bool} (h : (c.control ready).PCSrc = 1) :
    c.phase = .WB ∧ c.op = OP_BR := by
  cases hp : c.phase with
  | WB =>
      refine ⟨rfl, ?_⟩
      simp only [Core.control, hp, controlWB_PCSrc] at h
      by_contra hbr
      rw [if_neg hbr] at h
      split_ifs at h <;> cases h
  | EX => simp [Core.control, hp, controlEX_PCSrc] at h
  | MEM => simp [Core.control, hp, controlMEM_PCSrc] at h
  | _ => simp [Core.control, hp] at h

private theorem PCSrc_mret {ready : Bool} (h : (c.control ready).PCSrc = 5) : c.phase = .MRET := by
  cases hp : c.phase with
  | WB =>
      simp only [Core.control, hp, controlWB_PCSrc] at h
      split_ifs at h <;> cases h
  | EX => simp [Core.control, hp, controlEX_PCSrc] at h
  | MEM => simp [Core.control, hp, controlMEM_PCSrc] at h
  | MRET => rfl
  | _ => simp [Core.control, hp] at h

private theorem load_RegSrc (w : BitVec 2) :
    (0#1 ++ 1#1 ++ w = 7#4 → w = 3) ∧ 0#1 ++ 1#1 ++ w ≠ 8#4 := by
  decide +revert

private theorem RegSrc_multiplier (h : c.controlWB.RegSrc = 7) :
    (c.op = OP_R ∧ c.isRV32M = true) ∨
      (c.op = OP_LOAD ∧ c.instruction.extractLsb' 12 2 = 3) := by
  by_cases hload : c.op = OP_LOAD
  · refine .inr ⟨hload, (load_RegSrc _).1 ?_⟩
    simpa [controlWB, hload] using h
  by_cases hM : c.op = OP_R ∧ c.isRV32M = true
  · exact .inl hM
  · simp only [controlWB, hload, hM, if_false, apply_ite Control.RegSrc] at h
    split_ifs at h <;> cases h

private theorem RegSrc_csr (h : c.controlWB.RegSrc = 8) : c.op = OP_PRIV ∧ c.privCsr = true := by
  by_cases hload : c.op = OP_LOAD
  · refine absurd ?_ (load_RegSrc (c.instruction.extractLsb' 12 2)).2
    simpa [controlWB, hload] using h
  by_cases hcsr : c.op = OP_PRIV ∧ c.privCsr = true
  · exact hcsr
  · simp only [controlWB, hload, hcsr, if_false, apply_ite Control.RegSrc] at h
    split_ifs at h <;> cases h

theorem Alike.newpc (h : c.Alike c') (hi : c.InAlike i i') (hx : c.Executing) (ready : Bool) :
    c.newpc (c.control ready) i = c'.newpc (c.control ready) i' := by
  unfold Core.newpc
  split_ifs with h₀ h₁ h₂ h₃ h₄ h₅
  · rw [h.pc]
  · exact h.ALUOut2 (PCSrc_branch h₁).1 (PCSrc_branch h₁).2
  · exact h.ALUOut hx
  · rw [h.ALUOut hx]
  · rw [hi.mtvecIn hx.1]
  · exact hi.mepcIn (PCSrc_mret h₅)
  · rfl

theorem Alike.writeData (h : c.Alike c') (hp : c.phase = .WB)
    (hload : c.op = OP_LOAD → c.instruction.extractLsb' 12 2 ≠ 3) :
    c.writeData c.controlWB = c'.writeData c.controlWB := by
  have hx : c.Executing := ⟨by simp [hp], by simp [hp], by simp [hp]⟩
  have hbyte : c.loadbyte = c'.loadbyte := by
    rw [h.eq hx]
    rfl
  have hhalf : c.loadhalf = c'.loadhalf := by
    rw [h.eq hx]
    rfl
  unfold Core.writeData
  split_ifs with h₀ h₂ h₃ h₄ h₅ h₆ h₇ h₈
  · exact h.ALUOut hx
  · exact System.imm_congr (h.instruction hx.1)
  · exact h.pc
  · exact hbyte
  · exact hhalf
  · exact h.mdr hx.1
  · rcases RegSrc_multiplier h₇ with hM | ⟨hop, hreserved⟩
    · exact h.RV32MOut hp hM.1 hM.2
    · exact absurd hreserved (hload hop)
  · exact h.csrr hp (RegSrc_csr h₈).1 (RegSrc_csr h₈).2
  · rfl

theorem Alike.ALUIn1 (h : c.Alike c') (hx : c.Executing) (ctl : Control) :
    c.ALUIn1 ctl = c'.ALUIn1 ctl := by
  rw [h.eq hx]
  rfl

private theorem ALUSrcB_csr {ready : Bool} (h : (c.control ready).ALUSrcB = 2) :
    c.phase = .EX ∧ c.op = OP_PRIV ∧ c.privCsr = true := by
  cases hp : c.phase with
  | EX =>
      refine ⟨rfl, ?_⟩
      by_contra hcsr
      simp only [Core.control, hp, controlEX, hcsr, if_false, apply_ite Control.ALUSrcB] at h
      split_ifs at h <;> cases h
  | WB =>
      simp only [Core.control, hp, controlWB, apply_ite Control.ALUSrcB, ite_self] at h
      cases h
  | MEM =>
      simp only [Core.control, hp, controlMEM, apply_ite Control.ALUSrcB, ite_self] at h
      cases h
  | _ => simp [Core.control, hp] at h

theorem Alike.ALUIn2 (h : c.Alike c') (hi : c.InAlike i i') (hx : c.Executing) (ready : Bool) :
    c.ALUIn2 (c.control ready) i = c'.ALUIn2 (c.control ready) i' := by
  unfold Core.ALUIn2
  split_ifs with h₀ h₁ h₂
  · exact h.B hx
  · exact System.imm_congr (h.instruction hx.1)
  · obtain ⟨hp, hop, hcsr⟩ := ALUSrcB_csr h₂
    exact hi.csrSpo hp hop hcsr
  · exact h.B hx

private theorem phaseNext_eq_WB (hx : c.Executing)
    (hreturns : c.phase = .MEM_WAIT → c.WaitsFor c.phaseReturn)
    (h : c.phaseNext i = .WB) :
    (c.phase = .EX ∧ ¬ (c.op = OP_R ∧ c.isRV32M = true)) ∨
      (c.phase = .RV32M_WAIT ∧ i.RV32MReady = true) ∨
      (c.phase = .MEM_WAIT ∧ c.op = OP_LOAD) := by
  cases hp : c.phase with
  | IF => exact absurd hp hx.1
  | ID_RF => exact absurd hp hx.2.1
  | EX =>
      simp only [Core.phaseNext, hp] at h
      split_ifs at h with hmem hM
      exact .inl ⟨rfl, hM⟩
  | RV32M_WAIT =>
      simp only [Core.phaseNext, hp] at h
      split_ifs at h with hready
      exact .inr (.inl ⟨rfl, hready⟩)
  | MEM_WAIT =>
      simp only [Core.phaseNext, hp] at h
      split_ifs at h
      rcases hreturns hp with hr | hr | hr | ⟨-, hop⟩
      · simp [hr] at h
      · simp [hr] at h
      · simp [hr] at h
      · exact .inr (.inr ⟨rfl, hop⟩)
  | _ => simp [Core.phaseNext, hp] at h

private theorem RegWrite_WB {ready : Bool} (h : (c.control ready).RegWrite = true) :
    c.phase = .WB := by
  cases hp : c.phase with
  | WB => rfl
  | EX => simp [Core.control, hp, c.controlEX_idle] at h
  | MEM =>
      simp only [Core.control, hp, controlMEM, apply_ite Control.RegWrite, ite_self] at h
      cases h
  | _ => simp [Core.control, hp] at h

private theorem IRWrite_executing (hx : c.Executing) (ready : Bool) :
    (c.control ready).IRWrite = false := by
  cases hp : c.phase with
  | IF => exact absurd hp hx.1
  | MEM_WAIT => simp [Core.control, hp, hx.2.2 hp]
  | EX => simp [Core.control, hp, c.controlEX_idle]
  | MEM => simp only [Core.control, hp, controlMEM, apply_ite Control.IRWrite, ite_self]
  | WB => simp [Core.control, hp, c.controlWB_idle]
  | _ => simp [Core.control, hp]

private theorem csrsave_EX (hp : c.phase = .EX) (hop : c.op = OP_PRIV) (hcsr : c.privCsr = true)
    (ready : Bool) : (c.control ready).csrsave = true := by
  simp [Core.control, hp, controlEX, hop, hcsr]

theorem Alike.phaseNext (h : c.Alike c') (hi : c.InAlike i i') (hx : c.Executing) :
    c.phaseNext i = c'.phaseNext i' := by
  rw [h.eq hx]
  cases hp : c.phase with
  | IF => exact absurd hp hx.1
  | ID_RF => exact absurd hp hx.2.1
  | MEM_WAIT => simp only [Core.phaseNext, hp, hi.ready]
  | RV32M_WAIT => simp only [Core.phaseNext, hp, hi.RV32MReady hp]
  | EX =>
      simp only [Core.phaseNext, hp]
      rfl
  | _ => simp only [Core.phaseNext, hp]

theorem Alike.phaseReturnNext (h : c.Alike c') (hx : c.Executing) :
    c.phaseReturnNext i = c'.phaseReturnNext i' := by
  rw [h.eq hx]
  cases hp : c.phase with
  | IF => exact absurd hp hx.1
  | MEM =>
      simp only [Core.phaseReturnNext, hp]
      rfl
  | _ => simp only [Core.phaseReturnNext, hp]

private theorem phaseNext_executing (hx : c.Executing)
    (hreturns : c.phase = .MEM_WAIT → c.WaitsFor c.phaseReturn)
    (hmultiplies : c.phase = .RV32M_WAIT → c.op = OP_R ∧ c.isRV32M = true) :
    c.phaseNext i ≠ .EXCEPTION ∧
      (c.phaseNext i = .RV32M_WAIT → c.op = OP_R ∧ c.isRV32M = true) := by
  cases hp : c.phase with
  | IF => exact absurd hp hx.1
  | ID_RF => exact absurd hp hx.2.1
  | EX =>
      simp only [Core.phaseNext, hp]
      split_ifs with hmem hM
      · simp
      · exact ⟨by simp, fun _ => hM⟩
      · simp
  | RV32M_WAIT =>
      simp only [Core.phaseNext, hp]
      split_ifs
      · simp
      · exact ⟨by simp, fun _ => hmultiplies hp⟩
  | MEM_WAIT =>
      simp only [Core.phaseNext, hp]
      split_ifs
      · rcases hreturns hp with hr | hr | hr | ⟨hr, -⟩ <;> simp [hr]
      · simp
  | _ => simp [Core.phaseNext, hp]

theorem phaseNext_eq_RV32M_WAIT (hreturns : c.phase = .MEM_WAIT → c.WaitsFor c.phaseReturn)
    (h : c.phaseNext i = .RV32M_WAIT) : c.phase = .EX ∨ c.phase = .RV32M_WAIT := by
  cases hp : c.phase with
  | EX => exact .inl rfl
  | RV32M_WAIT => exact .inr rfl
  | MEM_WAIT =>
      simp only [Core.phaseNext, hp] at h
      split_ifs at h
      rcases hreturns hp with hr | hr | hr | ⟨hr, -⟩ <;> simp [hr] at h
  | ID_RF =>
      exact absurd (by simpa [Core.phaseNext, hp] using h) (c.phaseNextID_RF_ne i.interrupt).2
  | IF =>
      simp only [Core.phaseNext, hp] at h
      split_ifs at h
  | _ => simp [Core.phaseNext, hp] at h

private theorem returns_executing (hx : c.Executing)
    (hreturns : c.phase = .MEM_WAIT → c.WaitsFor c.phaseReturn)
    (h : c.phaseNext i = .MEM_WAIT) :
    c.WaitsFor ((c.phaseReturnNext i).getD c.phaseReturn) := by
  cases hp : c.phase with
  | IF => exact absurd hp hx.1
  | ID_RF => exact absurd hp hx.2.1
  | MEM =>
      simp only [Core.phaseReturnNext, hp]
      split_ifs with hload hstore
      · exact .inr (.inr (.inr ⟨rfl, hload⟩))
      · exact .inr (.inl rfl)
      · exact .inr (.inr (.inl rfl))
  | MEMU => exact .inr (.inr (.inl (by simp [Core.phaseReturnNext, hp])))
  | MEM_WAIT => simpa [Core.phaseReturnNext, hp] using hreturns hp
  | EX | RV32M_WAIT =>
      simp only [Core.phaseNext, hp] at h
      split_ifs at h
  | _ => simp [Core.phaseNext, hp] at h

private theorem Alike.advance_executing (h : c.Alike c') (hi : c.InAlike i i') (hx : c.Executing)
    (hload : c.phase = .WB → c.op = OP_LOAD → c.instruction.extractLsb' 12 2 ≠ 3) :
    (c.advance i).Alike (c'.advance i') := by
  have hctl : c'.control i'.ready = c.control i.ready := by rw [← hi.ready, h.control]
  have hword : (c.advance i).instruction = c.instruction := by
    simp [IRWrite_executing hx]
  have hphase : (c.advance i).phase = c.phaseNext i := rfl
  have hwb (hWB : (c.advance i).phase = .WB) := phaseNext_eq_WB hx h.returns hWB
  constructor
  case phase => exact h.phaseNext hi hx
  case pc =>
      simp only [advance_pc, hctl, h.newpc hi hx, h.pc]
  case regfile =>
      simp only [advance_regfile, hctl, h.regfile, h.instruction hx.1]
      cases hw : (c.control i.ready).RegWrite with
      | false => simp
      | true =>
          have hp := RegWrite_WB hw
          have hcontrol : c.control i.ready = c.controlWB := by simp [Core.control, hp]
          rw [hcontrol, h.writeData hp (hload hp)]
  case instruction =>
      intro _
      rw [hword, h.instruction hx.1]
      simp [hctl, IRWrite_executing hx]
  case mar => exact fun _ => by simp only [advance_mar, hctl, h.memAddr]
  case mdr => simp [hi.spo]
  case phaseReturn =>
      exact fun _ => by
        rw [advance_phaseReturn, advance_phaseReturn, h.phaseReturnNext hx, h.phaseReturn hx.1]
  case A => exact fun _ => h.readData1 hx.1
  case B => exact fun _ => h.readData2 hx.1
  case ALUOut =>
      exact fun _ => by simp only [advance_ALUOut, hctl, h.ALUIn1 hx, h.ALUIn2 hi hx]
  case mwr =>
      intro _
      simp only [advance_mwr, hctl]
      rw [h.eq hx]
      rfl
  case oldpc => exact fun _ => by simp only [advance_oldpc, hctl, h.pc, h.oldpc hx]
  case ALUOut2 => exact fun _ _ => h.ALUOut hx
  case RV32MOut =>
      intro hWB hop hM
      rw [op_congr hword] at hop
      rw [show (c.advance i).isRV32M = c.isRV32M from bit_congr hword 25] at hM
      rcases hwb hWB with ⟨-, hnot⟩ | ⟨hp, hready⟩ | ⟨-, hop'⟩
      · exact absurd ⟨hop, hM⟩ hnot
      · exact hi.RV32MResult hp hready
      · rw [hop] at hop'
        simp at hop'
  case csrr =>
      intro hWB hop hcsr
      rw [op_congr hword] at hop
      rw [privCsr_congr hword] at hcsr
      rcases hwb hWB with ⟨hp, -⟩ | ⟨hp, -⟩ | ⟨-, hop'⟩
      · simp only [advance_csrr, hctl, csrsave_EX hp hop hcsr, if_true]
        exact hi.csrSpo hp hop hcsr
      · have hop' := (h.multiplies hp).1
        rw [hop] at hop'
        simp at hop'
      · rw [hop] at hop'
        simp at hop'
  case mcauseCodeOut =>
      exact fun hexception =>
        absurd hexception (phaseNext_executing hx h.returns h.multiplies).1
  case multiplies =>
      intro hwait
      rw [op_congr hword, show (c.advance i).isRV32M = c.isRV32M from bit_congr hword 25]
      exact (phaseNext_executing hx h.returns h.multiplies).2 hwait
  case returns =>
      intro hwait
      unfold WaitsFor
      rw [op_congr hword]
      exact returns_executing hx h.returns hwait

theorem Alike.advance (h : c.Alike c') (hi : c.InAlike i i')
    (hload : c.phase = .WB → c.op = OP_LOAD → c.instruction.extractLsb' 12 2 ≠ 3) :
    (c.advance i).Alike (c'.advance i') := by
  rcases c.phase_kinds with hp | hp | ⟨hp, hr⟩ | hx
  · exact h.advance_IF hi hp
  · exact h.advance_ID_RF hi hp
  · exact h.advance_fetch hi hp hr
  · exact h.advance_executing hi hx hload

end Core

end PComputer.Rtl
