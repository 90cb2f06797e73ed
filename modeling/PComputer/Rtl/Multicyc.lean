import PComputer.Rtl.Alu
import PComputer.Rtl.Privilege
import PComputer.Rtl.RegisterFile
import PComputer.Rtl.Rv32m

/-!
# `riscv-multicyc.v`

The multicycle core with its register file, its control FSM and its datapath,
and the module `riscv_multicyc` that wires it to `privilege` and `rv32m` (the
configuration with `RV32M` and `IRQ_EN` defined).
-/

namespace PComputer.Rtl

open PComputer.Foundation

inductive Phase where
  | IF | ID_RF | EX | MEM | EXU | MEMU | WB | MEM_WAIT | RV32M_WAIT
  | INTERRUPT | EXCEPTION | MRET | BAD
  deriving DecidableEq, Repr, Inhabited

def startAddr : Word := 0xf0000000

def invalidAddr : Word := 0xffffffff

structure Core where
  pc : Word
  oldpc : Word
  instruction : Word
  A : Word
  B : Word
  ALUOut : Word
  ALUOut2 : Word
  RV32MOut : Word
  mar : Word
  mwr : Word
  mdr : Word
  csrr : Word
  mcauseCodeOut : BitVec 4
  phase : Phase
  phaseReturn : Phase
  regfile : RegisterFile
  deriving Inhabited

structure CoreIn where
  rst : Bool
  spo : Word
  ready : Bool
  csrSpo : Word
  mtvecIn : Word
  mepcIn : Word
  interrupt : Bool
  RV32MReady : Bool
  RV32MResult : Word

/-- The control signals, with the defaults that every cycle starts from. -/
structure Control where
  PCWrite : Bool := false
  PCSrc : BitVec 3 := 0
  IorDorW : BitVec 2 := 0
  MemRead : Bool := false
  MemWrite : Bool := false
  MemSrc : BitVec 2 := 0
  IRWrite : Bool := false
  ALUm : BitVec 4 := 0
  ALUSrcA : BitVec 2 := 0
  ALUSrcB : BitVec 2 := 0
  RegWrite : Bool := false
  RegSrc : BitVec 4 := 0
  PCOutSrc : Bool := false
  RV32MStart : Bool := false
  csrWe : Bool := false
  csrsave : Bool := false
  onExcEnter : Bool := false
  onExcLeave : Bool := false
  onExcIsint : Bool := false
  intReply : Bool := false

namespace Core

/-! ## Instruction fields -/

@[simp] def OP_LUI : BitVec 7 := 0b0110111
@[simp] def OP_AUIPC : BitVec 7 := 0b0010111
@[simp] def OP_JAL : BitVec 7 := 0b1101111
@[simp] def OP_JALR : BitVec 7 := 0b1100111
@[simp] def OP_BR : BitVec 7 := 0b1100011
@[simp] def OP_LOAD : BitVec 7 := 0b0000011
@[simp] def OP_STORE : BitVec 7 := 0b0100011
@[simp] def OP_R_I : BitVec 7 := 0b0010011
@[simp] def OP_R : BitVec 7 := 0b0110011
@[simp] def OP_FENCE : BitVec 7 := 0b0001111
@[simp] def OP_PRIV : BitVec 7 := 0b1110011

variable (c : Core)

def op : BitVec 7 := c.instruction.extractLsb' 0 7

def funct3 : BitVec 3 := c.instruction.extractLsb' 12 3

def bit (k : Nat) : Bool := c.instruction.getLsbD k

def signBits (n : Nat) : BitVec n := fill n (c.bit 31)

def immI : Word := c.signBits 21 ++ c.instruction.extractLsb' 20 11

def immB : Word :=
  c.signBits 20 ++ c.instruction.extractLsb' 7 1 ++ c.instruction.extractLsb' 25 6 ++
    c.instruction.extractLsb' 8 4 ++ 0#1

def immJ : Word :=
  c.signBits 12 ++ c.instruction.extractLsb' 12 8 ++ c.instruction.extractLsb' 20 1 ++
    c.instruction.extractLsb' 21 10 ++ 0#1

def immU : Word := c.instruction.extractLsb' 12 20 ++ 0#12

def immS : Word :=
  c.signBits 21 ++ c.instruction.extractLsb' 25 6 ++ c.instruction.extractLsb' 7 5

def imm : Word :=
  if c.op = OP_LUI ∨ c.op = OP_AUIPC then c.immU
  else if c.op = OP_R_I ∨ c.op = OP_LOAD ∨ c.op = OP_JALR then c.immI
  else if c.op = OP_BR then c.immB
  else if c.op = OP_JAL then c.immJ
  else if c.op = OP_STORE then c.immS
  else 0

def instSrai : Bool := c.funct3 == 0b101 && c.op == OP_R_I && c.bit 30

def isRV32M : Bool := c.bit 25

def storeUnaligned : Bool := !c.bit 13

def privCsr : Bool := c.funct3 != 0

def privWfi : Bool := c.funct3 == 0 && c.bit 28 && !c.bit 25 && !c.bit 29

def privMret : Bool := c.funct3 == 0 && c.bit 28 && !c.bit 25 && c.bit 29

def privSfencevma : Bool := c.funct3 == 0 && c.bit 28 && c.bit 25

def privEcall : Bool := c.funct3 == 0 && !c.bit 28 && !c.bit 20

def privEbreak : Bool := c.funct3 == 0 && !c.bit 28 && c.bit 20

def csrimm : Word := (c.instruction.extractLsb' 15 5).setWidth 32

def readData1 : Word := c.regfile.read (c.instruction.extractLsb' 15 5)

def readData2 : Word := c.regfile.read (c.instruction.extractLsb' 20 5)

/-! ## Sub-word loads and stores -/

def loadbyteByte : BitVec 8 :=
  if byteOffset c.mar = 0b00 then c.mdr.extractLsb' 0 8
  else if byteOffset c.mar = 0b01 then c.mdr.extractLsb' 8 8
  else if byteOffset c.mar = 0b10 then c.mdr.extractLsb' 16 8
  else c.mdr.extractLsb' 24 8

def storebyte : Word :=
  let value := c.readData2.extractLsb' 0 8
  if byteOffset c.mar = 0b00 then c.mdr.extractLsb' 8 24 ++ value
  else if byteOffset c.mar = 0b01 then c.mdr.extractLsb' 16 16 ++ value ++ c.mdr.extractLsb' 0 8
  else if byteOffset c.mar = 0b10 then c.mdr.extractLsb' 24 8 ++ value ++ c.mdr.extractLsb' 0 16
  else value ++ c.mdr.extractLsb' 0 24

def loadhalfHalf : BitVec 16 :=
  if c.mar.getLsbD 1 then c.mdr.extractLsb' 16 16 else c.mdr.extractLsb' 0 16

def storehalf : Word :=
  let value := c.readData2.extractLsb' 0 16
  if c.mar.getLsbD 1 then value ++ c.mdr.extractLsb' 0 16 else c.mdr.extractLsb' 16 16 ++ value

/-- `nse`, bit 14, selects zero extension. -/
def loadbyte : Word :=
  if c.bit 14 then 0#24 ++ c.loadbyteByte
  else fill 24 (c.loadbyteByte.getLsbD 7) ++ c.loadbyteByte

def loadhalf : Word :=
  if c.bit 14 then 0#16 ++ c.loadhalfHalf
  else fill 16 (c.loadhalfHalf.getLsbD 15) ++ c.loadhalfHalf

/-! ## Control signals -/

def controlEX : Control :=
  let base : Control := { RV32MStart := true }
  if c.op = OP_R then { base with ALUm := c.instruction.extractLsb' 30 1 ++ c.funct3 }
  else if c.op = OP_R_I then
    { base with ALUm := BitVec.ofBool c.instSrai ++ c.funct3, ALUSrcB := 1 }
  else if c.op = OP_JALR then { base with ALUSrcB := 1 }
  else if c.op = OP_BR then
    { base with ALUm := if c.bit 14 then 0#2 ++ c.instruction.extractLsb' 13 2 else 0b1000 }
  else if c.op = OP_LOAD ∨ c.op = OP_STORE then { base with ALUSrcB := 1 }
  else if c.op = OP_PRIV ∧ c.privCsr then
    { base with
      ALUSrcA := if c.bit 14 then 2 else 0
      ALUSrcB := 2
      ALUm := if c.bit 13 then 0b011#3 ++ c.instruction.extractLsb' 12 1 else 0b1111
      csrsave := true }
  else base

def controlMEM : Control :=
  if c.op = OP_LOAD ∨ (c.op = OP_STORE ∧ c.storeUnaligned) then { MemRead := true, IorDorW := 1 }
  else if c.op = OP_STORE ∧ !c.storeUnaligned then
    { MemWrite := true, IorDorW := 1, MemSrc := 2 }
  else {}

def controlWB : Control :=
  if c.op = OP_R ∧ c.isRV32M then { RegWrite := true, RegSrc := 7 }
  else if c.op = OP_R ∨ c.op = OP_R_I then { RegWrite := true }
  else if c.op = OP_LUI then { RegWrite := true, RegSrc := 2 }
  else if c.op = OP_AUIPC then { RegWrite := true }
  else if c.op = OP_JAL then { RegWrite := true, RegSrc := 3, PCWrite := true, PCSrc := 2 }
  else if c.op = OP_JALR then { RegWrite := true, RegSrc := 3, PCWrite := true, PCSrc := 3 }
  else if c.op = OP_BR then
    { PCWrite := (if c.bit 14 then c.bit 12 else !c.bit 12) ^^ c.ALUOut != 0, PCSrc := 1 }
  else if c.op = OP_LOAD then
    { RegWrite := true, RegSrc := 0#1 ++ 1#1 ++ c.instruction.extractLsb' 12 2 }
  else if c.op = OP_PRIV ∧ c.privCsr then { RegWrite := true, RegSrc := 8, csrWe := true }
  else {}

def control (memReady : Bool) : Control :=
  match c.phase with
  | .IF => { MemRead := true, IRWrite := true }
  | .ID_RF => { PCWrite := true, ALUSrcA := 1, ALUSrcB := 1 }
  | .EX => c.controlEX
  | .MEM => c.controlMEM
  | .EXU => { IorDorW := 2, ALUSrcB := 1 }
  | .MEMU => { MemWrite := true, IorDorW := 1, MemSrc := c.instruction.extractLsb' 12 2 }
  | .WB => c.controlWB
  | .MEM_WAIT =>
      { IorDorW := 2, MemSrc := 3, IRWrite := memReady && c.phaseReturn == .ID_RF }
  | .INTERRUPT =>
      { onExcEnter := true, onExcIsint := true, intReply := true, PCWrite := true, PCSrc := 4,
        PCOutSrc := false }
  | .EXCEPTION => { onExcEnter := true, PCWrite := true, PCSrc := 4, PCOutSrc := true }
  | .MRET => { onExcLeave := true, PCWrite := true, PCSrc := 5 }
  | .RV32M_WAIT | .BAD => {}

/-! ## CSR controls by phase -/

theorem control_csrWe (ready : Bool) :
    (c.control ready).csrWe =
      decide (c.phase = .WB ∧ c.op = Core.OP_PRIV ∧ c.privCsr = true) := by
  cases h : c.phase with
  | EX =>
      simp only [Core.control, h, Core.controlEX]
      split_ifs <;> rfl
  | MEM =>
      simp only [Core.control, h, Core.controlMEM]
      split_ifs <;> rfl
  | WB =>
      by_cases hpriv : c.op = Core.OP_PRIV
      · simp [Core.control, h, Core.controlWB, hpriv]
        split_ifs with hcsr <;> simp [hcsr]
      · simp only [Core.control, h, Core.controlWB, hpriv, false_and, if_false]
        split_ifs <;> simp
  | _ => simp [Core.control, h]

private theorem control_traps (ready : Bool) (hEnter : c.phase ≠ .INTERRUPT ∧ c.phase ≠ .EXCEPTION)
    (hLeave : c.phase ≠ .MRET) :
    (c.control ready).onExcEnter = false ∧ (c.control ready).onExcLeave = false ∧
      (c.control ready).intReply = false := by
  cases h : c.phase with
  | EX =>
      simp only [Core.control, h, Core.controlEX]
      split_ifs <;> exact ⟨rfl, rfl, rfl⟩
  | MEM =>
      simp only [Core.control, h, Core.controlMEM]
      split_ifs <;> exact ⟨rfl, rfl, rfl⟩
  | WB =>
      simp only [Core.control, h, Core.controlWB]
      split_ifs <;> exact ⟨rfl, rfl, rfl⟩
  | INTERRUPT => exact absurd h hEnter.1
  | EXCEPTION => exact absurd h hEnter.2
  | MRET => exact absurd h hLeave
  | IF | ID_RF | EXU | MEMU | MEM_WAIT | RV32M_WAIT | BAD =>
      simp only [Core.control, h, and_self]

theorem control_onExcEnter (ready : Bool) :
    (c.control ready).onExcEnter = decide (c.phase = .INTERRUPT ∨ c.phase = .EXCEPTION) := by
  cases h : c.phase with
  | INTERRUPT | EXCEPTION | MRET => simp [Core.control, h]
  | _ => simp [c.control_traps ready (by simp [h]) (by simp [h])]

theorem control_onExcLeave (ready : Bool) :
    (c.control ready).onExcLeave = decide (c.phase = .MRET) := by
  cases h : c.phase with
  | INTERRUPT | EXCEPTION | MRET => simp [Core.control, h]
  | _ => simp [c.control_traps ready (by simp [h]) (by simp [h])]

theorem control_intReply (ready : Bool) :
    (c.control ready).intReply = decide (c.phase = .INTERRUPT) := by
  cases h : c.phase with
  | INTERRUPT | EXCEPTION | MRET => simp [Core.control, h]
  | _ => simp [c.control_traps ready (by simp [h]) (by simp [h])]

/-! ## Phase control -/

def phaseNextID_RF (interrupt : Bool) : Phase :=
  if interrupt then .INTERRUPT
  else if c.op = OP_FENCE ∨ (c.op = OP_PRIV ∧ (c.privWfi || c.privSfencevma)) then .IF
  else if c.op = OP_PRIV ∧ c.privMret then .MRET
  else if c.op = OP_PRIV ∧ c.privEbreak then .EXCEPTION
  else if c.op = OP_PRIV ∧ c.privEcall then .EXCEPTION
  else if c.op = OP_LUI ∨ c.op = OP_AUIPC ∨ c.op = OP_JAL then .WB
  else .EX

def phaseNext (i : CoreIn) : Phase :=
  match c.phase with
  | .IF => if !i.ready then .MEM_WAIT else .ID_RF
  | .ID_RF => c.phaseNextID_RF i.interrupt
  | .EX =>
      if c.op = OP_STORE ∨ c.op = OP_LOAD then .MEM
      else if c.op = OP_R ∧ c.isRV32M then .RV32M_WAIT
      else .WB
  | .MEM => .MEM_WAIT
  | .EXU => .MEMU
  | .MEMU => .MEM_WAIT
  | .WB => .IF
  | .MEM_WAIT => if i.ready then c.phaseReturn else .MEM_WAIT
  | .RV32M_WAIT => if i.RV32MReady then .WB else .RV32M_WAIT
  | .INTERRUPT | .EXCEPTION | .MRET => .IF
  | .BAD => .BAD

/-- `phase_return_n` where `phase_return_set` is high. -/
def phaseReturnNext (i : CoreIn) : Option Phase :=
  match c.phase with
  | .IF => if !i.ready then some .ID_RF else none
  | .MEM =>
      if c.op = OP_LOAD then some .WB
      else if c.op = OP_STORE ∧ c.storeUnaligned then some .EXU
      else some .IF
  | .MEMU => some .IF
  | _ => none

/-! ## Datapath -/

def memAddr (ctl : Control) : Word :=
  if ctl.IorDorW = 0 then c.pc
  else if ctl.IorDorW = 1 then c.ALUOut
  else if ctl.IorDorW = 2 then c.mar
  else invalidAddr

def newpc (ctl : Control) (i : CoreIn) : Word :=
  if ctl.PCSrc = 0 then c.pc + 4
  else if ctl.PCSrc = 1 then c.ALUOut2
  else if ctl.PCSrc = 2 then c.ALUOut
  else if ctl.PCSrc = 3 then c.ALUOut &&& ~~~1
  else if ctl.PCSrc = 4 then i.mtvecIn.extractLsb' 2 30 ++ 0#2
  else if ctl.PCSrc = 5 then i.mepcIn
  else invalidAddr

def ALUIn1 (ctl : Control) : Word :=
  if ctl.ALUSrcA = 0 then c.A
  else if ctl.ALUSrcA = 1 then c.pc
  else if ctl.ALUSrcA = 2 then c.csrimm
  else 0

def ALUIn2 (ctl : Control) (i : CoreIn) : Word :=
  if ctl.ALUSrcB = 0 then c.B
  else if ctl.ALUSrcB = 1 then c.imm
  else if ctl.ALUSrcB = 2 then i.csrSpo
  else c.B

def writeData (ctl : Control) : Word :=
  if ctl.RegSrc = 0 then c.ALUOut
  else if ctl.RegSrc = 2 then c.imm
  else if ctl.RegSrc = 3 then c.pc
  else if ctl.RegSrc = 4 then c.loadbyte
  else if ctl.RegSrc = 5 then c.loadhalf
  else if ctl.RegSrc = 6 then c.mdr
  else if ctl.RegSrc = 7 then c.RV32MOut
  else if ctl.RegSrc = 8 then c.csrr
  else 0

def memwriteData (ctl : Control) : Word :=
  if ctl.MemSrc = 0 then c.storebyte
  else if ctl.MemSrc = 1 then c.storehalf
  else if ctl.MemSrc = 2 then c.readData2
  else c.mwr

def pcOut (ctl : Control) : Word := if ctl.PCOutSrc then c.pc else c.oldpc

def EXC_BREAKPOINT : BitVec 4 := 3

def EXC_ECALL_FROM_M_MODE : BitVec 4 := 11

def mcauseCodeNext : BitVec 4 :=
  if c.op = OP_PRIV then
    if c.privEbreak then EXC_BREAKPOINT
    else if c.privEcall then EXC_ECALL_FROM_M_MODE
    else c.mcauseCodeOut
  else c.mcauseCodeOut

def advance (i : CoreIn) : Core :=
  let ctl := c.control i.ready
  { pc := if ctl.PCWrite then c.newpc ctl i else c.pc
    oldpc := if ctl.PCWrite then c.pc else c.oldpc
    instruction := if ctl.IRWrite then byteSwap i.spo else c.instruction
    A := c.readData1
    B := c.readData2
    ALUOut := alu ctl.ALUm (c.ALUIn1 ctl) (c.ALUIn2 ctl i)
    ALUOut2 := c.ALUOut
    RV32MOut := i.RV32MResult
    mar := c.memAddr ctl
    mwr := c.memwriteData ctl
    mdr := byteSwap i.spo
    csrr := if ctl.csrsave then i.csrSpo else c.csrr
    mcauseCodeOut := c.mcauseCodeNext
    phase := c.phaseNext i
    phaseReturn := (c.phaseReturnNext i).getD c.phaseReturn
    regfile := c.regfile.cycle ctl.RegWrite (c.instruction.extractLsb' 7 5) (c.writeData ctl) }

section Advance

variable (i : CoreIn)

@[simp] theorem advance_pc :
    (c.advance i).pc =
      if (c.control i.ready).PCWrite then c.newpc (c.control i.ready) i else c.pc := rfl

@[simp] theorem advance_oldpc :
    (c.advance i).oldpc = if (c.control i.ready).PCWrite then c.pc else c.oldpc := rfl

@[simp] theorem advance_instruction :
    (c.advance i).instruction =
      if (c.control i.ready).IRWrite then byteSwap i.spo else c.instruction := rfl

@[simp] theorem advance_A : (c.advance i).A = c.readData1 := rfl

@[simp] theorem advance_B : (c.advance i).B = c.readData2 := rfl

@[simp] theorem advance_ALUOut :
    (c.advance i).ALUOut =
      alu (c.control i.ready).ALUm (c.ALUIn1 (c.control i.ready))
        (c.ALUIn2 (c.control i.ready) i) := rfl

@[simp] theorem advance_ALUOut2 : (c.advance i).ALUOut2 = c.ALUOut := rfl

@[simp] theorem advance_RV32MOut : (c.advance i).RV32MOut = i.RV32MResult := rfl

@[simp] theorem advance_mar : (c.advance i).mar = c.memAddr (c.control i.ready) := rfl

@[simp] theorem advance_mwr : (c.advance i).mwr = c.memwriteData (c.control i.ready) := rfl

@[simp] theorem advance_mdr : (c.advance i).mdr = byteSwap i.spo := rfl

@[simp] theorem advance_csrr :
    (c.advance i).csrr = if (c.control i.ready).csrsave then i.csrSpo else c.csrr := rfl

@[simp] theorem advance_mcauseCodeOut : (c.advance i).mcauseCodeOut = c.mcauseCodeNext := rfl

@[simp] theorem advance_phase : (c.advance i).phase = c.phaseNext i := rfl

@[simp] theorem advance_phaseReturn :
    (c.advance i).phaseReturn = (c.phaseReturnNext i).getD c.phaseReturn := rfl

@[simp] theorem advance_regfile :
    (c.advance i).regfile =
      c.regfile.cycle (c.control i.ready).RegWrite (c.instruction.extractLsb' 7 5)
        (c.writeData (c.control i.ready)) := rfl

end Advance

/-- Under reset only `phase`, `pc` and the two units without a reset move. -/
def reset (i : CoreIn) : Core :=
  let ctl := c.control i.ready
  { c with
    pc := startAddr
    phase := .IF
    mcauseCodeOut := c.mcauseCodeNext
    regfile := c.regfile.cycle ctl.RegWrite (c.instruction.extractLsb' 7 5) (c.writeData ctl) }

def cycle (i : CoreIn) (c : Core) : Core := if i.rst then c.reset i else c.advance i

/-! ## Bus outputs

`MemRead`, `MemWrite`, `IorDorW` and `MemSrc` do not depend on `MemReady`, so
the outputs are functions of the registers alone.
-/

def rd : Bool := (c.control false).MemRead

def we : Bool := (c.control false).MemWrite

def a : Word := c.memAddr (c.control false)

def d : Word := byteSwap (c.memwriteData (c.control false))

end Core

/-! ## The module -/

structure Multicyc where
  core : Core
  privilege : Privilege
  rv32m : Rv32m

/-- The ports of `riscv_multicyc` other than the clock. -/
structure MulticycIn where
  rst : Bool
  eip : Bool
  eipIstimer : Bool
  spo : Word
  ready : Bool

namespace Multicyc

def coreIn (x : ReadX) (i : MulticycIn) (s : Multicyc) : CoreIn where
  rst := i.rst
  spo := i.spo
  ready := i.ready
  csrSpo := s.privilege.spo x i.eip i.eipIstimer (s.core.instruction.extractLsb' 20 12)
  mtvecIn := s.privilege.mtvecOut
  mepcIn := s.privilege.mepcOut
  interrupt := s.privilege.interrupt
  RV32MReady := s.rv32m.finish
  RV32MResult := s.rv32m.r

def privilegeIn (i : MulticycIn) (s : Multicyc) : PrivilegeIn :=
  let ctl := s.core.control i.ready
  { rst := i.rst
    a := s.core.instruction.extractLsb' 20 12
    d := s.core.ALUOut
    we := ctl.csrWe
    eip := i.eip
    eipIstimer := i.eipIstimer
    onExcEnter := ctl.onExcEnter
    onExcIsint := ctl.onExcIsint
    pcIn := s.core.pcOut ctl
    mcauseCodeIn := s.core.mcauseCodeOut
    onExcLeave := ctl.onExcLeave
    intReply := ctl.intReply }

def rv32mIn (x : ReadX) (i : MulticycIn) (s : Multicyc) : Rv32mIn :=
  let ctl := s.core.control i.ready
  { start := ctl.RV32MStart
    a := s.core.ALUIn1 ctl
    b := s.core.ALUIn2 ctl (coreIn x i s)
    m := s.core.funct3 }

def boot : Multicyc where
  core := { (default : Core) with pc := startAddr }
  privilege := (default : Privilege).csrReset
  rv32m := default

def cycle (x : ReadX) (i : MulticycIn) (s : Multicyc) : Multicyc where
  core := s.core.cycle (coreIn x i s)
  privilege := s.privilege.cycle (privilegeIn i s)
  rv32m := s.rv32m.cycle (rv32mIn x i s)

end Multicyc

end PComputer.Rtl
