import PComputer.Foundation.ByteLanes

/-!
# The RV32I base instruction set

Decoding and one-step semantics of the unprivileged integer instructions, over
byte-addressed memory.  `execute` is the effect of an instruction that raises
no exception; `step` first asks `exception?` and only then executes.
-/

namespace PComputer.Isa

open PComputer.Foundation

abbrev Reg := BitVec 5

inductive BranchOp where
  | beq | bne | blt | bge | bltu | bgeu
  deriving DecidableEq, Repr

inductive LoadOp where
  | lb | lh | lw | lbu | lhu
  deriving DecidableEq, Repr

inductive StoreOp where
  | sb | sh | sw
  deriving DecidableEq, Repr

inductive AluOp where
  | add | sub | sll | slt | sltu | xor | srl | sra | or | and
  deriving DecidableEq, Repr

inductive Instr where
  | lui (rd : Reg) (imm : BitVec 20)
  | auipc (rd : Reg) (imm : BitVec 20)
  | jal (rd : Reg) (offset : BitVec 21)
  | jalr (rd rs1 : Reg) (offset : BitVec 12)
  | branch (op : BranchOp) (rs1 rs2 : Reg) (offset : BitVec 13)
  | load (op : LoadOp) (rd rs1 : Reg) (offset : BitVec 12)
  | store (op : StoreOp) (rs1 rs2 : Reg) (offset : BitVec 12)
  | opImm (op : AluOp) (rd rs1 : Reg) (imm : BitVec 12)
  | opReg (op : AluOp) (rd rs1 rs2 : Reg)
  deriving DecidableEq, Repr

/-! ## Decoding -/

def branchOp? (funct3 : BitVec 3) : Option BranchOp :=
  if funct3 = 0b000 then some .beq
  else if funct3 = 0b001 then some .bne
  else if funct3 = 0b100 then some .blt
  else if funct3 = 0b101 then some .bge
  else if funct3 = 0b110 then some .bltu
  else if funct3 = 0b111 then some .bgeu
  else none

def loadOp? (funct3 : BitVec 3) : Option LoadOp :=
  if funct3 = 0b000 then some .lb
  else if funct3 = 0b001 then some .lh
  else if funct3 = 0b010 then some .lw
  else if funct3 = 0b100 then some .lbu
  else if funct3 = 0b101 then some .lhu
  else none

def storeOp? (funct3 : BitVec 3) : Option StoreOp :=
  if funct3 = 0b000 then some .sb
  else if funct3 = 0b001 then some .sh
  else if funct3 = 0b010 then some .sw
  else none

def op? (funct7 : BitVec 7) (funct3 : BitVec 3) : Option AluOp :=
  if funct7 = 0b0000000 then
    if funct3 = 0b000 then some .add
    else if funct3 = 0b001 then some .sll
    else if funct3 = 0b010 then some .slt
    else if funct3 = 0b011 then some .sltu
    else if funct3 = 0b100 then some .xor
    else if funct3 = 0b101 then some .srl
    else if funct3 = 0b110 then some .or
    else some .and
  else if funct7 = 0b0100000 then
    if funct3 = 0b000 then some .sub
    else if funct3 = 0b101 then some .sra
    else none
  else none

/-- Register-immediate operations; only the shifts constrain `funct7`. -/
def opImm? (funct7 : BitVec 7) (funct3 : BitVec 3) : Option AluOp :=
  if funct3 = 0b000 then some .add
  else if funct3 = 0b010 then some .slt
  else if funct3 = 0b011 then some .sltu
  else if funct3 = 0b100 then some .xor
  else if funct3 = 0b110 then some .or
  else if funct3 = 0b111 then some .and
  else if funct3 = 0b001 then
    if funct7 = 0b0000000 then some .sll else none
  else if funct7 = 0b0000000 then some .srl
  else if funct7 = 0b0100000 then some .sra
  else none

def immB (w : Word) : BitVec 13 :=
  w.extractLsb' 31 1 ++ w.extractLsb' 7 1 ++ w.extractLsb' 25 6 ++ w.extractLsb' 8 4 ++ 0#1

def immJ (w : Word) : BitVec 21 :=
  w.extractLsb' 31 1 ++ w.extractLsb' 12 8 ++ w.extractLsb' 20 1 ++ w.extractLsb' 21 10 ++ 0#1

def immS (w : Word) : BitVec 12 := w.extractLsb' 25 7 ++ w.extractLsb' 7 5

def decode (w : Word) : Option Instr :=
  let opcode := w.extractLsb' 0 7
  let rd := w.extractLsb' 7 5
  let funct3 := w.extractLsb' 12 3
  let rs1 := w.extractLsb' 15 5
  let rs2 := w.extractLsb' 20 5
  let funct7 := w.extractLsb' 25 7
  if opcode = 0b0110111 then some (.lui rd (w.extractLsb' 12 20))
  else if opcode = 0b0010111 then some (.auipc rd (w.extractLsb' 12 20))
  else if opcode = 0b1101111 then some (.jal rd (immJ w))
  else if opcode = 0b1100111 then
    if funct3 = 0 then some (.jalr rd rs1 (w.extractLsb' 20 12)) else none
  else if opcode = 0b1100011 then
    (branchOp? funct3).map fun op => .branch op rs1 rs2 (immB w)
  else if opcode = 0b0000011 then
    (loadOp? funct3).map fun op => .load op rd rs1 (w.extractLsb' 20 12)
  else if opcode = 0b0100011 then
    (storeOp? funct3).map fun op => .store op rs1 rs2 (immS w)
  else if opcode = 0b0010011 then
    (opImm? funct7 funct3).map fun op => .opImm op rd rs1 (w.extractLsb' 20 12)
  else if opcode = 0b0110011 then
    (op? funct7 funct3).map fun op => .opReg op rd rs1 rs2
  else none

/-! ## Architectural state -/

structure Arch where
  pc : Word
  x : Reg → Word
  mem : ByteMemory
  x_zero : x 0 = 0

@[ext] theorem Arch.ext {s s' : Arch} (hpc : s.pc = s'.pc) (hx : s.x = s'.x)
    (hmem : s.mem = s'.mem) : s = s' := by
  cases s
  cases s'
  cases hpc
  cases hx
  cases hmem
  rfl

namespace Arch

def setPc (s : Arch) (pc : Word) : Arch := { s with pc := pc }

def setReg (s : Arch) (rd : Reg) (value : Word) : Arch where
  pc := s.pc
  x := fun r => if r = rd ∧ rd ≠ 0 then value else s.x r
  mem := s.mem
  x_zero := by
    split
    · next h => exact absurd h.1.symm h.2
    · exact s.x_zero

def setByte (s : Arch) (address : Word) (value : BitVec 8) : Arch :=
  { s with mem := fun k => if k = address then value else s.mem k }

def loadHalf (s : Arch) (address : Word) : BitVec 16 :=
  s.mem (address + 1) ++ s.mem address

def loadWord (s : Arch) (address : Word) : Word :=
  s.mem (address + 3) ++ s.mem (address + 2) ++ s.mem (address + 1) ++ s.mem address

def fetch (s : Arch) : Word := s.loadWord s.pc

end Arch

/-! ## Semantics -/

def AluOp.eval (op : AluOp) (a b : Word) : Word :=
  match op with
  | .add => a + b
  | .sub => a - b
  | .sll => a <<< b.extractLsb' 0 5
  | .slt => if a.slt b then 1 else 0
  | .sltu => if a.ult b then 1 else 0
  | .xor => a ^^^ b
  | .srl => a >>> b.extractLsb' 0 5
  | .sra => a.sshiftRight' (b.extractLsb' 0 5)
  | .or => a ||| b
  | .and => a &&& b

def BranchOp.taken (op : BranchOp) (a b : Word) : Bool :=
  match op with
  | .beq => a == b
  | .bne => a != b
  | .blt => a.slt b
  | .bge => !a.slt b
  | .bltu => a.ult b
  | .bgeu => !a.ult b

def LoadOp.eval (op : LoadOp) (s : Arch) (address : Word) : Word :=
  match op with
  | .lb => (s.mem address).signExtend 32
  | .lh => (s.loadHalf address).signExtend 32
  | .lw => s.loadWord address
  | .lbu => (s.mem address).zeroExtend 32
  | .lhu => (s.loadHalf address).zeroExtend 32

def StoreOp.apply (op : StoreOp) (s : Arch) (address value : Word) : Arch :=
  match op with
  | .sb => s.setByte address (value.extractLsb' 0 8)
  | .sh =>
      (s.setByte address (value.extractLsb' 0 8)).setByte (address + 1)
        (value.extractLsb' 8 8)
  | .sw =>
      (((s.setByte address (value.extractLsb' 0 8)).setByte (address + 1)
        (value.extractLsb' 8 8)).setByte (address + 2)
        (value.extractLsb' 16 8)).setByte (address + 3) (value.extractLsb' 24 8)

def jalrTarget (s : Arch) (rs1 : Reg) (offset : BitVec 12) : Word :=
  (s.x rs1 + offset.signExtend 32) &&& ~~~1

def execute (i : Instr) (s : Arch) : Arch :=
  match i with
  | .lui rd imm => (s.setReg rd (imm ++ 0#12)).setPc (s.pc + 4)
  | .auipc rd imm => (s.setReg rd (s.pc + (imm ++ 0#12))).setPc (s.pc + 4)
  | .jal rd offset => (s.setReg rd (s.pc + 4)).setPc (s.pc + offset.signExtend 32)
  | .jalr rd rs1 offset => (s.setReg rd (s.pc + 4)).setPc (jalrTarget s rs1 offset)
  | .branch op rs1 rs2 offset =>
      s.setPc (if op.taken (s.x rs1) (s.x rs2) then s.pc + offset.signExtend 32
        else s.pc + 4)
  | .load op rd rs1 offset =>
      (s.setReg rd (op.eval s (s.x rs1 + offset.signExtend 32))).setPc (s.pc + 4)
  | .store op rs1 rs2 offset =>
      (op.apply s (s.x rs1 + offset.signExtend 32) (s.x rs2)).setPc (s.pc + 4)
  | .opImm op rd rs1 imm =>
      (s.setReg rd (op.eval (s.x rs1) (imm.signExtend 32))).setPc (s.pc + 4)
  | .opReg op rd rs1 rs2 =>
      (s.setReg rd (op.eval (s.x rs1) (s.x rs2))).setPc (s.pc + 4)

/-! ## Alignment and exceptions -/

inductive Exception where
  | illegalInstruction
  | instructionAddressMisaligned
  | loadAddressMisaligned
  | storeAddressMisaligned
  deriving DecidableEq, Repr

def LoadOp.aligned (op : LoadOp) (address : Word) : Bool :=
  match op with
  | .lb | .lbu => true
  | .lh | .lhu => address.extractLsb' 0 1 == 0
  | .lw => address.extractLsb' 0 2 == 0

def StoreOp.aligned (op : StoreOp) (address : Word) : Bool :=
  match op with
  | .sb => true
  | .sh => address.extractLsb' 0 1 == 0
  | .sw => address.extractLsb' 0 2 == 0

/-- The data address of a load or store is a multiple of the access size. -/
def Instr.dataAligned (i : Instr) (s : Arch) : Bool :=
  match i with
  | .load op _ rs1 offset => op.aligned (s.x rs1 + offset.signExtend 32)
  | .store op rs1 _ offset => op.aligned (s.x rs1 + offset.signExtend 32)
  | _ => true

/--
The target of a jump or of a taken branch is four-byte aligned.  Without the
compressed extension the base set raises an exception for any other target.
-/
def Instr.targetAligned (i : Instr) (s : Arch) : Bool :=
  match i with
  | .jal .. | .jalr .. | .branch .. => byteOffset (execute i s).pc == 0
  | _ => true

def Instr.exception? (i : Instr) (s : Arch) : Option Exception :=
  if !i.targetAligned s then some .instructionAddressMisaligned
  else if !i.dataAligned s then
    match i with
    | .load .. => some .loadAddressMisaligned
    | _ => some .storeAddressMisaligned
  else none

def step (s : Arch) : Except Exception Arch :=
  match decode s.fetch with
  | none => .error .illegalInstruction
  | some i =>
      match i.exception? s with
      | some e => .error e
      | none => .ok (execute i s)

/-! ## Inversion of the decoder -/

def AluOp.funct3 : AluOp → BitVec 3
  | .add | .sub => 0b000
  | .sll => 0b001
  | .slt => 0b010
  | .sltu => 0b011
  | .xor => 0b100
  | .srl | .sra => 0b101
  | .or => 0b110
  | .and => 0b111

def AluOp.funct7 : AluOp → BitVec 7
  | .sub | .sra => 0b0100000
  | _ => 0b0000000

def BranchOp.funct3 : BranchOp → BitVec 3
  | .beq => 0b000
  | .bne => 0b001
  | .blt => 0b100
  | .bge => 0b101
  | .bltu => 0b110
  | .bgeu => 0b111

def LoadOp.funct3 : LoadOp → BitVec 3
  | .lb => 0b000
  | .lh => 0b001
  | .lw => 0b010
  | .lbu => 0b100
  | .lhu => 0b101

def StoreOp.funct3 : StoreOp → BitVec 3
  | .sb => 0b000
  | .sh => 0b001
  | .sw => 0b010

theorem op?_some {funct7 : BitVec 7} {funct3 : BitVec 3} {op : AluOp}
    (h : op? funct7 funct3 = some op) : funct7 = op.funct7 ∧ funct3 = op.funct3 := by
  have h7 : funct3 = 0b000 ∨ funct3 = 0b001 ∨ funct3 = 0b010 ∨ funct3 = 0b011 ∨
      funct3 = 0b100 ∨ funct3 = 0b101 ∨ funct3 = 0b110 ∨ funct3 = 0b111 := by
    clear h
    revert funct3
    decide
  simp only [op?] at h
  split_ifs at h <;> cases h <;> simp_all [AluOp.funct7, AluOp.funct3]

theorem opImm?_some {funct7 : BitVec 7} {funct3 : BitVec 3} {op : AluOp}
    (h : opImm? funct7 funct3 = some op) :
    funct3 = op.funct3 ∧ op ≠ .sub ∧
      ((op = .sll ∨ op = .srl ∨ op = .sra) → funct7 = op.funct7) := by
  have h7 : funct3 = 0b000 ∨ funct3 = 0b001 ∨ funct3 = 0b010 ∨ funct3 = 0b011 ∨
      funct3 = 0b100 ∨ funct3 = 0b101 ∨ funct3 = 0b110 ∨ funct3 = 0b111 := by
    clear h
    revert funct3
    decide
  simp only [opImm?] at h
  split_ifs at h <;> cases h <;> simp_all [AluOp.funct7, AluOp.funct3]

theorem branchOp?_some {funct3 : BitVec 3} {op : BranchOp}
    (h : branchOp? funct3 = some op) : funct3 = op.funct3 := by
  simp only [branchOp?] at h
  split_ifs at h <;> cases h <;> assumption

theorem loadOp?_some {funct3 : BitVec 3} {op : LoadOp}
    (h : loadOp? funct3 = some op) : funct3 = op.funct3 := by
  simp only [loadOp?] at h
  split_ifs at h <;> cases h <;> assumption

theorem storeOp?_some {funct3 : BitVec 3} {op : StoreOp}
    (h : storeOp? funct3 = some op) : funct3 = op.funct3 := by
  simp only [storeOp?] at h
  split_ifs at h <;> cases h <;> assumption

inductive Encodes (w : Word) : Instr → Prop
  | lui : w.extractLsb' 0 7 = 0b0110111#7 →
      Encodes w (.lui (w.extractLsb' 7 5) (w.extractLsb' 12 20))
  | auipc : w.extractLsb' 0 7 = 0b0010111#7 →
      Encodes w (.auipc (w.extractLsb' 7 5) (w.extractLsb' 12 20))
  | jal : w.extractLsb' 0 7 = 0b1101111#7 → Encodes w (.jal (w.extractLsb' 7 5) (immJ w))
  | jalr : w.extractLsb' 0 7 = 0b1100111#7 →
      Encodes w (.jalr (w.extractLsb' 7 5) (w.extractLsb' 15 5) (w.extractLsb' 20 12))
  | branch {op : BranchOp} : w.extractLsb' 0 7 = 0b1100011#7 →
      branchOp? (w.extractLsb' 12 3) = some op →
      Encodes w (.branch op (w.extractLsb' 15 5) (w.extractLsb' 20 5) (immB w))
  | load {op : LoadOp} : w.extractLsb' 0 7 = 0b0000011#7 →
      loadOp? (w.extractLsb' 12 3) = some op →
      Encodes w (.load op (w.extractLsb' 7 5) (w.extractLsb' 15 5) (w.extractLsb' 20 12))
  | store {op : StoreOp} : w.extractLsb' 0 7 = 0b0100011#7 →
      storeOp? (w.extractLsb' 12 3) = some op →
      Encodes w (.store op (w.extractLsb' 15 5) (w.extractLsb' 20 5) (immS w))
  | opImm {op : AluOp} : w.extractLsb' 0 7 = 0b0010011#7 →
      opImm? (w.extractLsb' 25 7) (w.extractLsb' 12 3) = some op →
      Encodes w (.opImm op (w.extractLsb' 7 5) (w.extractLsb' 15 5) (w.extractLsb' 20 12))
  | opReg {op : AluOp} : w.extractLsb' 0 7 = 0b0110011#7 →
      op? (w.extractLsb' 25 7) (w.extractLsb' 12 3) = some op →
      Encodes w (.opReg op (w.extractLsb' 7 5) (w.extractLsb' 15 5) (w.extractLsb' 20 5))

section Decode

variable {w : Word} {rd rs1 rs2 : Reg}

theorem encodes_of_decode {i : Instr} (h : decode w = some i) : Encodes w i := by
  simp only [decode] at h
  split_ifs at h with hlui hauipc hjal hjalr _ hbranch hload hstore hopImm hopReg
  · cases h
    exact .lui hlui
  · cases h
    exact .auipc hauipc
  · cases h
    exact .jal hjal
  · cases h
    exact .jalr hjalr
  · obtain ⟨op, hop, rfl⟩ := Option.map_eq_some_iff.mp h
    exact .branch hbranch hop
  · obtain ⟨op, hop, rfl⟩ := Option.map_eq_some_iff.mp h
    exact .load hload hop
  · obtain ⟨op, hop, rfl⟩ := Option.map_eq_some_iff.mp h
    exact .store hstore hop
  · obtain ⟨op, hop, rfl⟩ := Option.map_eq_some_iff.mp h
    exact .opImm hopImm hop
  · obtain ⟨op, hop, rfl⟩ := Option.map_eq_some_iff.mp h
    exact .opReg hopReg hop

theorem decode_lui {imm : BitVec 20} (h : decode w = some (.lui rd imm)) :
    w.extractLsb' 0 7 = 0b0110111#7 ∧ rd = w.extractLsb' 7 5 ∧ imm = w.extractLsb' 12 20 := by
  cases encodes_of_decode h with
  | lui hop => exact ⟨hop, rfl, rfl⟩

theorem decode_auipc {imm : BitVec 20} (h : decode w = some (.auipc rd imm)) :
    w.extractLsb' 0 7 = 0b0010111#7 ∧ rd = w.extractLsb' 7 5 ∧ imm = w.extractLsb' 12 20 := by
  cases encodes_of_decode h with
  | auipc hop => exact ⟨hop, rfl, rfl⟩

theorem decode_jal {offset : BitVec 21} (h : decode w = some (.jal rd offset)) :
    w.extractLsb' 0 7 = 0b1101111#7 ∧ rd = w.extractLsb' 7 5 ∧ offset = immJ w := by
  cases encodes_of_decode h with
  | jal hop => exact ⟨hop, rfl, rfl⟩

theorem decode_jalr {offset : BitVec 12} (h : decode w = some (.jalr rd rs1 offset)) :
    w.extractLsb' 0 7 = 0b1100111#7 ∧ rd = w.extractLsb' 7 5 ∧ rs1 = w.extractLsb' 15 5 ∧
      offset = w.extractLsb' 20 12 := by
  cases encodes_of_decode h with
  | jalr hop => exact ⟨hop, rfl, rfl, rfl⟩

theorem decode_branch {op : BranchOp} {offset : BitVec 13}
    (h : decode w = some (.branch op rs1 rs2 offset)) :
    w.extractLsb' 0 7 = 0b1100011#7 ∧ branchOp? (w.extractLsb' 12 3) = some op ∧
      rs1 = w.extractLsb' 15 5 ∧ rs2 = w.extractLsb' 20 5 ∧ offset = immB w := by
  cases encodes_of_decode h with
  | branch hop ho => exact ⟨hop, ho, rfl, rfl, rfl⟩

theorem decode_load {op : LoadOp} {offset : BitVec 12}
    (h : decode w = some (.load op rd rs1 offset)) :
    w.extractLsb' 0 7 = 0b0000011#7 ∧ loadOp? (w.extractLsb' 12 3) = some op ∧
      rd = w.extractLsb' 7 5 ∧ rs1 = w.extractLsb' 15 5 ∧ offset = w.extractLsb' 20 12 := by
  cases encodes_of_decode h with
  | load hop ho => exact ⟨hop, ho, rfl, rfl, rfl⟩

theorem decode_store {op : StoreOp} {offset : BitVec 12}
    (h : decode w = some (.store op rs1 rs2 offset)) :
    w.extractLsb' 0 7 = 0b0100011#7 ∧ storeOp? (w.extractLsb' 12 3) = some op ∧
      rs1 = w.extractLsb' 15 5 ∧ rs2 = w.extractLsb' 20 5 ∧ offset = immS w := by
  cases encodes_of_decode h with
  | store hop ho => exact ⟨hop, ho, rfl, rfl, rfl⟩

theorem decode_opImm {op : AluOp} {imm : BitVec 12}
    (h : decode w = some (.opImm op rd rs1 imm)) :
    w.extractLsb' 0 7 = 0b0010011#7 ∧
      opImm? (w.extractLsb' 25 7) (w.extractLsb' 12 3) = some op ∧
      rd = w.extractLsb' 7 5 ∧ rs1 = w.extractLsb' 15 5 ∧ imm = w.extractLsb' 20 12 := by
  cases encodes_of_decode h with
  | opImm hop ho => exact ⟨hop, ho, rfl, rfl, rfl⟩

theorem decode_opReg {op : AluOp} (h : decode w = some (.opReg op rd rs1 rs2)) :
    w.extractLsb' 0 7 = 0b0110011#7 ∧
      op? (w.extractLsb' 25 7) (w.extractLsb' 12 3) = some op ∧
      rd = w.extractLsb' 7 5 ∧ rs1 = w.extractLsb' 15 5 ∧ rs2 = w.extractLsb' 20 5 := by
  cases encodes_of_decode h with
  | opReg hop ho => exact ⟨hop, ho, rfl, rfl, rfl⟩

end Decode

end PComputer.Isa
