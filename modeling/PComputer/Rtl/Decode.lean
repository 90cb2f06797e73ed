import PComputer.Isa.Rv32i
import PComputer.Rtl.Multicyc

/-!
# The core's instruction fields are those of RV32I

The immediates that the core concatenates are the sign-extended immediates of
the instruction formats, the ALU selectors compute the operations they are
decoded from, and the branch test is the comparison of the branch.
-/

namespace PComputer.Rtl

open PComputer.Foundation PComputer.Isa

namespace Core

variable (c : Core)

/-! ## Immediates -/

theorem immI_eq : c.immI = (c.instruction.extractLsb' 20 12).signExtend 32 := by
  apply BitVec.eq_of_getLsbD_eq
  intro k hk
  simp only [immI, BitVec.getLsbD_signExtend, BitVec.getLsbD_append,
    BitVec.getLsbD_extractLsb', signBits, getLsbD_fill, bit, BitVec.msb_eq_getLsbD_last]
  grind

theorem immB_eq : c.immB = (Isa.immB c.instruction).signExtend 32 := by
  apply BitVec.eq_of_getLsbD_eq
  intro k hk
  simp only [immB, Isa.immB, BitVec.getLsbD_signExtend, BitVec.getLsbD_append,
    BitVec.getLsbD_extractLsb', signBits, getLsbD_fill, bit, BitVec.msb_eq_getLsbD_last]
  grind

theorem immJ_eq : c.immJ = (Isa.immJ c.instruction).signExtend 32 := by
  apply BitVec.eq_of_getLsbD_eq
  intro k hk
  simp only [immJ, Isa.immJ, BitVec.getLsbD_signExtend, BitVec.getLsbD_append,
    BitVec.getLsbD_extractLsb', signBits, getLsbD_fill, bit, BitVec.msb_eq_getLsbD_last]
  grind

theorem immS_eq : c.immS = (Isa.immS c.instruction).signExtend 32 := by
  apply BitVec.eq_of_getLsbD_eq
  intro k hk
  simp only [immS, Isa.immS, BitVec.getLsbD_signExtend, BitVec.getLsbD_append,
    BitVec.getLsbD_extractLsb', signBits, getLsbD_fill, bit, BitVec.msb_eq_getLsbD_last]
  grind

/-! ## Selector bits -/

private theorem bit12_eq : c.bit 12 = c.funct3.getLsbD 0 := by simp [bit, funct3]

theorem bit13_eq : c.bit 13 = c.funct3.getLsbD 1 := by simp [bit, funct3]

theorem bit14_eq : c.bit 14 = c.funct3.getLsbD 2 := by simp [bit, funct3]

private theorem bit25_eq : c.bit 25 = (c.instruction.extractLsb' 25 7).getLsbD 0 := by simp [bit]

private theorem bit30_eq : c.bit 30 = (c.instruction.extractLsb' 25 7).getLsbD 5 := by simp [bit]

theorem extract_funct3_low : c.instruction.extractLsb' 12 2 = c.funct3.extractLsb' 0 2 := by
  ext k hk
  simp [funct3]
  grind

private theorem extract_funct3_high :
    c.instruction.extractLsb' 13 2 = c.funct3.extractLsb' 1 2 := by
  ext k hk
  simp [funct3]
  grind

private theorem extract30_eq :
    c.instruction.extractLsb' 30 1 = (c.instruction.extractLsb' 25 7).extractLsb' 5 1 := by
  ext k hk
  simp
  grind

theorem alu_opReg {o : AluOp} (h : op? (c.instruction.extractLsb' 25 7) c.funct3 = some o)
    (a b : Word) : c.isRV32M = false ∧ alu (c.instruction.extractLsb' 30 1 ++ c.funct3) a b =
      o.eval a b := by
  rw [isRV32M, bit25_eq, extract30_eq]
  obtain ⟨h7, h3⟩ := op?_some h
  rw [h7, h3]
  cases o with
  | sub => exact ⟨rfl, alu_sub a b⟩
  | slt => exact ⟨rfl, alu_slt a b⟩
  | sltu => exact ⟨rfl, alu_sltu a b⟩
  | _ => exact ⟨rfl, rfl⟩

private theorem instSrai_eq {o : AluOp}
    (h : opImm? (c.instruction.extractLsb' 25 7) c.funct3 = some o)
    (hop : c.op = OP_R_I) : c.instSrai = decide (o = .sra) := by
  obtain ⟨h3, hsub, h7⟩ := opImm?_some h
  rw [instSrai, bit30_eq, h3, hop]
  cases o with
  | sub => exact absurd rfl hsub
  | srl => rw [h7 (by simp)]; rfl
  | sra => rw [h7 (by simp)]; rfl
  | _ => simp [AluOp.funct3]

theorem alu_opImm {o : AluOp} (h : opImm? (c.instruction.extractLsb' 25 7) c.funct3 = some o)
    (hop : c.op = OP_R_I) (a b : Word) :
    alu (BitVec.ofBool c.instSrai ++ c.funct3) a b = o.eval a b := by
  rw [c.instSrai_eq h hop, (opImm?_some h).1]
  cases o with
  | sub => exact absurd rfl (opImm?_some h).2.1
  | slt => exact alu_slt a b
  | sltu => exact alu_sltu a b
  | _ => rfl

private theorem sub_ne_zero (a b : Word) : (a - b != 0) = (a != b) := by
  rw [Bool.eq_iff_iff, bne_iff_ne, bne_iff_ne, ne_eq, ne_eq, BitVec.sub_eq_iff_eq_add]
  simp

theorem branch_taken {o : BranchOp} (h : branchOp? c.funct3 = some o) (a b : Word) :
    ((if c.bit 14 then c.bit 12 else !c.bit 12) ^^
      (alu (if c.bit 14 then 0#2 ++ c.instruction.extractLsb' 13 2 else 0b1000) a b != 0)) =
      o.taken a b := by
  rw [bit14_eq, bit12_eq, extract_funct3_high, branchOp?_some h]
  cases o with
  | beq =>
      change (true ^^ (alu 0b1000 a b != 0)) = (a == b)
      rw [alu_sub, sub_ne_zero]
      cases h : a == b <;> simp_all
  | bne =>
      change (false ^^ (alu 0b1000 a b != 0)) = (a != b)
      rw [alu_sub, sub_ne_zero, Bool.false_xor]
  | blt => 
    change (false ^^ (alu 0b0010 a b != 0)) = a.slt b
    rw [alu_slt]
    cases a.slt b <;> rfl
  | bge => 
    change (true ^^ (alu 0b0010 a b != 0)) = !a.slt b
    rw [alu_slt]
    cases a.slt b <;> rfl
  | bltu => 
    change (false ^^ (alu 0b0011 a b != 0)) = a.ult b
    rw [alu_sltu]
    cases a.ult b <;> rfl
  | bgeu => 
    change (true ^^ (alu 0b0011 a b != 0)) = !a.ult b
    rw [alu_sltu]
    cases a.ult b <;> rfl

end Core

end PComputer.Rtl
