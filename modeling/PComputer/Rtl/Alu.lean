import PComputer.Foundation.ByteLanes

/-!
# `alu.v`

The eleven operations of the ALU behind its four-bit selector.  The comparisons
are read off the flags of one 33-bit subtraction, as the source has them.
-/

namespace PComputer.Rtl

open PComputer.Foundation

def aluSubtraction (a b : Word) : BitVec 33 := a.setWidth 33 - b.setWidth 33

def aluSubOf (a b : Word) : Bool :=
  (!a.getLsbD 31 && b.getLsbD 31 && (aluSubtraction a b).getLsbD 31) ||
    (a.getLsbD 31 && !b.getLsbD 31 && !(aluSubtraction a b).getLsbD 31)

def aluSubZf (a b : Word) : Bool := (aluSubtraction a b).extractLsb' 0 32 == 0

def aluSubSf (a b : Word) : Bool := (aluSubtraction a b).getLsbD 31

def aluSubCf (a b : Word) : Bool := (aluSubtraction a b).getLsbD 32

def alu (m : BitVec 4) (a b : Word) : Word :=
  if m = 0b0000 then a + b
  else if m = 0b1000 then (aluSubtraction a b).extractLsb' 0 32
  else if m = 0b0001 then a <<< b.extractLsb' 0 5
  else if m = 0b0101 then a >>> b.extractLsb' 0 5
  else if m = 0b1101 then a.sshiftRight' (b.extractLsb' 0 5)
  else if m = 0b0100 then a ^^^ b
  else if m = 0b0110 then a ||| b
  else if m = 0b1111 then a
  else if m = 0b0111 then a &&& b
  else if m = 0b0010 then
    0#31 ++ BitVec.ofBool ((aluSubOf a b ^^ aluSubSf a b) && !aluSubZf a b)
  else if m = 0b0011 then 0#31 ++ BitVec.ofBool (aluSubCf a b)
  else 0xDEADBEEF

/-! ## The flags of the subtraction -/

private theorem extractLsb'_aluSubtraction (a b : Word) :
    (aluSubtraction a b).extractLsb' 0 32 = a - b := by
  apply BitVec.eq_of_toNat_eq
  simp [aluSubtraction, BitVec.toNat_sub]
  omega

private theorem toNat_aluSubtraction (a b : Word) :
    (aluSubtraction a b).toNat =
      if a.toNat < b.toNat then 2 ^ 33 + a.toNat - b.toNat else a.toNat - b.toNat := by
  simp [aluSubtraction, BitVec.toNat_sub]
  split <;> omega

private theorem aluSubCf_eq (a b : Word) : aluSubCf a b = a.ult b := by
  have h : aluSubCf a b = (aluSubtraction a b).msb := rfl
  rw [h, BitVec.msb_eq_decide, toNat_aluSubtraction, BitVec.ult]
  split <;> simp <;> omega

private theorem aluSubSf_eq (a b : Word) : aluSubSf a b = (a - b).msb := by
  rw [← extractLsb'_aluSubtraction]
  simp [aluSubSf, BitVec.msb_eq_getLsbD_last]

private theorem msb_word (a : Word) : a.msb = decide (2147483648 ≤ a.toNat) := by
  simp [BitVec.msb_eq_decide]

private theorem slt_word (a b : Word) :
    a.slt b = decide (if a.toNat < 2147483648 ∧ 2147483648 ≤ b.toNat then False
      else if 2147483648 ≤ a.toNat ∧ b.toNat < 2147483648 then True
      else a.toNat < b.toNat) := by
  have ha := a.isLt
  have hb := b.isLt
  rw [BitVec.slt, Bool.eq_iff_iff, decide_eq_true_iff, decide_eq_true_iff,
    BitVec.toInt_eq_toNat_cond, BitVec.toInt_eq_toNat_cond]
  split <;> split <;> split <;> grind

private theorem toNat_sub_word (a b : Word) :
    (a - b).toNat =
      if b.toNat ≤ a.toNat then a.toNat - b.toNat else 4294967296 + a.toNat - b.toNat := by
  have ha := a.isLt
  have hb := b.isLt
  simp only [BitVec.toNat_sub]
  split <;> omega

private theorem aluLess_eq (a b : Word) :
    ((aluSubOf a b ^^ aluSubSf a b) && !aluSubZf a b) = a.slt b := by
  have hsf : (aluSubtraction a b).getLsbD 31 = (a - b).msb := aluSubSf_eq a b
  have ha : a.getLsbD 31 = a.msb := rfl
  have hb : b.getLsbD 31 = b.msb := rfl
  have hz : (a - b == 0) = decide ((a - b).toNat = 0) := by
    rw [Bool.eq_iff_iff, beq_iff_eq, decide_eq_true_iff, ← BitVec.toNat_inj]
    rfl
  have hlt := a.isLt
  have hlt' := b.isLt
  rw [aluSubOf, aluSubZf, aluSubSf_eq, hsf, ha, hb, extractLsb'_aluSubtraction, hz, slt_word]
  simp only [msb_word, toNat_sub_word]
  grind

/-! ## What the selectors compute -/

theorem alu_sub (a b : Word) : alu 0b1000 a b = a - b :=
  extractLsb'_aluSubtraction a b

private theorem append_ofBool (b : Bool) : 0#31 ++ BitVec.ofBool b = if b then 1#32 else 0#32 := by
  cases b <;> rfl

theorem alu_slt (a b : Word) : alu 0b0010 a b = if a.slt b then 1 else 0 := by
  rw [← aluLess_eq]
  exact append_ofBool _

theorem alu_sltu (a b : Word) : alu 0b0011 a b = if a.ult b then 1 else 0 := by
  rw [← aluSubCf_eq]
  exact append_ofBool _

end PComputer.Rtl
