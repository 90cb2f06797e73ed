import PComputer.Foundation.ByteLanes

/-!
# The M extension

The values that the multiplication and division instructions put into `rd`.
-/

namespace PComputer.Isa

open PComputer.Foundation

inductive MulDivOp where
  | mul | mulh | mulhsu | mulhu | div | divu | rem | remu
  deriving DecidableEq, Repr

namespace MulDivOp

def funct3 : MulDivOp → BitVec 3
  | .mul => 0b000
  | .mulh => 0b001
  | .mulhsu => 0b010
  | .mulhu => 0b011
  | .div => 0b100
  | .divu => 0b101
  | .rem => 0b110
  | .remu => 0b111

def IsMul : MulDivOp → Prop
  | .mul | .mulh | .mulhsu | .mulhu => True
  | _ => False

/-- Division truncates toward zero; a divisor zero gives all ones and the dividend. -/
def eval : MulDivOp → Word → Word → Word
  | .mul, a, b => BitVec.ofInt 32 (a.toInt * b.toInt)
  | .mulh, a, b => BitVec.ofInt 32 (a.toInt * b.toInt / 2 ^ 32)
  | .mulhsu, a, b => BitVec.ofInt 32 (a.toInt * b.toNat / 2 ^ 32)
  | .mulhu, a, b => BitVec.ofNat 32 (a.toNat * b.toNat / 2 ^ 32)
  | .div, a, b => if b = 0 then -1 else BitVec.ofInt 32 (a.toInt.tdiv b.toInt)
  | .divu, a, b => if b = 0 then BitVec.allOnes 32 else BitVec.ofNat 32 (a.toNat / b.toNat)
  | .rem, a, b => if b = 0 then a else BitVec.ofInt 32 (a.toInt.tmod b.toInt)
  | .remu, a, b => if b = 0 then a else BitVec.ofNat 32 (a.toNat % b.toNat)

example : eval .div 0x80000000 (-1) = 0x80000000 := by decide
example : eval .rem 0x80000000 (-1) = 0 := by decide

end MulDivOp

end PComputer.Isa
