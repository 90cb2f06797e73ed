import PComputer.Foundation.ByteLanes

/-!
# The CSR instructions

What each of them puts into the CSR, from the old value and its source operand.
-/

namespace PComputer.Isa

open PComputer.Foundation

inductive CsrOp where
  | csrrw | csrrs | csrrc
  deriving DecidableEq, Repr

def csrOp? (funct3 : BitVec 3) : Option (CsrOp × Bool) :=
  if funct3 = 0b001 then some (.csrrw, false)
  else if funct3 = 0b010 then some (.csrrs, false)
  else if funct3 = 0b011 then some (.csrrc, false)
  else if funct3 = 0b101 then some (.csrrw, true)
  else if funct3 = 0b110 then some (.csrrs, true)
  else if funct3 = 0b111 then some (.csrrc, true)
  else none

namespace CsrOp

def eval : CsrOp → Word → Word → Word
  | .csrrw, _, source => source
  | .csrrs, v, source => v ||| source
  | .csrrc, v, source => v &&& ~~~source

def funct3 (o : CsrOp) (immediate : Bool) : BitVec 3 :=
  BitVec.ofBool immediate ++
    match o with
    | .csrrw => 0b01#2
    | .csrrs => 0b10#2
    | .csrrc => 0b11#2

end CsrOp

theorem csrOp?_some {f : BitVec 3} {o : CsrOp} {immediate : Bool}
    (h : csrOp? f = some (o, immediate)) : f = o.funct3 immediate := by
  unfold csrOp? at h
  split_ifs at h with h₁ h₂ h₃ h₄ h₅ h₆ <;>
  · obtain ⟨rfl, rfl⟩ := Prod.mk.inj (Option.some.inj h)
    subst f
    rfl

end PComputer.Isa
