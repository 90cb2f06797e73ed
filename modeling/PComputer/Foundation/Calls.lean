import Mathlib.Logic.Basic

/-!
# Sequences of calls

An object answers each call and goes to its next state.  Two objects that answer alike
in related states, and stay related, answer every sequence of calls alike.
-/

namespace PComputer.Foundation

variable {σ τ ι ο : Type*}

def answers (call : σ → ι → ο × σ) : σ → List ι → List ο × σ
  | s, [] => ([], s)
  | s, i :: is =>
      ((call s i).1 :: (answers call (call s i).2 is).1, (answers call (call s i).2 is).2)

theorem answers_of_simulation {call : σ → ι → ο × σ} {call' : τ → ι → ο × τ}
    {Rel : σ → τ → Prop}
    (hcall : ∀ s t i, Rel s t → (call s i).1 = (call' t i).1 ∧ Rel (call s i).2 (call' t i).2)
    {s : σ} {t : τ} (h : Rel s t) (is : List ι) :
    (answers call s is).1 = (answers call' t is).1 ∧
      Rel (answers call s is).2 (answers call' t is).2 := by
  induction is generalizing s t with
  | nil => exact ⟨rfl, h⟩
  | cons i is ih =>
      obtain ⟨hanswer, hnext⟩ := hcall s t i h
      obtain ⟨hanswers, hlast⟩ := ih hnext
      unfold answers
      exact ⟨by rw [hanswer, hanswers], hlast⟩

end PComputer.Foundation
