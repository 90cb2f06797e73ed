import Mathlib.Logic.Function.Iterate

/-!
# Searching along a partial step

A search visits one place after the other, as a step function gives the next or
none, and stops at the first that it takes, or where there is no other.
-/

namespace PComputer.Foundation

variable {α : Type*} {step : α → Option α} {take : α → Bool} {a b : α} {m n : Nat}
  {r r' : Option α}

def visits (step : α → Option α) (a : α) (n : Nat) : Option α := (·.bind step)^[n] (some a)

@[simp] theorem visits_zero (step : α → Option α) (a : α) : visits step a 0 = some a := rfl

private theorem iterate_bind_none (step : α → Option α) (n : Nat) :
    (fun o : Option α => o.bind step)^[n] none = none :=
  Function.iterate_fixed rfl n

theorem visits_succ (step : α → Option α) (a : α) (n : Nat) :
    visits step a (n + 1) = (visits step a n).bind step :=
  Function.iterate_succ_apply' _ _ _

theorem visits_add (h : visits step a m = some b) (n : Nat) :
    visits step a (m + n) = visits step b n := by
  unfold visits at h ⊢
  rw [Nat.add_comm, Function.iterate_add_apply, h]

theorem visits_none (h : visits step a m = none) (hle : m ≤ n) : visits step a n = none := by
  obtain ⟨k, rfl⟩ := Nat.exists_eq_add_of_le' hle
  unfold visits at h ⊢
  rw [Function.iterate_add_apply, h, iterate_bind_none]

/-- The search takes what it visits after `n` others, and nothing before. -/
structure SearchStops (step : α → Option α) (take : α → Bool) (a : α) (n : Nat)
    (r : Option α) : Prop where
  result : visits step a n = r
  before : ∀ m < n, ∀ b, visits step a m = some b → take b = false
  takes : ∀ b, r = some b → take b = true

theorem SearchStops.unique (h : SearchStops step take a m r)
    (h' : SearchStops step take a n r') : r = r' := by
  rcases Nat.lt_trichotomy m n with hlt | rfl | hgt
  · cases r with
    | none => exact (visits_none h.result (Nat.le_of_lt hlt)).symm.trans h'.result
    | some b => exact absurd (h'.before m hlt b h.result) (by rw [h.takes b rfl]; decide)
  · exact h.result.symm.trans h'.result
  · cases r' with
    | none => exact h.result.symm.trans (visits_none h'.result (Nat.le_of_lt hgt))
    | some b => exact absurd (h.before n hgt b h'.result) (by rw [h'.takes b rfl]; decide)

theorem stops_add_iff (h : visits step a m = some b)
    (hvain : ∀ i < m, ∀ c, visits step a i = some c → take c = false) :
    SearchStops step take a (m + n) r ↔ SearchStops step take b n r := by
  constructor
  · rintro ⟨hresult, hbefore, htakes⟩
    refine ⟨(visits_add h n).symm.trans hresult, fun i hi c hc => ?_, htakes⟩
    exact hbefore (m + i) (by omega) c ((visits_add h i).trans hc)
  · rintro ⟨hresult, hbefore, htakes⟩
    refine ⟨(visits_add h n).trans hresult, fun i hi c hc => ?_, htakes⟩
    rcases Nat.lt_or_ge i m with hlt | hge
    · exact hvain i hlt c hc
    · obtain ⟨k, rfl⟩ := Nat.exists_eq_add_of_le hge
      exact hbefore k (by omega) c ((visits_add h k).symm.trans hc)

end PComputer.Foundation
