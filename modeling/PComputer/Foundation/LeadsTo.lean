import Mathlib.Data.Nat.Init

/-!
# What a run comes to

`LeadsTo` relates predicates on the states of one run.  A phase of a protocol is proved on
its own, from an event that happens again and again or from a measure, and the phases are
put together by `trans`.
-/

namespace PComputer.Foundation

variable {σ : Type*} {tr : Nat → σ} {P Q R : σ → Prop}

/-- Whenever `P` holds, `Q` holds then or later. -/
def LeadsTo (tr : Nat → σ) (P Q : σ → Prop) : Prop :=
  ∀ n, P (tr n) → ∃ m, n ≤ m ∧ Q (tr m)

theorem LeadsTo.trans (hpq : LeadsTo tr P Q) (hqr : LeadsTo tr Q R) : LeadsTo tr P R := by
  intro start hp
  obtain ⟨middle, hmiddle, hq⟩ := hpq start hp
  obtain ⟨last, hlast, hr⟩ := hqr middle hq
  exact ⟨last, Nat.le_trans hmiddle hlast, hr⟩

theorem leadsTo_exists {α : Type*} {P Q : α → σ → Prop} (h : ∀ a, LeadsTo tr (P a) (Q a)) :
    LeadsTo tr (fun s => ∃ a, P a s) fun s => ∃ a, Q a s := by
  rintro n ⟨a, ha⟩
  obtain ⟨m, hle, hm⟩ := h a n ha
  exact ⟨m, hle, a, hm⟩

theorem leadsTo_of_next (h : ∀ n, P (tr n) → Q (tr (n + 1))) : LeadsTo tr P Q :=
  fun n hn => ⟨n + 1, n.le_succ, h n hn⟩

theorem exists_event {event : Nat → Prop} (hevent : ∀ n, ∃ m, n ≤ m ∧ event m)
    (hstay : ∀ n, ¬event n → P (tr n) → P (tr (n + 1))) {n : Nat} (hn : P (tr n)) :
    ∃ m, n ≤ m ∧ P (tr m) ∧ event m := by
  obtain ⟨m, hnm, hm⟩ := hevent n
  obtain ⟨k, rfl⟩ := Nat.exists_eq_add_of_le hnm
  clear hnm
  induction k generalizing n with
  | zero => exact ⟨n, Nat.le_refl _, hn, hm⟩
  | succ k ih =>
      by_cases hnow : event n
      · exact ⟨n, Nat.le_refl _, hn, hnow⟩
      · obtain ⟨m', hle, hm'⟩ := ih (hstay n hnow hn) (by rwa [Nat.add_right_comm])
        exact ⟨m', by omega, hm'⟩

theorem leadsTo_of_event {event : Nat → Prop} (hevent : ∀ n, ∃ m, n ≤ m ∧ event m)
    (hstay : ∀ n, ¬event n → P (tr n) → P (tr (n + 1)))
    (hstep : ∀ n, event n → P (tr n) → Q (tr (n + 1))) : LeadsTo tr P Q := by
  intro n hn
  obtain ⟨m, hnm, hm, hnow⟩ := exists_event hevent hstay hn
  exact ⟨m + 1, by omega, hstep m hnow hm⟩

theorem leadsTo_of_measure (measure : σ → Nat)
    (h : ∀ n, P (tr n) → Q (tr n) ∨ P (tr (n + 1)) ∧ measure (tr (n + 1)) < measure (tr n)) :
    LeadsTo tr P Q := by
  intro n hn
  induction hk : measure (tr n) using Nat.strong_induction_on generalizing n with
  | _ k ih =>
      rcases h n hn with hq | ⟨hnext, hless⟩
      · exact ⟨n, Nat.le_refl _, hq⟩
      · obtain ⟨m, hnm, hm⟩ := ih _ (hk ▸ hless) (n + 1) hnext rfl
        exact ⟨m, by omega, hm⟩

end PComputer.Foundation
