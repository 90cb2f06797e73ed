import Mathlib.Tactic.SplitIfs

/-!
# Fallible steps and their runs

A step function that may fail, the runs it allows, and the rule that carries an
invariant along a run.  A run records the labels of its steps.
-/

namespace PComputer.Foundation

universe u v

theorem bind_eq_ok {α β : Type u} {ε : Type v} {x : Except ε α} {f : α → Except ε β} {b : β} :
    (x >>= f) = .ok b ↔ ∃ a, x = .ok a ∧ f a = .ok b := by
  constructor
  · intro h
    cases x with
    | error e => cases h
    | ok a => exact ⟨a, rfl, h⟩
  · rintro ⟨a, rfl, h⟩
    exact h

theorem pure_eq_ok {α ε : Type*} {a b : α} : (pure a : Except ε α) = .ok b ↔ a = b := by
  constructor
  · rintro ⟨⟩
    rfl
  · rintro rfl
    rfl

def Succeeds {α ε : Type*} (e : Except ε α) : Prop := ∃ a, e = .ok a

@[simp] theorem succeeds_ok {α ε : Type*} (a : α) : Succeeds (.ok a : Except ε α) := ⟨a, rfl⟩

@[simp] theorem succeeds_pure {α ε : Type*} (a : α) : Succeeds (pure a : Except ε α) := ⟨a, rfl⟩

@[simp] theorem not_succeeds_error {α ε : Type*} (e : ε) : ¬Succeeds (.error e : Except ε α) := by
  rintro ⟨a, ⟨⟩⟩

theorem succeeds_bind {α β : Type u} {ε : Type v} {x : Except ε α} {f : α → Except ε β} :
    Succeeds (x >>= f) ↔ ∃ a, x = .ok a ∧ Succeeds (f a) := by
  unfold Succeeds
  constructor
  · rintro ⟨b, hb⟩
    obtain ⟨a, ha, hb⟩ := bind_eq_ok.mp hb
    exact ⟨a, ha, b, hb⟩
  · rintro ⟨a, ha, b, hb⟩
    exact ⟨b, bind_eq_ok.mpr ⟨a, ha, hb⟩⟩

theorem succeeds_bind_pure {α β : Type u} {ε : Type v} {x : Except ε α} {f : α → β} :
    Succeeds (x >>= fun a => pure (f a)) ↔ Succeeds x := by
  rw [succeeds_bind]
  constructor
  · rintro ⟨a, ha, -⟩
    exact ⟨a, ha⟩
  · rintro ⟨a, ha⟩
    exact ⟨a, ha, succeeds_pure _⟩

/--
The runs from `init` in which every step is `Allowed` and succeeds, with the
labels of the steps in order.
-/
inductive Run {σ ι ε : Type*} (step : σ → ι → Except ε σ) (init : σ → Prop)
    (Allowed : σ → ι → Prop) : List ι → σ → Prop
  | start {s : σ} : init s → Run step init Allowed [] s
  | next {labels : List ι} {s s' : σ} {label : ι} :
      Run step init Allowed labels s → Allowed s label → step s label = .ok s' →
        Run step init Allowed (labels ++ [label]) s'

theorem Run.invariant {σ ι ε : Type*} {step : σ → ι → Except ε σ} {init : σ → Prop}
    {Allowed : σ → ι → Prop} (Inv : List ι → σ → Prop) (hinit : ∀ s, init s → Inv [] s)
    (hstep : ∀ labels s label s', Inv labels s → Allowed s label → step s label = .ok s' →
      Inv (labels ++ [label]) s')
    {labels : List ι} {s : σ} (h : Run step init Allowed labels s) : Inv labels s := by
  induction h with
  | start hs => exact hinit _ hs
  | next _ hallowed hok ih => exact hstep _ _ _ _ ih hallowed hok

/-! ## Concrete runs -/

def follow {σ ι ε : Type*} (step : σ → ι → Except ε σ) (allowed : σ → ι → Bool) :
    σ → List ι → Option σ
  | s, [] => some s
  | s, label :: rest =>
      if allowed s label then
        match step s label with
        | .ok s' => follow step allowed s' rest
        | .error _ => none
      else none

theorem Run.append_follow {σ ι ε : Type*} {step : σ → ι → Except ε σ} {init : σ → Prop}
    {Allowed : σ → ι → Prop} {allowed : σ → ι → Bool}
    (hallowed : ∀ s label, allowed s label = true → Allowed s label) {labels rest : List ι}
    {s s' : σ} (h : Run step init Allowed labels s)
    (hrest : follow step allowed s rest = some s') :
    Run step init Allowed (labels ++ rest) s' := by
  induction rest generalizing labels s with
  | nil =>
      cases hrest
      rwa [List.append_nil]
  | cons label rest ih =>
      unfold Foundation.follow at hrest
      split_ifs at hrest with hlabel
      split at hrest
      · next s₁ hok =>
        have hnext := ih (h.next (hallowed s label hlabel) hok) hrest
        rwa [List.append_assoc] at hnext
      · cases hrest

theorem Run.of_follow {σ ι ε : Type*} {step : σ → ι → Except ε σ} {init : σ → Prop}
    {Allowed : σ → ι → Prop} {allowed : σ → ι → Bool}
    (hallowed : ∀ s label, allowed s label = true → Allowed s label) {labels : List ι}
    {s s' : σ} (hinit : init s) (h : follow step allowed s labels = some s') :
    Run step init Allowed labels s' := by
  have hrun := Run.append_follow hallowed (Run.start hinit) h
  rwa [List.nil_append] at hrun

end PComputer.Foundation
