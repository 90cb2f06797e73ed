import Mathlib.Logic.Relation

/-!
# Synchronous machines

A synchronous machine is a step function that takes the inputs of one clock
cycle and the state before the edge to the state after the edge.  `trace` is
its run under an input stream; the rules below are the induction principles
that the hardware proofs use, so that no module repeats an induction on time.
-/

namespace PComputer.Foundation

variable {σ ι : Type*}

/-- The state before edge `t` when the machine starts in `s`. -/
def trace (step : ι → σ → σ) (ins : Nat → ι) (s : σ) : Nat → σ
  | 0 => s
  | t + 1 => step (ins t) (trace step ins s t)

variable {step : ι → σ → σ} {ins : Nat → ι} {s : σ}

@[simp] theorem trace_zero : trace step ins s 0 = s := rfl

theorem trace_succ (t : Nat) :
    trace step ins s (t + 1) = step (ins t) (trace step ins s t) := rfl

theorem trace_congr {ins' : Nat → ι} {n : Nat} (h : ∀ k < n, ins k = ins' k) :
    trace step ins s n = trace step ins' s n := by
  induction n with
  | zero => rfl
  | succ n ih => rw [trace_succ, trace_succ, ih fun k hk => h k (by omega), h n (by omega)]

/-! ## What a run shows -/

section Logged

variable {ω : Type*} {out : ι → σ → List ω}

theorem trace_add (m n : Nat) :
    trace step ins s (m + n) = trace step (fun k => ins (m + k)) (trace step ins s m) n := by
  induction n with
  | zero => rfl
  | succ n ih => rw [← Nat.add_assoc, trace_succ, ih, trace_succ]

def logged (step : ι → σ → σ) (out : ι → σ → List ω) (ins : Nat → ι) (s : σ) : Nat → List ω
  | 0 => []
  | t + 1 => logged step out ins s t ++ out (ins t) (trace step ins s t)

@[simp] theorem logged_zero : logged step out ins s 0 = [] := rfl

theorem logged_succ (t : Nat) :
    logged step out ins s (t + 1) =
      logged step out ins s t ++ out (ins t) (trace step ins s t) := rfl

theorem logged_add (m n : Nat) :
    logged step out ins s (m + n) = logged step out ins s m ++
      logged step out (fun k => ins (m + k)) (trace step ins s m) n := by
  induction n with
  | zero => exact (List.append_nil _).symm
  | succ n ih =>
      rw [← Nat.add_assoc, logged_succ, ih, logged_succ, trace_add, List.append_assoc]

theorem logged_extends (m n : Nat) :
    logged step out ins s m <+: logged step out ins s (m + n) := by
  rw [logged_add]
  exact List.prefix_append _ _

end Logged

/-! ## A run up to an event -/

section Stopped

variable {done : σ → Prop} {n : Nat}

open Classical in
/-- The machine that stands still once it is done. -/
noncomputable def stopped (done : σ → Prop) (step : ι → σ → σ) (i : ι) (s : σ) : σ :=
  if done s then s else step i s

theorem stopped_of_not_done {i : ι} (h : ¬done s) : stopped done step i s = step i s :=
  if_neg h

theorem not_done_of_succ (h : ¬done (trace (stopped done step) ins s (n + 1))) :
    ¬done (trace (stopped done step) ins s n) := by
  intro hdone
  apply h
  rw [trace_succ, stopped, if_pos hdone]
  exact hdone

theorem trace_of_not_done (h : ¬done (trace (stopped done step) ins s n)) :
    trace (stopped done step) ins s n = trace step ins s n ∧
      ∀ k, k ≤ n → ¬done (trace step ins s k) := by
  induction n with
  | zero => exact ⟨rfl, fun k hk => Nat.le_zero.mp hk ▸ h⟩
  | succ n ih =>
      have hn := not_done_of_succ h
      obtain ⟨hsame, hbefore⟩ := ih hn
      have hnext : trace (stopped done step) ins s (n + 1) = trace step ins s (n + 1) := by
        rw [trace_succ, stopped_of_not_done hn, hsame, trace_succ]
      refine ⟨hnext, fun k hk => ?_⟩
      rcases Nat.le_succ_iff.mp hk with hk | rfl
      · exact hbefore k hk
      · rwa [← hnext]

theorem exists_trace_of_done (h : done (trace (stopped done step) ins s n)) :
    ∃ m, trace step ins s m = trace (stopped done step) ins s n ∧
      ∀ k, k < m → ¬done (trace step ins s k) := by
  induction n with
  | zero => exact ⟨0, rfl, nofun⟩
  | succ n ih =>
      by_cases hn : done (trace (stopped done step) ins s n)
      · rw [trace_succ, stopped, if_pos hn]
        exact ih hn
      · obtain ⟨hsame, hbefore⟩ := trace_of_not_done hn
        refine ⟨n + 1, ?_, fun k hk => hbefore k (Nat.le_of_lt_succ hk)⟩
        rw [trace_succ, trace_succ, stopped_of_not_done hn, hsame]

end Stopped

end PComputer.Foundation
