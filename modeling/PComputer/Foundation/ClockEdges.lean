import PComputer.Foundation.Clocked
import Mathlib.Order.Monotone.Basic
import Mathlib.Tactic.ByContra

/-!
# Machines with several clocks

At an instant each clock has an edge or has none, and a machine takes all the edges of an
instant at once, from the registers as they were before it.  What one domain reads from
another is settled by how many edges each clock has had.
-/

namespace PComputer.Foundation

/-! ## Edges of a clock -/

def edges (clk : Nat → Bool) : Nat → Nat
  | 0 => 0
  | t + 1 => edges clk t + (clk t).toNat

variable {clk slow fast : Nat → Bool} {t u n : Nat}

@[simp] theorem edges_zero : edges clk 0 = 0 := rfl

theorem edges_succ (t : Nat) : edges clk (t + 1) = edges clk t + (clk t).toNat := rfl

theorem edges_of_edge (h : clk t = true) : edges clk (t + 1) = edges clk t + 1 := by
  simp [edges_succ, h]

theorem edges_of_still (h : clk t = false) : edges clk (t + 1) = edges clk t := by
  simp [edges_succ, h]

theorem edges_mono (clk : Nat → Bool) (h : t ≤ u) : edges clk t ≤ edges clk u := by
  induction u, h using Nat.le_induction with
  | base => exact le_rfl
  | succ u _ ih => exact ih.trans (Nat.le_add_right _ _)

theorem exists_edge (h : n < edges clk t) : ∃ u < t, clk u = true ∧ edges clk u = n := by
  induction t with
  | zero => simp at h
  | succ t ih =>
      by_cases hn : n < edges clk t
      · obtain ⟨u, hu, hedge⟩ := ih hn
        exact ⟨u, by omega, hedge⟩
      · cases hclk : clk t
        · rw [edges_of_still hclk] at h
          contradiction
        · rw [edges_of_edge hclk] at h
          exact ⟨t, by omega, hclk, by omega⟩

theorem lt_of_edges_lt (h : edges clk t < edges clk u) : t < u := by
  by_contra hle
  exact absurd (edges_mono clk (Nat.not_lt.mp hle)) (Nat.not_le.mpr h)

theorem still_of_edges_eq (h : edges clk t = edges clk u) :
    ∀ k, t ≤ k → k < u → clk k = false := by
  intro k htk hku
  by_contra hclk
  have hedge : edges clk (k + 1) = edges clk k + 1 := edges_of_edge (by simpa using hclk)
  have hbefore := edges_mono clk htk
  have hafter := edges_mono clk (show k + 1 ≤ u from hku)
  omega

theorem exists_last_edge (htu : t < u) (ht : clk t = true) :
    ∃ v, t ≤ v ∧ v < u ∧ clk v = true ∧ edges clk (v + 1) = edges clk u := by
  induction u, htu using Nat.le_induction with
  | base => exact ⟨t, le_rfl, t.lt_succ_self, ht, rfl⟩
  | succ u htu ih =>
      cases hclk : clk u
      · obtain ⟨v, htv, hvu, hv, hlast⟩ := ih
        exact ⟨v, htv, by omega, hv, by rw [hlast, edges_of_still hclk]⟩
      · exact ⟨u, by omega, u.lt_succ_self, hclk, rfl⟩

/-- What a domain keeps without an edge of its clock is the same while the count is. -/
theorem trace_of_edges_eq {σ ι τ : Type*} {step : ι → σ → σ} {ins : Nat → ι} {s : σ}
    {ticks : ι → Bool} {f : σ → τ} (hkeeps : ∀ i s, ticks i = false → f (step i s) = f s)
    (htu : t ≤ u) (h : edges (ticks ∘ ins) t = edges (ticks ∘ ins) u) :
    f (trace step ins s u) = f (trace step ins s t) := by
  induction u, htu using Nat.le_induction with
  | base => rfl
  | succ u htu ih =>
      have hbefore := edges_mono (ticks ∘ ins) htu
      have hafter := edges_mono (ticks ∘ ins) (Nat.le_add_right u 1)
      have hlast : edges (ticks ∘ ins) u = edges (ticks ∘ ins) (u + 1) := by omega
      have hstill : ticks (ins u) = false :=
        still_of_edges_eq hlast u le_rfl u.lt_succ_self
      rw [trace_succ, hkeeps _ _ hstill, ih (by omega)]

/-! ## What a domain shows -/

section Shown

variable {σ ι ω : Type*} {step : ι → σ → σ} {ins : Nat → ι} {s : σ} {ticks : ι → Bool}
  {g : ι → σ → ω}

def onEdges (ticks : ι → Bool) (g : ι → σ → ω) (i : ι) (s : σ) : List ω :=
  if ticks i then [g i s] else []

theorem length_logged_onEdges (t : Nat) :
    (logged step (onEdges ticks g) ins s t).length = edges (ticks ∘ ins) t := by
  induction t with
  | zero => rfl
  | succ t ih =>
      rw [logged_succ, List.length_append, ih, edges_succ, onEdges, Function.comp_apply]
      cases ticks (ins t) <;> rfl

theorem getElem?_logged_onEdges (hut : u < t) (hu : ticks (ins u) = true) :
    (logged step (onEdges ticks g) ins s t)[edges (ticks ∘ ins) u]? =
      some (g (ins u) (trace step ins s u)) := by
  obtain ⟨n, rfl⟩ := Nat.exists_eq_add_of_lt hut
  have hlast : logged step (onEdges ticks g) ins s (u + 1) =
      logged step (onEdges ticks g) ins s u ++ [g (ins u) (trace step ins s u)] := by
    rw [logged_succ, onEdges, if_pos hu]
  have hlength : (logged step (onEdges ticks g) ins s u).length = edges (ticks ∘ ins) u :=
    length_logged_onEdges u
  rw [show u + n + 1 = u + 1 + n by omega, logged_add, hlast, List.append_assoc, ← hlength,
    List.getElem?_append_right le_rfl]
  simp

end Shown

/-! ## Two clocks of a fixed ratio -/

/-- The fast clock has `ratio` edges for each of the slow one; it is `phase` edges ahead,
and its edges always or never coincide with those of the slow one. -/
structure Locked (slow fast : Nat → Bool) (ratio phase : Nat) (aligned : Bool) : Prop where
  phase : ∀ t, slow t = true → edges fast t = ratio * edges slow t + phase
  aligned : ∀ t, slow t = true → fast t = aligned
  endless : ∀ t, ∃ u, t ≤ u ∧ slow u = true

namespace Locked

variable {ratio phase : Nat} {aligned : Bool}

theorem exists_next (h : Locked slow fast ratio phase aligned) (t : Nat) :
    ∃ u, t ≤ u ∧ slow u = true ∧ edges slow u = edges slow t := by
  obtain ⟨v, htv, hv⟩ := h.endless t
  have hlt : edges slow t < edges slow (v + 1) := by
    have := edges_mono slow htv
    rw [edges_of_edge hv]
    omega
  obtain ⟨u, -, hu, hcount⟩ := exists_edge hlt
  refine ⟨u, ?_, hu, hcount⟩
  by_contra hut
  have := edges_mono slow (show u + 1 ≤ t by omega)
  rw [edges_of_edge hu] at this
  omega

theorem exists_nth (h : Locked slow fast ratio phase aligned) (n : Nat) :
    ∃ u, slow u = true ∧ edges slow u = n := by
  induction n with
  | zero =>
      obtain ⟨u, -, hu, hcount⟩ := h.exists_next 0
      exact ⟨u, hu, hcount⟩
  | succ n ih =>
      obtain ⟨v, hv, hn⟩ := ih
      obtain ⟨u, -, hu, hcount⟩ := h.exists_next (v + 1)
      exact ⟨u, hu, by rw [hcount, edges_of_edge hv, hn]⟩

theorem edges_fast_lt (h : Locked slow fast ratio phase aligned) (ht : fast t = true) :
    edges fast t < ratio * edges slow t + (phase + aligned.toNat) := by
  obtain ⟨u, htu, hu, hcount⟩ := h.exists_next t
  have hphase := h.phase u hu
  rw [hcount] at hphase
  rcases Nat.eq_or_lt_of_le htu with rfl | hlater
  · have haligned : aligned = true := (h.aligned t hu).symm.trans ht
    simp [hphase, haligned]
  · have hafter := edges_mono fast (show t + 1 ≤ u from hlater)
    rw [edges_of_edge ht] at hafter
    omega

theorem le_edges_fast (h : Locked slow fast ratio phase aligned)
    (hn : edges slow t = n + 1) : ratio * n + (phase + aligned.toNat) ≤ edges fast t := by
  obtain ⟨u, hut, hu, hcount⟩ := exists_edge (show n < edges slow t by omega)
  have hafter := edges_mono fast (show u + 1 ≤ t from hut)
  rw [edges_succ, h.phase u hu, h.aligned u hu, hcount] at hafter
  omega

theorem edges_slow (h : Locked slow fast ratio phase aligned) (ht : fast t = true)
    (hlow : ratio * n + (phase + aligned.toNat) ≤ edges fast t)
    (hhigh : edges fast t < ratio * (n + 1) + (phase + aligned.toNat)) :
    edges slow t = n + 1 := by
  have hlt := h.edges_fast_lt ht
  cases hslow : edges slow t with
  | zero =>
      rw [hslow, Nat.mul_zero] at hlt
      omega
  | succ m =>
      have hle := h.le_edges_fast hslow
      rw [hslow] at hlt
      have hmn : m < n + 1 := Nat.lt_of_mul_lt_mul_left (a := ratio) (by omega)
      have hnm : n < m + 1 := Nat.lt_of_mul_lt_mul_left (a := ratio) (by omega)
      omega

end Locked

/-! ## Divided clocks -/

section Divided

def divided (n t : Nat) : Bool := t % n == 0

theorem edges_always (t : Nat) : edges (fun _ => true) t = t := by
  induction t with
  | zero => rfl
  | succ t ih => rw [edges_of_edge rfl, ih]

theorem eq_of_divided {m : Nat} (ht : divided n t = true) (hlow : t ≤ n * m)
    (hhigh : n * m < t + n) : t = n * m := by
  have hdvd : n ∣ t := Nat.dvd_of_mod_eq_zero (by simpa [divided] using ht)
  have hq : n * (t / n) = t := Nat.mul_div_cancel' hdvd
  have hle : t / n ≤ m := by
    by_contra hlt
    have := Nat.mul_le_mul_left n (show m + 1 ≤ t / n by omega)
    rw [Nat.mul_add, hq] at this
    omega
  have hge : m < t / n + 1 := by
    apply Nat.lt_of_mul_lt_mul_left (a := n)
    rw [Nat.mul_add, hq]
    omega
  rw [← hq, Nat.le_antisymm hle (by omega)]

theorem edges_divided (hn : 0 < n) (t : Nat) :
    t ≤ n * edges (divided n) t ∧ n * edges (divided n) t < t + n := by
  induction t with
  | zero => simp [hn]
  | succ t ih =>
      cases hclk : divided n t
      · have hne : t ≠ n * edges (divided n) t := by
          intro heq
          rw [divided, heq] at hclk
          simp at hclk
        rw [edges_of_still hclk]
        omega
      · have heq := eq_of_divided hclk ih.1 ih.2
        rw [edges_of_edge hclk, Nat.mul_add]
        omega

theorem locked_divided (hn : 0 < n) : Locked (divided n) (fun _ => true) n 0 true where
  phase := by
    intro t ht
    obtain ⟨hlow, hhigh⟩ := edges_divided hn t
    rw [edges_always]
    exact eq_of_divided ht hlow hhigh
  aligned := fun _ _ => rfl
  endless := fun t => ⟨n * t, Nat.le_mul_of_pos_left t hn, by simp [divided]⟩

end Divided

end PComputer.Foundation
