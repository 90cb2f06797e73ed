import PComputer.Kernel.Scheduling

/-!
# Round robin

`_proc_getnext` looks for a READY process from the running one upwards and around, so
on the way from one dispatch of a process to its next no READY process is left out,
whatever happens to the table between the calls.
-/

namespace PComputer.PseudOS

open PComputer.Foundation PComputer.Rtl

namespace Kernel

variable {k k' : Kernel} {q r : Slot}

/-! ## The next process -/

private theorem le_of_find?_eq_some {p : Slot → Bool} {i j : Slot}
    (hi : (List.finRange PROC_NUM_MAX).find? p = some i) (hj : p j = true) : i ≤ j := by
  obtain ⟨-, as, bs, hsplit, hbefore⟩ := List.find?_eq_some_iff_append.mp hi
  have hsorted := List.pairwise_lt_finRange PROC_NUM_MAX
  have hmem := List.mem_finRange j
  rw [hsplit] at hsorted hmem
  rcases List.mem_append.mp hmem with has | hbs
  · have hnot := hbefore j has
    rw [hj] at hnot
    cases hnot
  · rcases List.mem_cons.mp hbs with rfl | hbs
    · exact le_rfl
    · exact (List.rel_of_pairwise_cons (List.pairwise_append.mp hsorted).2.1 hbs).le

def ahead (r q : Slot) : Nat := (q - r).val

private theorem ahead_eq (r q : Slot) :
    ahead r q = if r.val ≤ q.val then q.val - r.val else 64 + q.val - r.val := by
  have hr : r.val < 64 := r.isLt
  have hq : q.val < 64 := q.isLt
  have hsub : ahead r q = (64 - r.val + q.val) % 64 := Fin.val_sub q r
  rw [hsub]
  split_ifs <;> omega

private theorem procGetnext_ahead (hready : k.isReady q = true) (hrunning : k.procRunning = r.val)
    (hne : q ≠ r) :
    ∃ t : Slot, k.procGetnext = t.val ∧ k.isReady t = true ∧ t ≠ r ∧
      (t = q ∨ ahead t q < ahead r q) := by
  have hval : q.val ≠ r.val := fun h => hne (Fin.ext h)
  have hr : r.val < 64 := r.isLt
  unfold procGetnext
  rw [hrunning]
  split
  · next t ht =>
    have hfound := List.find?_some ht
    simp only [Bool.and_eq_true, decide_eq_true_eq] at hfound
    refine ⟨t, rfl, hfound.2, fun h => absurd hfound.1 (by rw [h]; omega), ?_⟩
    by_cases htq : t = q
    · exact .inl htq
    · have htq' : t.val ≠ q.val := fun h => htq (Fin.ext h)
      have hle : r.val < q.val → t.val ≤ q.val := fun hlt =>
        le_of_find?_eq_some ht (by simp only [hlt, hready, decide_true, Bool.and_self])
      have ht64 : t.val < 64 := t.isLt
      have hrt := hfound.1
      refine .inr ?_
      rw [ahead_eq, ahead_eq]
      split_ifs <;> omega
  · next hafter =>
    have hnot := List.find?_eq_none.mp hafter q (List.mem_finRange q)
    simp only [hready, Bool.and_true, decide_eq_true_eq] at hnot
    have hlt : q.val < r.val := by omega
    split
    · next t ht =>
      have hfound := List.find?_some ht
      simp only [Bool.and_eq_true, decide_eq_true_eq] at hfound
      have hle : t.val ≤ q.val :=
        le_of_find?_eq_some ht (by simp only [hlt, hready, decide_true, Bool.and_self])
      refine ⟨t, rfl, hfound.2, fun h => absurd hfound.1 (by rw [h]; omega), ?_⟩
      by_cases htq : t = q
      · exact .inl htq
      · have htq' : t.val ≠ q.val := fun h => htq (Fin.ext h)
        refine .inr ?_
        rw [ahead_eq, ahead_eq]
        split_ifs <;> omega
    · next hbefore =>
      have hnone := List.find?_eq_none.mp hbefore q (List.mem_finRange q)
      simp only [hlt, hready, decide_true, Bool.and_self, not_true_eq_false] at hnone

/-! ## Runs of `schedule` -/

/--
The first `n` calls of `schedule`, each from `k` to `k'`.  Between them anything may
happen to the table except that a process gets another number than that of its slot.
-/
structure Schedules (x : ReadX) (k k' : Nat → Kernel) (n : Nat) : Prop where
  schedule : ∀ m < n, (k m).schedule x = .ok (k' m)
  procRunning : ∀ m < n, (k (m + 1)).procRunning = (k' m).procRunning
  doStart : ∀ m < n, (k (m + 1)).doStart = (k' m).doStart
  pid : ∀ m < n, ∀ i : Slot, ((k m).proc i).pid = -1 ∨ ((k m).proc i).pid = i.val

/-- A call with `q` READY dispatches `q` or a process from which `q` is less far ahead. -/
theorem schedule_ahead {x : ReadX} (h : k.schedule x = .ok k') (hstart : k.doStart = false)
    (hpid : ∀ i : Slot, (k.proc i).pid = -1 ∨ (k.proc i).pid = i.val)
    (hready : k.isReady q = true) (hrunning : k.procRunning = r.val) (hne : q ≠ r) :
    ∃ t : Slot, k'.procRunning = t.val ∧ (t = q ∨ ahead t q < ahead r q) := by
  rcases schedule_cases h with ⟨hstart', -⟩ | ⟨-, c, t, hc, ht, rfl⟩
  · rw [hstart] at hstart'
    cases hstart'
  · obtain ⟨t', hget, hready', hne', hahead⟩ := procGetnext_ahead hready hrunning hne
    rw [hget, pid2proc_val] at ht
    rw [hrunning, pid2proc_val] at hc
    obtain rfl : t' = t := Except.ok.inj ht
    obtain rfl : r = c := Except.ok.inj hc
    refine ⟨t', ?_, hahead⟩
    have hlive : (k.proc t').pid = t'.val :=
      (hpid t').resolve_left (isReady_eq_true.mp hready').1
    have ht64 : t'.val < 64 := t'.isLt
    rw [procRunning_dispatch, proc_suspend, if_neg hne', hlive]
    omega

/-- While `q` is READY and not dispatched, it comes closer with each dispatch. -/
theorem Schedules.closer {x : ReadX} {k k' : Nat → Kernel} {n i j : Nat} {p : Slot}
    (h : Schedules x k k' n) (hi : (k' i).procRunning = p.val) (hpq : p ≠ q)
    (hready : ∀ m, i < m → m ≤ j → (k m).isReady q = true)
    (hnot : ∀ m, i < m → m ≤ j → (k' m).procRunning ≠ q.val) (hij : i < j) (hjn : j < n) :
    ∃ t : Slot, (k' j).procRunning = t.val ∧ ahead t q < ahead p q := by
  have hstep (m : Nat) (r : Slot) (him : i ≤ m) (hmj : m < j) (hr : (k' m).procRunning = r.val)
      (hrq : r ≠ q) : ∃ t : Slot, (k' (m + 1)).procRunning = t.val ∧ ahead t q < ahead r q := by
    have hstart : (k (m + 1)).doStart = false :=
      (h.doStart m (by omega)).trans (doStart_schedule (h.schedule m (by omega)))
    obtain ⟨t, ht, rfl | hahead⟩ := schedule_ahead (h.schedule (m + 1) (by omega)) hstart
      (h.pid (m + 1) (by omega)) (hready (m + 1) (by omega) (by omega))
      ((h.procRunning m (by omega)).trans hr) hrq.symm
    · exact absurd ht (hnot (m + 1) (by omega) (by omega))
    · exact ⟨t, ht, hahead⟩
  induction j, hij using Nat.le_induction with
  | base => exact hstep i p le_rfl (Nat.lt_succ_self i) hi hpq
  | succ j hij ih =>
      obtain ⟨r, hr, hcloser⟩ := ih (fun m him hmj => hready m him (by omega))
        (fun m him hmj => hnot m him (by omega)) (by omega) fun m r him hmj => hstep m r him
          (by omega)
      have hrq : r ≠ q := by
        rintro rfl
        exact hnot j hij (by omega) hr
      obtain ⟨t, ht, hahead⟩ := hstep j r (by omega) (Nat.lt_succ_self j) hr hrq
      exact ⟨t, ht, hahead.trans hcloser⟩

/-- A process that stays READY is dispatched before any other is dispatched twice. -/
theorem no_overtaking {x : ReadX} {k k' : Nat → Kernel} {n i j : Nat} {p : Slot}
    (h : Schedules x k k' n) (hij : i < j) (hjn : j < n) (hi : (k' i).procRunning = p.val)
    (hj : (k' j).procRunning = p.val) (hpq : p ≠ q)
    (hready : ∀ m, i < m → m ≤ j → (k m).isReady q = true) :
    ∃ m, i < m ∧ m < j ∧ (k' m).procRunning = q.val := by
  by_contra hnone
  have hnot : ∀ m, i < m → m ≤ j → (k' m).procRunning ≠ q.val := by
    intro m him hmj hq
    rcases Nat.lt_or_eq_of_le hmj with hlt | rfl
    · exact hnone ⟨m, him, hlt, hq⟩
    · exact hpq (Fin.ext (hj.symm.trans hq))
  obtain ⟨t, ht, hahead⟩ := h.closer hi hpq hready hnot hij hjn
  obtain rfl : t = p := Fin.ext (ht.symm.trans hj)
  exact Nat.lt_irrefl _ hahead

/-! ### Two processes -/

/-- Pids 1 and 2 are READY, pid 1 runs, and before each call pid 2 is made READY again. -/
def twoReady : Nat → Kernel
  | 0 =>
      { (default : Kernel) with
        procmanager :=
          { (default : Kernel).procmanager with
            procTable := fun i =>
              { (default : Process) with
                pid := if i = 1 ∨ i = 2 then i.val else -1
                state := PROC_STATE_READY }
            procRunning := 1
            doStart := true } }
  | n + 1 =>
      match (twoReady n).schedule tiedHigh with
      | .ok k => k.setProc 2 fun p => { p with state := PROC_STATE_READY }
      | .error _ => twoReady n

def twoScheduled (n : Nat) : Kernel :=
  match (twoReady n).schedule tiedHigh with
  | .ok k => k
  | .error _ => twoReady n

/-- Pid 1 is dispatched by the first and the third call, pid 2 by the second. -/
theorem no_overtaking_two : ∃ m, 0 < m ∧ m < 2 ∧ (twoScheduled m).procRunning = (2 : Slot).val := by
  have hok : ∀ m < 3, ((twoReady m).schedule tiedHigh).isOk = true := by
    decide +kernel
  have hschedules : Schedules tiedHigh twoReady twoScheduled 3 :=
    { schedule := fun m hm => by
        have h := hok m hm
        unfold twoScheduled
        cases hs : (twoReady m).schedule tiedHigh with
        | ok k => rfl
        | error e =>
            rw [hs] at h
            cases h
      procRunning := by decide +kernel
      doStart := by decide +kernel
      pid := by decide +kernel }
  have hpid : (1 : Slot) ≠ 2 := by decide
  have hready : ∀ m < 3, 0 < m → (twoReady m).isReady 2 = true := by decide +kernel
  exact no_overtaking hschedules (by decide) (by decide) (by decide +kernel : _ = (1 : Slot).val)
    (by decide +kernel) hpid fun m hpos hle => hready m (by omega) hpos

end Kernel

end PComputer.PseudOS
