import PComputer.Fs.Requests
import PComputer.Fs.Wakeup

/-!
# The queue of TTY0 at the start

TTY0 sets `ttyproc_queue[0]` when it first runs.  FS reads it for every request
for the terminal and does not know whether TTY0 has run; a loop that counts to
200000 is all that delays its first request.
-/

namespace PComputer.PseudOS

open PComputer.Foundation PComputer.Rtl

namespace System

variable {s s' : System} {c : Slot} {x : ReadX} {address : Slot → Word} {users : Finset Slot}

def UsesQueue (s : System) : Prop := s.fs.point = .wait ∨ s.fs.point = .enqueue

/-- FS takes up a request for the terminal only when TTY0 has had its first step. -/
def TtyFirst (s : System) (a : Action) : Prop :=
  match a with
  | .fs => s.fs.point = .dispatch → ForTerminal s.fs.msg → s.tty.point ≠ .start
  | .switch _ | .call | .tty _ | .user _ => True

instance (m : IOQuest) : Decidable (ForTerminal m) := inferInstanceAs (Decidable (_ ∧ _))

instance (s : System) : (a : Action) → Decidable (s.TtyFirst a)
  | .fs => inferInstanceAs (Decidable (_ → _ → _))
  | .switch _ | .call | .tty _ | .user _ => isTrue trivial

/-- TTY0 has had its first step exactly if its queue is published, and FS uses no other. -/
structure Published (address : Slot → Word) (users : Finset Slot) (s : System) : Prop where
  started : s.Started address users
  queue : s.tty.point ≠ .start → s.queue ≠ none
  uses : s.UsesQueue → s.queue ≠ none

private theorem Initial.published (h : s.Initial users) : s.Published address users where
  started := h.started
  queue hpoint := absurd h.tty hpoint
  uses huses := by
    unfold UsesQueue at huses
    rw [h.fs] at huses
    rcases huses with huses | huses <;> cases huses

private theorem Sound.usesQueue_of_call (h : s.Sound address users) (hrun : s.Runs c) {call : Call}
    (hipc : s.ipc c call = .ok s') (huses : s'.UsesQueue) : s.UsesQueue := by
  have htransferred {k : Kernel} {f d : Slot}
      (hfs : (({ s with kernel := k } : System).transferred f d).UsesQueue) : s.UsesQueue := by
    unfold UsesQueue transferred at hfs
    rw [fs_received, fs_sent] at hfs
    split_ifs at hfs
    all_goals
      first
      | exact hfs
      | rcases hfs with hfs | hfs <;> cases hfs
  obtain ⟨houtcome, -⟩ := ipc_outcome (h.current_of_runs hrun) hrun.2 hipc
  cases houtcome with
  | delivered d k' _ _ _ _ _ _ hs' | taken d k' _ _ _ _ _ _ hs' =>
      rw [hs'] at huses
      exact htransferred huses
  | dropped d _ _ hs' =>
      rw [hs'] at huses
      unfold UsesQueue at huses
      rw [fs_sent] at huses
      split_ifs at huses
      · rcases huses with huses | huses <;> cases huses
      · exact huses
  | sendBlocked d k' _ _ _ _ hs' | receiveBlocked k' _ _ _ hs' =>
      rw [hs'] at huses
      exact huses

private theorem callOf_start (hpoint : s.tty.point = .start) : s.callOf address ttySlot = none := by
  unfold callOf
  rw [if_neg tty_ne_fs, if_pos rfl, hpoint]

private theorem Sound.start_of_call (h : s.Sound address users) (hrun : s.Runs c) {call : Call}
    (hcall : s.callOf address c = some call) (hipc : s.ipc c call = .ok s')
    (hpoint : s.tty.point = .start) : s'.tty.point = .start := by
  have hc : c ≠ ttySlot := by
    rintro rfl
    rw [callOf_start hpoint] at hcall
    cases hcall
  have hother {d : Slot} (hd : (s.kernel.proc d).state = PROC_STATE_SENDING ∨
      (s.kernel.proc d).state = PROC_STATE_RECEIVING) : d ≠ ttySlot := by
    rintro rfl
    rcases hd with hd | hd
    · obtain ⟨dest, msg, hcall', -⟩ := h.sending ttySlot hd
      rw [callOf_start hpoint] at hcall'
      cases hcall'
    · obtain ⟨src, msg, hcall', -⟩ := h.receiving ttySlot hd
      rw [callOf_start hpoint] at hcall'
      cases hcall'
  obtain ⟨houtcome, -⟩ := ipc_outcome (h.current_of_runs hrun) hrun.2 hipc
  cases houtcome with
  | delivered d k' _ _ hstate _ _ _ hs' =>
      rw [hs', tty_point_transferred, if_neg (not_or.mpr ⟨hc, hother (.inr hstate)⟩)]
      exact hpoint
  | dropped d _ _ hs' =>
      rw [hs', tty_sent, if_neg hc]
      exact hpoint
  | taken f k' _ _ hstate _ _ _ hs' =>
      rw [hs', tty_point_transferred, if_neg (not_or.mpr ⟨hother (.inl hstate), hc⟩)]
      exact hpoint
  | sendBlocked d k' _ _ _ _ hs' | receiveBlocked k' _ _ _ hs' =>
      rw [hs']
      exact hpoint

theorem Published.fsStep (h : s.Published address users) (hstarted : s'.Started address users)
    (hfirst : s.TtyFirst .fs) (hok : s.fsStep = .ok s') : s'.Published address users := by
  refine ⟨hstarted, fun hpoint => ?_, fun huses => ?_⟩
  · rw [(fsStep_frame hok).2.1] at hpoint
    cases FsMove.of_step hok with
    | enqueue => exact nofun
    | byFd | byPath | resume | unknown | full | room | calls => exact h.queue hpoint
  · cases FsMove.of_step hok with
    | byFd hpoint hio hfd => exact h.queue (hfirst hpoint ⟨hio, hfd⟩)
    | full q _ hq | room q _ hq => exact fun hnone => absurd (hq.symm.trans hnone) nofun
    | byPath | resume | unknown | enqueue => rcases huses with huses | huses <;> cases huses
    | calls => exact h.uses huses

theorem Published.ttyStep {xfrcnt : Word} (h : s.Published address users)
    (hstarted : s'.Started address users) (hok : s.ttyStep xfrcnt = .ok s') :
    s'.Published address users := by
  have hqueue : s'.queue ≠ none := by
    cases TtyMove.of_step hok with
    | start | dequeue => exact nofun
    | empty q _ hq | nonempty q _ hq | tricky q _ hq =>
        exact fun hnone => absurd (hq.symm.trans hnone) nofun
    | served _ hpoint | ignored hpoint => exact h.queue (by rw [hpoint]; exact nofun)
    | calls hpoint => exact h.queue (by rcases hpoint with hp | hp <;> rw [hp] <;> exact nofun)
  exact ⟨hstarted, fun _ => hqueue, fun _ => hqueue⟩

theorem Published.step (h : s.Published address users) {a : Action}
    (henabled : s.Enabled users a) (hfirst : s.TtyFirst a) (hok : s.step x address a = .ok s') :
    s'.Published address users := by
  have hstarted := h.started.step henabled hok
  cases a with
  | switch t =>
      obtain ⟨c, hc⟩ := h.started.sound.current
      rw [step_switch hc.procRunning] at hok
      cases hok
      exact ⟨hstarted, h.queue, h.uses⟩
  | call =>
      obtain ⟨c, hrun⟩ := henabled
      cases hcall : s.callOf address c with
      | none =>
          rw [step_call_none hrun.1 hcall] at hok
          cases hok
          exact h
      | some call =>
          rw [step_call hrun.1 hcall] at hok
          have hsound := h.started.sound
          obtain ⟨hqueue, -⟩ := hsound.queue_of_call hrun hok
          refine ⟨hstarted, fun hpoint => ?_, fun huses => ?_⟩
          · rw [hqueue]
            exact h.queue fun hstart => hpoint (hsound.start_of_call hrun hcall hok hstart)
          · rw [hqueue]
            exact h.uses (hsound.usesQueue_of_call hrun hok huses)
  | fs =>
      rw [step_fs henabled.1] at hok
      exact h.fsStep hstarted hfirst hok
  | tty xfrcnt =>
      rw [step_tty henabled.1] at hok
      exact h.ttyStep hstarted hok
  | user msg =>
      obtain ⟨c, -, hrun, -, -⟩ := henabled
      rw [step_user hrun.1] at hok
      cases hok
      exact ⟨hstarted, h.queue, h.uses⟩

private theorem step_fs_null (hrun : s.Runs fsSlot) (hpoint : s.fs.point = .wait)
    (hnone : s.queue = none) :
    s.step x address .fs = .error .nullDeref := by
  rw [step_fs hrun.1]
  unfold System.fsStep fsWait
  rw [hpoint, hnone]

/-- If TTY0 has not had its first step, the second step of FS follows a null pointer. -/
theorem Published.null (h : s.Published address users) (hrun : s.Runs fsSlot)
    (hlate : ¬s.TtyFirst .fs) :
    ∃ s', s.step x address .fs = .ok s' ∧ s'.UsesQueue ∧ s'.queue = none ∧ s'.Runs fsSlot ∧
      s'.step x address .fs = .error .nullDeref := by
  unfold TtyFirst at hlate
  push Not at hlate
  obtain ⟨hpoint, hm, hstart⟩ := hlate
  have hnone := h.started.queue hstart
  refine ⟨{ s with fs := { s.fs with point := .wait } }, ?_, .inl rfl, hnone, hrun,
    step_fs_null hrun rfl hnone⟩
  rw [step_fs hrun.1]
  unfold System.fsStep
  rw [hpoint]
  exact fsDispatch_forTerminal hm

/--
In every run in which TTY0 has its first step before FS takes up a request for the
terminal, the queue that FS uses is published; where TTY0 has not, FS goes on to
follow a null pointer.
-/
theorem queue_published_of_ttyFirst {actions : List Action}
    (h : Run (step x address) (Initial users) (fun s a => s.Enabled users a ∧ s.TtyFirst a)
      actions s) :
    (s.UsesQueue → s.queue ≠ none) ∧
      (s.Enabled users .fs → ¬s.TtyFirst .fs →
        ∃ s', s.step x address .fs = .ok s' ∧ s'.UsesQueue ∧ s'.queue = none ∧
          s'.Enabled users .fs ∧ s'.step x address .fs = .error .nullDeref) := by
  have hpublished : s.Published address users := by
    refine Run.invariant (fun _ s => s.Published address users) ?_ ?_ h
    · intro s hs
      exact hs.published
    · intro _ s a s' hs ⟨henabled, hfirst⟩ hok
      exact hs.step henabled hfirst hok
  exact ⟨hpublished.uses, hpublished.null⟩

/-! ### Concrete runs -/

/-- Process 4 asks FS for a `writev` before FS first runs, and FS takes the request up. -/
def earlyWritev : List Action :=
  [.switch 4, .user writevRequest, .call, .switch 5, .call, .fs]

/-- TTY0 has its first step before. -/
theorem queue_published_ttyFirst :
    ∃ s, Run (step Kernel.tiedHigh fun _ => 4) (Initial [4].toFinset)
      (fun s a => s.Enabled [4].toFinset a ∧ s.TtyFirst a)
      ([.switch 7, .tty 0] ++ earlyWritev) s ∧ s.UsesQueue ∧ s.queue ≠ none := by
  have hrun : (follow (step Kernel.tiedHigh fun _ => 4)
      (fun s a => decide (s.Enabled [4].toFinset a ∧ s.TtyFirst a)) (boot [4])
        ([.switch 7, .tty 0] ++ earlyWritev)).map (fun s => s.fs.point) = some .wait := by
    decide +kernel
  obtain ⟨s, hs, hpoint⟩ := Option.map_eq_some_iff.mp hrun
  have hfollow := Run.of_follow (fun _ _ h => of_decide_eq_true h) initial_boot_four hs
  exact ⟨s, hfollow, .inl hpoint, (queue_published_of_ttyFirst hfollow).1 (.inl hpoint)⟩

/-- FS goes on to use a queue that nobody has published. -/
theorem null_queue_used_earlyWritev :
    ∃ s, Run (step Kernel.tiedHigh fun _ => 4) (Initial [4].toFinset)
      (Enabled [4].toFinset) earlyWritev s ∧ s.UsesQueue ∧ s.queue = none ∧
      s.Enabled [4].toFinset .fs ∧
      s.step Kernel.tiedHigh (fun _ => 4) .fs = .error .nullDeref := by
  have hrun : (follow (step Kernel.tiedHigh fun _ => 4)
      (fun s a => decide (s.Enabled [4].toFinset a)) (boot [4]) earlyWritev).map
        (fun s => (s.fs.point, s.queue.isNone, decide (s.Runs fsSlot))) =
      some (.wait, true, true) := by
    decide +kernel
  obtain ⟨s, hs, hfinal⟩ := Option.map_eq_some_iff.mp hrun
  simp only [Prod.mk.injEq, Option.isNone_iff_eq_none, decide_eq_true_eq] at hfinal
  obtain ⟨hpoint, hqueue, hruns⟩ := hfinal
  exact ⟨s, Run.of_follow (fun _ _ h => of_decide_eq_true h) initial_boot_four hs, .inl hpoint,
    hqueue, hruns, step_fs_null hruns hpoint hqueue⟩

end System

end PComputer.PseudOS
