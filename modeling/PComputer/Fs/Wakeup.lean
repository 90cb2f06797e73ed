import PComputer.Fs.Steps

/-!
# The notification of TTY0

TTY0 finds its queue empty and then receives, in two steps.  A notification that
FS sends in between finds TTY0 not yet receiving and is dropped, and TTY0 sleeps
on a queue that is not empty.
-/

namespace PComputer.PseudOS

open PComputer.Foundation PComputer.Rtl

namespace System

variable {s s' : System} {c : Slot} {x : ReadX} {address : Slot → Word} {users : Finset Slot}

/-- TTY0 sleeps, requests wait for it, and FS is not about to wake it. -/
def Stranded (s : System) : Prop :=
  (s.kernel.proc ttySlot).state = PROC_STATE_RECEIVING ∧
    (∃ q, s.queue = some q ∧ ioqueueIsempty q = false) ∧ s.fs.point ≠ .notify KPROC_PID_TTY0

/-- FS sends no notification while TTY0 is between its test and its `IPC_RECEIVE`. -/
def Heard (s : System) (a : Action) : Prop :=
  match a with
  | .call => s.Runs fsSlot → s.fs.point = .notify KPROC_PID_TTY0 → s.tty.point = .receive →
      (s.kernel.proc ttySlot).state = PROC_STATE_RECEIVING
  | .switch _ | .fs | .tty _ | .user _ => True

instance (s : System) : (a : Action) → Decidable (s.Heard a)
  | .call => inferInstanceAs (Decidable (_ → _ → _ → _))
  | .switch _ | .fs | .tty _ | .user _ => isTrue trivial

/-- While TTY0 is before its `IPC_RECEIVE`, FS is about to wake it or there is nothing to do. -/
structure Awake (address : Slot → Word) (users : Finset Slot) (s : System) : Prop where
  sound : s.Sound address users
  listens : s.tty.point = .receive → ∀ q, s.queue = some q → q.contents ≠ [] →
    s.fs.point = .notify KPROC_PID_TTY0

private theorem callOf_notify (hpoint : s.fs.point = .notify KPROC_PID_TTY0) :
    s.callOf address fsSlot = some (.send KPROC_PID_TTY0 (address fsSlot) true) := by
  unfold callOf
  rw [if_pos rfl, hpoint]

private theorem Sound.fs_not_blocked (h : s.Sound address users)
    (hpoint : s.fs.point = .notify KPROC_PID_TTY0) :
    (s.kernel.proc fsSlot).state ≠ PROC_STATE_SENDING ∧
      (s.kernel.proc fsSlot).state ≠ PROC_STATE_RECEIVING := by
  have hcall : s.callOf address fsSlot = some (.send KPROC_PID_TTY0 (address fsSlot) true) :=
    callOf_notify hpoint
  constructor
  · intro hstate
    obtain ⟨dest, msg, hcall', -⟩ := h.sending fsSlot hstate
    rw [hcall] at hcall'
    cases hcall'
  · intro hstate
    obtain ⟨src, msg, hcall', -⟩ := h.receiving fsSlot hstate
    rw [hcall] at hcall'
    cases hcall'

theorem Awake.notified (h : s.Awake address users) (hrun : s.Runs fsSlot) {msg : Word}
    (hheard : s.Heard .call) (hpoint : s.fs.point = .notify KPROC_PID_TTY0)
    (hipc : s.ipc fsSlot (.send KPROC_PID_TTY0 msg true) = .ok s') : s'.tty.point ≠ .receive := by
  obtain ⟨houtcome, -⟩ := ipc_outcome (h.sound.current_of_runs hrun) hrun.2 hipc
  cases houtcome with
  | delivered d k' hd hne hstate hrecv hready honly hs' =>
      rw [pid2proc_tty] at hd
      obtain rfl := Except.ok.inj hd
      rw [hs', tty_point_transferred, if_pos (.inr rfl)]
      decide
  | dropped d hd hwaits hs' =>
      rw [pid2proc_tty] at hd
      obtain rfl := Except.ok.inj hd
      rw [hs', tty_sent, if_neg (by decide)]
      intro htty
      -- TTY0 would be receiving, from anyone.
      have hstate := hheard hrun hpoint htty
      obtain ⟨src, msg', hcall, hrecv⟩ := h.sound.receiving ttySlot hstate
      unfold callOf at hcall
      rw [if_neg tty_ne_fs, if_pos rfl, htty] at hcall
      obtain ⟨rfl, -⟩ := Call.receive.inj (Option.some.inj hcall)
      unfold Kernel.waitsFor at hwaits
      rw [hstate, hrecv] at hwaits
      simp at hwaits

theorem Awake.call (h : s.Awake address users) (hrun : s.Runs c) {call : Call}
    (hheard : s.Heard .call) (hcall : s.callOf address c = some call)
    (hipc : s.ipc c call = .ok s') : s'.Awake address users := by
  refine ⟨h.sound.call hrun hcall hipc, fun htty q hq hne => ?_⟩
  by_cases hpoint : s.fs.point = .notify KPROC_PID_TTY0 ∧ c = fsSlot
  · obtain ⟨hpoint, rfl⟩ := hpoint
    rw [callOf_notify hpoint] at hcall
    cases hcall
    exact absurd htty (h.notified hrun hheard hpoint hipc)
  · obtain ⟨houtcome, -⟩ := ipc_outcome (h.sound.current_of_runs hrun) hrun.2 hipc
    -- If the other end is FS, it is blocked, so it is not at its notification.
    have hother (hnotify : s.fs.point = .notify KPROC_PID_TTY0) {d : Slot}
        (hd : (s.kernel.proc d).state = PROC_STATE_SENDING ∨
          (s.kernel.proc d).state = PROC_STATE_RECEIVING) : c ≠ fsSlot ∧ d ≠ fsSlot := by
      refine ⟨fun hc => hpoint ⟨hnotify, hc⟩, ?_⟩
      rintro rfl
      obtain ⟨hsending, hreceiving⟩ := h.sound.fs_not_blocked hnotify
      rcases hd with hd | hd
      · exact hsending hd
      · exact hreceiving hd
    cases houtcome with
    | delivered d k' hd hne' hstate hrecv hready honly hs' =>
        rw [hs', tty_point_transferred] at htty
        split_ifs at htty
        rw [hs', queue_transferred] at hq
        have hnotify := h.listens htty q hq hne
        obtain ⟨hc, hd⟩ := hother hnotify (.inr hstate)
        rw [hs', fs_transferred hc hd]
        exact hnotify
    | dropped d hd hwaits hs' =>
        rw [hs', tty_sent] at htty
        split_ifs at htty
        rw [hs', queue_sent] at hq
        have hnotify := h.listens htty q hq hne
        have hc : c ≠ fsSlot := fun hc => hpoint ⟨hnotify, hc⟩
        rw [hs', fs_sent, if_neg hc]
        exact hnotify
    | sendBlocked d k' hd hstate hsendto honly hs' =>
        rw [hs'] at htty hq ⊢
        exact h.listens htty q hq hne
    | taken f k' hsource hne' hstate hsendto hready honly hs' =>
        rw [hs', tty_point_transferred] at htty
        split_ifs at htty
        rw [hs', queue_transferred] at hq
        have hnotify := h.listens htty q hq hne
        obtain ⟨hc, hf⟩ := hother hnotify (.inl hstate)
        rw [hs', fs_transferred hf hc]
        exact hnotify
    | receiveBlocked k' hsource hstate honly hs' =>
        rw [hs'] at htty hq ⊢
        exact h.listens htty q hq hne

private theorem fsStep_queue (h : s.fsStep = .ok s') :
    s'.fs.point = .notify KPROC_PID_TTY0 ∨
      s'.queue = s.queue ∧ s.fs.point ≠ .notify KPROC_PID_TTY0 ∨ s' = s := by
  cases FsMove.of_step h with
  | byFd hpoint | byPath hpoint | resume hpoint | unknown hpoint | room _ hpoint =>
      exact .inr (.inl ⟨rfl, by rw [hpoint]; exact nofun⟩)
  | enqueue => exact .inl rfl
  | full | calls => exact .inr (.inr rfl)

private theorem ttyStep_receive {xfrcnt : Word} (h : s.ttyStep xfrcnt = .ok s')
    (htty : s'.tty.point = .receive) :
    s' = s ∨ ∃ q, s'.queue = some q ∧ q.contents = [] := by
  cases TtyMove.of_step h with
  | empty q _ hq hempty => exact .inr ⟨q, hq, ioqueueIsempty_iff.mp hempty⟩
  | calls => exact .inl rfl
  | start | nonempty | tricky | dequeue | served | ignored => cases htty

theorem Awake.step (h : s.Awake address users) {a : Action} (henabled : s.Enabled users a)
    (hheard : s.Heard a) (hok : s.step x address a = .ok s') : s'.Awake address users := by
  have hsound := h.sound.step henabled hok
  cases a with
  | switch t =>
      obtain ⟨c, hc⟩ := h.sound.current
      rw [step_switch hc.procRunning] at hok
      cases hok
      exact ⟨hsound, h.listens⟩
  | call =>
      obtain ⟨c, hrun⟩ := henabled
      cases hcall : s.callOf address c with
      | none =>
          rw [step_call_none hrun.1 hcall] at hok
          cases hok
          exact h
      | some call =>
          rw [step_call hrun.1 hcall] at hok
          exact h.call hrun hheard hcall hok
  | fs =>
      rw [step_fs henabled.1] at hok
      obtain ⟨-, htty, -⟩ := fsStep_frame hok
      refine ⟨hsound, fun hpoint q hq hne => ?_⟩
      rw [htty] at hpoint
      rcases fsStep_queue hok with hnotify | ⟨hqueue, hnot⟩ | rfl
      · exact hnotify
      · rw [hqueue] at hq
        exact absurd (h.listens hpoint q hq hne) hnot
      · exact h.listens hpoint q hq hne
  | tty xfrcnt =>
      rw [step_tty henabled.1] at hok
      refine ⟨hsound, fun hpoint q hq hne => ?_⟩
      rcases ttyStep_receive hok hpoint with rfl | ⟨q', hq', hempty⟩
      · exact h.listens hpoint q hq hne
      · rw [hq'] at hq
        cases hq
        exact absurd hempty hne
  | user msg =>
      obtain ⟨c, -, hrun, -, -⟩ := henabled
      rw [step_user hrun.1] at hok
      cases hok
      exact ⟨hsound, h.listens⟩

private theorem Initial.awake (h : s.Initial users) : s.Awake address users := by
  refine ⟨h.sound, fun hpoint => ?_⟩
  rw [h.tty] at hpoint
  cases hpoint

/--
In every run in which FS sends no notification between TTY0's test and its
`IPC_RECEIVE`, TTY0 never sleeps on a queue that is not empty unless FS is about
to wake it.
-/
theorem not_stranded_of_heard {actions : List Action}
    (h : Run (step x address) (Initial users) (fun s a => s.Enabled users a ∧ s.Heard a) actions
      s) :
    ¬s.Stranded := by
  have hawake : s.Awake address users := by
    refine Run.invariant (fun _ s => s.Awake address users) ?_ ?_ h
    · intro s hs
      exact hs.awake
    · intro _ s a s' hs ⟨henabled, hheard⟩ hok
      exact hs.step henabled hheard hok
  rintro ⟨hstate, ⟨q, hq, hnonempty⟩, hnot⟩
  have hpoint : s.tty.point = .receive := by
    obtain ⟨src, msg, hcall, -⟩ := hawake.sound.receiving ttySlot hstate
    unfold callOf at hcall
    rw [if_neg tty_ne_fs, if_pos rfl] at hcall
    cases hp : s.tty.point <;> rw [hp] at hcall <;> cases hcall
  refine hnot (hawake.listens hpoint q hq fun hempty => ?_)
  rw [ioqueueIsempty_iff.mpr hempty] at hnonempty
  cases hnonempty

/-! ### Concrete runs -/

def writevRequest : Message :=
  { function := SYS_writev, source := 0, param := fun i => if i = 0 then 1 else 0 }

def writevToFs : List Action :=
  [.switch 5, .call, .switch 4, .user writevRequest, .call, .switch 5, .fs, .fs, .fs]

def listenFirst : List Action :=
  [.switch 7, .tty 0, .tty 0, .call] ++ writevToFs ++ [.call]

def listenLate : List Action :=
  [.switch 7, .tty 0, .tty 0] ++ writevToFs ++ [.call, .switch 7, .call]

theorem not_stranded_listenFirst :
    ∃ s, Run (step Kernel.tiedHigh fun _ => 4) (Initial [4].toFinset)
      (fun s a => s.Enabled [4].toFinset a ∧ s.Heard a) listenFirst s ∧ ¬s.Stranded := by
  have hrun : (follow (step Kernel.tiedHigh fun _ => 4)
      (fun s a => decide (s.Enabled [4].toFinset a ∧ s.Heard a)) (boot [4]) listenFirst).isSome =
        true := by
    decide +kernel
  obtain ⟨s, hs⟩ := Option.isSome_iff_exists.mp hrun
  have hfollow := Run.of_follow (fun _ _ h => of_decide_eq_true h) initial_boot_four hs
  exact ⟨s, hfollow, not_stranded_of_heard hfollow⟩

/-- The request of process 4 stays in the queue. -/
theorem stranded_listenLate :
    ∃ s, Run (step Kernel.tiedHigh fun _ => 4) (Initial [4].toFinset)
      (Enabled [4].toFinset) listenLate s ∧ s.Stranded := by
  have hrun : (follow (step Kernel.tiedHigh fun _ => 4)
      (fun s a => decide (s.Enabled [4].toFinset a)) (boot [4]) listenLate).map
        (fun s => ((s.kernel.proc ttySlot).state, s.queue.map ioqueueIsempty, s.fs.point)) =
      some (PROC_STATE_RECEIVING, some false, .receive) := by
    decide +kernel
  obtain ⟨s, hs, hfinal⟩ := Option.map_eq_some_iff.mp hrun
  obtain ⟨hstate, hrest⟩ := Prod.mk.inj hfinal
  obtain ⟨hqueue, hpoint⟩ := Prod.mk.inj hrest
  refine ⟨s, Run.of_follow (fun _ _ h => of_decide_eq_true h) initial_boot_four hs, hstate, ?_, ?_⟩
  · obtain ⟨q, hq, hempty⟩ := Option.map_eq_some_iff.mp hqueue
    exact ⟨q, hq, hempty⟩
  · rw [hpoint]
    decide

end System

end PComputer.PseudOS
