import PComputer.Fs.Steps

/-!
# The requests that FS answers

What FS does with one message between two of its receives.  A request by
descriptor for the terminal ends in TTY0's queue; a request by path, `SYS_close`
among them, is neither handed on nor answered.
-/

namespace PComputer.PseudOS

open PComputer.Foundation PComputer.Rtl

/-- What FS does for a request: a worker's queue gets it, or a process gets a reply. -/
inductive FsEffect where
  | enqueued (elem : IOQuest)
  | replied (d : Slot)
  deriving DecidableEq

namespace System

variable {s s' s₀ : System} {c : Slot} {x : ReadX} {address : Slot → Word} {users : Finset Slot}

def waiting (s : System) : List IOQuest :=
  match s.queue with
  | none => []
  | some q => q.contents

def FsPoint.isResume : FsPoint → Bool
  | .resume _ => true
  | .receive | .dispatch | .wait | .enqueue | .notify _ => false

def repliedTo : Transfer → Option Slot
  | .sent f d _ | .received f d _ => if f = fsSlot then some d else none
  | .blocked _ _ _ => none

def effectsOf (s s' : System) : List FsEffect :=
  (s'.waiting.drop s.waiting.length).map .enqueued ++
    if FsPoint.isResume s.fs.point then
      ((s'.kernel.log.drop s.kernel.log.length).filterMap repliedTo).map .replied
    else []

inductive Handling (x : ReadX) (address : Slot → Word) (users : Finset Slot) (s₀ : System) :
    List FsEffect → System → Prop
  | start : Handling x address users s₀ [] s₀
  | next {effects : List FsEffect} {s s' : System} {a : Action} :
      Handling x address users s₀ effects s → s.fs.point ≠ .receive → s.Enabled users a →
        s.step x address a = .ok s' → Handling x address users s₀ (effects ++ effectsOf s s') s'

/--
FS answers the message that it is about to dispatch: it does not fail, and by its
next `IPC_RECEIVE` it has enqueued that message once, or replied once to its
sender.
-/
def Answers (x : ReadX) (address : Slot → Word) (users : Finset Slot) (s₀ : System) : Prop :=
  ∀ effects s, Handling x address users s₀ effects s →
    (s.fs.point ≠ .receive → Succeeds s.fsStep) ∧
      (s.fs.point = .receive → effects = [.enqueued s₀.fs.msg] ∨
        ∃ d, effects = [.replied d] ∧ s₀.fs.msg.source = BitVec.ofNat 32 d.val)

/-! ## Steps of the other processes -/

private theorem effectsOf_of_not_resume (h : FsPoint.isResume s.fs.point = false) :
    effectsOf s s' = (s'.waiting.drop s.waiting.length).map .enqueued := by
  unfold effectsOf
  rw [h, if_neg Bool.false_ne_true, List.append_nil]

private theorem waiting_of_queue (h : s'.queue = s.queue) : s'.waiting = s.waiting := by
  unfold waiting
  rw [h]

private theorem effectsOf_eq_nil (h : FsPoint.isResume s.fs.point = false)
    (hqueue : s'.queue = s.queue) :
    effectsOf s s' = [] := by
  rw [effectsOf_of_not_resume h, waiting_of_queue hqueue, List.drop_length, List.map_nil]

def FsPoint.isBusy : FsPoint → Bool
  | .dispatch | .wait | .enqueue | .notify _ => true
  | .receive | .resume _ => false

private theorem Sound.fs_unblocked (h : s.Sound address users)
    (hbusy : FsPoint.isBusy s.fs.point = true) :
    (s.kernel.proc fsSlot).state ≠ PROC_STATE_SENDING ∧
      (s.kernel.proc fsSlot).state ≠ PROC_STATE_RECEIVING := by
  constructor
  · intro hstate
    obtain ⟨dest, msg, hcall, -⟩ := h.sending fsSlot hstate
    unfold callOf at hcall
    rw [if_pos rfl] at hcall
    cases hp : s.fs.point <;> rw [hp] at hcall hbusy <;> cases hcall
    cases hbusy
  · intro hstate
    obtain ⟨src, msg, hcall, -⟩ := h.receiving fsSlot hstate
    unfold callOf at hcall
    rw [if_pos rfl] at hcall
    cases hp : s.fs.point <;> rw [hp] at hcall hbusy <;> cases hcall
    cases hbusy

theorem Sound.queue_of_call (h : s.Sound address users) (hrun : s.Runs c) {call : Call}
    (hipc : s.ipc c call = .ok s') :
    s'.queue = s.queue ∧ (s'.tty.point = .start → s.tty.point = .start) := by
  obtain ⟨houtcome, -⟩ := ipc_outcome (h.current_of_runs hrun) hrun.2 hipc
  have hstart {k : Kernel} {f d : Slot} :
      ({ s with kernel := k }.transferred f d).tty.point = .start → s.tty.point = .start := by
    rw [tty_point_transferred]
    split_ifs
    · exact nofun
    · exact id
  cases houtcome with
  | delivered d k' hd hne hstate hrecv hready honly hs' =>
      rw [hs', queue_transferred]
      exact ⟨rfl, hstart⟩
  | dropped d hd hwaits hs' =>
      rw [hs', queue_sent, tty_sent]
      refine ⟨rfl, ?_⟩
      by_cases htty : c = ttySlot
      · rw [if_pos htty]
        exact nofun
      · rw [if_neg htty]
        exact id
  | sendBlocked d k' hd hstate hsendto honly hs' =>
      rw [hs']
      exact ⟨rfl, id⟩
  | taken f k' hsource hne hstate hsendto hready honly hs' =>
      rw [hs', queue_transferred]
      exact ⟨rfl, hstart⟩
  | receiveBlocked k' hsource hstate honly hs' =>
      rw [hs']
      exact ⟨rfl, id⟩

private theorem Sound.fs_of_call (h : s.Sound address users) (hrun : s.Runs c) (hc : c ≠ fsSlot)
    (hbusy : FsPoint.isBusy s.fs.point = true) {call : Call} (hipc : s.ipc c call = .ok s') :
    s'.fs = s.fs := by
  obtain ⟨hsending, hreceiving⟩ := h.fs_unblocked hbusy
  obtain ⟨houtcome, -⟩ := ipc_outcome (h.current_of_runs hrun) hrun.2 hipc
  cases houtcome with
  | delivered d k' hd hne hstate hrecv hready honly hs' =>
      rw [hs', fs_transferred hc]
      rintro rfl
      exact hreceiving hstate
  | dropped d hd hwaits hs' => rw [hs', fs_sent, if_neg hc]
  | sendBlocked d k' hd hstate hsendto honly hs' => rw [hs']
  | taken f k' hsource hne hstate hsendto hready honly hs' =>
      rw [hs', fs_transferred _ hc]
      rintro rfl
      exact hsending hstate
  | receiveBlocked k' hsource hstate honly hs' => rw [hs']

private theorem Sound.fs_of_notify (h : s.Sound address users) (hrun : s.Runs fsSlot) {pid : Int}
    {msg : Word} (hipc : s.ipc fsSlot (.send pid msg true) = .ok s') :
    s'.fs = { s.fs with point := .receive } := by
  obtain ⟨houtcome, -⟩ := ipc_outcome (h.current_of_runs hrun) hrun.2 hipc
  cases houtcome with
  | delivered d k' hd hne hstate hrecv hready honly hs' =>
      rw [hs']
      unfold transferred
      rw [fs_received, if_neg hne, fs_sent, if_pos rfl]
  | dropped d hd hwaits hs' => rw [hs', fs_sent, if_pos rfl]

private theorem ttyStep_queue {xfrcnt : Word} (h : s.ttyStep xfrcnt = .ok s')
    (hstart : s.tty.point ≠ .start) {q : IOQueue} (hq : s.queue = some q) :
    (∃ q', s'.queue = some q' ∧ (q' = q ∨ ∃ elem, q.contents = elem :: q'.contents)) ∧
      s'.tty.point ≠ .start := by
  cases TtyMove.of_step h with
  | start hpoint => exact absurd hpoint hstart
  | dequeue q₁ q' elem _ hq₁ hdequeue =>
      obtain rfl := Option.some.inj (hq.symm.trans hq₁)
      exact ⟨⟨q', rfl, .inr ⟨elem, iodequeue_eq_some hdequeue⟩⟩, nofun⟩
  | empty | nonempty | tricky | served | ignored => exact ⟨⟨q, hq, .inl rfl⟩, nofun⟩
  | calls => exact ⟨⟨q, hq, .inl rfl⟩, hstart⟩

private theorem fsStep_queue_none (h : s.fsStep = .ok s') (hnone : s.queue = none) :
    s'.queue = none := by
  cases FsMove.of_step h with
  | enqueue q _ _ hq => exact absurd (hnone.symm.trans hq) nofun
  | byFd | byPath | resume | unknown | full | room | calls => exact hnone

/-- The queue is there once TTY0 has left its start. -/
structure Started (address : Slot → Word) (users : Finset Slot) (s : System) : Prop where
  sound : s.Sound address users
  queue : s.tty.point = .start → s.queue = none

theorem Initial.started (h : s.Initial users) : s.Started address users :=
  ⟨h.sound, fun _ => h.queue⟩

private theorem ttyStep_start {xfrcnt : Word} (h : s.ttyStep xfrcnt = .ok s') :
    s'.tty.point ≠ .start := by
  cases TtyMove.of_step h with
  | calls hpoint => rcases hpoint with hpoint | hpoint <;> rw [hpoint] <;> exact nofun
  | start | empty | nonempty | tricky | dequeue | served | ignored => exact nofun

theorem Started.step (h : s.Started address users) {a : Action} (henabled : s.Enabled users a)
    (hok : s.step x address a = .ok s') : s'.Started address users := by
  refine ⟨h.sound.step henabled hok, ?_⟩
  cases a with
  | switch t =>
      obtain ⟨c, hc⟩ := h.sound.current
      rw [step_switch hc.procRunning] at hok
      cases hok
      exact h.queue
  | call =>
      obtain ⟨c, hrun⟩ := henabled
      cases hcall : s.callOf address c with
      | none =>
          rw [step_call_none hrun.1 hcall] at hok
          cases hok
          exact h.queue
      | some call =>
          rw [step_call hrun.1 hcall] at hok
          obtain ⟨hqueue, hstart⟩ := h.sound.queue_of_call hrun hok
          rw [hqueue]
          exact fun hpoint => h.queue (hstart hpoint)
  | fs =>
      rw [step_fs henabled.1] at hok
      obtain ⟨-, htty, -⟩ := fsStep_frame hok
      rw [htty]
      exact fun hpoint => fsStep_queue_none hok (h.queue hpoint)
  | tty xfrcnt =>
      rw [step_tty henabled.1] at hok
      exact fun hpoint => absurd hpoint (ttyStep_start hok)
  | user msg =>
      obtain ⟨c, -, hrun, -, -⟩ := henabled
      rw [step_user hrun.1] at hok
      cases hok
      exact h.queue

/-! ## Requests for the terminal -/

inductive Progress (m : IOQuest) (q : IOQueue) : FsPoint → List FsEffect → Prop
  | dispatch : Progress m q .dispatch []
  | wait : Progress m q .wait []
  | enqueue : ioqueueIsfull q = false → Progress m q .enqueue []
  | notify : Progress m q (.notify KPROC_PID_TTY0) [.enqueued m]
  | receive : Progress m q .receive [.enqueued m]

section Progress

variable {m : IOQuest} {q : IOQueue} {point : FsPoint} {effects : List FsEffect}

private theorem Progress.not_resume (h : Progress m q point effects) :
    FsPoint.isResume point = false := by
  cases h <;> rfl

private theorem Progress.isBusy (h : Progress m q point effects) (hreceive : point ≠ .receive) :
    FsPoint.isBusy point = true := by
  cases h with
  | receive => exact absurd rfl hreceive
  | dispatch | wait | enqueue | notify => rfl

theorem Progress.nothing (h : Progress m q point effects)
    (hpoint : point = .dispatch ∨ point = .wait ∨ point = .enqueue) : effects = [] := by
  cases h with
  | dispatch | wait | enqueue => rfl
  | notify | receive => rcases hpoint with h | h | h <;> cases h

private theorem Progress.of_not_isfull {q' : IOQueue} (h : Progress m q point effects)
    (hfull : ioqueueIsfull q' = false) : Progress m q' point effects := by
  cases h with
  | dispatch => exact .dispatch
  | wait => exact .wait
  | enqueue _ => exact .enqueue hfull
  | notify => exact .notify
  | receive => exact .receive

end Progress

structure Working (address : Slot → Word) (users : Finset Slot) (m : IOQuest)
    (effects : List FsEffect) (s : System) : Prop where
  sound : s.Sound address users
  msg : s.fs.msg = m
  started : s.tty.point ≠ .start
  progress : ∃ q, s.queue = some q ∧ Progress m q s.fs.point effects

def ForTerminal (m : IOQuest) : Prop :=
  m.function ∈ [SYS_ioctl, SYS_readv, SYS_writev] ∧ (m.param 0).toInt ≤ 2

variable {m : IOQuest} {effects : List FsEffect}

theorem fsDispatch_forTerminal (h : ForTerminal s.fs.msg) :
    s.fsDispatch = .ok { s with fs := { s.fs with point := .wait } } := by
  obtain ⟨hfunction, hfd⟩ := h
  unfold fsDispatch fsRequestByFd
  simp only [if_pos hfunction, if_neg (ne_close_of_io hfunction), if_pos hfd]

theorem Working.succeeds (h : s.Working address users m effects) (hm : ForTerminal m) :
    Succeeds s.fsStep := by
  obtain ⟨q, hq, hprogress⟩ := h.progress
  unfold fsStep
  cases hpoint : s.fs.point with
  | dispatch =>
      rw [← h.msg] at hm
      rw [fsDispatch_forTerminal hm]
      exact succeeds_ok _
  | wait =>
      simp only [fsWait, hq]
      split_ifs
      · exact succeeds_ok _
      · exact succeeds_ok _
  | enqueue =>
      rw [hpoint] at hprogress
      cases hprogress with
      | enqueue hfull =>
          simp only [fsEnqueue, hq, ioenqueue, hfull, Bool.false_eq_true, if_false]
          exact succeeds_ok _
  | receive | notify | resume => exact succeeds_ok _

private theorem not_isfull_of_cons {q q' : IOQueue} {elem : IOQuest}
    (h : q.contents = elem :: q'.contents) : ioqueueIsfull q' = false := by
  rw [Bool.eq_false_iff]
  intro hfull
  have hnine := length_contents_of_isfull hfull
  have hlength := congrArg List.length h
  have hlt := q.size_lt
  rw [q.length_contents, List.length_cons, hnine] at hlength
  unfold FS_IOQUEUE_LEN at hlt
  omega

private theorem waiting_some {q : IOQueue} (h : s.queue = some q) : s.waiting = q.contents := by
  unfold waiting
  rw [h]

theorem Working.keep (h : s.Working address users m effects) (hsound : s'.Sound address users)
    (hfs : s'.fs = s.fs) (hqueue : s'.queue = s.queue) (hstarted : s'.tty.point ≠ .start) :
    s'.Working address users m (effects ++ effectsOf s s') := by
  obtain ⟨q, hq, hprogress⟩ := h.progress
  rw [effectsOf_eq_nil hprogress.not_resume hqueue, List.append_nil]
  refine ⟨hsound, by rw [hfs, h.msg], hstarted, q, hqueue.trans hq, ?_⟩
  rw [hfs]
  exact hprogress

theorem Working.move (h : s.Working address users m effects) (hsound : s'.Sound address users)
    (hqueue : s'.queue = s.queue) (hstarted : s'.tty.point ≠ .start) (hmsg : s'.fs.msg = s.fs.msg)
    (hprogress : ∀ q, s.queue = some q → Progress m q s'.fs.point effects) :
    s'.Working address users m (effects ++ effectsOf s s') := by
  obtain ⟨q, hq, hbefore⟩ := h.progress
  rw [effectsOf_eq_nil hbefore.not_resume hqueue, List.append_nil]
  exact ⟨hsound, hmsg.trans h.msg, hstarted, q, hqueue.trans hq, hprogress q hq⟩

theorem Working.fsStep (h : s.Working address users m effects) (hm : ForTerminal m)
    (hsound : s'.Sound address users) (hok : s.fsStep = .ok s') :
    s'.Working address users m (effects ++ effectsOf s s') := by
  obtain ⟨-, htty, -⟩ := fsStep_frame hok
  have hstarted : s'.tty.point ≠ .start := by
    rw [htty]
    exact h.started
  obtain ⟨q, hq, hprogress⟩ := h.progress
  have hresume := hprogress.not_resume
  unfold System.fsStep at hok
  cases hpoint : s.fs.point with
  | dispatch =>
      have hnothing := hprogress.nothing (.inl hpoint)
      rw [hpoint] at hok
      dsimp only at hok
      rw [fsDispatch_forTerminal (h.msg ▸ hm)] at hok
      cases hok
      exact h.move hsound rfl hstarted rfl fun q _ => hnothing ▸ .wait
  | wait =>
      have hnothing := hprogress.nothing (.inr (.inl hpoint))
      simp only [hpoint, fsWait, hq] at hok
      split_ifs at hok with hfull
      · cases hok
        exact h.keep hsound rfl rfl hstarted
      · cases hok
        refine h.move hsound hq.symm hstarted rfl fun q' hq' => ?_
        rw [hq] at hq'
        cases hq'
        exact hnothing ▸ .enqueue (eq_false_of_ne_true hfull)
  | enqueue =>
      have hnothing := hprogress.nothing (.inr (.inr hpoint))
      simp only [hpoint, fsEnqueue, hq] at hok
      split at hok
      · cases hok
      · next q' hq' =>
        cases hok
        rw [effectsOf_of_not_resume hresume, waiting_some hq, hnothing]
        change Working address users m ((q'.contents.drop q.contents.length).map .enqueued) _
        rw [ioenqueue_eq_some hq', List.drop_left, h.msg]
        exact ⟨hsound, h.msg, hstarted, q', rfl, .notify⟩
  | receive | notify | resume =>
      simp only [hpoint] at hok
      cases hok
      exact h.keep hsound rfl rfl hstarted

theorem Working.step (h : s.Working address users m effects) (hm : ForTerminal m)
    (hreceive : s.fs.point ≠ .receive) {a : Action} (henabled : s.Enabled users a)
    (hok : s.step x address a = .ok s') :
    s'.Working address users m (effects ++ effectsOf s s') := by
  have hsound := h.sound.step henabled hok
  obtain ⟨q, hq, hprogress⟩ := h.progress
  have hbusy := hprogress.isBusy hreceive
  have hresume := hprogress.not_resume
  cases a with
  | switch t =>
      obtain ⟨c, hc⟩ := h.sound.current
      rw [step_switch hc.procRunning] at hok
      cases hok
      exact h.keep hsound rfl rfl h.started
  | call =>
      obtain ⟨c, hrun⟩ := henabled
      cases hcall : s.callOf address c with
      | none =>
          rw [step_call_none hrun.1 hcall] at hok
          cases hok
          exact h.keep hsound rfl rfl h.started
      | some call =>
          rw [step_call hrun.1 hcall] at hok
          obtain ⟨hqueue, hstart⟩ := h.sound.queue_of_call hrun hok
          have hstarted : s'.tty.point ≠ .start := fun hp => h.started (hstart hp)
          by_cases hc : c = fsSlot
          · subst hc
            -- FS is at its notification.
            unfold callOf at hcall
            rw [if_pos rfl] at hcall
            cases hp : s.fs.point with
            | notify pid =>
                rw [hp] at hcall hprogress
                cases hcall
                cases hprogress
                have hfs := h.sound.fs_of_notify hrun hok
                rw [effectsOf_eq_nil hresume hqueue]
                refine ⟨hsound, by rw [hfs]; exact h.msg, hstarted, q, hqueue.trans hq, ?_⟩
                rw [hfs]
                exact .receive
            | receive => exact absurd hp hreceive
            | resume pid =>
                rw [hp] at hresume
                cases hresume
            | dispatch | wait | enqueue =>
                rw [hp] at hcall
                cases hcall
          · exact h.keep hsound (h.sound.fs_of_call hrun hc hbusy hok) hqueue hstarted
  | fs =>
      rw [step_fs henabled.1] at hok
      exact h.fsStep hm hsound hok
  | tty xfrcnt =>
      rw [step_tty henabled.1] at hok
      obtain ⟨-, hfs, -⟩ := ttyStep_frame hok
      obtain ⟨⟨q', hq', hcases⟩, hstarted⟩ := ttyStep_queue hok h.started hq
      rcases hcases with rfl | ⟨elem, hcons⟩
      · exact h.keep hsound hfs (hq'.trans hq.symm) hstarted
      · rw [effectsOf_of_not_resume hresume, waiting_some hq, waiting_some hq', hcons,
          List.length_cons, List.drop_eq_nil_of_le (Nat.le_succ _), List.map_nil, List.append_nil]
        refine ⟨hsound, by rw [hfs]; exact h.msg, hstarted, q', hq', ?_⟩
        rw [hfs]
        exact hprogress.of_not_isfull (not_isfull_of_cons hcons)
  | user msg =>
      obtain ⟨c, -, hrun, -, -⟩ := henabled
      rw [step_user hrun.1] at hok
      cases hok
      exact h.keep hsound rfl rfl h.started

theorem Started.answers (h : s₀.Started address users) (hpoint : s₀.fs.point = .dispatch)
    (hm : ForTerminal s₀.fs.msg) (hqueue : s₀.queue ≠ none) : s₀.Answers x address users := by
  obtain ⟨q, hq⟩ := Option.ne_none_iff_exists'.mp hqueue
  intro effects s hhandling
  have hworking : s.Working address users s₀.fs.msg effects := by
    induction hhandling with
    | start =>
        refine ⟨h.sound, rfl, fun hstart => hqueue (h.queue hstart), q, hq, ?_⟩
        rw [hpoint]
        exact .dispatch
    | next _ hreceive henabled hok ih => exact ih.step hm hreceive henabled hok
  refine ⟨fun _ => hworking.succeeds hm, fun hreceive => .inl ?_⟩
  obtain ⟨q', -, hprogress⟩ := hworking.progress
  rw [hreceive] at hprogress
  cases hprogress
  rfl

/-! ## Requests that FS does not answer -/

private theorem succeeds_ipc_nonblocking {dest : Int} {msg : Word} {d : Slot}
    (hd : pid2proc dest = .ok d)
    (hpid : (s.kernel.proc c).pid ≠ (s.kernel.proc d).pid) :
    Succeeds (s.ipc c (.send dest msg true)) := by
  have hcall : Succeeds (s.kernel.call c (.send dest msg true)) := by
    change Succeeds (s.kernel.msgSend c dest msg true)
    unfold Kernel.msgSend
    refine succeeds_bind.mpr ⟨d, hd, succeeds_bind.mpr ⟨(), ?_, ?_⟩⟩
    · exact assert_eq_ok.mpr (bne_iff_ne.mpr hpid)
    · split_ifs with hwaits hnonblocking
      · exact succeeds_pure _
      · exact succeeds_pure _
      · exact absurd rfl hnonblocking
  obtain ⟨result, hresult⟩ := hcall
  exact succeeds_bind.mpr ⟨result, hresult, succeeds_pure _⟩

private theorem fsDispatch_path (h : s.fs.msg.function ∈ [SYS_openat, SYS_close]) :
    s.fsDispatch = .ok s.fsRequestByPath := by
  have hio : s.fs.msg.function ∉ [SYS_ioctl, SYS_readv, SYS_writev] := by
    rw [List.mem_cons, List.mem_singleton] at h
    rcases h with h | h
    · rw [h]
      decide
    · rw [h]
      decide
  unfold fsDispatch
  rw [if_neg hio, if_pos h]

/-- A request by path is dropped: FS only notifies a process that nobody has registered. -/
theorem Started.not_answers_path (h : s₀.Started address users) (hrun : s₀.Runs fsSlot)
    (hpoint : s₀.fs.point = .dispatch) (hpath : s₀.fs.msg.function ∈ [SYS_openat, SYS_close]) :
    ¬s₀.Answers x address users := by
  intro hanswers
  have hstep : s₀.step x address .fs = .ok s₀.fsRequestByPath := by
    rw [step_fs hrun.1]
    unfold fsStep
    rw [hpoint]
    exact fsDispatch_path hpath
  have hsound := h.sound.step (a := .fs) hrun hstep
  have hrun' : s₀.fsRequestByPath.Runs fsSlot := hrun
  have hpid : (s₀.kernel.proc fsSlot).pid ≠ (s₀.kernel.proc 10).pid := by
    obtain ⟨c, hc⟩ := h.sound.current
    rw [h.sound.fsLive]
    rcases hc.pid 10 with hpid | hpid
    · rw [hpid]
      decide
    · rw [hpid]
      decide
  obtain ⟨s, hs⟩ : Succeeds
      (s₀.fsRequestByPath.ipc fsSlot (.send KPROC_PID_FSS0 (address fsSlot) true)) :=
    succeeds_ipc_nonblocking (d := 10) rfl hpid
  have hfs := hsound.fs_of_notify hrun' hs
  obtain ⟨hqueue, -⟩ := hsound.queue_of_call hrun' hs
  have henabled : s₀.Enabled users .fs := hrun
  have hstart : Handling x address users s₀ [] s₀ := .start
  have hhandling := hstart.next (by rw [hpoint]; exact nofun) henabled hstep
  have hfirst : effectsOf s₀ s₀.fsRequestByPath = [] :=
    effectsOf_eq_nil (by rw [hpoint]; rfl) rfl
  have hsecond : effectsOf s₀.fsRequestByPath s = [] := effectsOf_eq_nil rfl hqueue
  have henabled' : s₀.fsRequestByPath.Enabled users .call := ⟨fsSlot, hrun'⟩
  have hcall := hhandling.next nofun henabled' ((step_call hrun'.1 rfl).trans hs)
  rw [hfirst, hsecond] at hcall
  obtain ⟨-, hdone⟩ := hanswers _ _ hcall
  rcases hdone (by rw [hfs]) with hnone | ⟨d, hnone, -⟩
  · cases hnone
  · cases hnone

private theorem not_answers_fd (hpoint : s₀.fs.point = .dispatch)
    (hio : s₀.fs.msg.function ∈ [SYS_ioctl, SYS_readv, SYS_writev])
    (hfd : ¬(s₀.fs.msg.param 0).toInt ≤ 2) : ¬s₀.Answers x address users := by
  intro hanswers
  obtain ⟨hsucceeds, -⟩ := hanswers [] s₀ .start
  have hstep := hsucceeds (by rw [hpoint]; exact nofun)
  unfold fsStep at hstep
  rw [hpoint] at hstep
  unfold fsDispatch fsRequestByFd at hstep
  dsimp only at hstep
  rw [if_pos hio, if_neg (ne_close_of_io hio), if_neg hfd] at hstep
  exact not_succeeds_error _ hstep

private theorem not_answers_null (hrun : s₀.Runs fsSlot) (hpoint : s₀.fs.point = .dispatch)
    (hm : ForTerminal s₀.fs.msg) (hqueue : s₀.queue = none) : ¬s₀.Answers x address users := by
  intro hanswers
  have hstep : s₀.step x address .fs = .ok { s₀ with fs := { s₀.fs with point := .wait } } := by
    rw [step_fs hrun.1]
    unfold fsStep
    rw [hpoint]
    exact fsDispatch_forTerminal hm
  have henabled : s₀.Enabled users .fs := hrun
  have hstart : Handling x address users s₀ [] s₀ := .start
  have hhandling := hstart.next (by rw [hpoint]; exact nofun) henabled hstep
  obtain ⟨hsucceeds, -⟩ := hanswers _ _ hhandling
  have hwait := hsucceeds nofun
  unfold fsStep fsWait at hwait
  dsimp only at hwait
  rw [hqueue] at hwait
  exact not_succeeds_error _ hwait

private theorem Started.forTerminal (h : s₀.Started address users) (hrun : s₀.Runs fsSlot)
    (hpoint : s₀.fs.point = .dispatch) (hrequest : s₀.fs.msg.function ∈ requestFunctions)
    (hanswers : s₀.Answers x address users) : ForTerminal s₀.fs.msg ∧ s₀.queue ≠ none := by
  have hpath : s₀.fs.msg.function ∉ [SYS_openat, SYS_close] :=
    fun hpath => h.not_answers_path hrun hpoint hpath hanswers
  have hio : s₀.fs.msg.function ∈ [SYS_ioctl, SYS_readv, SYS_writev] := by
    unfold requestFunctions at hrequest
    simp only [List.mem_cons, List.not_mem_nil, or_false, not_or] at hrequest hpath ⊢
    tauto
  have hm : ForTerminal s₀.fs.msg := by
    refine ⟨hio, ?_⟩
    by_contra hfd
    exact not_answers_fd hpoint hio hfd hanswers
  exact ⟨hm, fun hqueue => not_answers_null hrun hpoint hm hqueue hanswers⟩

/-! ## Runs -/

private theorem started_of_run {actions : List Action}
    (h : Run (step x address) (Initial users) (Enabled users) actions s) :
    s.Started address users :=
  Run.invariant (fun _ s => s.Started address users) (fun _ hs => hs.started)
    (fun _ _ _ _ hs henabled hok => hs.step henabled hok) h

/--
In every run FS answers a request that it is about to dispatch exactly if it is
one by descriptor for the terminal and TTY0 has set up its queue.
-/
theorem answers_iff {actions : List Action}
    (h : Run (step x address) (Initial users) (Enabled users) actions s) (hrun : s.Runs fsSlot)
    (hpoint : s.fs.point = .dispatch) (hrequest : s.fs.msg.function ∈ requestFunctions) :
    s.Answers x address users ↔ ForTerminal s.fs.msg ∧ s.queue ≠ none := by
  have hstarted := started_of_run h
  constructor
  · exact hstarted.forTerminal hrun hpoint hrequest
  · rintro ⟨hm, hqueue⟩
    exact hstarted.answers hpoint hm hqueue

/-! ### Concrete runs -/

def request (function : Word) : Message :=
  { function := function, source := 0, param := fun i => if i = 0 then 1 else 0 }

def askFor (function : Word) : List Action :=
  [.switch 7, .tty 0, .switch 4, .user (request function), .call, .switch 5, .call]

theorem answers_writev :
    ∃ s, Run (step Kernel.tiedHigh fun _ => 4) (Initial [4].toFinset) (Enabled [4].toFinset)
        (askFor SYS_writev) s ∧ s.Answers Kernel.tiedHigh (fun _ => 4) [4].toFinset := by
  have hrun : (follow (step Kernel.tiedHigh fun _ => 4)
      (fun s a => decide (s.Enabled [4].toFinset a)) (boot [4]) (askFor SYS_writev)).map
        (fun s => (decide (s.Runs fsSlot), s.fs.point, s.fs.msg.function, s.fs.msg.param 0,
          s.queue.isSome)) = some (true, .dispatch, SYS_writev, 1, true) := by
    decide +kernel
  obtain ⟨s, hs, hfinal⟩ := Option.map_eq_some_iff.mp hrun
  simp only [Prod.mk.injEq] at hfinal
  obtain ⟨hruns, hpoint, hfunction, hparam, hqueue⟩ := hfinal
  have hfollow := Run.of_follow (fun _ _ h => of_decide_eq_true h)
    initial_boot_four hs
  refine ⟨s, hfollow, (answers_iff hfollow (of_decide_eq_true hruns) hpoint ?_).mpr ?_⟩
  · rw [hfunction]
    decide
  · refine ⟨⟨?_, ?_⟩, ?_⟩
    · rw [hfunction]
      decide
    · rw [hparam]
      decide
    · intro hnone
      rw [hnone] at hqueue
      cases hqueue

theorem not_answers_close :
    ∃ s, Run (step Kernel.tiedHigh fun _ => 4) (Initial [4].toFinset) (Enabled [4].toFinset)
        (askFor SYS_close) s ∧ s.Runs fsSlot ∧ s.fs.point = .dispatch ∧
      s.fs.msg.function = SYS_close ∧ ¬s.Answers Kernel.tiedHigh (fun _ => 4) [4].toFinset := by
  have hrun : (follow (step Kernel.tiedHigh fun _ => 4)
      (fun s a => decide (s.Enabled [4].toFinset a)) (boot [4]) (askFor SYS_close)).map
        (fun s => (decide (s.Runs fsSlot), s.fs.point, s.fs.msg.function)) =
      some (true, .dispatch, SYS_close) := by
    decide +kernel
  obtain ⟨s, hs, hfinal⟩ := Option.map_eq_some_iff.mp hrun
  simp only [Prod.mk.injEq] at hfinal
  obtain ⟨hruns, hpoint, hfunction⟩ := hfinal
  have hfollow := Run.of_follow (fun _ _ h => of_decide_eq_true h)
    initial_boot_four hs
  have hruns := of_decide_eq_true hruns
  refine ⟨s, hfollow, hruns, hpoint, hfunction, ?_⟩
  refine (started_of_run hfollow).not_answers_path hruns hpoint ?_
  rw [hfunction]
  decide

end System

end PComputer.PseudOS
