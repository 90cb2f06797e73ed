import PComputer.Fs.Daemons
import PComputer.Kernel.Scheduling

/-!
# What the steps of the daemons do

The outcomes of a call at the level of the programs, and the invariant that ties
the kernel's states to the programs: a blocked process is blocked in the call
that its program is at.
-/

namespace PComputer.PseudOS

open PComputer.Foundation PComputer.Rtl

namespace System

variable {s s' : System} {c i : Slot} {x : ReadX} {address : Slot → Word} {users : Finset Slot}

/-! ## Transfers -/

theorem tty_ne_fs : ttySlot ≠ fsSlot := by decide

theorem fs_sent : (s.sent c).fs = if c = fsSlot then { s.fs with point := .receive } else s.fs := by
  unfold sent
  by_cases hfs : c = fsSlot
  · rw [if_pos hfs, if_pos hfs]
  · rw [if_neg hfs, if_neg hfs]
    split_ifs <;> rfl

theorem tty_sent :
    (s.sent c).tty = if c = ttySlot then { s.tty with point := .check } else s.tty := by
  unfold sent
  by_cases htty : c = ttySlot
  · rw [if_pos htty, htty, if_neg tty_ne_fs, if_pos rfl]
  · rw [if_neg htty, if_neg htty]
    split_ifs <;> rfl

private theorem user_sent (hfs : i ≠ fsSlot) (htty : i ≠ ttySlot) :
    (s.sent c).user i = if i = c then { s.user c with point := .await } else s.user i := by
  unfold sent
  by_cases h₁ : c = fsSlot
  · rw [if_pos h₁, if_neg fun h => hfs (h.trans h₁)]
  · by_cases h₂ : c = ttySlot
    · rw [if_neg h₁, if_pos h₂, if_neg fun h => htty (h.trans h₂)]
    · rw [if_neg h₁, if_neg h₂]
      exact Function.update_apply _ _ _ _

theorem fs_received {msg : Message} :
    (s.received c msg).fs =
      if c = fsSlot then { s.fs with point := .dispatch, msg := msg } else s.fs := by
  unfold received
  by_cases hfs : c = fsSlot
  · rw [if_pos hfs, if_pos hfs]
  · rw [if_neg hfs, if_neg hfs]
    split_ifs <;> rfl

private theorem tty_received {msg : Message} :
    (s.received c msg).tty =
      if c = ttySlot then { s.tty with point := .check, msg := msg } else s.tty := by
  unfold received
  by_cases htty : c = ttySlot
  · rw [if_pos htty, htty, if_neg tty_ne_fs, if_pos rfl]
  · rw [if_neg htty, if_neg htty]
    split_ifs <;> rfl

private theorem user_received {msg : Message} (hfs : i ≠ fsSlot) (htty : i ≠ ttySlot) :
    (s.received c msg).user i = if i = c then { point := .compute, msg := msg } else s.user i := by
  unfold received
  by_cases h₁ : c = fsSlot
  · rw [if_pos h₁, if_neg fun h => hfs (h.trans h₁)]
  · by_cases h₂ : c = ttySlot
    · rw [if_neg h₁, if_pos h₂, if_neg fun h => htty (h.trans h₂)]
    · rw [if_neg h₁, if_neg h₂]
      exact Function.update_apply _ _ _ _

@[simp] theorem kernel_sent : (s.sent c).kernel = s.kernel := by
  unfold sent
  split_ifs <;> rfl

@[simp] theorem queue_sent : (s.sent c).queue = s.queue := by
  unfold sent
  split_ifs <;> rfl

@[simp] theorem kernel_received {msg : Message} : (s.received c msg).kernel = s.kernel := by
  unfold received
  split_ifs <;> rfl

@[simp] theorem queue_received {msg : Message} : (s.received c msg).queue = s.queue := by
  unfold received
  split_ifs <;> rfl

@[simp] theorem kernel_transferred {f d : Slot} : (s.transferred f d).kernel = s.kernel := by
  unfold transferred
  rw [kernel_received, kernel_sent]

@[simp] theorem queue_transferred {f d : Slot} : (s.transferred f d).queue = s.queue := by
  unfold transferred
  rw [queue_received, queue_sent]

theorem tty_point_transferred {f d : Slot} : (s.transferred f d).tty.point =
    if f = ttySlot ∨ d = ttySlot then .check else s.tty.point := by
  unfold transferred
  rw [tty_received, tty_sent]
  by_cases hd : d = ttySlot
  · rw [if_pos hd]
    exact (if_pos (Or.inr hd)).symm
  · by_cases hf : f = ttySlot
    · rw [if_neg hd, if_pos hf]
      exact (if_pos (Or.inl hf)).symm
    · rw [if_neg hd, if_neg hf]
      exact (if_neg (not_or.mpr ⟨hf, hd⟩)).symm

theorem fs_transferred {f d : Slot} (hf : f ≠ fsSlot) (hd : d ≠ fsSlot) :
    (s.transferred f d).fs = s.fs := by
  unfold transferred
  rw [fs_received, fs_sent, if_neg hd, if_neg hf]

private theorem callOf_congr (hfs : i = fsSlot → s'.fs.point = s.fs.point)
    (htty : i = ttySlot → s'.tty.point = s.tty.point)
    (huser : i ≠ fsSlot → i ≠ ttySlot → (s'.user i).point = (s.user i).point) :
    s'.callOf address i = s.callOf address i := by
  unfold callOf
  by_cases h₁ : i = fsSlot
  · rw [if_pos h₁, if_pos h₁, hfs h₁]
  · by_cases h₂ : i = ttySlot
    · rw [if_neg h₁, if_neg h₁, if_pos h₂, if_pos h₂, htty h₂]
    · rw [if_neg h₁, if_neg h₁, if_neg h₂, if_neg h₂, huser h₁ h₂]

private theorem callOf_sent (hi : i ≠ c) : (s.sent c).callOf address i = s.callOf address i := by
  apply callOf_congr
  · rintro rfl
    rw [fs_sent, if_neg hi.symm]
  · rintro rfl
    rw [tty_sent, if_neg hi.symm]
  · intro hfs htty
    rw [user_sent hfs htty, if_neg hi]

private theorem callOf_received {msg : Message} (hi : i ≠ c) :
    (s.received c msg).callOf address i = s.callOf address i := by
  apply callOf_congr
  · rintro rfl
    rw [fs_received, if_neg hi.symm]
  · rintro rfl
    rw [tty_received, if_neg hi.symm]
  · intro hfs htty
    rw [user_received hfs htty, if_neg hi]

private theorem callOf_transferred {f d : Slot} (hf : i ≠ f) (hd : i ≠ d) :
    (s.transferred f d).callOf address i = s.callOf address i :=
  (callOf_received hd).trans (callOf_sent hf)

/-! ## The outcomes of a call -/

inductive Outcome (s s' : System) (c : Slot) : Call → Prop
  | delivered {dest : Int} {msg : Word} {nonblocking : Bool} (d : Slot) (k' : Kernel) :
      pid2proc dest = .ok d → d ≠ c → (s.kernel.proc d).state = PROC_STATE_RECEIVING →
      ((s.kernel.proc d).pRecvfrom = (s.kernel.proc c).pid ∨
        (s.kernel.proc d).pRecvfrom = IPC_TARGET_ANY) →
      (k'.proc d).state = PROC_STATE_READY → s.kernel.OnlyAt k' d →
      s' = { s with kernel := k' }.transferred c d → Outcome s s' c (.send dest msg nonblocking)
  | dropped {dest : Int} {msg : Word} (d : Slot) :
      pid2proc dest = .ok d → s.kernel.waitsFor d c = false → s' = s.sent c →
      Outcome s s' c (.send dest msg true)
  | sendBlocked {dest : Int} {msg : Word} (d : Slot) (k' : Kernel) :
      pid2proc dest = .ok d → (k'.proc c).state = PROC_STATE_SENDING →
      (k'.proc c).pSendto = dest → s.kernel.OnlyAt k' c → s' = { s with kernel := k' } →
      Outcome s s' c (.send dest msg false)
  | taken {src : Int} {msg : Word} (f : Slot) (k' : Kernel) :
      (src = IPC_TARGET_ANY ∨ pid2proc src = .ok f) → f ≠ c →
      (s.kernel.proc f).state = PROC_STATE_SENDING → (s.kernel.proc f).pSendto = c.val →
      (k'.proc f).state = PROC_STATE_READY → s.kernel.OnlyAt k' f →
      s' = { s with kernel := k' }.transferred f c → Outcome s s' c (.receive src msg)
  | receiveBlocked {src : Int} {msg : Word} (k' : Kernel) :
      (src = IPC_TARGET_ANY ∧ (k'.proc c).pRecvfrom = IPC_TARGET_ANY ∨
        ∃ f, pid2proc src = .ok f ∧ (k'.proc c).pRecvfrom = (s.kernel.proc f).pid) →
      (k'.proc c).state = PROC_STATE_RECEIVING → s.kernel.OnlyAt k' c →
      s' = { s with kernel := k' } → Outcome s s' c (.receive src msg)

theorem ipc_outcome (h : s.kernel.Current c)
    (hrun : (s.kernel.proc c).state = PROC_STATE_RUNNING) {call : Call}
    (hipc : s.ipc c call = .ok s') :
    Outcome s s' c call ∧ s'.kernel.Current c ∧ s.kernel.Frame s'.kernel := by
  unfold ipc at hipc
  obtain ⟨⟨r, k'⟩, hcall, hipc⟩ := bind_eq_ok.mp hipc
  have hs' := pure_eq_ok.mp hipc
  have hcurrent := h.call hcall
  have heffect := h.effect hrun hcall
  have hkernel (l : List Transfer) (s₀ : System) : (l.foldl noted s₀).kernel = s₀.kernel := by
    induction l generalizing s₀ with
    | nil => rfl
    | cons t l ih =>
        rw [List.foldl_cons, ih]
        cases t with
        | sent | received => exact kernel_transferred
        | blocked => rfl
  constructor
  · cases heffect with
    | delivered d hd hne hstate hrecv hready honly hlog =>
        refine .delivered d k' hd hne hstate hrecv hready honly ?_
        rw [← hs', hlog, List.drop_left]
        rfl
    | dropped d hd hwaits hsame =>
        refine .dropped d hd hwaits ?_
        rw [← hs', hsame, List.drop_length]
        rfl
    | sendBlocked d hd hwaits hstate hsendto honly hlog =>
        refine .sendBlocked d k' hd hstate hsendto honly ?_
        rw [← hs', hlog, List.drop_left]
        rfl
    | taken f m hsource hne hstate hsendto hready honly hlog =>
        refine .taken f k' hsource hne hstate hsendto hready honly ?_
        rw [← hs', hlog, List.drop_left]
        rfl
    | receiveBlocked recvfrom hsource hstate hrecvfrom honly hlog =>
        refine .receiveBlocked k' ?_ hstate honly ?_
        · rw [hrecvfrom]
          exact hsource
        · rw [← hs', hlog, List.drop_length]
          rfl
  · have hframe := Kernel.call_frame hcall
    rw [← hs']
    split_ifs
    · rw [hkernel]
      exact ⟨hcurrent, hframe⟩
    · rw [kernel_sent, hkernel]
      exact ⟨hcurrent, hframe⟩

/-! ## The local steps -/

inductive FsMove (s : System) : System → Prop
  | byFd : s.fs.point = .dispatch → s.fs.msg.function ∈ [SYS_ioctl, SYS_readv, SYS_writev] →
      (s.fs.msg.param 0).toInt ≤ 2 → FsMove s { s with fs := { s.fs with point := .wait } }
  | byPath : s.fs.point = .dispatch → s.fs.msg.function ∈ [SYS_openat, SYS_close] →
      FsMove s s.fsRequestByPath
  | resume : s.fs.point = .dispatch → s.fs.msg.function = OS_fs_resume →
      FsMove s (s.fsResumeUserproc s.fs.msg)
  | unknown : s.fs.point = .dispatch → s.fs.msg.function ≠ OS_fs_resume →
      s.fs.msg.function ∉ [SYS_ioctl, SYS_readv, SYS_writev] →
      FsMove s { s with fs := { s.fs with point := .receive } }
  | full (q : IOQueue) : s.fs.point = .wait → s.queue = some q → ioqueueIsfull q = true →
      FsMove s s
  | room (q : IOQueue) : s.fs.point = .wait → s.queue = some q → ioqueueIsfull q = false →
      FsMove s { s with fs := { s.fs with point := .enqueue } }
  | enqueue (q q' : IOQueue) : s.fs.point = .enqueue → s.queue = some q →
      ioenqueue q s.fs.msg = some q' →
      FsMove s ({ s with queue := some q' }.fsNotifyTarget KPROC_PID_TTY0)
  | calls : s.fs.point ≠ .dispatch → s.fs.point ≠ .wait → s.fs.point ≠ .enqueue → FsMove s s

theorem ne_close_of_io {msg : Message} (h : msg.function ∈ [SYS_ioctl, SYS_readv, SYS_writev]) :
    msg.function ≠ SYS_close := by
  intro hclose
  rw [hclose] at h
  exact absurd h (by decide)

theorem FsMove.of_step (h : s.fsStep = .ok s') : s.FsMove s' := by
  unfold fsStep at h
  cases hpoint : s.fs.point with
  | dispatch =>
      simp only [hpoint, fsDispatch] at h
      split_ifs at h with hio hpath hresume
      · rw [fsRequestByFd, if_neg (ne_close_of_io hio)] at h
        split_ifs at h with hfd
        cases h
        exact .byFd hpoint hio hfd
      · cases h
        exact .byPath hpoint hpath
      · cases h
        exact .resume hpoint hresume
      · cases h
        exact .unknown hpoint hresume hio
  | wait =>
      simp only [hpoint, fsWait] at h
      cases hq : s.queue with
      | none =>
          simp only [hq] at h
          cases h
      | some q =>
          simp only [hq] at h
          split_ifs at h with hfull
          · cases h
            exact .full q hpoint hq hfull
          · cases h
            rw [← hq]
            exact .room q hpoint hq (eq_false_of_ne_true hfull)
  | enqueue =>
      simp only [hpoint, fsEnqueue] at h
      split at h
      · cases h
      · next q hq =>
        split at h
        · cases h
        · next q' hq' =>
          cases h
          exact .enqueue q q' hpoint hq hq'
  | receive | notify | resume =>
      simp only [hpoint] at h
      cases h
      exact .calls (by rw [hpoint]; exact nofun) (by rw [hpoint]; exact nofun)
        (by rw [hpoint]; exact nofun)

theorem fsStep_frame (h : s.fsStep = .ok s') :
    s'.kernel = s.kernel ∧ s'.tty = s.tty ∧ s'.user = s.user := by
  cases FsMove.of_step h <;> exact ⟨rfl, rfl, rfl⟩

inductive TtyMove (s : System) (xfrcnt : Word) : System → Prop
  | start : s.tty.point = .start →
      TtyMove s xfrcnt { s with queue := some ioqueueInit, tty := { s.tty with point := .check } }
  | empty (q : IOQueue) : s.tty.point = .check → s.queue = some q → ioqueueIsempty q = true →
      TtyMove s xfrcnt { s with
        tty := { s.tty with point := .receive, msg := { s.tty.msg with function := OS_justamsg } } }
  | nonempty (q : IOQueue) : s.tty.point = .check → s.queue = some q → ioqueueIsempty q = false →
      TtyMove s xfrcnt { s with tty := { s.tty with point := .dequeue } }
  | tricky (q : IOQueue) : s.tty.point = .dequeue → s.queue = some q → ioqueueIsempty q = true →
      TtyMove s xfrcnt { s with tty := { s.tty with point := .check } }
  | dequeue (q q' : IOQueue) (elem : IOQuest) : s.tty.point = .dequeue → s.queue = some q →
      iodequeue q = some (elem, q') → TtyMove s xfrcnt
        { s with queue := some q', tty := { s.tty with point := .serve, elem := elem } }
  | served (msg : Message) : s.tty.point = .serve → msg.function = OS_fs_resume →
      msg.param 0 = (if s.tty.elem.function = SYS_ioctl then 0 else xfrcnt) →
      msg.param 1 = s.tty.elem.source →
      TtyMove s xfrcnt { s with tty := { s.tty with point := .reply, msg := msg } }
  | ignored : s.tty.point = .serve → s.tty.elem.function ∉ [SYS_readv, SYS_ioctl, SYS_writev] →
      TtyMove s xfrcnt { s with tty := { s.tty with point := .check } }
  | calls : s.tty.point = .receive ∨ s.tty.point = .reply → TtyMove s xfrcnt s

theorem TtyMove.of_step {xfrcnt : Word} (h : s.ttyStep xfrcnt = .ok s') : s.TtyMove xfrcnt s' := by
  unfold ttyStep at h
  cases hpoint : s.tty.point with
  | start =>
      simp only [hpoint] at h
      cases h
      exact .start hpoint
  | check =>
      simp only [hpoint, ttyCheck] at h
      split at h
      · cases h
      · next q hq =>
        split_ifs at h with hempty
        · cases h
          exact .empty q hpoint hq hempty
        · cases h
          exact .nonempty q hpoint hq (eq_false_of_ne_true hempty)
  | dequeue =>
      simp only [hpoint, ttyDequeue] at h
      split at h
      · cases h
      · next q hq =>
        split_ifs at h with hempty
        · cases h
          exact .tricky q hpoint hq hempty
        · split at h
          · cases h
          · next elem q' hq' =>
            cases h
            exact .dequeue q q' elem hpoint hq hq'
  | serve =>
      simp only [hpoint, ttyServe] at h
      by_cases hserved : s.tty.elem.function ∈ [SYS_readv, SYS_ioctl, SYS_writev]
      · rw [if_pos hserved] at h
        cases h
        exact .served _ hpoint rfl rfl rfl
      · rw [if_neg hserved] at h
        cases h
        exact .ignored hpoint hserved
  | receive =>
      simp only [hpoint] at h
      cases h
      exact .calls (.inl hpoint)
  | reply =>
      simp only [hpoint] at h
      cases h
      exact .calls (.inr hpoint)

theorem ttyStep_frame {xfrcnt : Word} (h : s.ttyStep xfrcnt = .ok s') :
    s'.kernel = s.kernel ∧ s'.fs = s.fs ∧ s'.user = s.user := by
  cases TtyMove.of_step h <;> exact ⟨rfl, rfl, rfl⟩

/-! ## Switches -/

private theorem switch_blocked {t : Slot}
    (hstate : ((s.switch x c i).kernel.proc t).state = PROC_STATE_SENDING ∨
      ((s.switch x c i).kernel.proc t).state = PROC_STATE_RECEIVING) :
    ((s.switch x c i).kernel.proc t).state = (s.kernel.proc t).state ∧
      ((s.switch x c i).kernel.proc t).pSendto = (s.kernel.proc t).pSendto ∧
      ((s.switch x c i).kernel.proc t).pRecvfrom = (s.kernel.proc t).pRecvfrom := by
  have hproc : (s.switch x c i).kernel.proc t =
      if t = i then { (s.kernel.suspend x c).proc i with state := PROC_STATE_RUNNING }
      else (s.kernel.suspend x c).proc t := Kernel.proc_dispatch _ _ _
  rw [hproc] at hstate ⊢
  by_cases hi : t = i
  · rw [if_pos hi] at hstate
    rcases hstate with h | h
    · exact absurd (show PROC_STATE_RUNNING = PROC_STATE_SENDING from h) (by decide)
    · exact absurd (show PROC_STATE_RUNNING = PROC_STATE_RECEIVING from h) (by decide)
  · rw [if_neg hi] at hstate ⊢
    rw [Kernel.proc_suspend] at hstate ⊢
    by_cases hc : t = c
    · rw [if_pos hc] at hstate ⊢
      subst hc
      refine ⟨?_, rfl, rfl⟩
      dsimp only at hstate ⊢
      by_cases hrun : (s.kernel.proc t).state = PROC_STATE_RUNNING
      · rw [if_pos hrun] at hstate
        rcases hstate with h | h
        · exact absurd (show PROC_STATE_READY = PROC_STATE_SENDING from h) (by decide)
        · exact absurd (show PROC_STATE_READY = PROC_STATE_RECEIVING from h) (by decide)
      · rw [if_neg hrun]
    · rw [if_neg hc]
      exact ⟨rfl, rfl, rfl⟩

private theorem current_switch (h : s.kernel.Current c) {t : Slot}
    (hne : s.kernel.procRunning ≠ t.val)
    (hready : s.kernel.isReady t = true) : (s.switch x c t).kernel.Current t := by
  obtain ⟨hwf, hnone⟩ := h.suspend x
  obtain ⟨hpid, hstate⟩ := Kernel.isReady_eq_true.mp hready
  have htc : t ≠ c := by
    rintro rfl
    exact hne h.procRunning
  have hproc : (s.kernel.suspend x c).proc t = s.kernel.proc t := by
    rw [Kernel.proc_suspend, if_neg htc]
  refine (hwf.dispatch ?_ ?_ fun i _ => hnone i).1
  · rw [hproc]
    exact (h.pid t).resolve_left hpid
  · rw [hproc]
    exact (h.valid t).idle_of_ready hstate

private theorem pid_switch {t : Slot} :
    ((s.switch x c t).kernel.proc i).pid = (s.kernel.proc i).pid := by
  have hproc : (s.switch x c t).kernel.proc i =
      if i = t then { (s.kernel.suspend x c).proc t with state := PROC_STATE_RUNNING }
      else (s.kernel.suspend x c).proc i := Kernel.proc_dispatch _ _ _
  have hsuspend (j : Slot) :
      ((s.kernel.suspend x c).proc j).pid = (s.kernel.proc j).pid := by
    rw [Kernel.proc_suspend]
    by_cases hc : j = c
    · rw [if_pos hc, hc]
    · rw [if_neg hc]
  rw [hproc]
  by_cases hi : i = t
  · rw [if_pos hi, hi]
    exact hsuspend t
  · rw [if_neg hi]
    exact hsuspend i

/-! ## The states of the kernel and the programs -/

/-- Every blocked process is blocked in the call that its program is at. -/
structure Sound (address : Slot → Word) (users : Finset Slot) (s : System) : Prop where
  current : ∃ c, s.kernel.Current c
  fsLive : (s.kernel.proc fsSlot).pid = fsSlot.val
  ttyLive : (s.kernel.proc ttySlot).pid = ttySlot.val
  apart : ∀ u ∈ users, u ≠ fsSlot ∧ u ≠ ttySlot
  sending : ∀ i, (s.kernel.proc i).state = PROC_STATE_SENDING → ∃ dest msg,
    s.callOf address i = some (.send dest msg false) ∧ (s.kernel.proc i).pSendto = dest
  receiving : ∀ i, (s.kernel.proc i).state = PROC_STATE_RECEIVING → ∃ src msg,
    s.callOf address i = some (.receive src msg) ∧ (s.kernel.proc i).pRecvfrom = src
  compute : ∀ i, i ∉ users → i ≠ fsSlot → i ≠ ttySlot → (s.user i).point = .compute

theorem Initial.sound (h : s.Initial users) : s.Sound address users where
  current := h.current
  fsLive := h.fsLive
  ttyLive := h.ttyLive
  apart := h.apart
  sending i hi := absurd hi (h.idle i).1
  receiving i hi := absurd hi (h.idle i).2
  compute i _ _ _ := h.user i

private theorem callOf_receive {src : Int} {msg : Word}
    (h : s.callOf address i = some (.receive src msg)) :
    src = IPC_TARGET_ANY ∨ src = KPROC_PID_FS := by
  unfold callOf at h
  split_ifs at h
  · cases hpoint : s.fs.point <;> rw [hpoint] at h <;> cases h
    exact .inl rfl
  · cases hpoint : s.tty.point <;> rw [hpoint] at h <;> cases h
    exact .inl rfl
  · cases hpoint : (s.user i).point <;> rw [hpoint] at h <;> cases h
    exact .inr rfl

theorem pid2proc_fs : pid2proc KPROC_PID_FS = .ok fsSlot := rfl

theorem pid2proc_tty : pid2proc KPROC_PID_TTY0 = .ok ttySlot := rfl

private theorem Sound.local_step (h : s.Sound address users) (hrun : s.Runs c)
    (hkernel : s'.kernel = s.kernel)
    (hcall : ∀ i, i ≠ c → s'.callOf address i = s.callOf address i)
    (hcompute : ∀ i, i ∉ users → i ≠ fsSlot → i ≠ ttySlot → (s'.user i).point = .compute) :
    s'.Sound address users where
  current := by
    rw [hkernel]
    exact h.current
  fsLive := by
    rw [hkernel]
    exact h.fsLive
  ttyLive := by
    rw [hkernel]
    exact h.ttyLive
  apart := h.apart
  sending i hi := by
    rw [hkernel] at hi ⊢
    have hic : i ≠ c := by
      rintro rfl
      exact absurd (hi.symm.trans hrun.2) (by decide)
    rw [hcall i hic]
    exact h.sending i hi
  receiving i hi := by
    rw [hkernel] at hi ⊢
    have hic : i ≠ c := by
      rintro rfl
      exact absurd (hi.symm.trans hrun.2) (by decide)
    rw [hcall i hic]
    exact h.receiving i hi
  compute := hcompute

theorem Sound.current_of_runs (h : s.Sound address users) (hrun : s.Runs c) :
    s.kernel.Current c := by
  obtain ⟨c', hc'⟩ := h.current
  have heq : c = c' := by
    apply Fin.ext
    rw [← hrun.1, hc'.procRunning]
  rw [heq]
  exact hc'

theorem Sound.switch (h : s.Sound address users) (hcurrent : s.kernel.Current c) {t : Slot}
    (hne : s.kernel.procRunning ≠ t.val) (hready : s.kernel.isReady t = true) :
    (s.switch x c t).Sound address users where
  current := ⟨t, current_switch hcurrent hne hready⟩
  fsLive := pid_switch.trans h.fsLive
  ttyLive := pid_switch.trans h.ttyLive
  apart := h.apart
  sending i hi := by
    obtain ⟨hstate, hsendto, -⟩ := switch_blocked (.inl hi)
    rw [hsendto]
    exact h.sending i (hstate.symm.trans hi)
  receiving i hi := by
    obtain ⟨hstate, -, hrecvfrom⟩ := switch_blocked (.inr hi)
    rw [hrecvfrom]
    exact h.receiving i (hstate.symm.trans hi)
  compute := h.compute

theorem Sound.mem_of_callOf (h : s.Sound address users) {call : Call}
    (hcall : s.callOf address i = some call) : i ∈ users ∨ i = fsSlot ∨ i = ttySlot := by
  by_contra hne
  push Not at hne
  obtain ⟨huser, hfs, htty⟩ := hne
  unfold callOf at hcall
  rw [if_neg hfs, if_neg htty, h.compute i huser hfs htty] at hcall
  cases hcall

/-- A process that is not running has moved only if a transfer woke it. -/
theorem Sound.transfer (h : s.Sound address users) {k' : Kernel} {f d woken : Slot}
    (hcurrent : k'.Current c) (hpid : ∀ i, (k'.proc i).pid = (s.kernel.proc i).pid)
    (hrun : (s.kernel.proc c).state = PROC_STATE_RUNNING)
    (hends : f = c ∧ d = woken ∨ f = woken ∧ d = c)
    (hready : (k'.proc woken).state = PROC_STATE_READY) (honly : s.kernel.OnlyAt k' woken)
    (hmem : f ∈ users ∨ f = fsSlot ∨ f = ttySlot) :
    ({ s with kernel := k' }.transferred f d).Sound address users := by
  have hother (i : Slot) (hc : i ≠ c) (hw : i ≠ woken) :
      ({ s with kernel := k' }.transferred f d).callOf address i = s.callOf address i := by
    rcases hends with ⟨rfl, rfl⟩ | ⟨rfl, rfl⟩
    · exact callOf_transferred hc hw
    · exact callOf_transferred hw hc
  have hblocked (i : Slot) (hi : (k'.proc i).state = PROC_STATE_SENDING ∨
      (k'.proc i).state = PROC_STATE_RECEIVING) : i ≠ c ∧ i ≠ woken := by
    have hw : i ≠ woken := by
      rintro rfl
      rw [hready] at hi
      rcases hi with hi | hi <;> exact absurd hi (by decide)
    refine ⟨?_, hw⟩
    rintro rfl
    rw [Process.state_of_body (honly i hw), hrun] at hi
    rcases hi with hi | hi <;> exact absurd hi (by decide)
  constructor
  case current => exact ⟨c, by rwa [kernel_transferred]⟩
  case fsLive =>
    rw [kernel_transferred]
    exact (hpid fsSlot).trans h.fsLive
  case ttyLive =>
    rw [kernel_transferred]
    exact (hpid ttySlot).trans h.ttyLive
  case apart => exact h.apart
  case sending =>
    rw [kernel_transferred]
    intro i hi
    obtain ⟨hc, hw⟩ := hblocked i (.inl hi)
    rw [hother i hc hw, Process.pSendto_of_body (honly i hw)]
    exact h.sending i ((Process.state_of_body (honly i hw)).symm.trans hi)
  case receiving =>
    rw [kernel_transferred]
    intro i hi
    obtain ⟨hc, hw⟩ := hblocked i (.inr hi)
    rw [hother i hc hw, Process.pRecvfrom_of_body (honly i hw)]
    exact h.receiving i ((Process.state_of_body (honly i hw)).symm.trans hi)
  case compute =>
    intro i huser hfs htty
    unfold transferred
    rw [user_received hfs htty]
    split_ifs with hid
    · rfl
    · rw [user_sent hfs htty, if_neg]
      · exact h.compute i huser hfs htty
      · rintro rfl
        rcases hmem with hmem | hmem | hmem
        · exact huser hmem
        · exact hfs hmem
        · exact htty hmem

theorem Sound.block (h : s.Sound address users) {k' : Kernel} (hcurrent : k'.Current c)
    (hpid : ∀ i, (k'.proc i).pid = (s.kernel.proc i).pid) (honly : s.kernel.OnlyAt k' c)
    (hsending : (k'.proc c).state = PROC_STATE_SENDING → ∃ dest msg,
      s.callOf address c = some (.send dest msg false) ∧ (k'.proc c).pSendto = dest)
    (hreceiving : (k'.proc c).state = PROC_STATE_RECEIVING → ∃ src msg,
      s.callOf address c = some (.receive src msg) ∧ (k'.proc c).pRecvfrom = src) :
    { s with kernel := k' }.Sound address users where
  current := ⟨c, hcurrent⟩
  fsLive := (hpid fsSlot).trans h.fsLive
  ttyLive := (hpid ttySlot).trans h.ttyLive
  apart := h.apart
  sending i hi := by
    by_cases hic : i = c
    · rw [hic] at hi ⊢
      exact hsending hi
    · change ∃ dest msg, s.callOf address i = _ ∧ (k'.proc i).pSendto = dest
      rw [Process.pSendto_of_body (honly i hic)]
      exact h.sending i ((Process.state_of_body (honly i hic)).symm.trans hi)
  receiving i hi := by
    by_cases hic : i = c
    · rw [hic] at hi ⊢
      exact hreceiving hi
    · change ∃ src msg, s.callOf address i = _ ∧ (k'.proc i).pRecvfrom = src
      rw [Process.pRecvfrom_of_body (honly i hic)]
      exact h.receiving i ((Process.state_of_body (honly i hic)).symm.trans hi)
  compute := h.compute

private theorem sending_ne_receiving : PROC_STATE_SENDING ≠ PROC_STATE_RECEIVING := by decide

theorem Sound.call (h : s.Sound address users) (hrun : s.Runs c) {call : Call}
    (hcall : s.callOf address c = some call) (hipc : s.ipc c call = .ok s') :
    s'.Sound address users := by
  obtain ⟨houtcome, hcurrent, hframe⟩ := ipc_outcome (h.current_of_runs hrun) hrun.2 hipc
  have hpid := hframe.pid
  have hmem := h.mem_of_callOf hcall
  cases houtcome with
  | delivered d k' hd hne hstate hrecv hready honly hs' =>
      rw [hs', kernel_transferred] at hcurrent hpid
      rw [hs']
      exact h.transfer hcurrent hpid hrun.2 (.inl ⟨rfl, rfl⟩) hready honly hmem
  | dropped d hd hwaits hs' =>
      rw [hs']
      refine h.local_step hrun kernel_sent (fun i hi => callOf_sent hi) fun i huser hfs htty => ?_
      rw [user_sent hfs htty, if_neg]
      · exact h.compute i huser hfs htty
      · rintro rfl
        rcases hmem with hmem | hmem | hmem
        · exact huser hmem
        · exact hfs hmem
        · exact htty hmem
  | sendBlocked d k' hd hstate hsendto honly hs' =>
      rw [hs'] at hcurrent hpid ⊢
      refine h.block hcurrent hpid honly (fun _ => ⟨_, _, hcall, hsendto⟩) fun hi => ?_
      exact absurd (hstate.symm.trans hi) sending_ne_receiving
  | taken f k' hsource hne hstate hsendto hready honly hs' =>
      rw [hs', kernel_transferred] at hcurrent hpid
      rw [hs']
      obtain ⟨dest, msg, hf, -⟩ := h.sending f hstate
      exact h.transfer hcurrent hpid hrun.2 (.inr ⟨rfl, rfl⟩) hready honly (h.mem_of_callOf hf)
  | receiveBlocked k' hsource hstate honly hs' =>
      rw [hs'] at hcurrent hpid ⊢
      refine h.block hcurrent hpid honly (fun hi => ?_) fun _ => ⟨_, _, hcall, ?_⟩
      · exact absurd (hi.symm.trans hstate) sending_ne_receiving
      · rcases hsource with ⟨hany, hrecv⟩ | ⟨f, hf, hrecv⟩
        · rw [hany, hrecv]
        · rcases callOf_receive hcall with hany | hfs
          · rw [hany] at hf
            cases hf
          · rw [hfs, pid2proc_fs] at hf
            obtain rfl := Except.ok.inj hf
            rw [hrecv, h.fsLive, hfs]
            rfl

/-! ## Steps -/

section Step

variable (hrunning : s.kernel.procRunning = c.val)

include hrunning

theorem step_switch (t : Slot) : s.step x address (.switch t) = .ok (s.switch x c t) := by
  unfold step
  rw [hrunning, pid2proc_val]
  rfl

theorem step_call {call : Call} (hcall : s.callOf address c = some call) :
    s.step x address .call = s.ipc c call := by
  unfold step
  rw [hrunning, pid2proc_val]
  dsimp only [bind, Except.bind]
  rw [hcall]

theorem step_call_none (hcall : s.callOf address c = none) : s.step x address .call = .ok s := by
  unfold step
  rw [hrunning, pid2proc_val]
  dsimp only [bind, Except.bind]
  rw [hcall]
  rfl

theorem step_fs : s.step x address .fs = s.fsStep := by
  unfold step
  rw [hrunning, pid2proc_val]
  rfl

theorem step_tty (xfrcnt : Word) : s.step x address (.tty xfrcnt) = s.ttyStep xfrcnt := by
  unfold step
  rw [hrunning, pid2proc_val]
  rfl

theorem step_user (msg : Message) : s.step x address (.user msg) =
    .ok { s with user := Function.update s.user c { point := .request, msg := msg } } := by
  unfold step
  rw [hrunning, pid2proc_val]
  rfl

end Step

theorem Sound.step (h : s.Sound address users) {a : Action} (henabled : s.Enabled users a)
    (hok : s.step x address a = .ok s') : s'.Sound address users := by
  cases a with
  | switch t =>
      obtain ⟨c, hc⟩ := h.current
      rw [step_switch hc.procRunning] at hok
      cases hok
      exact h.switch hc henabled.1 henabled.2
  | call =>
      obtain ⟨c, hrun⟩ := henabled
      cases hcall : s.callOf address c with
      | none =>
          rw [step_call_none hrun.1 hcall] at hok
          cases hok
          exact h
      | some call =>
          rw [step_call hrun.1 hcall] at hok
          exact h.call hrun hcall hok
  | fs =>
      rw [step_fs henabled.1] at hok
      obtain ⟨hkernel, htty, huser⟩ := fsStep_frame hok
      refine h.local_step henabled hkernel (fun i hi => ?_) ?_
      · exact callOf_congr (fun hfs => absurd hfs hi) (fun _ => by rw [htty])
          fun _ _ => by rw [huser]
      · rw [huser]
        exact h.compute
  | tty xfrcnt =>
      rw [step_tty henabled.1] at hok
      obtain ⟨hkernel, hfs, huser⟩ := ttyStep_frame hok
      refine h.local_step henabled hkernel (fun i hi => ?_) ?_
      · exact callOf_congr (fun _ => by rw [hfs]) (fun htty => absurd htty hi)
          fun _ _ => by rw [huser]
      · rw [huser]
        exact h.compute
  | user msg =>
      obtain ⟨c, hc, hrun, -, -⟩ := henabled
      rw [step_user hrun.1] at hok
      cases hok
      refine h.local_step hrun rfl (fun i hi => ?_) fun i huser hfs htty => ?_
      · refine callOf_congr (fun _ => rfl) (fun _ => rfl) fun _ _ => ?_
        exact congrArg UserProc.point (Function.update_of_ne hi _ _)
      · have hic : i ≠ c := by
          rintro rfl
          exact huser hc
        exact (congrArg UserProc.point (Function.update_of_ne hic _ _)).trans
          (h.compute i huser hfs htty)

/-! ## Booting -/

def registerUsers (k : Kernel) (us : List Slot) : Kernel :=
  us.foldl
    (fun k u => k.setProc u (Process.register u.val 0x20110000 0x20120000 PROC_STATE_READY)) k

def boot (us : List Slot) : System where
  kernel := registerUsers ((default : Kernel).prepareProcesses Kernel.someImage) us
  fs := { point := .receive, msg := IOQuest.zero, msgSend := IOQuest.zero }
  tty := { point := .start, msg := IOQuest.zero, elem := IOQuest.zero }
  user _ := { point := .compute, msg := IOQuest.zero }
  queue := none
  fdmap _ _ := -1

structure Unused (k : Kernel) : Prop where
  current : k.Current 1
  quiet : ∀ i, (k.proc i).Idle
  idle : ∀ i, (k.proc i).state ≠ PROC_STATE_SENDING ∧ (k.proc i).state ≠ PROC_STATE_RECEIVING

theorem Unused.register {k : Kernel} (h : Unused k) {u : Slot} (hu : u ≠ 1)
    {f : Process → Process} (hpid : (f (k.proc u)).pid = u.val)
    (hstate : (f (k.proc u)).state = PROC_STATE_READY) (hidle : (f (k.proc u)).Idle) :
    Unused (k.setProc u f) where
  current := h.current.addReady hu hpid hstate hidle
  quiet i := by
    rw [Kernel.proc_setProc]
    split_ifs
    · exact hidle
    · exact h.quiet i
  idle i := by
    rw [Kernel.proc_setProc]
    split_ifs
    · rw [hstate]
      decide
    · exact h.idle i

private theorem unused_prepareProcesses (image : Image) (k : Kernel) :
    Unused (k.prepareProcesses image) := by
  have hfirst : Unused (k.procManagerClear.setProc 1
      (Process.register 1 image.proc1 0x2010fffc PROC_STATE_RUNNING)) := by
    refine ⟨Kernel.current_register image k, fun i => ?_, fun i => ?_⟩
    · rw [Kernel.proc_setProc]
      split_ifs <;> exact ⟨rfl, rfl, rfl⟩
    · rw [Kernel.proc_setProc]
      split_ifs
      · change PROC_STATE_RUNNING ≠ _ ∧ PROC_STATE_RUNNING ≠ _
        decide
      · change PROC_STATE_UNDEF ≠ _ ∧ PROC_STATE_UNDEF ≠ _
        decide
  have hsecond := hfirst.register (u := 2)
    (f := Process.register 2 image.proc2 0x2010effc PROC_STATE_READY) (by decide) rfl rfl
    ⟨rfl, rfl, rfl⟩
  have hthird := hsecond.register (u := 3)
    (f := Process.register 3 image.proc3 0x2010dffc PROC_STATE_READY) (by decide) rfl rfl
    ⟨rfl, rfl, rfl⟩
  have hfs := hthird.register (u := 5)
    (f := Process.register KPROC_PID_FS image.fsProcMain 0x20100ffc PROC_STATE_READY) (by decide)
    rfl rfl ⟨rfl, rfl, rfl⟩
  unfold Kernel.prepareProcesses
  exact hfs.register (by decide) rfl rfl ⟨rfl, rfl, rfl⟩

private theorem registerUsers_spec {us : List Slot} {k : Kernel} (h : Unused k)
    (hus : ∀ u ∈ us, u ≠ 1 ∧ u ≠ fsSlot ∧ u ≠ ttySlot) :
    Unused (registerUsers k us) ∧
      ((registerUsers k us).proc fsSlot).pid = (k.proc fsSlot).pid ∧
      ((registerUsers k us).proc ttySlot).pid = (k.proc ttySlot).pid := by
  induction us generalizing k with
  | nil => exact ⟨h, rfl, rfl⟩
  | cons u us ih =>
      obtain ⟨hone, hfs, htty⟩ := hus u List.mem_cons_self
      have hquiet := h.quiet u
      have hnext := h.register hone
        (f := Process.register u.val 0x20110000 0x20120000 PROC_STATE_READY) rfl rfl
        ⟨hquiet.pMsg, hquiet.pSendto, hquiet.pRecvfrom⟩
      obtain ⟨hunused, hfs', htty'⟩ := ih hnext fun v hv => hus v (List.mem_cons_of_mem u hv)
      rw [Kernel.proc_setProc_ne hfs.symm] at hfs'
      rw [Kernel.proc_setProc_ne htty.symm] at htty'
      exact ⟨hunused, hfs', htty'⟩

theorem initial_boot {us : List Slot} (h : ∀ u ∈ us, u ≠ 1 ∧ u ≠ fsSlot ∧ u ≠ ttySlot) :
    (boot us).Initial us.toFinset := by
  obtain ⟨hunused, hfs, htty⟩ :=
    registerUsers_spec (unused_prepareProcesses Kernel.someImage default) h
  exact {
    current := ⟨1, hunused.current⟩
    idle := hunused.idle
    fsLive := hfs
    ttyLive := htty
    apart := fun u hu => (h u (List.mem_toFinset.mp hu)).2
    fs := rfl
    tty := rfl
    user := fun _ => rfl
    queue := rfl }

theorem initial_boot_four : (boot [4]).Initial [4].toFinset :=
  initial_boot (by decide)

end System

end PComputer.PseudOS
