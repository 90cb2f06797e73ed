import PComputer.Kernel.Delivery

/-!
# The representation of the queues

While in addition no `schedule` resumes a process that is SENDING, membership in
a queue, the state SENDING and the pending message say the same thing.
-/

namespace PComputer.PseudOS

open PComputer.Foundation PComputer.Rtl

namespace Kernel

variable {k k' : Kernel} {x : ReadX}

/-- Who is in which queue can be read off the fields of the senders. -/
structure Represented (k : Kernel) : Prop where
  lists : ∀ d, ∃ queue, Linked k.next (k.proc d).queueSending queue ∧
    ∀ s, queue.count s = 1 ↔ (k.proc s).state = PROC_STATE_SENDING ∧
      (k.proc s).pSendto = (k.proc d).pid ∧ (k.proc s).pMsg ≠ 0
  unlinked : ∀ s, (∀ d queue, Linked k.next (k.proc d).queueSending queue → s ∉ queue) →
    k.next s = none

/-- A `schedule` with the running process blocked in a send finds another one. -/
def StaysBlocked (k : Kernel) (t : Turn) : Prop :=
  match t.move with
  | .schedule => (k.proc t.caller).state = PROC_STATE_SENDING → k.OtherReady
  | .send _ _ _ | .receive _ _ | .execute _ | .create _ _ | .register _ _ _ => True

structure Blocking (k : Kernel) : Prop extends k.Queued where
  sender : ∀ s, (k.proc s).pSendto ≠ IPC_TARGET_NONE →
    (k.proc s).state = PROC_STATE_SENDING ∧ (k.proc s).pMsg ≠ 0
  fresh : k.doStart = true → ∀ s, (k.proc s).pSendto = IPC_TARGET_NONE

private theorem Blocking.represented (h : k.Blocking) : k.Represented := by
  have hmem : ∀ s d, s ∈ (blockedOn d k.log).map Prod.fst ↔ (k.proc s).pSendto = d.val := by
    intro s d
    constructor
    · intro hs
      obtain ⟨⟨s', m⟩, hpair, rfl⟩ := List.mem_map.mp hs
      exact ((h.pending s' d m).mp hpair).1
    · exact fun hs => List.mem_map_of_mem ((h.pending s d _).mpr ⟨hs, rfl⟩)
  constructor
  · intro d
    refine ⟨_, h.linked d, fun s => ?_⟩
    have hcount : ((blockedOn d k.log).map Prod.fst).count s = 1 ↔
        s ∈ (blockedOn d k.log).map Prod.fst := by
      constructor
      · intro hone
        exact List.count_pos_iff.mp (by omega)
      · exact List.count_eq_one_of_mem (h.linked d).nodup
    rw [hcount, hmem]
    constructor
    · intro hs
      obtain ⟨hstate, hmsg⟩ := h.sender s (hs ▸ val_ne_none d)
      exact ⟨hstate, hs.trans (h.live s d hs).symm, hmsg⟩
    · rintro ⟨hstate, hs, -⟩
      rcases h.sendto s with hnone | ⟨e, he⟩
      · exact absurd hnone (h.sending s hstate)
      · rcases h.pid d with hpid | hpid
        · rw [he, hpid] at hs
          omega
        · exact hs.trans hpid
  · intro s hnone
    refine h.unlinked s ?_
    by_contra hsend
    obtain ⟨d, hd⟩ := (h.sendto s).resolve_left hsend
    exact hnone d _ (h.linked d) ((hmem s d).mpr hd)

theorem Blocking.of_queued (h : k.Blocking) (hqueued : k'.Queued)
    (hsender : ∀ s, (k'.proc s).pSendto ≠ IPC_TARGET_NONE →
      (k'.proc s).body = (k.proc s).body ∨
        (k'.proc s).state = PROC_STATE_SENDING ∧ (k'.proc s).pMsg ≠ 0)
    (hfresh : k'.doStart = true → ∀ s, (k'.proc s).pSendto = IPC_TARGET_NONE) : k'.Blocking where
  toQueued := hqueued
  sender s hs := by
    rcases hsender s hs with hbody | hblocked
    · rw [Process.pSendto_of_body hbody] at hs
      rw [Process.state_of_body hbody, Process.pMsg_of_body hbody]
      exact h.sender s hs
    · exact hblocked
  fresh := hfresh

theorem Blocking.send {s d : Slot} {msg : Word} {nonblocking : Bool} {r : Int} (h : k.Blocking)
    (hqueued : k'.Queued) (hstart : k.doStart = false)
    (hok : k.msgSend s d.val msg nonblocking = .ok (r, k')) : k'.Blocking := by
  have hcall : k.call s (.send d.val msg nonblocking) = .ok (r, k') := hok
  have hstart' : k'.doStart = false := (call_frame hcall).doStart.trans hstart
  refine h.of_queued hqueued ?_ fun hs => absurd (hs.symm.trans hstart') (by decide)
  obtain ⟨d', hd', -, hcases⟩ := msgSend_cases hok
  rw [pid2proc_val] at hd'
  obtain rfl : d = d' := Except.ok.inj hd'
  intro i hi
  rcases hcases with ⟨hwaits, -, rfl⟩ | ⟨-, -, -, rfl⟩ | ⟨-, -, -, hblock⟩
  · unfold sendDirectly at hi ⊢
    by_cases hid : i = d
    · subst hid
      rw [proc_setProc_self] at hi
      exact absurd (h.receiving i (waitsFor_eq_true hwaits).1) hi
    · rw [proc_setProc_ne hid]
      exact .inl rfl
  · exact .inl rfl
  · obtain ⟨-, hmsg, -, k₁, hk₁, rfl⟩ := blockSender_cases hblock
    have hbody := enqueue_body hk₁ i
    rw [proc_setProc] at hbody
    split_ifs at hbody with his
    · refine .inr ⟨?_, ?_⟩
      · exact Process.state_of_body hbody
      · exact fun hzero => hmsg ((Process.pMsg_of_body hbody).symm.trans hzero)
    · exact .inl hbody

theorem Blocking.receive {r : Slot} {src status : Int} {msg : Word} (h : k.Blocking)
    (hqueued : k'.Queued) (hstart : k.doStart = false)
    (hok : k.msgReceive r src msg = .ok (status, k')) : k'.Blocking := by
  have hcall : k.call r (.receive src msg) = .ok (status, k') := hok
  have hstart' : k'.doStart = false := (call_frame hcall).doStart.trans hstart
  refine h.of_queued hqueued ?_ fun hs => absurd (hs.symm.trans hstart') (by decide)
  intro i hi
  obtain ⟨-, -, ⟨f, prev, -, hnow⟩ | ⟨recvfrom, -, hblock⟩⟩ := msgReceive_cases hok
  · obtain ⟨-, -, k₁, hk₁, rfl⟩ := receiveNow_cases hnow
    by_cases hif : i = f
    · subst hif
      rw [proc_setProc_self] at hi
      exact absurd rfl hi
    · rw [proc_setProc_ne hif, proc_transfer]
      exact .inl (unlink_body hk₁ i)
  · obtain ⟨-, -, -, hsend, rfl⟩ := blockReceiver_cases hblock
    by_cases hir : i = r
    · subst hir
      rw [proc_setProc_self] at hi
      exact absurd hsend hi
    · rw [proc_setProc_ne hir]
      exact .inl rfl

theorem Blocking.schedule {t : Turn} (h : k.Blocking) (hrunning : k.procRunning = t.caller.val)
    (hstays : (k.proc t.caller).state = PROC_STATE_SENDING → k.OtherReady)
    (hok : k.schedule x = .ok k') : k'.Blocking := by
  obtain ⟨hqueued, -⟩ := h.toQueued.schedule hok
  have hstart' : k'.doStart = false := doStart_schedule hok
  refine ⟨hqueued, ?_, fun hs => absurd (hs.symm.trans hstart') (by decide)⟩
  intro s hs
  rcases schedule_cases hok with ⟨hstart, k₁, hproc, -, -, rfl⟩ | ⟨-, c, e, hc, he, rfl⟩
  · have hsame := (sameQueues_dispatch k₁ 1).pSendto s
    rw [hproc] at hsame
    exact absurd (hsame.trans (h.fresh hstart s)) hs
  · rw [hrunning, pid2proc_val] at hc
    obtain rfl : t.caller = c := Except.ok.inj hc
    have hpending : (k.proc s).pSendto ≠ IPC_TARGET_NONE := by
      rwa [(sameQueues_dispatch _ e).pSendto, (sameQueues_suspend x k _).pSendto] at hs
    obtain ⟨hstate, hmsg⟩ := h.sender s hpending
    -- The process that is resumed was READY, or it was running and is not SENDING.
    have hne : s ≠ e := by
      rintro rfl
      rcases procGetnext_cases k with ⟨i, -, hready, hget⟩ | ⟨hno, hget⟩
      · rw [hget, pid2proc_val] at he
        obtain rfl : i = s := Except.ok.inj he
        exact absurd (hstate.symm.trans (isReady_eq_true.mp hready).2) (by decide)
      · rw [hget, hrunning, pid2proc_val] at he
        obtain rfl : t.caller = s := Except.ok.inj he
        obtain ⟨i, hi, hready⟩ := hstays hstate
        rw [hno i hi] at hready
        cases hready
    rw [proc_dispatch, if_neg hne, proc_suspend]
    by_cases hsc : s = t.caller
    · rw [if_pos hsc]
      subst hsc
      rw [if_neg (by rw [hstate]; decide)]
      exact ⟨hstate, hmsg⟩
    · rw [if_neg hsc]
      exact ⟨hstate, hmsg⟩

theorem Blocking.fill {i : Slot} {f : Process → Process} (h : k.Blocking)
    (hqueued : (k.setProc i f).Queued) (hsend : (f (k.proc i)).pSendto = IPC_TARGET_NONE) :
    (k.setProc i f).Blocking := by
  have hcases : ∀ s, ((k.setProc i f).proc s).pSendto = IPC_TARGET_NONE ∨
      (k.setProc i f).proc s = k.proc s := by
    intro s
    rw [proc_setProc]
    split_ifs
    · exact .inl hsend
    · exact .inr rfl
  refine h.of_queued hqueued (fun s hs => ?_) fun hstart s => ?_
  · exact .inl (congrArg Process.body ((hcases s).resolve_left hs))
  · rcases hcases s with hs | hs
    · exact hs
    · rw [hs]
      exact h.fresh hstart s

theorem Blocking.turn {t : Turn} (h : k.Blocking) (hlegal : k.Legal x t) (hkeeps : k.Keeps t)
    (hstays : k.StaysBlocked t) (hok : k.turn x t = .ok k') : k'.Blocking := by
  obtain ⟨hqueued, -⟩ := h.toQueued.turn hlegal hkeeps hok
  obtain ⟨r, hmove⟩ := turn_eq_ok hok
  obtain ⟨hrunning, -, hmay⟩ := hlegal
  have hnamed : ∀ c msg, (k.named c msg).Blocking := fun c msg =>
    h.of_queued (h.toQueued.named c msg) (fun _ _ => .inl rfl) h.fresh
  obtain ⟨caller, m, status⟩ := t
  cases m with
  | send dest msg nonblocking =>
      obtain ⟨⟨hstart, -⟩, d, -, rfl, -⟩ := hmay
      obtain ⟨c, -, hsend⟩ := move_send hmove
      exact (hnamed c msg).send hqueued hstart hsend
  | receive src msg =>
      obtain ⟨⟨hstart, -⟩, -⟩ := hmay
      obtain ⟨c, -, hreceive⟩ := move_receive hmove
      exact (hnamed c msg).receive hqueued hstart hreceive
  | schedule =>
      obtain ⟨k₁, hschedule, hk⟩ := bind_eq_ok.mp hmove
      cases pure_eq_ok.mp hk
      exact h.schedule hrunning hstays hschedule
  | execute e =>
      cases hmove
      exact h.of_queued hqueued (fun _ _ => .inl rfl) h.fresh
  | create entry stack =>
      obtain ⟨k₁, hnew, hk⟩ := bind_eq_ok.mp hmove
      cases pure_eq_ok.mp hk
      obtain ⟨i, -, -, f, rfl, hf⟩ := newProcess_cases hnew
      exact h.fill hqueued (hf (k.proc i)).2.2.1.pSendto
  | register i pc sp =>
      cases hmove
      exact h.fill hqueued (h.free i hmay)

private theorem pSendto_register (k : Kernel) (i s : Slot) (pid : Int) (pc sp : Word)
    (state : BitVec 16) :
    ((k.setProc i (Process.register pid pc sp state)).proc s).pSendto = (k.proc s).pSendto := by
  rw [proc_setProc]
  split_ifs with hs
  · rw [hs]
    rfl
  · rfl

private theorem pSendto_procManagerInit (k : Kernel) (image : Image) (s : Slot) :
    ((k.procManagerInit image).proc s).pSendto = IPC_TARGET_NONE := by
  unfold procManagerInit
  rw [pSendto_register, pSendto_register, pSendto_register]
  rfl

theorem represented_of_keeps {x : ReadX} {image : Image} {turns : List Turn} {k : Kernel}
    (h : Run (Kernel.turn x) (Initialised image)
      (fun k t => k.Legal x t ∧ k.Keeps t ∧ k.StaysBlocked t) turns k) : k.Represented := by
  have hblocking : k.Blocking := by
    refine Run.invariant (fun _ k => k.Blocking) ?_ ?_ h
    · rintro _ ⟨k₀, hlog, rfl⟩
      have hnone := pSendto_procManagerInit k₀ image
      exact ⟨queued_procManagerInit k₀ hlog image, fun s hs => absurd (hnone s) hs,
        fun _ => hnone⟩
    · rintro _ s t s' hs ⟨hlegal, hkeeps, hstays⟩ hok
      exact hs.turn hlegal hkeeps hstays hok
  exact hblocking.represented

/-! ### Concrete runs -/

instance (k : Kernel) : (t : Turn) → Decidable (k.StaysBlocked t)
  | ⟨_, .schedule, _⟩ => inferInstanceAs (Decidable (_ → _))
  | ⟨_, .send _ _ _, _⟩ | ⟨_, .receive _ _, _⟩ | ⟨_, .execute _, _⟩ | ⟨_, .create _ _, _⟩
  | ⟨_, .register _ _ _, _⟩ => isTrue trivial

def receivingFrom (src : Int) : List Turn :=
  [⟨1, .schedule, 0⟩, ⟨1, .send 3 (messageOf 1) false, 0⟩, ⟨1, .schedule, 0⟩,
    ⟨2, .send 3 (messageOf 2) false, 0⟩, ⟨2, .schedule, 0⟩, ⟨3, .receive src (messageOf 3), 0⟩]

theorem represented_of_keeps_head :
    ∃ k, Run (Kernel.turn tiedHigh) (Initialised someImage)
        (fun k t => k.Legal tiedHigh t ∧ k.Keeps t ∧ k.StaysBlocked t) (receivingFrom 1) k ∧
      k.Represented := by
  have hrun : (follow (Kernel.turn tiedHigh)
      (fun k t => decide (k.Legal tiedHigh t ∧ k.Keeps t ∧ k.StaysBlocked t))
      ((default : Kernel).procManagerInit someImage) (receivingFrom 1)).isSome = true := by
    decide +kernel
  obtain ⟨k, hk⟩ := Option.isSome_iff_exists.mp hrun
  have hfollow : Run (Kernel.turn tiedHigh) (Initialised someImage)
      (fun k t => k.Legal tiedHigh t ∧ k.Keeps t ∧ k.StaysBlocked t) (receivingFrom 1) k :=
    Run.of_follow (fun _ _ h => of_decide_eq_true h) ⟨default, rfl, rfl⟩ hk
  exact ⟨k, hfollow, represented_of_keeps hfollow⟩

/-- Received from behind pid 1, pid 2 stays in the queue although its message is gone. -/
theorem received_stays_queued :
    ∃ k, Run (Kernel.turn tiedHigh) (Initialised someImage) (Kernel.Legal tiedHigh)
        (receivingFrom 2) k ∧ ¬k.Represented := by
  have hrun : (follow (Kernel.turn tiedHigh) (fun k t => decide (k.Legal tiedHigh t))
      ((default : Kernel).procManagerInit someImage) (receivingFrom 2)).map
        (fun k => (((k.proc 2).state, (k.proc 3).queueSending), (k.next 1, k.next 2))) =
      some ((PROC_STATE_READY, some 1), (some 2, none)) := by
    decide +kernel
  obtain ⟨k, hk, hfields⟩ := Option.map_eq_some_iff.mp hrun
  simp only [Prod.mk.injEq] at hfields
  obtain ⟨⟨hstate, hhead⟩, hfirst, hsecond⟩ := hfields
  refine ⟨k, Run.of_follow (fun _ _ h => of_decide_eq_true h) ⟨default, rfl, rfl⟩ hk, ?_⟩
  intro hrep
  obtain ⟨queue, hqueue, hcount⟩ := hrep.lists 3
  have hlinked : Linked k.next (k.proc 3).queueSending [1, 2] := by
    rw [hhead]
    refine .cons ?_
    rw [hfirst]
    refine .cons ?_
    rw [hsecond]
    exact .nil
  rw [hqueue.unique hlinked] at hcount
  obtain ⟨hsending, -⟩ := (hcount 2).mp (by decide)
  exact absurd (hstate.symm.trans hsending) (by decide)

end Kernel

end PComputer.PseudOS
