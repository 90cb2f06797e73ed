import PComputer.Kernel.Queues
import PComputer.Kernel.Scheduling

/-!
# Delivery

Over every run of moves that keep the queues, a blocking send is copied once, it
can be found in the queue of its destination until then, and senders are taken
in the order in which they blocked.
-/

namespace PComputer.PseudOS

open PComputer.Foundation PComputer.Rtl

namespace Kernel

variable {k k' : Kernel} {x : ReadX}

/-! ## The other moves keep the queues -/

theorem sameQueues_suspend (x : ReadX) (k : Kernel) (c : Slot) :
    k.SameQueues (k.suspend x c) := by
  have hcases : ∀ i, (k.suspend x c).proc i = k.proc i ∨
      i = c ∧ (k.suspend x c).proc i =
        { k.proc c with
          regs := k.regsSave
          state :=
            if (k.proc c).state = PROC_STATE_RUNNING then PROC_STATE_READY else (k.proc c).state
          pc := k.csrrMepc x } := by
    intro i
    rw [proc_suspend]
    by_cases hi : i = c
    · rw [if_pos hi]
      exact .inr ⟨hi, rfl⟩
    · rw [if_neg hi]
      exact .inl rfl
  have hstate : ∀ i st, ((k.suspend x c).proc i).state = st → st ≠ PROC_STATE_READY →
      (k.proc i).state = st := by
    intro i st hst hready
    rcases hcases i with hi | ⟨rfl, hi⟩
    · rwa [hi] at hst
    · rw [hi] at hst
      dsimp only at hst
      split_ifs at hst
      · exact absurd hst.symm hready
      · exact hst
  constructor
  case blockedOn => exact fun _ => rfl
  case sending => exact fun i hi => hstate i _ hi (by decide)
  case receiving => exact fun i hi => .inl (hstate i _ hi (by decide))
  all_goals
    intro i
    try unfold next
    rcases hcases i with hi | ⟨rfl, hi⟩
    all_goals rw [hi]
  all_goals exact fun _ => rfl

theorem sameQueues_dispatch (k : Kernel) (t : Slot) : k.SameQueues (k.dispatch t) := by
  have hcases : ∀ i, (k.dispatch t).proc i = k.proc i ∨
      i = t ∧ (k.dispatch t).proc i = { k.proc t with state := PROC_STATE_RUNNING } := by
    intro i
    rw [proc_dispatch]
    split_ifs with hi
    · exact .inr ⟨hi, rfl⟩
    · exact .inl rfl
  have hstate : ∀ i st, ((k.dispatch t).proc i).state = st → st ≠ PROC_STATE_RUNNING →
      (k.proc i).state = st := by
    intro i st hst hrun
    rcases hcases i with hi | ⟨rfl, hi⟩
    · rwa [hi] at hst
    · rw [hi] at hst
      exact absurd hst.symm hrun
  constructor
  case blockedOn => exact fun _ => rfl
  case sending => exact fun i hi => hstate i _ hi (by decide)
  case receiving => exact fun i hi => .inl (hstate i _ hi (by decide))
  all_goals
    intro i
    try unfold next
    rcases hcases i with hi | ⟨rfl, hi⟩
    all_goals rw [hi]
  all_goals exact fun _ => rfl

private theorem procRunning_dispatch_live {t : Slot} (h : (k.proc t).pid = t.val) :
    (k.dispatch t).procRunning = t.val := by
  have ht : t.val < 64 := t.isLt
  rw [procRunning_dispatch, h]
  omega

theorem Queued.schedule (h : k.Queued) (hok : k.schedule x = .ok k') :
    k'.Queued ∧ k'.log = k.log := by
  rcases schedule_cases hok with ⟨-, k₁, hproc, -, hlog, rfl⟩ | ⟨-, c, t, hc, ht, rfl⟩
  · have hsame : k.SameQueues k₁ := by
      constructor
      all_goals intro i
      case blockedOn => rw [hlog]
      all_goals
        try unfold next
        rw [hproc]
      case pMsg => exact fun _ => rfl
      case sending => exact id
      case receiving => exact .inl
    have hfirst : (k₁.proc 1).pid = (1 : Slot).val := by
      rw [hproc, h.first]
      rfl
    exact ⟨h.same (hsame.trans (sameQueues_dispatch k₁ 1))
      ⟨1, procRunning_dispatch_live hfirst, h.first⟩, hlog⟩
  · obtain ⟨c', hrunning, hlive⟩ := h.current
    rw [hrunning, pid2proc_val] at hc
    obtain rfl : c' = c := Except.ok.inj hc
    have htlive : (k.proc t).pid = t.val := by
      rcases procGetnext_cases k with ⟨i, -, hready, hget⟩ | ⟨-, hget⟩
      · rw [hget, pid2proc_val] at ht
        obtain rfl : i = t := Except.ok.inj ht
        exact (h.pid i).resolve_left (isReady_eq_true.mp hready).1
      · rw [hget, hrunning, pid2proc_val] at ht
        obtain rfl : c' = t := Except.ok.inj ht
        exact hlive
    have hsuspend := sameQueues_suspend x k c'
    refine ⟨h.same (hsuspend.trans (sameQueues_dispatch _ t)) ⟨t, ?_, htlive⟩, rfl⟩
    exact procRunning_dispatch_live ((hsuspend.pid t).trans htlive)

private theorem Queued.blockedOn_free (h : k.Queued) {i : Slot} (hfree : (k.proc i).pid = -1) :
    blockedOn i k.log = [] := by
  rw [List.eq_nil_iff_forall_not_mem]
  rintro ⟨s, m⟩ hmem
  have hlive := h.live s i ((h.pending s i m).mp hmem).1
  omega

theorem Queued.fill (h : k.Queued) {i : Slot} {f : Process → Process}
    (hfree : (k.proc i).pid = -1) (hpid : (f (k.proc i)).pid = i.val)
    (hstate : (f (k.proc i)).state = PROC_STATE_READY)
    (hsend : (f (k.proc i)).pSendto = IPC_TARGET_NONE)
    (hqueue : (f (k.proc i)).queueSending = none)
    (hnext : (f (k.proc i)).queueSendingNext = none) : (k.setProc i f).Queued := by
  have hidle := h.free i hfree
  have hunlinked := h.unlinked i hidle
  have hpos : (i.val : Int) ≠ -1 := by omega
  have hempty := h.blockedOn_free hfree
  have hself : (k.setProc i f).proc i = f (k.proc i) := proc_setProc_self k i f
  have hother : ∀ j, j ≠ i → (k.setProc i f).proc j = k.proc j :=
    fun j hj => proc_setProc_ne hj k f
  have hsendto : ∀ j, ((k.setProc i f).proc j).pSendto = (k.proc j).pSendto := by
    intro j
    by_cases hj : j = i
    · rw [hj, hself, hsend, hidle]
    · rw [hother j hj]
  constructor
  case pid =>
    intro j
    by_cases hj : j = i
    · subst hj
      exact .inr (hself ▸ hpid)
    · rw [hother j hj]
      exact h.pid j
  case first =>
    have hne : (1 : Slot) ≠ i := by
      rintro rfl
      have hfirst := h.first
      omega
    rw [hother 1 hne]
    exact h.first
  case current =>
    obtain ⟨c, hc, hlive⟩ := h.current
    have hne : c ≠ i := by
      rintro rfl
      exact hpos (hlive.symm.trans hfree)
    refine ⟨c, hc, ?_⟩
    rw [hother c hne]
    exact hlive
  case linked =>
    intro d
    have hnexts : ∀ j, (k.setProc i f).next j = k.next j := by
      intro j
      rw [next_setProc]
      split_ifs with hj
      · rw [hj, hnext, hunlinked]
      · rfl
    change Linked _ _ ((blockedOn d k.log).map Prod.fst)
    by_cases hd : d = i
    · subst hd
      rw [hself, hqueue, hempty]
      exact .nil
    · rw [hother d hd]
      exact (h.linked d).congr fun j _ => hnexts j
  case pending =>
    intro s d m
    rw [hsendto]
    change _ ∈ blockedOn d k.log ↔ _
    rw [h.pending]
    refine and_congr_right fun hs => ?_
    have hne : s ≠ i := by
      rintro rfl
      exact val_ne_none d (hs.symm.trans hidle)
    rw [hother s hne]
  case live =>
    intro s d hs
    rw [hsendto] at hs
    have hlive := h.live s d hs
    have hne : d ≠ i := by
      rintro rfl
      exact hpos (hlive.symm.trans hfree)
    rw [hother d hne]
    exact hlive
  case sendto =>
    intro s
    rw [hsendto]
    exact h.sendto s
  case sending =>
    intro s hs
    rw [hsendto]
    by_cases hsi : s = i
    · rw [hsi, hself, hstate] at hs
      exact absurd hs (by decide)
    · rw [hother s hsi] at hs
      exact h.sending s hs
  case receiving =>
    intro s hs
    rw [hsendto]
    by_cases hsi : s = i
    · rw [hsi]
      exact hidle
    · rw [hother s hsi] at hs
      exact h.receiving s hs
  case unlinked =>
    intro s hs
    rw [hsendto] at hs
    rw [next_setProc]
    split_ifs
    · exact hnext
    · exact h.unlinked s hs
  case free =>
    intro j hj
    rw [hsendto]
    by_cases hji : j = i
    · rw [hji]
      exact hidle
    · rw [hother j hji] at hj
      exact h.free j hj

/-! ## One turn -/

theorem Queued.send {s d : Slot} {msg : Word} {nonblocking : Bool} {r : Int} (h : k.Queued)
    (hne : s ≠ d) (hlive : (k.proc d).pid = d.val) (hs : (k.proc s).pid ≠ -1)
    (hkeeps : nonblocking = false → k.waitsFor d s = false →
      (k.proc s).pSendto = IPC_TARGET_NONE ∧
        ∀ head ∈ (k.proc d).queueSending, (k.proc head).queueSendingNext = none)
    (hok : k.msgSend s d.val msg nonblocking = .ok (r, k')) :
    k'.Queued ∧
      (r = 0 ∧ (k'.log = k.log ++ [.sent s d msg] ∧
            k'.mem = copyMessage k.mem (k.proc d).pMsg msg ∨
          k'.log = k.log ++ [.blocked s d msg]) ∨
        r = -1 ∧ k'.log = k.log) := by
  obtain ⟨d', hd', -, hcases⟩ := msgSend_cases hok
  rw [pid2proc_val] at hd'
  obtain rfl : d = d' := Except.ok.inj hd'
  rcases hcases with ⟨hwaits, rfl, rfl⟩ | ⟨-, -, rfl, rfl⟩ | ⟨hwaits, hblocking, rfl, hblock⟩
  · exact ⟨h.sendDirectly hwaits msg, .inl ⟨rfl, .inl ⟨rfl, rfl⟩⟩⟩
  · exact ⟨h, .inr ⟨rfl, rfl⟩⟩
  · obtain ⟨hnone, hroom⟩ := hkeeps hblocking hwaits
    refine ⟨h.blockSender hne hlive hs hnone hroom hblock, .inl ⟨rfl, .inr ?_⟩⟩
    obtain ⟨-, -, -, k₁, hk₁, rfl⟩ := blockSender_cases hblock
    exact congrArg (· ++ [_]) ((enqueue_log hk₁).trans rfl)

theorem Queued.receiveAny {r : Slot} {msg : Word} {status : Int} (h : k.Queued)
    (hok : k.msgReceive r IPC_TARGET_ANY msg = .ok (status, k')) :
    k'.Queued ∧
      match blockedOn r k.log with
      | [] => k'.log = k.log ∧ (k'.proc r).state = PROC_STATE_RECEIVING
      | (s, m) :: _ =>
          k'.log = k.log ++ [.received s r m] ∧ k'.mem = copyMessage k.mem msg m := by
  obtain ⟨-, -, ⟨f, prev, hchoose, hnow⟩ | ⟨recvfrom, hchoose, hblock⟩⟩ := msgReceive_cases hok
  all_goals
    unfold choose at hchoose
    rw [if_pos rfl] at hchoose
    rcases chooseFirst_cases hchoose with ⟨hnone, hc⟩ | ⟨f', hhead, -, -, -, hc⟩
    all_goals cases hc
  · obtain ⟨hqueued, m, rest, hqueue, hlog, hmem⟩ := h.receiveHead hhead hnow
    rw [hqueue]
    exact ⟨hqueued, hlog, hmem⟩
  · obtain ⟨hqueued, hlog⟩ := h.blockReceiver hblock
    obtain ⟨-, -, -, -, rfl⟩ := blockReceiver_cases hblock
    have hempty := h.linked r
    rw [hnone] at hempty
    rw [List.map_eq_nil_iff.mp hempty.eq_nil]
    refine ⟨hqueued, hlog, ?_⟩
    rw [proc_setProc_self]
    rfl

theorem Queued.receive {r : Slot} {src status : Int} {msg : Word} (h : k.Queued)
    (hsrc : src = IPC_TARGET_ANY ∨ ∃ f : Slot, src = f.val)
    (hkeeps : src ≠ IPC_TARGET_ANY → ∀ f : Slot, src = f.val → k.sendsTo f r = true →
      (k.proc r).queueSending = some f)
    (hok : k.msgReceive r src msg = .ok (status, k')) :
    k'.Queued ∧ (k'.log = k.log ∨ ∃ s m, (s, m) ∈ blockedOn r k.log ∧
      k'.log = k.log ++ [.received s r m] ∧ k'.mem = copyMessage k.mem msg m) := by
  by_cases hany : src = IPC_TARGET_ANY
  · subst hany
    obtain ⟨hqueued, hcase⟩ := h.receiveAny hok
    refine ⟨hqueued, ?_⟩
    split at hcase
    · exact .inl hcase.1
    · next s m _ hqueue =>
      refine .inr ⟨s, m, ?_, hcase⟩
      rw [hqueue]
      exact List.mem_cons_self
  · obtain ⟨f, rfl⟩ := hsrc.resolve_left hany
    obtain ⟨-, -, ⟨f', prev, hchoose, hnow⟩ | ⟨recvfrom, -, hblock⟩⟩ := msgReceive_cases hok
    · unfold choose at hchoose
      rw [if_neg hany] at hchoose
      obtain ⟨f₁, hf₁, ⟨-, hc⟩ | ⟨hsends, found, prev', hfind, -, hc⟩⟩ :=
        chooseSpecific_cases hchoose
      · cases hc
      · cases hc
        rw [found_eq h.pid hf₁ (findSender_pid hfind)] at hnow
        rw [pid2proc_val] at hf₁
        obtain rfl : f = f₁ := Except.ok.inj hf₁
        obtain ⟨hqueued, m, rest, hqueue, hcopied⟩ :=
          h.receiveHead (hkeeps hany f rfl hsends) hnow
        refine ⟨hqueued, .inr ⟨f, m, ?_, hcopied⟩⟩
        rw [hqueue]
        exact List.mem_cons_self
    · obtain ⟨hqueued, hlog⟩ := h.blockReceiver hblock
      exact ⟨hqueued, .inl hlog⟩

end Kernel

def Turn.accepts (s d : Slot) (msg : Word) (t : Turn) : Bool :=
  match t.move with
  | .send dest m _ => t.caller == s && dest == d.val && m == msg && t.status == 0
  | _ => false

namespace Kernel

variable {k k' : Kernel} {x : ReadX}

theorem Queued.named (h : k.Queued) (c : Slot) (msg : Word) : (k.named c msg).Queued :=
  h.same ⟨fun _ => rfl, fun _ => rfl, fun _ => rfl, fun _ => rfl, fun _ _ => rfl, fun _ => id,
    fun _ => .inl, fun _ => rfl⟩ h.current

private theorem Queued.caller_eq (h : k.Queued) {c c' : Slot} (hc : k.procRunning = c.val)
    (hc' : pid2proc k.procRunning = .ok c') : c' = c ∧ (k.proc c).pid ≠ -1 := by
  rw [hc, pid2proc_val] at hc'
  obtain ⟨c₁, hc₁, hlive⟩ := h.current
  obtain rfl : c₁ = c := Fin.ext (hc₁.symm.trans hc)
  refine ⟨(Except.ok.inj hc').symm, ?_⟩
  omega

theorem turn_eq_ok {t : Turn} (hok : k.turn x t = .ok k') :
    ∃ r, k.move x t.move = .ok (r, k') := by
  obtain ⟨⟨r, k₁⟩, hmove, h⟩ := bind_eq_ok.mp hok
  cases pure_eq_ok.mp h
  exact ⟨r, hmove⟩

private theorem Legal.status_eq {t : Turn} {r : Int} (hlegal : k.Legal x t)
    (hmove : k.move x t.move = .ok (r, k')) : t.status = r := by
  have hstatus := hlegal.2.1
  rw [hmove] at hstatus
  exact (Except.ok.inj hstatus).symm

theorem move_send {dest r : Int} {msg : Word} {nonblocking : Bool}
    (hmove : k.move x (.send dest msg nonblocking) = .ok (r, k')) :
    ∃ c, pid2proc k.procRunning = .ok c ∧
      (k.named c msg).msgSend c dest msg nonblocking = .ok (r, k') := by
  cases nonblocking with
  | false =>
      obtain ⟨c, hc, hcall⟩ := sendrec_cases hmove
      rw [if_pos rfl] at hcall
      exact ⟨c, hc, hcall⟩
  | true =>
      obtain ⟨c, hc, hcall⟩ := sendrecNonblock_cases hmove
      rw [if_pos rfl] at hcall
      exact ⟨c, hc, hcall⟩

theorem move_receive {src r : Int} {msg : Word}
    (hmove : k.move x (.receive src msg) = .ok (r, k')) :
    ∃ c, pid2proc k.procRunning = .ok c ∧
      (k.named c msg).msgReceive c src msg = .ok (r, k') := by
  obtain ⟨c, hc, hcall⟩ := sendrec_cases hmove
  rw [if_neg (by decide), if_pos rfl] at hcall
  exact ⟨c, hc, hcall⟩

private theorem Queued.turn_send {t : Turn} {d : Slot} {msg : Word} {nonblocking : Bool}
    (h : k.Queued)
    (hlegal : k.Legal x t) (hkeeps : k.Keeps t) (hmove : t.move = .send d.val msg nonblocking)
    (hok : k.turn x t = .ok k') :
    k'.Queued ∧
      (t.status = 0 ∧ (k'.log = k.log ++ [.sent t.caller d msg] ∧
            k'.mem = copyMessage (k.named t.caller msg).mem (k.proc d).pMsg msg ∨
          k'.log = k.log ++ [.blocked t.caller d msg]) ∨
        t.status = -1 ∧ k'.log = k.log) := by
  obtain ⟨r, hr⟩ := turn_eq_ok hok
  rw [hlegal.status_eq hr]
  obtain ⟨hrunning, -, hmay⟩ := hlegal
  obtain ⟨caller, m, status⟩ := t
  dsimp only at hrunning hmove hmay hr ⊢
  subst hmove
  obtain ⟨-, d', hne, hd, hlive⟩ := hmay
  obtain rfl := val_inj hd
  obtain ⟨c, hc, hsend⟩ := move_send hr
  obtain ⟨rfl, hpid⟩ := h.caller_eq hrunning hc
  exact (h.named c msg).send (Ne.symm hne) hlive hpid (hkeeps d rfl) hsend

private theorem Queued.turn_receive {t : Turn} {src : Int} {msg : Word} (h : k.Queued)
    (hlegal : k.Legal x t) (hkeeps : k.Keeps t) (hmove : t.move = .receive src msg)
    (hok : k.turn x t = .ok k') :
    k'.Queued ∧ (k'.log = k.log ∨ ∃ s m, (s, m) ∈ blockedOn t.caller k.log ∧
      k'.log = k.log ++ [.received s t.caller m] ∧
        k'.mem = copyMessage (k.named t.caller msg).mem msg m) := by
  obtain ⟨r, hr⟩ := turn_eq_ok hok
  obtain ⟨hrunning, -, hmay⟩ := hlegal
  obtain ⟨caller, m, status⟩ := t
  dsimp only at hrunning hmove hmay hr ⊢
  subst hmove
  obtain ⟨c, hc, hreceive⟩ := move_receive hr
  obtain ⟨rfl, -⟩ := h.caller_eq hrunning hc
  have hsrc : src = IPC_TARGET_ANY ∨ ∃ f : Slot, src = f.val :=
    hmay.2.imp id fun ⟨f, _, hf, _⟩ => ⟨f, hf⟩
  exact (h.named c msg).receive hsrc hkeeps hreceive

/-- One turn keeps the queues and accounts for the message it accepts. -/
theorem Queued.turn {t : Turn} (h : k.Queued) (hlegal : k.Legal x t) (hkeeps : k.Keeps t)
    (hok : k.turn x t = .ok k') :
    k'.Queued ∧ ∀ s d msg, balance s d msg k'.log =
      balance s d msg k.log + if t.accepts s d msg then 1 else 0 := by
  obtain ⟨r, hmove⟩ := turn_eq_ok hok
  obtain ⟨-, -, hmay⟩ := id hlegal
  obtain ⟨caller, m, status⟩ := t
  dsimp only at hmove hmay
  cases m with
  | send dest msg nonblocking =>
      obtain ⟨-, d, -, rfl, -⟩ := hmay
      obtain ⟨hqueued, hcase⟩ := h.turn_send hlegal hkeeps rfl hok
      refine ⟨hqueued, fun s e m => ?_⟩
      have haccepts : Turn.accepts s e m ⟨caller, .send d.val msg nonblocking, status⟩ = true ↔
          (caller = s ∧ d = e ∧ msg = m) ∧ status = 0 := by
        simp only [Turn.accepts, Bool.and_eq_true, beq_iff_eq]
        constructor
        · rintro ⟨⟨⟨hs, hd⟩, hm⟩, hst⟩
          exact ⟨⟨hs, val_inj hd, hm⟩, hst⟩
        · rintro ⟨⟨hs, rfl, hm⟩, hst⟩
          exact ⟨⟨⟨hs, rfl⟩, hm⟩, hst⟩
      rcases hcase with ⟨rfl, hlog⟩ | ⟨rfl, hlog⟩
      · simp only [haccepts, and_true]
        rcases hlog with ⟨hlog, -⟩ | hlog
        · rw [hlog, balance_sent]
        · rw [hlog, balance_blocked]
      · rw [if_neg (by rw [haccepts]; rintro ⟨-, h⟩; cases h), hlog]
        rfl
  | receive src msg =>
      obtain ⟨hqueued, hcase⟩ := h.turn_receive hlegal hkeeps rfl hok
      refine ⟨hqueued, fun s e m => ?_⟩
      rcases hcase with hlog | ⟨s', m', hmem, hlog, -⟩
      · rw [hlog]
        rfl
      · rw [hlog, balance_received hmem]
        rfl
  | schedule =>
      obtain ⟨k₁, hschedule, hk⟩ := bind_eq_ok.mp hmove
      cases pure_eq_ok.mp hk
      obtain ⟨hqueued, hlog⟩ := h.schedule hschedule
      exact ⟨hqueued, fun s d m => by rw [hlog]; rfl⟩
  | execute t =>
      cases hmove
      refine ⟨h.same ?_ h.current, fun s d m => rfl⟩
      exact ⟨fun _ => rfl, fun _ => rfl, fun _ => rfl, fun _ => rfl, fun _ _ => rfl, fun _ => id,
        fun _ => .inl, fun _ => rfl⟩
  | create entry stack =>
      obtain ⟨k₁, hnew, hk⟩ := bind_eq_ok.mp hmove
      cases pure_eq_ok.mp hk
      obtain ⟨i, -, hfree, f, rfl, hf⟩ := newProcess_cases hnew
      obtain ⟨hpid, hready, hidle, hqueue, hnext⟩ := hf (k.proc i)
      exact ⟨h.fill hfree hpid hready hidle.pSendto hqueue hnext, fun s d m => rfl⟩
  | register i pc sp =>
      cases hmove
      have hidle := h.free i hmay
      have hempty := h.linked i
      rw [h.blockedOn_free hmay] at hempty
      exact ⟨h.fill hmay rfl rfl hidle hempty.head_eq_none (h.unlinked i hidle), fun s d m => rfl⟩

/-! ## Runs -/

private theorem queued_cleared (k : Kernel) (hlog : k.log = []) (image : Image) :
    (k.procManagerClear.setProc 1
      (Process.register 1 image.proc1 0x2010fffc PROC_STATE_RUNNING)).Queued := by
  have hproc : ∀ i, (k.procManagerClear.setProc 1
      (Process.register 1 image.proc1 0x2010fffc PROC_STATE_RUNNING)).proc i =
        if i = 1 then (k.procManagerClear.proc 1).register 1 image.proc1 0x2010fffc
          PROC_STATE_RUNNING else k.procManagerClear.proc i := fun i => proc_setProc _ _ _ _
  have hlog' : (k.procManagerClear.setProc 1
      (Process.register 1 image.proc1 0x2010fffc PROC_STATE_RUNNING)).log = [] := hlog
  obtain ⟨k₁, hk₁⟩ : ∃ k₁, k₁ = k.procManagerClear.setProc 1
      (Process.register 1 image.proc1 0x2010fffc PROC_STATE_RUNNING) := ⟨_, rfl⟩
  rw [← hk₁] at hproc hlog' ⊢
  have hsend : ∀ i, (k₁.proc i).pSendto = IPC_TARGET_NONE := by
    intro i
    rw [hproc]
    split_ifs <;> rfl
  have hstate : ∀ i, (k₁.proc i).state = PROC_STATE_RUNNING ∨
      (k₁.proc i).state = PROC_STATE_UNDEF := by
    intro i
    rw [hproc]
    split_ifs
    · exact .inl rfl
    · exact .inr rfl
  have hfirst : (k₁.proc 1).pid = 1 := by
    rw [hproc]
    rfl
  constructor
  case pid =>
    intro i
    rw [hproc]
    split_ifs with hi
    · exact .inr (by rw [hi]; rfl)
    · exact .inl rfl
  case first => exact hfirst
  case current => exact ⟨1, by rw [hk₁]; rfl, hfirst⟩
  case linked =>
    intro d
    have hqueue : (k₁.proc d).queueSending = none := by
      rw [hproc]
      split_ifs <;> rfl
    rw [hqueue, hlog']
    exact .nil
  case pending =>
    intro s d m
    rw [hlog', blockedOn_nil, hsend]
    constructor
    · rintro ⟨⟩
    · rintro ⟨hd, -⟩
      exact absurd hd.symm (val_ne_none d)
  case live =>
    intro s d hs
    exact absurd (hs.symm.trans (hsend s)) (val_ne_none d)
  case sendto => exact fun s => .inl (hsend s)
  case sending =>
    intro s hs
    rcases hstate s with h | h <;> exact absurd (h.symm.trans hs) (by decide)
  case receiving => exact fun s _ => hsend s
  case unlinked =>
    intro s _
    unfold next
    rw [hproc]
    split_ifs <;> rfl
  case free => exact fun i _ => hsend i

theorem queued_procManagerInit (k : Kernel) (hlog : k.log = []) (image : Image) :
    (k.procManagerInit image).Queued := by
  have hsecond := (queued_cleared k hlog image).fill (i := 2)
    (f := Process.register 2 image.proc2 0x2010effc PROC_STATE_READY) rfl rfl rfl rfl rfl rfl
  exact hsecond.fill (i := 3)
    (f := Process.register 3 image.proc3 0x2010dffc PROC_STATE_READY) rfl rfl rfl rfl rfl rfl

def accepted (s d : Slot) (msg : Word) (turns : List Turn) : Nat :=
  turns.countP (Turn.accepts s d msg)

/--
Every accepted message was copied or waits in the queue, and queues are served in order.  A
message is copied to where its receiver has room for it.
-/
structure Delivered (x : ReadX) (turns : List Turn) (k : Kernel) : Prop where
  queue : ∀ d, Linked k.next (k.proc d).queueSending ((blockedOn d k.log).map Prod.fst)
  reachable : ∀ s d, (k.proc s).state = PROC_STATE_SENDING →
    (k.proc s).pSendto = (k.proc d).pid → (s, (k.proc s).pMsg) ∈ blockedOn d k.log
  once : ∀ s d msg,
    copies s d msg k.log + (blockedOn d k.log).count (s, msg) = accepted s d msg turns
  distinct : ∀ d, ((blockedOn d k.log).map Prod.fst).Nodup
  inOrder : ∀ (t : Turn) (msg : Word) (k' : Kernel), t.move = .receive IPC_TARGET_ANY msg →
    k.Legal x t → k.turn x t = .ok k' →
      match blockedOn t.caller k.log with
      | [] => k'.log = k.log ∧ (k'.proc t.caller).state = PROC_STATE_RECEIVING
      | (s, m) :: _ => k'.log = k.log ++ [.received s t.caller m] ∧
          k'.mem = copyMessage (k.named t.caller msg).mem msg m
  sent : ∀ (t : Turn) (d : Slot) (msg : Word) (nonblocking : Bool) (k' : Kernel),
    t.move = .send d.val msg nonblocking → k.Legal x t → k.Keeps t → k.turn x t = .ok k' →
      k'.log = k.log ++ [.sent t.caller d msg] →
        k'.mem = copyMessage (k.named t.caller msg).mem (k.proc d).pMsg msg
  received : ∀ (t : Turn) (src : Int) (s : Slot) (msg m : Word) (k' : Kernel),
    t.move = .receive src msg → k.Legal x t → k.Keeps t → k.turn x t = .ok k' →
      k'.log = k.log ++ [.received s t.caller m] →
        k'.mem = copyMessage (k.named t.caller msg).mem msg m

theorem Queued.delivered {turns : List Turn} (h : k.Queued)
    (hbalance : ∀ s d msg, balance s d msg k.log = accepted s d msg turns) :
    k.Delivered x turns where
  queue := h.linked
  reachable s d hs hd := by
    rcases h.sendto s with hnone | ⟨e, he⟩
    · exact absurd hnone (h.sending s hs)
    · have hlive := h.live s e he
      -- The pid of `d` is a slot number, so `d` is that slot.
      obtain rfl : d = e := by
        rcases h.pid d with hpid | hpid
        · rw [he, hpid] at hd
          omega
        · exact val_inj ((hpid.symm.trans hd.symm).trans he)
      exact (h.pending s d _).mpr ⟨he, rfl⟩
  once := hbalance
  distinct d := (h.linked d).nodup
  inOrder t msg k' hmove hlegal hok := by
    obtain ⟨r, hr⟩ := turn_eq_ok hok
    obtain ⟨hrunning, -, -⟩ := hlegal
    rw [hmove] at hr
    obtain ⟨c, hc, hreceive⟩ := move_receive hr
    obtain ⟨rfl, -⟩ := h.caller_eq hrunning hc
    exact ((h.named t.caller msg).receiveAny hreceive).2
  sent t d msg nonblocking k' hmove hlegal hkeeps hok hlog := by
    obtain ⟨-, ⟨-, ⟨-, hcopied⟩ | hblocked⟩ | ⟨-, hsame⟩⟩ := h.turn_send hlegal hkeeps hmove hok
    · exact hcopied
    · rw [hlog] at hblocked
      simp at hblocked
    · rw [hlog] at hsame
      simp at hsame
  received t src s msg m k' hmove hlegal hkeeps hok hlog := by
    obtain ⟨-, hsame | ⟨s', m', -, hlog', hcopied⟩⟩ := h.turn_receive hlegal hkeeps hmove hok
    · rw [hlog] at hsame
      simp at hsame
    · rw [hlog] at hlog'
      obtain ⟨-, rfl⟩ : s = s' ∧ m = m' := by simpa using hlog'
      exact hcopied

theorem delivered_of_keeps {x : ReadX} {image : Image} {turns : List Turn} {k : Kernel}
    (h : Run (Kernel.turn x) (Initialised image) (fun k t => k.Legal x t ∧ k.Keeps t) turns k) :
    k.Delivered x turns := by
  have hinv : k.Queued ∧ ∀ s d msg, balance s d msg k.log = accepted s d msg turns := by
    refine Run.invariant
      (fun turns k => k.Queued ∧ ∀ s d msg, balance s d msg k.log = accepted s d msg turns)
      ?_ ?_ h
    · rintro _ ⟨k₀, hlog, rfl⟩
      refine ⟨queued_procManagerInit k₀ hlog image, fun s d msg => ?_⟩
      change balance s d msg k₀.log = _
      rw [hlog]
      rfl
    · rintro turns k t k' ⟨hqueued, hbalance⟩ ⟨hlegal, hkeeps⟩ hok
      obtain ⟨hqueued', hturn⟩ := hqueued.turn hlegal hkeeps hok
      refine ⟨hqueued', fun s d msg => ?_⟩
      rw [hturn, hbalance]
      unfold accepted
      rw [List.countP_append, List.countP_singleton]
  exact hinv.1.delivered hinv.2

/-! ### Concrete runs -/

instance (x : ReadX) (k : Kernel) (t : Turn) : Decidable (k.Legal x t) :=
  inferInstanceAs (Decidable (_ ∧ _ ∧ _))

instance (k : Kernel) : (t : Turn) → Decidable (k.Keeps t)
  | ⟨_, .send _ _ _, _⟩ => inferInstanceAs (Decidable (∀ _ : Slot, _ → _ → _ → (_ ∧ _)))
  | ⟨_, .receive _ _, _⟩ => inferInstanceAs (Decidable (_ → ∀ _ : Slot, _ → _ → _))
  | ⟨_, .schedule, _⟩ | ⟨_, .execute _, _⟩ | ⟨_, .create _ _, _⟩ | ⟨_, .register _ _ _, _⟩ =>
      isTrue trivial

def messageOf (n : Nat) : Word := 0x20200000 + BitVec.ofNat 32 (64 * n)

/-- Pid 5 is registered and pid 1 dispatched; then pids 1, 2, .., n send to pid 5 in turn. -/
def sendingToFive (n : Nat) : List Turn :=
  [⟨1, .register 5 0x20004000 0x20100ffc, 0⟩, ⟨1, .schedule, 0⟩] ++
    (List.range n).flatMap fun i =>
      [⟨Fin.ofNat _ (i + 1), .send 5 (messageOf (i + 1)) false, 0⟩,
        ⟨Fin.ofNat _ (i + 1), .schedule, 0⟩]

theorem delivered_of_keeps_two :
    ∃ k, Run (Kernel.turn tiedHigh) (Initialised someImage)
        (fun k t => k.Legal tiedHigh t ∧ k.Keeps t) (sendingToFive 2) k ∧
      k.Delivered tiedHigh (sendingToFive 2) := by
  have hrun : (follow (Kernel.turn tiedHigh) (fun k t => decide (k.Legal tiedHigh t ∧ k.Keeps t))
      ((default : Kernel).procManagerInit someImage) (sendingToFive 2)).isSome = true := by
    decide +kernel
  obtain ⟨k, hk⟩ := Option.isSome_iff_exists.mp hrun
  have hfollow : Run (Kernel.turn tiedHigh) (Initialised someImage)
      (fun k t => k.Legal tiedHigh t ∧ k.Keeps t) (sendingToFive 2) k :=
    Run.of_follow (fun _ _ h => of_decide_eq_true h) ⟨default, rfl, rfl⟩ hk
  exact ⟨k, hfollow, delivered_of_keeps hfollow⟩

/-- The third sender takes the second one's place: pid 2 sends to pid 5 and is in no queue. -/
theorem second_sender_lost :
    ∃ k, Run (Kernel.turn tiedHigh) (Initialised someImage) (Kernel.Legal tiedHigh)
        (sendingToFive 3) k ∧
      (k.proc 2).state = PROC_STATE_SENDING ∧ (k.proc 2).pSendto = (k.proc 5).pid ∧
      ∀ queue, Linked k.next (k.proc 5).queueSending queue → (2 : Slot) ∉ queue := by
  have hrun : (follow (Kernel.turn tiedHigh) (fun k t => decide (k.Legal tiedHigh t))
      ((default : Kernel).procManagerInit someImage) (sendingToFive 3)).map
        (fun k => (((k.proc 2).state, (k.proc 2).pSendto, (k.proc 5).pid),
          ((k.proc 5).queueSending, k.next 1, k.next 3))) =
      some ((PROC_STATE_SENDING, 5, 5), (some 1, some 3, none)) := by
    decide +kernel
  obtain ⟨k, hk, hfields⟩ := Option.map_eq_some_iff.mp hrun
  simp only [Prod.mk.injEq] at hfields
  obtain ⟨⟨hstate, hsend, hpid⟩, hhead, hfirst, hthird⟩ := hfields
  refine ⟨k, Run.of_follow (fun _ _ h => of_decide_eq_true h) ⟨default, rfl, rfl⟩ hk, hstate,
    hsend.trans hpid.symm, fun queue hqueue => ?_⟩
  have hlinked : Linked k.next (k.proc 5).queueSending [1, 3] := by
    rw [hhead]
    refine .cons ?_
    rw [hfirst]
    refine .cons ?_
    rw [hthird]
    exact .nil
  rw [hqueue.unique hlinked]
  decide

end Kernel

end PComputer.PseudOS
