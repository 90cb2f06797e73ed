import PComputer.Kernel.QueueEffects

/-!
# Which receives receive

`syscall_handler` chooses the wrapper by a field of the caller's buffer.  A receive
into a buffer that holds `OS_send_nonblk` there goes to the wrapper that can only
send; every other receive takes a message or blocks, unless an assertion stops it.
-/

namespace PComputer.PseudOS

open PComputer.Foundation PComputer.Rtl

namespace Kernel

variable {k k' : Kernel} {x : ReadX} {c f : Slot} {src : Int} {msg : Word}

/-! ## Between two events -/

/-- What holds in every run: the pids are the slots, and the running process is RUNNING. -/
structure Dispatched (k : Kernel) (c : Slot) : Prop where
  pid : ∀ i, (k.proc i).pid = -1 ∨ (k.proc i).pid = i.val
  procRunning : k.procRunning = c.val
  live : (k.proc c).pid = c.val
  running : (k.proc c).state = PROC_STATE_RUNNING
  first : k.doStart = true → c = 1

private theorem dispatched_schedule (hpid : ∀ i, (k.proc i).pid = -1 ∨ (k.proc i).pid = i.val)
    (hrunning : k.procRunning = c.val) (hlive : (k.proc c).pid = c.val)
    (hfirst : k.doStart = true → c = 1) (hok : k.schedule x = .ok k') :
    ∃ t, k'.Dispatched t := by
  have hdispatch : ∀ (k₁ : Kernel) (t : Slot), (∀ i, (k₁.proc i).pid = (k.proc i).pid) →
      (k.proc t).pid = t.val → k₁.doStart = false → (k₁.dispatch t).Dispatched t := by
    intro k₁ t hsame ht hstart
    have hpid₁ : ∀ i, ((k₁.dispatch t).proc i).pid = (k.proc i).pid := by
      intro i
      rw [proc_dispatch]
      split_ifs with hi
      · rw [hi]
        exact hsame t
      · exact hsame i
    refine ⟨fun i => ?_, ?_, (hpid₁ t).trans ht, ?_, fun h => ?_⟩
    · rw [hpid₁]
      exact hpid i
    · rw [procRunning_dispatch, hsame, ht]
      have hlt : t.val < 64 := t.isLt
      omega
    · rw [proc_dispatch, if_pos rfl]
    · change k₁.doStart = true at h
      rw [hstart] at h
      cases h
  rcases schedule_cases hok with ⟨hstart, k₁, hproc, hstart₁, -, rfl⟩ |
    ⟨hstart, c', t, hc', ht, rfl⟩
  · obtain rfl := hfirst hstart
    exact ⟨1, hdispatch k₁ 1 (fun i => by rw [hproc]) hlive hstart₁⟩
  · refine ⟨t, hdispatch _ t (fun i => ?_) ?_ hstart⟩
    · rw [proc_suspend]
      by_cases hi : i = c'
      · rw [if_pos hi, hi]
      · rw [if_neg hi]
    · rcases procGetnext_cases k with ⟨i, -, hready, hget⟩ | ⟨-, hget⟩
      · rw [hget, pid2proc_val] at ht
        obtain rfl : i = t := Except.ok.inj ht
        exact (hpid i).resolve_left (isReady_eq_true.mp hready).1
      · rw [hget, hrunning, pid2proc_val] at ht
        obtain rfl : c = t := Except.ok.inj ht
        exact hlive

theorem Dispatched.of_table (h : k.Dispatched c) (htable : k'.procmanager = k.procmanager) :
    k'.Dispatched c := by
  have hproc : k'.proc = k.proc := by
    unfold proc
    rw [htable]
  refine ⟨fun i => ?_, (congrArg ProcManager.procRunning htable).trans h.procRunning, ?_, ?_,
    fun hs => h.first ((congrArg ProcManager.doStart htable).symm.trans hs)⟩ <;> rw [hproc]
  · exact h.pid i
  · exact h.live
  · exact h.running

private theorem frame_syscallIpc (hok : k.syscallIpc x = .ok k') :
    (∀ i, (k'.proc i).pid = (k.proc i).pid) ∧ k'.procRunning = k.procRunning ∧
      k'.doStart = k.doStart := by
  obtain ⟨mem, hcases⟩ := syscallIpc_cases hok
  cases hreq : k.requested with
  | none =>
      rw [hreq] at hcases
      dsimp only at hcases
      subst hcases
      exact ⟨fun _ => rfl, rfl, rfl⟩
  | some call =>
      rw [hreq] at hcases
      obtain ⟨c, r, -, hcall⟩ := hcases
      have hframe := call_frame hcall
      exact ⟨hframe.pid, hframe.procRunning, hframe.doStart⟩

theorem Dispatched.step {e : Event} (h : k.Dispatched c) (hok : k.step x e = .ok k') :
    ∃ t, k'.Dispatched t := by
  cases e with
  | ecall t =>
      have htrapped : (k.trapped t).Dispatched c := h.of_table rfl
      obtain ⟨k₁, hipc, hschedule⟩ := bind_eq_ok.mp hok
      obtain ⟨hpid, hrunning, hstart⟩ := frame_syscallIpc hipc
      refine dispatched_schedule (c := c) (fun i => ?_) (hrunning.trans htrapped.procRunning)
        ((hpid c).trans htrapped.live) (fun hs => htrapped.first (hstart ▸ hs)) hschedule
      rw [hpid]
      exact htrapped.pid i
  | tick t =>
      change (if (k.ticks + 1) % 5 = 0 then
        Kernel.schedule x { k.trapped t with ticks := k.ticks + 1 } else _) = _ at hok
      have hticked : ({ k.trapped t with ticks := k.ticks + 1 } : Kernel).Dispatched c :=
        h.of_table rfl
      split_ifs at hok
      · exact dispatched_schedule hticked.pid hticked.procRunning hticked.live hticked.first hok
      · cases hok
        exact ⟨c, hticked⟩
  | create entry stack =>
      obtain ⟨i, -, hfree, f, rfl, hf⟩ := newProcess_cases hok
      have hne : c ≠ i := by
        rintro rfl
        have hlive := h.live
        omega
      refine ⟨c, fun j => ?_, h.procRunning, ?_, ?_, h.first⟩
      · rw [proc_setProc]
        split_ifs with hj
        · rw [hj]
          exact .inr (hf (k.proc i)).1
        · exact h.pid j
      · rw [proc_setProc_ne hne]
        exact h.live
      · rw [proc_setProc_ne hne]
        exact h.running

private theorem dispatched_of_run {image : Image} {events : List Event}
    (h : Run (Kernel.step x) (Started image) (fun k e => k.enabled e = true) events k) :
    ∃ c, k.Dispatched c := by
  refine Run.invariant (fun _ k => ∃ c, k.Dispatched c) ?_ ?_ h
  · rintro _ ⟨k₀, -, rfl⟩
    obtain ⟨c, hcurrent, hrunning, hfirst⟩ := steady_prepareProcesses image k₀
    exact ⟨c, hcurrent.pid, hcurrent.procRunning, hcurrent.live, hrunning, hfirst⟩
  · rintro _ s e s' ⟨c, hc⟩ - hok
    exact hc.step hok

/-! ## A receive of the running process -/

/-- Within `n` links from `start` comes the end, or `f` before that. -/
def WalkEnds (k : Kernel) (f : Slot) (n : Nat) (start : Option Slot) : Prop :=
  ∃ m ≤ n, Nat.iterate (·.bind k.next) m start = none ∨
    m < n ∧ Nat.iterate (·.bind k.next) m start = some f

def Offers (k : Kernel) (c : Slot) (src : Int) (f : Slot) : Prop :=
  src = IPC_TARGET_ANY ∧ (k.proc c).queueSending = some f ∧ (k.proc f).pSendto = (k.proc c).pid ∨
    src = f.val ∧ k.sendsTo f c = true ∧ (k.proc c).queueSending ≠ none ∧
      k.WalkEnds f PROC_NUM_MAX (k.proc c).queueSending

/-- The states that the assertions of `_msg_receive` let through. -/
def CanReceive (k : Kernel) (c : Slot) (src : Int) : Prop :=
  (k.callBlocks c (.receive src 0) = true ∧ (k.proc c).pSendto = IPC_TARGET_NONE ∧ k.OtherReady) ∨
    ∃ f, k.Offers c src f ∧ (k.proc c).Idle ∧ (k.proc f).pMsg ≠ 0 ∧
      (k.proc f).pRecvfrom = IPC_TARGET_NONE

/-- A message was copied to the buffer, or the caller waits for one. -/
def Receives (k k' : Kernel) (c : Slot) (msg : Word) : Prop :=
  (∃ f, k'.log = k.log ++ [.received f c (k.proc f).pMsg] ∧
    k'.mem = copyMessage (setMessageSource k.mem msg (k.proc c).pid) msg (k.proc f).pMsg) ∨
      (k'.proc c).state = PROC_STATE_RECEIVING

/-! ### The walk along the queue -/

private theorem succeeds_findSender (hpid : ∀ i, (k.proc i).pid = -1 ∨ (k.proc i).pid = i.val)
    (hf : (k.proc f).pid = f.val) (n : Nat) (start prev : Option Slot) :
    Succeeds (k.findSender f.val n start prev) ↔ k.WalkEnds f n start := by
  induction n generalizing start prev with
  | zero =>
      cases start with
      | none => exact iff_of_true ⟨_, rfl⟩ ⟨0, le_rfl, .inl rfl⟩
      | some p =>
          constructor
          · rintro ⟨_, h⟩
            cases h
          · rintro ⟨m, hm, hend⟩
            obtain rfl : m = 0 := Nat.le_zero.mp hm
            rcases hend with hnone | ⟨hlt, -⟩
            · cases hnone
            · omega
  | succ n ih =>
      cases start with
      | none => exact iff_of_true ⟨_, rfl⟩ ⟨0, by omega, .inl rfl⟩
      | some p =>
          unfold findSender
          by_cases hp : p = f
          · rw [if_pos (hp ▸ hf)]
            exact iff_of_true ⟨_, rfl⟩ ⟨0, by omega, .inr ⟨by omega, congrArg some hp⟩⟩
          · have hne : (k.proc p).pid ≠ f.val := by
              rcases hpid p with hfree | hlive
              · omega
              · rw [hlive]
                exact fun heq => hp (val_inj heq)
            rw [if_neg hne, ih]
            constructor
            · rintro ⟨m, hm, hend⟩
              exact ⟨m + 1, by omega, hend.imp_right (And.imp_left fun hlt => by omega)⟩
            · rintro ⟨m, hm, hend⟩
              cases m with
              | zero =>
                  rcases hend with hnone | ⟨-, heq⟩
                  · cases hnone
                  · exact absurd (Option.some.inj heq) hp
              | succ m => exact ⟨m, by omega, hend.imp_right (And.imp_left fun hlt => by omega)⟩

private theorem findSender_last {n : Nat} {start found last : Option Slot} {q : Slot}
    (hok : k.findSender src n start (some q) = .ok (found, last)) : last ≠ none := by
  induction n generalizing start q with
  | zero =>
      cases start with
      | none =>
          cases hok
          exact Option.some_ne_none _
      | some p => cases hok
  | succ n ih =>
      cases start with
      | none =>
          cases hok
          exact Option.some_ne_none _
      | some p =>
          unfold findSender at hok
          split_ifs at hok
          · cases hok
            exact Option.some_ne_none _
          · exact ih hok

private theorem findSender_head (hpid : ∀ i, (k.proc i).pid = -1 ∨ (k.proc i).pid = i.val)
    (hf : (k.proc f).pid = f.val) {n : Nat} {start found last : Option Slot}
    (hstart : start ≠ none) (hok : k.findSender f.val n start none = .ok (found, last)) :
    start = some f ↔ last = none := by
  cases n with
  | zero =>
      cases start with
      | none => exact absurd rfl hstart
      | some p => cases hok
  | succ n =>
      cases start with
      | none => exact absurd rfl hstart
      | some p =>
          unfold findSender at hok
          split_ifs at hok with hp
          · cases hok
            rcases hpid p with hfree | hlive
            · rw [hfree] at hp
              omega
            · rw [val_inj (hlive.symm.trans hp)]
              exact iff_of_true rfl rfl
          · refine iff_of_false (fun heq => hp ?_) (findSender_last hok)
            rw [Option.some.inj heq, hf]

/-! ### Taking or blocking -/

theorem Dispatched.choose_take (h : k.Dispatched c) {prev : Option Slot}
    (hsrc : src = IPC_TARGET_ANY ∨ k.LivePeer c src) (hok : k.choose c src = .ok (.take f prev)) :
    k.Offers c src f ∧ (k.proc c).Idle ∧ (k.proc f).pRecvfrom = IPC_TARGET_NONE ∧
      ((k.proc c).queueSending = some f ↔ prev = none) := by
  unfold choose at hok
  split_ifs at hok with hany
  · unfold chooseFirst at hok
    split at hok
    · cases hok
    · next f' hqueue =>
      simp only [bind_eq_ok, assert_eq_ok, pure_eq_ok, beq_iff_eq, Choice.take.injEq] at hok
      obtain ⟨-, hmsg, -, hrecv, -, hsend, -, -, -, hrecv', -, hsend', rfl, rfl⟩ := hok
      exact ⟨.inl ⟨hany, hqueue, hsend'⟩, ⟨hmsg, hsend, hrecv⟩, hrecv', iff_of_true hqueue rfl⟩
  · obtain ⟨d, -, rfl, hlive⟩ := hsrc.resolve_left hany
    unfold chooseSpecific at hok
    simp only [pid2proc_val, bind_eq_ok, Except.ok.injEq, exists_eq_left'] at hok
    split_ifs at hok with hsends
    · simp only [bind_eq_ok, assert_eq_ok, pure_eq_ok, beq_iff_eq, Choice.take.injEq,
        Prod.exists] at hok
      obtain ⟨-, hsome, found, last, hfind, -, -, -, hmsg, -, hrecv, -, hsend, -, hrecv', hf,
          rfl⟩ :=
        hok
      have hgetD := found_eq h.pid (pid2proc_val d) (findSender_pid hfind)
      rw [hgetD] at hrecv' hf
      subst hf
      have hqueue : (k.proc c).queueSending ≠ none := Option.isSome_iff_ne_none.mp hsome
      exact ⟨.inr ⟨rfl, hsends, hqueue, (succeeds_findSender h.pid hlive _ _ none).mp ⟨_, hfind⟩⟩,
        ⟨hmsg, hsend, hrecv⟩, hrecv', findSender_head h.pid hlive hqueue hfind⟩
    · cases hok

private theorem Dispatched.exists_take (h : k.Dispatched c)
    (hsrc : src = IPC_TARGET_ANY ∨ k.LivePeer c src) (hoffers : k.Offers c src f)
    (hidle : (k.proc c).Idle) (hmsg : (k.proc f).pMsg ≠ 0)
    (hrecv : (k.proc f).pRecvfrom = IPC_TARGET_NONE) :
    ∃ prev, k.choose c src = .ok (.take f prev) ∧
      ((k.proc c).queueSending = some f ↔ prev = none) := by
  have htake : ∃ prev, k.choose c src = .ok (.take f prev) := by
    unfold choose
    rcases hoffers with ⟨hany, hqueue, hsend⟩ | ⟨rfl, hsends, hqueue, hends⟩
    · rw [if_pos hany]
      unfold chooseFirst
      rw [hqueue]
      simp only [bind_eq_ok, assert_eq_ok, pure_eq_ok, beq_iff_eq, bne_iff_ne, ne_eq]
      exact ⟨none, (), hidle.pMsg, (), hidle.pRecvfrom, (), hidle.pSendto, (), hmsg, (), hrecv, (),
        hsend, rfl⟩
    · obtain ⟨d, -, hd, hlive⟩ := hsrc.resolve_left (val_ne_any f)
      obtain rfl := val_inj hd
      obtain ⟨⟨found, last⟩, hfind⟩ :=
        (succeeds_findSender h.pid hlive PROC_NUM_MAX (k.proc c).queueSending none).mpr hends
      have hgetD := found_eq h.pid (pid2proc_val f) (findSender_pid hfind)
      rw [if_neg (val_ne_any f)]
      unfold chooseSpecific
      simp only [pid2proc_val, bind_eq_ok, Except.ok.injEq, exists_eq_left', hsends, if_true,
        assert_eq_ok, beq_iff_eq, pure_eq_ok, Prod.exists]
      exact ⟨last, (), Option.isSome_iff_ne_none.mpr hqueue, found, last, hfind, (), h.running, (),
        hidle.pMsg, (), hidle.pRecvfrom, (), hidle.pSendto, (), by rw [hgetD]; exact hrecv,
        by rw [hgetD]⟩
  obtain ⟨prev, hok⟩ := htake
  exact ⟨prev, hok, (h.choose_take hsrc hok).2.2.2⟩

private theorem exists_block (hpid : ∀ i, (k.proc i).pid = -1 ∨ (k.proc i).pid = i.val)
    (hblocks : k.callBlocks c (.receive src msg) = true) :
    ∃ recvfrom, k.choose c src = .ok (.block recvfrom) ∧ recvfrom ≠ IPC_TARGET_NONE := by
  unfold choose
  simp only [callBlocks] at hblocks
  split_ifs at hblocks ⊢ with hany
  · unfold chooseFirst
    rw [Option.isNone_iff_eq_none.mp hblocks]
    exact ⟨_, rfl, by decide⟩
  · cases hd : pid2proc src with
    | error fault =>
        rw [hd] at hblocks
        cases hblocks
    | ok d =>
        rw [hd] at hblocks
        unfold chooseSpecific
        rw [hd]
        have hsends : k.sendsTo d c = false := by simpa using hblocks
        simp only [bind_eq_ok, Except.ok.injEq, exists_eq_left', hsends, Bool.false_eq_true,
          if_false]
        refine ⟨(k.proc d).pid, rfl, ?_⟩
        rcases hpid d with hfree | hlive
        · rw [hfree]
          decide
        · rw [hlive]
          exact val_ne_none d

private theorem receiveNow_copies {r : Slot} {prev : Option Slot}
    (hok : k.receiveNow r f prev msg = .ok k') :
    k'.log = k.log ++ [.received f r (k.proc f).pMsg] ∧
      k'.mem = copyMessage k.mem msg (k.proc f).pMsg := by
  obtain ⟨-, -, k₁, hk₁, rfl⟩ := receiveNow_cases hok
  have hsame : k₁.log = k.log ∧ k₁.mem = k.mem := by
    rcases unlink_cases hk₁ with ⟨-, -, rfl⟩ | ⟨_, -, -, rfl⟩ <;> exact ⟨rfl, rfl⟩
  exact ⟨congrArg (· ++ [_]) hsame.1, congrArg (copyMessage · msg _) hsame.2⟩

private theorem msgReceive_take {r : Slot} {prev : Option Slot} (hne : (k.proc r).pid ≠ src)
    (hchoose : k.choose r src = .ok (.take f prev)) (hnow : k.receiveNow r f prev msg = .ok k') :
    k.msgReceive r src msg = .ok (0, k') := by
  unfold msgReceive
  simp only [bind_eq_ok, assert_eq_ok, bne_iff_ne, hchoose, Except.ok.injEq, exists_eq_left', hnow]
  exact ⟨(), hne, rfl⟩

private theorem msgReceive_block {r : Slot} {recvfrom : Int} (hne : (k.proc r).pid ≠ src)
    (hchoose : k.choose r src = .ok (.block recvfrom))
    (hblock : k.blockReceiver r recvfrom msg = .ok k') :
    k.msgReceive r src msg = .ok (0, k') := by
  unfold msgReceive
  simp only [bind_eq_ok, assert_eq_ok, bne_iff_ne, hchoose, Except.ok.injEq, exists_eq_left',
    hblock]
  exact ⟨(), hne, rfl⟩

/-! ## The system call -/

private theorem otherReady_setProc (hrunning : k.procRunning = c.val) (g : Process → Process) :
    (k.setProc c g).OtherReady ↔ k.OtherReady := by
  unfold OtherReady
  rw [procRunning_setProc]
  refine exists_congr fun i => and_congr_right fun hi => ?_
  have hic : i ≠ c := by
    rintro rfl
    exact hi hrunning.symm
  unfold isReady
  rw [proc_setProc_ne hic]

private theorem exists_schedule (hrunning : k.procRunning = c.val) (hstart : k.doStart = false) :
    ∃ k', k.schedule x = .ok k' ∧ k'.log = k.log ∧ k'.mem = k.mem ∧
      ((k'.proc c).state = PROC_STATE_RECEIVING ↔
        (k.proc c).state = PROC_STATE_RECEIVING ∧ k.OtherReady) := by
  have hsuspended : (((k.suspend x c).proc c).state = PROC_STATE_RECEIVING ↔
      (k.proc c).state = PROC_STATE_RECEIVING) := by
    rw [proc_suspend, if_pos rfl]
    dsimp only
    split_ifs with hrun
    · rw [hrun]
      exact iff_of_false (by decide) (by decide)
    · rfl
  unfold schedule
  rw [hstart]
  simp only [Bool.false_eq_true, if_false, hrunning, pid2proc_val]
  rcases procGetnext_cases k with ⟨i, hi, hready, hget⟩ | ⟨hno, hget⟩
  · rw [hget, pid2proc_val]
    refine ⟨(k.suspend x c).dispatch i, rfl, rfl, rfl, ?_⟩
    have hne : c ≠ i := by
      rintro rfl
      exact hi hrunning.symm
    rw [proc_dispatch, if_neg hne, hsuspended]
    exact (and_iff_left ⟨i, hi, hready⟩).symm
  · rw [hget, hrunning, pid2proc_val]
    refine ⟨(k.suspend x c).dispatch c, rfl, rfl, rfl, ?_⟩
    rw [proc_dispatch, if_pos rfl]
    refine iff_of_false (by dsimp only; decide) ?_
    rintro ⟨-, i, hi, hready⟩
    rw [hno i hi] at hready
    cases hready

private theorem Dispatched.syscallIpc_receive (h : k.Dispatched c)
    (ha0 : (k.regsSave StackFrame.a0).toInt = IPC_RECEIVE)
    (ha1 : (k.regsSave StackFrame.a1).toInt = src)
    (hsrc : src = IPC_TARGET_ANY ∨ k.LivePeer c src) :
    k.syscallIpc x =
      if messageFunction k.mem (k.regsSave StackFrame.a2) ≠ OS_send_nonblk then
        ((k.skipEcall x).named c (k.regsSave StackFrame.a2)).msgReceive c src
          (k.regsSave StackFrame.a2) >>= fun p => pure p.2
      else .ok ((k.skipEcall x).named c (k.regsSave StackFrame.a2)) := by
  have hdest : ∀ msg, k.destination src msg = src ∧ src ≠ -1 ∧ src ≠ c.val := by
    intro msg
    unfold destination
    rcases hsrc with rfl | ⟨d, hd, rfl, -⟩
    · refine ⟨rfl, by decide, ?_⟩
      unfold IPC_TARGET_ANY
      omega
    · exact ⟨if_neg (by omega), by omega, fun heq => hd (val_inj heq)⟩
  obtain ⟨hsame, hminus, hself⟩ := hdest (k.regsSave StackFrame.a2)
  have hname : (k.skipEcall x).nameCaller src (k.regsSave StackFrame.a2) =
      .ok (c, (k.skipEcall x).named c (k.regsSave StackFrame.a2)) := by
    unfold nameCaller
    refine bind_eq_ok.mpr ⟨c, ?_, bind_eq_ok.mpr ⟨(), ?_, rfl⟩⟩
    · change pid2proc k.procRunning = _
      rw [h.procRunning, pid2proc_val]
    · rw [assert_eq_ok, bne_iff_ne]
      change (k.proc c).pid ≠ src
      rw [h.live]
      exact hself.symm
  rw [syscallIpc_eq]
  dsimp only
  rw [ha0, ha1, hsame, if_neg hminus]
  unfold sendrec sendrecNonblock
  rw [hname]
  rfl

private theorem log_ne_of_copied (h : ∃ f, k'.log = k.log ++ [.received f c (k.proc f).pMsg] ∧
    k'.mem = copyMessage (setMessageSource k.mem msg (k.proc c).pid) msg (k.proc f).pMsg) :
    k'.log ≠ k.log := by
  obtain ⟨f, hlog, -⟩ := h
  rw [hlog]
  exact fun heq => by simpa using congrArg List.length heq

private theorem Dispatched.receives_iff (h : k.Dispatched c) (hstart : k.doStart = false)
    (ha0 : (k.regsSave StackFrame.a0).toInt = IPC_RECEIVE)
    (ha1 : (k.regsSave StackFrame.a1).toInt = src)
    (hsrc : src = IPC_TARGET_ANY ∨ k.LivePeer c src) :
    (∃ k', k.syscallHandler x = .ok k' ∧ k.Receives k' c (k.regsSave StackFrame.a2)) ↔
      messageFunction k.mem (k.regsSave StackFrame.a2) ≠ OS_send_nonblk ∧
        k.regsSave StackFrame.a2 ≠ 0 ∧ k.CanReceive c src := by
  have hipc := h.syscallIpc_receive (x := x) ha0 ha1 hsrc
  obtain ⟨msg, hmsg⟩ : ∃ msg, msg = k.regsSave StackFrame.a2 := ⟨_, rfl⟩
  rw [← hmsg] at hipc ⊢
  obtain ⟨k₁, hk₁⟩ : ∃ k₁, k₁ = (k.skipEcall x).named c msg := ⟨_, rfl⟩
  rw [← hk₁] at hipc
  have hd₁ : k₁.Dispatched c := h.of_table (by rw [hk₁]; rfl)
  have hsrc₁ : src = IPC_TARGET_ANY ∨ k₁.LivePeer c src := by
    rw [hk₁]
    exact hsrc
  have hcan : k₁.CanReceive c src ↔ k.CanReceive c src := by
    rw [hk₁]
    exact Iff.rfl
  have hlog : k₁.log = k.log := by
    rw [hk₁]
    rfl
  have hnamed : k₁.mem = setMessageSource k.mem msg (k.proc c).pid := by
    rw [hk₁]
    rfl
  have hpMsg : ∀ f, (k₁.proc f).pMsg = (k.proc f).pMsg := by
    rw [hk₁]
    exact fun _ => rfl
  rw [← hcan]
  have hne : (k₁.proc c).pid ≠ src := by
    rw [hd₁.live]
    rcases hsrc with rfl | ⟨d, hd, rfl, -⟩
    · exact val_ne_any c
    · exact fun heq => hd (val_inj heq).symm
  unfold syscallHandler
  constructor
  · rintro ⟨k', hok, hreceives⟩
    obtain ⟨k₂, hk₂, hschedule⟩ := bind_eq_ok.mp hok
    obtain ⟨-, hrunning₂, hstart₂⟩ := frame_syscallIpc hk₂
    obtain ⟨k'', hk'', hlog', -, hstate'⟩ := exists_schedule (x := x)
      (hrunning₂.trans h.procRunning) (hstart₂.trans hstart)
    obtain rfl : k'' = k' := Except.ok.inj (hk''.symm.trans hschedule)
    rw [hipc] at hk₂
    split_ifs at hk₂ with hfunction
    · obtain ⟨⟨r, k₃⟩, hrecv, heq⟩ := bind_eq_ok.mp hk₂
      obtain rfl : k₃ = k₂ := pure_eq_ok.mp heq
      obtain ⟨-, -, ⟨f, prev, hchoose, hnow⟩ | ⟨recvfrom, hchoose, hblock⟩⟩ :=
        msgReceive_cases hrecv
      · obtain ⟨hoffers, hidle, hrecv', -⟩ := hd₁.choose_take hsrc₁ hchoose
        obtain ⟨hm, hpm, -⟩ := receiveNow_cases hnow
        exact ⟨hfunction, hm, .inr ⟨f, hoffers, hidle, hpm, hrecv'⟩⟩
      · obtain ⟨-, hm, -, hsend, rfl⟩ := blockReceiver_cases hblock
        refine ⟨hfunction, hm, .inl ⟨choose_block hchoose 0, hsend, ?_⟩⟩
        rcases hreceives with hcopied | hreceiving
        · exact absurd (hlog'.trans hlog) (log_ne_of_copied hcopied)
        · exact (otherReady_setProc hd₁.procRunning _).mp (hstate'.mp hreceiving).2
    · obtain rfl : k₁ = k₂ := Except.ok.inj hk₂
      exfalso
      rcases hreceives with hcopied | hreceiving
      · exact absurd (hlog'.trans hlog) (log_ne_of_copied hcopied)
      · exact receiving_ne_running ((hstate'.mp hreceiving).1.symm.trans hd₁.running)
  · rintro ⟨hfunction, hm, hcan⟩
    rw [if_pos hfunction] at hipc
    have hfinish : ∀ k₂, k₁.msgReceive c src msg = .ok (0, k₂) →
        ∃ k', (k.syscallIpc x >>= fun k => k.schedule x) = .ok k' ∧ k'.log = k₂.log ∧
          k'.mem = k₂.mem ∧ ((k'.proc c).state = PROC_STATE_RECEIVING ↔
            (k₂.proc c).state = PROC_STATE_RECEIVING ∧ k₂.OtherReady) := by
      intro k₂ hk₂
      rw [hk₂] at hipc
      obtain ⟨-, hrunning₂, hstart₂⟩ := frame_syscallIpc hipc
      obtain ⟨k', hk', hrest⟩ := exists_schedule (x := x) (hrunning₂.trans h.procRunning)
        (hstart₂.trans hstart)
      exact ⟨k', bind_eq_ok.mpr ⟨k₂, hipc, hk'⟩, hrest⟩
    rcases hcan with ⟨hblocks, hsend, hready⟩ | ⟨f, hoffers, hidle, hpm, hrecv⟩
    · obtain ⟨recvfrom, hchoose, hsome⟩ := exists_block hd₁.pid hblocks
      obtain ⟨k₂, hblock⟩ : Succeeds (k₁.blockReceiver c recvfrom msg) :=
        (succeeds_blockReceiver hd₁.running hsend hsome).mpr hm
      obtain ⟨k', hk', -, -, hstate⟩ := hfinish k₂ (msgReceive_block hne hchoose hblock)
      obtain ⟨-, -, -, -, rfl⟩ := blockReceiver_cases hblock
      refine ⟨k', hk', .inr (hstate.mpr ⟨?_, (otherReady_setProc hd₁.procRunning _).mpr hready⟩)⟩
      rw [proc_setProc_self]
      rfl
    · obtain ⟨prev, hchoose, hhead⟩ := hd₁.exists_take hsrc₁ hoffers hidle hpm hrecv
      obtain ⟨k₂, hnow⟩ : Succeeds (k₁.receiveNow c f prev msg) :=
        (succeeds_receiveNow hpm).mpr ⟨hm, hhead⟩
      obtain ⟨k', hk', hlog', hmem', -⟩ := hfinish k₂ (msgReceive_take hne hchoose hnow)
      obtain ⟨hlog₂, hmem₂⟩ := receiveNow_copies hnow
      refine ⟨k', hk', .inl ⟨f, ?_, ?_⟩⟩
      · rw [hlog', hlog₂, hlog, hpMsg]
      · rw [hmem', hmem₂, hnamed, hpMsg]

/-! ## Runs -/

/-- In every run, the receives that receive. -/
theorem receives_iff_of_run {image : Image} {events : List Event}
    (h : Run (Kernel.step x) (Started image) (fun k e => k.enabled e = true) events k) :
    ∃ c : Slot, k.procRunning = c.val ∧
      ∀ (t : Trap) (src : Int), k.enabled (.ecall t) = true →
        (t.regs StackFrame.a0).toInt = IPC_RECEIVE → (t.regs StackFrame.a1).toInt = src →
        (src = IPC_TARGET_ANY ∨ k.LivePeer c src) →
        ((∃ k', k.step x (.ecall t) = .ok k' ∧
            (k.trapped t).Receives k' c (t.regs StackFrame.a2)) ↔
          messageFunction t.mem (t.regs StackFrame.a2) ≠ OS_send_nonblk ∧
            t.regs StackFrame.a2 ≠ 0 ∧ k.CanReceive c src) := by
  obtain ⟨c, hc⟩ := dispatched_of_run h
  refine ⟨c, hc.procRunning, fun t src henabled ha0 ha1 hsrc => ?_⟩
  have htrapped : (k.trapped t).Dispatched c := hc.of_table rfl
  have hstart : k.doStart = false := by simpa only [enabled, Bool.not_eq_true'] using henabled
  exact htrapped.receives_iff hstart ha0 ha1 hsrc

private theorem not_offers_of_blocks (hblocks : k.callBlocks c (.receive src msg) = true) :
    ¬ k.Offers c src f := by
  simp only [callBlocks] at hblocks
  rintro (⟨rfl, hqueue, -⟩ | ⟨rfl, hsends, -⟩)
  · rw [if_pos rfl, hqueue] at hblocks
    cases hblocks
  · rw [if_neg (val_ne_any f), pid2proc_val] at hblocks
    dsimp only at hblocks
    rw [hsends] at hblocks
    cases hblocks

/-- In order, the assertions hold, and a receive needs only someone else to run if it blocks. -/
theorem Sound.canReceive_iff (h : k.Sound c) (hsrc : src = IPC_TARGET_ANY ∨ k.LivePeer c src) :
    k.CanReceive c src ↔ (k.callBlocks c (.receive src 0) = true → k.OtherReady) := by
  have hidle := (h.current.valid c).idle_of_running h.running
  constructor
  · rintro (⟨-, -, hready⟩ | ⟨f, hoffers, -⟩) hblocks
    · exact hready
    · exact absurd hoffers (not_offers_of_blocks hblocks)
  · intro hcovers
    cases hblocks : k.callBlocks c (.receive src 0) with
    | true => exact .inl ⟨hblocks, hidle.pSendto, hcovers hblocks⟩
    | false =>
        have hoffers : ∃ f, k.Offers c src f ∧ (k.proc f).pSendto = c.val := by
          simp only [callBlocks] at hblocks
          split_ifs at hblocks with hany
          · cases hqueue : (k.proc c).queueSending with
            | none =>
                rw [hqueue] at hblocks
                cases hblocks
            | some f =>
                obtain ⟨rest, hblocked⟩ := h.queued.head hqueue
                have hmem : (f, (k.proc f).pMsg) ∈ blockedOn c k.log := by
                  rw [hblocked]
                  exact List.mem_cons_self
                have hsend := ((h.queued.pending f c _).mp hmem).1
                exact ⟨f, .inl ⟨hany, hqueue, hsend.trans h.current.live.symm⟩, hsend⟩
          · obtain ⟨f, -, rfl, hlive⟩ := hsrc.resolve_left hany
            rw [pid2proc_val] at hblocks
            have hsends : k.sendsTo f c = true := by simpa using hblocks
            have hsend := (sendsTo_eq_true hsends).2.trans h.current.live
            have hmem := h.queued.sender_live h.current.live hsends
            have hlinked := h.queued.linked c
            have hlength : ((blockedOn c k.log).map Prod.fst).length ≤ PROC_NUM_MAX := by
              have hcard := hlinked.nodup.length_le_card
              rwa [Fintype.card_fin] at hcard
            obtain ⟨found, last, hfind, -⟩ := findSender_linked (f.val : Int) none hlinked hlength
            refine ⟨f, .inr ⟨rfl, hsends, fun hnone => ?_,
              (succeeds_findSender h.queued.pid hlive _ _ none).mp ⟨_, hfind⟩⟩, hsend⟩
            rw [hnone] at hlinked
            rw [hlinked.eq_nil] at hmem
            cases hmem
        obtain ⟨f, hoffers, hsend⟩ := hoffers
        obtain ⟨hmsg, hrecv⟩ := h.sender hsend
        exact .inr ⟨f, hoffers, hidle, hmsg, hrecv⟩

/-! ### A message that spoils the buffer -/

def markedMemory : WordMemory := storeInt (fun _ => 0) (messageOf 2) OS_send_nonblk

def spoiltMemory : WordMemory :=
  copyMessage (setMessageSource markedMemory (messageOf 2) 2) (messageOf 1) (messageOf 2)

def receiveAgain : Trap :=
  { (Trap.ecall IPC_RECEIVE IPC_TARGET_ANY (messageOf 1) 0x20010000) with mem := spoiltMemory }

/-- Pid 1 waits for a message, pid 2 sends the marked one, and pid 1 has its turn again. -/
def spoilingRun : List Event :=
  List.replicate 5 (.tick receiveAny) ++
    [.ecall (.ecall IPC_RECEIVE IPC_TARGET_ANY (messageOf 1) 0x20010000),
      .ecall { (Trap.ecall IPC_SEND 1 (messageOf 2) 0x20010000) with mem := markedMemory }] ++
    List.replicate 15 (.tick receiveAgain)

private theorem exists_spoilingRun :
    ∃ k, Run (Kernel.step tiedHigh) (Started someImage) (fun k e => k.enabled e = true)
        spoilingRun k ∧ k.procRunning = 1 ∧ k.enabled (.ecall receiveAgain) = true ∧
      k.log = [.sent 2 1 (messageOf 2)] := by
  have hrun : (follow (Kernel.step tiedHigh) enabled ((default : Kernel).prepareProcesses someImage)
      spoilingRun).map (fun k => ((k.procRunning, k.enabled (.ecall receiveAgain)), k.log)) =
        some ((1, true), [.sent 2 1 (messageOf 2)]) := by
    decide +kernel
  obtain ⟨k, hk, hfields⟩ := Option.map_eq_some_iff.mp hrun
  simp only [Prod.mk.injEq] at hfields
  obtain ⟨⟨hrunning, henabled⟩, hlog⟩ := hfields
  exact ⟨k, Run.of_follow (fun _ _ h => h) (started_prepareProcesses someImage) hk, hrunning,
    henabled, hlog⟩

/-- The second receive is taken for a non-blocking send and ignored. -/
theorem receive_into_spoilt_ignored :
    ¬ ∀ (events : List Event) (k : Kernel) (c : Slot) (t : Trap),
      Run (Kernel.step tiedHigh) (Started someImage) (fun k e => k.enabled e = true) events k →
      k.procRunning = c.val → k.enabled (.ecall t) = true →
      (t.regs StackFrame.a0).toInt = IPC_RECEIVE →
      (t.regs StackFrame.a1).toInt = IPC_TARGET_ANY →
      ∃ k', k.step tiedHigh (.ecall t) = .ok k' ∧
        (k.trapped t).Receives k' c (t.regs StackFrame.a2) := by
  intro hclaim
  obtain ⟨k, hrun, hrunning, henabled, -⟩ := exists_spoilingRun
  have hreceives := hclaim spoilingRun k 1 receiveAgain hrun hrunning henabled (by decide)
    (by decide)
  obtain ⟨c, hc⟩ := dispatched_of_run hrun
  obtain rfl : c = 1 := Fin.ext (hc.procRunning.symm.trans hrunning)
  have htrapped : (k.trapped receiveAgain).Dispatched 1 := hc.of_table rfl
  have hstart : k.doStart = false := by simpa only [enabled, Bool.not_eq_true'] using henabled
  obtain ⟨hfunction, -⟩ := (htrapped.receives_iff (x := tiedHigh) hstart
    (by decide : (receiveAgain.regs StackFrame.a0).toInt = IPC_RECEIVE)
    (by decide : (receiveAgain.regs StackFrame.a1).toInt = IPC_TARGET_ANY) (.inl rfl)).mp hreceives
  exact hfunction (by decide +kernel :
    messageFunction receiveAgain.mem (receiveAgain.regs StackFrame.a2) = OS_send_nonblk)

/-- After five ticks pid 1 receives from any, and waits. -/
theorem receives_iff_of_ticks :
    ∃ k, Run (Kernel.step tiedHigh) (Started someImage) (fun k e => k.enabled e = true)
        (receiving 0) k ∧
      ∃ c : Slot, k.procRunning = c.val ∧ ∃ k', k.step tiedHigh (.ecall receiveAny) = .ok k' ∧
        (k.trapped receiveAny).Receives k' c (receiveAny.regs StackFrame.a2) := by
  have hrun : (follow (Kernel.step tiedHigh) enabled ((default : Kernel).prepareProcesses someImage)
      (receiving 0)).map (fun k => (k.procRunning, k.enabled (.ecall receiveAny),
        decide k.OtherReady, (k.proc 1).queueSending, (k.proc 1).pSendto)) =
          some (1, true, true, none, IPC_TARGET_NONE) := by
    decide +kernel
  obtain ⟨k, hk, hfields⟩ := Option.map_eq_some_iff.mp hrun
  simp only [Prod.mk.injEq, decide_eq_true_eq] at hfields
  obtain ⟨hrunning, henabled, hready, hqueue, hsend⟩ := hfields
  have h := Run.of_follow (fun _ _ h => h) (started_prepareProcesses someImage) hk
  obtain ⟨c, hc, hiff⟩ := receives_iff_of_run h
  obtain rfl : c = 1 := Fin.ext (hc.symm.trans hrunning)
  have hblocks : k.callBlocks 1 (.receive IPC_TARGET_ANY 0) = true := by
    simp [callBlocks, hqueue]
  exact ⟨k, h, 1, hc, (hiff receiveAny IPC_TARGET_ANY henabled (by decide) (by decide)
    (.inl rfl)).mpr ⟨by decide +kernel, by decide, .inl ⟨hblocks, hsend, hready⟩⟩⟩

end Kernel

end PComputer.PseudOS
