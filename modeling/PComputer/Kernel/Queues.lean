import PComputer.Foundation.LinkedQueue
import PComputer.Kernel.States

/-!
# The queues of senders

Moves of the kernel from `ProcManagerInit` on, and the invariant of the linked
queues: each holds the senders that blocked on its owner and that the owner has
not taken, in the order in which they blocked.  It survives as long as no third
sender joins a queue and no sender is taken from behind another one.
-/

namespace PComputer.PseudOS

open PComputer.Foundation PComputer.Rtl

/-! ## Moves -/

/-- A call of the running process, a `schedule()`, a trap, or a new process. -/
inductive Move where
  | send (dest : Int) (msg : Word) (nonblocking : Bool)
  | receive (src : Int) (msg : Word)
  | schedule
  | execute (t : Kernel.Trap)
  | create (entry stack : Word)
  | register (i : Slot) (pc sp : Word)

/-- A move with the process that was running and the status the C function returned. -/
structure Turn where
  caller : Slot
  move : Move
  status : Int

namespace Kernel

def move (x : ReadX) (k : Kernel) : Move → Except Fault (Int × Kernel)
  | .send dest msg false => k.sendrec IPC_SEND dest msg
  | .send dest msg true => k.sendrecNonblock IPC_SEND dest msg
  | .receive src msg => k.sendrec IPC_RECEIVE src msg
  | .schedule => do
      let k ← k.schedule x
      return (0, k)
  | .execute t => .ok (0, k.trapped t)
  | .create entry stack => do
      let k ← k.newProcess entry stack
      return (0, k)
  | .register i pc sp => .ok (0, k.setProc i (Process.register i.val pc sp PROC_STATE_READY))

def turn (x : ReadX) (k : Kernel) (t : Turn) : Except Fault Kernel := do
  let (_, k) ← k.move x t.move
  return k

def LivePeer (k : Kernel) (caller : Slot) (pid : Int) : Prop :=
  ∃ d : Slot, d ≠ caller ∧ pid = d.val ∧ (k.proc d).pid = d.val

instance (k : Kernel) (caller : Slot) (pid : Int) : Decidable (k.LivePeer caller pid) :=
  inferInstanceAs (Decidable (∃ d : Slot, d ≠ caller ∧ pid = d.val ∧ (k.proc d).pid = d.val))

def Executes (k : Kernel) (caller : Slot) : Prop :=
  k.doStart = false ∧ (k.proc caller).state = PROC_STATE_RUNNING

instance (k : Kernel) (caller : Slot) : Decidable (k.Executes caller) :=
  inferInstanceAs (Decidable (_ ∧ _))

/-- Calls are made by the running process and name live processes; new ones get free slots. -/
def MayMove (k : Kernel) (caller : Slot) : Move → Prop
  | .send dest _ _ => k.Executes caller ∧ k.LivePeer caller dest
  | .receive src _ => k.Executes caller ∧ (src = IPC_TARGET_ANY ∨ k.LivePeer caller src)
  | .register i _ _ => (k.proc i).pid = -1
  | .schedule | .execute _ | .create _ _ => True

instance (k : Kernel) (caller : Slot) : (m : Move) → Decidable (k.MayMove caller m)
  | .send _ _ _ => inferInstanceAs (Decidable (_ ∧ _))
  | .receive _ _ => inferInstanceAs (Decidable (_ ∧ (_ ∨ _)))
  | .register i _ _ => inferInstanceAs (Decidable ((k.proc i).pid = -1))
  | .schedule | .execute _ | .create _ _ => isTrue trivial

def Legal (x : ReadX) (k : Kernel) (t : Turn) : Prop :=
  k.procRunning = t.caller.val ∧ (k.move x t.move).map Prod.fst = .ok t.status ∧
    k.MayMove t.caller t.move

def Initialised (image : Image) (k : Kernel) : Prop :=
  ∃ k₀ : Kernel, k₀.log = [] ∧ k = k₀.procManagerInit image

/--
A sender that blocks has no earlier message still waiting and finds at most one
sender in the queue; a receive from one sender finds it at the head.
-/
def Keeps (k : Kernel) (t : Turn) : Prop :=
  match t.move with
  | .send dest _ nonblocking =>
      ∀ d : Slot, dest = d.val → nonblocking = false → k.waitsFor d t.caller = false →
        (k.proc t.caller).pSendto = IPC_TARGET_NONE ∧
          ∀ head ∈ (k.proc d).queueSending, (k.proc head).queueSendingNext = none
  | .receive src _ =>
      src ≠ IPC_TARGET_ANY → ∀ f : Slot, src = f.val → k.sendsTo f t.caller = true →
        (k.proc t.caller).queueSending = some f
  | .schedule | .execute _ | .create _ _ | .register _ _ _ => True

/-! ## The log -/

def blockedOn (d : Slot) (log : List Transfer) : List (Slot × Word) :=
  log.foldl
    (fun queue note =>
      match note with
      | .sent _ _ _ => queue
      | .blocked s r msg => if r = d then queue ++ [(s, msg)] else queue
      | .received s r msg => if r = d then queue.erase (s, msg) else queue)
    []

def copies (s d : Slot) (msg : Word) (log : List Transfer) : Nat :=
  log.count (.sent s d msg) + log.count (.received s d msg)

variable {s d s' d' : Slot} {msg msg' : Word} {log : List Transfer}

@[simp] theorem blockedOn_nil : blockedOn d [] = [] := rfl

@[simp] theorem blockedOn_sent :
    blockedOn d (log ++ [.sent s' d' msg']) = blockedOn d log := by
  unfold blockedOn
  rw [List.foldl_append]
  rfl

private theorem blockedOn_blocked :
    blockedOn d (log ++ [.blocked s' d' msg']) =
      if d' = d then blockedOn d log ++ [(s', msg')] else blockedOn d log := by
  unfold blockedOn
  rw [List.foldl_append]
  rfl

private theorem blockedOn_received :
    blockedOn d (log ++ [.received s' d' msg']) =
      if d' = d then (blockedOn d log).erase (s', msg') else blockedOn d log := by
  unfold blockedOn
  rw [List.foldl_append]
  rfl

/-- The messages of `s` for `d` that were copied or still wait. -/
def balance (s d : Slot) (msg : Word) (log : List Transfer) : Nat :=
  copies s d msg log + (blockedOn d log).count (s, msg)

theorem balance_sent :
    balance s d msg (log ++ [.sent s' d' msg']) =
      balance s d msg log + if s' = s ∧ d' = d ∧ msg' = msg then 1 else 0 := by
  unfold balance copies
  rw [blockedOn_sent, List.count_append, List.count_append, List.count_singleton,
    List.count_singleton]
  simp only [beq_iff_eq, Transfer.sent.injEq, reduceCtorEq, if_false]
  omega

theorem balance_blocked :
    balance s d msg (log ++ [.blocked s' d' msg']) =
      balance s d msg log + if s' = s ∧ d' = d ∧ msg' = msg then 1 else 0 := by
  unfold balance copies
  rw [blockedOn_blocked, List.count_append, List.count_append, List.count_singleton,
    List.count_singleton]
  simp only [beq_iff_eq, reduceCtorEq, if_false]
  by_cases hd : d' = d
  · rw [if_pos hd, List.count_append, List.count_singleton]
    simp only [beq_iff_eq, Prod.mk.injEq, hd, true_and]
    omega
  · rw [if_neg hd]
    simp only [hd, false_and, and_false, if_false]
    omega

theorem balance_received (h : (s', msg') ∈ blockedOn d' log) :
    balance s d msg (log ++ [.received s' d' msg']) = balance s d msg log := by
  unfold balance copies
  rw [blockedOn_received, List.count_append, List.count_append, List.count_singleton,
    List.count_singleton]
  simp only [beq_iff_eq, Transfer.received.injEq, reduceCtorEq, if_false]
  by_cases hd : d' = d
  · subst hd
    rw [if_pos rfl, List.count_erase]
    simp only [beq_iff_eq, Prod.mk.injEq, true_and]
    by_cases hs : s' = s ∧ msg' = msg
    · obtain ⟨rfl, rfl⟩ := hs
      have hpos := List.count_pos_iff.mpr h
      simp only [and_self, if_true]
      omega
    · simp only [hs, if_false]
      omega
  · rw [if_neg hd]
    simp only [hd, false_and, and_false, if_false]
    omega

/-! ## The invariant -/

def next (k : Kernel) (i : Slot) : Option Slot := (k.proc i).queueSendingNext

/-- Every queue is the list of the senders that wait on its owner. -/
structure Queued (k : Kernel) : Prop where
  pid : ∀ i, (k.proc i).pid = -1 ∨ (k.proc i).pid = i.val
  first : (k.proc 1).pid = 1
  current : ∃ c : Slot, k.procRunning = c.val ∧ (k.proc c).pid = c.val
  linked : ∀ d, Linked k.next (k.proc d).queueSending ((blockedOn d k.log).map Prod.fst)
  pending : ∀ s d msg, (s, msg) ∈ blockedOn d k.log ↔
    (k.proc s).pSendto = d.val ∧ (k.proc s).pMsg = msg
  live : ∀ s d : Slot, (k.proc s).pSendto = d.val → (k.proc d).pid = d.val
  sendto : ∀ s, (k.proc s).pSendto = IPC_TARGET_NONE ∨ ∃ d : Slot, (k.proc s).pSendto = d.val
  sending : ∀ s, (k.proc s).state = PROC_STATE_SENDING → (k.proc s).pSendto ≠ IPC_TARGET_NONE
  receiving : ∀ s, (k.proc s).state = PROC_STATE_RECEIVING → (k.proc s).pSendto = IPC_TARGET_NONE
  unlinked : ∀ s, (k.proc s).pSendto = IPC_TARGET_NONE → k.next s = none
  free : ∀ i, (k.proc i).pid = -1 → (k.proc i).pSendto = IPC_TARGET_NONE

variable {k k' : Kernel}

theorem val_ne_none (d : Slot) : (d.val : Int) ≠ IPC_TARGET_NONE := by
  unfold IPC_TARGET_NONE
  omega

theorem val_inj {d d' : Slot} (h : (d.val : Int) = d'.val) : d = d' := by
  apply Fin.ext
  omega

/-- A step that moves no message leaves the queues as they are. -/
structure SameQueues (k k' : Kernel) : Prop where
  pid : ∀ i, (k'.proc i).pid = (k.proc i).pid
  queueSending : ∀ i, (k'.proc i).queueSending = (k.proc i).queueSending
  next : ∀ i, k'.next i = k.next i
  pSendto : ∀ i, (k'.proc i).pSendto = (k.proc i).pSendto
  pMsg : ∀ i, (k.proc i).pSendto ≠ IPC_TARGET_NONE → (k'.proc i).pMsg = (k.proc i).pMsg
  sending : ∀ i, (k'.proc i).state = PROC_STATE_SENDING →
    (k.proc i).state = PROC_STATE_SENDING
  receiving : ∀ i, (k'.proc i).state = PROC_STATE_RECEIVING →
    (k.proc i).state = PROC_STATE_RECEIVING ∨ (k.proc i).pSendto = IPC_TARGET_NONE
  blockedOn : ∀ d, blockedOn d k'.log = blockedOn d k.log

theorem Queued.same (h : k.Queued) (hsame : k.SameQueues k')
    (hcurrent : ∃ c : Slot, k'.procRunning = c.val ∧ (k.proc c).pid = c.val) : k'.Queued where
  pid i := by
    rw [hsame.pid]
    exact h.pid i
  first := (hsame.pid 1).trans h.first
  current := by
    obtain ⟨c, hrunning, hlive⟩ := hcurrent
    exact ⟨c, hrunning, (hsame.pid c).trans hlive⟩
  linked d := by
    rw [hsame.queueSending, hsame.blockedOn]
    exact (h.linked d).congr fun s _ => hsame.next s
  pending s d msg := by
    rw [hsame.blockedOn, hsame.pSendto, h.pending]
    refine and_congr_right fun hsend => ?_
    rw [hsame.pMsg s (hsend ▸ val_ne_none d)]
  live s d hsend := by
    rw [hsame.pid]
    exact h.live s d ((hsame.pSendto s).symm.trans hsend)
  sendto s := by
    rw [hsame.pSendto]
    exact h.sendto s
  sending s hs := by
    rw [hsame.pSendto]
    exact h.sending s (hsame.sending s hs)
  receiving s hs := by
    rw [hsame.pSendto]
    rcases hsame.receiving s hs with hs | hnone
    · exact h.receiving s hs
    · exact hnone
  unlinked s hs := by
    rw [hsame.next]
    exact h.unlinked s ((hsame.pSendto s).symm.trans hs)
  free i hi := by
    rw [hsame.pSendto]
    exact h.free i ((hsame.pid i).symm.trans hi)

theorem SameQueues.trans {k'' : Kernel} (h : k.SameQueues k') (h' : k'.SameQueues k'') :
    k.SameQueues k'' where
  pid i := (h'.pid i).trans (h.pid i)
  queueSending i := (h'.queueSending i).trans (h.queueSending i)
  next i := (h'.next i).trans (h.next i)
  pSendto i := (h'.pSendto i).trans (h.pSendto i)
  pMsg i hi := (h'.pMsg i (by rwa [h.pSendto])).trans (h.pMsg i hi)
  sending i hi := h.sending i (h'.sending i hi)
  receiving i hi := by
    rcases h'.receiving i hi with hi | hnone
    · exact h.receiving i hi
    · exact .inr ((h.pSendto i).symm.trans hnone)
  blockedOn d := (h'.blockedOn d).trans (h.blockedOn d)

private theorem sameQueues_setProc {i : Slot} {f : Process → Process}
    (hpid : (f (k.proc i)).pid = (k.proc i).pid)
    (hqueue : (f (k.proc i)).queueSending = (k.proc i).queueSending)
    (hnext : (f (k.proc i)).queueSendingNext = (k.proc i).queueSendingNext)
    (hsend : (f (k.proc i)).pSendto = (k.proc i).pSendto)
    (hmsg : (k.proc i).pSendto ≠ IPC_TARGET_NONE → (f (k.proc i)).pMsg = (k.proc i).pMsg)
    (hsending : (f (k.proc i)).state = PROC_STATE_SENDING →
      (k.proc i).state = PROC_STATE_SENDING)
    (hreceiving : (f (k.proc i)).state = PROC_STATE_RECEIVING →
      (k.proc i).state = PROC_STATE_RECEIVING ∨ (k.proc i).pSendto = IPC_TARGET_NONE) :
    k.SameQueues (k.setProc i f) := by
  have hcases : ∀ j, (k.setProc i f).proc j = k.proc j ∨
      j = i ∧ (k.setProc i f).proc j = f (k.proc i) := by
    intro j
    rw [proc_setProc]
    split_ifs with hj
    · exact .inr ⟨hj, rfl⟩
    · exact .inl rfl
  constructor
  all_goals intro j
  case blockedOn => rfl
  all_goals
    try unfold Kernel.next
    rcases hcases j with hj | ⟨rfl, hj⟩
    all_goals rw [hj]
  case pMsg.inl => exact fun _ => rfl
  case sending.inl => exact id
  case receiving.inl => exact .inl
  case pid.inr => exact hpid
  case queueSending.inr => exact hqueue
  case next.inr => exact hnext
  case pSendto.inr => exact hsend
  case pMsg.inr => exact hmsg
  case sending.inr => exact hsending
  case receiving.inr => exact hreceiving

private theorem Queued.notMem (h : k.Queued) (hs : (k.proc s).pSendto = IPC_TARGET_NONE) :
    s ∉ (blockedOn d k.log).map Prod.fst := by
  intro hmem
  obtain ⟨⟨s', m⟩, hpair, rfl⟩ := List.mem_map.mp hmem
  exact val_ne_none d (((h.pending s' d m).mp hpair).1.symm.trans hs)

private theorem Queued.notMem_of_mem (h : k.Queued) (hs : s ∈ (blockedOn d k.log).map Prod.fst)
    (hne : d' ≠ d) : s ∉ (blockedOn d' k.log).map Prod.fst := by
  intro hmem
  obtain ⟨⟨s₁, m⟩, hpair, rfl⟩ := List.mem_map.mp hs
  obtain ⟨⟨s₂, m'⟩, hpair', heq⟩ := List.mem_map.mp hmem
  obtain rfl : s₂ = s₁ := heq
  have hd := ((h.pending s₂ d m).mp hpair).1
  have hd' := ((h.pending s₂ d' m').mp hpair').1
  exact hne (val_inj (hd'.symm.trans hd))

/-- What the invariant asks of a process apart from its place in a queue. -/
structure Consistent (k : Kernel) (p : Process) : Prop where
  live : ∀ d : Slot, p.pSendto = d.val → (k.proc d).pid = d.val
  sendto : p.pSendto = IPC_TARGET_NONE ∨ ∃ d : Slot, p.pSendto = d.val
  sending : p.state = PROC_STATE_SENDING → p.pSendto ≠ IPC_TARGET_NONE
  receiving : p.state = PROC_STATE_RECEIVING → p.pSendto = IPC_TARGET_NONE
  free : p.pid = -1 → p.pSendto = IPC_TARGET_NONE

private theorem Queued.consistent (h : k.Queued) (i : Slot) : k.Consistent (k.proc i) :=
  ⟨h.live i, h.sendto i, h.sending i, h.receiving i, h.free i⟩

theorem Consistent.of_body {p q : Process} (h : k.Consistent p) (hbody : q.body = p.body) :
    k.Consistent q where
  live d hd := h.live d ((Process.pSendto_of_body hbody).symm.trans hd)
  sendto := by
    rw [Process.pSendto_of_body hbody]
    exact h.sendto
  sending hs := by
    rw [Process.pSendto_of_body hbody]
    exact h.sending ((Process.state_of_body hbody).symm.trans hs)
  receiving hs := by
    rw [Process.pSendto_of_body hbody]
    exact h.receiving ((Process.state_of_body hbody).symm.trans hs)
  free hp := by
    rw [Process.pSendto_of_body hbody]
    exact h.free ((Process.pid_of_body hbody).symm.trans hp)

/-- A step that changes one process, and the queues with it. -/
theorem Queued.change (h : k.Queued) (hpid : ∀ i, (k'.proc i).pid = (k.proc i).pid)
    (hrunning : k'.procRunning = k.procRunning) {f : Slot}
    (hothers : ∀ i, i ≠ f → (k'.proc i).body = (k.proc i).body)
    (hself : k.Consistent (k'.proc f))
    (hlinked : ∀ d, Linked k'.next (k'.proc d).queueSending
      ((blockedOn d k'.log).map Prod.fst))
    (hpending : ∀ s d msg, (s, msg) ∈ blockedOn d k'.log ↔
      (k'.proc s).pSendto = d.val ∧ (k'.proc s).pMsg = msg)
    (hunlinked : ∀ s, (k'.proc s).pSendto = IPC_TARGET_NONE → k'.next s = none) :
    k'.Queued := by
  have hconsistent (i : Slot) : k.Consistent (k'.proc i) := by
    by_cases hi : i = f
    · exact hi ▸ hself
    · exact (h.consistent i).of_body (hothers i hi)
  constructor
  case pid =>
    intro i
    rw [hpid]
    exact h.pid i
  case first => exact (hpid 1).trans h.first
  case current =>
    obtain ⟨c, hc, hcur⟩ := h.current
    exact ⟨c, hrunning.trans hc, (hpid c).trans hcur⟩
  case linked => exact hlinked
  case pending => exact hpending
  case live =>
    intro s d hs
    rw [hpid]
    exact (hconsistent s).live d hs
  case sendto => exact fun s => (hconsistent s).sendto
  case sending => exact fun s => (hconsistent s).sending
  case receiving => exact fun s => (hconsistent s).receiving
  case unlinked => exact hunlinked
  case free => exact fun i => (hconsistent i).free

/-! ## The calls -/

theorem Queued.sendDirectly (h : k.Queued) (hwaits : k.waitsFor d s = true) (msg : Word) :
    (k.sendDirectly s d msg).Queued := by
  obtain ⟨hstate, -⟩ := waitsFor_eq_true hwaits
  have hnone := h.receiving d hstate
  have htransfer : k.SameQueues (k.transfer (.sent s d msg) (k.proc d).pMsg msg) :=
    ⟨fun _ => rfl, fun _ => rfl, fun _ => rfl, fun _ => rfl, fun _ _ => rfl, fun _ => id,
      fun _ => .inl, fun _ => blockedOn_sent⟩
  have hready : (k.proc d).state &&& ~~~PROC_STATE_RECEIVING ||| PROC_STATE_READY =
      PROC_STATE_READY := by
    rw [hstate]
    decide
  refine h.same (htransfer.trans ?_) h.current
  unfold Kernel.sendDirectly
  refine sameQueues_setProc rfl rfl rfl rfl (fun hsend => absurd hnone hsend) ?_ ?_
  · exact fun hs => absurd (hready.symm.trans hs) (by decide)
  · exact fun hs => absurd (hready.symm.trans hs) (by decide)

theorem proc_blockOn (k : Kernel) (s i : Slot) (dest : Int) (msg : Word) :
    (k.setProc s (Process.blockOn dest msg)).proc i =
      if i = s then (k.proc s).blockOn dest msg else k.proc i := proc_setProc _ _ _ _

theorem Queued.link (h : k.Queued) (hne : s ≠ d) (hlive : (k.proc d).pid = d.val)
    (hs : (k.proc s).pid ≠ -1) (hnone : (k.proc s).pSendto = IPC_TARGET_NONE)
    (hproc : ∀ i, (k'.proc i).body =
      if i = s then ((k.proc s).blockOn d.val msg).body else (k.proc i).body)
    (hrunning : k'.procRunning = k.procRunning)
    (hlog : k'.log = k.log ++ [.blocked s d msg])
    (hlinked : Linked k'.next (k'.proc d).queueSending
      ((blockedOn d k.log).map Prod.fst ++ [s]))
    (hothers : ∀ i, i ≠ d → (k'.proc i).queueSending = (k.proc i).queueSending)
    (hnext : ∀ i, i ∉ (blockedOn d k.log).map Prod.fst → k'.next i = k.next i) : k'.Queued := by
  have hself : (k'.proc s).body = ((k.proc s).blockOn d.val msg).body := by
    rw [hproc, if_pos rfl]
  have hother : ∀ i, i ≠ s → (k'.proc i).body = (k.proc i).body := by
    intro i hi
    rw [hproc, if_neg hi]
  have hpid : ∀ i, (k'.proc i).pid = (k.proc i).pid := by
    intro i
    by_cases hi : i = s
    · rw [hi, Process.pid_of_body hself]
      rfl
    · exact Process.pid_of_body (hother i hi)
  have hsend : (k'.proc s).pSendto = d.val := Process.pSendto_of_body hself
  have hsendOther : ∀ i, i ≠ s → (k'.proc i).pSendto = (k.proc i).pSendto :=
    fun i hi => Process.pSendto_of_body (hother i hi)
  refine h.change hpid hrunning hother ⟨?live, ?sendto, ?sending, ?receiving, ?free⟩
    ?linked ?pending ?unlinked
  case live =>
    intro e he
    obtain rfl := val_inj (hsend.symm.trans he)
    exact hlive
  case sendto => exact .inr ⟨d, hsend⟩
  case sending =>
    intro _
    rw [hsend]
    exact val_ne_none d
  case receiving =>
    intro hstate'
    have hstate : (k'.proc s).state = PROC_STATE_SENDING := Process.state_of_body hself
    exact absurd (hstate.symm.trans hstate') (by decide)
  case free => exact fun hp => absurd ((hpid s).symm.trans hp) hs
  case linked =>
    intro i
    rw [hlog, blockedOn_blocked]
    by_cases hi : d = i
    · subst hi
      rw [if_pos rfl, List.map_append]
      exact hlinked
    · rw [if_neg hi, hothers i (Ne.symm hi)]
      refine (h.linked i).congr fun a ha => hnext a ?_
      exact h.notMem_of_mem ha hi
  case pending =>
    intro i e m
    rw [hlog, blockedOn_blocked]
    by_cases hi : i = s
    · subst hi
      rw [hsend, Process.pMsg_of_body hself]
      have hnot : (i, m) ∉ blockedOn e k.log := fun hmem =>
        h.notMem hnone (List.mem_map_of_mem hmem)
      by_cases he : d = e
      · subst he
        rw [if_pos rfl, List.mem_append, List.mem_singleton, Prod.mk.injEq]
        constructor
        · rintro (hmem | ⟨-, rfl⟩)
          · exact absurd hmem hnot
          · exact ⟨rfl, rfl⟩
        · rintro ⟨-, hm⟩
          exact .inr ⟨rfl, hm.symm⟩
      · rw [if_neg he]
        constructor
        · exact fun hmem => absurd hmem hnot
        · rintro ⟨hd, -⟩
          exact absurd (val_inj hd) he
    · rw [hsendOther i hi, Process.pMsg_of_body (hother i hi), ← h.pending]
      split_ifs with he
      · subst he
        rw [List.mem_append, List.mem_singleton, Prod.mk.injEq]
        exact ⟨fun hmem => hmem.resolve_right fun heq => hi heq.1, .inl⟩
      · rfl
  case unlinked =>
    intro i hi
    have his : i ≠ s := by
      rintro rfl
      exact val_ne_none d (hsend.symm.trans hi)
    have hold := (hsendOther i his).symm.trans hi
    rw [hnext i (h.notMem hold)]
    exact h.unlinked i hold

theorem next_setProc (k : Kernel) (i j : Slot) (f : Process → Process) :
    (k.setProc i f).next j = if j = i then (f (k.proc i)).queueSendingNext else k.next j := by
  unfold next
  rw [proc_setProc]
  split_ifs <;> rfl

theorem Queued.blockSender (h : k.Queued) (hne : s ≠ d) (hlive : (k.proc d).pid = d.val)
    (hs : (k.proc s).pid ≠ -1) (hnone : (k.proc s).pSendto = IPC_TARGET_NONE)
    (hroom : ∀ head ∈ (k.proc d).queueSending, (k.proc head).queueSendingNext = none)
    (hok : k.blockSender s d d.val msg = .ok k') : k'.Queued := by
  obtain ⟨-, -, -, k₁, hk₁, rfl⟩ := blockSender_cases hok
  have hmine := h.unlinked s hnone
  have hd : (k.setProc s (Process.blockOn d.val msg)).proc d = k.proc d := by
    rw [proc_setProc_ne (Ne.symm hne)]
  have hnextSelf : ∀ i, (k.setProc s (Process.blockOn d.val msg)).next i = k.next i := by
    intro i
    rw [next_setProc]
    split_ifs with hi
    · rw [hi]
      rfl
    · rfl
  have hbody : ∀ i, (k₁.proc i).body =
      if i = s then ((k.proc s).blockOn d.val msg).body else (k.proc i).body := by
    intro i
    rw [enqueue_body hk₁, proc_blockOn]
    split_ifs <;> rfl
  have hqueues : ∀ i, ((k.setProc s (Process.blockOn d.val msg)).proc i).queueSending =
      (k.proc i).queueSending := by
    intro i
    rw [proc_blockOn]
    split_ifs with hi
    · rw [hi]
      rfl
    · rfl
  have hlog : k₁.log = k.log := (enqueue_log hk₁).trans rfl
  rcases enqueue_cases hk₁ with ⟨hqueue, hk⟩ | ⟨head, hqueue, -, hk⟩
  · rw [hd] at hqueue
    have hempty : (blockedOn d k.log).map Prod.fst = [] := by
      have hlinked := h.linked d
      rw [hqueue] at hlinked
      exact hlinked.eq_nil
    have hnext : ∀ i, k₁.next i = k.next i := by
      intro i
      rw [hk, next_setProc, ← hnextSelf i]
      split_ifs with hi
      · rw [hi]
        rfl
      · rfl
    refine h.link hne hlive hs hnone hbody (frame_enqueue hk₁).procRunning
      (congrArg (· ++ [_]) hlog) ?_ ?_ fun i _ => hnext i
    · rw [hempty]
      change Linked k₁.next (k₁.proc d).queueSending [s]
      rw [hk, proc_setProc_self, ← hk]
      refine .cons ?_
      rw [hnext, hmine]
      exact .nil
    · intro i hi
      change (k₁.proc i).queueSending = _
      rw [hk, proc_setProc_ne hi, hqueues]
  · rw [hd] at hqueue
    have hlinked := h.linked d
    rw [hqueue] at hlinked
    obtain ⟨rest, hrest, hlinked⟩ := hlinked.exists_cons
    have hlast : k.next head = none := hroom head hqueue
    rw [hlast] at hlinked
    obtain rfl := hlinked.eq_nil
    have hheadne : s ≠ head := by
      rintro rfl
      refine h.notMem (d := d) hnone ?_
      rw [hrest]
      exact List.mem_singleton_self s
    have hnext : ∀ i, i ≠ head → k₁.next i = k.next i := by
      intro i hi
      rw [hk, next_setProc, if_neg hi, hnextSelf]
    refine h.link hne hlive hs hnone hbody (frame_enqueue hk₁).procRunning
      (congrArg (· ++ [_]) hlog) ?_ ?_ ?_
    · rw [hrest]
      change Linked k₁.next (k₁.proc d).queueSending [head, s]
      have hhead : (k₁.proc d).queueSending = some head := by
        rw [hk, proc_setProc]
        split_ifs with hdh
        · rw [← hdh, hd]
          exact hqueue.trans (congrArg some hdh.symm)
        · rw [hd]
          exact hqueue
      rw [hhead]
      refine .cons ?_
      have hheadnext : k₁.next head = some s := by
        rw [hk, next_setProc, if_pos rfl]
      rw [hheadnext]
      refine .cons ?_
      rw [hnext s hheadne, hmine]
      exact .nil
    · intro i _
      change (k₁.proc i).queueSending = _
      rw [hk, proc_setProc]
      split_ifs with hi
      · rw [hi]
        exact hqueues head
      · exact hqueues i
    · intro i hi
      refine hnext i ?_
      rintro rfl
      exact hi (by rw [hrest]; exact List.mem_singleton_self i)

structure Takes (k k' : Kernel) (r f : Slot) (m : Word) : Prop where
  pid : ∀ i, (k'.proc i).pid = (k.proc i).pid
  procRunning : k'.procRunning = k.procRunning
  log : k'.log = k.log ++ [.received f r m]
  queueSending : ∀ i, (k'.proc i).queueSending =
    if i = r then k.next f else (k.proc i).queueSending
  next : ∀ i, k'.next i = if i = f then none else k.next i
  pSendto : (k'.proc f).pSendto = IPC_TARGET_NONE
  sending : (k'.proc f).state ≠ PROC_STATE_SENDING
  receiving : (k'.proc f).state ≠ PROC_STATE_RECEIVING
  others : ∀ i, i ≠ f → (k'.proc i).body = (k.proc i).body

private theorem released_ne {p : Process} {st : BitVec 16} (hst : st.getLsbD 5 = false) :
    (released p).state ≠ st := by
  intro heq
  have hbit : (released p).state.getLsbD 5 = true := by
    change (p.state &&& ~~~PROC_STATE_SENDING ||| PROC_STATE_READY).getLsbD 5 = true
    rw [BitVec.getLsbD_or]
    exact Bool.or_eq_true_iff.mpr (.inr (by decide))
  rw [heq, hst] at hbit
  cases hbit

theorem receiveNow_takes {r f : Slot} {prev : Option Slot}
    (hhead : (k.proc r).queueSending = some f) (hok : k.receiveNow r f prev msg = .ok k') :
    k.Takes k' r f (k.proc f).pMsg ∧ k'.mem = copyMessage k.mem msg (k.proc f).pMsg := by
  obtain ⟨-, -, k₁, hk₁, rfl⟩ := receiveNow_cases hok
  have hbody := unlink_body hk₁
  have hframe := frame_unlink hk₁
  have hlog : k₁.log = k.log ∧ k₁.mem = k.mem := by
    rcases unlink_cases hk₁ with ⟨-, -, rfl⟩ | ⟨_, -, -, rfl⟩ <;> exact ⟨rfl, rfl⟩
  rcases unlink_cases hk₁ with ⟨-, -, hk⟩ | ⟨_, hne, -⟩
  swap
  · exact absurd hhead hne
  have hqueue₁ : ∀ i, (k₁.proc i).queueSending =
      if i = r then k.next f else (k.proc i).queueSending := by
    intro i
    rw [hk, proc_setProc]
    split_ifs with hf hr hr
    · rw [proc_setProc, if_pos (hf ▸ hr)]
      rfl
    · rw [proc_setProc_ne (hf ▸ hr), hf]
    · rw [hr, proc_setProc_self]
      rfl
    · rw [proc_setProc_ne hr]
  have hnext₁ : ∀ i, k₁.next i = if i = f then none else k.next i := by
    intro i
    rw [hk, next_setProc]
    split_ifs with hf
    · rfl
    · rw [next_setProc]
      split_ifs with hr
      · rw [hr]
        rfl
      · rfl
  obtain ⟨k₂, hk₂⟩ : ∃ k₂, k₂ = k₁.transfer (.received f r (k.proc f).pMsg) msg (k.proc f).pMsg :=
    ⟨_, rfl⟩
  have hproc : k₂.proc = k₁.proc := by
    rw [hk₂]
    rfl
  rw [← hk₂]
  have hself : (k₂.setProc f released).proc f = released (k₁.proc f) := by
    rw [proc_setProc_self, hproc]
  have hother : ∀ i, i ≠ f → (k₂.setProc f released).proc i = k₁.proc i := by
    intro i hi
    rw [proc_setProc_ne hi, hproc]
  refine ⟨⟨fun i => ?_, ?_, ?_, fun i => ?_, fun i => ?_, ?_, ?_, ?_, fun i hi => ?_⟩, ?_⟩
  · by_cases hi : i = f
    · rw [hi, hself]
      change (k₁.proc f).pid = _
      exact Process.pid_of_body (hbody f)
    · rw [hother i hi]
      exact Process.pid_of_body (hbody i)
  · rw [hk₂]
    exact hframe.procRunning
  · rw [hk₂]
    exact congrArg (· ++ [_]) hlog.1
  · rw [← hqueue₁]
    by_cases hi : i = f
    · rw [hi, hself]
      rfl
    · rw [hother i hi]
  · rw [← hnext₁]
    unfold next
    by_cases hi : i = f
    · rw [hi, hself]
      rfl
    · rw [hother i hi]
  · rw [hself]
    rfl
  · rw [hself]
    exact released_ne (by decide)
  · rw [hself]
    exact released_ne (by decide)
  · rw [hother i hi]
    exact hbody i
  · rw [hk₂]
    change copyMessage k₁.mem msg _ = _
    rw [hlog.2]

theorem Queued.take (h : k.Queued) {r f : Slot} {m : Word} {rest : List (Slot × Word)}
    (hqueue : blockedOn r k.log = (f, m) :: rest) (ht : k.Takes k' r f m) : k'.Queued := by
  have hmem : (f, m) ∈ blockedOn r k.log := by
    rw [hqueue]
    exact List.mem_cons_self
  obtain ⟨hsend, -⟩ := (h.pending f r m).mp hmem
  have hlinked := h.linked r
  rw [hqueue, List.map_cons] at hlinked
  have hfne : f ∉ rest.map Prod.fst := (List.nodup_cons.mp hlinked.nodup).1
  refine h.change ht.pid ht.procRunning ht.others
    ⟨?live, .inl ht.pSendto, ?sending, ?receiving, ?free⟩ ?linked ?pending ?unlinked
  case live => exact fun e he => absurd (he.symm.trans ht.pSendto) (val_ne_none e)
  case sending => exact fun hs => absurd hs ht.sending
  case receiving => exact fun _ => ht.pSendto
  case free => exact fun _ => ht.pSendto
  case linked =>
    intro i
    rw [ht.log, blockedOn_received, ht.queueSending]
    by_cases hi : i = r
    · subst hi
      rw [if_pos rfl, if_pos rfl, hqueue, List.erase_cons_head]
      refine hlinked.tail.congr fun a ha => ?_
      rw [ht.next, if_neg]
      rintro rfl
      exact hfne ha
    · rw [if_neg hi, if_neg (Ne.symm hi)]
      refine (h.linked i).congr fun a ha => ?_
      rw [ht.next, if_neg]
      rintro rfl
      exact h.notMem_of_mem (List.mem_map_of_mem hmem) hi ha
  case pending =>
    intro i e m'
    rw [ht.log, blockedOn_received]
    by_cases hi : i = f
    · subst hi
      rw [ht.pSendto]
      have hgone : (i, m') ∉ if r = e then (blockedOn e k.log).erase (i, m)
          else blockedOn e k.log := by
        by_cases he : r = e
        · subst he
          rw [if_pos rfl, hqueue, List.erase_cons_head]
          exact fun hin => hfne (List.mem_map_of_mem hin)
        · rw [if_neg he]
          intro hin
          have hsend' := ((h.pending i e m').mp hin).1
          exact he (val_inj (hsend.symm.trans hsend'))
      constructor
      · exact fun hin => absurd hin hgone
      · rintro ⟨hd, -⟩
        exact absurd hd.symm (val_ne_none e)
    · rw [Process.pSendto_of_body (ht.others i hi), Process.pMsg_of_body (ht.others i hi),
        ← h.pending]
      split_ifs with he
      · subst he
        rw [List.mem_erase_of_ne]
        intro heq
        exact hi (Prod.mk.inj heq).1
      · rfl
  case unlinked =>
    intro i hi
    rw [ht.next]
    by_cases hif : i = f
    · rw [if_pos hif]
    · rw [if_neg hif]
      exact h.unlinked i ((Process.pSendto_of_body (ht.others i hif)).symm.trans hi)

theorem Queued.head (h : k.Queued) {r f : Slot} (hhead : (k.proc r).queueSending = some f) :
    ∃ rest, blockedOn r k.log = (f, (k.proc f).pMsg) :: rest := by
  have hlinked := h.linked r
  rw [hhead] at hlinked
  obtain ⟨rest, hrest, -⟩ := hlinked.exists_cons
  obtain ⟨⟨f', m⟩, pairs, hpairs, hf, rfl⟩ := List.map_eq_cons_iff.mp hrest
  obtain rfl : f' = f := hf
  have hmem : (f', m) ∈ blockedOn r k.log := by
    rw [hpairs]
    exact List.mem_cons_self
  obtain ⟨-, hmsg⟩ := (h.pending f' r m).mp hmem
  exact ⟨pairs, by rw [hmsg, hpairs]⟩

theorem Queued.receiveHead (h : k.Queued) {r f : Slot} {prev : Option Slot}
    (hhead : (k.proc r).queueSending = some f) (hok : k.receiveNow r f prev msg = .ok k') :
    k'.Queued ∧ ∃ m rest, blockedOn r k.log = (f, m) :: rest ∧
      k'.log = k.log ++ [.received f r m] ∧ k'.mem = copyMessage k.mem msg m := by
  obtain ⟨rest, hqueue⟩ := h.head hhead
  obtain ⟨ht, hmem⟩ := receiveNow_takes hhead hok
  exact ⟨h.take hqueue ht, _, rest, hqueue, ht.log, hmem⟩

theorem Queued.blockReceiver (h : k.Queued) {r : Slot} {recvfrom : Int}
    (hok : k.blockReceiver r recvfrom msg = .ok k') : k'.Queued ∧ k'.log = k.log := by
  obtain ⟨-, -, -, hsend, rfl⟩ := blockReceiver_cases hok
  refine ⟨h.same (sameQueues_setProc rfl rfl rfl rfl ?_ ?_ fun _ => .inr hsend) h.current, rfl⟩
  · exact fun hne => absurd hsend hne
  · exact fun hs => absurd hs (by change PROC_STATE_RECEIVING ≠ _; decide)

end Kernel

end PComputer.PseudOS
