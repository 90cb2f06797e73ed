import PComputer.Kernel.Safety

/-!
# What one call does to the queues

A blocking send appends the sender to a queue only behind at most one other; a
receive from one sender takes it out of the queue only from its head.
-/

namespace PComputer.PseudOS

open PComputer.Foundation PComputer.Rtl

namespace Kernel

variable {k k' : Kernel} {queues : Slot → List Slot} {s d r e : Slot} {msg : Word}

/-! ## Well-formed queues -/

/-- The queue of each process is that sequence of senders; outside the queues there are no links. -/
structure Queues (k : Kernel) (queues : Slot → List Slot) : Prop where
  pid : ∀ i, (k.proc i).pid = -1 ∨ (k.proc i).pid = i.val
  linked : ∀ d, Linked k.next (k.proc d).queueSending (queues d)
  sender : ∀ d, ∀ s ∈ queues d,
    (k.proc s).state = PROC_STATE_SENDING ∧ (k.proc s).pSendto = d.val
  unlinked : ∀ s, (∀ d, s ∉ queues d) → k.next s = none

private theorem Queues.notMem_of_running (h : k.Queues queues)
    (hs : (k.proc s).state = PROC_STATE_RUNNING) (d : Slot) : s ∉ queues d := fun hmem =>
  sending_ne_running ((h.sender d s hmem).1.symm.trans hs)

private theorem Queues.notMem_of_ne (h : k.Queues queues) (hmem : s ∈ queues d) (hne : e ≠ d) :
    s ∉ queues e := fun hmem' =>
  hne (val_inj ((h.sender e s hmem').2.symm.trans (h.sender d s hmem).2))

theorem Queues.of_queued (hwf : k.Wf) (h : k.Queued) :
    k.Queues fun d => (blockedOn d k.log).map Prod.fst where
  pid := h.pid
  linked := h.linked
  sender d s hmem := by
    obtain ⟨⟨s', m⟩, hpair, rfl⟩ := List.mem_map.mp hmem
    obtain ⟨hsend, -⟩ := (h.pending s' d m).mp hpair
    exact ⟨((hwf.valid s').sending_of_sendto (hsend ▸ val_ne_none d)).1, hsend⟩
  unlinked s hs := by
    refine h.unlinked s ?_
    by_contra hsend
    obtain ⟨d, hd⟩ := (h.sendto s).resolve_left hsend
    exact hs d (List.mem_map_of_mem ((h.pending s d _).mpr ⟨hd, rfl⟩))

/-! ## Send -/

/-- The sender is at the end of its queue, and blocked with its message. -/
structure Appended (k' : Kernel) (queues : Slot → List Slot) (s d : Slot) (msg : Word) : Prop where
  queue : Linked k'.next (k'.proc d).queueSending (queues d ++ [s])
  others : ∀ e, e ≠ d → Linked k'.next (k'.proc e).queueSending (queues e)
  state : (k'.proc s).state = PROC_STATE_SENDING
  pSendto : (k'.proc s).pSendto = d.val
  pMsg : (k'.proc s).pMsg = msg

private theorem next_keep {f : Process → Process}
    (hf : ∀ p, (f p).queueSendingNext = p.queueSendingNext)
    (k : Kernel) (i j : Slot) : (k.setProc i f).next j = k.next j := by
  rw [next_setProc, hf]
  split_ifs with hj
  · rw [hj]
    rfl
  · rfl

private theorem next_transfer (k : Kernel) (note : Transfer) (dst src : Word) (i : Slot) :
    (k.transfer note dst src).next i = k.next i := rfl

private theorem next_blockOn (k : Kernel) (s i : Slot) (dest : Int) (msg : Word) :
    (k.setProc s (Process.blockOn dest msg)).next i = k.next i :=
  next_keep (by intro; rfl) k s i

private theorem queueSending_blockOn (k : Kernel) (s i : Slot) (dest : Int) (msg : Word) :
    ((k.setProc s (Process.blockOn dest msg)).proc i).queueSending = (k.proc i).queueSending := by
  rw [proc_blockOn]
  split_ifs with hi
  · rw [hi]
    rfl
  · rfl

private theorem queueSending_link (k : Kernel) (i j : Slot) (link : Option Slot) :
    ((k.setProc i fun p => { p with queueSendingNext := link }).proc j).queueSending =
      (k.proc j).queueSending := by
  rw [proc_setProc]
  split_ifs with hj
  · rw [hj]
  · rfl

private theorem Queues.blockSender_links (h : k.Queues queues)
    (hs : (k.proc s).state = PROC_STATE_RUNNING) (hne : d ≠ s)
    (hok : k.blockSender s d d.val msg = .ok k') :
    (∀ e, e ≠ d → Linked k'.next (k'.proc e).queueSending (queues e)) ∧
      (queues d = [] ∧ Linked k'.next (k'.proc d).queueSending [s] ∨
        k.next d = none ∧ ∃ head rest, queues d = head :: rest ∧
          Linked k'.next (k'.proc d).queueSending [head, s]) := by
  obtain ⟨-, -, -, k₁, hk₁, rfl⟩ := blockSender_cases hok
  have hmine : k.next s = none := h.unlinked s (h.notMem_of_running hs)
  change (∀ e, e ≠ d → Linked k₁.next (k₁.proc e).queueSending (queues e)) ∧
    (queues d = [] ∧ Linked k₁.next (k₁.proc d).queueSending [s] ∨
      k.next d = none ∧ ∃ head rest, queues d = head :: rest ∧
        Linked k₁.next (k₁.proc d).queueSending [head, s])
  have hd : (k.setProc s (Process.blockOn d.val msg)).proc d = k.proc d := proc_setProc_ne hne k _
  rcases enqueue_cases hk₁ with ⟨hqueue, rfl⟩ | ⟨head, hqueue, hnext, rfl⟩
  · -- the queue was empty
    rw [hd] at hqueue
    have hempty : queues d = [] := by
      have hlinked := h.linked d
      rw [hqueue] at hlinked
      exact hlinked.eq_nil
    have hnext : ∀ i, next ((k.setProc s (Process.blockOn d.val msg)).setProc d fun p =>
        { p with queueSending := some s }) i = k.next i := by
      intro i
      rw [next_keep (by intro; rfl), next_blockOn]
    refine ⟨fun e he => ?_, .inl ⟨hempty, ?_⟩⟩
    · rw [proc_setProc_ne he, queueSending_blockOn]
      exact (h.linked e).congr fun a _ => hnext a
    · rw [proc_setProc_self]
      refine .cons ?_
      rw [hnext, hmine]
      exact .nil
  · -- the new link replaces the one of the head
    rw [hd] at hqueue hnext
    have hlinked := h.linked d
    rw [hqueue] at hlinked
    obtain ⟨rest, hrest, -⟩ := hlinked.exists_cons
    have hhead : head ∈ queues d := by
      rw [hrest]
      exact List.mem_cons_self
    have hsh : s ≠ head := by
      rintro rfl
      exact h.notMem_of_running hs d hhead
    have hother : ∀ i, i ≠ head → next ((k.setProc s (Process.blockOn d.val msg)).setProc head
        fun p => { p with queueSendingNext := some s }) i = k.next i := by
      intro i hi
      rw [next_setProc, if_neg hi, next_blockOn]
    refine ⟨fun e he => ?_, .inr ⟨hnext, head, rest, hrest, ?_⟩⟩
    · rw [queueSending_link, queueSending_blockOn]
      refine (h.linked e).congr fun a ha => hother a ?_
      rintro rfl
      exact h.notMem_of_ne hhead he ha
    · rw [queueSending_link, queueSending_blockOn, hqueue]
      refine .cons ?_
      rw [next_setProc, if_pos rfl]
      refine .cons ?_
      rw [hother s hsh, hmine]
      exact .nil

private theorem msgSend_blocks (hwaits : k.waitsFor d s = false) :
    k.msgSend s d.val msg false = .ok (0, k') ↔
      (k.proc s).pid ≠ (k.proc d).pid ∧ k.blockSender s d d.val msg = .ok k' := by
  constructor
  · intro hok
    obtain ⟨d', hd', hpid, hcases⟩ := msgSend_cases hok
    rw [pid2proc_val] at hd'
    obtain rfl : d = d' := Except.ok.inj hd'
    rw [hwaits] at hcases
    rcases hcases with ⟨hwaits', -⟩ | ⟨-, hblocking, -⟩ | ⟨-, -, -, hblock⟩
    · cases hwaits'
    · cases hblocking
    · exact ⟨hpid, hblock⟩
  · rintro ⟨hpid, hblock⟩
    unfold msgSend
    simp only [pid2proc_val, bind_eq_ok, Except.ok.injEq, exists_eq_left', assert_eq_ok,
      bne_iff_ne, hwaits, Bool.false_eq_true, if_false, hblock]
    exact ⟨(), hpid, rfl⟩

theorem Queues.room (h : k.Queues queues) (hs : (k.proc s).state = PROC_STATE_RUNNING)
    (hne : d ≠ s) (hok : k.blockSender s d d.val msg = .ok k')
    (hk' : k'.Appended queues s d msg) :
    queues d = [] ∨ k.next d = none ∧ ∃ head, queues d = [head] := by
  rcases (h.blockSender_links hs hne hok).2 with ⟨hempty, -⟩ | ⟨hnext, head, rest, hrest, hlinked⟩
  · exact .inl hempty
  · refine .inr ⟨hnext, head, ?_⟩
    have htwo : queues d ++ [s] = [head] ++ [s] := hk'.queue.unique hlinked
    exact List.append_cancel_right htwo

/-- A blocking send appends the sender exactly behind at most one other. -/
theorem msgSend_appends_iff (h : k.Queues queues) (hs : (k.proc s).state = PROC_STATE_RUNNING)
    (hlive : (k.proc s).pid = s.val) (hne : d ≠ s) (hwaits : k.waitsFor d s = false)
    (msg : Word) :
    (∃ k', k.msgSend s d.val msg false = .ok (0, k') ∧ k'.Appended queues s d msg) ↔
      msg ≠ 0 ∧ (k.proc s).pRecvfrom = IPC_TARGET_NONE ∧
        (queues d = [] ∨ k.next d = none ∧ ∃ head, queues d = [head]) := by
  have hpid : (k.proc s).pid ≠ (k.proc d).pid := by
    rw [hlive]
    rcases h.pid d with hfree | hd
    · rw [hfree]
      omega
    · rw [hd]
      exact fun heq => hne (val_inj heq).symm
  simp only [msgSend_blocks hwaits, hpid, ne_eq, not_false_eq_true, true_and]
  constructor
  · rintro ⟨k', hok, hk'⟩
    obtain ⟨-, hmsg, hrecv, -⟩ := blockSender_cases hok
    exact ⟨hmsg, hrecv, h.room hs hne hok hk'⟩
  · rintro ⟨hmsg, hrecv, hroom⟩
    have hfits : (k.proc d).queueSending = none ∨ k.next d = none := by
      rcases hroom with hempty | ⟨hnext, -⟩
      · have hlinked := h.linked d
        rw [hempty] at hlinked
        exact .inl hlinked.head_eq_none
      · exact .inr hnext
    obtain ⟨k', hok⟩ := (succeeds_blockSender hne.symm hs hrecv).mpr ⟨hmsg, hfits⟩
    obtain ⟨hothers, hcases⟩ := h.blockSender_links hs hne hok
    obtain ⟨-, -, -, k₁, hk₁, rfl⟩ := blockSender_cases hok
    have hbody := enqueue_body hk₁ s
    rw [proc_setProc_self] at hbody
    refine ⟨_, hok, ⟨?_, hothers, Process.state_of_body hbody, Process.pSendto_of_body hbody,
      Process.pMsg_of_body hbody⟩⟩
    rcases hcases with ⟨hempty, hlinked⟩ | ⟨-, head, rest, hrest, hlinked⟩
    · rw [hempty]
      exact hlinked
    · rcases hroom with hempty | ⟨-, head', hone⟩
      · rw [hempty] at hrest
        cases hrest
      · obtain ⟨rfl, -⟩ := List.cons.inj (hone.symm.trans hrest)
        rw [hone]
        exact hlinked

/-! ## Receive -/

/-- The message of `s` is copied, `s` is READY and out of the queue of `r`. -/
structure Unlinked (k k' : Kernel) (queues : Slot → List Slot) (r s : Slot) (msg : Word) :
    Prop where
  mem : k'.mem = copyMessage k.mem msg (k.proc s).pMsg
  state : (k'.proc s).state = PROC_STATE_READY
  pMsg : (k'.proc s).pMsg = 0
  pSendto : (k'.proc s).pSendto = IPC_TARGET_NONE
  queue : Linked k'.next (k'.proc r).queueSending ((queues r).erase s)
  others : ∀ e, e ≠ r → Linked k'.next (k'.proc e).queueSending (queues e)

private theorem findSender_prev {src : Int} {n : Nat} {start prev found last : Option Slot}
    {queue : List Slot} (h : Linked k.next start queue)
    (hfind : k.findSender src n start prev = .ok (found, last)) :
    ∀ q ∈ last, q ∈ queue ∨ q ∈ prev := by
  induction h generalizing n prev with
  | nil =>
      intro q hq
      cases n <;> cases hfind <;> exact .inr hq
  | @cons p queue hrest ih =>
      cases n with
      | zero => cases hfind
      | succ n =>
          unfold findSender at hfind
          split_ifs at hfind with hpid
          · cases hfind
            exact fun q hq => .inr hq
          · intro q hq
            rcases ih hfind q hq with hmem | hp
            · exact .inl (List.mem_cons_of_mem p hmem)
            · obtain rfl : p = q := Option.some.inj hp
              exact .inl List.mem_cons_self

theorem Queues.sendsTo (h : k.Queues queues) (hr : (k.proc r).pid = r.val) (hmem : s ∈ queues r) :
    k.sendsTo s r = true := by
  obtain ⟨hstate, hsend⟩ := h.sender r s hmem
  unfold Kernel.sendsTo
  rw [hstate, hsend, hr]
  simp only [beq_self_eq_true, Bool.and_true]
  decide

/-- Behind another sender the source edits the queues of the two senders themselves. -/
theorem Queues.receiveNow_behind (h : k.Queues queues) {prev : Option Slot}
    (hr : (k.proc r).state = PROC_STATE_RUNNING) (hmem : s ∈ queues r)
    (hprev : ∀ q ∈ prev, q ∈ queues r) (hhead : (k.proc r).queueSending ≠ some s)
    (hok : k.receiveNow r s prev msg = .ok k') :
    Linked k'.next (k'.proc r).queueSending (queues r) := by
  obtain ⟨-, -, k₁, hk₁, rfl⟩ := receiveNow_cases hok
  obtain ⟨q, -, hq, rfl⟩ := (unlink_cases hk₁).resolve_left fun hfirst => hhead hfirst.1
  have hne : ∀ a ∈ queues r, r ≠ a := by
    rintro a ha rfl
    exact h.notMem_of_running hr r ha
  have hrs := hne s hmem
  have hrq := hne q (hprev q hq)
  rw [proc_setProc_ne hrs, proc_transfer, proc_setProc_ne hrs, proc_setProc_ne hrq]
  refine (h.linked r).congr fun a _ => ?_
  rw [next_keep (by intro; rfl), next_transfer, next_keep (by intro; rfl),
    next_keep (by intro; rfl)]

private theorem chooseSpecific_running {src : Int} {f : Slot} {prev : Option Slot}
    (hok : k.chooseSpecific r src = .ok (.take f prev)) :
    (k.proc r).state = PROC_STATE_RUNNING := by
  unfold chooseSpecific at hok
  obtain ⟨f', -, hok⟩ := bind_eq_ok.mp hok
  split_ifs at hok with hsends
  · simp only [bind_eq_ok, assert_eq_ok, beq_iff_eq, Prod.exists] at hok
    obtain ⟨-, -, -, -, -, -, hrun, -⟩ := hok
    exact hrun
  · cases hok

theorem Queues.chooseSpecific (h : k.Queues queues) (hr : (k.proc r).pid = r.val)
    (hmem : s ∈ queues r) {choice : Choice} (hok : k.chooseSpecific r s.val = .ok choice) :
    ∃ prev, choice = .take s prev ∧ ∀ q ∈ prev, q ∈ queues r := by
  obtain ⟨f, hf, ⟨hnot, -⟩ | ⟨-, found, prev, hfind, -, rfl⟩⟩ := chooseSpecific_cases hok
  · rw [pid2proc_val] at hf
    obtain rfl : s = f := Except.ok.inj hf
    exact absurd (h.sendsTo hr hmem) (by rw [hnot]; exact Bool.false_ne_true)
  · rw [found_eq h.pid hf (findSender_pid hfind)]
    rw [pid2proc_val] at hf
    obtain rfl : s = f := Except.ok.inj hf
    refine ⟨prev, rfl, fun q hq => ?_⟩
    exact (findSender_prev (h.linked r) hfind q hq).resolve_right fun hnone => nomatch hnone

private theorem Queues.chooseSpecific_head (hwf : k.Wf) (h : k.Queues queues)
    (hr : (k.proc r).pid = r.val) (hs : (k.proc s).pid = s.val) (hmem : s ∈ queues r)
    (hrun : (k.proc r).state = PROC_STATE_RUNNING)
    (hhead : (k.proc r).queueSending = some s)
    (hrecv : (k.proc s).pRecvfrom = IPC_TARGET_NONE) :
    k.chooseSpecific r s.val = .ok (.take s none) := by
  obtain ⟨hmsg, hsend, hrecvR⟩ := (hwf.valid r).idle_of_running hrun
  have hfind : k.findSender s.val PROC_NUM_MAX (some s) none = .ok (some s, none) := by
    unfold findSender
    rw [if_pos hs]
  unfold Kernel.chooseSpecific
  simp only [pid2proc_val, bind_eq_ok, Except.ok.injEq, exists_eq_left', h.sendsTo hr hmem, if_true,
    assert_eq_ok, beq_iff_eq, pure_eq_ok, hhead, hfind]
  exact ⟨(), rfl, (), hrun, (), hmsg, (), hrecvR, (), hsend, (), hrecv, rfl⟩

private theorem receiveNow_sender {f : Slot} {prev : Option Slot}
    (hstate : (k.proc f).state = PROC_STATE_SENDING) (hok : k.receiveNow r f prev msg = .ok k') :
    (k'.proc f).state = PROC_STATE_READY ∧ (k'.proc f).pMsg = 0 := by
  obtain ⟨-, -, k₁, hk₁, rfl⟩ := receiveNow_cases hok
  rw [proc_setProc_self]
  exact ⟨Process.released_state ((Process.state_of_body (unlink_body hk₁ f)).trans hstate), rfl⟩

theorem val_ne_any (d : Slot) : (d.val : Int) ≠ IPC_TARGET_ANY := by
  unfold IPC_TARGET_ANY
  omega

theorem Queues.head (h : k.Queues queues) (hr : (k.proc r).pid = r.val) (hmem : s ∈ queues r)
    (hok : k.msgReceive r s.val msg = .ok (0, k')) (hk' : k.Unlinked k' queues r s msg) :
    (k.proc r).state = PROC_STATE_RUNNING ∧ msg ≠ 0 ∧ (k.proc r).queueSending = some s := by
  have hchoose : k.choose r s.val = k.chooseSpecific r s.val := if_neg (val_ne_any s)
  obtain ⟨-, -, ⟨f, prev, htake, hnow⟩ | ⟨recvfrom, hblock, -⟩⟩ := msgReceive_cases hok
  · rw [hchoose] at htake
    obtain ⟨prev', heq, hprev⟩ := h.chooseSpecific hr hmem htake
    obtain ⟨rfl, rfl⟩ := Choice.take.inj heq
    have hrun := chooseSpecific_running htake
    refine ⟨hrun, (receiveNow_cases hnow).1, ?_⟩
    by_contra hhead
    have hsame := hk'.queue.unique (h.receiveNow_behind hrun hmem hprev hhead hnow)
    have hlength := congrArg List.length hsame
    rw [List.length_erase_of_mem hmem] at hlength
    have hpos := List.length_pos_of_mem hmem
    omega
  · rw [hchoose] at hblock
    obtain ⟨prev, heq, -⟩ := h.chooseSpecific hr hmem hblock
    cases heq

/-- A receive from one sender takes it out of the queue exactly from its head. -/
theorem msgReceive_unlinks_iff (hwf : k.Wf) (h : k.Queues queues) (hr : (k.proc r).pid = r.val)
    (hs : (k.proc s).pid = s.val) (hmem : s ∈ queues r) (msg : Word) :
    (∃ k', k.msgReceive r s.val msg = .ok (0, k') ∧ k.Unlinked k' queues r s msg) ↔
      (k.proc r).state = PROC_STATE_RUNNING ∧ msg ≠ 0 ∧ (k.proc r).queueSending = some s := by
  have hchoose : k.choose r s.val = k.chooseSpecific r s.val := if_neg (val_ne_any s)
  obtain ⟨hsending, hsendto⟩ := h.sender r s hmem
  obtain ⟨-, hmsg, hrecv⟩ := (hwf.valid s).sending_of_sendto (hsendto ▸ val_ne_none r)
  constructor
  · rintro ⟨k', hok, hk'⟩
    exact h.head hr hmem hok hk'
  · rintro ⟨hrun, hm, hhead⟩
    obtain ⟨k', hnow⟩ : Succeeds (k.receiveNow r s none msg) :=
      (succeeds_receiveNow hmsg).mpr ⟨hm, iff_of_true hhead rfl⟩
    obtain ⟨ht, hmem'⟩ := receiveNow_takes hhead hnow
    have hne : (k.proc r).pid ≠ s.val := by
      rw [hr]
      intro heq
      obtain rfl := val_inj heq
      exact h.notMem_of_running hrun r hmem
    have hok : k.msgReceive r s.val msg = .ok (0, k') := by
      unfold msgReceive
      simp only [bind_eq_ok, assert_eq_ok, bne_iff_ne, hchoose,
        h.chooseSpecific_head hwf hr hs hmem hrun hhead hrecv, Except.ok.injEq, exists_eq_left']
      exact ⟨(), hne, k', hnow, rfl⟩
    have hlinked := h.linked r
    rw [hhead] at hlinked
    obtain ⟨rest, hrest, hlinked⟩ := hlinked.exists_cons
    have hnodup := (hrest ▸ (h.linked r).nodup)
    obtain ⟨hready, hnone⟩ := receiveNow_sender hsending hnow
    refine ⟨k', hok, hmem', hready, hnone, ht.pSendto, ?_, fun e he => ?_⟩
    · rw [ht.queueSending, if_pos rfl, hrest, List.erase_cons_head]
      refine hlinked.congr fun a ha => ?_
      rw [ht.next, if_neg]
      rintro rfl
      exact (List.nodup_cons.mp hnodup).1 ha
    · rw [ht.queueSending, if_neg he]
      refine (h.linked e).congr fun a ha => ?_
      rw [ht.next, if_neg]
      rintro rfl
      exact h.notMem_of_ne hmem he ha

/-! ### Two senders at one process -/

def glance (k : Kernel) (c : Slot) : Bool :=
  (k.proc c).state == PROC_STATE_RUNNING && (k.proc c).pid == c.val &&
    (k.proc c).pRecvfrom == IPC_TARGET_NONE && !k.waitsFor 5 c && (k.proc 1).pid == 1 &&
    (k.proc 2).pid == 2 && (blockedOn 5 k.log).map Prod.fst == [1, 2]

private theorem exists_queues {events : List Event} {look : Kernel → Bool}
    (h : ((follow (Kernel.step tiedHigh) sendsInOrder
      ((default : Kernel).prepareProcesses someImage) events).map look) = some true) :
    ∃ k, Run (Kernel.step tiedHigh) (Started someImage)
        (fun k e => k.enabled e = true ∧ k.Covers e ∧ k.Orderly e) events k ∧
      k.Wf ∧ (k.Queues fun d => (blockedOn d k.log).map Prod.fst) ∧ look k = true := by
  obtain ⟨k, hrun, hlook⟩ := exists_sending h
  obtain ⟨⟨c', hcurrent, -⟩, hqueued⟩ := steady_queued_of_run hrun
  exact ⟨k, hrun, hcurrent.toWf, .of_queued hcurrent.toWf hqueued, hlook⟩

private theorem exists_thirdSender :
    ∃ k, Run (Kernel.step tiedHigh) (Started someImage)
        (fun k e => k.enabled e = true ∧ k.Covers e ∧ k.Orderly e) (sendingToFs 0) k ∧
      k.Wf ∧ (k.Queues fun d => (blockedOn d k.log).map Prod.fst) ∧ k.glance 3 = true :=
  exists_queues (by decide +kernel)

private theorem exists_receiver :
    ∃ k, Run (Kernel.step tiedHigh) (Started someImage)
        (fun k e => k.enabled e = true ∧ k.Covers e ∧ k.Orderly e) (sendingToFs 5) k ∧
      k.Wf ∧ (k.Queues fun d => (blockedOn d k.log).map Prod.fst) ∧ k.glance 5 = true :=
  exists_queues (by decide +kernel)

/-- The third sender displaces the second one. -/
theorem third_sender_not_appended :
    ¬ ∀ (k : Kernel) (queues : Slot → List Slot) (s d : Slot) (msg : Word), k.Queues queues →
      (k.proc s).state = PROC_STATE_RUNNING → (k.proc s).pid = s.val → d ≠ s →
      k.waitsFor d s = false → msg ≠ 0 → (k.proc s).pRecvfrom = IPC_TARGET_NONE →
      ∃ k', k.msgSend s d.val msg false = .ok (0, k') ∧ k'.Appended queues s d msg := by
  intro hclaim
  obtain ⟨k, -, -, hqueues, hglance⟩ := exists_thirdSender
  simp only [glance, Bool.and_eq_true, Bool.not_eq_true', beq_iff_eq] at hglance
  obtain ⟨⟨⟨⟨⟨⟨hrun, hpid⟩, hrecv⟩, hwaits⟩, -⟩, -⟩, htwo⟩ := hglance
  obtain ⟨k', hok, hk'⟩ := hclaim k _ 3 5 (messageOf 3) hqueues hrun hpid (by decide) hwaits
    (by decide) hrecv
  have hroom := hqueues.room hrun (by decide) ((msgSend_blocks hwaits).mp hok).2 hk'
  rw [htwo] at hroom
  rcases hroom with hempty | ⟨-, head, hone⟩
  · cases hempty
  · cases hone

/-- Pid 1 sends to pid 5, so that pid 2 has its turn. -/
def firstSends : List Event :=
  List.replicate 5 (.tick receiveAny) ++ [.ecall (.ecall IPC_SEND 5 (messageOf 1) 0x20010000)]

def secondSender (k : Kernel) : Bool :=
  (k.proc 2).state == PROC_STATE_RUNNING && (k.proc 2).pid == 2 &&
    (k.proc 2).pRecvfrom == IPC_TARGET_NONE && !k.waitsFor 5 2 && k.next 5 == none &&
    (blockedOn 5 k.log).map Prod.fst == [1]

private theorem exists_secondSender :
    ∃ k, Run (Kernel.step tiedHigh) (Started someImage)
        (fun k e => k.enabled e = true ∧ k.Covers e ∧ k.Orderly e) firstSends k ∧
      k.Wf ∧ (k.Queues fun d => (blockedOn d k.log).map Prod.fst) ∧ k.secondSender = true :=
  exists_queues (by decide +kernel)

theorem second_sender_appended :
    ∃ k : Kernel, k.secondSender = true ∧
      ∃ k', k.msgSend 2 (5 : Slot).val (messageOf 2) false = .ok (0, k') ∧
        k'.Appended (fun d => (blockedOn d k.log).map Prod.fst) 2 5 (messageOf 2) := by
  obtain ⟨k, -, -, hqueues, hlook⟩ := exists_secondSender
  refine ⟨k, hlook, ?_⟩
  simp only [secondSender, Bool.and_eq_true, Bool.not_eq_true', beq_iff_eq] at hlook
  obtain ⟨⟨⟨⟨⟨hrun, hpid⟩, hrecv⟩, hwaits⟩, hnext⟩, hone⟩ := hlook
  exact (msgSend_appends_iff hqueues hrun hpid (by decide) hwaits _).mpr
    ⟨by decide, hrecv, .inr ⟨hnext, 1, hone⟩⟩

/-- Received from behind pid 1, pid 2 stays in the queue. -/
theorem second_sender_not_unlinked :
    ¬ ∀ (k : Kernel) (queues : Slot → List Slot) (r s : Slot) (msg : Word), k.Wf →
      k.Queues queues → (k.proc r).pid = r.val → (k.proc s).pid = s.val → s ∈ queues r →
      (k.proc r).state = PROC_STATE_RUNNING → msg ≠ 0 →
      ∃ k', k.msgReceive r s.val msg = .ok (0, k') ∧ k.Unlinked k' queues r s msg := by
  intro hclaim
  obtain ⟨k, -, hwf, hqueues, hglance⟩ := exists_receiver
  simp only [glance, Bool.and_eq_true, Bool.not_eq_true', beq_iff_eq] at hglance
  obtain ⟨⟨⟨⟨⟨⟨hrun, hpid⟩, -⟩, -⟩, -⟩, hsecond⟩, htwo⟩ := hglance
  have hmem : (2 : Slot) ∈ (blockedOn 5 k.log).map Prod.fst := by
    rw [htwo]
    decide
  obtain ⟨k', hok, hk'⟩ := hclaim k _ 5 2 (messageOf 5) hwf hqueues hpid hsecond hmem hrun
    (by decide)
  obtain ⟨-, -, hhead⟩ := hqueues.head hpid hmem hok hk'
  have hlinked := hqueues.linked 5
  rw [htwo] at hlinked
  exact absurd (hlinked.head_eq.symm.trans hhead) (by decide)

theorem first_sender_unlinked :
    ∃ k, Run (Kernel.step tiedHigh) (Started someImage)
        (fun k e => k.enabled e = true ∧ k.Covers e ∧ k.Orderly e) (sendingToFs 5) k ∧
      ∃ k', k.msgReceive 5 (1 : Slot).val (messageOf 5) = .ok (0, k') ∧
        k.Unlinked k' (fun d => (blockedOn d k.log).map Prod.fst) 5 1 (messageOf 5) := by
  obtain ⟨k, hfollow, hwf, hqueues, hglance⟩ := exists_receiver
  simp only [glance, Bool.and_eq_true, Bool.not_eq_true', beq_iff_eq] at hglance
  obtain ⟨⟨⟨⟨⟨⟨hrun, hpid⟩, -⟩, -⟩, hfirst⟩, -⟩, htwo⟩ := hglance
  have hmem : (1 : Slot) ∈ (blockedOn 5 k.log).map Prod.fst := by
    rw [htwo]
    decide
  have hlinked := hqueues.linked 5
  rw [htwo] at hlinked
  exact ⟨k, hfollow, (msgReceive_unlinks_iff hwf hqueues hpid hfirst hmem (messageOf 5)).mpr
    ⟨hrun, by decide, hlinked.head_eq⟩⟩

end Kernel

end PComputer.PseudOS
