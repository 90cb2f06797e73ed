import PComputer.Kernel.Calls

/-!
# The states of a process

Which IPC fields go with which state, and that every call of the IPC keeps it.
-/

namespace PComputer.PseudOS

open PComputer.Foundation PComputer.Rtl

/-! ## The states of one process -/

namespace Process

structure Idle (p : Process) : Prop where
  pMsg : p.pMsg = 0
  pSendto : p.pSendto = IPC_TARGET_NONE
  pRecvfrom : p.pRecvfrom = IPC_TARGET_NONE

inductive Valid (p : Process) : Prop where
  | free (hstate : p.state = PROC_STATE_UNDEF) (hidle : p.Idle)
  | running (hstate : p.state = PROC_STATE_RUNNING) (hidle : p.Idle)
  | ready (hstate : p.state = PROC_STATE_READY) (hidle : p.Idle)
  | sending (hstate : p.state = PROC_STATE_SENDING) (hmsg : p.pMsg ≠ 0)
      (hrecv : p.pRecvfrom = IPC_TARGET_NONE)
  | receiving (hstate : p.state = PROC_STATE_RECEIVING) (hmsg : p.pMsg ≠ 0)
      (hsend : p.pSendto = IPC_TARGET_NONE)

variable {p q : Process}

theorem Valid.congr (hstate : q.state = p.state) (hmsg : q.pMsg = p.pMsg)
    (hsend : q.pSendto = p.pSendto) (hrecv : q.pRecvfrom = p.pRecvfrom) (h : p.Valid) :
    q.Valid := by
  have hidle : p.Idle → q.Idle := fun h =>
    ⟨hmsg.trans h.pMsg, hsend.trans h.pSendto, hrecv.trans h.pRecvfrom⟩
  cases h with
  | free hs hi => exact .free (hstate.trans hs) (hidle hi)
  | running hs hi => exact .running (hstate.trans hs) (hidle hi)
  | ready hs hi => exact .ready (hstate.trans hs) (hidle hi)
  | sending hs hm hr => exact .sending (hstate.trans hs) (hmsg ▸ hm) (hrecv.trans hr)
  | receiving hs hm hr => exact .receiving (hstate.trans hs) (hmsg ▸ hm) (hsend.trans hr)

theorem Valid.of_body (hbody : q.body = p.body) (h : p.Valid) : q.Valid :=
  h.congr (state_of_body hbody) (pMsg_of_body hbody) (pSendto_of_body hbody)
    (pRecvfrom_of_body hbody)

theorem Valid.idle_of_running (h : p.Valid) (hs : p.state = PROC_STATE_RUNNING) : p.Idle := by
  cases h with
  | free hs' | sending hs' | receiving hs' => exact absurd (hs'.symm.trans hs) (by decide)
  | running _ hi | ready _ hi => exact hi

theorem Valid.idle_of_ready (h : p.Valid) (hs : p.state = PROC_STATE_READY) : p.Idle := by
  cases h with
  | free hs' | sending hs' | receiving hs' => exact absurd (hs'.symm.trans hs) (by decide)
  | running _ hi | ready _ hi => exact hi

private theorem Valid.sendto_of_receiving (h : p.Valid) (hs : p.state = PROC_STATE_RECEIVING) :
    p.pSendto = IPC_TARGET_NONE := by
  cases h with
  | free hs' | running hs' | ready hs' | sending hs' =>
      exact absurd (hs'.symm.trans hs) (by decide)
  | receiving _ _ hsend => exact hsend

theorem Valid.sending_of_sendto (h : p.Valid) (hs : p.pSendto ≠ IPC_TARGET_NONE) :
    p.state = PROC_STATE_SENDING ∧ p.pMsg ≠ 0 ∧ p.pRecvfrom = IPC_TARGET_NONE := by
  cases h with
  | free _ hi | running _ hi | ready _ hi => exact absurd hi.pSendto hs
  | sending hs hm hr => exact ⟨hs, hm, hr⟩
  | receiving _ _ hsend => exact absurd hsend hs

theorem Valid.blockOn {dest : Int} {msg : Word} (h : p.pRecvfrom = IPC_TARGET_NONE)
    (hmsg : msg ≠ 0) : (p.blockOn dest msg).Valid := .sending rfl hmsg h

theorem Valid.waiting {recvfrom : Int} {msg : Word} (h : p.pSendto = IPC_TARGET_NONE)
    (hmsg : msg ≠ 0) : (Kernel.waiting recvfrom msg p).Valid := .receiving rfl hmsg h

theorem released_state (h : p.state = PROC_STATE_SENDING) :
    (Kernel.released p).state = PROC_STATE_READY := by
  simp only [Kernel.released, h]
  decide

theorem Valid.released (h : p.state = PROC_STATE_SENDING)
    (hrecv : p.pRecvfrom = IPC_TARGET_NONE) : (Kernel.released p).Valid :=
  .ready (released_state h) ⟨rfl, rfl, hrecv⟩

end Process

/-! ## The table -/

namespace Kernel

structure Wf (k : Kernel) : Prop where
  pid : ∀ i, (k.proc i).pid = -1 ∨ (k.proc i).pid = i.val
  valid : ∀ i, (k.proc i).Valid

/-- Process `c` is the current one; no other is RUNNING.  `c` itself may have blocked. -/
structure Current (k : Kernel) (c : Slot) : Prop extends k.Wf where
  procRunning : k.procRunning = c.val
  live : (k.proc c).pid = c.val
  only : ∀ i, (k.proc i).state = PROC_STATE_RUNNING → i = c

/-- Exactly one process is RUNNING, it is `proc_running`, and it has no unfinished IPC. -/
def Settled (k : Kernel) : Prop :=
  ∃ c : Slot, k.procRunning = c.val ∧
    (∀ i, (k.proc i).state = PROC_STATE_RUNNING ↔ i = c) ∧ (k.proc c).Idle

variable {k k' : Kernel} {c : Slot}

theorem Current.settled (h : k.Current c) (hc : (k.proc c).state = PROC_STATE_RUNNING) :
    k.Settled := by
  refine ⟨c, h.procRunning, fun i => ⟨h.only i, ?_⟩, (h.valid c).idle_of_running hc⟩
  rintro rfl
  exact hc

theorem Current.of_body (h : k.Current c) (hbody : ∀ i, (k'.proc i).body = (k.proc i).body)
    (hrun : k'.procRunning = k.procRunning) : k'.Current c where
  pid i := by
    rw [Process.pid_of_body (hbody i)]
    exact h.pid i
  valid i := (h.valid i).of_body (hbody i)
  procRunning := hrun.trans h.procRunning
  live := (Process.pid_of_body (hbody c)).trans h.live
  only i hi := h.only i ((Process.state_of_body (hbody i)).symm.trans hi)

theorem Wf.setProc {i : Slot} {f : Process → Process} (h : k.Wf)
    (hpid : (f (k.proc i)).pid = -1 ∨ (f (k.proc i)).pid = i.val)
    (hvalid : (f (k.proc i)).Valid) : (k.setProc i f).Wf where
  pid j := by
    rw [proc_setProc]
    split_ifs with hj
    · rw [hj]
      exact hpid
    · exact h.pid j
  valid j := by
    rw [proc_setProc]
    split_ifs with hj
    · exact hvalid
    · exact h.valid j

theorem Current.setProc {i : Slot} {f : Process → Process} (h : k.Current c)
    (hpid : (f (k.proc i)).pid = (k.proc i).pid ∨ i ≠ c ∧ (f (k.proc i)).pid = i.val)
    (hvalid : (f (k.proc i)).Valid)
    (hstate : i ≠ c → (f (k.proc i)).state ≠ PROC_STATE_RUNNING) :
    (k.setProc i f).Current c where
  toWf := by
    refine h.toWf.setProc ?_ hvalid
    rcases hpid with hpid | ⟨-, hpid⟩
    · rw [hpid]
      exact h.pid i
    · exact .inr hpid
  procRunning := h.procRunning
  live := by
    rw [proc_setProc]
    split_ifs with hc
    · rcases hpid with hpid | ⟨hi, -⟩
      · rw [hpid, ← hc]
        exact h.live
      · exact absurd hc.symm hi
    · exact h.live
  only j hj := by
    rw [proc_setProc] at hj
    split_ifs at hj with hji
    · by_contra hne
      exact hstate (fun hi => hne (hji.trans hi)) hj
    · exact h.only j hj

/-! ## The calls -/

theorem waitsFor_eq_true {d s : Slot} (h : k.waitsFor d s = true) :
    (k.proc d).state = PROC_STATE_RECEIVING ∧
      ((k.proc d).pRecvfrom = (k.proc s).pid ∨ (k.proc d).pRecvfrom = IPC_TARGET_ANY) := by
  unfold waitsFor at h
  simpa only [Bool.and_eq_true, Bool.or_eq_true, beq_iff_eq] using h

theorem sendsTo_eq_true {f r : Slot} (h : k.sendsTo f r = true) :
    (k.proc f).state &&& BitVec.ofInt 16 IPC_SEND ≠ 0 ∧ (k.proc f).pSendto = (k.proc r).pid := by
  unfold sendsTo at h
  simpa only [Bool.and_eq_true, bne_iff_ne, beq_iff_eq] using h

theorem Current.sendDirectly {s d : Slot} (h : k.Current c) (hwaits : k.waitsFor d s = true)
    (msg : Word) : (k.sendDirectly s d msg).Current c := by
  obtain ⟨hstate, -⟩ := waitsFor_eq_true hwaits
  have hready : (k.proc d).state &&& ~~~PROC_STATE_RECEIVING ||| PROC_STATE_READY =
      PROC_STATE_READY := by
    rw [hstate]
    decide
  have htransfer : (k.transfer (.sent s d msg) (k.proc d).pMsg msg).Current c :=
    h.of_body (fun _ => rfl) rfl
  unfold Kernel.sendDirectly
  refine htransfer.setProc (.inl rfl) ?_ fun _ hrun => ?_
  · exact .ready hready ⟨rfl, (h.valid d).sendto_of_receiving hstate, rfl⟩
  · exact absurd (hready.symm.trans hrun) (by decide)

theorem found_eq (h : ∀ i, (k.proc i).pid = -1 ∨ (k.proc i).pid = i.val) {src : Int} {f : Slot}
    {found : Option Slot} (hf : pid2proc src = .ok f) (hfound : ∀ i ∈ found, (k.proc i).pid = src) :
    found.getD f = f := by
  cases found with
  | none => rfl
  | some i =>
      have hsrc := hfound i rfl
      have hf := pid2proc_eq_ok.mp hf
      have hi : i.val < 64 := i.isLt
      rcases h i with hpid | hpid
      · rw [← hsrc, hpid] at hf
        have hminus : toShort (-1) = -1 := by decide
        rw [hminus] at hf
        omega
      · rw [← hsrc, hpid, toShort_of_lt (by omega) (by omega)] at hf
        have hval : i.val = f.val := by omega
        exact Fin.ext hval

theorem Wf.choose_take (h : k.Wf) {r f : Slot} {src : Int} {prev : Option Slot}
    (hchoose : k.choose r src = .ok (.take f prev)) : (k.proc f).pSendto = (k.proc r).pid := by
  unfold choose at hchoose
  split_ifs at hchoose with hany
  · rcases chooseFirst_cases hchoose with ⟨-, hc⟩ | ⟨f', -, -, -, hsend, hc⟩
    · cases hc
    · cases hc
      exact hsend
  · obtain ⟨f', hf', ⟨-, hc⟩ | ⟨hsends, found, prev', hfind, -, hc⟩⟩ := chooseSpecific_cases hchoose
    · cases hc
    · cases hc
      rw [found_eq h.pid hf' (findSender_pid hfind)]
      exact (sendsTo_eq_true hsends).2

theorem Current.call {call : Call} {r : Int} (h : k.Current c)
    (hcall : k.call c call = .ok (r, k')) : k'.Current c := by
  have hnone : (c.val : Int) ≠ IPC_TARGET_NONE := by
    simp only [IPC_TARGET_NONE]
    omega
  cases call with
  | send dest msg nonblocking =>
      obtain ⟨d, -, -, ⟨hwaits, -, rfl⟩ | ⟨-, -, -, rfl⟩ | ⟨-, -, -, hblock⟩⟩ := msgSend_cases hcall
      · exact h.sendDirectly hwaits msg
      · exact h
      · obtain ⟨-, hmsg, hrecv, k₁, hk₁, rfl⟩ := blockSender_cases hblock
        have hblocked : (k.setProc c (Process.blockOn dest msg)).Current c :=
          h.setProc (.inl rfl) (.blockOn hrecv hmsg) fun hne => absurd rfl hne
        have henqueued : k₁.Current c := hblocked.of_body (enqueue_body hk₁)
          (frame_enqueue hk₁).procRunning
        exact henqueued.of_body (fun _ => rfl) rfl
  | receive src msg =>
      obtain ⟨-, -, ⟨f, prev, hchoose, hnow⟩ | ⟨recvfrom, -, hblock⟩⟩ := msgReceive_cases hcall
      · obtain ⟨-, -, k₁, hk₁, rfl⟩ := receiveNow_cases hnow
        have hsendto : (k.proc f).pSendto ≠ IPC_TARGET_NONE := by
          rw [h.choose_take hchoose, h.live]
          exact hnone
        have hbody := unlink_body hk₁
        have hunlinked : k₁.Current c := h.of_body hbody (frame_unlink hk₁).procRunning
        have htransfer :
            (k₁.transfer (.received f c (k.proc f).pMsg) msg (k.proc f).pMsg).Current c :=
          hunlinked.of_body (fun _ => rfl) rfl
        obtain ⟨hstate, -, hrecv⟩ := (h.valid f).sending_of_sendto hsendto
        have hstate₁ : (k₁.proc f).state = PROC_STATE_SENDING :=
          (Process.state_of_body (hbody f)).trans hstate
        refine htransfer.setProc (.inl rfl) ?_ fun _ hrun => ?_
        · exact .released hstate₁ ((Process.pRecvfrom_of_body (hbody f)).trans hrecv)
        · exact absurd ((Process.released_state hstate₁).symm.trans hrun) (by decide)
      · obtain ⟨-, hmsg, -, hsend, rfl⟩ := blockReceiver_cases hblock
        exact h.setProc (.inl rfl) (.waiting hsend hmsg) fun hne => absurd rfl hne

/-! ## Which calls block -/

/-- A blocking send to a process that does not wait for it, or a receive with nothing to take. -/
def callBlocks (k : Kernel) (c : Slot) : Call → Bool
  | .send dest _ nonblocking =>
      match pid2proc dest with
      | .ok d => !nonblocking && !k.waitsFor d c
      | .error _ => false
  | .receive src _ =>
      if src = IPC_TARGET_ANY then (k.proc c).queueSending.isNone
      else
        match pid2proc src with
        | .ok f => !k.sendsTo f c
        | .error _ => false

theorem choose_block {src recvfrom : Int} (hchoose : k.choose c src = .ok (.block recvfrom))
    (msg : Word) : k.callBlocks c (.receive src msg) = true := by
  unfold choose at hchoose
  simp only [callBlocks]
  by_cases hany : src = IPC_TARGET_ANY
  · rw [if_pos hany] at hchoose ⊢
    rcases chooseFirst_cases hchoose with ⟨hqueue, -⟩ | ⟨_, -, -, -, -, hc⟩
    · exact Option.isNone_iff_eq_none.mpr hqueue
    · cases hc
  · rw [if_neg hany] at hchoose ⊢
    obtain ⟨f, hf, ⟨hsends, -⟩ | ⟨-, _, _, -, -, hc⟩⟩ := chooseSpecific_cases hchoose
    · simp only [hf, hsends, Bool.not_false]
    · cases hc

private theorem choose_not_block {src : Int} {f : Slot} {prev : Option Slot}
    (hchoose : k.choose c src = .ok (.take f prev)) (msg : Word) :
    k.callBlocks c (.receive src msg) = false := by
  unfold choose at hchoose
  simp only [callBlocks]
  by_cases hany : src = IPC_TARGET_ANY
  · rw [if_pos hany] at hchoose ⊢
    rcases chooseFirst_cases hchoose with ⟨-, hc⟩ | ⟨_, hqueue, -⟩
    · cases hc
    · simp only [hqueue, Option.isNone_some]
  · rw [if_neg hany] at hchoose ⊢
    obtain ⟨f', hf, ⟨-, hc⟩ | ⟨hsends, -⟩⟩ := chooseSpecific_cases hchoose
    · cases hc
    · simp only [hf, hsends, Bool.not_true]

theorem sending_ne_running : PROC_STATE_SENDING ≠ PROC_STATE_RUNNING := by decide

theorem ready_ne_running : PROC_STATE_READY ≠ PROC_STATE_RUNNING := by decide

theorem receiving_ne_running : PROC_STATE_RECEIVING ≠ PROC_STATE_RUNNING := by decide

private theorem isReady_of_body {i : Slot} (hbody : (k'.proc i).body = (k.proc i).body) :
    k'.isReady i = k.isReady i := by
  unfold isReady
  rw [Process.pid_of_body hbody, Process.state_of_body hbody]

theorem call_of_blocks {call : Call} {r : Int} (hcall : k.call c call = .ok (r, k'))
    (hblocks : k.callBlocks c call = true) :
    (k'.proc c).state ≠ PROC_STATE_RUNNING ∧ (k'.proc c).pMsg ≠ 0 ∧
      ∀ i, i ≠ c → k'.isReady i = k.isReady i := by
  cases call with
  | send dest msg nonblocking =>
      obtain ⟨d, hd, -, hcases⟩ := msgSend_cases hcall
      simp only [callBlocks, hd, Bool.and_eq_true, Bool.not_eq_true'] at hblocks
      rcases hcases with ⟨hwaits, -⟩ | ⟨-, hnb, -⟩ | ⟨-, -, -, hblock⟩
      · rw [hblocks.2] at hwaits
        cases hwaits
      · rw [hblocks.1] at hnb
        cases hnb
      · obtain ⟨-, hmsg, -, k₁, hk₁, rfl⟩ := blockSender_cases hblock
        have hbody := enqueue_body hk₁
        have hcaller := hbody c
        rw [proc_setProc_self] at hcaller
        refine ⟨?_, ?_, fun i hi => ?_⟩
        · exact fun hrun =>
            sending_ne_running ((Process.state_of_body hcaller).symm.trans hrun)
        · exact fun h => hmsg ((Process.pMsg_of_body hcaller).symm.trans h)
        · have hother := hbody i
          rw [proc_setProc_ne hi] at hother
          exact isReady_of_body hother
  | receive src msg =>
      obtain ⟨-, -, ⟨f, prev, hchoose, -⟩ | ⟨recvfrom, -, hblock⟩⟩ := msgReceive_cases hcall
      · rw [choose_not_block hchoose msg] at hblocks
        cases hblocks
      · obtain ⟨-, hmsg, -, -, rfl⟩ := blockReceiver_cases hblock
        rw [proc_setProc_self]
        refine ⟨?_, hmsg, fun i hi => ?_⟩
        · exact receiving_ne_running
        · unfold isReady
          rw [proc_setProc_ne hi]

theorem call_of_not_blocks {call : Call} {r : Int} (h : k.Current c)
    (hc : (k.proc c).state = PROC_STATE_RUNNING) (hcall : k.call c call = .ok (r, k'))
    (hblocks : k.callBlocks c call = false) : (k'.proc c).state = PROC_STATE_RUNNING := by
  cases call with
  | send dest msg nonblocking =>
      obtain ⟨d, hd, hpid, hcases⟩ := msgSend_cases hcall
      simp only [callBlocks, hd, Bool.and_eq_false_iff, Bool.not_eq_false'] at hblocks
      rcases hcases with ⟨hwaits, -, rfl⟩ | ⟨-, -, -, rfl⟩ | ⟨hwaits, hnb, -⟩
      · have hne : c ≠ d := by
          rintro rfl
          exact hpid rfl
        unfold sendDirectly
        rw [proc_setProc_ne hne]
        exact hc
      · exact hc
      · rcases hblocks with hnb' | hwaits'
        · rw [hnb] at hnb'
          cases hnb'
        · rw [hwaits] at hwaits'
          cases hwaits'
  | receive src msg =>
      obtain ⟨-, -, ⟨f, prev, hchoose, hnow⟩ | ⟨recvfrom, hchoose, -⟩⟩ := msgReceive_cases hcall
      · obtain ⟨-, -, k₁, hk₁, rfl⟩ := receiveNow_cases hnow
        have hne : c ≠ f := by
          rintro rfl
          have hsend := h.choose_take hchoose
          rw [((h.valid c).idle_of_running hc).pSendto, h.live] at hsend
          simp only [IPC_TARGET_NONE] at hsend
          omega
        rw [proc_setProc_ne hne]
        exact (Process.state_of_body (unlink_body hk₁ c)).trans hc
      · rw [choose_block hchoose msg] at hblocks
        cases hblocks

/-! ## New processes -/

theorem getavailpid_cases (k : Kernel) :
    (∃ i : Slot, 1 ≤ i.val ∧ (k.proc i).pid = -1 ∧ k.getavailpid = i.val) ∨
      k.getavailpid = -1 := by
  unfold getavailpid
  split
  · next i hi =>
    have hfound := List.find?_some hi
    simp only [Bool.and_eq_true, decide_eq_true_eq, beq_iff_eq] at hfound
    exact .inl ⟨i, hfound.1, hfound.2, rfl⟩
  · exact .inr rfl

theorem newProcess_cases {entry stack : Word} (hok : k.newProcess entry stack = .ok k') :
    ∃ i : Slot, 1 ≤ i.val ∧ (k.proc i).pid = -1 ∧ ∃ f : Process → Process,
      k' = k.setProc i f ∧ ∀ p, (f p).pid = i.val ∧ (f p).state = PROC_STATE_READY ∧ (f p).Idle ∧
        (f p).queueSending = none ∧ (f p).queueSendingNext = none := by
  unfold newProcess at hok
  obtain ⟨i, hi, hok⟩ := bind_eq_ok.mp hok
  cases pure_eq_ok.mp hok
  rcases getavailpid_cases k with ⟨i', hpos, hfree, hget⟩ | hget
  · rw [hget, pid2proc_val] at hi
    obtain rfl : i' = i := Except.ok.inj hi
    exact ⟨i', hpos, hfree, _, rfl, fun p => ⟨hget, rfl, ⟨rfl, rfl, rfl⟩, rfl, rfl⟩⟩
  · rw [hget, pid2proc_eq_ok] at hi
    have hminus : toShort (-1) = -1 := by decide
    omega

end Kernel

end PComputer.PseudOS
