import PComputer.Kernel.States

/-!
# What a call does to the other processes

A call of the IPC touches at most one process besides its caller: the receiver
that it wakes, or the sender that it takes.
-/

namespace PComputer.PseudOS

open PComputer.Foundation PComputer.Rtl

namespace Kernel

variable {k k' : Kernel} {c : Slot}

def OnlyAt (k k' : Kernel) (j : Slot) : Prop := ∀ i, i ≠ j → (k'.proc i).body = (k.proc i).body

/-- The outcomes of a call of `c`, with the status that it returns. -/
inductive Effect (k k' : Kernel) (c : Slot) : Call → Int → Prop
  | delivered {dest : Int} {msg : Word} {nonblocking : Bool} (d : Slot) :
      pid2proc dest = .ok d → d ≠ c → (k.proc d).state = PROC_STATE_RECEIVING →
      ((k.proc d).pRecvfrom = (k.proc c).pid ∨ (k.proc d).pRecvfrom = IPC_TARGET_ANY) →
      (k'.proc d).state = PROC_STATE_READY → k.OnlyAt k' d → k'.log = k.log ++ [.sent c d msg] →
      Effect k k' c (.send dest msg nonblocking) 0
  | dropped {dest : Int} {msg : Word} (d : Slot) :
      pid2proc dest = .ok d → k.waitsFor d c = false → k' = k →
      Effect k k' c (.send dest msg true) (-1)
  | sendBlocked {dest : Int} {msg : Word} (d : Slot) :
      pid2proc dest = .ok d → k.waitsFor d c = false →
      (k'.proc c).state = PROC_STATE_SENDING → (k'.proc c).pSendto = dest → k.OnlyAt k' c →
      k'.log = k.log ++ [.blocked c d msg] → Effect k k' c (.send dest msg false) 0
  | taken {src : Int} {msg : Word} (f : Slot) (m : Word) :
      (src = IPC_TARGET_ANY ∨ pid2proc src = .ok f) → f ≠ c →
      (k.proc f).state = PROC_STATE_SENDING → (k.proc f).pSendto = c.val →
      (k'.proc f).state = PROC_STATE_READY → k.OnlyAt k' f →
      k'.log = k.log ++ [.received f c m] → Effect k k' c (.receive src msg) 0
  | receiveBlocked {src : Int} {msg : Word} (recvfrom : Int) :
      (src = IPC_TARGET_ANY ∧ recvfrom = IPC_TARGET_ANY ∨
        ∃ f, pid2proc src = .ok f ∧ recvfrom = (k.proc f).pid) →
      (k'.proc c).state = PROC_STATE_RECEIVING → (k'.proc c).pRecvfrom = recvfrom →
      k.OnlyAt k' c → k'.log = k.log → Effect k k' c (.receive src msg) 0

private theorem onlyAt_setProc (k : Kernel) (j : Slot) (f : Process → Process) :
    k.OnlyAt (k.setProc j f) j := by
  intro i hi
  rw [proc_setProc_ne hi]

theorem OnlyAt.of_body {k₁ : Kernel} {j : Slot} (h : k.OnlyAt k₁ j)
    (hbody : ∀ i, (k'.proc i).body = (k₁.proc i).body) : k.OnlyAt k' j :=
  fun i hi => (hbody i).trans (h i hi)

private theorem received_ready {p : Process} (h : p.state = PROC_STATE_RECEIVING) :
    p.state &&& ~~~PROC_STATE_RECEIVING ||| PROC_STATE_READY = PROC_STATE_READY := by
  rw [h]
  decide

private theorem msgSend_effect {dest r : Int} {msg : Word} {nonblocking : Bool}
    (hsend : k.msgSend c dest msg nonblocking = .ok (r, k')) :
    Effect k k' c (.send dest msg nonblocking) r := by
  obtain ⟨d, hd, hpid, hcases⟩ := msgSend_cases hsend
  rcases hcases with ⟨hwaits, rfl, rfl⟩ | ⟨hwaits, rfl, rfl, rfl⟩ | ⟨hwaits, rfl, rfl, hblock⟩
  · obtain ⟨hstate, hrecv⟩ := waitsFor_eq_true hwaits
    refine .delivered d hd ?_ hstate hrecv ?_ (onlyAt_setProc _ _ _) rfl
    · rintro rfl
      exact hpid rfl
    · unfold sendDirectly
      rw [proc_setProc_self]
      exact received_ready hstate
  · exact .dropped d hd hwaits rfl
  · obtain ⟨hstate, -, -, k₁, hk₁, rfl⟩ := blockSender_cases hblock
    have hbody := enqueue_body hk₁
    have hcaller := hbody c
    rw [proc_setProc_self] at hcaller
    refine .sendBlocked d hd hwaits ?_ ?_ ((onlyAt_setProc _ _ _).of_body hbody) ?_
    · exact Process.state_of_body hcaller
    · exact Process.pSendto_of_body hcaller
    · change k₁.log ++ _ = _
      rw [enqueue_log hk₁]
      rfl

private theorem unlink_log {r f : Slot} {prev : Option Slot} (h : k.unlink r f prev = .ok k') :
    k'.log = k.log := by
  rcases unlink_cases h with ⟨-, -, rfl⟩ | ⟨q, -, -, rfl⟩ <;> rfl

private theorem Wf.choose_source (h : k.Wf) {r : Slot} {src : Int} {choice : Choice}
    (hchoose : k.choose r src = .ok choice) :
    match choice with
    | .take f _ => src = IPC_TARGET_ANY ∨ pid2proc src = .ok f
    | .block recvfrom => src = IPC_TARGET_ANY ∧ recvfrom = IPC_TARGET_ANY ∨
        ∃ f, pid2proc src = .ok f ∧ recvfrom = (k.proc f).pid := by
  unfold choose at hchoose
  split_ifs at hchoose with hany
  · rcases chooseFirst_cases hchoose with ⟨-, rfl⟩ | ⟨f, -, -, -, -, rfl⟩
    · exact .inl ⟨hany, rfl⟩
    · exact .inl hany
  · obtain ⟨f, hf, ⟨-, rfl⟩ | ⟨-, found, prev, hfind, -, rfl⟩⟩ := chooseSpecific_cases hchoose
    · exact .inr ⟨f, hf, rfl⟩
    · refine .inr ?_
      rw [found_eq h.pid hf (findSender_pid hfind)]
      exact hf

private theorem Current.msgReceive_effect (h : k.Current c) {src r : Int} {msg : Word}
    (hidle : (k.proc c).pSendto = IPC_TARGET_NONE)
    (hreceive : k.msgReceive c src msg = .ok (r, k')) : Effect k k' c (.receive src msg) r := by
  obtain ⟨-, rfl, ⟨f, prev, hchoose, hnow⟩ | ⟨recvfrom, hchoose, hblock⟩⟩ :=
    msgReceive_cases hreceive
  · have hsource := h.choose_source hchoose
    have hsendto := h.choose_take hchoose
    rw [h.live] at hsendto
    have hnone : (k.proc f).pSendto ≠ IPC_TARGET_NONE := by
      rw [hsendto]
      unfold IPC_TARGET_NONE
      omega
    obtain ⟨hstate, -, -⟩ := (h.valid f).sending_of_sendto hnone
    obtain ⟨-, -, k₁, hk₁, rfl⟩ := receiveNow_cases hnow
    have hbody := unlink_body hk₁
    refine .taken f (k.proc f).pMsg hsource ?_ hstate hsendto ?_ ?_ ?_
    · rintro rfl
      exact hnone hidle
    · rw [proc_setProc_self]
      exact Process.released_state ((Process.state_of_body (hbody f)).trans hstate)
    · intro i hi
      rw [proc_setProc_ne hi]
      exact hbody i
    · change k₁.log ++ _ = _
      rw [unlink_log hk₁]
  · have hsource := h.choose_source hchoose
    obtain ⟨-, -, -, -, rfl⟩ := blockReceiver_cases hblock
    refine .receiveBlocked recvfrom hsource ?_ ?_ (onlyAt_setProc _ _ _) rfl
    · rw [proc_setProc_self]
      rfl
    · rw [proc_setProc_self]
      rfl

theorem Current.effect (h : k.Current c) (hrun : (k.proc c).state = PROC_STATE_RUNNING)
    {call : Call} {r : Int} (hcall : k.call c call = .ok (r, k')) : Effect k k' c call r := by
  cases call with
  | send dest msg nonblocking => exact msgSend_effect hcall
  | receive src msg => exact h.msgReceive_effect ((h.valid c).idle_of_running hrun).pSendto hcall

end Kernel

end PComputer.PseudOS
