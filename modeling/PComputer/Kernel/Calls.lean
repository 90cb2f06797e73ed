import PComputer.Foundation.Fallible
import PComputer.Kernel.Isr

/-!
# What each kernel call can do

One inversion lemma for each function: from a call that succeeded, the branch it
took and the kernel it left.  Later proofs use these and never unfold the code.
-/

namespace PComputer.PseudOS

open PComputer.Foundation PComputer.Rtl

/-! ## Pids and assertions -/

@[simp] theorem assert_eq_ok {exp : String} {holds : Bool} {u : Unit} :
    assert exp holds = .ok u ↔ holds = true := by
  unfold assert
  cases holds <;> simp

theorem toShort_of_lt {n : Int} (h0 : 0 ≤ n) (h : n < 32768) : toShort n = n := by
  unfold toShort
  rw [Int.bmod_eq_of_le] <;> omega

theorem pid2proc_eq_ok {pid : Int} {i : Slot} : pid2proc pid = .ok i ↔ toShort pid = i.val := by
  unfold pid2proc
  constructor
  · intro h
    split_ifs at h with hpid
    have hi : (toShort pid).toNat = i.val := congrArg Fin.val (Except.ok.inj h)
    omega
  · intro h
    have hlt : i.val < 64 := i.isLt
    rw [dif_pos (by omega)]
    congr 1
    apply Fin.ext
    change (toShort pid).toNat = i.val
    omega

@[simp] theorem pid2proc_val (i : Slot) : pid2proc i.val = .ok i := by
  have hlt : i.val < 64 := i.isLt
  exact pid2proc_eq_ok.mpr (toShort_of_lt (by omega) (by omega))

def Process.blockOn (dest : Int) (msg : Word) (p : Process) : Process :=
  { p with state := PROC_STATE_SENDING, pSendto := dest, pMsg := msg }

def Process.body (p : Process) : Process :=
  { p with queueSending := none, queueSendingNext := none }

section Body

variable {p q : Process} (h : q.body = p.body)

include h

theorem Process.pid_of_body : q.pid = p.pid :=
  show q.body.pid = p.body.pid by rw [h]

theorem Process.state_of_body : q.state = p.state :=
  show q.body.state = p.body.state by rw [h]

theorem Process.pMsg_of_body : q.pMsg = p.pMsg :=
  show q.body.pMsg = p.body.pMsg by rw [h]

theorem Process.pSendto_of_body : q.pSendto = p.pSendto :=
  show q.body.pSendto = p.body.pSendto by rw [h]

theorem Process.pRecvfrom_of_body : q.pRecvfrom = p.pRecvfrom :=
  show q.body.pRecvfrom = p.body.pRecvfrom by rw [h]

end Body

namespace Kernel

variable {k k' : Kernel}

/-! ## Updates of the table -/

theorem proc_setProc (k : Kernel) (i j : Slot) (f : Process → Process) :
    (k.setProc i f).proc j = if j = i then f (k.proc i) else k.proc j := by
  unfold setProc proc
  exact Function.update_apply _ _ _ _

@[simp] theorem proc_setProc_self (k : Kernel) (i : Slot) (f : Process → Process) :
    (k.setProc i f).proc i = f (k.proc i) := by
  rw [proc_setProc, if_pos rfl]

theorem proc_setProc_ne {i j : Slot} (h : j ≠ i) (k : Kernel) (f : Process → Process) :
    (k.setProc i f).proc j = k.proc j := by
  rw [proc_setProc, if_neg h]

theorem setProc_setProc (k : Kernel) (i : Slot) (f g : Process → Process) :
    (k.setProc i f).setProc i g = k.setProc i fun p => g (f p) := by
  unfold setProc
  simp only [proc, Function.update_self, Function.update_idem]

theorem setProc_congr {f g : Process → Process} {i : Slot} (h : f (k.proc i) = g (k.proc i)) :
    k.setProc i f = k.setProc i g := by
  unfold setProc
  rw [h]

private theorem body_setProc {f : Process → Process} (hf : ∀ p, (f p).body = p.body) (k : Kernel)
    (i j : Slot) : ((k.setProc i f).proc j).body = (k.proc j).body := by
  rw [proc_setProc]
  split_ifs with h
  · rw [h, hf]
  · rfl

@[simp] theorem procRunning_setProc (k : Kernel) (i : Slot) (f : Process → Process) :
    (k.setProc i f).procRunning = k.procRunning := rfl

@[simp] theorem doStart_setProc (k : Kernel) (i : Slot) (f : Process → Process) :
    (k.setProc i f).doStart = k.doStart := rfl

@[simp] theorem log_setProc (k : Kernel) (i : Slot) (f : Process → Process) :
    (k.setProc i f).log = k.log := rfl

@[simp] theorem proc_transfer (k : Kernel) (note : Transfer) (dst src : Word) (i : Slot) :
    (k.transfer note dst src).proc i = k.proc i := rfl

@[simp] theorem proc_csrwMepc (k : Kernel) (d : Word) (i : Slot) :
    (k.csrwMepc d).proc i = k.proc i := rfl

/-! ## Send -/

private theorem queueEnd_eq_ok {d p q : Slot} {n : Nat} (h : k.queueEnd d n p = .ok q) :
    (k.proc d).queueSendingNext = none ∧ q = p := by
  cases n with
  | zero => cases h
  | succ n =>
      unfold queueEnd at h
      split_ifs at h with hnext
      · -- The test does not depend on the walk: once inside, the walk never returns.
        split at h
        · next p' _ =>
          exfalso
          clear * - h hnext
          induction n generalizing p' with
          | zero => cases h
          | succ n ih =>
              unfold queueEnd at h
              rw [if_pos hnext] at h
              split at h
              · exact ih _ h
              · cases h
        · cases h
      · refine ⟨?_, (Except.ok.inj h).symm⟩
        simpa using hnext

theorem enqueue_cases {s d : Slot} (h : k.enqueue s d = .ok k') :
    ((k.proc d).queueSending = none ∧
        k' = k.setProc d fun p => { p with queueSending := some s }) ∨
      ∃ head, (k.proc d).queueSending = some head ∧ (k.proc d).queueSendingNext = none ∧
        k' = k.setProc head fun p => { p with queueSendingNext := some s } := by
  unfold enqueue at h
  split at h
  · next head hhead =>
    obtain ⟨q, hq, hk⟩ := bind_eq_ok.mp h
    obtain ⟨hnext, rfl⟩ := queueEnd_eq_ok hq
    exact .inr ⟨q, hhead, hnext, (pure_eq_ok.mp hk).symm⟩
  · next hhead => exact .inl ⟨hhead, (Except.ok.inj h).symm⟩

theorem enqueue_body {s d : Slot} (h : k.enqueue s d = .ok k') (i : Slot) :
    (k'.proc i).body = (k.proc i).body := by
  rcases enqueue_cases h with ⟨-, rfl⟩ | ⟨head, -, -, rfl⟩
  · exact body_setProc (by intro; rfl) k d i
  · exact body_setProc (by intro; rfl) k head i

theorem enqueue_log {s d : Slot} (h : k.enqueue s d = .ok k') : k'.log = k.log := by
  rcases enqueue_cases h with ⟨-, rfl⟩ | ⟨head, -, -, rfl⟩ <;> rfl

theorem blockSender_cases {s d : Slot} {dest : Int} {msg : Word}
    (h : k.blockSender s d dest msg = .ok k') :
    (k.proc s).state ||| PROC_STATE_SENDING = PROC_STATE_SENDING ∧ msg ≠ 0 ∧
      (k.proc s).pRecvfrom = IPC_TARGET_NONE ∧
      ∃ k₁, (k.setProc s (Process.blockOn dest msg)).enqueue s d = .ok k₁ ∧
        k' = { k₁ with log := k₁.log ++ [.blocked s d msg] } := by
  unfold blockSender at h
  simp only [bind_eq_ok, assert_eq_ok, pure_eq_ok, beq_iff_eq, bne_iff_ne, ne_eq,
    proc_setProc_self, setProc_setProc] at h
  obtain ⟨-, hstate, k₁, hk₁, -, -, -, hmsg, -, hrecv, -, -, rfl⟩ := h
  have hbody := enqueue_body hk₁ s
  rw [proc_setProc_self] at hbody
  refine ⟨hstate, ?_, (Process.pRecvfrom_of_body hbody).symm.trans hrecv, k₁, ?_, rfl⟩
  · exact fun h => hmsg ((Process.pMsg_of_body hbody).trans h)
  · rw [← hk₁]
    congr 1
    apply setProc_congr
    simp only [Process.blockOn, hstate]

theorem msgSend_cases {s : Slot} {dest r : Int} {msg : Word} {nonblocking : Bool}
    (h : k.msgSend s dest msg nonblocking = .ok (r, k')) :
    ∃ d, pid2proc dest = .ok d ∧ (k.proc s).pid ≠ (k.proc d).pid ∧
      ((k.waitsFor d s = true ∧ r = 0 ∧ k' = k.sendDirectly s d msg) ∨
        (k.waitsFor d s = false ∧ nonblocking = true ∧ r = -1 ∧ k' = k) ∨
        (k.waitsFor d s = false ∧ nonblocking = false ∧ r = 0 ∧
          k.blockSender s d dest msg = .ok k')) := by
  unfold msgSend at h
  obtain ⟨d, hd, h⟩ := bind_eq_ok.mp h
  obtain ⟨_, hpid, h⟩ := bind_eq_ok.mp h
  refine ⟨d, hd, bne_iff_ne.mp (assert_eq_ok.mp hpid), ?_⟩
  split_ifs at h with hwaits hnonblocking
  · cases pure_eq_ok.mp h
    exact .inl ⟨hwaits, rfl, rfl⟩
  · cases pure_eq_ok.mp h
    exact .inr (.inl ⟨eq_false_of_ne_true hwaits, hnonblocking, rfl, rfl⟩)
  · obtain ⟨k₁, hk₁, h⟩ := bind_eq_ok.mp h
    cases pure_eq_ok.mp h
    exact .inr (.inr ⟨eq_false_of_ne_true hwaits, eq_false_of_ne_true hnonblocking, rfl, hk₁⟩)

/-! ## Receive -/

theorem chooseFirst_cases {r : Slot} {c : Choice} (h : k.chooseFirst r = .ok c) :
    ((k.proc r).queueSending = none ∧ c = .block IPC_TARGET_ANY) ∨
      ∃ f, (k.proc r).queueSending = some f ∧ (k.proc f).pMsg ≠ 0 ∧
        (k.proc f).pRecvfrom = IPC_TARGET_NONE ∧ (k.proc f).pSendto = (k.proc r).pid ∧
        c = .take f none := by
  unfold chooseFirst at h
  split at h
  · next hqueue => exact .inl ⟨hqueue, (Except.ok.inj h).symm⟩
  · next f hqueue =>
    simp only [bind_eq_ok, assert_eq_ok, pure_eq_ok, beq_iff_eq, bne_iff_ne, ne_eq] at h
    obtain ⟨-, -, -, -, -, -, -, hmsg, -, hrecv, -, hsend, rfl⟩ := h
    exact .inr ⟨f, hqueue, hmsg, hrecv, hsend, rfl⟩

theorem chooseSpecific_cases {r : Slot} {src : Int} {c : Choice}
    (h : k.chooseSpecific r src = .ok c) :
    ∃ f, pid2proc src = .ok f ∧
      ((k.sendsTo f r = false ∧ c = .block (k.proc f).pid) ∨
        (k.sendsTo f r = true ∧ ∃ found prev,
          k.findSender src PROC_NUM_MAX (k.proc r).queueSending none = .ok (found, prev) ∧
            (k.proc (found.getD f)).pRecvfrom = IPC_TARGET_NONE ∧
            c = .take (found.getD f) prev)) := by
  unfold chooseSpecific at h
  obtain ⟨f, hf, h⟩ := bind_eq_ok.mp h
  refine ⟨f, hf, ?_⟩
  split_ifs at h with hsends
  · simp only [bind_eq_ok, assert_eq_ok, pure_eq_ok, beq_iff_eq, Prod.exists] at h
    obtain ⟨-, -, found, prev, hfind, -, -, -, -, -, -, -, -, -, hrecv, rfl⟩ := h
    exact .inr ⟨hsends, found, prev, hfind, hrecv, rfl⟩
  · exact .inl ⟨eq_false_of_ne_true hsends, (pure_eq_ok.mp h).symm⟩

theorem findSender_pid {src : Int} {n : Nat} {start prev found last : Option Slot}
    (h : k.findSender src n start prev = .ok (found, last)) :
    ∀ i ∈ found, (k.proc i).pid = src := by
  induction n generalizing start prev with
  | zero =>
      cases start with
      | none =>
          cases h
          rintro i ⟨⟩
      | some p => cases h
  | succ n ih =>
      cases start with
      | none =>
          cases h
          rintro i ⟨⟩
      | some p =>
          unfold findSender at h
          split_ifs at h with hpid
          · cases h
            rintro i ⟨⟩
            exact hpid
          · exact ih h

theorem unlink_cases {r f : Slot} {prev : Option Slot} (h : k.unlink r f prev = .ok k') :
    ((k.proc r).queueSending = some f ∧ prev = none ∧
        k' = (k.setProc r fun p =>
          { p with queueSending := (k.proc f).queueSendingNext }).setProc f fun p =>
            { p with queueSendingNext := none }) ∨
      ∃ q, (k.proc r).queueSending ≠ some f ∧ prev = some q ∧
        k' = (k.setProc q fun p => { p with queueSending := (k.proc f).queueSending }).setProc f
          fun p => { p with queueSending := none } := by
  unfold unlink at h
  split_ifs at h with hhead
  · obtain ⟨_, hprev, h⟩ := bind_eq_ok.mp h
    cases pure_eq_ok.mp h
    exact .inl ⟨hhead, Option.isNone_iff_eq_none.mp (assert_eq_ok.mp hprev), rfl⟩
  · split at h
    · cases h
    · next q =>
      cases Except.ok.inj h
      exact .inr ⟨q, hhead, rfl, rfl⟩

theorem unlink_body {r f : Slot} {prev : Option Slot} (h : k.unlink r f prev = .ok k')
    (i : Slot) : (k'.proc i).body = (k.proc i).body := by
  rcases unlink_cases h with ⟨-, -, rfl⟩ | ⟨q, -, -, rfl⟩
  · exact (body_setProc (by intro; rfl) _ f i).trans (body_setProc (by intro; rfl) k r i)
  · exact (body_setProc (by intro; rfl) _ f i).trans (body_setProc (by intro; rfl) k q i)

def released (p : Process) : Process :=
  { p with
    pMsg := 0
    pSendto := IPC_TARGET_NONE
    state := p.state &&& ~~~PROC_STATE_SENDING ||| PROC_STATE_READY }

theorem receiveNow_cases {r f : Slot} {prev : Option Slot} {msg : Word}
    (h : k.receiveNow r f prev msg = .ok k') :
    msg ≠ 0 ∧ (k.proc f).pMsg ≠ 0 ∧ ∃ k₁, k.unlink r f prev = .ok k₁ ∧
      k' =
        (k₁.transfer (.received f r (k.proc f).pMsg) msg (k.proc f).pMsg).setProc f released := by
  unfold receiveNow at h
  simp only [bind_eq_ok, assert_eq_ok, pure_eq_ok, bne_iff_ne, ne_eq] at h
  obtain ⟨k₁, hk₁, -, hmsg, -, hfrom, rfl⟩ := h
  rw [Process.pMsg_of_body (unlink_body hk₁ f)] at hfrom ⊢
  exact ⟨hmsg, hfrom, k₁, hk₁, rfl⟩

def waiting (recvfrom : Int) (msg : Word) (p : Process) : Process :=
  { p with state := PROC_STATE_RECEIVING, pMsg := msg, pRecvfrom := recvfrom }

theorem blockReceiver_cases {r : Slot} {recvfrom : Int} {msg : Word}
    (h : k.blockReceiver r recvfrom msg = .ok k') :
    (k.proc r).state ||| PROC_STATE_RECEIVING = PROC_STATE_RECEIVING ∧ msg ≠ 0 ∧
      recvfrom ≠ IPC_TARGET_NONE ∧ (k.proc r).pSendto = IPC_TARGET_NONE ∧
      k' = k.setProc r (waiting recvfrom msg) := by
  unfold blockReceiver at h
  simp only [bind_eq_ok, assert_eq_ok, pure_eq_ok, beq_iff_eq, bne_iff_ne, ne_eq,
    proc_setProc_self] at h
  obtain ⟨-, hstate, -, hmsg, -, hrecv, -, hsend, rfl⟩ := h
  refine ⟨hstate, hmsg, hrecv, hsend, ?_⟩
  apply setProc_congr
  simp only [waiting, hstate]

theorem msgReceive_cases {r : Slot} {src status : Int} {msg : Word}
    (h : k.msgReceive r src msg = .ok (status, k')) :
    (k.proc r).pid ≠ src ∧ status = 0 ∧
      ((∃ f prev, k.choose r src = .ok (.take f prev) ∧ k.receiveNow r f prev msg = .ok k') ∨
        ∃ recvfrom, k.choose r src = .ok (.block recvfrom) ∧
          k.blockReceiver r recvfrom msg = .ok k') := by
  unfold msgReceive at h
  obtain ⟨_, hpid, h⟩ := bind_eq_ok.mp h
  obtain ⟨c, hc, h⟩ := bind_eq_ok.mp h
  refine ⟨bne_iff_ne.mp (assert_eq_ok.mp hpid), ?_⟩
  cases c with
  | take f prev =>
      obtain ⟨k₁, hk₁, h⟩ := bind_eq_ok.mp h
      cases pure_eq_ok.mp h
      exact ⟨rfl, .inl ⟨f, prev, hc, hk₁⟩⟩
  | block recvfrom =>
      obtain ⟨k₁, hk₁, h⟩ := bind_eq_ok.mp h
      cases pure_eq_ok.mp h
      exact ⟨rfl, .inr ⟨recvfrom, hc, hk₁⟩⟩

end Kernel

/-! ## System calls -/

inductive Call where
  | send (dest : Int) (msg : Word) (nonblocking : Bool)
  | receive (src : Int) (msg : Word)

namespace Kernel

variable {k k' : Kernel}

def call (k : Kernel) (caller : Slot) : Call → Except Fault (Int × Kernel)
  | .send dest msg nonblocking => k.msgSend caller dest msg nonblocking
  | .receive src msg => k.msgReceive caller src msg

structure Frame (k k' : Kernel) : Prop where
  procRunning : k'.procRunning = k.procRunning
  doStart : k'.doStart = k.doStart
  regsSave : k'.regsSave = k.regsSave
  mepc : k'.mepc = k.mepc
  ticks : k'.ticks = k.ticks
  pid : ∀ i, (k'.proc i).pid = (k.proc i).pid
  pc : ∀ i, (k'.proc i).pc = (k.proc i).pc
  regs : ∀ i, (k'.proc i).regs = (k.proc i).regs

theorem Frame.refl (k : Kernel) : k.Frame k :=
  ⟨rfl, rfl, rfl, rfl, rfl, fun _ => rfl, fun _ => rfl, fun _ => rfl⟩

theorem Frame.trans {k'' : Kernel} (h : k.Frame k') (h' : k'.Frame k'') : k.Frame k'' where
  procRunning := h'.procRunning.trans h.procRunning
  doStart := h'.doStart.trans h.doStart
  regsSave := h'.regsSave.trans h.regsSave
  mepc := h'.mepc.trans h.mepc
  ticks := h'.ticks.trans h.ticks
  pid i := (h'.pid i).trans (h.pid i)
  pc i := (h'.pc i).trans (h.pc i)
  regs i := (h'.regs i).trans (h.regs i)

private theorem frame_setProc {f : Process → Process} (i : Slot)
    (hf : ∀ p, (f p).pid = p.pid ∧ (f p).pc = p.pc ∧ (f p).regs = p.regs) :
    k.Frame (k.setProc i f) := by
  refine ⟨rfl, rfl, rfl, rfl, rfl, fun j => ?_, fun j => ?_, fun j => ?_⟩
  all_goals
    rw [proc_setProc]
    split_ifs with hj
  · rw [hj, (hf _).1]
  · rfl
  · rw [hj, (hf _).2.1]
  · rfl
  · rw [hj, (hf _).2.2]
  · rfl

private theorem frame_transfer (k : Kernel) (note : Transfer) (dst src : Word) :
    k.Frame (k.transfer note dst src) :=
  ⟨rfl, rfl, rfl, rfl, rfl, fun _ => rfl, fun _ => rfl, fun _ => rfl⟩

theorem frame_enqueue {s d : Slot} (h : k.enqueue s d = .ok k') : k.Frame k' := by
  rcases enqueue_cases h with ⟨-, rfl⟩ | ⟨head, -, -, rfl⟩
  · exact frame_setProc d (by intro; exact ⟨rfl, rfl, rfl⟩)
  · exact frame_setProc head (by intro; exact ⟨rfl, rfl, rfl⟩)

theorem frame_unlink {r f : Slot} {prev : Option Slot} (h : k.unlink r f prev = .ok k') :
    k.Frame k' := by
  rcases unlink_cases h with ⟨-, -, rfl⟩ | ⟨q, -, -, rfl⟩
  · exact (frame_setProc r (by intro; exact ⟨rfl, rfl, rfl⟩)).trans
      (frame_setProc f (by intro; exact ⟨rfl, rfl, rfl⟩))
  · exact (frame_setProc q (by intro; exact ⟨rfl, rfl, rfl⟩)).trans
      (frame_setProc f (by intro; exact ⟨rfl, rfl, rfl⟩))

theorem call_frame {c : Slot} {call : Call} {r : Int} (hcall : k.call c call = .ok (r, k')) :
    k.Frame k' := by
  cases call with
  | send dest msg nonblocking =>
      obtain ⟨d, -, -, ⟨-, -, rfl⟩ | ⟨-, -, -, rfl⟩ | ⟨-, -, -, hblock⟩⟩ := msgSend_cases hcall
      · unfold sendDirectly
        exact (frame_transfer k _ _ msg).trans (frame_setProc d (by intro; exact ⟨rfl, rfl, rfl⟩))
      · exact Frame.refl _
      · obtain ⟨-, -, -, k₁, hk₁, rfl⟩ := blockSender_cases hblock
        have hqueued : k.Frame k₁ :=
          (frame_setProc c (by intro; exact ⟨rfl, rfl, rfl⟩)).trans (frame_enqueue hk₁)
        exact hqueued.trans ⟨rfl, rfl, rfl, rfl, rfl, fun _ => rfl, fun _ => rfl, fun _ => rfl⟩
  | receive src msg =>
      obtain ⟨-, -, ⟨f, prev, -, hnow⟩ | ⟨recvfrom, -, hblock⟩⟩ := msgReceive_cases hcall
      · obtain ⟨-, -, k₁, hk₁, rfl⟩ := receiveNow_cases hnow
        exact ((frame_unlink hk₁).trans (frame_transfer k₁ _ msg _)).trans
          (frame_setProc f (by intro; exact ⟨rfl, rfl, rfl⟩))
      · obtain ⟨-, -, -, -, rfl⟩ := blockReceiver_cases hblock
        exact frame_setProc c (by intro; exact ⟨rfl, rfl, rfl⟩)

/-- The call that the registers and the message at an `ecall` ask for, if any. -/
def requested (k : Kernel) : Option Call :=
  let msg := k.regsSave StackFrame.a2
  let srcDest := k.destination (k.regsSave StackFrame.a1).toInt msg
  let function := (k.regsSave StackFrame.a0).toInt
  if srcDest = -1 then none
  else if messageFunction k.mem msg ≠ OS_send_nonblk then
    if function = IPC_SEND then some (.send srcDest msg false)
    else if function = IPC_RECEIVE then some (.receive srcDest msg)
    else none
  else if function = IPC_SEND then some (.send srcDest msg true)
  else none

theorem nameCaller_cases {srcDest : Int} {msg : Word} {c : Slot}
    (h : k.nameCaller srcDest msg = .ok (c, k')) :
    pid2proc k.procRunning = .ok c ∧ (k.proc c).pid ≠ srcDest ∧
      k' = { k with mem := setMessageSource k.mem msg (k.proc c).pid } := by
  unfold nameCaller at h
  obtain ⟨c', hc, h⟩ := bind_eq_ok.mp h
  obtain ⟨_, hpid, h⟩ := bind_eq_ok.mp h
  cases pure_eq_ok.mp h
  exact ⟨hc, bne_iff_ne.mp (assert_eq_ok.mp hpid), rfl⟩

/-- The wrappers do the call once the message names the caller. -/
def named (k : Kernel) (c : Slot) (msg : Word) : Kernel :=
  { k with mem := setMessageSource k.mem msg (k.proc c).pid }

theorem sendrec_cases {function srcDest r : Int} {msg : Word}
    (h : k.sendrec function srcDest msg = .ok (r, k')) :
    ∃ c, pid2proc k.procRunning = .ok c ∧
      if function = IPC_SEND then (k.named c msg).call c (.send srcDest msg false) = .ok (r, k')
      else if function = IPC_RECEIVE then
        (k.named c msg).call c (.receive srcDest msg) = .ok (r, k')
      else k' = k.named c msg := by
  unfold sendrec at h
  obtain ⟨⟨c, k₁⟩, hname, h⟩ := bind_eq_ok.mp h
  obtain ⟨hc, -, rfl⟩ := nameCaller_cases hname
  refine ⟨c, hc, ?_⟩
  dsimp only at h
  split_ifs at h ⊢ with hsend hreceive
  · exact h
  · exact h
  · cases pure_eq_ok.mp h
    rfl

theorem sendrecNonblock_cases {function srcDest r : Int} {msg : Word}
    (h : k.sendrecNonblock function srcDest msg = .ok (r, k')) :
    ∃ c, pid2proc k.procRunning = .ok c ∧
      if function = IPC_SEND then (k.named c msg).call c (.send srcDest msg true) = .ok (r, k')
      else k' = k.named c msg := by
  unfold sendrecNonblock at h
  obtain ⟨⟨c, k₁⟩, hname, h⟩ := bind_eq_ok.mp h
  obtain ⟨hc, -, rfl⟩ := nameCaller_cases hname
  refine ⟨c, hc, ?_⟩
  dsimp only at h
  split_ifs at h ⊢ with hsend
  · exact h
  · cases pure_eq_ok.mp h
    rfl

/-- `csrw_mepc(csrr_mepc() + 4)` -/
def skipEcall (x : ReadX) (k : Kernel) : Kernel := k.csrwMepc (k.csrrMepc x + 4)

theorem syscallIpc_cases {x : ReadX} (h : k.syscallIpc x = .ok k') :
    ∃ mem, match k.requested with
      | none => k' = { k.skipEcall x with mem := mem }
      | some call => ∃ c r, pid2proc k.procRunning = .ok c ∧
          { k.skipEcall x with mem := mem }.call c call = .ok (r, k') := by
  unfold syscallIpc at h
  unfold requested
  dsimp only
  change (if k.destination (k.regsSave StackFrame.a1).toInt (k.regsSave StackFrame.a2) = -1
    then _ else if messageFunction k.mem (k.regsSave StackFrame.a2) ≠ _ then _ else _) = _ at h
  split_ifs at h with hdest hblocking
  · cases pure_eq_ok.mp h
    rw [if_pos hdest]
    exact ⟨k.mem, rfl⟩
  · obtain ⟨⟨r, k₁⟩, hcall, h⟩ := bind_eq_ok.mp h
    cases pure_eq_ok.mp h
    obtain ⟨c, hc, hcall⟩ := sendrec_cases hcall
    rw [if_neg hdest, if_pos hblocking]
    refine ⟨setMessageSource k.mem (k.regsSave StackFrame.a2) (k.proc c).pid, ?_⟩
    change (if (k.regsSave StackFrame.a0).toInt = _ then _
      else if (k.regsSave StackFrame.a0).toInt = _ then _ else _) at hcall
    split_ifs at hcall ⊢
    · exact ⟨c, r, hc, hcall⟩
    · exact ⟨c, r, hc, hcall⟩
    · exact hcall
  · obtain ⟨⟨r, k₁⟩, hcall, h⟩ := bind_eq_ok.mp h
    cases pure_eq_ok.mp h
    obtain ⟨c, hc, hcall⟩ := sendrecNonblock_cases hcall
    rw [if_neg hdest, if_neg hblocking]
    refine ⟨setMessageSource k.mem (k.regsSave StackFrame.a2) (k.proc c).pid, ?_⟩
    change (if (k.regsSave StackFrame.a0).toInt = _ then _ else _) at hcall
    split_ifs at hcall ⊢
    · exact ⟨c, r, hc, hcall⟩
    · exact hcall

/-! ## The scheduler -/

theorem isReady_eq_true {i : Slot} :
    k.isReady i = true ↔ (k.proc i).pid ≠ -1 ∧ (k.proc i).state = PROC_STATE_READY := by
  simp only [isReady, Bool.and_eq_true, bne_iff_ne, beq_iff_eq]

theorem procGetnext_cases (k : Kernel) :
    (∃ i : Slot, i.val ≠ k.procRunning ∧ k.isReady i = true ∧ k.procGetnext = i.val) ∨
      (∀ i : Slot, i.val ≠ k.procRunning → k.isReady i = false) ∧
        k.procGetnext = k.procRunning := by
  unfold procGetnext
  split
  · next i hi =>
    have hfound := List.find?_some hi
    simp only [Bool.and_eq_true, decide_eq_true_eq] at hfound
    exact .inl ⟨i, by omega, hfound.2, rfl⟩
  · next hafter =>
    split
    · next i hi =>
      have hfound := List.find?_some hi
      simp only [Bool.and_eq_true, decide_eq_true_eq] at hfound
      exact .inl ⟨i, by omega, hfound.2, rfl⟩
    · next hbefore =>
      refine .inr ⟨fun i hi => ?_, rfl⟩
      have hafter := List.find?_eq_none.mp hafter i (List.mem_finRange i)
      have hbefore := List.find?_eq_none.mp hbefore i (List.mem_finRange i)
      simp only [Bool.and_eq_true, decide_eq_true_eq, not_and, Bool.not_eq_true] at hafter hbefore
      rcases Nat.lt_or_gt_of_ne hi with hlt | hgt
      · exact hbefore hlt
      · exact hafter hgt

theorem proc_suspend (x : ReadX) (k : Kernel) (c i : Slot) :
    (k.suspend x c).proc i =
      if i = c then
        { k.proc c with
          regs := k.regsSave
          state :=
            if (k.proc c).state = PROC_STATE_RUNNING then PROC_STATE_READY else (k.proc c).state
          pc := k.csrrMepc x }
      else k.proc i := by
  unfold suspend stackframeSave
  simp only [setProc_setProc]
  exact proc_setProc _ _ _ _

theorem proc_dispatch (k : Kernel) (t i : Slot) :
    (k.dispatch t).proc i =
      if i = t then { k.proc t with state := PROC_STATE_RUNNING } else k.proc i := by
  change ((k.stackframeLoad t).setProc t fun p => { p with state := PROC_STATE_RUNNING }).proc i = _
  exact proc_setProc _ _ _ _

theorem procRunning_dispatch (k : Kernel) (t : Slot) :
    (k.dispatch t).procRunning = ((k.proc t).pid % 65536).toNat := by
  have hpid := congrArg Process.pid (proc_dispatch k t t)
  rw [if_pos rfl] at hpid
  change (((k.dispatch t).proc t).pid % 65536).toNat = _
  rw [hpid]

theorem schedule_cases {x : ReadX} (h : k.schedule x = .ok k') :
    (k.doStart = true ∧ ∃ k₁ : Kernel, k₁.proc = k.proc ∧ k₁.doStart = false ∧ k₁.log = k.log ∧
        k' = k₁.dispatch 1) ∨
      k.doStart = false ∧ ∃ c t, pid2proc k.procRunning = .ok c ∧
        pid2proc k.procGetnext = .ok t ∧ k' = (k.suspend x c).dispatch t := by
  unfold schedule at h
  split_ifs at h with hstart
  · obtain ⟨t, ht, h⟩ := bind_eq_ok.mp h
    cases pure_eq_ok.mp h
    obtain rfl : t = 1 := Except.ok.inj (ht.symm.trans (pid2proc_val 1))
    exact .inl ⟨hstart, { k with procmanager := { k.procmanager with doStart := false } },
      rfl, rfl, rfl, rfl⟩
  · obtain ⟨c, hc, h⟩ := bind_eq_ok.mp h
    obtain ⟨t, ht, h⟩ := bind_eq_ok.mp h
    cases pure_eq_ok.mp h
    exact .inr ⟨eq_false_of_ne_true hstart, c, t, hc, ht, rfl⟩

end Kernel

end PComputer.PseudOS
