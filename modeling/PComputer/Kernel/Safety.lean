import PComputer.Kernel.Representation

/-!
# Which system calls the kernel survives

In a state that the IPC has kept in order, a system call succeeds exactly if its
arguments name live processes and a message, and the enqueue walk has an end.
-/

namespace PComputer.PseudOS

open PComputer.Foundation PComputer.Rtl

def Call.lookups : Call → List Int
  | .send dest _ _ => [dest]
  | .receive src _ => if src = IPC_TARGET_ANY then [] else [src]

namespace Kernel

variable {k k' : Kernel} {x : ReadX} {c : Slot}

def LivePid (k : Kernel) (pid : Int) : Prop :=
  ∃ d, pid2proc pid = .ok d ∧ (k.proc d).pid = d.val

/--
The system call that `k` has trapped into runs to its end, and every pid it looks
up, its own and the scheduler's included, is that of a live process.
-/
structure Safe (x : ReadX) (k : Kernel) : Prop where
  returns : Succeeds (k.syscallHandler x)
  caller : k.LivePid k.procRunning
  peers : ∀ call ∈ k.requested, ∀ pid ∈ call.lookups, k.LivePid pid
  switch : ∀ k₁, k.syscallIpc x = .ok k₁ →
    k₁.LivePid k₁.procRunning ∧ k₁.LivePid k₁.procGetnext

/--
A blocking send needs a message, and a destination that is not itself followed by
another process in some queue, unless its own queue is empty.  A receive must not
name the head of the queue by a number that only wraps to its pid.
-/
def CanDo (k : Kernel) (c : Slot) : Call → Prop
  | .send dest msg nonblocking =>
      ∃ d, pid2proc dest = .ok d ∧ (k.proc d).pid = d.val ∧ d ≠ c ∧
        (nonblocking = false → k.waitsFor d c = false →
          msg ≠ 0 ∧ ((k.proc d).queueSending = none ∨ k.next d = none))
  | .receive src msg =>
      msg ≠ 0 ∧ (src = IPC_TARGET_ANY ∨
        ∃ f, pid2proc src = .ok f ∧ (k.proc f).pid = f.val ∧
          (k.sendsTo f c = true → src = f.val ∨ (k.proc c).queueSending ≠ some f))

def Admissible (k : Kernel) (c : Slot) : Prop :=
  let srcDest := k.destination (k.regsSave StackFrame.a1).toInt (k.regsSave StackFrame.a2)
  srcDest = -1 ∨ srcDest ≠ c.val ∧ ∀ call ∈ k.requested, k.CanDo c call

/-- What a state between two calls guarantees to the next call. -/
structure Sound (k : Kernel) (c : Slot) : Prop where
  current : k.Current c
  queued : k.Queued
  running : (k.proc c).state = PROC_STATE_RUNNING

/-! ## Send -/

private theorem succeeds_enqueue {s d : Slot} :
    Succeeds (k.enqueue s d) ↔ (k.proc d).queueSending = none ∨ k.next d = none := by
  constructor
  · rintro ⟨k₁, hk₁⟩
    rcases enqueue_cases hk₁ with ⟨hnone, -⟩ | ⟨_, -, hnext, -⟩
    · exact .inl hnone
    · exact .inr hnext
  · intro h
    unfold enqueue
    cases hqueue : (k.proc d).queueSending with
    | none => exact succeeds_ok _
    | some head =>
        have hnext : (k.proc d).queueSendingNext = none := by
          rcases h with hnone | hnext
          · rw [hqueue] at hnone
            cases hnone
          · exact hnext
        refine succeeds_bind.mpr ⟨head, ?_, succeeds_pure _⟩
        unfold queueEnd
        rw [hnext]
        rfl

theorem succeeds_blockSender {s d : Slot} {dest : Int} {msg : Word} (hne : s ≠ d)
    (hrun : (k.proc s).state = PROC_STATE_RUNNING)
    (hidle : (k.proc s).pRecvfrom = IPC_TARGET_NONE) :
    Succeeds (k.blockSender s d dest msg) ↔
      msg ≠ 0 ∧ ((k.proc d).queueSending = none ∨ k.next d = none) := by
  have hd : ∀ f : Process → Process, (k.setProc s f).proc d = k.proc d :=
    fun f => proc_setProc_ne (Ne.symm hne) k f
  constructor
  · rintro ⟨k₁, hk₁⟩
    obtain ⟨-, hmsg, -, k₂, hk₂, -⟩ := blockSender_cases hk₁
    refine ⟨hmsg, ?_⟩
    have hroom := succeeds_enqueue.mp ⟨k₂, hk₂⟩
    rwa [hd, next, hd] at hroom
  · rintro ⟨hmsg, hroom⟩
    have hor : (k.proc s).state ||| PROC_STATE_SENDING = PROC_STATE_SENDING := by
      rw [hrun]
      decide
    have hblock : (k.setProc s (Process.blockOn dest msg)) =
        k.setProc s fun p =>
          { p with state := p.state ||| PROC_STATE_SENDING, pSendto := dest, pMsg := msg } := by
      apply setProc_congr
      simp only [Process.blockOn, hor]
    have hsucceeds : Succeeds ((k.setProc s (Process.blockOn dest msg)).enqueue s d) := by
      rw [succeeds_enqueue, hd, next, hd]
      exact hroom
    obtain ⟨k₁, hk₁⟩ := hsucceeds
    have hbody := enqueue_body hk₁ s
    rw [proc_setProc_self] at hbody
    have hstate : (k₁.proc s).state = PROC_STATE_SENDING := Process.state_of_body hbody
    have hmsg₁ : (k₁.proc s).pMsg = msg := Process.pMsg_of_body hbody
    have hrecv₁ : (k₁.proc s).pRecvfrom = IPC_TARGET_NONE :=
      (Process.pRecvfrom_of_body hbody).trans hidle
    have hsend₁ : (k₁.proc s).pSendto = dest := Process.pSendto_of_body hbody
    rw [hblock] at hk₁
    unfold blockSender
    refine ⟨{ k₁ with log := k₁.log ++ [.blocked s d msg] }, ?_⟩
    simp only [bind_eq_ok, assert_eq_ok, pure_eq_ok, beq_iff_eq, bne_iff_ne, ne_eq,
      proc_setProc_self, setProc_setProc]
    exact ⟨(), hor, k₁, hk₁, (), hstate, (), hmsg₁ ▸ hmsg, (), hrecv₁, (), hsend₁, rfl⟩

private theorem Sound.succeeds_msgSend {dest : Int} {msg : Word} {nonblocking : Bool}
    (h : k.Sound c) :
    Succeeds (k.msgSend c dest msg nonblocking) ↔
      ∃ d, pid2proc dest = .ok d ∧ (k.proc c).pid ≠ (k.proc d).pid ∧
        (nonblocking = false → k.waitsFor d c = false →
          msg ≠ 0 ∧ ((k.proc d).queueSending = none ∨ k.next d = none)) := by
  have hidle := ((h.current.valid c).idle_of_running h.running).pRecvfrom
  unfold msgSend
  rw [succeeds_bind]
  refine exists_congr fun d => and_congr_right fun _ => ?_
  rw [succeeds_bind]
  constructor
  · rintro ⟨_, hpid, hrest⟩
    have hpid := bne_iff_ne.mp (assert_eq_ok.mp hpid)
    have hne : c ≠ d := by
      rintro rfl
      exact hpid rfl
    refine ⟨hpid, fun hblocking hwaits => ?_⟩
    rw [if_neg (by rw [hwaits]; decide), if_neg (by rw [hblocking]; decide)] at hrest
    obtain ⟨k₁, hk₁, -⟩ := succeeds_bind.mp hrest
    exact (succeeds_blockSender hne h.running hidle).mp ⟨k₁, hk₁⟩
  · rintro ⟨hpid, hroom⟩
    have hne : c ≠ d := by
      rintro rfl
      exact hpid rfl
    refine ⟨(), assert_eq_ok.mpr (bne_iff_ne.mpr hpid), ?_⟩
    split_ifs with hwaits hnonblocking
    · exact succeeds_pure _
    · exact succeeds_pure _
    · obtain ⟨k₁, hk₁⟩ := (succeeds_blockSender hne h.running hidle).mpr
        (hroom (eq_false_of_ne_true hnonblocking) (eq_false_of_ne_true hwaits))
      exact succeeds_bind.mpr ⟨k₁, hk₁, succeeds_pure _⟩

/-! ## Receive -/

theorem findSender_linked (src : Int) (prev : Option Slot) {n : Nat} {start : Option Slot}
    {queue : List Slot} (h : Linked k.next start queue) (hlength : queue.length ≤ n) :
    ∃ found last, k.findSender src n start prev = .ok (found, last) ∧
      (found = none → ∀ p ∈ queue, (k.proc p).pid ≠ src) ∧
      (found = start → found ≠ none → last = prev) ∧
      (found ≠ start → last ≠ none) := by
  induction h generalizing n prev with
  | nil =>
      refine ⟨none, prev, ?_, ?_, ?_, fun hne => absurd rfl hne⟩
      · cases n <;> rfl
      · rintro - p ⟨⟩
      · exact fun _ hne => absurd rfl hne
  | @cons p queue hrest ih =>
      cases n with
      | zero => cases hlength
      | succ n =>
          unfold findSender
          by_cases hpid : (k.proc p).pid = src
          · rw [if_pos hpid]
            refine ⟨some p, prev, rfl, ?_, fun _ _ => rfl, fun hne => absurd rfl hne⟩
            rintro ⟨⟩
          · rw [if_neg hpid]
            obtain ⟨found, last, hfind, hnone, hfirst, hlater⟩ :=
              ih (some p) (Nat.le_of_succ_le_succ hlength)
            have hlast : last ≠ none := by
              by_cases hstart : found = k.next p
              · cases hfound : found with
                | none =>
                    -- Nothing is left behind `p`, so the walk stopped with `p` behind it.
                    have hwalk : k.findSender src n none (some p) = .ok (found, last) :=
                      hstart.symm.trans hfound ▸ hfind
                    have hlast : some p = last := by
                      cases n <;> exact (Prod.mk.inj (Except.ok.inj hwalk)).2
                    rw [← hlast]
                    exact Option.some_ne_none p
                | some q =>
                    rw [hfirst hstart (by rw [hfound]; exact Option.some_ne_none q)]
                    exact Option.some_ne_none p
              · exact hlater hstart
            refine ⟨found, last, hfind, ?_, ?_, fun _ => hlast⟩
            · intro hf q hq
              rcases List.mem_cons.mp hq with rfl | hq
              · exact hpid
              · exact hnone hf q hq
            · intro hf _
              exact absurd (findSender_pid hfind p hf) hpid

theorem Queued.sender_live (h : k.Queued) {f r : Slot} (hlive : (k.proc r).pid = r.val)
    (hsends : k.sendsTo f r = true) : f ∈ (blockedOn r k.log).map Prod.fst := by
  obtain ⟨-, hsend⟩ := sendsTo_eq_true hsends
  exact List.mem_map_of_mem ((h.pending f r _).mpr ⟨hsend.trans hlive, rfl⟩)

theorem succeeds_receiveNow {r f : Slot} {prev : Option Slot} {msg : Word}
    (hmsg : (k.proc f).pMsg ≠ 0) :
    Succeeds (k.receiveNow r f prev msg) ↔
      msg ≠ 0 ∧ ((k.proc r).queueSending = some f ↔ prev = none) := by
  have hunlink : Succeeds (k.unlink r f prev) ↔
      ((k.proc r).queueSending = some f ↔ prev = none) := by
    unfold unlink
    by_cases hhead : (k.proc r).queueSending = some f
    · rw [if_pos hhead, succeeds_bind]
      simp only [hhead, true_iff, assert_eq_ok, Option.isNone_iff_eq_none, succeeds_pure,
        and_true, exists_const]
    · rw [if_neg hhead]
      cases prev with
      | none => simp [hhead]
      | some q => simp [hhead]
  unfold receiveNow
  rw [succeeds_bind]
  constructor
  · rintro ⟨k₁, hk₁, hrest⟩
    obtain ⟨_, hm, -⟩ := succeeds_bind.mp hrest
    exact ⟨bne_iff_ne.mp (assert_eq_ok.mp hm), hunlink.mp ⟨k₁, hk₁⟩⟩
  · rintro ⟨hm, hprev⟩
    obtain ⟨k₁, hk₁⟩ := hunlink.mpr hprev
    have hmsg₁ : (k₁.proc f).pMsg ≠ 0 := by
      rw [Process.pMsg_of_body (unlink_body hk₁ f)]
      exact hmsg
    refine ⟨k₁, hk₁, succeeds_bind.mpr ⟨(), assert_eq_ok.mpr (bne_iff_ne.mpr hm), ?_⟩⟩
    exact succeeds_bind.mpr ⟨(), assert_eq_ok.mpr (bne_iff_ne.mpr hmsg₁), succeeds_pure _⟩

theorem succeeds_blockReceiver {r : Slot} {recvfrom : Int} {msg : Word}
    (hrun : (k.proc r).state = PROC_STATE_RUNNING)
    (hidle : (k.proc r).pSendto = IPC_TARGET_NONE) (hrecvfrom : recvfrom ≠ IPC_TARGET_NONE) :
    Succeeds (k.blockReceiver r recvfrom msg) ↔ msg ≠ 0 := by
  constructor
  · rintro ⟨k₁, hk₁⟩
    exact (blockReceiver_cases hk₁).2.1
  · intro hmsg
    have hor : (k.proc r).state ||| PROC_STATE_RECEIVING = PROC_STATE_RECEIVING := by
      rw [hrun]
      decide
    unfold blockReceiver
    refine ⟨k.setProc r fun p =>
      { p with state := p.state ||| PROC_STATE_RECEIVING, pMsg := msg, pRecvfrom := recvfrom }, ?_⟩
    simp only [bind_eq_ok, assert_eq_ok, pure_eq_ok, beq_iff_eq, bne_iff_ne, ne_eq,
      proc_setProc_self]
    exact ⟨(), hor, (), hmsg, (), hrecvfrom, (), hidle, trivial⟩

theorem Sound.sender (h : k.Sound c) {f : Slot} (hsend : (k.proc f).pSendto = c.val) :
    (k.proc f).pMsg ≠ 0 ∧ (k.proc f).pRecvfrom = IPC_TARGET_NONE := by
  have hne : (k.proc f).pSendto ≠ IPC_TARGET_NONE := hsend ▸ val_ne_none c
  exact ((h.current.valid f).sending_of_sendto hne).2

theorem Sound.chooseFirst (h : k.Sound c) :
    k.chooseFirst c = .ok
      (match (k.proc c).queueSending with
      | none => .block IPC_TARGET_ANY
      | some f => .take f none) := by
  obtain ⟨hmsg, hsend, hrecv⟩ := (h.current.valid c).idle_of_running h.running
  unfold Kernel.chooseFirst
  cases hqueue : (k.proc c).queueSending with
  | none => rfl
  | some f =>
      obtain ⟨rest, hblocked⟩ := h.queued.head hqueue
      have hmem : (f, (k.proc f).pMsg) ∈ blockedOn c k.log := by
        rw [hblocked]
        exact List.mem_cons_self
      have hsendto := ((h.queued.pending f c _).mp hmem).1
      obtain ⟨hmsg', hrecv'⟩ := h.sender hsendto
      simp only [bind_eq_ok, assert_eq_ok, pure_eq_ok, beq_iff_eq, bne_iff_ne, ne_eq]
      exact ⟨(), hmsg, (), hrecv, (), hsend, (), hmsg', (), hrecv', (),
        hsendto.trans h.current.live.symm, trivial⟩

theorem Sound.chooseSpecific (h : k.Sound c) {src : Int} {f : Slot} (hf : pid2proc src = .ok f) :
    if k.sendsTo f c = true then
      ∃ prev, k.chooseSpecific c src = .ok (.take f prev) ∧
        (((k.proc c).queueSending = some f ↔ prev = none) ↔
          (src = f.val ∨ (k.proc c).queueSending ≠ some f))
    else k.chooseSpecific c src = .ok (.block (k.proc f).pid) := by
  obtain ⟨hmsg, hsend, hrecv⟩ := (h.current.valid c).idle_of_running h.running
  unfold Kernel.chooseSpecific
  by_cases hsends : k.sendsTo f c = true
  swap
  · rw [if_neg hsends, hf]
    simp only [bind_eq_ok, Except.ok.injEq, exists_eq_left']
    rw [if_neg hsends]
    rfl
  · rw [if_pos hsends]
    have hlinked := h.queued.linked c
    have hmem := h.queued.sender_live h.current.live hsends
    have hsendto : (k.proc f).pSendto = c.val :=
      (sendsTo_eq_true hsends).2.trans h.current.live
    have hlength : ((blockedOn c k.log).map Prod.fst).length ≤ PROC_NUM_MAX := by
      have hcard := hlinked.nodup.length_le_card
      rwa [Fintype.card_fin] at hcard
    obtain ⟨found, last, hfind, hnone, hfirst, hlater⟩ :=
      findSender_linked src none hlinked hlength
    have hgetD := found_eq h.queued.pid hf (findSender_pid hfind)
    have hsome : (k.proc c).queueSending.isSome = true := by
      cases hqueue : (k.proc c).queueSending with
      | some _ => rfl
      | none =>
          rw [hqueue] at hlinked
          rw [hlinked.eq_nil] at hmem
          cases hmem
    refine ⟨last, ?_, ?_⟩
    · simp only [bind_eq_ok, hf, Except.ok.injEq, exists_eq_left', hsends, if_true, assert_eq_ok,
        beq_iff_eq, pure_eq_ok]
      refine ⟨(), hsome, (found, last), hfind, ?_⟩
      dsimp only
      rw [hgetD]
      exact ⟨(), h.running, (), hmsg, (), hrecv, (), hsend, (), (h.sender hsendto).2, rfl⟩
    · cases hfound : found with
      | some p =>
          rw [hfound] at hgetD
          obtain rfl : p = f := hgetD
          have hpid := findSender_pid hfind p (by rw [hfound]; rfl)
          have hsrc : src = p.val := by
            rcases h.queued.pid p with hfree | hlive
            · rw [← hpid, hfree, pid2proc_eq_ok] at hf
              have hminus : toShort (-1) = -1 := by decide
              omega
            · exact hpid.symm.trans hlive
          refine ⟨fun _ => .inl hsrc, fun _ => ⟨fun hhead => ?_, fun hlast => ?_⟩⟩
          · exact hfirst (hfound.trans hhead.symm) (by rw [hfound]; exact Option.some_ne_none p)
          · by_contra hhead
            refine hlater (fun hstart => hhead ?_) hlast
            rw [← hstart, hfound]
      | none =>
          have hlast : last ≠ none := by
            refine hlater fun hstart => ?_
            rw [← hstart, hfound] at hsome
            cases hsome
          have hsrc : src ≠ f.val := by
            have hpid := hnone hfound f hmem
            rcases h.queued.pid f with hfree | hlive
            · exact absurd ((hsendto.symm.trans (h.queued.free f hfree))) (val_ne_none c)
            · exact fun hsrc => hpid (hlive.trans hsrc.symm)
          constructor
          · exact fun hiff => .inr fun hhead => hlast (hiff.mp hhead)
          · intro hcase
            have hhead := hcase.resolve_left hsrc
            exact ⟨fun h => absurd h hhead, fun h => absurd h hlast⟩

private theorem Sound.succeeds_msgReceive {src : Int} {msg : Word} (h : k.Sound c) :
    Succeeds (k.msgReceive c src msg) ↔
      src ≠ c.val ∧ msg ≠ 0 ∧ (src = IPC_TARGET_ANY ∨
        ∃ f, pid2proc src = .ok f ∧
          (k.sendsTo f c = true → src = f.val ∨ (k.proc c).queueSending ≠ some f)) := by
  obtain ⟨-, hsend, -⟩ := (h.current.valid c).idle_of_running h.running
  have hpid : (k.proc c).pid = c.val := h.current.live
  have hblock : ∀ recvfrom, recvfrom ≠ IPC_TARGET_NONE →
      (Succeeds (do
        let k' ← k.blockReceiver c recvfrom msg
        return ((0 : Int), k')) ↔ msg ≠ 0) := by
    intro recvfrom hrecvfrom
    rw [succeeds_bind_pure, succeeds_blockReceiver h.running hsend hrecvfrom]
  have htake : ∀ f prev, (k.proc f).pMsg ≠ 0 →
      (Succeeds (do
        let k' ← k.receiveNow c f prev msg
        return ((0 : Int), k')) ↔
          msg ≠ 0 ∧ ((k.proc c).queueSending = some f ↔ prev = none)) := by
    intro f prev hmsg
    rw [succeeds_bind_pure, succeeds_receiveNow hmsg]
  have hsender : ∀ f, (k.proc f).pSendto = c.val → (k.proc f).pMsg ≠ 0 :=
    fun f hf => (h.sender hf).1
  have hassert : ∀ u : Unit, (assert "p_recv->pid != src" ((k.proc c).pid != src) = .ok u ↔
      src ≠ c.val) := by
    intro u
    rw [assert_eq_ok, bne_iff_ne, hpid]
    exact ne_comm
  unfold msgReceive
  rw [succeeds_bind]
  simp only [hassert, exists_and_left, exists_const]
  refine and_congr_right fun _ => ?_
  rw [succeeds_bind]
  unfold choose
  by_cases hany : src = IPC_TARGET_ANY
  · simp only [hany, if_true, true_or, and_true, h.chooseFirst, Except.ok.injEq, exists_eq_left']
    cases hqueue : (k.proc c).queueSending with
    | none => exact hblock _ (by decide)
    | some f =>
        obtain ⟨rest, hblocked⟩ := h.queued.head hqueue
        have hmem : (f, (k.proc f).pMsg) ∈ blockedOn c k.log := by
          rw [hblocked]
          exact List.mem_cons_self
        have hiff := htake f none (hsender f ((h.queued.pending f c _).mp hmem).1)
        rw [hqueue] at hiff
        simpa only [iff_true, and_true] using hiff
  · simp only [hany, if_false, false_or]
    cases hsrc : pid2proc src with
    | error fault =>
        have hfails : ∀ choice, k.chooseSpecific c src ≠ .ok choice := by
          intro choice hchoose
          obtain ⟨f, hf, -⟩ := chooseSpecific_cases hchoose
          rw [hsrc] at hf
          cases hf
        constructor
        · rintro ⟨choice, hchoose, -⟩
          exact absurd hchoose (hfails choice)
        · rintro ⟨-, f, hf, -⟩
          cases hf
    | ok f =>
        simp only [Except.ok.injEq, exists_eq_left']
        have hspecific := h.chooseSpecific hsrc
        by_cases hsends : k.sendsTo f c = true
        · rw [if_pos hsends] at hspecific
          obtain ⟨prev, hchoose, hiff⟩ := hspecific
          have hmsg := hsender f ((sendsTo_eq_true hsends).2.trans hpid)
          simp only [hchoose, Except.ok.injEq, exists_eq_left', hsends, forall_const, ← hiff]
          exact htake f prev hmsg
        · rw [if_neg hsends] at hspecific
          have hrecvfrom : (k.proc f).pid ≠ IPC_TARGET_NONE := by
            rcases h.queued.pid f with hfree | hlive
            · rw [hfree]
              decide
            · rw [hlive]
              exact val_ne_none f
          have hfalse : (false = true → src = f.val ∨ (k.proc c).queueSending ≠ some f) ↔ True :=
            iff_true_intro fun h => nomatch h
          simp only [hspecific, Except.ok.injEq, exists_eq_left', hsends, hfalse, and_true]
          exact hblock _ hrecvfrom

/-! ## The system call -/

theorem Queued.of_table (h : k.Queued) (htable : k'.procmanager = k.procmanager)
    (hlog : k'.log = k.log) : k'.Queued := by
  have hproc : k'.proc = k.proc := by
    unfold proc
    rw [htable]
  obtain ⟨c, hc, hlive⟩ := h.current
  refine h.same ?_ ⟨c, (congrArg ProcManager.procRunning htable).trans hc, hlive⟩
  constructor
  all_goals intro i
  case blockedOn => rw [hlog]
  all_goals
    try unfold next
    rw [hproc]
  case pMsg => exact fun _ => rfl
  case sending => exact id
  case receiving => exact .inl

theorem Sound.of_table (h : k.Sound c) (htable : k'.procmanager = k.procmanager)
    (hlog : k'.log = k.log) : k'.Sound c := by
  have hproc : k'.proc = k.proc := by
    unfold proc
    rw [htable]
  have hrunning : k'.procRunning = k.procRunning := congrArg ProcManager.procRunning htable
  refine ⟨h.current.of_body (fun i => by rw [hproc]) hrunning, h.queued.of_table htable hlog, ?_⟩
  rw [hproc]
  exact h.running

private theorem canDo_of_proc {call : Call} (hproc : k'.proc = k.proc) :
    k'.CanDo c call ↔ k.CanDo c call := by
  unfold CanDo waitsFor sendsTo next
  rw [hproc]

private theorem Sound.succeeds_call {call : Call} (h : k.Sound c)
    (hsrc : ∀ src msg, call = .receive src msg → src ≠ c.val) :
    (Succeeds (k.call c call) ∧ ∀ pid ∈ call.lookups, k.LivePid pid) ↔ k.CanDo c call := by
  have hlive : ∀ {pid : Int} {d : Slot}, pid2proc pid = .ok d →
      (k.LivePid pid ↔ (k.proc d).pid = d.val) := by
    intro pid d hd
    unfold LivePid
    rw [hd]
    simp only [Except.ok.injEq, exists_eq_left']
  cases call with
  | send dest msg nonblocking =>
      unfold call
      rw [h.succeeds_msgSend]
      simp only [Call.lookups, List.mem_singleton, forall_eq, CanDo]
      constructor
      · rintro ⟨⟨d, hd, hpid, hroom⟩, hpeer⟩
        have hd' := (hlive hd).mp hpeer
        refine ⟨d, hd, hd', ?_, hroom⟩
        rintro rfl
        exact hpid rfl
      · rintro ⟨d, hd, hd', hne, hroom⟩
        refine ⟨⟨d, hd, ?_, hroom⟩, (hlive hd).mpr hd'⟩
        rw [h.current.live, hd']
        exact fun heq => hne (val_inj heq).symm
  | receive src msg =>
      have hne := hsrc src msg rfl
      unfold call
      rw [h.succeeds_msgReceive]
      simp only [Call.lookups, CanDo]
      by_cases hany : src = IPC_TARGET_ANY
      · simp only [hany, if_true, List.not_mem_nil, false_implies, implies_true, and_true, true_or]
        constructor
        · exact fun hc => hc.2
        · exact fun hmsg => ⟨hany ▸ hne, hmsg⟩
      · simp only [hany, if_false, List.mem_singleton, forall_eq, false_or]
        constructor
        · rintro ⟨⟨-, hmsg, f, hf, hbehind⟩, hpeer⟩
          exact ⟨hmsg, f, hf, (hlive hf).mp hpeer, hbehind⟩
        · rintro ⟨hmsg, f, hf, hf', hbehind⟩
          exact ⟨⟨hne, hmsg, f, hf, hbehind⟩, (hlive hf).mpr hf'⟩

private theorem Sound.succeeds_nameCaller (h : k.Sound c) {srcDest : Int} {msg : Word} {c' : Slot}
    {k' : Kernel} : k.nameCaller srcDest msg = .ok (c', k') ↔
      srcDest ≠ c.val ∧ c' = c ∧ k' = k.named c msg := by
  have hrunning : pid2proc k.procRunning = .ok c := by
    rw [h.current.procRunning, pid2proc_val]
  constructor
  · intro hok
    obtain ⟨hc, hpid, rfl⟩ := nameCaller_cases hok
    rw [hrunning] at hc
    obtain rfl : c = c' := Except.ok.inj hc
    rw [h.current.live] at hpid
    exact ⟨Ne.symm hpid, rfl, rfl⟩
  · rintro ⟨hpid, rfl, rfl⟩
    unfold nameCaller
    refine bind_eq_ok.mpr ⟨c', hrunning, bind_eq_ok.mpr ⟨(), ?_, rfl⟩⟩
    rw [assert_eq_ok, bne_iff_ne, h.current.live]
    exact Ne.symm hpid

private theorem send_ne_receive : IPC_SEND ≠ IPC_RECEIVE := by decide

private theorem Sound.succeeds_sendrec (h : k.Sound c) {function srcDest : Int} {msg : Word} :
    Succeeds (k.sendrec function srcDest msg) ↔ srcDest ≠ c.val ∧
      (function = IPC_SEND → Succeeds ((k.named c msg).call c (.send srcDest msg false))) ∧
      (function = IPC_RECEIVE → Succeeds ((k.named c msg).call c (.receive srcDest msg))) := by
  unfold sendrec
  rw [succeeds_bind]
  simp only [Prod.exists, h.succeeds_nameCaller, and_assoc, exists_and_left, exists_eq_left]
  refine and_congr_right fun _ => ?_
  by_cases hsend : function = IPC_SEND
  · simp only [hsend, if_true, forall_const, send_ne_receive, false_implies, and_true]
    rfl
  · by_cases hreceive : function = IPC_RECEIVE
    · simp only [hreceive, send_ne_receive.symm, if_false, if_true, forall_const, false_implies,
        true_and]
      rfl
    · simp only [hsend, hreceive, if_false, false_implies, and_true, succeeds_pure]

private theorem Sound.succeeds_sendrecNonblock (h : k.Sound c) {function srcDest : Int}
    {msg : Word} :
    Succeeds (k.sendrecNonblock function srcDest msg) ↔ srcDest ≠ c.val ∧
      (function = IPC_SEND → Succeeds ((k.named c msg).call c (.send srcDest msg true))) := by
  unfold sendrecNonblock
  rw [succeeds_bind]
  simp only [Prod.exists, h.succeeds_nameCaller, and_assoc, exists_and_left, exists_eq_left]
  refine and_congr_right fun _ => ?_
  by_cases hsend : function = IPC_SEND
  · simp only [hsend, if_true, forall_const]
    rfl
  · simp only [hsend, if_false, false_implies, succeeds_pure]

theorem syscallIpc_eq (x : ReadX) (k : Kernel) :
    k.syscallIpc x =
      let srcDest := k.destination (k.regsSave StackFrame.a1).toInt (k.regsSave StackFrame.a2)
      let function := (k.regsSave StackFrame.a0).toInt
      let msg := k.regsSave StackFrame.a2
      if srcDest = -1 then .ok (k.skipEcall x)
      else if messageFunction k.mem msg ≠ OS_send_nonblk then
        (k.skipEcall x).sendrec function srcDest msg >>= fun p => pure p.2
      else (k.skipEcall x).sendrecNonblock function srcDest msg >>= fun p => pure p.2 := by
  have hregs : ∀ d, (k.csrwMepc d).regsSave = k.regsSave := fun _ => rfl
  have hmem : ∀ d, (k.csrwMepc d).mem = k.mem := fun _ => rfl
  have hdest : ∀ d n msg, (k.csrwMepc d).destination n msg = k.destination n msg :=
    fun _ _ _ => rfl
  unfold syscallIpc skipEcall
  simp only [hregs, hmem, hdest]
  rfl

private theorem Sound.succeeds_syscallIpc (h : k.Sound c) :
    (Succeeds (k.syscallIpc x) ∧ ∀ call ∈ k.requested, ∀ pid ∈ call.lookups, k.LivePid pid) ↔
      k.Admissible c := by
  obtain ⟨msg, hmsg⟩ : ∃ msg, msg = k.regsSave StackFrame.a2 := ⟨_, rfl⟩
  obtain ⟨srcDest, hsrcDest⟩ :
      ∃ srcDest, srcDest = k.destination (k.regsSave StackFrame.a1).toInt msg := ⟨_, rfl⟩
  obtain ⟨function, hfunction⟩ :
      ∃ function, function = (k.regsSave StackFrame.a0).toInt := ⟨_, rfl⟩
  have hskip : (k.skipEcall x).Sound c := h.of_table rfl rfl
  have hnamed : ((k.skipEcall x).named c msg).Sound c := hskip.of_table rfl rfl
  have hlookup : ∀ pid, ((k.skipEcall x).named c msg).LivePid pid ↔ k.LivePid pid :=
    fun pid => Iff.rfl
  have hcall : ∀ call, (∀ (src : Int) (m : Word), call = .receive src m → src ≠ c.val) →
      (Succeeds (((k.skipEcall x).named c msg).call c call) ∧
        (∀ pid ∈ call.lookups, k.LivePid pid) ↔ k.CanDo c call) := by
    intro call hsrc
    have hiff := hnamed.succeeds_call hsrc
    simp only [hlookup] at hiff
    exact hiff.trans (canDo_of_proc rfl)
  rw [syscallIpc_eq]
  unfold Admissible requested
  dsimp only
  rw [← hmsg, ← hsrcDest, ← hfunction]
  by_cases hnone : srcDest = -1
  · simp only [hnone, if_true, succeeds_ok, true_or, true_and, Option.mem_def, reduceCtorEq,
      false_implies, implies_true]
  · simp only [hnone, if_false, false_or]
    by_cases hblocking : messageFunction k.mem msg ≠ OS_send_nonblk
    · rw [if_pos hblocking, if_pos hblocking]
      rw [succeeds_bind_pure, hskip.succeeds_sendrec, and_assoc]
      refine and_congr_right fun hne => ?_
      by_cases hsend : function = IPC_SEND
      · have hiff := hcall (.send srcDest msg false) fun src m heq => by cases heq
        simpa [hsend, send_ne_receive] using hiff
      · by_cases hreceive : function = IPC_RECEIVE
        · have hiff := hcall (.receive srcDest msg) fun src m heq => by
            cases heq
            exact hne
          simpa [hreceive, send_ne_receive.symm] using hiff
        · simp [hsend, hreceive]
    · rw [if_neg hblocking, if_neg hblocking]
      rw [succeeds_bind_pure, hskip.succeeds_sendrecNonblock, and_assoc]
      refine and_congr_right fun hne => ?_
      by_cases hsend : function = IPC_SEND
      · have hiff := hcall (.send srcDest msg true) fun src m heq => by cases heq
        simpa [hsend] using hiff
      · simp [hsend]

private theorem Current.livePid_running (h : k.Current c) : k.LivePid k.procRunning :=
  ⟨c, by rw [h.procRunning, pid2proc_val], h.live⟩

private theorem Current.livePid_getnext (h : k.Current c) : k.LivePid k.procGetnext := by
  rcases procGetnext_cases k with ⟨i, -, hready, hget⟩ | ⟨-, hget⟩
  · exact ⟨i, by rw [hget, pid2proc_val], (h.pid i).resolve_left (isReady_eq_true.mp hready).1⟩
  · rw [hget]
    exact h.livePid_running

private theorem succeeds_schedule (hrunning : k.LivePid k.procRunning)
    (hnext : k.LivePid k.procGetnext) :
    Succeeds (k.schedule x) := by
  obtain ⟨c, hc, -⟩ := hrunning
  obtain ⟨t, ht, -⟩ := hnext
  unfold schedule
  split_ifs
  · exact succeeds_bind.mpr ⟨1, pid2proc_val 1, succeeds_pure _⟩
  · exact succeeds_bind.mpr ⟨c, hc, succeeds_bind.mpr ⟨t, ht, succeeds_pure _⟩⟩

private theorem Sound.safe_iff (h : k.Sound c) : k.Safe x ↔ k.Admissible c := by
  have hiff := h.succeeds_syscallIpc (x := x)
  constructor
  · intro hsafe
    obtain ⟨k₁, hk₁, -⟩ := succeeds_bind.mp hsafe.returns
    exact hiff.mp ⟨⟨k₁, hk₁⟩, hsafe.peers⟩
  · intro hadmissible
    obtain ⟨⟨k₁, hk₁⟩, hpeers⟩ := hiff.mpr hadmissible
    have hswitch : ∀ k₂, k.syscallIpc x = .ok k₂ →
        k₂.LivePid k₂.procRunning ∧ k₂.LivePid k₂.procGetnext := by
      intro k₂ hk₂
      have hcurrent := (syscallIpc_spec h.current h.running hk₂).1
      exact ⟨hcurrent.livePid_running, hcurrent.livePid_getnext⟩
    refine ⟨?_, h.current.livePid_running, hpeers, hswitch⟩
    obtain ⟨hrunning, hnext⟩ := hswitch k₁ hk₁
    exact succeeds_bind.mpr ⟨k₁, hk₁, succeeds_schedule hrunning hnext⟩

/-! ## Runs -/

/-- A call that names a live process by its own pid and keeps the queues. -/
def OrderlyCall (k : Kernel) (c : Slot) : Call → Prop
  | .send dest _ nonblocking =>
      ∃ d : Slot, dest = d.val ∧ (k.proc d).pid = d.val ∧
        (nonblocking = false → k.waitsFor d c = false →
          ∀ head ∈ (k.proc d).queueSending, k.next head = none)
  | .receive src _ =>
      src = IPC_TARGET_ANY ∨ ∃ f : Slot, src = f.val ∧
        (k.sendsTo f c = true → (k.proc c).queueSending = some f)

def Orderly (k : Kernel) : Event → Prop
  | .ecall t => ∀ c : Slot, k.procRunning = c.val →
      ∀ call ∈ (k.trapped t).requested, k.OrderlyCall c call
  | .tick _ | .create _ _ => True

private theorem Sound.queued_call {call : Call} {r : Int} (h : k.Sound c)
    (horderly : k.OrderlyCall c call)
    (hok : k.call c call = .ok (r, k')) : k'.Queued := by
  have hidle := (h.current.valid c).idle_of_running h.running
  have hpid : (k.proc c).pid ≠ -1 := by
    rw [h.current.live]
    omega
  cases call with
  | send dest msg nonblocking =>
      obtain ⟨d, rfl, hlive, hroom⟩ := horderly
      obtain ⟨d', hd', hne, -⟩ := msgSend_cases hok
      rw [pid2proc_val] at hd'
      obtain rfl : d = d' := Except.ok.inj hd'
      have hcd : c ≠ d := by
        rintro rfl
        exact hne rfl
      exact (h.queued.send hcd hlive hpid
        (fun hblocking hwaits => ⟨hidle.pSendto, hroom hblocking hwaits⟩) hok).1
  | receive src msg =>
      have hsrc : src = IPC_TARGET_ANY ∨ ∃ f : Slot, src = f.val :=
        horderly.imp id fun ⟨f, hf, _⟩ => ⟨f, hf⟩
      refine (h.queued.receive hsrc (fun hany f hf hsends => ?_) hok).1
      obtain ⟨f', hf', hhead⟩ := horderly.resolve_left hany
      obtain rfl : f' = f := val_inj (hf'.symm.trans hf)
      exact hhead hsends

private theorem orderlyCall_of_proc {call : Call} (hproc : k'.proc = k.proc) :
    k'.OrderlyCall c call ↔ k.OrderlyCall c call := by
  unfold OrderlyCall waitsFor sendsTo next
  rw [hproc]

private theorem Sound.queued_syscallIpc (h : k.Sound c)
    (horderly : ∀ call ∈ k.requested, k.OrderlyCall c call) (hok : k.syscallIpc x = .ok k') :
    k'.Queued := by
  obtain ⟨mem, hcases⟩ := syscallIpc_cases hok
  have hready : Sound { k.skipEcall x with mem := mem } c := h.of_table rfl rfl
  cases hreq : k.requested with
  | none =>
      rw [hreq] at hcases
      dsimp only at hcases
      subst hcases
      exact hready.queued
  | some call =>
      rw [hreq] at hcases
      obtain ⟨c', r, hc', hcall⟩ := hcases
      obtain rfl := h.current.slot_eq hc'
      exact hready.queued_call ((orderlyCall_of_proc rfl).mpr (horderly call hreq)) hcall

theorem Queued.step {e : Event} (h : k.Queued) (hsteady : k.Steady)
    (horderly : k.Orderly e) (hok : k.step x e = .ok k') : k'.Queued := by
  cases e with
  | ecall t =>
      obtain ⟨c, hcurrent, hrunning, -⟩ := hsteady
      obtain ⟨k₁, hipc, hschedule⟩ := bind_eq_ok.mp hok
      have hsound : k.Sound c := ⟨hcurrent, h, hrunning⟩
      have htrapped : (k.trapped t).Sound c := hsound.of_table rfl rfl
      have hqueued := htrapped.queued_syscallIpc
        (fun call hcall =>
          (orderlyCall_of_proc rfl).mpr (horderly c hcurrent.procRunning call hcall)) hipc
      exact (hqueued.schedule hschedule).1
  | tick t =>
      change (if (k.ticks + 1) % 5 = 0 then
        Kernel.schedule x { k.trapped t with ticks := k.ticks + 1 } else _) = _ at hok
      have hticked : Queued { k.trapped t with ticks := k.ticks + 1 } := h.of_table rfl rfl
      split_ifs at hok
      · exact (hticked.schedule hok).1
      · cases hok
        exact hticked
  | create entry stack =>
      obtain ⟨i, -, hfree, f, rfl, hf⟩ := newProcess_cases hok
      obtain ⟨hpid, hready, hidle, hqueue, hnext⟩ := hf (k.proc i)
      exact h.fill hfree hpid hready hidle.pSendto hqueue hnext

/-- The kernel as `prepare_processes` leaves it, before any transfer. -/
def Started (image : Image) (k : Kernel) : Prop :=
  ∃ k₀ : Kernel, k₀.log = [] ∧ k = k₀.prepareProcesses image

private theorem queued_prepareProcesses (k : Kernel) (hlog : k.log = []) (image : Image) :
    (k.prepareProcesses image).Queued := by
  have hfs := (queued_procManagerInit k hlog image).fill (i := 5)
    (f := Process.register KPROC_PID_FS image.fsProcMain 0x20100ffc PROC_STATE_READY)
    rfl rfl rfl rfl rfl rfl
  unfold prepareProcesses
  refine hfs.fill ?_ ?_ ?_ ?_ ?_ ?_ <;> rfl

/-- An orderly run keeps the states and the queues. -/
theorem steady_queued_of_run {x : ReadX} {image : Image} {events : List Event} {k : Kernel}
    (h : Run (Kernel.step x) (Started image)
      (fun k e => k.enabled e = true ∧ k.Covers e ∧ k.Orderly e) events k) :
    k.Steady ∧ k.Queued := by
  refine Run.invariant (fun _ k => k.Steady ∧ k.Queued) ?_ ?_ h
  · rintro _ ⟨k₀, hlog, rfl⟩
    exact ⟨steady_prepareProcesses image k₀, queued_prepareProcesses k₀ hlog image⟩
  · rintro _ s e s' ⟨hs, hq⟩ ⟨henabled, hcovers, horderly⟩ hok
    exact ⟨(hs.step henabled hok).1 hcovers, hq.step hs horderly hok⟩

theorem safe_iff_admissible {x : ReadX} {image : Image} {events : List Event} {k : Kernel}
    (h : Run (Kernel.step x) (Started image)
      (fun k e => k.enabled e = true ∧ k.Covers e ∧ k.Orderly e) events k) :
    ∃ c : Slot, k.procRunning = c.val ∧
      ∀ t, k.enabled (.ecall t) = true →
        ((k.trapped t).Safe x ↔ (k.trapped t).Admissible c) := by
  obtain ⟨⟨c, hcurrent, hrunning, -⟩, hqueued⟩ := steady_queued_of_run h
  have hsound : k.Sound c := ⟨hcurrent, hqueued, hrunning⟩
  refine ⟨c, hcurrent.procRunning, fun t _ => ?_⟩
  have htrapped : (k.trapped t).Sound c := hsound.of_table rfl rfl
  exact htrapped.safe_iff

/-! ### Concrete runs -/

theorem started_prepareProcesses (image : Image) :
    Started image ((default : Kernel).prepareProcesses image) := ⟨default, rfl, rfl⟩

private theorem exists_run_ticks (Allowed : Kernel → Event → Prop)
    (hallowed : ∀ k t, Allowed k (.tick t)) :
    ∃ k, Run (Kernel.step tiedHigh) (Started someImage) Allowed (receiving 0) k ∧
      follow (Kernel.step tiedHigh) (fun _ e => match e with | .tick _ => true | _ => false)
        ((default : Kernel).prepareProcesses someImage) (receiving 0) = some k := by
  have hrun : (follow (Kernel.step tiedHigh)
      (fun _ e => match e with | .tick _ => true | _ => false)
      ((default : Kernel).prepareProcesses someImage) (receiving 0)).isSome = true := by
    decide +kernel
  obtain ⟨k, hk⟩ := Option.isSome_iff_exists.mp hrun
  refine ⟨k, Run.of_follow ?_ (started_prepareProcesses someImage) hk, hk⟩
  intro s e he
  cases e with
  | tick t => exact hallowed s t
  | ecall _ | create _ _ => cases he

/-- A tick, or a blocking send that finds at most one sender in the queue. -/
def sendsInOrder (k : Kernel) : Event → Bool
  | .tick _ => true
  | .create _ _ => false
  | .ecall t =>
      !k.doStart && decide k.OtherReady &&
        match (k.trapped t).requested with
        | some (.send dest _ false) =>
            decide (∃ d : Slot, dest = d.val ∧ (k.proc d).pid = d.val ∧
              ∀ head ∈ (k.proc d).queueSending, k.next head = none)
        | _ => false

private theorem orderly_of_sendsInOrder {e : Event} (h : k.sendsInOrder e = true) :
    k.enabled e = true ∧ k.Covers e ∧ k.Orderly e := by
  cases e with
  | tick t => exact ⟨rfl, trivial, trivial⟩
  | create entry stack => cases h
  | ecall t =>
      simp only [sendsInOrder, Bool.and_eq_true, decide_eq_true_eq] at h
      obtain ⟨⟨hstart, hready⟩, hsend⟩ := h
      refine ⟨hstart, fun _ => hready, fun c _ call hcall => ?_⟩
      rw [hcall] at hsend
      match call, hsend with
      | .send dest m false, hsend =>
          obtain ⟨d, hd, hlive, hroom⟩ := of_decide_eq_true hsend
          exact ⟨d, hd, hlive, fun _ _ => hroom⟩

/-- Pids 1 and 2 send to pid 5; `n` ticks follow. -/
def sendingToFs (n : Nat) : List Event :=
  List.replicate 5 (.tick receiveAny) ++
    [.ecall (.ecall IPC_SEND 5 (messageOf 1) 0x20010000),
      .ecall (.ecall IPC_SEND 5 (messageOf 2) 0x20010000)] ++
    List.replicate n (.tick receiveAny)

theorem exists_sending {events : List Event} {look : Kernel → Bool}
    (h : ((follow (Kernel.step tiedHigh) sendsInOrder
      ((default : Kernel).prepareProcesses someImage) events).map look) = some true) :
    ∃ k, Run (Kernel.step tiedHigh) (Started someImage)
        (fun k e => k.enabled e = true ∧ k.Covers e ∧ k.Orderly e) events k ∧ look k = true := by
  obtain ⟨k, hk, hlook⟩ := Option.map_eq_some_iff.mp h
  exact ⟨k, Run.of_follow (fun _ _ h => orderly_of_sendsInOrder h)
    (started_prepareProcesses someImage) hk, hlook⟩

/-- Pid 3 runs, behind the system calls of pids 1 and 2. -/
theorem safe_iff_admissible_calls :
    ∃ k, Run (Kernel.step tiedHigh) (Started someImage)
        (fun k e => k.enabled e = true ∧ k.Covers e ∧ k.Orderly e) (sendingToFs 0) k ∧
      k.procRunning = 3 ∧ ∀ t, k.enabled (.ecall t) = true →
        ((k.trapped t).Safe tiedHigh ↔ (k.trapped t).Admissible 3) := by
  have hlook : ((follow (Kernel.step tiedHigh) sendsInOrder
      ((default : Kernel).prepareProcesses someImage) (sendingToFs 0)).map
        fun k => k.procRunning == 3) = some true := by
    decide +kernel
  obtain ⟨k, hrun, hthird⟩ := exists_sending hlook
  obtain ⟨c, hc, hsafe⟩ := safe_iff_admissible hrun
  have hthree : k.procRunning = 3 := beq_iff_eq.mp hthird
  obtain rfl : c = 3 := Fin.ext (hc.symm.trans hthree)
  exact ⟨k, hrun, hthree, hsafe⟩

def selfSend : Trap := .ecall IPC_SEND 1 0x20200000 0x20010000

/-- A send of a process to itself fails an assertion and halts the machine. -/
theorem self_send_not_safe :
    ∃ k, Run (Kernel.step tiedHigh) (Started someImage) (fun k e => k.enabled e = true)
        (receiving 0) k ∧
      k.enabled (.ecall selfSend) = true ∧ ¬(k.trapped selfSend).Safe tiedHigh := by
  obtain ⟨k, hrun, hk⟩ := exists_run_ticks (fun k e => k.enabled e = true)
    (fun _ _ => rfl)
  have hfaults : (follow (Kernel.step tiedHigh)
      (fun _ e => match e with | .tick _ => true | _ => false)
      ((default : Kernel).prepareProcesses someImage) (receiving 0)).map
        (fun k => (k.enabled (.ecall selfSend),
          ((k.trapped selfSend).syscallHandler tiedHigh).toOption.isSome)) =
      some (true, false) := by
    decide +kernel
  rw [hk] at hfaults
  obtain ⟨henabled, hfails⟩ := Prod.mk.inj (Option.some.inj hfaults)
  refine ⟨k, hrun, henabled, fun hsafe => ?_⟩
  obtain ⟨k', hk'⟩ := hsafe.returns
  rw [hk'] at hfails
  cases hfails

end Kernel

end PComputer.PseudOS
