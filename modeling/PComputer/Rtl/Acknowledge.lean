import PComputer.Rtl.InterruptUnit

/-!
# Acknowledged requests and taken interrupts

The three state machines exchange one-cycle pulses.  A request stays issued
until its `eip_reply`, `REPLY` is left only through the `INTERRUPT` phase, and
the cause was fixed with the `eip_reply`, so acknowledgements and interrupts
alternate and carry the same source.
-/

namespace PComputer.Rtl

open PComputer.Foundation

/-! ## The FSM of `privilege`, the remaining registers -/

namespace Privilege

variable {i : PrivilegeIn} (p : Privilege)

private theorem csrWrite_codes (a : BitVec 12) (d : Word) :
    (p.csrWrite a d).intSource = p.intSource ∧ (p.csrWrite a d).mcauseICode = p.mcauseICode := by
  unfold csrWrite
  simp only [apply_ite intSource, apply_ite mcauseICode, ite_self, and_self]

private theorem csrUpdate_codes (i : PrivilegeIn) :
    (p.csrUpdate i).intSource = p.intSource ∧ (p.csrUpdate i).mcauseICode = p.mcauseICode := by
  obtain ⟨hsource, hcode⟩ := csrWrite_codes p i.a i.d
  unfold csrUpdate csrReset excEnter excLeave
  simp only [apply_ite intSource, apply_ite mcauseICode, hsource, hcode, ite_self, and_self]

def intSourceNext : BitVec 2 :=
  match p.state with
  | .IDLE =>
      if p.intPending then
        BitVec.ofBool (p.eipReg && !p.eipIstimerReg && p.meieReg) ++
          BitVec.ofBool (p.eipReg && p.eipIstimerReg && p.mtieReg)
      else p.intSource
  | .ISSUE | .REPLY | .END => p.intSource

def mcauseICodeNext : BitVec 4 :=
  match p.state with
  | .ISSUE => if p.intSource.getLsbD 1 then 11 else if p.intSource.getLsbD 0 then 7 else 3
  | .IDLE | .REPLY | .END => p.mcauseICode

def eipReplyNext : Bool :=
  match p.state with
  | .ISSUE =>
      if p.intSource.getLsbD 1 then true else if p.intSource.getLsbD 0 then true else p.eipReply
  | .REPLY => false
  | .IDLE | .END => p.eipReply

private theorem cycle_eq_intStep (hrst : i.rst = false) :
    p.cycle i = p.intStep (sample i p (p.csrUpdate i)) := by
  unfold cycle
  rw [hrst]
  rfl

private theorem intStep_codes (q : Privilege) (hsource : q.intSource = p.intSource)
    (hcode : q.mcauseICode = p.mcauseICode) (hreply : q.eipReply = p.eipReply) :
    (p.intStep q).intSource = p.intSourceNext ∧ (p.intStep q).mcauseICode = p.mcauseICodeNext ∧
      (p.intStep q).eipReply = p.eipReplyNext := by
  unfold intStep intSourceNext mcauseICodeNext eipReplyNext
  cases p.state with
  | IDLE | ISSUE | REPLY =>
      simp only [apply_ite intSource, apply_ite mcauseICode, apply_ite eipReply, hsource, hcode,
        hreply, ite_self, and_self]
  | END => exact ⟨hsource, hcode, hreply⟩

private theorem cycle_codes (hrst : i.rst = false) :
    (p.cycle i).intSource = p.intSourceNext ∧ (p.cycle i).mcauseICode = p.mcauseICodeNext ∧
      (p.cycle i).eipReply = p.eipReplyNext := by
  obtain ⟨hsource, hcode⟩ := csrUpdate_codes p i
  obtain ⟨-, -, hreply⟩ := csrUpdate_fsm p i
  rw [cycle_eq_intStep p hrst]
  exact intStep_codes p _ hsource hcode hreply

private theorem intStep_eip (q : Privilege) :
    (p.intStep q).eipReg = q.eipReg ∧ (p.intStep q).eipIstimerReg = q.eipIstimerReg ∧
      (p.intStep q).meieReg = q.meieReg ∧ (p.intStep q).mtieReg = q.mtieReg ∧
      (p.intStep q).mip = q.mip := by
  unfold intStep
  cases p.state with
  | IDLE | ISSUE | REPLY =>
      simp only [apply_ite eipReg, apply_ite eipIstimerReg, apply_ite meieReg, apply_ite mtieReg,
        apply_ite mip, ite_self, and_self]
  | END => exact ⟨rfl, rfl, rfl, rfl, rfl⟩

private theorem cycle_eip (hrst : i.rst = false) :
    (p.cycle i).eipReg = i.eip ∧ (p.cycle i).eipIstimerReg = i.eipIstimer ∧
      (p.cycle i).meieReg = p.meie ∧ (p.cycle i).mtieReg = p.mtie := by
  obtain ⟨heip, histimer, hmeie, hmtie, -⟩ := intStep_eip p (sample i p (p.csrUpdate i))
  rw [cycle_eq_intStep p hrst]
  exact ⟨heip, histimer, hmeie, hmtie⟩

private theorem getLsbD_writeMasked_mip (csr d : Word) :
    (writeMasked csr mipWriteMask d).getLsbD 4 = csr.getLsbD 4 := by
  rw [getLsbD_writeMasked]
  simp [mipWriteMask]

private theorem csrWrite_mip (a : BitVec 12) (d : Word) :
    (p.csrWrite a d).mip = if a = 0x344 then writeMasked p.mip mipWriteMask d else p.mip := by
  unfold csrWrite
  simp only [apply_ite mip]
  by_cases ha : a = 0x344
  · subst ha
    rfl
  · simp only [ha, if_false, ite_self]

private theorem cycle_mipSip (hrst : i.rst = false) (hsip : p.mipSip = false) :
    (p.cycle i).mipSip = false := by
  have hwrite : (p.csrWrite i.a i.d).mip.getLsbD 4 = false := by
    rw [csrWrite_mip, apply_ite (fun w : Word => w.getLsbD 4), getLsbD_writeMasked_mip, ite_self]
    exact hsip
  have hupdate : (p.csrUpdate i).mip.getLsbD 4 = false := by
    unfold csrUpdate
    rw [hrst, if_neg (by decide)]
    cases i.we with
    | true => exact hwrite
    | false =>
        simp only [excEnter, excLeave, apply_ite mip, ite_self]
        exact hsip
  obtain ⟨-, -, -, -, hmip⟩ := intStep_eip p (sample i p (p.csrUpdate i))
  rw [cycle_eq_intStep p hrst, mipSip, hmip]
  exact hupdate

end Privilege

/-! ## Events -/

/-- `eip_reply` in one cycle, with `eip_istimer`; or a phase `INTERRUPT`, with the new `mcause`. -/
inductive IntEvent where
  | acknowledged (isTimer : Bool)
  | taken (mcause : Word)
  deriving DecidableEq, Repr

def interruptCause (isTimer : Bool) : Word := if isTimer then 0x80000007 else 0x8000000b

/-- Acknowledgements and interrupts in turn; the last request may still be waiting. -/
inductive Alternates : List IntEvent → Option Bool → Prop
  | start : Alternates [] none
  | acknowledged {events : List IntEvent} {isTimer : Bool} :
      Alternates events none → Alternates (events ++ [.acknowledged isTimer]) (some isTimer)
  | taken {events : List IntEvent} {isTimer : Bool} :
      Alternates events (some isTimer) →
        Alternates (events ++ [.taken (interruptCause isTimer)]) none

namespace PcpuMain

def eventsOf (s s' : PcpuMain) : List IntEvent :=
  (if s.cpu.privilege.eipReply then [.acknowledged s.interruptUnit.intIstimer] else []) ++
    if s.cpu.core.phase = .INTERRUPT then [.taken s'.cpu.privilege.mcause] else []

def events (tr : Nat → PcpuMain) (n : Nat) : Nat → List IntEvent
  | 0 => []
  | k + 1 => events tr n k ++ eventsOf (tr (n + k)) (tr (n + k + 1))

/-! ## The invariant -/

def interruptCode (isTimer : Bool) : BitVec 4 := if isTimer then 7 else 11

/-- `pending` is the source of a request that is acknowledged and not yet taken. -/
structure Exchange (s : PcpuMain) (pending : Option Bool) : Prop where
  sip : s.cpu.privilege.mipSip = false
  returns : s.cpu.core.phase = .MEM_WAIT → s.cpu.core.phaseReturn ≠ .INTERRUPT
  level : s.cpu.privilege.interrupt = true → s.cpu.privilege.state = .REPLY
  consumed : s.cpu.privilege.intReplyReg = true →
    s.cpu.core.phase = .IF ∧ s.cpu.privilege.state = .REPLY ∧ s.cpu.privilege.eipReply = false
  taken : s.cpu.core.phase = .INTERRUPT → s.cpu.privilege.state = .REPLY ∧
    s.cpu.privilege.eipReply = false ∧ s.cpu.privilege.intReplyReg = false
  reply : s.cpu.privilege.eipReply = true → s.cpu.privilege.state = .REPLY ∧
    s.interruptUnit.state = .ISSUE ∧
    s.cpu.privilege.mcauseICode = interruptCode s.interruptUnit.intIstimerReg
  unitReply : s.interruptUnit.intReplyReg = true → s.cpu.privilege.state = .REPLY ∧
    s.cpu.privilege.eipReply = false ∧ s.interruptUnit.state = .ISSUE
  idle : s.cpu.privilege.state = .IDLE → s.cpu.privilege.intPending = true →
    s.interruptUnit.state = .ISSUE ∧ s.cpu.privilege.eipReg = true ∧
    s.cpu.privilege.eipIstimerReg = s.interruptUnit.intIstimerReg ∧
    (if s.interruptUnit.intIstimerReg then s.cpu.privilege.mtieReg
      else s.cpu.privilege.meieReg) = true
  issue : s.cpu.privilege.state = .ISSUE → s.interruptUnit.state = .ISSUE ∧
    s.cpu.privilege.intSource = if s.interruptUnit.intIstimerReg then 1 else 2
  waiting : ∀ isTimer, pending = some isTimer ↔
    s.cpu.privilege.state = .REPLY ∧ s.cpu.privilege.eipReply = false ∧
      s.cpu.privilege.intReplyReg = false ∧
      s.cpu.privilege.mcauseICode = interruptCode isTimer
  code : s.cpu.privilege.state = .REPLY →
    ∃ isTimer, s.cpu.privilege.mcauseICode = interruptCode isTimer

private theorem interruptCode_inj {b c : Bool} (h : interruptCode b = interruptCode c) : b = c := by
  revert b c
  decide

section Cycle

variable {x : ReadX} {i : PcpuMainIn} {s : PcpuMain} {pending : Option Bool}

theorem mcause_cycle (hrst : i.rst = false) (hphase : s.cpu.core.phase = .INTERRUPT) {b : Bool}
    (hcode : s.cpu.privilege.mcauseICode = interruptCode b) :
    (s.cycle x i).cpu.privilege.mcause = interruptCause b := by
  obtain ⟨-, -, hmcause⟩ :=
    s.cpu.privilege.cycle_csrs (i := s.cpu.privilegeIn (s.cpuIn i)) hrst
  have hupdate : (s.cpu.privilege.csrUpdate (s.cpu.privilegeIn (s.cpuIn i))).mcause =
      1#1 ++ 0#27 ++ s.cpu.privilege.mcauseICode := by
    unfold Privilege.csrUpdate
    rw [show (s.cpu.privilegeIn (s.cpuIn i)).rst = false from hrst]
    rw [show (s.cpu.privilegeIn (s.cpuIn i)).we = false by
      simp [Multicyc.privilegeIn, Core.control_csrWe, hphase]]
    rw [show (s.cpu.privilegeIn (s.cpuIn i)).onExcEnter = true by
      simp [Multicyc.privilegeIn, Core.control_onExcEnter, hphase]]
    simp [Privilege.excEnter, Multicyc.privilegeIn, Core.control, hphase]
  have hnext : (s.cycle x i).cpu.privilege.mcause = _ := hmcause.trans hupdate
  rw [hnext, hcode]
  cases b <;> rfl

theorem phase_cycle (hrst : i.rst = false) : (s.cycle x i).cpu.core.phase =
    s.cpu.core.phaseNext (s.cpu.coreIn x (s.cpuIn i)) :=
  Multicyc.phase_cycle (i := s.cpuIn i) hrst x s.cpu

def pendingNext (s : PcpuMain) (pending : Option Bool) : Option Bool :=
  if s.cpu.privilege.eipReply then some s.interruptUnit.intIstimer
  else if s.cpu.core.phase = .INTERRUPT then none
  else pending

private theorem Exchange.alternates_cycle {events : List IntEvent} (h : s.Exchange pending)
    (hrst : i.rst = false)
    (halternates : Alternates events pending) :
    Alternates (events ++ eventsOf s (s.cycle x i)) (s.pendingNext pending) := by
  unfold eventsOf pendingNext
  cases hreply : s.cpu.privilege.eipReply with
  | true =>
      obtain ⟨hstate, -⟩ := h.reply hreply
      have hphase : s.cpu.core.phase ≠ .INTERRUPT := by
        intro hphase
        rw [(h.taken hphase).2.1] at hreply
        cases hreply
      have hnone : pending = none := by
        cases pending with
        | none => rfl
        | some b =>
            rw [((h.waiting b).mp rfl).2.1] at hreply
            cases hreply
      simp only [if_true, if_neg hphase, List.append_nil]
      exact .acknowledged (hnone ▸ halternates)
  | false =>
      simp only [Bool.false_eq_true, if_false, List.nil_append]
      by_cases hphase : s.cpu.core.phase = .INTERRUPT
      · obtain ⟨hstate, heip, hconsumed⟩ := h.taken hphase
        obtain ⟨b, hcode⟩ := h.code hstate
        have hpending := (h.waiting b).mpr ⟨hstate, heip, hconsumed, hcode⟩
        rw [if_pos hphase, if_pos hphase, mcause_cycle hrst hphase hcode]
        exact .taken (hpending ▸ halternates)
      · rw [if_neg hphase, if_neg hphase, List.append_nil]
        exact halternates

/-- A cycle in which the interrupt unit is still in reset finds nothing on its way. -/
def Quiet (s : PcpuMain) : Prop :=
  s.interruptUnit.state = .IDLE ∧ s.cpu.privilege.state = .IDLE ∧
    s.cpu.privilege.intPending = false

structure Advances (x : ReadX) (i : PcpuMainIn) (s s' : PcpuMain) : Prop where
  state : s'.cpu.privilege.state = s.cpu.privilege.stateNext
  interrupt : s'.cpu.privilege.interrupt = s.cpu.privilege.interruptNext
  intPending : s'.cpu.privilege.intPending =
    s.cpu.privilege.intCond (s.cpu.privilegeIn (s.cpuIn i))
  intReplyReg : s'.cpu.privilege.intReplyReg = decide (s.cpu.core.phase = .INTERRUPT)
  intSource : s'.cpu.privilege.intSource = s.cpu.privilege.intSourceNext
  mcauseICode : s'.cpu.privilege.mcauseICode = s.cpu.privilege.mcauseICodeNext
  eipReply : s'.cpu.privilege.eipReply = s.cpu.privilege.eipReplyNext
  eipReg : s'.cpu.privilege.eipReg = s.interruptUnit.interrupt
  eipIstimerReg : s'.cpu.privilege.eipIstimerReg = s.interruptUnit.intIstimer
  meieReg : s'.cpu.privilege.meieReg = s.cpu.privilege.meie
  mtieReg : s'.cpu.privilege.mtieReg = s.cpu.privilege.mtie
  unitReply : s'.interruptUnit.intReplyReg = s.cpu.privilege.eipReply
  unitIssue : i.rstInterrupt = false → s.interruptUnit.state = .ISSUE →
    s.interruptUnit.intReplyReg = false → s'.interruptUnit.state = .ISSUE ∧
      s'.interruptUnit.intIstimerReg = s.interruptUnit.intIstimerReg
  phase : s'.cpu.core.phase = s.cpu.core.phaseNext (s.cpu.coreIn x (s.cpuIn i))

private theorem advances_cycle (hrst : i.rst = false) : s.Advances x i (s.cycle x i) := by
  obtain ⟨-, hpending, hreplyReg⟩ :=
    s.cpu.privilege.cycle_sampled (i := s.cpu.privilegeIn (s.cpuIn i)) hrst
  obtain ⟨hsource, hcode, heipReply⟩ :=
    s.cpu.privilege.cycle_codes (i := s.cpu.privilegeIn (s.cpuIn i)) hrst
  obtain ⟨heipReg, histimerReg, hmeieReg, hmtieReg⟩ :=
    s.cpu.privilege.cycle_eip (i := s.cpu.privilegeIn (s.cpuIn i)) hrst
  exact {
    state := s.cpu.privilege.cycle_state hrst
    interrupt := s.cpu.privilege.cycle_interrupt hrst
    intPending := hpending
    intReplyReg := hreplyReg.trans (Core.control_intReply _ _)
    intSource := hsource
    mcauseICode := hcode
    eipReply := heipReply
    eipReg := heipReg
    eipIstimerReg := histimerReg
    meieReg := hmeieReg
    mtieReg := hmtieReg
    unitReply := s.interruptUnit.cycle_intReplyReg
    unitIssue := fun hunit hissue hno =>
      have hcycle := s.interruptUnit.cycle_issue (i := s.unitIn i) hunit hissue hno
      ⟨hcycle.1, hcycle.2.1⟩
    phase := phase_cycle hrst }

namespace Exchange

variable {s' : PcpuMain}

theorem running (hunit : i.rstInterrupt = true → s.Quiet)
    (hissue : s.interruptUnit.state = .ISSUE) : i.rstInterrupt = false := by
  cases hr : i.rstInterrupt with
  | false => rfl
  | true => exact absurd ((hunit hr).1.symm.trans hissue) (by decide)

theorem holds (h : s.Exchange pending) (hnext : s.Advances x i s')
    (hunit : i.rstInterrupt = true → s.Quiet) (hissue : s.interruptUnit.state = .ISSUE)
    (hbusy : s.cpu.privilege.state ≠ .REPLY) :
    s'.interruptUnit.state = .ISSUE ∧
      s'.interruptUnit.intIstimerReg = s.interruptUnit.intIstimerReg := by
  have hno : s.interruptUnit.intReplyReg = false := by
    cases hr : s.interruptUnit.intReplyReg with
    | false => rfl
    | true => exact absurd (h.unitReply hr).1 hbusy
  exact hnext.unitIssue (running hunit hissue) hissue hno

private theorem not_reply (h : s.Exchange pending) (hbusy : s.cpu.privilege.state ≠ .REPLY) :
    s.cpu.privilege.eipReply = false ∧ s.cpu.core.phase ≠ .INTERRUPT := by
  constructor
  · cases hr : s.cpu.privilege.eipReply with
    | false => rfl
    | true => exact absurd (h.reply hr).1 hbusy
  · exact fun hp => hbusy (h.taken hp).1

private theorem source_bits (h : s.Exchange pending) (hissue : s.cpu.privilege.state = .ISSUE) :
    s.cpu.privilege.mcauseICodeNext = interruptCode s.interruptUnit.intIstimerReg ∧
      s.cpu.privilege.eipReplyNext = true := by
  obtain ⟨-, hsrc⟩ := h.issue hissue
  simp only [Privilege.mcauseICodeNext, Privilege.eipReplyNext, hissue, hsrc]
  cases s.interruptUnit.intIstimerReg <;> exact ⟨rfl, rfl⟩

theorem enters (h : s.Exchange pending) (hnext : s.Advances x i s')
    (hint : s'.cpu.core.phase = .INTERRUPT) :
    s.cpu.core.phase = .ID_RF ∧ s.cpu.privilege.state = .REPLY ∧
      s.cpu.privilege.intReplyReg = false := by
  rw [hnext.phase] at hint
  obtain ⟨hid, hlevel⟩ := Multicyc.phaseNext_eq_INTERRUPT hint h.returns
  refine ⟨hid, h.level hlevel, ?_⟩
  cases hr : s.cpu.privilege.intReplyReg with
  | false => rfl
  | true => exact absurd ((h.consumed hr).1.symm.trans hid) (by decide)

theorem level_next (h : s.Exchange pending) (hnext : s.Advances x i s')
    (hlevel : s'.cpu.privilege.interrupt = true) : s'.cpu.privilege.state = .REPLY := by
  rw [hnext.interrupt, Privilege.interruptNext] at hlevel
  rw [hnext.state, Privilege.stateNext]
  cases hst : s.cpu.privilege.state with
  | ISSUE => rfl
  | REPLY =>
      rw [hst] at hlevel
      dsimp only at hlevel ⊢
      split_ifs at hlevel with hr
      rw [if_neg hr]
  | IDLE | END =>
      rw [hst] at hlevel
      exact absurd ((h.level hlevel).symm.trans hst) (by decide)

private theorem consumed_next (h : s.Exchange pending) (hnext : s.Advances x i s')
    (hr : s'.cpu.privilege.intReplyReg = true) :
    s'.cpu.core.phase = .IF ∧ s'.cpu.privilege.state = .REPLY ∧
      s'.cpu.privilege.eipReply = false := by
  rw [hnext.intReplyReg, decide_eq_true_iff] at hr
  obtain ⟨hst, heip, hno⟩ := h.taken hr
  refine ⟨?_, ?_, ?_⟩
  · rw [hnext.phase, Core.phaseNext, hr]
  · rw [hnext.state, Privilege.stateNext, hst]
    exact if_neg (by rw [hno]; decide)
  · rw [hnext.eipReply, Privilege.eipReplyNext, hst]

private theorem taken_next (h : s.Exchange pending) (hnext : s.Advances x i s')
    (hint : s'.cpu.core.phase = .INTERRUPT) :
    s'.cpu.privilege.state = .REPLY ∧ s'.cpu.privilege.eipReply = false ∧
      s'.cpu.privilege.intReplyReg = false := by
  obtain ⟨hid, hst, hno⟩ := h.enters hnext hint
  refine ⟨?_, ?_, ?_⟩
  · rw [hnext.state, Privilege.stateNext, hst]
    exact if_neg (by rw [hno]; decide)
  · rw [hnext.eipReply, Privilege.eipReplyNext, hst]
  · rw [hnext.intReplyReg, hid]
    rfl

private theorem reply_next (h : s.Exchange pending) (hnext : s.Advances x i s')
    (hunit : i.rstInterrupt = true → s.Quiet) (hr : s'.cpu.privilege.eipReply = true) :
    s'.cpu.privilege.state = .REPLY ∧ s'.interruptUnit.state = .ISSUE ∧
      s'.cpu.privilege.mcauseICode = interruptCode s'.interruptUnit.intIstimerReg := by
  rw [hnext.eipReply, Privilege.eipReplyNext] at hr
  cases hst : s.cpu.privilege.state with
  | ISSUE =>
      obtain ⟨hissue, -⟩ := h.issue hst
      obtain ⟨hs, ht⟩ := h.holds hnext hunit hissue (by rw [hst]; decide)
      refine ⟨?_, hs, ?_⟩
      · rw [hnext.state, Privilege.stateNext, hst]
      · rw [hnext.mcauseICode, ht]
        exact (h.source_bits hst).1
  | REPLY =>
      rw [hst] at hr
      cases hr
  | IDLE | END =>
      rw [hst] at hr
      exact absurd ((h.reply hr).1.symm.trans hst) (by decide)

private theorem unitReply_next (h : s.Exchange pending) (hnext : s.Advances x i s')
    (hunit : i.rstInterrupt = true → s.Quiet) (hr : s'.interruptUnit.intReplyReg = true) :
    s'.cpu.privilege.state = .REPLY ∧ s'.cpu.privilege.eipReply = false ∧
      s'.interruptUnit.state = .ISSUE := by
  rw [hnext.unitReply] at hr
  obtain ⟨hst, hissue, -⟩ := h.reply hr
  have hno : s.interruptUnit.intReplyReg = false := by
    cases hu : s.interruptUnit.intReplyReg with
    | false => rfl
    | true =>
        rw [(h.unitReply hu).2.1] at hr
        cases hr
  refine ⟨?_, ?_, (hnext.unitIssue (running hunit hissue) hissue hno).1⟩
  · rw [hnext.state, Privilege.stateNext, hst]
    refine if_neg ?_
    rintro htaken
    rw [(h.consumed htaken).2.2] at hr
    cases hr
  · rw [hnext.eipReply, Privilege.eipReplyNext, hst]

private theorem idle_next (h : s.Exchange pending) (hnext : s.Advances x i s')
    (hunit : i.rstInterrupt = true → s.Quiet) (hidle : s'.cpu.privilege.state = .IDLE)
    (hpend : s'.cpu.privilege.intPending = true) :
    s'.interruptUnit.state = .ISSUE ∧ s'.cpu.privilege.eipReg = true ∧
      s'.cpu.privilege.eipIstimerReg = s'.interruptUnit.intIstimerReg ∧
      (if s'.interruptUnit.intIstimerReg then s'.cpu.privilege.mtieReg
        else s'.cpu.privilege.meieReg) = true := by
  have hcond : s.cpu.privilege.intCond (s.cpu.privilegeIn (s.cpuIn i)) = true :=
    hnext.intPending.symm.trans hpend
  have hbusy : s.cpu.privilege.state ≠ .REPLY := by
    intro hst
    rw [hnext.state, Privilege.stateNext, hst] at hidle
    dsimp only at hidle
    split_ifs at hidle
  have hcond' : (s.interruptUnit.interrupt && !s.interruptUnit.intIstimer &&
      s.cpu.privilege.meie || s.interruptUnit.interrupt && s.interruptUnit.intIstimer &&
        s.cpu.privilege.mtie) = true := by
    have hsip := h.sip
    simp only [Privilege.intCond, hsip, Bool.false_and, Bool.or_false, Bool.and_eq_true] at hcond
    exact hcond.2
  have hissue : s.interruptUnit.state = .ISSUE := by
    by_contra hne
    have hlow : s.interruptUnit.interrupt = false := by
      unfold InterruptUnit.interrupt
      exact beq_eq_false_iff_ne.mpr hne
    rw [hlow] at hcond'
    cases hcond'
  obtain ⟨hs, ht⟩ := h.holds hnext hunit hissue hbusy
  have hhigh : s.interruptUnit.interrupt = true := by
    unfold InterruptUnit.interrupt
    rw [hissue]
    rfl
  refine ⟨hs, hnext.eipReg.trans hhigh, hnext.eipIstimerReg.trans ht.symm, ?_⟩
  rw [ht, hnext.mtieReg, hnext.meieReg]
  rw [hhigh] at hcond'
  unfold InterruptUnit.intIstimer at hcond'
  cases htimer : s.interruptUnit.intIstimerReg with
  | true =>
      rw [htimer] at hcond'
      simpa using hcond'
  | false =>
      rw [htimer] at hcond'
      simpa using hcond'

private theorem issue_next (h : s.Exchange pending) (hnext : s.Advances x i s')
    (hunit : i.rstInterrupt = true → s.Quiet) (hissue : s'.cpu.privilege.state = .ISSUE) :
    s'.interruptUnit.state = .ISSUE ∧
      s'.cpu.privilege.intSource = if s'.interruptUnit.intIstimerReg then 1 else 2 := by
  rw [hnext.state, Privilege.stateNext] at hissue
  cases hst : s.cpu.privilege.state with
  | IDLE =>
      rw [hst] at hissue
      dsimp only at hissue
      split_ifs at hissue with hpend
      obtain ⟨hunitIssue, heip, htimer, henabled⟩ := h.idle hst hpend
      obtain ⟨hs, ht⟩ := h.holds hnext hunit hunitIssue (by rw [hst]; decide)
      refine ⟨hs, ?_⟩
      rw [hnext.intSource, ht, Privilege.intSourceNext, hst]
      dsimp only
      rw [if_pos hpend, heip, htimer]
      cases hb : s.interruptUnit.intIstimerReg with
      | true =>
          rw [hb] at henabled
          rw [show s.cpu.privilege.mtieReg = true from henabled]
          cases s.cpu.privilege.meieReg <;> rfl
      | false =>
          rw [hb] at henabled
          rw [show s.cpu.privilege.meieReg = true from henabled]
          cases s.cpu.privilege.mtieReg <;> rfl
  | REPLY =>
      rw [hst] at hissue
      dsimp only at hissue
      split_ifs at hissue
  | ISSUE | END =>
      rw [hst] at hissue
      cases hissue

private theorem waiting_next (h : s.Exchange pending) (hnext : s.Advances x i s') (b : Bool) :
    s.pendingNext pending = some b ↔
      s'.cpu.privilege.state = .REPLY ∧ s'.cpu.privilege.eipReply = false ∧
        s'.cpu.privilege.intReplyReg = false ∧
        s'.cpu.privilege.mcauseICode = interruptCode b := by
  rw [hnext.state, hnext.eipReply, hnext.intReplyReg, hnext.mcauseICode, decide_eq_false_iff_not]
  unfold pendingNext
  by_cases hbusy : s.cpu.privilege.state = .REPLY
  swap
  · obtain ⟨heip, hnot⟩ := h.not_reply hbusy
    have hnone : pending ≠ some b := fun hp => hbusy ((h.waiting b).mp hp).1
    rw [if_neg (by rw [heip]; decide), if_neg hnot]
    refine ⟨fun hp => absurd hp hnone, ?_⟩
    rintro ⟨hreply, hlow, -⟩
    cases hst : s.cpu.privilege.state with
    | ISSUE =>
        rw [(h.source_bits hst).2] at hlow
        cases hlow
    | REPLY => exact absurd hst hbusy
    | IDLE =>
        rw [Privilege.stateNext, hst] at hreply
        dsimp only at hreply
        split_ifs at hreply
    | END =>
        rw [Privilege.stateNext, hst] at hreply
        cases hreply
  have hnextCode : s.cpu.privilege.mcauseICodeNext = s.cpu.privilege.mcauseICode := by
    rw [Privilege.mcauseICodeNext, hbusy]
  have hnextReply : s.cpu.privilege.eipReplyNext = false := by
    rw [Privilege.eipReplyNext, hbusy]
  have hnextState : s.cpu.privilege.stateNext =
      if s.cpu.privilege.intReplyReg then .END else .REPLY := by
    rw [Privilege.stateNext, hbusy]
  rw [hnextCode, hnextReply, hnextState]
  cases heip : s.cpu.privilege.eipReply with
  | true =>
      obtain ⟨-, -, hunitCode⟩ := h.reply heip
      have hno : s.cpu.privilege.intReplyReg = false := by
        cases hr : s.cpu.privilege.intReplyReg with
        | false => rfl
        | true =>
            rw [(h.consumed hr).2.2] at heip
            cases heip
      have hnot : s.cpu.core.phase ≠ .INTERRUPT := by
        intro hp
        rw [(h.taken hp).2.1] at heip
        cases heip
      simp only [hno, hunitCode, Bool.false_eq_true, if_false, if_true, true_and, hnot,
        not_false_iff, Option.some.injEq]
      exact ⟨fun hb => hb ▸ rfl, interruptCode_inj⟩
  | false =>
      simp only [Bool.false_eq_true, if_false, true_and]
      by_cases hp : s.cpu.core.phase = .INTERRUPT
      · simp only [hp, if_true, not_true, false_and, and_false, reduceCtorEq]
      · simp only [hp, if_false, not_false_iff, true_and]
        rw [h.waiting b, hbusy, heip]
        cases s.cpu.privilege.intReplyReg <;> simp

private theorem code_next (h : s.Exchange pending) (hnext : s.Advances x i s')
    (hrep : s'.cpu.privilege.state = .REPLY) :
    ∃ isTimer, s'.cpu.privilege.mcauseICode = interruptCode isTimer := by
  rw [hnext.mcauseICode]
  rw [hnext.state, Privilege.stateNext] at hrep
  cases hst : s.cpu.privilege.state with
  | ISSUE => exact ⟨_, (h.source_bits hst).1⟩
  | REPLY =>
      rw [Privilege.mcauseICodeNext, hst]
      exact h.code hst
  | IDLE =>
      rw [hst] at hrep
      dsimp only at hrep
      split_ifs at hrep
  | END =>
      rw [hst] at hrep
      cases hrep

theorem cycle (h : s.Exchange pending) (hrst : i.rst = false)
    (hunit : i.rstInterrupt = true → s.Quiet) : (s.cycle x i).Exchange (s.pendingNext pending) := by
  have hnext := advances_cycle (x := x) (s := s) hrst
  constructor
  case sip => exact s.cpu.privilege.cycle_mipSip hrst h.sip
  case returns =>
    intro hwait
    rw [hnext.phase] at hwait
    have hreturn := Multicyc.phaseNext_eq_MEM_WAIT hwait h.returns
    have hcore : (s.cycle x i).cpu.core = s.cpu.core.advance (s.cpu.coreIn x (s.cpuIn i)) := by
      change s.cpu.core.cycle _ = _
      rw [Core.cycle, show (s.cpu.coreIn x (s.cpuIn i)).rst = false from hrst]
      rfl
    rw [hcore]
    exact hreturn
  case level => exact h.level_next hnext
  case consumed => exact h.consumed_next hnext
  case taken => exact h.taken_next hnext
  case reply => exact h.reply_next hnext hunit
  case unitReply => exact h.unitReply_next hnext hunit
  case idle => exact h.idle_next hnext hunit
  case issue => exact h.issue_next hnext hunit
  case waiting => exact h.waiting_next hnext
  case code => exact h.code_next hnext

end Exchange

end Cycle

/-! ## Runs from reset -/

/--
A run whose first `n` cycles are cycles of reset.  The reset of the interrupt
unit comes from a register, so it may last one cycle longer.
-/
structure FromReset (x : ReadX) (ins : Nat → PcpuMainIn) (tr : Nat → PcpuMain) (n : Nat) :
    Prop where
  pos : 0 < n
  cycle : ∀ t, tr (t + 1) = (tr t).cycle x (ins t)
  rst : ∀ t, (ins t).rst = decide (t < n)
  rstInterrupt : (ins (n - 1)).rstInterrupt = true
  released : ∀ t, n < t → (ins t).rstInterrupt = false

section FromReset

variable {x : ReadX} {ins : Nat → PcpuMainIn} {tr : Nat → PcpuMain} {n : Nat}

private theorem eipReply_of_rst {i : PcpuMainIn} (hrst : i.rst = true) (s : PcpuMain) :
    (s.cycle x i).cpu.privilege.eipReply = false ∧ (s.cycle x i).cpu.privilege.mipSip = false := by
  have hpriv : (s.cycle x i).cpu.privilege =
      Privilege.intReset (Privilege.sample (s.cpu.privilegeIn (s.cpuIn i)) s.cpu.privilege
        s.cpu.privilege.csrReset) := by
    simp [PcpuMain.cycle, Multicyc.cycle, Privilege.cycle, Privilege.csrUpdate,
      Multicyc.privilegeIn, cpuIn, hrst]
  rw [hpriv]
  exact ⟨rfl, BitVec.getLsbD_zero⟩

/-- After two cycles of reset nothing is on its way. -/
theorem FromReset.exchange (h : FromReset x ins tr n) (htwo : 2 ≤ n) :
    (tr n).Exchange none ∧ (tr n).Quiet := by
  obtain ⟨k, rfl⟩ : ∃ k, n = k + 2 := ⟨n - 2, by omega⟩
  have hrst (t : Nat) (ht : t < k + 2) : ((tr t).cpuIn (ins t)).rst = true := by
    change (ins t).rst = true
    rw [h.rst]
    exact decide_eq_true ht
  obtain ⟨hphase', hmie, hstate', -, -, -⟩ :=
    Multicyc.cycle_of_rst (hrst k (by omega)) x (tr k).cpu
  obtain ⟨hphase, -, hstate, hinterrupt, hpending, hreply⟩ :=
    Multicyc.cycle_of_rst (hrst (k + 1) (by omega)) x (tr (k + 1)).cpu
  obtain ⟨heip', -⟩ := eipReply_of_rst (x := x) (hrst k (by omega)) (tr k)
  obtain ⟨heip, hsip⟩ := eipReply_of_rst (x := x) (hrst (k + 1) (by omega)) (tr (k + 1))
  rw [← h.cycle] at heip heip' hsip
  have hcpu (t : Nat) : (tr (t + 1)).cpu = (tr t).cpu.cycle x ((tr t).cpuIn (ins t)) := by
    rw [h.cycle]
    rfl
  rw [← hcpu] at hphase hphase' hmie hstate hinterrupt hpending hreply
  have hquiet : (tr (k + 1 + 1)).cpu.privilege.intPending = false := by
    rw [hpending, Privilege.intCond, hmie]
    rfl
  have hno : (tr (k + 1 + 1)).cpu.privilege.intReplyReg = false := by
    cases hr : (tr (k + 1 + 1)).cpu.privilege.intReplyReg with
    | false => rfl
    | true => exact absurd (hphase'.symm.trans (hreply hr)) (by decide)
  have hunit : (tr (k + 1 + 1)).interruptUnit =
      (tr (k + 1)).interruptUnit.cycle ((tr (k + 1)).unitIn (ins (k + 1))) := by
    rw [h.cycle]
    rfl
  have hunitRst : ((tr (k + 1)).unitIn (ins (k + 1))).rst = true := h.rstInterrupt
  have hunitState : (tr (k + 1 + 1)).interruptUnit.state = .IDLE := by
    rw [hunit, InterruptUnit.cycle, hunitRst]
    rfl
  have hunitReply : (tr (k + 1 + 1)).interruptUnit.intReplyReg = false := by
    rw [hunit, InterruptUnit.cycle_intReplyReg]
    exact heip'
  refine ⟨?_, hunitState, hstate, hquiet⟩
  change (tr (k + 1 + 1)).Exchange none
  constructor
  case sip => exact hsip
  case returns => simp [hphase]
  case level => simp [hinterrupt]
  case consumed => simp [hno]
  case taken => simp [hphase]
  case reply => simp [heip]
  case unitReply => simp [hunitReply]
  case idle => simp [hquiet]
  case issue => simp [hstate]
  case waiting => simp [hstate]
  case code => simp [hstate]

private theorem FromReset.exchange_run (h : FromReset x ins tr n) (htwo : 2 ≤ n) (k : Nat) :
    ∃ pending, (tr (n + k)).Exchange pending ∧ Alternates (events tr n k) pending := by
  induction k with
  | zero => exact ⟨none, (h.exchange htwo).1, .start⟩
  | succ k ih =>
      obtain ⟨pending, hexchange, halternates⟩ := ih
      have hrst : (ins (n + k)).rst = false := by
        rw [h.rst]
        exact decide_eq_false (by omega)
      have hunit : (ins (n + k)).rstInterrupt = true → (tr (n + k)).Quiet := by
        intro hr
        rcases Nat.eq_zero_or_pos k with rfl | hk
        · exact (h.exchange htwo).2
        · rw [h.released (n + k) (by omega)] at hr
          cases hr
      refine ⟨(tr (n + k)).pendingNext pending, ?_, ?_⟩
      · rw [← Nat.add_assoc, h.cycle]
        exact hexchange.cycle hrst hunit
      · have hnext := hexchange.alternates_cycle (x := x) hrst halternates
        rw [← h.cycle] at hnext
        exact hnext

/--
In every run after a reset of at least two cycles, acknowledgements and
interrupts alternate, each interrupt has the cause of the request acknowledged
before it, and only issued requests are acknowledged.
-/
theorem FromReset.alternates (h : FromReset x ins tr n) (htwo : 2 ≤ n) (k : Nat) :
    (∃ pending, Alternates (events tr n k) pending) ∧
      ((tr (n + k)).cpu.privilege.eipReply = true →
        (tr (n + k)).interruptUnit.interrupt = true) := by
  obtain ⟨pending, hexchange, halternates⟩ := h.exchange_run htwo k
  refine ⟨⟨pending, halternates⟩, fun hr => ?_⟩
  obtain ⟨-, hissue, -⟩ := hexchange.reply hr
  unfold InterruptUnit.interrupt
  rw [hissue]
  rfl

end FromReset

/-! ### Concrete runs -/

def tiedLow : ReadX := { mstatus := 0, mie := 0, mtvec := 0, mepc := 0, mip := false }

/--
Two cycles of reset, three for the interrupt unit, then all four devices are
unmasked in cycle 4 while the CPU enables external interrupts and runs `nop`s.
-/
def deviceIns (i : Nat → Requests) (t : Nat) : PcpuMainIn where
  rst := t < 2
  rstInterrupt := t < 3
  spo := byteSwap (Multicyc.enableProgram 0x00000013 ((t - 2) / 5))
  ready := (t - 2) % 5 == 1 && t < 36
  i := i t
  intA := 0
  intD := 0
  intWe := t == 4

def deviceRun (i : Nat → Requests) : Nat → PcpuMain :=
  trace (fun i s => s.cycle tiedLow i) (deviceIns i)
    { interruptUnit := default, cpu := Multicyc.boot }

theorem fromReset_deviceRun (i : Nat → Requests) :
    FromReset tiedLow (deviceIns i) (deviceRun i) 2 where
  pos := by decide
  cycle _ := rfl
  rst _ := rfl
  rstInterrupt := rfl
  released t ht := decide_eq_false (by omega)

def uartRequest (t : Nat) : Requests :=
  { timer := false, uart := t == 15, gpio := false, ps2 := false }

theorem alternates_uartRequest :
    (∃ pending, Alternates (events (deviceRun uartRequest) 2 28) pending) ∧
      ((deviceRun uartRequest (2 + 28)).cpu.privilege.eipReply = true →
        (deviceRun uartRequest (2 + 28)).interruptUnit.interrupt = true) :=
  (fromReset_deviceRun uartRequest).alternates (by decide) 28

/-- One cycle of reset in a machine that has an enabled request, then `nop`s. -/
def shortResetIns (t : Nat) : PcpuMainIn where
  rst := t < 1
  rstInterrupt := t < 1
  spo := byteSwap 0x00000013
  ready := t % 5 == 2
  i := default
  intA := 0
  intD := 0
  intWe := false

def shortResetRun : Nat → PcpuMain :=
  trace (fun i s => s.cycle tiedLow i) shortResetIns
    { interruptUnit := { (default : InterruptUnit) with state := .ISSUE }
      cpu := { Multicyc.boot with
        privilege := { Multicyc.boot.privilege with mstatus := 0x8, mie := 0x800 } } }

/-- `int_pending` survives one cycle of reset: an interrupt is taken that no request asks for. -/
theorem taken_without_request :
    FromReset tiedLow shortResetIns shortResetRun 1 ∧
      (shortResetRun 3).cpu.privilege.eipReply = true ∧
      (shortResetRun 4).cpu.core.phase = .INTERRUPT ∧
      ∀ t ≤ 4, 1 ≤ t → (shortResetRun t).interruptUnit.interrupt = false := by
  refine ⟨⟨by decide, fun _ => rfl, fun _ => rfl, rfl, fun t ht => ?_⟩, ?_, ?_, ?_⟩
  · exact decide_eq_false (by omega)
  · decide +kernel
  · decide +kernel
  · decide +kernel

end PcpuMain

end PComputer.Rtl
