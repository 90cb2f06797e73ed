import Mathlib.Tactic.IntervalCases
import PComputer.Rtl.CsrAccess
import PComputer.Rtl.InterruptMask
import PComputer.Rtl.Traps

/-!
# Interrupts are taken between two instructions

`interrupt` is sampled in `ID_RF` only, before the fetched instruction has done
anything but move `pc`.  The phase `INTERRUPT` therefore finds the registers, the
memory and the CSRs of the last `IF`, and saves the `pc` of that `IF`.  A handler
that is one `mret` comes back to the same `IF` with no request on its way.
-/

namespace PComputer.Rtl

open PComputer.Foundation

namespace System

def csrs (s : System) : Csrs := s.cpu.privilege.csrs

variable {x : ReadX} {e : Env} {s : System}

private theorem csrUpdate_quiet (hWB : s.core.phase ≠ .WB)
    (hEnter : s.core.phase ≠ .INTERRUPT ∧ s.core.phase ≠ .EXCEPTION)
    (hLeave : s.core.phase ≠ .MRET) :
    s.cpu.privilege.csrUpdate (s.cpu.privilegeIn (s.cpuIn e)) = s.cpu.privilege := by
  have hrst : (s.cpu.privilegeIn (s.cpuIn e)).rst = false := rfl
  have hwe : (s.cpu.privilegeIn (s.cpuIn e)).we = false :=
    (s.core.control_csrWe s.ready).trans (by simp [hWB])
  have henter : (s.cpu.privilegeIn (s.cpuIn e)).onExcEnter = false :=
    (s.core.control_onExcEnter s.ready).trans (by simp [hEnter])
  have hleave : (s.cpu.privilegeIn (s.cpuIn e)).onExcLeave = false :=
    (s.core.control_onExcLeave s.ready).trans (by simp [hLeave])
  simp only [Privilege.csrUpdate, hrst, hwe, henter, hleave, Bool.false_eq_true, if_false]

private theorem csrs_cycle_quiet (hWB : s.core.phase ≠ .WB)
    (hEnter : s.core.phase ≠ .INTERRUPT ∧ s.core.phase ≠ .EXCEPTION)
    (hLeave : s.core.phase ≠ .MRET) : (s.cycle x e).csrs = s.csrs :=
  (Privilege.csrs_cycle rfl _).trans (congrArg Privilege.csrs (csrUpdate_quiet hWB hEnter hLeave))

/-! ## The fetch -/

/-- Between the `IF` of an instruction and the end of its `ID_RF`. -/
def Fetching (s : System) : Prop :=
  s.core.phase = .ID_RF ∨ (s.core.phase = .MEM_WAIT ∧ s.core.phaseReturn = .ID_RF)

/-- What an instruction can change: `pc`, registers, memory and CSRs. -/
structure Kept (s s' : System) : Prop where
  pc : s'.core.pc = s.core.pc
  regfile : s'.core.regfile = s.core.regfile
  mem : s'.bus.mem = s.bus.mem
  csrs : s'.csrs = s.csrs

theorem Kept.trans {s s' s'' : System} (h : s.Kept s') (h' : s'.Kept s'') : s.Kept s'' :=
  ⟨h'.pc.trans h.pc, h'.regfile.trans h.regfile, h'.mem.trans h.mem, h'.csrs.trans h.csrs⟩

private theorem kept_cycle (h : s.core.phase = .IF ∨ s.core.phase = .MEM_WAIT) :
    s.Kept (s.cycle x e) := by
  rcases h with h | h
  all_goals
    refine ⟨?_, ?_, ?_, csrs_cycle_quiet (by simp [h]) (by simp [h]) (by simp [h])⟩ <;>
      simp [Core.control, Bus.cycle, Core.we, h]

private theorem fetching_cycle (h : (s.cycle x e).Fetching) :
    s.core.phase = .IF ∨ (s.core.phase = .MEM_WAIT ∧ s.Fetching) := by
  have hphase : (s.cycle x e).core.phase = s.core.phaseNext (s.coreIn x e) := rfl
  have hreturn : (s.cycle x e).core.phaseReturn =
      (s.core.phaseReturnNext (s.coreIn x e)).getD s.core.phaseReturn := rfl
  rw [Fetching, hphase, hreturn] at h
  cases hp : s.core.phase with
  | IF => exact .inl rfl
  | MEM_WAIT =>
      refine .inr ⟨rfl, .inr ⟨hp, ?_⟩⟩
      simp only [Core.phaseNext, Core.phaseReturnNext, hp, Option.getD_none] at h
      split_ifs at h with hready
      · rcases h with h | h
        · exact h
        · exact h.2
      · rcases h with h | h
        · cases h
        · exact h.2
  | ID_RF =>
      simp only [Core.phaseNext, Core.phaseNextID_RF, hp] at h
      split_ifs at h <;> simp at h
  | MEM =>
      simp only [Core.phaseNext, Core.phaseReturnNext, hp] at h
      split_ifs at h <;> simp at h
  | EX | RV32M_WAIT =>
      simp only [Core.phaseNext, hp] at h
      split_ifs at h <;> simp at h
  | EXU | MEMU | WB | INTERRUPT | EXCEPTION | MRET | BAD =>
      simp [Core.phaseNext, Core.phaseReturnNext, hp] at h

private theorem Fetching.phase_ne (h : s.Fetching) : s.core.phase ≠ .IF := by
  rcases h with h | h <;> simp [h]

/-! ## The handshake of the interrupt FSM with the core -/

/-- `interrupt` is the level of `REPLY`, and taking it ends it before the next `ID_RF`. -/
structure Handshake (s : System) : Prop where
  level : s.cpu.privilege.interrupt = true → s.cpu.privilege.state = .REPLY
  consumed : s.cpu.privilege.intReplyReg = true → s.core.phase = .IF
  taken : s.core.phase = .INTERRUPT →
    s.cpu.privilege.state = .REPLY ∧ s.cpu.privilege.intReplyReg = false
  returns : s.core.phase = .MEM_WAIT → s.core.phaseReturn ≠ .INTERRUPT

private theorem intReplyReg_cycle :
    (s.cycle x e).cpu.privilege.intReplyReg = decide (s.core.phase = .INTERRUPT) :=
  (s.cpu.privilege.cycle_sampled rfl).2.2.trans (Core.control_intReply _ _)

theorem state_cycle :
    (s.cycle x e).cpu.privilege.state = s.cpu.privilege.stateNext :=
  s.cpu.privilege.cycle_state rfl

theorem interrupt_cycle :
    (s.cycle x e).cpu.privilege.interrupt = s.cpu.privilege.interruptNext :=
  s.cpu.privilege.cycle_interrupt rfl

/-- `INTERRUPT` follows an `ID_RF` in which the request is in `REPLY` and not yet answered. -/
theorem Handshake.enters (h : s.Handshake) (hint : (s.cycle x e).core.phase = .INTERRUPT) :
    s.core.phase = .ID_RF ∧ s.cpu.privilege.state = .REPLY ∧
      s.cpu.privilege.intReplyReg = false := by
  obtain ⟨hid, hlevel⟩ := Multicyc.phaseNext_eq_INTERRUPT (c := s.core) hint h.returns
  refine ⟨hid, h.level hlevel, ?_⟩
  by_contra hr
  have := h.consumed (by simpa using hr)
  simp [hid] at this

theorem Handshake.cycle (h : s.Handshake) : (s.cycle x e).Handshake := by
  refine ⟨fun hlevel => ?_, fun hr => ?_, fun hint => ?_, fun hwait => ?_⟩
  · rw [interrupt_cycle, Privilege.interruptNext] at hlevel
    rw [state_cycle, Privilege.stateNext]
    cases hst : s.cpu.privilege.state <;> simp only [hst] at hlevel ⊢
    case REPLY =>
      split_ifs at hlevel with hr
      rw [if_neg hr]
    all_goals
      have := h.level hlevel
      simp [hst] at this
  · rw [intReplyReg_cycle, decide_eq_true_iff] at hr
    simp [Core.phaseNext, hr]
  · obtain ⟨hid, hst, hr⟩ := h.enters hint
    refine ⟨?_, ?_⟩
    · simp [state_cycle, Privilege.stateNext, hst, hr]
    · simp [intReplyReg_cycle, hid]
  · exact Multicyc.phaseNext_eq_MEM_WAIT hwait h.returns

/-- Once an interrupt is taken `MIE` is low and the FSM winds down to `IDLE`. -/
structure Quenched (s : System) : Prop where
  mie : s.cpu.privilege.mstatusMie = false
  fsm : (s.core.phase = .IF ∧ s.cpu.privilege.state = .REPLY ∧
      s.cpu.privilege.intReplyReg = true) ∨
    (s.cpu.privilege.interrupt = false ∧ s.cpu.privilege.intPending = false ∧
      (s.cpu.privilege.state = .END ∨ s.cpu.privilege.state = .IDLE))

private theorem intPending_of_mie (hmie : s.cpu.privilege.mstatusMie = false) :
    (s.cycle x e).cpu.privilege.intPending = false := by
  rw [show (s.cycle x e).cpu.privilege.intPending = _ from
    (s.cpu.privilege.cycle_sampled rfl).2.1]
  simp [Privilege.intCond, hmie]

structure Unrequested (s : System) : Prop where
  state : s.cpu.privilege.state = .IDLE
  interrupt : s.cpu.privilege.interrupt = false
  intPending : s.cpu.privilege.intPending = false

theorem Quenched.unrequested (h : s.Quenched) (hphase : s.core.phase ≠ .IF) :
    (s.cycle x e).Unrequested := by
  obtain ⟨hmie, ⟨hIF, -⟩ | ⟨hlow, hpending, hst⟩⟩ := h
  · exact absurd hIF hphase
  · refine ⟨?_, ?_, intPending_of_mie hmie⟩
    · rcases hst with hst | hst <;> simp [state_cycle, Privilege.stateNext, hst, hpending]
    · rcases hst with hst | hst <;> simp [interrupt_cycle, Privilege.interruptNext, hst, hlow]

theorem Quenched.cycle (h : s.Quenched) (hmie : (s.cycle x e).csrs = s.csrs) :
    (s.cycle x e).Quenched := by
  have hlow : (s.cycle x e).cpu.privilege.mstatusMie = false := by
    have hmstatus : (s.cycle x e).cpu.privilege.mstatus = s.cpu.privilege.mstatus :=
      congrArg Csrs.mstatus hmie
    rw [Privilege.mstatusMie, hmstatus]
    exact h.mie
  refine ⟨hlow, .inr ?_⟩
  obtain ⟨hlow', ⟨-, hst, hr⟩ | ⟨hint, hpending, hst⟩⟩ := h
  · refine ⟨?_, intPending_of_mie hlow', .inl ?_⟩
    · simp [interrupt_cycle, Privilege.interruptNext, hst, hr]
    · simp [state_cycle, Privilege.stateNext, hst, hr]
  · refine ⟨?_, intPending_of_mie hlow', .inr ?_⟩
    · rcases hst with hst | hst <;> simp [interrupt_cycle, Privilege.interruptNext, hst, hint]
    · rcases hst with hst | hst <;> simp [state_cycle, Privilege.stateNext, hst, hpending]

private theorem Quenched.interrupt_low (h : s.Quenched) (hphase : s.core.phase ≠ .IF) :
    s.cpu.privilege.interrupt = false := by
  obtain ⟨-, ⟨hIF, -⟩ | ⟨hlow, -⟩⟩ := h
  · exact absurd hIF hphase
  · exact hlow

/-! ## The phases of the trap -/

def entered (c : Csrs) (pc : Word) (code : BitVec 4) : Csrs :=
  { c with
    mstatus := Privilege.mstatusEnter c.mstatus
    mepc := pc
    mcause := 1#1 ++ 0#27 ++ code }

private theorem cycle_INTERRUPT (h : s.core.phase = .INTERRUPT) :
    (s.cycle x e).core.phase = .IF ∧
      (s.cycle x e).core.pc = s.cpu.privilege.mtvecReg.extractLsb' 2 30 ++ 0#2 ∧
      (s.cycle x e).core.regfile = s.core.regfile ∧
      (s.cycle x e).bus.mem = s.bus.mem ∧
      (s.cycle x e).csrs = entered s.csrs s.core.oldpc s.cpu.privilege.mcauseICode := by
  have hcpu : s.cpu.core.phase = .INTERRUPT := h
  have hupdate : s.cpu.privilege.csrUpdate (s.cpu.privilegeIn (s.cpuIn e)) =
      s.cpu.privilege.excEnter (s.cpu.privilegeIn (s.cpuIn e)) := by
    simp [Privilege.csrUpdate, Multicyc.privilegeIn, cpuIn, Core.control, hcpu]
  refine ⟨?_, ?_, ?_, ?_, ?_⟩
  · simp [Core.phaseNext, h]
  · simp [Core.control, Core.newpc, coreIn, Multicyc.coreIn,
      Privilege.mtvecOut, h]
  · simp [Core.control, h]
  · simp [Bus.cycle, Core.we, Core.control, h]
  · refine (Privilege.csrs_cycle rfl _).trans ?_
    rw [hupdate]
    simp [Privilege.excEnter, Privilege.csrs, Multicyc.privilegeIn, Core.control, Core.pcOut, hcpu,
      csrs, core, entered]

private theorem csrs_cycle_MRET (h : s.core.phase = .MRET) :
    (s.cycle x e).csrs = { s.csrs with mstatus := Privilege.mstatusLeave s.csrs.mstatus } := by
  have hcpu : s.cpu.core.phase = .MRET := h
  have hupdate : s.cpu.privilege.csrUpdate (s.cpu.privilegeIn (s.cpuIn e)) =
      s.cpu.privilege.excLeave := by
    simp [Privilege.csrUpdate, Multicyc.privilegeIn, cpuIn, Core.control, hcpu]
  refine (Privilege.csrs_cycle rfl _).trans ?_
  rw [hupdate]
  rfl

/-! ## Runs -/

/-- The start of a run: the first `IF`, with no request on its way. -/
structure AfterReset (s : System) : Prop where
  phase : s.core.phase = .IF
  state : s.cpu.privilege.state = .IDLE
  interrupt : s.cpu.privilege.interrupt = false
  intReplyReg : s.cpu.privilege.intReplyReg = false

theorem afterReset_boot (mem : WordMemory) : (boot mem).AfterReset := ⟨rfl, rfl, rfl, rfl⟩

theorem AfterReset.handshake (h : s.AfterReset) : s.Handshake := by
  refine ⟨?_, ?_, ?_, ?_⟩ <;> simp [h.phase, h.interrupt, h.intReplyReg]

structure NextIF (tr : Nat → System) (t v : Nat) : Prop where
  lt : t < v
  phase : (tr v).core.phase = .IF
  between : ∀ k, t < k → k < v → (tr k).core.phase ≠ .IF

section Run

variable {env : Nat → Env} {tr : Nat → System} {t u k : Nat}

private theorem handshake_run (hrun : IsRun x env tr) (h0 : (tr 0).AfterReset) (k : Nat) :
    (tr k).Handshake := by
  induction k with
  | zero => exact h0.handshake
  | succ k ih =>
      rw [hrun k]
      exact ih.cycle

private theorem exists_kept (hrun : IsRun x env tr) (h0 : (tr 0).core.phase = .IF)
    (h : (tr k).Fetching) :
    ∃ t < k, (tr t).core.phase = .IF ∧ (∀ j, t < j → j ≤ k → (tr j).Fetching) ∧
      (tr t).Kept (tr k) := by
  induction k with
  | zero => exact absurd h0 h.phase_ne
  | succ k ih =>
      have hcycle := h
      rw [hrun k] at hcycle
      rcases fetching_cycle hcycle with hIF | ⟨hwait, hfetching⟩
      · refine ⟨k, by omega, hIF, fun j hj hjk => ?_, hrun k ▸ kept_cycle (.inl hIF)⟩
        obtain rfl : j = k + 1 := by omega
        exact h
      · obtain ⟨t, ht, hIF, hall, hkept⟩ := ih hfetching
        refine ⟨t, by omega, hIF, fun j hj hjk => ?_,
          hkept.trans (hrun k ▸ kept_cycle (.inr hwait))⟩
        rcases Nat.lt_or_ge j (k + 1) with hlt | hge
        · exact hall j hj (by omega)
        · obtain rfl : j = k + 1 := by omega
          exact h

/-- What an interrupt that is taken in `INTERRUPT` at time `u` finds, and what it leaves. -/
structure Interrupts (tr : Nat → System) (t u : Nat) : Prop where
  phase : (tr t).core.phase = .IF
  next : NextIF tr t (u + 1)
  regfile : (tr u).core.regfile = (tr t).core.regfile
  mem : (tr u).bus.mem = (tr t).bus.mem
  csrs : (tr u).csrs = (tr t).csrs
  entered_pc : (tr (u + 1)).core.pc = (tr t).csrs.mtvec.extractLsb' 2 30 ++ 0#2
  entered_regfile : (tr (u + 1)).core.regfile = (tr t).core.regfile
  entered_mem : (tr (u + 1)).bus.mem = (tr t).bus.mem
  entered_csrs : (tr (u + 1)).csrs =
    entered (tr t).csrs (tr t).core.pc (tr u).cpu.privilege.mcauseICode

theorem exists_interrupts (hrun : IsRun x env tr) (h0 : (tr 0).AfterReset)
    (hu : (tr u).core.phase = .INTERRUPT) : ∃ t < u, Interrupts tr t u := by
  obtain ⟨d, rfl⟩ : ∃ d, u = d + 1 := by
    cases u with
    | zero => simp [h0.phase] at hu
    | succ d => exact ⟨d, rfl⟩
  have hint := hu
  rw [hrun d] at hint
  obtain ⟨hid, -, -⟩ := (handshake_run hrun h0 d).enters hint
  obtain ⟨t, ht, hIF, hall, hkept⟩ := exists_kept hrun h0.phase (.inl hid)
  -- the `ID_RF` before `INTERRUPT` moves `pc` and keeps the old one in `oldpc`
  have hregfile : (tr (d + 1)).core.regfile = (tr t).core.regfile := by
    rw [hrun d, ← hkept.regfile]
    simp [Core.control, hid]
  have hmem : (tr (d + 1)).bus.mem = (tr t).bus.mem := by
    rw [hrun d, ← hkept.mem]
    simp [Bus.cycle, Core.we, Core.control, hid]
  have hcsrs : (tr (d + 1)).csrs = (tr t).csrs := by
    rw [hrun d, ← hkept.csrs]
    exact csrs_cycle_quiet (by simp [hid]) (by simp [hid]) (by simp [hid])
  have holdpc : (tr (d + 1)).core.oldpc = (tr t).core.pc := by
    rw [hrun d, ← hkept.pc]
    simp [Core.control, hid]
  have hmtvec : (tr (d + 1)).cpu.privilege.mtvecReg = (tr t).csrs.mtvec := by
    rw [hrun d, ← hkept.csrs]
    exact Privilege.mtvecReg_cycle rfl _
  have henter := cycle_INTERRUPT (x := x) (e := env (d + 1)) hu
  rw [← hrun (d + 1), hmtvec, holdpc, hcsrs, hregfile, hmem] at henter
  obtain ⟨hIF', hpc', hregfile', hmem', hcsrs'⟩ := henter
  refine ⟨t, by omega, hIF, ⟨by omega, hIF', fun k htk hku => ?_⟩, hregfile, hmem, hcsrs, hpc',
    hregfile', hmem', hcsrs'⟩
  rcases Nat.lt_or_ge k (d + 1) with hlt | hge
  · exact (hall k htk (by omega)).phase_ne
  · obtain rfl : k = d + 1 := by omega
    simp [hu]

/-- `MIE` stays low while the first instruction of the handler is fetched. -/
theorem quenched_of_fetching (hrun : IsRun x env tr) (h : (tr t).Quenched) (htk : t ≤ k)
    (hall : ∀ j, t < j → j ≤ k → (tr j).Fetching) : (tr k).Quenched := by
  induction k, htk using Nat.le_induction with
  | base => exact h
  | succ k htk ih =>
      have hfetching := hall (k + 1) (by omega) le_rfl
      rw [hrun k] at hfetching ⊢
      have hkept : (tr k).Kept ((tr k).cycle x (env k)) :=
        kept_cycle ((fetching_cycle hfetching).imp_right And.left)
      exact (ih fun j hj hjk => hall j hj (by omega)).cycle hkept.csrs

private theorem quenched_of_interrupt (hrun : IsRun x env tr) (h0 : (tr 0).AfterReset)
    (hu : (tr u).core.phase = .INTERRUPT) : (tr (u + 1)).Quenched := by
  obtain ⟨hst, hr⟩ := (handshake_run hrun h0 u).taken hu
  obtain ⟨hIF, -, -, -, hcsrs⟩ := cycle_INTERRUPT (x := x) (e := env u) hu
  rw [hrun u]
  have hmstatus : ((tr u).cycle x (env u)).cpu.privilege.mstatus =
      Privilege.mstatusEnter (tr u).cpu.privilege.mstatus := congrArg Csrs.mstatus hcsrs
  refine ⟨?_, .inl ⟨hIF, ?_, ?_⟩⟩
  · rw [Privilege.mstatusMie, hmstatus, Privilege.getLsbD_mstatusEnter]
  · simp [state_cycle, Privilege.stateNext, hst, hr]
  · simp [intReplyReg_cycle, hu]

/-- What a handler that is one `mret` leaves, at the `IF` in which it resumes. -/
structure Resumes (tr : Nat → System) (t u v : Nat) : Prop where
  next : NextIF tr (u + 1) v
  pc : (tr v).core.pc = (tr t).core.pc
  regfile : (tr v).core.regfile = (tr t).core.regfile
  mem : (tr v).bus.mem = (tr t).bus.mem
  csrs : (tr v).csrs =
    { (tr t).csrs with
      mstatus := (tr t).csrs.mstatus ||| 0x80
      mepc := (tr t).core.pc
      mcause := 1#1 ++ 0#27 ++ (tr u).cpu.privilege.mcauseICode }
  unrequested : (tr v).Unrequested

theorem exists_resumes (hrun : IsRun x env tr) (h0 : (tr 0).AfterReset)
    (hu : (tr u).core.phase = .INTERRUPT) (h : Interrupts tr t u)
    (hmret : (tr (u + 1)).bus.mem (wordIndex (tr (u + 1)).core.pc) = mret) :
    ∃ v, Resumes tr t u v := by
  have hIF := h.next.phase
  obtain ⟨d, hpath, hf⟩ := exists_fetched hrun hIF
  obtain ⟨t', ht', hIF', hall, hkept⟩ := exists_kept hrun h0.phase (.inl hf.phase)
  -- the fetch that ends in `d` is the one that starts in `u + 1`
  obtain rfl : t' = u + 1 := by
    rcases Nat.lt_trichotomy t' (u + 1) with hlt | heq | hgt
    · exact absurd hIF (hall (u + 1) hlt (by have := hpath.lt; omega)).phase_ne
    · exact heq
    · exact absurd hIF' (hpath.running t' hgt ht').1
  have hquenched := quenched_of_fetching hrun (quenched_of_interrupt hrun h0 hu) ht'.le hall
  have hdecode := cycle_ID_RF (x := x) (e := env d) hf.phase
    (hquenched.interrupt_low (by simp [hf.phase]))
  rw [← hrun d] at hdecode
  obtain ⟨hphase, -, -, hregfile, hmem, -, -, -, -, hreg, -⟩ := hdecode
  have hword : (tr d).core.instruction = mret := hf.instruction.trans hmret
  have hMRET : (tr (d + 1)).core.phase = .MRET := by
    rw [hphase]
    unfold Core.phaseNextID_RF Core.op Core.privWfi Core.privSfencevma Core.privMret
      Core.privEbreak Core.privEcall Core.funct3 Core.bit
    rw [hword]
    decide
  have hcsrs : (tr (d + 1)).csrs = (tr d).csrs := by
    rw [hrun d]
    exact csrs_cycle_quiet (by simp [hf.phase]) (by simp [hf.phase]) (by simp [hf.phase])
  have hquenched' : (tr (d + 1)).Quenched := by
    rw [hrun d] at hcsrs ⊢
    exact hquenched.cycle hcsrs
  have hleave := cycle_MRET (x := x) (e := env (d + 1)) hMRET
  have hcsrs' := csrs_cycle_MRET (x := x) (e := env (d + 1)) hMRET
  rw [← hrun (d + 1)] at hleave hcsrs'
  obtain ⟨hIFv, hpc, hregfile', hmem'⟩ := hleave
  have hmepc : (tr d).cpu.privilege.mepc = (tr t).core.pc := by
    refine hf.mepc.trans ?_
    rw [show (tr (u + 1)).cpu.privilege.mepc = _ from congrArg Csrs.mepc h.entered_csrs]
    rfl
  refine ⟨d + 2, ⟨by omega, hIFv, fun k huk hkd => ?_⟩, ?_, ?_, ?_, ?_, ?_⟩
  · rcases Nat.lt_or_ge k (d + 1) with hlt | hge
    · exact (hall k huk (by omega)).phase_ne
    · obtain rfl : k = d + 1 := by omega
      simp [hMRET]
  · exact hpc.trans (hreg.trans hmepc)
  · exact hregfile'.trans (hregfile.trans (hf.regfile.trans h.entered_regfile))
  · exact hmem'.trans (hmem.trans (hf.mem.trans h.entered_mem))
  · rw [hcsrs', hcsrs, hkept.csrs, h.entered_csrs, ← Privilege.mstatusLeave_mstatusEnter]
    rfl
  · have hunrequested := hquenched'.unrequested (x := x) (e := env (d + 1)) (by simp [hMRET])
    rwa [← hrun (d + 1)] at hunrequested

end Run

end System

end PComputer.Rtl
