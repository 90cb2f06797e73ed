import PComputer.Rtl.Alike

/-!
# The run after an interrupt that only returns

A handler that is one `mret` comes back to the `IF` in which the interrupt was
taken.  From there the run is in lockstep with the run without the interrupt: the
two agree, cycle by cycle, on `pc`, the registers, the memory and the CSRs, as long
as no instruction reads what the trap left.
-/

namespace PComputer.Rtl

open PComputer.Foundation

namespace System

/-! ## The relation -/

/-- Two systems alike; `fresh` once a trap has been entered since they went apart. -/
structure Lockstep (fresh : Prop) (s s' : System) : Prop where
  core : s.core.Alike s'.core
  mem : s.bus.mem = s'.bus.mem
  held : s.core.phase ≠ .IF → s.bus.held = s'.bus.held
  wait : s.core.phase ≠ .IF → s.bus.wait = s'.bus.wait
  privilege : s.cpu.privilege.Alike fresh s'.cpu.privilege
  mcauseICode : s.core.phase = .INTERRUPT →
    s.cpu.privilege.mcauseICode = s'.cpu.privilege.mcauseICode
  mtvecReg : s.core.phase ≠ .IF → s.cpu.privilege.mtvecReg = s'.cpu.privilege.mtvecReg
  mepcReg : s.core.phase = .MRET → fresh →
    s.cpu.privilege.mepcReg = s'.cpu.privilege.mepcReg
  rv32m : s.core.phase = .RV32M_WAIT → s.cpu.rv32m.Alike s'.cpu.rv32m

def Traps (s : System) : Prop := s.core.phase = .INTERRUPT ∨ s.core.phase = .EXCEPTION

/-- The cycle depends on `MPIE`, `mepc` or `mcause`: an `mret`, or a CSR instruction on them. -/
def ReadsTrap (s : System) : Prop :=
  s.core.phase = .MRET ∨
    ((s.core.phase = .EX ∨ s.core.phase = .WB) ∧ s.core.op = Core.OP_PRIV ∧
      s.core.privCsr = true ∧ isTrapCsr (s.core.instruction.extractLsb' 20 12))

/-- A load with a reserved `funct3` ends: it writes the last product to `rd`. -/
def ReservedLoad (s : System) : Prop :=
  s.core.phase = .WB ∧ s.core.op = Core.OP_LOAD ∧ s.core.instruction.extractLsb' 12 2 = 3

variable {x : ReadX} {e : Env} {fresh : Prop} {s s' : System}

theorem Lockstep.ready (h : Lockstep fresh s s') : s.ready = s'.ready := by
  rw [System.ready, System.ready, Bus.ready, Bus.ready, ← h.core.rd, ← h.core.we]
  by_cases hIF : s.core.phase = .IF
  · simp [Core.rd, Core.control, hIF]
  · rw [h.wait hIF]

theorem Lockstep.spo (h : Lockstep fresh s s') : s.spo e = s'.spo e := by
  rw [System.spo, System.spo, Bus.spo, Bus.spo, ← System.ready, ← System.ready, ← h.ready,
    ← h.core.a]
  by_cases hIF : s.core.phase = .IF
  · simp [System.ready, Bus.ready, Core.rd, Core.control, hIF]
  · rw [h.held hIF, h.mem]

theorem Lockstep.csrSpo (h : Lockstep fresh s s') (hguard : ¬ fresh → ¬ s.ReadsTrap)
    (hp : s.core.phase = .EX) (hop : s.core.op = Core.OP_PRIV) (hcsr : s.core.privCsr = true) :
    (s.coreIn x e).csrSpo = (s'.coreIn x e).csrSpo := by
  have haddr := h.core.instruction (by simp [hp])
  change s.cpu.privilege.spo x e.eip e.eipIstimer (s.core.instruction.extractLsb' 20 12) =
    s'.cpu.privilege.spo x e.eip e.eipIstimer (s'.core.instruction.extractLsb' 20 12)
  rw [← haddr]
  by_cases hfresh : fresh
  · exact Privilege.spo_congr_csrs (h.privilege.trapped hfresh) x _ _ _
  · exact Privilege.spo_congr h.privilege.csrs
      (fun ha => hguard hfresh (.inr ⟨.inl hp, hop, hcsr, ha⟩)) x _ _

theorem Lockstep.coreIn (h : Lockstep fresh s s') (hguard : ¬ fresh → ¬ s.ReadsTrap) :
    s.core.InAlike (s.coreIn x e) (s'.coreIn x e) where
  spo := h.spo
  ready := h.ready
  interrupt := h.privilege.interrupt
  idle hIF := by simp [System.ready, Bus.ready, Core.rd, Core.control, hIF]
  csrSpo hp hop hcsr := h.csrSpo hguard hp hop hcsr
  mtvecIn hIF := h.mtvecReg hIF
  mepcIn hp := h.mepcReg hp (by
    by_contra hfresh
    exact hguard hfresh (.inl hp))
  RV32MReady hp := (h.rv32m hp).finish
  RV32MResult hp hready := (h.rv32m hp).r hready

/-! ## The CSR update -/

private theorem csrUpdate_phase (e : Env) (s : System) :
    s.cpu.privilege.csrUpdate (s.cpu.privilegeIn (s.cpuIn e)) =
      if s.core.phase = .WB ∧ s.core.op = Core.OP_PRIV ∧ s.core.privCsr = true then
        s.cpu.privilege.csrWrite (s.core.instruction.extractLsb' 20 12) s.core.ALUOut
      else if s.core.phase = .INTERRUPT ∨ s.core.phase = .EXCEPTION then
        s.cpu.privilege.excEnter (s.cpu.privilegeIn (s.cpuIn e))
      else if s.core.phase = .MRET then s.cpu.privilege.excLeave
      else s.cpu.privilege := by
  have hwe : (s.cpu.privilegeIn (s.cpuIn e)).we = _ := s.core.control_csrWe s.ready
  have henter : (s.cpu.privilegeIn (s.cpuIn e)).onExcEnter = _ :=
    s.core.control_onExcEnter s.ready
  have hleave : (s.cpu.privilegeIn (s.cpuIn e)).onExcLeave = _ :=
    s.core.control_onExcLeave s.ready
  have hrst : (s.cpu.privilegeIn (s.cpuIn e)).rst = false := rfl
  simp only [Privilege.csrUpdate, hrst, hwe, henter, hleave, Bool.false_eq_true, if_false,
    decide_eq_true_eq]
  rfl

theorem Lockstep.excEnter (h : Lockstep fresh s s') (htraps : s.Traps) :
    (s.cpu.privilege.excEnter (s.cpu.privilegeIn (s.cpuIn e))).csrs =
      (s'.cpu.privilege.excEnter (s'.cpu.privilegeIn (s'.cpuIn e))).csrs := by
  have hp' := h.core.phase
  have hcsrs := h.privilege.csrs
  simp only [Privilege.csrs, Csrs.untrapped, Csrs.mk.injEq] at hcsrs
  obtain ⟨hmstatus, h₂, h₃, h₄, h₅, -, -, h₈, h₉⟩ := hcsrs
  have hpcIn : (s.cpu.privilegeIn (s.cpuIn e)).pcIn = (s'.cpu.privilegeIn (s'.cpuIn e)).pcIn := by
    change s.core.pcOut (s.core.control s.ready) = s'.core.pcOut (s'.core.control s'.ready)
    rcases htraps with hp | hp
    · simp [Core.pcOut, Core.control, hp, ← hp',
        h.core.oldpc ⟨by simp [hp], by simp [hp], by simp [hp]⟩]
    · simp [Core.pcOut, Core.control, hp, ← hp', h.core.pc]
  have hcause : (s.cpu.privilege.excEnter (s.cpu.privilegeIn (s.cpuIn e))).mcause =
      (s'.cpu.privilege.excEnter (s'.cpu.privilegeIn (s'.cpuIn e))).mcause := by
    change (if (s.core.control s.ready).onExcIsint then _ else 0#1 ++ 0#27 ++ s.core.mcauseCodeOut)
      =
      if (s'.core.control s'.ready).onExcIsint then _ else 0#1 ++ 0#27 ++ s'.core.mcauseCodeOut
    rcases htraps with hp | hp
    · simp [Core.control, hp, ← hp', h.mcauseICode hp]
    · simp [Core.control, hp, ← hp', h.core.mcauseCodeOut hp]
  simp only [Privilege.csrs, Csrs.mk.injEq]
  exact ⟨Privilege.mstatusEnter_congr hmstatus, h₂, h₃, h₄, h₅, hpcIn, hcause, h₈, h₉⟩

theorem Lockstep.csrUpdate (h : Lockstep fresh s s') (hguard : ¬ fresh → ¬ s.ReadsTrap) :
    (s.cpu.privilege.csrUpdate (s.cpu.privilegeIn (s.cpuIn e))).csrs.untrapped =
        (s'.cpu.privilege.csrUpdate (s'.cpu.privilegeIn (s'.cpuIn e))).csrs.untrapped ∧
      (fresh ∨ s.Traps → (s.cpu.privilege.csrUpdate (s.cpu.privilegeIn (s.cpuIn e))).csrs =
        (s'.cpu.privilege.csrUpdate (s'.cpu.privilegeIn (s'.cpuIn e))).csrs) := by
  rw [csrUpdate_phase, csrUpdate_phase, ← h.core.phase]
  by_cases hp : s.core.phase = .WB
  · have hx : s.core.Executing := ⟨by simp [hp], by simp [hp], by simp [hp]⟩
    have hinstruction := h.core.instruction hx.1
    have hnot : ¬ s.Traps := by simp [Traps, hp]
    simp only [hp, reduceCtorEq, true_and, or_false, if_false, hnot,
      ← Core.op_congr hinstruction, ← Core.privCsr_congr hinstruction, ← hinstruction,
      ← h.core.ALUOut hx]
    split_ifs with hcsr
    · simp only [Privilege.csrs_csrWrite]
      refine ⟨?_, fun hfresh => by rw [h.privilege.trapped hfresh]⟩
      by_cases hfresh : fresh
      · rw [h.privilege.trapped hfresh]
      · have ha : ¬ isTrapCsr (s.core.instruction.extractLsb' 20 12) := fun ha =>
          hguard hfresh (.inr ⟨.inr hp, hcsr.1, hcsr.2, ha⟩)
        rw [Csrs.untrapped_write _ ha, Csrs.untrapped_write _ ha, h.privilege.csrs]
    · exact ⟨h.privilege.csrs, h.privilege.trapped⟩
  by_cases htraps : s.Traps
  · have hall := h.excEnter (e := e) htraps
    simp only [hp, false_and, if_false, show s.core.phase = .INTERRUPT ∨ s.core.phase = .EXCEPTION
      from htraps, if_true]
    exact ⟨by rw [hall], fun _ => hall⟩
  have hnot : ¬ (s.core.phase = .INTERRUPT ∨ s.core.phase = .EXCEPTION) := htraps
  simp only [hp, false_and, if_false, hnot, htraps, or_false]
  by_cases hret : s.core.phase = .MRET
  · have hfresh : fresh := by
      by_contra hfresh
      exact hguard hfresh (.inl hret)
    have hcsrs := h.privilege.trapped hfresh
    have hall : s.cpu.privilege.excLeave.csrs = s'.cpu.privilege.excLeave.csrs := by
      change { s.cpu.privilege.csrs with
          mstatus := Privilege.mstatusLeave s.cpu.privilege.csrs.mstatus } =
        { s'.cpu.privilege.csrs with
          mstatus := Privilege.mstatusLeave s'.cpu.privilege.csrs.mstatus }
      rw [hcsrs]
    rw [if_pos hret, if_pos hret]
    exact ⟨by rw [hall], fun _ => hall⟩
  · rw [if_neg hret, if_neg hret]
    exact ⟨h.privilege.csrs, h.privilege.trapped⟩

/-! ## One cycle -/

private theorem Lockstep.mem_cycle (h : Lockstep fresh s s') :
    (s.cycle x e).bus.mem = (s'.cycle x e).bus.mem := by
  simp only [bus_cycle, Bus.cycle, ← h.core.we, ← h.core.a, h.mem]
  by_cases hMEM : s.core.phase = .MEM
  · rw [h.core.d ⟨by simp [hMEM], by simp [hMEM], by simp [hMEM]⟩]
  by_cases hMEMU : s.core.phase = .MEMU
  · rw [h.core.d ⟨by simp [hMEMU], by simp [hMEMU], by simp [hMEMU]⟩]
  · simp [we_eq_false hMEM hMEMU]

private theorem Lockstep.rv32m_cycle (h : Lockstep fresh s s') (hguard : ¬ fresh → ¬ s.ReadsTrap)
    (hwait : (s.cycle x e).core.phase = .RV32M_WAIT) :
    (s.cycle x e).cpu.rv32m.Alike (s'.cycle x e).cpu.rv32m := by
  rcases Core.phaseNext_eq_RV32M_WAIT h.core.returns hwait with hp | hp
  · -- the multiplier is loaded in `EX`, with equal operands
    have hx : s.core.Executing := ⟨by simp [hp], by simp [hp], by simp [hp]⟩
    have hp' : s'.core.phase = .EX := h.core.phase.symm.trans hp
    have hctl : s'.core.control s'.ready = s.core.control s.ready := by
      rw [← h.ready, h.core.control]
    have hin : s'.cpu.rv32mIn x (s'.cpuIn e) = s.cpu.rv32mIn x (s.cpuIn e) := by
      change Rv32mIn.mk (s'.core.control s'.ready).RV32MStart
          (s'.core.ALUIn1 (s'.core.control s'.ready))
          (s'.core.ALUIn2 (s'.core.control s'.ready) (s'.coreIn x e)) s'.core.funct3 =
        Rv32mIn.mk (s.core.control s.ready).RV32MStart (s.core.ALUIn1 (s.core.control s.ready))
          (s.core.ALUIn2 (s.core.control s.ready) (s.coreIn x e)) s.core.funct3
      rw [hctl, ← h.core.ALUIn1 hx, ← h.core.ALUIn2 (h.coreIn hguard) hx, Core.funct3, Core.funct3,
        h.core.instruction hx.1]
    have hstart : (s.cpu.rv32mIn x (s.cpuIn e)).start = true := by
      change (s.core.control s.ready).RV32MStart = true
      simp only [Core.control, hp, Core.controlEX, apply_ite Control.RV32MStart, ite_self]
    change (s.cpu.rv32m.cycle (s.cpu.rv32mIn x (s.cpuIn e))).Alike
      (s'.cpu.rv32m.cycle (s'.cpu.rv32mIn x (s'.cpuIn e)))
    rw [hin, Rv32m.cycle, Rv32m.cycle, if_pos hstart, if_pos hstart]
    exact Rv32m.alike_start _ _ _
  · refine (h.rv32m hp).cycle ?_ ?_
    · change (s.core.control s.ready).RV32MStart = false
      simp [Core.control, hp]
    · change (s'.core.control s'.ready).RV32MStart = false
      simp [Core.control, ← h.core.phase, hp]

theorem Lockstep.cycle (h : Lockstep fresh s s') (hguard : ¬ fresh → ¬ s.ReadsTrap)
    (hload : ¬ s.ReservedLoad) : Lockstep (fresh ∨ s.Traps) (s.cycle x e) (s'.cycle x e) := by
  obtain ⟨huntrapped, htrapped⟩ := h.csrUpdate (e := e) hguard
  have hreturns : s.core.phase = .MEM_WAIT → s.core.phaseReturn ≠ .INTERRUPT := by
    intro hp
    rcases h.core.returns hp with hr | hr | hr | ⟨hr, -⟩ <;> simp [hr]
  have hrd (hIF : s.core.phase = .IF) : s.core.rd = true := by simp [Core.rd, Core.control, hIF]
  refine ⟨h.core.advance (h.coreIn hguard) fun hp hop h3 => hload ⟨hp, hop, h3⟩, h.mem_cycle,
    fun _ => ?_, fun _ => ?_, ?_, fun hint => ?_, fun _ => ?_, fun hret hfresh => ?_,
    h.rv32m_cycle hguard⟩
  · simp only [bus_cycle, Bus.cycle, ← h.core.rd, ← h.core.we, ← h.core.a]
    by_cases hIF : s.core.phase = .IF
    · simp [hrd hIF]
    · rw [h.held hIF]
  · simp only [bus_cycle, Bus.cycle, ← h.core.rd, ← h.core.we]
    by_cases hIF : s.core.phase = .IF
    · simp [hrd hIF]
    · rw [h.wait hIF]
  · change (s.cpu.privilege.cycle (s.cpu.privilegeIn (s.cpuIn e))).Alike _
      (s'.cpu.privilege.cycle (s'.cpu.privilegeIn (s'.cpuIn e)))
    refine h.privilege.cycle rfl rfl rfl rfl ?_ huntrapped htrapped
    change (s.core.control s.ready).intReply = (s'.core.control s'.ready).intReply
    rw [← h.ready, h.core.control]
  · obtain ⟨-, hlevel⟩ := Multicyc.phaseNext_eq_INTERRUPT (c := s.core) hint hreturns
    have hcode := h.privilege.mcauseICode hlevel
    change (s.cpu.privilege.cycle (s.cpu.privilegeIn (s.cpuIn e))).mcauseICode =
      (s'.cpu.privilege.cycle (s'.cpu.privilegeIn (s'.cpuIn e))).mcauseICode
    rw [Privilege.cycle_mcauseICode rfl, Privilege.cycle_mcauseICode rfl, ← h.privilege.state,
      hcode]
    by_cases hissue : s.cpu.privilege.state = .ISSUE
    · rw [h.privilege.intSource hissue]
    · rw [if_neg hissue, if_neg hissue]
  · refine (Privilege.mtvecReg_cycle rfl _).trans (Eq.trans ?_
      (Privilege.mtvecReg_cycle rfl _).symm)
    exact congrArg Csrs.mtvec h.privilege.csrs
  · have hnot : ¬ s.Traps := by
      rintro (hp | hp) <;> simp [Core.phaseNext, hp] at hret
    refine (s.cpu.privilege.cycle_csrs rfl).2.1.trans
      (Eq.trans ?_ (s'.cpu.privilege.cycle_csrs rfl).2.1.symm)
    exact congrArg Csrs.mepc (h.privilege.trapped (hfresh.resolve_right hnot))

/-! ## The run -/

/-- The state `s` is that of the boundary `s₀`, and no request is on its way. -/
structure Without (s₀ s : System) : Prop where
  phase : s.core.phase = .IF
  kept : s₀.Kept s
  unrequested : s.Unrequested

/--
Until it enters a trap, the run from `t` executes neither an `mret` nor a CSR
instruction on `mstatus`, `mepc` or `mcause`; and it executes no load with a reserved
`funct3`.
-/
structure Oblivious (tr : Nat → System) (t : Nat) : Prop where
  reads : ∀ k, (∀ j < k, ¬ (tr (t + j)).Traps) → ¬ (tr (t + k)).ReadsTrap
  loads : ∀ k, ¬ (tr (t + k)).ReservedLoad

/-- The two runs cannot be told apart, but for what the trap left. -/
structure Follows (trapped : Prop) (s s' : System) : Prop where
  phase : s'.core.phase = s.core.phase
  pc : s'.core.pc = s.core.pc
  regfile : s'.core.regfile = s.core.regfile
  mem : s'.bus.mem = s.bus.mem
  csrs : s'.csrs.untrapped = s.csrs.untrapped
  trapped : trapped → s'.csrs = s.csrs

section Run

variable {env env' : Nat → Env} {tr tr' : Nat → System} {t t' u v : Nat}

theorem Lockstep.follows (h : Lockstep fresh s s') : Follows fresh s s' :=
  ⟨h.core.phase.symm, h.core.pc.symm, h.core.regfile.symm, h.mem.symm, h.privilege.csrs.symm,
    fun hfresh => (h.privilege.trapped hfresh).symm⟩

/-- At an `IF` with no request on its way, the temporaries and the FSM carry nothing. -/
theorem lockstep_of_resumes (h : Resumes tr t u v) (hw : (tr t).Without s) :
    Lockstep False s (tr v) where
  core := by
    have hIF := hw.phase
    have hx : ¬ s.core.Executing := fun hx => hx.1 hIF
    constructor
    case phase => exact hIF.trans h.next.phase.symm
    case pc => exact hw.kept.pc.trans h.pc.symm
    case regfile => exact hw.kept.regfile.trans h.regfile.symm
    all_goals first | exact fun hne => absurd hne hx | simp [hIF]
  mem := hw.kept.mem.trans h.mem.symm
  held hne := absurd hw.phase hne
  wait hne := absurd hw.phase hne
  privilege := by
    have hcsrs : s.csrs.untrapped = (tr v).csrs.untrapped := by
      rw [hw.kept.csrs, h.csrs]
      simp [Csrs.untrapped, BitVec.or_assoc]
    obtain ⟨hst, hint, hpending⟩ := hw.unrequested
    obtain ⟨hst', hint', hpending'⟩ := h.unrequested
    refine ⟨hcsrs, False.elim, hst.trans hst'.symm, hint.trans hint'.symm,
      hpending.trans hpending'.symm, ?_, ?_, ?_, ?_⟩
    all_goals simp [hst, hint, hpending]
  mcauseICode hp := by simp [hw.phase] at hp
  mtvecReg hne := absurd hw.phase hne
  mepcReg hp := by simp [hw.phase] at hp
  rv32m hp := by simp [hw.phase] at hp

private theorem Lockstep.weaken {fresh' : Prop} (h : Lockstep fresh s s') (hle : fresh' → fresh) :
    Lockstep fresh' s s' :=
  { h with
    privilege := { h.privilege with trapped := fun hfresh => h.privilege.trapped (hle hfresh) }
    mepcReg := fun hp hfresh => h.mepcReg hp (hle hfresh) }

/-- Two runs on the same environment stay in lockstep; by induction on the time. -/
theorem lockstep_run (hrun : IsRun x env tr) (hrun' : IsRun x env' tr')
    (henv : ∀ k, env' (t' + k) = env (v + k)) (h : Lockstep False (tr' t') (tr v))
    (hoblivious : Oblivious tr' t') (k : Nat) :
    Lockstep (∃ j < k, (tr' (t' + j)).Traps) (tr' (t' + k)) (tr (v + k)) := by
  induction k with
  | zero => exact h.weaken (by simp)
  | succ k ih =>
      have hstep := ih.cycle (x := x) (e := env (v + k))
        (fun hfresh => hoblivious.reads k fun j hj htraps => hfresh ⟨j, hj, htraps⟩)
        (hoblivious.loads k)
      rw [← hrun (v + k), ← henv k, ← hrun' (t' + k)] at hstep
      refine hstep.weaken ?_
      rintro ⟨j, hj, htraps⟩
      rcases Nat.lt_succ_iff_lt_or_eq.mp hj with hlt | rfl
      · exact .inl ⟨j, hlt, htraps⟩
      · exact .inr htraps

/--
Interrupts are precise.  In every run from reset, for every sequence of bus delays
and of requests, an interrupt finds the registers, the memory and the CSRs of the
last `IF` before it and saves the `pc` of that `IF`.  If the first instruction of the
handler is `mret`, the core comes back there, with `MIE` as it was, and its run is
from then on that of every run that starts in the state of that `IF` with no request
on its way, on the same environment, and does not read what the trap left.
-/
theorem interrupts_precise (hrun : IsRun x env tr) (h0 : (tr 0).AfterReset)
    (hu : (tr u).core.phase = .INTERRUPT) :
    ∃ t < u, Interrupts tr t u ∧
      ((tr (u + 1)).bus.mem (wordIndex (tr (u + 1)).core.pc) = mret →
        ∃ v, Resumes tr t u v ∧
          ∀ (env' : Nat → Env) (tr' : Nat → System) (t' : Nat), IsRun x env' tr' →
            (tr t).Without (tr' t') → (∀ k, env' (t' + k) = env (v + k)) → Oblivious tr' t' →
            ∀ k, Follows (∃ j < k, (tr' (t' + j)).Traps) (tr' (t' + k)) (tr (v + k))) := by
  obtain ⟨t, ht, hentry⟩ := exists_interrupts hrun h0 hu
  refine ⟨t, ht, hentry, fun hmret => ?_⟩
  obtain ⟨v, hresumes⟩ := exists_resumes hrun h0 hu hentry hmret
  refine ⟨v, hresumes, fun env' tr' t' hrun' hwithout henv hoblivious k => ?_⟩
  exact (lockstep_run hrun hrun' henv (lockstep_of_resumes hresumes hwithout) hoblivious k).follows

end Run

/-! ## Runs on a fixed program -/

/-- `addi x1, x0, -2048; csrw mie, x1; csrsi mstatus, 8; w; w ...`, and `mret` at address 0. -/
def tickProgram (w : Word) (i : BitVec 30) : Word :=
  if i = 0 then mret
  else if i = 0x3c000000 then 0x80000093
  else if i = 0x3c000001 then 0x30409073
  else if i = 0x3c000002 then 0x30046073
  else w

/-- One wait cycle in each access; `eip` is high in one cycle, or never. -/
def tickEnv (eipAt : Option Nat) (t : Nat) : Env where
  delay := 1
  junk := 0
  eip := eipAt == some t
  eipIstimer := false

def tickRun (w : Word) (eipAt : Option Nat) : Nat → System :=
  trace (fun e s => s.cycle { mstatus := 0, mie := 0, mtvec := 0, mepc := 0, mip := false } e)
    (tickEnv eipAt) (boot (tickProgram w))

private theorem isRun_tickRun (w : Word) (eipAt : Option Nat) :
    IsRun { mstatus := 0, mie := 0, mtvec := 0, mepc := 0, mip := false } (tickEnv eipAt)
      (tickRun w eipAt) :=
  fun _ => rfl

private theorem tickRun_eq (w : Word) : tickRun w (some 18) 18 = tickRun w none 18 := by
  refine trace_congr fun k hk => ?_
  have hlow : (18 : Nat) ≠ k := by omega
  simp [tickEnv, hlow]

private theorem tickEnv_shift (k : Nat) : tickEnv none (18 + k) = tickEnv (some 18) (28 + k) := by
  have hlow : 18 ≠ 28 + k := by omega
  simp [tickEnv, hlow]

private theorem without_tickRun {w : Word} (hIF : (tickRun w none 18).core.phase = .IF)
    (hunrequested : (tickRun w none 18).cpu.privilege.state = .IDLE ∧
      (tickRun w none 18).cpu.privilege.interrupt = false ∧
      (tickRun w none 18).cpu.privilege.intPending = false) :
    (tickRun w (some 18) 18).Without (tickRun w none 18) := by
  obtain ⟨hst, hint, hpending⟩ := hunrequested
  exact ⟨hIF, tickRun_eq w ▸ ⟨rfl, rfl, rfl, rfl⟩, hst, hint, hpending⟩

/-- The boundary and the return of the interrupt that is taken in cycle 22. -/
theorem Interrupts.eq_eighteen {w : Word} {t : Nat} (h : Interrupts (tickRun w (some 18)) t 22)
    (ht : t < 22) (hIF : (tickRun w (some 18) 18).core.phase = .IF)
    (hbusy : ∀ k < 22, 18 < k → (tickRun w (some 18) k).core.phase ≠ .IF) : t = 18 := by
  rcases Nat.lt_trichotomy t 18 with hlt | heq | hgt
  · exact absurd hIF (h.next.between 18 hlt (by omega))
  · exact heq
  · exact absurd h.phase (hbusy t ht hgt)

private theorem Resumes.eq_twenty_eight {w : Word} {t v : Nat}
    (h : Resumes (tickRun w (some 18)) t 22 v)
    (hIF : (tickRun w (some 18) 28).core.phase = .IF)
    (hbusy : ∀ k < 28, 23 < k → (tickRun w (some 18) k).core.phase ≠ .IF) : v = 28 := by
  rcases Nat.lt_trichotomy v 28 with hlt | heq | hgt
  · exact absurd h.next.phase (hbusy v hlt h.next.lt)
  · exact heq
  · exact absurd hIF (h.next.between 28 (by omega) hgt)

/--
`csrr x2, mcause`: the program finds the cause of the interrupt in `mcause`, where
without the interrupt it finds 0.
-/
theorem interrupt_visible_mcause :
    ¬ ∀ (x : ReadX) (env : Nat → Env) (tr : Nat → System) (u : Nat), IsRun x env tr →
      (tr 0).AfterReset → (tr u).core.phase = .INTERRUPT →
      ∃ t < u, Interrupts tr t u ∧
        ((tr (u + 1)).bus.mem (wordIndex (tr (u + 1)).core.pc) = mret →
          ∃ v, Resumes tr t u v ∧
            ∀ (env' : Nat → Env) (tr' : Nat → System) (t' : Nat), IsRun x env' tr' →
              (tr t).Without (tr' t') → (∀ k, env' (t' + k) = env (v + k)) →
              ∀ k, (tr (v + k)).core.regfile = (tr' (t' + k)).core.regfile) := by
  intro h
  obtain ⟨t, ht, hentry, hreturn⟩ := h _ _ (tickRun 0x34202173 (some 18)) 22 (isRun_tickRun _ _)
    (afterReset_boot _) (by decide +kernel)
  obtain ⟨v, hresumes, hsame⟩ := hreturn (by decide +kernel)
  obtain rfl := hentry.eq_eighteen ht (by decide +kernel) (by decide +kernel)
  obtain rfl := hresumes.eq_twenty_eight (by decide +kernel) (by decide +kernel)
  have hregfile := hsame _ (tickRun 0x34202173 none) 18 (isRun_tickRun _ _)
    (without_tickRun (by decide +kernel) (by decide +kernel)) tickEnv_shift 6
  have hx2 := congrFun hregfile 2
  have hne : (tickRun 0x34202173 (some 18) 34).core.regfile 2 ≠
      (tickRun 0x34202173 none 24).core.regfile 2 := by decide +kernel
  exact hne hx2

/-! ### A loop -/

structure Spinning (s : System) : Prop where
  mem : s.bus.mem (wordIndex 0xf000000c) = 0x0000006f
  mip : s.csrs.mip = 0
  unrequested : s.Unrequested
  pc : s.core.phase = .IF ∨ s.core.phase = .ID_RF → s.core.pc = 0xf000000c
  waiting : s.core.phase = .MEM_WAIT → s.Waiting .ID_RF 0xf000000c ∧ s.core.pc = 0xf000000c
  instruction : s.core.phase = .ID_RF ∨ s.core.phase = .WB → s.core.instruction = 0x0000006f
  target : s.core.phase = .WB → s.core.ALUOut = 0xf000000c
  phases : s.core.phase = .IF ∨ s.core.phase = .MEM_WAIT ∨ s.core.phase = .ID_RF ∨
    s.core.phase = .WB

theorem Spinning.op (h : s.Spinning) (hp : s.core.phase = .WB) : s.core.op = Core.OP_JAL := by
  rw [Core.op, h.instruction (.inr hp)]
  decide

theorem Spinning.csrs_cycle (h : s.Spinning) : (s.cycle x e).csrs = s.csrs := by
  refine (Privilege.csrs_cycle rfl _).trans (congrArg Privilege.csrs ?_)
  rw [csrUpdate_phase]
  rcases h.phases with hp | hp | hp | hp <;> simp [hp]
  exact fun hop => by
    rw [h.op hp] at hop
    simp at hop

private theorem Spinning.unrequested_cycle (h : s.Spinning) (heip : e.eip = false) :
    (s.cycle x e).Unrequested := by
  obtain ⟨hst, hint, hpending⟩ := h.unrequested
  refine ⟨?_, ?_, ?_⟩
  · simp [state_cycle, Privilege.stateNext, hst, hpending]
  · simp [interrupt_cycle, Privilege.interruptNext, hst, hint]
  · have hmip : s.cpu.privilege.mip = 0 := h.mip
    refine (s.cpu.privilege.cycle_sampled rfl).2.1.trans ?_
    change (s.cpu.privilege.mstatusMie && ((e.eip && !e.eipIstimer && s.cpu.privilege.meie) ||
      (e.eip && e.eipIstimer && s.cpu.privilege.mtie) ||
      (s.cpu.privilege.mipSip && s.cpu.privilege.msie))) = false
    simp [heip, Privilege.mipSip, hmip]

theorem Spinning.cycle (h : s.Spinning) (heip : e.eip = false) : (s.cycle x e).Spinning := by
  have hmip : (s.cycle x e).csrs.mip = 0 := by rw [h.csrs_cycle, h.mip]
  have hunrequested := h.unrequested_cycle (x := x) heip
  rcases h.phases with hp | hp | hp | hp
  · obtain ⟨hwaiting, hpc, -, hmem, -⟩ := cycle_IF (x := x) (e := e) hp
    have hphase := hwaiting.phase
    rw [h.pc (.inl hp)] at hwaiting hpc
    generalize s.cycle x e = s' at *
    exact ⟨by rw [hmem, h.mem], hmip, hunrequested, by simp [hphase], fun _ => ⟨hwaiting, hpc⟩,
      by simp [hphase], by simp [hphase], .inr (.inl hphase)⟩
  · obtain ⟨hwaiting, hpc⟩ := h.waiting hp
    by_cases hwait : s.bus.wait = 0
    · have ha := cycle_MEM_WAIT_ready (x := x) (e := e) hwaiting hwait
      have hphase := ha.phase
      generalize s.cycle x e = s' at *
      refine ⟨by rw [ha.mem, h.mem], hmip, hunrequested, fun _ => ha.pc.trans hpc, by simp [hphase],
        fun _ => ?_, by simp [hphase], .inr (.inr (.inl hphase))⟩
      rw [ha.instruction, if_pos rfl, h.mem]
    · obtain ⟨hwaiting', hframe, -⟩ := cycle_MEM_WAIT_busy (x := x) (e := e) hwaiting hwait
      have hphase := hwaiting'.phase
      generalize s.cycle x e = s' at *
      exact ⟨by rw [hframe.mem, h.mem], hmip, hunrequested, by simp [hphase],
        fun _ => ⟨hwaiting', hframe.pc.trans hpc⟩, by simp [hphase], by simp [hphase],
        .inr (.inl hphase)⟩
  · obtain ⟨hnext, -, hinstruction, -, hmem, -, -, hALUOut, -⟩ :=
      cycle_ID_RF (x := x) (e := e) hp h.unrequested.interrupt
    have hword := h.instruction (.inl hp)
    have hphase : (s.cycle x e).core.phase = .WB := by
      rw [hnext]
      unfold Core.phaseNextID_RF Core.op Core.privWfi Core.privSfencevma Core.privMret
        Core.privEbreak Core.privEcall Core.funct3 Core.bit
      rw [hword]
      decide
    generalize s.cycle x e = s' at *
    refine ⟨by rw [hmem, h.mem], hmip, hunrequested, by simp [hphase], by simp [hphase],
      fun _ => hinstruction.trans hword, fun _ => ?_, .inr (.inr (.inr hphase))⟩
    rw [hALUOut, h.pc (.inr hp)]
    unfold Core.imm Core.immU Core.immI Core.immB Core.immJ Core.immS Core.signBits Core.op Core.bit
    rw [hword]
    decide
  · obtain ⟨hphase, hpc, -, hmem⟩ := cycle_WB (x := x) (e := e) hp
    have hctl : s.core.controlWB =
        { RegWrite := true, RegSrc := 3, PCWrite := true, PCSrc := 2 } := by
      simp [Core.controlWB, h.op hp]
    have htarget : (s.cycle x e).core.pc = 0xf000000c := by
      rw [hpc, hctl, if_pos rfl, ← h.target hp]
      rfl
    generalize s.cycle x e = s' at *
    exact ⟨by rw [hmem, h.mem], hmip, hunrequested, fun _ => htarget, by simp [hphase],
      by simp [hphase], by simp [hphase], .inl hphase⟩

theorem Spinning.reads (h : s.Spinning) : ¬ s.ReadsTrap ∧ ¬ s.ReservedLoad := by
  constructor
  · rintro (hp | ⟨hp | hp, hop, -⟩)
    · rcases h.phases with hp' | hp' | hp' | hp' <;> simp [hp] at hp'
    · rcases h.phases with hp' | hp' | hp' | hp' <;> simp [hp] at hp'
    · rw [h.op hp] at hop
      simp at hop
  · rintro ⟨hp, hop, -⟩
    rw [h.op hp] at hop
    simp at hop

private theorem spinning_tickRun (k : Nat) : (tickRun 0x0000006f none (18 + k)).Spinning := by
  induction k with
  | zero =>
      have hIF : (tickRun 0x0000006f none 18).core.phase = .IF := by decide +kernel
      refine ⟨rfl, ?_, ⟨?_, ?_, ?_⟩, ?_, fun hp => ?_, ?_, ?_, ?_⟩
      case refine_6 =>
        rw [Nat.add_zero, hIF] at hp
        cases hp
      all_goals decide +kernel
  | succ k ih =>
      rw [← Nat.add_assoc, isRun_tickRun]
      exact ih.cycle rfl

private theorem oblivious_tickRun : Oblivious (tickRun 0x0000006f none) 18 where
  reads k _ := (spinning_tickRun k).reads.1
  loads k := (spinning_tickRun k).reads.2

/-- The loop after the interrupt is the loop without it. -/
theorem interrupts_precise_spin :
    (tickRun 0x0000006f (some 18) 22).csrs = (tickRun 0x0000006f (some 18) 18).csrs ∧
      (tickRun 0x0000006f (some 18) 23).csrs.mepc = 0xf000000c ∧
      ∀ k, (tickRun 0x0000006f (some 18) (28 + k)).core.pc =
        (tickRun 0x0000006f none (18 + k)).core.pc := by
  obtain ⟨t, ht, hentry, hreturn⟩ := interrupts_precise (isRun_tickRun 0x0000006f (some 18))
    (afterReset_boot _) (u := 22) (by decide +kernel)
  obtain ⟨v, hresumes, hfollows⟩ := hreturn (by decide +kernel)
  obtain rfl := hentry.eq_eighteen ht (by decide +kernel) (by decide +kernel)
  obtain rfl := hresumes.eq_twenty_eight (by decide +kernel) (by decide +kernel)
  refine ⟨hentry.csrs, ?_, fun k => ?_⟩
  · rw [hentry.entered_csrs]
    decide +kernel
  · exact (hfollows _ _ 18 (isRun_tickRun _ none)
      (without_tickRun (by decide +kernel) (by decide +kernel)) tickEnv_shift
      oblivious_tickRun k).pc

end System

end PComputer.Rtl
