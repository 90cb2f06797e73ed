import PComputer.Rtl.Runs

/-!
# Trap entry by `ecall` and return by `mret`

What the core does with `pc` and `mepc`: at an `ecall` the phase `EXCEPTION`
saves `pc`, which `ID_RF` has already moved past the instruction; `mret` jumps to
`mepc` as it is.
-/

namespace PComputer.Rtl

open PComputer.Foundation

namespace System

def ecall : Word := 0x00000073

def mret : Word := 0x30200073

section Run

variable {x : ReadX} {env : Nat → Env} {tr : Nat → System} {t : Nat} {e : Env} {s : System}

private theorem cycle_EXCEPTION (h : s.core.phase = .EXCEPTION) :
    (s.cycle x e).core.phase = .IF ∧
      (s.cycle x e).core.regfile = s.core.regfile ∧
      (s.cycle x e).bus.mem = s.bus.mem ∧
      (s.cycle x e).cpu.privilege.mepc = s.core.pc ∧
      (s.cycle x e).cpu.privilege.mcause = 0#28 ++ s.core.mcauseCodeOut := by
  have hcpu : s.cpu.core.phase = .EXCEPTION := h
  obtain ⟨hmepc, -, hmcause⟩ :=
    s.cpu.privilege.cycle_csrs (i := s.cpu.privilegeIn (s.cpuIn e)) rfl
  have hupdate : s.cpu.privilege.csrUpdate (s.cpu.privilegeIn (s.cpuIn e)) =
      s.cpu.privilege.excEnter (s.cpu.privilegeIn (s.cpuIn e)) := by
    simp [Privilege.csrUpdate, Multicyc.privilegeIn, cpuIn, Core.control, hcpu]
  rw [hupdate] at hmepc hmcause
  refine ⟨?_, ?_, ?_, hmepc.trans ?_, hmcause.trans ?_⟩
  · simp [Core.phaseNext, h]
  · simp [Core.control, h]
  · simp [Bus.cycle, Core.we, Core.control, h]
  · simp [Privilege.excEnter, Multicyc.privilegeIn, Core.control, Core.pcOut, hcpu,
      core]
  · simp [Privilege.excEnter, Multicyc.privilegeIn, Core.control, hcpu, core]

theorem cycle_MRET (h : s.core.phase = .MRET) :
    (s.cycle x e).core.phase = .IF ∧
      (s.cycle x e).core.pc = s.cpu.privilege.mepcReg ∧
      (s.cycle x e).core.regfile = s.core.regfile ∧
      (s.cycle x e).bus.mem = s.bus.mem := by
  refine ⟨?_, ?_, ?_, ?_⟩
  · simp [Core.phaseNext, h]
  · simp [Core.control, Core.newpc, coreIn, Multicyc.coreIn, Privilege.mepcOut, h]
  · simp [Core.control, h]
  · simp [Bus.cycle, Core.we, Core.control, h]

/-- An `ecall` comes back to `IF` with the address of the next instruction in `mepc`. -/
theorem ecall_traps (hrun : IsRun x env tr) (hIF : (tr t).core.phase = .IF)
    (hint : Uninterrupted tr t)
    (hfetch : (tr t).bus.mem (wordIndex (tr t).core.pc) = ecall) :
    ∃ v, Path tr t [] v ∧ (tr v).core.phase = .IF ∧
      (tr v).core.regfile = (tr t).core.regfile ∧ (tr v).bus.mem = (tr t).bus.mem ∧
      (tr v).cpu.privilege.mepc = (tr t).core.pc + 4 ∧
      (tr v).cpu.privilege.mcause = 0x0000000b := by
  obtain ⟨u, hpath, hissued⟩ := exists_issued hrun hIF hint
  have hword : (tr u).core.instruction = ecall := hissued.instruction.trans hfetch
  have hop : (tr u).core.op = Core.OP_PRIV := by
    rw [Core.op, hword]
    decide
  have hfields : (tr u).core.privEbreak = false ∧ (tr u).core.privEcall = true := by
    unfold Core.privEbreak Core.privEcall Core.funct3 Core.bit
    rw [hword]
    decide
  have hphase : (tr u).core.phase = .EXCEPTION := by
    rw [hissued.phase]
    unfold Core.phaseNextID_RF Core.op Core.privWfi Core.privSfencevma Core.privMret
      Core.privEbreak Core.privEcall Core.funct3 Core.bit
    rw [hword]
    decide
  have hcycle := cycle_EXCEPTION (x := x) (e := env u) hphase
  rw [← hrun u] at hcycle
  obtain ⟨hIF', hregfile, hmem, hmepc, hmcause⟩ := hcycle
  refine ⟨u + 1, hpath.quiet (by simp [Running, hphase])
    (we_eq_false (by simp [hphase]) (by simp [hphase])), hIF', hregfile.trans hissued.regfile,
    hmem.trans hissued.mem, hmepc.trans hissued.pc, ?_⟩
  rw [hmcause, hissued.mcauseCodeOut hop hfields.1 hfields.2]
  rfl

/-- An `mret` comes back to `IF` at `mepc`. -/
theorem mret_returns (hrun : IsRun x env tr) (hIF : (tr t).core.phase = .IF)
    (hint : Uninterrupted tr t)
    (hfetch : (tr t).bus.mem (wordIndex (tr t).core.pc) = mret) :
    ∃ v, Path tr t [] v ∧ (tr v).core.phase = .IF ∧
      (tr v).core.regfile = (tr t).core.regfile ∧ (tr v).bus.mem = (tr t).bus.mem ∧
      (tr v).core.pc = (tr t).cpu.privilege.mepc := by
  obtain ⟨u, hpath, hissued⟩ := exists_issued hrun hIF hint
  have hword : (tr u).core.instruction = mret := hissued.instruction.trans hfetch
  have hphase : (tr u).core.phase = .MRET := by
    rw [hissued.phase]
    unfold Core.phaseNextID_RF Core.op Core.privWfi Core.privSfencevma Core.privMret
      Core.privEbreak Core.privEcall Core.funct3 Core.bit
    rw [hword]
    decide
  have hcycle := cycle_MRET (x := x) (e := env u) hphase
  rw [← hrun u] at hcycle
  obtain ⟨hIF', hpc, hregfile, hmem⟩ := hcycle
  exact ⟨u + 1, hpath.quiet (by simp [Running, hphase])
    (we_eq_false (by simp [hphase]) (by simp [hphase])), hIF', hregfile.trans hissued.regfile,
    hmem.trans hissued.mem, hpc.trans hissued.mepcReg⟩

end Run

end System

end PComputer.Rtl
