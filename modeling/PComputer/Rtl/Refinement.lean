import PComputer.Rtl.Instructions

/-!
# The multicycle core executes RV32I

From phase `IF` the core on its bus comes back to `IF` with the program
counter, the registers and the memory that one RV32I step prescribes, whatever
number of wait cycles the bus inserts in each access.
-/

namespace PComputer.Rtl

open PComputer.Foundation PComputer.Isa

namespace System

section Run

variable {x : ReadX} {env : Nat → Env} {tr : Nat → System} {t u : Nat}

theorem fetch_eq {s s' : System} (h : s.Issued s') (hpc : byteOffset s.core.pc = 0#2) :
    s.arch.fetch = s'.core.instruction := by
  rw [h.instruction]
  exact word_of_bytes s.bus.mem hpc

theorem executes_of_decode (hrun : IsRun x env tr) (h : (tr t).Issued (tr u))
    (hpath : Path tr t [] u) {i : Instr} (hi : decode (tr u).core.instruction = some i)
    (haligned : i.dataAligned (tr t).arch = true) :
    Executes tr t i (busWrites i (tr t).arch) := by
  cases i with
  | lui rd imm =>
      obtain ⟨hop, rfl, rfl⟩ := decode_lui hi
      exact executes_lui hrun h hpath hop
  | auipc rd imm =>
      obtain ⟨hop, rfl, rfl⟩ := decode_auipc hi
      exact executes_auipc hrun h hpath hop
  | jal rd offset =>
      obtain ⟨hop, rfl, rfl⟩ := decode_jal hi
      exact executes_jal hrun h hpath hop
  | jalr rd rs1 offset =>
      obtain ⟨hop, rfl, rfl, rfl⟩ := decode_jalr hi
      exact executes_jalr hrun h hpath hop
  | branch op rs1 rs2 offset =>
      obtain ⟨hop, ho, rfl, rfl, rfl⟩ := decode_branch hi
      exact executes_branch hrun h hpath hop ho
  | load op rd rs1 offset =>
      obtain ⟨hop, ho, rfl, rfl, rfl⟩ := decode_load hi
      refine executes_load hrun h hpath hop ho ?_
      have himm : (tr u).core.imm =
          ((tr u).core.instruction.extractLsb' 20 12).signExtend 32 := by
        simp [Core.imm, Core.op, hop, Core.immI_eq]
      rw [himm, arch_x_rs1 h]
      exact haligned
  | store op rs1 rs2 offset =>
      obtain ⟨hop, ho, rfl, rfl, rfl⟩ := decode_store hi
      have himm : (tr u).core.imm = (Isa.immS (tr u).core.instruction).signExtend 32 := by
        simp [Core.imm, Core.op, hop, Core.immS_eq]
      have haligned' : op.aligned ((tr u).core.readData1 + (tr u).core.imm) = true := by
        rw [himm, arch_x_rs1 h]
        exact haligned
      by_cases hsw : op = .sw
      · subst hsw
        exact executes_store_word hrun h hpath hop ho haligned'
      · exact executes_store_subword hrun h hpath hop ho hsw haligned'
  | opImm op rd rs1 imm =>
      obtain ⟨hop, ho, rfl, rfl, rfl⟩ := decode_opImm hi
      exact executes_opImm hrun h hpath hop ho
  | opReg op rd rs1 rs2 =>
      obtain ⟨hop, ho, rfl, rfl, rfl⟩ := decode_opReg hi
      exact executes_opReg hrun h hpath hop ho

theorem step_eq_ok {s : Arch} {i : Instr} (hi : decode s.fetch = some i)
    (hdata : i.dataAligned s = true) (htarget : i.targetAligned s = true) :
    Isa.step s = .ok (execute i s) := by
  simp [Isa.step, hi, Instr.exception?, hdata, htarget]

def writesBetween (tr : Nat → System) (t v : Nat) : List (Word × Word) :=
  (List.range' t (v - t)).flatMap fun k => (tr k).busWrite

private theorem Path.log_eq {v : Nat} {log : List (Word × Word)} (h : Path tr t log v) :
    log = writesBetween tr t v := by
  induction h with
  | start => simp [writesBetween]
  | @step log u hpath _ ih =>
      have hlt := hpath.lt
      have hu : u + 1 - t = (u - t) + 1 := by omega
      have hlast : t + (u - t) = u := by omega
      rw [ih, writesBetween, writesBetween, hu, List.range'_concat, List.flatMap_append]
      simp [hlast]

/--
One instruction of the core refines one step of RV32I: in every run, for every
sequence of bus delays, the core in `IF` at an aligned `pc` comes back to `IF`
with the effect of the instruction, passes no `IF` or `BAD` on the way and makes
the bus writes of the instruction and no other.  Unless the instruction jumps to
a misaligned target, which the core does not trap, the effect is one step.
-/
theorem cycle_refines_step (hrun : IsRun x env tr) (hIF : (tr t).core.phase = .IF)
    (hint : Uninterrupted tr t) (hpc : byteOffset (tr t).arch.pc = 0#2) {i : Instr}
    (hi : decode (tr t).arch.fetch = some i) (hdata : i.dataAligned (tr t).arch = true) :
    ∃ v, t < v ∧ (tr v).core.phase = .IF ∧ (tr v).arch = execute i (tr t).arch ∧
      (i.targetAligned (tr t).arch = true → Isa.step (tr t).arch = .ok (tr v).arch) ∧
      (∀ k, t < k → k < v → (tr k).core.phase ≠ .IF ∧ (tr k).core.phase ≠ .BAD) ∧
      writesBetween tr t v = busWrites i (tr t).arch := by
  obtain ⟨u, hpath, hissued⟩ := exists_issued hrun hIF hint
  have hfetch := fetch_eq hissued hpc
  obtain ⟨v, hv, hphase, harch⟩ :=
    executes_of_decode hrun hissued hpath (hfetch ▸ hi) hdata
  refine ⟨v, hv.lt, hphase, harch, fun htarget => ?_, hv.running, hv.log_eq.symm⟩
  rw [harch]
  exact step_eq_ok hi hdata htarget

end Run

/-! ## Runs on fixed programs -/

/-- The run after reset of a memory full of one instruction, three wait cycles an access. -/
def runOf (instruction : Word) : Nat → System :=
  trace (fun e s => s.cycle { mstatus := 0, mie := 0, mtvec := 0, mepc := 0, mip := false } e)
    (fun _ => { delay := 3, junk := 0, eip := false, eipIstimer := false })
    (boot fun _ => instruction)

private theorem isRun_runOf (w : Word) :
    IsRun { mstatus := 0, mie := 0, mtvec := 0, mepc := 0, mip := false }
      (fun _ => { delay := 3, junk := 0, eip := false, eipIstimer := false }) (runOf w) :=
  fun _ => rfl

private theorem uninterrupted_runOf {w : Word} (hIF : (runOf w 8).core.phase = .IF)
    (hlow : ∀ k < 8, (runOf w k).cpu.privilege.interrupt = false) :
    Uninterrupted (runOf w) 0 := by
  intro k _ hbusy
  rcases Nat.lt_or_ge k 8 with hk | hk
  · exact hlow k hk
  · exact absurd hIF (hbusy 8 (by omega) hk)

/-- `addi x1, x0, 5` -/
theorem cycle_refines_step_addi :
    ∃ v, 0 < v ∧ (runOf 0x00500093 v).core.phase = .IF ∧
      (runOf 0x00500093 v).arch = execute (.opImm .add 1 0 5) (runOf 0x00500093 0).arch ∧
      Isa.step (runOf 0x00500093 0).arch = .ok (runOf 0x00500093 v).arch := by
  obtain ⟨v, hv, hIF, harch, hstep, -, -⟩ := cycle_refines_step (i := .opImm .add 1 0 5)
    (isRun_runOf 0x00500093) (t := 0) (by decide)
    (uninterrupted_runOf (by decide +kernel) (by decide +kernel)) (by decide) (by decide)
    (by decide)
  exact ⟨v, hv, hIF, harch, hstep (by decide)⟩

/--
`jalr x0, 2(x0)`: the instruction set raises an exception for the target 2, the
core jumps there.
-/
theorem misaligned_jump_not_step :
    ¬ ∀ (x : ReadX) (env : Nat → Env) (tr : Nat → System) (t : Nat) (i : Instr),
      IsRun x env tr → (tr t).core.phase = .IF → Uninterrupted tr t →
      byteOffset (tr t).arch.pc = 0#2 → decode (tr t).arch.fetch = some i →
      i.dataAligned (tr t).arch = true →
      ∃ v, t < v ∧ (tr v).core.phase = .IF ∧ Isa.step (tr t).arch = .ok (tr v).arch := by
  intro h
  obtain ⟨v, -, -, hstep⟩ := h _ _ (runOf 0x00200067) 0 (.jalr 0 0 2) (isRun_runOf _) (by decide)
    (uninterrupted_runOf (by decide +kernel) (by decide +kernel)) (by decide) (by decide)
    (by decide)
  have herror : (Isa.step (runOf 0x00200067 0).arch).toBool = false := by decide +kernel
  rw [hstep] at herror
  cases herror

end System

end PComputer.Rtl
