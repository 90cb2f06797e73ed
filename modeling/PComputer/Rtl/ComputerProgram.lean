import Mathlib.Order.WellFounded
import PComputer.Rtl.ComputerRefinement
import PComputer.Rtl.InterruptMask
import PComputer.Rtl.Refinement

/-!
# The computer executes RV32I

A program that keeps to the memories is executed by the whole computer as the instruction
set says: each time that the core comes to `IF`, the program counter, the registers and the
memory are those of the next step.
-/

namespace PComputer.Rtl

open PComputer.Foundation PComputer.Isa

/-! ## The address of a load or store -/

namespace Core

variable {c : Core} {i : CoreIn}

structure Addressed (c : Core) : Prop where
  coherent : c.Coherent
  operand : c.phase = .EX ∨ c.phase = .EXU → c.A = c.readData1
  address : c.phase = .MEM ∨ c.phase = .MEMU → c.ALUOut = c.readData1 + c.imm
  store : c.phase = .EXU ∨ c.phase = .MEMU ∨ c.phase = .MEM_WAIT ∧ c.phaseReturn = .EXU →
    c.op = OP_STORE

private theorem regfile_advance (h : c.phase ≠ .WB) : (c.advance i).regfile = c.regfile := by
  have hctl : (c.control i.ready).RegWrite = false := by
    cases hphase : c.phase with
    | WB => exact absurd hphase h
    | EX =>
        simp only [control, hphase, controlEX]
        split_ifs <;> rfl
    | MEM =>
        simp only [control, hphase, controlMEM]
        split_ifs <;> rfl
    | _ => simp [control, hphase]
  rw [advance_regfile, hctl, RegisterFile.cycle_idle]

private theorem instruction_advance (hIF : c.phase ≠ .IF)
    (hwait : c.phase = .MEM_WAIT → i.ready = true → c.phaseReturn ≠ .ID_RF) :
    (c.advance i).instruction = c.instruction := by
  by_cases hphase : c.phase = .MEM_WAIT
  · have hctl : (c.control i.ready).IRWrite = false := by
      simpa [control, hphase] using hwait hphase
    simp [hctl]
  · exact advance_instruction_of_ne hIF hphase

theorem Addressed.advance (hc : c.Addressed) : (c.advance i).Addressed := by
  have horigins := hc.coherent.origins i
  have hsame {p : Phase} (hphase : c.phase = p) (hp : p ≠ .IF ∧ p ≠ .WB)
      (hwait : p = .MEM_WAIT → i.ready = true → c.phaseReturn ≠ .ID_RF) :
      (c.advance i).readData1 = c.readData1 ∧ (c.advance i).imm = c.imm ∧
        (c.advance i).op = c.op := by
    have hinstruction := instruction_advance (i := i) (hphase ▸ hp.1) (hphase ▸ hwait)
    have hregfile := regfile_advance (i := i) (hphase ▸ hp.2)
    refine ⟨?_, System.imm_congr hinstruction, ?_⟩
    · rw [readData1, readData1, hinstruction, hregfile]
    · rw [op, op, hinstruction]
  refine ⟨hc.coherent.advance, fun h => ?_, fun h => ?_, fun h => ?_⟩
  · rw [advance_A]
    rcases h with hEX | hEXU
    · exact (hsame (horigins.EX hEX) (by decide) (by simp)).1.symm
    · obtain ⟨hphase, -, hret⟩ := horigins.EXU hEXU
      exact (hsame hphase (by decide) (fun _ _ => by simp [hret])).1.symm
  · have hsum (hphase : c.phase = .EX ∧ (c.op = OP_STORE ∨ c.op = OP_LOAD) ∨ c.phase = .EXU) :
        (c.advance i).ALUOut = c.A + c.imm := by
      rw [advance_ALUOut]
      rcases hphase with ⟨hphase, hop | hop⟩ | hphase
      · simp [control, controlEX, hphase, hop, alu, ALUIn1, ALUIn2]
      · simp [control, controlEX, hphase, hop, alu, ALUIn1, ALUIn2]
      · simp [control, hphase, alu, ALUIn1, ALUIn2]
    rcases h with hMEM | hMEMU
    · obtain ⟨hphase, hop⟩ := horigins.MEM hMEM
      obtain ⟨hread, himm, -⟩ := hsame hphase (by decide) (by simp)
      rw [hsum (.inl ⟨hphase, hop⟩), hread, himm, hc.operand (.inl hphase)]
    · have hphase := horigins.MEMU hMEMU
      obtain ⟨hread, himm, -⟩ := hsame hphase (by decide) (by simp)
      rw [hsum (.inr hphase), hread, himm, hc.operand (.inr hphase)]
  · rcases h with hEXU | hMEMU | ⟨hwait, hret⟩
    · obtain ⟨hphase, -, hret⟩ := horigins.EXU hEXU
      rw [(hsame hphase (by decide) (fun _ _ => by simp [hret])).2.2]
      exact hc.store (.inr (.inr ⟨hphase, hret⟩))
    · have hphase := horigins.MEMU hMEMU
      rw [(hsame hphase (by decide) (by simp)).2.2]
      exact hc.store (.inl hphase)
    · rw [advance_phaseReturn] at hret
      rcases horigins.MEM_WAIT hwait with ⟨hphase, hready⟩ | hphase | hphase | ⟨hphase, hready⟩
      · simp [phaseReturnNext, hphase, hready] at hret
      · rw [(hsame hphase (by decide) (by simp)).2.2]
        simp only [phaseReturnNext, hphase] at hret
        split_ifs at hret with _ hop
        · cases hret
        · exact hop.1
        · cases hret
      · simp [phaseReturnNext, hphase] at hret
      · have hret' : c.phaseReturn = .EXU := by simpa [phaseReturnNext, hphase] using hret
        rw [(hsame hphase (by decide) (fun _ _ => by simp [hret'])).2.2]
        exact hc.store (.inr (.inr ⟨hphase, hret'⟩))

private theorem origin_of_trap (hc : c.Coherent) (h : (c.advance i).phase = .INTERRUPT ∨
    (c.advance i).phase = .EXCEPTION ∨ (c.advance i).phase = .MRET) :
    c.phase = .ID_RF ∧ (i.interrupt = true ∨ c.op = OP_PRIV) := by
  rw [advance_phase] at h
  cases hphase : c.phase with
  | IF | EX | RV32M_WAIT =>
      simp only [phaseNext, hphase] at h
      split_ifs at h <;> simp_all
  | MEM_WAIT =>
      simp only [phaseNext, hphase] at h
      split_ifs at h
      · rcases hc.returns hphase with hret | hret | hret | hret <;> simp [hret] at h
      · simp at h
  | ID_RF =>
      simp only [phaseNext, hphase, phaseNextID_RF] at h
      split_ifs at h <;> simp_all
  | _ => simp_all [phaseNext]

end Core

/-! ## No interrupts -/

structure Privilege.Quiet (p : Privilege) : Prop where
  mie : p.mstatusMie = false
  pending : p.intPending = false
  state : p.state = .IDLE
  interrupt : p.interrupt = false

theorem Privilege.Quiet.cycle {p : Privilege} {i : PrivilegeIn} (h : p.Quiet)
    (hrst : i.rst = false) (hwe : i.we = false) (henter : i.onExcEnter = false)
    (hleave : i.onExcLeave = false) : (p.cycle i).Quiet := by
  obtain ⟨hmstatus, hpending, -⟩ := p.cycle_sampled hrst
  constructor
  · rw [mstatusMie, hmstatus, csrUpdate, hrst, hwe, henter, hleave]
    exact h.mie
  · rw [hpending, intCond, h.mie]
    rfl
  · rw [p.cycle_state hrst, stateNext, h.state, h.pending]
    rfl
  · rw [p.cycle_interrupt hrst, interruptNext, h.state]
    exact h.interrupt

namespace Multicyc

variable {x : ReadX} {s : Multicyc} {i : MulticycIn}

private theorem quiet_cycle (h : s.privilege.Quiet) (hrst : i.rst = false)
    (hop : s.core.phase = .WB → s.core.op ≠ Core.OP_PRIV)
    (htrap : s.core.phase ≠ .INTERRUPT ∧ s.core.phase ≠ .EXCEPTION ∧ s.core.phase ≠ .MRET) :
    (s.cycle x i).privilege.Quiet := by
  refine h.cycle hrst ?_ ?_ ?_
  · refine (s.core.control_csrWe i.ready).trans (decide_eq_false fun hwe => ?_)
    exact hop hwe.1 hwe.2.1
  · exact (s.core.control_onExcEnter i.ready).trans (by simp [htrap])
  · exact (s.core.control_onExcLeave i.ready).trans (by simp [htrap])

end Multicyc

/-! ## Programs that keep to the memories -/

abbrev Readable (w : BitVec 30) : Prop := ChipWindow w ∨ RamWindow w ∨ RomWindow w

abbrev Writable (w : BitVec 30) : Prop := ChipWindow w ∨ RamWindow w

/-- The addresses of an instruction, by what it does there. -/
def Confined (readable writable : BitVec 30 → Prop) (i : Instr) (s : Arch) : Prop :=
  match i with
  | .load _ _ rs1 offset => readable (wordIndex (s.x rs1 + offset.signExtend 32))
  | .store _ rs1 _ offset => writable (wordIndex (s.x rs1 + offset.signExtend 32))
  | _ => True

/-- The next step of the program uses no address outside the memories. -/
def KeepsToMemory (s : Arch) : Prop :=
  Readable (wordIndex s.pc) ∧ ∀ i, decode s.fetch = some i → Confined Readable Writable i s

/-- It uses no address of the chip. -/
def LeavesChip (s : Arch) : Prop :=
  ¬ ChipWindow (wordIndex s.pc) ∧
    ∀ i, decode s.fetch = some i → Confined (¬ ChipWindow ·) (¬ ChipWindow ·) i s

private theorem aligned_of_exception? {s : Arch} {i : Instr} (h : i.exception? s = none) :
    i.dataAligned s = true ∧ i.targetAligned s = true := by
  cases htarget : i.targetAligned s with
  | false => simp [Instr.exception?, htarget] at h
  | true =>
      cases hdata : i.dataAligned s with
      | false => cases i <;> simp [Instr.exception?, htarget, hdata] at h
      | true => exact ⟨rfl, rfl⟩

private theorem of_step_ok {s s' : Arch} (h : Isa.step s = .ok s') : ∃ i, decode s.fetch = some i ∧
    i.dataAligned s = true ∧ i.targetAligned s = true ∧ s' = execute i s := by
  cases hi : decode s.fetch with
  | none => simp [Isa.step, hi] at h
  | some i =>
      cases hexception : i.exception? s with
      | some e => simp [Isa.step, hi, hexception] at h
      | none =>
          obtain ⟨hdata, htarget⟩ := aligned_of_exception? hexception
          simp only [Isa.step, hi, hexception, Except.ok.injEq] at h
          exact ⟨i, rfl, hdata, htarget, h.symm⟩

private theorem aligned_execute {s : Arch} {i : Instr} (hpc : byteOffset s.pc = 0#2)
    (htarget : i.targetAligned s = true) : byteOffset (execute i s).pc = 0#2 := by
  have hnext : byteOffset (s.pc + 4) = 0#2 := by
    have hadd := byteOffset_add s.pc 4
    rw [hpc] at hadd
    exact hadd
  cases i with
  | jal _ _ | jalr _ _ _ | branch _ _ _ _ => simpa [Instr.targetAligned] using htarget
  | _ => exact hnext

namespace Computer

section Run

variable {x : ReadX} {m : ChipBytes} {ins : Nat → ComputerIn} {tr : Nat → Computer}
variable {t k r : Nat} {i : Instr}

def arch (m : ChipBytes) (tr : Nat → Computer) (t : Nat) : Arch where
  pc := (tr t).core.pc
  x := (tr t).core.regfile.read
  mem := bytesOf (memory m tr t)
  x_zero := RegisterFile.read_zero _

/-- The CPU is busy with the instruction that it began to fetch in cycle `t`. -/
def During (tr : Nat → Computer) (t k : Nat) : Prop :=
  t ≤ k ∧ ∀ j, t < j → j ≤ k → (tr j).phase ≠ .IF

/-- How far it is: the fetch will be answered in cycle `r`. -/
structure Busy (m : ChipBytes) (tr : Nat → Computer) (t r k : Nat) : Prop where
  regfile : (tr k).core.regfile = (tr t).core.regfile
  fetched : k ≤ r ∧ (tr k).core.phase = .MEM_WAIT ∧ (tr k).core.phaseReturn = .ID_RF ∨
    (tr k).core.instruction = memory m tr t (wordIndex (tr t).core.pc) ∧
      ((tr k).core.phase = .MEM_WAIT → (tr k).core.phaseReturn ≠ .ID_RF)

private theorem a_IF (hIF : (tr t).phase = .IF) : (tr t).a = (tr t).core.pc := by
  have hIF' : (tr t).core.phase = .IF := hIF
  simp [a, Core.a, Core.control, Core.memAddr, hIF']

private theorem mapped_IF (hIF : (tr t).phase = .IF)
    (hfetch : Readable (wordIndex (tr t).core.pc)) :
    (tr t).Mapped := by
  intro _
  rw [a_IF hIF]
  exact hfetch.imp_right fun hword =>
    hword.imp_right fun hrom => ⟨hrom, (Core.requests_IF hIF).2⟩

theorem Served.fetch (h : Served tr t) (hIF : (tr t).phase = .IF)
    (hfetch : Readable (wordIndex (tr t).core.pc))
    (hlate : (tr t).hostIn.request = true → 259 ≤ t) : Served tr (t + 1) := by
  intro u hu hut hrequest
  rcases Nat.lt_succ_iff_lt_or_eq.mp hut with hlt | rfl
  · exact h u hu hlt hrequest
  · exact ⟨hlate hrequest, (mapped_IF hIF hfetch).window hrequest⟩

namespace Starts

theorem addressed (h : Starts x m ins tr) (ht : 0 < t) : (tr t).core.Addressed := by
  induction t, ht using Nat.le_induction with
  | base =>
      have hphase : (tr 1).core.phase = .IF := h.phase_one
      refine ⟨h.coherent Nat.one_pos, ?_, ?_, ?_⟩ <;> simp [hphase]
  | succ t ht ih =>
      rw [h.core_succ ht]
      exact ih.advance

theorem busy (h : Starts x m ins tr) (ht : 0 < t) (hIF : (tr t).phase = .IF)
    (hans : Answers m ins tr t r) (htk : t < k) (hduring : During tr t k) :
    Busy m tr t r k := by
  have hIF' : (tr t).core.phase = .IF := hIF
  induction k, htk using Nat.le_induction with
  | base =>
      have hready : ((tr t).coreIn x (ins t)).ready = false :=
        hans.busy t (Nat.le_refl t) hans.lt
      refine ⟨?_, .inl ⟨hans.lt, (hans.waiting (t + 1) (Nat.lt_succ_self t) hans.lt).1, ?_⟩⟩
      · rw [h.core_succ ht]
        exact Core.regfile_advance (by simp [hIF'])
      · rw [h.core_succ ht]
        simp [Core.phaseReturnNext, hIF', hready]
  | succ k htk ih =>
      obtain ⟨hregfile, hfetched⟩ := ih ⟨by omega, fun j htj hjk => hduring.2 j htj (by omega)⟩
      have hcore := h.core_succ (t := k) (by omega)
      have hnot : (tr k).core.phase ≠ .IF := hduring.2 k htk (by omega)
      have hnext : (tr (k + 1)).core.phase ≠ .IF := hduring.2 (k + 1) (by omega) (Nat.le_refl _)
      refine ⟨?_, ?_⟩
      · rw [hcore, Core.regfile_advance, hregfile]
        intro hWB
        rw [hcore, Core.advance_phase, Core.phaseNext, hWB] at hnext
        exact hnext rfl
      · rcases hfetched with ⟨hkr, hwait, hret⟩ | ⟨hinstruction, hret⟩
        · rcases hkr.lt_or_eq with hlt | rfl
          · have hready : ((tr k).coreIn x (ins k)).ready = false :=
              hans.busy k (by omega) hlt
            refine .inl ⟨hlt, (hans.waiting (k + 1) (by omega) hlt).1, ?_⟩
            rw [hcore]
            simp [Core.phaseReturnNext, hwait, hret]
          · have hready : ((tr k).coreIn x (ins k)).ready = true := hans.ready
            have hspo : ((tr k).coreIn x (ins k)).spo =
                byteSwap (memory m tr t (wordIndex (tr t).a)) :=
              hans.shows (Core.requests_IF hIF').2
            refine .inr ⟨?_, fun hagain => ?_⟩
            · rw [hcore]
              simp [Core.control, hwait, hret, hready, hspo, a_IF hIF]
            · rw [hcore] at hagain
              simp [Core.phaseNext, hwait, hret, hready] at hagain
        · refine .inr ⟨?_, fun hagain => ?_⟩
          · rw [hcore, Core.instruction_advance hnot fun hwait _ => hret hwait, hinstruction]
          · rw [hcore] at hagain ⊢
            rw [Core.advance_phaseReturn]
            rcases ((h.coherent (t := k) (by omega)).origins _).MEM_WAIT hagain with
              ⟨hphase, -⟩ | hphase | hphase | ⟨hphase, -⟩
            · exact absurd hphase hnot
            · simp only [Core.phaseReturnNext, hphase]
              split_ifs <;> simp
            · simp [Core.phaseReturnNext, hphase]
            · simp only [Core.phaseReturnNext, hphase]
              exact hret hphase

private theorem a_data (h : Starts x m ins tr) (hk : 0 < k)
    (hrequests : (tr k).core.requests = true)
    (hIF : (tr k).core.phase ≠ .IF) :
    (tr k).a = (tr k).core.readData1 + (tr k).core.imm ∧
      ((tr k).core.op = Core.OP_STORE ∨
        (tr k).core.op = Core.OP_LOAD ∧ (tr k).core.we = false) := by
  have haddressed := h.addressed hk
  rcases Core.phase_of_requests hrequests with hphase | hphase | hphase
  · exact absurd hphase hIF
  · rw [← haddressed.address (.inl hphase)]
    rcases haddressed.coherent.memory hphase with hop | hop
    · refine ⟨?_, .inl hop⟩
      cases hu : (tr k).core.storeUnaligned <;>
        simp [a, Core.a, Core.control, Core.controlMEM, Core.memAddr, hphase, hop, hu]
    · refine ⟨?_, .inr ⟨hop, ?_⟩⟩
      · simp [a, Core.a, Core.control, Core.controlMEM, Core.memAddr, hphase, hop]
      · simp [Core.we, Core.control, Core.controlMEM, hphase, hop]
  · rw [← haddressed.address (.inr hphase)]
    refine ⟨?_, .inl (haddressed.store (.inr (.inl hphase)))⟩
    simp [a, Core.a, Core.control, Core.memAddr, hphase]

private theorem fetch_arch (hpc : byteOffset (arch m tr t).pc = 0#2) :
    memory m tr t (wordIndex (tr t).core.pc) = (arch m tr t).fetch :=
  (word_of_bytes (memory m tr t) hpc).symm

/-- What the instruction of cycle `t` requests is what the instruction set says. -/
theorem request_busy (h : Starts x m ins tr) (ht : 0 < t) (htk : t < k)
    (hpc : byteOffset (arch m tr t).pc = 0#2) (hi : decode (arch m tr t).fetch = some i)
    {readable writable : BitVec 30 → Prop} (hconfined : Confined readable writable i (arch m tr t))
    (hbusy : Busy m tr t r k) (hIF : (tr k).core.phase ≠ .IF)
    (hrequests : (tr k).core.requests = true) :
    writable (wordIndex (tr k).a) ∨ readable (wordIndex (tr k).a) ∧ (tr k).core.we = false := by
  obtain ⟨ha, hop⟩ := h.a_data (by omega) hrequests hIF
  have hinstruction : (tr k).core.instruction = (arch m tr t).fetch := by
    rcases hbusy.fetched with ⟨-, hwait, -⟩ | ⟨hinstruction, -⟩
    · simp [Core.requests, Core.quiet_of_phase hwait (by decide)] at hrequests
    · rw [hinstruction, fetch_arch hpc]
  have hread : (tr k).core.readData1 =
      (arch m tr t).x ((tr k).core.instruction.extractLsb' 15 5) := by
    rw [Core.readData1, hbusy.regfile]
    rfl
  have hencodes := encodes_of_decode hi
  rw [← hinstruction] at hencodes
  rw [ha, hread]
  rcases hop with hop | ⟨hop, hwe⟩
  · have himm : (tr k).core.imm = (Isa.immS (tr k).core.instruction).signExtend 32 := by
      simp [Core.imm, hop, Core.immS_eq]
    rw [himm]
    rw [Core.op] at hop
    cases hencodes with
    | store _ _ => exact .inl hconfined
    | _ => simp_all
  · have himm : (tr k).core.imm =
        ((tr k).core.instruction.extractLsb' 20 12).signExtend 32 := by
      simp [Core.imm, hop, Core.immI_eq]
    rw [himm]
    rw [Core.op] at hop
    cases hencodes with
    | load _ _ => exact .inr ⟨hconfined, hwe⟩
    | _ => simp_all

private theorem exists_busy (h : Starts x m ins tr) (ht : 0 < t) (hserved : Served tr (t + 1))
    (hIF : (tr t).phase = .IF) (hfetch : Readable (wordIndex (arch m tr t).pc)) :
    ∃ r, ∀ k, t < k → During tr t k → Busy m tr t r k := by
  have hIF' : (tr t).core.phase = .IF := hIF
  obtain ⟨r, hans⟩ := h.answers ht hserved (by simp [Core.requests, Core.requests_IF hIF'])
    (mapped_IF hIF hfetch)
  exact ⟨r, fun k htk hduring => h.busy ht hIF hans htk hduring⟩

private theorem mapped_during (h : Starts x m ins tr) (ht : 0 < t) (hserved : Served tr (t + 1))
    (hIF : (tr t).phase = .IF) (hpc : byteOffset (arch m tr t).pc = 0#2)
    (hi : decode (arch m tr t).fetch = some i) (hfetch : Readable (wordIndex (arch m tr t).pc))
    (hconfined : Confined Readable Writable i (arch m tr t)) (hduring : During tr t k) :
    (tr k).Mapped := by
  rcases hduring.1.eq_or_lt with rfl | htk
  · exact mapped_IF hIF hfetch
  · intro hrequests
    obtain ⟨r, hbusy⟩ := h.exists_busy ht hserved hIF hfetch
    rcases h.request_busy ht htk hpc hi hconfined (hbusy k htk hduring)
      (hduring.2 k htk (Nat.le_refl k)) hrequests with hwrite | ⟨hread, hwe⟩
    · exact hwrite.imp_right .inl
    · exact hread.imp_right fun hword => hword.imp_right fun hrom => ⟨hrom, hwe⟩

private theorem quiet_of_leaves (h : Starts x m ins tr) (ht : 0 < t) (hserved : Served tr (t + 1))
    (hIF : (tr t).phase = .IF) (hpc : byteOffset (arch m tr t).pc = 0#2)
    (hi : decode (arch m tr t).fetch = some i) (hkeeps : KeepsToMemory (arch m tr t))
    (hleaves : LeavesChip (arch m tr t)) (hduring : During tr t k) :
    (tr k).hostIn.request = false := by
  by_contra hrequest
  rw [Bool.not_eq_false] at hrequest
  have hmapped := h.mapped_during ht hserved hIF hpc hi hkeeps.1 (hkeeps.2 i hi) hduring
  have hwindow := hmapped.window hrequest
  rcases hduring.1.eq_or_lt with rfl | htk
  · rw [a_IF hIF] at hwindow
    exact hleaves.1 hwindow
  · obtain ⟨r, hbusy⟩ := h.exists_busy ht hserved hIF hkeeps.1
    rcases h.request_busy ht htk hpc hi (hleaves.2 i hi) (hbusy k htk hduring)
      (hduring.2 k htk (Nat.le_refl k)) (request_hostIn.mp hrequest).2 with hwrite | ⟨hread, -⟩
    · exact hwrite hwindow
    · exact hread hwindow

/-- `k` cycles behind `t` the core on its bus is where the computer is. -/
def AlikeAt (m : ChipBytes) (tr : Nat → Computer) (sys : Nat → System) (t k : Nat) : Prop :=
  (tr (t + k)).cpu.Like (sys k).cpu ∧ (sys k).bus.mem = memory m tr (t + k)

private theorem phase_of_alike {sys : Nat → System} (h : AlikeAt m tr sys t k) :
    (sys k).core.phase = (tr (t + k)).phase :=
  h.1.core.phase

private theorem arch_of_alike {sys : Nat → System} (h : AlikeAt m tr sys t k) :
    arch m tr (t + k) = (sys k).arch := by
  have hcore := h.1.core.rest
  apply Arch.ext
  · change (tr (t + k)).core.pc = (sys k).cpu.core.pc
    rw [hcore]
    rfl
  · change (tr (t + k)).core.regfile.read = (sys k).cpu.core.regfile.read
    rw [hcore]
    rfl
  · change bytesOf (memory m tr (t + k)) = bytesOf (sys k).bus.mem
    rw [h.2]

private theorem during_of_alike {sys : Nat → System} (h : ∀ l ≤ k, AlikeAt m tr sys t l)
    (hbusy : ∀ j, 0 < j → j ≤ k → (sys j).core.phase ≠ .IF) : During tr t (t + k) := by
  refine ⟨by omega, fun l hl hlk => ?_⟩
  obtain ⟨l, rfl⟩ := Nat.exists_eq_add_of_le hl.le
  rw [← phase_of_alike (h l (by omega))]
  exact hbusy l (by omega) (by omega)

section Executes

variable (h : Starts x m ins tr) (ht : 0 < t) (hIF : (tr t).phase = .IF)
  (hlate : ∀ k, During tr t k → (tr k).hostIn.request = true → 259 ≤ k)
  (hpc : byteOffset (arch m tr t).pc = 0#2) (hi : decode (arch m tr t).fetch = some i)
  (hfetch : Readable (wordIndex (arch m tr t).pc))
  (hconfined : Confined Readable Writable i (arch m tr t))

include h ht hIF hlate hpc hi hfetch hconfined

/-- The two stay alike as long as the instruction goes on. -/
private theorem alike_during {sys : Nat → System} (hserved : Served tr (t + 1))
    (hsim : ∀ k, Served tr (t + k) → (∀ j < k, (tr (t + j)).Mapped) → AlikeAt m tr sys t k)
    (hbusy : ∀ j, 0 < j → j < k → (sys j).core.phase ≠ .IF) : AlikeAt m tr sys t k := by
  induction k using Nat.strong_induction_on with
  | _ k ih =>
      have hduring (j : Nat) (hj : j < k) : During tr t (t + j) :=
        during_of_alike
          (fun l hl => ih l (by omega) fun j' hj' hjl => hbusy j' hj' (by omega))
          fun l hl hlj => hbusy l hl (by omega)
      have hmapped (j : Nat) (hj : j < k) : (tr (t + j)).Mapped :=
        h.mapped_during ht hserved hIF hpc hi hfetch hconfined (hduring j hj)
      refine hsim k (fun u hu huk hrequest => ?_) hmapped
      rcases Nat.lt_or_ge u t with hut | htu
      · exact hserved u hu (by omega) hrequest
      · obtain ⟨j, rfl⟩ := Nat.exists_eq_add_of_le htu
        exact ⟨hlate (t + j) (hduring j (by omega)) hrequest,
          (hmapped j (by omega)).window hrequest⟩

/--
An instruction that keeps to the memories is executed: the computer comes back to `IF` with
its effect.
-/
theorem executes (hserved : Served tr t)
    (hint : ∀ k, During tr t k → (tr k).cpu.privilege.interrupt = false)
    (haligned : i.dataAligned (arch m tr t) = true) :
    ∃ v, t < v ∧ (tr v).phase = .IF ∧ arch m tr v = execute i (arch m tr t) ∧
      ∀ k, t < k → k < v → (tr k).phase ≠ .IF := by
  obtain ⟨env, sys, hrun, hstart, -, hsim⟩ := refines_bus h ht hIF
  have hserved' := hserved.fetch hIF hfetch (hlate t ⟨Nat.le_refl t, fun j _ _ => by omega⟩)
  have halike (k : Nat) (hbusy : ∀ j, 0 < j → j < k → (sys j).core.phase ≠ .IF) :
      AlikeAt m tr sys t k :=
    alike_during h ht hIF hlate hpc hi hfetch hconfined hserved' hsim hbusy
  have hfirst : AlikeAt m tr sys t 0 := halike 0 fun j _ hj => absurd hj j.not_lt_zero
  have harch : (sys 0).arch = arch m tr t := (arch_of_alike hfirst).symm
  have hIF' : (sys 0).core.phase = .IF := (phase_of_alike hfirst).trans hIF
  have hint' : System.Uninterrupted sys 0 := by
    intro k _ hbusy
    have hduring : During tr t (t + k) :=
      during_of_alike (fun l hl => halike l fun j hj hjl => hbusy j hj (by omega))
        fun l hl hlk => hbusy l hl hlk
    rw [(halike k fun j hj hjk => hbusy j hj hjk.le).1.privilege]
    exact hint (t + k) hduring
  obtain ⟨u, hpath, hissued⟩ := System.exists_issued hrun hIF' hint'
  have hword := System.fetch_eq hissued (by
    have hpc' := hpc
    rw [← harch] at hpc'
    exact hpc')
  obtain ⟨v, hv, hIFv, hexecuted⟩ := System.executes_of_decode hrun hissued hpath (i := i)
    (by rw [← hword, harch]; exact hi) (by rw [harch]; exact haligned)
  have hlike := halike v fun j hj hjv => (hv.running j hj hjv).1
  refine ⟨t + v, by have := hv.lt; omega, ?_, ?_, fun k htk hkv => ?_⟩
  · rw [← hIFv]
    exact (phase_of_alike hlike).symm
  · rw [arch_of_alike hlike, ← harch, ← hexecuted]
  · obtain ⟨k, rfl⟩ := Nat.exists_eq_add_of_le htk.le
    have hlike' := halike k fun j hj hjk => (hv.running j hj (by omega)).1
    change (tr (t + k)).phase ≠ .IF
    rw [← phase_of_alike hlike']
    exact (hv.running k (by omega) (by omega)).1

end Executes

/-- With interrupts masked, an instruction of RV32I is not interrupted. -/
theorem quiet_during (h : Starts x m ins tr) (ht : 0 < t) (hserved : Served tr (t + 1))
    (hIF : (tr t).phase = .IF) (hpc : byteOffset (arch m tr t).pc = 0#2)
    (hi : decode (arch m tr t).fetch = some i) (hfetch : Readable (wordIndex (arch m tr t).pc))
    (hquiet : (tr t).cpu.privilege.Quiet) (hduring : During tr t k) :
    (tr k).cpu.privilege.Quiet ∧ (tr (k + 1)).cpu.privilege.Quiet := by
  have hIF' : (tr t).core.phase = .IF := hIF
  obtain ⟨r, hbusy⟩ := h.exists_busy ht hserved hIF hfetch
  -- what can be decoded is no instruction of `OP_PRIV`
  have hop (k : Nat) (htk : t < k) (hduring : During tr t k)
      (hphase : (tr k).core.phase ≠ .MEM_WAIT) : (tr k).core.op ≠ Core.OP_PRIV := by
    have hinstruction : (tr k).core.instruction = (arch m tr t).fetch := by
      rcases (hbusy k htk hduring).fetched with ⟨-, hwait, -⟩ | ⟨hinstruction, -⟩
      · exact absurd hwait hphase
      · rw [hinstruction, fetch_arch hpc]
    have hencodes := encodes_of_decode hi
    rw [← hinstruction] at hencodes
    intro hpriv
    rw [Core.op] at hpriv
    cases hencodes <;> simp_all
  have hnext (k : Nat) (htk : t ≤ k) (hduring : During tr t k)
      (hquiet : (tr k).cpu.privilege.Quiet) (htrap : (tr k).core.phase ≠ .INTERRUPT ∧
        (tr k).core.phase ≠ .EXCEPTION ∧ (tr k).core.phase ≠ .MRET) :
      (tr (k + 1)).cpu.privilege.Quiet := by
    rw [h.isRun.next k]
    refine Multicyc.quiet_cycle hquiet (h.isRun.running k (by omega)) (fun hWB => ?_) htrap
    have hWB' : (tr k).core.phase = .WB := hWB
    have hne : t ≠ k := by
      rintro rfl
      rw [hIF'] at hWB'
      cases hWB'
    exact hop k (by omega) hduring (by simp [hWB'])
  have hall (k : Nat) (htk : t ≤ k) (hduring : During tr t k) :
      (tr k).cpu.privilege.Quiet ∧ (tr k).core.phase ≠ .INTERRUPT ∧
        (tr k).core.phase ≠ .EXCEPTION ∧ (tr k).core.phase ≠ .MRET := by
    induction k, htk using Nat.le_induction with
    | base => exact ⟨hquiet, by simp [hIF']⟩
    | succ k htk ih =>
        have hbefore : During tr t k := ⟨htk, fun j htj hjk => hduring.2 j htj (by omega)⟩
        obtain ⟨hquiet', htrap⟩ := ih hbefore
        refine ⟨hnext k htk hbefore hquiet' htrap, ?_⟩
        by_contra htrap'
        have hcore := h.core_succ (t := k) (by omega)
        have horigin := Core.origin_of_trap (i := (tr k).coreIn x (ins k))
          (h.coherent (t := k) (by omega)) (by rw [← hcore]; tauto)
        have hlow : ((tr k).coreIn x (ins k)).interrupt = false := hquiet'.interrupt
        rcases htk.eq_or_lt with rfl | hlt
        · rw [hIF'] at horigin
          cases horigin.1
        · refine hop k hlt hbefore (by simp [horigin.1]) ?_
          simpa [hlow] using horigin.2
  obtain ⟨hquiet', htrap⟩ := hall k hduring.1 hduring
  exact ⟨hquiet', hnext k hduring.1 hduring hquiet' htrap⟩

private theorem quiet_one (h : Starts x m ins tr) (hmie : (tr 0).cpu.privilege.mstatusMie = false) :
    (tr 1).cpu.privilege.Quiet := by
  rw [h.isRun.next 0]
  obtain ⟨-, hmie', hstate, hinterrupt, hpending, -⟩ := Multicyc.cycle_of_rst
    (i := (tr 0).cpuIn (ins 0)) h.isRun.rst x (tr 0).cpu
  refine ⟨hmie', hpending.trans ?_, hstate, hinterrupt⟩
  rw [Privilege.intCond, hmie]
  rfl

private theorem pc_one (h : Starts x m ins tr) : (tr 1).core.pc = startAddr := by
  rw [h.isRun.next 0]
  change ((tr 0).core.cycle ((tr 0).coreIn x (ins 0))).pc = _
  have hrst : ((tr 0).coreIn x (ins 0)).rst = true := h.isRun.rst
  simp [Core.cycle, Core.reset, hrst]

end Starts

/-- In cycle `t` the computer begins the step that takes the program on from `s`. -/
structure Begins (m : ChipBytes) (tr : Nat → Computer) (s : Arch) (t : Nat) : Prop where
  pos : 0 < t
  phase : (tr t).phase = .IF
  state : arch m tr t = s
  aligned : byteOffset s.pc = 0#2
  quiet : (tr t).cpu.privilege.Quiet
  mapped : ∀ u, 0 < u → u < t → (tr u).Mapped
  late : ∀ u, 0 < u → u < t → (tr u).hostIn.request = true → 259 ≤ u

theorem Begins.served {s : Arch} (hb : Begins m tr s t) : Served tr t :=
  served_of_mapped hb.mapped hb.late

theorem Begins.one (h : Starts x m ins tr) (hmie : (tr 0).cpu.privilege.mstatusMie = false) :
    Begins m tr (arch m tr 1) 1 where
  pos := Nat.one_pos
  phase := h.phase_one
  state := rfl
  aligned := by
    change byteOffset (tr 1).core.pc = 0#2
    rw [h.pc_one]
    decide
  quiet := h.quiet_one hmie
  mapped u hu hlt := by omega
  late u hu hlt := by omega

theorem Begins.unrequested {s s' : Arch} (hb : Begins m tr s t) (h : Starts x m ins tr)
    (hstep : Isa.step s = .ok s') (hkeeps : KeepsToMemory s) (hleaves : LeavesChip s)
    (hduring : During tr t k) : (tr k).hostIn.request = false := by
  obtain ⟨i, hi, -⟩ := of_step_ok hstep
  obtain ⟨hpos, hIF, rfl, hpc, -, hmapped, hearly⟩ := hb
  have hserved : Served tr t := served_of_mapped hmapped hearly
  refine h.quiet_of_leaves hpos (hserved.fetch hIF hkeeps.1 fun hrequest => ?_) hIF hpc hi hkeeps
    hleaves hduring
  have hwindow := (mapped_IF hIF hkeeps.1).window hrequest
  rw [a_IF hIF] at hwindow
  exact absurd hwindow hleaves.1

/-- One step of the program, which uses the cache only when that is ready. -/
theorem Begins.next {s s' : Arch} (hb : Begins m tr s t) (h : Starts x m ins tr)
    (hstep : Isa.step s = .ok s') (hkeeps : KeepsToMemory s)
    (hlate : ∀ k, During tr t k → (tr k).hostIn.request = true → 259 ≤ k) :
    ∃ v, t < v ∧ Begins m tr s' v ∧ ∀ k, t < k → k < v → (tr k).phase ≠ .IF := by
  obtain ⟨i, hi, hdata, htarget, hresult⟩ := of_step_ok hstep
  have haligned := aligned_execute hb.aligned htarget
  rw [← hresult] at haligned
  obtain ⟨hpos, hIF, rfl, hpc, hquiet, hmapped, hearly⟩ := hb
  have hserved : Served tr t := served_of_mapped hmapped hearly
  have hserved' := hserved.fetch hIF hkeeps.1 (hlate t ⟨Nat.le_refl t, fun j _ _ => by omega⟩)
  have hlow (k : Nat) (hduring : During tr t k) :=
    h.quiet_during hpos hserved' hIF hpc hi hkeeps.1 hquiet hduring
  obtain ⟨v, htv, hIFv, hexecuted, hbetween⟩ := h.executes hpos hIF hlate hpc hi
    hkeeps.1 (hkeeps.2 i hi) hserved (fun k hduring => (hlow k hduring).1.interrupt) hdata
  have hduring (k : Nat) (htk : t ≤ k) (hkv : k < v) : During tr t k :=
    ⟨htk, fun j htj hjk => hbetween j htj (by omega)⟩
  refine ⟨v, htv, ⟨by omega, hIFv, ?_, haligned, ?_, fun u hu huv => ?_, fun u hu huv => ?_⟩,
    hbetween⟩
  · rw [hexecuted, hresult]
  · obtain ⟨k, rfl⟩ := Nat.exists_eq_add_of_lt htv
    exact (hlow (t + k) (hduring _ (by omega) (by omega))).2
  · rcases Nat.lt_or_ge u t with hut | htu
    · exact hmapped u hu hut
    · exact h.mapped_during hpos hserved' hIF hpc hi hkeeps.1 (hkeeps.2 i hi) (hduring u htu huv)
  · rcases Nat.lt_or_ge u t with hut | htu
    · exact hearly u hu hut
    · exact hlate u (hduring u htu huv)

namespace Starts

/--
The computer runs its program: from a reset on that masks the interrupts, it is in `IF` once
for each step that the instruction set prescribes, in their order, with the program counter,
the registers and the memory that the step begins with; once the cache is ready, that memory
is what the boot ROM, the distributed RAM, the cache and the chip hold together.
-/
theorem runs_program (h : Starts x m ins tr) (hmie : (tr 0).cpu.privilege.mstatusMie = false)
    (hearly : ∀ t, 0 < t → t < 259 → (tr t).hostIn.request = false)
    {prog : Nat → Arch} (hstart : prog 0 = arch m tr 1)
    (hstep : ∀ n, Isa.step (prog n) = .ok (prog (n + 1)))
    (hmemory : ∀ n, KeepsToMemory (prog n)) :
    ∃ time : Nat → Nat, StrictMono time ∧
      (∀ n, 0 < time n ∧ (tr (time n)).phase = .IF ∧ arch m tr (time n) = prog n ∧
        (259 ≤ time n → (prog n).mem = bytesOf ((tr (time n)).view m))) ∧
      ∀ t, 0 < t → (tr t).phase = .IF → ∃ n, time n = t := by
  have hnext (n t : Nat) (hb : Begins m tr (prog n) t) : ∃ v, t < v ∧
      Begins m tr (prog (n + 1)) v ∧ ∀ k, t < k → k < v → (tr k).phase ≠ .IF := by
    refine hb.next h (hstep n) (hmemory n) fun k hduring hrequest => ?_
    by_contra hlt
    have hpos := hb.pos
    have htk := hduring.1
    rw [hearly k (by omega) (by omega)] at hrequest
    cases hrequest
  choose! next hnext using hnext
  let time (n : Nat) : Nat := Nat.rec 1 next n
  have hbegins (n : Nat) : Begins m tr (prog n) (time n) := by
    induction n with
    | zero => exact hstart ▸ Begins.one h hmie
    | succ n ih => exact (hnext n (time n) ih).2.1
  have hmono : StrictMono time :=
    strictMono_nat_of_lt_succ fun n => (hnext n (time n) (hbegins n)).1
  have hall (n t : Nat) (ht : 0 < t) (htn : t < time n) (hIF : (tr t).phase = .IF) :
      ∃ j, time j = t := by
    induction n with
    | zero =>
        have hone : time 0 = 1 := rfl
        omega
    | succ n ih =>
        rcases Nat.lt_trichotomy t (time n) with hlt | heq | hgt
        · exact ih hlt
        · exact ⟨n, heq.symm⟩
        · exact absurd hIF ((hnext n (time n) (hbegins n)).2.2 t hgt htn)
  refine ⟨time, hmono, fun n => ?_, fun t ht hIF =>
    hall (t + 1) t ht (Nat.lt_of_succ_le hmono.le_apply) hIF⟩
  obtain ⟨hpos, hIF, harch, -⟩ := hbegins n
  refine ⟨hpos, hIF, harch, fun hlate => ?_⟩
  rw [← harch, ← h.memory_eq_view hlate (hbegins n).served (by rw [hIF]; decide)]
  rfl

/-- A program that leaves the chip alone for long enough leaves the cache alone. -/
theorem runs_of_program (h : Starts x m ins tr) (hmie : (tr 0).cpu.privilege.mstatusMie = false)
    {prog : Nat → Arch} (hstart : prog 0 = arch m tr 1)
    (hstep : ∀ n, Isa.step (prog n) = .ok (prog (n + 1)))
    (hmemory : ∀ n, KeepsToMemory (prog n)) (hleaves : ∀ n, n < 259 → LeavesChip (prog n)) :
    Runs x m ins tr ∧ ∀ t, 0 < t → (tr t).Mapped := by
  have hbegins (n : Nat) : ∃ t, n < t ∧ Begins m tr (prog n) t := by
    induction n with
    | zero => exact ⟨1, Nat.one_pos, hstart ▸ Begins.one h hmie⟩
    | succ n ih =>
        obtain ⟨t, hnt, hb⟩ := ih
        have hlate (k : Nat) (hduring : During tr t k) (hrequest : (tr k).hostIn.request = true) :
            259 ≤ k := by
          rcases Nat.lt_or_ge n 259 with hlt | hge
          · rw [hb.unrequested h (hstep n) (hmemory n) (hleaves n hlt) hduring] at hrequest
            cases hrequest
          · have htk := hduring.1
            omega
        obtain ⟨v, htv, hb', -⟩ := hb.next h (hstep n) (hmemory n) hlate
        exact ⟨v, by omega, hb'⟩
  have hmapped (t : Nat) (ht : 0 < t) : (tr t).Mapped := by
    obtain ⟨v, htv, hb⟩ := hbegins t
    exact hb.mapped t ht htv
  refine ⟨⟨h, fun t ht hlt => ?_, fun t ht => (hmapped t ht).window⟩, hmapped⟩
  by_contra hrequest
  obtain ⟨v, hv, hb⟩ := hbegins 259
  have hle := hb.late t ht (by omega) (by simpa using hrequest)
  omega

end Starts

end Run

/-! ## A program that uses the RAM and the chip -/

/--
Behind instructions that do nothing, a word goes through the chip and through the RAM, again
and again.
-/
def copyInstr (k : Nat) : Instr :=
  if k = 1017 then .lui 1 0x10000
  else if k = 1018 then .lui 2 0x20000
  else if k = 1019 then .store .sw 2 1 0
  else if k = 1020 then .load .lw 3 2 0
  else if k = 1021 then .store .sw 1 3 0
  else if k = 1022 then .load .lw 4 1 0
  else if k = 1023 then .jal 0 (-24)
  else .opImm .add 0 0 0

def copyCode (k : Nat) : Word :=
  if k = 1017 then 0x100000b7
  else if k = 1018 then 0x20000137
  else if k = 1019 then 0x00112023
  else if k = 1020 then 0x00012183
  else if k = 1021 then 0x0030a023
  else if k = 1022 then 0x0000a203
  else if k = 1023 then 0xfe9ff06f
  else 0x00000013

private theorem decode_copyCode (k : Nat) : decode (copyCode k) = some (copyInstr k) := by
  unfold copyCode copyInstr
  split_ifs <;> decide

def romAddress (k : Nat) : Word := startAddr + BitVec.ofNat 32 (4 * k)

def following (k : Nat) : Nat := if k = 1023 then 1017 else k + 1

private theorem toNat_romAddress {k : Nat} (h : k < 1024) :
    (romAddress k).toNat = 0xf0000000 + 4 * k := by
  have hstart : startAddr.toNat = 0xf0000000 := rfl
  rw [romAddress, BitVec.toNat_add, BitVec.toNat_ofNat, hstart]
  omega

private theorem romAddress_following {k : Nat} (h : k < 1023) :
    romAddress k + 4 = romAddress (following k) := by
  have hnext : following k = k + 1 := if_neg (by omega)
  apply BitVec.eq_of_toNat_eq
  have hfour : (4 : Word).toNat = 4 := rfl
  rw [hnext, toNat_romAddress (by omega), BitVec.toNat_add, toNat_romAddress (by omega), hfour]
  omega

private theorem byteOffset_romAddress {k : Nat} (h : k < 1024) :
    byteOffset (romAddress k) = 0#2 := by
  apply BitVec.eq_of_toNat_eq
  rw [toNat_byteOffset, toNat_romAddress h]
  simp only [BitVec.toNat_ofNat]
  omega

private theorem romWindow_romAddress {k : Nat} (h : k < 1024) :
    RomWindow (wordIndex (romAddress k)) := by
  apply BitVec.eq_of_toNat_eq
  have hwindow : (0xf0000 : BitVec 20).toNat = 0xf0000 := rfl
  rw [BitVec.extractLsb'_toNat, toNat_wordIndex, toNat_romAddress h, Nat.shiftRight_eq_div_pow,
    hwindow]
  omega

private theorem extract_romAddress {k : Nat} (h : k < 1024) :
    (wordIndex (romAddress k)).extractLsb' 0 10 = BitVec.ofNat 10 k := by
  apply BitVec.eq_of_toNat_eq
  rw [BitVec.extractLsb'_toNat, toNat_wordIndex, toNat_romAddress h, Nat.shiftRight_eq_div_pow]
  simp only [BitVec.toNat_ofNat]
  omega

/-- Where the program is, and how far the word has come. -/
structure Copies (k : Nat) (mem : WordMemory) (s : Arch) : Prop where
  lt : k < 1024
  pc : s.pc = romAddress k
  bytes : s.mem = bytesOf mem
  rom : ∀ j, j < 1024 → mem (wordIndex (romAddress j)) = copyCode j
  ram : 1018 ≤ k → s.x 1 = 0x10000000
  chip : 1019 ≤ k → s.x 2 = 0x20000000
  sent : 1020 ≤ k → mem (wordIndex 0x20000000) = 0x10000000
  back : 1021 ≤ k → s.x 3 = 0x10000000
  kept : 1022 ≤ k → mem (wordIndex 0x10000000) = 0x10000000
  copied : 1023 ≤ k → s.x 4 = 0x10000000

section Copies

variable {k : Nat} {mem : WordMemory} {s : Arch}

theorem Copies.loadWord (h : Copies k mem s) {a : Word} (ha : byteOffset a = 0#2) :
    s.loadWord a = mem (wordIndex a) := by
  rw [Arch.loadWord, h.bytes, word_of_bytes mem ha]

theorem Copies.decode (h : Copies k mem s) : decode s.fetch = some (copyInstr k) := by
  rw [Arch.fetch, h.pc, h.loadWord (byteOffset_romAddress h.lt), h.rom k h.lt, decode_copyCode]

private theorem storeWord_rom {a : Word} (ha : a.toNat < 0xf0000000) {j : Nat} (hj : j < 1024)
    (mem : WordMemory) (v : Word) :
    storeWord mem (wordIndex a) v (wordIndex (romAddress j)) = mem (wordIndex (romAddress j)) := by
  refine if_neg fun heq => ?_
  have hnat := congrArg BitVec.toNat heq
  rw [toNat_wordIndex, toNat_wordIndex, toNat_romAddress hj] at hnat
  omega

theorem Copies.next (h : Copies k mem s) :
    ∃ mem', Copies (following k) mem' (execute (copyInstr k) s) := by
  have hlt := h.lt
  have hload {a : Word} (ha : byteOffset a = 0#2) : s.loadWord a = mem (wordIndex a) :=
    h.loadWord ha
  have hloads :=
    And.intro (hload (a := 0x20000000) (by decide)) (hload (a := 0x10000000) (by decide))
  obtain ⟨-, hpc, hbytes, hrom, hram, hchip, hsent, hback, hkept, -⟩ := h
  have hnext (hk : k < 1023) : s.pc + 4 = romAddress (following k) := by
    rw [hpc, romAddress_following hk]
  rcases (by omega : k < 1017 ∨ k = 1017 ∨ k = 1018 ∨ k = 1019 ∨ k = 1020 ∨ k = 1021 ∨
    k = 1022 ∨ k = 1023) with hk | rfl | rfl | rfl | rfl | rfl | rfl | rfl
  · have hinstr : copyInstr k = .opImm .add 0 0 0 := by
      unfold copyInstr
      split_ifs
      all_goals first | omega | rfl
    have hfollowing : following k ≤ 1017 := by
      unfold following
      split_ifs <;> omega
    rw [hinstr]
    exact ⟨mem, by omega, hnext (by omega), hbytes, hrom, fun _ => by omega, fun _ => by omega,
      fun _ => by omega, fun _ => by omega, fun _ => by omega, fun _ => by omega⟩
  · refine ⟨mem, ?_⟩
    constructor <;> simp_all [copyInstr, following, execute, Arch.setPc, Arch.setReg]
  · refine ⟨mem, ?_⟩
    constructor <;> simp_all [copyInstr, following, execute, Arch.setPc, Arch.setReg]
  · refine ⟨storeWord mem (wordIndex 0x20000000) 0x10000000, ?_⟩
    have hstored := bytesOf_storeWord_sw (a := 0x20000000) hbytes (by decide) 0x10000000
    have hrom' (j : Nat) (hj : j < 1024) := storeWord_rom (a := 0x20000000) (by decide) hj mem
    constructor <;>
      simp_all [copyInstr, following, execute, Arch.setPc, Arch.setReg, storeOp_apply_x]
  · refine ⟨mem, ?_⟩
    constructor <;> simp_all [copyInstr, following, execute, Arch.setPc, Arch.setReg, LoadOp.eval]
  · refine ⟨storeWord mem (wordIndex 0x10000000) 0x10000000, ?_⟩
    have hstored := bytesOf_storeWord_sw (a := 0x10000000) hbytes (by decide) 0x10000000
    have hrom' (j : Nat) (hj : j < 1024) := storeWord_rom (a := 0x10000000) (by decide) hj mem
    have hsent' : storeWord mem (wordIndex 0x10000000) 0x10000000 (wordIndex 0x20000000) =
        mem (wordIndex 0x20000000) := if_neg (by decide)
    constructor <;>
      simp_all [copyInstr, following, execute, Arch.setPc, Arch.setReg, storeOp_apply_x]
  · refine ⟨mem, ?_⟩
    constructor <;> simp_all [copyInstr, following, execute, Arch.setPc, Arch.setReg, LoadOp.eval]
  · refine ⟨mem, ?_⟩
    have hback : romAddress 1023 + 4294967272#32 = romAddress 1017 := by decide
    constructor <;> simp_all [copyInstr, following, execute, Arch.setPc, Arch.setReg]

private theorem Copies.chip_address (h : Copies k mem s) (hk : 1019 ≤ k) :
    s.x 2 + (0#12).signExtend 32 = 0x20000000 := by
  rw [h.chip hk]
  decide

private theorem Copies.ram_address (h : Copies k mem s) (hk : 1018 ≤ k) :
    s.x 1 + (0#12).signExtend 32 = 0x10000000 := by
  rw [h.ram hk]
  decide

private theorem Copies.keepsToMemory (h : Copies k mem s) : KeepsToMemory s := by
  have hlt := h.lt
  refine ⟨?_, fun i hi => ?_⟩
  · rw [h.pc]
    exact .inr (.inr (romWindow_romAddress hlt))
  · obtain rfl : copyInstr k = i := by simpa [h.decode] using hi
    have hchip (hk : 1019 ≤ k) : Writable (wordIndex (s.x 2 + (0#12).signExtend 32)) := by
      rw [h.chip_address hk]
      exact .inl (by decide)
    have hram (hk : 1018 ≤ k) : Writable (wordIndex (s.x 1 + (0#12).signExtend 32)) := by
      rw [h.ram_address hk]
      exact .inr (by decide)
    unfold copyInstr
    split_ifs with h0 h1 h2 h3 h4 h5
    · trivial
    · trivial
    · exact hchip (by omega)
    · exact (hchip (by omega)).imp_right .inl
    · exact hram (by omega)
    · exact (hram (by omega)).imp_right .inl
    · trivial
    · trivial

private theorem Copies.leavesChip (h : Copies k mem s) (hk : k < 1019) : LeavesChip s := by
  refine ⟨?_, fun i hi => ?_⟩
  · rw [h.pc]
    exact not_chip_of_rom (romWindow_romAddress h.lt)
  · obtain rfl : copyInstr k = i := by simpa [h.decode] using hi
    unfold copyInstr
    split_ifs <;> first | trivial | omega

theorem Copies.step (h : Copies k mem s) : Isa.step s = .ok (execute (copyInstr k) s) := by
  have hlt := h.lt
  refine System.step_eq_ok h.decode ?_ ?_
  · have hchip (hk : 1019 ≤ k) :
        (s.x 2 + (0#12).signExtend 32).extractLsb' 0 2 = 0#2 := by
      rw [h.chip_address hk]
      decide
    have hram (hk : 1018 ≤ k) :
        (s.x 1 + (0#12).signExtend 32).extractLsb' 0 2 = 0#2 := by
      rw [h.ram_address hk]
      decide
    unfold copyInstr
    split_ifs with h0 h1 h2 h3 h4 h5
    · rfl
    · rfl
    · exact beq_iff_eq.mpr (hchip (by omega))
    · exact beq_iff_eq.mpr (hchip (by omega))
    · exact beq_iff_eq.mpr (hram (by omega))
    · exact beq_iff_eq.mpr (hram (by omega))
    · rfl
    · rfl
  · obtain ⟨_, hnext⟩ := h.next
    have haligned := byteOffset_romAddress hnext.lt
    rw [← hnext.pc] at haligned
    cases hi : copyInstr k with
    | jal _ _ | jalr _ _ _ | branch _ _ _ _ =>
        rw [hi] at haligned
        simp [Instr.targetAligned, haligned]
    | _ => rfl

end Copies

def copying : Computer where
  reset := ⟨false, false, false⟩
  cpu := Multicyc.boot
  bootrom := ⟨fun a => byteSwap (copyCode a.toNat), 0⟩
  distram := ⟨fun _ => 0, 0⟩
  cached := CachedMemory.poweredUp

def copyIns (t : Nat) : ComputerIn where
  rst := t == 0
  eip := false
  eipIstimer := false
  devices := ⟨0, 0, 0, 0, 0, 0, 0, true, 0, 0, 0⟩
  wires := ⟨0, 0⟩
  wires' := ⟨0, 0⟩

def copyX : ReadX where
  mstatus := 0
  mie := 0
  mtvec := 0
  mepc := 0
  mip := false

def zeros : ChipBytes := fun _ => 0

def copyRun : Nat → Computer := trace (fun i s => s.cycle copyX i) copyIns copying

def copyProg : Nat → Arch
  | 0 => arch zeros copyRun 1
  | n + 1 => execute (copyInstr (following^[n] 0)) (copyProg n)

private theorem starts_copyRun : Starts copyX zeros copyIns copyRun := by
  refine ⟨⟨fun _ => rfl, rfl, fun t ht => ?_⟩, rfl, rfl⟩
  simp only [copyIns, beq_eq_false_iff_ne]
  omega

private theorem copies_copyProg (n : Nat) : ∃ mem, Copies (following^[n] 0) mem (copyProg n) := by
  induction n with
  | zero =>
      refine ⟨memory zeros copyRun 1, by decide, starts_copyRun.pc_one, rfl, fun j hj => ?_,
        ?_, ?_, ?_, ?_, ?_, ?_⟩
      · have hwindow := romWindow_romAddress hj
        have hrom : (copyRun 1).bootrom.mem = copying.bootrom.mem := rfl
        rw [memory, words, if_neg (not_chip_of_rom hwindow), if_neg (not_ram_of_rom hwindow),
          if_pos hwindow, hrom, extract_romAddress hj]
        change byteSwap (byteSwap (copyCode (BitVec.ofNat 10 j).toNat)) = copyCode j
        rw [byteSwap_byteSwap, BitVec.toNat_ofNat, Nat.mod_eq_of_lt hj]
      all_goals
        intro hk
        exact absurd hk (by decide)
  | succ n ih =>
      obtain ⟨mem, hcopies⟩ := ih
      rw [Function.iterate_succ_apply']
      exact hcopies.next

private theorem iterate_following {n : Nat} (h : n ≤ 1023) : following^[n] 0 = n := by
  induction n with
  | zero => rfl
  | succ n ih => rw [Function.iterate_succ_apply', ih (by omega), following, if_neg (by omega)]

private theorem step_copyProg (n : Nat) : Isa.step (copyProg n) = .ok (copyProg (n + 1)) := by
  obtain ⟨mem, hcopies⟩ := copies_copyProg n
  exact hcopies.step

private theorem keepsToMemory_copyProg (n : Nat) : KeepsToMemory (copyProg n) := by
  obtain ⟨mem, hcopies⟩ := copies_copyProg n
  exact hcopies.keepsToMemory

private theorem runs_copyRun :
    Runs copyX zeros copyIns copyRun ∧ ∀ t, 0 < t → (copyRun t).Mapped := by
  refine starts_copyRun.runs_of_program rfl rfl step_copyProg keepsToMemory_copyProg fun n hn => ?_
  obtain ⟨mem, hcopies⟩ := copies_copyProg n
  rw [iterate_following (by omega)] at hcopies
  exact hcopies.leavesChip (by omega)

/-- The CPU sends the word to the chip and to the RAM, and gets it back. -/
theorem refines_system_copying : ∃ (env : Nat → Env) (sys : Nat → System),
    System.IsRun copyX env sys ∧ ∀ k, (copyRun (1 + k)).cpu.Like (sys k).cpu ∧
      (sys k).bus.mem = memory zeros copyRun (1 + k) := by
  obtain ⟨hruns, hmapped⟩ := runs_copyRun
  obtain ⟨env, sys, hrun, -, -, hlike⟩ := refines_system hruns Nat.one_pos hruns.phase_one
  exact ⟨env, sys, hrun, fun k => hlike k fun j _ => hmapped (1 + j) (by omega)⟩

theorem runs_program_copying : ∃ t, (copyRun t).phase = .IF ∧
    (copyRun t).core.pc = romAddress 1023 ∧ (copyRun t).core.regfile.read 4 = 0x10000000 := by
  obtain ⟨time, -, hbegins, -⟩ := Starts.runs_program starts_copyRun rfl runs_copyRun.1.early rfl
    step_copyProg keepsToMemory_copyProg
  obtain ⟨-, hIF, harch, -⟩ := hbegins 1023
  obtain ⟨mem, hcopies⟩ := copies_copyProg 1023
  rw [iterate_following (Nat.le_refl _), ← harch] at hcopies
  exact ⟨time 1023, hIF, hcopies.pc, hcopies.copied (Nat.le_refl _)⟩

end Computer

end PComputer.Rtl
