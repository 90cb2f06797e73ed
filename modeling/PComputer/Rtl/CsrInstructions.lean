import Mathlib.Tactic.IntervalCases
import PComputer.Foundation.Clocked
import PComputer.Isa.Zicsr
import PComputer.Rtl.Decode

/-!
# CSR instructions in the core

`EX` saves the old value and computes the new one, `WB` writes both back.  The ALU
has no and-not: `CSRRC` and `CSRRCI` keep the bits that they should clear.
-/

namespace PComputer.Rtl

open PComputer.Foundation PComputer.Isa

namespace Core

/-! ## The ports of the CSR unit -/

def csrA (c : Core) : BitVec 12 := c.instruction.extractLsb' 20 12

def csrD (c : Core) : Word := c.ALUOut

def csrSource (c : Core) (immediate : Bool) : Word := if immediate then c.csrimm else c.readData1

structure HoldsCsr (c : Core) (o : CsrOp) (immediate : Bool) : Prop where
  op : c.op = OP_PRIV
  funct3 : csrOp? c.funct3 = some (o, immediate)

variable {c : Core} {o : CsrOp} {immediate : Bool} {i : CoreIn}

theorem HoldsCsr.congr {c' : Core} (h : c.HoldsCsr o immediate)
    (hinstruction : c'.instruction = c.instruction) : c'.HoldsCsr o immediate :=
  ⟨by rw [Core.op, hinstruction]; exact h.op, by rw [Core.funct3, hinstruction]; exact h.funct3⟩

private theorem HoldsCsr.funct3_eq (h : c.HoldsCsr o immediate) : c.funct3 = o.funct3 immediate :=
  csrOp?_some h.funct3

theorem HoldsCsr.privCsr (h : c.HoldsCsr o immediate) : c.privCsr = true := by
  rw [Core.privCsr, h.funct3_eq]
  cases o <;> cases immediate <;> rfl

/-! ## One phase at a time -/

theorem HoldsCsr.phaseNextID_RF (h : c.HoldsCsr o immediate) : c.phaseNextID_RF false = .EX := by
  have hpriv : ¬ c.funct3 = 0#3 := by simpa [Core.privCsr] using h.privCsr
  simp [Core.phaseNextID_RF, h.op, privWfi, privMret, privSfencevma, privEcall, privEbreak, hpriv]

def csrALUm : CsrOp → BitVec 4
  | .csrrw => 0b1111
  | .csrrs => 0b0110
  | .csrrc => 0b0111

theorem HoldsCsr.controlEX (h : c.HoldsCsr o immediate) :
    c.controlEX =
      { RV32MStart := true
        ALUSrcA := if immediate then 2 else 0
        ALUSrcB := 2
        ALUm := csrALUm o
        csrsave := true } := by
  have hcsr := h.privCsr
  have hALUSrcA : c.bit 14 = immediate := by
    rw [bit14_eq, h.funct3_eq]
    cases o <;> cases immediate <;> rfl
  have hALUm : (if c.bit 13 then 0b011#3 ++ c.instruction.extractLsb' 12 1 else 0b1111) =
      csrALUm o := by
    have hlow : c.instruction.extractLsb' 12 1 = c.funct3.extractLsb' 0 1 := by
      ext k hk
      simp [Core.funct3]
      omega
    rw [hlow, bit13_eq, h.funct3_eq]
    cases o <;> cases immediate <;> rfl
  simp only [Core.controlEX, h.op, hcsr, hALUm, hALUSrcA]
  simp

def csrResult : CsrOp → Word → Word → Word
  | .csrrw, _, source => source
  | .csrrs, v, source => source ||| v
  | .csrrc, v, source => source &&& v

private theorem alu_csrALUm (o : CsrOp) (v source : Word) :
    alu (csrALUm o) source v = csrResult o v source := by
  cases o <;> rfl

theorem HoldsCsr.controlWB (h : c.HoldsCsr o immediate) :
    c.controlWB = { RegWrite := true, RegSrc := 8, csrWe := true } := by
  simp [Core.controlWB, h.op, h.privCsr]

structure Decoded (c c' : Core) : Prop where
  phase : c'.phase = .EX
  pc : c'.pc = c.pc + 4
  instruction : c'.instruction = c.instruction
  regfile : c'.regfile = c.regfile
  A : c'.A = c.readData1

theorem HoldsCsr.decoded (h : c.HoldsCsr o immediate) (hphase : c.phase = .ID_RF)
    (hrst : i.rst = false) (hint : i.interrupt = false) : c.Decoded (c.cycle i) := by
  refine ⟨?_, ?_, ?_, ?_, ?_⟩ <;>
    simp [Core.cycle, hrst, Core.phaseNext, hphase, hint, h.phaseNextID_RF, Core.control,
      Core.newpc]

structure Saved (c : Core) (o : CsrOp) (v source : Word) (c' : Core) : Prop where
  phase : c'.phase = .WB
  pc : c'.pc = c.pc
  instruction : c'.instruction = c.instruction
  regfile : c'.regfile = c.regfile
  csrr : c'.csrr = v
  csrD : c'.csrD = csrResult o v source

theorem HoldsCsr.saved (h : c.HoldsCsr o immediate) (hphase : c.phase = .EX)
    (hrst : i.rst = false) :
    c.Saved o i.csrSpo (if immediate then c.csrimm else c.A) (c.cycle i) := by
  refine ⟨?_, ?_, ?_, ?_, ?_, ?_⟩
  · simp [Core.cycle, hrst, Core.phaseNext, hphase, h.op]
  · simp [Core.cycle, hrst, hphase, Core.control, h.controlEX]
  · simp [Core.cycle, hrst, hphase, Core.control, h.controlEX]
  · simp [Core.cycle, hrst, hphase, Core.control, h.controlEX]
  · simp [Core.cycle, hrst, hphase, Core.control, h.controlEX]
  · simp only [csrD, Core.cycle, hrst, Bool.false_eq_true, if_false, Core.advance_ALUOut,
      Core.control, hphase, h.controlEX, Core.ALUIn1, Core.ALUIn2]
    rw [← alu_csrALUm]
    cases immediate <;> rfl

private theorem HoldsCsr.writtenBack (h : c.HoldsCsr o immediate) (hphase : c.phase = .WB)
    (hrst : i.rst = false) :
    (c.cycle i).phase = .IF ∧ (c.cycle i).pc = c.pc ∧
      (c.cycle i).regfile = c.regfile.cycle true (c.instruction.extractLsb' 7 5) c.csrr := by
  refine ⟨?_, ?_, ?_⟩ <;>
    simp [Core.cycle, hrst, hphase, Core.phaseNext, Core.control, h.controlWB, Core.writeData]

/-! ## The whole instruction -/

/-- The architectural effect, with `v` the value on `csr_spo` in `EX`. -/
structure CsrEffect (c : Core) (ins : Nat → CoreIn) (o : CsrOp) (immediate : Bool) : Prop where
  phases : (trace Core.cycle ins c 1).phase = .EX ∧ (trace Core.cycle ins c 2).phase = .WB ∧
    (trace Core.cycle ins c 3).phase = .IF
  pc : (trace Core.cycle ins c 3).pc = c.pc + 4
  rd : ∀ r, (trace Core.cycle ins c 3).regfile.read r =
    if r = c.instruction.extractLsb' 7 5 ∧ c.instruction.extractLsb' 7 5 ≠ 0#5 then
      (ins 1).csrSpo
    else c.regfile.read r
  /-- One write, in `WB`. -/
  csrWe : ∀ k < 3, ((trace Core.cycle ins c k).control (ins k).ready).csrWe = decide (k = 2)
  csrA : (trace Core.cycle ins c 2).csrA = c.csrA
  csrD : (trace Core.cycle ins c 2).csrD = o.eval (ins 1).csrSpo (c.csrSource immediate)

private theorem csrResult_eq_iff (o : CsrOp) (v source : Word) :
    csrResult o v source = o.eval v source ↔ o = .csrrc → v = 0#32 := by
  cases o with
  | csrrw => simp [csrResult, CsrOp.eval]
  | csrrs => simp [csrResult, CsrOp.eval, BitVec.or_comm]
  | csrrc =>
      simp only [csrResult, CsrOp.eval, true_imp_iff]
      rw [BitVec.eq_of_getLsbD_eq_iff, BitVec.eq_of_getLsbD_eq_iff]
      refine forall₂_congr fun k hk => ?_
      simp only [BitVec.getLsbD_and, BitVec.getLsbD_not, BitVec.getLsbD_zero, hk, decide_true,
        Bool.true_and]
      cases source.getLsbD k <;> cases v.getLsbD k <;> simp

theorem csrEffect_iff {ins : Nat → CoreIn} (h : c.HoldsCsr o immediate)
    (hphase : c.phase = .ID_RF) (hrst : ∀ k < 3, (ins k).rst = false)
    (hint : (ins 0).interrupt = false) :
    c.CsrEffect ins o immediate ↔ (o = .csrrc → (ins 1).csrSpo = 0#32) := by
  have h₁ : c.Decoded (trace Core.cycle ins c 1) :=
    h.decoded hphase (hrst 0 (by omega)) hint
  have hold₁ := h.congr h₁.instruction
  have h₂ : (trace Core.cycle ins c 1).Saved o (ins 1).csrSpo _ (trace Core.cycle ins c 2) :=
    hold₁.saved h₁.phase (hrst 1 (by omega))
  have hinstruction := h₂.instruction.trans h₁.instruction
  have hold₂ := h.congr hinstruction
  obtain ⟨hIF, hpc, hregfile⟩ := hold₂.writtenBack h₂.phase (hrst 2 (by omega))
  have hsource : (if immediate then (trace Core.cycle ins c 1).csrimm
      else (trace Core.cycle ins c 1).A) = c.csrSource immediate := by
    rw [csrSource, csrimm, h₁.instruction, h₁.A, csrimm]
  have hcsrD : (trace Core.cycle ins c 2).csrD =
      csrResult o (ins 1).csrSpo (c.csrSource immediate) := hsource ▸ h₂.csrD
  refine Iff.trans ⟨fun heffect => ?_, fun heq => ?_⟩ (csrResult_eq_iff o _ (c.csrSource immediate))
  · exact hcsrD.symm.trans heffect.csrD
  · refine ⟨⟨h₁.phase, h₂.phase, hIF⟩, hpc.trans (h₂.pc.trans h₁.pc), fun r => ?_, ?_, ?_,
      hcsrD.trans heq⟩
    · change (((trace Core.cycle ins c 2).cycle (ins 2)).regfile.read r) = _
      rw [hregfile, RegisterFile.read_cycle, hinstruction, h₂.csrr, h₂.regfile, h₁.regfile]
    · intro k hk
      rw [control_csrWe]
      interval_cases k
      · simp [hphase]
      · simp [h₁.phase]
      · simp [h₂.phase, hold₂.op, hold₂.privCsr]
    · rw [csrA, hinstruction, csrA]

/-! ### An instruction -/

def clearMeie : Core :=
  { (default : Core) with
    instruction := 0x304332f3
    phase := .ID_RF
    regfile := fun r => if r = 6 then 0x800 else 0 }

def csrIn (csrSpo : Word) : CoreIn where
  rst := false
  spo := 0
  ready := false
  csrSpo := csrSpo
  mtvecIn := 0
  mepcIn := 0
  interrupt := false
  RV32MReady := false
  RV32MResult := 0

private theorem holdsCsr_clearMeie : clearMeie.HoldsCsr .csrrc false := ⟨by decide, by decide⟩

/-- The other enables are written as zeros, and the one to be cleared stays. -/
theorem csrrc_keeps :
    ¬ ∀ (c : Core) (ins : Nat → CoreIn) (o : CsrOp) (immediate : Bool),
      c.HoldsCsr o immediate → c.phase = .ID_RF → (∀ k < 3, (ins k).rst = false) →
      (ins 0).interrupt = false → c.CsrEffect ins o immediate := by
  intro hclaim
  have h := (hclaim clearMeie (fun _ => csrIn 0x888) .csrrc false holdsCsr_clearMeie rfl
    (fun _ _ => rfl) rfl).csrD
  revert h
  decide

theorem csrEffect_clearMeie :
    clearMeie.CsrEffect (fun _ => csrIn 0) .csrrc false ∧
      ¬ clearMeie.CsrEffect (fun _ => csrIn 0x888) .csrrc false :=
  ⟨(csrEffect_iff holdsCsr_clearMeie rfl (fun _ _ => rfl) rfl).mpr fun _ => rfl,
    fun h => absurd ((csrEffect_iff holdsCsr_clearMeie rfl (fun _ _ => rfl) rfl).mp h rfl)
      (by decide)⟩

end Core

end PComputer.Rtl
