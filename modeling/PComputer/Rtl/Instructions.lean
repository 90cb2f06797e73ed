import PComputer.Rtl.Decode
import PComputer.Rtl.Runs
import PComputer.Rtl.SubWord

/-!
# The instructions of the multicycle core

One lemma per opcode: once the instruction is issued, the run comes back to
`IF` with the effect that the instruction set prescribes.
-/

namespace PComputer.Rtl

open PComputer.Foundation PComputer.Isa

namespace System

section Run

variable {x : ReadX} {env : Nat → Env} {tr : Nat → System} {log : List (Word × Word)} {t u : Nat}

/-! ## Instructions -/

/-- The run from time `t` comes back to `IF` having executed `i`, with these bus writes. -/
def Executes (tr : Nat → System) (t : Nat) (i : Instr) (log : List (Word × Word)) : Prop :=
  ∃ v, Path tr t log v ∧ (tr v).core.phase = .IF ∧ (tr v).arch = execute i (tr t).arch

theorem arch_x_rs1 {s s' : System} (h : s.Issued s') :
    s'.core.readData1 = s.arch.x (s'.core.instruction.extractLsb' 15 5) := by
  rw [Core.readData1, h.regfile]
  rfl

private theorem arch_x_rs2 {s s' : System} (h : s.Issued s') :
    s'.core.readData2 = s.arch.x (s'.core.instruction.extractLsb' 20 5) := by
  rw [Core.readData2, h.regfile]
  rfl

/-- `WB` ends the instruction: what it writes to `pc` and `rd` is what counts. -/
theorem executes_of_WB (hrun : IsRun x env tr) {i : Instr} (hpath : Path tr t log u)
    (hphase : (tr u).core.phase = .WB) (hmem : bytesOf (tr u).bus.mem = (execute i (tr t).arch).mem)
    (hpc : (if (tr u).core.controlWB.PCWrite then
        (tr u).core.newpc (tr u).core.controlWB ((tr u).coreIn x (env u)) else (tr u).core.pc) =
      (execute i (tr t).arch).pc)
    (hreg : ((tr u).core.regfile.cycle (tr u).core.controlWB.RegWrite
        ((tr u).core.instruction.extractLsb' 7 5)
        ((tr u).core.writeData (tr u).core.controlWB)).read = (execute i (tr t).arch).x) :
    Executes tr t i log := by
  have hwb := cycle_WB (x := x) (e := env u) hphase
  rw [← hrun u] at hwb
  obtain ⟨hIF, hpc', hregfile, hmem'⟩ := hwb
  refine ⟨u + 1, hpath.quiet (by simp [Running, hphase])
    (we_eq_false (by simp [hphase]) (by simp [hphase])), hIF, ?_⟩
  apply Arch.ext
  · exact hpc'.trans hpc
  · rw [← hreg, ← hregfile]
    rfl
  · rw [← hmem, ← hmem']
    rfl

private theorem read_cycle_eq_setReg {s s' : System} (h : s'.core.regfile = s.core.regfile)
    (rd : BitVec 5) (value : Word) :
    (s'.core.regfile.cycle true rd value).read = (s.arch.setReg rd value).x := by
  funext r
  rw [RegisterFile.read_cycle, h]
  rfl

theorem executes_lui (hrun : IsRun x env tr) (h : (tr t).Issued (tr u)) (hpath : Path tr t [] u)
    (hop : (tr u).core.op = Core.OP_LUI) :
    Executes tr t (.lui ((tr u).core.instruction.extractLsb' 7 5)
      ((tr u).core.instruction.extractLsb' 12 20)) [] := by
  have hphase : (tr u).core.phase = .WB := by
    rw [h.phase]
    simp [Core.phaseNextID_RF, hop]
  have hctl : (tr u).core.controlWB = { RegWrite := true, RegSrc := 2 } := by
    simp [Core.controlWB, hop]
  refine executes_of_WB hrun hpath hphase (by rw [h.mem]; rfl) ?_ ?_
  · rw [hctl, if_neg (by simp), h.pc]
    rfl
  · rw [hctl, read_cycle_eq_setReg h.regfile]
    simp [Core.writeData, Core.imm, Core.immU, hop, execute, Arch.setPc]

theorem executes_auipc (hrun : IsRun x env tr) (h : (tr t).Issued (tr u))
    (hpath : Path tr t [] u) (hop : (tr u).core.op = Core.OP_AUIPC) :
    Executes tr t (.auipc ((tr u).core.instruction.extractLsb' 7 5)
      ((tr u).core.instruction.extractLsb' 12 20)) [] := by
  have hphase : (tr u).core.phase = .WB := by
    rw [h.phase]
    simp [Core.phaseNextID_RF, hop]
  have hctl : (tr u).core.controlWB = { RegWrite := true } := by
    simp [Core.controlWB, hop]
  refine executes_of_WB hrun hpath hphase (by rw [h.mem]; rfl) ?_ ?_
  · rw [hctl, if_neg (by simp), h.pc]
    rfl
  · rw [hctl, read_cycle_eq_setReg h.regfile]
    simp [Core.writeData, h.ALUOut, Core.imm, Core.immU, hop, execute, Arch.setPc, arch]

theorem executes_jal (hrun : IsRun x env tr) (h : (tr t).Issued (tr u)) (hpath : Path tr t [] u)
    (hop : (tr u).core.op = Core.OP_JAL) :
    Executes tr t (.jal ((tr u).core.instruction.extractLsb' 7 5)
      (immJ (tr u).core.instruction)) [] := by
  have hphase : (tr u).core.phase = .WB := by
    rw [h.phase]
    simp [Core.phaseNextID_RF, hop]
  have hctl : (tr u).core.controlWB =
      { RegWrite := true, RegSrc := 3, PCWrite := true, PCSrc := 2 } := by
    simp [Core.controlWB, hop]
  refine executes_of_WB hrun hpath hphase (by rw [h.mem]; rfl) ?_ ?_
  · rw [hctl, if_pos rfl]
    simp [Core.newpc, h.ALUOut, Core.imm, hop, Core.immJ_eq, execute, Arch.setPc, arch]
  · rw [hctl, read_cycle_eq_setReg h.regfile]
    simp [Core.writeData, h.pc, execute, Arch.setPc, arch]

private theorem exists_computed (hrun : IsRun x env tr) (h : (tr t).Issued (tr u))
    (hpath : Path tr t [] u) (hphase : (tr u).core.phase = .EX) :
    Path tr t [] (u + 1) ∧ (tr u).Frame (tr (u + 1)) ∧
      (tr (u + 1)).core.phase = (tr u).core.phaseNext ((tr u).coreIn x (env u)) ∧
      (tr (u + 1)).core.ALUOut =
        alu (tr u).core.controlEX.ALUm ((tr u).core.ALUIn1 (tr u).core.controlEX)
          ((tr u).core.ALUIn2 (tr u).core.controlEX ((tr u).coreIn x (env u))) ∧
      (tr (u + 1)).core.ALUOut2 = (tr t).core.pc + (tr u).core.imm := by
  have hex := cycle_EX (x := x) (e := env u) hphase
  rw [← hrun u, h.ALUOut] at hex
  exact ⟨hpath.quiet (by simp [Running, hphase])
    (we_eq_false (by simp [hphase]) (by simp [hphase])), hex⟩

theorem executes_jalr (hrun : IsRun x env tr) (h : (tr t).Issued (tr u)) (hpath : Path tr t [] u)
    (hop : (tr u).core.op = Core.OP_JALR) :
    Executes tr t (.jalr ((tr u).core.instruction.extractLsb' 7 5)
      ((tr u).core.instruction.extractLsb' 15 5)
      ((tr u).core.instruction.extractLsb' 20 12)) [] := by
  have hphase : (tr u).core.phase = .EX := by
    rw [h.phase]
    simp [Core.phaseNextID_RF, hop]
  obtain ⟨hpath', hframe, hwb, hALUOut, -⟩ := exists_computed hrun h hpath hphase
  have hALUm : (tr u).core.controlEX = { RV32MStart := true, ALUSrcB := 1 } := by
    simp [Core.controlEX, hop]
  have hctl : (tr (u + 1)).core.controlWB =
      { RegWrite := true, RegSrc := 3, PCWrite := true, PCSrc := 3 } := by
    simp [Core.controlWB, hframe.op, hop]
  refine executes_of_WB hrun hpath' (by rw [hwb]; simp [Core.phaseNext, hphase, hop])
    (by rw [hframe.mem, h.mem]; rfl) ?_ ?_
  · rw [hctl, if_pos rfl]
    simp [Core.newpc, hALUOut, hALUm, alu, Core.ALUIn1, Core.ALUIn2, h.A, arch_x_rs1 h, Core.imm,
      hop, Core.immI_eq, execute, Arch.setPc, jalrTarget]
  · rw [hctl, read_cycle_eq_setReg (hframe.regfile.trans h.regfile), hframe.instruction]
    simp [Core.writeData, hframe.pc, h.pc, execute, Arch.setPc, arch]

theorem executes_branch (hrun : IsRun x env tr) (h : (tr t).Issued (tr u))
    (hpath : Path tr t [] u) (hop : (tr u).core.op = Core.OP_BR) {o : BranchOp}
    (ho : branchOp? (tr u).core.funct3 = some o) :
    Executes tr t (.branch o ((tr u).core.instruction.extractLsb' 15 5)
      ((tr u).core.instruction.extractLsb' 20 5) (Isa.immB (tr u).core.instruction)) [] := by
  have hphase : (tr u).core.phase = .EX := by
    rw [h.phase]
    simp [Core.phaseNextID_RF, hop]
  obtain ⟨hpath', hframe, hwb, hALUOut, hALUOut2⟩ := exists_computed hrun h hpath hphase
  have hctl : (tr (u + 1)).core.controlWB =
      { PCWrite := o.taken (tr u).core.readData1 (tr u).core.readData2, PCSrc := 1 } := by
    rw [← (tr u).core.branch_taken ho]
    simp [Core.controlWB, hframe.op, hframe.bit, hop, hALUOut, Core.controlEX, Core.ALUIn1,
      Core.ALUIn2, h.A, h.B]
  refine executes_of_WB hrun hpath' (by rw [hwb]; simp [Core.phaseNext, hphase, hop])
    (by rw [hframe.mem, h.mem]; rfl) ?_ ?_
  · rw [hctl, arch_x_rs1 h, arch_x_rs2 h]
    simp only [Core.newpc, hALUOut2, hframe.pc, h.pc, Core.imm, hop, Core.immB_eq, execute,
      Arch.setPc, arch]
    simp
    congr
  · rw [hctl, RegisterFile.cycle_idle, hframe.regfile, h.regfile]
    rfl

theorem executes_opImm (hrun : IsRun x env tr) (h : (tr t).Issued (tr u))
    (hpath : Path tr t [] u) (hop : (tr u).core.op = Core.OP_R_I) {o : AluOp}
    (ho : opImm? ((tr u).core.instruction.extractLsb' 25 7) (tr u).core.funct3 = some o) :
    Executes tr t (.opImm o ((tr u).core.instruction.extractLsb' 7 5)
      ((tr u).core.instruction.extractLsb' 15 5)
      ((tr u).core.instruction.extractLsb' 20 12)) [] := by
  have hphase : (tr u).core.phase = .EX := by
    rw [h.phase]
    simp [Core.phaseNextID_RF, hop]
  obtain ⟨hpath', hframe, hwb, hALUOut, -⟩ := exists_computed hrun h hpath hphase
  have hresult : (tr (u + 1)).core.ALUOut =
      o.eval (tr u).core.readData1 (tr u).core.imm := by
    rw [← (tr u).core.alu_opImm ho hop, hALUOut]
    simp [Core.controlEX, Core.ALUIn1, Core.ALUIn2, hop, h.A]
  have hctl : (tr (u + 1)).core.controlWB = { RegWrite := true } := by
    simp [Core.controlWB, hframe.op, hop]
  refine executes_of_WB hrun hpath' (by rw [hwb]; simp [Core.phaseNext, hphase, hop])
    (by rw [hframe.mem, h.mem]; rfl) ?_ ?_
  · rw [hctl, if_neg (by simp), hframe.pc, h.pc]
    rfl
  · rw [hctl, read_cycle_eq_setReg (hframe.regfile.trans h.regfile), hframe.instruction]
    simp [Core.writeData, hresult, arch_x_rs1 h, Core.imm, hop, Core.immI_eq, execute,
      Arch.setPc]

theorem executes_opReg (hrun : IsRun x env tr) (h : (tr t).Issued (tr u))
    (hpath : Path tr t [] u) (hop : (tr u).core.op = Core.OP_R) {o : AluOp}
    (ho : op? ((tr u).core.instruction.extractLsb' 25 7) (tr u).core.funct3 = some o) :
    Executes tr t (.opReg o ((tr u).core.instruction.extractLsb' 7 5)
      ((tr u).core.instruction.extractLsb' 15 5)
      ((tr u).core.instruction.extractLsb' 20 5)) [] := by
  have hphase : (tr u).core.phase = .EX := by
    rw [h.phase]
    simp [Core.phaseNextID_RF, hop]
  obtain ⟨hpath', hframe, hwb, hALUOut, -⟩ := exists_computed hrun h hpath hphase
  obtain ⟨hM, halu⟩ := (tr u).core.alu_opReg ho (tr u).core.readData1 (tr u).core.readData2
  have hresult : (tr (u + 1)).core.ALUOut =
      o.eval (tr u).core.readData1 (tr u).core.readData2 := by
    rw [← halu, hALUOut]
    simp [Core.controlEX, Core.ALUIn1, Core.ALUIn2, hop, h.A, h.B]
  have hctl : (tr (u + 1)).core.controlWB = { RegWrite := true } := by
    have hM' : (tr (u + 1)).core.isRV32M = false := (hframe.bit 25).trans hM
    simp [Core.controlWB, hframe.op, hop, hM']
  refine executes_of_WB hrun hpath' (by rw [hwb]; simp [Core.phaseNext, hphase, hop, hM])
    (by rw [hframe.mem, h.mem]; rfl) ?_ ?_
  · rw [hctl, if_neg (by simp), hframe.pc, h.pc]
    rfl
  · rw [hctl, read_cycle_eq_setReg (hframe.regfile.trans h.regfile), hframe.instruction]
    simp [Core.writeData, hresult, arch_x_rs1 h, arch_x_rs2 h, execute, Arch.setPc]

/-! ## Loads and stores -/

private theorem exists_addressed (hrun : IsRun x env tr) (h : (tr t).Issued (tr u))
    (hpath : Path tr t [] u)
    (hop : (tr u).core.op = Core.OP_LOAD ∨ (tr u).core.op = Core.OP_STORE) :
    Path tr t [] (u + 1) ∧ (tr u).Frame (tr (u + 1)) ∧ (tr (u + 1)).core.phase = .MEM ∧
      (tr (u + 1)).core.ALUOut = (tr u).core.readData1 + (tr u).core.imm := by
  have hphase : (tr u).core.phase = .EX := by
    rw [h.phase]
    rcases hop with hop | hop <;> simp [Core.phaseNextID_RF, hop]
  obtain ⟨hpath', hframe, hmem, hALUOut, -⟩ := exists_computed hrun h hpath hphase
  refine ⟨hpath', hframe, ?_, ?_⟩
  · rw [hmem]
    rcases hop with hop | hop <;> simp [Core.phaseNext, hphase, hop]
  · rw [hALUOut]
    rcases hop with hop | hop <;>
      simp [Core.controlEX, Core.ALUIn1, Core.ALUIn2, alu, hop, h.A]

theorem executes_load (hrun : IsRun x env tr) (h : (tr t).Issued (tr u))
    (hpath : Path tr t [] u) (hop : (tr u).core.op = Core.OP_LOAD) {o : LoadOp}
    (ho : loadOp? (tr u).core.funct3 = some o)
    (haligned : o.aligned ((tr u).core.readData1 + (tr u).core.imm) = true) :
    Executes tr t (.load o ((tr u).core.instruction.extractLsb' 7 5)
      ((tr u).core.instruction.extractLsb' 15 5)
      ((tr u).core.instruction.extractLsb' 20 12)) [] := by
  obtain ⟨hpath', hframe, hmem, haddr⟩ := exists_addressed hrun h hpath (.inl hop)
  have hop' : (tr (u + 1)).core.op = Core.OP_LOAD := hframe.op.trans hop
  have hload := cycle_MEM_load (x := x) (e := env (u + 1)) hmem hop'
  rw [← hrun (u + 1), haddr] at hload
  obtain ⟨hwaiting, hframe'⟩ := hload
  obtain ⟨v, hv, ha⟩ := (hpath'.quiet (by simp [Running, hmem])
    (we_eq_false_of_subword hmem (.inl hop'))).wait hrun hwaiting
  have hinstruction : (tr v).core.instruction = (tr u).core.instruction :=
    ha.instruction.trans (hframe'.instruction.trans hframe.instruction)
  have hbus : (tr v).bus.mem = (tr t).bus.mem :=
    ha.mem.trans (hframe'.mem.trans (hframe.mem.trans h.mem))
  have hctl : (tr v).core.controlWB =
      { RegWrite := true, RegSrc := 0#1 ++ 1#1 ++ (tr v).core.instruction.extractLsb' 12 2 } := by
    have hopv : (tr v).core.op = Core.OP_LOAD := by rw [Core.op, hinstruction, ← hop, Core.op]
    simp [Core.controlWB, hopv]
  have hmem' : (tr t).arch.mem = bytesOf (tr v).bus.mem := by
    rw [hbus]
    rfl
  have hmdr : (tr v).core.mdr = (tr v).bus.mem (wordIndex (tr v).core.mar) := by
    rw [ha.mdr, ha.mem, ha.mar]
  have hvalue := Core.writeData_load (by rwa [Core.funct3, hinstruction]) hmem' hmdr
    (ha.mar ▸ haligned)
  refine executes_of_WB hrun hv ha.phase (by rw [hbus]; rfl) ?_ ?_
  · rw [hctl, if_neg (by simp), ha.pc, hframe'.pc, hframe.pc, h.pc]
    rfl
  · rw [hctl, read_cycle_eq_setReg
      (ha.regfile.trans (hframe'.regfile.trans (hframe.regfile.trans h.regfile))),
      hvalue, ha.mar, hinstruction]
    simp [arch_x_rs1 h, Core.imm, hop, Core.immI_eq, execute, Arch.setPc]

def busWrites (i : Instr) (s : Arch) : List (Word × Word) :=
  match i with
  | .store _ rs1 _ offset =>
      let address := s.x rs1 + offset.signExtend 32
      [(address, byteSwap ((execute i s).loadWord (wordAddress address)))]
  | _ => []

private theorem executes_of_write (hrun : IsRun x env tr) {o : StoreOp} {rs1 rs2 : Reg}
    {offset : BitVec 12} {a w : Word} (ha : a = (tr t).arch.x rs1 + offset.signExtend 32)
    (hpath : Path tr t [(a, byteSwap w)] u) (hwaiting : (tr u).Waiting .IF a)
    (hpc : (tr u).core.pc = (tr t).core.pc + 4)
    (hregfile : (tr u).core.regfile = (tr t).core.regfile)
    (hmem : (tr u).bus.mem = storeWord (tr t).bus.mem (wordIndex a) w)
    (hbytes : bytesOf (tr u).bus.mem = (o.apply (tr t).arch a ((tr t).arch.x rs2)).mem) :
    Executes tr t (.store o rs1 rs2 offset)
      (busWrites (.store o rs1 rs2 offset) (tr t).arch) := by
  obtain ⟨v, hv, hanswer⟩ := hpath.wait hrun hwaiting
  have hword : (execute (.store o rs1 rs2 offset) (tr t).arch).loadWord (wordAddress a) = w := by
    have h := word_of_bytes (tr u).bus.mem (byteOffset_wordAddress a)
    rw [hbytes, wordIndex_wordAddress, hmem, storeWord_self, ha] at h
    rw [ha]
    exact h
  refine ⟨v, ?_, hanswer.phase, ?_⟩
  · simpa only [busWrites, ← ha, hword] using hv
  apply Arch.ext
  · exact hanswer.pc.trans hpc
  · rw [execute, Arch.setPc, storeOp_apply_x, arch, arch, hanswer.regfile, hregfile]
  · rw [execute, Arch.setPc, ← ha, ← hbytes, ← hanswer.mem]
    rfl

theorem executes_store_word (hrun : IsRun x env tr) (h : (tr t).Issued (tr u))
    (hpath : Path tr t [] u) (hop : (tr u).core.op = Core.OP_STORE)
    (ho : storeOp? (tr u).core.funct3 = some .sw)
    (haligned : StoreOp.sw.aligned ((tr u).core.readData1 + (tr u).core.imm) = true) :
    Executes tr t
      (.store .sw ((tr u).core.instruction.extractLsb' 15 5)
        ((tr u).core.instruction.extractLsb' 20 5) (Isa.immS (tr u).core.instruction))
      (busWrites
        (.store .sw ((tr u).core.instruction.extractLsb' 15 5)
          ((tr u).core.instruction.extractLsb' 20 5) (Isa.immS (tr u).core.instruction))
        (tr t).arch) := by
  obtain ⟨hpath', hframe, hphase, haddr⟩ := exists_addressed hrun h hpath (.inr hop)
  have hunaligned : (tr (u + 1)).core.storeUnaligned = false := by
    rw [Core.storeUnaligned, hframe.bit]
    exact Core.storeUnaligned_eq ho
  have hstore := cycle_MEM_store (x := x) (e := env (u + 1)) hphase (hframe.op.trans hop)
    hunaligned
  rw [← hrun (u + 1), haddr, hframe.readData2, hframe.mem, h.mem] at hstore
  obtain ⟨hwaiting, hpc, hregfile, hmem, hwe, ha, hd⟩ := hstore
  have hpath'' := hpath'.write (by simp [Running, hphase]) hwe
  rw [ha, hd] at hpath''
  refine executes_of_write hrun (by simp [arch_x_rs1 h, Core.imm, hop, Core.immS_eq]) hpath''
    hwaiting (by rw [hpc, hframe.pc, h.pc]) (by rw [hregfile, hframe.regfile, h.regfile]) hmem ?_
  rw [hmem, bytesOf_storeWord_sw (s := (tr t).arch) rfl haligned, arch_x_rs2 h]

theorem executes_store_subword (hrun : IsRun x env tr) (h : (tr t).Issued (tr u))
    (hpath : Path tr t [] u) (hop : (tr u).core.op = Core.OP_STORE) {o : StoreOp}
    (ho : storeOp? (tr u).core.funct3 = some o) (hsw : o ≠ .sw)
    (haligned : o.aligned ((tr u).core.readData1 + (tr u).core.imm) = true) :
    Executes tr t
      (.store o ((tr u).core.instruction.extractLsb' 15 5)
        ((tr u).core.instruction.extractLsb' 20 5) (Isa.immS (tr u).core.instruction))
      (busWrites
        (.store o ((tr u).core.instruction.extractLsb' 15 5)
          ((tr u).core.instruction.extractLsb' 20 5) (Isa.immS (tr u).core.instruction))
        (tr t).arch) := by
  obtain ⟨hpath', hframe, hphase, haddr⟩ := exists_addressed hrun h hpath (.inr hop)
  have hop' : (tr (u + 1)).core.op = Core.OP_STORE := hframe.op.trans hop
  have hunaligned : (tr (u + 1)).core.storeUnaligned = true := by
    rw [Core.storeUnaligned, hframe.bit, ← Core.storeUnaligned, Core.storeUnaligned_eq ho]
    simp [hsw]
  -- the old word is read first
  have hread := cycle_MEM_subword (x := x) (e := env (u + 1)) hphase hop' hunaligned
  rw [← hrun (u + 1), haddr] at hread
  obtain ⟨hwaiting, hframe'⟩ := hread
  obtain ⟨v, hv, ha⟩ := (hpath'.quiet (by simp [Running, hphase])
    (we_eq_false_of_subword hphase (.inr hunaligned))).wait hrun hwaiting
  -- EXU keeps the word in `mdr` and computes the address again
  have hexu := cycle_EXU (x := x) (e := env v) ha.phase (ha.held.trans ha.mar.symm) ha.wait
  rw [← hrun v] at hexu
  obtain ⟨hframe'', hphase', hmar, hmdr, hALUOut⟩ := hexu
  have hframe₁ : (tr u).Frame (tr (v + 1)) :=
    hframe.trans (hframe'.trans (Frame.trans
      ⟨ha.pc, ha.instruction, ha.regfile, ha.mem, ha.mepc⟩ hframe''))
  have haddr' : (tr (v + 1)).core.ALUOut = (tr u).core.readData1 + (tr u).core.imm := by
    have hframev : (tr u).Frame (tr v) :=
      hframe.trans (hframe'.trans ⟨ha.pc, ha.instruction, ha.regfile, ha.mem, ha.mepc⟩)
    rw [hALUOut, ha.A, hframev.imm, hframe'.readData1, hframe.readData1]
  have hpath₁ := hv.quiet (by simp [Running, ha.phase])
    (we_eq_false (by simp [ha.phase]) (by simp [ha.phase]))
  -- MEMU writes the merged word
  have hmemu := cycle_MEMU (x := x) (e := env (v + 1)) hphase'
  rw [← hrun (v + 1), haddr', hframe₁.mem, h.mem] at hmemu
  obtain ⟨hwaiting', hpc, hregfile, hmem, hwe, ha', hd⟩ := hmemu
  have hpath₂ := hpath₁.write (by simp [Running, hphase']) hwe
  rw [ha', hd] at hpath₂
  refine executes_of_write hrun (by simp [arch_x_rs1 h, Core.imm, hop, Core.immS_eq]) hpath₂
    hwaiting' (by rw [hpc, hframe₁.pc, h.pc]) (by rw [hregfile, hframe₁.regfile, h.regfile]) hmem
    ?_
  have hmar' : (tr (v + 1)).core.mar = (tr u).core.readData1 + (tr u).core.imm := hmar.trans ha.mar
  have hmdr' : (tr (v + 1)).core.mdr = (tr t).bus.mem (wordIndex (tr (v + 1)).core.mar) := by
    rw [hmdr, hmar, ha.mem, hframe'.mem, hframe.mem, h.mem]
  have ho' : storeOp? (tr (v + 1)).core.funct3 = some o := by
    rwa [Core.funct3, hframe₁.instruction]
  have hmerged := Core.bytesOf_memwriteData (s := (tr t).arch) ho' hsw rfl hmdr' (by rwa [hmar'])
  rw [hmar', hframe₁.readData2, arch_x_rs2 h] at hmerged
  rw [hmem]
  exact hmerged

end Run

end System

end PComputer.Rtl
