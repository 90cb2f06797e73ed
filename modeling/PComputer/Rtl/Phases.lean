import PComputer.Rtl.Bus

/-!
# What each phase does in one cycle

One lemma per phase of the core on its bus: what the next cycle starts with.
The temporaries `A`, `B`, `ALUOut`, `mar`, `mdr` are reloaded in every cycle, so
each lemma lists exactly those that the following phases read.
-/

namespace PComputer.Rtl

open PComputer.Foundation

theorem Core.controlEX_idle (c : Core) :
    c.controlEX.PCWrite = false ∧ c.controlEX.IRWrite = false ∧ c.controlEX.RegWrite = false ∧
      c.controlEX.MemWrite = false := by
  unfold Core.controlEX
  split_ifs <;> exact ⟨rfl, rfl, rfl, rfl⟩

theorem Core.controlWB_idle (c : Core) :
    c.controlWB.IRWrite = false ∧ c.controlWB.MemWrite = false := by
  unfold Core.controlWB
  split_ifs <;> exact ⟨rfl, rfl⟩

namespace System

/-- The access of a `MEM_WAIT` phase: where it returns to and what it addresses. -/
structure Waiting (s : System) (phaseReturn : Phase) (address : Word) : Prop where
  phase : s.core.phase = .MEM_WAIT
  phaseReturn : s.core.phaseReturn = phaseReturn
  mar : s.core.mar = address
  held : s.bus.held = address

/-- Everything that a phase without side effects leaves alone. -/
structure Frame (s s' : System) : Prop where
  pc : s'.core.pc = s.core.pc
  instruction : s'.core.instruction = s.core.instruction
  regfile : s'.core.regfile = s.core.regfile
  mem : s'.bus.mem = s.bus.mem
  mepc : s'.cpu.privilege.mepc = s.cpu.privilege.mepc

theorem Frame.trans {s s' s'' : System} (h : s.Frame s') (h' : s'.Frame s'') : s.Frame s'' :=
  ⟨h'.pc.trans h.pc, h'.instruction.trans h.instruction, h'.regfile.trans h.regfile,
    h'.mem.trans h.mem, h'.mepc.trans h.mepc⟩

theorem Frame.op {s s' : System} (h : s.Frame s') : s'.core.op = s.core.op := by
  rw [Core.op, h.instruction, Core.op]

theorem Frame.readData1 {s s' : System} (h : s.Frame s') :
    s'.core.readData1 = s.core.readData1 := by
  rw [Core.readData1, h.instruction, h.regfile, Core.readData1]

theorem Frame.readData2 {s s' : System} (h : s.Frame s') :
    s'.core.readData2 = s.core.readData2 := by
  rw [Core.readData2, h.instruction, h.regfile, Core.readData2]

theorem Frame.bit {s s' : System} (h : s.Frame s') (k : Nat) : s'.core.bit k = s.core.bit k := by
  rw [Core.bit, h.instruction, Core.bit]

theorem Frame.imm {s s' : System} (h : s.Frame s') : s'.core.imm = s.core.imm := by
  simp only [Core.imm, Core.immU, Core.immI, Core.immB, Core.immJ, Core.immS, Core.signBits,
    h.bit, h.op, h.instruction]

variable {x : ReadX} {e : Env} {s : System}

/-! ## CSRs -/

private theorem mepc_cycle (hWB : s.core.phase ≠ .WB)
    (hEnter : s.core.phase ≠ .INTERRUPT ∧ s.core.phase ≠ .EXCEPTION) :
    (s.cycle x e).cpu.privilege.mepc = s.cpu.privilege.mepc := by
  have hwe : (s.cpu.privilegeIn (s.cpuIn e)).we = false :=
    (s.core.control_csrWe s.ready).trans (by simp [hWB])
  have henter : (s.cpu.privilegeIn (s.cpuIn e)).onExcEnter = false :=
    (s.core.control_onExcEnter s.ready).trans (by simp [hEnter])
  refine (s.cpu.privilege.cycle_csrs rfl).1.trans ?_
  have hrst : (s.cpu.privilegeIn (s.cpuIn e)).rst = false := rfl
  simp only [Privilege.csrUpdate, hrst, hwe, henter, Bool.false_eq_true, if_false]
  split_ifs <;> rfl

/-! ## Fetch -/

theorem cycle_IF (h : s.core.phase = .IF) :
    (s.cycle x e).Waiting .ID_RF s.core.pc ∧ (s.cycle x e).core.pc = s.core.pc ∧
      (s.cycle x e).core.regfile = s.core.regfile ∧ (s.cycle x e).bus.mem = s.bus.mem ∧
      (s.cycle x e).cpu.privilege.mepc = s.cpu.privilege.mepc := by
  refine ⟨⟨?_, ?_, ?_, ?_⟩, ?_, ?_, ?_, mepc_cycle (by simp [h]) (by simp [h])⟩ <;>
    simp [Core.phaseNext, Core.phaseReturnNext, Core.control, Core.memAddr,
      ready, Bus.ready, Bus.cycle, Core.rd, Core.we, Core.a, h]

theorem cycle_ID_RF (h : s.core.phase = .ID_RF) (hint : s.cpu.privilege.interrupt = false) :
    (s.cycle x e).core.phase = s.core.phaseNextID_RF false ∧
      (s.cycle x e).core.pc = s.core.pc + 4 ∧
      (s.cycle x e).core.instruction = s.core.instruction ∧
      (s.cycle x e).core.regfile = s.core.regfile ∧
      (s.cycle x e).bus.mem = s.bus.mem ∧
      (s.cycle x e).core.A = s.core.readData1 ∧
      (s.cycle x e).core.B = s.core.readData2 ∧
      (s.cycle x e).core.ALUOut = s.core.pc + s.core.imm ∧
      (s.cycle x e).core.mcauseCodeOut = s.core.mcauseCodeNext ∧
      (s.cycle x e).cpu.privilege.mepcReg = s.cpu.privilege.mepc ∧
      (s.cycle x e).cpu.privilege.mepc = s.cpu.privilege.mepc := by
  refine ⟨?_, ?_, ?_, ?_, ?_, ?_, ?_, ?_, ?_, (s.cpu.privilege.cycle_csrs rfl).2.1,
    mepc_cycle (by simp [h]) (by simp [h])⟩ <;>
    simp [Core.phaseNext, Core.control, Core.newpc, Core.ALUIn1, Core.ALUIn2, alu,
      Bus.cycle, Core.we, hint, h]

/-! ## Memory wait -/

theorem cycle_MEM_WAIT_busy {p : Phase} {a : Word} (h : s.Waiting p a) (hwait : s.bus.wait ≠ 0) :
    (s.cycle x e).Waiting p a ∧ s.Frame (s.cycle x e) ∧
      (s.cycle x e).bus.wait = s.bus.wait - 1 := by
  obtain ⟨hphase, hreturn, hmar, hheld⟩ := h
  have hmepc := mepc_cycle (x := x) (e := e) (s := s) (by simp [hphase]) (by simp [hphase])
  refine ⟨⟨?_, ?_, ?_, ?_⟩, ⟨?_, ?_, ?_, ?_, hmepc⟩, ?_⟩ <;>
    simp [Core.phaseNext, Core.phaseReturnNext, Core.control, Core.memAddr,
      ready, Bus.ready, Bus.cycle, Core.rd, Core.we, hphase, hreturn, hmar, hheld, hwait]

structure Answered (s s' : System) (phaseReturn : Phase) (address : Word) : Prop where
  phase : s'.core.phase = phaseReturn
  pc : s'.core.pc = s.core.pc
  instruction : s'.core.instruction =
    if phaseReturn = .ID_RF then s.bus.mem (wordIndex address) else s.core.instruction
  regfile : s'.core.regfile = s.core.regfile
  mem : s'.bus.mem = s.bus.mem
  mar : s'.core.mar = address
  mdr : s'.core.mdr = s.bus.mem (wordIndex address)
  A : s'.core.A = s.core.readData1
  held : s'.bus.held = address
  wait : s'.bus.wait = 0
  mepc : s'.cpu.privilege.mepc = s.cpu.privilege.mepc

theorem cycle_MEM_WAIT_ready {p : Phase} {a : Word} (h : s.Waiting p a)
    (hwait : s.bus.wait = 0) : s.Answered (s.cycle x e) p a := by
  obtain ⟨hphase, hreturn, hmar, hheld⟩ := h
  have hready : s.ready = true := by
    simp [ready, Bus.ready, Core.rd, Core.we, Core.control, hphase, hwait]
  have haddr : s.core.a = a := by
    simp [Core.a, Core.memAddr, Core.control, hphase, hmar]
  have hspo : s.spo e = byteSwap (s.bus.mem (wordIndex a)) := by
    simp [spo, Bus.spo, haddr, hheld, Bus.ready, Core.rd, Core.we, Core.control, hphase, hwait]
  have hmepc := mepc_cycle (x := x) (e := e) (s := s) (by simp [hphase]) (by simp [hphase])
  refine ⟨?_, ?_, ?_, ?_, ?_, ?_, ?_, ?_, ?_, ?_, hmepc⟩ <;>
    simp [Core.phaseNext, Core.control, Core.memAddr, Bus.cycle, Core.rd,
      Core.we, hready, hspo, hphase, hreturn, hmar, hheld, hwait]

/-! ## Execute and memory -/

theorem cycle_EX (h : s.core.phase = .EX) :
    s.Frame (s.cycle x e) ∧
      (s.cycle x e).core.phase = s.core.phaseNext (s.coreIn x e) ∧
      (s.cycle x e).core.ALUOut =
        alu s.core.controlEX.ALUm (s.core.ALUIn1 s.core.controlEX)
          (s.core.ALUIn2 s.core.controlEX (s.coreIn x e)) ∧
      (s.cycle x e).core.ALUOut2 = s.core.ALUOut := by
  have hidle := s.core.controlEX_idle
  refine ⟨⟨?_, ?_, ?_, ?_, mepc_cycle (by simp [h]) (by simp [h])⟩, ?_, ?_, ?_⟩ <;>
    simp [Core.control, Bus.cycle, Core.we, h, hidle]

theorem cycle_MEM_load (h : s.core.phase = .MEM) (hop : s.core.op = Core.OP_LOAD) :
    (s.cycle x e).Waiting .WB s.core.ALUOut ∧ s.Frame (s.cycle x e) := by
  refine ⟨⟨?_, ?_, ?_, ?_⟩, ⟨?_, ?_, ?_, ?_, mepc_cycle (by simp [h]) (by simp [h])⟩⟩ <;>
    simp [Core.phaseNext, Core.phaseReturnNext, Core.control, Core.controlMEM,
      Core.memAddr, Bus.cycle, Core.rd, Core.we, Core.a, h, hop]

theorem cycle_MEM_subword (h : s.core.phase = .MEM) (hop : s.core.op = Core.OP_STORE)
    (hunaligned : s.core.storeUnaligned = true) :
    (s.cycle x e).Waiting .EXU s.core.ALUOut ∧ s.Frame (s.cycle x e) := by
  refine ⟨⟨?_, ?_, ?_, ?_⟩, ⟨?_, ?_, ?_, ?_, mepc_cycle (by simp [h]) (by simp [h])⟩⟩ <;>
    simp [Core.phaseNext, Core.phaseReturnNext, Core.control, Core.controlMEM,
      Core.memAddr, Bus.cycle, Core.rd, Core.we, Core.a, h, hop, hunaligned]

theorem cycle_MEM_store (h : s.core.phase = .MEM) (hop : s.core.op = Core.OP_STORE)
    (haligned : s.core.storeUnaligned = false) :
    (s.cycle x e).Waiting .IF s.core.ALUOut ∧
      (s.cycle x e).core.pc = s.core.pc ∧
      (s.cycle x e).core.regfile = s.core.regfile ∧
      (s.cycle x e).bus.mem =
        storeWord s.bus.mem (wordIndex s.core.ALUOut) s.core.readData2 ∧
      s.core.we = true ∧ s.core.a = s.core.ALUOut ∧ s.core.d = byteSwap s.core.readData2 := by
  refine ⟨⟨?_, ?_, ?_, ?_⟩, ?_, ?_, ?_, ?_, ?_, ?_⟩ <;>
    simp [Core.phaseNext, Core.phaseReturnNext, Core.control, Core.controlMEM,
      Core.memAddr, Core.memwriteData, Bus.cycle, Core.rd, Core.we, Core.a, Core.d, h, hop,      
        haligned]

/-- `EXU` recomputes the address; the held address keeps `mdr` valid meanwhile. -/
theorem cycle_EXU (h : s.core.phase = .EXU) (hheld : s.bus.held = s.core.mar)
    (hwait : s.bus.wait = 0) :
    s.Frame (s.cycle x e) ∧ (s.cycle x e).core.phase = .MEMU ∧
      (s.cycle x e).core.mar = s.core.mar ∧
      (s.cycle x e).core.mdr = s.bus.mem (wordIndex s.core.mar) ∧
      (s.cycle x e).core.ALUOut = s.core.A + s.core.imm := by
  have haddr : s.core.a = s.core.mar := by
    simp [Core.a, Core.memAddr, Core.control, h]
  have hspo : s.spo e = byteSwap (s.bus.mem (wordIndex s.core.mar)) := by
    simp [spo, Bus.spo, haddr, hheld, Bus.ready, Core.rd, Core.we, Core.control, h, hwait]
  refine ⟨⟨?_, ?_, ?_, ?_, mepc_cycle (by simp [h]) (by simp [h])⟩, ?_, ?_, ?_, ?_⟩ <;>
    simp [Core.phaseNext, Core.control, Core.memAddr, Core.ALUIn1, Core.ALUIn2, alu,
      Bus.cycle, Core.we, hspo, h]

/-- The merged word of a sub-word store, by `MemSrc`. -/
def mergedWord (c : Core) : Word :=
  c.memwriteData { MemSrc := c.instruction.extractLsb' 12 2 }

theorem cycle_MEMU (h : s.core.phase = .MEMU) :
    (s.cycle x e).Waiting .IF s.core.ALUOut ∧
      (s.cycle x e).core.pc = s.core.pc ∧
      (s.cycle x e).core.regfile = s.core.regfile ∧
      (s.cycle x e).bus.mem =
        storeWord s.bus.mem (wordIndex s.core.ALUOut) (mergedWord s.core) ∧
      s.core.we = true ∧ s.core.a = s.core.ALUOut ∧
      s.core.d = byteSwap (mergedWord s.core) := by
  refine ⟨⟨?_, ?_, ?_, ?_⟩, ?_, ?_, ?_, ?_, ?_, ?_⟩ <;>
    simp [Core.phaseNext, Core.phaseReturnNext, Core.control, Core.memAddr,
      Core.memwriteData, mergedWord, Bus.cycle, Core.rd, Core.we, Core.a, Core.d, h]

/-! ## Write back -/

theorem cycle_WB (h : s.core.phase = .WB) :
    (s.cycle x e).core.phase = .IF ∧
      (s.cycle x e).core.pc =
        (if s.core.controlWB.PCWrite then s.core.newpc s.core.controlWB (s.coreIn x e)
          else s.core.pc) ∧
      (s.cycle x e).core.regfile =
        s.core.regfile.cycle s.core.controlWB.RegWrite (s.core.instruction.extractLsb' 7 5)
          (s.core.writeData s.core.controlWB) ∧
      (s.cycle x e).bus.mem = s.bus.mem := by
  have hidle := s.core.controlWB_idle
  refine ⟨?_, ?_, ?_, ?_⟩ <;>
    simp [Core.phaseNext, Core.control, Bus.cycle, Core.we, h, hidle]

theorem we_eq_false (hMEM : s.core.phase ≠ .MEM) (hMEMU : s.core.phase ≠ .MEMU) :
    s.core.we = false := by
  have hEX := s.core.controlEX_idle
  have hWB := s.core.controlWB_idle
  cases h : s.core.phase <;> simp_all [Core.we, Core.control]

theorem we_eq_false_of_subword (h : s.core.phase = .MEM)
    (hread : s.core.op = Core.OP_LOAD ∨ s.core.storeUnaligned = true) :
    s.core.we = false := by
  rcases hread with hread | hread <;>
    simp [Core.we, Core.control, Core.controlMEM, h, hread]
  split_ifs <;> rfl

end System

end PComputer.Rtl
