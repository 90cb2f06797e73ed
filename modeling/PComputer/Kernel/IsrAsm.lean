import Mathlib.Data.Fin.VecNotation
import PComputer.Foundation.Updates
import PComputer.Isa.Rv32i
import PComputer.Kernel.Isr

/-!
# `sdboot.S`: `isr_asm`

The assembly around `interrupt_service_routine`: it stores the 31 registers to
`REGS_SAVE_ADDR`, with `mscratch` to free the first base register, and loads them
back from there.  The C code sees the save area as a `StackFrame`, so the offsets
of the assembly and the order of the fields must agree.
-/

namespace PComputer.PseudOS

open PComputer.Foundation PComputer.Isa PComputer.Rtl

/-! ## The registers -/

namespace Abi

def ra : Reg := 1
def sp : Reg := 2
def gp : Reg := 3
def tp : Reg := 4
def t0 : Reg := 5
def t1 : Reg := 6
def t2 : Reg := 7
def s0 : Reg := 8
def s1 : Reg := 9
def a0 : Reg := 10
def a1 : Reg := 11
def a2 : Reg := 12
def a3 : Reg := 13
def a4 : Reg := 14
def a5 : Reg := 15
def a6 : Reg := 16
def a7 : Reg := 17
def s2 : Reg := 18
def s3 : Reg := 19
def s4 : Reg := 20
def s5 : Reg := 21
def s6 : Reg := 22
def s7 : Reg := 23
def s8 : Reg := 24
def s9 : Reg := 25
def s10 : Reg := 26
def s11 : Reg := 27
def t3 : Reg := 28
def t4 : Reg := 29
def t5 : Reg := 30
def t6 : Reg := 31

/-- The registers that a C function hands back as it found them. -/
def calleeSaved (r : Reg) : Bool :=
  r ∈ [sp, s0, s1, s2, s3, s4, s5, s6, s7, s8, s9, s10, s11]

end Abi

open Abi

def frameReg : Fin 31 → Reg :=
  ![a0, a1, a2, a3, a4, a5, a6, a7, s0, s1, s2, s3, s4, s5, s6, s7, s8, s9, s10, s11, t0, t1, t2,
    t3, t4, t5, t6, ra, sp, gp, tp]

theorem exists_frameReg (r : Reg) (hr : r ≠ 0) : ∃ i, frameReg i = r := by
  revert r
  decide

private theorem frameReg_injective : Function.Injective frameReg := by
  unfold Function.Injective
  decide

/-! ## The machine -/

structure Hart where
  x : Reg → Word
  mem : WordMemory
  mscratch : Word
  mepc : Word
  pc : Word

/-- The instructions of `isr_asm`, `mscratch` being the only CSR that it names. -/
inductive AsmInstr where
  | csrwMscratch (rs : Reg)
  | csrrMscratch (rd : Reg)
  | la (rd : Reg) (symbol : Word)
  | sw (rs2 : Reg) (offset : Word) (rs1 : Reg)
  | lw (rd : Reg) (offset : Word) (rs1 : Reg)

namespace Hart

def setReg (h : Hart) (rd : Reg) (value : Word) : Hart :=
  { h with x := if rd = 0 then h.x else Function.update h.x rd value }

def exec (h : Hart) : AsmInstr → Hart
  | .csrwMscratch rs => { h with mscratch := h.x rs }
  | .csrrMscratch rd => h.setReg rd h.mscratch
  | .la rd symbol => h.setReg rd symbol
  | .sw rs2 offset rs1 => { h with mem := storeInt h.mem (h.x rs1 + offset) (h.x rs2) }
  | .lw rd offset rs1 => h.setReg rd (loadInt h.mem (h.x rs1 + offset))

def run (h : Hart) (code : List AsmInstr) : Hart := code.foldl exec h

def mret (h : Hart) : Hart := { h with pc := h.mepc }

@[simp] theorem mret_x (h : Hart) : h.mret.x = h.x := rfl

@[simp] theorem mret_pc (h : Hart) : h.mret.pc = h.mepc := rfl

private theorem run_append (h : Hart) (code code' : List AsmInstr) :
    h.run (code ++ code') = (h.run code).run code' :=
  List.foldl_append

end Hart

def REGS_SAVE_ADDR : Word := 0x10000000

def isrSave : List AsmInstr := [
  .csrwMscratch s0,
  .la s0 REGS_SAVE_ADDR,
  .sw a0 0 s0, .sw a1 4 s0, .sw a2 8 s0, .sw a3 12 s0,
  .sw a4 16 s0, .sw a5 20 s0, .sw a6 24 s0, .sw a7 28 s0,
  .la a0 REGS_SAVE_ADDR,
  .csrrMscratch s0,
  .sw s0 32 a0,
  .la s0 REGS_SAVE_ADDR,
  .sw s1 36 s0, .sw s2 40 s0, .sw s3 44 s0, .sw s4 48 s0, .sw s5 52 s0, .sw s6 56 s0,
  .sw s7 60 s0, .sw s8 64 s0, .sw s9 68 s0, .sw s10 72 s0, .sw s11 76 s0,
  .sw t0 80 s0, .sw t1 84 s0, .sw t2 88 s0, .sw t3 92 s0, .sw t4 96 s0, .sw t5 100 s0,
  .sw t6 104 s0,
  .sw ra 108 s0, .sw sp 112 s0, .sw gp 116 s0, .sw tp 120 s0]

def isrRestore : List AsmInstr := [
  .lw a0 0 s0, .lw a1 4 s0, .lw a2 8 s0, .lw a3 12 s0,
  .lw a4 16 s0, .lw a5 20 s0, .lw a6 24 s0, .lw a7 28 s0,
  .lw s1 36 s0, .lw s2 40 s0, .lw s3 44 s0, .lw s4 48 s0, .lw s5 52 s0, .lw s6 56 s0,
  .lw s7 60 s0, .lw s8 64 s0, .lw s9 68 s0, .lw s10 72 s0, .lw s11 76 s0,
  .lw t0 80 s0, .lw t1 84 s0, .lw t2 88 s0, .lw t3 92 s0, .lw t4 96 s0, .lw t5 100 s0,
  .lw t6 104 s0,
  .lw ra 108 s0, .lw sp 112 s0, .lw gp 116 s0, .lw tp 120 s0,
  .lw s0 32 s0]

/-! ## Runs of stores and of loads -/

theorem storeInt_eq_update (mem : WordMemory) (address value : Word) :
    storeInt mem address value = Function.update mem (wordIndex address) value := by
  funext i
  simp [storeInt, storeWord, Function.update_apply]

namespace Hart

private theorem run_stores (base : Reg) (l : List (Reg × Word)) (h : Hart) :
    h.run (l.map fun p => .sw p.1 p.2 base) =
      { h with mem := updates h.mem (l.map fun p => (wordIndex (h.x base + p.2), h.x p.1)) } := by
  induction l generalizing h with
  | nil => rfl
  | cons p l ih =>
      have hstep : h.run ((p :: l).map fun p => .sw p.1 p.2 base) =
          (h.exec (.sw p.1 p.2 base)).run (l.map fun p => .sw p.1 p.2 base) := rfl
      rw [hstep, ih, List.map_cons, updates_cons]
      simp only [exec, storeInt_eq_update]

private theorem run_loads (base : Reg) (l : List (Reg × Word)) (h : Hart)
    (hbase : base ∉ l.map Prod.fst)
    (hzero : 0 ∉ l.map Prod.fst) :
    h.run (l.map fun p => .lw p.1 p.2 base) =
      { h with x := updates h.x (l.map fun p => (p.1, loadInt h.mem (h.x base + p.2))) } := by
  induction l generalizing h with
  | nil => rfl
  | cons p l ih =>
      rw [List.map_cons, List.mem_cons, not_or] at hbase hzero
      have hstep : h.run ((p :: l).map fun p => .lw p.1 p.2 base) =
          (h.exec (.lw p.1 p.2 base)).run (l.map fun p => .lw p.1 p.2 base) := rfl
      rw [hstep, ih _ hbase.2 hzero.2, List.map_cons, updates_cons]
      simp only [exec, setReg, if_neg (Ne.symm hzero.1), Function.update_of_ne hbase.1]

end Hart

/-! ## The save area -/

def fieldAddr (i : Fin 31) : Word := REGS_SAVE_ADDR + BitVec.ofNat 32 (4 * i.val)

/-- `*(StackFrame *)REGS_SAVE_ADDR` -/
def frameAt (mem : WordMemory) : StackFrame := fun i => loadInt mem (fieldAddr i)

def withFrame (mem : WordMemory) (frame : StackFrame) : WordMemory :=
  updates mem ((List.finRange 31).map fun i => (wordIndex (fieldAddr i), frame i))

private theorem nodup_fieldAddr :
    ((List.finRange 31).map fun i => wordIndex (fieldAddr i)).Nodup := by
  decide +kernel

theorem frameAt_withFrame (mem : WordMemory) (frame : StackFrame) :
    frameAt (withFrame mem frame) = frame := by
  funext i
  refine updates_of_mem ?_ (List.mem_map.mpr ⟨i, List.mem_finRange i, rfl⟩)
  rw [List.map_map]
  exact nodup_fieldAddr

def frameSlots : List (Reg × Word) :=
  (List.finRange 31).map fun i => (frameReg i, BitVec.ofNat 32 (4 * i.val))

private theorem withFrame_eq_slots (mem : WordMemory) (x : Reg → Word) :
    withFrame mem (fun i => x (frameReg i)) =
      updates mem (frameSlots.map fun p => (wordIndex (REGS_SAVE_ADDR + p.2), x p.1)) := by
  rw [frameSlots, List.map_map]
  rfl

def slotsA : List (Reg × Word) :=
  [(a0, 0), (a1, 4), (a2, 8), (a3, 12), (a4, 16), (a5, 20), (a6, 24), (a7, 28)]

def slotsB : List (Reg × Word) :=
  [(s1, 36), (s2, 40), (s3, 44), (s4, 48), (s5, 52), (s6, 56), (s7, 60), (s8, 64), (s9, 68),
    (s10, 72), (s11, 76), (t0, 80), (t1, 84), (t2, 88), (t3, 92), (t4, 96), (t5, 100), (t6, 104),
    (ra, 108), (sp, 112), (gp, 116), (tp, 120)]

private theorem fst_ne_of_all {l : List (Reg × Word)} {r : Reg}
    (h : (l.all fun p => p.1 != r) = true)
    {p : Reg × Word} (hp : p ∈ l) : p.1 ≠ r :=
  bne_iff_ne.mp (List.all_eq_true.mp h p hp)

private theorem frameSlots_eq : frameSlots = slotsA ++ (s0, 32) :: slotsB := by decide

namespace Hart

private theorem run_base (h : Hart) :
    h.run [.csrwMscratch s0, .la s0 REGS_SAVE_ADDR] =
      { h with x := Function.update h.x s0 REGS_SAVE_ADDR, mscratch := h.x s0 } := rfl

private theorem run_s0 (h : Hart) :
    h.run [.la a0 REGS_SAVE_ADDR, .csrrMscratch s0, .sw s0 32 a0, .la s0 REGS_SAVE_ADDR] =
      { h with
        x := Function.update (Function.update (Function.update h.x a0 REGS_SAVE_ADDR) s0
          h.mscratch) s0 REGS_SAVE_ADDR
        mem := storeInt h.mem (REGS_SAVE_ADDR + 32) h.mscratch } := rfl

/-- The save: each register is in its field, and `s0` points to the save area. -/
theorem run_isrSave (h : Hart) :
    (h.run isrSave).mem = withFrame h.mem (fun i => h.x (frameReg i)) ∧
      (h.run isrSave).x s0 = REGS_SAVE_ADDR ∧ (h.run isrSave).mepc = h.mepc := by
  have hcode : isrSave =
      [.csrwMscratch s0, .la s0 REGS_SAVE_ADDR] ++ slotsA.map (fun p => .sw p.1 p.2 s0) ++
        [.la a0 REGS_SAVE_ADDR, .csrrMscratch s0, .sw s0 32 a0, .la s0 REGS_SAVE_ADDR] ++
        slotsB.map (fun p => .sw p.1 p.2 s0) := rfl
  rw [hcode, run_append, run_append, run_append, run_base, run_stores, run_s0, run_stores]
  dsimp only
  refine ⟨?_, by simp only [Function.update_self], rfl⟩
  -- the registers that the two runs of stores read are those of the trap
  have hA : slotsA.map (fun p => (wordIndex (Function.update h.x s0 REGS_SAVE_ADDR s0 + p.2),
        Function.update h.x s0 REGS_SAVE_ADDR p.1)) =
      slotsA.map fun p => (wordIndex (REGS_SAVE_ADDR + p.2), h.x p.1) := by
    refine List.map_congr_left fun p hp => ?_
    have hne : p.1 ≠ s0 := fst_ne_of_all (by decide) hp
    rw [Function.update_self, Function.update_of_ne hne]
  have hB (y : Reg → Word) (hy : ∀ r, r ≠ s0 → r ≠ a0 → y r = h.x r) (hs0 : y s0 = REGS_SAVE_ADDR) :
      slotsB.map (fun p => (wordIndex (y s0 + p.2), y p.1)) =
        slotsB.map fun p => (wordIndex (REGS_SAVE_ADDR + p.2), h.x p.1) := by
    refine List.map_congr_left fun p hp => ?_
    rw [hs0, hy p.1 (fst_ne_of_all (by decide) hp) (fst_ne_of_all (by decide) hp)]
  rw [hA, hB _ (fun r hs0 ha0 => ?_) (by simp only [Function.update_self]), withFrame_eq_slots,
    frameSlots_eq, List.map_append, List.map_cons, updates_append, updates_cons,
    storeInt_eq_update]
  rw [Function.update_of_ne hs0, Function.update_of_ne hs0, Function.update_of_ne ha0,
    Function.update_of_ne hs0]

/-- The restore: each register is loaded from its field, `s0` last. -/
theorem run_isrRestore (h : Hart) (hs0 : h.x s0 = REGS_SAVE_ADDR) (i : Fin 31) :
    (h.run isrRestore).x (frameReg i) = frameAt h.mem i ∧
      (h.run isrRestore).mepc = h.mepc := by
  have hcode : isrRestore =
      (slotsA ++ slotsB).map (fun p => .lw p.1 p.2 s0) ++ [.lw s0 32 s0] := rfl
  rw [hcode, run_append, run_loads s0 _ h (by decide) (by decide)]
  set loaded := (slotsA ++ slotsB).map fun p => (p.1, loadInt h.mem (h.x s0 + p.2)) with hloaded
  have hkeys : loaded.map Prod.fst = (slotsA ++ slotsB).map Prod.fst := by
    rw [hloaded, List.map_map]
    rfl
  have hbase : updates h.x loaded s0 = REGS_SAVE_ADDR := by
    rw [updates_of_notMem (by rw [hkeys]; decide), hs0]
  refine ⟨?_, rfl⟩
  change Function.update (updates h.x loaded) s0 (loadInt h.mem (updates h.x loaded s0 + 32))
    (frameReg i) = _
  by_cases hi : frameReg i = s0
  · have hi8 : i = 8 := frameReg_injective hi
    rw [hi, Function.update_self, hbase, hi8]
    rfl
  · rw [Function.update_of_ne hi]
    refine updates_of_mem ?_ (List.mem_map.mpr ⟨(frameReg i, BitVec.ofNat 32 (4 * i.val)), ?_, ?_⟩)
    · rw [hkeys]
      decide
    · revert i
      decide
    · rw [hs0]
      rfl

end Hart

end PComputer.PseudOS
