import PComputer.Foundation.ByteLanes

/-!
# `register_file.v`

Thirty-two words with two combinational read ports and one write port.
Register 0 is never written and always reads as zero, whatever its cell holds.
-/

namespace PComputer.Rtl

open PComputer.Foundation

abbrev RegisterFile := BitVec 5 → Word

namespace RegisterFile

def read (regfile : RegisterFile) (ra : BitVec 5) : Word :=
  if ra = 0#5 then 0 else regfile ra

def cycle (regfile : RegisterFile) (we : Bool) (wa : BitVec 5) (wd : Word) : RegisterFile :=
  if we ∧ wa ≠ 0#5 then fun r => if r = wa then wd else regfile r else regfile

@[simp] theorem read_zero (regfile : RegisterFile) : regfile.read 0#5 = 0#32 := rfl

@[simp] theorem cycle_idle (regfile : RegisterFile) (wa : BitVec 5) (wd : Word) :
    regfile.cycle false wa wd = regfile := by
  simp [cycle]

theorem read_cycle (regfile : RegisterFile) (wa r : BitVec 5) (wd : Word) :
    (regfile.cycle true wa wd).read r = if r = wa ∧ wa ≠ 0#5 then wd else regfile.read r := by
  by_cases hwa : wa = 0#5
  · simp [cycle, hwa]
  by_cases hr : r = 0#5
  · subst hr
    simp [Ne.symm hwa]
  · simp [read, cycle, hwa, hr]

end RegisterFile

end PComputer.Rtl
