import PComputer.Foundation.ByteLanes
import PComputer.Foundation.Clocked

/-!
# `timer_interrupt.v`

Two registers count the clocks since the reset, next to a periodic interrupt and one that
the CPU sets.  The CPU reads the count one half at a time.
-/

namespace PComputer.Rtl

open PComputer.Foundation

structure Timer where
  counter : Word
  irqCounter : Bool
  irqCmp : Bool
  irqMode : Bool
  mtimel : Word
  mtimeh : Word
  mtimecmp : Word

structure TimerIn where
  rst : Bool
  a : BitVec 3
  d : Word
  we : Bool

namespace Timer

variable (timerCounter : Word) (i : TimerIn) (s : Timer)

def irq : Bool := if s.irqMode then s.irqCmp else s.irqCounter

def spo (a : BitVec 3) : Word :=
  if a = 0 then byteSwap s.mtimel else if a = 1 then byteSwap s.mtimeh else 0

def mtimecmpNext : Word :=
  if i.we ∧ i.a = 2 then byteSwap i.d
  else if s.mtimecmp ≠ 0 then s.mtimecmp - 1
  else s.mtimecmp

def cycle : Timer where
  counter := if i.rst ∨ s.counter = timerCounter then 0 else s.counter + 1
  irqCounter := !i.rst && s.counter == timerCounter
  irqCmp := s.mtimecmp == 1
  irqMode := !i.rst && if i.we ∧ i.a = 3 then i.d != 0 else s.irqMode
  mtimel := if i.rst ∨ s.mtimel = 0xffffffff then 0 else s.mtimel + 1
  mtimeh := if i.rst then 0 else if s.mtimel = 0xffffffff then s.mtimeh + 1 else s.mtimeh
  mtimecmp := if i.rst then 0 else s.mtimecmpNext i

/-! ## The count -/

def mtime : BitVec 64 := s.mtimeh ++ s.mtimel

variable {timerCounter i s}

theorem toNat_mtime : s.mtime.toNat = 2 ^ 32 * s.mtimeh.toNat + s.mtimel.toNat := by
  have hlow := s.mtimel.isLt
  rw [mtime, BitVec.toNat_append, ← Nat.shiftLeft_add_eq_or_of_lt hlow, Nat.shiftLeft_eq,
    Nat.mul_comm]

private theorem mtime_cycle (hrst : i.rst = false) :
    (s.cycle timerCounter i).mtime = s.mtime + 1 := by
  have hlow := s.mtimel.isLt
  have hhigh := s.mtimeh.isLt
  apply BitVec.eq_of_toNat_eq
  rw [BitVec.toNat_add, toNat_mtime, toNat_mtime]
  by_cases hcarry : s.mtimel = 0xffffffff#32
  · simp only [cycle, hrst, hcarry, Bool.false_eq_true, false_or, if_true, if_false,
      BitVec.toNat_add, BitVec.ofNat_eq_ofNat, BitVec.toNat_ofNat]
    omega
  · have hless : s.mtimel.toNat ≠ 0xffffffff := fun h => hcarry (BitVec.eq_of_toNat_eq h)
    simp only [cycle, hrst, hcarry, Bool.false_eq_true, false_or, if_false,
      BitVec.toNat_add, BitVec.ofNat_eq_ofNat, BitVec.toNat_ofNat]
    omega

/-- Without a reset the registers count the clocks, modulo `2 ^ 64`. -/
theorem mtime_trace {ins : Nat → TimerIn} {n : Nat} (hrst : ∀ t < n, (ins t).rst = false) :
    (trace (cycle timerCounter) ins s n).mtime = s.mtime + BitVec.ofNat 64 n := by
  induction n with
  | zero => exact (BitVec.add_zero _).symm
  | succ n ih =>
      rw [trace_succ, mtime_cycle (hrst n (by omega)), ih fun t ht => hrst t (by omega),
        BitVec.add_assoc, BitVec.ofNat_add]
      rfl

end Timer

end PComputer.Rtl
