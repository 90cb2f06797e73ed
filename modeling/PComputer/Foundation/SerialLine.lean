import Mathlib.Data.List.Infix
import Mathlib.Data.Nat.Basic

/-!
# An asynchronous serial line

A frame is a start bit, the bits of a byte from the least significant on, and a stop
bit; between frames the line is high.  A line is described by the bytes whose frames
have begun and by the clocks since the last of them began.
-/

namespace PComputer.Foundation

/-- Bit `k` of the frame of a byte; the line stays high from the stop bit on. -/
def frameBit (byte : BitVec 8) : Nat → Bool
  | 0 => false
  | k + 1 => if k < 8 then byte.getLsbD k else true

theorem frameBit_data {byte : BitVec 8} {k : Nat} (h : k < 8) :
    frameBit byte (k + 1) = byte.getLsbD k := if_pos h

theorem frameBit_stop {byte : BitVec 8} {k : Nat} (h : 9 ≤ k) : frameBit byte k = true := by
  obtain ⟨j, rfl⟩ : ∃ j, k = j + 1 := ⟨k - 1, by omega⟩
  exact if_neg (by omega)

structure SerialLine where
  begun : List (BitVec 8)
  clocks : Nat

namespace SerialLine

variable (bitClocks : Nat) (l : SerialLine) {l' : SerialLine} {line : Nat → SerialLine}
  {t k : Nat}

def byte : BitVec 8 := l.begun.getLast?.getD 0

def slot : Nat := l.clocks / bitClocks

def level : Bool := frameBit l.byte (l.slot bitClocks)

def tick : SerialLine := { l with clocks := l.clocks + 1 }

def next (d : BitVec 8) : SerialLine where
  begun := l.begun ++ [d]
  clocks := 0

@[simp] theorem byte_tick : l.tick.byte = l.byte := rfl

@[simp] theorem byte_next (d : BitVec 8) : (l.next d).byte = d := by
  simp [byte, next]

theorem level_next (d : BitVec 8) : (l.next d).level bitClocks = false := by
  rw [level, slot, next, Nat.zero_div, frameBit]

variable {bitClocks l}

theorem level_high (h : 9 ≤ l.slot bitClocks) : l.level bitClocks = true := frameBit_stop h

/-- A frame takes ten bit times, and the next one starts at the end of a bit time. -/
inductive Step (bitClocks : Nat) : SerialLine → SerialLine → Prop
  | runs (l : SerialLine) : Step bitClocks l l.tick
  | begins (l : SerialLine) (d : BitVec 8) (hlong : 10 * bitClocks ≤ l.clocks + 1)
      (hslot : bitClocks ∣ l.clocks + 1) :
      Step bitClocks l (l.next d)

/-! ## Runs of a line -/

theorem Step.begun_extends (h : Step bitClocks l l') : l.begun <+: l'.begun := by
  cases h with
  | runs => exact List.prefix_rfl
  | begins d _ _ => exact List.prefix_append _ _

theorem begun_extends (h : ∀ t, Step bitClocks (line t) (line (t + 1))) (t k : Nat) :
    (line t).begun <+: (line (t + k)).begun := by
  induction k with
  | zero => exact List.prefix_rfl
  | succ k ih => exact ih.trans (h (t + k)).begun_extends

theorem Step.eq_tick (h : Step bitClocks l l') (hin : l.clocks + 1 < 10 * bitClocks) :
    l' = l.tick := by
  cases h with
  | runs => rfl
  | begins d hlong _ => exact absurd hlong (Nat.not_le.mpr hin)

theorem Step.eq_tick_or (h : Step bitClocks l l') :
    l' = l.tick ∨ l'.clocks = 0 ∧ l.begun <+: l'.begun.dropLast := by
  cases h with
  | runs => exact Or.inl rfl
  | begins d _ _ => exact Or.inr ⟨rfl, by rw [next, List.dropLast_concat]⟩

theorem Step.clocks_mod {m : Nat} (h : Step bitClocks l l') (hm : m ∣ bitClocks) :
    l'.clocks % m = (l.clocks + 1) % m := by
  cases h with
  | runs => rfl
  | begins d _ hslot => exact (Nat.mod_eq_zero_of_dvd (Nat.dvd_trans hm hslot)).symm

theorem run_frame (h : ∀ t, Step bitClocks (line t) (line (t + 1)))
    (hk : (line t).clocks + k < 10 * bitClocks) :
    line (t + k) = ⟨(line t).begun, (line t).clocks + k⟩ := by
  induction k with
  | zero => rfl
  | succ k ih =>
      have hline := ih (by omega)
      rw [← Nat.add_assoc, (h (t + k)).eq_tick (by rw [hline]; exact hk), hline]
      rfl

theorem run_or_begun (h : ∀ t, Step bitClocks (line t) (line (t + 1))) (t k : Nat) :
    line (t + k) = ⟨(line t).begun, (line t).clocks + k⟩ ∨
      ∃ j ≤ k, (line (t + j)).clocks = 0 ∧
        (line t).begun <+: (line (t + j)).begun.dropLast := by
  induction k with
  | zero => exact Or.inl rfl
  | succ k ih =>
      rcases ih with hline | ⟨j, hj, hbegun⟩
      · rcases (h (t + k)).eq_tick_or with htick | hnext
        · exact Or.inl (by rw [← Nat.add_assoc, htick, hline]; rfl)
        · rw [hline] at hnext
          exact Or.inr ⟨k + 1, le_rfl, hnext⟩
      · exact Or.inr ⟨j, by omega, hbegun⟩

end SerialLine

end PComputer.Foundation
