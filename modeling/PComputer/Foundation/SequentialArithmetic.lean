import Mathlib.Data.BitVec
import Mathlib.Tactic.Linarith
import Mathlib.Tactic.Ring

/-!
# Sequential multiplication and division

Shift-and-add on words and restoring division in one register of double width.
The register of a division holds the remainder above and, from the right, the
quotient bits that are known; the dividend may be negative, and then the quotient
is that of floor division.
-/

namespace PComputer.Foundation

/-! ## Shift and add -/

structure ShiftAdd (w : Nat) where
  sum : BitVec w
  a : BitVec w
  b : BitVec w

namespace ShiftAdd

variable {w : Nat}

def step (s : ShiftAdd w) : ShiftAdd w where
  sum := if s.b.getLsbD 0 then s.sum + s.a else s.sum
  a := s.a <<< 1
  b := s.b >>> 1

theorem shiftLeft_one (a : BitVec w) : a <<< 1 = a * 2 := by
  apply BitVec.eq_of_toNat_eq
  rw [BitVec.toNat_shiftLeft, BitVec.toNat_mul, Nat.shiftLeft_eq, pow_one]
  exact (Nat.mul_mod_mod ..).symm

theorem split_low (b : BitVec w) : b = (b >>> 1) * 2 + if b.getLsbD 0 then 1 else 0 := by
  have hlow : b.getLsbD 0 = decide (b.toNat % 2 = 1) := by
    rw [BitVec.getLsbD, Nat.testBit_zero]
  have hhigh : b >>> 1 = BitVec.ofNat w (b.toNat / 2) := by
    apply BitVec.eq_of_toNat_eq
    rw [BitVec.toNat_ushiftRight, Nat.shiftRight_eq_div_pow, pow_one, BitVec.toNat_ofNat]
    exact (Nat.mod_eq_of_lt (lt_of_le_of_lt (Nat.div_le_self ..) b.isLt)).symm
  have hbit : (if b.getLsbD 0 then 1 else 0 : BitVec w) = BitVec.ofNat w (b.toNat % 2) := by
    rw [hlow]
    rcases Nat.mod_two_eq_zero_or_one b.toNat with h | h <;> simp [h]
  calc b = BitVec.ofNat w (b.toNat / 2 * 2 + b.toNat % 2) := by
        rw [Nat.div_add_mod', BitVec.ofNat_toNat, BitVec.setWidth_eq]
    _ = _ := by
        rw [BitVec.ofNat_add, BitVec.ofNat_mul, hhigh, hbit]
        rfl

theorem step_value (s : ShiftAdd w) : s.step.sum + s.step.a * s.step.b = s.sum + s.a * s.b := by
  have hb := split_low s.b
  unfold step
  dsimp only
  rw [shiftLeft_one]
  conv_rhs => rw [hb]
  split <;> ring

theorem iterate_value (s : ShiftAdd w) (n : Nat) :
    (step^[n] s).sum + (step^[n] s).a * (step^[n] s).b = s.sum + s.a * s.b := by
  induction n with
  | zero => rfl
  | succ n ih => rw [Function.iterate_succ_apply', step_value, ih]

theorem iterate_b (s : ShiftAdd w) (n : Nat) : (step^[n] s).b = s.b >>> n := by
  induction n with
  | zero => simp
  | succ n ih =>
      rw [Function.iterate_succ_apply', step, ih, ← BitVec.shiftRight_add]

theorem iterate_sum (s : ShiftAdd w) {n : Nat} (hb : s.b.toNat < 2 ^ n) :
    (step^[n] s).sum = s.sum + s.a * s.b := by
  have hzero : (step^[n] s).b = 0 := by
    apply BitVec.eq_of_toNat_eq
    rw [iterate_b, BitVec.toNat_ushiftRight, Nat.shiftRight_eq_div_pow, Nat.div_eq_of_lt hb]
    simp
  rw [← iterate_value s n, hzero]
  simp

end ShiftAdd

/-! ## Restoring division -/

def divideStep (w d v : Nat) : Nat :=
  if d ≤ 2 * v / 2 ^ w then 2 * v + 1 - d * 2 ^ w else 2 * v

theorem divideStep_le (w d v : Nat) : divideStep w d v + 1 ≤ 2 * (v + 1) := by
  unfold divideStep
  split <;> omega

theorem divideStep_iterate_lt {w d a k : Nat} (ha : a < 2 ^ w) :
    (divideStep w d)^[k] a < 2 ^ (w + k) := by
  have hle : (divideStep w d)^[k] a + 1 ≤ 2 ^ k * (a + 1) := by
    induction k with
    | zero => simp
    | succ k ih =>
        rw [Function.iterate_succ_apply']
        have hstep := divideStep_le w d ((divideStep w d)^[k] a)
        rw [pow_succ]
        linarith
  have hmul : 2 ^ k * (a + 1) ≤ 2 ^ k * 2 ^ w := Nat.mul_le_mul_left _ ha
  rw [Nat.add_comm w, pow_add]
  omega

/--
After `k` steps of the division of `a` by `d` the register `v` stands for the
quotient `q` so far, of which it holds `bits`.
-/
structure Divides (w d : Nat) (a : Int) (k v : Nat) (q : Int) (bits : Nat) : Prop where
  value : (v : Int) + q * (d * 2 ^ w) = a * 2 ^ k + bits
  bits_lt : bits < 2 ^ k
  dvd : ((2 : Int) ^ k) ∣ bits - q
  remainder : v < d * 2 ^ w

namespace Divides

variable {w d k v bits : Nat} {a q : Int}

theorem start {a : Nat} (ha : a < 2 ^ w) (hd : 0 < d) : Divides w d a 0 a 0 0 where
  value := by simp
  bits_lt := by simp
  dvd := by simp
  remainder := lt_of_lt_of_le ha (Nat.le_mul_of_pos_left _ hd)

theorem step (h : Divides w d a k v q bits) :
    ∃ q' bits', Divides w d a (k + 1) (divideStep w d v) q' bits' := by
  have hvalue := h.value
  have hbits := h.bits_lt
  obtain ⟨c, hc⟩ := h.dvd
  have hrem := h.remainder
  unfold divideStep
  by_cases hle : d ≤ 2 * v / 2 ^ w
  · have hle' : d * 2 ^ w ≤ 2 * v := (Nat.le_div_iff_mul_le (by positivity)).mp hle
    rw [if_pos hle]
    refine ⟨2 * q + 1, 2 * bits + 1, ?_, ?_, ⟨c, ?_⟩, ?_⟩
    · push_cast [Nat.cast_sub (show d * 2 ^ w ≤ 2 * v + 1 by omega)]
      rw [pow_succ]
      linarith
    · rw [pow_succ]
      omega
    · push_cast
      rw [pow_succ]
      linarith
    · omega
  · have hlt : 2 * v < d * 2 ^ w := (Nat.div_lt_iff_lt_mul (by positivity)).mp (by omega)
    rw [if_neg hle]
    refine ⟨2 * q, 2 * bits, ?_, ?_, ⟨c, ?_⟩, ?_⟩
    · push_cast
      rw [pow_succ]
      linarith
    · rw [pow_succ]
      omega
    · push_cast
      rw [pow_succ]
      linarith
    · omega

theorem iterate (h : Divides w d a k v q bits) (n : Nat) :
    ∃ q' bits', Divides w d a (k + n) ((divideStep w d)^[n] v) q' bits' := by
  induction n with
  | zero => exact ⟨q, bits, h⟩
  | succ n ih =>
      obtain ⟨_, _, ih⟩ := ih
      rw [Function.iterate_succ_apply']
      exact ih.step

/-- After `w` steps the halves of the register are the remainder and the quotient. -/
theorem result (h : Divides w d a w v q bits) :
    ((v / 2 ^ w : Nat) : Int) = a % d ∧ ((v % 2 ^ w : Nat) : Int) = a / d % 2 ^ w := by
  obtain ⟨c, hc⟩ := h.dvd
  have hvalue := h.value
  have hhigh : v / 2 ^ w < d := Nat.div_lt_of_lt_mul (by rw [Nat.mul_comm]; exact h.remainder)
  have hsplit := Nat.div_add_mod' v (2 ^ w)
  have hlt : v % 2 ^ w < 2 ^ w := Nat.mod_lt v (by positivity)
  generalize v / 2 ^ w = high at hhigh hsplit ⊢
  generalize v % 2 ^ w = low at hsplit hlt ⊢
  have hv : (high : Int) * 2 ^ w + low = v := by exact_mod_cast hsplit
  -- the bits are the low half, and the rest is `2 ^ w` times the division's equation
  have hlow : low = bits := by
    have heq : (low : Int) = bits + 2 ^ w * (a - q * d - high) := by linarith
    have hmod : (low : Int) % 2 ^ w = (bits : Int) % 2 ^ w := by
      rw [heq, Int.add_mul_emod_self_left]
    have hnat : low % 2 ^ w = bits % 2 ^ w := by exact_mod_cast hmod
    rwa [Nat.mod_eq_of_lt hlt, Nat.mod_eq_of_lt h.bits_lt] at hnat
  subst hlow
  have hpos : (0 : Int) < 2 ^ w := by positivity
  have ha : a = high + d * q := mul_right_cancel₀ hpos.ne' (by linarith)
  have hd : (0 : Int) < d := by omega
  have hq : a / d = q := by
    rw [ha, Int.add_mul_ediv_left _ _ hd.ne', Int.ediv_eq_zero_of_lt (by omega) (by omega),
      Int.zero_add]
  refine ⟨?_, ?_⟩
  · rw [ha, Int.add_mul_emod_self_left, Int.emod_eq_of_lt (by omega) (by omega)]
  · have hbits : q = low + 2 ^ w * -c := by linarith
    have hlt' : (low : Int) < 2 ^ w := by exact_mod_cast hlt
    rw [hq, hbits, Int.add_mul_emod_self_left, Int.emod_eq_of_lt (by omega) hlt']

end Divides

end PComputer.Foundation
