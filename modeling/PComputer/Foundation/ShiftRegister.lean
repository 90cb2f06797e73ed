import Mathlib.Data.BitVec
import Mathlib.Data.List.Basic

/-!
# Shift registers

A word goes over a wire most significant bit first: the sender shifts its register and
fills it with ones, the receiver shifts the bits in at the other end.  A counter tells how
many bits are left.
-/

namespace PComputer.Foundation

variable {w : Nat} (v : BitVec w) {n k : Nat}

/-- The bits of a word, most significant first. -/
def bits : List Bool := (List.range w).map v.getMsbD

@[simp] theorem length_bits : (bits v).length = w := by simp [bits]

theorem getMsbD_shiftConcat (b : Bool) (hk : k < w) :
    (v.shiftConcat b).getMsbD k = if k + 1 < w then v.getMsbD (k + 1) else b := by
  rw [BitVec.getMsbD_eq_getLsbD, BitVec.getLsbD_shiftConcat, BitVec.getMsbD_eq_getLsbD]
  by_cases hlast : k + 1 < w
  · have hpos : w - 1 - k ≠ 0 := by omega
    rw [if_pos hlast, if_neg hpos, show w - 1 - k - 1 = w - 1 - (k + 1) by omega]
    simp [hk, hlast]
    omega
  · rw [if_neg hlast, if_pos (by omega)]
    simp [hk]
    omega

/-! ## The sender -/

def shifted : BitVec w → Nat → BitVec w
  | v, 0 => v
  | v, n + 1 => shifted (v.shiftConcat true) n

def shiftedOut : BitVec w → Nat → List Bool
  | _, 0 => []
  | v, n + 1 => v.getMsbD 0 :: shiftedOut (v.shiftConcat true) n

theorem getMsbD_shifted (hk : k < w) :
    (shifted v n).getMsbD k = if k + n < w then v.getMsbD (k + n) else true := by
  induction n generalizing v with
  | zero => rw [shifted, Nat.add_zero, if_pos hk]
  | succ n ih =>
      rw [shifted, ih]
      by_cases hlt : k + n < w
      · rw [if_pos hlt, getMsbD_shiftConcat v true hlt]
        rfl
      · rw [if_neg hlt, if_neg (by omega)]

theorem shiftedOut_eq (hn : n ≤ w) : shiftedOut v n = (List.range n).map v.getMsbD := by
  induction n generalizing v with
  | zero => rfl
  | succ n ih =>
      rw [shiftedOut, ih _ (by omega), List.range_succ_eq_map, List.map_cons, List.map_map]
      congr 1
      refine List.map_congr_left fun k hk => ?_
      have hlt : k < n := List.mem_range.mp hk
      rw [getMsbD_shiftConcat v true (by omega), if_pos (by omega)]
      rfl

theorem shiftedOut_width : shiftedOut v w = bits v := shiftedOut_eq v le_rfl

/-! ## The receiver -/

theorem getMsbD_foldl_shiftConcat (bs : List Bool) (hk : k < w) :
    (bs.foldl BitVec.shiftConcat v).getMsbD k =
      if k + bs.length < w then v.getMsbD (k + bs.length)
      else bs.getD (k + bs.length - w) true := by
  induction bs generalizing v with
  | nil => rw [List.foldl_nil, List.length_nil, Nat.add_zero, if_pos hk]
  | cons b bs ih =>
      rw [List.foldl_cons, ih, List.length_cons]
      rcases Nat.lt_trichotomy (k + bs.length + 1) w with hlt | heq | hgt
      · rw [if_pos (by omega), if_pos (by omega), getMsbD_shiftConcat v b (by omega), if_pos hlt]
        rfl
      · rw [if_pos (by omega), if_neg (by omega), getMsbD_shiftConcat v b (by omega),
          if_neg (by omega), show k + (bs.length + 1) - w = 0 by omega, List.getD_cons_zero]
      · rw [if_neg (by omega), if_neg (by omega),
          show k + (bs.length + 1) - w = k + bs.length - w + 1 by omega, List.getD_cons_succ]

theorem foldl_shiftConcat_bits (u : BitVec w) : (bits v).foldl BitVec.shiftConcat u = v := by
  refine BitVec.eq_of_getMsbD_eq fun k hk => ?_
  rw [getMsbD_foldl_shiftConcat _ _ hk, length_bits, if_neg (by omega), Nat.add_sub_cancel]
  simp [bits, hk]

theorem take_succ_bits (hk : k < w) : (bits v).take (k + 1) = (bits v).take k ++ [v.getMsbD k] := by
  rw [List.take_add_one]
  congr 1
  simp [bits, hk]

/-! ## Words of several parts -/

theorem bits_append {m : Nat} (u : BitVec m) : bits (v ++ u) = bits v ++ bits u := by
  unfold bits
  rw [List.range_add, List.map_append, List.map_map]
  congr 1
  · refine List.map_congr_left fun k hk => ?_
    have hlt : k < w := List.mem_range.mp hk
    rw [BitVec.getMsbD_append, if_neg (by omega)]
  · refine List.map_congr_left fun k _ => ?_
    rw [Function.comp_apply, BitVec.getMsbD_append, if_pos (by omega), Nat.add_sub_cancel_left]

def ofBits (w : Nat) (bs : List Bool) : BitVec w := bs.foldl BitVec.shiftConcat 0

theorem ofBits_concat (bs : List Bool) (b : Bool) :
    ofBits w (bs ++ [b]) = (ofBits w bs).shiftConcat b := by
  unfold ofBits
  rw [List.foldl_append, List.foldl_cons, List.foldl_nil]

theorem ofBits_bits {m : Nat} (hm : w ≤ m) : ofBits m (bits v) = v.setWidth m := by
  refine BitVec.eq_of_getMsbD_eq fun k hk => ?_
  unfold ofBits
  rw [getMsbD_foldl_shiftConcat _ _ hk, length_bits, BitVec.getMsbD_eq_getLsbD,
    BitVec.getMsbD_eq_getLsbD, BitVec.getLsbD_setWidth]
  split_ifs with hlow
  · simp [BitVec.getLsbD_of_ge v (m - 1 - k) (by omega)]
  · have hlt : k + w - m < w := by omega
    simp only [bits, List.getD_eq_getElem?_getD, List.getElem?_map, List.getElem?_range hlt,
      Option.map_some, Option.getD_some, BitVec.getMsbD_eq_getLsbD, hlt, hk, decide_true,
      Bool.true_and]
    rw [show w - 1 - (k + w - m) = m - 1 - k by omega]
    simp only [show m - 1 - k < m by omega, decide_true, Bool.true_and]

/-! ## Counters -/

section Counter

variable {x y : BitVec w}

theorem toNat_sub_of_eq (h : x.toNat = n + y.toNat) : (x - y).toNat = n := by
  rw [BitVec.toNat_sub_of_le (BitVec.le_def.mpr (by omega)), h, Nat.add_sub_cancel]

theorem exists_toNat_eq_succ (h : x ≠ 0) : ∃ n, x.toNat = n + 1 := by
  refine Nat.exists_eq_succ_of_ne_zero fun hzero => h ?_
  exact BitVec.eq_of_toNat_eq (hzero.trans BitVec.toNat_zero.symm)

end Counter

end PComputer.Foundation
