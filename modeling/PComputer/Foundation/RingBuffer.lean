import Mathlib.Algebra.Group.Fin.Basic
import Mathlib.Algebra.GroupWithZero.Nat
import Mathlib.Data.Fin.Basic
import Mathlib.Logic.Function.Basic

/-!
# Ring buffers

`n` cells with the index of the oldest element and the index of the next free
cell.  One cell always stays free, so equal indices mean that it is empty.
-/

namespace PComputer.Foundation

structure RingBuffer (α : Type*) (n : Nat) where
  head : Fin n
  tail : Fin n
  cells : Fin n → α

namespace RingBuffer

variable {α : Type*} {n : Nat} (r : RingBuffer α n) {x : α}

def size : Nat := (r.tail - r.head).val

theorem size_lt : r.size < n := (r.tail - r.head).isLt

variable [NeZero n]

def contents : List α := (List.range r.size).map fun k => r.cells (r.head + Fin.ofNat n k)

def push (x : α) : RingBuffer α n :=
  { r with cells := Function.update r.cells r.tail x, tail := r.tail + 1 }

def pop (blank : α) : RingBuffer α n :=
  { r with cells := Function.update r.cells r.head blank, head := r.head + 1 }

@[simp] theorem length_contents : r.contents.length = r.size := by
  simp [contents]

theorem size_eq_zero : r.size = 0 ↔ r.tail = r.head := by
  unfold size
  rw [Fin.val_eq_zero_iff, sub_eq_zero]

theorem contents_eq_nil : r.contents = [] ↔ r.tail = r.head := by
  rw [← List.length_eq_zero_iff, length_contents, size_eq_zero]

/-! ## Indices -/

theorem val_add_one_of_ne {a : Fin n} (h : a + 1 ≠ 0) : (a + 1).val = a.val + 1 := by
  have hlt : a.val < n := a.isLt
  have hne : (a + 1).val ≠ 0 := fun hz => h (Fin.ext hz)
  rw [Fin.val_add, Fin.val_one', Nat.add_mod_mod] at hne ⊢
  have hsucc : a.val + 1 ≠ n := by
    intro heq
    rw [heq, Nat.mod_self] at hne
    exact hne rfl
  exact Nat.mod_eq_of_lt (by omega)

theorem ofNat_size : r.head + Fin.ofNat n r.size = r.tail := by
  rw [show Fin.ofNat n r.size = r.tail - r.head from Fin.ext (Nat.mod_eq_of_lt r.size_lt)]
  exact add_sub_cancel r.head r.tail

theorem index_ne_tail {k : Nat} (hk : k < r.size) : r.head + Fin.ofNat n k ≠ r.tail := by
  intro h
  have hval := congrArg Fin.val (add_left_cancel (h.trans r.ofNat_size.symm))
  have hsize := r.size_lt
  rw [Fin.val_ofNat, Fin.val_ofNat, Nat.mod_eq_of_lt (by omega), Nat.mod_eq_of_lt hsize] at hval
  omega

theorem index_ne_head {k : Nat} (hk : k + 1 < n) :
    r.head + 1 + Fin.ofNat n k ≠ r.head := by
  intro h
  rw [add_assoc, add_eq_left] at h
  have hval := congrArg Fin.val h
  rw [Fin.val_add, Fin.val_ofNat, Fin.val_one', Nat.mod_add_mod, Nat.add_mod_mod, Fin.val_zero,
    Nat.mod_eq_of_lt (by omega)] at hval
  omega

/-! ## The operations on the contents -/

theorem size_push (hfull : r.tail + 1 ≠ r.head) : (r.push x).size = r.size + 1 := by
  have hne : r.tail - r.head + 1 ≠ 0 := by
    intro h
    apply hfull
    rw [sub_add_eq_add_sub, sub_eq_zero] at h
    exact h
  unfold size push
  rw [show r.tail + 1 - r.head = r.tail - r.head + 1 from (sub_add_eq_add_sub _ _ _).symm]
  exact val_add_one_of_ne hne

theorem full_iff : r.tail + 1 = r.head ↔ r.contents.length + 1 = n := by
  rw [length_contents]
  constructor
  · intro h
    have hzero : r.tail - r.head + 1 = 0 := by
      rw [sub_add_eq_add_sub, h, sub_self]
    have hval := congrArg Fin.val hzero
    have hsize := r.size_lt
    rw [Fin.val_add, Fin.val_one', Nat.add_mod_mod, Fin.val_zero] at hval
    change (r.size + 1) % n = 0 at hval
    obtain ⟨m, hm⟩ := Nat.dvd_of_mod_eq_zero hval
    have hpos : 0 < m := by
      by_contra hz
      obtain rfl : m = 0 := by omega
      omega
    have hle : n * 1 ≤ n * m := Nat.mul_le_mul_left n hpos
    omega
  · intro h
    by_contra hfull
    have hpush := size_lt (r.push (r.cells r.head))
    rw [r.size_push hfull] at hpush
    omega

theorem contents_push (hfull : r.tail + 1 ≠ r.head) :
    (r.push x).contents = r.contents ++ [x] := by
  have hlast : (r.push x).cells (r.head + Fin.ofNat n r.size) = x := by
    rw [r.ofNat_size]
    exact Function.update_self _ _ _
  unfold contents
  rw [r.size_push hfull, List.range_succ, List.map_append, List.map_singleton]
  change _ ++ [(r.push x).cells (r.head + Fin.ofNat n r.size)] = _
  rw [hlast]
  congr 1
  apply List.map_congr_left
  intro k hk
  exact Function.update_of_ne (r.index_ne_tail (List.mem_range.mp hk)) _ _

theorem size_pop {blank : α} (hempty : r.tail ≠ r.head) : (r.pop blank).size + 1 = r.size := by
  have hne : r.tail - (r.head + 1) + 1 ≠ 0 := by
    rw [sub_add_eq_sub_sub, sub_add_cancel]
    exact fun h => hempty (sub_eq_zero.mp h)
  have hval := val_add_one_of_ne hne
  rw [sub_add_eq_sub_sub, sub_add_cancel] at hval
  unfold size pop
  rw [hval, sub_add_eq_sub_sub]

theorem contents_pop {blank : α} (hempty : r.tail ≠ r.head) :
    r.contents = r.cells r.head :: (r.pop blank).contents := by
  have hsize : (r.pop blank).size + 1 = r.size := r.size_pop hempty
  have hlt := r.size_lt
  unfold contents
  rw [← hsize, List.range_succ_eq_map, List.map_cons, List.map_map]
  congr 1
  · rw [show Fin.ofNat n 0 = 0 from Fin.ext (Nat.zero_mod n), add_zero]
  · apply List.map_congr_left
    intro k hk
    have hk := List.mem_range.mp hk
    have hindex : r.head + Fin.ofNat n (k + 1) = r.head + 1 + Fin.ofNat n k := by
      rw [add_assoc]
      congr 1
      apply Fin.ext
      rw [Fin.val_add, Fin.val_ofNat, Fin.val_ofNat, Fin.val_one', Nat.mod_add_mod, Nat.add_mod_mod,
        Nat.add_comm]
    change r.cells (r.head + Fin.ofNat n (k + 1)) = (r.pop blank).cells (r.head + 1 + Fin.ofNat n k)
    rw [hindex]
    exact (Function.update_of_ne (r.index_ne_head (by omega)) _ _).symm

end RingBuffer

end PComputer.Foundation
