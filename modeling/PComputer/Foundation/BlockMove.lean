import Mathlib.Logic.Function.Basic
import Mathlib.Data.Int.Order.Basic
import Mathlib.Tactic.SplitIfs

/-!
# Descending loops over an array

A C loop that counts an index down by a constant step, and what it does to an
array when its body clears an element or copies one upwards within the array.
-/

namespace PComputer.Foundation

variable {σ α : Type*}

/-- `for (i = start; i >= 0; i -= step) body` -/
def countdown (step : Nat) (body : Int → σ → σ) (i : Int) (s : σ) : σ :=
  if _h : 0 ≤ i ∧ 0 < step then countdown step body (i - step) (body i s) else s
termination_by (i + 1).toNat
decreasing_by omega

def descend (body : Nat → σ → σ) : Nat → σ → σ
  | 0, s => s
  | n + 1, s => descend body n (body n s)

theorem countdown_eq_descend {step r : Nat} (hr : r < step) (body : Int → σ → σ) (n : Nat) (s : σ) :
    countdown step body ((n * step + r : Nat) - step) s =
      descend (fun k => body ((k * step + r : Nat) : Int)) n s := by
  induction n generalizing s with
  | zero =>
      unfold countdown descend
      rw [dif_neg]
      omega
  | succ n ih =>
      have hstart : (((n + 1) * step + r : Nat) : Int) - step = (n * step + r : Nat) := by
        rw [Nat.succ_mul]
        omega
      unfold countdown descend
      rw [hstart, dif_pos ⟨Int.natCast_nonneg _, by omega⟩]
      exact ih _

section Array

variable (m : Int → α)

theorem descend_fill (v : α) (start : Int) (n : Nat) (k : Int) :
    descend (fun i m => Function.update m (start + i) v) n m k =
      if start ≤ k ∧ k < start + n then v else m k := by
  induction n generalizing m with
  | zero =>
      unfold descend
      rw [if_neg]
      omega
  | succ n ih =>
      unfold descend
      rw [ih]
      by_cases hk : k = start + n
      · subst hk
        rw [if_neg (by omega), Function.update_self, if_pos (by omega)]
      · rw [Function.update_of_ne hk]
        congr 1
        apply propext
        omega

/-- Copying upwards from the end never reads what it has written. -/
theorem descend_move {source dest : Int} (h : source ≤ dest) (n : Nat) (k : Int) :
    descend (fun i m => Function.update m (dest + i) (m (source + i))) n m k =
      if dest ≤ k ∧ k < dest + n then m (source + (k - dest)) else m k := by
  induction n generalizing m with
  | zero =>
      unfold descend
      rw [if_neg]
      omega
  | succ n ih =>
      unfold descend
      rw [ih]
      by_cases hlast : k = dest + n
      · subst hlast
        rw [if_neg (by omega), Function.update_self, if_pos (by omega)]
        congr 1
        omega
      · by_cases hk : dest ≤ k ∧ k < dest + n
        · rw [if_pos hk, if_pos (by omega), Function.update_of_ne (by omega)]
        · rw [if_neg hk, if_neg (by omega), Function.update_of_ne hlast]

end Array

end PComputer.Foundation
