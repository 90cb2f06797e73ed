import PComputer.Foundation.Clocked
import PComputer.Foundation.ByteLanes
import Mathlib.Algebra.BigOperators.Intervals
import Mathlib.Algebra.Order.Group.Abs
import Mathlib.Tactic.Ring

/-!
# `TMDS_encoder` of `hdmi.v`

A byte of a colour becomes a word of ten bits.  The receiver needs no state to take the
byte back out of it, and the words of a line of pixels carry as many ones as zeros, up to
what `balance_acc` records.
-/

namespace PComputer.Rtl

open PComputer.Foundation

structure TmdsIn where
  vd : BitVec 8
  cd : BitVec 2
  vde : Bool

structure TmdsEncoder where
  tmds : BitVec 10
  balanceAcc : BitVec 4

namespace TmdsEncoder

def ones {w : Nat} (x : BitVec w) : Nat := (List.range w).countP x.getLsbD

/-! ## The word of a byte -/

section Word

variable (vd : BitVec 8)

def nb1s : BitVec 4 := BitVec.ofNat 4 (ones vd)

def xnor : Bool := nb1s vd > 4 || nb1s vd == 4 && !vd.getLsbD 0

def chain : (k : Nat) → BitVec (k + 1)
  | 0 => BitVec.ofBool (vd.getLsbD 0)
  | k + 1 => BitVec.cons ((chain k).msb ^^ vd.getLsbD (k + 1) ^^ xnor vd) (chain k)

def qm : BitVec 8 := chain vd 7

def qm8 : Bool := !xnor vd

def balance : BitVec 4 := BitVec.ofNat 4 (ones (qm vd)) - 4

end Word

section Balance

variable (q8 : Bool) (balance acc : BitVec 4)

def balanceSignEq : Bool := balance.msb == acc.msb

def level : Bool := balance == 0 || acc == 0

def invertQm : Bool := if level balance acc then !q8 else balanceSignEq balance acc

def balanceAccInc : BitVec 4 :=
  balance -
    (BitVec.ofBool ((q8 ^^ !balanceSignEq balance acc) && !level balance acc)).setWidth 4

def balanceAccNew : BitVec 4 :=
  if invertQm q8 balance acc then acc - balanceAccInc q8 balance acc
  else acc + balanceAccInc q8 balance acc

end Balance

def dataWord (vd : BitVec 8) (invert : Bool) : BitVec 10 :=
  BitVec.ofBool invert ++ BitVec.ofBool (qm8 vd) ++ (qm vd ^^^ fill 8 invert)

def tmdsData (vd : BitVec 8) (acc : BitVec 4) : BitVec 10 :=
  dataWord vd (invertQm (qm8 vd) (balance vd) acc)

def tmdsCode (cd : BitVec 2) : BitVec 10 :=
  if cd.getLsbD 1 then if cd.getLsbD 0 then 0b1010101011 else 0b0101010100
  else if cd.getLsbD 0 then 0b0010101011 else 0b1101010100

def cycle (i : TmdsIn) (e : TmdsEncoder) : TmdsEncoder where
  tmds := if i.vde then tmdsData i.vd e.balanceAcc else tmdsCode i.cd
  balanceAcc :=
    if i.vde then balanceAccNew (qm8 i.vd) (balance i.vd) e.balanceAcc else 0

end TmdsEncoder

/-! ## The receiver -/

inductive TmdsSymbol where
  | control (cd : BitVec 2)
  | data (vd : BitVec 8)
  deriving DecidableEq

def TmdsIn.symbol (i : TmdsIn) : TmdsSymbol := if i.vde then .data i.vd else .control i.cd

namespace TmdsEncoder

def unchain (q8 : Bool) (q : BitVec 8) : BitVec 8 :=
  q ^^^ q <<< 1 ^^^ (fill 7 (!q8) ++ 0#1 : BitVec 8)

def received (word : BitVec 10) : TmdsSymbol :=
  match [0, 1, 2, 3].find? (tmdsCode · == word) with
  | some cd => .control cd
  | none =>
      .data (unchain (word.getLsbD 8) (word.extractLsb' 0 8 ^^^ fill 8 (word.getLsbD 9)))

section Word

variable {vd : BitVec 8}

@[simp] theorem getLsbD_chain_zero (k : Nat) : (chain vd k).getLsbD 0 = vd.getLsbD 0 := by
  induction k with
  | zero => simp [chain]
  | succ k ih => rw [chain, BitVec.getLsbD_cons, if_neg k.succ_ne_zero.symm, ih]

private theorem getLsbD_chain_succ {j k : Nat} (h : j < k) :
    (chain vd k).getLsbD (j + 1) =
      ((chain vd k).getLsbD j ^^ vd.getLsbD (j + 1) ^^ xnor vd) := by
  induction k with
  | zero => cases h
  | succ k ih =>
      simp only [chain, BitVec.getLsbD_cons, Nat.add_right_cancel_iff]
      rcases Nat.lt_succ_iff_lt_or_eq.mp h with hj | rfl
      · rw [if_neg (by omega), if_neg (by omega), ih hj]
      · simp [BitVec.msb_eq_getLsbD_last]

private theorem getLsbD_unchain_zero (q8 : Bool) (q : BitVec 8) :
    (unchain q8 q).getLsbD 0 = q.getLsbD 0 := by
  decide +revert

private theorem getLsbD_unchain_succ (q8 : Bool) (q : BitVec 8) {k : Nat} (h : k < 7) :
    (unchain q8 q).getLsbD (k + 1) = (q.getLsbD (k + 1) ^^ q.getLsbD k ^^ !q8) := by
  rw [unchain, BitVec.getLsbD_xor, BitVec.getLsbD_xor, BitVec.getLsbD_shiftLeft,
    BitVec.getLsbD_append, getLsbD_fill]
  have hlow : k + 1 < 8 := by omega
  simp [h, hlow]

private theorem unchain_qm : unchain (qm8 vd) (qm vd) = vd := by
  apply BitVec.eq_of_getLsbD_eq
  intro k hk
  cases k with
  | zero => rw [getLsbD_unchain_zero, qm, getLsbD_chain_zero]
  | succ k =>
      rw [getLsbD_unchain_succ _ _ (by omega), qm, getLsbD_chain_succ (by omega), qm8, Bool.not_not]
      grind

private theorem dataWord_ne_tmdsCode (vd : BitVec 8) (invert : Bool) (cd : BitVec 2) :
    tmdsCode cd ≠ dataWord vd invert := by
  decide +kernel +revert

end Word

private theorem received_tmdsCode (cd : BitVec 2) : received (tmdsCode cd) = .control cd := by
  decide +revert

theorem fields (invert q8 : Bool) (q : BitVec 8) :
    (BitVec.ofBool invert ++ BitVec.ofBool q8 ++ q).getLsbD 9 = invert ∧
      (BitVec.ofBool invert ++ BitVec.ofBool q8 ++ q).getLsbD 8 = q8 ∧
      (BitVec.ofBool invert ++ BitVec.ofBool q8 ++ q).extractLsb' 0 8 = q := by
  refine ⟨?_, ?_, ?_⟩
  · simp only [BitVec.getLsbD_append]
    simp
  · simp only [BitVec.getLsbD_append]
    simp
  · apply BitVec.eq_of_getLsbD_eq
    intro k hk
    simp only [BitVec.getLsbD_extractLsb', BitVec.getLsbD_append]
    simp [hk]

private theorem received_dataWord (vd : BitVec 8) (invert : Bool) :
    received (dataWord vd invert) = .data vd := by
  have hnone : [0, 1, 2, 3].find? (tmdsCode · == dataWord vd invert) = none := by
    simp [dataWord_ne_tmdsCode]
  obtain ⟨hinvert, hq8, hq⟩ := fields invert (qm8 vd) (qm vd ^^^ fill 8 invert)
  rw [received, hnone, dataWord, hinvert, hq8, hq, BitVec.xor_assoc, BitVec.xor_self,
    BitVec.xor_zero, unchain_qm]

theorem received_cycle (i : TmdsIn) (e : TmdsEncoder) :
    received (e.cycle i).tmds = i.symbol := by
  cases hvde : i.vde
  · simp [cycle, TmdsIn.symbol, hvde, received_tmdsCode]
  · simp [cycle, TmdsIn.symbol, hvde, tmdsData, received_dataWord]

/-! ## Ones and zeros -/

def disparity (word : BitVec 10) : Int := ones word - 5

private theorem ones_append {m n : Nat} (x : BitVec m) (y : BitVec n) :
    ones (x ++ y) = ones x + ones y := by
  have hlow : (List.range n).countP (x ++ y).getLsbD = ones y := by
    apply List.countP_congr
    intro k hk
    simp [BitVec.getLsbD_append, List.mem_range.mp hk]
  have hhigh : (List.range m).countP ((x ++ y).getLsbD ∘ (n + ·)) = ones x := by
    apply List.countP_congr
    intro k hk
    simp [BitVec.getLsbD_append]
  have hsplit : List.range (m + n) = List.range n ++ (List.range m).map (n + ·) := by
    rw [Nat.add_comm, List.range_add]
  rw [ones, hsplit, List.countP_append, List.countP_map, hlow, hhigh, Nat.add_comm]

private theorem ones_le {n : Nat} (x : BitVec n) : ones x ≤ n :=
  List.countP_le_length.trans_eq List.length_range

private theorem ones_xor_fill {n : Nat} (x : BitVec n) (bit : Bool) :
    ones (x ^^^ fill n bit) = if bit then n - ones x else ones x := by
  have hbit : ones (x ^^^ fill n bit) = (List.range n).countP fun k => x.getLsbD k ^^ bit := by
    apply List.countP_congr
    intro k hk
    rw [BitVec.getLsbD_xor, getLsbD_fill]
    simp [List.mem_range.mp hk]
  rw [hbit]
  cases bit
  · simp [ones]
  · have hall := List.length_eq_countP_add_countP x.getLsbD (l := List.range n)
    simp only [List.length_range] at hall
    simp only [Bool.xor_true, ones]
    grind

@[simp] theorem ones_ofBool (b : Bool) : ones (BitVec.ofBool b) = b.toNat := by
  decide +revert

/-- `balance_acc` stays within four of zero and moves by the disparity of the word. -/
theorem balanceAccNew_moves {n : Nat} (hn : n < 9) (q8 : Bool) (acc : BitVec 4)
    (hacc : |acc.toInt| ≤ 4) :
    |(balanceAccNew q8 (BitVec.ofNat 4 n - 4) acc).toInt| ≤ 4 ∧
      (balanceAccNew q8 (BitVec.ofNat 4 n - 4) acc).toInt =
        acc.toInt + ((invertQm q8 (BitVec.ofNat 4 n - 4) acc).toNat + q8.toNat +
          (if invertQm q8 (BitVec.ofNat 4 n - 4) acc then 8 - n else n : Nat) - 5 : Int) := by
  revert n
  decide +revert

private theorem ones_tmdsData (vd : BitVec 8) (acc : BitVec 4) :
    ones (tmdsData vd acc) =
      (invertQm (qm8 vd) (balance vd) acc).toNat + (qm8 vd).toNat +
        if invertQm (qm8 vd) (balance vd) acc then 8 - ones (qm vd) else ones (qm vd) := by
  rw [tmdsData, dataWord, ones_append, ones_append, ones_ofBool, ones_ofBool, ones_xor_fill]

/-! ## Runs -/

def Balanced (e : TmdsEncoder) : Prop := |e.balanceAcc.toInt| ≤ 4

theorem Balanced.cycle {e : TmdsEncoder} (h : e.Balanced) (i : TmdsIn) :
    (e.cycle i).Balanced := by
  cases hvde : i.vde
  · simp [TmdsEncoder.cycle, Balanced, hvde]
  · simp only [TmdsEncoder.cycle, Balanced, hvde]
    exact (balanceAccNew_moves (Nat.lt_succ_of_le (ones_le (qm i.vd))) _ _ h).1

private theorem balanceAcc_cycle {e : TmdsEncoder} (h : e.Balanced) {i : TmdsIn}
    (hvde : i.vde = true) :
    (e.cycle i).balanceAcc.toInt = e.balanceAcc.toInt + disparity (e.cycle i).tmds := by
  have hmoves := (balanceAccNew_moves (Nat.lt_succ_of_le (ones_le (qm i.vd))) (qm8 i.vd) _ h).2
  simp only [TmdsEncoder.cycle, hvde, disparity, ones_tmdsData, if_true, balance]
  rw [hmoves, Nat.cast_add, Nat.cast_add]
  rfl

variable {ins : Nat → TmdsIn} {e : TmdsEncoder}

private theorem balanced_trace (ins : Nat → TmdsIn) (h : e.Balanced) (t : Nat) :
    (trace cycle ins e t).Balanced := by
  induction t with
  | zero => exact h
  | succ t ih => exact ih.cycle (ins t)

/-- Over a stretch of pixels the accumulator adds up the disparities of their words. -/
theorem sum_disparity (h : e.Balanced) {m n : Nat} (hmn : m ≤ n)
    (hvde : ∀ k, m ≤ k → k < n → (ins k).vde = true) :
    ∑ k ∈ Finset.Ico m n, disparity (trace cycle ins e (k + 1)).tmds =
      (trace cycle ins e n).balanceAcc.toInt - (trace cycle ins e m).balanceAcc.toInt := by
  induction n, hmn using Nat.le_induction with
  | base => simp
  | succ n hmn ih =>
      have hnext := balanceAcc_cycle (balanced_trace ins h n) (hvde n hmn (by omega))
      rw [Finset.sum_Ico_succ_top hmn, ih fun k hk hkn => hvde k hk (by omega), trace_succ, hnext]
      ring

def powerUp : TmdsEncoder := { tmds := 0, balanceAcc := 0 }

/-- In every run from power-up the receiver gets each input back from its word alone, and
the words of a stretch of pixels have as many ones as zeros up to sixteen, or up to eight
when the stretch begins after a control symbol. -/
theorem received_and_balanced (ins : Nat → TmdsIn) :
    (∀ t, received (trace cycle ins powerUp (t + 1)).tmds = (ins t).symbol) ∧
      ∀ m n, m ≤ n → (∀ k, m ≤ k → k < n → (ins k).vde = true) →
        |∑ k ∈ Finset.Ico m n, disparity (trace cycle ins powerUp (k + 1)).tmds| ≤
          if m = 0 ∨ (ins (m - 1)).vde = false then 4 else 8 := by
  have hstart : powerUp.Balanced := by simp [Balanced, powerUp]
  refine ⟨fun t => received_cycle _ _, fun m n hmn hvde => ?_⟩
  have hm : |(trace cycle ins powerUp m).balanceAcc.toInt| ≤ 4 := balanced_trace ins hstart m
  have hn : |(trace cycle ins powerUp n).balanceAcc.toInt| ≤ 4 := balanced_trace ins hstart n
  rw [sum_disparity hstart hmn hvde]
  split_ifs with hfirst
  · have hzero : (trace cycle ins powerUp m).balanceAcc = 0 := by
      cases m with
      | zero => rfl
      | succ m =>
          have hcontrol : (ins m).vde = false := by simpa using hfirst
          simp [trace_succ, TmdsEncoder.cycle, hcontrol]
    rwa [hzero, BitVec.ofNat_eq_ofNat, BitVec.toInt_zero, sub_zero]
  · rw [abs_le] at hm hn ⊢
    omega

end TmdsEncoder

end PComputer.Rtl
