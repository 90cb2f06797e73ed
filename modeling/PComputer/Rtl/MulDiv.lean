import PComputer.Foundation.Clocked
import PComputer.Foundation.SequentialArithmetic
import PComputer.Isa.Rv32m
import PComputer.Rtl.Rv32m

/-!
# Runs of the multiplier and divider

From the start pulse on the unit repeats one step until its counter has the number of
rounds of the operation; the last of them puts the outcome into `r`.
-/

namespace PComputer.Rtl

open PComputer.Foundation PComputer.Isa

namespace Rv32m

def busy (s : Rv32m) : Rv32m := if s.mulOrDiv then s.mulStep else s.divStep

def rounds (m : BitVec 3) : Nat := if m = 0b001 then 64 else 32

def outcome (s : Rv32m) : Word :=
  if s.mulOrDiv then
    if s.mreg.extractLsb' 0 2 = 0b00 then s.result.extractLsb' 0 32
    else s.result.extractLsb' 32 32
  else s.divResult

private theorem finishCond_eq (s : Rv32m) :
    s.finishCond = (s.cnt == BitVec.ofNat 7 (rounds s.mreg)) := by
  have hmodes : ∀ m : BitVec 3, (if !m.getLsbD 2 then
      if m.extractLsb' 0 2 = 0b01 then (64 : BitVec 7) else 32 else 32) =
        BitVec.ofNat 7 (rounds m) := by
    decide
  rw [← hmodes, finishCond, mulOrDiv]
  split_ifs <;> rfl

section Busy

variable (s : Rv32m)

@[simp] theorem mreg_busy : s.busy.mreg = s.mreg := by
  unfold busy
  split <;> rfl

@[simp] theorem cnt_busy : s.busy.cnt = s.cnt + 1 := by
  unfold busy
  split <;> rfl

@[simp] theorem divfix_busy : s.busy.divfix = s.divfix := by
  unfold busy
  split <;> rfl

@[simp] theorem remfix_busy : s.busy.remfix = s.remfix := by
  unfold busy
  split <;> rfl

private theorem finish_busy : s.busy.finish = (s.finishCond || s.finish) := by
  have hor (c f : Bool) : (if c = true then true else f) = (c || f) := by cases c <;> rfl
  unfold busy
  split <;> exact hor _ _

private theorem r_busy (h : s.finishCond = true) : s.busy.r = s.outcome := by
  unfold busy outcome
  split
  · exact if_pos h
  · exact if_pos h

end Busy

/-! ## The rounds -/

@[simp] theorem mreg_iterate (s : Rv32m) (k : Nat) : (busy^[k] s).mreg = s.mreg := by
  induction k with
  | zero => rfl
  | succ k ih => rw [Function.iterate_succ_apply', mreg_busy, ih]

@[simp] theorem mulOrDiv_iterate (s : Rv32m) (k : Nat) : (busy^[k] s).mulOrDiv = s.mulOrDiv := by
  rw [mulOrDiv, mreg_iterate, mulOrDiv]

@[simp] theorem divfix_iterate (s : Rv32m) (k : Nat) : (busy^[k] s).divfix = s.divfix := by
  induction k with
  | zero => rfl
  | succ k ih => rw [Function.iterate_succ_apply', divfix_busy, ih]

@[simp] theorem remfix_iterate (s : Rv32m) (k : Nat) : (busy^[k] s).remfix = s.remfix := by
  induction k with
  | zero => rfl
  | succ k ih => rw [Function.iterate_succ_apply', remfix_busy, ih]

private theorem rounds_le (m : BitVec 3) : rounds m ≤ 64 := by
  unfold rounds
  split <;> decide

variable {s : Rv32m} {k : Nat}

private theorem cnt_iterate (hcnt : s.cnt = 0) (k : Nat) : (busy^[k] s).cnt = BitVec.ofNat 7 k := by
  induction k with
  | zero => exact hcnt
  | succ k ih =>
      rw [Function.iterate_succ_apply', cnt_busy, ih]
      exact (BitVec.ofNat_add k 1).symm

private theorem finishCond_iterate (hcnt : s.cnt = 0) (hk : k ≤ rounds s.mreg) :
    (busy^[k] s).finishCond = decide (k = rounds s.mreg) := by
  have hle := rounds_le s.mreg
  rw [finishCond_eq, cnt_iterate hcnt, mreg_iterate, Bool.eq_iff_iff, beq_iff_eq,
    decide_eq_true_iff]
  refine ⟨fun h => ?_, fun h => h ▸ rfl⟩
  have hnat := congrArg BitVec.toNat h
  simp only [BitVec.toNat_ofNat] at hnat
  omega

private theorem finish_iterate (hcnt : s.cnt = 0) (hfinish : s.finish = false)
    (hk : k ≤ rounds s.mreg) :
    (busy^[k] s).finish = false := by
  induction k with
  | zero => exact hfinish
  | succ k ih =>
      rw [Function.iterate_succ_apply', finish_busy, ih (by omega),
        finishCond_iterate hcnt (by omega), Bool.or_false, decide_eq_false_iff_not]
      omega

/-- A start pulse, and no other one before the unit has finished. -/
structure Started (ins : Nat → Rv32mIn) (tr : Nat → Rv32m) : Prop where
  step : ∀ n, tr (n + 1) = cycle (ins n) (tr n)
  start : (ins 0).start = true
  waits : ∀ n, 1 ≤ n → (∀ k, 1 ≤ k → k ≤ n → (tr k).finish = false) → (ins n).start = false

def pulse (op : MulDivOp) (a b : Word) (n : Nat) : Rv32mIn where
  start := n == 0
  a := a
  b := b
  m := op.funct3

private theorem started_pulse (op : MulDivOp) (a b : Word) (s : Rv32m) :
    Started (pulse op a b) (trace cycle (pulse op a b) s) where
  step _ := rfl
  start := rfl
  waits n hn _ := by
    change (n == 0) = false
    rw [beq_eq_false_iff_ne]
    omega

/-- `finish` is low from the start pulse until `r` has the value. -/
def Yields (tr : Nat → Rv32m) (r : Word) : Prop :=
  ∃ n, 1 ≤ n ∧ (∀ k, 1 ≤ k → k < n → (tr k).finish = false) ∧ (tr n).finish = true ∧ (tr n).r = r

namespace Started

variable {ins : Nat → Rv32mIn} {tr : Nat → Rv32m}

private theorem tr_one (h : Started ins tr) : tr 1 = (tr 0).start (ins 0) := by
  rw [h.step 0, cycle, if_pos h.start]

private theorem mreg_one (h : Started ins tr) : (tr 1).mreg = (ins 0).m := by
  rw [h.tr_one]
  rfl

private theorem cnt_one (h : Started ins tr) : (tr 1).cnt = 0 := by
  rw [h.tr_one]
  rfl

private theorem finish_one (h : Started ins tr) : (tr 1).finish = false := by
  rw [h.tr_one]
  rfl

private theorem tr_eq (h : Started ins tr) {k : Nat} (hk : k ≤ rounds (ins 0).m + 1) :
    tr (1 + k) = busy^[k] (tr 1) := by
  induction k using Nat.strong_induction_on with
  | _ k ih =>
      cases k with
      | zero => rfl
      | succ k =>
          have hlow : ∀ j, 1 ≤ j → j ≤ 1 + k → (tr j).finish = false := by
            intro j hj hjk
            obtain ⟨j, rfl⟩ := Nat.exists_eq_add_of_le hj
            rw [ih j (by omega) (by omega)]
            exact finish_iterate h.cnt_one h.finish_one (by rw [h.mreg_one]; omega)
          rw [← Nat.add_assoc, h.step, cycle, if_neg (by rw [h.waits _ (by omega) hlow]; decide),
            Function.iterate_succ_apply', ← ih k (by omega) (by omega)]
          rfl

private theorem finish_eq (h : Started ins tr) {k : Nat} (hk : k ≤ rounds (ins 0).m) :
    (tr (1 + k)).finish = false := by
  rw [h.tr_eq (by omega)]
  exact finish_iterate h.cnt_one h.finish_one (by rw [h.mreg_one]; omega)

theorem last (h : Started ins tr) :
    (tr (1 + (rounds (ins 0).m + 1))).finish = true ∧
      (tr (1 + (rounds (ins 0).m + 1))).r = (busy^[rounds (ins 0).m] (tr 1)).outcome := by
  have hcond : (busy^[rounds (ins 0).m] (tr 1)).finishCond = true := by
    rw [finishCond_iterate h.cnt_one (by rw [h.mreg_one]), h.mreg_one, decide_eq_true rfl]
  rw [h.tr_eq le_rfl, Function.iterate_succ_apply', finish_busy, hcond]
  exact ⟨rfl, r_busy _ hcond⟩

private theorem yields_iff (h : Started ins tr) (r : Word) :
    Yields tr r ↔ (busy^[rounds (ins 0).m] (tr 1)).outcome = r := by
  obtain ⟨hfinish, hr⟩ := h.last
  constructor
  · rintro ⟨n, hn, hlow, hhigh, rfl⟩
    obtain ⟨k, rfl⟩ := Nat.exists_eq_add_of_le hn
    have hle : k ≤ rounds (ins 0).m + 1 := by
      by_contra hlt
      rw [hlow _ (by omega) (by omega)] at hfinish
      cases hfinish
    have hge : rounds (ins 0).m < k := by
      by_contra hlt
      rw [h.finish_eq (by omega)] at hhigh
      cases hhigh
    obtain rfl : k = rounds (ins 0).m + 1 := by omega
    exact hr.symm
  · rintro rfl
    refine ⟨_, by omega, fun k hk hlt => ?_, hfinish, hr⟩
    obtain ⟨k, rfl⟩ := Nat.exists_eq_add_of_le hk
    exact h.finish_eq (by omega)

end Started

/-! ## Multiplication -/

def acc (s : Rv32m) : ShiftAdd 64 := ⟨s.result.setWidth 64, s.aext, s.bext⟩

private theorem acc_busy (s : Rv32m) (h : s.mulOrDiv = true) : s.busy.acc = s.acc.step := by
  unfold busy
  rw [if_pos h, acc, acc, mulStep, ShiftAdd.step]
  dsimp only
  congr 1
  split
  · rw [BitVec.setWidth_add _ _ (by decide), BitVec.setWidth_setWidth_of_le _ (by decide),
      BitVec.setWidth_eq]
  · rfl

private theorem acc_iterate (s : Rv32m) (h : s.mulOrDiv = true) (k : Nat) :
    (busy^[k] s).acc = ShiftAdd.step^[k] s.acc := by
  induction k with
  | zero => rfl
  | succ k ih =>
      rw [Function.iterate_succ_apply', Function.iterate_succ_apply', acc_busy _ (by simpa), ih]

private theorem outcome_mul (s : Rv32m) (h : s.mulOrDiv = true) : s.outcome =
    if s.mreg.extractLsb' 0 2 = 0b00 then s.acc.sum.extractLsb' 0 32
    else s.acc.sum.extractLsb' 32 32 := by
  have hextract (n : Nat) (hn : n ≤ 32) :
      (s.result.setWidth 64).extractLsb' n 32 = s.result.extractLsb' n 32 := by
    apply BitVec.eq_of_getLsbD_eq
    intro k hk
    simp only [BitVec.getLsbD_extractLsb', BitVec.getLsbD_setWidth]
    have hlt : decide (n + k < 64) = true := by
      rw [decide_eq_true_iff]
      omega
    rw [hlt, Bool.true_and]
  rw [outcome, if_pos h, acc]
  dsimp only
  rw [hextract 0 (by decide), hextract 32 (by decide)]

/-! ### The operands as integers -/

private theorem extend_signed (a : Word) : extend (a.getLsbD 31) a = BitVec.ofInt 64 a.toInt := by
  change _ = a.signExtend 64
  apply BitVec.eq_of_getLsbD_eq
  intro k hk
  simp only [extend, BitVec.getLsbD_append, getLsbD_fill, BitVec.getLsbD_signExtend,
    BitVec.msb_eq_getLsbD_last]
  by_cases hlow : k < 32
  · simp [hlow, hk]
  · have hhigh : k - 32 < 32 := by omega
    simp [hlow, hk, hhigh]

private theorem toNat_extend_false (a : Word) : (extend false a).toNat = a.toNat := by
  rw [extend, BitVec.toNat_append]
  simp [fill]

private theorem extend_unsigned (a : Word) : extend false a = BitVec.ofInt 64 a.toNat := by
  apply BitVec.eq_of_toNat_eq
  have ha := a.isLt
  rw [toNat_extend_false, BitVec.toNat_ofInt]
  omega

private theorem extractLsb'_zero_ofInt (z : Int) :
    (BitVec.ofInt 64 z).extractLsb' 0 32 = BitVec.ofInt 32 z := by
  apply BitVec.eq_of_toNat_eq
  rw [BitVec.extractLsb'_toNat, Nat.shiftRight_zero, BitVec.toNat_ofInt, BitVec.toNat_ofInt]
  omega

private theorem extractLsb'_high_ofInt (z : Int) :
    (BitVec.ofInt 64 z).extractLsb' 32 32 = BitVec.ofInt 32 (z / 2 ^ 32) := by
  apply BitVec.eq_of_toNat_eq
  rw [BitVec.extractLsb'_toNat, Nat.shiftRight_eq_div_pow, BitVec.toNat_ofInt, BitVec.toNat_ofInt]
  omega

/-- The rounds of a multiplication form the product of the extended operands. -/
theorem outcome_product (h : s.mulOrDiv = true) (hsum : s.result = 0)
    (hrounds : s.bext.toNat < 2 ^ rounds s.mreg) {x y : Int} (ha : s.aext = BitVec.ofInt 64 x)
    (hb : s.bext = BitVec.ofInt 64 y) : (busy^[rounds s.mreg] s).outcome =
      if s.mreg.extractLsb' 0 2 = 0b00 then BitVec.ofInt 32 (x * y)
      else BitVec.ofInt 32 (x * y / 2 ^ 32) := by
  have hacc : (busy^[rounds s.mreg] s).acc.sum = BitVec.ofInt 64 (x * y) := by
    rw [acc_iterate s h, ShiftAdd.iterate_sum s.acc hrounds, BitVec.ofInt_mul, ← ha, ← hb, acc,
      hsum]
    exact BitVec.zero_add _
  rw [outcome_mul _ (by simpa), hacc, mreg_iterate, extractLsb'_zero_ofInt, extractLsb'_high_ofInt]

private theorem mul_operands {s : Rv32m} {i : Rv32mIn} (hm : i.m.getLsbD 2 = false) :
    (s.start i).aext = BitVec.ofInt 64 (if i.m = 0b011 then i.a.toNat else i.a.toInt) ∧
      (s.start i).bext = BitVec.ofInt 64 (if i.m = 0b001 then i.b.toInt else i.b.toNat) := by
  have hmodes : ∀ m : BitVec 3, m.getLsbD 2 = false →
      (m.extractLsb' 0 2 = 0b11 ↔ m = 0b011) ∧ (m.extractLsb' 0 2 = 0b01 ↔ m = 0b001) := by
    decide
  obtain ⟨hthree, hone⟩ := hmodes i.m hm
  simp only [start, hm, Bool.not_false, if_true, ne_eq, hthree, hone, ite_not]
  constructor
  · split
    · exact extend_unsigned i.a
    · exact extend_signed i.a
  · split
    · exact extend_signed i.b
    · exact extend_unsigned i.b

private theorem rounds_enough {s : Rv32m} {i : Rv32mIn} (hm : i.m.getLsbD 2 = false) :
    (s.start i).bext.toNat < 2 ^ rounds i.m := by
  by_cases hone : i.m = 0b001
  · rw [hone]
    exact (s.start i).bext.isLt
  · have hb := i.b.isLt
    rw [(mul_operands hm).2, if_neg hone, ← extend_unsigned, toNat_extend_false, rounds,
      if_neg hone]
    exact hb

theorem Started.multiplies {ins : Nat → Rv32mIn} {tr : Nat → Rv32m} (h : Started ins tr)
    (op : MulDivOp) (hop : op.IsMul) (hm : (ins 0).m = op.funct3) :
    Yields tr (op.eval (ins 0).a (ins 0).b) := by
  have hmul : (ins 0).m.getLsbD 2 = false := by
    rw [hm]
    cases op <;> first | rfl | exact hop.elim
  obtain ⟨ha, hb⟩ := mul_operands (s := tr 0) hmul
  have hmulOrDiv : (tr 1).mulOrDiv = true := by rw [mulOrDiv, h.mreg_one, hmul, Bool.not_false]
  have houtcome := outcome_product hmulOrDiv (by rw [h.tr_one]; rfl)
    (by rw [h.mreg_one, h.tr_one]; exact rounds_enough hmul) (h.tr_one ▸ ha) (h.tr_one ▸ hb)
  rw [h.mreg_one] at houtcome
  rw [h.yields_iff, houtcome, hm]
  cases op with
  | mul =>
      change BitVec.ofInt 32 ((ins 0).a.toInt * (ins 0).b.toNat) =
        BitVec.ofInt 32 ((ins 0).a.toInt * (ins 0).b.toInt)
      rw [BitVec.ofInt_mul, BitVec.ofInt_mul, BitVec.ofInt_toInt, BitVec.ofInt_toInt,
        BitVec.ofInt_natCast, BitVec.ofNat_toNat, BitVec.setWidth_eq]
  | mulh => rfl
  | mulhsu => rfl
  | mulhu =>
      have hcast : ((ins 0).a.toNat : Int) * (ins 0).b.toNat / 2 ^ 32 =
          (((ins 0).a.toNat * (ins 0).b.toNat / 2 ^ 32 : Nat) : Int) := by push_cast; rfl
      change BitVec.ofInt 32 (((ins 0).a.toNat : Int) * (ins 0).b.toNat / 2 ^ 32) = _
      rw [hcast, BitVec.ofInt_natCast]
      rfl
  | _ => exact hop.elim

theorem multiplies_mulhsu :
    Yields (trace cycle (pulse .mulhsu 0x80000000 0xffff8000) default) 0x80004000 :=
  (started_pulse .mulhsu 0x80000000 0xffff8000 default).multiplies .mulhsu trivial rfl

/-! ## Division -/

def divNext (bext aext : BitVec 64) : BitVec 64 :=
  if aext.extractLsb' 31 32 ≥ bext.extractLsb' 32 32 then
    if aext.getLsbD 63 then (aext <<< 1) + bext + 1 else (aext <<< 1) - bext + 1
  else aext <<< 1

private theorem aext_busy {s : Rv32m} (h : s.mulOrDiv = false) :
    s.busy.aext = divNext s.bext s.aext := by
  unfold busy
  rw [if_neg (by rw [h]; decide)]
  rfl

private theorem bext_busy {s : Rv32m} (h : s.mulOrDiv = false) : s.busy.bext = s.bext := by
  unfold busy
  rw [if_neg (by rw [h]; decide)]
  rfl

private theorem bext_iterate {s : Rv32m} (h : s.mulOrDiv = false) (k : Nat) :
    (busy^[k] s).bext = s.bext := by
  induction k with
  | zero => rfl
  | succ k ih => rw [Function.iterate_succ_apply', bext_busy (by simpa), ih]

private theorem aext_iterate {s : Rv32m} (h : s.mulOrDiv = false) (k : Nat) :
    (busy^[k] s).aext = (divNext s.bext)^[k] s.aext := by
  induction k with
  | zero => rfl
  | succ k ih =>
      rw [Function.iterate_succ_apply', Function.iterate_succ_apply', aext_busy (by simpa),
        bext_iterate h, ih]

private theorem getLsbD_top {v : BitVec 64} (hv : v.toNat < 2 ^ 63) : v.getLsbD 63 = false := by
  rw [BitVec.getLsbD, Nat.testBit_eq_decide_div_mod_eq, decide_eq_false_iff_not]
  omega

private theorem toNat_divNext {v : BitVec 64} (d : Word) (hv : v.toNat < 2 ^ 63) :
    (divNext (d ++ 0#32) v).toNat = divideStep 32 d.toNat v.toNat := by
  have hd := d.isLt
  have hb : (d ++ 0#32 : BitVec 64).toNat = d.toNat * 2 ^ 32 := by
    rw [BitVec.toNat_append]
    simp [Nat.shiftLeft_eq]
  have hcompare : v.extractLsb' 31 32 ≥ (d ++ 0#32 : BitVec 64).extractLsb' 32 32 ↔
      d.toNat ≤ 2 * v.toNat / 2 ^ 32 := by
    rw [ge_iff_le, BitVec.le_def, BitVec.extractLsb'_toNat, BitVec.extractLsb'_toNat, hb,
      Nat.shiftRight_eq_div_pow, Nat.shiftRight_eq_div_pow]
    omega
  unfold divNext divideStep
  rw [getLsbD_top hv]
  by_cases hle : d.toNat ≤ 2 * v.toNat / 2 ^ 32
  · rw [if_pos (hcompare.mpr hle), if_pos hle, if_neg (by decide)]
    have hone : (1 : BitVec 64).toNat = 1 := rfl
    rw [BitVec.toNat_add, BitVec.toNat_sub, hb, BitVec.toNat_shiftLeft, Nat.shiftLeft_eq, hone]
    omega
  · rw [if_neg (fun h => hle (hcompare.mp h)), if_neg hle, BitVec.toNat_shiftLeft,
      Nat.shiftLeft_eq]
    omega

private theorem toNat_divNext_iterate {v : BitVec 64} (d : Word) {k : Nat}
    (hv : ∀ j < k, (divideStep 32 d.toNat)^[j] v.toNat < 2 ^ 63) :
    ((divNext (d ++ 0#32))^[k] v).toNat = (divideStep 32 d.toNat)^[k] v.toNat := by
  induction k with
  | zero => rfl
  | succ k ih =>
      have hk := ih fun j hj => hv j (by omega)
      rw [Function.iterate_succ_apply', Function.iterate_succ_apply', toNat_divNext, hk]
      rw [hk]
      exact hv k (by omega)

structure Divided (v : BitVec 64) (a : Int) (d : Nat) : Prop where
  quotient : v.extractLsb' 0 32 = BitVec.ofInt 32 (a / d)
  remainder : v.extractLsb' 32 32 = BitVec.ofInt 32 (a % d)

private theorem Divided.of_divides {v : BitVec 64} {a q : Int} {d : Word} {bits : Nat}
    (h : Divides 32 d.toNat a 32 v.toNat q bits) : Divided v a d.toNat := by
  obtain ⟨hhigh, hlow⟩ := h.result
  have hv := v.isLt
  have hrem := h.remainder
  constructor
  · apply BitVec.eq_of_toNat_eq
    rw [BitVec.extractLsb'_toNat, Nat.shiftRight_zero, BitVec.toNat_ofInt]
    omega
  · apply BitVec.eq_of_toNat_eq
    rw [BitVec.extractLsb'_toNat, Nat.shiftRight_eq_div_pow, BitVec.toNat_ofInt]
    omega

private theorem divided_nonneg {v : BitVec 64} {d : Word} (hv : v.toNat < 2 ^ 32)
    (hd : 0 < d.toNat) :
    Divided ((divNext (d ++ 0#32))^[32] v) v.toNat d.toNat := by
  have hbound (j : Nat) (hj : j < 32) : (divideStep 32 d.toNat)^[j] v.toNat < 2 ^ 63 :=
    lt_of_lt_of_le (divideStep_iterate_lt hv) (Nat.pow_le_pow_right (by decide) (by omega))
  obtain ⟨q, bits, h⟩ := (Divides.start hv hd).iterate 32
  rw [← toNat_divNext_iterate d hbound] at h
  exact .of_divides (by simpa using h)

private theorem divNext_zero (z : Int) :
    divNext (0#32 ++ 0#32) (BitVec.ofInt 64 z) = BitVec.ofInt 64 (2 * z + 1) := by
  have hdouble : BitVec.ofInt 64 z <<< 1 = BitVec.ofInt 64 (2 * z) := by
    rw [ShiftAdd.shiftLeft_one, Int.mul_comm, BitVec.ofInt_mul]
    rfl
  have hone : BitVec.ofInt 64 (2 * z) + 1 = BitVec.ofInt 64 (2 * z + 1) := by
    rw [BitVec.ofInt_add]
    rfl
  have hzero : (0#32 ++ 0#32 : BitVec 64) = 0 := by decide
  unfold divNext
  rw [hzero, if_pos (by rw [ge_iff_le, BitVec.le_def]; exact Nat.zero_le _), hdouble,
    add_zero, sub_zero, ite_self, hone]

private theorem divNext_zero_iterate (z : Int) (k : Nat) :
    (divNext (0#32 ++ 0#32))^[k] (BitVec.ofInt 64 z) = BitVec.ofInt 64 ((z + 1) * 2 ^ k - 1) := by
  induction k with
  | zero => simp
  | succ k ih =>
      rw [Function.iterate_succ_apply', ih, divNext_zero, pow_succ]
      congr 1
      ring

/-- A negative dividend: the first round adds the divisor, and the rest is as before. -/
theorem divided_neg {a : Int} {d : Word} (hd : 0 < d.toNat) (hd' : d.toNat ≤ 2 ^ 31)
    (ha : a < 0) (hfirst : 0 < 2 * a + d.toNat * 2 ^ 32 + 1) (hlow : -2 ^ 32 ≤ a) :
    Divided ((divNext (d ++ 0#32))^[32] (BitVec.ofInt 64 a)) a d.toNat := by
  have hb : (d ++ 0#32 : BitVec 64).toNat = d.toNat * 2 ^ 32 := by
    rw [BitVec.toNat_append]
    simp [Nat.shiftLeft_eq]
  have hv : (BitVec.ofInt 64 a).toNat = 2 ^ 64 - a.natAbs := by
    rw [BitVec.toNat_ofInt]
    omega
  have htop : (BitVec.ofInt 64 a).getLsbD 63 = true := by
    rw [BitVec.getLsbD, hv, Nat.testBit_eq_decide_div_mod_eq, decide_eq_true_iff]
    omega
  have hround : (divNext (d ++ 0#32) (BitVec.ofInt 64 a)).toNat =
      (2 * a + d.toNat * 2 ^ 32 + 1).toNat := by
    have hcompare : (BitVec.ofInt 64 a).extractLsb' 31 32 ≥
        (d ++ 0#32 : BitVec 64).extractLsb' 32 32 := by
      rw [ge_iff_le, BitVec.le_def, BitVec.extractLsb'_toNat, BitVec.extractLsb'_toNat, hb, hv,
        Nat.shiftRight_eq_div_pow, Nat.shiftRight_eq_div_pow]
      omega
    have hone : (1 : BitVec 64).toNat = 1 := rfl
    unfold divNext
    rw [if_pos hcompare, htop, if_pos rfl, BitVec.toNat_add, BitVec.toNat_add, hb,
      BitVec.toNat_shiftLeft, Nat.shiftLeft_eq, hv, hone]
    omega
  have hdivides :
      Divides 32 d.toNat a 1 (divNext (d ++ 0#32) (BitVec.ofInt 64 a)).toNat (-1) 1 := by
    refine ⟨?_, by decide, ⟨1, by decide⟩, ?_⟩
    · rw [hround]
      omega
    · rw [hround]
      omega
  have hbound (j : Nat) (_ : j < 31) : (divideStep 32 d.toNat)^[j]
      (divNext (d ++ 0#32) (BitVec.ofInt 64 a)).toNat < 2 ^ 63 := by
    obtain ⟨_, _, h⟩ := hdivides.iterate j
    have hrem := h.remainder
    omega
  obtain ⟨q, bits, h⟩ := hdivides.iterate 31
  rw [← toNat_divNext_iterate d hbound] at h
  rw [Function.iterate_succ_apply]
  exact .of_divides h

/-! ### The operands of a signed division -/

private theorem getLsbD_sign (a : Word) : a.getLsbD 31 = decide (a.toInt < 0) := by
  rw [← BitVec.msb_eq_toInt, BitVec.msb_eq_getLsbD_last]

/-- The dividend that a signed start loads: minus zero comes out as `-2 ^ 32`. -/
def dividend (a b : Word) : Int :=
  if b.toInt < 0 then if a = 0 then -2 ^ 32 else -a.toInt else a.toInt

def divisor (b : Word) : Word := if b.toInt < 0 then -b else b

private theorem toNat_divisor (b : Word) : (divisor b).toNat = b.toInt.natAbs := by
  have hb := b.isLt
  unfold divisor
  rw [BitVec.toInt_eq_toNat_cond]
  split_ifs
  · omega
  · omega
  · rw [BitVec.toNat_neg]
    omega
  · omega

private theorem extend_neg {a : Word} (ha : a ≠ 0) :
    extend (!a.getLsbD 31) (-a) = BitVec.ofInt 64 (-a.toInt) := by
  by_cases hmin : a = 0x80000000
  · subst hmin
    decide
  · have hneg : (-a).toInt = -a.toInt := BitVec.toInt_neg_of_ne_intMin hmin
    have hsign : (-a).getLsbD 31 = !a.getLsbD 31 := by
      have hne : a.toInt ≠ 0 := fun h => ha (BitVec.eq_of_toInt_eq h)
      rw [getLsbD_sign, getLsbD_sign, hneg, ← decide_not, decide_eq_decide]
      omega
    rw [← hsign, extend_signed, hneg]

private theorem div_operands {s : Rv32m} {i : Rv32mIn} (hm : i.m.getLsbD 2 = true)
    (hsigned : i.m.getLsbD 0 = false) :
    (s.start i).aext = BitVec.ofInt 64 (dividend i.a i.b) ∧
      (s.start i).bext = divisor i.b ++ 0#32 := by
  simp only [start, hm, hsigned, Bool.not_true, Bool.not_false, if_true, Bool.false_eq_true,
    if_false, getLsbD_sign i.b, decide_eq_true_iff, dividend, divisor]
  by_cases hb : i.b.toInt < 0
  · rw [if_pos hb, if_pos hb, if_pos hb, if_pos hb]
    refine ⟨?_, rfl⟩
    by_cases ha : i.a = 0
    · rw [if_pos ha, ha]
      decide
    · rw [if_neg ha]
      exact extend_neg ha
  · rw [if_neg hb, if_neg hb, if_neg hb, if_neg hb]
    exact ⟨extend_signed i.a, rfl⟩

private theorem divu_operands {s : Rv32m} {i : Rv32mIn} (hm : i.m.getLsbD 2 = true)
    (hunsigned : i.m.getLsbD 0 = true) :
    (s.start i).aext = BitVec.ofInt 64 i.a.toNat ∧ (s.start i).bext = i.b ++ 0#32 := by
  simp only [start, hm, hunsigned, Bool.not_true, Bool.false_eq_true, if_false]
  exact ⟨extend_unsigned i.a, trivial⟩


/-! ### The outcome of a division -/

/-- The correction of quotient and remainder in the last round. -/
def corrected (isRem divfix remfix : Bool) (q r d : Int) : Int :=
  if divfix then
    if !isRem then q + 1 else if remfix then d - r else r - d
  else
    if !isRem then q else if remfix then -r else r

private theorem divResult_eq {s : Rv32m} {q r d : Int}
    (hq : s.aext.extractLsb' 0 32 = BitVec.ofInt 32 q)
    (hr : s.aext.extractLsb' 32 32 = BitVec.ofInt 32 r)
    (hd : s.bext.extractLsb' 32 32 = BitVec.ofInt 32 d) :
    s.divResult = BitVec.ofInt 32 (corrected (s.mreg.getLsbD 1) s.divfix s.remfix q r d) := by
  have hnot (x : Word) : ~~~x = -x - 1 := by
    rw [BitVec.neg_eq_not_add]
    exact (add_sub_cancel_right _ _).symm
  have hone : (1 : Word) = BitVec.ofInt 32 1 := rfl
  unfold divResult corrected
  dsimp only
  rw [hq, hr, hd, hnot, hone]
  split_ifs <;> simp only [sub_eq_add_neg, BitVec.ofInt_add, BitVec.ofInt_neg] <;> ring

private theorem extractLsb'_append (d : Word) :
    (d ++ 0#32 : BitVec 64).extractLsb' 32 32 = BitVec.ofInt 32 d.toNat := by
  have hd := d.isLt
  apply BitVec.eq_of_toNat_eq
  rw [BitVec.extractLsb'_toNat, Nat.shiftRight_eq_div_pow, BitVec.toNat_append, BitVec.toNat_ofInt]
  simp only [Nat.shiftLeft_eq, BitVec.toNat_ofNat, Nat.zero_mod, Nat.or_zero]
  omega

private theorem rounds_div {m : BitVec 3} (h : m.getLsbD 2 = true) : rounds m = 32 := by
  revert m
  decide

namespace Started

variable {ins : Nat → Rv32mIn} {tr : Nat → Rv32m}

private theorem mulOrDiv_one (h : Started ins tr) (hm : (ins 0).m.getLsbD 2 = true) :
    (tr 1).mulOrDiv = false := by
  rw [mulOrDiv, h.mreg_one, hm, Bool.not_true]

private theorem yields_div (h : Started ins tr) (hm : (ins 0).m.getLsbD 2 = true) {d : Word}
    {q r : Int}
    (hb : (tr 1).bext = d ++ 0#32)
    (hq : ((divNext (d ++ 0#32))^[32] (tr 1).aext).extractLsb' 0 32 = BitVec.ofInt 32 q)
    (hr : ((divNext (d ++ 0#32))^[32] (tr 1).aext).extractLsb' 32 32 = BitVec.ofInt 32 r)
    (w : Word) : Yields tr w ↔ BitVec.ofInt 32
      (corrected ((ins 0).m.getLsbD 1) (tr 1).divfix (tr 1).remfix q r d.toNat) = w := by
  have hdiv := h.mulOrDiv_one hm
  rw [h.yields_iff, rounds_div hm, outcome, if_neg (by rw [mulOrDiv_iterate, hdiv]; decide)]
  rw [divResult_eq (q := q) (r := r) (d := d.toNat)]
  · rw [mreg_iterate, divfix_iterate, remfix_iterate, h.mreg_one]
  · rw [aext_iterate hdiv, hb, hq]
  · rw [aext_iterate hdiv, hb, hr]
  · rw [bext_iterate hdiv, hb, extractLsb'_append]

private theorem yields_div_zero (h : Started ins tr) (hm : (ins 0).m.getLsbD 2 = true) {a : Int}
    (ha : (tr 1).aext = BitVec.ofInt 64 a) (hb : (tr 1).bext = 0#32 ++ 0#32) (w : Word) :
    Yields tr w ↔ BitVec.ofInt 32
      (corrected ((ins 0).m.getLsbD 1) (tr 1).divfix (tr 1).remfix (-1) a 0) = w := by
  refine h.yields_div hm hb ?_ ?_ w
  · rw [ha, divNext_zero_iterate, extractLsb'_zero_ofInt]
    apply BitVec.eq_of_toNat_eq
    rw [BitVec.toNat_ofInt, BitVec.toNat_ofInt]
    omega
  · rw [ha, divNext_zero_iterate, extractLsb'_high_ofInt]
    congr 1
    omega

private theorem yields_divided (h : Started ins tr) (hm : (ins 0).m.getLsbD 2 = true) {a : Int}
    {d : Word}
    (hb : (tr 1).bext = d ++ 0#32)
    (hdiv : Divided ((divNext (d ++ 0#32))^[32] (tr 1).aext) a d.toNat) (w : Word) :
    Yields tr w ↔ BitVec.ofInt 32 (corrected ((ins 0).m.getLsbD 1) (tr 1).divfix (tr 1).remfix
      (a / d.toNat) (a % d.toNat) d.toNat) = w :=
  h.yields_div hm hb hdiv.quotient hdiv.remainder w

theorem divides_unsigned (h : Started ins tr) (op : MulDivOp) (hop : op = .divu ∨ op = .remu)
    (hm : (ins 0).m = op.funct3) :
    Yields tr (op.eval (ins 0).a (ins 0).b) ∧
      ∀ k < 32, (tr (1 + k)).aext.getLsbD 63 = false := by
  have hmodes : (ins 0).m.getLsbD 2 = true ∧ (ins 0).m.getLsbD 0 = true := by
    rw [hm]
    rcases hop with rfl | rfl <;> decide
  obtain ⟨hdivides, hunsigned⟩ := hmodes
  obtain ⟨ha, hb⟩ := divu_operands (s := tr 0) hdivides hunsigned
  rw [← h.tr_one] at ha hb
  have hfix : (tr 1).divfix = false ∧ (tr 1).remfix = false := by
    rw [h.tr_one]
    simp only [Rv32m.start, hunsigned, Bool.not_true, Bool.and_false, Bool.false_and, and_self]
  have hv : (tr 1).aext.toNat = (ins 0).a.toNat := by
    rw [ha, ← extend_unsigned, toNat_extend_false]
  have hbound (j : Nat) (hj : j < 32) :
      (divideStep 32 (ins 0).b.toNat)^[j] (tr 1).aext.toNat < 2 ^ 63 := by
    rw [hv]
    exact lt_of_lt_of_le (divideStep_iterate_lt (ins 0).a.isLt)
      (Nat.pow_le_pow_right (by decide) (by omega))
  refine ⟨?_, fun k hk => ?_⟩
  · by_cases hzero : (ins 0).b = 0
    · rw [h.yields_div_zero hdivides ha (by rw [hb, hzero]; rfl), hfix.1, hfix.2, hm]
      rcases hop with rfl | rfl
      · exact (if_pos hzero).symm
      · refine Eq.trans ?_ (if_pos hzero).symm
        exact (BitVec.ofInt_natCast ..).trans (by rw [BitVec.ofNat_toNat, BitVec.setWidth_eq])
    · have hpos : 0 < (ins 0).b.toNat := Nat.pos_of_ne_zero fun h0 => hzero
        (BitVec.eq_of_toNat_eq h0)
      have hdiv := divided_nonneg (v := (tr 1).aext) (by rw [hv]; exact (ins 0).a.isLt) hpos
      rw [h.yields_divided hdivides hb hdiv, hfix.1, hfix.2, hm, hv]
      rcases hop with rfl | rfl
      · exact (BitVec.ofInt_natCast ..).trans (if_neg hzero).symm
      · exact (BitVec.ofInt_natCast ..).trans (if_neg hzero).symm
  · rw [h.tr_eq (by rw [rounds_div hdivides]; omega), aext_iterate (h.mulOrDiv_one hdivides), hb]
    refine getLsbD_top ?_
    rw [toNat_divNext_iterate _ fun j hj => hbound j (by omega)]
    exact hbound k hk

theorem divides_unsigned_large :
    Yields (trace cycle (pulse .remu 0xffffffff 0x80000001) default) 0x7ffffffe ∧
      ∀ k < 32, (trace cycle (pulse .remu 0xffffffff 0x80000001) default (1 + k)).aext.getLsbD 63 =
        false :=
  (started_pulse .remu 0xffffffff 0x80000001 default).divides_unsigned .remu (.inr rfl) rfl

end Started

/-! ### Signed division -/

def DivExact (x y : Int) : Prop :=
  (x < 0 ↔ y < 0) ∨
    if x = -2 ^ 31 then y = 0 ∨ y ∣ x
    else if x = 0 then y = -1
    else y ≠ 0 ∧ ¬y ∣ x

def RemExact (x y : Int) : Prop :=
  (x < 0 ↔ y < 0) ∨ if x = -2 ^ 31 then y = 0 ∨ y ∣ x else ¬y ∣ x

instance (x y : Int) : Decidable (DivExact x y) := by
  unfold DivExact
  infer_instance

instance (x y : Int) : Decidable (RemExact x y) := by
  unfold RemExact
  infer_instance

private theorem ofInt_eq_iff {u v : Int} (h : -2 ^ 32 < u - v) (h' : u - v < 2 ^ 32) :
    BitVec.ofInt 32 u = BitVec.ofInt 32 v ↔ u = v := by
  refine ⟨fun heq => ?_, fun heq => heq ▸ rfl⟩
  have hnat := congrArg BitVec.toNat heq
  rw [BitVec.toNat_ofInt, BitVec.toNat_ofInt] at hnat
  omega

section Corrections

variable {x y : Int} {divfix remfix : Bool}

structure Fixes (x y : Int) (divfix remfix : Bool) : Prop where
  divfix : divfix = true ↔ ¬(x < 0 ↔ y < 0) ∧ x ≠ -2 ^ 31
  remfix : remfix = true ↔ y < 0
  low : -2 ^ 31 ≤ x
  high : x < 2 ^ 31
  low' : -2 ^ 31 ≤ y
  high' : y < 2 ^ 31

private theorem Fixes.divfix_eq (h : Fixes x y divfix remfix) :
    divfix = decide (¬(x < 0 ↔ y < 0) ∧ x ≠ -2 ^ 31) := by
  rw [Bool.eq_iff_iff, h.divfix, decide_eq_true_iff]

private theorem Fixes.remfix_eq (h : Fixes x y divfix remfix) : remfix = decide (y < 0) := by
  rw [Bool.eq_iff_iff, h.remfix, decide_eq_true_iff]

private theorem neg_divide {n d : Int} (hd : 0 < d) :
    -n / d = -(n / d) - (if d ∣ n then 0 else 1) ∧ -n % d = if d ∣ n then 0 else d - n % d := by
  rw [Int.neg_ediv, Int.neg_emod, Int.sign_eq_one_of_pos hd, Int.natAbs_of_nonneg hd.le]
  exact ⟨rfl, rfl⟩

private theorem exact_of_signs (hsign : ¬(x < 0 ↔ y < 0)) (hx : x ≠ 0) (hy : y ≠ 0) :
    (DivExact x y ↔ (x = -2 ^ 31 ↔ y ∣ x)) ∧ (RemExact x y ↔ (x = -2 ^ 31 ↔ y ∣ x)) := by
  unfold DivExact RemExact
  rw [or_iff_right hsign, or_iff_right hsign, if_neg hx]
  by_cases hmin : x = -2 ^ 31
  · rw [if_pos hmin, if_pos hmin, or_iff_right hy, iff_true_left hmin]
    exact ⟨Iff.rfl, Iff.rfl⟩
  · rw [if_neg hmin, if_neg hmin, and_iff_right hy, iff_false_left hmin]
    exact ⟨Iff.rfl, Iff.rfl⟩

private theorem Fixes.exact_pos (h : Fixes x y divfix remfix) (hy : 0 < y) :
    (BitVec.ofInt 32 (corrected false divfix remfix (x / y) (x % y) y) =
        BitVec.ofInt 32 (x.tdiv y) ↔ DivExact x y) ∧
      (BitVec.ofInt 32 (corrected true divfix remfix (x / y) (x % y) y) =
        BitVec.ofInt 32 (x.tmod y) ↔ RemExact x y) := by
  have hremfix : remfix = false := by rw [h.remfix_eq, decide_eq_false (by omega)]
  have hhigh := h.high'
  rcases Int.lt_or_le x 0 with hx | hx
  · -- the quotient of `-n` is rounded down, and the correction adds one to it
    obtain ⟨n, rfl⟩ : ∃ n, x = -n := ⟨-x, (Int.neg_neg x).symm⟩
    obtain ⟨hq, hr⟩ := neg_divide (n := n) hy
    have hn := Int.emod_nonneg n hy.ne'
    have hn' := Int.emod_lt_of_pos n hy
    have hzero : y ∣ n ↔ n % y = 0 := Int.dvd_iff_emod_eq_zero
    have hsign : ¬(-n < 0 ↔ y < 0) := by omega
    obtain ⟨hdiv, hrem⟩ := exact_of_signs hsign (by omega) hy.ne'
    have hdivfix : divfix = decide (-n ≠ -2 ^ 31) := by
      rw [h.divfix_eq, decide_eq_decide]
      exact and_iff_right hsign
    rw [hdiv, hrem, Int.dvd_neg, hremfix, hdivfix, Int.neg_tdiv, Int.neg_tmod,
      Int.tdiv_eq_ediv_of_nonneg (by omega), Int.tmod_eq_emod_of_nonneg (by omega), hq, hr]
    unfold corrected
    by_cases hmin : -n = -2 ^ 31 <;> by_cases hd : y ∣ n <;>
      simp only [hmin, hd, ne_eq, not_true_eq_false, not_false_eq_true, decide_true, decide_false,
        Bool.false_eq_true, if_true, if_false, Bool.not_false, Bool.not_true, iff_self, iff_true,
        iff_false] <;>
      rw [ofInt_eq_iff (by omega) (by omega), ofInt_eq_iff (by omega) (by omega)] <;> omega
  · have hdivfix : divfix = false := by rw [h.divfix_eq, decide_eq_false (by omega)]
    rw [hdivfix, hremfix, Int.tdiv_eq_ediv_of_nonneg hx, Int.tmod_eq_emod_of_nonneg hx]
    exact ⟨iff_of_true rfl (.inl (by omega)), iff_of_true rfl (.inl (by omega))⟩

/-- `-2 ^ 32` divided in place of zero. -/
theorem Fixes.exact_zero (h : Fixes 0 y divfix remfix) (hy : y < -1) :
    (BitVec.ofInt 32 (corrected false divfix remfix (-2 ^ 32 / -y) (-2 ^ 32 % -y) (-y)) =
        BitVec.ofInt 32 0 ↔ DivExact 0 y) ∧
      (BitVec.ofInt 32 (corrected true divfix remfix (-2 ^ 32 / -y) (-2 ^ 32 % -y) (-y)) =
        BitVec.ofInt 32 0 ↔ RemExact 0 y) := by
  have hlow := h.low'
  have hsplit := Int.emod_add_mul_ediv (-2 ^ 32) (-y)
  have hr := Int.emod_nonneg (-2 ^ 32) (show -y ≠ 0 by omega)
  have hr' := Int.emod_lt_of_pos (-2 ^ 32) (show 0 < -y by omega)
  have hq : -2 ^ 32 / -y < -1 := by
    by_contra hge
    nlinarith
  have hq' : -2 ^ 31 ≤ -2 ^ 32 / -y := Int.le_ediv_of_mul_le (by omega) (by omega)
  have hdivfix : divfix = true := h.divfix.mpr ⟨by omega, by decide⟩
  have hremfix : remfix = true := h.remfix.mpr (by omega)
  have hdiv : ¬DivExact 0 y := by
    rintro (hsign | hone)
    · omega
    · rw [if_neg (by decide), if_pos rfl] at hone
      omega
  have hrem : ¬RemExact 0 y := by
    rintro (hsign | hdvd)
    · omega
    · rw [if_neg (by decide)] at hdvd
      exact hdvd (dvd_zero y)
  rw [hdivfix, hremfix]
  unfold corrected
  simp only [Bool.not_false, Bool.not_true, Bool.false_eq_true, if_true, if_false]
  rw [ofInt_eq_iff (by omega) (by omega), ofInt_eq_iff (by omega) (by omega)]
  exact ⟨iff_of_false (by omega) hdiv, iff_of_false (by omega) hrem⟩

private theorem Fixes.exact_neg (h : Fixes x y divfix remfix) (hy : y < 0) (hx : x ≠ 0) :
    (BitVec.ofInt 32 (corrected false divfix remfix (-x / -y) (-x % -y) (-y)) =
        BitVec.ofInt 32 (x.tdiv y) ↔ DivExact x y) ∧
      (BitVec.ofInt 32 (corrected true divfix remfix (-x / -y) (-x % -y) (-y)) =
        BitVec.ofInt 32 (x.tmod y) ↔ RemExact x y) := by
  have hlow := h.low'
  have hxlow := h.low
  have hremfix : remfix = true := h.remfix.mpr hy
  obtain ⟨d, rfl⟩ : ∃ d, y = -d := ⟨-y, (Int.neg_neg y).symm⟩
  rw [Int.neg_neg, Int.tdiv_neg, Int.tmod_neg]
  rcases Int.lt_or_le x 0 with hneg | hpos
  · have hdivfix : divfix = false := by rw [h.divfix_eq, decide_eq_false (by omega)]
    obtain ⟨n, rfl⟩ : ∃ n, x = -n := ⟨-x, (Int.neg_neg x).symm⟩
    rw [hdivfix, hremfix, Int.neg_neg, Int.neg_tdiv, Int.neg_tmod, Int.neg_neg,
      Int.tdiv_eq_ediv_of_nonneg (by omega), Int.tmod_eq_emod_of_nonneg (by omega)]
    exact ⟨iff_of_true rfl (.inl (by omega)), iff_of_true rfl (.inl (by omega))⟩
  · have hd : 0 < d := by omega
    obtain ⟨hq, hr⟩ := neg_divide (n := x) hd
    have hn := Int.emod_nonneg x hd.ne'
    have hn' := Int.emod_lt_of_pos x hd
    have hzero : d ∣ x ↔ x % d = 0 := Int.dvd_iff_emod_eq_zero
    have hsign : ¬(x < 0 ↔ -d < 0) := by omega
    obtain ⟨hdiv, hrem⟩ := exact_of_signs hsign hx (by omega)
    have hdivfix : divfix = true := h.divfix.mpr ⟨hsign, by omega⟩
    have hmin : ¬x = -2 ^ 31 := by omega
    rw [hdiv, hrem, Int.neg_dvd, hremfix, hdivfix, Int.tdiv_eq_ediv_of_nonneg hpos,
      Int.tmod_eq_emod_of_nonneg hpos, hq, hr, iff_false_left hmin]
    unfold corrected
    by_cases hd : d ∣ x <;>
      simp only [hd, not_true_eq_false, not_false_eq_true, Bool.false_eq_true, if_true, if_false,
        Bool.not_false, Bool.not_true, iff_true, iff_false] <;>
      rw [ofInt_eq_iff (by omega) (by omega), ofInt_eq_iff (by omega) (by omega)] <;> omega

end Corrections

namespace Started

variable {ins : Nat → Rv32mIn} {tr : Nat → Rv32m}

private theorem fixes (h : Started ins tr) (hsigned : (ins 0).m.getLsbD 0 = false) :
    Fixes (ins 0).a.toInt (ins 0).b.toInt (tr 1).divfix (tr 1).remfix := by
  have hmin : ((ins 0).a != 0x80000000) = true ↔ (ins 0).a.toInt ≠ -2 ^ 31 := by
    rw [bne_iff_ne, ne_eq, ne_eq, ← BitVec.toInt_inj]
    rfl
  refine ⟨?_, ?_, BitVec.le_toInt _, BitVec.toInt_lt, BitVec.le_toInt _, BitVec.toInt_lt⟩
  · rw [h.tr_one]
    simp only [Rv32m.start, hsigned, Bool.not_false, Bool.and_true, getLsbD_sign, Bool.and_eq_true,
      hmin, bne_iff_ne, ne_eq, decide_eq_decide]
  · rw [h.tr_one]
    simp only [Rv32m.start, hsigned, Bool.not_false, Bool.and_true, getLsbD_sign,
      decide_eq_true_iff]

private theorem yields_signed (h : Started ins tr) (hm : (ins 0).m.getLsbD 2 = true)
    (hsigned : (ins 0).m.getLsbD 0 = false) (hb : (ins 0).b.toInt ≠ 0)
    (hone : (ins 0).a.toInt = 0 → (ins 0).b.toInt ≠ -1) (w : Word) :
    Yields tr w ↔ BitVec.ofInt 32 (corrected ((ins 0).m.getLsbD 1) (tr 1).divfix (tr 1).remfix
      (dividend (ins 0).a (ins 0).b / (ins 0).b.toInt.natAbs)
      (dividend (ins 0).a (ins 0).b % (ins 0).b.toInt.natAbs) (ins 0).b.toInt.natAbs) = w := by
  obtain ⟨ha, hdivisor⟩ := div_operands (s := tr 0) hm hsigned
  rw [← h.tr_one] at ha hdivisor
  have hD := toNat_divisor (ins 0).b
  have hlow := BitVec.le_toInt (ins 0).b
  have hhigh := BitVec.toInt_lt (x := (ins 0).b)
  have hlt := BitVec.toInt_lt (x := (ins 0).a)
  have hge := BitVec.le_toInt (ins 0).a
  have hzero : (ins 0).a = 0 ↔ (ins 0).a.toInt = 0 := by
    rw [← BitVec.toInt_inj]
    rfl
  have hrange : -2 ^ 32 ≤ dividend (ins 0).a (ins 0).b ∧
      dividend (ins 0).a (ins 0).b < 2 ^ 32 ∧
      (dividend (ins 0).a (ins 0).b < 0 →
        0 < 2 * dividend (ins 0).a (ins 0).b + (divisor (ins 0).b).toNat * 2 ^ 32 + 1) := by
    rw [hD]
    unfold dividend
    simp only [hzero]
    split_ifs <;> omega
  rw [← hD]
  refine h.yields_divided hm hdivisor ?_ w
  rw [ha]
  by_cases hneg : dividend (ins 0).a (ins 0).b < 0
  · exact divided_neg (by omega) (by omega) hneg (hrange.2.2 hneg) hrange.1
  · have hv : (BitVec.ofInt 64 (dividend (ins 0).a (ins 0).b)).toNat =
        (dividend (ins 0).a (ins 0).b).toNat := by
      rw [BitVec.toNat_ofInt]
      omega
    have hdiv := divided_nonneg (v := BitVec.ofInt 64 (dividend (ins 0).a (ins 0).b))
      (d := divisor (ins 0).b) (by omega) (by omega)
    rwa [hv, Int.toNat_of_nonneg (by omega)] at hdiv

/-- `DIV` and `REM` are right on exactly these operands. -/
structure SignedIff (i : Rv32mIn) (tr : Nat → Rv32m) : Prop where
  div : i.m.getLsbD 1 = false →
    (Yields tr (MulDivOp.div.eval i.a i.b) ↔ DivExact i.a.toInt i.b.toInt)
  rem : i.m.getLsbD 1 = true →
    (Yields tr (MulDivOp.rem.eval i.a i.b) ↔ RemExact i.a.toInt i.b.toInt)

private theorem divides_by_zero (h : Started ins tr) (hm : (ins 0).m.getLsbD 2 = true)
    (hsigned : (ins 0).m.getLsbD 0 = false) (hb : (ins 0).b = 0) : SignedIff (ins 0) tr := by
  obtain ⟨ha, hdivisor⟩ := div_operands (s := tr 0) hm hsigned
  rw [← h.tr_one, hb] at ha hdivisor
  have hfixes := h.fixes hsigned
  rw [hb] at hfixes
  have hremfix : (tr 1).remfix = false := hfixes.remfix_eq
  have hyields := h.yields_div_zero hm ha hdivisor
  have hx : dividend (ins 0).a 0 = (ins 0).a.toInt := rfl
  have hy : (0 : Word).toInt = 0 := rfl
  rw [hremfix, hfixes.divfix_eq, hx, hy] at hyields
  rw [hy] at hfixes
  generalize hx : (ins 0).a.toInt = x at hyields hfixes
  constructor
  · intro hdiv
    rw [hyields, hdiv, hb, hx, hy]
    by_cases hfix : ¬(x < 0 ↔ (0 : Int) < 0) ∧ x ≠ -2 ^ 31
    · rw [decide_eq_true hfix]
      refine iff_of_false (show BitVec.ofInt 32 0 ≠ (-1 : Word) by decide) ?_
      rintro (hsign | hmin)
      · exact hfix.1 hsign
      · rw [if_neg hfix.2, if_neg (by omega)] at hmin
        exact hmin.1 rfl
    · rw [decide_eq_false hfix]
      refine iff_of_true rfl ?_
      by_cases hmin : x = -2 ^ 31
      · exact .inr (by rw [if_pos hmin]; exact .inl rfl)
      · exact .inl (by omega)
  · intro hrem
    have hvalue : corrected true (decide (¬(x < 0 ↔ (0 : Int) < 0) ∧ x ≠ -2 ^ 31)) false (-1) x 0 =
        x := by
      cases decide (¬(x < 0 ↔ (0 : Int) < 0) ∧ x ≠ -2 ^ 31) with
      | false => rfl
      | true => exact Int.sub_zero x
    rw [hyields, hrem, hvalue, hb, hx, hy, ← hx, BitVec.ofInt_toInt, hx]
    refine iff_of_true rfl ?_
    by_cases hmin : x = -2 ^ 31
    · exact .inr (by rw [if_pos hmin]; exact .inl rfl)
    · by_cases hsign : x < 0 ↔ (0 : Int) < 0
      · exact .inl hsign
      · refine .inr ?_
        rw [if_neg hmin, Int.zero_dvd]
        omega

private theorem divides_zero_by_minus_one (h : Started ins tr) (hm : (ins 0).m.getLsbD 2 = true)
    (hsigned : (ins 0).m.getLsbD 0 = false) (ha : (ins 0).a = 0) (hb : (ins 0).b = -1) :
    SignedIff (ins 0) tr := by
  obtain ⟨haext, hdivisor⟩ := div_operands (s := tr 0) hm hsigned
  rw [← h.tr_one] at haext hdivisor
  rw [ha, hb] at haext
  rw [hb] at hdivisor
  have hfixes := h.fixes hsigned
  rw [ha, hb] at hfixes
  have hdivfix : (tr 1).divfix = true := hfixes.divfix.mpr (by decide)
  have hremfix : (tr 1).remfix = true := hfixes.remfix.mpr (by decide)
  have hrun : (divNext (1#32 ++ 0#32))^[32] (BitVec.ofInt 64 (-2 ^ 32)) = BitVec.allOnes 64 := by
    decide +kernel
  have hyields := h.yields_div hm (d := 1) (q := -1) (r := -1) hdivisor
    (by rw [haext]; exact (congrArg (BitVec.extractLsb' 0 32) hrun).trans (by decide))
    (by rw [haext]; exact (congrArg (BitVec.extractLsb' 32 32) hrun).trans (by decide))
  constructor
  · intro hdiv
    rw [hyields, hdiv, hdivfix, hremfix, ha, hb]
    exact iff_of_true (by decide) (.inr (by decide))
  · intro hrem
    rw [hyields, hrem, hdivfix, hremfix, ha, hb]
    exact iff_of_false (by decide) (by decide)

private theorem signed (h : Started ins tr) (hm : (ins 0).m.getLsbD 2 = true)
    (hsigned : (ins 0).m.getLsbD 0 = false) : SignedIff (ins 0) tr := by
  by_cases hb : (ins 0).b = 0
  · exact h.divides_by_zero hm hsigned hb
  have hy : (ins 0).b.toInt ≠ 0 := fun h0 => hb (BitVec.eq_of_toInt_eq h0)
  by_cases hone : (ins 0).a = 0 ∧ (ins 0).b = -1
  · exact h.divides_zero_by_minus_one hm hsigned hone.1 hone.2
  have hone' : (ins 0).a.toInt = 0 → (ins 0).b.toInt ≠ -1 := fun ha hb' =>
    hone ⟨BitVec.eq_of_toInt_eq ha, BitVec.eq_of_toInt_eq hb'⟩
  have hyields := h.yields_signed hm hsigned hy hone'
  have hfixes := h.fixes hsigned
  have hdiv : MulDivOp.div.eval (ins 0).a (ins 0).b = _ := if_neg hb
  have hrem : MulDivOp.rem.eval (ins 0).a (ins 0).b = _ := if_neg hb
  have hiff : (BitVec.ofInt 32 (corrected false (tr 1).divfix (tr 1).remfix
        (dividend (ins 0).a (ins 0).b / (ins 0).b.toInt.natAbs)
        (dividend (ins 0).a (ins 0).b % (ins 0).b.toInt.natAbs) (ins 0).b.toInt.natAbs) =
          BitVec.ofInt 32 ((ins 0).a.toInt.tdiv (ins 0).b.toInt) ↔
        DivExact (ins 0).a.toInt (ins 0).b.toInt) ∧
      (BitVec.ofInt 32 (corrected true (tr 1).divfix (tr 1).remfix
        (dividend (ins 0).a (ins 0).b / (ins 0).b.toInt.natAbs)
        (dividend (ins 0).a (ins 0).b % (ins 0).b.toInt.natAbs) (ins 0).b.toInt.natAbs) =
          BitVec.ofInt 32 ((ins 0).a.toInt.tmod (ins 0).b.toInt) ↔
        RemExact (ins 0).a.toInt (ins 0).b.toInt) := by
    unfold dividend
    rcases Int.lt_or_le (ins 0).b.toInt 0 with hneg | hpos
    · rw [Int.ofNat_natAbs_of_nonpos hneg.le, if_pos hneg]
      by_cases ha : (ins 0).a = 0
      · have hx : (ins 0).a.toInt = 0 := by rw [ha]; rfl
        rw [if_pos ha, hx, Int.zero_tdiv, Int.zero_tmod]
        rw [hx] at hfixes
        exact hfixes.exact_zero (by have := hone' hx; omega)
      · rw [if_neg ha]
        exact hfixes.exact_neg hneg fun h0 => ha (BitVec.eq_of_toInt_eq h0)
    · rw [Int.natAbs_of_nonneg hpos, if_neg (by omega)]
      exact hfixes.exact_pos (by omega)
  constructor
  · intro h1
    rw [hyields, h1, hdiv]
    exact hiff.1
  · intro h1
    rw [hyields, h1, hrem]
    exact hiff.2

/-- Exactly on these operands the unit divides as the M extension says. -/
theorem divides_signed_iff (h : Started ins tr) :
    ((ins 0).m = MulDivOp.div.funct3 →
      (Yields tr (MulDivOp.div.eval (ins 0).a (ins 0).b) ↔
        DivExact (ins 0).a.toInt (ins 0).b.toInt)) ∧
      ((ins 0).m = MulDivOp.rem.funct3 →
        (Yields tr (MulDivOp.rem.eval (ins 0).a (ins 0).b) ↔
          RemExact (ins 0).a.toInt (ins 0).b.toInt)) := by
  constructor
  · intro hm
    exact (h.signed (by rw [hm]; rfl) (by rw [hm]; rfl)).div (by rw [hm]; rfl)
  · intro hm
    exact (h.signed (by rw [hm]; rfl) (by rw [hm]; rfl)).rem (by rw [hm]; rfl)

theorem neg_six_div_four : Yields (trace cycle (pulse .div (-6) 4) default) (-1) :=
  ((started_pulse .div (-6) 4 default).divides_signed_iff.1 rfl).mpr (by decide)

theorem divides_exact_wrong :
    ¬∀ (ins : Nat → Rv32mIn) (tr : Nat → Rv32m), Started ins tr →
      (ins 0).m = MulDivOp.div.funct3 →
        Yields tr (MulDivOp.div.eval (ins 0).a (ins 0).b) := by
  intro hall
  have h := started_pulse .div (-6) 3 default
  have hwrong : ¬DivExact (-6) 3 := by decide
  exact hwrong (((h.signed rfl rfl).div rfl).mp (hall _ _ h rfl))

end Started

end Rv32m

end PComputer.Rtl
