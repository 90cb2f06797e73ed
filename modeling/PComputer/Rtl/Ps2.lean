import PComputer.Foundation.Clocked
import PComputer.Foundation.ByteLanes
import Mathlib.Tactic.ByContra

/-!
# `ps2.v` and `ps2_driver.v`

A keyboard sends frames of eleven bits, one at each fall of its clock.  Both of its lines
go through a debouncer; the fall of the debounced clock is the clock of the driver, which
puts the bytes of a key together; the unit raises one interrupt for each key.
-/

namespace PComputer.Rtl

open PComputer.Foundation

/-! ## `debouncer` -/

/-- One of the two channels, which are alike. -/
structure Debouncer where
  cnt : BitVec 5
  iv : Bool
  o : Bool
  deriving DecidableEq

namespace Debouncer

/-- What a new level sets the counter to: five characters `0`, of which five bits are kept. -/
def cntRestart : BitVec 5 := (0x3030303030#40).setWidth 5

def cycle (i : Bool) (b : Debouncer) : Debouncer :=
  if i = b.iv then if b.cnt = 19 then { b with o := i } else { b with cnt := b.cnt + 1 }
  else { b with cnt := cntRestart, iv := i }

def rest (v : Bool) : Debouncer := { cnt := 19, iv := v, o := v }

end Debouncer

/-- A line that keeps each of its levels for five clocks or more. -/
def Steady (line : Nat → Bool) : Prop :=
  ∀ t, line t ≠ line (t + 1) → ∀ k, k < 5 → line (t + 1 + k) = line (t + 1)

namespace Debouncer

variable {line : Nat → Bool} {t : Nat} {b : Debouncer}

/-- The counter tells how long ago the level changed within the last five clocks. -/
def Follows (line : Nat → Bool) (t : Nat) (b : Debouncer) : Prop :=
  b.iv = line (t + 4) ∧ b.o = line t ∧
    ((∀ k, k < 5 → line (t + k) = line t) ∧ b.cnt = 19 ∨
      ∃ j, 1 ≤ j ∧ j < 5 ∧ (∀ k, k < j → line (t + k) = line t) ∧
        (∀ k, j ≤ k → k < 5 → line (t + k) = !line t) ∧ b.cnt = BitVec.ofNat 5 (20 - j))

/-- One level for five clocks; it stays or another one comes. -/
theorem follows_level (hiv : b.iv = line (t + 4)) (ho : b.o = line t)
    (hsame : ∀ k, k < 5 → line (t + k) = line t) (hcnt : b.cnt = 19) :
    Follows line (t + 1) (b.cycle (line (t + 5))) := by
  have hone : line (t + 1) = line t := hsame 1 (by omega)
  have hlater (k : Nat) (hk : k < 4) : line (t + 1 + k) = line (t + 1) := by
    rw [show t + 1 + k = t + (k + 1) by omega, hsame _ (by omega), hone]
  have hlast : b.iv = line (t + 1) := (hiv.trans (hsame 4 (by omega))).trans hone.symm
  by_cases hi : line (t + 5) = b.iv
  · rw [Debouncer.cycle, if_pos hi, if_pos hcnt]
    refine ⟨hi.symm, hi.trans hlast, Or.inl ⟨fun k hk => ?_, hcnt⟩⟩
    rcases Nat.lt_succ_iff_lt_or_eq.mp hk with hk | rfl
    · exact hlater k hk
    · exact hi.trans hlast
  · rw [Debouncer.cycle, if_neg hi]
    refine ⟨rfl, ho.trans hone.symm, Or.inr ⟨4, by omega, by omega, hlater, fun k hk hk5 => ?_,
      rfl⟩⟩
    obtain rfl : k = 4 := by omega
    rw [← hlast]
    exact Bool.eq_not_of_ne hi

/-- A change within the last five clocks; there is no other one. -/
theorem follows_change {j : Nat} (hj : 1 ≤ j) (hj5 : j < 5) (hiv : b.iv = line (t + 4))
    (ho : b.o = line t) (hold : ∀ k, k < j → line (t + k) = line t)
    (hnew : ∀ k, j ≤ k → k < 5 → line (t + k) = !line t) (hcnt : b.cnt = BitVec.ofNat 5 (20 - j))
    (hsteady : Steady line) : Follows line (t + 1) (b.cycle (line (t + 5))) := by
  have hchange : line (t + (j - 1)) ≠ line (t + (j - 1) + 1) := by
    rw [hold _ (by omega), show t + (j - 1) + 1 = t + j by omega, hnew j le_rfl hj5]
    simp
  have hnext : line (t + 5) = !line t := by
    have hkeeps := hsteady _ hchange (5 - j) (by omega)
    rw [show t + (j - 1) + 1 = t + j by omega, hnew j le_rfl hj5] at hkeeps
    rwa [show t + j + (5 - j) = t + 5 by omega] at hkeeps
  have hi : line (t + 5) = b.iv := by rw [hnext, hiv, hnew 4 (by omega) (by omega)]
  have hlate (k : Nat) (hk : j ≤ k + 1) (hk5 : k < 5) : line (t + 1 + k) = !line t := by
    rcases Nat.lt_succ_iff_lt_or_eq.mp hk5 with hk4 | rfl
    · rw [show t + 1 + k = t + (k + 1) by omega, hnew _ hk (by omega)]
    · exact hnext
  rw [Debouncer.cycle, if_pos hi]
  by_cases hone : j = 1
  · subst hone
    have hfull : b.cnt = 19 := hcnt
    have hfirst : line (t + 1) = !line t := hlate 0 le_rfl (by omega)
    rw [if_pos hfull]
    exact ⟨hi.symm, hnext.trans hfirst.symm,
      Or.inl ⟨fun k hk => (hlate k (by omega) hk).trans hfirst.symm, hfull⟩⟩
  · have hfirst : line (t + 1) = line t := hold 1 (by omega)
    have hbelow : b.cnt ≠ 19 := by
      rw [hcnt]
      have hcases : j = 2 ∨ j = 3 ∨ j = 4 := by omega
      rcases hcases with rfl | rfl | rfl <;> decide
    rw [if_neg hbelow]
    refine ⟨hi.symm, ho.trans hfirst.symm, Or.inr ⟨j - 1, by omega, by omega, fun k hk => ?_,
      fun k hk hk5 => ?_, ?_⟩⟩
    · rw [show t + 1 + k = t + (k + 1) by omega, hold _ (by omega), hfirst]
    · rw [hlate k (by omega) hk5, hfirst]
    · rw [hcnt, show 20 - (j - 1) = 20 - j + 1 by omega, BitVec.ofNat_add]
      rfl

theorem Follows.cycle (h : Follows line t b) (hsteady : Steady line) :
    Follows line (t + 1) (b.cycle (line (t + 5))) := by
  obtain ⟨hiv, ho, ⟨hsame, hcnt⟩ | ⟨j, hj, hj5, hold, hnew, hcnt⟩⟩ := h
  · exact follows_level hiv ho hsame hcnt
  · exact follows_change hj hj5 hiv ho hold hnew hcnt hsteady

/-- Behind the debouncer a steady line is the same, five clocks later. -/
theorem follows_trace (hsteady : Steady line) (hstart : Follows line 0 b) (t : Nat) :
    Follows line t (trace cycle (fun k => line (k + 5)) b t) := by
  induction t with
  | zero => exact hstart
  | succ t ih => exact ih.cycle hsteady

end Debouncer

/-! ## `ps2_driver` -/

structure Ps2Regs where
  datacur : BitVec 8
  cnt : BitVec 4
  keycode : Word
  keycodeout : Word
  newkeypress : Bool

namespace Ps2Regs

def reset : Ps2Regs where
  datacur := 0
  cnt := 0
  keycode := 0
  keycodeout := 0
  newkeypress := false

def isPrefix (b : BitVec 8) : Bool := b == 0xE0 || b == 0xF0

def pushByte (w : Word) (b : BitVec 8) : Word := w.extractLsb' 0 24 ++ b

def setBit (x : BitVec 8) (k : Nat) (b : Bool) : BitVec 8 :=
  x &&& ~~~(1#8 <<< k) ||| (BitVec.ofBool b).setWidth 8 <<< k

variable (kdataf : Bool) (d : Ps2Regs)

def dataAfter : BitVec 8 :=
  if 1 ≤ d.cnt ∧ d.cnt ≤ 8 then setBit d.datacur (d.cnt.toNat - 1) kdataf else d.datacur

/-- A fall of the clock, with the level of the other line. -/
def shift : Ps2Regs :=
  if d.cnt ≤ 9 then
    { d with datacur := d.dataAfter kdataf, cnt := d.cnt + 1, newkeypress := false }
  else if d.cnt = 10 then
    if isPrefix d.datacur then { d with cnt := 0, keycode := pushByte d.keycode d.datacur }
    else
      { d with
        cnt := 0
        newkeypress := true
        keycodeout := pushByte d.keycode d.datacur
        keycode := 0 }
  else d

end Ps2Regs

structure Ps2Driver where
  clk0 : Debouncer
  data1 : Debouncer
  regs : Ps2Regs

structure Ps2In where
  rst : Bool
  kclk : Bool
  kdata : Bool

/-- The falls of the debounced clock are those of a register that the same edge of the main
clock sets, and so is the level that goes with a fall. -/
def Ps2Driver.cycle (i : Ps2In) (p : Ps2Driver) : Ps2Driver :=
  let clk0 := p.clk0.cycle i.kclk
  let data1 := p.data1.cycle i.kdata
  { clk0 := clk0
    data1 := data1
    regs :=
      if i.rst then .reset else if p.clk0.o && !clk0.o then p.regs.shift data1.o else p.regs }

/-! ## `ps2` -/

structure Ps2 where
  driver : Ps2Driver
  keycode : Word
  newkeypressOld : Bool
  irq : Bool

namespace Ps2

def cycle (i : Ps2In) (p : Ps2) : Ps2 where
  driver := p.driver.cycle i
  keycode :=
    if i.rst then 0
    else if p.driver.regs.newkeypress && !p.newkeypressOld then p.driver.regs.keycodeout
    else p.keycode
  newkeypressOld := !i.rst && p.driver.regs.newkeypress
  irq := !i.rst && p.driver.regs.newkeypress && !p.newkeypressOld

def irqs (_ : Ps2In) (p : Ps2) : List Word := if p.irq then [p.keycode] else []

end Ps2

/-! ## Frames and keys -/

def byteOf (bits : List Bool) : BitVec 8 := (BitVec.ofBoolListLE bits).setWidth 8

/-- The bytes in a sequence of bits, the second to the ninth bit of every eleven. -/
def ps2Bytes (bits : List Bool) : List (BitVec 8) :=
  (List.range (bits.length / 11)).map fun m => byteOf ((bits.drop (11 * m + 1)).take 8)

/-- What a byte does to the bytes that wait for the last one of their key and to the keys. -/
def keyStep (s : Word × List Word) (b : BitVec 8) : Word × List Word :=
  if Ps2Regs.isPrefix b then (Ps2Regs.pushByte s.1 b, s.2)
  else (0, s.2 ++ [Ps2Regs.pushByte s.1 b])

def keys (bytes : List (BitVec 8)) : Word × List Word := bytes.foldl keyStep (0, [])

private theorem keys_concat (bytes : List (BitVec 8)) (b : BitVec 8) :
    keys (bytes ++ [b]) = keyStep (keys bytes) b := by
  simp [keys, List.foldl_append]

/-- The frame of a byte: a start bit, the bits from the lowest on, odd parity, a stop bit. -/
def ps2Frame (b : BitVec 8) : List Bool :=
  false :: (List.range 8).map b.getLsbD ++
    [(List.range 8).foldl (fun p k => p ^^ b.getLsbD k) true, true]

private theorem length_ps2Frame (b : BitVec 8) : (ps2Frame b).length = 11 := by
  simp [ps2Frame]

private theorem byteOf_bits (b : BitVec 8) : byteOf ((List.range 8).map b.getLsbD) = b := by
  apply BitVec.eq_of_getLsbD_eq
  intro k hk
  rw [byteOf, BitVec.getLsbD_setWidth, BitVec.getLsbD_ofBoolListLE]
  simp [hk]

private theorem ps2Bytes_frame_append (b : BitVec 8) (bits : List Bool) :
    ps2Bytes (ps2Frame b ++ bits) = b :: ps2Bytes bits := by
  have hlength : (ps2Frame b ++ bits).length / 11 = bits.length / 11 + 1 := by
    rw [List.length_append, length_ps2Frame]
    omega
  have hfirst : ((ps2Frame b ++ bits).drop (11 * 0 + 1)).take 8 = (List.range 8).map b.getLsbD := by
    simp [ps2Frame]
  have hdrop (m : Nat) : (ps2Frame b ++ bits).drop (11 * (m + 1) + 1) = bits.drop (11 * m + 1) :=
    rfl
  rw [ps2Bytes, hlength, List.range_succ_eq_map, List.map_cons, hfirst, byteOf_bits, List.map_map,
    ps2Bytes]
  simp only [Function.comp_def, Nat.succ_eq_add_one, hdrop]

private theorem ps2Bytes_frames (bytes : List (BitVec 8)) :
    ps2Bytes (bytes.flatMap ps2Frame) = bytes := by
  induction bytes with
  | nil => rfl
  | cons b bytes ih => rw [List.flatMap_cons, ps2Bytes_frame_append, ih]

private theorem ps2Bytes_concat {bits : List Bool} (b : Bool) :
    ps2Bytes (bits ++ [b]) =
      if bits.length % 11 = 10 then
        ps2Bytes bits ++ [byteOf ((bits.drop (11 * (bits.length / 11) + 1)).take 8)]
      else ps2Bytes bits := by
  have hsame (m : Nat) (hm : 11 * m + 9 ≤ bits.length) :
      ((bits ++ [b]).drop (11 * m + 1)).take 8 = (bits.drop (11 * m + 1)).take 8 := by
    rw [List.drop_append_of_le_length (by omega),
      List.take_append_of_le_length (by rw [List.length_drop]; omega)]
  have hwhole : ((List.range (bits.length / 11)).map fun m =>
      byteOf (((bits ++ [b]).drop (11 * m + 1)).take 8)) = ps2Bytes bits := by
    refine List.map_congr_left fun m hm => ?_
    rw [hsame m (by have := List.mem_range.mp hm; omega)]
  rw [ps2Bytes, List.length_append, List.length_singleton]
  split_ifs with hlast
  · rw [show (bits.length + 1) / 11 = bits.length / 11 + 1 by omega, List.range_succ,
      List.map_append, hwhole, List.map_singleton, hsame _ (by omega)]
  · rw [show (bits.length + 1) / 11 = bits.length / 11 by omega, hwhole]

/-! ## The driver on a sequence of bits -/

namespace Ps2Regs

structure Holds (bits : List Bool) (r : Ps2Regs) : Prop where
  cnt : r.cnt.toNat = bits.length % 11
  keycode : r.keycode = (keys (ps2Bytes bits)).1
  datacur : ∀ k, k < 8 → k + 1 < bits.length % 11 →
    r.datacur.getLsbD k = bits.getD (11 * (bits.length / 11) + 1 + k) false
  newkeypress : r.cnt ≠ 0 → r.newkeypress = false

private theorem holds_reset : Holds [] reset where
  cnt := rfl
  keycode := rfl
  datacur := by simp
  newkeypress := by simp [reset]

variable {bits : List Bool} {r : Ps2Regs}

theorem Holds.byte (h : Holds bits r) (hcnt : bits.length % 11 = 10) :
    byteOf ((bits.drop (11 * (bits.length / 11) + 1)).take 8) = r.datacur := by
  apply BitVec.eq_of_getLsbD_eq
  intro k hk
  rw [h.datacur k hk (by omega), byteOf, BitVec.getLsbD_setWidth, BitVec.getLsbD_ofBoolListLE]
  simp [hk]

theorem getLsbD_setBit (x : BitVec 8) {j k : Nat} (hj : j < 8) (b : Bool) :
    (setBit x k b).getLsbD j = if j = k then b else x.getLsbD j := by
  rw [setBit, BitVec.getLsbD_or, BitVec.getLsbD_and, BitVec.getLsbD_not, BitVec.getLsbD_shiftLeft,
    BitVec.getLsbD_shiftLeft, BitVec.getLsbD_setWidth, BitVec.getLsbD_ofBool, BitVec.getLsbD_one]
  rcases Nat.lt_trichotomy j k with hlt | rfl | hgt
  · simp [hj, hlt, hlt.ne]
  · simp [hj]
  · have hpos : j - k ≠ 0 := by omega
    simp [hj, Nat.not_lt.mpr hgt.le, hgt.ne', hpos]

private theorem getLsbD_dataAfter (b : Bool) {k : Nat} (hk : k < 8) :
    (r.dataAfter b).getLsbD k = if k + 1 = r.cnt.toNat then b else r.datacur.getLsbD k := by
  have hrange : 1 ≤ r.cnt ∧ r.cnt ≤ 8 ↔ 1 ≤ r.cnt.toNat ∧ r.cnt.toNat ≤ 8 := Iff.rfl
  by_cases hin : 1 ≤ r.cnt ∧ r.cnt ≤ 8
  · have := hrange.mp hin
    rw [dataAfter, if_pos hin, getLsbD_setBit _ hk]
    exact if_congr (by omega) rfl rfl
  · have := mt hrange.mpr hin
    rw [dataAfter, if_neg hin, if_neg (by omega)]

private theorem Holds.shift_mid (h : Holds bits r) (b : Bool) (hcnt : bits.length % 11 < 10) :
    Holds (bits ++ [b]) (r.shift b) ∧ (r.shift b).newkeypress = false ∧
      ps2Bytes (bits ++ [b]) = ps2Bytes bits := by
  have hsame : ps2Bytes (bits ++ [b]) = ps2Bytes bits := by
    rw [ps2Bytes_concat, if_neg (by omega)]
  have hlow : r.cnt ≤ 9 := by
    rw [BitVec.le_def, h.cnt]
    exact Nat.le_of_lt_succ hcnt
  have hlength : (bits ++ [b]).length = bits.length + 1 := by simp
  have hmod : (bits.length + 1) % 11 = bits.length % 11 + 1 := by omega
  have hdiv : (bits.length + 1) / 11 = bits.length / 11 := by omega
  rw [shift, if_pos hlow]
  refine ⟨⟨?_, ?_, ?_, fun _ => rfl⟩, rfl, hsame⟩
  · rw [hlength, hmod, BitVec.toNat_add, h.cnt]
    exact Nat.mod_eq_of_lt (by simp; omega)
  · rw [hsame]
    exact h.keycode
  · intro k hk hbefore
    rw [hlength] at hbefore ⊢
    rw [getLsbD_dataAfter b hk, h.cnt, hdiv]
    by_cases hlast : k + 1 = bits.length % 11
    · have hplace : 11 * (bits.length / 11) + 1 + k = bits.length := by omega
      rw [if_pos hlast, hplace]
      simp
    · have hplace : 11 * (bits.length / 11) + 1 + k < bits.length := by omega
      rw [if_neg hlast, h.datacur k hk (by omega), List.getD_eq_getElem?_getD,
        List.getD_eq_getElem?_getD, List.getElem?_append_left hplace]

private theorem Holds.shift_last (h : Holds bits r) (b : Bool) (hcnt : bits.length % 11 = 10) :
    Holds (bits ++ [b]) (r.shift b) ∧ r.newkeypress = false ∧
      ps2Bytes (bits ++ [b]) = ps2Bytes bits ++ [r.datacur] ∧
      (r.shift b).newkeypress = !isPrefix r.datacur ∧
      (isPrefix r.datacur = false → (r.shift b).keycodeout = pushByte r.keycode r.datacur) := by
  have hbytes : ps2Bytes (bits ++ [b]) = ps2Bytes bits ++ [r.datacur] := by
    rw [ps2Bytes_concat, if_pos hcnt, h.byte hcnt]
  have hten : r.cnt = 10 := by
    apply BitVec.eq_of_toNat_eq
    rw [h.cnt, hcnt]
    rfl
  have hidle : r.newkeypress = false := h.newkeypress (by rw [hten]; decide)
  have hlength : (bits ++ [b]).length % 11 = 0 := by
    rw [List.length_append, List.length_singleton]
    omega
  have hhigh : ¬(10 : BitVec 4) ≤ 9 := by decide
  rw [shift, hten, if_neg hhigh, if_pos rfl]
  have hnone (x : BitVec 8) (k : Nat) (_ : k < 8) (hk : k + 1 < (bits ++ [b]).length % 11) :
      x.getLsbD k = (bits ++ [b]).getD (11 * ((bits ++ [b]).length / 11) + 1 + k) false := by
    rw [hlength] at hk
    omega
  cases hpre : isPrefix r.datacur
  · rw [if_neg (by simp)]
    refine ⟨⟨hlength.symm, ?_, hnone _, fun hne => absurd rfl hne⟩, hidle, hbytes, rfl,
      fun _ => rfl⟩
    rw [hbytes, keys_concat, keyStep, hpre]
    rfl
  · rw [if_pos rfl]
    refine ⟨⟨hlength.symm, ?_, hnone _, fun hne => absurd rfl hne⟩, hidle, hbytes, hidle, by simp⟩
    rw [hbytes, keys_concat, keyStep, if_pos hpre, ← h.keycode]

theorem Holds.shift (h : Holds bits r) (b : Bool) :
    Holds (bits ++ [b]) (r.shift b) ∧
      ((r.shift b).newkeypress = true → r.newkeypress = false) ∧
      (keys (ps2Bytes (bits ++ [b]))).2 = (keys (ps2Bytes bits)).2 ++
        if (r.shift b).newkeypress then [(r.shift b).keycodeout] else [] := by
  by_cases hcnt : bits.length % 11 = 10
  · obtain ⟨hholds, hidle, hbytes, hnew, hout⟩ := h.shift_last b hcnt
    refine ⟨hholds, fun _ => hidle, ?_⟩
    rw [hbytes, keys_concat, keyStep, hnew]
    cases hpre : isPrefix r.datacur
    · simp [hout hpre, h.keycode]
    · simp
  · obtain ⟨hholds, hidle, hsame⟩ := h.shift_mid b (by omega)
    refine ⟨hholds, fun hnew => ?_, by simp [hsame, hidle]⟩
    rw [hidle] at hnew
    contradiction

end Ps2Regs

/-! ## The lines of a keyboard -/

/-- The levels of the data line at the falls of the clock line. -/
def sampled (kclk kdata : Nat → Bool) : Nat → List Bool
  | 0 => []
  | t + 1 =>
      sampled kclk kdata t ++ if kclk t && !kclk (t + 1) then [kdata (t + 1)] else []

namespace Ps2

def idle : Ps2 where
  driver := { clk0 := .rest true, data1 := .rest true, regs := .reset }
  keycode := 0
  newkeypressOld := false
  irq := false

variable {kclk kdata : Nat → Bool}

def lines (kclk kdata : Nat → Bool) (t : Nat) : Ps2In where
  rst := false
  kclk := kclk (t + 5)
  kdata := kdata (t + 5)

def waiting (p : Ps2) : List Word :=
  if p.driver.regs.newkeypress && !p.newkeypressOld then [p.driver.regs.keycodeout] else []

private theorem irqs_cycle {i : Ps2In} (hrst : i.rst = false) (j : Ps2In) (p : Ps2) :
    irqs j (p.cycle i) = p.waiting := by
  simp only [irqs, cycle, hrst, Bool.not_false, Bool.true_and, waiting]
  split_ifs <;> simp_all

private theorem follows_rest {line : Nat → Bool} (h : ∀ k, k < 5 → line k = true) :
    Debouncer.Follows line 0 (.rest true) := by
  refine ⟨(h 4 (by omega)).symm, (h 0 (by omega)).symm, Or.inl ⟨fun k hk => ?_, rfl⟩⟩
  rw [Nat.zero_add, h k hk, h 0 (by omega)]

section Run

variable (hclk : Steady kclk) (hdata : Steady kdata)
  (hidle : ∀ k, k < 5 → kclk k = true ∧ kdata k = true)

include hclk hidle in
private theorem clk0_trace (t : Nat) :
    (trace cycle (lines kclk kdata) idle t).driver.clk0.o = kclk t := by
  have hsame : (trace cycle (lines kclk kdata) idle t).driver.clk0 =
      trace Debouncer.cycle (fun k => kclk (k + 5)) (.rest true) t := by
    induction t with
    | zero => rfl
    | succ t ih => rw [trace_succ, trace_succ, ← ih]; rfl
  rw [hsame]
  exact (Debouncer.follows_trace hclk (follows_rest fun k hk => (hidle k hk).1) t).2.1

include hdata hidle in
private theorem data1_trace (t : Nat) :
    (trace cycle (lines kclk kdata) idle t).driver.data1.o = kdata t := by
  have hsame : (trace cycle (lines kclk kdata) idle t).driver.data1 =
      trace Debouncer.cycle (fun k => kdata (k + 5)) (.rest true) t := by
    induction t with
    | zero => rfl
    | succ t ih => rw [trace_succ, trace_succ, ← ih]; rfl
  rw [hsame]
  exact (Debouncer.follows_trace hdata (follows_rest fun k hk => (hidle k hk).2) t).2.1

include hclk hdata hidle

private theorem regs_succ (t : Nat) :
    (trace cycle (lines kclk kdata) idle (t + 1)).driver.regs =
      if kclk t && !kclk (t + 1) then
        (trace cycle (lines kclk kdata) idle t).driver.regs.shift (kdata (t + 1))
      else (trace cycle (lines kclk kdata) idle t).driver.regs := by
  rw [← clk0_trace hclk hidle, ← clk0_trace hclk hidle, ← data1_trace hdata hidle, trace_succ]
  rfl

/-- The keys that the bits so far make are those behind the interrupts so far and at most
two that are on their way. -/
theorem keys_on_their_way (t : Nat) :
    (trace cycle (lines kclk kdata) idle t).driver.regs.Holds (sampled kclk kdata t) ∧
      logged cycle irqs (lines kclk kdata) idle t ++
          (irqs (lines kclk kdata t) (trace cycle (lines kclk kdata) idle t) ++
            (trace cycle (lines kclk kdata) idle t).waiting) =
        (keys (ps2Bytes (sampled kclk kdata t))).2 := by
  induction t with
  | zero =>
      refine ⟨Ps2Regs.holds_reset, ?_⟩
      simp [irqs, waiting, idle, Ps2Regs.reset, sampled, ps2Bytes, keys]
  | succ t ih =>
      obtain ⟨hholds, hkeys⟩ := ih
      have hregs := regs_succ hclk hdata hidle t
      have hold : (trace cycle (lines kclk kdata) idle (t + 1)).newkeypressOld =
          (trace cycle (lines kclk kdata) idle t).driver.regs.newkeypress := rfl
      have hirqs : irqs (lines kclk kdata (t + 1)) (trace cycle (lines kclk kdata) idle (t + 1)) =
          (trace cycle (lines kclk kdata) idle t).waiting := by
        rw [trace_succ]
        exact irqs_cycle rfl _ _
      rw [logged_succ, hirqs, ← List.append_assoc, List.append_assoc (logged _ _ _ _ t), hkeys,
        sampled, waiting, hold]
      by_cases hfall : kclk t && !kclk (t + 1)
      · rw [if_pos hfall] at hregs ⊢
        obtain ⟨hnext, hbefore, hnew⟩ := hholds.shift (kdata (t + 1))
        rw [hregs, hnew]
        refine ⟨hnext, congrArg _ (if_congr ?_ rfl rfl)⟩
        rw [Bool.and_eq_true, Bool.not_eq_true', and_iff_left_iff_imp]
        exact hbefore
      · rw [if_neg hfall] at hregs ⊢
        rw [hregs, List.append_nil]
        exact ⟨hholds, by simp⟩

/-- As soon as a bit completes a key the processor is interrupted once and finds the key
with the prefix bytes before it; no key is lost, doubled or out of order. -/
theorem keys_arrive (t : Nat) :
    logged cycle irqs (lines kclk kdata) idle (t + 2) =
        (keys (ps2Bytes (sampled kclk kdata t))).2 ∧
      ∀ bytes, sampled kclk kdata t = bytes.flatMap ps2Frame →
        logged cycle irqs (lines kclk kdata) idle (t + 2) = (keys bytes).2 := by
  have hnext : irqs (lines kclk kdata (t + 1)) (trace cycle (lines kclk kdata) idle (t + 1)) =
      (trace cycle (lines kclk kdata) idle t).waiting := by
    rw [trace_succ]
    exact irqs_cycle rfl _ _
  have hkeys : logged cycle irqs (lines kclk kdata) idle (t + 2) =
      (keys (ps2Bytes (sampled kclk kdata t))).2 := by
    rw [← (keys_on_their_way hclk hdata hidle t).2, logged_succ, logged_succ, hnext,
      List.append_assoc]
  refine ⟨hkeys, fun bytes hbytes => ?_⟩
  rw [hkeys, hbytes, ps2Bytes_frames]

end Run

/-! ## One key -/

def oneClock (t : Nat) : Bool := t < 10 || t / 5 % 2 == 0

def oneKey (t : Nat) : Bool := t < 10 || (ps2Frame 0x1C).getD ((t - 10) / 10) true

private theorem steady_oneClock : Steady oneClock := by
  intro t hchange k hk
  have hfive : (t + 1) % 5 = 0 := by
    by_contra hmid
    apply hchange
    rw [oneClock, oneClock, show (t + 1) / 5 = t / 5 by omega]
    congr 1
    exact decide_eq_decide.mpr (by omega)
  rw [oneClock, oneClock, show (t + 1 + k) / 5 = (t + 1) / 5 by omega]
  congr 1
  exact decide_eq_decide.mpr (by omega)

private theorem steady_oneKey : Steady oneKey := by
  intro t hchange k hk
  have hten : (t + 1) % 10 = 0 := by
    by_contra hmid
    apply hchange
    rw [oneKey, oneKey, show (t + 1 - 10) / 10 = (t - 10) / 10 by omega]
    congr 1
    exact decide_eq_decide.mpr (by omega)
  rw [oneKey, oneKey, show (t + 1 + k - 10) / 10 = (t + 1 - 10) / 10 by omega]
  congr 1
  exact decide_eq_decide.mpr (by omega)

theorem keys_arrive_oneKey :
    logged cycle irqs (lines oneClock oneKey) idle (115 + 2) = [0x1C] :=
  (keys_arrive steady_oneClock steady_oneKey (by decide) 115).2 [0x1C] (by decide +kernel)

end Ps2

end PComputer.Rtl
