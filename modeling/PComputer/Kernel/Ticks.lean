import Mathlib.Data.Int.ModEq
import PComputer.Rtl.Timer

/-!
# `timer.c`: `get_timer_ticks`

The count is read in two halves while it runs.  The low half is widened with its sign,
which takes `2 ^ 32` away from a count whose bit 31 is set, and every carry between the
two reads adds as much.
-/

namespace PComputer.PseudOS

open PComputer.Foundation PComputer.Rtl

/-- The clocks of a call; what `printk` reads before the low half is only printed. -/
structure TicksCall where
  start : Nat
  low : Nat
  high : Nat
  finish : Nat
  start_le : start ≤ low
  low_le : low ≤ high
  high_le : high ≤ finish

def timerCtrl (s : Timer) (k : BitVec 3) : Word := byteSwap (s.spo k)

namespace TicksCall

variable (tr : Nat → Timer) (c : TicksCall)

def getTimerTicks : BitVec 64 :=
  let timel : BitVec 64 := (timerCtrl (tr c.low) 0).signExtend 64
  let timeh : BitVec 64 := (timerCtrl (tr c.high) 1).signExtend 64
  timel + timeh <<< 32

/-- The count had the returned value at a clock of the call. -/
def ReturnsTime : Prop := ∃ t, c.start ≤ t ∧ t ≤ c.finish ∧ c.getTimerTicks tr = (tr t).mtime

def Ascends (start finish : Nat) : Prop :=
  (tr start).mtime.toNat + (finish - start) < 2 ^ 64

structure WithinCall : Prop where
  time : c.ReturnsTime tr
  between : Ascends tr c.start c.finish →
    (tr c.start).mtime ≤ c.getTimerTicks tr ∧ c.getTimerTicks tr ≤ (tr c.finish).mtime

def carries : Nat := ((tr c.low).mtimel.toNat + (c.high - c.low)) / 2 ^ 32

/-- How far the returned value is from the count when the low half was read. -/
def offset : Int := 2 ^ 32 * (c.carries tr - (tr c.low).mtimel.msb.toNat)

def Reaches : Prop :=
  ∃ rounds : Int, c.start ≤ c.low + c.offset tr + 2 ^ 64 * rounds ∧
    c.low + c.offset tr + 2 ^ 64 * rounds ≤ c.finish

private theorem toNat_getTimerTicks : (c.getTimerTicks tr).toNat =
    ((tr c.low).mtimel.toNat + (if (tr c.low).mtimel.msb then 2 ^ 64 - 2 ^ 32 else 0) +
      2 ^ 32 * (tr c.high).mtimeh.toNat) % 2 ^ 64 := by
  have hlow := (tr c.low).mtimel.isLt
  have hhigh := (tr c.high).mtimeh.isLt
  have htimel : timerCtrl (tr c.low) 0 = (tr c.low).mtimel := byteSwap_byteSwap _
  have htimeh : timerCtrl (tr c.high) 1 = (tr c.high).mtimeh := byteSwap_byteSwap _
  unfold getTimerTicks
  rw [htimel, htimeh]
  simp only [BitVec.toNat_add, BitVec.toNat_shiftLeft, BitVec.toNat_signExtend,
    BitVec.toNat_setWidth, Nat.shiftLeft_eq]
  split_ifs <;> omega

/-! ## The returned value -/

variable {tr : Nat → Timer} {c : TicksCall}

/-- In clocks without a reset the count goes on. -/
structure Counts (tr : Nat → Timer) (start finish : Nat) : Prop where
  mtime : ∀ t, start ≤ t → t ≤ finish →
    (tr t).mtime = (tr start).mtime + BitVec.ofNat 64 (t - start)

theorem Counts.mono {start finish start' finish' : Nat} (h : Counts tr start finish)
    (hstart : start ≤ start') (hfinish : finish' ≤ finish) : Counts tr start' finish' := by
  refine ⟨fun t hle hlast => ?_⟩
  rw [h.mtime t (by omega) (by omega), h.mtime start' hstart (by omega), BitVec.add_assoc,
    ← BitVec.ofNat_add, show start' - start + (t - start') = t - start by omega]

private theorem Counts.modEq {start finish t : Nat} (h : Counts tr start finish)
    (hstart : start ≤ t)
    (hfinish : t ≤ finish) :
    ((tr t).mtime.toNat : Int) - t ≡ (tr start).mtime.toNat - start [ZMOD 2 ^ 64] := by
  have hcount := congrArg BitVec.toNat (h.mtime t hstart hfinish)
  rw [BitVec.toNat_add, BitVec.toNat_ofNat] at hcount
  unfold Int.ModEq
  omega

theorem Counts.le {start finish t t' : Nat} (h : Counts tr start finish)
    (hascends : Ascends tr start finish) (hstart : start ≤ t) (hle : t ≤ t')
    (hfinish : t' ≤ finish) :
    (tr t).mtime ≤ (tr t').mtime := by
  have ht := congrArg BitVec.toNat (h.mtime t hstart (by omega))
  have ht' := congrArg BitVec.toNat (h.mtime t' (by omega) hfinish)
  rw [BitVec.toNat_add, BitVec.toNat_ofNat] at ht ht'
  unfold Ascends at hascends
  rw [BitVec.le_def]
  omega

private theorem counts_trace {timerCounter : Word} {s : Timer} {ins : Nat → TimerIn} {n : Nat}
    (hrst : ∀ t < n, (ins t).rst = false) :
    Counts (trace (Timer.cycle timerCounter) ins s) 0 n := by
  refine ⟨fun t _ hfinish => ?_⟩
  exact Timer.mtime_trace fun k hk => hrst k (hk.trans_le hfinish)

private theorem getTimerTicks_modEq (h : Counts tr c.start c.finish) :
    ((c.getTimerTicks tr).toNat : Int) ≡ (tr c.low).mtime.toNat + c.offset tr [ZMOD 2 ^ 64] := by
  have hhigh := (h.mono c.start_le le_rfl).mtime c.high c.low_le c.high_le
  have hcount := congrArg BitVec.toNat hhigh
  rw [BitVec.toNat_add, BitVec.toNat_ofNat, Timer.toNat_mtime, Timer.toNat_mtime] at hcount
  have hbits := (tr c.low).mtimel.isLt
  have hbits' := (tr c.high).mtimel.isLt
  rw [toNat_getTimerTicks, Timer.toNat_mtime, offset, carries]
  unfold Int.ModEq
  generalize (tr c.low).mtimel.toNat = l at *
  generalize (tr c.high).mtimel.toNat = l' at *
  cases (tr c.low).mtimel.msb with
  | false =>
      simp only [Bool.false_eq_true, if_false, Bool.toNat_false]
      omega
  | true =>
      simp only [if_true, Bool.toNat_true]
      omega

private theorem getTimerTicks_eq_iff (h : Counts tr c.start c.finish) {t : Nat}
    (hstart : c.start ≤ t)
    (hfinish : t ≤ c.finish) :
    c.getTimerTicks tr = (tr t).mtime ↔ (c.low + c.offset tr : Int) ≡ t [ZMOD 2 ^ 64] := by
  have hticks := getTimerTicks_modEq h
  have hlow := h.modEq c.start_le (c.low_le.trans c.high_le)
  have ht := h.modEq hstart hfinish
  have hbits := (c.getTimerTicks tr).isLt
  have hbits' := (tr t).mtime.isLt
  rw [← BitVec.toNat_inj]
  unfold Int.ModEq at *
  omega

private theorem returnsTime_iff_reaches (h : Counts tr c.start c.finish) :
    c.ReturnsTime tr ↔ c.Reaches tr := by
  constructor
  · rintro ⟨t, hstart, hfinish, heq⟩
    obtain ⟨rounds, hrounds⟩ :=
      Int.modEq_iff_dvd.mp ((getTimerTicks_eq_iff h hstart hfinish).mp heq)
    exact ⟨rounds, by omega, by omega⟩
  · rintro ⟨rounds, hstart, hfinish⟩
    obtain ⟨t, ht⟩ := Int.eq_ofNat_of_zero_le ((Int.natCast_nonneg c.start).trans hstart)
    rw [ht, Int.ofNat_le] at hstart hfinish
    refine ⟨t, hstart, hfinish, (getTimerTicks_eq_iff h hstart hfinish).mpr ?_⟩
    exact Int.modEq_iff_dvd.mpr ⟨rounds, by omega⟩

private theorem withinCall_iff_reaches (h : Counts tr c.start c.finish) :
    c.WithinCall tr ↔ c.Reaches tr := by
  refine ⟨fun hwithin => (returnsTime_iff_reaches h).mp hwithin.time, fun hreaches => ?_⟩
  have htime := (returnsTime_iff_reaches h).mpr hreaches
  refine ⟨htime, fun hascends => ?_⟩
  obtain ⟨t, hstart, hfinish, heq⟩ := htime
  rw [heq]
  exact ⟨h.le hascends le_rfl hstart hfinish, h.le hascends hstart hfinish le_rfl⟩

private theorem reaches_iff_of_short (hshort : c.finish - c.start < 2 ^ 32) :
    c.Reaches tr ↔ c.carries tr = (tr c.low).mtimel.msb.toNat := by
  have hle := c.start_le
  have hle' := c.low_le
  have hle'' := c.high_le
  have hbits := (tr c.low).mtimel.isLt
  have hcarries : c.carries tr ≤ 1 := by
    unfold carries
    omega
  unfold Reaches offset
  generalize (tr c.low).mtimel.msb = bit at *
  constructor
  · rintro ⟨rounds, hstart, hfinish⟩
    cases bit <;> simp only [Bool.toNat_false, Bool.toNat_true] at * <;> omega
  · intro heq
    refine ⟨0, ?_, ?_⟩ <;> rw [heq] <;> omega

/-! ## Successive calls -/

/-- The times of two calls are in the order of the calls. -/
structure InOrder (tr : Nat → Timer) (c c' : TicksCall) : Prop where
  times : ∃ t t', t ≤ t' ∧ c.getTimerTicks tr = (tr t).mtime ∧ c'.getTimerTicks tr = (tr t').mtime
  le : Ascends tr c.start c'.finish → c.getTimerTicks tr ≤ c'.getTimerTicks tr

private theorem inOrder_of_returnsTime {c' : TicksCall} (h : Counts tr c.start c'.finish)
    (hsucc : c.finish ≤ c'.start) (hc : c.ReturnsTime tr) (hc' : c'.ReturnsTime tr) :
    InOrder tr c c' := by
  obtain ⟨t, hstart, hfinish, heq⟩ := hc
  obtain ⟨t', hstart', hfinish', heq'⟩ := hc'
  have hle : t ≤ t' := by omega
  refine ⟨⟨t, t', hle, heq, heq'⟩, fun hascends => ?_⟩
  rw [heq, heq']
  exact h.le hascends hstart hle hfinish'

/-- `get_timer_ticks` returns a time within the call exactly if its `offset` does not leave it. -/
theorem getTimerTicks_iff (timerCounter : Word) (s : Timer) (ins : Nat → TimerIn) (n : Nat)
    (hrst : ∀ t < n, (ins t).rst = false) :
    (∀ c : TicksCall, c.finish ≤ n →
      (c.WithinCall (trace (Timer.cycle timerCounter) ins s) ↔
        c.Reaches (trace (Timer.cycle timerCounter) ins s))) ∧
    ∀ c c' : TicksCall, c.finish ≤ c'.start → c'.finish ≤ n →
      c.Reaches (trace (Timer.cycle timerCounter) ins s) →
      c'.Reaches (trace (Timer.cycle timerCounter) ins s) →
      InOrder (trace (Timer.cycle timerCounter) ins s) c c' := by
  have hcounts : Counts (trace (Timer.cycle timerCounter) ins s) 0 n := counts_trace hrst
  constructor
  · intro c hfinish
    exact withinCall_iff_reaches (hcounts.mono c.start.zero_le hfinish)
  · intro c c' hsucc hfinish hc hc'
    have hbetween : c.start ≤ c'.start :=
      c.start_le.trans (c.low_le.trans (c.high_le.trans hsucc))
    have h := hcounts.mono c.start.zero_le hfinish
    have hcall : Counts _ c.start c.finish :=
      h.mono le_rfl (hsucc.trans (c'.start_le.trans (c'.low_le.trans c'.high_le)))
    exact inOrder_of_returnsTime h hsucc ((returnsTime_iff_reaches hcall).mpr hc)
      ((returnsTime_iff_reaches (h.mono hbetween le_rfl)).mpr hc')

/-! ### Concrete calls -/

def quietTimer : Nat → TimerIn := fun _ => ⟨false, 0, 0, false⟩

def countedTo (count : BitVec 64) : Nat → Timer :=
  trace (Timer.cycle 4000) quietTimer
    ⟨0, false, false, false, count.extractLsb' 0 32, count.extractLsb' 32 32, 0⟩

def someCall : TicksCall := ⟨0, 10, 20, 30, by decide, by decide, by decide⟩

theorem getTimerTicks_iff_carry :
    (someCall.WithinCall (countedTo 0xfffffff0) ↔ someCall.Reaches (countedTo 0xfffffff0)) ∧
      someCall.Reaches (countedTo 0xfffffff0) := by
  refine ⟨(getTimerTicks_iff 4000 _ quietTimer 30 fun _ _ => rfl).1 someCall le_rfl, ?_⟩
  exact (reaches_iff_of_short (by decide)).mpr (by decide)

theorem getTimerTicks_not_within :
    ¬ ∀ (timerCounter : Word) (s : Timer) (ins : Nat → TimerIn) (n : Nat),
      (∀ t < n, (ins t).rst = false) → ∀ c : TicksCall, c.finish ≤ n →
        c.WithinCall (trace (Timer.cycle timerCounter) ins s) := by
  intro h
  have hwithin : someCall.WithinCall (countedTo 0x80000000) :=
    h 4000 _ quietTimer 30 (fun _ _ => rfl) someCall le_rfl
  have hbehind := (hwithin.between (by unfold Ascends; decide)).2
  exact absurd hbehind (by decide)

end TicksCall

end PComputer.PseudOS
