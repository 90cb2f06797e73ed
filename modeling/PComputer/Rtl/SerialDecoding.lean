import Mathlib.Data.List.TakeWhile
import PComputer.Foundation.Clocked
import PComputer.Rtl.SerialBoot

/-!
# What `serialboot` writes

The counter of the digits and the latched character belong to no transfer: they go on
with every character of the console.  A transfer writes the groups of digits behind
its start just if the counter stands at zero then and the last character is no space.
-/

namespace PComputer.Rtl

open PComputer.Foundation

namespace SerialBoot

variable {i : SerialBootIn} {ins : Nat → SerialBootIn} {b : SerialBoot} {last data : BitVec 8}
  {ds : List (BitVec 4)} {start : Word} {log : List (Word × Word)} {t : Nat}

/-! ## Characters and words -/

def received (ins : Nat → SerialBootIn) : Nat → List (BitVec 8)
  | 0 => []
  | t + 1 => received ins t ++ if (ins t).uartReady then [(ins t).uartData] else []

/-- The character in the UART's register; it holds 0 after a reset. -/
def lastReceived (ins : Nat → SerialBootIn) (t : Nat) : BitVec 8 :=
  (received ins t).getLast?.getD 0

def digits (chars : List (BitVec 8)) : List (BitVec 4) := chars.filterMap uartDataBin

def untilSpace (chars : List (BitVec 8)) : List (BitVec 8) := chars.takeWhile (· != 0x20)

def wordOf (ds : List (BitVec 4)) (k : Nat) : Word :=
  ds.getD (8 * k) 0 ++ ds.getD (8 * k + 1) 0 ++ ds.getD (8 * k + 2) 0 ++ ds.getD (8 * k + 3) 0 ++
    ds.getD (8 * k + 4) 0 ++ ds.getD (8 * k + 5) 0 ++ ds.getD (8 * k + 6) 0 ++
    ds.getD (8 * k + 7) 0

/-- The first `m` groups with the addresses they go to. -/
def wordsFrom (start : Word) (ds : List (BitVec 4)) (m : Nat) : List (Word × Word) :=
  (List.range m).map fun k => (start + BitVec.ofNat 32 (4 * k), wordOf ds k)

def pulse (i : SerialBootIn) (b : SerialBoot) : List (Word × Word) :=
  if b.sbWe i then [(b.sbA, b.sbD)] else []

/--
The UART pulses `uart_ready` for one cycle with each character and holds the character
in `uart_data` until the next.
-/
structure Fed (last : BitVec 8) (ins : Nat → SerialBootIn) : Prop where
  first : (ins 0).uartReady = false → (ins 0).uartData = last
  held : ∀ t, (ins (t + 1)).uartReady = false → (ins (t + 1)).uartData = (ins t).uartData
  spaced : ∀ t, (ins t).uartReady = true → (ins (t + 1)).uartReady = false
  rst : ∀ t, (ins t).rst = false

/-- The start command in cycle 0; the CPU gives none while it waits for `ready`. -/
structure Starts (b : SerialBoot) (ins : Nat → SerialBootIn) : Prop where
  we : (ins 0).we = true
  a : (ins 0).a = 2
  ready : b.ready (ins 0) = true
  quiet : ∀ t, (ins (t + 1)).we = false

/--
The groups of digits received up to the first space have been written, each by one
pulse, and `ready` is low until that space arrives.
-/
def Decodes (b : SerialBoot) (ins : Nat → SerialBootIn) : Prop :=
  ∀ t, logged cycle pulse ins b (t + 1) =
      wordsFrom b.memStartAddr (digits (untilSpace (received ins t)))
        ((digits (untilSpace (received ins t))).length / 8) ∧
    (0 < t → ((trace cycle ins b t).ready (ins t) = true ↔ 0x20 ∈ received ins (t + 1)))

def DecodesAll (b : SerialBoot) (last : BitVec 8) : Prop :=
  ∀ ins, Fed last ins → Starts b ins → Decodes b ins

/-! ## The digits that are gathered -/

def arriving (i : SerialBootIn) : List (BitVec 4) :=
  if i.uartReady then (uartDataBin i.uartData).toList else []

private theorem digits_received_succ (ins : Nat → SerialBootIn) (t : Nat) :
    digits (received ins (t + 1)) = digits (received ins t) ++ arriving (ins t) := by
  unfold digits arriving
  rw [received, List.filterMap_append]
  congr 1
  split_ifs
  · cases h : uartDataBin (ins t).uartData <;> simp [h]
  · rfl

private theorem uartByteCnt_cycle (hrst : i.rst = false) :
    (b.cycle i).uartByteCnt = b.uartByteCnt + BitVec.ofNat 3 (arriving i).length := by
  unfold cycle arriving
  simp only [hrst, Bool.false_eq_true, if_false]
  cases hready : i.uartReady <;> cases hdigit : uartDataBin i.uartData <;> simp

private theorem uartByteCnt_trace (hrst : ∀ k < t, (ins k).rst = false) :
    (trace cycle ins b t).uartByteCnt =
      b.uartByteCnt + BitVec.ofNat 3 (digits (received ins t)).length := by
  induction t with
  | zero => exact (BitVec.add_zero _).symm
  | succ t ih =>
      rw [trace_succ, uartByteCnt_cycle (hrst t (Nat.lt_succ_self t)),
        ih fun k hk => hrst k (by omega), digits_received_succ, List.length_append,
        BitVec.ofNat_add, BitVec.add_assoc]

structure Gathered (ds : List (BitVec 4)) (b : SerialBoot) : Prop where
  cnt : b.uartByteCnt = BitVec.ofNat 3 ds.length
  byte : ∀ k < ds.length, ds.length ≤ k + 8 → b.uartByte (BitVec.ofNat 3 k) = ds.getD k 0

theorem Gathered.cycle (h : Gathered ds b) (hrst : i.rst = false) :
    Gathered (ds ++ arriving i) (b.cycle i) := by
  refine ⟨?_, ?_⟩
  · rw [uartByteCnt_cycle hrst, h.cnt, List.length_append, BitVec.ofNat_add]
  · unfold arriving SerialBoot.cycle
    simp only [hrst, Bool.not_false, Bool.true_and]
    cases hready : i.uartReady with
    | false =>
        simp only [Bool.false_eq_true, if_false, List.append_nil]
        cases uartDataBin i.uartData <;> exact h.byte
    | true =>
        simp only [if_true]
        cases uartDataBin i.uartData with
        | none =>
            simp only [Option.toList_none, List.append_nil]
            exact h.byte
        | some bin =>
            simp only [Option.toList_some, List.length_append, List.length_singleton]
            intro k hk hle
            by_cases hlast : k = ds.length
            · rw [hlast, h.cnt, Function.update_self]
              simp
            · have hne : BitVec.ofNat 3 k ≠ b.uartByteCnt := by
                rw [h.cnt]
                intro heq
                have hnat := congrArg BitVec.toNat heq
                simp only [BitVec.toNat_ofNat] at hnat
                omega
              rw [Function.update_of_ne hne, h.byte k (by omega) (by omega)]
              simp [List.getElem?_append_left (by omega : k < ds.length)]

/-! ## Words -/

private theorem wordsFrom_succ (start : Word) (ds : List (BitVec 4)) (m : Nat) :
    wordsFrom start ds (m + 1) =
      wordsFrom start ds m ++ [(start + BitVec.ofNat 32 (4 * m), wordOf ds m)] := by
  unfold wordsFrom
  rw [List.range_succ, List.map_append]
  rfl

private theorem wordsFrom_append (ds' : List (BitVec 4)) {m : Nat} (hm : 8 * m ≤ ds.length) :
    wordsFrom start (ds ++ ds') m = wordsFrom start ds m := by
  unfold wordsFrom
  apply List.map_congr_left
  intro k hk
  have hlt := List.mem_range.mp hk
  have hget {j : Nat} (hj : j < 8) : (ds ++ ds').getD (8 * k + j) 0 = ds.getD (8 * k + j) 0 := by
    rw [List.getD_eq_getElem?_getD, List.getD_eq_getElem?_getD,
      List.getElem?_append_left (by omega)]
  have hfirst : (ds ++ ds').getD (8 * k) 0 = ds.getD (8 * k) 0 := hget (by decide : 0 < 8)
  unfold wordOf
  rw [hfirst, hget (by decide : 1 < 8), hget (by decide : 2 < 8), hget (by decide : 3 < 8),
    hget (by decide : 4 < 8), hget (by decide : 5 < 8), hget (by decide : 6 < 8),
    hget (by decide : 7 < 8)]

private theorem Gathered.sbD_eq (h : Gathered ds b) {m : Nat} (hm : ds.length = 8 * (m + 1)) :
    b.sbD = wordOf ds m := by
  have hbyte {j : Nat} (hj : j < 8) : b.uartByte (BitVec.ofNat 3 j) = ds.getD (8 * m + j) 0 := by
    have hindex : BitVec.ofNat 3 j = BitVec.ofNat 3 (8 * m + j) := by
      apply BitVec.eq_of_toNat_eq
      simp only [BitVec.toNat_ofNat]
      omega
    rw [hindex, h.byte _ (by omega) (by omega)]
  have hfirst : b.uartByte 0 = ds.getD (8 * m) 0 := hbyte (by decide : 0 < 8)
  unfold sbD wordOf
  rw [hfirst, ← hbyte (by decide : 1 < 8), ← hbyte (by decide : 2 < 8),
    ← hbyte (by decide : 3 < 8), ← hbyte (by decide : 4 < 8), ← hbyte (by decide : 5 < 8),
    ← hbyte (by decide : 6 < 8), ← hbyte (by decide : 7 < 8)]
  rfl

/-! ## A transfer -/

/-- The last digit of a group has come in the cycle before, and its word goes out now. -/
def due (ds : List (BitVec 4)) (data : BitVec 8) (b : SerialBoot) : Bool :=
  b.uartReadyPrev && (uartDataBin data).isSome && ds.length % 8 == 0

def sent (ds : List (BitVec 4)) (data : BitVec 8) (b : SerialBoot) : Nat :=
  ds.length / 8 - (due ds data b).toNat

/-- No space has come since the start. -/
structure Decoding (start : Word) (ds : List (BitVec 4)) (log : List (Word × Word))
    (data : BitVec 8) (b : SerialBoot) : Prop where
  gathered : Gathered ds b
  began : b.began = true
  noSpace : data ≠ 0x20
  arrived : b.uartReadyPrev = true → (uartDataBin data).isSome = true → 0 < ds.length
  log : log = wordsFrom start ds (sent ds data b)
  addr : b.memStartAddr = start + BitVec.ofNat 32 (4 * sent ds data b)

/-- A space has come since the start; the transfer ends with the next cycle at the latest. -/
def Ended (data : BitVec 8) (b : SerialBoot) : Prop :=
  b.began = true → data = 0x20 ∧ b.uartReadyPrev = true

@[simp] theorem uartReadyPrev_cycle (i : SerialBootIn) (b : SerialBoot) :
    (b.cycle i).uartReadyPrev = i.uartReady := rfl

private theorem began_cycle (i : SerialBootIn) (b : SerialBoot) :
    (b.cycle i).began =
      if i.rst then false
      else if i.we && i.a == 2 then true
      else if finish i then false
      else b.began := rfl

private theorem sent_cycle (ds : List (BitVec 4)) (i : SerialBootIn) (b : SerialBoot) :
    sent (ds ++ arriving i) i.uartData (b.cycle i) = ds.length / 8 := by
  unfold sent due arriving
  rw [uartReadyPrev_cycle]
  cases i.uartReady <;> cases uartDataBin i.uartData <;> simp
  cases hfull : (ds.length + 1) % 8 == 0 with
  | false =>
      have hmore : (ds.length + 1) % 8 ≠ 0 := by simpa using hfull
      change (ds.length + 1) / 8 - 0 = _
      omega
  | true =>
      have hlast : (ds.length + 1) % 8 = 0 := by simpa using hfull
      change (ds.length + 1) / 8 - 1 = _
      omega

private theorem arrived_cycle (ds : List (BitVec 4)) (i : SerialBootIn) (b : SerialBoot)
    (hready : (b.cycle i).uartReadyPrev = true) (hdigit : (uartDataBin i.uartData).isSome = true) :
    0 < (ds ++ arriving i).length := by
  obtain ⟨bin, hbin⟩ := Option.isSome_iff_exists.mp hdigit
  unfold arriving
  rw [uartReadyPrev_cycle] at hready
  rw [hready, hbin]
  simp

theorem Decoding.first (hwe : i.we = true) (ha : i.a = 2) (hrst : i.rst = false)
    (hready : b.ready i = true) (hcnt : b.uartByteCnt = 0) (hspace : i.uartData ≠ 0x20) :
    Decoding b.memStartAddr (arriving i) (pulse i b) i.uartData (b.cycle i) := by
  have hno : b.sbWe i = false := by
    unfold SerialBoot.ready at hready
    unfold sbWe
    rw [Bool.not_eq_true'] at hready
    rw [hready, Bool.and_false]
  have hgathered : Gathered [] b := ⟨hcnt, fun k hk => absurd hk (Nat.not_lt_zero k)⟩
  have hsent : sent (arriving i) i.uartData (b.cycle i) = 0 := sent_cycle [] i b
  refine ⟨hgathered.cycle hrst, ?_, hspace, arrived_cycle [] i b, ?_, ?_⟩
  · rw [began_cycle]
    simp [hrst, hwe, ha]
  · unfold pulse
    rw [hno, hsent]
    rfl
  · rw [hsent]
    unfold SerialBoot.cycle
    simp [hrst, ha, hno]

section Cycle

variable (h : Decoding start ds log data b) (hrst : i.rst = false) (hwe : i.we = false)
  (hheld : i.uartReady = false → i.uartData = data)
  (hspaced : b.uartReadyPrev = true → i.uartReady = false)

include h hrst hwe hheld hspaced

omit hrst hwe in
private theorem Decoding.sbWe_eq (hspace : i.uartData ≠ 0x20) : b.sbWe i = due ds data b := by
  have hfinish : finish i = false := by simpa [finish] using hspace
  have hcount : (b.uartByteCnt == 0) = (ds.length % 8 == 0) := by
    rw [h.gathered.cnt, Bool.eq_iff_iff, beq_iff_eq, beq_iff_eq]
    constructor
    · intro hzero
      have hnat := congrArg BitVec.toNat hzero
      simpa using hnat
    · intro hzero
      apply BitVec.eq_of_toNat_eq
      simpa using hzero
  unfold sbWe due transferring
  rw [h.began, hfinish, hcount]
  cases hprev : b.uartReadyPrev with
  | false => simp
  | true =>
      rw [hheld (hspaced hprev)]
      cases (ds.length % 8 == 0) <;> simp

private theorem Decoding.pulse_eq (hspace : i.uartData ≠ 0x20) :
    log ++ pulse i b = wordsFrom start ds (ds.length / 8) ∧
      (b.cycle i).memStartAddr = start + BitVec.ofNat 32 (4 * (ds.length / 8)) := by
  have hsb := h.sbWe_eq hheld hspaced hspace
  have hnext : (b.cycle i).memStartAddr =
      if due ds data b then b.memStartAddr + 4 else b.memStartAddr := by
    unfold SerialBoot.cycle
    simp [hrst, hwe, hsb]
  have hlog := h.log
  have haddr := h.addr
  unfold sent at hlog haddr
  unfold pulse
  rw [hsb, hnext]
  cases hdue : due ds data b with
  | false =>
      rw [hdue] at hlog haddr
      exact ⟨(List.append_nil _).trans hlog, haddr⟩
  | true =>
      have hdue' := hdue
      unfold due at hdue'
      simp only [Bool.and_eq_true, beq_iff_eq] at hdue'
      have hpos := h.arrived hdue'.1.1 hdue'.1.2
      obtain ⟨m, hm⟩ : ∃ m, ds.length = 8 * (m + 1) := ⟨ds.length / 8 - 1, by omega⟩
      have hsent : ds.length / 8 - (due ds data b).toNat = m := by
        rw [hdue]
        change ds.length / 8 - 1 = m
        omega
      have hall : ds.length / 8 = m + 1 := by omega
      rw [hsent] at hlog haddr
      refine ⟨?_, ?_⟩
      · rw [if_pos rfl, hlog, hall, wordsFrom_succ, h.gathered.sbD_eq hm, sbA, haddr]
      · rw [if_pos rfl, haddr, hall, Nat.mul_add, BitVec.ofNat_add, BitVec.add_assoc]
        rfl

theorem Decoding.cycle (hspace : i.uartData ≠ 0x20) :
    Decoding start (ds ++ arriving i) (log ++ pulse i b) i.uartData (b.cycle i) := by
  obtain ⟨hlog, haddr⟩ := h.pulse_eq hrst hwe hheld hspaced hspace
  have hfinish : finish i = false := by simpa [finish] using hspace
  refine ⟨h.gathered.cycle hrst, ?_, hspace, arrived_cycle ds i b, ?_, ?_⟩
  · rw [began_cycle]
    simp [hrst, hwe, hfinish, h.began]
  · rw [sent_cycle, hlog, wordsFrom_append _ (by omega)]
  · rw [sent_cycle, haddr]

omit hheld in
theorem Decoding.space (hready : i.uartReady = true) (hspace : i.uartData = 0x20) :
    Ended i.uartData (b.cycle i) ∧ log ++ pulse i b = wordsFrom start ds (ds.length / 8) := by
  have hprev : b.uartReadyPrev = false := by
    by_contra hprev
    rw [hspaced (eq_true_of_ne_false hprev)] at hready
    cases hready
  have hfinish : finish i = true := by simpa [finish] using hspace
  have hnone : pulse i b = [] := by
    unfold pulse sbWe
    simp [hprev]
  have hlog := h.log
  have hdue : due ds data b = false := by
    unfold due
    rw [hprev]
    rfl
  unfold sent at hlog
  rw [hdue] at hlog
  refine ⟨fun hbegan => ?_, ?_⟩
  · rw [began_cycle] at hbegan
    simp [hrst, hwe, hfinish] at hbegan
  · rw [hnone, List.append_nil, hlog]
    rfl

end Cycle

theorem Ended.cycle (h : Ended data b) (hrst : i.rst = false) (hwe : i.we = false)
    (hheld : i.uartReady = false → i.uartData = data)
    (hspaced : b.uartReadyPrev = true → i.uartReady = false) :
    Ended i.uartData (b.cycle i) ∧ b.transferring i = false := by
  have hoff : b.transferring i = false := by
    unfold transferring
    cases hbegan : b.began with
    | false => rfl
    | true =>
        obtain ⟨hspace, hprev⟩ := h hbegan
        have hfinish : finish i = true := by
          unfold finish
          rw [hheld (hspaced hprev), hspace]
          rfl
        rw [hfinish]
        rfl
  refine ⟨fun hbegan => ?_, hoff⟩
  rw [began_cycle] at hbegan
  unfold transferring at hoff
  cases hfinish : finish i with
  | false =>
      rw [hfinish] at hoff
      simp only [hrst, hwe, hfinish, Bool.false_and, Bool.false_eq_true, if_false] at hbegan
      rw [hbegan] at hoff
      cases hoff
  | true => simp [hrst, hwe, hfinish] at hbegan

/-! ## Runs -/

private theorem untilSpace_of_not_mem {chars : List (BitVec 8)} (h : 0x20 ∉ chars) :
    untilSpace chars = chars := by
  unfold untilSpace
  rw [List.takeWhile_eq_self_iff]
  intro c hc
  rw [bne_iff_ne]
  rintro rfl
  exact h hc

private theorem untilSpace_append {chars : List (BitVec 8)} (h : 0x20 ∈ chars)
    (more : List (BitVec 8)) :
    untilSpace (chars ++ more) = untilSpace chars := by
  induction chars with
  | nil => cases h
  | cons c chars ih =>
      unfold untilSpace at ih ⊢
      by_cases hc : c = 0x20
      · rw [hc]
        rfl
      · have hrest := ih ((List.mem_cons.mp h).resolve_left (Ne.symm hc))
        simp only [List.cons_append, List.takeWhile_cons, bne_iff_ne.mpr hc, if_true, hrest]

private theorem untilSpace_concat {chars : List (BitVec 8)} (h : 0x20 ∉ chars) :
    untilSpace (chars ++ [0x20]) = chars := by
  unfold untilSpace
  rw [List.takeWhile_append_of_pos]
  · exact List.append_nil chars
  · intro c hc
    rw [bne_iff_ne]
    rintro rfl
    exact h hc

def decoded (start : Word) (chars : List (BitVec 8)) : List (Word × Word) :=
  wordsFrom start (digits (untilSpace chars)) ((digits (untilSpace chars)).length / 8)

def Progress (start : Word) (chars : List (BitVec 8)) (log : List (Word × Word))
    (data : BitVec 8) (b : SerialBoot) : Prop :=
  (0x20 ∉ chars ∧ Decoding start (digits chars) log data b) ∨
    (0x20 ∈ chars ∧ Ended data b ∧ log = decoded start chars)

def arrival (i : SerialBootIn) : List (BitVec 8) := if i.uartReady then [i.uartData] else []

private theorem digits_append_arrival (chars : List (BitVec 8)) (i : SerialBootIn) :
    digits (chars ++ arrival i) = digits chars ++ arriving i := by
  unfold digits arriving arrival
  rw [List.filterMap_append]
  congr 1
  split_ifs
  · cases h : uartDataBin i.uartData <;> simp [h]
  · rfl

theorem Progress.cycle {chars : List (BitVec 8)} (h : Progress start chars log data b)
    (hrst : i.rst = false) (hwe : i.we = false) (hheld : i.uartReady = false → i.uartData = data)
    (hspaced : b.uartReadyPrev = true → i.uartReady = false) :
    Progress start (chars ++ arrival i) (log ++ pulse i b) i.uartData (b.cycle i) ∧
      log ++ pulse i b = decoded start chars ∧
      (b.ready i = true ↔ 0x20 ∈ chars ++ arrival i) := by
  rcases h with ⟨hnone, h⟩ | ⟨hsome, h, hlog⟩
  · have hchars := untilSpace_of_not_mem hnone
    by_cases hspace : i.uartData = 0x20
    · have hready : i.uartReady = true := by
        by_contra hquiet
        exact h.noSpace ((hheld (eq_false_of_ne_true hquiet)).symm.trans hspace)
      obtain ⟨hended, hlog⟩ := h.space hrst hwe hspaced hready hspace
      have harrival : arrival i = [0x20] := by
        unfold arrival
        rw [hready, hspace]
        rfl
      have hmem : 0x20 ∈ chars ++ arrival i := by
        rw [harrival]
        exact List.mem_append_right _ List.mem_cons_self
      refine ⟨.inr ⟨hmem, hended, ?_⟩, ?_, iff_of_true ?_ hmem⟩
      · unfold decoded
        rw [hlog, harrival, untilSpace_concat hnone]
      · unfold decoded
        rw [hlog, hchars]
      · unfold SerialBoot.ready transferring finish
        rw [hspace]
        simp
    · have hlog := (h.pulse_eq hrst hwe hheld hspaced hspace).1
      have hmem : 0x20 ∉ chars ++ arrival i := by
        unfold arrival
        rw [List.mem_append, not_or]
        refine ⟨hnone, ?_⟩
        split_ifs
        · simpa using Ne.symm hspace
        · exact List.not_mem_nil
      refine ⟨.inl ⟨hmem, ?_⟩, ?_, iff_of_false ?_ hmem⟩
      · rw [digits_append_arrival]
        exact h.cycle hrst hwe hheld hspaced hspace
      · unfold decoded
        rw [hlog, hchars]
      · unfold SerialBoot.ready transferring finish
        rw [h.began, beq_eq_false_iff_ne.mpr hspace]
        decide
  · obtain ⟨hended, hoff⟩ := h.cycle hrst hwe hheld hspaced
    have hmem : 0x20 ∈ chars ++ arrival i := List.mem_append_left _ hsome
    have hpulse : pulse i b = [] := by
      unfold pulse sbWe
      rw [hoff, Bool.and_false]
      rfl
    have hsame : log ++ pulse i b = decoded start chars := by
      rw [hpulse, List.append_nil, hlog]
    refine ⟨.inr ⟨hmem, hended, ?_⟩, hsame, iff_of_true ?_ hmem⟩
    · unfold decoded at hsame ⊢
      rw [hsame, untilSpace_append hsome]
    · unfold SerialBoot.ready
      rw [hoff]
      rfl

theorem Starts.progress (hstarts : Starts b ins) (hfed : Fed last ins)
    (hcnt : b.uartByteCnt = 0) (hlast : last ≠ 0x20) :
    Progress b.memStartAddr (arrival (ins 0)) (pulse (ins 0) b) (ins 0).uartData
      (b.cycle (ins 0)) := by
  by_cases hspace : (ins 0).uartData = 0x20
  · have hready : (ins 0).uartReady = true := by
      by_contra hquiet
      exact hlast ((hfed.first (eq_false_of_ne_true hquiet)).symm.trans hspace)
    have harrival : arrival (ins 0) = [0x20] := by
      unfold arrival
      rw [hready, hspace]
      rfl
    have hpulse : pulse (ins 0) b = [] := by
      have hoff := hstarts.ready
      unfold SerialBoot.ready at hoff
      rw [Bool.not_eq_true'] at hoff
      unfold pulse sbWe
      rw [hoff, Bool.and_false]
      rfl
    rw [harrival, hpulse]
    exact .inr ⟨List.mem_cons_self, fun _ => ⟨hspace, hready⟩, rfl⟩
  · have hmem : 0x20 ∉ arrival (ins 0) := by
      unfold arrival
      split_ifs
      · simpa using Ne.symm hspace
      · exact List.not_mem_nil
    refine .inl ⟨hmem, ?_⟩
    have hdigits : digits (arrival (ins 0)) = arriving (ins 0) :=
      digits_append_arrival [] (ins 0)
    rw [hdigits]
    exact .first hstarts.we hstarts.a (hfed.rst 0) hstarts.ready hcnt hspace

theorem Starts.run (hstarts : Starts b ins) (hfed : Fed last ins) (hcnt : b.uartByteCnt = 0)
    (hlast : last ≠ 0x20) (t : Nat) :
    Progress b.memStartAddr (received ins (t + 1)) (logged SerialBoot.cycle pulse ins b (t + 1))
      (ins t).uartData (trace SerialBoot.cycle ins b (t + 1)) := by
  induction t with
  | zero => exact hstarts.progress hfed hcnt hlast
  | succ t ih =>
      exact (ih.cycle (hfed.rst _) (hstarts.quiet t) (hfed.held t) (hfed.spaced t)).1

private theorem decodes_of_aligned (hcnt : b.uartByteCnt = 0) (hlast : last ≠ 0x20) :
    DecodesAll b last := by
  intro ins hfed hstarts t
  cases t with
  | zero =>
      refine ⟨?_, fun h => absurd h (Nat.lt_irrefl 0)⟩
      have hoff := hstarts.ready
      unfold SerialBoot.ready at hoff
      rw [Bool.not_eq_true'] at hoff
      have hpulse : pulse (ins 0) b = [] := by
        unfold pulse sbWe
        rw [hoff, Bool.and_false]
        rfl
      rw [logged_succ, logged_zero, List.nil_append]
      simpa [received, untilSpace, digits, wordsFrom] using hpulse
  | succ t =>
      obtain ⟨-, hlog, hready⟩ := (hstarts.run hfed hcnt hlast t).cycle (hfed.rst _)
        (hstarts.quiet t) (hfed.held t) (hfed.spaced t)
      exact ⟨hlog, fun _ => hready⟩

/-! ## Starts that go wrong -/

def zeros (last : BitVec 8) (some : Bool) (t : Nat) : SerialBootIn :=
  { rst := false, a := 2, d := 0, we := t == 0
    uartData := if some && t != 0 then 0x30 else last
    uartReady := some && t % 2 == 1 }

private theorem fed_zeros (last : BitVec 8) (some : Bool) : Fed last (zeros last some) where
  first _ := by cases some <;> rfl
  held t h := by
    cases some with
    | false => rfl
    | true =>
        have heven : (t + 1) % 2 ≠ 1 := by simpa [zeros] using h
        have hpos : t ≠ 0 := by omega
        simp [zeros, hpos]
  spaced t h := by
    have hodd : some = true ∧ t % 2 = 1 := by simpa [zeros] using h
    have heven : (t + 1) % 2 = 0 := by omega
    simp [zeros, heven]
  rst _ := rfl

private theorem starts_zeros (hidle : b.began = true → last = 0x20) (some : Bool) :
    Starts b (zeros last some) := by
  refine ⟨rfl, rfl, ?_, fun t => rfl⟩
  have hdata : (zeros last some 0).uartData = last := by cases some <;> rfl
  unfold SerialBoot.ready transferring finish
  rw [hdata]
  cases hbegan : b.began with
  | false => rfl
  | true =>
      rw [hidle hbegan]
      rfl

/-- A start behind a space is lost: `ready` is high again at once. -/
theorem DecodesAll.ne_space (h : DecodesAll b last) (hidle : b.began = true → last = 0x20) :
    last ≠ 0x20 := by
  rintro rfl
  have hready := (h _ (fed_zeros 0x20 false) (starts_zeros hidle false) 1).2 Nat.one_pos
  have hhigh : (trace SerialBoot.cycle (zeros 0x20 false) b 1).ready (zeros 0x20 false 1) =
      true := by
    unfold SerialBoot.ready transferring finish zeros
    simp
  exact absurd (hready.mp hhigh) List.not_mem_nil

private theorem began_zeros (last : BitVec 8) (b : SerialBoot) (t : Nat) :
    (trace SerialBoot.cycle (zeros last true) b (t + 1)).began = true := by
  induction t with
  | zero => rfl
  | succ t ih =>
      have hdata : finish (zeros last true (t + 1)) = false := rfl
      rw [trace_succ, began_cycle, hdata, ih]
      rfl

private theorem length_digits_zeros (last : BitVec 8) (k : Nat) :
    (digits (received (zeros last true) (2 * k))).length = k := by
  induction k with
  | zero => rfl
  | succ k ih =>
      have heven : (2 * k) % 2 ≠ 1 := by omega
      have hodd : (2 * k + 1) % 2 = 1 := by omega
      have hquiet : arriving (zeros last true (2 * k)) = [] := by
        unfold arriving zeros
        simp
      have hzero : arriving (zeros last true (2 * k + 1)) = [0] := by
        unfold arriving zeros
        simp [hodd]
        rfl
      rw [Nat.mul_succ, ← Nat.add_assoc (2 * k) 1 1, digits_received_succ, digits_received_succ,
        hquiet, hzero, List.append_nil, List.length_append, ih]
      rfl

/-- Digits from before the start fill up the first group. -/
theorem DecodesAll.cnt_eq (h : DecodesAll b last) (hidle : b.began = true → last = 0x20) :
    b.uartByteCnt = 0 := by
  by_contra hne
  have hpos : b.uartByteCnt.toNat ≠ 0 := fun h0 => hne (BitVec.eq_of_toNat_eq h0)
  have hlt := b.uartByteCnt.isLt
  obtain ⟨k, hk⟩ : ∃ k, 8 - b.uartByteCnt.toNat = k + 1 :=
    Nat.exists_eq_succ_of_ne_zero (by omega)
  have hlog := (h _ (fed_zeros last true) (starts_zeros hidle true) (2 * (k + 1))).1
  have hshort :
      (digits (untilSpace (received (zeros last true) (2 * (k + 1))))).length / 8 = 0 := by
    have hle := ((List.takeWhile_sublist (· != (0x20 : BitVec 8))
      (l := received (zeros last true) (2 * (k + 1)))).filterMap uartDataBin).length_le
    have hlength := length_digits_zeros last (k + 1)
    unfold digits at hlength ⊢
    unfold untilSpace
    omega
  rw [hshort, logged_succ] at hlog
  have hnone := (List.append_eq_nil_iff.mp hlog).2
  have hcnt : (trace SerialBoot.cycle (zeros last true) b (2 * (k + 1))).uartByteCnt = 0 := by
    rw [uartByteCnt_trace fun _ _ => rfl, length_digits_zeros]
    apply BitVec.eq_of_toNat_eq
    rw [BitVec.toNat_add, BitVec.toNat_ofNat]
    change _ = 0
    omega
  have hbegan := began_zeros last b (2 * k + 1)
  have hprev : (trace SerialBoot.cycle (zeros last true) b (2 * k + 1 + 1)).uartReadyPrev =
      true := by
    rw [trace_succ, uartReadyPrev_cycle]
    have hodd : (2 * k + 1) % 2 = 1 := by omega
    simp [zeros, hodd]
  have hshift : 2 * (k + 1) = 2 * k + 1 + 1 := by omega
  rw [hshift] at hnone hcnt
  have hdata : (zeros last true (2 * k + 1 + 1)).uartData = 0x30 := by simp [zeros]
  unfold pulse sbWe transferring finish at hnone
  rw [hcnt, hprev, hbegan, hdata, if_pos (by decide)] at hnone
  exact absurd hnone (List.cons_ne_nil _ _)

/--
A transfer decodes whatever follows its start just if the digits received before, of
whatever transfer or none, are a multiple of eight and the last character is no space.
-/
theorem decodes_all_iff (hreset : b.uartByteCnt = 0) (hrst : ∀ k < t, (ins k).rst = false)
    (hidle : (trace SerialBoot.cycle ins b t).began = true → lastReceived ins t = 0x20) :
    DecodesAll (trace SerialBoot.cycle ins b t) (lastReceived ins t) ↔
      (digits (received ins t)).length % 8 = 0 ∧ lastReceived ins t ≠ 0x20 := by
  have hcnt : (trace SerialBoot.cycle ins b t).uartByteCnt = 0 ↔
      (digits (received ins t)).length % 8 = 0 := by
    rw [uartByteCnt_trace hrst, hreset]
    constructor
    · intro hzero
      have hnat := congrArg BitVec.toNat hzero
      simpa using hnat
    · intro hzero
      apply BitVec.eq_of_toNat_eq
      simpa using hzero
  rw [← hcnt]
  exact ⟨fun h => ⟨h.cnt_eq hidle, h.ne_space hidle⟩, fun h => decodes_of_aligned h.1 h.2⟩

/-! ### One character before the start -/

def afterReset : SerialBoot :=
  { began := false, uartByteCnt := 0, uartByte := fun _ => 0, uartReadyPrev := false
    memStartAddr := 0 }

def typed (char : BitVec 8) (t : Nat) : SerialBootIn :=
  { rst := false, a := 0, d := 0, we := false, uartData := char, uartReady := t == 0 }

/-- A carriage return does no harm. -/
theorem decodes_all_iff_return :
    DecodesAll (trace SerialBoot.cycle (typed 0x0d) afterReset 2) 0x0d := by
  have hlast : lastReceived (typed 0x0d) 2 = 0x0d := by decide
  have hrst : ∀ k < 2, (typed 0x0d k).rst = false := fun _ _ => rfl
  have hidle : (trace SerialBoot.cycle (typed 0x0d) afterReset 2).began = true →
      lastReceived (typed 0x0d) 2 = 0x20 := fun h => absurd h (by decide)
  have hreset : afterReset.uartByteCnt = 0 := rfl
  have hiff := decodes_all_iff hreset hrst hidle
  rw [hlast] at hiff
  exact hiff.mpr ⟨by decide, by decide⟩

/-- A digit before the start shifts the groups, a space ends the transfer at once. -/
theorem typed_before_start :
    ¬DecodesAll (trace SerialBoot.cycle (typed 0x61) afterReset 2) 0x61 ∧
      ¬DecodesAll (trace SerialBoot.cycle (typed 0x20) afterReset 2) 0x20 :=
  ⟨fun h => absurd (h.cnt_eq fun hbegan => absurd hbegan (by decide)) (by decide),
    fun h => h.ne_space (fun _ => rfl) rfl⟩

end SerialBoot

end PComputer.Rtl
