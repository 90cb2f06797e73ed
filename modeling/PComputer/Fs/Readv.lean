import PComputer.Foundation.Updates
import PComputer.Fs.Daemons
import PComputer.Kernel.Blk

/-!
# `tty.c`: `SYS_readv`

The outer loop takes the buffers of the request, the inner one the characters for a
buffer.  A line end leaves the inner loop only, so behind it the next buffer is used.
-/

namespace PComputer.PseudOS

open PComputer.Foundation

structure Iovec where
  iovBase : Word
  iovLen : Word
  deriving DecidableEq

/-- The memory, the characters read from the device so far, and `xfrcnt`. -/
structure TtyInput where
  memory : ByteMemory
  consumed : List Byte
  xfrcnt : Nat

def endsLine (c : Byte) : Bool := c == 10 || c == 13

namespace TtyInput

def start (memory : ByteMemory) : TtyInput := ⟨memory, [], 0⟩

variable (dev : Nat → Byte) (s : TtyInput)

def cIn : Byte := dev s.consumed.length

def put (address : Word) : TtyInput where
  memory := Function.update s.memory address (s.cIn dev)
  consumed := s.consumed ++ [s.cIn dev]
  xfrcnt := s.xfrcnt + 1

/-- The loop over `j`, with `count` characters left to the length of the buffer. -/
def readBuffer (base : Word) : Nat → Nat → TtyInput → TtyInput
  | 0, _, s => s
  | count + 1, j, s =>
      let next := s.put dev (base + BitVec.ofNat 32 j)
      if endsLine (s.cIn dev) then next else readBuffer base count (j + 1) next

def readv : List Iovec → TtyInput → TtyInput
  | [], s => s
  | iov :: iovs, s => readv iovs (readBuffer dev iov.iovBase iov.iovLen.toNat 0 s)

end TtyInput

def System.ttyReadv (dev : Nat → Byte) (iovs : List Iovec) (memory : ByteMemory) (s : System) :
    System × TtyInput :=
  let done := TtyInput.readv dev iovs (TtyInput.start memory)
  (s.ttyServe (BitVec.ofNat 32 done.xfrcnt), done)

private theorem System.ttyReadv_param {dev : Nat → Byte} {iovs : List Iovec} {memory : ByteMemory}
    {s : System} (h : s.tty.elem.function = SYS_readv) :
    (s.ttyReadv dev iovs memory).1.tty.msg.param 0 =
      BitVec.ofNat 32 (TtyInput.readv dev iovs (TtyInput.start memory)).xfrcnt := by
  unfold ttyReadv ttyServe
  simp only [h]
  rfl

/-! ## The contract of `readv` -/

namespace Iovec

def addresses (iovs : List Iovec) : List Word :=
  iovs.flatMap fun iov =>
    (List.range iov.iovLen.toNat).map fun j => iov.iovBase + BitVec.ofNat 32 j

def total (iovs : List Iovec) : Nat := (addresses iovs).length

end Iovec

open Iovec

/--
The answer is `xfrcnt`, a buffer that has not been filled is the last one that is used,
and the first `xfrcnt` bytes of the concatenated buffers are the characters in order.
-/
structure ReadvContract (dev : Nat → Byte) (iovs : List Iovec) (memory : ByteMemory) : Prop where
  answered : ∀ s : System, s.tty.elem.function = SYS_readv →
    (s.ttyReadv dev iovs memory).1.tty.msg.param 0 =
      BitVec.ofNat 32 (TtyInput.readv dev iovs (TtyInput.start memory)).xfrcnt
  inOrder : ∀ pre iov post, iovs = pre ++ iov :: post →
    (TtyInput.readv dev (pre ++ [iov]) (TtyInput.start memory)).xfrcnt < total (pre ++ [iov]) →
      TtyInput.readv dev iovs (TtyInput.start memory) =
        TtyInput.readv dev (pre ++ [iov]) (TtyInput.start memory)
  bytes :
    ((addresses iovs).take (TtyInput.readv dev iovs (TtyInput.start memory)).xfrcnt).map
        (TtyInput.readv dev iovs (TtyInput.start memory)).memory =
      (TtyInput.readv dev iovs (TtyInput.start memory)).consumed

def EndsWithin (dev : Nat → Byte) (iovs : List Iovec) (q : Nat) : Prop :=
  ∃ pre iov post j, iovs = pre ++ iov :: post ∧ q = total pre + j ∧ j + 1 < iov.iovLen.toNat ∧
    endsLine (dev q) = true

/-- Behind a line that ends within a buffer no buffer has room. -/
def NoRoomBehind (dev : Nat → Byte) (iovs : List Iovec) : Prop :=
  ∀ pre iov post j, iovs = pre ++ iov :: post → j + 1 < iov.iovLen.toNat →
    endsLine (dev (total pre + j)) = true → total post = 0

/-- Nor do two different characters up to that line end go to one address. -/
structure OneLine (dev : Nat → Byte) (iovs : List Iovec) : Prop where
  last : NoRoomBehind dev iovs
  apart : ∀ (m m' : Nat) (hm : m < m') (hm' : m' < total iovs),
    (∀ q < m', ¬EndsWithin dev iovs q) →
      (addresses iovs).get ⟨m, hm.trans hm'⟩ = (addresses iovs).get ⟨m', hm'⟩ →
        dev m = dev m'

namespace TtyInput

variable {dev : Nat → Byte} {s : TtyInput} {memory : ByteMemory} {iovs : List Iovec} {q : Nat}

/-! ## What is written -/

def chars (dev : Nat → Byte) (c n : Nat) : List Byte := (List.range n).map fun i => dev (c + i)

@[simp] theorem length_chars (c n : Nat) : (chars dev c n).length = n := by simp [chars]

private theorem chars_succ (c n : Nat) : chars dev c (n + 1) = dev c :: chars dev (c + 1) n := by
  unfold chars
  rw [List.range_succ_eq_map, List.map_cons, List.map_map, Nat.add_zero]
  congr 2
  funext i
  exact congrArg dev (by omega)

def putAll (dev : Nat → Byte) (addresses : List Word) (s : TtyInput) : TtyInput :=
  addresses.foldl (fun s address => s.put dev address) s

private theorem putAll_cons (a : Word) (as : List Word) :
    putAll dev (a :: as) s = putAll dev as (s.put dev a) := rfl

private theorem putAll_append (as as' : List Word) :
    putAll dev (as ++ as') s = putAll dev as' (putAll dev as s) := List.foldl_append

private theorem length_consumed_putAll (as : List Word) :
    (putAll dev as s).consumed.length = s.consumed.length + as.length := by
  induction as generalizing s with
  | nil => rfl
  | cons a as ih =>
      rw [putAll_cons, ih, put, List.length_append, List.length_singleton, List.length_cons]
      omega

private theorem xfrcnt_putAll (as : List Word) :
    (putAll dev as s).xfrcnt = s.xfrcnt + as.length := by
  induction as generalizing s with
  | nil => rfl
  | cons a as ih =>
      rw [putAll_cons, ih, put, List.length_cons]
      simp only
      omega

private theorem putAll_eq (dev : Nat → Byte) (s : TtyInput) (as : List Word) :
    (putAll dev as s).memory =
        updates s.memory (as.zip (chars dev s.consumed.length as.length)) ∧
      (putAll dev as s).consumed = s.consumed ++ chars dev s.consumed.length as.length := by
  induction as generalizing s with
  | nil => exact ⟨rfl, (List.append_nil _).symm⟩
  | cons a as ih =>
      obtain ⟨hmemory, hconsumed⟩ := ih (s := s.put dev a)
      have hlength : (s.put dev a).consumed.length = s.consumed.length + 1 := by simp [put]
      rw [hlength] at hmemory hconsumed
      rw [putAll_cons, hmemory, hconsumed, List.length_cons, chars_succ, List.zip_cons_cons,
        updates_cons]
      exact ⟨rfl, by simp [put, cIn]⟩

/--
The inner loop fills the buffer up to the first line end; `k` is the number of
characters it takes.
-/
theorem readBuffer_eq (dev : Nat → Byte) (s : TtyInput) (base : Word) (count j : Nat) :
    ∃ k ≤ count,
      readBuffer dev base count j s =
          putAll dev ((List.range' j k).map fun i => base + BitVec.ofNat 32 i) s ∧
        (k < count → 0 < k ∧ endsLine (dev (s.consumed.length + (k - 1))) = true) ∧
        ∀ i, i + 1 < k → endsLine (dev (s.consumed.length + i)) = false := by
  induction count generalizing j s with
  | zero =>
      exact ⟨0, le_rfl, rfl, fun h => absurd h (lt_irrefl 0), fun i hi => absurd hi (by omega)⟩
  | succ count ih =>
      cases hline : endsLine (s.cIn dev) with
      | true =>
          refine ⟨1, by omega, ?_, fun _ => ⟨Nat.one_pos, hline⟩, fun i hi => absurd hi (by omega)⟩
          unfold readBuffer
          rw [if_pos hline]
          rfl
      | false =>
          obtain ⟨k, hk, heq, hlast, hbefore⟩ :=
            ih (j := j + 1) (s := s.put dev (base + BitVec.ofNat 32 j))
          have hlength : (s.put dev (base + BitVec.ofNat 32 j)).consumed.length =
              s.consumed.length + 1 := by simp [put]
          rw [hlength] at hlast hbefore
          refine ⟨k + 1, by omega, ?_, ?_, ?_⟩
          · unfold readBuffer
            simp only [hline, Bool.false_eq_true, if_false]
            rw [heq, List.range'_succ, List.map_cons, putAll_cons]
          · intro hless
            obtain ⟨hpos, hends⟩ := hlast (by omega)
            refine ⟨by omega, ?_⟩
            rwa [show s.consumed.length + (k + 1 - 1) = s.consumed.length + 1 + (k - 1) by omega]
          · intro i hi
            cases i with
            | zero => exact hline
            | succ i =>
                rw [show s.consumed.length + (i + 1) = s.consumed.length + 1 + i by omega]
                exact hbefore i (by omega)

/-! ## A run over the buffers -/

private theorem readv_append (iovs' : List Iovec) :
    readv dev (iovs ++ iovs') s = readv dev iovs' (readv dev iovs s) := by
  induction iovs generalizing s with
  | nil => rfl
  | cons iov iovs ih => exact ih

private theorem addresses_append (iovs' : List Iovec) :
    addresses (iovs ++ iovs') = addresses iovs ++ addresses iovs' := List.flatMap_append

private theorem total_append (iovs' : List Iovec) :
    total (iovs ++ iovs') = total iovs + total iovs' := by
  rw [total, addresses_append, List.length_append, total, total]

private theorem total_singleton (iov : Iovec) : total [iov] = iov.iovLen.toNat := by
  simp [total, addresses]

private theorem total_cons (iov : Iovec) : total (iov :: iovs) = iov.iovLen.toNat + total iovs := by
  rw [← total_singleton iov, ← total_append]
  rfl

structure Counts (dev : Nat → Byte) (memory : ByteMemory) (pre : List Iovec) (iov : Iovec)
    (k : Nat) : Prop where
  le : k ≤ iov.iovLen.toNat
  eq : readv dev (pre ++ [iov]) (start memory) =
    putAll dev ((addresses [iov]).take k) (readv dev pre (start memory))
  line : k < iov.iovLen.toNat → 0 < k ∧
    endsLine (dev ((readv dev pre (start memory)).xfrcnt + (k - 1))) = true
  before : ∀ i, i + 1 < k →
    endsLine (dev ((readv dev pre (start memory)).xfrcnt + i)) = false

private theorem length_consumed (iovs : List Iovec) :
    (readv dev iovs (start memory)).consumed.length = (readv dev iovs (start memory)).xfrcnt := by
  induction iovs using List.reverseRecOn with
  | nil => rfl
  | append_singleton pre iov ih =>
      obtain ⟨k, -, heq, -, -⟩ :=
        readBuffer_eq dev (readv dev pre (start memory)) iov.iovBase
          iov.iovLen.toNat 0
      rw [readv_append, readv, readv, heq, length_consumed_putAll, xfrcnt_putAll, ih]

private theorem exists_counts (dev : Nat → Byte) (memory : ByteMemory) (pre : List Iovec)
    (iov : Iovec) :
    ∃ k, Counts dev memory pre iov k := by
  obtain ⟨k, hk, heq, hline, hbefore⟩ :=
    readBuffer_eq dev (readv dev pre (start memory)) iov.iovBase iov.iovLen.toNat 0
  rw [length_consumed] at hline hbefore
  refine ⟨k, hk, ?_, hline, hbefore⟩
  rw [readv_append, readv, readv, heq]
  congr 1
  rw [addresses, List.flatMap_singleton, ← List.map_take, List.take_range, Nat.min_eq_left hk,
    List.range_eq_range']

private theorem Counts.xfrcnt_eq {pre : List Iovec} {iov : Iovec} {k : Nat}
    (h : Counts dev memory pre iov k) :
    (readv dev (pre ++ [iov]) (start memory)).xfrcnt =
      (readv dev pre (start memory)).xfrcnt + k := by
  rw [h.eq, xfrcnt_putAll, List.length_take, ← total, total_singleton, Nat.min_eq_left h.le]

private theorem xfrcnt_le_total (dev : Nat → Byte) (memory : ByteMemory) (iovs : List Iovec) :
    (readv dev iovs (start memory)).xfrcnt ≤ total iovs := by
  induction iovs using List.reverseRecOn with
  | nil => exact le_rfl
  | append_singleton pre iov ih =>
      obtain ⟨k, hk⟩ := exists_counts dev memory pre iov
      rw [hk.xfrcnt_eq, total_append, total_singleton]
      exact Nat.add_le_add ih hk.le

private theorem readv_of_total_eq_zero (h : total iovs = 0) : readv dev iovs s = s := by
  induction iovs with
  | nil => rfl
  | cons iov iovs ih =>
      rw [total_cons] at h
      rw [readv, show iov.iovLen.toNat = 0 by omega, readBuffer]
      exact ih (by omega)

private theorem xfrcnt_lt_readv (dev : Nat → Byte) (h : total iovs ≠ 0) :
    s.xfrcnt < (readv dev iovs s).xfrcnt := by
  induction iovs generalizing s with
  | nil => exact absurd rfl h
  | cons iov iovs ih =>
      rw [total_cons] at h
      obtain ⟨k, hk, heq, hline, -⟩ :=
        readBuffer_eq dev s iov.iovBase iov.iovLen.toNat 0
      have hcount : (readBuffer dev iov.iovBase iov.iovLen.toNat 0 s).xfrcnt = s.xfrcnt + k := by
        rw [heq, xfrcnt_putAll, List.length_map, List.length_range']
      rw [readv]
      by_cases hrest : total iovs = 0
      · rw [readv_of_total_eq_zero hrest, hcount]
        have hpos : k < iov.iovLen.toNat → 0 < k := fun hless => (hline hless).1
        omega
      · have hlt := ih (s := readBuffer dev iov.iovBase iov.iovLen.toNat 0 s) hrest
        omega

/-! ## Line ends within a buffer -/

private theorem endsWithin_append (h : EndsWithin dev iovs q) (iovs' : List Iovec) :
    EndsWithin dev (iovs ++ iovs') q := by
  obtain ⟨pre, iov, post, j, rfl, hq, hj, hends⟩ := h
  exact ⟨pre, iov, post ++ iovs', j, by simp, hq, hj, hends⟩

private theorem lt_total_of_endsWithin (h : EndsWithin dev iovs q) : q < total iovs := by
  obtain ⟨pre, iov, post, j, rfl, rfl, hj, -⟩ := h
  rw [total_append, total_cons]
  omega

private theorem endsWithin_snoc {pre : List Iovec} {iov : Iovec}
    (h : EndsWithin dev (pre ++ [iov]) q) :
    EndsWithin dev pre q ∨
      ∃ j, q = total pre + j ∧ j + 1 < iov.iovLen.toNat ∧ endsLine (dev q) = true := by
  obtain ⟨pre', iov', post', j, heq, hq, hj, hends⟩ := h
  rcases List.eq_nil_or_concat post' with rfl | ⟨post, last, rfl⟩
  · obtain ⟨rfl, hiov⟩ := List.append_inj' heq rfl
    obtain ⟨rfl, -⟩ := List.cons.inj hiov
    exact Or.inr ⟨j, hq, hj, hends⟩
  · rw [List.concat_eq_append, ← List.cons_append, ← List.append_assoc] at heq
    obtain ⟨rfl, -⟩ := List.append_inj' heq rfl
    exact Or.inl ⟨pre', iov', post, j, rfl, hq, hj, hends⟩

/-- All buffers are filled just if no line ends within one of them. -/
theorem xfrcnt_lt_total_iff :
    (readv dev iovs (start memory)).xfrcnt < total iovs ↔ ∃ q, EndsWithin dev iovs q := by
  induction iovs using List.reverseRecOn with
  | nil =>
      exact ⟨fun h => absurd h (lt_irrefl 0),
        fun ⟨q, h⟩ => absurd (lt_total_of_endsWithin h) (Nat.not_lt_zero q)⟩
  | append_singleton pre iov ih =>
      obtain ⟨k, hk⟩ := exists_counts dev memory pre iov
      have hle := xfrcnt_le_total dev memory pre
      have hkle := hk.le
      rw [hk.xfrcnt_eq, total_append, total_singleton]
      constructor
      · intro hless
        by_cases hpre : (readv dev pre (start memory)).xfrcnt < total pre
        · obtain ⟨q, hq⟩ := ih.mp hpre
          exact ⟨q, endsWithin_append hq [iov]⟩
        · have hfull : (readv dev pre (start memory)).xfrcnt = total pre := by omega
          obtain ⟨hpos, hends⟩ := hk.line (by omega)
          rw [hfull] at hends
          exact ⟨total pre + (k - 1), pre, iov, [], k - 1, rfl, rfl, by omega, hends⟩
      · rintro ⟨q, hq⟩
        rcases endsWithin_snoc hq with hpre | ⟨j, rfl, hj, hends⟩
        · have hless := ih.mpr ⟨q, hpre⟩
          omega
        · by_cases hpre : (readv dev pre (start memory)).xfrcnt < total pre
          · omega
          · have hfull : (readv dev pre (start memory)).xfrcnt = total pre := by omega
            have hkj : ¬j + 1 < k := by
              intro hless
              have hno := hk.before j hless
              rw [hfull, hends] at hno
              cases hno
            omega

/-! ## Where the input ends -/

private theorem inOrder_iff :
    (∀ pre iov post, iovs = pre ++ iov :: post →
      (readv dev (pre ++ [iov]) (start memory)).xfrcnt < total (pre ++ [iov]) →
        readv dev iovs (start memory) = readv dev (pre ++ [iov]) (start memory)) ↔
      NoRoomBehind dev iovs := by
  constructor
  · intro h pre iov post j heq hj hends
    have hless : (readv dev (pre ++ [iov]) (start memory)).xfrcnt < total (pre ++ [iov]) :=
      xfrcnt_lt_total_iff.mpr ⟨total pre + j, pre, iov, [], j, rfl, rfl, hj, hends⟩
    have hsame := h pre iov post heq hless
    by_contra hroom
    have hmore := xfrcnt_lt_readv dev (s := readv dev (pre ++ [iov]) (start memory)) hroom
    rw [← readv_append, List.append_assoc, List.singleton_append, ← heq, hsame] at hmore
    exact absurd hmore (lt_irrefl _)
  · intro h pre iov post heq hless
    obtain ⟨q, pre', iov', post', j, heq', rfl, hj, hends⟩ := xfrcnt_lt_total_iff.mp hless
    have hall : iovs = pre' ++ iov' :: (post' ++ post) := by
      rw [heq, ← List.singleton_append, ← List.append_assoc, heq']
      simp
    have hzero := h pre' iov' (post' ++ post) j hall hj hends
    rw [total_append] at hzero
    rw [heq, ← List.singleton_append, ← List.append_assoc, readv_append,
      readv_of_total_eq_zero (by omega)]

section Snoc

variable {pre : List Iovec} {iov : Iovec}

private theorem noRoomBehind_of_snoc (h : NoRoomBehind dev (pre ++ [iov])) :
    NoRoomBehind dev pre := by
  intro pre' iov' post j heq hj hends
  have hzero := h pre' iov' (post ++ [iov]) j (by rw [heq]; simp) hj hends
  rw [total_append] at hzero
  omega

private theorem iovLen_eq_zero (memory : ByteMemory) (h : NoRoomBehind dev (pre ++ [iov]))
    (hless : (readv dev pre (start memory)).xfrcnt < total pre) : iov.iovLen.toNat = 0 := by
  obtain ⟨q, pre', iov', post, j, heq, rfl, hj, hends⟩ := xfrcnt_lt_total_iff.mp hless
  have hzero := h pre' iov' (post ++ [iov]) j (by rw [heq]; simp) hj hends
  rw [total_append, total_singleton] at hzero
  omega

end Snoc

private theorem readv_eq_putAll (memory : ByteMemory) (h : NoRoomBehind dev iovs) :
    readv dev iovs (start memory) =
      putAll dev ((addresses iovs).take (readv dev iovs (start memory)).xfrcnt) (start memory) := by
  induction iovs using List.reverseRecOn with
  | nil => rfl
  | append_singleton pre iov ih =>
      obtain ⟨k, hk⟩ := exists_counts dev memory pre iov
      have hpre := ih (noRoomBehind_of_snoc h)
      have hle := xfrcnt_le_total dev memory pre
      have hkle := hk.le
      rw [hk.xfrcnt_eq, hk.eq, addresses_append, List.take_append, putAll_append]
      by_cases hless : (readv dev pre (start memory)).xfrcnt < total pre
      · have hzero := iovLen_eq_zero _ h hless
        have hk0 : k = 0 := by omega
        rw [hk0, Nat.add_zero, ← hpre, show (readv dev pre (start memory)).xfrcnt -
          (addresses pre).length = 0 from Nat.sub_eq_zero_of_le hle]
      · have hfull : (readv dev pre (start memory)).xfrcnt = (addresses pre).length :=
          le_antisymm hle (Nat.le_of_not_lt hless)
        rw [hfull, List.take_length] at hpre
        rw [hfull, List.take_of_length_le (Nat.le_add_right _ _), Nat.add_sub_cancel_left, ← hpre]

private theorem endsWithin_pred (memory : ByteMemory) (h : NoRoomBehind dev iovs)
    (hless : (readv dev iovs (start memory)).xfrcnt < total iovs) :
    0 < (readv dev iovs (start memory)).xfrcnt ∧
      EndsWithin dev iovs ((readv dev iovs (start memory)).xfrcnt - 1) := by
  induction iovs using List.reverseRecOn with
  | nil => exact absurd hless (lt_irrefl 0)
  | append_singleton pre iov ih =>
      obtain ⟨k, hk⟩ := exists_counts dev memory pre iov
      have hle := xfrcnt_le_total dev memory pre
      have hkle := hk.le
      rw [hk.xfrcnt_eq] at hless ⊢
      rw [total_append, total_singleton] at hless
      by_cases hpre : (readv dev pre (start memory)).xfrcnt < total pre
      · have hzero := iovLen_eq_zero _ h hpre
        obtain ⟨hpos, hends⟩ := ih (noRoomBehind_of_snoc h) hpre
        rw [show k = 0 by omega, Nat.add_zero]
        exact ⟨hpos, endsWithin_append hends [iov]⟩
      · have hfull : (readv dev pre (start memory)).xfrcnt = total pre := by omega
        obtain ⟨hpos, hends⟩ := hk.line (by omega)
        rw [hfull] at hends ⊢
        rw [show total pre + k - 1 = total pre + (k - 1) by omega]
        exact ⟨by omega, pre, iov, [], k - 1, rfl, rfl, by omega, hends⟩

private theorem xfrcnt_le_of_endsWithin (memory : ByteMemory) (h : NoRoomBehind dev iovs)
    (hq : EndsWithin dev iovs q) :
    (readv dev iovs (start memory)).xfrcnt ≤ q + 1 := by
  induction iovs using List.reverseRecOn with
  | nil => exact absurd (lt_total_of_endsWithin hq) (Nat.not_lt_zero q)
  | append_singleton pre iov ih =>
      obtain ⟨k, hk⟩ := exists_counts dev memory pre iov
      have hle := xfrcnt_le_total dev memory pre
      have hkle := hk.le
      rw [hk.xfrcnt_eq]
      rcases endsWithin_snoc hq with hpre | ⟨j, rfl, hj, hends⟩
      · have hzero := iovLen_eq_zero memory h (xfrcnt_lt_total_iff.mpr ⟨q, hpre⟩)
        have hrest := ih (noRoomBehind_of_snoc h) hpre
        omega
      · have hfull : (readv dev pre (start memory)).xfrcnt = total pre := by
          by_contra hne
          have hzero := iovLen_eq_zero memory h (by omega)
          omega
        have hkj : ¬j + 1 < k := by
          intro hless
          have hno := hk.before j hless
          rw [hfull, hends] at hno
          cases hno
        omega

private theorem lt_xfrcnt_iff (memory : ByteMemory) (h : NoRoomBehind dev iovs) (m : Nat) :
    m < (readv dev iovs (start memory)).xfrcnt ↔
      m < total iovs ∧ ∀ q < m, ¬EndsWithin dev iovs q := by
  have hle := xfrcnt_le_total dev memory iovs
  constructor
  · intro hm
    refine ⟨by omega, fun q hq hends => ?_⟩
    have hstop := xfrcnt_le_of_endsWithin memory h hends
    omega
  · rintro ⟨hm, hno⟩
    by_contra hge
    obtain ⟨hpos, hends⟩ := endsWithin_pred memory h (by omega)
    exact hno _ (by omega) hends

/-! ## What the buffers hold -/

private theorem bytes_iff (h : NoRoomBehind dev iovs) :
    ((addresses iovs).take (readv dev iovs (start memory)).xfrcnt).map
          (readv dev iovs (start memory)).memory =
        (readv dev iovs (start memory)).consumed ↔
      ∀ (m m' : Nat) (hm : m < m') (hm' : m' < total iovs), (∀ q < m', ¬EndsWithin dev iovs q) →
        (addresses iovs).get ⟨m, hm.trans hm'⟩ = (addresses iovs).get ⟨m', hm'⟩ →
          dev m = dev m' := by
  have hlt := lt_xfrcnt_iff memory h
  have heq := readv_eq_putAll memory h
  have hle := xfrcnt_le_total dev memory iovs
  generalize (readv dev iovs (start memory)).xfrcnt = n at hlt heq hle ⊢
  have hlength : ((addresses iovs).take n).length = n := by
    rw [List.length_take, ← total, Nat.min_eq_left hle]
  obtain ⟨hmemory, hconsumed⟩ :=
    putAll_eq dev (start memory) ((addresses iovs).take n)
  rw [heq, hmemory, hconsumed, hlength]
  change List.map (updates memory (((addresses iovs).take n).zip (chars dev 0 n))) _ =
    chars dev 0 n ↔ _
  have hsame : (chars dev 0 n).length = ((addresses iovs).take n).length := by
    rw [length_chars, hlength]
  have hread := map_updates_eq_iff (f := memory)
    (l := ((addresses iovs).take n).zip (chars dev 0 n))
  rw [List.map_fst_zip hsame.ge, List.map_snd_zip hsame.le] at hread
  have hpair {i : Nat} (hi : i < n) :
      ((addresses iovs).get ⟨i, hi.trans_le hle⟩, dev i) ∈
        ((addresses iovs).take n).zip (chars dev 0 n) := by
    have hin : i < (((addresses iovs).take n).zip (chars dev 0 n)).length := by
      rwa [List.length_zip, hlength, length_chars, Nat.min_self]
    refine List.mem_iff_getElem.mpr ⟨i, hin, ?_⟩
    simp only [List.getElem_zip, List.getElem_take, chars, List.getElem_map, List.getElem_range,
      Nat.zero_add]
    rfl
  rw [hread]
  constructor
  · intro hagree m m' hm hm' hno haddress
    have hm'n := (hlt m').mpr ⟨hm', hno⟩
    exact hagree _ (hpair (hm.trans hm'n)) _ (hpair hm'n) haddress
  · intro hapart p hp p' hp' haddress
    obtain ⟨i, hi, rfl⟩ := List.mem_iff_getElem.mp hp
    obtain ⟨i', hi', rfl⟩ := List.mem_iff_getElem.mp hp'
    simp only [List.length_zip, hlength, length_chars, Nat.min_self] at hi hi'
    simp only [List.getElem_zip, List.getElem_take, chars, List.getElem_map, List.getElem_range,
      Nat.zero_add] at haddress ⊢
    obtain ⟨hit, hino⟩ := (hlt i).mp hi
    obtain ⟨hit', hino'⟩ := (hlt i').mp hi'
    rcases lt_trichotomy i i' with hless | rfl | hmore
    · exact hapart i i' hless hit' hino' haddress
    · rfl
    · exact (hapart i' i hmore hit hino haddress.symm).symm

end TtyInput

end PComputer.PseudOS
