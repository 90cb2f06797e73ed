import PComputer.Foundation.DirectMapped
import PComputer.Rtl.BurstMemory

/-!
# The stages of a cache miss

The cache and its memory stand for a direct-mapped write-back cache.  While a
miss is served, the tag of the line at stake does not tell what the line holds:
it names the new block from the first cycle on.  Each stage of a miss says what
the line holds instead, how far the burst is, and what the registered signals
carry; one lemma per stage gives the next one.
-/

namespace PComputer.Rtl

open PComputer.Foundation

/-! ## Addresses -/

def lineIndex (b : BlockAddress) : LineIndex := b.extractLsb' 0 8

theorem index_eq (a : Word) : CacheWay.index a = lineIndex (blockOf a) := by
  apply BitVec.eq_of_getLsbD_eq
  intro k hk
  simp [CacheWay.index, lineIndex, blockOf]
  grind

theorem bramA_eq (a : Word) :
    CacheWay.bramA a = lineIndex (blockOf a) ++ CacheWay.offset a := by
  rw [CacheWay.bramA, index_eq]

theorem wordIndex_eq_block (a : Word) : wordIndex a = blockOf a ++ CacheWay.offset a := by
  apply BitVec.eq_of_getLsbD_eq
  intro k hk
  simp [wordIndex, CacheWay.offset, blockOf]
  grind

theorem blockOf_append (b : BlockAddress) (o : BlockOffset) :
    blockOf (b ++ o ++ 0#2) = b := by
  apply BitVec.eq_of_getLsbD_eq
  intro k hk
  simp only [blockOf, BitVec.getLsbD_append, BitVec.getLsbD_extractLsb']
  grind

theorem offset_append (b : BlockAddress) (o : BlockOffset) :
    CacheWay.offset (b ++ o ++ 0#2) = o := by
  apply BitVec.eq_of_getLsbD_eq
  intro k hk
  simp only [CacheWay.offset, BitVec.getLsbD_append, BitVec.getLsbD_extractLsb']
  grind

theorem wordIndex_append_zero (b : BlockAddress) : wordIndex (b ++ 0#7) = b ++ 0#5 := by
  apply BitVec.eq_of_getLsbD_eq
  intro k hk
  simp only [wordIndex, BitVec.getLsbD_append, BitVec.getLsbD_extractLsb', BitVec.getLsbD_zero]
  grind

theorem toNat_append_offset {n : Nat} (b : BitVec n) (o : BlockOffset) :
    (b ++ o).toNat = 32 * b.toNat + o.toNat := by
  rw [BitVec.toNat_append, ← Nat.shiftLeft_add_eq_or_of_lt o.isLt, Nat.shiftLeft_eq]
  omega

theorem append_add (b : BlockAddress) {k : Nat} (hk : k < 32) :
    b ++ 0#5 + BitVec.ofNat 30 k = b ++ BitVec.ofNat 5 k := by
  apply BitVec.eq_of_toNat_eq
  have := b.isLt
  rw [BitVec.toNat_add, toNat_append_offset, toNat_append_offset]
  simp
  omega

theorem append_offset_inj {n : Nat} {b b' : BitVec n} {o o' : BlockOffset} :
    b ++ o = b' ++ o' ↔ b = b' ∧ o = o' := by
  constructor
  · intro h
    have h' := congrArg BitVec.toNat h
    rw [toNat_append_offset, toNat_append_offset] at h'
    have := o.isLt
    have := o'.isLt
    exact ⟨BitVec.eq_of_toNat_eq (by omega), BitVec.eq_of_toNat_eq (by omega)⟩
  · rintro ⟨rfl, rfl⟩
    rfl

theorem tag_fields (b : BlockAddress) (dirty valid : Bool) :
    let tag : Word := b ++ 0#4 ++ 0#1 ++ BitVec.ofBool dirty ++ BitVec.ofBool valid
    tag.getLsbD 0 = valid ∧ tag.getLsbD 1 = dirty ∧ blockOf tag = b := by
  refine ⟨?_, ?_, ?_⟩
  · simp only [BitVec.getLsbD_append]
    simp
  · simp only [BitVec.getLsbD_append]
    simp
  · apply BitVec.eq_of_getLsbD_eq
    intro k hk
    simp only [blockOf, BitVec.getLsbD_append, BitVec.getLsbD_extractLsb']
    grind

/-! ## The cache that the registers stand for -/

def absLine (tag : Word) : Option (BlockAddress × Bool) :=
  if tag.getLsbD 0 then some (blockOf tag, tag.getLsbD 1) else none

abbrev Lines := DirectMapped BlockAddress BlockOffset LineIndex Word

def lines (tags : LineIndex → Word) (bram : BitVec 13 → Word) (mem : WordMemory) : Lines where
  line := fun i => absLine (tags i)
  data := fun i o => bram (i ++ o)
  low := fun b o => mem (b ++ o)

variable {tags : LineIndex → Word} {bram : BitVec 13 → Word} {mem : WordMemory}

theorem lines_bram (i : LineIndex) (o : BlockOffset) (v : Word) :
    lines tags (Function.update bram (i ++ o) v) mem = (lines tags bram mem).fill i o v := by
  simp only [lines, DirectMapped.fill, DirectMapped.mk.injEq, true_and, and_true]
  funext i' o'
  by_cases hi : i' = i
  · subst hi
    by_cases ho : o' = o
    · subst ho
      simp
    · simp [ho, Function.update_of_ne, append_offset_inj]
  · simp [hi, append_offset_inj]

theorem lines_mem (b : BlockAddress) (o : BlockOffset) (v : Word) :
    lines tags bram (storeWord mem (b ++ o) v) =
      { lines tags bram mem with
        low := Function.update (lines tags bram mem).low b
          (Function.update ((lines tags bram mem).low b) o v) } := by
  simp only [lines, DirectMapped.mk.injEq, true_and]
  funext b' o'
  by_cases hb : b' = b
  · subst hb
    by_cases ho : o' = o
    · subst ho
      simp [storeWord]
    · simp [ho, storeWord, append_offset_inj]
  · simp [hb, storeWord, append_offset_inj]

theorem lines_tag (i : LineIndex) (tag : Word) :
    lines (Function.update tags i tag) bram mem =
      { lines tags bram mem with
        line := Function.update (lines tags bram mem).line i (absLine tag) } := by
  simp only [lines, DirectMapped.mk.injEq, and_true]
  funext i'
  by_cases hi : i' = i <;> simp [hi]

/-- A coherent cache whose view is the flat memory `M`. -/
def Flat (c : Lines) (M : WordMemory) : Prop :=
  c.Coherent lineIndex ∧ ∀ b o, c.view lineIndex b o = M (b ++ o)

theorem Flat.of_view {c c' : Lines} {M : WordMemory} (hc : Flat c M)
    (hcoherent : c'.Coherent lineIndex)
    (hview : c'.view lineIndex = c.view lineIndex) : Flat c' M :=
  ⟨hcoherent, fun b o => by rw [hview]; exact hc.2 b o⟩

namespace CacheSystem

variable (s : CacheSystem) (M : WordMemory)

def lines (s : CacheSystem) : Lines := Rtl.lines s.cache.way.tags s.cache.way.bram s.low.mem

def block : BlockAddress := blockOf s.cache.hostA

def slot : LineIndex := lineIndex s.block

def holding (l : Option (BlockAddress × Bool)) : Lines :=
  { s.lines with line := Function.update s.lines.line s.slot l }

structure Idle : Prop where
  state : s.cache.state = .IDLE
  initDone : s.cache.way.initDone = true
  burstWe : s.cache.burstWe = false
  done : s.low.burst = .done
  flat : Flat s.lines M

structure WriteBack : Prop where
  state : s.cache.state = .WRITEBACK
  initDone : s.cache.way.initDone = true
  burstWe : s.cache.burstWe = false
  home : lineIndex s.cache.burstWbBaseA = s.slot
  flat : Flat (s.holding (some (s.cache.burstWbBaseA, true))) M

structure Load : Prop where
  state : s.cache.state = .LOAD
  initDone : s.cache.way.initDone = true
  flat : Flat (s.holding none) M

def Tagged : Prop := absLine (s.cache.way.tags s.slot) = some (s.block, false)

/--
Where in a miss the cache is, `M` being the memory before the request.  The
number bounds what is left of the miss, in cycles in which the memory makes
progress.
-/
inductive Stage : Nat → Prop
  | writeBackIssue (h : s.WriteBack M) (issue : s.cache.burstIssue = true)
      (xferCnt : s.cache.xferCnt = 0#16) (done : s.low.burst = .done) :
      Stage 300
  | writeBackRequest (h : s.WriteBack M) (issue : s.cache.burstIssue = false)
      (delayed : s.cache.burstIssueDelayed = true) (xferCnt : s.cache.xferCnt = 0#16)
      (done : s.low.burst = .done) (spo : s.cache.way.spo = s.cache.way.bram (s.slot ++ 0#5)) :
      Stage 299
  | writeBackBurst (k : Nat) (settling taken : Bool) (h : s.WriteBack M)
      (issue : s.cache.burstIssue = false) (delayed : s.cache.burstIssueDelayed = false)
      (hk : k < 32) (xferCnt : s.cache.xferCnt = BitVec.ofNat 16 k)
      (burst : s.low.burst = .write (s.cache.burstWbBaseA ++ 0#5) k settling taken)
      (settled : settling = true → taken = false)
      (spo : settling = false →
        s.cache.way.spo = s.cache.way.bram (s.slot ++ BitVec.ofNat 5 k))
      (spilled : ∀ o : BlockOffset, o.toNat < k + taken.toNat →
        s.cache.way.bram (s.slot ++ o) = s.low.mem (s.cache.burstWbBaseA ++ o)) :
      Stage (200 + 2 * (32 - k) + settling.toNat)
  | writeBackDone (h : s.WriteBack M) (issue : s.cache.burstIssue = false)
      (delayed : s.cache.burstIssueDelayed = false) (xferCnt : s.cache.xferCnt = 32#16)
      (done : s.low.burst = .done)
      (spilled : ∀ o : BlockOffset,
        s.cache.way.bram (s.slot ++ o) = s.low.mem (s.cache.burstWbBaseA ++ o)) :
      Stage 120
  | loadIssue (h : s.Load M) (issue : s.cache.burstIssue = true)
      (burstWe : s.cache.burstWe = false) (done : s.low.burst = .done) :
      Stage 119
  | loadBurst (k : Nat) (h : s.Load M) (issue : s.cache.burstIssue = false) (hk : k < 32)
      (tag : s.Tagged) (xferCnt : s.cache.xferCnt = BitVec.ofNat 16 k - 1#16)
      (burst : s.low.burst = .read (s.block ++ 0#5) k)
      (shown : s.cache.burstWe = true →
        k ≠ 0 ∧ s.low.shown = some (s.low.mem (s.block ++ BitVec.ofNat 5 (k - 1))))
      (filled : ∀ o : BlockOffset, o.toNat + s.cache.burstWe.toNat < k →
        s.cache.way.bram (s.slot ++ o) = s.low.mem (s.block ++ o)) :
      Stage (10 + (32 - k))
  | loadDone (h : s.Load M) (issue : s.cache.burstIssue = false) (tag : s.Tagged)
      (xferCnt : s.cache.xferCnt = 31#16) (burstWe : s.cache.burstWe = true)
      (done : s.low.burst = .done)
      (shown : s.low.shown = some (s.low.mem (s.block ++ 31#5)))
      (filled : ∀ o : BlockOffset, o.toNat < 31 →
        s.cache.way.bram (s.slot ++ o) = s.low.mem (s.block ++ o)) :
      Stage 5
  | hit (state : s.cache.state = .HIT) (initDone : s.cache.way.initDone = true)
      (burstWe : s.cache.burstWe = false) (done : s.low.burst = .done) (tag : s.Tagged)
      (flat : Flat s.lines M) :
      Stage 1

/-- The next stage is closer to the end, or the memory made no progress. -/
def Advances (e : BurstEnv) (s' : CacheSystem) (M : WordMemory) (n : Nat) : Prop :=
  ∃ n', (n' < n ∨ n' = n ∧ e.finish = false) ∧ s'.Stage M n'

end CacheSystem

end PComputer.Rtl
