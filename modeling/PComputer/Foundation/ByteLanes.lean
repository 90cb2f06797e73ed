import Mathlib.Data.BitVec

/-!
# Byte lanes of a 32-bit word

A word-organised memory holds 32-bit words; an instruction set addresses bytes.
`lane w k` is byte `k` of a word in little-endian order, and `bytesOf` is the
byte memory that a word memory stands for.
-/

namespace PComputer.Foundation

abbrev Word := BitVec 32

-- Membership in a list of words is decided with it.
instance : LawfulBEq Word := inferInstance

abbrev WordMemory := BitVec 30 → Word

abbrev ByteMemory := Word → BitVec 8

def byteSwap (w : Word) : Word :=
  w.extractLsb' 0 8 ++ w.extractLsb' 8 8 ++ w.extractLsb' 16 8 ++ w.extractLsb' 24 8

theorem getLsbD_byteSwap (w : Word) (k : Nat) (hk : k < 32) :
    (byteSwap w).getLsbD k = w.getLsbD (8 * (3 - k / 8) + k % 8) := by
  simp only [byteSwap, BitVec.getLsbD_append, BitVec.getLsbD_extractLsb']
  have hlane : k / 8 = 0 ∨ k / 8 = 1 ∨ k / 8 = 2 ∨ k / 8 = 3 := by omega
  rcases hlane with h | h | h | h
  all_goals
    simp [h]
    grind

@[simp] theorem byteSwap_byteSwap (w : Word) : byteSwap (byteSwap w) = w := by
  apply BitVec.eq_of_getLsbD_eq
  intro k hk
  rw [getLsbD_byteSwap _ _ hk, getLsbD_byteSwap _ _ (by omega)]
  congr 1
  omega

def fill (n : Nat) (bit : Bool) : BitVec n := if bit then BitVec.allOnes n else 0

@[simp] theorem getLsbD_fill (n k : Nat) (bit : Bool) :
    (fill n bit).getLsbD k = (decide (k < n) && bit) := by
  cases bit <;> simp [fill]

/-! ## Addresses within a word -/

def wordIndex (address : Word) : BitVec 30 := address.extractLsb' 2 30

def byteOffset (address : Word) : BitVec 2 := address.extractLsb' 0 2

def lane (w : Word) (k : BitVec 2) : BitVec 8 := w.extractLsb' (8 * k.toNat) 8

def bytesOf (mem : WordMemory) : ByteMemory :=
  fun address => lane (mem (wordIndex address)) (byteOffset address)

def storeWord (mem : WordMemory) (index : BitVec 30) (w : Word) : WordMemory :=
  fun k => if k = index then w else mem k

/-! ## Word accesses as byte accesses -/

theorem toNat_wordIndex (address : Word) : (wordIndex address).toNat = address.toNat / 4 := by
  have := address.isLt
  simp [wordIndex, BitVec.extractLsb'_toNat, Nat.shiftRight_eq_div_pow]
  omega

theorem toNat_byteOffset (address : Word) : (byteOffset address).toNat = address.toNat % 4 := by
  simp [byteOffset]

def wordAddress (address : Word) : Word := wordIndex address ++ 0#2

@[simp] theorem wordIndex_wordAddress (a : Word) : wordIndex (wordAddress a) = wordIndex a := by
  apply BitVec.eq_of_getLsbD_eq
  intro k hk
  simp [wordIndex, wordAddress]
  grind

@[simp] theorem byteOffset_wordAddress (a : Word) : byteOffset (wordAddress a) = 0#2 := by
  apply BitVec.eq_of_getLsbD_eq
  intro k hk
  simp [byteOffset, wordAddress]
  grind

theorem address_eq_iff {a b : Word} :
    a = b ↔ wordIndex a = wordIndex b ∧ byteOffset a = byteOffset b := by
  constructor
  · rintro rfl
    exact ⟨rfl, rfl⟩
  · rintro ⟨hindex, hoffset⟩
    rw [← BitVec.toNat_inj, toNat_wordIndex, toNat_wordIndex] at hindex
    rw [← BitVec.toNat_inj, toNat_byteOffset, toNat_byteOffset] at hoffset
    apply BitVec.eq_of_toNat_eq
    omega

theorem wordIndex_add {a : Word} {k : Nat} (h : a.toNat % 4 + k < 4) :
    wordIndex (a + BitVec.ofNat 32 k) = wordIndex a := by
  have := a.isLt
  apply BitVec.eq_of_toNat_eq
  rw [toNat_wordIndex, toNat_wordIndex, BitVec.toNat_add, BitVec.toNat_ofNat]
  omega

theorem byteOffset_add (a : Word) (k : Nat) :
    byteOffset (a + BitVec.ofNat 32 k) = byteOffset a + BitVec.ofNat 2 k := by
  apply BitVec.eq_of_toNat_eq
  rw [toNat_byteOffset, BitVec.toNat_add, BitVec.toNat_add, toNat_byteOffset, BitVec.toNat_ofNat,
    BitVec.toNat_ofNat]
  omega

@[simp] theorem storeWord_self (mem : WordMemory) (index : BitVec 30) (w : Word) :
    storeWord mem index w index = w := by
  simp [storeWord]

theorem bytesOf_storeWord (mem : WordMemory) (index : BitVec 30) (w : Word) (k : Word) :
    bytesOf (storeWord mem index w) k =
      if wordIndex k = index then lane w (byteOffset k) else bytesOf mem k := by
  simp only [bytesOf, storeWord]
  split <;> rfl

theorem word_eq_lanes (w : Word) : w = lane w 3 ++ lane w 2 ++ lane w 1 ++ lane w 0 := by
  apply BitVec.eq_of_getLsbD_eq
  intro k hk
  simp [lane]
  grind

theorem lane_append (b₃ b₂ b₁ b₀ : BitVec 8) {i : Nat} (hi : i < 4) :
    lane (b₃ ++ b₂ ++ b₁ ++ b₀) (BitVec.ofInt 2 i) =
      if i = 0 then b₀ else if i = 1 then b₁ else if i = 2 then b₂ else b₃ := by
  have hcases : i = 0 ∨ i = 1 ∨ i = 2 ∨ i = 3 := by omega
  rcases hcases with rfl | rfl | rfl | rfl
  all_goals
    apply BitVec.eq_of_getLsbD_eq
    intro k hk
    simp [lane]
    grind

theorem word_of_bytes (mem : WordMemory) {a : Word} (h : byteOffset a = 0#2) :
    bytesOf mem (a + 3) ++ bytesOf mem (a + 2) ++ bytesOf mem (a + 1) ++ bytesOf mem a =
      mem (wordIndex a) := by
  have h0 : a.toNat % 4 = 0 := by rw [← toNat_byteOffset, h]; rfl
  have hbyte (k : Nat) (hk : k < 4) :
      bytesOf mem (a + BitVec.ofNat 32 k) = lane (mem (wordIndex a)) (BitVec.ofNat 2 k) := by
    rw [bytesOf, wordIndex_add (by omega), byteOffset_add, h, BitVec.zero_add]
  have hbyte0 : bytesOf mem a = lane (mem (wordIndex a)) 0#2 := by rw [bytesOf, h]
  rw [hbyte0]
  exact (congrArg₂ _ (congrArg₂ _ (congrArg₂ _ (hbyte 3 (by omega)) (hbyte 2 (by omega)))
    (hbyte 1 (by omega))) rfl).trans (word_eq_lanes _).symm

end PComputer.Foundation
