import PComputer.Foundation.BlockMove
import PComputer.Foundation.ByteLanes

/-!
# `elf.c`: the second LOAD segment

Both loaders find an ELF file in memory with its second LOAD segment at its file
position and move it up to its address within the same memory.  The memory is
the array `elf_begin_addr` of ints; the fields of the headers are read bytewise.
-/

namespace PComputer.PseudOS

open PComputer.Foundation

/-- The memory from `elf_begin_addr` on, as the array of ints that the C code indexes. -/
abbrev ElfImage := Int → Word

namespace ElfImage

variable (image : ElfImage)

def byte (x : Int) : BitVec 8 := lane (image (x / 4)) (BitVec.ofInt 2 (x % 4))

def half (x : Int) : BitVec 16 := image.byte (x + 1) ++ image.byte x

def word (x : Int) : Word :=
  image.byte (x + 3) ++ image.byte (x + 2) ++ image.byte (x + 1) ++ image.byte x

end ElfImage

/-! ## Headers -/

def PT_LOAD : Word := 1

structure Elf32Phdr where
  pType : Word
  pOffset : Word
  pVaddr : Word
  pPaddr : Word
  pFilesz : Word
  pMemsz : Word
  deriving DecidableEq

namespace ElfImage

variable (image : ElfImage)

def eIdent (i : Nat) : BitVec 8 := image.byte i

def eType : BitVec 16 := image.half 16

def eMachine : BitVec 16 := image.half 18

def ePhoff : Word := image.word 28

def phdr (i : Nat) : Elf32Phdr :=
  let base : Int := image.ePhoff.toNat + 32 * i
  { pType := image.word base
    pOffset := image.word (base + 4)
    pVaddr := image.word (base + 8)
    pPaddr := image.word (base + 12)
    pFilesz := image.word (base + 16)
    pMemsz := image.word (base + 20) }

end ElfImage

def elfHeaderOk (image : ElfImage) : Bool :=
  image.eIdent 0 == 0x7f && image.eIdent 1 == 0x45 && image.eIdent 2 == 0x4c &&
    image.eIdent 3 == 0x46 && image.eType == 3 && image.eMachine == 243

def loadHeadersOk (first second : Elf32Phdr) : Bool :=
  first.pType == PT_LOAD && first.pOffset == 0 && first.pVaddr == 0 && first.pPaddr == 0 &&
    second.pType == PT_LOAD && second.pVaddr == second.pPaddr &&
    decide (second.pOffset ≤ second.pVaddr)

/-- The second LOAD header, if the checks pass; `index` is that of the first. -/
def checkHeaders (index : Nat) (image : ElfImage) : Option Elf32Phdr :=
  if elfHeaderOk image && loadHeadersOk (image.phdr index) (image.phdr (index + 1)) then
    some (image.phdr (index + 1))
  else none

def sharedLibraryHeaders (image : ElfImage) : Option Elf32Phdr := checkHeaders 0 image

def dynamicExecHeaders (image : ElfImage) : Option Elf32Phdr := checkHeaders 2 image

/-! ## Second LOAD processing -/

namespace Elf32Phdr

variable (p : Elf32Phdr)

def load2Offset : Int := p.pOffset.toInt

def load2Addr : Int := p.pVaddr.toInt

def load2Filesize : Int := p.pFilesz.toInt

def load2Memsize : Int := p.pMemsz.toInt

def clearLoop (image : ElfImage) : ElfImage :=
  countdown 4 (fun i image =>
    Function.update image ((p.load2Addr + p.load2Memsize - p.load2Filesize + i).tdiv 4) 0)
    (p.load2Memsize - p.load2Filesize - 4) image

def copyLoop (image : ElfImage) : ElfImage :=
  countdown 4 (fun i image =>
    Function.update image ((p.load2Addr + i).tdiv 4) (image ((p.load2Offset + i).tdiv 4)))
    (p.load2Filesize - 4) image

def secondLoad (image : ElfImage) : ElfImage := p.copyLoop (p.clearLoop image)

/-! ## What the step is for -/

/-- The segment is in its place: its bytes of the file, then zeros. -/
structure Placed (before after : ElfImage) : Prop where
  file : ∀ j : Nat, j < p.pFilesz.toNat →
    after.byte (p.pVaddr.toNat + j) = before.byte (p.pOffset.toNat + j)
  zero : ∀ j : Nat, p.pFilesz.toNat ≤ j → j < p.pMemsz.toNat →
    after.byte (p.pVaddr.toNat + j) = 0

/-- Both loops go by words, and the first does not start behind the file bytes. -/
structure Fits : Prop where
  copy : p.pFilesz = 0 ∨ p.pVaddr = p.pOffset ∨
    p.pVaddr.toNat % 4 = 0 ∧ p.pOffset.toNat % 4 = 0 ∧ p.pFilesz.toNat % 4 = 0
  clear : p.pMemsz = p.pFilesz ∨
    p.pMemsz.toNat % 4 = p.pFilesz.toNat % 4 ∧ (p.pVaddr.toNat + p.pFilesz.toNat) % 4 = 0 ∧
      p.pMemsz.toNat = 2 * p.pFilesz.toNat + p.pVaddr.toNat % 4

/-- Within a memory of at most a gigabyte, where no `int` of the loops overflows. -/
def InMemory : Prop :=
  p.pFilesz ≤ p.pMemsz ∧ p.pOffset ≤ p.pVaddr ∧ p.pVaddr.toNat + p.pMemsz.toNat ≤ 2 ^ 30

/-! ## The loops in closed form -/

def Cleared (k : Int) : Prop :=
  let bss : Int := p.pMemsz.toNat - p.pFilesz.toNat
  (p.pVaddr.toNat + bss + bss % 4) / 4 ≤ k ∧ k < (p.pVaddr.toNat + bss + bss % 4) / 4 + bss / 4

instance (k : Int) : Decidable (p.Cleared k) := inferInstanceAs (Decidable (_ ∧ _))

def Copied (k : Int) : Prop :=
  (p.pVaddr.toNat + p.pFilesz.toNat % 4 : Int) / 4 ≤ k ∧
    k < (p.pVaddr.toNat + p.pFilesz.toNat % 4 : Int) / 4 + p.pFilesz.toNat / 4

instance (k : Int) : Decidable (p.Copied k) := inferInstanceAs (Decidable (_ ∧ _))

def sourceWord (k : Int) : Int :=
  if p.Copied k then
    (p.pOffset.toNat + p.pFilesz.toNat % 4 : Int) / 4 +
      (k - (p.pVaddr.toNat + p.pFilesz.toNat % 4 : Int) / 4)
  else k

variable {p}

theorem InMemory.toInt (h : p.InMemory) :
    p.load2Addr = p.pVaddr.toNat ∧ p.load2Offset = p.pOffset.toNat ∧
      p.load2Filesize = p.pFilesz.toNat ∧ p.load2Memsize = p.pMemsz.toNat := by
  obtain ⟨hsize, hoffset, hroom⟩ := h
  rw [BitVec.le_def] at hsize hoffset
  refine ⟨?_, ?_, ?_, ?_⟩
  all_goals
    apply BitVec.toInt_eq_toNat_of_lt
    omega

private theorem clearLoop_apply (h : p.InMemory) (image : ElfImage) (k : Int) :
    p.clearLoop image k = if p.Cleared k then 0 else image k := by
  obtain ⟨haddr, -, hfile, hmem⟩ := h.toInt
  have hsize := BitVec.le_def.mp h.1
  obtain ⟨bss, hbss⟩ := Nat.exists_eq_add_of_le hsize
  have hrounds : (p.pMemsz.toNat - p.pFilesz.toNat - 4 : Int) =
      (bss / 4 * 4 + bss % 4 : Nat) - (4 : Nat) := by
    omega
  have hindex (i : Nat) : (p.pVaddr.toNat + p.pMemsz.toNat - p.pFilesz.toNat +
      ((i * 4 + bss % 4 : Nat) : Int)).tdiv 4 =
      ((p.pVaddr.toNat + bss + bss % 4 : Nat) : Int) / 4 + i := by
    rw [Int.tdiv_eq_ediv_of_nonneg (by omega)]
    omega
  unfold clearLoop
  rw [haddr, hfile, hmem, hrounds, countdown_eq_descend (Nat.mod_lt _ (by decide))]
  simp only [hindex]
  rw [descend_fill]
  congr 1
  unfold Cleared
  apply propext
  omega

private theorem copyLoop_apply (h : p.InMemory) (image : ElfImage) (k : Int) :
    p.copyLoop image k = image (p.sourceWord k) := by
  obtain ⟨haddr, hoffset, hfile, -⟩ := h.toInt
  have hbelow := BitVec.le_def.mp h.2.1
  have hrounds : (p.pFilesz.toNat - 4 : Int) =
      (p.pFilesz.toNat / 4 * 4 + p.pFilesz.toNat % 4 : Nat) - (4 : Nat) := by
    omega
  have hindex (a i : Nat) : ((a : Int) + ((i * 4 + p.pFilesz.toNat % 4 : Nat) : Int)).tdiv 4 =
      ((a : Int) + (p.pFilesz.toNat : Int) % 4) / 4 + i := by
    rw [Int.tdiv_eq_ediv_of_nonneg (by omega)]
    omega
  unfold copyLoop
  rw [haddr, hoffset, hfile, hrounds, countdown_eq_descend (Nat.mod_lt _ (by decide))]
  simp only [hindex]
  rw [descend_move _ (by omega)]
  unfold sourceWord
  by_cases hk : p.Copied k
  · rw [if_pos hk]
    exact if_pos hk
  · rw [if_neg hk]
    exact if_neg hk

/-- The byte that ends up at `x`, if it is not one of the cleared ones. -/
def origin (p : Elf32Phdr) (x : Int) : Option Int :=
  if p.Cleared (p.sourceWord (x / 4)) then none else some (4 * p.sourceWord (x / 4) + x % 4)

theorem byte_secondLoad (h : p.InMemory) (image : ElfImage) (x : Int) :
    (p.secondLoad image).byte x = (p.origin x).elim 0 image.byte := by
  unfold secondLoad ElfImage.byte origin
  rw [copyLoop_apply h, clearLoop_apply h]
  by_cases hcleared : p.Cleared (p.sourceWord (x / 4))
  · rw [if_pos hcleared, if_pos hcleared]
    exact BitVec.extractLsb'_zero
  · rw [if_neg hcleared, if_neg hcleared]
    change _ = lane (image ((4 * p.sourceWord (x / 4) + x % 4) / 4))
      (BitVec.ofInt 2 ((4 * p.sourceWord (x / 4) + x % 4) % 4))
    congr 2
    · omega
    · omega

/-! ## Where the bytes must come from -/

def ofBytes (bytes : Int → BitVec 8) : ElfImage :=
  fun k => bytes (4 * k + 3) ++ bytes (4 * k + 2) ++ bytes (4 * k + 1) ++ bytes (4 * k)

theorem byte_ofBytes (bytes : Int → BitVec 8) (x : Int) : (ofBytes bytes).byte x = bytes x := by
  obtain ⟨k, i, rfl, hi⟩ : ∃ (k : Int) (i : Nat), x = 4 * k + i ∧ i < 4 :=
    ⟨x / 4, (x % 4).toNat, by omega, by omega⟩
  have hword : (4 * k + i : Int) / 4 = k := by omega
  have hlane : (4 * k + i : Int) % 4 = i := by omega
  unfold ElfImage.byte
  rw [hword, hlane]
  unfold ofBytes
  rw [lane_append _ _ _ _ hi]
  have hcases : i = 0 ∨ i = 1 ∨ i = 2 ∨ i = 3 := by omega
  rcases hcases with rfl | rfl | rfl | rfl
  all_goals simp

/-- Equal outside the file bytes of the segment and the bytes that its zeros replace. -/
def SameElsewhere (image before : ElfImage) : Prop :=
  ∀ x : Int, ¬(p.pOffset.toNat ≤ x ∧ x < p.pOffset.toNat + p.pFilesz.toNat) →
    ¬(p.pVaddr.toNat + p.pFilesz.toNat ≤ x ∧ x < p.pVaddr.toNat + p.pMemsz.toNat) →
      before.byte x = image.byte x

def setByte (image : ElfImage) (x : Int) (b : BitVec 8) : ElfImage :=
  ofBytes (Function.update image.byte x b)

private theorem byte_setByte (image : ElfImage) (x : Int) (b : BitVec 8) :
    (setByte image x b).byte = Function.update image.byte x b := by
  funext y
  exact byte_ofBytes _ y

private theorem sameElsewhere_setByte (image : ElfImage) {x : Int} (b : BitVec 8)
    (hx : p.pOffset.toNat ≤ x ∧ x < p.pOffset.toNat + p.pFilesz.toNat ∨
      p.pVaddr.toNat + p.pFilesz.toNat ≤ x ∧ x < p.pVaddr.toNat + p.pMemsz.toNat) :
    p.SameElsewhere image (setByte image x b) := by
  intro y hfile hbss
  rw [byte_setByte, Function.update_of_ne]
  rintro rfl
  exact hx.elim hfile hbss

theorem origin_eq_some {x y : Int} :
    p.origin x = some y ↔ ¬p.Cleared (p.sourceWord (x / 4)) ∧
      4 * p.sourceWord (x / 4) + x % 4 = y := by
  unfold origin
  split_ifs with hcleared
  · simp [hcleared]
  · simp [hcleared]

private theorem origin_eq_none {x : Int} :
    p.origin x = none ↔ p.Cleared (p.sourceWord (x / 4)) := by
  unfold origin
  split_ifs with hcleared
  · simp [hcleared]
  · simp [hcleared]

theorem sourceWord_cases (k : Int) :
    p.Copied k ∧ p.sourceWord k = (p.pOffset.toNat + p.pFilesz.toNat % 4 : Int) / 4 +
        (k - (p.pVaddr.toNat + p.pFilesz.toNat % 4 : Int) / 4) ∨
      ¬p.Copied k ∧ p.sourceWord k = k := by
  unfold sourceWord
  by_cases hk : p.Copied k
  · exact .inl ⟨hk, if_pos hk⟩
  · exact .inr ⟨hk, if_neg hk⟩

private theorem origin_behind {j : Nat} (hj : p.pFilesz.toNat ≤ j) {y : Int}
    (h : p.origin (p.pVaddr.toNat + j) = some y) : y = p.pVaddr.toNat + j := by
  obtain ⟨-, hy⟩ := origin_eq_some.mp h
  rcases sourceWord_cases (p := p) ((p.pVaddr.toNat + j) / 4) with
    ⟨⟨hlow, hhigh⟩, -⟩ | ⟨-, hsource⟩
  · omega
  · omega

section Origin

variable (h : p.InMemory) {image : ElfImage}

include h

/-- If the segment gets into its place, whatever it contains, each byte comes from its own. -/
theorem origin_of_placed_file
    (hplaced : ∀ before, p.SameElsewhere image before → p.Placed before (p.secondLoad before))
    {j : Nat} (hj : j < p.pFilesz.toNat) :
    p.origin (p.pVaddr.toNat + j) = some (p.pOffset.toNat + j : Int) := by
  cases horigin : p.origin (p.pVaddr.toNat + j) with
  | none =>
      have hbyte := (hplaced _ (sameElsewhere_setByte image (x := p.pOffset.toNat + j) 1
        (.inl (by omega)))).file j hj
      rw [byte_secondLoad h, horigin, Option.elim_none, byte_setByte, Function.update_self] at hbyte
      exact absurd hbyte (by decide)
  | some y =>
      by_contra hne
      have hbyte := (hplaced _ (sameElsewhere_setByte image (x := p.pOffset.toNat + j)
        (image.byte y + 1) (.inl (by omega)))).file j hj
      rw [byte_secondLoad h, horigin, Option.elim_some, byte_setByte, Function.update_self,
        Function.update_of_ne fun heq => hne (congrArg some heq)] at hbyte
      exact absurd hbyte.symm (by simp)

private theorem origin_of_placed_zero
    (hplaced : ∀ before, p.SameElsewhere image before → p.Placed before (p.secondLoad before))
    {j : Nat} (hfile : p.pFilesz.toNat ≤ j) (hj : j < p.pMemsz.toNat) :
    p.origin (p.pVaddr.toNat + j) = none := by
  cases horigin : p.origin (p.pVaddr.toNat + j) with
  | none => rfl
  | some y =>
      have hbyte := (hplaced _ (sameElsewhere_setByte image (x := p.pVaddr.toNat + j) 1
        (.inr (by omega)))).zero j hfile hj
      rw [byte_secondLoad h, horigin, Option.elim_some, byte_setByte, origin_behind hfile horigin,
        Function.update_self] at hbyte
      exact absurd hbyte (by decide)

end Origin

private theorem fits_copy (hfile : ∀ j : Nat, j < p.pFilesz.toNat →
    p.origin (p.pVaddr.toNat + j) = some (p.pOffset.toNat + j : Int)) :
    p.pFilesz = 0 ∨ p.pVaddr = p.pOffset ∨
      p.pVaddr.toNat % 4 = 0 ∧ p.pOffset.toNat % 4 = 0 ∧ p.pFilesz.toNat % 4 = 0 := by
  by_cases hempty : p.pFilesz.toNat = 0
  · exact .inl (BitVec.eq_of_toNat_eq hempty)
  · have hfirst := (origin_eq_some.mp (hfile 0 (by omega))).2
    have hlast := (origin_eq_some.mp (hfile (p.pFilesz.toNat - 1) (by omega))).2
    refine .inr ?_
    rw [← BitVec.toNat_inj]
    rcases sourceWord_cases (p := p) ((p.pVaddr.toNat + (0 : Nat)) / 4) with
      ⟨⟨hlow, hhigh⟩, hsource⟩ | ⟨-, hsource⟩
    · rcases sourceWord_cases (p := p) ((p.pVaddr.toNat + (p.pFilesz.toNat - 1 : Nat)) / 4) with
        ⟨⟨hlow', hhigh'⟩, hsource'⟩ | ⟨-, hsource'⟩
      · omega
      · omega
    · omega

private theorem fits_clear (h : p.InMemory) (hfile : ∀ j : Nat, j < p.pFilesz.toNat →
      p.origin (p.pVaddr.toNat + j) = some (p.pOffset.toNat + j : Int))
    (hzero : ∀ j : Nat, p.pFilesz.toNat ≤ j → j < p.pMemsz.toNat →
      p.origin (p.pVaddr.toNat + j) = none) :
    p.pMemsz = p.pFilesz ∨
      p.pMemsz.toNat % 4 = p.pFilesz.toNat % 4 ∧ (p.pVaddr.toNat + p.pFilesz.toNat) % 4 = 0 ∧
        p.pMemsz.toNat = 2 * p.pFilesz.toNat + p.pVaddr.toNat % 4 := by
  have hsize := BitVec.le_def.mp h.1
  by_cases hempty : p.pMemsz.toNat = p.pFilesz.toNat
  · exact .inl (BitVec.eq_of_toNat_eq hempty)
  · refine .inr ?_
    -- The first and the last byte to clear, and the byte before them.
    have hfirst := origin_eq_none.mp (hzero p.pFilesz.toNat le_rfl (by omega))
    have hlast := origin_eq_none.mp (hzero (p.pMemsz.toNat - 1) (by omega) (by omega))
    have hbefore (hpos : 0 < p.pFilesz.toNat) :=
      (origin_eq_some.mp (hfile (p.pFilesz.toNat - 1) (by omega))).1
    unfold Cleared at hfirst hlast hbefore
    rcases sourceWord_cases (p := p) ((p.pVaddr.toNat + p.pFilesz.toNat) / 4) with
      ⟨⟨hlow, hhigh⟩, -⟩ | ⟨-, hsource⟩
    · omega
    · rw [hsource] at hfirst
      rcases sourceWord_cases (p := p) ((p.pVaddr.toNat + (p.pMemsz.toNat - 1 : Nat)) / 4) with
        ⟨⟨hlow', hhigh'⟩, -⟩ | ⟨-, hsource'⟩
      · omega
      · rw [hsource'] at hlast
        by_cases hpos : 0 < p.pFilesz.toNat
        · have hkept := hbefore hpos
          have haligned : (p.pVaddr.toNat + p.pFilesz.toNat) % 4 = 0 := by
            rcases sourceWord_cases (p := p) ((p.pVaddr.toNat + (p.pFilesz.toNat - 1 : Nat)) / 4)
              with ⟨⟨hlow'', hhigh''⟩, -⟩ | ⟨-, hsource''⟩
            · omega
            · rw [hsource''] at hkept
              omega
          have hend : (p.pVaddr.toNat + (p.pMemsz.toNat - 1 : Nat) : Int) / 4 =
              (p.pVaddr.toNat + p.pFilesz.toNat) / 4 +
                (p.pMemsz.toNat - p.pFilesz.toNat - 1) / 4 := by
            omega
          have hwhole : (p.pMemsz.toNat - p.pFilesz.toNat : Int) % 4 = 0 := by
            omega
          have hwords : p.pMemsz.toNat % 4 = p.pFilesz.toNat % 4 := by omega
          refine ⟨hwords, haligned, ?_⟩
          omega
        · omega

private theorem Fits.origin_file (hfits : p.Fits) (h : p.InMemory) {j : Nat}
    (hj : j < p.pFilesz.toNat) :
    p.origin (p.pVaddr.toNat + j) = some (p.pOffset.toNat + j : Int) := by
  have hsize := BitVec.le_def.mp h.1
  have hbelow := BitVec.le_def.mp h.2.1
  obtain ⟨hcopy, hclear⟩ := hfits
  simp only [← BitVec.toNat_inj, BitVec.ofNat_eq_ofNat, BitVec.toNat_ofNat, Nat.zero_mod]
    at hcopy hclear
  rw [origin_eq_some]
  unfold Cleared
  rcases sourceWord_cases (p := p) ((p.pVaddr.toNat + j) / 4) with
    ⟨⟨hlow, hhigh⟩, hsource⟩ | ⟨hcopied, hsource⟩
  · rw [hsource]
    omega
  · unfold Copied at hcopied
    rw [hsource]
    omega

private theorem Fits.origin_zero (hfits : p.Fits) (h : p.InMemory) {j : Nat}
    (hfile : p.pFilesz.toNat ≤ j)
    (hj : j < p.pMemsz.toNat) : p.origin (p.pVaddr.toNat + j) = none := by
  have hsize := BitVec.le_def.mp h.1
  obtain ⟨-, hclear⟩ := hfits
  simp only [← BitVec.toNat_inj] at hclear
  rw [origin_eq_none]
  unfold Cleared
  rcases sourceWord_cases (p := p) ((p.pVaddr.toNat + j) / 4) with
    ⟨⟨hlow, hhigh⟩, hsource⟩ | ⟨-, hsource⟩
  · omega
  · rw [hsource]
    omega

private theorem placed_iff (h : p.InMemory) (image : ElfImage) :
    (∀ before, p.SameElsewhere image before → p.Placed before (p.secondLoad before)) ↔
      p.Fits := by
  constructor
  · intro hplaced
    have hfile (j : Nat) (hj : j < p.pFilesz.toNat) := origin_of_placed_file h hplaced hj
    have hzero (j : Nat) (hf : p.pFilesz.toNat ≤ j) (hj : j < p.pMemsz.toNat) :=
      origin_of_placed_zero h hplaced hf hj
    exact ⟨fits_copy hfile, fits_clear h hfile hzero⟩
  · intro hfits before _
    constructor
    · intro j hj
      rw [byte_secondLoad h, hfits.origin_file h hj, Option.elim_some]
    · intro j hf hj
      rw [byte_secondLoad h, hfits.origin_zero h hf hj, Option.elim_none]

end Elf32Phdr

private theorem offset_le_vaddr {index : Nat} {image : ElfImage} {p : Elf32Phdr}
    (h : checkHeaders index image = some p) : p.pOffset ≤ p.pVaddr := by
  unfold checkHeaders at h
  split_ifs at h with hok
  cases h
  unfold loadHeadersOk at hok
  simp only [Bool.and_eq_true, decide_eq_true_eq] at hok
  exact hok.2.2

/--
For every file that passes the checks of a loader and every memory before the
second LOAD processing: the step puts the segment in its place, whatever the
segment contains, exactly if its layout fits.
-/
theorem secondLoad_placed_iff {file : ElfImage} {p : Elf32Phdr}
    (hchecks : sharedLibraryHeaders file = some p ∨ dynamicExecHeaders file = some p)
    (hsize : p.pFilesz ≤ p.pMemsz) (hroom : p.pVaddr.toNat + p.pMemsz.toNat ≤ 2 ^ 30)
    (image : ElfImage) :
    (∀ before, p.SameElsewhere image before → p.Placed before (p.secondLoad before)) ↔
      p.Fits := by
  have hoffset : p.pOffset ≤ p.pVaddr := hchecks.elim offset_le_vaddr offset_le_vaddr
  exact Elf32Phdr.placed_iff ⟨hsize, hoffset, hroom⟩ image

/-! ### Concrete files -/

/-- A file for either loader whose second segment is this one. -/
def someFile (p : Elf32Phdr) : ElfImage := fun k =>
  if k = 0 then 0x464c457f else if k = 4 then 0x00f30003 else if k = 7 then 52
  else if k = 13 ∨ k = 29 then PT_LOAD
  else if k = 21 ∨ k = 37 then p.pType
  else if k = 22 ∨ k = 38 then p.pOffset
  else if k = 23 ∨ k = 39 then p.pVaddr
  else if k = 24 ∨ k = 40 then p.pPaddr
  else if k = 25 ∨ k = 41 then p.pFilesz
  else if k = 26 ∨ k = 42 then p.pMemsz
  else if 64 ≤ k then 0x01010101
  else 0

def someSegment (bss : Word) : Elf32Phdr :=
  { pType := PT_LOAD, pOffset := 0x400, pVaddr := 0x1400, pPaddr := 0x1400, pFilesz := 8,
    pMemsz := 8 + bss }

theorem secondLoad_placed_eight :
    sharedLibraryHeaders (someFile (someSegment 8)) = some (someSegment 8) ∧
      ∀ before, (someSegment 8).SameElsewhere (someFile (someSegment 8)) before →
        (someSegment 8).Placed before ((someSegment 8).secondLoad before) := by
  have hheaders : sharedLibraryHeaders (someFile (someSegment 8)) = some (someSegment 8) := by
    decide +kernel
  exact ⟨hheaders, (secondLoad_placed_iff (.inl hheaders) (by decide) (by decide) _).mpr
    ⟨.inr (.inr (by decide)), .inr (by decide)⟩⟩

theorem not_placed_sixteen : ∃ p : Elf32Phdr, sharedLibraryHeaders (someFile p) = some p ∧
    dynamicExecHeaders (someFile p) = some p ∧ p.InMemory ∧
      ¬p.Placed (someFile p) (p.secondLoad (someFile p)) := by
  have hmemory : (someSegment 16).InMemory := ⟨by decide, by decide, by decide⟩
  refine ⟨someSegment 16, by decide +kernel, by decide +kernel, hmemory, fun hplaced => ?_⟩
  -- The first zero belongs behind the data; the code starts eight bytes further on.
  have hbyte := hplaced.zero 8 (by decide) (by decide)
  rw [Elf32Phdr.byte_secondLoad hmemory] at hbyte
  exact absurd hbyte (by decide +kernel)

end PComputer.PseudOS
