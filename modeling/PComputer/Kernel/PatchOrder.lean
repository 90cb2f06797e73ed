import PComputer.Kernel.Imports

/-!
# `elf.c`: patching before and after the move

The loader of the library patches its relocation targets where they lie in the file, as
far below their place as the second segment does, and moves the segment then; the loader
of programs patches after the move.
-/

namespace PComputer.PseudOS

open PComputer.Foundation

/-- A library whose headers are right and whose sections are there. -/
structure Library (image : ElfImage) where
  p : Elf32Phdr
  dynsym : Section
  reladyn : Section
  relaplt : Section
  headers : sharedLibraryHeaders image = some p
  foundSym : (Sections.find image).dynsym = some dynsym
  foundDyn : (Sections.find image).reladyn = some reladyn
  foundPlt : (Sections.find image).relaplt = some relaplt

namespace Library

variable {image : ElfImage} (L : Library image)

/-! ## The entries of the file -/

def dynCount : Nat := (image.entrycnt L.reladyn.shdr).toNat

def pltCount : Nat := (image.entrycnt L.relaplt.shdr).toNat

def dynEntry (j : Nat) : Elf32Rela := image.rela L.reladyn.start j

def pltEntry (j : Nat) : Elf32Rela := image.rela L.relaplt.start j

/-- What an entry stores at its target, for a library at `base`. -/
def dynPatch (base : Word) (j : Nat) : Int × Word :=
  ((L.dynEntry j).rOffset.toInt,
    base + image.stValue L.dynsym.start (L.dynEntry j).dynsymIdx + (L.dynEntry j).rAddend)

def pltPatch (base : Word) (j : Nat) : Int × Word :=
  ((L.pltEntry j).rOffset.toInt,
    base + image.stValue L.dynsym.start (L.pltEntry j).dynsymIdx)

def dynPatches (base : Word) : List (Int × Word) := (List.range L.dynCount).map (L.dynPatch base)

def pltPatches (base : Word) : List (Int × Word) := (List.range L.pltCount).map (L.pltPatch base)

def filePatches (base : Word) : List (Int × Word) := L.dynPatches base ++ L.pltPatches base

/-- How far the second segment is moved up. -/
def shift : Int := L.p.pVaddr.toNat - L.p.pOffset.toNat

def Target (t : Int) : Prop := ∃ s ∈ L.filePatches 0, s.1 = t

def ReadByte (x : Int) : Prop :=
  L.reladyn.start.toNat ≤ x ∧ x < L.reladyn.start.toNat + 12 * L.dynCount ∨
    L.relaplt.start.toNat ≤ x ∧ x < L.relaplt.start.toNat + 12 * L.pltCount ∨
    (∃ j < L.dynCount, L.dynsym.start.toNat + 16 * (L.dynEntry j).dynsymIdx + 4 ≤ x ∧
      x < L.dynsym.start.toNat + 16 * (L.dynEntry j).dynsymIdx + 8) ∨
    (∃ j < L.pltCount, L.dynsym.start.toNat + 16 * (L.pltEntry j).dynsymIdx + 4 ≤ x ∧
      x < L.dynsym.start.toNat + 16 * (L.pltEntry j).dynsymIdx + 8) ∨
    ∃ h ∈ [L.reladyn.shdr, L.relaplt.shdr],
      h + 20 ≤ x ∧ x < h + 24 ∨ h + 36 ≤ x ∧ x < h + 40

/-! ## The two orders -/

def InSegments : Prop :=
  ∀ t, L.Target t → 0 ≤ t ∧ t + 4 ≤ (image.phdr 0).pMemsz.toNat ∨
    L.p.pVaddr.toNat ≤ t ∧ t + 4 ≤ L.p.pVaddr.toNat + L.p.pMemsz.toNat

/-- Wherever the library is accepted, the targets hold the same in both orders. -/
def SameWords : Prop :=
  ∀ base before lib, loadSharedLibrary base image before = .ok lib → lib.result = 0 →
    ∀ t, L.Target t →
      lib.image.word t = ((L.p.secondLoad image).patches (L.filePatches base)).word t

/-- The patches in the file leave alone what the loops read. -/
def TablesKept : Prop := ∀ t, L.Target t → ∀ x, L.ReadByte x →
    ¬(t - L.shift ≤ x ∧ x < t - L.shift + 4)

/-- The move brings every byte of a target from as far below as its segment lies. -/
structure BroughtUp : Prop where
  inMemory : L.p.InMemory
  origin : ∀ t, L.Target t → ∀ k : Nat, k < 4 → L.p.origin (t + k) = some (t + k - L.shift)

/--
Segments that start at words and do not overlap in the file, in a memory of at most a
gigabyte, and a place where the library is accepted.
-/
structure Layout : Prop where
  inMemory : L.p.InMemory
  aligned : L.p.pVaddr.toNat % 4 = 0 ∧ L.p.pOffset.toNat % 4 = 0
  apart : (image.phdr 0).pMemsz ≤ L.p.pOffset
  tables : L.dynsym.start.toNat < 2 ^ 30 ∧ L.reladyn.start.toNat < 2 ^ 30 ∧
    L.relaplt.start.toNat < 2 ^ 30
  accepted : ∃ base before lib, loadSharedLibrary base image before = .ok lib ∧ lib.result = 0

/-! ## The loops of the library's loader -/

variable {L}

private theorem filePatches_add (base d : Word) :
    L.filePatches (base + d) = mapBlocks (· + d) (L.filePatches base) := by
  unfold filePatches dynPatches pltPatches mapBlocks
  rw [List.map_append, List.map_map, List.map_map]
  congr 1
  · refine List.map_congr_left fun j _ => Prod.ext rfl ?_
    unfold dynPatch
    change base + d + _ + _ = base + _ + _ + d
    ac_rfl
  · refine List.map_congr_left fun j _ => Prod.ext rfl ?_
    unfold pltPatch
    change base + d + _ = base + _ + d
    ac_rfl

private theorem target_iff (base : Word) {t : Int} :
    L.Target t ↔ ∃ s ∈ L.filePatches base, s.1 = t := by
  unfold Target
  rw [show L.filePatches base = mapBlocks (· + base) (L.filePatches 0) by
    rw [← filePatches_add, zero_add]]
  constructor
  · rintro ⟨s, hs, rfl⟩
    exact ⟨(s.1, s.2 + base), List.mem_map.mpr ⟨s, hs, rfl⟩, rfl⟩
  · rintro ⟨s, hs, rfl⟩
    obtain ⟨t, ht, rfl⟩ := List.mem_map.mp hs
    exact ⟨t, ht, rfl⟩

def Agrees (L : Library image) (image' : ElfImage) : Prop :=
  ∀ x, L.ReadByte x → image'.byte x = image.byte x

theorem TablesKept.agrees (hkept : L.TablesKept) {l : List (Int × Word)}
    (hl : ∀ s ∈ l, L.Target s.1) : L.Agrees (image.patches (lower L.shift l)) := by
  intro x hx
  rw [ElfImage.byte_patches, puts_of_not_covers]
  rintro s hs ⟨hlow, hhigh⟩
  obtain ⟨t, ht, rfl⟩ := List.mem_map.mp hs
  exact hkept t.1 (hl t ht) x hx ⟨hlow, hhigh⟩

section Loop

variable {count : ElfImage → Nat} {step : Nat → ElfImage → Option ElfImage}
  {pre l : List (Int × Word)} {k : Nat}

private theorem patches_lower_take_succ {i : Nat} (hi : i < l.length) :
    image.patches (lower L.shift (pre ++ l.take (i + 1))) =
      (image.patches (lower L.shift (pre ++ l.take i))).patch (l[i].1 - L.shift, l[i].2) := by
  rw [take_succ_eq hi, ← List.append_assoc, lower_append,
    ElfImage.patches_append]
  rfl

private theorem TablesKept.agrees_take (hkept : L.TablesKept)
    (htargets : ∀ s ∈ pre ++ l, L.Target s.1)
    (i : Nat) : L.Agrees (image.patches (lower L.shift (pre ++ l.take i))) := by
  refine hkept.agrees fun s hs => htargets s ?_
  rcases List.mem_append.mp hs with hpre | htake
  · exact List.mem_append_left _ hpre
  · exact List.mem_append_right _ (List.mem_of_mem_take htake)

private theorem relaLoop_lower (count : ElfImage → Nat) (step : Nat → ElfImage → Option ElfImage)
    (pre l : List (Int × Word)) (hkept : L.TablesKept) (htargets : ∀ s ∈ pre ++ l, L.Target s.1)
    (hlength : l.length ≤ COUNT_MAX)
    (hcount : ∀ image', L.Agrees image' → count image' = l.length)
    (hstep : ∀ i (hi : i < l.length), ∀ image', L.Agrees image' →
      step i image' = some (image'.patch (l[i].1 - L.shift, l[i].2))) :
    relaLoop count step COUNT_MAX 0 (image.patches (lower L.shift pre)) =
      (true, image.patches (lower L.shift (pre ++ l))) := by
  have hrun := relaLoop_of_steps count step
    (fun i => image.patches (lower L.shift (pre ++ l.take i))) hlength
    (fun i hi => ?_) ?_
  · rw [List.take_zero, List.append_nil, List.take_length] at hrun
    exact hrun
  · have hagrees := hkept.agrees_take htargets i
    refine ⟨by rw [hcount _ hagrees]; exact hi, ?_⟩
    rw [hstep i hi _ hagrees, patches_lower_take_succ hi]
  · rw [hcount _ (hkept.agrees_take htargets _)]

private theorem relaLoop_lower_none (count : ElfImage → Nat)
    (step : Nat → ElfImage → Option ElfImage)
    (pre l : List (Int × Word)) (hkept : L.TablesKept) (htargets : ∀ s ∈ pre ++ l, L.Target s.1)
    (hlength : l.length ≤ COUNT_MAX)
    (hcount : ∀ image', L.Agrees image' → count image' = l.length) (hk : k < l.length)
    (hstep : ∀ i (hi : i < k), ∀ image', L.Agrees image' →
      step i image' = some (image'.patch (l[i].1 - L.shift, l[i].2)))
    (hnone : ∀ image', L.Agrees image' → step k image' = none) :
    (relaLoop count step COUNT_MAX 0 (image.patches (lower L.shift pre))).1 = false := by
  have hrun := relaLoop_of_none count step (k := k)
    (fun i => image.patches (lower L.shift (pre ++ l.take i)))
    (Nat.lt_of_lt_of_le hk hlength) (fun i hi => ?_) ?_ (hnone _ (hkept.agrees_take htargets k))
  · rw [List.take_zero, List.append_nil] at hrun
    rw [hrun]
  · have hagrees := hkept.agrees_take htargets i
    refine ⟨by rw [hcount _ hagrees]; omega, ?_⟩
    rw [hstep i hi _ hagrees, patches_lower_take_succ (by omega)]
  · rw [hcount _ (hkept.agrees_take htargets k)]
    exact hk

end Loop

private theorem length_dynPatches (base : Word) : (L.dynPatches base).length = L.dynCount := by
  unfold dynPatches
  rw [List.length_map, List.length_range]

private theorem length_pltPatches (base : Word) : (L.pltPatches base).length = L.pltCount := by
  unfold pltPatches
  rw [List.length_map, List.length_range]

private theorem getElem_dynPatches {base : Word} {j : Nat} (hj : j < (L.dynPatches base).length) :
    (L.dynPatches base)[j] = L.dynPatch base j :=
  (List.getElem_map _).trans (by rw [List.getElem_range])

private theorem getElem_pltPatches {base : Word} {j : Nat} (hj : j < (L.pltPatches base).length) :
    (L.pltPatches base)[j] = L.pltPatch base j :=
  (List.getElem_map _).trans (by rw [List.getElem_range])

private theorem target_of_mem (base : Word) {s : Int × Word} (hs : s ∈ L.filePatches base) :
    L.Target s.1 :=
  (target_iff base).mpr ⟨s, hs, rfl⟩

section Agrees

variable {image' : ElfImage} (h : L.Agrees image') {j : Nat}

include h

private theorem Agrees.dynEntry (hj : j < L.dynCount) :
    image'.rela L.reladyn.start j = L.dynEntry j :=
  ElfImage.rela_congr fun y hlow hhigh => h y (Or.inl ⟨by omega, by omega⟩)

private theorem Agrees.pltEntry (hj : j < L.pltCount) :
    image'.rela L.relaplt.start j = L.pltEntry j :=
  ElfImage.rela_congr fun y hlow hhigh => h y (Or.inr (Or.inl ⟨by omega, by omega⟩))

private theorem Agrees.dynValue (hj : j < L.dynCount) :
    image'.stValue L.dynsym.start (L.dynEntry j).dynsymIdx =
      image.stValue L.dynsym.start (L.dynEntry j).dynsymIdx :=
  ElfImage.stValue_congr fun y hlow hhigh =>
    h y (Or.inr (Or.inr (Or.inl ⟨j, hj, hlow, hhigh⟩)))

private theorem Agrees.pltValue (hj : j < L.pltCount) :
    image'.stValue L.dynsym.start (L.pltEntry j).dynsymIdx =
      image.stValue L.dynsym.start (L.pltEntry j).dynsymIdx :=
  ElfImage.stValue_congr fun y hlow hhigh =>
    h y (Or.inr (Or.inr (Or.inr (Or.inl ⟨j, hj, hlow, hhigh⟩))))

private theorem Agrees.dynCount : (image'.entrycnt L.reladyn.shdr).toNat = L.dynCount := by
  rw [ElfImage.entrycnt_congr fun y hy =>
    h y (Or.inr (Or.inr (Or.inr (Or.inr ⟨_, by simp, hy⟩))))]
  rfl

theorem Agrees.pltCount : (image'.entrycnt L.relaplt.shdr).toNat = L.pltCount := by
  rw [ElfImage.entrycnt_congr fun y hy =>
    h y (Or.inr (Or.inr (Or.inr (Or.inr ⟨_, by simp, hy⟩))))]
  rfl

end Agrees

private theorem toInt_sub_load2InmemOffset (hmemory : L.p.InMemory) {off : Word}
    (hoff : 0 ≤ off.toInt) :
    (off - L.p.load2InmemOffset).toInt = off.toInt - L.shift := by
  obtain ⟨-, hbelow, hroom⟩ := hmemory
  rw [BitVec.le_def] at hbelow
  have hdisp : L.p.load2InmemOffset.toNat = L.p.pVaddr.toNat - L.p.pOffset.toNat := by
    unfold Elf32Phdr.load2InmemOffset
    bv_omega
  unfold shift
  rw [BitVec.toInt_eq_toNat_cond] at hoff ⊢
  rw [BitVec.toInt_eq_toNat_cond, BitVec.toNat_sub, hdisp]
  have hlt := off.isLt
  split_ifs at hoff ⊢ <;> omega

section Loops

variable (hmemory : L.p.InMemory) (hpositive : ∀ t, L.Target t → 0 ≤ t) {base : Word}

include hmemory hpositive

private theorem relaPltStep_of_type {i : Nat} (hi : i < (L.pltPatches base).length)
    {image' : ElfImage}
    (h : L.Agrees image') (htype : (L.pltEntry i).type = Elf32Rela.R_RISCV_JUMP_SLOT) :
    relaPltStep base L.p.load2InmemOffset L.dynsym.start L.relaplt.start i image' =
      some (image'.patch ((L.pltPatches base)[i].1 - L.shift, (L.pltPatches base)[i].2)) := by
  have hcount : i < L.pltCount := length_pltPatches base ▸ hi
  have htarget : 0 ≤ (L.pltEntry i).rOffset.toInt :=
    hpositive _ (target_of_mem base (s := L.pltPatch base i)
      (List.mem_append_right _ (getElem_pltPatches hi ▸ List.getElem_mem hi)))
  rw [getElem_pltPatches hi]
  unfold relaPltStep pltPatch
  rw [h.pltEntry hcount]
  simp only [htype, if_true, h.pltValue hcount, toInt_sub_load2InmemOffset hmemory htarget]
  rfl

variable (hkept : L.TablesKept)

include hkept

private theorem relaLoop_dyn :
    relaLoop (fun image => (image.entrycnt L.reladyn.shdr).toNat)
        (relaDynStep base L.p.load2InmemOffset L.dynsym.start L.reladyn.start) COUNT_MAX 0 image =
      (true, image.patches (lower L.shift (L.dynPatches base))) := by
  refine relaLoop_lower _ _ [] (L.dynPatches base) hkept
    (fun s hs => target_of_mem base (List.mem_append_left _ hs))
    ?_ (fun image' h => by rw [h.dynCount, length_dynPatches]) fun i hi image' h => ?_
  · rw [length_dynPatches]
    exact (image.entrycnt L.reladyn.shdr).isLt.le
  · have hcount : i < L.dynCount := length_dynPatches base ▸ hi
    have htarget : 0 ≤ (L.dynEntry i).rOffset.toInt :=
      hpositive _ (target_of_mem base (s := L.dynPatch base i)
        (List.mem_append_left _ (getElem_dynPatches hi ▸ List.getElem_mem hi)))
    rw [getElem_dynPatches hi]
    unfold relaDynStep dynPatch
    rw [h.dynEntry hcount]
    simp only [h.dynValue hcount, toInt_sub_load2InmemOffset hmemory htarget]
    rfl

/-- The loader patches in the file's place, and moves then. -/
theorem relocateShared_eq
    (htypes : ∀ j < L.pltCount, (L.pltEntry j).type = Elf32Rela.R_RISCV_JUMP_SLOT) :
    relocateShared base L.p L.dynsym L.reladyn L.relaplt image =
      (0, L.p.secondLoad (image.patches (lower L.shift (L.filePatches base)))) := by
  have hplt := relaLoop_lower (fun image => (image.entrycnt L.relaplt.shdr).toNat)
    (relaPltStep base L.p.load2InmemOffset L.dynsym.start L.relaplt.start)
    (L.dynPatches base) (L.pltPatches base) hkept (fun s hs => target_of_mem base hs)
    (by rw [length_pltPatches]; exact (image.entrycnt L.relaplt.shdr).isLt.le)
    (fun image' h => by rw [h.pltCount, length_pltPatches])
    fun i hi image' h => relaPltStep_of_type hmemory hpositive hi h
      (htypes i (length_pltPatches base ▸ hi))
  unfold relocateShared
  simp only [relaLoop_dyn hmemory hpositive hkept, hplt, if_true]
  rfl

private theorem types_of_relocateShared
    (h : (relocateShared base L.p L.dynsym L.reladyn L.relaplt image).1 = 0) :
    ∀ j < L.pltCount, (L.pltEntry j).type = Elf32Rela.R_RISCV_JUMP_SLOT := by
  intro j
  induction j using Nat.strong_induction_on with
  | _ j ih =>
      intro hj
      by_contra hother
      have hlength : j < (L.pltPatches base).length := by rwa [length_pltPatches]
      have hplt := relaLoop_lower_none (fun image => (image.entrycnt L.relaplt.shdr).toNat)
        (relaPltStep base L.p.load2InmemOffset L.dynsym.start L.relaplt.start)
        (L.dynPatches base) (L.pltPatches base) hkept (fun s hs => target_of_mem base hs)
        (by rw [length_pltPatches]; exact (image.entrycnt L.relaplt.shdr).isLt.le)
        (fun image' h => by rw [h.pltCount, length_pltPatches]) hlength
        (fun i hi image' h => relaPltStep_of_type hmemory hpositive (by omega) h
          (ih i hi (by omega)))
        fun image' h => by
          unfold relaPltStep
          rw [h.pltEntry hj]
          exact if_neg hother
      unfold relocateShared at h
      simp only [relaLoop_dyn hmemory hpositive hkept, hplt, Bool.false_eq_true, if_false] at h
      omega

end Loops

/-! ## The same words -/

private theorem InSegments.nonneg (hsegments : L.InSegments) {t : Int} (ht : L.Target t) :
    0 ≤ t := by
  rcases hsegments t ht with ⟨hlow, -⟩ | ⟨hlow, -⟩
  · exact hlow
  · omega

private theorem covered_iff (base : Word) {x : Int} :
    (∃ s ∈ L.filePatches base, Covers 4 s x) ↔ ∃ t, L.Target t ∧ ∃ k : Nat, k < 4 ∧ x = t + k := by
  constructor
  · rintro ⟨s, hs, hlow, hhigh⟩
    exact ⟨s.1, target_of_mem base hs, (x - s.1).toNat, by omega, by omega⟩
  · rintro ⟨t, ht, k, hk, rfl⟩
    obtain ⟨s, hs, rfl⟩ := (target_iff base).mp ht
    exact ⟨s, hs, by omega, by omega⟩

section Memory

variable (hmemory : L.p.InMemory) (l : List (Int × Word)) (x : Int)

include hmemory

private theorem byte_patched_moved :
    (L.p.secondLoad (image.patches l)).byte x =
      brought L.p.origin 0 (puts 4 ElfImage.wordByte image.byte l) x := by
  rw [Elf32Phdr.byte_secondLoad hmemory, ElfImage.byte_patches]
  rfl

private theorem byte_moved_patched :
    ((L.p.secondLoad image).patches l).byte x =
      puts 4 ElfImage.wordByte (brought L.p.origin 0 image.byte) l x := by
  rw [ElfImage.byte_patches]
  congr 1
  funext y
  exact Elf32Phdr.byte_secondLoad hmemory image y

end Memory

private theorem image_of_shared (hsegments : L.InSegments) (hkept : L.TablesKept)
    (hmemory : L.p.InMemory) {base : Word} {before : DynLinkTable} {lib : SharedLoad}
    (h : loadSharedLibrary base image before = .ok lib) (hzero : lib.result = 0) :
    (∀ j < L.pltCount, (L.pltEntry j).type = Elf32Rela.R_RISCV_JUMP_SLOT) ∧
      lib.image = L.p.secondLoad (image.patches (lower L.shift (L.filePatches base))) := by
  obtain ⟨p, dynsym, reladyn, relaplt, hheaders, hsym, hdyn, hplt, -, -, hrelocate⟩ :=
    shared_of_result_zero h hzero
  obtain rfl := Option.some.inj (L.headers.symm.trans hheaders)
  obtain rfl := Option.some.inj (L.foundSym.symm.trans hsym)
  obtain rfl := Option.some.inj (L.foundDyn.symm.trans hdyn)
  obtain rfl := Option.some.inj (L.foundPlt.symm.trans hplt)
  have hpositive : ∀ t, L.Target t → 0 ≤ t := fun t ht => hsegments.nonneg ht
  have htypes := types_of_relocateShared hmemory hpositive hkept
    (congrArg Prod.fst hrelocate)
  refine ⟨htypes, ?_⟩
  rw [relocateShared_eq hmemory hpositive hkept htypes] at hrelocate
  exact (congrArg Prod.snd hrelocate).symm

private theorem BroughtUp.sameWords (hbrought : L.BroughtUp) (hsegments : L.InSegments)
    (hkept : L.TablesKept) : L.SameWords := by
  intro base before lib h hzero t ht
  rw [(image_of_shared hsegments hkept hbrought.inMemory h hzero).2]
  refine ElfImage.word_congr fun k hk => ?_
  rw [byte_patched_moved hbrought.inMemory, byte_moved_patched hbrought.inMemory]
  exact brought_puts_lower ((covered_iff base).mpr ⟨t, ht, k, hk, rfl⟩) (hbrought.origin t ht k hk)

private theorem toNat_wordByte (v : Word) {k : Nat} (hk : k < 4) :
    (ElfImage.wordByte v k).toNat = v.toNat / 2 ^ (8 * k) % 256 := by
  have hcases : k = 0 ∨ k = 1 ∨ k = 2 ∨ k = 3 := by omega
  unfold ElfImage.wordByte lane
  rw [BitVec.extractLsb'_toNat, Nat.shiftRight_eq_div_pow]
  rcases hcases with rfl | rfl | rfl | rfl
  all_goals rfl

private theorem wordByte_add_ne (v : Word) (i : Int) (hlow : 0 ≤ i) (hhigh : i < (4 : Nat)) :
    ElfImage.wordByte (v + 0x01010101) i ≠ ElfImage.wordByte v i := by
  obtain ⟨k, rfl⟩ := Int.eq_ofNat_of_zero_le hlow
  have hk : k < 4 := by omega
  intro hsame
  have hnat := congrArg BitVec.toNat hsame
  have hones : (0x01010101 : Word).toNat = 0x01010101 := rfl
  rw [toNat_wordByte _ hk, toNat_wordByte _ hk, BitVec.toNat_add, hones] at hnat
  have hcases : k = 0 ∨ k = 1 ∨ k = 2 ∨ k = 3 := by omega
  have hlt := v.isLt
  rcases hcases with rfl | rfl | rfl | rfl
  all_goals omega

private theorem and_ne_zero {a b c : Word} (ha : 2 ^ 31 ≤ a.toNat) (hb : 2 ^ 31 ≤ b.toNat)
    (hc : 2 ^ 31 ≤ c.toNat) : a &&& b &&& c ≠ 0 := by
  intro hzero
  have hmsb := congrArg BitVec.msb hzero
  rw [BitVec.msb_and, BitVec.msb_and, BitVec.msb_eq_decide, BitVec.msb_eq_decide,
    BitVec.msb_eq_decide, decide_eq_true ha, decide_eq_true hb, decide_eq_true hc] at hmsb
  exact absurd hmsb (by decide)

private theorem Layout.accepted_at (hlayout : L.Layout) (hsegments : L.InSegments)
    (hkept : L.TablesKept)
    {base : Word} (hlow : 2 ^ 31 ≤ base.toNat) (hhigh : base.toNat < 2 ^ 31 + 2 ^ 30) :
    ∃ lib, loadSharedLibrary base image [] = .ok lib ∧ lib.result = 0 := by
  obtain ⟨base', before, lib', h, hzero⟩ := hlayout.accepted
  have htypes := (image_of_shared hsegments hkept hlayout.inMemory h hzero).1
  obtain ⟨p, dynsym, reladyn, relaplt, -, hsym, -, -, -, htable, -⟩ :=
    shared_of_result_zero h hzero
  obtain rfl := Option.some.inj (L.foundSym.symm.trans hsym)
  have hsucceeds : Succeeds (fillTable
      (fun j => (dynLinkEntry image (some L.dynsym) (Sections.find image).dynstr j j
        (base + image.stValue L.dynsym.start j)).map some)
      (image.entrycnt L.dynsym.shdr).toInt.toNat 0) := by
    refine succeeds_fillTable_map.mpr fun k hk => ?_
    -- Whether an entry can be filled does not depend on the address in it.
    exact succeeds_dynLinkEntry.mpr
      (succeeds_dynLinkEntry.mp (succeeds_fillTable_map.mp ⟨_, htable⟩ k hk))
  obtain ⟨table, hfill⟩ := hsucceeds
  obtain ⟨hsymStart, hdynStart, hpltStart⟩ := hlayout.tables
  have hand : (base + L.dynsym.start) &&& (base + L.reladyn.start) &&&
      (base + L.relaplt.start) ≠ 0 :=
    and_ne_zero (by rw [BitVec.toNat_add]; omega) (by rw [BitVec.toNat_add]; omega)
      (by rw [BitVec.toNat_add]; omega)
  have hload := loadSharedLibrary_of_ne_zero L.headers L.foundSym L.foundDyn
    L.foundPlt [] hand
  rw [hfill] at hload
  refine ⟨_, hload, ?_⟩
  rw [relocateShared_eq hlayout.inMemory (fun t ht => hsegments.nonneg ht) hkept htypes]

private theorem Layout.origin_cases (hlayout : L.Layout) (y : Int) :
    L.p.origin y = none ∨ L.p.origin y = some y ∨ L.p.origin y = some (y - L.shift) := by
  obtain ⟨hvaddr, hoffset⟩ := hlayout.aligned
  cases horigin : L.p.origin y with
  | none => exact Or.inl rfl
  | some z =>
      refine Or.inr ?_
      obtain ⟨-, hz⟩ := Elf32Phdr.origin_eq_some.mp horigin
      unfold shift
      rcases Elf32Phdr.sourceWord_cases (p := L.p) (y / 4) with ⟨-, hsource⟩ | ⟨-, hsource⟩
      · refine Or.inr (congrArg some ?_)
        rw [hsource] at hz
        omega
      · refine Or.inl (congrArg some ?_)
        rw [hsource] at hz
        omega

/-- What stays is not what is brought up to another place. -/
theorem Layout.origin_stays (hlayout : L.Layout) (hsegments : L.InSegments) {t y : Int}
    (ht : L.Target t) {k : Nat} (hk : k < 4) (hy : y = t + k) (hstay : L.p.origin y = some y)
    (hpos : 0 < L.shift) : L.p.origin (y + L.shift) ≠ some y := by
  obtain ⟨hvaddr, hoffset⟩ := hlayout.aligned
  have hapart := BitVec.le_def.mp hlayout.apart
  obtain ⟨-, hz⟩ := Elf32Phdr.origin_eq_some.mp hstay
  intro hbrought
  obtain ⟨-, hz'⟩ := Elf32Phdr.origin_eq_some.mp hbrought
  have hsegment := hsegments t ht
  unfold shift at hpos hz'
  rcases Elf32Phdr.sourceWord_cases (p := L.p) (y / 4) with
    ⟨⟨hlow, hhigh⟩, hsource⟩ | ⟨hcopied, hsource⟩
  · rw [hsource] at hz
    omega
  · unfold Elf32Phdr.Copied at hcopied
    rcases Elf32Phdr.sourceWord_cases (p := L.p)
      ((y + (L.p.pVaddr.toNat - L.p.pOffset.toNat)) / 4) with
      ⟨⟨hlow', hhigh'⟩, hsource'⟩ | ⟨-, hsource'⟩
    · omega
    · rw [hsource'] at hz'
      omega

/-- Two places of the library are enough to see whether a byte is brought up. -/
theorem SameWords.broughtUp (hsame : L.SameWords) (hsegments : L.InSegments)
    (hkept : L.TablesKept) (hlayout : L.Layout) : L.BroughtUp := by
  have hmemory := hlayout.inMemory
  have hshift : 0 ≤ L.shift := by
    have hbelow := BitVec.le_def.mp hmemory.2.1
    unfold shift
    omega
  -- The bytes of the targets are the same for a library at such a place.
  have hbytes {base : Word} (hlow : 2 ^ 31 ≤ base.toNat) (hhigh : base.toNat < 2 ^ 31 + 2 ^ 30)
      (y : Int) (hy : ∃ s ∈ L.filePatches base, Covers 4 s y) :
      brought L.p.origin 0 (puts 4 ElfImage.wordByte image.byte
          (lower L.shift (L.filePatches base))) y =
        puts 4 ElfImage.wordByte (brought L.p.origin 0 image.byte) (L.filePatches base) y := by
    obtain ⟨lib, h, hzero⟩ := hlayout.accepted_at hsegments hkept hlow hhigh
    obtain ⟨t, ht, k, hk, rfl⟩ := (covered_iff base).mp hy
    have hword := hsame base [] lib h hzero t ht
    rw [(image_of_shared hsegments hkept hmemory h hzero).2, ElfImage.word_eq_iff] at hword
    rw [← byte_patched_moved hmemory, ← byte_moved_patched hmemory]
    exact hword k hk
  refine ⟨hmemory, fun t ht k hk => ?_⟩
  refine source_of_brought_eq (m := image.byte) 0 (l := L.filePatches 0x80000000)
    (g := (· + 0x01010101)) hshift wordByte_add_ne (fun y _ => hlayout.origin_cases y)
    (fun y hy hstay hpos => ?_) (fun y hy => hbytes (by decide) (by decide) y hy)
    (fun y hy => ?_) ((covered_iff _).mpr ⟨t, ht, k, hk, rfl⟩)
  · obtain ⟨t', ht', k', hk', hy'⟩ := (covered_iff _).mp hy
    exact hlayout.origin_stays hsegments ht' hk' hy' hstay hpos
  · rw [← filePatches_add]
    refine hbytes (by decide) (by decide) y ?_
    rw [filePatches_add, exists_covers_mapBlocks]
    exact hy

/--
For every library whose relocation targets lie in its segments: the two orders leave the
same words at the targets if the patches in the file leave alone what the loops read, and
the move brings up every byte of every target.  Where the segments start at words and lie
apart in the file, and the tables are kept, the second condition is necessary.
-/
theorem sameWords_iff (hsegments : L.InSegments) :
    (L.TablesKept ∧ L.BroughtUp → L.SameWords) ∧
      (L.Layout → L.TablesKept → (L.SameWords ↔ L.BroughtUp)) :=
  ⟨fun ⟨hkept, hbrought⟩ => hbrought.sameWords hsegments hkept,
    fun hlayout hkept => ⟨fun hsame => hsame.broughtUp hsegments hkept hlayout,
      fun hbrought => hbrought.sameWords hsegments hkept⟩⟩

end Library

/-! ### Concrete libraries -/

def someTextLibrary : ElfImage := fun k =>
  if k = 17 ∨ k = 18 then 0x300 else if k = 180 then 0x2f0 else someLibrary k

namespace Library

def ofSomeLibrary : Library someLibrary where
  p := ⟨PT_LOAD, 0x400, 0x1400, 0x1400, 8, 16⟩
  dynsym := ⟨256, 0x280⟩
  reladyn := ⟨336, 0x2d0⟩
  relaplt := ⟨376, 0x2e0⟩
  headers := by decide +kernel
  foundSym := by decide +kernel
  foundDyn := by decide +kernel
  foundPlt := by decide +kernel

def ofTextLibrary : Library someTextLibrary where
  p := ⟨PT_LOAD, 0x400, 0x1400, 0x1400, 8, 16⟩
  dynsym := ⟨256, 0x280⟩
  reladyn := ⟨336, 0x2d0⟩
  relaplt := ⟨376, 0x2e0⟩
  headers := by decide +kernel
  foundSym := by decide +kernel
  foundDyn := by decide +kernel
  foundPlt := by decide +kernel

structure Small {image : ElfImage} (L : Library image) : Prop where
  dynsym : L.dynsym = ⟨256, 0x280⟩
  reladyn : L.reladyn = ⟨336, 0x2d0⟩
  relaplt : L.relaplt = ⟨376, 0x2e0⟩
  dynCount : L.dynCount = 1
  pltCount : L.pltCount = 1
  dynEntry : (L.dynEntry 0).dynsymIdx = 1
  pltEntry : (L.pltEntry 0).dynsymIdx = 1

theorem Small.readByte {image : ElfImage} {L : Library image} (h : L.Small) {x : Int}
    (hx : L.ReadByte x) : 0 ≤ x ∧ x < 0x400 := by
  unfold ReadByte at hx
  rw [h.dynsym, h.reladyn, h.relaplt, h.dynCount, h.pltCount] at hx
  rcases hx with ⟨hlow, hhigh⟩ | ⟨hlow, hhigh⟩ | ⟨j, hj, hlow, hhigh⟩ | ⟨j, hj, hlow, hhigh⟩ |
    ⟨s, hs, hx⟩
  · change (0x2d0 : Int) ≤ x at hlow
    change x < 0x2d0 + 12 * 1 at hhigh
    omega
  · change (0x2e0 : Int) ≤ x at hlow
    change x < 0x2e0 + 12 * 1 at hhigh
    omega
  · obtain rfl : j = 0 := by omega
    rw [h.dynEntry] at hlow hhigh
    change (0x280 : Int) + 16 * 1 + 4 ≤ x at hlow
    change x < 0x280 + 16 * 1 + 8 at hhigh
    omega
  · obtain rfl : j = 0 := by omega
    rw [h.pltEntry] at hlow hhigh
    change (0x280 : Int) + 16 * 1 + 4 ≤ x at hlow
    change x < 0x280 + 16 * 1 + 8 at hhigh
    omega
  · simp only [List.mem_cons, List.not_mem_nil, or_false] at hs
    rcases hs with rfl | rfl
    · change (336 : Int) + 20 ≤ x ∧ x < 336 + 24 ∨ (336 : Int) + 36 ≤ x ∧ x < 336 + 40 at hx
      omega
    · change (376 : Int) + 20 ≤ x ∧ x < 376 + 24 ∨ (376 : Int) + 36 ≤ x ∧ x < 376 + 40 at hx
      omega

private theorem target_ofSomeLibrary {t : Int} (ht : ofSomeLibrary.Target t) :
    t = 0x1400 ∨ t = 0x1404 := by
  obtain ⟨s, hs, rfl⟩ := ht
  have hpatches : ofSomeLibrary.filePatches 0 = [(0x1400, 0x10), (0x1404, 0)] := by
    decide +kernel
  rw [hpatches] at hs
  simp only [List.mem_cons, List.not_mem_nil, or_false] at hs
  rcases hs with rfl | rfl
  · exact Or.inl rfl
  · exact Or.inr rfl

private theorem inSegments_ofSomeLibrary : ofSomeLibrary.InSegments := by
  intro t ht
  rcases target_ofSomeLibrary ht with rfl | rfl <;> exact Or.inr (by decide)

private theorem tablesKept_ofSomeLibrary : ofSomeLibrary.TablesKept := by
  intro t ht x hx hcovers
  have hsmall : ofSomeLibrary.Small :=
    ⟨rfl, rfl, rfl, by decide +kernel, by decide +kernel, by decide +kernel, by decide +kernel⟩
  have hrange := hsmall.readByte hx
  have hshift : ofSomeLibrary.shift = 0x1000 := by decide
  rw [hshift] at hcovers
  rcases target_ofSomeLibrary ht with rfl | rfl <;> omega

private theorem broughtUp_ofSomeLibrary : ofSomeLibrary.BroughtUp := by
  refine ⟨⟨by decide, by decide, by decide⟩, fun t ht k hk => ?_⟩
  rcases target_ofSomeLibrary ht with rfl | rfl
  all_goals
    revert k
    decide +kernel

theorem sameWords_ofSomeLibrary : ofSomeLibrary.SameWords :=
  (sameWords_iff inSegments_ofSomeLibrary).1 ⟨tablesKept_ofSomeLibrary, broughtUp_ofSomeLibrary⟩

private theorem target_ofTextLibrary {t : Int} (ht : ofTextLibrary.Target t) :
    t = 0x2f0 ∨ t = 0x1404 := by
  obtain ⟨s, hs, rfl⟩ := ht
  have hpatches : ofTextLibrary.filePatches 0 = [(0x2f0, 0x10), (0x1404, 0)] := by decide +kernel
  rw [hpatches] at hs
  simp only [List.mem_cons, List.not_mem_nil, or_false] at hs
  rcases hs with rfl | rfl
  · exact Or.inl rfl
  · exact Or.inr rfl

private theorem inSegments_ofTextLibrary : ofTextLibrary.InSegments := by
  intro t ht
  have hfirst : (someTextLibrary.phdr 0).pMemsz = 0x300 := by decide +kernel
  rcases target_ofTextLibrary ht with rfl | rfl
  · refine Or.inl ⟨by decide, ?_⟩
    rw [hfirst]
    decide
  · exact Or.inr (by decide)

private theorem layout_ofTextLibrary : ofTextLibrary.Layout := by
  refine ⟨⟨by decide, by decide, by decide⟩, by decide, by decide +kernel,
    ⟨by decide, by decide, by decide⟩, 0x20700000, [], ?_⟩
  have hload : (loadSharedLibrary 0x20700000 someTextLibrary []).toOption.map
      SharedLoad.result = some 0 := by decide +kernel
  cases hlib : loadSharedLibrary 0x20700000 someTextLibrary [] with
  | error fault =>
      rw [hlib] at hload
      cases hload
  | ok lib =>
      rw [hlib] at hload
      exact ⟨lib, rfl, Option.some.inj hload⟩

private theorem tablesKept_ofTextLibrary : ofTextLibrary.TablesKept := by
  intro t ht x hx hcovers
  have hsmall : ofTextLibrary.Small :=
    ⟨rfl, rfl, rfl, by decide +kernel, by decide +kernel, by decide +kernel, by decide +kernel⟩
  have hrange := hsmall.readByte hx
  have hshift : ofTextLibrary.shift = 0x1000 := by decide
  rw [hshift] at hcovers
  rcases target_ofTextLibrary ht with rfl | rfl <;> omega

/-- The word in the text is not patched; one in front of the library is. -/
theorem not_sameWords_ofTextLibrary : ofTextLibrary.InSegments ∧ ofTextLibrary.Layout ∧
    ¬ofTextLibrary.SameWords := by
  refine ⟨inSegments_ofTextLibrary, layout_ofTextLibrary, fun hsame => ?_⟩
  have hbrought := hsame.broughtUp inSegments_ofTextLibrary tablesKept_ofTextLibrary
    layout_ofTextLibrary
  have htarget : ofTextLibrary.Target 0x2f0 :=
    ⟨ofTextLibrary.dynPatch 0 0, by decide +kernel, by decide +kernel⟩
  have horigin := hbrought.origin 0x2f0 htarget 0 (by decide)
  exact absurd horigin (by decide +kernel)

end Library

end PComputer.PseudOS
