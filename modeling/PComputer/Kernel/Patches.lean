import PComputer.Foundation.Stores
import PComputer.Kernel.LoaderBounds

/-!
# `elf.c`: the patches of a loader

The relocation loops and the linking of functions as lists of words that are stored into
the image, one after the other.
-/

namespace PComputer.PseudOS

open PComputer.Foundation

namespace ElfImage

def wordByte (v : Word) (i : Int) : BitVec 8 := lane v (BitVec.ofInt 2 i)

def patch (image : ElfImage) (s : Int × Word) : ElfImage := image.storeWord s.1 s.2

def patches (image : ElfImage) (l : List (Int × Word)) : ElfImage := l.foldl patch image

variable {image image' : ElfImage} {x : Int}

private theorem byte_patch (image : ElfImage) (s : Int × Word) :
    (image.patch s).byte = put 4 wordByte image.byte s := by
  funext y
  unfold patch storeWord
  rw [Elf32Phdr.byte_ofBytes]
  rfl

theorem byte_patches (image : ElfImage) (l : List (Int × Word)) :
    (image.patches l).byte = puts 4 wordByte image.byte l := by
  induction l generalizing image with
  | nil => rfl
  | cons s l ih =>
      change ((image.patch s).patches l).byte = _
      rw [ih, byte_patch]
      rfl

theorem patches_append (image : ElfImage) (l l' : List (Int × Word)) :
    image.patches (l ++ l') = (image.patches l).patches l' :=
  List.foldl_append

theorem word_congr (h : ∀ k : Nat, k < 4 → image'.byte (x + k) = image.byte (x + k)) :
    image'.word x = image.word x := by
  have hzero := h 0 (by decide)
  rw [Int.natCast_zero, Int.add_zero] at hzero
  unfold word
  rw [hzero, show image'.byte (x + 1) = image.byte (x + 1) from h 1 (by decide),
    show image'.byte (x + 2) = image.byte (x + 2) from h 2 (by decide),
    show image'.byte (x + 3) = image.byte (x + 3) from h 3 (by decide)]

private theorem word_of_wordByte {v : Word}
    (h : ∀ k : Nat, k < 4 → image.byte (x + k) = wordByte v k) : image.word x = v := by
  have hzero := h 0 (by decide)
  rw [Int.natCast_zero, Int.add_zero] at hzero
  unfold word
  rw [hzero, show image.byte (x + 1) = wordByte v 1 from h 1 (by decide),
    show image.byte (x + 2) = wordByte v 2 from h 2 (by decide),
    show image.byte (x + 3) = wordByte v 3 from h 3 (by decide)]
  exact (word_eq_lanes v).symm

private theorem wordByte_word (image : ElfImage) (x : Int) {k : Nat} (hk : k < 4) :
    wordByte (image.word x) k = image.byte (x + k) := by
  unfold wordByte word
  rw [lane_append _ _ _ _ hk]
  have hcases : k = 0 ∨ k = 1 ∨ k = 2 ∨ k = 3 := by omega
  rcases hcases with rfl | rfl | rfl | rfl
  all_goals simp

theorem word_eq_iff :
    image'.word x = image.word x ↔ ∀ k : Nat, k < 4 → image'.byte (x + k) = image.byte (x + k) := by
  refine ⟨fun h k hk => ?_, word_congr⟩
  rw [← wordByte_word image' x hk, h, wordByte_word image x hk]

/-! Fields that are read through bytes which have not changed. -/

theorem rela_congr {start : Word} {j : Nat}
    (h : ∀ y : Int, start.toNat + 12 * j ≤ y → y < start.toNat + 12 * (j + 1) →
      image'.byte y = image.byte y) : image'.rela start j = image.rela start j := by
  have hoffset : image'.word (start.toNat + 12 * j) = image.word (start.toNat + 12 * j) :=
    word_congr fun k hk => h _ (by omega) (by omega)
  have hinfo : image'.word (start.toNat + 12 * j + 4) = image.word (start.toNat + 12 * j + 4) :=
    word_congr fun k hk => h _ (by omega) (by omega)
  have haddend : image'.word (start.toNat + 12 * j + 8) = image.word (start.toNat + 12 * j + 8) :=
    word_congr fun k hk => h _ (by omega) (by omega)
  unfold rela
  rw [hoffset, hinfo, haddend]

theorem stValue_congr {start : Word} {idx : Int}
    (h : ∀ y : Int, start.toNat + 16 * idx + 4 ≤ y → y < start.toNat + 16 * idx + 8 →
      image'.byte y = image.byte y) : image'.stValue start idx = image.stValue start idx := by
  unfold stValue
  exact word_congr fun k hk => h _ (by omega) (by omega)

theorem entrycnt_congr {header : Int}
    (h : ∀ y : Int, header + 20 ≤ y ∧ y < header + 24 ∨ header + 36 ≤ y ∧ y < header + 40 →
      image'.byte y = image.byte y) : image'.entrycnt header = image.entrycnt header := by
  unfold entrycnt shSize shEntsize
  rw [word_congr fun k hk => h _ (Or.inl ⟨by omega, by omega⟩),
    word_congr fun k hk => h _ (Or.inr ⟨by omega, by omega⟩)]

end ElfImage

/-! ## The word of one patch -/

def Apart (s t : Int × Word) : Prop := s.1 + 4 ≤ t.1 ∨ t.1 + 4 ≤ s.1

instance (s t : Int × Word) : Decidable (Apart s t) := inferInstanceAs (Decidable (_ ∨ _))

private theorem not_covers_of_apart {s t : Int × Word} (h : Apart s t) {k : Nat} (hk : k < 4) :
    ¬Covers 4 t (s.1 + k) := by
  rintro ⟨hlow, hhigh⟩
  unfold Apart at h
  omega

theorem apart_of_mem_drop {l : List (Int × Word)} (hpairs : l.Pairwise Apart) {i : Nat}
    (hi : i < l.length) : ∀ t ∈ l.drop (i + 1), Apart l[i] t := by
  intro t ht
  rw [List.mem_drop_iff_getElem] at ht
  obtain ⟨j, hj, rfl⟩ := ht
  exact List.pairwise_iff_getElem.mp hpairs i (i + 1 + j) hi (by omega) (by omega)

theorem word_patches_getElem (image : ElfImage) {l : List (Int × Word)} {i : Nat}
    (hi : i < l.length) (h : ∀ t ∈ l.drop (i + 1), Apart l[i] t) :
    (image.patches l).word l[i].1 = l[i].2 := by
  have hsplit : l = l.take i ++ l[i] :: l.drop (i + 1) := by
    rw [← List.drop_eq_getElem_cons hi, List.take_append_drop]
  refine ElfImage.word_of_wordByte fun k hk => ?_
  have hcovers : Covers 4 l[i] (l[i].1 + k) := ⟨by omega, by omega⟩
  have hbyte := puts_of_last ElfImage.wordByte image.byte (l.take i) hcovers
    fun t ht => not_covers_of_apart (h t ht) hk
  rw [← hsplit, add_sub_cancel_left] at hbyte
  rw [ElfImage.byte_patches]
  exact hbyte

/-! ## The loops -/

section Loops

variable {count : ElfImage → Nat} {step : Nat → ElfImage → Option ElfImage}
  {states : Nat → ElfImage} {image : ElfImage} {k fuel : Nat}

private theorem relaLoop_run (hfuel : k ≤ fuel)
    (h : ∀ i < k, i < count (states i) ∧ step i (states i) = some (states (i + 1))) :
    relaLoop count step fuel 0 (states 0) = relaLoop count step (fuel - k) k (states k) := by
  induction k with
  | zero => rfl
  | succ k ih =>
      obtain ⟨hcount, hstep⟩ := h k (Nat.lt_succ_self k)
      rw [ih (by omega) fun i hi => h i (by omega)]
      obtain ⟨rest, hrest⟩ : ∃ rest, fuel - k = rest + 1 := ⟨fuel - k - 1, by omega⟩
      rw [hrest, show fuel - (k + 1) = rest by omega]
      conv_lhs => unfold relaLoop
      rw [if_pos hcount, hstep]

theorem relaLoop_of_steps (count : ElfImage → Nat) (step : Nat → ElfImage → Option ElfImage)
    (states : Nat → ElfImage) (hfuel : k ≤ fuel)
    (h : ∀ i < k, i < count (states i) ∧ step i (states i) = some (states (i + 1)))
    (hend : count (states k) ≤ k) :
    relaLoop count step fuel 0 (states 0) = (true, states k) := by
  rw [relaLoop_run hfuel h]
  exact relaLoop_of_count_le hend _

theorem relaLoop_of_none (count : ElfImage → Nat) (step : Nat → ElfImage → Option ElfImage)
    (states : Nat → ElfImage) (hfuel : k < fuel)
    (h : ∀ i < k, i < count (states i) ∧ step i (states i) = some (states (i + 1)))
    (hcount : k < count (states k)) (hnone : step k (states k) = none) :
    relaLoop count step fuel 0 (states 0) = (false, states k) := by
  rw [relaLoop_run (Nat.le_of_lt hfuel) h]
  obtain ⟨rest, hrest⟩ : ∃ rest, fuel - k = rest + 1 := ⟨fuel - k - 1, by omega⟩
  rw [hrest]
  unfold relaLoop
  rw [if_pos hcount, hnone]

variable {patch : Nat → ElfImage → Int × Word} {l : List (Int × Word)}

/-- The patches of a loop in which every entry makes one. -/
def loopPatches (count : ElfImage → Nat) (patch : Nat → ElfImage → Int × Word) :
    Nat → Nat → ElfImage → List (Int × Word)
  | 0, _, _ => []
  | fuel + 1, j, image =>
      if j < count image then
        patch j image :: loopPatches count patch fuel (j + 1) (image.patch (patch j image))
      else []

private theorem relaLoop_eq_patches (fuel j : Nat) (image : ElfImage) :
    relaLoop count (fun j image => some (image.patch (patch j image))) fuel j image =
      (true, image.patches (loopPatches count patch fuel j image)) := by
  induction fuel generalizing j image with
  | zero => rfl
  | succ fuel ih =>
      unfold relaLoop loopPatches
      split_ifs with hcount
      · exact ih (j + 1) (image.patch (patch j image))
      · rfl

theorem take_succ_eq {i : Nat} (hi : i < l.length) : l.take (i + 1) = l.take i ++ [l[i]] := by
  rw [List.take_add_one, List.getElem?_eq_getElem hi]
  rfl

private theorem patches_take_succ {i : Nat} (hi : i < l.length) :
    image.patches (l.take (i + 1)) = (image.patches (l.take i)).patch l[i] := by
  rw [take_succ_eq hi, ElfImage.patches_append]
  rfl

/-- The loop makes the first `k` patches of `l` as long as the count in memory allows it. -/
theorem loopPatches_run (hpatch : ∀ i (hi : i < l.length),
      patch i (image.patches (l.take i)) = l[i]) (hfuel : k ≤ fuel) (hk : k ≤ l.length)
    (hcount : ∀ i < k, i < count (image.patches (l.take i))) :
    loopPatches count patch fuel 0 image =
      l.take k ++ loopPatches count patch (fuel - k) k (image.patches (l.take k)) := by
  induction k with
  | zero => rfl
  | succ k ih =>
      rw [ih (by omega) (by omega) fun i hi => hcount i (by omega)]
      obtain ⟨rest, hrest⟩ : ∃ rest, fuel - k = rest + 1 := ⟨fuel - k - 1, by omega⟩
      rw [hrest, show fuel - (k + 1) = rest by omega]
      conv_lhs => unfold loopPatches
      rw [if_pos (hcount k (by omega)), hpatch k hk, ← patches_take_succ hk, List.append_cons,
        ← take_succ_eq hk]

theorem loopPatches_eq (hpatch : ∀ i (hi : i < l.length),
      patch i (image.patches (l.take i)) = l[i]) (hfuel : l.length < fuel)
    (hcount : ∀ i < l.length, i < count (image.patches (l.take i)))
    (hend : count (image.patches l) ≤ l.length) : loopPatches count patch fuel 0 image = l := by
  rw [loopPatches_run hpatch (Nat.le_of_lt hfuel) le_rfl hcount, List.take_length]
  obtain ⟨rest, hrest⟩ : ∃ rest, fuel - l.length = rest + 1 := ⟨fuel - l.length - 1, by omega⟩
  rw [hrest, loopPatches, if_neg (by omega), List.append_nil]

theorem length_loopPatches_iff (count : ElfImage → Nat) (hpatch : ∀ i (hi : i < l.length),
      patch i (image.patches (l.take i)) = l[i]) (hfuel : l.length < fuel) :
    (loopPatches count patch fuel 0 image).length = l.length ↔
      (∀ i < l.length, i < count (image.patches (l.take i))) ∧
        count (image.patches l) ≤ l.length := by
  constructor
  · intro hlength
    have hcount : ∀ i < l.length, i < count (image.patches (l.take i)) := by
      intro i
      induction i using Nat.strong_induction_on with
      | _ i ih =>
          intro hi
          by_contra hstop
          rw [loopPatches_run hpatch (by omega) (Nat.le_of_lt hi) fun j hj =>
            ih j hj (by omega)] at hlength
          obtain ⟨rest, hrest⟩ : ∃ rest, fuel - i = rest + 1 := ⟨fuel - i - 1, by omega⟩
          rw [hrest, loopPatches, if_neg hstop, List.append_nil, List.length_take] at hlength
          omega
    refine ⟨hcount, ?_⟩
    by_contra hmore
    rw [loopPatches_run hpatch (Nat.le_of_lt hfuel) le_rfl hcount, List.take_length] at hlength
    obtain ⟨rest, hrest⟩ : ∃ rest, fuel - l.length = rest + 1 :=
      ⟨fuel - l.length - 1, by omega⟩
    rw [hrest, loopPatches, if_pos (by omega), List.length_append, List.length_cons] at hlength
    omega
  · rintro ⟨hcount, hend⟩
    rw [loopPatches_eq hpatch hfuel hcount hend]

end Loops

def relaDynPatch (base disp dynsym rela : Word) (j : Nat) (image : ElfImage) : Int × Word :=
  let entry := image.rela rela j
  ((entry.rOffset - disp).toInt, base + image.stValue dynsym entry.dynsymIdx + entry.rAddend)

private theorem relaDynStep_eq (base disp dynsym rela : Word) :
    relaDynStep base disp dynsym rela =
      fun j image => some (image.patch (relaDynPatch base disp dynsym rela j image)) := rfl

/-! ## Symbols -/

def dynsymStart (image : ElfImage) : Word := (Sections.find image).dynsym.elim 0 Section.start

def symName (image : ElfImage) (dynsym dynstr : Section) (idx : Int) :
    Except LoaderFault (List (BitVec 8)) :=
  elfStrcpy (fun i => image.byte (dynstr.start.toNat + (image.stName dynsym.start idx).toNat + i))
    128

theorem dynLinkEntry_eq_ok {image : ElfImage} {dynsym dynstr : Option Section} {j : Nat}
    {idx : Int} {addr : Word} {e : DynLinkEntry}
    (h : dynLinkEntry image dynsym dynstr j idx addr = .ok e) :
    ∃ sym str, dynsym = some sym ∧ dynstr = some str ∧ symName image sym str idx = .ok e.name ∧
      e.addr = addr := by
  unfold dynLinkEntry at h
  split_ifs at h with hfull
  cases dynsym with
  | none => cases h
  | some sym =>
      cases dynstr with
      | none => cases h
      | some str =>
          refine ⟨sym, str, rfl, rfl, ?_⟩
          change (symName image sym str idx).map _ = _ at h
          cases hname : symName image sym str idx with
          | error fault =>
              rw [hname] at h
              cases h
          | ok name =>
              rw [hname] at h
              cases h
              exact ⟨rfl, rfl⟩

/-! ## What is left of a load that returns 0 -/

def linkPatches (base : Word) (dynlinktbl temptbl : DynLinkTable) : List (Int × Word) :=
  temptbl.map fun e => ((e.addr - base).toInt, findFunctionFromSo dynlinktbl e.name)

private theorem linkFunctions_eq (base : Word) (dynlinktbl temptbl : DynLinkTable)
    (image : ElfImage) :
    linkFunctions base dynlinktbl temptbl image =
      image.patches (linkPatches base dynlinktbl temptbl) := by
  unfold linkFunctions ElfImage.patches linkPatches
  rw [List.foldl_map]
  rfl

def dynPatches (base : Word) (image : ElfImage) (dynlinktbl temptbl : DynLinkTable)
    (reladyn : Section) : List (Int × Word) :=
  loopPatches (fun image => (image.entrycnt reladyn.shdr).toNat)
    (relaDynPatch base 0 (dynsymStart image) reladyn.start) COUNT_MAX 0
    (((image.phdr 3).secondLoad image).patches (linkPatches base dynlinktbl temptbl))

theorem image_of_result_zero {base : Word} {image : ElfImage} {stackSize : Int} {stackAddr : Word}
    {dynlinktbl : DynLinkTable} {r : ExecLoad}
    (hr : loadDynamicExec base image stackSize stackAddr dynlinktbl = .ok r) (hzero : r.result = 0)
      :
    dynamicExecHeaders image ≠ none ∧ ∃ relaplt temptbl reladyn,
      (Sections.find image).relaplt = some relaplt ∧
      collected base image relaplt = .ok (some temptbl) ∧
      (Sections.find image).reladyn = some reladyn ∧
      r.image = ((image.phdr 3).secondLoad image).patches (linkPatches base dynlinktbl temptbl ++
        dynPatches base image dynlinktbl temptbl reladyn) := by
  obtain ⟨hheaders, relaplt, temptbl, reladyn, hrelaplt, hcollected, hreladyn, rfl⟩ :=
    loaded_of_result_zero hr hzero
  refine ⟨hheaders, relaplt, temptbl, reladyn, hrelaplt, hcollected, hreladyn, ?_⟩
  rw [relaDynStep_eq, linkFunctions_eq, relaLoop_eq_patches, ElfImage.patches_append]
  rfl

section Shared

variable {base : Word} {image : ElfImage} {dynlinktbl : DynLinkTable} {lib : SharedLoad}

theorem shared_of_result_zero (h : loadSharedLibrary base image dynlinktbl = .ok lib)
    (hzero : lib.result = 0) :
    ∃ p dynsym reladyn relaplt, sharedLibraryHeaders image = some p ∧
      (Sections.find image).dynsym = some dynsym ∧ (Sections.find image).reladyn = some reladyn ∧
      (Sections.find image).relaplt = some relaplt ∧
      (base + dynsym.start) &&& (base + reladyn.start) &&& (base + relaplt.start) ≠ 0 ∧
      fillTable (fun j => (dynLinkEntry image (some dynsym) (Sections.find image).dynstr j j
          (base + image.stValue dynsym.start j)).map some)
        (image.entrycnt dynsym.shdr).toInt.toNat 0 = .ok (some lib.dynlinktbl) ∧
      relocateShared base p dynsym reladyn relaplt image = (0, lib.image) := by
  cases hheaders : sharedLibraryHeaders image with
  | none =>
      unfold loadSharedLibrary at h
      rw [hheaders] at h
      cases h
      exact absurd (show (-1 : Int) = 0 from hzero) (by decide)
  | some p =>
      rcases found_or_none image with ⟨dynsym, reladyn, relaplt, hsym, hdyn, hplt⟩ | hnone
      · refine ⟨p, dynsym, reladyn, relaplt, rfl, hsym, hdyn, hplt, ?_⟩
        by_cases hand : (base + dynsym.start) &&& (base + reladyn.start) &&&
            (base + relaplt.start) = 0
        · cases h.symm.trans (loadSharedLibrary_of_zero hheaders hsym hdyn hplt hand)
          exact absurd (show (-1 : Int) = 0 from hzero) (by decide)
        · rw [loadSharedLibrary_of_ne_zero hheaders hsym hdyn hplt _ hand] at h
          refine ⟨hand, ?_⟩
          cases htable : fillTable (fun j => (dynLinkEntry image (some dynsym)
              (Sections.find image).dynstr j j (base + image.stValue dynsym.start j)).map some)
              (image.entrycnt dynsym.shdr).toInt.toNat 0 with
          | error fault =>
              rw [htable] at h
              cases h
          | ok table =>
              rw [htable] at h
              cases table with
              | none =>
                  obtain ⟨k, -, -, -, hnone⟩ := fillTable_eq_none.mp htable
                  cases hentry : dynLinkEntry image (some dynsym) (Sections.find image).dynstr k k
                      (base + image.stValue dynsym.start k) <;> rw [hentry] at hnone <;> cases hnone
              | some table =>
                  cases h
                  exact ⟨rfl, Prod.ext hzero rfl⟩
      · cases h.symm.trans (loadSharedLibrary_lacking hheaders (lacking_of_none hnone))
        exact absurd (show (-1 : Int) = 0 from hzero) (by decide)

end Shared

end PComputer.PseudOS
