import PComputer.Kernel.Imports

/-!
# `elf.c`: the relocations of a program

The loop over `rela.dyn` runs after the second segment has been moved.  It reads the
entries from memory, and before each one the size of the table from the section header,
wherever that is; the address of every symbol is an offset from the program's start.
-/

namespace PComputer.PseudOS

open PComputer.Foundation

structure Program (base : Word) (image : ElfImage) where
  dynsym : Section
  dynstr : Section
  reladyn : Section
  relaplt : Section
  temptbl : DynLinkTable
  found : Sections.find image = ⟨some dynsym, some dynstr, some reladyn, some relaplt⟩
  links : collected base image relaplt = .ok (some temptbl)

namespace Program

variable {base : Word} {image : ElfImage} (P : Program base image) (dynlinktbl : DynLinkTable)

/-! ## The entries of the file -/

def count : Nat := (image.entrycnt P.reladyn.shdr).toNat

def symCount : Nat := (image.entrycnt P.dynsym.shdr).toNat

def entry (j : Nat) : Elf32Rela := image.rela P.reladyn.start j

def target (j : Nat) : Int := (P.entry j).rOffset.toInt

def DefinedHere (j : Nat) : Prop := image.stShndx P.dynsym.start (P.entry j).dynsymIdx ≠ 0

def ownAddress (j : Nat) : Word := base + image.stValue P.dynsym.start (P.entry j).dynsymIdx

/-- `S`: the program's own symbol, or one of the library with the same name. -/
def Address (j : Nat) (s : Word) : Prop :=
  P.DefinedHere j ∧ s = P.ownAddress j ∨
    ¬P.DefinedHere j ∧ ∃ e ∈ dynlinktbl,
      symName image P.dynsym P.dynstr (P.entry j).dynsymIdx = .ok e.name ∧ s = e.addr

def Right (j : Nat) (v : Word) : Prop :=
  ((P.entry j).type = Elf32Rela.R_RISCV_RELATIVE → v = base + (P.entry j).rAddend) ∧
    ((P.entry j).type = Elf32Rela.R_RISCV_32 →
      ∃ s, P.Address dynlinktbl j s ∧ v = s + (P.entry j).rAddend)

def TableByte (x : Int) : Prop :=
  P.reladyn.start.toNat ≤ x ∧ x < P.reladyn.start.toNat + 12 * P.count ∨
    P.dynsym.start.toNat ≤ x ∧ x < P.dynsym.start.toNat + 16 * P.symCount

def TargetByte (x : Int) : Prop :=
  (∃ j < P.count, P.target j ≤ x ∧ x < P.target j + 4) ∨
    ∃ j < pltCount image P.relaplt, (image.rela P.relaplt.start j).rOffset.toInt ≤ x ∧
      x < (image.rela P.relaplt.start j).rOffset.toInt + 4

/--
A position-independent executable: both tables lie before the second segment and no
relocation patches them, the entries are of the two types, with a symbol for the one and
without for the other, and their targets are apart.
-/
structure WellFormed : Prop where
  inMemory : (image.phdr 3).InMemory
  below : ∀ x, P.TableByte x → x < 4 * ((image.phdr 3).pVaddr.toNat / 4 : Nat)
  untouched : ∀ x, P.TableByte x → ¬P.TargetByte x
  symbol : ∀ j < P.count, 0 ≤ (P.entry j).dynsymIdx ∧ (P.entry j).dynsymIdx < P.symCount
  types : ∀ j < P.count,
    (P.entry j).type = Elf32Rela.R_RISCV_RELATIVE ∧ (P.entry j).dynsymIdx = 0 ∨
      (P.entry j).type = Elf32Rela.R_RISCV_32
  nullSymbol : image.stValue P.dynsym.start 0 = 0
  apart : ∀ i < P.count, ∀ j < P.count, i < j →
    P.target i + 4 ≤ P.target j ∨ P.target j + 4 ≤ P.target i

/-! ## What the loops do -/

def patches : List (Int × Word) :=
  (List.range P.count).map fun j => (P.target j, P.ownAddress j + (P.entry j).rAddend)

def linked : List (Int × Word) := linkPatches base dynlinktbl P.temptbl

def relocated : List (Int × Word) := dynPatches base image dynlinktbl P.temptbl P.reladyn

/--
After the call every entry has been applied, once and with the right value, and the loops
have changed nothing but the targets.
-/
structure Relocated (r : ExecLoad) : Prop where
  length : (P.relocated dynlinktbl).length = P.count
  once : ∀ j (hj : j < (P.relocated dynlinktbl).length),
    (P.relocated dynlinktbl)[j].1 = P.target j ∧
      P.Right dynlinktbl j (P.relocated dynlinktbl)[j].2
  word : ∀ j < P.count, P.Right dynlinktbl j (r.image.word (P.target j))
  kept : ∀ x, ¬P.TargetByte x → r.image.byte x = ((image.phdr 3).secondLoad image).byte x

/-- The number of entries that memory shows after the move and the first `j` relocations. -/
def countAfter (j : Nat) : Nat :=
  (ElfImage.entrycnt (((image.phdr 3).secondLoad image).patches
    (P.linked dynlinktbl ++ P.patches.take j)) P.reladyn.shdr).toNat

/--
The symbol of each `R_RISCV_32` entry is where the program's own value for it says, and
the count stays that of the file as long as it is read.
-/
structure Applies : Prop where
  symbols : ∀ j < P.count, (P.entry j).type = Elf32Rela.R_RISCV_32 →
    P.Address dynlinktbl j (P.ownAddress j)
  runs : ∀ j < P.count, j < P.countAfter dynlinktbl j
  ends : P.countAfter dynlinktbl P.count ≤ P.count

/-! ## The tables while the loop runs -/

section Run

variable {P} {dynlinktbl}

private theorem length_patches : P.patches.length = P.count := by
  unfold patches
  rw [List.length_map, List.length_range]

private theorem getElem_patches {j : Nat} (hj : j < P.patches.length) :
    P.patches[j] = (P.target j, P.ownAddress j + (P.entry j).rAddend) :=
  (List.getElem_map _).trans (by rw [List.getElem_range])

private theorem mem_linked {s : Int × Word} (hs : s ∈ P.linked dynlinktbl) :
    ∃ j < pltCount image P.relaplt, s.1 = (image.rela P.relaplt.start j).rOffset.toInt := by
  obtain ⟨e, he, rfl⟩ := List.mem_map.mp hs
  obtain ⟨j, hj, rfl⟩ := List.getElem_of_mem he
  obtain ⟨hlength, hentries⟩ := collected_entry P.links
  refine ⟨j, hlength ▸ hj, ?_⟩
  rw [(hentries j hj).2.1, add_sub_cancel_left]

private theorem not_covers_of_not_targetByte (dynlinktbl : DynLinkTable) {x : Int}
    (hx : ¬P.TargetByte x) :
    ∀ s ∈ P.linked dynlinktbl ++ P.patches, ¬Covers 4 s x := by
  rintro s hs ⟨hlow, hhigh⟩
  rcases List.mem_append.mp hs with hlink | hpatch
  · obtain ⟨j, hj, htarget⟩ := mem_linked hlink
    exact hx (Or.inr ⟨j, hj, by omega, by omega⟩)
  · obtain ⟨j, hj, rfl⟩ := List.getElem_of_mem hpatch
    rw [getElem_patches hj] at hlow hhigh
    exact hx (Or.inl ⟨j, length_patches ▸ hj, hlow, hhigh⟩)

private theorem byte_secondLoad_of_lt {p : Elf32Phdr} (h : p.InMemory) {x : Int}
    (hx : x < 4 * (p.pVaddr.toNat / 4 : Nat)) : (p.secondLoad image).byte x = image.byte x := by
  have hsize := BitVec.le_def.mp h.1
  have horigin : p.origin x = some x := by
    rw [Elf32Phdr.origin_eq_some]
    unfold Elf32Phdr.Cleared
    rcases Elf32Phdr.sourceWord_cases (p := p) (x / 4) with ⟨⟨hlow, -⟩, -⟩ | ⟨-, hsource⟩
    · omega
    · rw [hsource]
      omega
  rw [Elf32Phdr.byte_secondLoad h, horigin, Option.elim_some]

variable (hwell : P.WellFormed)

include hwell

private theorem WellFormed.byte_below {x : Int}
    (hbelow : x < 4 * ((image.phdr 3).pVaddr.toNat / 4 : Nat))
    (hx : ¬P.TargetByte x) (n : Nat) :
    (((image.phdr 3).secondLoad image).patches (P.linked dynlinktbl ++ P.patches.take n)).byte x =
      image.byte x := by
  rw [ElfImage.byte_patches, puts_of_not_covers, byte_secondLoad_of_lt hwell.inMemory hbelow]
  intro s hs
  refine not_covers_of_not_targetByte dynlinktbl hx s ?_
  rcases List.mem_append.mp hs with hlink | hpatch
  · exact List.mem_append_left _ hlink
  · exact List.mem_append_right _ (List.mem_of_mem_take hpatch)

private theorem WellFormed.byte_table {x : Int} (hx : P.TableByte x) (n : Nat) :
    (((image.phdr 3).secondLoad image).patches (P.linked dynlinktbl ++ P.patches.take n)).byte x =
      image.byte x :=
  hwell.byte_below (hwell.below x hx) (hwell.untouched x hx) n

private theorem WellFormed.relaDynPatch_eq (dynlinktbl : DynLinkTable) (j : Nat)
    (hj : j < P.patches.length) :
    relaDynPatch base 0 (dynsymStart image) P.reladyn.start j
      ((((image.phdr 3).secondLoad image).patches (P.linked dynlinktbl)).patches
        (P.patches.take j)) = P.patches[j] := by
  rw [← ElfImage.patches_append]
  have hcount : j < P.count := length_patches ▸ hj
  obtain ⟨hidx, hsym⟩ := hwell.symbol j hcount
  have hrela : (((image.phdr 3).secondLoad image).patches
      (P.linked dynlinktbl ++ P.patches.take j)).rela P.reladyn.start j = P.entry j :=
    ElfImage.rela_congr fun y hlow hhigh =>
      hwell.byte_table (Or.inl ⟨by omega, by omega⟩) j
  have hstart : dynsymStart image = P.dynsym.start := by
    unfold dynsymStart
    rw [P.found]
    rfl
  have hvalue : (((image.phdr 3).secondLoad image).patches
      (P.linked dynlinktbl ++ P.patches.take j)).stValue P.dynsym.start (P.entry j).dynsymIdx =
        image.stValue P.dynsym.start (P.entry j).dynsymIdx :=
    ElfImage.stValue_congr fun y hlow hhigh =>
      hwell.byte_table (Or.inr ⟨by omega, by omega⟩) j
  unfold relaDynPatch
  rw [hrela, hstart, getElem_patches hj]
  simp only [hvalue, sub_zero]
  rfl

private theorem WellFormed.length_relocated_iff :
    (P.relocated dynlinktbl).length = P.count ↔
      (∀ j < P.count, j < P.countAfter dynlinktbl j) ∧
        P.countAfter dynlinktbl P.count ≤ P.count := by
  have hlength := length_patches (P := P)
  have hfuel : P.patches.length < COUNT_MAX := hlength ▸ (image.entrycnt P.reladyn.shdr).isLt
  have hiff := length_loopPatches_iff (fun image => (image.entrycnt P.reladyn.shdr).toNat)
    (hwell.relaDynPatch_eq dynlinktbl) hfuel
  simp only [← ElfImage.patches_append] at hiff
  rw [hlength] at hiff
  unfold countAfter
  rw [← hlength, List.take_length, hlength]
  rw [← hiff]
  unfold relocated dynPatches linked
  exact Iff.rfl

private theorem WellFormed.relocated_eq (h : (P.relocated dynlinktbl).length = P.count) :
    P.relocated dynlinktbl = P.patches := by
  have hlength := length_patches (P := P)
  have hfuel : P.patches.length < COUNT_MAX := hlength ▸ (image.entrycnt P.reladyn.shdr).isLt
  obtain ⟨hruns, hends⟩ := hwell.length_relocated_iff.mp h
  unfold countAfter at hruns hends
  rw [← hlength, List.take_length] at hends
  refine loopPatches_eq (hwell.relaDynPatch_eq dynlinktbl) hfuel ?_ ?_
  · intro i hi
    rw [← ElfImage.patches_append]
    exact hruns i (hlength ▸ hi)
  · rw [← ElfImage.patches_append]
    exact hends

private theorem WellFormed.right_iff {j : Nat} (hj : j < P.count) :
    P.Right dynlinktbl j (P.ownAddress j + (P.entry j).rAddend) ↔
      ((P.entry j).type = Elf32Rela.R_RISCV_32 → P.Address dynlinktbl j (P.ownAddress j)) := by
  unfold Right
  constructor
  · rintro ⟨-, hsymbol⟩ htype
    obtain ⟨s, hs, hvalue⟩ := hsymbol htype
    rw [add_right_cancel hvalue]
    exact hs
  · intro hsymbol
    refine ⟨fun hrelative => ?_, fun htype => ⟨_, hsymbol htype, rfl⟩⟩
    rcases hwell.types j hj with ⟨-, hidx⟩ | h32
    · unfold ownAddress
      rw [hidx, hwell.nullSymbol, add_zero]
    · rw [hrelative] at h32
      exact absurd h32 (by decide)

end Run

/-! ## Complete and right -/

variable {P} {dynlinktbl}

private theorem Relocated.applies {r : ExecLoad} (h : P.Relocated dynlinktbl r)
    (hwell : P.WellFormed) :
    P.Applies dynlinktbl := by
  obtain ⟨hruns, hends⟩ := hwell.length_relocated_iff.mp h.length
  refine ⟨fun j hj => ?_, hruns, hends⟩
  have hright := (h.once j (h.length ▸ hj)).2
  have hj' : j < (P.relocated dynlinktbl).length := h.length ▸ hj
  have hpatch : (P.relocated dynlinktbl)[j] =
      (P.target j, P.ownAddress j + (P.entry j).rAddend) := by
    rw [← getElem_patches (length_patches ▸ hj)]
    congr 1
    exact hwell.relocated_eq h.length
  rw [hpatch] at hright
  exact (hwell.right_iff hj).mp hright

private theorem WellFormed.pairwise_patches (hwell : P.WellFormed) : P.patches.Pairwise Apart := by
  rw [List.pairwise_iff_getElem]
  intro i j hi hj hless
  rw [getElem_patches hi, getElem_patches hj]
  exact hwell.apart i (length_patches ▸ hi) j (length_patches ▸ hj) hless

/-- The memory after the call, if the loop makes the patches of the file. -/
theorem image_of_relocated_eq {stackSize : Int} {stackAddr : Word} {r : ExecLoad}
    (h : loadDynamicExec base image stackSize stackAddr dynlinktbl = .ok r) (hzero : r.result = 0)
    (heq : P.relocated dynlinktbl = P.patches) :
    r.image = ((image.phdr 3).secondLoad image).patches (P.linked dynlinktbl ++ P.patches) := by
  obtain ⟨-, relaplt, temptbl, reladyn, hrelaplt, hcollected, hreladyn, himage⟩ :=
    image_of_result_zero h hzero
  rw [P.found] at hrelaplt hreladyn
  obtain rfl := Option.some.inj hrelaplt
  obtain rfl := Option.some.inj hreladyn
  obtain rfl := Option.some.inj (Except.ok.inj (P.links.symm.trans hcollected))
  rw [himage, ← heq]
  rfl

private theorem Applies.relocated {stackSize : Int} {stackAddr : Word} {r : ExecLoad}
    (happlies : P.Applies dynlinktbl) (hwell : P.WellFormed)
    (h : loadDynamicExec base image stackSize stackAddr dynlinktbl = .ok r)
    (hzero : r.result = 0) : P.Relocated dynlinktbl r := by
  have hlength := hwell.length_relocated_iff.mpr ⟨happlies.runs, happlies.ends⟩
  have heq := hwell.relocated_eq hlength
  have himage := image_of_relocated_eq h hzero heq
  have hright (j : Nat) (hj : j < P.count) :
      P.Right dynlinktbl j (P.ownAddress j + (P.entry j).rAddend) :=
    (hwell.right_iff hj).mpr (happlies.symbols j hj)
  refine ⟨hlength, fun j hj => ?_, fun j hj => ?_, fun x hx => ?_⟩
  · have hpatch : (P.relocated dynlinktbl)[j] =
        (P.target j, P.ownAddress j + (P.entry j).rAddend) := by
      rw [← getElem_patches (length_patches ▸ (hlength ▸ hj : j < P.count))]
      congr 1
    rw [hpatch]
    exact ⟨rfl, hright j (hlength ▸ hj)⟩
  · have hpatches : j < P.patches.length := length_patches ▸ hj
    have hword := word_patches_getElem
      (((image.phdr 3).secondLoad image).patches (P.linked dynlinktbl)) hpatches
      (apart_of_mem_drop hwell.pairwise_patches hpatches)
    rw [← ElfImage.patches_append, ← himage, getElem_patches hpatches] at hword
    rw [hword]
    exact hright j hj
  · rw [himage, ElfImage.byte_patches,
      puts_of_not_covers (not_covers_of_not_targetByte dynlinktbl hx)]

/--
For every well-formed program that is accepted: the relocation is complete and right just
if the symbol of each `R_RISCV_32` entry is where the program's own value for it says, and
the count of entries that stands in memory stays that of the file while it is read.
-/
theorem relocated_iff {stackSize : Int} {stackAddr : Word} {r : ExecLoad} (hwell : P.WellFormed)
    (h : loadDynamicExec base image stackSize stackAddr dynlinktbl = .ok r)
    (hzero : r.result = 0) : P.Relocated dynlinktbl r ↔ P.Applies dynlinktbl :=
  ⟨fun hrelocated => hrelocated.applies hwell, fun happlies => happlies.relocated hwell h hzero⟩

/-- A section header before the second segment that no relocation patches keeps its count. -/
theorem WellFormed.countAfter_of_header (hwell : P.WellFormed)
    (hheader : ∀ x, P.reladyn.shdr + 20 ≤ x ∧ x < P.reladyn.shdr + 24 ∨
        P.reladyn.shdr + 36 ≤ x ∧ x < P.reladyn.shdr + 40 →
      x < 4 * ((image.phdr 3).pVaddr.toNat / 4 : Nat) ∧ ¬P.TargetByte x) (n : Nat) :
    P.countAfter dynlinktbl n = P.count := by
  unfold countAfter count
  rw [ElfImage.entrycnt_congr fun y hy => ?_]
  obtain ⟨hbelow, huntouched⟩ := hheader y hy
  exact hwell.byte_below hbelow huntouched n

/-! ### The concrete program -/

def ofSomeProgram : Program 0x20110000 someProgram where
  dynsym := ⟨256, 0x280⟩
  dynstr := ⟨296, 0x2c0⟩
  reladyn := ⟨336, 0x2d0⟩
  relaplt := ⟨376, 0x2e0⟩
  temptbl := [⟨0x20111404, [0x66]⟩]
  found := by decide +kernel
  links := by decide +kernel

private theorem wellFormed_ofSomeProgram : ofSomeProgram.WellFormed := by
  have hcount : ofSomeProgram.count = 1 := by decide +kernel
  have hsyms : ofSomeProgram.symCount = 2 := by decide +kernel
  have hplt : pltCount someProgram ofSomeProgram.relaplt = 1 := by decide +kernel
  have htarget : ofSomeProgram.target 0 = 0x1400 := by decide +kernel
  have hslot : (someProgram.rela ofSomeProgram.relaplt.start (0 : Nat)).rOffset.toInt = 0x1404 := by
    decide +kernel
  have hvaddr : (someProgram.phdr 3).pVaddr = 0x1400 := by decide +kernel
  have hrela : ofSomeProgram.reladyn.start = 0x2d0 := rfl
  have hsym : ofSomeProgram.dynsym.start = 0x280 := rfl
  have hbelow (x : Int) (hx : ofSomeProgram.TableByte x) : x < 0x300 := by
    unfold TableByte at hx
    rw [hcount, hsyms, hrela, hsym] at hx
    rcases hx with ⟨-, hx⟩ | ⟨-, hx⟩
    · change x < 0x2d0 + 12 * 1 at hx
      omega
    · change x < 0x280 + 16 * 2 at hx
      omega
  refine ⟨⟨by decide +kernel, by decide +kernel, by decide +kernel⟩, fun x hx => ?_,
    fun x hx htargets => ?_, fun j hj => ?_, fun j hj => ?_, by decide +kernel,
    fun i hi j hj hless => ?_⟩
  · have hlow := hbelow x hx
    rw [hvaddr]
    change x < 4 * ((0x1400 / 4 : Nat) : Int)
    omega
  · have hlow := hbelow x hx
    rcases htargets with ⟨j, hj, hstart, -⟩ | ⟨j, hj, hstart, -⟩
    · obtain rfl : j = 0 := by omega
      omega
    · obtain rfl : j = 0 := by omega
      omega
  · obtain rfl : j = 0 := by omega
    exact ⟨by decide +kernel, by decide +kernel⟩
  · obtain rfl : j = 0 := by omega
    exact Or.inr (by decide +kernel)
  · omega

theorem relocated_ofSomeProgram :
    ∃ r, loadDynamicExec 0x20110000 someProgram 0x1000 0 [⟨0x20700100, [0x66]⟩] = .ok r ∧
      (ofSomeProgram.Relocated [⟨0x20700100, [0x66]⟩] r ↔
        ofSomeProgram.Applies [⟨0x20700100, [0x66]⟩]) := by
  obtain ⟨r, h, hzero⟩ := accepted_someProgram
  exact ⟨r, h, relocated_iff wellFormed_ofSomeProgram h hzero⟩

/-- The datum of the library gets an address at the start of the program. -/
theorem not_relocated_ofSomeProgram :
    ofSomeProgram.WellFormed ∧
      ∃ r, loadDynamicExec 0x20110000 someProgram 0x1000 0 [⟨0x20700100, [0x66]⟩] = .ok r ∧
        r.result = 0 ∧ ¬ofSomeProgram.Relocated [⟨0x20700100, [0x66]⟩] r := by
  obtain ⟨r, h, hzero⟩ := accepted_someProgram
  refine ⟨wellFormed_ofSomeProgram, r, h, hzero, fun hrelocated => ?_⟩
  have hsymbol := (hrelocated.applies wellFormed_ofSomeProgram).symbols 0 (by decide +kernel)
    (by decide +kernel)
  have hown : ofSomeProgram.ownAddress 0 = 0x20110000 := by decide +kernel
  have hundefined : ¬ofSomeProgram.DefinedHere 0 := by
    unfold DefinedHere
    decide +kernel
  rcases hsymbol with ⟨hdefined, -⟩ | ⟨-, e, he, -, haddr⟩
  · exact hundefined hdefined
  · rw [List.mem_singleton] at he
    rw [hown, he] at haddr
    exact absurd haddr (by decide)

end Program

end PComputer.PseudOS
