import PComputer.Kernel.Patches

/-!
# `elf.c`: the functions that a program imports

The table of the library's symbols is searched for the first entry of a name, whether the
library defines that symbol or only refers to it, and the -1 of a search that fails is
stored like an address.
-/

namespace PComputer.PseudOS

open PComputer.Foundation

/-! ## The symbols of the library -/

section Library

variable (image : ElfImage) (name : List (BitVec 8))

def Named (i : Nat) : Prop :=
  ∃ dynsym dynstr, (Sections.find image).dynsym = some dynsym ∧
    (Sections.find image).dynstr = some dynstr ∧
    i < (image.entrycnt dynsym.shdr).toInt.toNat ∧ symName image dynsym dynstr i = .ok name

/-- The library, loaded at `base`, defines a symbol of this name there. -/
def Defines (base addr : Word) : Prop :=
  ∃ i, Named image name i ∧ image.stShndx (dynsymStart image) i ≠ 0 ∧
    addr = base + image.stValue (dynsymStart image) i

/-- The first symbol of the name is a defined one, or has the value of one. -/
def FirstDefined : Prop :=
  ∃ i, Named image name i ∧ (∀ j < i, ¬Named image name j) ∧
    ∃ i', Named image name i' ∧ image.stShndx (dynsymStart image) i' ≠ 0 ∧
      image.stValue (dynsymStart image) i' = image.stValue (dynsymStart image) i

end Library

section Table

variable {base : Word} {image : ElfImage} {dynlinktbl : DynLinkTable} {lib : SharedLoad}
  {name : List (BitVec 8)}

private theorem table_entry (h : loadSharedLibrary base image dynlinktbl = .ok lib)
    (hzero : lib.result = 0)
    {i : Nat} (hi : i < lib.dynlinktbl.length) :
    Named image lib.dynlinktbl[i].name i ∧
      lib.dynlinktbl[i].addr = base + image.stValue (dynsymStart image) i := by
  obtain ⟨p, dynsym, reladyn, relaplt, -, hsym, -, -, -, htable, -⟩ := shared_of_result_zero h hzero
  obtain ⟨hlength, hentries⟩ := fillTable_eq_some htable
  have hentry := hentries i (hlength ▸ hi)
  rw [Nat.zero_add] at hentry
  cases hdyn : dynLinkEntry image (some dynsym) (Sections.find image).dynstr i i
      (base + image.stValue dynsym.start i) with
  | error fault =>
      rw [hdyn] at hentry
      cases hentry
  | ok e =>
      rw [hdyn] at hentry
      obtain ⟨sym, str, hsome, hstr, hname, haddr⟩ := dynLinkEntry_eq_ok hdyn
      cases hsome
      have hsame : e = lib.dynlinktbl[i] := Option.some.inj (Except.ok.inj hentry)
      rw [← hsame]
      refine ⟨⟨dynsym, str, hsym, hstr, hlength ▸ hi, hname⟩, ?_⟩
      unfold dynsymStart
      rw [haddr, hsym]
      rfl

private theorem named_iff (h : loadSharedLibrary base image dynlinktbl = .ok lib)
    (hzero : lib.result = 0)
    {i : Nat} :
    Named image name i ↔ ∃ hi : i < lib.dynlinktbl.length, lib.dynlinktbl[i].name = name := by
  constructor
  · rintro ⟨dynsym, dynstr, hsym, hstr, hi, hname⟩
    obtain ⟨p, dynsym', reladyn, relaplt, -, hsym', -, -, -, htable, -⟩ :=
      shared_of_result_zero h hzero
    obtain rfl := Option.some.inj (hsym.symm.trans hsym')
    obtain ⟨hlength, -⟩ := fillTable_eq_some htable
    refine ⟨hlength ▸ hi, ?_⟩
    obtain ⟨⟨dynsym', dynstr', hsym', hstr', -, hname'⟩, -⟩ := table_entry h hzero (hlength ▸ hi)
    obtain rfl := Option.some.inj (hsym.symm.trans hsym')
    obtain rfl := Option.some.inj (hstr.symm.trans hstr')
    exact Except.ok.inj (hname'.symm.trans hname)
  · rintro ⟨hi, rfl⟩
    exact (table_entry h hzero hi).1

private theorem defines_findFunctionFromSo_iff
    (h : loadSharedLibrary base image dynlinktbl = .ok lib)
    (hzero : lib.result = 0) :
    Defines image name base (findFunctionFromSo lib.dynlinktbl name) ↔ FirstDefined image name := by
  unfold findFunctionFromSo
  cases hfind : lib.dynlinktbl.find? fun e => name == e.name with
  | none =>
      rw [List.find?_eq_none] at hfind
      have hno (i : Nat) : ¬Named image name i := by
        rw [named_iff h hzero]
        rintro ⟨hi, hname⟩
        exact hfind _ (List.getElem_mem hi) (by simp [hname])
      exact ⟨fun ⟨i, hi, _⟩ => absurd hi (hno i), fun ⟨i, hi, _⟩ => absurd hi (hno i)⟩
  | some e =>
      rw [List.find?_eq_some_iff_getElem] at hfind
      obtain ⟨hname, n, hn, rfl, hbefore⟩ := hfind
      have hfirst : Named image name n := (named_iff h hzero).mpr ⟨hn, (beq_iff_eq.mp hname).symm⟩
      have hnone (j : Nat) (hj : j < n) : ¬Named image name j := by
        rw [named_iff h hzero]
        rintro ⟨hlength, hsame⟩
        have hno := hbefore j hj
        simp [hsame] at hno
      have haddr := (table_entry h hzero hn).2
      constructor
      · rintro ⟨i, hi, hdefined, hvalue⟩
        refine ⟨n, hfirst, hnone, i, hi, hdefined, ?_⟩
        exact (add_left_cancel (haddr.symm.trans hvalue)).symm
      · rintro ⟨i, hi, hmin, i', hi', hdefined, hvalue⟩
        have hsame : i = n := by
          rcases Nat.lt_trichotomy i n with hless | heq | hmore
          · exact absurd hi (hnone i hless)
          · exact heq
          · exact absurd hfirst (hmin n hmore)
        refine ⟨i', hi', hdefined, haddr.trans ?_⟩
        rw [hvalue, hsame]

end Table

/-! ## The words of a program -/

def pltCount (image : ElfImage) (relaplt : Section) : Nat :=
  (image.entrycnt relaplt.shdr).toInt.toNat

/-- Entry `j` of `rela.plt` is an `R_RISCV_JUMP_SLOT` at `target` for this name. -/
def Import (image : ElfImage) (j : Nat) (target : Int) (name : List (BitVec 8)) : Prop :=
  ∃ relaplt dynsym dynstr, (Sections.find image).relaplt = some relaplt ∧
    (Sections.find image).dynsym = some dynsym ∧ (Sections.find image).dynstr = some dynstr ∧
    j < pltCount image relaplt ∧ pltType image relaplt j = Elf32Rela.R_RISCV_JUMP_SLOT ∧
    target = (image.rela relaplt.start j).rOffset.toInt ∧
    symName image dynsym dynstr (image.rela relaplt.start j).dynsymIdx = .ok name

def AllJumpSlots (image : ElfImage) : Prop :=
  ∀ relaplt, (Sections.find image).relaplt = some relaplt → ∀ j < pltCount image relaplt,
    pltType image relaplt j = Elf32Rela.R_RISCV_JUMP_SLOT

/-- No other relocation patches the word of an imported function. -/
def SlotsKept (base : Word) (image : ElfImage) (dynlinktbl : DynLinkTable) : Prop :=
  ∀ relaplt temptbl reladyn, (Sections.find image).relaplt = some relaplt →
    collected base image relaplt = .ok (some temptbl) →
    (Sections.find image).reladyn = some reladyn →
      (linkPatches base dynlinktbl temptbl).Pairwise Apart ∧
        ∀ s ∈ linkPatches base dynlinktbl temptbl,
          ∀ t ∈ dynPatches base image dynlinktbl temptbl reladyn, Apart s t

/-- The library at `libBase` is the one that the program of the load `r` was linked with. -/
structure ImportsResolve (libBase : Word) (libImage image : ElfImage) (r : ExecLoad) : Prop where
  resolved : r.result = 0 → ∀ j target name, Import image j target name →
    Defines libImage name libBase (r.image.word target)
  missing : ∀ j target name, Import image j target name →
    (∀ addr, ¬Defines libImage name libBase addr) → r.result = -1

section Program

variable {base : Word} {image : ElfImage} {stackSize : Int} {stackAddr : Word}
  {dynlinktbl : DynLinkTable} {r : ExecLoad} {relaplt : Section} {temptbl : DynLinkTable}
  {j : Nat} {target : Int} {name : List (BitVec 8)}

theorem collected_entry (hcollected : collected base image relaplt = .ok (some temptbl)) :
    temptbl.length = pltCount image relaplt ∧ ∀ i (hi : i < temptbl.length),
      pltType image relaplt i = Elf32Rela.R_RISCV_JUMP_SLOT ∧
      temptbl[i].addr = base + (image.rela relaplt.start i).rOffset ∧
      ∃ dynsym dynstr, (Sections.find image).dynsym = some dynsym ∧
        (Sections.find image).dynstr = some dynstr ∧
        symName image dynsym dynstr (image.rela relaplt.start i).dynsymIdx =
          .ok temptbl[i].name := by
  obtain ⟨hlength, hentries⟩ := fillTable_eq_some hcollected
  refine ⟨hlength, fun i hi => ?_⟩
  have hentry := hentries i (hlength ▸ hi)
  rw [Nat.zero_add] at hentry
  have htype := type_of_tempEntry hentry
  rw [tempEntry_of_type htype] at hentry
  refine ⟨htype, ?_⟩
  cases hdyn : dynLinkEntry image (Sections.find image).dynsym (Sections.find image).dynstr i
      (image.rela relaplt.start i).dynsymIdx (base + (image.rela relaplt.start i).rOffset) with
  | error fault =>
      rw [hdyn] at hentry
      cases hentry
  | ok e =>
      rw [hdyn] at hentry
      have hsame : e = temptbl[i] := Option.some.inj (Except.ok.inj hentry)
      obtain ⟨dynsym, dynstr, hsym, hstr, hname, haddr⟩ := dynLinkEntry_eq_ok hdyn
      rw [← hsame]
      exact ⟨haddr, dynsym, dynstr, hsym, hstr, hname⟩

private theorem import_iff (hrelaplt : (Sections.find image).relaplt = some relaplt)
    (hcollected : collected base image relaplt = .ok (some temptbl)) :
    Import image j target name ↔ ∃ hj : j < temptbl.length, temptbl[j].name = name ∧
      (temptbl[j].addr - base).toInt = target := by
  obtain ⟨hlength, hentries⟩ := collected_entry hcollected
  constructor
  · rintro ⟨relaplt', dynsym, dynstr, hrelaplt', hsym, hstr, hj, -, rfl, hname⟩
    obtain rfl := Option.some.inj (hrelaplt.symm.trans hrelaplt')
    obtain ⟨-, haddr, dynsym', dynstr', hsym', hstr', hname'⟩ := hentries j (hlength ▸ hj)
    obtain rfl := Option.some.inj (hsym.symm.trans hsym')
    obtain rfl := Option.some.inj (hstr.symm.trans hstr')
    refine ⟨hlength ▸ hj, Except.ok.inj (hname'.symm.trans hname), ?_⟩
    rw [haddr, add_sub_cancel_left]
  · rintro ⟨hj, rfl, rfl⟩
    obtain ⟨htype, haddr, dynsym, dynstr, hsym, hstr, hname⟩ := hentries j hj
    refine ⟨relaplt, dynsym, dynstr, hrelaplt, hsym, hstr, hlength ▸ hj, htype, ?_, hname⟩
    rw [haddr, add_sub_cancel_left]

private theorem result_cases
    (h : loadDynamicExec base image stackSize stackAddr dynlinktbl = .ok r) :
    r.result = 0 ∨ r.result = -1 ∧ (dynamicExecHeaders image ≠ none → ¬AllJumpSlots image) := by
  by_cases hheaders : dynamicExecHeaders image = none
  · obtain ⟨r', hresult, -, hr'⟩ :=
      loadDynamicExec_of_none base stackSize stackAddr dynlinktbl hheaders
    cases h.symm.trans hr'
    exact Or.inr ⟨hresult, fun hne => absurd hheaders hne⟩
  cases hrelaplt : (Sections.find image).relaplt with
  | none => cases h.symm.trans (loadDynamicExec_of_no_plt hheaders hrelaplt)
  | some relaplt =>
  cases hcollected : collected base image relaplt with
  | error fault => cases h.symm.trans (loadDynamicExec_of_error hheaders hrelaplt hcollected)
  | ok table =>
  cases table with
  | none =>
      cases h.symm.trans (loadDynamicExec_of_other hheaders hrelaplt hcollected)
      refine Or.inr ⟨rfl, fun _ hall => ?_⟩
      obtain ⟨k, -, hk, -, hnone⟩ := fillTable_eq_none.mp hcollected
      rw [tempEntry_of_type (hall relaplt hrelaplt k (by simpa [pltCount] using hk))] at hnone
      cases hentry : dynLinkEntry image (Sections.find image).dynsym (Sections.find image).dynstr k
          (image.rela relaplt.start k).dynsymIdx (base + (image.rela relaplt.start k).rOffset) <;>
        rw [hentry] at hnone <;> cases hnone
  | some temptbl => exact Or.inl (result_of_collected hheaders hrelaplt hcollected h)

private theorem word_import (h : loadDynamicExec base image stackSize stackAddr dynlinktbl = .ok r)
    (hzero : r.result = 0) (hkept : SlotsKept base image dynlinktbl)
    (himport : Import image j target name) :
    r.image.word target = findFunctionFromSo dynlinktbl name := by
  obtain ⟨-, relaplt, temptbl, reladyn, hrelaplt, hcollected, hreladyn, himage⟩ :=
    image_of_result_zero h hzero
  obtain ⟨hj, rfl, rfl⟩ := (import_iff hrelaplt hcollected).mp himport
  obtain ⟨hpairs, hdyn⟩ := hkept relaplt temptbl reladyn hrelaplt hcollected hreladyn
  have hlength : j < (linkPatches base dynlinktbl temptbl).length := by
    unfold linkPatches
    rwa [List.length_map]
  have hpatch : (linkPatches base dynlinktbl temptbl)[j] =
      ((temptbl[j].addr - base).toInt, findFunctionFromSo dynlinktbl temptbl[j].name) :=
    List.getElem_map _
  have hlater : ∀ t ∈ (linkPatches base dynlinktbl temptbl ++
      dynPatches base image dynlinktbl temptbl reladyn).drop (j + 1),
      Apart (linkPatches base dynlinktbl temptbl)[j] t := by
    intro t ht
    rw [List.drop_append_of_le_length hlength] at ht
    rcases List.mem_append.mp ht with hlink | hdynamic
    · exact apart_of_mem_drop hpairs hlength t hlink
    · exact hdyn _ (List.getElem_mem hlength) t hdynamic
  have hword := word_patches_getElem ((image.phdr 3).secondLoad image)
    (l := linkPatches base dynlinktbl temptbl ++ dynPatches base image dynlinktbl temptbl reladyn)
    (i := j) (by rw [List.length_append]; omega)
    (by rw [List.getElem_append_left hlength]; exact hlater)
  rw [List.getElem_append_left hlength, ← himage, hpatch] at hword
  exact hword

private theorem accepted_of_result_zero
    (h : loadDynamicExec base image stackSize stackAddr dynlinktbl = .ok r) (hzero : r.result = 0) :
    dynamicExecHeaders image ≠ none ∧ AllJumpSlots image := by
  obtain ⟨hheaders, relaplt, temptbl, reladyn, hrelaplt, hcollected, -⟩ :=
    image_of_result_zero h hzero
  refine ⟨hheaders, fun relaplt' hrelaplt' k hk => ?_⟩
  obtain rfl := Option.some.inj (hrelaplt.symm.trans hrelaplt')
  obtain ⟨hlength, hentries⟩ := collected_entry hcollected
  exact (hentries k (hlength ▸ hk)).1

/-- Each name that is imported has its first symbol in the library defined, if the load succeeds. -/
def ImportsDefined (libImage image : ElfImage) : Prop :=
  dynamicExecHeaders image ≠ none → AllJumpSlots image →
    ∀ j target name, Import image j target name → FirstDefined libImage name

section Resolve

variable {libBase : Word} {libImage : ElfImage} {before : DynLinkTable} {lib : SharedLoad}
  (hlib : loadSharedLibrary libBase libImage before = .ok lib) (hlibZero : lib.result = 0)
  (h : loadDynamicExec base image stackSize stackAddr lib.dynlinktbl = .ok r)

include hlib hlibZero h

private theorem ImportsDefined.resolve (hdefined : ImportsDefined libImage image)
    (hkept : dynamicExecHeaders image ≠ none → AllJumpSlots image →
      SlotsKept base image lib.dynlinktbl) : ImportsResolve libBase libImage image r := by
  rcases result_cases h with hzero | ⟨hminus, -⟩
  · obtain ⟨hheaders, hall⟩ := accepted_of_result_zero h hzero
    have hfound {j : Nat} {target : Int} {name : List (BitVec 8)}
        (himport : Import image j target name) :
        Defines libImage name libBase (findFunctionFromSo lib.dynlinktbl name) :=
      (defines_findFunctionFromSo_iff hlib hlibZero).mpr
        (hdefined hheaders hall j target name himport)
    refine ⟨fun _ j target name himport => ?_, fun j target name himport hnone => ?_⟩
    · rw [word_import h hzero (hkept hheaders hall) himport]
      exact hfound himport
    · exact absurd (hfound himport) (hnone _)
  · exact ⟨fun hzero => absurd (hminus.symm.trans hzero) (by decide), fun _ _ _ _ _ => hminus⟩

theorem ImportsResolve.defined (hresolve : ImportsResolve libBase libImage image r)
    (hkept : SlotsKept base image lib.dynlinktbl) : ImportsDefined libImage image := by
  intro hheaders hall j target name himport
  rcases result_cases h with hzero | ⟨-, hother⟩
  · have hdefines := hresolve.resolved hzero j target name himport
    rw [word_import h hzero hkept himport] at hdefines
    exact (defines_findFunctionFromSo_iff hlib hlibZero).mp hdefines
  · exact absurd hall (hother hheaders)

/--
For every library and every program that the loaders get through: the imports resolve or
the load fails if for each name the first symbol of the library with it is a defined one,
or has the value of one, and no other relocation patches the word of an imported
function; without such patches the first condition is necessary.
-/
theorem imports_resolve_iff :
    (ImportsDefined libImage image ∧ (dynamicExecHeaders image ≠ none → AllJumpSlots image →
        SlotsKept base image lib.dynlinktbl) → ImportsResolve libBase libImage image r) ∧
      (SlotsKept base image lib.dynlinktbl →
        (ImportsResolve libBase libImage image r ↔ ImportsDefined libImage image)) :=
  ⟨fun ⟨hdefined, hkept⟩ => hdefined.resolve hlib hlibZero h hkept,
    fun hkept => ⟨fun hresolve => hresolve.defined hlib hlibZero h hkept,
      fun hdefined => hdefined.resolve hlib hlibZero h fun _ _ => hkept⟩⟩

end Resolve

end Program

/-! ### Concrete libraries -/

/-- A library that has `someProgram`'s sections: it imports `f` itself and defines nothing. -/
def someLibrary : ElfImage := fun k =>
  if k = 13 ∨ k = 21 then PT_LOAD
  else if k = 22 then 0x400 else if k = 23 ∨ k = 24 then 0x1400
  else if k = 25 then 8 else if k = 26 then 16
  else someProgram k

/-- The same, but for an `f` of its own. -/
def definingLibrary : ElfImage := fun k =>
  if k = 165 then 0x40 else if k = 167 then 0x00010012 else someLibrary k

private theorem loaded_of {image : ElfImage} {table : DynLinkTable}
    (h : (loadSharedLibrary 0x20700000 image []).toOption.map
      (fun lib => (lib.result, lib.dynlinktbl)) = some (0, table)) :
    ∃ lib, loadSharedLibrary 0x20700000 image [] = .ok lib ∧ lib.result = 0 ∧
      lib.dynlinktbl = table := by
  cases hlib : loadSharedLibrary 0x20700000 image [] with
  | error fault =>
      rw [hlib] at h
      cases h
  | ok lib =>
      rw [hlib] at h
      have hpair := Option.some.inj h
      exact ⟨lib, rfl, congrArg Prod.fst hpair, congrArg Prod.snd hpair⟩

private theorem load_someLibrary : ∃ lib, loadSharedLibrary 0x20700000 someLibrary [] = .ok lib ∧
    lib.result = 0 ∧ lib.dynlinktbl = [⟨0x20700000, []⟩, ⟨0x20700000, [0x66]⟩] :=
  loaded_of (by decide +kernel)

private theorem load_definingLibrary :
    ∃ lib, loadSharedLibrary 0x20700000 definingLibrary [] = .ok lib ∧
    lib.result = 0 ∧ lib.dynlinktbl = [⟨0x20700000, []⟩, ⟨0x20700040, [0x66]⟩] :=
  loaded_of (by decide +kernel)

private theorem slotsKept_someProgram {addr : Word}
    (h : (linkPatches 0x20110000 [⟨0x20700000, []⟩, ⟨addr, [0x66]⟩]
        [⟨0x20111404, [0x66]⟩]).Pairwise Apart ∧
      ∀ s ∈ linkPatches 0x20110000 [⟨0x20700000, []⟩, ⟨addr, [0x66]⟩] [⟨0x20111404, [0x66]⟩],
        ∀ t ∈ dynPatches 0x20110000 someProgram [⟨0x20700000, []⟩, ⟨addr, [0x66]⟩]
          [⟨0x20111404, [0x66]⟩] ⟨336, 0x2d0⟩, Apart s t) :
    SlotsKept 0x20110000 someProgram [⟨0x20700000, []⟩, ⟨addr, [0x66]⟩] := by
  intro relaplt temptbl reladyn hrelaplt hcollected hreladyn
  have hplt : (Sections.find someProgram).relaplt = some ⟨376, 0x2e0⟩ := by decide +kernel
  have hdyn : (Sections.find someProgram).reladyn = some ⟨336, 0x2d0⟩ := by decide +kernel
  obtain rfl := Option.some.inj (hplt.symm.trans hrelaplt)
  obtain rfl := Option.some.inj (hdyn.symm.trans hreladyn)
  have htable : collected 0x20110000 someProgram ⟨376, 0x2e0⟩ =
      .ok (some [⟨0x20111404, [0x66]⟩]) := by decide +kernel
  obtain rfl := Option.some.inj (Except.ok.inj (htable.symm.trans hcollected))
  exact h

private theorem import_someProgram {j : Nat} {target : Int} {name : List (BitVec 8)} :
    Import someProgram j target name ↔ j = 0 ∧ target = 0x1404 ∧ name = [0x66] := by
  have hplt : (Sections.find someProgram).relaplt = some ⟨376, 0x2e0⟩ := by decide +kernel
  have hsym : (Sections.find someProgram).dynsym = some ⟨256, 0x280⟩ := by decide +kernel
  have hstr : (Sections.find someProgram).dynstr = some ⟨296, 0x2c0⟩ := by decide +kernel
  have hname : symName someProgram ⟨256, 0x280⟩ ⟨296, 0x2c0⟩
      (someProgram.rela 0x2e0 0).dynsymIdx = .ok [0x66] := by decide +kernel
  constructor
  · rintro ⟨relaplt, dynsym, dynstr, hrelaplt, hdynsym, hdynstr, hj, -, rfl, hsymName⟩
    obtain rfl := Option.some.inj (hplt.symm.trans hrelaplt)
    obtain rfl := Option.some.inj (hsym.symm.trans hdynsym)
    obtain rfl := Option.some.inj (hstr.symm.trans hdynstr)
    have hcount : pltCount someProgram ⟨376, 0x2e0⟩ = 1 := by decide +kernel
    obtain rfl : j = 0 := by omega
    exact ⟨rfl, by decide +kernel, (Except.ok.inj (hname.symm.trans hsymName)).symm⟩
  · rintro ⟨rfl, rfl, rfl⟩
    exact ⟨⟨376, 0x2e0⟩, ⟨256, 0x280⟩, ⟨296, 0x2c0⟩, hplt, hsym, hstr, by decide +kernel,
      by decide +kernel, by decide +kernel, hname⟩

private theorem importsDefined_definingLibrary : ImportsDefined definingLibrary someProgram := by
  intro _ _ j target name himport
  obtain ⟨-, -, rfl⟩ := import_someProgram.mp himport
  obtain ⟨lib, hlib, hlibZero, htable⟩ := load_definingLibrary
  have hone : Named definingLibrary [0x66] 1 :=
    (named_iff hlib hlibZero).mpr ⟨by rw [htable]; decide, by simp [htable]⟩
  refine ⟨1, hone, fun j hj => ?_, 1, hone, by decide +kernel, rfl⟩
  obtain rfl : j = 0 := by omega
  rw [named_iff hlib hlibZero]
  simp [htable]

/-- The word of `f` gets the address of the library's own `f`. -/
theorem imports_resolve_someProgram :
    ∃ lib r, loadSharedLibrary 0x20700000 definingLibrary [] = .ok lib ∧ lib.result = 0 ∧
      loadDynamicExec 0x20110000 someProgram 0x1000 0 lib.dynlinktbl = .ok r ∧ r.result = 0 ∧
      ImportsResolve 0x20700000 definingLibrary someProgram r := by
  obtain ⟨lib, hlib, hlibZero, htable⟩ := load_definingLibrary
  obtain ⟨r, hr, hzero⟩ : Accepted (loadDynamicExec 0x20110000 someProgram 0x1000 0
      [⟨0x20700000, []⟩, ⟨0x20700040, [0x66]⟩]) := accepted_iff.mpr (by decide +kernel)
  have hkept : SlotsKept 0x20110000 someProgram lib.dynlinktbl :=
    htable ▸ slotsKept_someProgram ⟨by decide +kernel, by decide +kernel⟩
  rw [← htable] at hr
  exact ⟨lib, r, hlib, hlibZero, hr, hzero, (imports_resolve_iff hlib hlibZero hr).1
    ⟨importsDefined_definingLibrary, fun _ _ => hkept⟩⟩

private theorem not_defines_someLibrary (name : List (BitVec 8)) (addr : Word) :
    ¬Defines someLibrary name 0x20700000 addr := by
  rintro ⟨i, ⟨dynsym, dynstr, hsym, -, hi, -⟩, hdefined, -⟩
  have hfind : (Sections.find someLibrary).dynsym = some ⟨256, 0x280⟩ := by decide +kernel
  obtain rfl := Option.some.inj (hfind.symm.trans hsym)
  have hcount : (someLibrary.entrycnt 256).toInt.toNat = 2 := by decide +kernel
  have hundefined : ∀ i < 2, someLibrary.stShndx (dynsymStart someLibrary) (i : Nat) = 0 := by
    decide +kernel
  exact hdefined (hundefined i (hcount ▸ hi))

/-- The word of `f` gets the address at which the library starts. -/
theorem not_imports_resolve_someProgram :
    ∃ lib r, loadSharedLibrary 0x20700000 someLibrary [] = .ok lib ∧ lib.result = 0 ∧
      loadDynamicExec 0x20110000 someProgram 0x1000 0 lib.dynlinktbl = .ok r ∧ r.result = 0 ∧
      SlotsKept 0x20110000 someProgram lib.dynlinktbl ∧
      ¬ImportsResolve 0x20700000 someLibrary someProgram r := by
  obtain ⟨lib, hlib, hlibZero, htable⟩ := load_someLibrary
  obtain ⟨r, hr, hzero⟩ : Accepted (loadDynamicExec 0x20110000 someProgram 0x1000 0
      [⟨0x20700000, []⟩, ⟨0x20700000, [0x66]⟩]) := accepted_iff.mpr (by decide +kernel)
  have hkept : SlotsKept 0x20110000 someProgram lib.dynlinktbl :=
    htable ▸ slotsKept_someProgram ⟨by decide +kernel, by decide +kernel⟩
  rw [← htable] at hr
  refine ⟨lib, r, hlib, hlibZero, hr, hzero, hkept, fun hresolve => ?_⟩
  have himport : Import someProgram 0 0x1404 [0x66] := import_someProgram.mpr ⟨rfl, rfl, rfl⟩
  exact not_defines_someLibrary _ _ (hresolve.resolved hzero 0 0x1404 [0x66] himport)

end PComputer.PseudOS
