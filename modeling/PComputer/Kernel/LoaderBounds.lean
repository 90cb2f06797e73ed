import PComputer.Foundation.Fallible
import PComputer.Kernel.Loaders

/-!
# What the loaders write to their tables

The tables have room for 2048 entries and 128 bytes for a name; the numbers and the
names come from the file.  The loader of the library looks for missing sections with
`&` on their addresses, the loader of programs does not look.
-/

namespace PComputer.PseudOS

open PComputer.Foundation

def Sections.Missing (s : Sections) : Prop :=
  s.dynsym = none ∨ s.dynstr = none ∨ s.reladyn = none ∨ s.relaplt = none

/--
The loader stays within its tables and follows no missing section; with a section
missing it returns -1 before it writes anything, and it never does so for a file that
has them.
-/
structure SharedWithin (base : Word) (image : ElfImage) : Prop where
  within : ∀ dynlinktbl, Succeeds (loadSharedLibrary base image dynlinktbl)
  missing : sharedLibraryHeaders image ≠ none → (Sections.find image).Missing →
    ∀ dynlinktbl, loadSharedLibrary base image dynlinktbl = .ok ⟨-1, image, dynlinktbl⟩
  present : sharedLibraryHeaders image ≠ none → ¬(Sections.find image).Missing →
    ∃ dynlinktbl, loadSharedLibrary base image dynlinktbl ≠ .ok ⟨-1, image, dynlinktbl⟩

structure ExecWithin (base : Word) (image : ElfImage) : Prop where
  within : ∀ stackSize stackAddr dynlinktbl,
    Succeeds (loadDynamicExec base image stackSize stackAddr dynlinktbl)
  missing : dynamicExecHeaders image ≠ none → (Sections.find image).Missing →
    ∀ stackSize stackAddr dynlinktbl, ∃ r, r.result = -1 ∧ r.image = image ∧
      loadDynamicExec base image stackSize stackAddr dynlinktbl = .ok r

/-! ## When they do -/

def NameFits (image : ElfImage) (dynsym dynstr : Section) (idx : Int) : Prop :=
  ∃ i < 128, image.byte (dynstr.start.toNat + (image.stName dynsym.start idx).toNat + (i : Nat)) = 0

/-- With the three sections that the loader looks for. -/
def SharedFits (base : Word) (image : ElfImage) : Prop :=
  ∀ dynsym reladyn relaplt, (Sections.find image).dynsym = some dynsym →
    (Sections.find image).reladyn = some reladyn → (Sections.find image).relaplt = some relaplt →
      ((base + dynsym.start) &&& (base + reladyn.start) &&& (base + relaplt.start) = 0 ↔
        (Sections.find image).dynstr = none) ∧
      ∀ dynstr, (Sections.find image).dynstr = some dynstr →
        (image.entrycnt dynsym.shdr).toInt ≤ 2048 ∧
          ∀ j : Nat, (j : Int) < (image.entrycnt dynsym.shdr).toInt →
            NameFits image dynsym dynstr j

def pltType (image : ElfImage) (relaplt : Section) (j : Nat) : Int :=
  (image.rela relaplt.start j).type

/-- The entries up to the first one of another type than `R_RISCV_JUMP_SLOT` fit. -/
structure ExecFits (image : ElfImage) (relaplt : Section) : Prop where
  entries : ∀ j : Nat, (j : Int) < (image.entrycnt relaplt.shdr).toInt →
    (∀ i ≤ j, pltType image relaplt i = Elf32Rela.R_RISCV_JUMP_SLOT) →
      j < 2048 ∧ ∃ dynsym dynstr, (Sections.find image).dynsym = some dynsym ∧
        (Sections.find image).dynstr = some dynstr ∧
          NameFits image dynsym dynstr (image.rela relaplt.start j).dynsymIdx
  ends : (Sections.find image).Missing →
    ∃ j : Nat, (j : Int) < (image.entrycnt relaplt.shdr).toInt ∧
      pltType image relaplt j ≠ Elf32Rela.R_RISCV_JUMP_SLOT

/-! ## Filling a table -/

section FillTable

variable {entry : Nat → Except LoaderFault (Option DynLinkEntry)} {n j : Nat}

private theorem fillTable_succ :
    fillTable entry (n + 1) j =
      match entry j with
      | .error fault => .error fault
      | .ok none => .ok none
      | .ok (some e) =>
          match fillTable entry n (j + 1) with
          | .error fault => .error fault
          | .ok table => .ok (table.map (e :: ·)) := by
  conv_lhs => unfold fillTable
  cases entry j with
  | error fault => rfl
  | ok e =>
      cases e with
      | none => rfl
      | some e =>
          change (fillTable entry n (j + 1) >>= fun table => pure (table.map (e :: ·))) = _
          cases fillTable entry n (j + 1) <;> rfl

/-- The loop gets to an entry if all before it were filled. -/
def Reaches (entry : Nat → Except LoaderFault (Option DynLinkEntry)) (j k : Nat) : Prop :=
  ∀ i, j ≤ i → i < k → ∃ e, entry i = .ok (some e)

private theorem succeeds_fillTable :
    Succeeds (fillTable entry n j) ↔
      ∀ k, j ≤ k → k < j + n → Reaches entry j k → Succeeds (entry k) := by
  induction n generalizing j with
  | zero => exact ⟨fun _ k hk hless => absurd hk (by omega), fun _ => succeeds_ok _⟩
  | succ n ih =>
      rw [fillTable_succ]
      cases hentry : entry j with
      | error fault =>
          simp only [not_succeeds_error, false_iff]
          intro h
          have hfirst := h j le_rfl (by omega) fun i hi hless => absurd hi (by omega)
          rw [hentry] at hfirst
          exact not_succeeds_error fault hfirst
      | ok e =>
          cases e with
          | none =>
              refine ⟨fun _ k hk hless hreach => ?_, fun _ => succeeds_ok _⟩
              rcases Nat.eq_or_lt_of_le hk with rfl | hmore
              · rw [hentry]
                exact succeeds_ok _
              · obtain ⟨e, he⟩ := hreach j le_rfl hmore
                rw [hentry] at he
                cases he
          | some e =>
              have hrest : Succeeds (match fillTable entry n (j + 1) with
                  | .error fault => .error fault
                  | .ok table => .ok (table.map (e :: ·)) : Except LoaderFault _) ↔
                  Succeeds (fillTable entry n (j + 1)) := by
                cases fillTable entry n (j + 1) <;> simp
              simp only [hrest]
              rw [ih]
              constructor
              · intro h k hk hless hreach
                rcases Nat.eq_or_lt_of_le hk with rfl | hmore
                · rw [hentry]
                  exact succeeds_ok _
                · exact h k hmore (by omega) fun i hi hik => hreach i (by omega) hik
              · intro h k hk hless hreach
                refine h k (by omega) (by omega) fun i hi hik => ?_
                rcases Nat.eq_or_lt_of_le hi with rfl | hmore
                · exact ⟨e, hentry⟩
                · exact hreach i hmore hik

theorem fillTable_eq_none :
    fillTable entry n j = .ok none ↔
      ∃ k, j ≤ k ∧ k < j + n ∧ Reaches entry j k ∧ entry k = .ok none := by
  induction n generalizing j with
  | zero => exact ⟨nofun, fun ⟨k, hk, hless, _⟩ => absurd hk (by omega)⟩
  | succ n ih =>
      rw [fillTable_succ]
      have hfirst {k : Nat} (hk : j ≤ k) (hno : ∀ e, entry j ≠ .ok (some e))
          (hreach : Reaches entry j k) : k = j := by
        rcases Nat.eq_or_lt_of_le hk with rfl | hmore
        · rfl
        · obtain ⟨e, he⟩ := hreach j le_rfl hmore
          exact absurd he (hno e)
      cases hentry : entry j with
      | error fault =>
          refine ⟨nofun, fun ⟨k, hk, _, hreach, hnone⟩ => ?_⟩
          obtain rfl := hfirst hk (fun e he => by rw [hentry] at he; cases he) hreach
          rw [hentry] at hnone
          cases hnone
      | ok e =>
          cases e with
          | none =>
              refine ⟨fun _ => ⟨j, le_rfl, by omega, fun i hi hless => absurd hi (by omega),
                hentry⟩, fun _ => rfl⟩
          | some e =>
              have hrest : (match fillTable entry n (j + 1) with
                  | .error fault => .error fault
                  | .ok table => .ok (table.map (e :: ·)) : Except LoaderFault _) = .ok none ↔
                  fillTable entry n (j + 1) = .ok none := by
                cases fillTable entry n (j + 1) <;> simp
              simp only [hrest]
              rw [ih]
              constructor
              · rintro ⟨k, hk, hless, hreach, hnone⟩
                refine ⟨k, by omega, by omega, fun i hi hik => ?_, hnone⟩
                rcases Nat.eq_or_lt_of_le hi with rfl | hmore
                · exact ⟨e, hentry⟩
                · exact hreach i hmore hik
              · rintro ⟨k, hk, hless, hreach, hnone⟩
                rcases Nat.eq_or_lt_of_le hk with rfl | hmore
                · rw [hentry] at hnone
                  cases hnone
                · exact ⟨k, hmore, by omega, fun i hi hik => hreach i (by omega) hik, hnone⟩

theorem fillTable_eq_some {table : DynLinkTable} (h : fillTable entry n j = .ok (some table)) :
    ∃ hlength : table.length = n,
      ∀ i (hi : i < n), entry (j + i) = .ok (some table[i]) := by
  induction n generalizing j table with
  | zero =>
      cases h
      exact ⟨rfl, fun i hi => absurd hi (Nat.not_lt_zero i)⟩
  | succ n ih =>
      rw [fillTable_succ] at h
      cases hentry : entry j with
      | error fault =>
          rw [hentry] at h
          cases h
      | ok e =>
          cases e with
          | none =>
              rw [hentry] at h
              cases h
          | some e =>
              rw [hentry] at h
              cases hrest : fillTable entry n (j + 1) with
              | error fault =>
                  simp only [hrest] at h
                  cases h
              | ok rest =>
                  simp only [hrest, Except.ok.injEq, Option.map_eq_some_iff] at h
                  obtain ⟨table', rfl, rfl⟩ := h
                  obtain ⟨hlength, hentries⟩ := ih hrest
                  refine ⟨congrArg (· + 1) hlength, fun i hi => ?_⟩
                  cases i with
                  | zero => exact hentry
                  | succ i =>
                      have hnext := hentries i (by omega)
                      rw [show j + 1 + i = j + (i + 1) by omega] at hnext
                      exact hnext

theorem succeeds_fillTable_map {f : Nat → Except LoaderFault DynLinkEntry} :
    Succeeds (fillTable (fun j => (f j).map some) n 0) ↔ ∀ k < n, Succeeds (f k) := by
  have hmap (k : Nat) : Succeeds ((f k).map some) ↔ Succeeds (f k) := by
    cases f k <;> simp [Except.map]
  rw [succeeds_fillTable]
  constructor
  · intro h k
    induction k using Nat.strong_induction_on with
    | _ k ih =>
        intro hk
        refine (hmap k).mp (h k (Nat.zero_le k) (by omega) fun i _ hik => ?_)
        obtain ⟨e, he⟩ := ih i hik (by omega)
        exact ⟨e, congrArg (Except.map some) he⟩
  · intro h k _ hk _
    exact (hmap k).mpr (h k (by omega))

end FillTable

private theorem succeeds_elfStrcpy {src : Nat → BitVec 8} {room : Nat} :
    Succeeds (elfStrcpy src room) ↔ ∃ i < room, src i = 0 := by
  induction room generalizing src with
  | zero => exact ⟨fun h => absurd h (not_succeeds_error _), fun ⟨i, hi, _⟩ => absurd hi (by omega)⟩
  | succ room ih =>
      unfold elfStrcpy
      split_ifs with hzero
      · exact ⟨fun _ => ⟨0, by omega, hzero⟩, fun _ => succeeds_ok _⟩
      · have hmap : Succeeds ((elfStrcpy (fun i => src (i + 1)) room).map (src 0 :: ·)) ↔
            Succeeds (elfStrcpy (fun i => src (i + 1)) room) := by
          cases elfStrcpy (fun i => src (i + 1)) room <;> simp [Except.map]
        rw [hmap, ih]
        constructor
        · rintro ⟨i, hi, hend⟩
          exact ⟨i + 1, by omega, hend⟩
        · rintro ⟨i, hi, hend⟩
          cases i with
          | zero => exact absurd hend hzero
          | succ i => exact ⟨i, by omega, hend⟩

theorem succeeds_dynLinkEntry {image : ElfImage} {dynsym dynstr : Option Section} {j : Nat}
    {idx : Int} {addr : Word} :
    Succeeds (dynLinkEntry image dynsym dynstr j idx addr) ↔
      j < 2048 ∧ ∃ sym str, dynsym = some sym ∧ dynstr = some str ∧ NameFits image sym str idx := by
  unfold dynLinkEntry
  split_ifs with hfull
  · exact ⟨fun h => absurd h (not_succeeds_error _), fun h => absurd h.1 (by omega)⟩
  · cases dynsym with
    | none => simp
    | some sym =>
        cases dynstr with
        | none => simp
        | some str =>
            have hmap {src : Nat → BitVec 8} :
                Succeeds ((elfStrcpy src 128).map fun name => (⟨addr, name⟩ : DynLinkEntry)) ↔
                  Succeeds (elfStrcpy src 128) := by
              cases elfStrcpy src 128 <;> simp [Except.map]
            simp only [hmap, succeeds_elfStrcpy]
            simp [NameFits, Nat.lt_of_not_le hfull]

/-! ## The loader of the library -/

section Shared

variable {base : Word} {image : ElfImage} {p : Elf32Phdr} {dynlinktbl : DynLinkTable}
  {dynsym reladyn relaplt : Section}

/-- A pointer that is `NULL` is enough for the `&`. -/
theorem lacking_of_none (h : (Sections.find image).dynsym = none ∨
      (Sections.find image).reladyn = none ∨ (Sections.find image).relaplt = none) :
    secStart base (Sections.find image).dynsym &&& secStart base (Sections.find image).reladyn &&&
      secStart base (Sections.find image).relaplt = 0 := by
  rcases h with h | h | h <;> rw [h] <;> simp [secStart]

theorem loadSharedLibrary_lacking (hheaders : sharedLibraryHeaders image = some p)
    (h : secStart base (Sections.find image).dynsym &&& secStart base (Sections.find image).reladyn
      &&&
      secStart base (Sections.find image).relaplt = 0) :
    loadSharedLibrary base image dynlinktbl = .ok ⟨-1, image, dynlinktbl⟩ := by
  unfold loadSharedLibrary
  rw [hheaders]
  simp only [h, if_true]

section Found

variable (hheaders : sharedLibraryHeaders image = some p)
  (hdynsym : (Sections.find image).dynsym = some dynsym)
  (hreladyn : (Sections.find image).reladyn = some reladyn)
  (hrelaplt : (Sections.find image).relaplt = some relaplt)

include hheaders hdynsym hreladyn hrelaplt

theorem loadSharedLibrary_of_zero
    (h : (base + dynsym.start) &&& (base + reladyn.start) &&& (base + relaplt.start) = 0) :
    loadSharedLibrary base image dynlinktbl = .ok ⟨-1, image, dynlinktbl⟩ := by
  apply loadSharedLibrary_lacking hheaders
  rw [hdynsym, hreladyn, hrelaplt]
  exact h

theorem loadSharedLibrary_of_ne_zero (dynlinktbl : DynLinkTable)
    (h : (base + dynsym.start) &&& (base + reladyn.start) &&& (base + relaplt.start) ≠ 0) :
    loadSharedLibrary base image dynlinktbl =
      (fillTable (fun j => (dynLinkEntry image (some dynsym) (Sections.find image).dynstr j j
          (base + image.stValue dynsym.start j)).map some)
        (image.entrycnt dynsym.shdr).toInt.toNat 0).map fun table =>
          ⟨(relocateShared base p dynsym reladyn relaplt image).1,
            (relocateShared base p dynsym reladyn relaplt image).2, table.getD []⟩ := by
  have hfound : secStart base (some dynsym) &&& secStart base (some reladyn) &&&
      secStart base (some relaplt) ≠ 0 := h
  unfold loadSharedLibrary
  rw [hheaders]
  simp only [hdynsym, hreladyn, hrelaplt, hfound, if_false]
  cases fillTable _ _ 0 <;> rfl

end Found

theorem found_or_none (image : ElfImage) :
    (∃ dynsym reladyn relaplt, (Sections.find image).dynsym = some dynsym ∧
        (Sections.find image).reladyn = some reladyn ∧
        (Sections.find image).relaplt = some relaplt) ∨
      (Sections.find image).dynsym = none ∨ (Sections.find image).reladyn = none ∨
        (Sections.find image).relaplt = none := by
  cases hdynsym : (Sections.find image).dynsym with
  | none => exact Or.inr (Or.inl rfl)
  | some dynsym =>
      cases hreladyn : (Sections.find image).reladyn with
      | none => exact Or.inr (Or.inr (Or.inl rfl))
      | some reladyn =>
          cases hrelaplt : (Sections.find image).relaplt with
          | none => exact Or.inr (Or.inr (Or.inr rfl))
          | some relaplt => exact Or.inl ⟨dynsym, reladyn, relaplt, rfl, rfl, rfl⟩

private theorem succeeds_map {α β : Type} {x : Except LoaderFault α} {f : α → β} :
    Succeeds (x.map f) ↔ Succeeds x := by
  cases x <;> simp [Except.map]

private theorem sharedWithin_of (hheaders : sharedLibraryHeaders image = some p)
    (hfits : SharedFits base image) : SharedWithin base image := by
  rcases found_or_none image with ⟨dynsym, reladyn, relaplt, hsym, hdyn, hplt⟩ | hnone
  · obtain ⟨hzero, hsizes⟩ := hfits dynsym reladyn relaplt hsym hdyn hplt
    cases hstr : (Sections.find image).dynstr with
    | none =>
        have hload (dynlinktbl) : loadSharedLibrary base image dynlinktbl =
            .ok ⟨-1, image, dynlinktbl⟩ :=
          loadSharedLibrary_of_zero hheaders hsym hdyn hplt (hzero.mpr hstr)
        refine ⟨fun dynlinktbl => ⟨_, hload dynlinktbl⟩, fun _ _ => hload, fun _ h => ?_⟩
        exact absurd (Or.inr (Or.inl hstr)) h
    | some dynstr =>
        have hne : (base + dynsym.start) &&& (base + reladyn.start) &&&
            (base + relaplt.start) ≠ 0 := by
          intro h
          rw [hzero.mp h] at hstr
          cases hstr
        have hload (dynlinktbl) :=
          loadSharedLibrary_of_ne_zero hheaders hsym hdyn hplt dynlinktbl hne
        obtain ⟨hcount, hnames⟩ := hsizes dynstr hstr
        have hfill : Succeeds (fillTable (fun j =>
            (dynLinkEntry image (some dynsym) (Sections.find image).dynstr j j
              (base + image.stValue dynsym.start j)).map some)
            (image.entrycnt dynsym.shdr).toInt.toNat 0) := by
          refine succeeds_fillTable_map.mpr fun k hk => ?_
          exact succeeds_dynLinkEntry.mpr ⟨by omega, dynsym, dynstr, rfl, hstr, hnames k (by omega)⟩
        obtain ⟨table, htable⟩ := hfill
        refine ⟨fun dynlinktbl => ?_, fun _ hmissing => ?_, fun _ _ => ?_⟩
        · rw [hload, htable]
          exact succeeds_ok _
        · rcases hmissing with h | h | h | h
          · exact absurd (hsym.symm.trans h) (Option.some_ne_none _)
          · exact absurd (hstr.symm.trans h) (Option.some_ne_none _)
          · exact absurd (hdyn.symm.trans h) (Option.some_ne_none _)
          · exact absurd (hplt.symm.trans h) (Option.some_ne_none _)
        · refine ⟨⟨0, []⟩ :: table.getD [], fun h => ?_⟩
          rw [hload, htable] at h
          have htables := congrArg (fun r => r.toOption.map fun l => l.dynlinktbl.length) h
          simp [Except.map, Except.toOption] at htables
  · have hload (dynlinktbl) : loadSharedLibrary base image dynlinktbl =
        .ok ⟨-1, image, dynlinktbl⟩ := loadSharedLibrary_lacking hheaders (lacking_of_none hnone)
    refine ⟨fun dynlinktbl => ⟨_, hload dynlinktbl⟩, fun _ _ => hload, fun _ hpresent => ?_⟩
    rcases hnone with h | h | h
    · exact absurd (Or.inl h) hpresent
    · exact absurd (Or.inr (Or.inr (Or.inl h))) hpresent
    · exact absurd (Or.inr (Or.inr (Or.inr h))) hpresent

private theorem sharedFits_of (hheaders : sharedLibraryHeaders image = some p)
    (h : SharedWithin base image) : SharedFits base image := by
  intro dynsym reladyn relaplt hsym hdyn hplt
  have hsome : sharedLibraryHeaders image ≠ none := by
    rw [hheaders]
    exact Option.some_ne_none p
  have hzero (hlacking : (base + dynsym.start) &&& (base + reladyn.start) &&&
      (base + relaplt.start) = 0) : (Sections.find image).dynstr = none := by
    by_contra hstr
    have hpresent : ¬(Sections.find image).Missing := by
      unfold Sections.Missing
      simp [hsym, hdyn, hplt, hstr]
    obtain ⟨dynlinktbl, hload⟩ := h.present hsome hpresent
    exact hload (loadSharedLibrary_of_zero hheaders hsym hdyn hplt hlacking)
  refine ⟨⟨hzero, fun hstr => ?_⟩, fun dynstr hstr => ?_⟩
  · by_contra hne
    have hload := h.missing hsome (Or.inr (Or.inl hstr))
    have hnone := hload []
    have hone := hload [⟨0, []⟩]
    rw [loadSharedLibrary_of_ne_zero hheaders hsym hdyn hplt _ hne] at hnone hone
    have htables := congrArg (fun r => r.toOption.map fun l => l.dynlinktbl.length)
      (hnone.symm.trans hone)
    simp [Except.toOption] at htables
  · have hne : (base + dynsym.start) &&& (base + reladyn.start) &&&
        (base + relaplt.start) ≠ 0 := by
      intro hlacking
      rw [hzero hlacking] at hstr
      cases hstr
    have hload := h.within []
    rw [loadSharedLibrary_of_ne_zero hheaders hsym hdyn hplt _ hne, succeeds_map,
      succeeds_fillTable_map] at hload
    have hentry (j : Nat) (hj : (j : Int) < (image.entrycnt dynsym.shdr).toInt) :
        j < 2048 ∧ NameFits image dynsym dynstr j := by
      obtain ⟨hroom, sym, str, hsym', hstr', hname⟩ :=
        succeeds_dynLinkEntry.mp (hload j (by omega))
      obtain rfl := Option.some.inj hsym'
      obtain rfl := Option.some.inj (hstr.symm.trans hstr')
      exact ⟨hroom, hname⟩
    refine ⟨?_, fun j hj => (hentry j hj).2⟩
    by_contra hmore
    have hroom := (hentry 2048 (by omega)).1
    omega

end Shared

private theorem sharedWithin_iff (base : Word) (image : ElfImage) :
    SharedWithin base image ↔ (sharedLibraryHeaders image ≠ none → SharedFits base image) := by
  cases hheaders : sharedLibraryHeaders image with
  | none =>
      refine ⟨fun _ h => absurd rfl h, fun _ => ?_⟩
      refine ⟨fun dynlinktbl => ?_, fun h => absurd hheaders h, fun h => absurd hheaders h⟩
      unfold loadSharedLibrary
      rw [hheaders]
      exact succeeds_ok _
  | some p =>
      exact ⟨fun h _ => sharedFits_of hheaders h,
        fun h => sharedWithin_of hheaders (h (Option.some_ne_none p))⟩

/-! ## The loader of programs -/

def collected (base : Word) (image : ElfImage) (relaplt : Section) :
    Except LoaderFault (Option DynLinkTable) :=
  fillTable (tempEntry base image (Sections.find image).dynsym (Sections.find image).dynstr relaplt)
    (image.entrycnt relaplt.shdr).toInt.toNat 0

section Exec

variable {base : Word} {image : ElfImage} {relaplt : Section} {stackSize : Int} {stackAddr : Word}
  {dynlinktbl : DynLinkTable} {j : Nat}

theorem tempEntry_of_type {dynsym dynstr : Option Section}
    (h : pltType image relaplt j = Elf32Rela.R_RISCV_JUMP_SLOT) :
    tempEntry base image dynsym dynstr relaplt j =
      (dynLinkEntry image dynsym dynstr j (image.rela relaplt.start j).dynsymIdx
        (base + (image.rela relaplt.start j).rOffset)).map some :=
  if_pos h

private theorem tempEntry_of_other {dynsym dynstr : Option Section}
    (h : pltType image relaplt j ≠ Elf32Rela.R_RISCV_JUMP_SLOT) :
    tempEntry base image dynsym dynstr relaplt j = .ok none :=
  if_neg h

theorem type_of_tempEntry {dynsym dynstr : Option Section} {e : DynLinkEntry}
    (h : tempEntry base image dynsym dynstr relaplt j = .ok (some e)) :
    pltType image relaplt j = Elf32Rela.R_RISCV_JUMP_SLOT := by
  by_contra hother
  rw [tempEntry_of_other hother] at h
  cases h

theorem headers_of_checks (h : dynamicExecHeaders image ≠ none) :
    elfHeaderOk image = true ∧ loadHeadersOk (image.phdr 2) (image.phdr 3) = true := by
  unfold dynamicExecHeaders checkHeaders at h
  split_ifs at h with hok
  · exact Bool.and_eq_true_iff.mp hok
  · exact absurd rfl h

theorem loadDynamicExec_of_none (base : Word) (stackSize : Int) (stackAddr : Word)
    (dynlinktbl : DynLinkTable) (h : dynamicExecHeaders image = none) :
    ∃ r, r.result = -1 ∧ r.image = image ∧
      loadDynamicExec base image stackSize stackAddr dynlinktbl = .ok r := by
  unfold dynamicExecHeaders checkHeaders at h
  unfold loadDynamicExec
  cases hheader : elfHeaderOk image with
  | false => exact ⟨⟨-1, image, 0, stackAddr⟩, rfl, rfl, rfl⟩
  | true =>
      cases hload : loadHeadersOk (image.phdr 2) (image.phdr 3) with
      | false =>
          refine ⟨⟨-1, image, image.eEntry + base, stackAddr⟩, rfl, rfl, ?_⟩
          simp only [hload, if_true, Bool.false_eq_true, if_false]
      | true => simp [hheader, hload] at h

section Checked

variable (hheaders : dynamicExecHeaders image ≠ none)

include hheaders

theorem loadDynamicExec_of_no_plt (h : (Sections.find image).relaplt = none) :
    loadDynamicExec base image stackSize stackAddr dynlinktbl = .error .nullSection := by
  obtain ⟨hheader, hload⟩ := headers_of_checks hheaders
  unfold loadDynamicExec
  simp only [hheader, hload, h, if_true]

variable (hrelaplt : (Sections.find image).relaplt = some relaplt)

include hrelaplt

theorem loadDynamicExec_of_error {fault : LoaderFault}
    (h : collected base image relaplt = .error fault) :
    loadDynamicExec base image stackSize stackAddr dynlinktbl = .error fault := by
  obtain ⟨hheader, hload⟩ := headers_of_checks hheaders
  unfold collected at h
  unfold loadDynamicExec
  simp only [hheader, hload, hrelaplt, h, if_true]
  rfl

theorem loadDynamicExec_of_other (h : collected base image relaplt = .ok none) :
    loadDynamicExec base image stackSize stackAddr dynlinktbl =
      .ok ⟨-1, image, image.eEntry + base, stackAddr⟩ := by
  obtain ⟨hheader, hload⟩ := headers_of_checks hheaders
  unfold collected at h
  unfold loadDynamicExec
  simp only [hheader, hload, hrelaplt, h, if_true]
  rfl

section Collected

variable {temptbl : DynLinkTable} (h : collected base image relaplt = .ok (some temptbl))

include h

private theorem loadDynamicExec_of_no_dyn (hreladyn : (Sections.find image).reladyn = none) :
    loadDynamicExec base image stackSize stackAddr dynlinktbl = .error .nullSection := by
  obtain ⟨hheader, hload⟩ := headers_of_checks hheaders
  unfold collected at h
  unfold loadDynamicExec
  simp only [hheader, hload, hrelaplt, hreladyn, h, if_true]
  rfl

theorem result_of_collected {r : ExecLoad}
    (hr : loadDynamicExec base image stackSize stackAddr dynlinktbl = .ok r) : r.result = 0 := by
  obtain ⟨hheader, hload⟩ := headers_of_checks hheaders
  unfold collected at h
  unfold loadDynamicExec at hr
  simp only [hheader, hload, hrelaplt, h, if_true] at hr
  cases hreladyn : (Sections.find image).reladyn with
  | none =>
      rw [hreladyn] at hr
      cases hr
  | some reladyn =>
      cases hdynsym : (Sections.find image).dynsym with
      | none =>
          rw [hreladyn, hdynsym] at hr
          change (if _ then _ else _) = _ at hr
          split_ifs at hr
          cases hr
          rfl
      | some dynsym =>
          rw [hreladyn, hdynsym] at hr
          cases hr
          rfl

private theorem loadDynamicExec_of_collected {dynsym reladyn : Section}
    (hdynsym : (Sections.find image).dynsym = some dynsym)
    (hreladyn : (Sections.find image).reladyn = some reladyn) :
    loadDynamicExec base image stackSize stackAddr dynlinktbl =
      .ok ⟨0, (relaLoop (fun image => (image.entrycnt reladyn.shdr).toNat)
          (relaDynStep base 0 dynsym.start reladyn.start) COUNT_MAX 0
          (linkFunctions base dynlinktbl temptbl ((image.phdr 3).secondLoad image))).2,
        image.eEntry + base, base + (image.phdr 3).pVaddr + (image.phdr 3).pMemsz⟩ := by
  obtain ⟨hheader, hload⟩ := headers_of_checks hheaders
  unfold collected at h
  rw [hdynsym] at h
  unfold loadDynamicExec
  simp only [hheader, hload, hrelaplt, hreladyn, hdynsym, h, if_true]
  rfl

end Collected

end Checked

theorem relaLoop_of_count_le {count : ElfImage → Nat} {step : Nat → ElfImage → Option ElfImage}
    (h : count image ≤ j) (fuel : Nat) : relaLoop count step fuel j image = (true, image) := by
  cases fuel with
  | zero => rfl
  | succ fuel => exact if_neg (Nat.not_lt.mpr h)

theorem loaded_of_result_zero {r : ExecLoad}
    (hr : loadDynamicExec base image stackSize stackAddr dynlinktbl = .ok r) (hzero : r.result = 0)
      :
    dynamicExecHeaders image ≠ none ∧ ∃ relaplt temptbl reladyn,
      (Sections.find image).relaplt = some relaplt ∧
      collected base image relaplt = .ok (some temptbl) ∧
      (Sections.find image).reladyn = some reladyn ∧
      r = ⟨0, (relaLoop (fun image => (image.entrycnt reladyn.shdr).toNat)
          (relaDynStep base 0 ((Sections.find image).dynsym.elim 0 Section.start) reladyn.start)
          COUNT_MAX 0
          (linkFunctions base dynlinktbl temptbl ((image.phdr 3).secondLoad image))).2,
        image.eEntry + base, base + (image.phdr 3).pVaddr + (image.phdr 3).pMemsz⟩ := by
  have hheaders : dynamicExecHeaders image ≠ none := by
    intro hnone
    obtain ⟨r', hresult, -, hr'⟩ :=
      loadDynamicExec_of_none base stackSize stackAddr dynlinktbl hnone
    cases hr.symm.trans hr'
    omega
  refine ⟨hheaders, ?_⟩
  cases hrelaplt : (Sections.find image).relaplt with
  | none => cases hr.symm.trans (loadDynamicExec_of_no_plt hheaders hrelaplt)
  | some relaplt =>
  cases hcollected : collected base image relaplt with
  | error fault => cases hr.symm.trans (loadDynamicExec_of_error hheaders hrelaplt hcollected)
  | ok table =>
  cases table with
  | none =>
      cases hr.symm.trans (loadDynamicExec_of_other hheaders hrelaplt hcollected)
      have hminus : (-1 : Int) = 0 := hzero
      omega
  | some temptbl =>
  cases hreladyn : (Sections.find image).reladyn with
  | none => cases hr.symm.trans (loadDynamicExec_of_no_dyn hheaders hrelaplt hcollected hreladyn)
  | some reladyn =>
  refine ⟨relaplt, temptbl, reladyn, rfl, hcollected, rfl, ?_⟩
  cases hdynsym : (Sections.find image).dynsym with
  | none =>
      obtain ⟨hheader, hload⟩ := headers_of_checks hheaders
      unfold collected at hcollected
      rw [hdynsym] at hcollected
      unfold loadDynamicExec at hr
      simp only [hheader, hload, hrelaplt, hreladyn, hdynsym, hcollected, if_true] at hr
      change (if _ then _ else _) = _ at hr
      split_ifs at hr with hcount
      cases hr
      rw [relaLoop_of_count_le (by rw [hcount]; exact le_rfl)]
  | some dynsym =>
      cases hr.symm.trans (loadDynamicExec_of_collected hheaders hrelaplt hcollected hdynsym
        hreladyn)
      rfl

section Checked

variable (hheaders : dynamicExecHeaders image ≠ none)
  (hrelaplt : (Sections.find image).relaplt = some relaplt)

include hheaders hrelaplt

private theorem execWithin_of (hfits : ExecFits image relaplt) : ExecWithin base image := by
  have hfill : Succeeds (collected base image relaplt) := by
    refine succeeds_fillTable.mpr fun k _ hk hreach => ?_
    by_cases htype : pltType image relaplt k = Elf32Rela.R_RISCV_JUMP_SLOT
    · have htypes : ∀ i ≤ k, pltType image relaplt i = Elf32Rela.R_RISCV_JUMP_SLOT := by
        intro i hi
        rcases Nat.eq_or_lt_of_le hi with rfl | hless
        · exact htype
        · obtain ⟨e, he⟩ := hreach i (Nat.zero_le i) hless
          exact type_of_tempEntry he
      rw [tempEntry_of_type htype, succeeds_map, succeeds_dynLinkEntry]
      exact hfits.entries k (by omega) htypes
    · rw [tempEntry_of_other htype]
      exact succeeds_ok _
  obtain ⟨result, hresult⟩ := hfill
  cases result with
  | none =>
      have hload (stackSize : Int) (stackAddr : Word) (dynlinktbl : DynLinkTable) :
          loadDynamicExec base image stackSize stackAddr dynlinktbl =
            .ok ⟨-1, image, image.eEntry + base, stackAddr⟩ :=
        loadDynamicExec_of_other hheaders hrelaplt hresult
      exact ⟨fun stackSize stackAddr dynlinktbl => ⟨_, hload stackSize stackAddr dynlinktbl⟩,
        fun _ _ stackSize stackAddr dynlinktbl =>
          ⟨_, rfl, rfl, hload stackSize stackAddr dynlinktbl⟩⟩
  | some temptbl =>
      have hpresent : ¬(Sections.find image).Missing := by
        intro hmissing
        obtain ⟨j, hj, hother⟩ := hfits.ends hmissing
        obtain ⟨hlength, hentries⟩ := fillTable_eq_some hresult
        have hentry := hentries j (by omega)
        rw [Nat.zero_add] at hentry
        exact hother (type_of_tempEntry hentry)
      unfold Sections.Missing at hpresent
      simp only [not_or] at hpresent
      obtain ⟨dynsym, hdynsym⟩ := Option.ne_none_iff_exists'.mp hpresent.1
      obtain ⟨reladyn, hreladyn⟩ := Option.ne_none_iff_exists'.mp hpresent.2.2.1
      refine ⟨fun stackSize stackAddr dynlinktbl => ?_, fun _ hmissing => ?_⟩
      · rw [loadDynamicExec_of_collected hheaders hrelaplt hresult hdynsym hreladyn]
        exact succeeds_ok _
      · rcases hmissing with hm | hm | hm | hm
        · exact absurd hm hpresent.1
        · exact absurd hm hpresent.2.1
        · exact absurd hm hpresent.2.2.1
        · exact absurd hm hpresent.2.2.2

private theorem execFits_of (h : ExecWithin base image) : ExecFits image relaplt := by
  have hfill : Succeeds (collected base image relaplt) := by
    cases hcollected : collected base image relaplt with
    | error fault =>
        have hload := h.within 0 0 []
        rw [loadDynamicExec_of_error hheaders hrelaplt hcollected] at hload
        exact absurd hload (not_succeeds_error fault)
    | ok result => exact succeeds_ok result
  have hentry (j : Nat) (hj : (j : Int) < (image.entrycnt relaplt.shdr).toInt) :
      (∀ i ≤ j, pltType image relaplt i = Elf32Rela.R_RISCV_JUMP_SLOT) →
        Succeeds (dynLinkEntry image (Sections.find image).dynsym (Sections.find image).dynstr j
          (image.rela relaplt.start j).dynsymIdx
          (base + (image.rela relaplt.start j).rOffset)) := by
    induction j using Nat.strong_induction_on with
    | _ j ih =>
        intro htypes
        have hsucceeds := succeeds_fillTable.mp hfill j (Nat.zero_le j) (by omega) fun i _ hij => by
          obtain ⟨e, he⟩ := ih i hij (by omega) fun k hk => htypes k (by omega)
          refine ⟨e, ?_⟩
          rw [tempEntry_of_type (htypes i (by omega)), he]
          rfl
        rwa [tempEntry_of_type (htypes j le_rfl), succeeds_map] at hsucceeds
  refine ⟨fun j hj htypes => succeeds_dynLinkEntry.mp (hentry j hj htypes), fun hmissing => ?_⟩
  obtain ⟨result, hresult⟩ := hfill
  cases result with
  | none =>
      obtain ⟨k, -, hk, -, hother⟩ := fillTable_eq_none.mp hresult
      refine ⟨k, by omega, fun htype => ?_⟩
      rw [tempEntry_of_type htype] at hother
      cases hentry' : dynLinkEntry image (Sections.find image).dynsym (Sections.find image).dynstr k
          (image.rela relaplt.start k).dynsymIdx
          (base + (image.rela relaplt.start k).rOffset) <;> rw [hentry'] at hother <;> cases hother
  | some temptbl =>
      obtain ⟨r, hr, -, hload⟩ := h.missing hheaders hmissing 0 0 []
      have hzero := result_of_collected hheaders hrelaplt hresult hload
      rw [hr] at hzero
      cases hzero

end Checked

end Exec

private theorem execWithin_iff (base : Word) (image : ElfImage) :
    ExecWithin base image ↔ (dynamicExecHeaders image ≠ none →
      ∃ relaplt, (Sections.find image).relaplt = some relaplt ∧ ExecFits image relaplt) := by
  constructor
  · intro h hheaders
    cases hrelaplt : (Sections.find image).relaplt with
    | none =>
        have hload := h.within 0 0 []
        rw [loadDynamicExec_of_no_plt hheaders hrelaplt] at hload
        exact absurd hload (not_succeeds_error _)
    | some relaplt => exact ⟨relaplt, rfl, execFits_of hheaders hrelaplt h⟩
  · intro h
    by_cases hheaders : dynamicExecHeaders image = none
    · refine ⟨fun stackSize stackAddr dynlinktbl => ?_, fun hsome => absurd hheaders hsome⟩
      obtain ⟨r, -, -, hr⟩ := loadDynamicExec_of_none base stackSize stackAddr dynlinktbl hheaders
      exact ⟨r, hr⟩
    · obtain ⟨relaplt, hrelaplt, hfits⟩ := h hheaders
      exact execWithin_of hheaders hrelaplt hfits

/--
The loader of the library stays within its bounds just if its `&` is zero exactly
without `.dynstr` and the symbols fit; the loader of programs just if there is a
`.rela.plt`, its entries fit, and one of another type ends it if a section is missing.
-/
theorem loaders_within_iff (base : Word) (image : ElfImage) :
    (SharedWithin base image ↔ (sharedLibraryHeaders image ≠ none → SharedFits base image)) ∧
      (ExecWithin base image ↔ (dynamicExecHeaders image ≠ none →
        ∃ relaplt, (Sections.find image).relaplt = some relaplt ∧ ExecFits image relaplt)) :=
  ⟨sharedWithin_iff base image, execWithin_iff base image⟩

/-- A program without a `.rela.plt`. -/
theorem not_execWithin_someFile :
    dynamicExecHeaders (someFile (someSegment 8)) = some (someSegment 8) ∧
      ¬ExecWithin 0x20110000 (someFile (someSegment 8)) := by
  have hheaders : dynamicExecHeaders (someFile (someSegment 8)) = some (someSegment 8) := by
    decide +kernel
  refine ⟨hheaders, fun h => ?_⟩
  have hload := h.within 0x1000 0 []
  rw [loadDynamicExec_of_no_plt (hheaders ▸ Option.some_ne_none _) (by decide +kernel)] at hload
  exact not_succeeds_error _ hload

/-! ## Programs that are accepted -/

def Accepted (load : Except LoaderFault ExecLoad) : Prop := ∃ r, load = .ok r ∧ r.result = 0

theorem accepted_iff {load : Except LoaderFault ExecLoad} :
    Accepted load ↔ load.toOption.map ExecLoad.result = some 0 := by
  cases load with
  | error fault => exact iff_of_false (by rintro ⟨r, hr, -⟩; cases hr) (by simp [Except.toOption])
  | ok r =>
      constructor
      · rintro ⟨r', hr', hzero⟩
        cases hr'
        exact congrArg some hzero
      · intro hzero
        exact ⟨r, rfl, Option.some.inj hzero⟩

theorem accepted_someProgram :
    Accepted (loadDynamicExec 0x20110000 someProgram 0x1000 0 [⟨0x20700100, [0x66]⟩]) :=
  accepted_iff.mpr (by decide +kernel)

end PComputer.PseudOS
