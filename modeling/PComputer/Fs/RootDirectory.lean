import PComputer.Fs.Scans

/-!
# Looking a file up in the root directory

The root directory is a chain of clusters; its records end at the first that begins
with a zero.  `FAT32_Read` follows the chain only after such a record, so from each
cluster of the chain it reads on, past the end of the cluster, to the next zero.
-/

namespace PComputer.PseudOS

open PComputer.Foundation

namespace Fat32

variable {fs : Fat32} {disk : Disk} {junk : Word → Word → Byte} {name ext : List Byte}
  {chain : List Word} {c : Word} {n p : Nat}

/-! ## Records that are read -/

/-- Where the record lies that a lookup reads after `n` others, if it finds none of them. -/
def readPos (fs : Fat32) (disk : Disk) (n : Nat) : Option Nat :=
  (visits (fs.nextRead disk) (fs.root, 0) n).map fun r => fs.seenPos r.1 (BitVec.ofNat 32 r.2)

def Resembles (disk : Disk) (name ext : List Byte) (p : Nat) : Prop :=
  DirectoryRecord.Resembles (recordAt disk p) name ext

/-- Nothing outside the directory that is read before resembles the record of the file. -/
def Undisturbed (fs : Fat32) (disk : Disk) (chain : List Word) (name ext : List Byte) (n : Nat) :
    Prop :=
  ∀ m < n, ∀ p, fs.readPos disk m = some p → ¬fs.InDirectory disk chain p →
    ¬Resembles disk name ext p

theorem Undisturbed.mono {m : Nat} (h : fs.Undisturbed disk chain name ext n) (hle : m ≤ n) :
    fs.Undisturbed disk chain name ext m :=
  fun i hi => h i (Nat.lt_of_lt_of_le hi hle)

private theorem readPos_eq_none :
    fs.readPos disk n = none ↔ visits (fs.nextRead disk) (fs.root, 0) n = none :=
  Option.map_eq_none_iff

private theorem readPos_eq_some : fs.readPos disk n = some p ↔
    ∃ d i, visits (fs.nextRead disk) (fs.root, 0) n = some (d, i) ∧
      fs.seenPos d (BitVec.ofNat 32 i) = p := by
  unfold readPos
  rw [Option.map_eq_some_iff, Prod.exists]

private theorem recordPos_of_first {i : Nat}
    (hvisits : visits (fs.nextRead disk) (fs.root, 0) n = some (c, i))
    (hfirst : ∀ m < n, fs.readPos disk m ≠ some (fs.seenPos c (BitVec.ofNat 32 i))) :
    fs.seenPos c (BitVec.ofNat 32 i) = (fs.recordPos c (BitVec.ofNat 32 i)).toNat := by
  rcases seenPos_cases fs c i with ⟨hpos, -⟩ | ⟨j, rfl, hpos, -⟩
  · exact hpos
  · obtain ⟨m, rfl, hbefore⟩ := visits_before hvisits rfl
    exact absurd (readPos_eq_some.mpr ⟨c, j, hbefore, hpos.symm⟩) (hfirst m (Nat.lt_succ_self m))

/-- Where the byte in `rec_ext[3]` is always the same, no hit is a record that has been kept. -/
private theorem recordPos_of_search {b : Byte} {i : Nat}
    (hsearch : SearchStops (fs.nextRead disk) (fs.takesFor disk (fun _ _ => b) name ext)
      (fs.root, 0) n (some (c, i))) :
    fs.seenPos c (BitVec.ofNat 32 i) = (fs.recordPos c (BitVec.ofNat 32 i)).toNat := by
  refine recordPos_of_first hsearch.result fun m hm hread => ?_
  obtain ⟨d, j, hvisits, hpos⟩ := readPos_eq_some.mp hread
  have hmiss := hsearch.before m hm _ hvisits
  have hhit := hsearch.takes _ rfl
  unfold takesFor seen at hmiss hhit
  rw [hpos, hhit] at hmiss
  cases hmiss

/-! ## Records of files -/

section Records

variable (hwf : fs.WellFormed disk chain) (hname : ShortName name ext)

include hwf hname

private theorem isRecordOf_iff : fs.IsRecordOf disk chain name ext p ↔
    fs.InDirectory disk chain p ∧ Resembles disk name ext p := by
  refine and_congr_right fun hdirectory => ⟨fun h => h.2.resembles h.1 hname.name8, fun h => ?_⟩
  exact ⟨h.1, h.names (hwf.names p hdirectory) hname.name8⟩

private theorem Undisturbed.not_resembles (h : fs.Undisturbed disk chain name ext n) {m : Nat}
    (hm : m < n) (hread : fs.readPos disk m = some p)
    (hother : ¬fs.IsRecordOf disk chain name ext p) : ¬Resembles disk name ext p := by
  intro hresembles
  by_cases hdirectory : fs.InDirectory disk chain p
  · exact hother ((isRecordOf_iff hwf hname).mpr ⟨hdirectory, hresembles⟩)
  · exact h m hm p hread hdirectory hresembles

end Records

/-! ## Lookups -/

/--
`FAT32_Read` goes to its branch for "file found" with the record of the file just if
there is one, and returns -1 otherwise, whatever `rec_ext[3]` and `record` hold before.
-/
def Finds (fs : Fat32) (disk : Disk) (chain : List Word) (file name ext : List Byte) : Prop :=
  ∀ (junk : Word → Word → Byte) (stack : List Byte), stack.length = 32 →
    ∃ fuel r, fs.lookup disk junk stack fuel file = some r ∧
      (∀ p, r.map (fun f => (fs.recordPos f.1 f.2.1).toNat) = some p ↔
        fs.IsRecordOf disk chain name ext p) ∧
      (r = none → ∀ seek size buf,
        fs.fat32Read disk junk stack fuel file seek size buf = some (-1, buf))

section Lookup

variable {file : List Byte} (hwf : fs.WellFormed disk chain) (hname : ShortName name ext)
  (hpath : IsPath file name ext)

include hname hpath

private theorem lookup_eq (stack : List Byte) (fuel : Nat) :
    fs.lookup disk junk stack fuel file = fs.walk disk junk name ext fuel fs.root stack := by
  unfold lookup
  rw [parsePath_eq hpath hname.plain hname.plainExt hname.name8 hname.ext3]
  rfl

include hwf

private theorem search_of_lookup {stack : List Byte} {fuel : Nat}
    {f : Option (Word × Word × List Byte)}
    (hstack : stack.length = 32) (h : fs.lookup disk junk stack fuel file = some f) :
    ∃ n r, SearchStops (fs.nextRead disk) (fs.takesFor disk junk name ext) (fs.root, 0) n r ∧
      f = r.map (fs.found disk) := by
  rw [lookup_eq hname hpath] at h
  exact search_of_walk hstack (BitVec.lt_trans hwf.clusters.lt (by decide)) h

private theorem exists_lookup {stack : List Byte} {r : Option (Word × Nat)}
    (hstack : stack.length = 32)
    (h : SearchStops (fs.nextRead disk) (fs.takesFor disk junk name ext) (fs.root, 0) n r) :
    ∃ fuel, fs.lookup disk junk stack fuel file = some (r.map (fs.found disk)) := by
  obtain ⟨fuel, hwalk⟩ := exists_walk hstack (BitVec.lt_trans hwf.clusters.lt (by decide)) h
  exact ⟨fuel, (lookup_eq hname hpath stack fuel).trans hwalk⟩

omit hpath in
private theorem Undisturbed.vain (h : fs.Undisturbed disk chain name ext n)
    (hothers : ∀ m < n, ∀ p, fs.readPos disk m = some p →
      ¬fs.IsRecordOf disk chain name ext p) (junk : Word → Word → Byte) :
    ∀ m < n, ∀ place, visits (fs.nextRead disk) (fs.root, 0) m = some place →
      fs.takesFor disk junk name ext place = false := by
  rintro m hm ⟨d, i⟩ hvisits
  have hread := readPos_eq_some.mpr ⟨d, i, hvisits, rfl⟩
  refine eq_false_of_ne_true fun htakes => ?_
  refine h.not_resembles hwf hname hm hread (hothers m hm _ hread) ?_
  exact DirectoryRecord.resembles_of_isFile (length_recordAt disk _) hname.plain hname.plainExt
    htakes

private theorem lookup_none (habsent : ¬∃ p, fs.IsRecordOf disk chain name ext p)
    (hread : fs.readPos disk n = none) (hundisturbed : fs.Undisturbed disk chain name ext n)
    {stack : List Byte} (hstack : stack.length = 32) (junk : Word → Word → Byte) :
    ∃ fuel, fs.lookup disk junk stack fuel file = some none :=
  exists_lookup hwf hname hpath hstack
    { result := readPos_eq_none.mp hread
      before := hundisturbed.vain hwf hname (fun _ _ p _ hp => habsent ⟨p, hp⟩) junk
      takes := by simp }

theorem lookup_some (hp : fs.IsRecordOf disk chain name ext p) (hthree : ext.length = 3)
    (hread : fs.readPos disk n = some p) (hundisturbed : fs.Undisturbed disk chain name ext n)
    {stack : List Byte} (hstack : stack.length = 32) (junk : Word → Word → Byte) :
    ∃ fuel d i, fs.lookup disk junk stack fuel file =
        some (some (d, BitVec.ofNat 32 i, recordAt disk p)) ∧
      (fs.recordPos d (BitVec.ofNat 32 i)).toNat = p := by
  classical
  have hreads : ∃ n, fs.readPos disk n = some p := ⟨n, hread⟩
  obtain ⟨d, i, hvisits, hpos⟩ := readPos_eq_some.mp (Nat.find_spec hreads)
  have hleast (m : Nat) (hm : m < Nat.find hreads) : fs.readPos disk m ≠ some p :=
    Nat.find_min hreads hm
  have hrecordPos := recordPos_of_first hvisits fun m hm => hpos ▸ hleast m hm
  have hseen : fs.seen disk d i = recordAt disk p := congrArg (recordAt disk) hpos
  have hresembles := ((isRecordOf_iff hwf hname).mp hp).2
  have hsearch : SearchStops (fs.nextRead disk) (fs.takesFor disk junk name ext) (fs.root, 0)
      (Nat.find hreads) (some (d, i)) := by
    refine ⟨hvisits, ?_, fun place hplace => ?_⟩
    · refine (hundisturbed.mono (Nat.find_min' hreads hread)).vain hwf hname ?_ junk
      rintro m hm q hq hrecord
      exact hleast m hm (hwf.unique name ext _ _ hrecord hp ▸ hq)
    · obtain rfl := Option.some.inj hplace
      unfold takesFor
      rw [hseen]
      exact hresembles.isFile (length_recordAt disk p) hname.plain hname.plainExt hname.nonempty
        hthree
  obtain ⟨fuel, hlookup⟩ := exists_lookup hwf hname hpath hstack hsearch
  refine ⟨fuel, d, i, ?_, hrecordPos.symm.trans hpos⟩
  rw [hlookup, Option.map_some, found, hseen]

private theorem readable_of_finds (hfinds : fs.Finds disk chain file name ext)
    (hp : fs.IsRecordOf disk chain name ext p) :
    ext.length = 3 ∧
      ∃ n, fs.readPos disk n = some p ∧ fs.Undisturbed disk chain name ext n := by
  have hstack : (List.replicate 32 (0 : Byte)).length = 32 := List.length_replicate
  obtain ⟨fuel, f, hlookup, hf, -⟩ := hfinds (fun _ _ => 0) _ hstack
  obtain ⟨n, r, hsearch, rfl⟩ := search_of_lookup hwf hname hpath hstack hlookup
  obtain ⟨_, hfound, hpos⟩ := Option.map_eq_some_iff.mp ((hf p).mpr hp)
  obtain ⟨⟨d, i⟩, rfl, rfl⟩ := Option.map_eq_some_iff.mp hfound
  have hseenPos : fs.seenPos d (BitVec.ofNat 32 i) = p := (recordPos_of_search hsearch).trans hpos
  have hfile := hsearch.takes _ rfl
  unfold takesFor seen at hfile
  rw [hseenPos] at hfile
  have hthree : ext.length = 3 :=
    DirectoryRecord.length_of_isFile (length_recordAt disk p) hname.plainExt hname.ext3
      hname.name8 (by simp) hp.2.2 hfile
  refine ⟨hthree, n, readPos_eq_some.mpr ⟨d, i, hsearch.result, hseenPos⟩, ?_⟩
  rintro m hm q hread - hresembles
  obtain ⟨d', i', hvisits, hq⟩ := readPos_eq_some.mp hread
  have hmiss := hsearch.before m hm _ hvisits
  unfold takesFor seen at hmiss
  rw [hq, hresembles.isFile (length_recordAt disk q) hname.plain hname.plainExt hname.nonempty
    hthree] at hmiss
  cases hmiss

/-- With a space in `rec_ext[3]` whatever resembles a record of the file is taken for it. -/
theorem ends_of_finds (hfinds : fs.Finds disk chain file name ext)
    (habsent : ¬∃ p, fs.IsRecordOf disk chain name ext p) :
    ∃ n, fs.readPos disk n = none ∧ fs.Undisturbed disk chain name ext n := by
  have hstack : (List.replicate 32 (0 : Byte)).length = 32 := List.length_replicate
  obtain ⟨fuel, f, hlookup, hf, -⟩ := hfinds (fun _ _ => 0x20) _ hstack
  obtain ⟨n, r, hsearch, rfl⟩ := search_of_lookup hwf hname hpath hstack hlookup
  cases r with
  | some place => exact absurd ⟨_, (hf _).mp rfl⟩ habsent
  | none =>
      refine ⟨n, readPos_eq_none.mpr hsearch.result, ?_⟩
      rintro m hm q hread - hresembles
      obtain ⟨d, i, hvisits, hq⟩ := readPos_eq_some.mp hread
      have hmiss := hsearch.before m hm _ hvisits
      unfold takesFor seen at hmiss
      rw [hq, hresembles.isFile_space (length_recordAt disk q) hname.plain hname.plainExt
        hname.nonempty] at hmiss
      cases hmiss

end Lookup

/-! ## Directories whose clusters lie side by side -/

/-- Up to the end marker, record `m`. -/
structure SideBySide (fs : Fat32) (disk : Disk) (chain : List Word) (m : Nat) : Prop where
  position : ∀ i ≤ m, fs.position chain i = some (fs.clusterByte fs.root + 32 * i)
  before : ∀ i < m, disk.byte (fs.clusterByte fs.root + 32 * i) ≠ 0
  zero : disk.byte (fs.clusterByte fs.root + 32 * m) = 0

section SideBySide

variable {m : Nat} (hside : fs.SideBySide disk chain m) (hroot : 2 ≤ fs.root)
  (hfits : fs.clusterByte fs.root + 32 * m < 2 ^ 32)

include hside hroot hfits

omit hside in
private theorem seenPos_of_fits {i : Nat} (hi : i < m) :
    fs.seenPos fs.root (BitVec.ofNat 32 i) = fs.clusterByte fs.root + 32 * i := by
  have hpos : (fs.recordPos fs.root (BitVec.ofNat 32 i)).toNat =
      fs.clusterByte fs.root + 32 * i := recordPos_eq hroot (by omega)
  unfold seenPos
  rw [hpos, if_pos (by omega)]

private theorem SideBySide.readPos_eq {i : Nat} (hi : i < m) :
    fs.readPos disk i = some (fs.clusterByte fs.root + 32 * i) := by
  refine readPos_eq_some.mpr ⟨fs.root, i, visits_nextRead fun j hj => ?_,
    seenPos_of_fits hroot hfits hi⟩
  unfold seen
  rw [seenPos_of_fits hroot hfits (hj.trans hi), getD_recordAt]
  exact hside.before j (hj.trans hi)

/-- There nothing outside the directory is read before the record of a file. -/
theorem SideBySide.readable (hp : fs.InDirectory disk chain p) :
    ∃ n, fs.readPos disk n = some p ∧ fs.Undisturbed disk chain name ext n := by
  obtain ⟨i, hposition, hbefore⟩ := hp
  have hi : i < m := by
    by_contra hge
    exact hbefore m (Nat.le_of_not_lt hge) _ (hside.position m (Nat.le_refl m)) hside.zero
  have hpos := Option.some.inj (hposition.symm.trans (hside.position i (Nat.le_of_lt hi)))
  refine ⟨i, (hside.readPos_eq hroot hfits hi).trans (congrArg some hpos.symm), ?_⟩
  intro j hj q hread houtside
  have hq := hread.symm.trans (hside.readPos_eq hroot hfits (hj.trans hi))
  refine absurd ⟨j, ?_, fun j' hj' => hbefore j' (by omega)⟩ houtside
  exact (hside.position j (by omega)).trans hq.symm

end SideBySide

/-! ### A small volume -/

def smallVolume : Fat32 :=
  { sectorsPerCluster := 1, fatBeginLba := 1, clusterBeginLba := 2, rootDirFirstCluster := 2 }

def smallDisk (extension : Word) : Disk
  | 1, 2 => 0x0fffffff
  | 2, 0 => 0x20202041
  | 2, 1 => 0x20202020
  | 2, 2 => extension
  | _, _ => 0

def txt : Word := 0x20545854

def blank : Word := 0x20202020

private theorem position_smallVolume {i p : Nat} (h : smallVolume.position [2] i = some p) :
    i < 16 ∧ p = 1024 + 32 * i := by
  unfold position at h
  have hn : smallVolume.recordsPerCluster = 16 := rfl
  rw [hn] at h
  have hlt : i / 16 < 1 := by
    by_contra hge
    rw [List.getElem?_eq_none (by simpa using Nat.le_of_not_lt hge)] at h
    cases h
  have hzero : i / 16 = 0 := by omega
  rw [hzero] at h
  have hp : smallVolume.clusterByte 2 + 32 * (i % 16) = p := Option.some.inj h
  have hbase : smallVolume.clusterByte 2 = 1024 := rfl
  omega

theorem wellFormed_oneRecord {disk : Disk}
    (hbytes : ∀ i < 16, disk.byte (1024 + 32 * i) = 0 ↔ i ≠ 0)
    (hnames : (0 : Byte) ∉ DirectoryRecord.shortname (recordAt disk 1024))
    (hfat : smallVolume.fatEntry disk 2 = 0x0fffffff) : smallVolume.WellFormed disk [2] := by
  have hfirst {p : Nat} (hp : smallVolume.InDirectory disk [2] p) : p = 1024 := by
    obtain ⟨i, hi, hbefore⟩ := hp
    obtain ⟨hlt, rfl⟩ := position_smallVolume hi
    have hbyte := hbefore i (Nat.le_refl i) _ hi
    rw [ne_eq, hbytes i hlt, not_not] at hbyte
    rw [hbyte]
  constructor
  case sectors => decide
  case clusters =>
    have hroot : smallVolume.root = 2 := rfl
    rw [hroot]
    exact .last (by decide) (by decide) (by rw [hfat]; decide)
  case marker =>
    intro i j p q hij hp hq hzero
    obtain ⟨hi, rfl⟩ := position_smallVolume hp
    obtain ⟨hj, rfl⟩ := position_smallVolume hq
    rw [hbytes i hi] at hzero
    rw [hbytes j hj]
    omega
  case names =>
    intro p hp
    rw [hfirst hp]
    exact hnames
  case unique =>
    intro name ext p q hp hq
    rw [hfirst hp.1, hfirst hq.1]

theorem inDirectory_oneRecord {disk : Disk} (hbyte : disk.byte 1024 ≠ 0) :
    smallVolume.InDirectory disk [2] 1024 := by
  refine ⟨0, rfl, fun j hj q hq => ?_⟩
  obtain ⟨-, rfl⟩ := position_smallVolume hq
  rw [Nat.le_zero.mp hj]
  exact hbyte

theorem shortName_txt : ShortName [0x41] [0x54, 0x58, 0x54] :=
  ⟨⟨by decide, by decide, by decide⟩, ⟨by decide, by decide, by decide⟩, by decide, by decide,
    by decide⟩

end Fat32

end PComputer.PseudOS
