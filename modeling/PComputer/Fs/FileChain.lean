import Mathlib.Data.List.Chain
import Mathlib.Logic.Relation
import PComputer.Fs.Positions

/-!
# Following chains of clusters

`FAT32_Read` compares all 32 bits of a FAT entry with `0x0fffffff`, where FAT32 has
28 bits and eight end markers.  Along a file it goes on only as long as the entries
count up; along the root directory it takes each entry as the next cluster.
-/

namespace PComputer.PseudOS

open PComputer.Foundation

namespace Fat32

variable {fs : Fat32} {disk : Disk} {junk : Word → Word → Byte} {name ext : List Byte}
  {chain clusters : List Word} {c d old : Word}

/-! ## Entries -/

def entryRead (fs : Fat32) (disk : Disk) (c : Word) : Word := fs.nextEntry disk c 0

private theorem le32_bytes (w : Word) :
    le32 [w.extractLsb' 0 8, w.extractLsb' 8 8, w.extractLsb' 16 8, w.extractLsb' 24 8] 0 = w := by
  simp only [le32, le16, List.getD_eq_getElem?_getD, List.getElem?_cons_succ,
    List.getElem?_cons_zero, Option.getD_some]
  ext i hi
  simp only [BitVec.getElem_append, BitVec.getElem_extractLsb']
  rw [← BitVec.getLsbD_eq_getElem hi]
  split_ifs <;> congr 1 <;> omega

private theorem nextEntry_cases (fs : Fat32) (disk : Disk) (c : Word) :
    (∀ old, fs.nextEntry disk c old = fs.entryRead disk c) ∨
      ∀ old, fs.nextEntry disk c old = old := by
  by_cases hfits : (fs.fatPos c).toNat + (4 : Word).toNat < 2 ^ 32
  · refine .inl fun old => ?_
    unfold entryRead nextEntry
    rw [seekAndRead_eq rfl hfits, seekAndRead_eq rfl hfits]
  · refine .inr fun old => ?_
    unfold nextEntry seekAndRead
    rw [if_neg hfits, le32_bytes]

private theorem nextEntry_of_ne_zero (h : fs.entryRead disk c ≠ 0) :
    fs.nextEntry disk c old = fs.entryRead disk c := by
  rcases nextEntry_cases fs disk c with hread | hkeep
  · exact hread old
  · exact absurd (hkeep 0) h

/-! ## The loop along a file -/

def CountsUp (fs : Fat32) (disk : Disk) (c d : Word) : Prop :=
  d = c + 1 ∧ d < 0x0fffffff ∧ fs.entryRead disk c = d

/-- From the cluster on the entries count up to one that is at least `0x0fffffff`. -/
def Taken (fs : Fat32) (disk : Disk) (c : Word) : Prop :=
  ∃ d, Relation.ReflTransGen (fs.CountsUp disk) c d ∧ 0x0fffffff ≤ fs.entryRead disk d

/-- From the cluster on the entries count up to one that is less and does not follow. -/
def Refused (fs : Fat32) (disk : Disk) (c : Word) : Prop :=
  ∃ d, Relation.ReflTransGen (fs.CountsUp disk) c d ∧ fs.entryRead disk d < 0x0fffffff ∧
    fs.entryRead disk d ≠ d + 1

theorem CountsUp.fileChain {fuel : Nat} {b : Bool} (h : fs.CountsUp disk c d)
    (hc : c < 0x0fffffff) (hrest : fs.fileChain disk fuel d d = some b) :
    fs.fileChain disk (fuel + 1) c old = some b := by
  obtain ⟨rfl, hlt, hentry⟩ := h
  have hne : fs.entryRead disk c ≠ 0 := by
    rw [hentry]
    intro hzero
    have hnat := congrArg BitVec.toNat hzero
    rw [BitVec.toNat_add] at hnat
    have hc' : c.toNat < 0x0fffffff := hc
    change (c.toNat + 1) % 2 ^ 32 = 0 at hnat
    omega
  unfold Fat32.fileChain
  rw [if_pos hc, nextEntry_of_ne_zero hne, hentry]
  dsimp only
  rw [if_neg (fun h => h.2 rfl)]
  exact hrest

theorem Taken.fileChain (h : fs.Taken disk c) (hc : c < 0x0fffffff) (old : Word) :
    ∃ fuel, fs.fileChain disk fuel c old = some true := by
  obtain ⟨d, hpath, hend⟩ := h
  induction hpath using Relation.ReflTransGen.head_induction_on generalizing old with
  | refl =>
      have hne : fs.entryRead disk d ≠ 0 := fun hzero => absurd hend (by rw [hzero]; decide)
      have hnot : ¬fs.entryRead disk d < 0x0fffffff := BitVec.not_lt.mpr hend
      refine ⟨2, ?_⟩
      simp only [Fat32.fileChain, if_pos hc, nextEntry_of_ne_zero hne, hnot, false_and, if_false]
  | head hstep hpath ih =>
      obtain ⟨fuel, hrest⟩ := ih hstep.2.1 _
      exact ⟨fuel + 1, hstep.fileChain hc hrest⟩

theorem Refused.fileChain (h : fs.Refused disk c) (hc : c < 0x0fffffff)
    (hold : old = 0 ∨ old = c) : ∃ fuel, fs.fileChain disk fuel c old = some false := by
  obtain ⟨d, hpath, hlt, hne⟩ := h
  induction hpath using Relation.ReflTransGen.head_induction_on generalizing old with
  | refl =>
      have hnext : fs.nextEntry disk d old < 0x0fffffff ∧ fs.nextEntry disk d old ≠ d + 1 := by
        rcases nextEntry_cases fs disk d with hread | hkeep
        · rw [hread]
          exact ⟨hlt, hne⟩
        · rw [hkeep]
          rcases hold with rfl | rfl
          · exact ⟨by decide, fun h => hne ((hkeep 0).trans h)⟩
          · exact ⟨hc, fun h => absurd (BitVec.add_right_eq_self.mp h.symm) (by decide)⟩
      refine ⟨1, ?_⟩
      simp only [Fat32.fileChain, if_pos hc, hnext, ne_eq, not_false_eq_true, and_self, if_true]
  | head hstep hpath ih =>
      obtain ⟨fuel, hrest⟩ := ih hstep.2.1 (.inr rfl)
      exact ⟨fuel + 1, hstep.fileChain hc hrest⟩

private theorem fileChain_succ {fuel : Nat} {b : Bool} (h : fs.fileChain disk fuel c old = some b) :
    fs.fileChain disk (fuel + 1) c old = some b := by
  induction fuel generalizing c old with
  | zero => cases h
  | succ fuel ih =>
      unfold Fat32.fileChain at h ⊢
      dsimp only at h ⊢
      split_ifs at h ⊢
      · exact h
      · exact ih h
      · exact h

theorem fileChain_mono {fuel fuel' : Nat} {b : Bool} (hle : fuel ≤ fuel')
    (h : fs.fileChain disk fuel c old = some b) : fs.fileChain disk fuel' c old = some b := by
  induction fuel', hle using Nat.le_induction with
  | base => exact h
  | succ fuel' hle ih => exact fileChain_succ ih

private theorem fileChain_unique {fuel fuel' : Nat} {b b' : Bool}
    (h : fs.fileChain disk fuel c old = some b) (h' : fs.fileChain disk fuel' c old = some b') :
    b = b' := by
  have hmax := fileChain_mono (Nat.le_max_left fuel fuel') h
  have hmax' := fileChain_mono (Nat.le_max_right fuel fuel') h'
  exact Option.some.inj (hmax.symm.trans hmax')

/-- The clusters that the loop goes through count up to `0x0fffffff`, so it ends. -/
theorem taken_or_refused (hc : c < 0x0fffffff) : fs.Taken disk c ∨ fs.Refused disk c := by
  induction hn : 0x0fffffff - c.toNat using Nat.strong_induction_on generalizing c with
  | _ n ih =>
      by_cases hend : 0x0fffffff ≤ fs.entryRead disk c
      · exact .inl ⟨c, .refl, hend⟩
      · have hlt : fs.entryRead disk c < 0x0fffffff := BitVec.not_le.mp hend
        by_cases hnext : fs.entryRead disk c = c + 1
        · have hc' : c.toNat < 0x0fffffff := hc
          have hsucc : (c + 1).toNat = c.toNat + 1 := by
            rw [BitVec.toNat_add]
            exact Nat.mod_eq_of_lt (by change c.toNat + 1 < 2 ^ 32; omega)
          have hstep : fs.CountsUp disk c (c + 1) := ⟨rfl, hnext ▸ hlt, hnext⟩
          rcases ih _ (by rw [hsucc]; omega) hstep.2.1 rfl with ⟨d, hpath, hd⟩ | ⟨d, hpath, hd⟩
          · exact .inl ⟨d, .head hstep hpath, hd⟩
          · exact .inr ⟨d, .head hstep hpath, hd⟩
        · exact .inr ⟨c, .refl, hlt, hnext⟩

theorem exists_fileChain (fs : Fat32) (disk : Disk) (hc : c < 0x0fffffff) :
    ∃ fuel b, fs.fileChain disk fuel c 0 = some b ∧ (b = true ↔ fs.Taken disk c) ∧
      (b = false ↔ fs.Refused disk c) := by
  have hnot (htaken : fs.Taken disk c) (hrefused : fs.Refused disk c) : False := by
    obtain ⟨fuel, htrue⟩ := htaken.fileChain hc 0
    obtain ⟨fuel', hfalse⟩ := hrefused.fileChain hc (.inl rfl)
    exact absurd (fileChain_unique htrue hfalse) (by decide)
  rcases taken_or_refused hc with htaken | hrefused
  · obtain ⟨fuel, htrue⟩ := htaken.fileChain hc 0
    exact ⟨fuel, true, htrue, iff_of_true rfl htaken, iff_of_false nofun fun h => hnot htaken h⟩
  · obtain ⟨fuel, hfalse⟩ := hrefused.fileChain hc (.inl rfl)
    exact ⟨fuel, false, hfalse, iff_of_false nofun fun h => hnot h hrefused,
      iff_of_true rfl hrefused⟩

/-! ## The loop along the root directory -/

/-- The clusters that the loop goes through as long as it finds nothing. -/
inductive Walks (fs : Fat32) (disk : Disk) : Word → List Word → Prop
  | stop {c : Word} : 0x0fffffff ≤ c → Walks fs disk c []
  | next {c : Word} {rest : List Word} : c < 0x0fffffff →
      Walks fs disk (fs.nextEntry disk c c) rest → Walks fs disk c (c :: rest)

def walkAlong (fs : Fat32) (disk : Disk) (junk : Word → Word → Byte) (name ext : List Byte) :
    List Word → Nat → List Byte → Option (Option (Word × Word × List Byte))
  | _, 0, _ => none
  | [], _ + 1, _ => some none
  | c :: rest, fuel + 1, record =>
      match fs.scan disk junk name ext c fuel 0 record with
      | none => none
      | some (true, recordCnt, record) => some (some (c, recordCnt, record))
      | some (false, _, record) => walkAlong fs disk junk name ext rest fuel record

theorem Walks.walk_eq (h : fs.Walks disk c clusters) (fuel : Nat) (record : List Byte) :
    fs.walk disk junk name ext fuel c record =
      fs.walkAlong disk junk name ext clusters fuel record := by
  induction h generalizing fuel record with
  | stop hend =>
      cases fuel with
      | zero => rfl
      | succ fuel => simp only [walk, walkAlong, if_neg (BitVec.not_lt.mpr hend)]
  | @next c _ hlt hrest ih =>
      cases fuel with
      | zero => rfl
      | succ fuel =>
          rw [walk, walkAlong, if_pos hlt]
          cases fs.scan disk junk name ext c fuel 0 record with
          | none => rfl
          | some result =>
              obtain ⟨found, _, record⟩ := result
              cases found with
              | false => exact ih fuel record
              | true => rfl

private theorem Walks.eq_head {rest : List Word} (h : fs.Walks disk c (d :: rest)) : c = d := by
  cases h
  rfl

theorem Chain.exists_cons (h : fs.Chain disk c chain) : ∃ rest, chain = c :: rest := by
  cases h with
  | last => exact ⟨[], rfl⟩
  | next => exact ⟨_, rfl⟩

structure GoesOn (fs : Fat32) (disk : Disk) (c : Word) : Prop where
  next : clusterOf (fs.fatEntry disk c) < 0x0ffffff8 →
    fs.nextEntry disk c c = clusterOf (fs.fatEntry disk c)
  ends : 0x0ffffff8 ≤ clusterOf (fs.fatEntry disk c) → 0x0fffffff ≤ fs.nextEntry disk c c

/-- The loop goes through a chain just if it goes on rightly from each of its clusters. -/
theorem walks_iff (h : fs.Chain disk c chain) :
    fs.Walks disk c chain ↔ ∀ d ∈ chain, fs.GoesOn disk d := by
  induction h with
  | @last c hc hlt hend =>
      have hentry : c < 0x0fffffff := BitVec.lt_trans hlt (by decide)
      constructor
      · intro hwalks d hd
        obtain rfl := List.mem_singleton.mp hd
        cases hwalks with
        | next _ hrest =>
            cases hrest with
            | stop hstop => exact ⟨fun hlow => absurd hlow (BitVec.not_lt.mpr hend), fun _ => hstop⟩
      · intro hgoes
        exact .next hentry (.stop ((hgoes c List.mem_cons_self).ends hend))
  | @next c rest hc hlt hrest ih =>
      have hentry : c < 0x0fffffff := BitVec.lt_trans hlt (by decide)
      constructor
      · intro hwalks
        cases hwalks with
        | next _ hwalks =>
            obtain ⟨tail, rfl⟩ := hrest.exists_cons
            have hnext := hwalks.eq_head
            rw [hnext] at hwalks
            refine List.forall_mem_cons.mpr ⟨⟨fun _ => hnext, fun hend => ?_⟩, ih.mp hwalks⟩
            exact absurd hrest.lt (BitVec.not_lt.mpr hend)
      · intro hgoes
        have hnext := (hgoes c List.mem_cons_self).next hrest.lt
        refine .next hentry ?_
        rw [hnext]
        exact ih.mpr fun d hd => hgoes d (List.mem_cons_of_mem _ hd)

/-! ## Files -/

/-- Whatever `rec_ext[3]` and `record` hold before, the lookup ends at the record. -/
def Found (fs : Fat32) (disk : Disk) (file record : List Byte) : Prop :=
  ∀ (junk : Word → Word → Byte) (stack : List Byte), stack.length = 32 →
    ∃ fuel c n, fs.lookup disk junk stack fuel file = some (some (c, n, record))

theorem SideBySide.found {file : List Byte} {m p : Nat} (hside : fs.SideBySide disk chain m)
    (hfits : fs.clusterByte fs.root + 32 * m < 2 ^ 32) (hwf : fs.WellFormed disk chain)
    (hname : ShortName name ext) (hpath : IsPath file name ext) (hthree : ext.length = 3)
    (hp : fs.IsRecordOf disk chain name ext p) : fs.Found disk file (recordAt disk p) := by
  intro junk stack hstack
  obtain ⟨n, hread, hundisturbed⟩ := hside.readable hwf.clusters.two_le hfits hp.1
  obtain ⟨fuel, c, i, hlookup, -⟩ :=
    lookup_some hwf hname hpath hp hthree hread hundisturbed hstack junk
  exact ⟨fuel, c, _, hlookup⟩

def clampedSize (record : List Byte) (seek size : Word) : Word :=
  if DirectoryRecord.fileSize record < seek + size then DirectoryRecord.fileSize record - seek
  else size

variable {file record buf : List Byte} {seek size : Word}

def readAfter (fs : Fat32) (disk : Disk) (record : List Byte) (seek size : Word)
    (buf : List Byte) (continuous : Bool) : Int × List Byte :=
  if continuous then
    ((clampedSize record seek size).toInt,
      seekAndRead disk (fs.dataPos (DirectoryRecord.fileCluster record) seek)
        (clampedSize record seek size) buf)
  else (-1, buf)

theorem readFile_eq {fuel : Nat} {b : Bool}
    (h : fs.fileChain disk fuel (DirectoryRecord.fileCluster record) 0 = some b) :
    fs.readFile disk fuel record seek size buf =
      some (fs.readAfter disk record seek size buf b) := by
  unfold readFile
  dsimp only
  rw [h]
  cases b <;> rfl

theorem lookup_mono {stack : List Byte} {fuel fuel' : Nat}
    {r : Option (Word × Word × List Byte)} (hle : fuel ≤ fuel')
    (h : fs.lookup disk junk stack fuel file = some r) :
    fs.lookup disk junk stack fuel' file = some r := by
  unfold lookup at h ⊢
  split at h
  · exact h
  · exact walk_mono hle h

theorem Found.fat32Read (hfound : fs.Found disk file record)
    (hc : DirectoryRecord.fileCluster record < 0x0fffffff) {stack : List Byte}
    (hstack : stack.length = 32) (junk : Word → Word → Byte) :
    ∃ fuel b, (b = true ↔ fs.Taken disk (DirectoryRecord.fileCluster record)) ∧
      (b = false ↔ fs.Refused disk (DirectoryRecord.fileCluster record)) ∧
      fs.fileChain disk fuel (DirectoryRecord.fileCluster record) 0 = some b ∧
      ∀ seek size buf, fs.fat32Read disk junk stack fuel file seek size buf =
        some (fs.readAfter disk record seek size buf b) := by
  obtain ⟨fuel, c, n, hlookup⟩ := hfound junk stack hstack
  obtain ⟨fuel', b, hchain, htaken, hrefused⟩ := exists_fileChain fs disk hc
  have hlookup' := lookup_mono (Nat.le_max_left fuel fuel') hlookup
  have hchain' := fileChain_mono (Nat.le_max_right fuel fuel') hchain
  refine ⟨max fuel fuel', b, htaken, hrefused, hchain', fun seek size buf => ?_⟩
  unfold Fat32.fat32Read
  rw [hlookup']
  exact readFile_eq hchain'

/-! ## Chains by the rules of FAT32 -/

def Consecutive (clusters : List Word) : Prop := clusters.IsChain fun c d => d = c + 1

/-! ### A file of one cluster -/

def fileDisk (size marker : Word) : Disk
  | 1, 2 => 0x0fffffff
  | 1, 3 => marker
  | 2, 0 => 0x20202041
  | 2, 1 => 0x20202020
  | 2, 2 => txt
  | 2, 6 => 0x00030000
  | 2, 7 => size
  | 3, _ => 0x64636261
  | _, _ => 0

def txtPath : List Byte := [0x2f, 0x41, 0x2e, 0x54, 0x58, 0x54]

theorem wellFormed_fileDisk : smallVolume.WellFormed (fileDisk 8 0x0fffffff) [2] :=
  wellFormed_oneRecord (by decide +kernel) (by decide +kernel) (by decide +kernel)

theorem found_fileDisk : smallVolume.Found (fileDisk 8 0x0fffffff) txtPath
    (recordAt (fileDisk 8 0x0fffffff) 1024) := by
  have hpath : IsPath txtPath [0x41] [0x54, 0x58, 0x54] := .inl rfl
  have hside : smallVolume.SideBySide (fileDisk 8 0x0fffffff) [2] 1 :=
    { position := by decide
      before := by decide +kernel
      zero := by decide +kernel }
  have hrecord : smallVolume.IsRecordOf (fileDisk 8 0x0fffffff) [2] [0x41] [0x54, 0x58, 0x54]
      1024 := by
    refine ⟨inDirectory_oneRecord (by decide +kernel), ?_⟩
    unfold Matches DirectoryRecord.Live DirectoryRecord.Names
    decide +kernel
  exact hside.found (by decide) wellFormed_fileDisk shortName_txt hpath rfl hrecord

theorem fileCluster_fileDisk :
    DirectoryRecord.fileCluster (recordAt (fileDisk 8 0x0fffffff) 1024) = 3 := by
  decide +kernel

end Fat32

end PComputer.PseudOS
