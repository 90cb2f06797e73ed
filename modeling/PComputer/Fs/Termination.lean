import PComputer.Fs.ReadWithin

/-!
# When `FAT32_Read` ends

The loop along a file ends on every disk, as the clusters count up.  Neither the loop
over the records of a cluster nor the one over the clusters of the root directory
counts anything: the first ends at a record that begins with a zero or is the file's,
the second at an entry that is at least `0x0fffffff`.
-/

namespace PComputer.PseudOS

open PComputer.Foundation

namespace Fat32

variable {fs : Fat32} {disk : Disk} {junk : Word → Word → Byte} {name ext : List Byte}
  {c d old : Word} {file record : List Byte} {n : Nat}

/-! ## The loop over the clusters -/

def EndsAt (fs : Fat32) (disk : Disk) (c : Word) (n : Nat) : Prop :=
  (fs.seen disk c n).getD 0 0 = 0

/-- Whatever `rec_ext[3]` holds, the record is taken for the file's. -/
def HitAt (fs : Fat32) (disk : Disk) (name ext : List Byte) (c : Word) (n : Nat) : Prop :=
  ∀ b, DirectoryRecord.isFile (fs.seen disk c n) b name ext = true

/-- The records from the cluster on come to a zero before the file's. -/
def Lacks (fs : Fat32) (disk : Disk) (name ext : List Byte) (c : Word) : Prop :=
  ∃ n, fs.EndsAt disk c n ∧ ∀ i < n, ¬fs.HitAt disk name ext c i

def Holds (fs : Fat32) (disk : Disk) (name ext : List Byte) (c : Word) : Prop :=
  ∃ n, fs.HitAt disk name ext c n ∧ ∀ i < n, ¬fs.EndsAt disk c i

def GoesTo (fs : Fat32) (disk : Disk) (name ext : List Byte) (c d : Word) : Prop :=
  c < 0x0fffffff ∧ fs.Lacks disk name ext c ∧ d = fs.nextEntry disk c c

/-- The walk comes to an entry that ends it or to a cluster that holds the file. -/
def WalkEnds (fs : Fat32) (disk : Disk) (name ext : List Byte) (c : Word) : Prop :=
  ∃ d, Relation.ReflTransGen (fs.GoesTo disk name ext) c d ∧
    (0x0fffffff ≤ d ∨ fs.Holds disk name ext d)

private theorem HitAt.not_endsAt (h : fs.HitAt disk name ext c n) : ¬fs.EndsAt disk c n := by
  intro hzero
  have hfile := h 0
  unfold EndsAt at hzero
  unfold DirectoryRecord.isFile DirectoryRecord.isValidFile at hfile
  rw [hzero] at hfile
  simp at hfile

section Ends

variable (junk) (hrecord : record.length = 32)

include hrecord

theorem Holds.scan (h : fs.Holds disk name ext c) : ∃ fuel recordCnt last,
    fs.scan disk junk name ext c fuel 0 record = some (true, recordCnt, last) := by
  obtain ⟨n, hhit, hbefore⟩ := h
  obtain ⟨⟨b, cnt, last⟩, hscan⟩ := exists_scan (n := 0) hrecord (Nat.zero_le n)
    (.inl (hhit (junk c (BitVec.ofNat 32 n))))
  obtain ⟨m, hstops, -⟩ := scan_stops (n := 0) hrecord hscan
  cases b with
  | true => exact ⟨_, cnt, last, hscan⟩
  | false =>
      have hzero := hstops.zero rfl
      rcases Nat.lt_trichotomy m n with hlt | rfl | hgt
      · exact absurd hzero (hbefore m hlt)
      · exact absurd hzero hhit.not_endsAt
      · have hmiss := (hstops.before n (Nat.zero_le n) hgt).2
        rw [hhit] at hmiss
        cases hmiss

theorem Lacks.scan (h : fs.Lacks disk name ext c) : ∃ fuel b recordCnt last,
    fs.scan disk junk name ext c fuel 0 record = some (b, recordCnt, last) ∧
      last.length = 32 := by
  obtain ⟨n, hzero, -⟩ := h
  obtain ⟨⟨b, cnt, last⟩, hscan⟩ := exists_scan (n := 0) hrecord (Nat.zero_le n) (.inr hzero)
  exact ⟨_, b, cnt, last, hscan, length_of_scan hrecord hscan⟩

theorem WalkEnds.walk (h : fs.WalkEnds disk name ext c) :
    ∃ fuel r, fs.walk disk junk name ext fuel c record = some r := by
  obtain ⟨d, hpath, hend⟩ := h
  induction hpath using Relation.ReflTransGen.head_induction_on generalizing record with
  | refl =>
      by_cases hlt : d < 0x0fffffff
      · obtain ⟨fuel, cnt, last, hscan⟩ :=
          (hend.resolve_left (BitVec.not_le.mpr hlt)).scan junk hrecord
        exact ⟨fuel + 1, _, walk_of_scan hlt hscan⟩
      · exact ⟨1, none, if_neg hlt⟩
  | head hstep hpath ih =>
      obtain ⟨hlt, hlacks, rfl⟩ := hstep
      obtain ⟨fuel, b, cnt, last, hscan, hlast⟩ := hlacks.scan junk hrecord
      cases b with
      | true => exact ⟨fuel + 1, _, walk_of_scan hlt hscan⟩
      | false =>
          obtain ⟨fuel', r, hwalk⟩ := ih hlast
          have hscan' := scan_mono (Nat.le_max_left fuel fuel') hscan
          have hwalk' := walk_mono (Nat.le_max_right fuel fuel') hwalk
          exact ⟨max fuel fuel' + 1, r, (walk_of_scan hlt hscan').trans hwalk'⟩

end Ends

/-! ### A byte in `rec_ext[3]` that makes a record fail if one can -/

open Classical in
noncomputable def failing (fs : Fat32) (disk : Disk) (name ext : List Byte) (c recordCnt : Word) :
    Byte :=
  if h : ∃ b, DirectoryRecord.isFile (recordAt disk (fs.seenPos c recordCnt)) b name ext = false
  then h.choose else 0

private theorem isFile_failing :
    DirectoryRecord.isFile (fs.seen disk c n) (fs.failing disk name ext c (BitVec.ofNat 32 n)) name
      ext = true ↔ fs.HitAt disk name ext c n := by
  unfold failing seen HitAt
  split_ifs with h
  · rw [h.choose_spec]
    obtain ⟨b, hb⟩ := h
    exact iff_of_false nofun fun hhit => by
      have hfile := hhit b
      unfold seen at hfile
      rw [hb] at hfile
      cases hfile
  · refine ⟨fun _ b => ?_, fun hhit => hhit 0⟩
    by_contra hfalse
    exact h ⟨b, eq_false_of_ne_true hfalse⟩

private theorem WalkEnds.of_walk {fuel : Nat} {r : Option (Word × Word × List Byte)}
    (hrecord : record.length = 32)
    (h : fs.walk disk (fs.failing disk name ext) name ext fuel c record = some r) :
    fs.WalkEnds disk name ext c := by
  induction fuel generalizing c record with
  | zero => cases h
  | succ fuel ih =>
      by_cases hlt : c < 0x0fffffff
      · cases hscan : fs.scan disk (fs.failing disk name ext) name ext c fuel 0 record with
        | none =>
            rw [Fat32.walk, if_pos hlt, hscan] at h
            cases h
        | some s =>
            obtain ⟨b, cnt, last⟩ := s
            obtain ⟨m, hstops, -⟩ := scan_stops (n := 0) hrecord hscan
            have hmiss (i : Nat) (hi : i < m) : ¬fs.HitAt disk name ext c i := by
              rw [← isFile_failing, (hstops.before i (Nat.zero_le i) hi).2]
              exact Bool.false_ne_true
            rw [walk_of_scan hlt hscan] at h
            cases b with
            | true =>
                exact ⟨c, .refl, .inr ⟨m, isFile_failing.mp hstops.file, fun i hi =>
                  (hstops.before i (Nat.zero_le i) hi).1⟩⟩
            | false =>
                obtain ⟨d, hpath, hend⟩ := ih (length_of_scan hrecord hscan) h
                exact ⟨d, .head ⟨hlt, ⟨m, hstops.zero rfl, hmiss⟩, rfl⟩ hpath, hend⟩
      · exact ⟨c, .refl, .inl (BitVec.not_lt.mp hlt)⟩

/-! ## Calls -/

theorem fileChain_ends (fs : Fat32) (disk : Disk) (c : Word) :
    ∃ fuel b, fs.fileChain disk fuel c 0 = some b := by
  by_cases hlt : c < 0x0fffffff
  · obtain ⟨fuel, b, hchain, -⟩ := exists_fileChain fs disk hlt
    exact ⟨fuel, b, hchain⟩
  · exact ⟨1, true, if_neg hlt⟩

/-- Whatever `rec_ext[3]` and `record` hold before, enough rounds end the call. -/
def Terminates (fs : Fat32) (disk : Disk) (file : List Byte) : Prop :=
  ∀ (junk : Word → Word → Byte) (stack : List Byte), stack.length = 32 → ∀ seek size buf,
    ∃ fuel r, fs.fat32Read disk junk stack fuel file seek size buf = some r

/-- A path that is parsed ends just if the walk from the root directory does. -/
theorem terminates_iff : fs.Terminates disk file ↔
    ∀ name ext, parsePath file = some (name, ext) → fs.WalkEnds disk name ext fs.root := by
  constructor
  · intro hends name ext hpath
    obtain ⟨fuel, r, hread⟩ := hends (fs.failing disk name ext) (List.replicate 32 0)
      List.length_replicate 0 0 []
    unfold fat32Read at hread
    cases hlookup : fs.lookup disk (fs.failing disk name ext) (List.replicate 32 0) fuel file with
    | none =>
        rw [hlookup] at hread
        cases hread
    | some found =>
        unfold lookup at hlookup
        rw [hpath] at hlookup
        exact .of_walk List.length_replicate hlookup
  · intro hwalk junk stack hstack seek size buf
    have hlookup : ∃ fuel found, fs.lookup disk junk stack fuel file = some found := by
      unfold lookup
      cases hpath : parsePath file with
      | none => exact ⟨0, none, rfl⟩
      | some p => exact (hwalk p.1 p.2 hpath).walk junk hstack
    obtain ⟨fuel, found, hlookup⟩ := hlookup
    cases found with
    | none =>
        refine ⟨fuel, (-1, buf), ?_⟩
        unfold fat32Read
        rw [hlookup]
    | some f =>
        obtain ⟨c, cnt, record⟩ := f
        obtain ⟨fuel', b, hchain⟩ :=
          fileChain_ends fs disk (DirectoryRecord.fileCluster record)
        refine ⟨max fuel fuel', fs.readAfter disk record seek size buf b, ?_⟩
        unfold fat32Read
        rw [lookup_mono (Nat.le_max_left fuel fuel') hlookup]
        exact readFile_eq (fileChain_mono (Nat.le_max_right fuel fuel') hchain)

theorem terminates_iff_txt : smallVolume.Terminates (smallDisk txt) txtPath := by
  refine terminates_iff.mpr fun name ext hpath => ?_
  have hparsed : parsePath txtPath = some ([0x41], [0x54, 0x58, 0x54]) := by decide +kernel
  obtain ⟨rfl, rfl⟩ := Prod.mk.inj (Option.some.inj (hparsed.symm.trans hpath))
  have hmatches : Matches (smallDisk txt) [0x41] [0x54, 0x58, 0x54] 1024 := by
    unfold Matches DirectoryRecord.Live DirectoryRecord.Names
    decide +kernel
  refine ⟨2, .refl, .inr ⟨0, fun b => ?_, by simp⟩⟩
  exact (hmatches.2.resembles hmatches.1 (by decide)).isFile (length_recordAt _ _)
    shortName_txt.plain shortName_txt.plainExt shortName_txt.nonempty rfl

/-! ### A root directory that is its own next cluster -/

def cyclicDisk : Disk
  | 1, 2 => 2
  | _, _ => 0

private theorem walk_cyclicDisk (fuel : Nat) (hrecord : record.length = 32) :
    smallVolume.walk cyclicDisk (fun _ _ => 0) [0x41] [0x54, 0x58, 0x54] fuel 2 record = none := by
  induction fuel generalizing record with
  | zero => rfl
  | succ fuel ih =>
      have hnext : smallVolume.nextEntry cyclicDisk 2 2 = 2 := by decide +kernel
      have hlast : (smallVolume.seen cyclicDisk 2 0).length = 32 := length_recordAt _ _
      cases fuel with
      | zero => rfl
      | succ fuel =>
          have hfile : DirectoryRecord.isFile (smallVolume.seen cyclicDisk 2 0) 0 [0x41]
              [0x54, 0x58, 0x54] = false := by decide +kernel
          have hzero : (smallVolume.seen cyclicDisk 2 0).getD 0 0 = 0 := by decide +kernel
          have hscan : smallVolume.scan cyclicDisk (fun _ _ => 0) [0x41] [0x54, 0x58, 0x54] 2
              (fuel + 1) 0 record = some (false, 0, smallVolume.seen cyclicDisk 2 0) := by
            refine (scan_succ_eq (n := 0) hrecord).trans ?_
            rw [hfile, if_neg Bool.false_ne_true, if_neg (not_not.mpr hzero)]
            rfl
          rw [walk_of_scan (by decide) hscan, hnext]
          exact ih hlast

theorem cyclic_directory_endless : ¬smallVolume.Terminates cyclicDisk txtPath := by
  intro hends
  obtain ⟨fuel, r, hread⟩ := hends (fun _ _ => 0) (List.replicate 32 0) List.length_replicate 0 0 []
  have hpath : parsePath txtPath = some ([0x41], [0x54, 0x58, 0x54]) := by decide +kernel
  have hlookup : smallVolume.lookup cyclicDisk (fun _ _ => 0) (List.replicate 32 0) fuel txtPath =
      none := by
    unfold lookup
    rw [hpath]
    exact walk_cyclicDisk fuel List.length_replicate
  unfold fat32Read at hread
  rw [hlookup] at hread
  cases hread

end Fat32

end PComputer.PseudOS
