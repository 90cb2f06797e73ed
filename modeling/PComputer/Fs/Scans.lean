import PComputer.Foundation.Search
import PComputer.Fs.Volume

/-!
# The records that a lookup reads

The loop over the records of a cluster ends only at a record that begins with a zero, or
at the file's; the loop over the clusters follows the FAT from there.  Together they are
a search whose order depends on the disk alone.
-/

namespace PComputer.PseudOS

open PComputer.Foundation

namespace Fat32

variable {fs : Fat32} {disk : Disk} {junk : Word → Word → Byte} {name ext : List Byte}
  {c d : Word} {record : List Byte} {n : Nat}

/-! ## The records that are seen -/

/--
Where the record lies that `record` holds after a read.  The last 32 bytes of the first
4 GiB cannot be read, and `record` keeps the one before.
-/
def seenPos (fs : Fat32) (c recordCnt : Word) : Nat :=
  if (fs.recordPos c recordCnt).toNat + 32 < 2 ^ 32 then (fs.recordPos c recordCnt).toNat
  else (fs.recordPos c (recordCnt - 1)).toNat

def seen (fs : Fat32) (disk : Disk) (c : Word) (n : Nat) : List Byte :=
  recordAt disk (fs.seenPos c (BitVec.ofNat 32 n))

private theorem toNat_recordPos (fs : Fat32) (c recordCnt : Word) :
    (fs.recordPos c recordCnt).toNat =
      ((fs.clusterPos c).toNat + 32 * recordCnt.toNat) % 2 ^ 32 := by
  unfold recordPos
  simp only [BitVec.toNat_setWidth, BitVec.toNat_add, BitVec.toNat_mul, BitVec.ofNat_eq_ofNat,
    BitVec.toNat_ofNat, Nat.reducePow, Nat.reduceMod]
  omega

private theorem clusterPos_mod (fs : Fat32) (c : Word) : (fs.clusterPos c).toNat % 0x200 = 0 := by
  unfold clusterPos
  rw [BitVec.toNat_mul]
  change 0x200 * _ % 2 ^ 64 % 0x200 = 0
  omega

theorem seenPos_cases (fs : Fat32) (c : Word) (n : Nat) :
    fs.seenPos c (BitVec.ofNat 32 n) = (fs.recordPos c (BitVec.ofNat 32 n)).toNat ∧
        fs.seenPos c (BitVec.ofNat 32 n) + 32 < 2 ^ 32 ∨
      ∃ m, n = m + 1 ∧ fs.seenPos c (BitVec.ofNat 32 n) = fs.seenPos c (BitVec.ofNat 32 m) ∧
        2 ^ 32 ≤ (fs.recordPos c (BitVec.ofNat 32 n)).toNat + 32 := by
  by_cases hfits : (fs.recordPos c (BitVec.ofNat 32 n)).toNat + 32 < 2 ^ 32
  · left
    unfold seenPos
    rw [if_pos hfits]
    exact ⟨rfl, hfits⟩
  · have hpos := toNat_recordPos fs c (BitVec.ofNat 32 n)
    have hbase := clusterPos_mod fs c
    rw [BitVec.toNat_ofNat] at hpos
    cases n with
    | zero => omega
    | succ m =>
        -- the record before it lies just below, where it can be read
        have hbefore := toNat_recordPos fs c (BitVec.ofNat 32 m)
        rw [BitVec.toNat_ofNat] at hbefore
        have hsub : BitVec.ofNat 32 (m + 1) - 1 = BitVec.ofNat 32 m := by
          rw [BitVec.ofNat_add]
          exact BitVec.add_sub_cancel _ _
        refine .inr ⟨m, rfl, ?_, Nat.le_of_not_lt hfits⟩
        unfold seenPos
        rw [if_neg hfits, hsub, if_pos (by omega)]

def Held (fs : Fat32) (disk : Disk) (c : Word) (record : List Byte) : Nat → Prop
  | 0 => record.length = 32
  | n + 1 => record = fs.seen disk c n

private theorem read_seen (h : fs.Held disk c record n) :
    seekAndRead disk (fs.recordPos c (BitVec.ofNat 32 n)) 32 record = fs.seen disk c n := by
  have hlength : record.length = 32 := by
    cases n with
    | zero => exact h
    | succ n => exact h ▸ length_recordAt disk _
  rcases seenPos_cases fs c n with ⟨hpos, hfits⟩ | ⟨m, rfl, hpos, hwraps⟩
  · unfold seen
    rw [hpos] at hfits ⊢
    rw [seekAndRead_eq hlength hfits]
    rfl
  · have hseen : fs.seen disk c (m + 1) = fs.seen disk c m := congrArg (recordAt disk) hpos
    rw [hseen]
    unfold seekAndRead
    exact (if_neg (Nat.not_lt.mpr hwraps)).trans h

/-! ## The loop over the records -/

theorem scan_succ_eq {fuel : Nat} (h : fs.Held disk c record n) :
    fs.scan disk junk name ext c (fuel + 1) (BitVec.ofNat 32 n) record =
      if DirectoryRecord.isFile (fs.seen disk c n) (junk c (BitVec.ofNat 32 n)) name ext then
        some (true, BitVec.ofNat 32 n, fs.seen disk c n)
      else if (fs.seen disk c n).getD 0 0 ≠ 0 then
        fs.scan disk junk name ext c fuel (BitVec.ofNat 32 (n + 1)) (fs.seen disk c n)
      else some (false, BitVec.ofNat 32 n, fs.seen disk c n) := by
  rw [scan, read_seen h, BitVec.ofNat_add]
  rfl

structure ScanStops (fs : Fat32) (disk : Disk) (junk : Word → Word → Byte) (name ext : List Byte)
    (c : Word) (n m : Nat) (b : Bool) : Prop where
  le : n ≤ m
  before : ∀ i, n ≤ i → i < m → (fs.seen disk c i).getD 0 0 ≠ 0 ∧
    DirectoryRecord.isFile (fs.seen disk c i) (junk c (BitVec.ofNat 32 i)) name ext = false
  file : DirectoryRecord.isFile (fs.seen disk c m) (junk c (BitVec.ofNat 32 m)) name ext = b
  zero : b = false → (fs.seen disk c m).getD 0 0 = 0

theorem scan_stops {fuel : Nat} {b : Bool} {recordCnt : Word} {last : List Byte}
    (h : fs.Held disk c record n)
    (hscan : fs.scan disk junk name ext c fuel (BitVec.ofNat 32 n) record =
      some (b, recordCnt, last)) :
    ∃ m, fs.ScanStops disk junk name ext c n m b ∧ recordCnt = BitVec.ofNat 32 m ∧
      last = fs.seen disk c m := by
  induction fuel generalizing n record with
  | zero => cases hscan
  | succ fuel ih =>
      rw [scan_succ_eq h] at hscan
      split_ifs at hscan with hfile hmore
      · cases hscan
        exact ⟨n, ⟨Nat.le_refl n, fun i hle hlt => absurd hle (by omega), hfile, by simp⟩, rfl,
          rfl⟩
      · obtain ⟨m, hstops, hlast⟩ := ih (n := n + 1) rfl hscan
        refine ⟨m, ⟨by have := hstops.le; omega, fun i hle hlt => ?_, hstops.file, hstops.zero⟩,
          hlast⟩
        rcases Nat.lt_or_eq_of_le hle with hlt' | rfl
        · exact hstops.before i hlt' hlt
        · exact ⟨hmore, eq_false_of_ne_true hfile⟩
      · cases hscan
        exact ⟨n, ⟨Nat.le_refl n, fun i hle hlt => absurd hle (by omega),
          eq_false_of_ne_true hfile, fun _ => not_not.mp hmore⟩, rfl, rfl⟩

theorem exists_scan {m : Nat} (h : fs.Held disk c record n) (hle : n ≤ m)
    (hends : DirectoryRecord.isFile (fs.seen disk c m) (junk c (BitVec.ofNat 32 m)) name ext =
        true ∨ (fs.seen disk c m).getD 0 0 = 0) :
    ∃ r, fs.scan disk junk name ext c (m - n + 1) (BitVec.ofNat 32 n) record = some r := by
  induction hk : m - n generalizing n record with
  | zero =>
      obtain rfl : n = m := by omega
      rw [scan_succ_eq h]
      split_ifs with hfile hmore
      · exact ⟨_, rfl⟩
      · exact absurd hends (by rw [not_or]; exact ⟨hfile, hmore⟩)
      · exact ⟨_, rfl⟩
  | succ k ih =>
      rw [scan_succ_eq h]
      split_ifs with hfile hmore
      · exact ⟨_, rfl⟩
      · exact ih (n := n + 1) rfl (by omega) (by omega)
      · exact ⟨_, rfl⟩

theorem length_of_scan {fuel : Nat} {b : Bool} {recordCnt n : Word} {record last : List Byte}
    (hrecord : record.length = 32)
    (h : fs.scan disk junk name ext c fuel recordCnt record = some (b, n, last)) :
    last.length = 32 := by
  induction fuel generalizing recordCnt record with
  | zero => cases h
  | succ fuel ih =>
      have hlength : (seekAndRead disk (fs.recordPos c recordCnt) 32 record).length = 32 :=
        length_seekAndRead hrecord
      unfold scan at h
      dsimp only at h
      split_ifs at h with hfile hmore
      · cases h
        exact hlength
      · exact ih hlength h
      · cases h
        exact hlength

/-! ## More fuel -/

private theorem scan_succ {fuel : Nat} {recordCnt : Word} {record : List Byte}
    {r : Bool × Word × List Byte}
    (h : fs.scan disk junk name ext c fuel recordCnt record = some r) :
    fs.scan disk junk name ext c (fuel + 1) recordCnt record = some r := by
  induction fuel generalizing recordCnt record with
  | zero => cases h
  | succ fuel ih =>
      unfold scan at h ⊢
      dsimp only at h ⊢
      split_ifs at h ⊢
      · exact h
      · exact ih h
      · exact h

theorem scan_mono {fuel fuel' : Nat} {recordCnt : Word} {r : Bool × Word × List Byte}
    (hle : fuel ≤ fuel') (h : fs.scan disk junk name ext c fuel recordCnt record = some r) :
    fs.scan disk junk name ext c fuel' recordCnt record = some r := by
  induction fuel', hle using Nat.le_induction with
  | base => exact h
  | succ fuel' hle ih => exact scan_succ ih

private theorem walk_succ {fuel : Nat} {entry : Word} {record : List Byte}
    {r : Option (Word × Word × List Byte)}
    (h : fs.walk disk junk name ext fuel entry record = some r) :
    fs.walk disk junk name ext (fuel + 1) entry record = some r := by
  induction fuel generalizing entry record with
  | zero => cases h
  | succ fuel ih =>
      unfold walk at h ⊢
      split_ifs at h ⊢
      · cases hscan : fs.scan disk junk name ext entry fuel 0 record with
        | none =>
            rw [hscan] at h
            cases h
        | some s =>
            rw [hscan] at h
            rw [scan_succ hscan]
            obtain ⟨b, n, last⟩ := s
            cases b with
            | true => exact h
            | false => exact ih h
      · exact h

theorem walk_mono {fuel fuel' : Nat} {entry : Word} {record : List Byte}
    {r : Option (Word × Word × List Byte)} (hle : fuel ≤ fuel')
    (h : fs.walk disk junk name ext fuel entry record = some r) :
    fs.walk disk junk name ext fuel' entry record = some r := by
  induction fuel', hle using Nat.le_induction with
  | base => exact h
  | succ fuel' hle ih => exact walk_succ ih

theorem walk_of_scan {fuel : Nat} {b : Bool} {recordCnt : Word} {last : List Byte}
    (hlt : c < 0x0fffffff)
    (h : fs.scan disk junk name ext c fuel 0 record = some (b, recordCnt, last)) :
    fs.walk disk junk name ext (fuel + 1) c record =
      if b then some (some (c, recordCnt, last))
      else fs.walk disk junk name ext fuel (fs.nextEntry disk c c) last := by
  rw [walk, if_pos hlt, h]
  cases b <;> rfl

/-! ## The order of the reads -/

def nextRead (fs : Fat32) (disk : Disk) : Word × Nat → Option (Word × Nat)
  | (c, n) =>
      if (fs.seen disk c n).getD 0 0 ≠ 0 then some (c, n + 1)
      else if fs.nextEntry disk c c < 0x0fffffff then some (fs.nextEntry disk c c, 0)
      else none

def takesFor (fs : Fat32) (disk : Disk) (junk : Word → Word → Byte) (name ext : List Byte)
    (place : Word × Nat) : Bool :=
  DirectoryRecord.isFile (fs.seen disk place.1 place.2) (junk place.1 (BitVec.ofNat 32 place.2))
    name ext

def found (fs : Fat32) (disk : Disk) (place : Word × Nat) : Word × Word × List Byte :=
  (place.1, BitVec.ofNat 32 place.2, fs.seen disk place.1 place.2)

private theorem nextRead_of_ne_zero (h : (fs.seen disk c n).getD 0 0 ≠ 0) :
    fs.nextRead disk (c, n) = some (c, n + 1) := if_pos h

private theorem nextRead_of_zero (h : (fs.seen disk c n).getD 0 0 = 0) :
    fs.nextRead disk (c, n) =
      if fs.nextEntry disk c c < 0x0fffffff then some (fs.nextEntry disk c c, 0) else none :=
  if_neg (not_not.mpr h)

theorem visits_nextRead (h : ∀ i < n, (fs.seen disk c i).getD 0 0 ≠ 0) :
    visits (fs.nextRead disk) (c, 0) n = some (c, n) := by
  induction n with
  | zero => rfl
  | succ n ih =>
      rw [visits_succ, ih fun i hi => h i (by omega)]
      exact nextRead_of_ne_zero (h n (Nat.lt_succ_self n))

theorem visits_before {place : Word × Nat} {m : Nat}
    (h : visits (fs.nextRead disk) place n = some (c, m + 1)) (hstart : place.2 = 0) :
    ∃ i, n = i + 1 ∧ visits (fs.nextRead disk) place i = some (c, m) := by
  cases n with
  | zero =>
      rw [visits_zero, Option.some.injEq] at h
      rw [h] at hstart
      exact absurd hstart (Nat.succ_ne_zero m)
  | succ i =>
      refine ⟨i, rfl, ?_⟩
      rw [visits_succ] at h
      obtain ⟨⟨d, j⟩, hvisits, hnext⟩ := Option.bind_eq_some_iff.mp h
      unfold nextRead at hnext
      dsimp only at hnext
      split_ifs at hnext
      · rw [Option.some.injEq, Prod.mk.injEq] at hnext
        rw [hvisits, hnext.1, Nat.succ.inj hnext.2]
      · rw [Option.some.injEq, Prod.mk.injEq] at hnext
        exact absurd hnext.2 (Nat.succ_ne_zero m).symm

section Search

variable {m : Nat} {r : Option (Word × Nat)}

private theorem ScanStops.visits {b : Bool} (h : fs.ScanStops disk junk name ext c 0 m b) :
    (visits (fs.nextRead disk) (c, 0) m = some (c, m)) ∧
      ∀ i < m, ∀ place, Foundation.visits (fs.nextRead disk) (c, 0) i = some place →
        fs.takesFor disk junk name ext place = false := by
  have hreads (i : Nat) (hi : i ≤ m) :
      Foundation.visits (fs.nextRead disk) (c, 0) i = some (c, i) :=
    visits_nextRead fun j hj => (h.before j (Nat.zero_le j) (by omega)).1
  refine ⟨hreads m (Nat.le_refl m), fun i hi place hplace => ?_⟩
  obtain rfl := Option.some.inj ((hreads i (by omega)).symm.trans hplace)
  exact (h.before i (Nat.zero_le i) hi).2

private theorem ScanStops.search_true (h : fs.ScanStops disk junk name ext c 0 m true) :
    SearchStops (fs.nextRead disk) (fs.takesFor disk junk name ext) (c, 0) m (some (c, m)) where
  result := h.visits.1
  before := h.visits.2
  takes place hplace := by
    obtain rfl := Option.some.inj hplace
    exact h.file

private theorem ScanStops.search_false (h : fs.ScanStops disk junk name ext c 0 m false)
    (hlt : fs.nextEntry disk c c < 0x0fffffff) :
    SearchStops (fs.nextRead disk) (fs.takesFor disk junk name ext) (c, 0) (m + 1 + n) r ↔
      SearchStops (fs.nextRead disk) (fs.takesFor disk junk name ext)
        (fs.nextEntry disk c c, 0) n r := by
  obtain ⟨hread, hvain⟩ := h.visits
  refine stops_add_iff ?_ fun i hi place hplace => ?_
  · rw [visits_succ, hread]
    exact (nextRead_of_zero (h.zero rfl)).trans (if_pos hlt)
  · rcases Nat.lt_or_eq_of_le (Nat.le_of_lt_succ hi) with hlt' | rfl
    · exact hvain i hlt' place hplace
    · obtain rfl := Option.some.inj (hread.symm.trans hplace)
      exact h.file

private theorem ScanStops.search_none (h : fs.ScanStops disk junk name ext c 0 m false)
    (hend : ¬fs.nextEntry disk c c < 0x0fffffff) :
    SearchStops (fs.nextRead disk) (fs.takesFor disk junk name ext) (c, 0) (m + 1) none where
  result := by
    rw [visits_succ, h.visits.1]
    exact (nextRead_of_zero (h.zero rfl)).trans (if_neg hend)
  before i hi place hplace := by
    obtain ⟨hread, hvain⟩ := h.visits
    rcases Nat.lt_or_eq_of_le (Nat.le_of_lt_succ hi) with hlt' | rfl
    · exact hvain i hlt' place hplace
    · obtain rfl := Option.some.inj (hread.symm.trans hplace)
      exact h.file
  takes place hplace := by cases hplace

/-- A walk that ends is a search that stops. -/
theorem search_of_walk {fuel : Nat} {f : Option (Word × Word × List Byte)}
    (hrecord : record.length = 32) (hc : c < 0x0fffffff)
    (h : fs.walk disk junk name ext fuel c record = some f) :
    ∃ n r, SearchStops (fs.nextRead disk) (fs.takesFor disk junk name ext) (c, 0) n r ∧
      f = r.map (fs.found disk) := by
  induction fuel generalizing c record with
  | zero => cases h
  | succ fuel ih =>
      cases hscan : fs.scan disk junk name ext c fuel 0 record with
      | none =>
          rw [walk, if_pos hc, hscan] at h
          cases h
      | some s =>
          obtain ⟨b, cnt, last⟩ := s
          obtain ⟨m, hstops, rfl, rfl⟩ := scan_stops (n := 0) hrecord hscan
          rw [walk_of_scan hc hscan] at h
          cases b with
          | true => exact ⟨m, some (c, m), hstops.search_true, (Option.some.inj h).symm⟩
          | false =>
              by_cases hlt : fs.nextEntry disk c c < 0x0fffffff
              · obtain ⟨n, r, hsearch, hr⟩ := ih (length_of_scan hrecord hscan) hlt h
                exact ⟨m + 1 + n, r, (hstops.search_false hlt).mpr hsearch, hr⟩
              · refine ⟨m + 1, none, hstops.search_none hlt, ?_⟩
                cases fuel with
                | zero => cases h
                | succ fuel =>
                    rw [walk, if_neg hlt] at h
                    exact (Option.some.inj h).symm

private theorem exists_scanStops (hrecord : record.length = 32)
    (h : SearchStops (fs.nextRead disk) (fs.takesFor disk junk name ext) (c, 0) n r) :
    ∃ fuel m b, m ≤ n ∧ fs.ScanStops disk junk name ext c 0 m b ∧
      fs.scan disk junk name ext c fuel 0 record =
        some (b, BitVec.ofNat 32 m, fs.seen disk c m) := by
  have hends : ∃ i ≤ n, fs.takesFor disk junk name ext (c, i) = true ∨
      (fs.seen disk c i).getD 0 0 = 0 := by
    by_contra hnone
    push Not at hnone
    have hvisits : visits (fs.nextRead disk) (c, 0) n = some (c, n) :=
      visits_nextRead fun i hi => (hnone i hi.le).2
    exact (hnone n (Nat.le_refl n)).1 (h.takes _ (h.result.symm.trans hvisits))
  obtain ⟨i, hi, hend⟩ := hends
  obtain ⟨⟨b, cnt, last⟩, hscan⟩ := exists_scan (n := 0) hrecord (Nat.zero_le i) hend
  obtain ⟨m, hstops, rfl, rfl⟩ := scan_stops (n := 0) hrecord hscan
  refine ⟨_, m, b, ?_, hstops, hscan⟩
  by_contra hlt
  have hbefore := hstops.before i (Nat.zero_le i) (by omega)
  rcases hend with htakes | hzero
  · exact absurd (htakes.symm.trans hbefore.2) (by decide)
  · exact hbefore.1 hzero

/-- A search that stops is a walk that ends. -/
theorem exists_walk (hrecord : record.length = 32) (hc : c < 0x0fffffff)
    (h : SearchStops (fs.nextRead disk) (fs.takesFor disk junk name ext) (c, 0) n r) :
    ∃ fuel, fs.walk disk junk name ext fuel c record = some (r.map (fs.found disk)) := by
  have hends : ∃ fuel f, fs.walk disk junk name ext fuel c record = some f := by
    induction n using Nat.strong_induction_on generalizing c record with
    | _ n ih =>
        obtain ⟨fuel, m, b, hle, hstops, hscan⟩ := exists_scanStops hrecord h
        cases b with
        | true => exact ⟨fuel + 1, _, walk_of_scan hc hscan⟩
        | false =>
            by_cases hlt : fs.nextEntry disk c c < 0x0fffffff
            · have hmn : m ≠ n := by
                rintro rfl
                have htakes := h.takes _ (h.result.symm.trans hstops.visits.1)
                exact absurd (htakes.symm.trans hstops.file) (by decide)
              obtain ⟨k, rfl⟩ := Nat.exists_eq_add_of_le (by omega : m + 1 ≤ n)
              obtain ⟨fuel', f, hwalk⟩ := ih k (by omega) (length_recordAt disk _) hlt
                ((hstops.search_false hlt).mp h)
              have hscan' := scan_mono (Nat.le_max_left fuel fuel') hscan
              have hwalk' := walk_mono (Nat.le_max_right fuel fuel') hwalk
              exact ⟨max fuel fuel' + 1, f, (walk_of_scan hc hscan').trans hwalk'⟩
            · have hscan' := scan_mono (Nat.le_succ fuel) hscan
              refine ⟨fuel + 2, none, (walk_of_scan hc hscan').trans ?_⟩
              exact if_neg hlt
  obtain ⟨fuel, f, hwalk⟩ := hends
  obtain ⟨n', r', hsearch, rfl⟩ := search_of_walk hrecord hc hwalk
  rw [h.unique hsearch]
  exact ⟨fuel, hwalk⟩

end Search

end Fat32

end PComputer.PseudOS
