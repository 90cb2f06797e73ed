import PComputer.Fs.FileChain

/-!
# Reading within a file

`FAT32_Read` cuts `size` with one comparison of 32-bit words, so it returns what the
file has left only for a `seek` within the file and a range that does not wrap.
-/

namespace PComputer.PseudOS

open PComputer.Foundation

namespace Fat32

variable {fs : Fat32} {disk : Disk} {junk : Word → Word → Byte} {clusters : List Word} {c : Word}
  {file record buf : List Byte} {seek size : Word}

/-! ## The bytes of a file -/

def bytesPerCluster (fs : Fat32) : Nat := 0x200 * fs.sectorsPerCluster.toNat

def filePos (fs : Fat32) (clusters : List Word) (i : Nat) : Nat :=
  fs.clusterByte (clusters.getD (i / fs.bytesPerCluster) 0) + i % fs.bytesPerCluster

def fileBytes (fs : Fat32) (disk : Disk) (clusters : List Word) (seek n : Nat) : List Byte :=
  (List.range' seek n).map fun i => disk.byte (fs.filePos clusters i)

/-- A file whose clusters are consecutive; an empty one has none. -/
structure ContiguousFile (fs : Fat32) (disk : Disk) (record : List Byte) (clusters : List Word) :
    Prop where
  sectors : fs.sectorsPerCluster ≠ 0
  empty : DirectoryRecord.fileSize record = 0 → DirectoryRecord.fileCluster record = 0
  chain : DirectoryRecord.fileSize record ≠ 0 →
    fs.Chain disk (DirectoryRecord.fileCluster record) clusters
  consecutive : Consecutive clusters
  room : (DirectoryRecord.fileSize record).toNat ≤ clusters.length * fs.bytesPerCluster

theorem ContiguousFile.lt (h : fs.ContiguousFile disk record clusters) :
    DirectoryRecord.fileCluster record < 0x0fffffff := by
  by_cases hempty : DirectoryRecord.fileSize record = 0
  · rw [h.empty hempty]
    decide
  · exact BitVec.lt_trans (h.chain hempty).lt (by decide)

private theorem Chain.toNat_of_consecutive (h : fs.Chain disk c clusters)
    (hconsecutive : Consecutive clusters) {k : Nat} (hk : k < clusters.length) :
    (clusters.getD k 0).toNat = c.toNat + k := by
  induction h generalizing k with
  | last =>
      obtain rfl : k = 0 := by simpa using hk
      rfl
  | @next c rest hc hlt hrest ih =>
      cases k with
      | zero => rfl
      | succ k =>
          obtain ⟨tail, rfl⟩ := hrest.exists_cons
          obtain ⟨hnext, htail⟩ := List.isChain_cons_cons.mp hconsecutive
          have hc' : c.toNat < 0x0ffffff8 := hlt
          have hsucc : (c + 1).toNat = c.toNat + 1 := by
            rw [BitVec.toNat_add]
            exact Nat.mod_eq_of_lt (by change c.toNat + 1 < 2 ^ 32; omega)
          rw [List.getD_cons_succ, ih htail (Nat.lt_of_succ_lt_succ hk), hnext, hsucc]
          omega

private theorem ContiguousFile.filePos_eq (h : fs.ContiguousFile disk record clusters) {i : Nat}
    (hi : i < (DirectoryRecord.fileSize record).toNat) :
    fs.filePos clusters i = fs.clusterByte (DirectoryRecord.fileCluster record) + i := by
  have hne : DirectoryRecord.fileSize record ≠ 0 := by
    intro hzero
    rw [hzero] at hi
    exact Nat.not_lt_zero i hi
  have hsectors : fs.sectorsPerCluster.toNat ≠ 0 := fun h0 =>
    h.sectors (BitVec.eq_of_toNat_eq h0)
  have hpos : 0 < fs.bytesPerCluster := by
    unfold bytesPerCluster
    omega
  have hindex : i / fs.bytesPerCluster < clusters.length :=
    Nat.div_lt_of_lt_mul (by rw [Nat.mul_comm]; exact hi.trans_le h.room)
  have hcluster := (h.chain hne).toNat_of_consecutive h.consecutive hindex
  have htwo : 2 ≤ (DirectoryRecord.fileCluster record).toNat := (h.chain hne).two_le
  have hsplit := Nat.div_add_mod i fs.bytesPerCluster
  unfold filePos clusterByte
  rw [hcluster, Nat.sub_add_comm htwo, Nat.add_mul]
  have hbytes : 0x200 * (i / fs.bytesPerCluster * fs.sectorsPerCluster.toNat) =
      fs.bytesPerCluster * (i / fs.bytesPerCluster) := by
    rw [Nat.mul_comm (i / fs.bytesPerCluster), ← Nat.mul_assoc]
    rfl
  omega

/-- What the file has left after `seek`, at most `size`. -/
def left (record : List Byte) (seek size : Word) : Nat :=
  min size.toNat ((DirectoryRecord.fileSize record).toNat - seek.toNat)

private theorem ContiguousFile.fileBytes_eq (h : fs.ContiguousFile disk record clusters) :
    fs.fileBytes disk clusters seek.toNat (left record seek size) =
      disk.bytes (fs.clusterByte (DirectoryRecord.fileCluster record) + seek.toNat)
        (left record seek size) := by
  unfold fileBytes Disk.bytes
  rw [List.range'_eq_map_range, List.range'_eq_map_range, List.map_map, List.map_map]
  apply List.map_congr_left
  intro k hk
  have hlt := List.mem_range.mp hk
  unfold left at hlt
  simp only [Function.comp_apply]
  rw [h.filePos_eq (by omega), Nat.add_assoc]

/-! ## The clamp -/

private theorem clampedSize_eq (hseek : seek.toNat ≤ (DirectoryRecord.fileSize record).toNat)
    (hwrap : seek.toNat + size.toNat < 2 ^ 32) :
    (clampedSize record seek size).toNat = left record seek size := by
  have hsum : (seek + size).toNat = seek.toNat + size.toNat := by
    rw [BitVec.toNat_add]
    exact Nat.mod_eq_of_lt hwrap
  unfold clampedSize left
  simp only [BitVec.lt_def, hsum]
  split_ifs with hclamp
  · rw [BitVec.toNat_sub_of_le hseek]
    omega
  · omega

private theorem toInt_clampedSize_iff :
    (clampedSize record seek size).toInt = (left record seek size : Int) ↔
      seek.toNat ≤ (DirectoryRecord.fileSize record).toNat ∧ seek.toNat + size.toNat < 2 ^ 32 ∧
        left record seek size < 2 ^ 31 := by
  constructor
  · intro h
    have hsize := size.isLt
    have hseek := seek.isLt
    have hfile := (DirectoryRecord.fileSize record).isLt
    have hword := (clampedSize record seek size).isLt
    rw [BitVec.toInt_eq_toNat_cond] at h
    have hleft : left record seek size ≤ size.toNat := Nat.min_le_left _ _
    have hnat : (clampedSize record seek size).toNat = left record seek size ∧
        left record seek size < 2 ^ 31 := by
      split_ifs at h <;> omega
    obtain ⟨heq, hsmall⟩ := hnat
    refine ⟨?_, ?_, hsmall⟩ <;>
    · unfold clampedSize left at heq
      simp only [BitVec.lt_def, BitVec.toNat_add] at heq
      split_ifs at heq with hclamp
      · rw [BitVec.toNat_sub] at heq
        omega
      · omega
  · rintro ⟨hseek, hwrap, hsmall⟩
    rw [BitVec.toInt_eq_toNat_cond, clampedSize_eq hseek hwrap, if_pos (by omega)]

/-! ## Reads -/

private theorem fat32Read_mono {stack : List Byte} {fuel fuel' : Nat} {r : Int × List Byte}
    (hle : fuel ≤ fuel') (h : fs.fat32Read disk junk stack fuel file seek size buf = some r) :
    fs.fat32Read disk junk stack fuel' file seek size buf = some r := by
  unfold fat32Read at h ⊢
  cases hlookup : fs.lookup disk junk stack fuel file with
  | none =>
      rw [hlookup] at h
      cases h
  | some found =>
      rw [hlookup] at h
      rw [lookup_mono hle hlookup]
      cases found with
      | none => exact h
      | some f =>
          obtain ⟨c, n, record⟩ := f
          dsimp only at h ⊢
          cases hchain : fs.fileChain disk fuel (DirectoryRecord.fileCluster record) 0 with
          | none =>
              unfold readFile at h
              dsimp only at h
              rw [hchain] at h
              cases h
          | some b =>
              rw [readFile_eq hchain] at h
              rw [readFile_eq (fileChain_mono hle hchain)]
              exact h

theorem fat32Read_unique {stack : List Byte} {fuel fuel' : Nat} {r r' : Int × List Byte}
    (h : fs.fat32Read disk junk stack fuel file seek size buf = some r)
    (h' : fs.fat32Read disk junk stack fuel' file seek size buf = some r') : r = r' := by
  have hmax := fat32Read_mono (Nat.le_max_left fuel fuel') h
  have hmax' := fat32Read_mono (Nat.le_max_right fuel fuel') h'
  exact Option.some.inj (hmax.symm.trans hmax')

/--
The call returns what the file has left, at most `size`, with these bytes of the file
in `buf` and the rest of it unchanged.
-/
def ReadsWithin (fs : Fat32) (disk : Disk) (file record : List Byte) (clusters : List Word)
    (seek size : Word) : Prop :=
  ∀ (junk : Word → Word → Byte) (stack buf : List Byte), stack.length = 32 →
    size.toNat ≤ buf.length →
      ∃ fuel, fs.fat32Read disk junk stack fuel file seek size buf =
        some ((left record seek size : Int),
          fs.fileBytes disk clusters seek.toNat (left record seek size) ++
            buf.drop (left record seek size))

/-- The bytes from the position on, narrowed to 32 bits, are those of the file. -/
def ReadsBytes (fs : Fat32) (disk : Disk) (record : List Byte) (clusters : List Word)
    (seek size : Word) : Prop :=
  let pos := (fs.clusterByte (DirectoryRecord.fileCluster record) + seek.toNat) % 2 ^ 32
  pos + left record seek size < 2 ^ 32 ∧
    disk.bytes pos (left record seek size) =
      fs.fileBytes disk clusters seek.toNat (left record seek size)

theorem ContiguousFile.readsBytes (h : fs.ContiguousFile disk record clusters)
    (hlow : fs.clusterByte (DirectoryRecord.fileCluster record) + seek.toNat +
      left record seek size < 2 ^ 32) : fs.ReadsBytes disk record clusters seek size := by
  unfold ReadsBytes
  rw [Nat.mod_eq_of_lt (by omega)]
  exact ⟨hlow, h.fileBytes_eq.symm⟩

theorem ContiguousFile.seekAndRead_iff (h : fs.ContiguousFile disk record clusters)
    (hleft : (clampedSize record seek size).toNat = left record seek size) :
    (∀ buf : List Byte, size.toNat ≤ buf.length →
      seekAndRead disk (fs.dataPos (DirectoryRecord.fileCluster record) seek)
          (clampedSize record seek size) buf =
        fs.fileBytes disk clusters seek.toNat (left record seek size) ++
          buf.drop (left record seek size)) ↔
      left record seek size = 0 ∨ fs.ReadsBytes disk record clusters seek size := by
  by_cases hzero : left record seek size = 0
  · refine iff_of_true (fun buf _ => ?_) (.inl hzero)
    unfold seekAndRead fileBytes Disk.bytes
    rw [hleft, hzero]
    split_ifs <;> rfl
  · have hne : DirectoryRecord.fileSize record ≠ 0 := by
      intro hempty
      unfold left at hzero
      rw [hempty] at hzero
      exact hzero (by simp)
    have hpos := (dataPos_mod (h.chain hne).two_le seek : (fs.dataPos _ seek).toNat = _)
    unfold seekAndRead
    rw [hleft, hpos]
    constructor
    · intro hbuf
      have hsize : size.toNat ≠ 0 := by
        unfold left at hzero
        omega
      obtain ⟨x, rest, hbytes⟩ : ∃ x rest,
          fs.fileBytes disk clusters seek.toNat (left record seek size) = x :: rest := by
        obtain ⟨m, hm⟩ := Nat.exists_eq_succ_of_ne_zero hzero
        unfold fileBytes
        rw [hm, List.range'_succ]
        exact ⟨_, _, rfl⟩
      -- a buffer that does not begin with the file's first byte shows whether it is read
      have hother := hbuf (List.replicate size.toNat (x + 1)) List.length_replicate.ge
      split_ifs at hother with hfits
      · exact .inr ⟨hfits, List.append_cancel_right hother⟩
      · obtain ⟨m, hm⟩ := Nat.exists_eq_succ_of_ne_zero hsize
        rw [hbytes, hm, List.replicate_succ] at hother
        exact absurd (BitVec.add_right_eq_self.mp (List.cons.inj hother).1) (by decide)
    · rintro (hempty | ⟨hfits, hbytes⟩) buf -
      · exact absurd hempty hzero
      · rw [if_pos hfits, hbytes]

/-- Exactly these reads stay within the file. -/
theorem reads_within_iff (hfound : fs.Found disk file record)
    (hfile : fs.ContiguousFile disk record clusters) :
    fs.ReadsWithin disk file record clusters seek size ↔
      (seek.toNat ≤ (DirectoryRecord.fileSize record).toNat ∧
        seek.toNat + size.toNat < 2 ^ 32 ∧ left record seek size < 2 ^ 31) ∧
      fs.Taken disk (DirectoryRecord.fileCluster record) ∧
      (left record seek size = 0 ∨ fs.ReadsBytes disk record clusters seek size) := by
  have hstack : (List.replicate 32 (0 : Byte)).length = 32 := List.length_replicate
  constructor
  · intro hreads
    obtain ⟨fuel, b, htaken, -, -, hread⟩ :=
      hfound.fat32Read hfile.lt hstack fun _ _ => 0
    have hresult (buf : List Byte) (hbuf : size.toNat ≤ buf.length) :
        fs.readAfter disk record seek size buf b = ((left record seek size : Int),
          fs.fileBytes disk clusters seek.toNat (left record seek size) ++
            buf.drop (left record seek size)) := by
      obtain ⟨fuel', h⟩ := hreads (fun _ _ => 0) _ buf hstack hbuf
      exact fat32Read_unique (hread seek size buf) h
    cases b with
    | false =>
        have h := congrArg Prod.fst (hresult (List.replicate size.toNat 0) List.length_replicate.ge)
        change (-1 : Int) = _ at h
        omega
    | true =>
        have hclamp := toInt_clampedSize_iff.mp
          (congrArg Prod.fst (hresult (List.replicate size.toNat 0) List.length_replicate.ge))
        exact ⟨hclamp, htaken.mp rfl,
          (hfile.seekAndRead_iff (clampedSize_eq hclamp.1 hclamp.2.1)).mp fun buf hbuf =>
            congrArg Prod.snd (hresult buf hbuf)⟩
  · rintro ⟨hclamp, htaken, hbytes⟩ junk stack buf hlength hbuf
    obtain ⟨fuel, b, htaken', -, -, hread⟩ := hfound.fat32Read hfile.lt hlength junk
    obtain rfl := htaken'.mpr htaken
    refine ⟨fuel, (hread seek size buf).trans (congrArg some (Prod.ext ?_ ?_))⟩
    · exact toInt_clampedSize_iff.mpr hclamp
    · exact (hfile.seekAndRead_iff (clampedSize_eq hclamp.1 hclamp.2.1)).mpr hbytes buf hbuf

/-! ### A file of eight bytes -/

theorem fileSize_fileDisk :
    DirectoryRecord.fileSize (recordAt (fileDisk 8 0x0fffffff) 1024) = 8 := by
  decide +kernel

theorem contiguous_fileDisk : smallVolume.ContiguousFile (fileDisk 8 0x0fffffff)
    (recordAt (fileDisk 8 0x0fffffff) 1024) [3] where
  sectors := by decide
  empty h := absurd (fileSize_fileDisk.symm.trans h) (by decide)
  chain _ := by
    rw [fileCluster_fileDisk]
    exact .last (by decide) (by decide) (by decide +kernel)
  consecutive := .singleton 3
  room := by
    rw [fileSize_fileDisk]
    decide

/-- Four bytes from the third on. -/
theorem reads_within_iff_four : smallVolume.ReadsWithin (fileDisk 8 0x0fffffff) txtPath
    (recordAt (fileDisk 8 0x0fffffff) 1024) [3] 2 4 := by
  refine (reads_within_iff found_fileDisk contiguous_fileDisk).mpr ⟨?_, ?_, .inr ?_⟩
  · unfold left
    rw [fileSize_fileDisk]
    decide
  · rw [fileCluster_fileDisk]
    exact ⟨3, .refl, by decide +kernel⟩
  · refine contiguous_fileDisk.readsBytes ?_
    unfold left
    rw [fileCluster_fileDisk, fileSize_fileDisk]
    decide

/-- Past the end of the file the result is negative. -/
theorem seek_past_end :
    left (recordAt (fileDisk 8 0x0fffffff) 1024) 16 4 = 0 ∧
      smallVolume.fat32Read (fileDisk 8 0x0fffffff) (fun _ _ => 0) (List.replicate 32 0) 3 txtPath
        16 4 [1, 1, 1, 1] = some (-8, [1, 1, 1, 1]) :=
  ⟨by decide +kernel, by decide +kernel⟩

end Fat32

end PComputer.PseudOS
