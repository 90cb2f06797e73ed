import PComputer.Fs.RootDirectory

/-!
# The positions that `fat32.c` passes to `blk_seek_and_read`

`FAT32_Init` takes the partition and the geometry from the disk.  The fields that it
computes have 64 bits, but `blk_seek_and_read` takes an `unsigned long`, which has 32
on the target: a position is passed on as it is just below the sector 2^23.
-/

namespace PComputer.PseudOS

open PComputer.Foundation

/-! ## `FAT32_Init` -/

def PartitionTable.startSector (pt : List Byte) (i : Nat) : Word := le32 pt (16 * i + 8)

namespace Fat32BootSector

variable (bs : List Byte)

def sectorsPerCluster : Byte := bs.getD 13 0
def numberOfReservedSectors : BitVec 16 := le16 bs 14
def numberOfFats : Byte := bs.getD 16 0
def sectorsPerFat : Word := le32 bs 36
def rootDirFirstCluster : Word := le32 bs 44

end Fat32BootSector

open Fat32BootSector

def bootSectorPos (pt : List Byte) (part : Nat) : Word :=
  0x200 * PartitionTable.startSector pt (part - 1)

/-- `pt` and `bs` are the structs before they are read. -/
def fat32Init (disk : Disk) (part : Nat) (pt bs : List Byte) : Fat32 :=
  let pt := seekAndRead disk 0x1BE 64 pt
  let bs := seekAndRead disk (bootSectorPos pt part) 512 bs
  let start := PartitionTable.startSector pt (part - 1)
  let reserved := (numberOfReservedSectors bs).setWidth 32
  { sectorsPerCluster := sectorsPerCluster bs
    fatBeginLba := (start + reserved).setWidth 64
    clusterBeginLba :=
      (start + reserved + (numberOfFats bs).setWidth 32 * sectorsPerFat bs).setWidth 64
    rootDirFirstCluster := (rootDirFirstCluster bs).setWidth 64 }

def Fat32.dataPos (fs : Fat32) (fileCluster seek : Word) : Word :=
  (fs.clusterPos fileCluster + seek.setWidth 64).setWidth 32

/-! ## The volume on the disk -/

section Volume

variable (disk : Disk) (part : Nat)

def volumeStart : Word := PartitionTable.startSector (disk.bytes 0x1BE 64) (part - 1)

def bootSector : List Byte := disk.bytes (0x200 * (volumeStart disk part).toNat) 512

def fatLba : Nat :=
  (volumeStart disk part).toNat + (numberOfReservedSectors (bootSector disk part)).toNat

def dataLba : Nat :=
  fatLba disk part + (numberOfFats (bootSector disk part)).toNat *
    (sectorsPerFat (bootSector disk part)).toNat

def clusterLba (c : Word) : Nat :=
  dataLba disk part + (c.toNat - 2) * (sectorsPerCluster (bootSector disk part)).toNat

end Volume

/-- What `FAT32_Init` and `FAT32_Read` read with one call. -/
inductive Place where
  | partitionTable
  | bootSector
  | record (cluster recordCnt : Word)
  | fatEntry (cluster : Word)
  | data (cluster seek : Word)
  deriving DecidableEq, Repr

namespace Place

def Valid : Place → Prop
  | .record c _ | .data c _ => 2 ≤ c
  | .partitionTable | .bootSector | .fatEntry _ => True

def lba (disk : Disk) (part : Nat) : Place → Nat
  | .partitionTable => 0
  | .bootSector => (volumeStart disk part).toNat
  | .record c recordCnt => clusterLba disk part c + recordCnt.toNat / 16
  | .fatEntry c => fatLba disk part + c.toNat / 128
  | .data c seek => clusterLba disk part c + seek.toNat / 0x200

def offset : Place → Nat
  | .partitionTable => 0x1BE
  | .bootSector => 0
  | .record _ recordCnt => 32 * (recordCnt.toNat % 16)
  | .fatEntry c => 4 * (c.toNat % 128)
  | .data _ seek => seek.toNat % 0x200

def passed (disk : Disk) (part : Nat) (pt bs : List Byte) : Place → Word
  | .partitionTable => 0x1BE
  | .bootSector => bootSectorPos (seekAndRead disk 0x1BE 64 pt) part
  | .record c recordCnt => (fat32Init disk part pt bs).recordPos c recordCnt
  | .fatEntry c => (fat32Init disk part pt bs).fatPos c
  | .data c seek => (fat32Init disk part pt bs).dataPos c seek

end Place

def sectorStart (seek : Word) : Nat := seek.toNat / 0x200

/-! ## Exact positions -/

namespace Fat32

variable {fs : Fat32} {c : Word}

theorem dataPos_mod (hc : 2 ≤ c) (x : Word) :
    (fs.dataPos c x).toNat = (fs.clusterByte c + x.toNat) % 2 ^ 32 := by
  have hspc : (fs.sectorsPerCluster.setWidth 32).toNat = fs.sectorsPerCluster.toNat := by
    rw [BitVec.toNat_setWidth]
    exact Nat.mod_eq_of_lt (by have := fs.sectorsPerCluster.isLt; omega)
  have hmul : ((c - 2) * fs.sectorsPerCluster.setWidth 32).toNat =
      (c.toNat - 2) * fs.sectorsPerCluster.toNat % 2 ^ 32 := by
    rw [BitVec.toNat_mul, BitVec.toNat_sub_of_le hc, hspc]
    rfl
  unfold dataPos clusterPos clusterByte
  generalize (c - 2) * fs.sectorsPerCluster.setWidth 32 = sectors at hmul
  simp only [BitVec.toNat_setWidth, BitVec.toNat_add, BitVec.toNat_mul, hmul,
    BitVec.ofNat_eq_ofNat, BitVec.toNat_ofNat, Nat.reducePow, Nat.reduceMod]
  omega

private theorem dataPos_eq (hc : 2 ≤ c) {x : Word} (hfits : fs.clusterByte c + x.toNat < 2 ^ 32) :
    (fs.dataPos c x).toNat = fs.clusterByte c + x.toNat := by
  rw [dataPos_mod hc, Nat.mod_eq_of_lt hfits]

end Fat32

/-- One of the four partitions, with its boot sector in front of the first FAT. -/
structure ValidVolume (disk : Disk) (part : Nat) : Prop where
  number : 1 ≤ part ∧ part ≤ 4
  reserved : numberOfReservedSectors (bootSector disk part) ≠ 0

private theorem ValidVolume.start_lt_fatLba {disk : Disk} {part : Nat} (h : ValidVolume disk part) :
    (volumeStart disk part).toNat < fatLba disk part := by
  have hne : (numberOfReservedSectors (bootSector disk part)).toNat ≠ 0 := fun h0 =>
    h.reserved (BitVec.eq_of_toNat_eq h0)
  unfold fatLba
  omega

section Exact

variable {disk : Disk} {part : Nat} {pt bs : List Byte} {c : Word} (hpt : pt.length = 64)
  (hbs : bs.length = 512)

include hpt

private theorem read_partitionTable : seekAndRead disk 0x1BE 64 pt = disk.bytes 0x1BE 64 :=
  Fat32.seekAndRead_eq hpt (by decide)

private theorem bootSectorPos_eq (hstart : (volumeStart disk part).toNat < 2 ^ 23) :
    (bootSectorPos (seekAndRead disk 0x1BE 64 pt) part).toNat =
      0x200 * (volumeStart disk part).toNat := by
  rw [read_partitionTable hpt]
  unfold bootSectorPos
  change ((0x200 : Word) * volumeStart disk part).toNat = _
  rw [BitVec.toNat_mul]
  exact Nat.mod_eq_of_lt (by change 512 * (volumeStart disk part).toNat < 2 ^ 32; omega)

include hbs

private theorem read_bootSector (hstart : (volumeStart disk part).toNat + 1 < 2 ^ 23) :
    seekAndRead disk (bootSectorPos (seekAndRead disk 0x1BE 64 pt) part) 512 bs =
      bootSector disk part := by
  have hlow : (volumeStart disk part).toNat < 2 ^ 23 := by omega
  have hpos := bootSectorPos_eq hpt hlow
  rw [Fat32.seekAndRead_eq hbs (by rw [hpos]; change _ + 512 < _; omega), hpos]
  rfl

variable (hvolume : ValidVolume disk part)

include hvolume

private theorem fatBeginLba_eq (hlt : fatLba disk part < 2 ^ 23) :
    (fat32Init disk part pt bs).fatBeginLba.toNat = fatLba disk part := by
  have hstart := hvolume.start_lt_fatLba
  unfold fat32Init
  dsimp only
  rw [read_bootSector hpt hbs (by omega), read_partitionTable hpt]
  change ((volumeStart disk part + _).setWidth 64).toNat = _
  unfold fatLba at hlt ⊢
  simp only [BitVec.toNat_setWidth, BitVec.toNat_add]
  omega

private theorem clusterByte_eq (hlt : dataLba disk part < 2 ^ 23) :
    (fat32Init disk part pt bs).clusterByte c = 0x200 * clusterLba disk part c := by
  have hstart := hvolume.start_lt_fatLba
  have hfat : fatLba disk part ≤ dataLba disk part := Nat.le_add_right _ _
  unfold fat32Init Fat32.clusterByte clusterLba
  dsimp only
  rw [read_bootSector hpt hbs (by omega), read_partitionTable hpt]
  have hdata : ((volumeStart disk part +
      (numberOfReservedSectors (bootSector disk part)).setWidth 32 +
        (numberOfFats (bootSector disk part)).setWidth 32 *
          sectorsPerFat (bootSector disk part)).setWidth 64).toNat = dataLba disk part := by
    unfold dataLba fatLba at hlt ⊢
    simp only [BitVec.toNat_setWidth, BitVec.toNat_add, BitVec.toNat_mul]
    generalize numberOfFats _ = fats at hlt ⊢
    have hfats : fats.toNat % 2 ^ 32 = fats.toNat :=
      Nat.mod_eq_of_lt (fats.isLt.trans (by decide))
    rw [hfats]
    omega
  exact congrArg (fun n => 0x200 * (n + _)) hdata

/-- Below the sector 2^23 the code passes the exact position. -/
theorem passed_eq {place : Place} (hvalid : place.Valid) (hlt : place.lba disk part < 2 ^ 23) :
    (place.passed disk part pt bs).toNat = 0x200 * place.lba disk part + place.offset := by
  cases place with
  | partitionTable => rfl
  | bootSector => exact bootSectorPos_eq hpt hlt
  | record c recordCnt =>
      simp only [Place.lba, clusterLba] at hlt
      have hbase := clusterByte_eq (c := c) hpt hbs hvolume (by omega)
      have hcluster : clusterLba disk part c < 2 ^ 23 := by
        unfold clusterLba
        omega
      have hcount : recordCnt.toNat < 2 ^ 27 := by omega
      have hfits : (fat32Init disk part pt bs).clusterByte c + 32 * recordCnt.toNat < 2 ^ 32 := by
        rw [hbase]
        unfold clusterLba
        omega
      have hpos := Fat32.recordPos_eq hvalid hfits
      rw [BitVec.ofNat_toNat, BitVec.setWidth_eq] at hpos
      simp only [Place.passed, Place.lba, Place.offset]
      rw [hpos, hbase]
      omega
  | fatEntry c =>
      simp only [Place.lba] at hlt
      have hbase := fatBeginLba_eq hpt hbs hvolume (by omega : fatLba disk part < 2 ^ 23)
      have hbyte : (fat32Init disk part pt bs).fatByte c =
          0x200 * fatLba disk part + 4 * c.toNat := by
        unfold Fat32.fatByte
        rw [hbase]
      simp only [Place.passed, Place.lba, Place.offset]
      rw [Fat32.fatPos_eq (by omega), hbyte]
      omega
  | data c seek =>
      simp only [Place.lba, clusterLba] at hlt
      have hbase := clusterByte_eq (c := c) hpt hbs hvolume (by omega)
      simp only [Place.passed, Place.lba, Place.offset]
      rw [Fat32.dataPos_eq hvalid (by rw [hbase]; unfold clusterLba; omega), hbase]
      omega

/-- A position and its sector are passed on exactly just below the sector 2^23. -/
theorem position_exact_iff {place : Place} (hvalid : place.Valid) :
    ((place.passed disk part pt bs).toNat = 0x200 * place.lba disk part + place.offset ∧
        sectorStart (place.passed disk part pt bs) = place.lba disk part) ↔
      place.lba disk part < 2 ^ 23 := by
  constructor
  · rintro ⟨hpos, -⟩
    have hword := (place.passed disk part pt bs).isLt
    omega
  · intro hlt
    have hpos := passed_eq hpt hbs hvolume hvalid hlt
    have hoffset : place.offset < 0x200 := by
      cases place <;> simp only [Place.offset] <;> omega
    refine ⟨hpos, ?_⟩
    unfold sectorStart
    omega

end Exact

/-! ### Two partitions -/

def partitionedDisk (start : Word) : Disk
  | 0, 113 => start <<< 16
  | 0, 114 => start >>> 16
  | sector, word =>
      if sector = start.toNat then
        match word with
        | 3 => 0x00010100
        | 4 | 9 => 1
        | 11 => 2
        | _ => 0
      else 0

/-- The root directory of a partition that begins at the first sector. -/
theorem position_exact_iff_first :
    ((Place.record 2 3).passed (partitionedDisk 1) 1 (List.replicate 64 0)
        (List.replicate 512 0)).toNat = 0x200 * 3 + 96 ∧
      (Place.record 2 3).lba (partitionedDisk 1) 1 = 3 := by
  have hvolume : ValidVolume (partitionedDisk 1) 1 := ⟨by decide, by decide +kernel⟩
  have hlba : (Place.record 2 3).lba (partitionedDisk 1) 1 = 3 := by decide +kernel
  have hvalid : (Place.record 2 3).Valid := show (2 : Word) ≤ 2 by decide
  have hexact := (position_exact_iff
    (List.length_replicate : (List.replicate 64 (0 : Byte)).length = 64)
    (List.length_replicate : (List.replicate 512 (0 : Byte)).length = 512) hvolume hvalid).mpr
    (by rw [hlba]; decide)
  rw [hlba] at hexact
  exact ⟨hexact.1, hlba⟩

/-- The boot sector of a partition at 4 GiB is read from position 0. -/
theorem far_partition_wraps :
    ValidVolume (partitionedDisk (2 ^ 23)) 1 ∧
      Place.bootSector.lba (partitionedDisk (2 ^ 23)) 1 = 2 ^ 23 ∧
      (Place.bootSector.passed (partitionedDisk (2 ^ 23)) 1 (List.replicate 64 0)
        (List.replicate 512 0)).toNat ≠
          0x200 * Place.bootSector.lba (partitionedDisk (2 ^ 23)) 1 +
            Place.bootSector.offset :=
  ⟨⟨by decide, by decide +kernel⟩, by decide +kernel, by decide +kernel⟩

end PComputer.PseudOS
