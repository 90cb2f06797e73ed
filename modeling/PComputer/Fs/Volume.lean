import PComputer.Fs.ShortNames

/-!
# Volumes

Clusters, the FAT and the root directory of a volume, and where the arithmetic of the
source finds them.
-/

namespace PComputer.PseudOS

open PComputer.Foundation

namespace Fat32

variable {fs : Fat32} {disk : Disk} {name ext : List Byte} {chain : List Word} {c : Word}

/-! ## Volumes -/

def recordsPerCluster (fs : Fat32) : Nat := 16 * fs.sectorsPerCluster.toNat

def clusterByte (fs : Fat32) (c : Word) : Nat :=
  0x200 * (fs.clusterBeginLba.toNat + (c.toNat - 2) * fs.sectorsPerCluster.toNat)

def root (fs : Fat32) : Word := fs.rootDirFirstCluster.setWidth 32

def fatByte (fs : Fat32) (c : Word) : Nat := 0x200 * fs.fatBeginLba.toNat + 4 * c.toNat

def fatEntry (fs : Fat32) (disk : Disk) (c : Word) : Word := le32 (disk.bytes (fs.fatByte c) 4) 0

def clusterOf (entry : Word) : Word := entry &&& 0x0fffffff

/-- A chain of clusters by the rules of FAT32. -/
inductive Chain (fs : Fat32) (disk : Disk) : Word → List Word → Prop
  | last {c : Word} : 2 ≤ c → c < 0x0ffffff8 → 0x0ffffff8 ≤ clusterOf (fs.fatEntry disk c) →
      Chain fs disk c [c]
  | next {c : Word} {rest : List Word} : 2 ≤ c → c < 0x0ffffff8 →
      Chain fs disk (clusterOf (fs.fatEntry disk c)) rest → Chain fs disk c (c :: rest)

def position (fs : Fat32) (chain : List Word) (i : Nat) : Option Nat :=
  chain[i / fs.recordsPerCluster]?.map fun c => fs.clusterByte c + 32 * (i % fs.recordsPerCluster)

def recordAt (disk : Disk) (p : Nat) : List Byte := disk.bytes p 32

/-- A record of the chain, with no end marker up to it. -/
def InDirectory (fs : Fat32) (disk : Disk) (chain : List Word) (p : Nat) : Prop :=
  ∃ i, fs.position chain i = some p ∧
    ∀ j ≤ i, ∀ q, fs.position chain j = some q → disk.byte q ≠ 0

def Matches (disk : Disk) (name ext : List Byte) (p : Nat) : Prop :=
  DirectoryRecord.Live (recordAt disk p) ∧ DirectoryRecord.Names (recordAt disk p) name ext

def IsRecordOf (fs : Fat32) (disk : Disk) (chain : List Word) (name ext : List Byte) (p : Nat) :
    Prop :=
  fs.InDirectory disk chain p ∧ Matches disk name ext p

/-- A name of one to eight bytes and an extension of at most three. -/
structure ShortName (name ext : List Byte) : Prop where
  plain : PlainName name
  plainExt : PlainName ext
  nonempty : name ≠ []
  name8 : name.length ≤ 8
  ext3 : ext.length ≤ 3

/-- What FAT32 asks of a root directory. -/
structure WellFormed (fs : Fat32) (disk : Disk) (chain : List Word) : Prop where
  sectors : fs.sectorsPerCluster ≠ 0
  clusters : fs.Chain disk fs.root chain
  marker : ∀ i j p q, i ≤ j → fs.position chain i = some p →
    fs.position chain j = some q → disk.byte p = 0 → disk.byte q = 0
  names : ∀ p, fs.InDirectory disk chain p →
    (0 : Byte) ∉ DirectoryRecord.shortname (recordAt disk p)
  unique : ∀ name ext p q, fs.IsRecordOf disk chain name ext p →
    fs.IsRecordOf disk chain name ext q → p = q

theorem Chain.two_le (h : fs.Chain disk c chain) : 2 ≤ c := by
  cases h with
  | last h | next h => exact h

theorem Chain.lt (h : fs.Chain disk c chain) : c < 0x0ffffff8 := by
  cases h with
  | last _ h | next _ h => exact h

theorem clusterOf_of_lt {entry : Word} (h : entry < 0x0fffffff) : clusterOf entry = entry := by
  have hlt : entry.toNat < 2 ^ 28 := Nat.lt_trans (BitVec.lt_def.mp h) (by decide)
  apply BitVec.eq_of_toNat_eq
  exact (BitVec.toNat_and _ _).trans (Nat.and_two_pow_sub_one_of_lt_two_pow hlt)

/-! ## Positions -/

theorem length_recordAt (disk : Disk) (p : Nat) : (recordAt disk p).length = 32 :=
  Disk.length_bytes disk p 32

theorem getD_recordAt (disk : Disk) (p : Nat) : (recordAt disk p).getD 0 0 = disk.byte p := by
  have hget := Disk.getElem?_bytes disk p (by decide : 0 < 32)
  rw [List.getD_eq_getElem?_getD, recordAt, hget]
  rfl

private theorem toNat_sectors (fs : Fat32) (hc : 2 ≤ c)
    (hfits : (c.toNat - 2) * fs.sectorsPerCluster.toNat < 2 ^ 32) :
    ((c - 2) * fs.sectorsPerCluster.setWidth 32).toNat =
      (c.toNat - 2) * fs.sectorsPerCluster.toNat := by
  have hspc : (fs.sectorsPerCluster.setWidth 32).toNat = fs.sectorsPerCluster.toNat := by
    rw [BitVec.toNat_setWidth]
    exact Nat.mod_eq_of_lt (by have := fs.sectorsPerCluster.isLt; omega)
  have hsub : (c - 2).toNat = c.toNat - 2 := BitVec.toNat_sub_of_le hc
  rw [BitVec.toNat_mul, hsub, hspc]
  exact Nat.mod_eq_of_lt hfits

theorem recordPos_eq {k : Nat} (hc : 2 ≤ c) (hfits : fs.clusterByte c + 32 * k < 2 ^ 32) :
    (fs.recordPos c (BitVec.ofNat 32 k)).toNat = fs.clusterByte c + 32 * k := by
  unfold clusterByte at hfits ⊢
  have hmul := toNat_sectors fs hc (by omega)
  unfold recordPos clusterPos
  generalize (c - 2) * fs.sectorsPerCluster.setWidth 32 = sectors at hmul
  simp only [BitVec.toNat_setWidth, BitVec.toNat_add, BitVec.toNat_mul, hmul,
    BitVec.ofNat_eq_ofNat, BitVec.toNat_ofNat, Nat.reducePow, Nat.reduceMod]
  omega

theorem fatPos_eq (hfits : fs.fatByte c < 2 ^ 32) : (fs.fatPos c).toNat = fs.fatByte c := by
  unfold fatByte at hfits ⊢
  unfold fatPos
  simp only [BitVec.toNat_setWidth, BitVec.toNat_add, BitVec.toNat_mul,
    BitVec.ofNat_eq_ofNat, BitVec.toNat_ofNat, Nat.reducePow, Nat.reduceMod]
  omega

theorem seekAndRead_eq {pos bytes : Word} {buf : List Byte} (hbuf : buf.length = bytes.toNat)
    (hfits : pos.toNat + bytes.toNat < 2 ^ 32) :
    seekAndRead disk pos bytes buf = disk.bytes pos.toNat bytes.toNat := by
  unfold seekAndRead
  rw [if_pos hfits, ← hbuf, List.drop_length, List.append_nil]

theorem length_seekAndRead {pos bytes : Word} {buf : List Byte} (hbuf : buf.length = bytes.toNat) :
    (seekAndRead disk pos bytes buf).length = bytes.toNat := by
  by_cases hfits : pos.toNat + bytes.toNat < 2 ^ 32
  · rw [seekAndRead_eq hbuf hfits, Disk.length_bytes]
  · unfold seekAndRead
    rw [if_neg hfits, hbuf]

theorem nextEntry_eq {old : Word} (hfits : fs.fatByte c + 4 < 2 ^ 32) :
    fs.nextEntry disk c old = fs.fatEntry disk c := by
  have hpos := fatPos_eq (Nat.lt_of_le_of_lt (Nat.le_add_right _ 4) hfits)
  unfold nextEntry fatEntry
  rw [seekAndRead_eq rfl (by rw [hpos]; exact hfits), hpos]
  rfl

end Fat32

end PComputer.PseudOS
