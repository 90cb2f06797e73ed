import Mathlib.Data.List.DropRight
import PComputer.Kernel.SeekAndRead

/-!
# `fat32.c`: looking a file up and reading it

The file system reads a synchronous device through `blk_seek_and_read`.  Positions
are computed in the widths of the source: cluster numbers and offsets in 32 bits,
sector numbers in 64, and the position that is passed on in 32 again.
-/

namespace PComputer.PseudOS

open PComputer.Foundation

/-! ## The device -/

/-- `blk_seek_and_read` into `buf`, on a device whose commands are over in time. -/
def seekAndRead (disk : Disk) (seek bytes : Word) (buf : List Byte) : List Byte :=
  if seek.toNat + bytes.toNat < 2 ^ 32 then
    disk.bytes seek.toNat bytes.toNat ++ buf.drop bytes.toNat
  else buf

/-- The call on such a device, which the next call finds with the same disk. -/
theorem seekAndRead_eq_blk {b : Blk} {finished : Access → Bool} {seek bytes : Word}
    (hobtained : b.obtained = true) (hprompt : Blk.Prompt finished seek bytes)
    (junk : Access → Word) (buf : List Byte) :
    ∃ read b', b.blkSeekAndRead finished junk seek bytes = ((read.length : Int), read, b') ∧
      seekAndRead b.saved seek bytes buf = read ++ buf.drop read.length ∧
      b'.obtained = true ∧ b'.saved = b.saved := by
  obtain ⟨read, b', hcall, hafter⟩ := Blk.exists_blkSeekAndRead hobtained hprompt.writeback
  refine ⟨read, b', hcall, ?_, hafter⟩
  unfold seekAndRead
  split_ifs with hlimit
  · obtain ⟨_, hexact, -⟩ := Blk.exact_of_prompt hlimit hprompt junk b hobtained
    rw [hcall] at hexact
    have hread : read = b.saved.bytes seek.toNat bytes.toNat :=
      (Prod.mk.inj (Prod.mk.inj hexact).2).1
    rw [hread, Disk.length_bytes]
  · have hread : read = [] :=
      Blk.buf_of_wrapped (Nat.le_of_not_lt hlimit) (congrArg (·.2.1) hcall)
    rw [hread]
    rfl

/-! ## C strings -/

def cstr (buf : List Byte) : List Byte := buf.takeWhile (· != 0)

def strncpy (n : Nat) (src : List Byte) : List Byte :=
  let s := cstr (src.take n)
  s ++ List.replicate (n - s.length) 0

/-- `while (i >= 0 && buf[i] == ' ') buf[i--] = '\0'` from the last byte; the zeros are left out. -/
def trimSpaces (buf : List Byte) : List Byte := buf.rdropWhile (· == 0x20)

def le16 (buf : List Byte) (i : Nat) : BitVec 16 := buf.getD (i + 1) 0 ++ buf.getD i 0

def le32 (buf : List Byte) (i : Nat) : Word := le16 buf (i + 2) ++ le16 buf i

/-! ## Directory records -/

namespace DirectoryRecord

variable (record : List Byte)

def shortname : List Byte := record.take 11

def attrib : Byte := record.getD 11 0

def attribR : Bool := (attrib record).getLsbD 0
def attribH : Bool := (attrib record).getLsbD 1
def attribS : Bool := (attrib record).getLsbD 2
def attribV : Bool := (attrib record).getLsbD 3
def attribD : Bool := (attrib record).getLsbD 4

def fileCluster : Word :=
  ((le16 record 20).setWidth 32 <<< 16) + (le16 record 26).setWidth 32

def fileSize : Word := le32 record 28

def isValidFile : Bool :=
  !(record.getD 0 0 == 0 || record.getD 0 0 == 0xe5 || attribD record ||
    (attribR record && attribH record && attribS record && attribV record))

def recName : List Byte := cstr (trimSpaces (strncpy 8 (shortname record)))

/-- `junk` is `rec_ext[3]`, which the trimming reads and nothing has written. -/
def recExt (junk : Byte) : List Byte :=
  cstr ((trimSpaces (strncpy 3 ((shortname record).drop 8) ++ [junk])).take 3)

def isFile (junk : Byte) (name ext : List Byte) : Bool :=
  isValidFile record && recName record == name && recExt record junk == ext

end DirectoryRecord

/-! ## The path -/

/-- The last `i` from `n` down to 1 with a dot at `file[i]`, or 0. -/
def lastDot (file : List Byte) : Nat → Nat
  | 0 => 0
  | i + 1 => if file[i + 1]? = some 0x2e then i + 1 else lastDot file i

/-- `name` and `ext`; every other path makes `FAT32_Read` return -1. -/
def parsePath (file : List Byte) : Option (List Byte × List Byte) :=
  if file.head? ≠ some 0x2f then none
  else if file.length - 1 > 12 then none
  else
    let i := lastDot file (file.length - 1)
    let name := if i = 0 then file.drop 1 else (file.drop 1).take (i - 1)
    let ext := if i = 0 then [] else file.drop (i + 1)
    if name.length > 8 then none
    else if ext.length > 3 then none
    else some (name, ext)

/-! ## The file system -/

structure Fat32 where
  sectorsPerCluster : Byte
  fatBeginLba : BitVec 64
  clusterBeginLba : BitVec 64
  rootDirFirstCluster : BitVec 64

namespace Fat32

variable (fs : Fat32)

def clusterPos (fatEntry : Word) : BitVec 64 :=
  0x200 * (fs.clusterBeginLba + ((fatEntry - 2) * fs.sectorsPerCluster.setWidth 32).setWidth 64)

def recordPos (fatEntry recordCnt : Word) : Word :=
  (fs.clusterPos fatEntry + (recordCnt * 32).setWidth 64).setWidth 32

def fatPos (fatEntry : Word) : Word :=
  (0x200 * fs.fatBeginLba + (fatEntry * 4).setWidth 64).setWidth 32

section Read

variable (disk : Disk)

def nextEntry (fatEntry old : Word) : Word :=
  le32 (seekAndRead disk (fs.fatPos fatEntry) 4
    [old.extractLsb' 0 8, old.extractLsb' 8 8, old.extractLsb' 16 8, old.extractLsb' 24 8]) 0

variable (junk : Word → Word → Byte) (name ext : List Byte)

/-- The loop over the records from a cluster on, with the record that ends it. -/
def scan (fatEntry : Word) : Nat → Word → List Byte → Option (Bool × Word × List Byte)
  | 0, _, _ => none
  | fuel + 1, recordCnt, record =>
      let record := seekAndRead disk (fs.recordPos fatEntry recordCnt) 32 record
      if DirectoryRecord.isFile record (junk fatEntry recordCnt) name ext then
        some (true, recordCnt, record)
      else if record.getD 0 0 ≠ 0 then scan fatEntry fuel (recordCnt + 1) record
      else some (false, recordCnt, record)

def walk : Nat → Word → List Byte → Option (Option (Word × Word × List Byte))
  | 0, _, _ => none
  | fuel + 1, fatEntry, record =>
      if fatEntry < 0x0fffffff then
        match fs.scan disk junk name ext fatEntry fuel 0 record with
        | none => none
        | some (true, recordCnt, record) => some (some (fatEntry, recordCnt, record))
        | some (false, _, record) => walk fuel (fs.nextEntry disk fatEntry fatEntry) record
      else some none

def fileChain : Nat → Word → Word → Option Bool
  | 0, _, _ => none
  | fuel + 1, fatEntry, fatEntryNext =>
      if fatEntry < 0x0fffffff then
        let next := fs.nextEntry disk fatEntry fatEntryNext
        if next < 0x0fffffff ∧ next ≠ fatEntry + 1 then some false
        else fileChain fuel next next
      else some true

def readFile (fuel : Nat) (record : List Byte) (seek size : Word) (buf : List Byte) :
    Option (Int × List Byte) :=
  let fileCluster := DirectoryRecord.fileCluster record
  let fileSize := DirectoryRecord.fileSize record
  match fs.fileChain disk fuel fileCluster 0 with
  | none => none
  | some false => some (-1, buf)
  | some true =>
      let size := if fileSize < seek + size then fileSize - seek else size
      let pos := (fs.clusterPos fileCluster + seek.setWidth 64).setWidth 32
      some (size.toInt, seekAndRead disk pos size buf)

end Read

/-- `FAT32_Read` up to its branch for "file found"; `stack` is `record` before the first read. -/
def lookup (disk : Disk) (junk : Word → Word → Byte) (stack : List Byte) (fuel : Nat)
    (file : List Byte) : Option (Option (Word × Word × List Byte)) :=
  match parsePath file with
  | none => some none
  | some (name, ext) =>
      fs.walk disk junk name ext fuel (fs.rootDirFirstCluster.setWidth 32) stack

/-- The result and `buf`, if `fuel` rounds are enough for each loop. -/
def fat32Read (disk : Disk) (junk : Word → Word → Byte) (stack : List Byte) (fuel : Nat)
    (file : List Byte) (seek size : Word) (buf : List Byte) : Option (Int × List Byte) :=
  match fs.lookup disk junk stack fuel file with
  | none => none
  | some none => some (-1, buf)
  | some (some (_, _, record)) => fs.readFile disk fuel record seek size buf

end Fat32

end PComputer.PseudOS
