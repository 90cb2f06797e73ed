import Mathlib.Data.List.Basic
import PComputer.Foundation.ByteLanes

/-!
# Block devices and `blk_seek_and_read`

The contract of `blk.h` with the rules of `sdcard.v`: a command may run on after the
function that gave it has returned, a command that is given meanwhile is ignored, and
until a command is over the cache shows anything.  How long a command takes is a
parameter: `finished` tells at which accesses of the code it is over.
-/

namespace PComputer.PseudOS

open PComputer.Foundation

abbrev Byte := BitVec 8

/-! ## Disks -/

/-- Sectors of 128 words, as the cache shows them. -/
abbrev Disk := Nat → Nat → Word

namespace Disk

def byte (disk : Disk) (n : Nat) : Byte :=
  (disk (n / 0x200) (n % 0x200 / 4)).extractLsb' (8 * (n % 4)) 8

def bytes (disk : Disk) (start n : Nat) : List Byte := (List.range' start n).map disk.byte

@[simp] theorem length_bytes (disk : Disk) (start n : Nat) : (disk.bytes start n).length = n := by
  simp [bytes]

theorem getElem?_bytes {n k : Nat} (disk : Disk) (start : Nat) (h : k < n) :
    (disk.bytes start n)[k]? = some (disk.byte (start + k)) := by
  simp [bytes, h]

theorem bytes_append (disk : Disk) (start m n : Nat) :
    disk.bytes start m ++ disk.bytes (start + m) n = disk.bytes start (m + n) := by
  rw [bytes, bytes, bytes, ← List.map_append, ← List.range'_append_1]

end Disk

/-! ## Devices -/

inductive Command where
  | ioctl | load | writeback
  deriving DecidableEq, Repr

structure Blk where
  obtained : Bool
  /-- The sector that the last accepted `ioctl` has set. -/
  sector : Nat
  disk : Disk
  cache : Nat → Word
  dirty : Bool
  running : Option Command

namespace Blk

def isready (b : Blk) : Bool := b.running.isNone

def isdirty (b : Blk) : Bool := b.dirty

def ioctl (b : Blk) (sec : Nat) : Blk :=
  if b.isready then { b with sector := sec, running := some .ioctl } else b

def load (b : Blk) : Blk := if b.isready then { b with running := some .load } else b

def writeback (b : Blk) : Blk :=
  if b.isready then { b with running := some .writeback, dirty := false } else b

def finish (b : Blk) : Blk :=
  match b.running with
  | none => b
  | some .ioctl => { b with running := none }
  | some .load => { b with running := none, cache := b.disk b.sector }
  | some .writeback => { b with running := none, disk := Function.update b.disk b.sector b.cache }

def wait (b : Blk) (finished : Bool) : Blk := if finished then b.finish else b

/-- `cache[i]`, where `junk` shows as long as a command runs. -/
def read (b : Blk) (junk : Word) (i : Nat) : Word := if b.isready then b.cache i else junk

end Blk

inductive Access where
  | writeback
  | ioctl (sec : Nat)
  | load (sec : Nat)
  | read (sec byte : Nat)
  deriving DecidableEq, Repr

/-! ## The function -/

namespace Blk

section Code

variable (finished : Access → Bool) (junk : Access → Word)

/-- `buf[cnt] = blk->cache[byte / 4] >> ((byte % 4) * 8)` -/
def readByte (sec : Nat) (s : List Byte × Blk) (byte : Nat) : List Byte × Blk :=
  let b := s.2.wait (finished (.read sec byte))
  let word := b.read (junk (.read sec byte)) (byte / 4)
  (s.1 ++ [(word.sshiftRight (byte % 4 * 8)).setWidth 8], b)

def readSector (seek bytes : Word) (s : List Byte × Blk) (sec : Nat) : List Byte × Blk :=
  let sectorStart := seek.toNat / 0x200
  let sectorEnd := (seek + bytes).toNat / 0x200
  let bytesStart := seek.toNat % 0x200
  let bytesEnd := (seek + bytes).toNat % 0x200
  let b := (s.2.wait (finished (.ioctl sec))).ioctl sec
  let b := (b.wait (finished (.load sec))).load
  let currBytesStart := if sec = sectorStart then bytesStart else 0
  let currBytesEnd := if sec = sectorEnd then bytesEnd else 0x200
  (List.range' currBytesStart (currBytesEnd - currBytesStart)).foldl
    (readByte finished junk sec) (s.1, b)

/-- The result, the bytes written to `buf` and the device after the call. -/
def blkSeekAndRead (b : Blk) (seek bytes : Word) : Int × List Byte × Blk :=
  if !b.obtained then (-1, [], b)
  else
    let sectorStart := seek.toNat / 0x200
    let sectorEnd := (seek + bytes).toNat / 0x200
    let b := if b.isdirty then (b.wait (finished .writeback)).writeback else b
    let (buf, b) := (List.range' sectorStart (sectorEnd + 1 - sectorStart)).foldl
      (readSector finished junk seek bytes) ([], b)
    (buf.length, buf, b)

end Code

/-! ## What a device owes -/

/-- The disk after the running command and a write-back of the dirty sector. -/
def saved (b : Blk) : Disk :=
  if b.dirty then Function.update b.finish.disk b.finish.sector b.finish.cache else b.finish.disk

def Exact (finished : Access → Bool) (seek bytes : Word) : Prop :=
  ∀ (junk : Access → Word) (b : Blk), b.obtained = true →
    ∃ b' : Blk, b.blkSeekAndRead finished junk seek bytes =
        ((bytes.toNat : Int), b.saved.bytes seek.toNat bytes.toNat, b') ∧
      b'.finish.disk = b.saved

/-- Each command is over when the code needs the next one or its data. -/
structure Prompt (finished : Access → Bool) (seek bytes : Word) : Prop where
  writeback : finished .writeback = true
  ioctl : bytes ≠ 0 → finished (.ioctl (seek.toNat / 0x200)) = true
  load : bytes ≠ 0 → ∀ s, seek.toNat / 0x200 ≤ s → 0x200 * s < seek.toNat + bytes.toNat →
    finished (.load s) = true
  read : bytes ≠ 0 → ∀ s, seek.toNat / 0x200 ≤ s → 0x200 * s < seek.toNat + bytes.toNat →
    finished (.read s (seek.toNat - 0x200 * s)) = true

end Blk

end PComputer.PseudOS
