import Mathlib.Data.Stream.Init
import PComputer.Kernel.Blk
import PComputer.Rtl.Ch375b

/-!
# `CH375.c`: sectors of a USB disk

The driver writes command and data bytes to the chip and waits for its answers.  The
chip tells a command from the inputs of the one before by the ninth bit of the frame,
which comes from the function that the driver calls for the byte.
-/

namespace PComputer.PseudOS

open PComputer.Foundation PComputer.Rtl

/-! ## Commands and interrupt states -/

def CMD_GET_STATUS : Byte := 0x22
def CMD_RD_USB_DATA : Byte := 0x28
def CMD_WR_USB_DATA7 : Byte := 0x2B
def CMD_DISK_READ : Byte := 0x54
def CMD_DISK_RD_GO : Byte := 0x55
def CMD_DISK_WRITE : Byte := 0x56
def CMD_DISK_WR_GO : Byte := 0x57
def CMD_DISK_R_SENSE : Byte := 0x5A

def USB_INT_SUCCESS : Byte := 0x14
def USB_INT_DISK_READ : Byte := 0x1D
def USB_INT_DISK_WRITE : Byte := 0x1E

def CH375_BLOCK_SIZE : Nat := 64

/-! ## The driver -/

/-- The frames written so far, and the bytes that the chip is going to send. -/
structure UsbLine where
  sent : List UsbFrame
  answers : Stream' Byte

namespace UsbLine

variable (l : UsbLine)

def ch375Wr (c : Byte) : UsbLine := { l with sent := l.sent ++ [⟨true, c⟩] }

def ch375WrData (c : Byte) : UsbLine := { l with sent := l.sent ++ [⟨false, c⟩] }

def ch375Rd : Byte × UsbLine := (l.answers.head, { l with answers := l.answers.tail })

def getIrq : Byte × UsbLine := (l.ch375Wr CMD_GET_STATUS).ch375Rd

def usbClearError : UsbLine := (l.ch375Wr CMD_DISK_R_SENSE).getIrq.2

def address (cmd : Byte) (sector : Word) : UsbLine :=
  ((((((l.ch375Wr cmd).ch375WrData (sector.setWidth 8)).ch375WrData
    ((sector >>> 8).setWidth 8)).ch375WrData ((sector >>> 16).setWidth 8)).ch375WrData
    ((sector >>> 24).setWidth 8)).ch375WrData 1)

end UsbLine

/-- The struct; `buf` goes on with the memory behind it. -/
structure CH375Disk where
  buf : Nat → Byte
  blockPerSector : Word
  currentSector : Word

/-- `buf[i]`; behind `buf` are two more fields and then these. -/
def CH375Disk.byte (udisk : CH375Disk) (i : Nat) : Byte :=
  if 520 ≤ i ∧ i < 524 then lane udisk.blockPerSector (BitVec.ofNat 2 i)
  else if 524 ≤ i ∧ i < 528 then lane udisk.currentSector (BitVec.ofNat 2 i)
  else udisk.buf i

def readBytes : Nat → Nat → (Nat → Byte) → UsbLine → (Nat → Byte) × UsbLine
  | 0, _, buf, l => (buf, l)
  | count + 1, i, buf, l => readBytes count (i + 1) (Function.update buf i l.ch375Rd.1) l.ch375Rd.2

/-- The body of the loop over `iblk` when the chip has a block. -/
def readBlock (buf : Nat → Byte) (l : UsbLine) : (Nat → Byte) × UsbLine :=
  let len := (l.ch375Wr CMD_RD_USB_DATA).ch375Rd
  let read := readBytes len.1.toNat 0 buf len.2
  (read.1, read.2.ch375Wr CMD_DISK_RD_GO)

/-- The loop over `iblk`, with `count` blocks left; whether it came to its end. -/
def readBlocks : Nat → (Nat → Byte) → UsbLine → Bool × (Nat → Byte) × UsbLine
  | 0, buf, l => (true, buf, l)
  | count + 1, buf, l =>
      if l.getIrq.1 = USB_INT_DISK_READ then
        let block := readBlock buf l.getIrq.2
        readBlocks count block.1 block.2
      else (false, buf, l.getIrq.2)

/--
The result, the struct and the line.  The `irq` of the loop hides the outer one, so on
the way out of the loop the outer one still has the value `irq` that it was never given.
-/
def usbReadOneSector (irq : Int) (udisk : CH375Disk) (sectorNum : Word) (l : UsbLine) :
    Int × CH375Disk × UsbLine :=
  let read := readBlocks udisk.blockPerSector.toNat udisk.buf (l.address CMD_DISK_READ sectorNum)
  let udisk := { udisk with currentSector := sectorNum, buf := read.2.1 }
  if read.1 then
    let last := read.2.2.getIrq
    if last.1 = USB_INT_SUCCESS then (0, udisk, last.2)
    else (last.1.toNat, udisk, last.2.usbClearError)
  else (irq, udisk, read.2.2.usbClearError)

def writeBytes (udisk : CH375Disk) : Nat → Nat → UsbLine → UsbLine
  | 0, _, l => l
  | count + 1, ibuf, l => writeBytes udisk count (ibuf + 1) (l.ch375WrData (udisk.byte ibuf))

def writeBlock (udisk : CH375Disk) (ibuf : Nat) (l : UsbLine) : UsbLine :=
  (writeBytes udisk CH375_BLOCK_SIZE ibuf
    ((l.ch375Wr CMD_WR_USB_DATA7).ch375Wr (BitVec.ofNat 8 CH375_BLOCK_SIZE))).ch375Wr
    CMD_DISK_WR_GO

/-- The loop over `iblk`, with `count` blocks left; the status that it was left with. -/
def writeBlocks (udisk : CH375Disk) : Nat → Nat → UsbLine → Option Byte × UsbLine
  | 0, _, l => (none, l)
  | count + 1, ibuf, l =>
      if l.getIrq.1 = USB_INT_DISK_WRITE then
        writeBlocks udisk count (ibuf + CH375_BLOCK_SIZE) (writeBlock udisk ibuf l.getIrq.2)
      else (some l.getIrq.1, l.getIrq.2)

def usbWriteBackBuf (udisk : CH375Disk) (l : UsbLine) : Int × UsbLine :=
  let written :=
    writeBlocks udisk udisk.blockPerSector.toNat 0 (l.address CMD_DISK_WRITE udisk.currentSector)
  match written.1 with
  | none =>
      let last := written.2.getIrq
      if last.1 = USB_INT_SUCCESS then (0, last.2) else (last.1.toNat, last.2.usbClearError)
  | some irq => (irq.toNat, written.2.usbClearError)

/-! ## The command table -/

/-- Leading data bytes, and each command with the data bytes that follow it. -/
def commands : List UsbFrame → List Byte × List (Byte × List Byte)
  | [] => ([], [])
  | ⟨false, b⟩ :: fs => (b :: (commands fs).1, (commands fs).2)
  | ⟨true, c⟩ :: fs => ([], (c, (commands fs).1) :: (commands fs).2)

def lsbFirst (sector : Word) : List Byte :=
  [sector.extractLsb' 0 8, sector.extractLsb' 8 8, sector.extractLsb' 16 8,
    sector.extractLsb' 24 8]

/-- The inputs of a command as the table has them.  The driver moves one sector at a time. -/
inductive Inputs (sector : Word) : Byte → List Byte → Prop
  | disk {c : Byte} (hc : c = CMD_DISK_READ ∨ c = CMD_DISK_WRITE) :
      Inputs sector c (lsbFirst sector ++ [1])
  | data7 (length : Byte) (stream : List Byte) (hlength : stream.length = length.toNat) :
      Inputs sector CMD_WR_USB_DATA7 (length :: stream)
  | plain {c : Byte} (hread : c ≠ CMD_DISK_READ) (hwrite : c ≠ CMD_DISK_WRITE)
      (hdata : c ≠ CMD_WR_USB_DATA7) : Inputs sector c []

structure Framed (sector : Word) (fs : List UsbFrame) : Prop where
  leading : (commands fs).1 = []
  inputs : ∀ p ∈ (commands fs).2, Inputs sector p.1 p.2

section Framed

variable {sector : Word} {fs fs' : List UsbFrame} {c : Byte} {args : List Byte}

private theorem commands_append (fs : List UsbFrame) (h : (commands fs').1 = []) :
    commands (fs ++ fs') = ((commands fs).1, (commands fs).2 ++ (commands fs').2) := by
  induction fs with
  | nil => exact Prod.ext h rfl
  | cons f fs ih =>
      obtain ⟨command, b⟩ := f
      cases command <;> simp [commands, ih]

private theorem commands_data (args : List Byte) :
    commands (args.map (⟨false, ·⟩)) = (args, []) := by
  induction args with
  | nil => rfl
  | cons b args ih => rw [List.map_cons, commands, ih]

theorem Framed.append (h : Framed sector fs) (h' : Framed sector fs') :
    Framed sector (fs ++ fs') := by
  have heq := commands_append fs h'.leading
  refine ⟨by rw [heq]; exact h.leading, fun p hp => ?_⟩
  rw [heq] at hp
  exact (List.mem_append.mp hp).elim (h.inputs p) (h'.inputs p)

private theorem framed_nil : Framed sector [] := ⟨rfl, fun _ hp => by cases hp⟩

private theorem framed_command (h : Inputs sector c args) :
    Framed sector (⟨true, c⟩ :: args.map (⟨false, ·⟩)) := by
  refine ⟨rfl, fun p hp => ?_⟩
  rw [commands, commands_data, List.mem_singleton] at hp
  rwa [hp]

private theorem not_framed_of_commands {c' : Byte} (hno : ¬Inputs sector c []) :
    ¬Framed sector (fs ++ ⟨true, c⟩ :: ⟨true, c'⟩ :: fs') := by
  intro h
  have hmem : (c, []) ∈ (commands (fs ++ ⟨true, c⟩ :: ⟨true, c'⟩ :: fs')).2 := by
    rw [commands_append _ rfl]
    exact List.mem_append_right _ List.mem_cons_self
  exact hno (h.inputs _ hmem)

private theorem not_inputs_nil : ¬Inputs sector CMD_WR_USB_DATA7 [] := by
  intro h
  cases h with
  | plain _ _ hdata => exact hdata rfl

end Framed

/-- What the chip finds on the line once the driver has written the frames. -/
def FramedOnLine (sector : Word) (frames : List UsbFrame) : Prop :=
  ∀ port ins t, port.stateTx = .IDLE →
    (trace Ch375Writer.cycle ins (Ch375Writer.start port frames) t).frames = [] →
      ∃ fs, deframe (logged Ch375Writer.cycle Ch375Writer.bit ins
        (Ch375Writer.start port frames) t) = some fs ∧ Framed sector fs

private theorem framedOnLine_iff {sector : Word} {frames : List UsbFrame} :
    FramedOnLine sector frames ↔ Framed sector frames := by
  constructor
  · intro h
    let port : Ch375bTx := ⟨true, .IDLE, 0, 0, true⟩
    obtain ⟨t, ht⟩ := Ch375Writer.exists_done frames (show port.stateTx = .IDLE from rfl)
    obtain ⟨fs, hfs, hframed⟩ := h port Ch375Writer.always t rfl ht
    rw [Ch375Writer.deframe_line rfl ht] at hfs
    rwa [Option.some.inj hfs]
  · intro h port ins t hidle hdone
    exact ⟨frames, Ch375Writer.deframe_line hidle hdone, h⟩

/-! ## What the driver writes -/

namespace UsbLine

variable {l : UsbLine} {sector : Word} {c cmd : Byte} {buf : Nat → Byte} {udisk : CH375Disk}

theorem Framed.ch375Wr (h : Framed sector l.sent) (hc : Inputs sector c []) :
    Framed sector (l.ch375Wr c).sent := h.append (framed_command hc)

theorem Framed.getIrq (h : Framed sector l.sent) : Framed sector l.getIrq.2.sent :=
  Framed.ch375Wr h (.plain (by decide) (by decide) (by decide))

theorem Framed.usbClearError (h : Framed sector l.sent) : Framed sector l.usbClearError.sent :=
  Framed.getIrq (Framed.ch375Wr h (.plain (by decide) (by decide) (by decide)))

theorem sent_address (cmd : Byte) (sector : Word) :
    (l.address cmd sector).sent =
      l.sent ++ ⟨true, cmd⟩ :: (lsbFirst sector ++ [1]).map (⟨false, ·⟩) := by
  have hshift (k : Nat) : (sector >>> k).setWidth 8 = sector.extractLsb' k 8 := by
    ext i hi
    simp
  have hlow : sector.setWidth 8 = sector.extractLsb' 0 8 := by
    rw [← hshift 0, BitVec.ushiftRight_zero]
  simp only [address, ch375Wr, ch375WrData, lsbFirst, hshift, hlow]
  simp

theorem Framed.address (h : Framed sector l.sent) (hcmd : cmd = CMD_DISK_READ ∨ cmd =
    CMD_DISK_WRITE) :
    Framed sector (l.address cmd sector).sent := by
  rw [sent_address]
  exact h.append (framed_command (.disk hcmd))

private theorem sent_readBytes (buf : Nat → Byte) (count i : Nat) :
    (readBytes count i buf l).2.sent = l.sent := by
  induction count generalizing i buf l with
  | zero => rfl
  | succ count ih => exact ih _ (i + 1)

theorem Framed.readBlocks {count : Nat} (h : Framed sector l.sent) :
    Framed sector (readBlocks count buf l).2.2.sent := by
  induction count generalizing buf l with
  | zero => exact h
  | succ count ih =>
      unfold PseudOS.readBlocks
      split_ifs
      · apply ih
        have hbytes := sent_readBytes buf
          (l := (l.getIrq.2.ch375Wr CMD_RD_USB_DATA).ch375Rd.2)
          (l.getIrq.2.ch375Wr CMD_RD_USB_DATA).ch375Rd.1.toNat 0
        refine Framed.ch375Wr ?_ (.plain (by decide) (by decide) (by decide))
        rw [hbytes]
        exact Framed.ch375Wr (Framed.getIrq h) (.plain (by decide) (by decide) (by decide))
      · exact Framed.getIrq h

private theorem framed_usbReadOneSector {irq : Int} (h : Framed sector l.sent) :
    Framed sector (usbReadOneSector irq udisk sector l).2.2.sent := by
  have hread : Framed sector (readBlocks udisk.blockPerSector.toNat udisk.buf
      (l.address CMD_DISK_READ sector)).2.2.sent :=
    Framed.readBlocks (Framed.address h (Or.inl rfl))
  unfold usbReadOneSector
  simp only
  split_ifs
  · exact Framed.getIrq hread
  · exact Framed.usbClearError (Framed.getIrq hread)
  · exact Framed.usbClearError hread

/-! ## Blocks that are written back -/

private theorem sent_writeBytes (count ibuf : Nat) :
    (writeBytes udisk count ibuf l).sent =
      l.sent ++ (List.range' ibuf count).map fun i => ⟨false, udisk.byte i⟩ := by
  induction count generalizing ibuf l with
  | zero => exact (List.append_nil _).symm
  | succ count ih =>
      rw [writeBytes, ih, List.range'_succ, List.map_cons, ch375WrData, List.append_assoc]
      rfl

theorem sent_writeBlock (ibuf : Nat) :
    (writeBlock udisk ibuf l).sent =
      l.sent ++ ⟨true, CMD_WR_USB_DATA7⟩ :: ⟨true, BitVec.ofNat 8 CH375_BLOCK_SIZE⟩ ::
        ((List.range' ibuf CH375_BLOCK_SIZE).map (fun i => ⟨false, udisk.byte i⟩) ++
          [⟨true, CMD_DISK_WR_GO⟩]) := by
  rw [writeBlock, ch375Wr, sent_writeBytes]
  simp [ch375Wr]

private theorem extends_writeBlocks (count ibuf : Nat) :
    l.sent <+: (writeBlocks udisk count ibuf l).2.sent := by
  induction count generalizing ibuf l with
  | zero => exact List.prefix_rfl
  | succ count ih =>
      have hirq : l.sent <+: l.getIrq.2.sent := List.prefix_append _ _
      unfold writeBlocks
      split_ifs
      · refine (hirq.trans ?_).trans (ih _)
        rw [sent_writeBlock]
        exact List.prefix_append _ _
      · exact hirq

private theorem extends_usbWriteBackBuf (l : UsbLine) (udisk : CH375Disk) :
    (writeBlocks udisk udisk.blockPerSector.toNat 0
        (l.address CMD_DISK_WRITE udisk.currentSector)).2.sent <+:
      (usbWriteBackBuf udisk l).2.sent := by
  unfold usbWriteBackBuf
  simp only
  split
  · split_ifs
    · exact List.prefix_append _ _
    · exact (List.prefix_append _ _).trans ((List.prefix_append _ _).trans (List.prefix_append _ _))
  · exact (List.prefix_append _ _).trans (List.prefix_append _ _)

private theorem not_framed_usbWriteBackBuf (hblocks : udisk.blockPerSector ≠ 0)
    (hirq : l.answers.head = USB_INT_DISK_WRITE) :
    ¬Framed sector (usbWriteBackBuf udisk l).2.sent := by
  obtain ⟨count, hcount⟩ : ∃ count, udisk.blockPerSector.toNat = count + 1 :=
    Nat.exists_eq_succ_of_ne_zero fun hzero => hblocks (BitVec.eq_of_toNat_eq hzero)
  have hsent := extends_usbWriteBackBuf l udisk
  rw [hcount, writeBlocks,
    if_pos (show (l.address CMD_DISK_WRITE udisk.currentSector).getIrq.1 = _ from hirq)] at hsent
  obtain ⟨rest, hrest⟩ := (extends_writeBlocks _ _).trans hsent
  rw [← hrest, sent_writeBlock, List.append_assoc, List.cons_append, List.cons_append]
  exact not_framed_of_commands not_inputs_nil

private theorem framed_usbWriteBackBuf (h : Framed udisk.currentSector l.sent)
    (hnone : udisk.blockPerSector = 0 ∨ l.answers.head ≠ USB_INT_DISK_WRITE) :
    Framed udisk.currentSector (usbWriteBackBuf udisk l).2.sent := by
  have haddress : Framed udisk.currentSector
      (l.address CMD_DISK_WRITE udisk.currentSector).sent := Framed.address h (Or.inr rfl)
  have hblocks : Framed udisk.currentSector
      (writeBlocks udisk udisk.blockPerSector.toNat 0
        (l.address CMD_DISK_WRITE udisk.currentSector)).2.sent := by
    cases hcount : udisk.blockPerSector.toNat with
    | zero => exact haddress
    | succ count =>
        have hhead : (l.address CMD_DISK_WRITE udisk.currentSector).getIrq.1 ≠
            USB_INT_DISK_WRITE := by
          rcases hnone with hzero | hhead
          · rw [hzero] at hcount
            cases hcount
          · exact hhead
        rw [writeBlocks, if_neg hhead]
        exact Framed.getIrq haddress
  unfold usbWriteBackBuf
  generalize writeBlocks udisk udisk.blockPerSector.toNat 0
    (l.address CMD_DISK_WRITE udisk.currentSector) = written at hblocks ⊢
  obtain ⟨_ | irq, line⟩ := written
  · simp only
    split_ifs
    · exact Framed.getIrq hblocks
    · exact Framed.usbClearError (Framed.getIrq hblocks)
  · exact Framed.usbClearError hblocks

end UsbLine

/--
The chip parses what a read sends.  It parses a write-back just if no block is sent,
because the driver sends the length of a block as a command.
-/
theorem usb_sector_framed_iff (irq : Int) (udisk : CH375Disk) (sectorNum : Word)
    (answers answers' : Stream' Byte) :
    FramedOnLine sectorNum (usbReadOneSector irq udisk sectorNum ⟨[], answers⟩).2.2.sent ∧
        FramedOnLine udisk.currentSector (usbWriteBackBuf udisk ⟨[], answers'⟩).2.sent ↔
      udisk.blockPerSector = 0 ∨ answers'.head ≠ USB_INT_DISK_WRITE := by
  rw [framedOnLine_iff, framedOnLine_iff]
  constructor
  · rintro ⟨-, hwrite⟩
    by_contra hblock
    rw [not_or, not_not] at hblock
    exact UsbLine.not_framed_usbWriteBackBuf hblock.1 hblock.2 hwrite
  · intro hnone
    exact ⟨UsbLine.framed_usbReadOneSector framed_nil,
      UsbLine.framed_usbWriteBackBuf framed_nil hnone⟩

theorem usbWriteBackBuf_not_framed :
    ¬FramedOnLine 7
      (usbWriteBackBuf ⟨fun _ => 0, 8, 7⟩ ⟨[], Stream'.const USB_INT_DISK_WRITE⟩).2.sent := by
  rw [framedOnLine_iff]
  exact UsbLine.not_framed_usbWriteBackBuf (by decide) rfl

end PComputer.PseudOS
