import Mathlib.Data.BitVec

/-!
# `psram_controller_fast`

The QPI side of the memory controller.  It runs on `clk_mem`; after the boot a command
and its address go out four bits at a time, and bytes follow in one direction.
-/

namespace PComputer.Rtl

inductive PsramState where
  | INIT | RSTEN | BTWN_RSTEN_RST | RST | BTWN_RST_QE | QPI_ENTER | BTWN_QPI_IDLE
  | IDLE | SEND
  | SEND_QUAD | READING_PREPARE_QUAD | READING_QUAD | WRITING_PREPARE_QUAD | WRITING_QUAD
  | BTWN_READ_IDLE | BTWN_WRITE_IDLE
  deriving DecidableEq, Repr

structure PsramFast where
  sclk : Bool
  ce : Bool
  dout : BitVec 8
  byteAvailable : Bool
  readyForNextByte : Bool
  state : PsramState
  stateReturn : PsramState
  bootCounter : BitVec 16
  sendbits : BitVec 32
  sendcnt : BitVec 8
  cecnt : BitVec 3
  readPCnt : BitVec 4
  databyte : BitVec 8
  bytecnt : BitVec 3
  reseting : Bool
  rendLatch : Bool
  wendLatch : Bool
  weLatch : Bool
  rdLatch : Bool

def PsramFast.initial : PsramFast where
  sclk := false
  ce := true
  dout := 0
  byteAvailable := false
  readyForNextByte := false
  state := .INIT
  stateReturn := .INIT
  bootCounter := 2000
  sendbits := 0
  sendcnt := 0
  cecnt := 0
  readPCnt := 0
  databyte := 0
  bytecnt := 0
  reseting := true
  rendLatch := false
  wendLatch := false
  weLatch := false
  rdLatch := false

/-- `sio` is what the four wires carry, `sio3` on top. -/
structure PsramIn where
  rst : Bool
  rd : Bool
  rend : Bool
  we : Bool
  wend : Bool
  a : BitVec 24
  din : BitVec 8
  sio : BitVec 4

structure Pins where
  mosi : Option Bool
  miso : Option Bool
  sio2 : Option Bool
  sio3 : Option Bool
  deriving DecidableEq, Repr

namespace Pins

def floating : Pins := ⟨none, none, none, none⟩

def quad (n : BitVec 4) : Pins := ⟨some n[0], some n[1], some n[2], some n[3]⟩

end Pins

namespace PsramFast

def BOOT_COUNTER : BitVec 16 := 20000

variable (i : PsramIn) (p : PsramFast)

def ready : Bool := p.state == .IDLE

def spiOrQpi : Bool :=
  match p.state with
  | .SEND_QUAD | .READING_PREPARE_QUAD | .READING_QUAD | .WRITING_PREPARE_QUAD | .WRITING_QUAD
  | .BTWN_READ_IDLE | .BTWN_WRITE_IDLE => false
  | _ => true

def rOrW : Bool := p.state == .READING_PREPARE_QUAD || p.state == .READING_QUAD

def pins : Pins :=
  if p.rOrW then .floating
  else if p.state = .INIT then .quad 0
  else if p.state = .IDLE then .floating
  else if p.spiOrQpi then ⟨some p.sendbits[31], none, none, none⟩
  else if p.state = .WRITING_QUAD then .quad (p.databyte.extractLsb' 4 4)
  else .quad (p.sendbits.extractLsb' 28 4)

def sendBoot (cmd : BitVec 8) (return' : PsramState) : PsramFast :=
  { p with
    sendbits := cmd ++ 0#24
    sendcnt := 8
    ce := false
    state := .SEND
    stateReturn := return'
    cecnt := 7 }

/-- `ce` is high for eight clocks between two commands. -/
def between (next : PsramState) : PsramFast :=
  { p with
    ce := if p.cecnt ≠ 7 then true else p.ce
    state := if p.cecnt = 0 then next else p.state
    cecnt := p.cecnt - 1 }

def fsm : PsramFast :=
  match p.state with
  | .INIT =>
      if p.bootCounter = 0 then { p with state := .RSTEN }
      else { p with bootCounter := p.bootCounter - 1 }
  | .RSTEN => p.sendBoot 0b01100110 .BTWN_RSTEN_RST
  | .BTWN_RSTEN_RST => p.between .RST
  | .RST => p.sendBoot 0b10011001 .BTWN_RST_QE
  | .BTWN_RST_QE => p.between .QPI_ENTER
  | .QPI_ENTER => p.sendBoot 0b00110101 .BTWN_QPI_IDLE
  | .BTWN_QPI_IDLE => p.between .IDLE
  | .IDLE =>
      if p.reseting then { p with sclk := false, reseting := false, ce := true }
      else if p.weLatch then
        { p with
          sclk := false
          sendbits := 0x38#8 ++ i.a
          sendcnt := 32
          state := .SEND_QUAD
          stateReturn := .WRITING_PREPARE_QUAD
          bytecnt := 0
          ce := false }
      else if p.rdLatch then
        { p with
          sclk := false
          sendbits := 0xEB#8 ++ i.a
          sendcnt := 32
          state := .SEND_QUAD
          stateReturn := .READING_PREPARE_QUAD
          readPCnt := 12
          bytecnt := 0
          ce := false }
      else { p with sclk := false, ce := true }
  | .SEND =>
      if p.sclk then
        { p with
          sclk := false
          sendcnt := p.sendcnt - 1
          sendbits := p.sendbits.shiftConcat true
          state := if p.sendcnt = 1 then p.stateReturn else .SEND }
      else { p with sclk := true }
  | .SEND_QUAD =>
      let sent :=
        if p.sclk then
          { p with
            sclk := false
            sendcnt := p.sendcnt - 4
            sendbits := p.sendbits.extractLsb' 0 28 ++ 1#4
            state := if p.sendcnt = 4 then p.stateReturn else .SEND_QUAD }
        else { p with sclk := true }
      if p.stateReturn = .WRITING_PREPARE_QUAD then { sent with readyForNextByte := true } else sent
  | .READING_PREPARE_QUAD =>
      { p with
        sclk := !p.sclk
        readPCnt := p.readPCnt - 1
        state := if p.readPCnt = 0 then .READING_QUAD else .READING_PREPARE_QUAD }
  | .READING_QUAD =>
      if p.sclk then
        { p with
          sclk := false
          bytecnt := p.bytecnt + 4
          databyte := p.databyte.extractLsb' 0 4 ++ i.sio
          byteAvailable := p.bytecnt == 4
          dout := if p.bytecnt = 4 then p.databyte.extractLsb' 0 4 ++ i.sio else p.dout }
      else if p.rendLatch && p.bytecnt == 0 then { p with state := .BTWN_READ_IDLE, cecnt := 7 }
      else { p with sclk := true }
  | .WRITING_PREPARE_QUAD =>
      { p with databyte := i.din, readyForNextByte := false, state := .WRITING_QUAD }
  | .WRITING_QUAD =>
      if p.sclk then
        { p with
          sclk := false
          databyte := if p.bytecnt = 4 then i.din else p.databyte.extractLsb' 0 4 ++ 1#4
          bytecnt := p.bytecnt + 4
          readyForNextByte := p.bytecnt == 0
          state := if p.wendLatch ∧ p.bytecnt = 4 then .BTWN_WRITE_IDLE else .WRITING_QUAD
          cecnt := if p.wendLatch ∧ p.bytecnt = 4 then 7 else p.cecnt }
      else { p with sclk := true }
  | .BTWN_READ_IDLE => { p.between .IDLE with byteAvailable := false }
  | .BTWN_WRITE_IDLE => { p.between .IDLE with readyForNextByte := false }

def reset : PsramFast :=
  { p with
    ce := true
    sclk := false
    bootCounter := BOOT_COUNTER
    state := .INIT
    byteAvailable := false
    readyForNextByte := false
    sendbits := 0
    databyte := 0
    bytecnt := 0
    reseting := true }

/-- The requests of the other side are kept until they are used. -/
def cycle : PsramFast :=
  { (if i.rst then p.reset else p.fsm i) with
    rendLatch := !i.rst && p.state == .READING_QUAD && (i.rend || p.rendLatch)
    wendLatch := !i.rst && p.state == .WRITING_QUAD && (i.wend || p.wendLatch)
    weLatch := !i.rst && (i.we || p.state != .BTWN_WRITE_IDLE && p.weLatch)
    rdLatch := !i.rst && (i.rd || p.state != .BTWN_READ_IDLE && p.rdLatch) }

end PsramFast

/-! ## The chip -/

/--
The memory chip as the wires see it.  It takes them at the rising edges of `sclk`; to the
command and the address, eight samples, it answers with a sequence of nibbles, one for
each clock from the fifteenth on.  The answer can depend on all the frames before.
-/
structure PsramChip where
  stream : List (List Pins) → List Pins → Nat → BitVec 4
  captured : List Pins
  clocks : Nat
  frames : List (List Pins)

namespace PsramChip

variable (c : PsramChip)

/-- Until the chip answers, the wires are what `noise` makes of them. -/
def sio (noise : BitVec 4) : BitVec 4 :=
  if 14 ≤ c.clocks then c.stream c.frames (c.captured.take 8) (c.clocks - 14) else noise

/-- What an edge of `clk_mem` does, for the controller before and after it. -/
def clock (before after : PsramFast) : PsramChip :=
  if after.ce then
    { c with
      captured := []
      clocks := 0
      frames := if before.ce then c.frames else c.frames ++ [c.captured] }
  else
    { c with
      captured := if !before.sclk && after.sclk then c.captured ++ [before.pins] else c.captured
      clocks := if before.sclk && !after.sclk then c.clocks + 1 else c.clocks }

end PsramChip

end PComputer.Rtl
