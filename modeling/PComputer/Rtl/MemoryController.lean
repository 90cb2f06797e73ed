import PComputer.Foundation.ByteLanes
import PComputer.Rtl.PsramFast

/-!
# `memory_controller_burst`

Words on the side of the CPU, bytes on the side of `psram_controller_fast`.  Both run on
`clk_mem`; the CPU runs on `clk` at half that rate and sees `ready` at its edges.
-/

namespace PComputer.Rtl

open PComputer.Foundation

inductive MemState where
  | IDLE | WE_BEGIN | WE | RD_BEGIN | RD
  deriving DecidableEq, Repr

structure MemoryController where
  regspo : Word
  readyR : Bool
  readyROld : Bool
  readyDelay : Bool
  rega : BitVec 24
  regbuf : BitVec 2 → BitVec 8
  regburstEn : Bool
  regburstLength : BitVec 8
  count : BitVec 6
  mRd : Bool
  mRend : Bool
  mWe : Bool
  mWend : Bool
  mByteAvailableOld : Bool
  mReadyForNextByteOld : Bool
  state : MemState

def MemoryController.initial : MemoryController where
  regspo := 0
  readyR := false
  readyROld := false
  readyDelay := false
  rega := 0
  regbuf := fun _ => 0
  regburstEn := false
  regburstLength := 0
  count := 0
  mRd := false
  mRend := false
  mWe := false
  mWend := false
  mByteAvailableOld := false
  mReadyForNextByteOld := false
  state := .IDLE

/-- `junk` is what `regbuf` gives past its end, `noise` what the wires give undriven. -/
structure MemoryIn where
  rst : Bool
  burstEn : Bool
  burstLength : BitVec 8
  a : BitVec 24
  d : Word
  we : Bool
  rd : Bool
  junk : BitVec 8
  noise : BitVec 4

namespace MemoryController

variable (i : MemoryIn) (p : PsramFast) (m : MemoryController)

def spo : Word := m.regspo

def ready : Bool := (m.readyR || m.readyDelay) && !(i.rd || i.we)

def byteAvailablePosedge : Bool := !m.mByteAvailableOld && p.byteAvailable

def readyForNextBytePosedge : Bool := !m.mReadyForNextByteOld && p.readyForNextByte

def takesNext : Bool :=
  m.state == .WE && m.count == 0 && m.regburstEn && m.regburstLength != 0

/-- A word is taken from `d`: the first of a write with its request. -/
def takes : Bool := !i.rst && (m.state == .IDLE && i.we || m.takesNext)

def regbufNext : BitVec 2 → BitVec 8 :=
  if m.state = .IDLE ∨ m.takesNext then lane i.d
  else if m.state = .RD ∧ m.byteAvailablePosedge p ∧ (m.count - 1).toNat < 4 then
    Function.update m.regbuf ((m.count - 1).setWidth 2) p.dout
  else m.regbuf

def fsm : MemoryController :=
  match m.state with
  | .IDLE =>
      { m with
        state := if i.we then .WE_BEGIN else if i.rd then .RD_BEGIN else .IDLE
        readyR := !i.we && !i.rd && p.ready
        count := if i.we || i.rd then 4 else m.count
        regburstEn := i.burstEn
        regburstLength := i.burstLength
        rega := i.a
        mWend := false
        mRend := false }
  | .WE_BEGIN => if p.ready then { m with mWe := true, state := .WE } else m
  | .WE =>
      let last := !m.regburstEn || m.regburstLength == 0
      { m with
        mWe := false
        readyR :=
          m.readyForNextBytePosedge p &&
            (m.count == 3 && m.regburstEn && m.regburstLength != 1 || m.readyR)
        regburstLength :=
          if m.readyForNextBytePosedge p ∧ m.count = 3 ∧ m.regburstEn then m.regburstLength - 1
          else m.regburstLength
        count :=
          if m.count = 0 ∧ !last then 4
          else if m.readyForNextBytePosedge p then m.count - 1
          else m.count
        state := if m.count = 0 ∧ last then .IDLE else .WE
        mWend := m.count == 0 && last || m.mWend }
  | .RD_BEGIN => if p.ready then { m with mRd := true, state := .RD } else m
  | .RD =>
      let last := !m.regburstEn || m.regburstLength == 1
      { m with
        mRd := false
        mRend := m.count == 1 && last || m.mRend
        regspo :=
          if m.count = 0 then m.regbuf 3 ++ m.regbuf 2 ++ m.regbuf 1 ++ m.regbuf 0 else m.regspo
        regburstLength :=
          if m.count = 0 ∧ m.regburstEn then m.regburstLength - 1 else m.regburstLength
        count :=
          if m.count = 0 ∧ !last then 4
          else if m.byteAvailablePosedge p then m.count - 1
          else m.count
        state := if m.count = 0 ∧ last then .IDLE else .RD
        readyR := m.count == 0 && (!last || m.readyR) }

def reset : MemoryController :=
  { m with mRd := false, mWe := false, state := .IDLE, readyR := p.ready }

def cycle : MemoryController :=
  { (if i.rst then m.reset p else m.fsm i p) with
    readyROld := m.readyR
    readyDelay := m.readyR && !m.readyROld
    mByteAvailableOld := !i.rst && p.byteAvailable
    mReadyForNextByteOld := !i.rst && p.readyForNextByte
    regbuf := m.regbufNext i p }

def din : BitVec 8 :=
  if m.count.toNat < 4 then m.regbuf (m.count.setWidth 2) else i.junk

end MemoryController

/-- What the side of the CPU sees: a word is taken from `d`, or `ready` at an edge of `clk`. -/
inductive BurstEvent where
  | takes (d : Word)
  | ready (spo : Word)
  deriving DecidableEq, Repr

/--
The controller with the chip.  `clk` is the clock of the CPU, high in the second half of
its cycle; `events` is what the CPU has seen so far.
-/
structure MemorySystem where
  clk : Bool
  memory : MemoryController
  psram : PsramFast
  chip : PsramChip
  events : List BurstEvent

namespace MemorySystem

variable (i : MemoryIn) (s : MemorySystem)

def psramIn : PsramIn where
  rst := i.rst
  rd := s.memory.mRd
  rend := s.memory.mRend
  we := s.memory.mWe
  wend := s.memory.mWend
  a := s.memory.rega
  din := s.memory.din i
  sio := s.chip.sio i.noise

def eventsNext : List BurstEvent :=
  let taken := if s.memory.takes i then s.events ++ [.takes i.d] else s.events
  if s.memory.ready i && s.clk then taken ++ [.ready s.memory.spo] else taken

def cycle : MemorySystem where
  clk := !s.clk
  memory := s.memory.cycle i s.psram
  psram := s.psram.cycle (s.psramIn i)
  chip := s.chip.clock s.psram (s.psram.cycle (s.psramIn i))
  events := s.eventsNext i

end MemorySystem

end PComputer.Rtl
