import PComputer.Foundation.ByteLanes
import PComputer.Rtl.SdController

/-!
# `sdcard.v`

The block buffer between the CPU and `sd_controller`.  The controller asks for a byte or
offers one by a flag that rises; the unit takes the rising edge.
-/

namespace PComputer.Rtl

open PComputer.Foundation

structure SdBuffer where
  sdAddress : Word
  block : BitVec 7 → Word
  dirty : Bool
  sdRd : Bool
  sdWr : Bool
  sdDin : BitVec 8
  reading : Bool
  writing : Bool
  counter : BitVec 10
  cache1 : BitVec 8
  cache2 : BitVec 8
  cache3 : BitVec 8

structure Sdcard where
  clkcounter : BitVec 5
  controller : SdController
  readnextOld : Bool
  writenextOld : Bool
  buffer : SdBuffer

structure SdcardIn where
  rst : Bool
  sdDat0 : Bool
  sdNcd : Bool
  a : BitVec 16
  d : Word
  we : Bool

namespace SdcardIn

variable (i : SdcardIn)

def data : Word := byteSwap i.d

/-- The block buffer is at the addresses below `0x1000`. -/
def inBlock : Bool := i.a.extractLsb' 12 4 == 0

def index : BitVec 7 := i.a.extractLsb' 2 7

def writesBlock : Bool := i.we && i.inBlock

end SdcardIn

namespace SdBuffer

variable (i : SdcardIn) (u : SdBuffer)

def readyReal (sdReady : Bool) : Bool := sdReady && !u.sdRd && !u.sdWr

def blockcounterspo : Word := u.block (u.counter.extractLsb' 2 7)

/-- The commands of the CPU and the answer of the controller to them. -/
def control (sdReady : Bool) : SdBuffer :=
  if u.readyReal sdReady then
    { u with
      sdAddress := if i.we && i.a == 0x1000 then i.data else u.sdAddress
      sdRd := if i.we && i.a == 0x1004 then i.data.getLsbD 0 else u.sdRd
      sdWr := if i.we && i.a == 0x1008 then i.data.getLsbD 0 else u.sdWr
      reading := false
      writing := false }
  else if u.sdRd && !sdReady then { u with sdRd := false, reading := true, counter := 0 }
  else if u.sdWr && !sdReady then
    { u with sdWr := false, writing := true, counter := 0, dirty := false }
  else u

def receive (sdDout : BitVec 8) (after : SdBuffer) : SdBuffer :=
  { (if u.counter.extractLsb' 0 2 = 0 then { after with cache1 := sdDout }
      else if u.counter.extractLsb' 0 2 = 1 then { after with cache2 := sdDout }
      else if u.counter.extractLsb' 0 2 = 2 then { after with cache3 := sdDout }
      else
        { after with
          block := Function.update u.block (u.counter.extractLsb' 2 7)
            (u.cache1 ++ u.cache2 ++ u.cache3 ++ sdDout) } : SdBuffer) with
    counter := u.counter + 1 }

def send (after : SdBuffer) : SdBuffer :=
  { after with
    sdDin :=
      if u.counter.extractLsb' 0 2 = 0 then u.blockcounterspo.extractLsb' 24 8
      else if u.counter.extractLsb' 0 2 = 1 then u.blockcounterspo.extractLsb' 16 8
      else if u.counter.extractLsb' 0 2 = 2 then u.blockcounterspo.extractLsb' 8 8
      else u.blockcounterspo.extractLsb' 0 8
    counter := u.counter + 1 }

/-- The transfers see the registers before the edge and win over `control`. -/
def cycle (sdReady readnextPosedge writenextPosedge : Bool) (sdDout : BitVec 8) : SdBuffer :=
  if i.rst then
    { u with
      sdAddress := 0xffffffff
      dirty := false
      reading := false
      writing := false
      sdRd := false
      sdWr := false }
  else if u.reading && readnextPosedge then u.receive sdDout (u.control i sdReady)
  else if u.writing && writenextPosedge then u.send (u.control i sdReady)
  else if i.writesBlock then
    { u.control i sdReady with
      block := Function.update u.block i.index i.d
      dirty := true }
  else u.control i sdReady

end SdBuffer

namespace Sdcard

variable (i : SdcardIn) (s : Sdcard)

def clkPulseSlow : Bool := s.clkcounter.extractLsb' 0 1 == 0

def sdReadyReal : Bool := s.buffer.readyReal s.controller.ready

def spo : Word :=
  if i.inBlock then s.buffer.block i.index
  else if i.a = 0x1000 then byteSwap s.buffer.sdAddress
  else if i.a = 0x2000 then 0#7 ++ BitVec.ofBool i.sdNcd ++ 0#24
  else if i.a = 0x2010 then 0#7 ++ BitVec.ofBool s.sdReadyReal ++ 0#24
  else if i.a = 0x2014 then 0#7 ++ BitVec.ofBool s.buffer.dirty ++ 0#24
  else 0

def controllerIn : SdControllerIn where
  clkPulseSlow := s.clkPulseSlow
  reset := i.rst
  miso := i.sdDat0
  address := s.buffer.sdAddress
  rd := s.buffer.sdRd
  wr := s.buffer.sdWr
  din := s.buffer.sdDin

def cycle : Sdcard where
  clkcounter := if i.rst then 0 else s.clkcounter + 1
  controller := s.controller.cycle (s.controllerIn i)
  readnextOld := s.controller.byteAvailable
  writenextOld := s.controller.readyForNextByte
  buffer :=
    s.buffer.cycle i s.controller.ready (!s.readnextOld && s.controller.byteAvailable)
      (!s.writenextOld && s.controller.readyForNextByte) s.controller.dout

end Sdcard

end PComputer.Rtl
