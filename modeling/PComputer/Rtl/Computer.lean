import PComputer.Rtl.Bus
import PComputer.Rtl.CachedAccess

/-!
# The computer

`riscv_multicyc` with its memories: the boot ROM, the distributed RAM and the cache with
the chip behind it, put together by `mmapper.v` and started by `reset.v`.  The other
devices are what they put on their side of `mmapper`; `serialboot` is a wire while no
transfer goes on.
-/

namespace PComputer.Rtl

open PComputer.Foundation

/-! ## `clocked_rom.v` and `simple_ram.v` -/

structure ClockedRom (depth : Nat) where
  mem : BitVec depth → Word
  spo : Word

namespace ClockedRom

def ready (rd : Bool) : Bool := !rd

def cycle {depth : Nat} (a : BitVec depth) (r : ClockedRom depth) : ClockedRom depth :=
  { r with spo := r.mem a }

end ClockedRom

structure SimpleRam (depth : Nat) where
  mem : BitVec depth → Word
  spo : Word

namespace SimpleRam

def ready (we rd : Bool) : Bool := !(rd || we)

def cycle {depth : Nat} (a : BitVec depth) (d : Word) (we : Bool) (r : SimpleRam depth) :
    SimpleRam depth where
  mem := if we then Function.update r.mem a d else r.mem
  spo := r.mem a

end SimpleRam

/-! ## `mmapper.v` -/

structure MapOut where
  bootmRd : Bool := false
  distmWe : Bool := false
  distmRd : Bool := false
  cacheWe : Bool := false
  cacheRd : Bool := false
  gpioWe : Bool := false
  uartWe : Bool := false
  videoWe : Bool := false
  sdWe : Bool := false
  usbWe : Bool := false
  intWe : Bool := false
  sbWe : Bool := false
  tWe : Bool := false
  ethWe : Bool := false
  irq : Bool := false
  deriving DecidableEq, Repr

structure MapIn where
  bootmSpo : Word
  bootmReady : Bool
  distmSpo : Word
  distmReady : Bool
  cacheSpo : Word
  cacheReady : Bool
  gpioSpo : Word
  uartSpo : Word
  videoSpo : Word
  sdSpo : Word
  usbSpo : Word
  intSpo : Word
  sbSpo : Word
  sbReady : Bool
  ps2Spo : Word
  tSpo : Word
  ethSpo : Word

namespace Mmapper

variable (a : Word) (we rd : Bool) (i : MapIn)

def area : BitVec 4 := a.extractLsb' 28 4

def device : BitVec 4 := a.extractLsb' 24 4

def out : MapOut :=
  if area a = 1 then { distmWe := we, distmRd := rd }
  else if area a = 2 then { cacheWe := we, cacheRd := rd }
  else if area a = 9 then
    match device a with
    | 0x2 => { gpioWe := we }
    | 0x3 => { uartWe := we }
    | 0x4 => { videoWe := we }
    | 0x6 => { sdWe := we }
    | 0x7 => { usbWe := we }
    | 0x8 => { intWe := we }
    | 0x9 => { sbWe := we }
    | 0xa => {}
    | 0xb => { tWe := we }
    | 0xc => { ethWe := we }
    | _ => { irq := true }
  else if area a = 0xf then { bootmRd := rd }
  else { irq := true }

def spo : Word :=
  if area a = 1 then i.distmSpo
  else if area a = 2 then i.cacheSpo
  else if area a = 9 then
    match device a with
    | 0x2 => i.gpioSpo
    | 0x3 => i.uartSpo
    | 0x4 => i.videoSpo
    | 0x6 => i.sdSpo
    | 0x7 => i.usbSpo
    | 0x8 => i.intSpo
    | 0x9 => i.sbSpo
    | 0xa => i.ps2Spo
    | 0xb => i.tSpo
    | 0xc => i.ethSpo
    | _ => 0
  else if area a = 0xf then i.bootmSpo
  else 0

def ready : Bool :=
  if area a = 1 then i.distmReady
  else if area a = 2 then i.cacheReady
  else if area a = 9 then if device a = 0x9 then i.sbReady else true
  else if area a = 0xf then i.bootmReady
  else true

end Mmapper

/-! ## `reset.v` -/

/-- The ten reset lines are one register each; `we` is tied to 0, so that they are alike. -/
structure ResetUnit where
  rstPsram : Bool
  rstMmu : Bool
  rstGloblReg : Bool

def ResetUnit.cycle (rstGlobl : Bool) (r : ResetUnit) : ResetUnit :=
  if rstGlobl then ⟨true, true, true⟩
  else if r.rstGloblReg then ⟨false, false, false⟩
  else r

/-! ## The wiring -/

structure Computer where
  reset : ResetUnit
  cpu : Multicyc
  bootrom : ClockedRom 10
  distram : SimpleRam 12
  cached : CachedMemory

structure Devices where
  gpioSpo : Word
  uartSpo : Word
  videoSpo : Word
  sdSpo : Word
  usbSpo : Word
  intSpo : Word
  sbSpo : Word
  sbReady : Bool
  ps2Spo : Word
  tSpo : Word
  ethSpo : Word

structure ComputerIn where
  rst : Bool
  eip : Bool
  eipIstimer : Bool
  devices : Devices
  wires : Wires
  wires' : Wires

namespace Computer

variable (x : ReadX) (i : ComputerIn) (s : Computer)

def core : Core := s.cpu.core

def phase : Phase := s.core.phase

def a : Word := s.core.a

def mapOut : MapOut := Mmapper.out s.a s.core.we s.core.rd

def hostIn : HostIn where
  a := s.a
  d := s.core.d
  we := s.mapOut.cacheWe
  rd := s.mapOut.cacheRd

def mapIn : MapIn where
  bootmSpo := s.bootrom.spo
  bootmReady := ClockedRom.ready s.mapOut.bootmRd
  distmSpo := s.distram.spo
  distmReady := SimpleRam.ready s.mapOut.distmWe s.mapOut.distmRd
  cacheSpo := s.cached.spo
  cacheReady := s.cached.ready s.hostIn
  gpioSpo := i.devices.gpioSpo
  uartSpo := i.devices.uartSpo
  videoSpo := i.devices.videoSpo
  sdSpo := i.devices.sdSpo
  usbSpo := i.devices.usbSpo
  intSpo := i.devices.intSpo
  sbSpo := i.devices.sbSpo
  sbReady := i.devices.sbReady
  ps2Spo := i.devices.ps2Spo
  tSpo := i.devices.tSpo
  ethSpo := i.devices.ethSpo

def spo : Word := Mmapper.spo s.a (s.mapIn i)

def ready : Bool := Mmapper.ready s.a (s.mapIn i)

def cpuIn : MulticycIn where
  rst := i.rst
  eip := i.eip
  eipIstimer := i.eipIstimer
  spo := s.spo i
  ready := s.ready i

/-- The cache and its memory, which have resets of their own. -/
def cachedCycle : CachedMemory :=
  let input (w : Wires) : MemoryIn :=
    { s.cached.cache.port.input w.junk w.noise with rst := s.reset.rstPsram }
  let half := s.cached.memory.cycle (input i.wires)
  { cache := s.cached.cache.cycle
      { rst := s.reset.rstMmu
        a := s.hostIn.a
        d := s.hostIn.d
        we := s.hostIn.we
        rd := s.hostIn.rd
        lowmemSpo := half.memory.spo
        lowmemReady := half.memory.ready (input i.wires') }
    memory := half.cycle (input i.wires') }

def cycle : Computer where
  reset := s.reset.cycle i.rst
  cpu := s.cpu.cycle x (s.cpuIn i)
  bootrom := s.bootrom.cycle (s.a.extractLsb' 2 10)
  distram := s.distram.cycle (s.a.extractLsb' 2 12) s.core.d s.mapOut.distmWe
  cached := s.cachedCycle i

theorem cachedCycle_of_rst (hpsram : s.reset.rstPsram = false) (hmmu : s.reset.rstMmu = false) :
    s.cachedCycle i = s.cached.cycle s.hostIn i.wires i.wires' := by
  rw [cachedCycle, hpsram, hmmu]
  rfl

/-- A run that begins with the last cycle of a reset. -/
structure IsRun (x : ReadX) (ins : Nat → ComputerIn) (tr : Nat → Computer) : Prop where
  next : ∀ t, tr (t + 1) = (tr t).cycle x (ins t)
  rst : (ins 0).rst = true
  running : ∀ t, 0 < t → (ins t).rst = false

end Computer

end PComputer.Rtl
