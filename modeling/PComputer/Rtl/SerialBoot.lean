import PComputer.Rtl.CacheRefinement

/-!
# `serialboot.v`: words from the UART behind the cache

`serialboot` sits between the cache and its memory.  While it transfers, it
takes the memory over from the cache and writes each group of eight hexadecimal
digits there; the CPU waits for its `ready`.  It never looks at the memory's
`ready`: the memory has taken a word before anyone asks it again.
-/

namespace PComputer.Rtl

open PComputer.Foundation

/-! ## The module -/

structure SerialBoot where
  began : Bool
  uartByteCnt : BitVec 3
  uartByte : BitVec 3 → BitVec 4
  uartReadyPrev : Bool
  memStartAddr : Word

structure SerialBootIn where
  rst : Bool
  a : BitVec 3
  d : Word
  we : Bool
  uartData : BitVec 8
  uartReady : Bool

def uartDataBin (data : BitVec 8) : Option (BitVec 4) :=
  if 0x30 ≤ data ∧ data ≤ 0x39 then some (data.extractLsb' 0 4)
  else if 0x61 ≤ data ∧ data ≤ 0x66 then some (data.extractLsb' 0 4 + 9)
  else none

namespace SerialBoot

variable (i : SerialBootIn) (b : SerialBoot)

def finish (i : SerialBootIn) : Bool := i.uartData == 0x20

def transferring : Bool := b.began && !finish i

def sbWe : Bool :=
  b.uartByteCnt == 0 && (uartDataBin i.uartData).isSome && b.uartReadyPrev && b.transferring i

def sbD : Word :=
  b.uartByte 0 ++ b.uartByte 1 ++ b.uartByte 2 ++ b.uartByte 3 ++ b.uartByte 4 ++ b.uartByte 5 ++
    b.uartByte 6 ++ b.uartByte 7

def sbA : Word := b.memStartAddr

def ready : Bool := !b.transferring i

def cycle : SerialBoot where
  began :=
    if i.rst then false
    else if i.we && i.a == 2 then true
    else if finish i then false
    else b.began
  uartByteCnt :=
    if i.rst then 0
    else if i.uartReady && (uartDataBin i.uartData).isSome then b.uartByteCnt + 1
    else b.uartByteCnt
  uartByte :=
    match uartDataBin i.uartData with
    | some bin =>
        if !i.rst && i.uartReady then Function.update b.uartByte b.uartByteCnt bin
        else b.uartByte
    | none => b.uartByte
  uartReadyPrev := i.uartReady
  memStartAddr :=
    if i.rst then b.memStartAddr
    else if i.we && i.a == 1 then byteSwap i.d
    else if b.sbWe i then b.memStartAddr + 4
    else b.memStartAddr

end SerialBoot

/-! ## The port of the memory -/

structure MemPort where
  burstEn : Bool
  a : Word
  d : Word
  we : Bool
  rd : Bool

def CacheCpu.memPort (c : CacheCpu) : MemPort where
  burstEn := true
  a := c.lowmemA
  d := c.lowmemD
  we := c.lowmemWe
  rd := c.lowmemRd

def SerialBoot.memPort (i : SerialBootIn) (b : SerialBoot) (cpu : MemPort) : MemPort :=
  if b.transferring i then
    { burstEn := false, a := b.sbA, d := b.sbD, we := b.sbWe i, rd := cpu.rd }
  else cpu

/-- A single word is written at once; a single read is a burst with one word left. -/
def BurstMemory.serve (early : Bool) (e : BurstEnv) (p : MemPort) (m : BurstMemory) :
    BurstMemory :=
  if p.burstEn then m.cycle early e p.rd p.we p.a p.d
  else if p.we then { mem := storeWord m.mem (wordIndex p.a) p.d, burst := .done, shown := none }
  else if p.rd then { mem := m.mem, burst := .read (wordIndex p.a - 31) 31, shown := none }
  else m.cycle early e false false p.a p.d

/-! ## Cache, serial boot and memory -/

structure BootSystem where
  boot : SerialBoot
  cache : CacheCpu
  low : BurstMemory

structure BootIn where
  host : HostIn
  control : SerialBootIn
  env : BurstEnv

namespace BootSystem

variable (i : BootIn) (s : BootSystem)

def cached (s : BootSystem) : CacheSystem where
  cache := s.cache
  low := s.low

def memPort : MemPort := s.boot.memPort i.control s.cache.memPort

/-- A word goes from the UART to the memory in this cycle. -/
def transfers : Bool := s.boot.sbWe i.control

def cacheIn : CacheIn where
  rst := false
  a := i.host.a
  d := i.host.d
  we := i.host.we
  rd := i.host.rd
  lowmemSpo := s.low.spo i.env
  lowmemReady := s.low.ready i.env (s.memPort i).rd (s.memPort i).we

def cycle : BootSystem where
  boot := s.boot.cycle i.control
  cache := s.cache.cycle (s.cacheIn i)
  low := s.low.serve false i.env (s.memPort i)

end BootSystem

def IsBootRun (ins : Nat → BootIn) (tr : Nat → BootSystem) : Prop :=
  ∀ t, tr (t + 1) = (tr t).cycle (ins t)

end PComputer.Rtl
