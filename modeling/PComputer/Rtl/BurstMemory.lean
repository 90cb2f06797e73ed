import PComputer.Rtl.CacheCpu

/-!
# The burst memory below the cache

A memory that serves bursts of 32 words behind `rd`, `we` and `ready`.  `ready`
is low while a request is made and until the first word is done; it is high for
one cycle for each of the first 31 words and stays high from the last one on.
On reads `spo` carries a word in the cycle after its pulse.  On writes the first
word is sampled in the request cycle or later, every other word some cycles
after the pulse before it, and every word no later than in the cycle of its own
pulse.

With `early` the memory may sample the next word already in the first cycle
after a pulse, without it only from the second cycle on.
-/

namespace PComputer.Rtl

open PComputer.Foundation

inductive Burst where
  | done
  | read (base : BitVec 30) (k : Nat)
  | write (base : BitVec 30) (k : Nat) (settling taken : Bool)
  deriving DecidableEq, Repr

/-- `shown` is the word that was done in the cycle before. -/
structure BurstMemory where
  mem : WordMemory
  burst : Burst
  shown : Option Word

structure BurstEnv where
  take : Bool
  finish : Bool
  junk : Word

namespace BurstMemory

def pulse (e : BurstEnv) (m : BurstMemory) : Bool :=
  match m.burst with
  | .done => false
  | .read _ _ => e.finish
  | .write _ _ settling _ => !settling && e.finish

def ready (e : BurstEnv) (m : BurstMemory) (rd we : Bool) : Bool :=
  !(rd || we) && (m.burst == .done || m.pulse e)

def spo (e : BurstEnv) (m : BurstMemory) : Word := m.shown.getD e.junk

def sample (e : BurstEnv) (settling taken : Bool) : Bool :=
  !settling && !taken && (e.take || e.finish)

def cycle (early : Bool) (e : BurstEnv) (rd we : Bool) (a d : Word) (m : BurstMemory) :
    BurstMemory :=
  if we then
    { mem := if e.take then storeWord m.mem (wordIndex a) d else m.mem
      burst := .write (wordIndex a) 0 false e.take
      shown := none }
  else if rd then { mem := m.mem, burst := .read (wordIndex a) 0, shown := none }
  else
    match m.burst with
    | .done => { m with shown := none }
    | .read base k =>
        if e.finish then
          { mem := m.mem
            burst := if k = 31 then .done else .read base (k + 1)
            shown := some (m.mem (base + BitVec.ofNat 30 k)) }
        else { m with shown := none }
    | .write base k settling taken =>
        { mem :=
            if sample e settling taken then storeWord m.mem (base + BitVec.ofNat 30 k) d
            else m.mem
          burst :=
            if settling then .write base k false taken
            else if e.finish then
              if k = 31 then .done else .write base (k + 1) (!early) false
            else .write base k false (taken || e.take)
          shown := none }

end BurstMemory

/-! ## The cache on its memory -/

structure CacheSystem where
  cache : CacheCpu
  low : BurstMemory

structure HostIn where
  a : Word
  d : Word
  we : Bool
  rd : Bool

def HostIn.request (h : HostIn) : Bool := h.we || h.rd

namespace CacheSystem

def cacheIn (h : HostIn) (e : BurstEnv) (s : CacheSystem) : CacheIn where
  rst := false
  a := h.a
  d := h.d
  we := h.we
  rd := h.rd
  lowmemSpo := s.low.spo e
  lowmemReady := s.low.ready e s.cache.lowmemRd s.cache.lowmemWe

def ready (h : HostIn) (s : CacheSystem) : Bool := s.cache.ready h.we h.rd

def spo (s : CacheSystem) : Word := s.cache.spo

def cycle (early : Bool) (h : HostIn) (e : BurstEnv) (s : CacheSystem) : CacheSystem where
  cache := s.cache.cycle (s.cacheIn h e)
  low := s.low.cycle early e s.cache.lowmemRd s.cache.lowmemWe s.cache.lowmemA s.cache.lowmemD

end CacheSystem

end PComputer.Rtl
