import PComputer.Foundation.Clocked
import PComputer.Rtl.Multicyc

/-!
# The CPU on its bus

The bus is a word memory behind the `rd`/`we`/`ready` handshake.  `ready` is low
in a cycle that carries a request and for as many cycles after it as the
environment likes; then it is high, and while it is high `spo` carries the
byte-swapped word at the address of the request, as long as that address is
held.  At any other time `spo` is whatever the environment puts there.
-/

namespace PComputer.Rtl

open PComputer.Foundation

/-- A word memory as the CPU sees it, the last requested address, and the wait. -/
structure Bus where
  mem : WordMemory
  held : Word
  wait : Nat

structure Env where
  delay : Nat
  junk : Word
  eip : Bool
  eipIstimer : Bool

namespace Bus

def ready (b : Bus) (rd we : Bool) : Bool := !(rd || we) && b.wait == 0

def spo (b : Bus) (junk : Word) (rd we : Bool) (a : Word) : Word :=
  if b.ready rd we ∧ a = b.held then byteSwap (b.mem (wordIndex a)) else junk

def cycle (b : Bus) (delay : Nat) (rd we : Bool) (a d : Word) : Bus where
  mem := if we then storeWord b.mem (wordIndex a) (byteSwap d) else b.mem
  held := if rd || we then a else b.held
  wait := if rd || we then delay else b.wait - 1

end Bus

structure System where
  cpu : Multicyc
  bus : Bus

namespace System

def core (s : System) : Core := s.cpu.core

def phase (s : System) : Phase := s.core.phase

def ready (s : System) : Bool := s.bus.ready s.core.rd s.core.we

def spo (e : Env) (s : System) : Word := s.bus.spo e.junk s.core.rd s.core.we s.core.a

def cpuIn (e : Env) (s : System) : MulticycIn where
  rst := false
  eip := e.eip
  eipIstimer := e.eipIstimer
  spo := s.spo e
  ready := s.ready

def boot (mem : WordMemory) : System where
  cpu := Multicyc.boot
  bus := { mem := mem, held := 0, wait := 0 }

def cycle (x : ReadX) (e : Env) (s : System) : System where
  cpu := s.cpu.cycle x (s.cpuIn e)
  bus := s.bus.cycle e.delay s.core.rd s.core.we s.core.a s.core.d

def coreIn (x : ReadX) (e : Env) (s : System) : CoreIn := s.cpu.coreIn x (s.cpuIn e)

@[simp] theorem core_cycle (x : ReadX) (e : Env) (s : System) :
    (s.cycle x e).core = s.core.advance (s.coreIn x e) := rfl

@[simp] theorem bus_cycle (x : ReadX) (e : Env) (s : System) :
    (s.cycle x e).bus = s.bus.cycle e.delay s.core.rd s.core.we s.core.a s.core.d := rfl

@[simp] theorem coreIn_ready (x : ReadX) (e : Env) (s : System) :
    (s.coreIn x e).ready = s.ready := rfl

@[simp] theorem coreIn_spo (x : ReadX) (e : Env) (s : System) :
    (s.coreIn x e).spo = s.spo e := rfl

@[simp] theorem coreIn_interrupt (x : ReadX) (e : Env) (s : System) :
    (s.coreIn x e).interrupt = s.cpu.privilege.interrupt := rfl

end System

end PComputer.Rtl
