import Mathlib.Logic.Function.Basic
import PComputer.Rtl.Privilege

/-!
# `process.h`, `process.c`: the process table and the scheduler

Every `Process*` of the kernel points into `proc_table`, so a pointer is a slot
of the table.  The kernel is a state passed from function to function; where the
C code stops (a failed `assert` panics and halts) or leaves its data (a pid
outside the table, a null pointer followed, a loop that never ends) a function
returns the fault instead of a state.
-/

namespace PComputer.PseudOS

open PComputer.Foundation PComputer.Rtl

/-! ## Constants -/

abbrev PROC_NUM_MAX : Nat := 64

def PROC_STATE_RUNNING : BitVec 16 := 0b000000
def PROC_STATE_SENDING : BitVec 16 := 0b000010
def PROC_STATE_RECEIVING : BitVec 16 := 0b000100
def PROC_STATE_READY : BitVec 16 := 0b100000
def PROC_STATE_UNDEF : BitVec 16 := 0b111111

def IPC_SEND : Int := 74
def IPC_RECEIVE : Int := 75
def IPC_TARGET_ANY : Int := -363
def IPC_TARGET_NONE : Int := -364

def KPROC_PID_FS : Int := 5
def KPROC_PID_TTY0 : Int := 7

/-! ## Data -/

instance : NeZero PROC_NUM_MAX := ⟨by decide⟩

/-- A `Process*`: an index into `proc_table`. -/
abbrev Slot := Fin PROC_NUM_MAX

/-- The 31 saved registers, in the order of `StackFrame`. -/
abbrev StackFrame := Fin 31 → Word

namespace StackFrame

def a0 : Fin 31 := 0
def a1 : Fin 31 := 1
def a2 : Fin 31 := 2
def sp : Fin 31 := 28

end StackFrame

structure Process where
  pid : Int
  state : BitVec 16
  pc : Word
  regs : StackFrame
  pSendto : Int
  pRecvfrom : Int
  /-- A `Message*`; 0 is `NULL`. -/
  pMsg : Word
  queueSending : Option Slot
  queueSendingNext : Option Slot
  deriving Inhabited

structure ProcManager where
  procTable : Slot → Process
  procRunning : Nat
  doStart : Bool
  deriving Inhabited

inductive Fault where
  | assertion (exp : String)
  | outOfTable (pid : Int)
  | nullDeref
  | diverges
  | panic (str : String)
  deriving DecidableEq, Repr

/--
What IPC did with the message at `msg`: it was copied to a receiver that waited
for it, its sender blocked, or the receiver took it from a sender that had
blocked.
-/
inductive Transfer where
  | sent (sender receiver : Slot) (msg : Word)
  | blocked (sender receiver : Slot) (msg : Word)
  | received (sender receiver : Slot) (msg : Word)
  deriving DecidableEq, Repr

/--
The kernel's data, the save area at `REGS_SAVE_ADDR`, the memory the processes'
messages live in and the CSR `mepc`.  `log` records the transfers; no function
reads it.
-/
structure Kernel where
  procmanager : ProcManager
  regsSave : StackFrame
  mem : WordMemory
  mepc : Word
  ticks : Word
  log : List Transfer
  deriving Inhabited

def assert (exp : String) (holds : Bool) : Except Fault Unit :=
  if holds then .ok () else .error (.assertion exp)

def toShort (n : Int) : Int := n.bmod 65536

/-- `_pid2proc`: `proc_table + pid`, for a pid inside the table. -/
def pid2proc (pid : Int) : Except Fault Slot :=
  if h : 0 ≤ toShort pid ∧ toShort pid < 64 then
    .ok ⟨(toShort pid).toNat, by change _ < 64; omega⟩
  else .error (.outOfTable (toShort pid))

namespace Kernel

/-! ## Access to the table -/

def proc (k : Kernel) (i : Slot) : Process := k.procmanager.procTable i

def procRunning (k : Kernel) : Nat := k.procmanager.procRunning

def doStart (k : Kernel) : Bool := k.procmanager.doStart

def setProc (k : Kernel) (i : Slot) (f : Process → Process) : Kernel :=
  { k with
    procmanager :=
      { k.procmanager with procTable := Function.update k.procmanager.procTable i (f (k.proc i)) } }

/-! ## The CSR `mepc`, as `privilege.v` reads and writes it -/

def csrrMepc (x : ReadX) (k : Kernel) : Word :=
  Privilege.readMasked (Privilege.mepcReadVal x) Privilege.mepcReadMask k.mepc

def csrwMepc (k : Kernel) (d : Word) : Kernel :=
  { k with mepc := Privilege.writeMasked k.mepc Privilege.mepcWriteMask d }

/-! ## The scheduler -/

def stackframeSave (k : Kernel) (i : Slot) : Kernel :=
  k.setProc i fun p => { p with regs := k.regsSave }

def stackframeLoad (k : Kernel) (i : Slot) : Kernel := { k with regsSave := (k.proc i).regs }

def isReady (k : Kernel) (i : Slot) : Bool :=
  (k.proc i).pid != -1 && (k.proc i).state == PROC_STATE_READY

/-- `_proc_getnext`: the slots after the running one, then the slots before it. -/
def procGetnext (k : Kernel) : Int :=
  match (List.finRange PROC_NUM_MAX).find? fun i => k.procRunning < i.val && k.isReady i with
  | some i => i.val
  | none =>
      match (List.finRange PROC_NUM_MAX).find? fun i => i.val < k.procRunning && k.isReady i with
      | some i => i.val
      | none => k.procRunning

def suspend (x : ReadX) (k : Kernel) (pFrom : Slot) : Kernel :=
  let k := k.stackframeSave pFrom
  let k := k.setProc pFrom fun p =>
    { p with state := if p.state = PROC_STATE_RUNNING then PROC_STATE_READY else p.state }
  k.setProc pFrom fun p => { p with pc := k.csrrMepc x }

def dispatch (k : Kernel) (pTo : Slot) : Kernel :=
  let k := k.stackframeLoad pTo
  let k := k.setProc pTo fun p => { p with state := PROC_STATE_RUNNING }
  let k := k.csrwMepc (k.proc pTo).pc
  { k with
    procmanager := { k.procmanager with procRunning := ((k.proc pTo).pid % 65536).toNat } }

def schedule (x : ReadX) (k : Kernel) : Except Fault Kernel := do
  if k.doStart then
    let k := { k with procmanager := { k.procmanager with doStart := false } }
    let pTo ← pid2proc 1
    return k.dispatch pTo
  else
    let pidTo := k.procGetnext
    let pFrom ← pid2proc k.procRunning
    let pTo ← pid2proc pidTo
    return (k.suspend x pFrom).dispatch pTo

def getavailpid (k : Kernel) : Int :=
  match (List.finRange PROC_NUM_MAX).find? fun i => 1 ≤ i.val && (k.proc i).pid == -1 with
  | some i => i.val
  | none => -1

end Kernel

end PComputer.PseudOS
