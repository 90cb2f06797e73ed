import PComputer.Kernel.Boot
import PComputer.Kernel.Syscall

/-!
# `isr.c`, `isr_asm`: traps

What the kernel does from trap entry to `mret`, and the events that change the
process table.
-/

namespace PComputer.PseudOS

open PComputer.Foundation PComputer.Rtl

/-! ## `isr.h` -/

def IRQ_DEV_UART0 : Word := 2
def IRQ_DEV_GPIO : Word := 5
def IRQ_DEV_PS2 : Word := 6

inductive IrqHandler where
  | uart0 | gpio | ps2
  deriving DecidableEq, Repr

def isrExternal (irqDev : Word) : Except Fault IrqHandler :=
  if irqDev = IRQ_DEV_UART0 then .ok .uart0
  else if irqDev = IRQ_DEV_GPIO then .ok .gpio
  else if irqDev = IRQ_DEV_PS2 then .ok .ps2
  else .error (.panic "Unknown external irq device")

namespace Kernel

def isrTimer (x : ReadX) (k : Kernel) : Except Fault Kernel :=
  let k := { k with ticks := k.ticks + 1 }
  if k.ticks % 5 = 0 then k.schedule x else .ok k

def interruptServiceRoutine (x : ReadX) (mcause irqDev : Word) (k : Kernel) :
    Except Fault Kernel :=
  if mcause = 0x80000001 then .error (.panic "ISR: software interrupt not supported!")
  else if mcause = 0x80000007 then k.isrTimer x
  else if mcause = 0x8000000b then do
    let _ ← isrExternal irqDev
    return k
  else if mcause = 0x00000002 then .error (.panic "ISR: illegal instruction encountered!")
  else if mcause = 0x00000003 then .error (.panic "ISR: breakpoint not supported!")
  else if mcause = 0x0000000b then k.syscallHandler x
  else .ok k

/-- The machine state in which a process traps: registers, memory and the pc for `mepc`. -/
structure Trap where
  regs : StackFrame
  mem : WordMemory
  pc : Word

def Trap.ecall (a0 a1 : Int) (a2 pc : Word) : Trap where
  regs i :=
    if i = StackFrame.a0 then BitVec.ofInt 32 a0
    else if i = StackFrame.a1 then BitVec.ofInt 32 a1
    else if i = StackFrame.a2 then a2
    else 0
  mem _ := 0
  pc := pc

def trapped (t : Trap) (k : Kernel) : Kernel :=
  { k with regsSave := t.regs, mem := t.mem, mepc := t.pc }

end Kernel

/-- What changes the table: traps of the running process and the creation of processes. -/
inductive Event where
  | ecall (t : Kernel.Trap)
  | tick (t : Kernel.Trap)
  | create (entry stack : Word)

namespace Kernel

/-- An `ecall` needs a process to execute it, so the first `schedule` comes before it. -/
def enabled (k : Kernel) : Event → Bool
  | .ecall _ => !k.doStart
  | .tick _ | .create _ _ => true

def step (x : ReadX) (k : Kernel) : Event → Except Fault Kernel
  | .ecall t => (k.trapped t).interruptServiceRoutine x 0x0000000b 0
  | .tick t => (k.trapped t).interruptServiceRoutine x 0x80000007 0
  | .create entry stack => k.newProcess entry stack

end Kernel

end PComputer.PseudOS
