import PComputer.Kernel.Process

/-!
# `process.c`, `sdboot.c`: filling the process table

The table as `ProcManagerInit` and `prepare_processes` leave it, and the
registration of a new program.
-/

namespace PComputer.PseudOS

open PComputer.Foundation PComputer.Rtl

def Process.cleared (p : Process) : Process :=
  { p with
    pid := -1
    state := PROC_STATE_UNDEF
    pMsg := 0
    pRecvfrom := IPC_TARGET_NONE
    pSendto := IPC_TARGET_NONE
    queueSending := none
    queueSendingNext := none }

def Process.register (pid : Int) (pc sp : Word) (state : BitVec 16) (p : Process) : Process :=
  { p with
    pid := pid
    pc := pc
    regs := Function.update p.regs StackFrame.sp sp
    state := state }

/-- The entry points of the processes that the kernel image itself contains. -/
structure Image where
  proc1 : Word
  proc2 : Word
  proc3 : Word
  fsProcMain : Word
  procTty : Word
  uarttty0 : Word

namespace Kernel

def procManagerClear (k : Kernel) : Kernel :=
  { k with
    procmanager :=
      { procTable := fun i => (k.proc i).cleared
        procRunning := 1
        doStart := true } }

def procManagerInit (image : Image) (k : Kernel) : Kernel :=
  let k := k.procManagerClear
  let k := k.setProc 1 (Process.register 1 image.proc1 0x2010fffc PROC_STATE_RUNNING)
  let k := k.setProc 2 (Process.register 2 image.proc2 0x2010effc PROC_STATE_READY)
  k.setProc 3 (Process.register 3 image.proc3 0x2010dffc PROC_STATE_READY)

def prepareProcesses (image : Image) (k : Kernel) : Kernel :=
  let k := k.procManagerInit image
  let k := k.setProc 5 (Process.register KPROC_PID_FS image.fsProcMain 0x20100ffc PROC_STATE_READY)
  k.setProc 7 fun p =>
    let p := p.register KPROC_PID_TTY0 image.procTty 0x20104ffc PROC_STATE_READY
    { p with
      regs :=
        Function.update (Function.update p.regs StackFrame.a0 0) StackFrame.a1 image.uarttty0 }

/--
`new_process_from_elf_in_memory` after the loading, with the entry point and the
stack pointer that `load_dynamic_exec` left.  Without a free slot `avail_pid` is
-1, and the function writes to `proc_table[-1]`.
-/
def newProcess (k : Kernel) (entry stack : Word) : Except Fault Kernel := do
  let availPid := k.getavailpid
  let newproc ← pid2proc availPid
  return k.setProc newproc fun p =>
    { p with
      pid := availPid
      pMsg := 0
      pRecvfrom := IPC_TARGET_NONE
      pSendto := IPC_TARGET_NONE
      queueSending := none
      queueSendingNext := none
      pc := entry
      regs := Function.update p.regs StackFrame.sp stack
      state := PROC_STATE_READY }

end Kernel

end PComputer.PseudOS
