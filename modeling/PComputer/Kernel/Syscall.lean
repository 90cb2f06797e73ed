import PComputer.Kernel.Ipc

/-!
# `syscall.c`: the system call handler
-/

namespace PComputer.PseudOS

open PComputer.Foundation PComputer.Rtl

/-! ## `syscall.h` -/

def OS_send_nonblk : Word := 65532

def SYS_ioctl : Word := 29
def SYS_openat : Word := 56
def SYS_close : Word := 57
def SYS_readv : Word := 65
def SYS_writev : Word := 66

namespace Kernel

/-! ## System calls -/

/-- With `src_dest` -1 the destination follows from the function. -/
def destination (k : Kernel) (srcDest : Int) (msg : Word) : Int :=
  if srcDest = -1 then
    if messageFunction k.mem msg ∈ [SYS_openat, SYS_close, SYS_ioctl, SYS_writev, SYS_readv] then
      KPROC_PID_FS
    else -1
  else srcDest

/-- `syscall_handler` up to its call of `schedule`. -/
def syscallIpc (x : ReadX) (k : Kernel) : Except Fault Kernel := do
  let oldpc := k.csrrMepc x
  let k := k.csrwMepc (oldpc + 4)
  let sendorrecv := (k.regsSave StackFrame.a0).toInt
  let msg := k.regsSave StackFrame.a2
  let srcDest := k.destination (k.regsSave StackFrame.a1).toInt msg
  if srcDest = -1 then return k
  else if messageFunction k.mem msg ≠ OS_send_nonblk then
    let (_, k) ← k.sendrec sendorrecv srcDest msg
    return k
  else
    let (_, k) ← k.sendrecNonblock sendorrecv srcDest msg
    return k

def syscallHandler (x : ReadX) (k : Kernel) : Except Fault Kernel := do
  let k ← k.syscallIpc x
  k.schedule x

end Kernel

end PComputer.PseudOS
