import PComputer.Fs.IoQueue
import PComputer.Kernel.Effects

/-!
# `fs.c`, `tty.c`: the daemons

FS takes the system calls of the user processes and hands the requests to the
queue of TTY0; TTY0 serves them and sends FS the results, which FS sends to the
user processes.  The three kinds of processes are programs over the kernel's own
IPC; which READY process runs next, and when the timer interrupts the running
one, is open.  A piece of code between `cli` and `sti` is one step.
-/

namespace PComputer.PseudOS

open PComputer.Foundation PComputer.Rtl

/-! ## Constants -/

def OS_fs_resume : Word := 65534
def OS_justamsg : Word := 65533

def KPROC_PID_FSS0 : Int := 10

def EBADF : Word := 9

abbrev PROC_FD_MAX : Nat := 16

def fsSlot : Slot := 5
def ttySlot : Slot := 7

/-! ## The programs -/

/--
Where FS is: before its `IPC_RECEIVE`, at the `switch`, in the loop that waits
for the queue, before the enqueueing, before the `IPC_SEND` of
`fs_notify_target`, before that of `fs_resume_userproc`.
-/
inductive FsPoint where
  | receive | dispatch | wait | enqueue | notify (pid : Int) | resume (pid : Int)
  deriving DecidableEq

/-- `msg` of `fs_proc_main` and `msg_send` of the function that sends. -/
structure FsProc where
  point : FsPoint
  msg : Message
  msgSend : Message
  deriving DecidableEq

/--
Where TTY0 is: before it sets up its queue, at the head of its loop, before its
`IPC_RECEIVE`, before the dequeueing, at work, before its `IPC_SEND`.
-/
inductive TtyPoint where
  | start | check | receive | dequeue | serve | reply
  deriving DecidableEq

structure TtyProc where
  point : TtyPoint
  msg : Message
  elem : IOQuest
  deriving DecidableEq

/-- A user process computes, or is before the `IPC_SEND` or the `IPC_RECEIVE` of a system call. -/
inductive UserPoint where
  | compute | request | await
  deriving DecidableEq

structure UserProc where
  point : UserPoint
  msg : Message
  deriving DecidableEq

/-- `queue` is `ttyproc_queue[0]`, null until TTY0 has set it. -/
structure System where
  kernel : Kernel
  fs : FsProc
  tty : TtyProc
  user : Slot → UserProc
  queue : Option IOQueue
  fdmap : Slot → Fin PROC_FD_MAX → Int

def requestFunctions : List Word := [SYS_openat, SYS_close, SYS_ioctl, SYS_writev, SYS_readv]

namespace System

variable (s : System)

/-! ## FS between its calls -/

def fsResumeUserproc (msg : Message) : System :=
  { s with
    fs := { s.fs with
      point := .resume (msg.param 1).toInt
      msgSend := { s.fs.msgSend with
        function := OS_justamsg
        param := Function.update s.fs.msgSend.param 0 (msg.param 0) } } }

def fsNotifyTarget (pid : Int) : System :=
  { s with
    fs := { s.fs with
      point := .notify pid
      msgSend := { s.fs.msgSend with function := OS_send_nonblk } } }

def fsClose (msg : Message) : Except Fault System := do
  let proc ← pid2proc msg.source.toInt
  let fd := (msg.param 0).toInt
  if h : 0 ≤ fd ∧ fd < PROC_FD_MAX then
    let fd : Fin PROC_FD_MAX := ⟨fd.toNat, by omega⟩
    let valid := s.fdmap proc fd != -1
    let fdmap :=
      if valid then Function.update s.fdmap proc (Function.update (s.fdmap proc) fd (-1))
      else s.fdmap
    let param0 := if valid then 0 else EBADF
    let tmpmsg := { msg with
      param := Function.update (Function.update msg.param 0 param0) 1 msg.source }
    return { s with fdmap := fdmap }.fsResumeUserproc tmpmsg
  else .error (.outOfTable fd)

/-- `fs_request_by_fd` up to the loop that waits for the queue. -/
def fsRequestByFd (msg : Message) : Except Fault System :=
  if msg.function = SYS_close then s.fsClose msg
  else if (msg.param 0).toInt ≤ 2 then .ok { s with fs := { s.fs with point := .wait } }
  else .error (.panic "FS: unsuppored FD!")

/-- `fs_request_by_path`; the descriptor that `get_free_fd` finds is not used. -/
def fsRequestByPath : System := s.fsNotifyTarget KPROC_PID_FSS0

def fsDispatch : Except Fault System :=
  let msg := s.fs.msg
  if msg.function ∈ [SYS_ioctl, SYS_readv, SYS_writev] then s.fsRequestByFd msg
  else if msg.function ∈ [SYS_openat, SYS_close] then .ok s.fsRequestByPath
  else if msg.function = OS_fs_resume then .ok (s.fsResumeUserproc msg)
  else .ok { s with fs := { s.fs with point := .receive } }

def fsWait : Except Fault System :=
  match s.queue with
  | none => .error .nullDeref
  | some q =>
      if ioqueueIsfull q then .ok s else .ok { s with fs := { s.fs with point := .enqueue } }

/-- From `cli` to `sti`. -/
def fsEnqueue : Except Fault System :=
  match s.queue with
  | none => .error .nullDeref
  | some q =>
      match ioenqueue q s.fs.msg with
      | none => .error (.panic "FS: enqueue to TTY failed!")
      | some q => .ok ({ s with queue := some q }.fsNotifyTarget KPROC_PID_TTY0)

def fsStep : Except Fault System :=
  match s.fs.point with
  | .dispatch => s.fsDispatch
  | .wait => s.fsWait
  | .enqueue => s.fsEnqueue
  | .receive | .notify _ | .resume _ => .ok s

/-! ## TTY0 between its calls -/

def ttyCheck : Except Fault System :=
  match s.queue with
  | none => .error .nullDeref
  | some q =>
      if ioqueueIsempty q then
        .ok { s with
          tty :=
            { s.tty with
              point := .receive, msg := { s.tty.msg with function := OS_justamsg } } }
      else .ok { s with tty := { s.tty with point := .dequeue } }

/-- From `cli` to `sti`. -/
def ttyDequeue : Except Fault System :=
  match s.queue with
  | none => .error .nullDeref
  | some q =>
      if ioqueueIsempty q then .ok { s with tty := { s.tty with point := .check } }
      else
        match iodequeue q with
        | none => .error (.panic "PROC_TTY: dequeue from empty!")
        | some (elem, q) =>
            .ok { s with queue := some q, tty := { s.tty with point := .serve, elem := elem } }

/-- Serving a request; `xfrcnt` is the number of bytes that the device transferred. -/
def ttyServe (xfrcnt : Word) : System :=
  let elem := s.tty.elem
  if elem.function ∈ [SYS_readv, SYS_ioctl, SYS_writev] then
    let retval := if elem.function = SYS_ioctl then 0 else xfrcnt
    { s with
      tty := { s.tty with
        point := .reply
        msg := { s.tty.msg with
          function := OS_fs_resume
          param := Function.update (Function.update s.tty.msg.param 0 retval) 1 elem.source } } }
  else { s with tty := { s.tty with point := .check } }

def ttyStep (xfrcnt : Word) : Except Fault System :=
  match s.tty.point with
  | .start =>
      .ok { s with queue := some ioqueueInit, tty := { s.tty with point := .check } }
  | .check => s.ttyCheck
  | .dequeue => s.ttyDequeue
  | .serve => .ok (s.ttyServe xfrcnt)
  | .receive | .reply => .ok s

/-! ## The calls -/

/-- The call that a process is about to make, or in which it is blocked. -/
def callOf (address : Slot → Word) (c : Slot) : Option Call :=
  if c = fsSlot then
    match s.fs.point with
    | .receive => some (.receive IPC_TARGET_ANY (address c))
    | .notify pid => some (.send pid (address c) true)
    | .resume pid => some (.send pid (address c) false)
    | .dispatch | .wait | .enqueue => none
  else if c = ttySlot then
    match s.tty.point with
    | .receive => some (.receive IPC_TARGET_ANY (address c))
    | .reply => some (.send KPROC_PID_FS (address c) false)
    | .start | .check | .dequeue | .serve => none
  else
    match (s.user c).point with
    | .request => some (.send KPROC_PID_FS (address c) false)
    | .await => some (.receive KPROC_PID_FS (address c))
    | .compute => none

def outgoing (c : Slot) : Message :=
  if c = fsSlot then s.fs.msgSend else if c = ttySlot then s.tty.msg else (s.user c).msg

def sent (c : Slot) : System :=
  if c = fsSlot then { s with fs := { s.fs with point := .receive } }
  else if c = ttySlot then { s with tty := { s.tty with point := .check } }
  else { s with user := Function.update s.user c { s.user c with point := .await } }

def received (c : Slot) (msg : Message) : System :=
  if c = fsSlot then { s with fs := { s.fs with point := .dispatch, msg := msg } }
  else if c = ttySlot then { s with tty := { s.tty with point := .check, msg := msg } }
  else { s with user := Function.update s.user c { point := .compute, msg := msg } }

def transferred (sender receiver : Slot) : System :=
  (s.sent sender).received receiver
    { s.outgoing sender with source := BitVec.ofNat 32 sender.val }

def noted : Transfer → System
  | .sent sender receiver _ | .received sender receiver _ => s.transferred sender receiver
  | .blocked _ _ _ => s

/-- A call, with the transfers that it makes; a send that is not to block returns anyway. -/
def ipc (c : Slot) (call : Call) : Except Fault System := do
  let (status, k) ← s.kernel.call c call
  let s' := (k.log.drop s.kernel.log.length).foldl noted { s with kernel := k }
  return if status = 0 then s' else s'.sent c

end System

/-! ## The system -/

/-- A switch to a READY process, the call of the running process, or one of its other steps. -/
inductive Action where
  | switch (t : Slot)
  | call
  | fs
  | tty (xfrcnt : Word)
  | user (msg : Message)

namespace System

def switch (x : ReadX) (s : System) (c t : Slot) : System :=
  { s with kernel := (s.kernel.suspend x c).dispatch t }

def step (x : ReadX) (address : Slot → Word) (s : System) (a : Action) : Except Fault System := do
  let c ← pid2proc s.kernel.procRunning
  match a with
  | .switch t => return s.switch x c t
  | .call =>
      match s.callOf address c with
      | some call => s.ipc c call
      | none => return s
  | .fs => s.fsStep
  | .tty xfrcnt => s.ttyStep xfrcnt
  | .user msg =>
      return { s with user := Function.update s.user c { point := .request, msg := msg } }

def Runs (s : System) (c : Slot) : Prop :=
  s.kernel.procRunning = c.val ∧ (s.kernel.proc c).state = PROC_STATE_RUNNING

instance (s : System) (c : Slot) : Decidable (s.Runs c) := inferInstanceAs (Decidable (_ ∧ _))

/-- The steps that can come next; only the processes in `users` make system calls. -/
def Enabled (users : Finset Slot) (s : System) : Action → Prop
  | .switch t => s.kernel.procRunning ≠ t.val ∧ s.kernel.isReady t = true
  | .call => ∃ c, s.Runs c
  | .fs => s.Runs fsSlot
  | .tty _ => s.Runs ttySlot
  | .user msg => ∃ c ∈ users, s.Runs c ∧ (s.user c).point = .compute ∧
      msg.function ∈ requestFunctions

instance (users : Finset Slot) (s : System) : (a : Action) → Decidable (s.Enabled users a)
  | .switch _ => inferInstanceAs (Decidable (_ ∧ _))
  | .call => inferInstanceAs (Decidable (∃ c, s.Runs c))
  | .fs => inferInstanceAs (Decidable (s.Runs fsSlot))
  | .tty _ => inferInstanceAs (Decidable (s.Runs ttySlot))
  | .user msg => inferInstanceAs (Decidable (∃ c ∈ users, s.Runs c ∧
      (s.user c).point = .compute ∧ msg.function ∈ requestFunctions))

structure Initial (users : Finset Slot) (s : System) : Prop where
  current : ∃ c, s.kernel.Current c
  idle : ∀ i, (s.kernel.proc i).state ≠ PROC_STATE_SENDING ∧
    (s.kernel.proc i).state ≠ PROC_STATE_RECEIVING
  fsLive : (s.kernel.proc fsSlot).pid = fsSlot.val
  ttyLive : (s.kernel.proc ttySlot).pid = ttySlot.val
  apart : ∀ u ∈ users, u ≠ fsSlot ∧ u ≠ ttySlot
  fs : s.fs.point = .receive
  tty : s.tty.point = .start
  user : ∀ u, (s.user u).point = .compute
  queue : s.queue = none

end System

end PComputer.PseudOS
