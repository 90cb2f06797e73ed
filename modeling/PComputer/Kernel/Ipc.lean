import PComputer.Kernel.Process

/-!
# `process.c`: message passing

`_msg_send` and `_msg_receive`, with the hand-linked queue of senders that wait
on a receiver, and the wrappers `sendrec` and `sendrec_nonblock`.
-/

namespace PComputer.PseudOS

open PComputer.Foundation PComputer.Rtl

/-! ## Messages in memory -/

def messageWords : Nat := 10

def loadInt (mem : WordMemory) (address : Word) : Word := mem (wordIndex address)

def storeInt (mem : WordMemory) (address value : Word) : WordMemory :=
  storeWord mem (wordIndex address) value

def messageFunction (mem : WordMemory) (msg : Word) : Word := loadInt mem msg

def setMessageSource (mem : WordMemory) (msg : Word) (source : Int) : WordMemory :=
  storeInt mem (msg + 4) (BitVec.ofInt 32 source)

/-- `memcpy(dst, src, sizeof(Message))` -/
def copyMessage (mem : WordMemory) (dst src : Word) : WordMemory :=
  (List.range messageWords).foldl
    (fun m n => storeInt m (dst + BitVec.ofNat 32 (4 * n))
      (loadInt m (src + BitVec.ofNat 32 (4 * n))))
    mem

namespace Kernel

def transfer (k : Kernel) (note : Transfer) (dst src : Word) : Kernel :=
  { k with
    mem := copyMessage k.mem dst src
    log := k.log ++ [note] }

/-! ## Send -/

/-- `p_dest` is waiting for `p_send`, or for any process. -/
def waitsFor (k : Kernel) (pDest pSend : Slot) : Bool :=
  (k.proc pDest).state == PROC_STATE_RECEIVING &&
    ((k.proc pDest).pRecvfrom == (k.proc pSend).pid || (k.proc pDest).pRecvfrom == IPC_TARGET_ANY)

def sendDirectly (k : Kernel) (pSend pDest : Slot) (msg : Word) : Kernel :=
  let k := k.transfer (.sent pSend pDest msg) (k.proc pDest).pMsg msg
  k.setProc pDest fun p =>
    { p with
      pMsg := 0
      state := p.state &&& ~~~PROC_STATE_RECEIVING ||| PROC_STATE_READY
      pRecvfrom := IPC_TARGET_NONE }

/--
The walk `while (p_dest->queue_sending_next) p = p->queue_sending_next`.  Its
test is on the link of `p_dest`, not on the link of `p`.
-/
def queueEnd (k : Kernel) (pDest : Slot) : Nat → Slot → Except Fault Slot
  | 0, _ => .error .diverges
  | n + 1, p =>
      if (k.proc pDest).queueSendingNext.isSome then
        match (k.proc p).queueSendingNext with
        | some p => k.queueEnd pDest n p
        | none => .error .nullDeref
      else .ok p

def enqueue (k : Kernel) (pSend pDest : Slot) : Except Fault Kernel :=
  match (k.proc pDest).queueSending with
  | some p => do
      let p ← k.queueEnd pDest (PROC_NUM_MAX + 1) p
      return k.setProc p fun p => { p with queueSendingNext := some pSend }
  | none => .ok (k.setProc pDest fun p => { p with queueSending := some pSend })

def blockSender (k : Kernel) (pSend pDest : Slot) (dest : Int) (msg : Word) :
    Except Fault Kernel := do
  let k := k.setProc pSend fun p => { p with state := p.state ||| PROC_STATE_SENDING }
  assert "p_send->state == PROC_STATE_SENDING" ((k.proc pSend).state == PROC_STATE_SENDING)
  let k := k.setProc pSend fun p => { p with pSendto := dest, pMsg := msg }
  let k ← k.enqueue pSend pDest
  assert "p_send->state == PROC_STATE_SENDING" ((k.proc pSend).state == PROC_STATE_SENDING)
  assert "p_send->p_msg != 0" ((k.proc pSend).pMsg != 0)
  assert "p_send->p_recvfrom == IPC_TARGET_NONE" ((k.proc pSend).pRecvfrom == IPC_TARGET_NONE)
  assert "p_send->p_sendto == dest" ((k.proc pSend).pSendto == dest)
  return { k with log := k.log ++ [.blocked pSend pDest msg] }

/-- `_msg_send`; the result is the C function's return value and the kernel after it. -/
def msgSend (k : Kernel) (pSend : Slot) (dest : Int) (msg : Word) (nonblocking : Bool) :
    Except Fault (Int × Kernel) := do
  let pDest ← pid2proc dest
  assert "p_send->pid != p_dest->pid" ((k.proc pSend).pid != (k.proc pDest).pid)
  if k.waitsFor pDest pSend then
    return (0, k.sendDirectly pSend pDest msg)
  else if nonblocking then
    return (-1, k)
  else
    let k ← k.blockSender pSend pDest dest msg
    return (0, k)

/-! ## Receive -/

/-- Which branch `_msg_receive` takes: `block_recv`, `p_from` and `prev`. -/
inductive Choice where
  | take (pFrom : Slot) (prev : Option Slot)
  | block (recvfrom : Int)

def chooseFirst (k : Kernel) (pRecv : Slot) : Except Fault Choice :=
  match (k.proc pRecv).queueSending with
  | none => .ok (.block IPC_TARGET_ANY)
  | some pFrom => do
      assert "p_recv->p_msg == 0" ((k.proc pRecv).pMsg == 0)
      assert "p_recv->p_recvfrom == IPC_TARGET_NONE" ((k.proc pRecv).pRecvfrom == IPC_TARGET_NONE)
      assert "p_recv->p_sendto == IPC_TARGET_NONE" ((k.proc pRecv).pSendto == IPC_TARGET_NONE)
      assert "p_from->p_msg != 0" ((k.proc pFrom).pMsg != 0)
      assert "p_from->p_recvfrom == IPC_TARGET_NONE" ((k.proc pFrom).pRecvfrom == IPC_TARGET_NONE)
      assert "p_from->p_sendto == p_recv->pid" ((k.proc pFrom).pSendto == (k.proc pRecv).pid)
      return .take pFrom none

/-- The walk `while (p)` for the sender `src`, from `p` with `prev` behind it. -/
def findSender (k : Kernel) (src : Int) :
    Nat → Option Slot → Option Slot → Except Fault (Option Slot × Option Slot)
  | _, none, prev => .ok (none, prev)
  | 0, some _, _ => .error .diverges
  | n + 1, some p, prev =>
      if (k.proc p).pid = src then .ok (some p, prev)
      else k.findSender src n (k.proc p).queueSendingNext (some p)

/-- The source tests `p_from->state & IPC_SEND`. -/
def sendsTo (k : Kernel) (pFrom pRecv : Slot) : Bool :=
  (k.proc pFrom).state &&& BitVec.ofInt 16 IPC_SEND != 0 &&
    (k.proc pFrom).pSendto == (k.proc pRecv).pid

def chooseSpecific (k : Kernel) (pRecv : Slot) (src : Int) : Except Fault Choice := do
  let pFrom ← pid2proc src
  if k.sendsTo pFrom pRecv then
    assert "p != 0" (k.proc pRecv).queueSending.isSome
    let (found, prev) ← k.findSender src PROC_NUM_MAX (k.proc pRecv).queueSending none
    let pFrom := found.getD pFrom
    assert "p_recv->state == PROC_STATE_RUNNING" ((k.proc pRecv).state == PROC_STATE_RUNNING)
    assert "p_recv->p_msg == 0" ((k.proc pRecv).pMsg == 0)
    assert "p_recv->p_recvfrom == IPC_TARGET_NONE" ((k.proc pRecv).pRecvfrom == IPC_TARGET_NONE)
    assert "p_recv->p_sendto == IPC_TARGET_NONE" ((k.proc pRecv).pSendto == IPC_TARGET_NONE)
    assert "p_from->p_recvfrom == IPC_TARGET_NONE" ((k.proc pFrom).pRecvfrom == IPC_TARGET_NONE)
    return .take pFrom prev
  else
    return .block (k.proc pFrom).pid

/--
Take `p_from` out of the queue of `p_recv`.  Behind another sender the source
edits the `queue_sending` fields of the two, not their `queue_sending_next`.
-/
def unlink (k : Kernel) (pRecv pFrom : Slot) (prev : Option Slot) : Except Fault Kernel :=
  if (k.proc pRecv).queueSending = some pFrom then do
    assert "prev == 0" prev.isNone
    let k := k.setProc pRecv fun p => { p with queueSending := (k.proc pFrom).queueSendingNext }
    return k.setProc pFrom fun p => { p with queueSendingNext := none }
  else
    match prev with
    | none => .error (.assertion "prev != 0")
    | some prev =>
        let k := k.setProc prev fun p => { p with queueSending := (k.proc pFrom).queueSending }
        .ok (k.setProc pFrom fun p => { p with queueSending := none })

def receiveNow (k : Kernel) (pRecv pFrom : Slot) (prev : Option Slot) (msg : Word) :
    Except Fault Kernel := do
  let k ← k.unlink pRecv pFrom prev
  assert "msg" (msg != 0)
  assert "p_from->p_msg" ((k.proc pFrom).pMsg != 0)
  let k := k.transfer (.received pFrom pRecv (k.proc pFrom).pMsg) msg (k.proc pFrom).pMsg
  return k.setProc pFrom fun p =>
    { p with
      pMsg := 0
      pSendto := IPC_TARGET_NONE
      state := p.state &&& ~~~PROC_STATE_SENDING ||| PROC_STATE_READY }

def blockReceiver (k : Kernel) (pRecv : Slot) (recvfrom : Int) (msg : Word) :
    Except Fault Kernel := do
  let k := k.setProc pRecv fun p =>
    { p with state := p.state ||| PROC_STATE_RECEIVING, pMsg := msg, pRecvfrom := recvfrom }
  assert "p_recv->state == PROC_STATE_RECEIVING" ((k.proc pRecv).state == PROC_STATE_RECEIVING)
  assert "p_recv->p_msg != 0" ((k.proc pRecv).pMsg != 0)
  assert "p_recv->p_recvfrom != IPC_TARGET_NONE" ((k.proc pRecv).pRecvfrom != IPC_TARGET_NONE)
  assert "p_recv->p_sendto == IPC_TARGET_NONE" ((k.proc pRecv).pSendto == IPC_TARGET_NONE)
  return k

def choose (k : Kernel) (pRecv : Slot) (src : Int) : Except Fault Choice :=
  if src = IPC_TARGET_ANY then k.chooseFirst pRecv else k.chooseSpecific pRecv src

def msgReceive (k : Kernel) (pRecv : Slot) (src : Int) (msg : Word) :
    Except Fault (Int × Kernel) := do
  assert "p_recv->pid != src" ((k.proc pRecv).pid != src)
  match ← k.choose pRecv src with
  | .take pFrom prev =>
      let k ← k.receiveNow pRecv pFrom prev msg
      return (0, k)
  | .block recvfrom =>
      let k ← k.blockReceiver pRecv recvfrom msg
      return (0, k)

/-! ## The wrappers -/

/-- What both wrappers do first: name the caller in the message. -/
def nameCaller (k : Kernel) (srcDest : Int) (msg : Word) : Except Fault (Slot × Kernel) := do
  let proc ← pid2proc k.procRunning
  assert "msg->source != src_dest" ((k.proc proc).pid != srcDest)
  return (proc, { k with mem := setMessageSource k.mem msg (k.proc proc).pid })

def sendrec (k : Kernel) (function srcDest : Int) (msg : Word) : Except Fault (Int × Kernel) := do
  let (proc, k) ← k.nameCaller srcDest msg
  if function = IPC_SEND then k.msgSend proc srcDest msg false
  else if function = IPC_RECEIVE then k.msgReceive proc srcDest msg
  else return (-1, k)

def sendrecNonblock (k : Kernel) (function srcDest : Int) (msg : Word) :
    Except Fault (Int × Kernel) := do
  let (proc, k) ← k.nameCaller srcDest msg
  if function = IPC_SEND then k.msgSend proc srcDest msg true
  else return (-1, k)

end Kernel

end PComputer.PseudOS
