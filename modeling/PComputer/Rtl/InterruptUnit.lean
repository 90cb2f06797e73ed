import PComputer.Rtl.InterruptMask

/-!
# `interrupt_unit.v`

The unit that saves the requests of the devices and issues them one at a time,
and its wiring to `riscv_multicyc` in `pcpu_main`: `interrupt` and `int_istimer`
are `eip` and `eip_istimer` of the CPU, and `int_reply` is its `eip_reply`.
-/

namespace PComputer.Rtl

open PComputer.Foundation

inductive UnitState where
  | IDLE | ISSUE
  deriving DecidableEq, Repr, Inhabited

structure Requests where
  timer : Bool
  uart : Bool
  gpio : Bool
  ps2 : Bool
  deriving DecidableEq, Repr, Inhabited

structure InterruptUnit where
  mask : Requests
  currentIrqDev : BitVec 4
  intReplyReg : Bool
  reg : Requests
  save : Requests
  intIstimerReg : Bool
  state : UnitState
  deriving Inhabited

structure InterruptUnitIn where
  rst : Bool
  intReply : Bool
  i : Requests
  a : BitVec 3
  d : Word
  we : Bool

namespace InterruptUnit

def IRQ_DEV_NONE : BitVec 4 := 0
def IRQ_DEV_UART : BitVec 4 := 2
def IRQ_DEV_GPIO : BitVec 4 := 3
def IRQ_DEV_PS2 : BitVec 4 := 4

variable (u : InterruptUnit)

def interrupt : Bool := u.state == .ISSUE

def intIstimer : Bool := u.intIstimerReg

def spo (a : BitVec 3) : Word :=
  if a = 0 then
    0#4 ++ BitVec.ofBool u.mask.ps2 ++ BitVec.ofBool u.mask.gpio ++ BitVec.ofBool u.mask.uart ++
      BitVec.ofBool u.mask.timer ++ 0#24
  else if a = 1 then 0#4 ++ u.currentIrqDev ++ 0#24
  else 0

def maskNext (i : InterruptUnitIn) : Requests :=
  if i.rst then ⟨true, true, true, true⟩
  else if i.we ∧ i.a = 0 then
    { ps2 := i.d.getLsbD 27, gpio := i.d.getLsbD 26, uart := i.d.getLsbD 25,
      timer := i.d.getLsbD 24 }
  else u.mask

/-- The saved requests with those that arrive, before one is issued. -/
def saved : Requests where
  timer := u.save.timer || (u.reg.timer && !u.mask.timer)
  uart := u.save.uart || (u.reg.uart && !u.mask.uart)
  gpio := u.save.gpio || (u.reg.gpio && !u.mask.gpio)
  ps2 := u.save.ps2 || (u.reg.ps2 && !u.mask.ps2)

/-- The FSM writes after the saving, so an issued request is cleared even if it arrives again. -/
def step (q : InterruptUnit) : InterruptUnit :=
  match u.state with
  | .IDLE =>
      if u.save.timer then
        { q with state := .ISSUE, save := { q.save with timer := false }, intIstimerReg := true }
      else if u.save.uart then
        { q with
          state := .ISSUE, save := { q.save with uart := false }, currentIrqDev := IRQ_DEV_UART }
      else if u.save.gpio then
        { q with
          state := .ISSUE, save := { q.save with gpio := false }, currentIrqDev := IRQ_DEV_GPIO }
      else if u.save.ps2 then
        { q with
          state := .ISSUE, save := { q.save with ps2 := false }, currentIrqDev := IRQ_DEV_PS2 }
      else q
  | .ISSUE => if u.intReplyReg then { q with intIstimerReg := false, state := .IDLE } else q

def cycle (i : InterruptUnitIn) : InterruptUnit :=
  let q := { u with mask := u.maskNext i, intReplyReg := i.intReply, reg := i.i }
  if i.rst then
    { q with
      save := ⟨false, false, false, false⟩, intIstimerReg := false, currentIrqDev := IRQ_DEV_NONE,
      state := .IDLE }
  else u.step { q with save := u.saved }

/-! ## The unit after one cycle -/

variable {i : InterruptUnitIn}

theorem cycle_intReplyReg : (u.cycle i).intReplyReg = i.intReply := by
  unfold cycle step
  cases u.state with
  | IDLE | ISSUE => simp only [apply_ite intReplyReg, ite_self]

theorem cycle_issue (hrst : i.rst = false) (hstate : u.state = .ISSUE)
    (hreply : u.intReplyReg = false) :
    (u.cycle i).state = .ISSUE ∧ (u.cycle i).intIstimerReg = u.intIstimerReg ∧
      (u.cycle i).currentIrqDev = u.currentIrqDev := by
  simp only [cycle, hrst, Bool.false_eq_true, if_false, step, hstate, hreply]
  exact ⟨trivial, trivial, trivial⟩

end InterruptUnit

/-! ## The wiring -/

structure PcpuMain where
  interruptUnit : InterruptUnit
  cpu : Multicyc

/-- The inputs of one cycle; `rstInterrupt` is the reset of the interrupt unit. -/
structure PcpuMainIn where
  rst : Bool
  rstInterrupt : Bool
  spo : Word
  ready : Bool
  i : Requests
  intA : BitVec 3
  intD : Word
  intWe : Bool

namespace PcpuMain

def cpuIn (i : PcpuMainIn) (s : PcpuMain) : MulticycIn where
  rst := i.rst
  eip := s.interruptUnit.interrupt
  eipIstimer := s.interruptUnit.intIstimer
  spo := i.spo
  ready := i.ready

def unitIn (i : PcpuMainIn) (s : PcpuMain) : InterruptUnitIn where
  rst := i.rstInterrupt
  intReply := s.cpu.privilege.eipReply
  i := i.i
  a := i.intA
  d := i.intD
  we := i.intWe

def cycle (x : ReadX) (i : PcpuMainIn) (s : PcpuMain) : PcpuMain where
  interruptUnit := s.interruptUnit.cycle (s.unitIn i)
  cpu := s.cpu.cycle x (s.cpuIn i)

end PcpuMain

end PComputer.Rtl
