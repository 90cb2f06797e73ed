import PComputer.Rtl.Acknowledge
import PComputer.Kernel.Isr

/-!
# External interrupts and their devices

`interrupt_unit` has one register for the device of the request that it issued
last.  The handler of an external interrupt reads that register, and by then
the unit may have issued the request of another device.  The codes in `isr.h`
agree with those of the unit for the UART only.
-/

namespace PComputer.PseudOS

open PComputer.Foundation PComputer.Rtl

inductive IrqDevice where
  | timer | uart | gpio | ps2
  deriving DecidableEq, Repr

namespace IrqDevice

def cause (device : IrqDevice) : Word := interruptCause (device == .timer)

def code : IrqDevice → Word
  | .timer => 1
  | .uart => 2
  | .gpio => 3
  | .ps2 => 4

def handler : IrqDevice → Option IrqHandler
  | .timer => none
  | .uart => some .uart0
  | .gpio => some .gpio
  | .ps2 => some .ps2

end IrqDevice

/-- The handler that read this code works for the device. -/
def Attributed (device : IrqDevice) (irqDev : Word) : Prop :=
  irqDev = device.code ∧
    ∃ handler, device.handler = some handler ∧ isrExternal irqDev = .ok handler

private theorem attributed_uart : Attributed .uart IrqDevice.uart.code :=
  ⟨rfl, .uart0, rfl, rfl⟩

end PComputer.PseudOS

namespace PComputer.Rtl

open PComputer.Foundation PComputer.PseudOS

namespace InterruptUnit

variable (u : InterruptUnit) {i : InterruptUnitIn}

/-- The device whose saved request is cleared and issued. -/
def issued : Option IrqDevice :=
  match u.state with
  | .IDLE =>
      if u.save.timer then some .timer
      else if u.save.uart then some .uart
      else if u.save.gpio then some .gpio
      else if u.save.ps2 then some .ps2
      else none
  | .ISSUE => none

theorem cycle_idle (hrst : i.rst = false) (hidle : u.state = .IDLE)
    (htimer : u.intIstimerReg = false) :
    (u.cycle i).state = (if u.issued = none then .IDLE else .ISSUE) ∧
      (u.cycle i).intIstimerReg = decide (u.issued = some .timer) := by
  simp only [cycle, step, issued, hrst, hidle, htimer, Bool.false_eq_true, if_false]
  cases u.save.timer <;> cases u.save.uart <;> cases u.save.gpio <;> cases u.save.ps2 <;>
    constructor <;> rfl

private theorem cycle_currentIrqDev (hrst : i.rst = false) :
    (u.cycle i).currentIrqDev =
      match u.issued with
      | some .uart => IRQ_DEV_UART
      | some .gpio => IRQ_DEV_GPIO
      | some .ps2 => IRQ_DEV_PS2
      | some .timer | none => u.currentIrqDev := by
  simp only [cycle, step, issued, hrst, Bool.false_eq_true, if_false]
  cases u.state with
  | IDLE =>
      simp only [apply_ite currentIrqDev]
      cases u.save.timer <;> cases u.save.uart <;> cases u.save.gpio <;> cases u.save.ps2 <;> rfl
  | ISSUE => simp only [apply_ite currentIrqDev, ite_self]

private theorem cycle_replied (hrst : i.rst = false) (hstate : u.state = .ISSUE)
    (hreply : u.intReplyReg = true) :
    (u.cycle i).state = .IDLE ∧ (u.cycle i).intIstimerReg = false := by
  simp only [cycle, step, hrst, hstate, hreply, Bool.false_eq_true, if_false, if_true]
  exact ⟨trivial, trivial⟩

theorem cycle_of_rst (hrst : i.rst = true) :
    (u.cycle i).state = .IDLE ∧ (u.cycle i).intIstimerReg = false := by
  simp only [cycle, hrst, if_true]
  exact ⟨trivial, trivial⟩

/-- No request of the GPIO or the PS/2 is sampled or saved. -/
structure WithoutInput (u : InterruptUnit) : Prop where
  reg : u.reg.gpio = false ∧ u.reg.ps2 = false
  save : u.save.gpio = false ∧ u.save.ps2 = false

private theorem cycle_reg : (u.cycle i).reg = i.i := by
  unfold cycle step
  cases u.state with
  | IDLE | ISSUE => simp only [apply_ite reg, ite_self]

theorem WithoutInput.cycle {u : InterruptUnit} (hgpio : i.i.gpio = false) (hps2 : i.i.ps2 = false)
    (h : i.rst = false → u.WithoutInput) : (u.cycle i).WithoutInput := by
  refine ⟨by rw [cycle_reg]; exact ⟨hgpio, hps2⟩, ?_⟩
  cases hrst : i.rst with
  | true =>
      simp only [InterruptUnit.cycle, hrst, if_true]
      exact ⟨trivial, trivial⟩
  | false =>
      obtain ⟨⟨hregGpio, hregPs2⟩, hsaveGpio, hsavePs2⟩ := h hrst
      simp only [InterruptUnit.cycle, hrst, Bool.false_eq_true, if_false, step]
      cases u.state with
      | IDLE | ISSUE =>
          simp only [apply_ite InterruptUnit.save, apply_ite Requests.gpio, apply_ite Requests.ps2,
            saved,
            hregGpio, hregPs2, hsaveGpio, hsavePs2, Bool.false_and, Bool.or_false, ite_self,
            and_self]

end InterruptUnit

def IntEvent.cause? : IntEvent → Option Word
  | .acknowledged _ => none
  | .taken mcause => some mcause

namespace PcpuMain

/-- What a load of `interrupt_ctrl[1]` gets in this cycle. -/
def handlerReads (s : PcpuMain) : Word := byteSwap (s.interruptUnit.spo 1)

def consumedOf (i : PcpuMainIn) (s : PcpuMain) : List IrqDevice :=
  if i.rstInterrupt then [] else s.interruptUnit.issued.toList

def consumed (ins : Nat → PcpuMainIn) (tr : Nat → PcpuMain) (n : Nat) : Nat → List IrqDevice
  | 0 => []
  | k + 1 => consumed ins tr n k ++ consumedOf (ins (n + k)) (tr (n + k))

def causes (tr : Nat → PcpuMain) (n k : Nat) : List Word :=
  (events tr n k).filterMap IntEvent.cause?

def issuing (s : PcpuMain) : List Word :=
  if s.interruptUnit.state = .ISSUE ∧ s.interruptUnit.intReplyReg = false then
    [interruptCause s.interruptUnit.intIstimerReg]
  else []

/-- Every consumed request has been taken, or waits for the core, or is still issued. -/
structure Accounted (s : PcpuMain) (pending : Option Bool) (consumed : List IrqDevice)
    (causes : List Word) : Prop where
  timer : s.interruptUnit.state = .IDLE → s.interruptUnit.intIstimerReg = false
  balance : consumed.map IrqDevice.cause =
    causes ++ (pending.toList.map interruptCause ++ s.issuing)

section Cycle

variable {x : ReadX} {i : PcpuMainIn} {s : PcpuMain} {pending : Option Bool}

private theorem Exchange.taken_pending (h : s.Exchange pending) (hrst : i.rst = false)
    (hphase : s.cpu.core.phase = .INTERRUPT) :
    ∃ isTimer, pending = some isTimer ∧
      (s.cycle x i).cpu.privilege.mcause = interruptCause isTimer := by
  obtain ⟨hstate, heip, hconsumed⟩ := h.taken hphase
  obtain ⟨isTimer, hcode⟩ := h.code hstate
  exact ⟨isTimer, (h.waiting isTimer).mpr ⟨hstate, heip, hconsumed, hcode⟩,
    mcause_cycle hrst hphase hcode⟩

private theorem pending_of_eipReply (h : s.Exchange pending)
    (hreply : s.cpu.privilege.eipReply = true) :
    pending = none := by
  cases hpending : pending with
  | none => rfl
  | some isTimer =>
      obtain ⟨-, hlow, -⟩ := (h.waiting isTimer).mp hpending
      rw [hlow] at hreply
      cases hreply

private theorem causes_pending (h : s.Exchange pending) (hrst : i.rst = false)
    (hreply : s.cpu.privilege.eipReply = false) (causes : List Word) :
    causes ++ (eventsOf s (s.cycle x i)).filterMap IntEvent.cause? ++
        (s.pendingNext pending).toList.map interruptCause =
      causes ++ pending.toList.map interruptCause := by
  unfold eventsOf pendingNext
  rw [hreply, if_neg Bool.false_ne_true, if_neg Bool.false_ne_true, List.nil_append]
  by_cases hphase : s.cpu.core.phase = .INTERRUPT
  · obtain ⟨isTimer, hpending, hmcause⟩ := h.taken_pending (x := x) hrst hphase
    rw [if_pos hphase, if_pos hphase, hmcause, hpending]
    simp [IntEvent.cause?]
  · rw [if_neg hphase, if_neg hphase]
    simp

private theorem issuing_of_idle (hidle : s.interruptUnit.state = .IDLE) : s.issuing = [] := by
  unfold issuing
  rw [hidle]
  rfl

theorem Accounted.cycle {consumed : List IrqDevice} {causes : List Word}
    (hexchange : s.Exchange pending) (h : s.Accounted pending consumed causes)
    (hrst : i.rst = false) (hunit : i.rstInterrupt = true → s.Quiet) :
    (s.cycle x i).Accounted (s.pendingNext pending) (consumed ++ s.consumedOf i)
      (causes ++ (eventsOf s (s.cycle x i)).filterMap IntEvent.cause?) := by
  have hreplyReg : (s.cycle x i).interruptUnit.intReplyReg = s.cpu.privilege.eipReply :=
    s.interruptUnit.cycle_intReplyReg
  have hbalance := h.balance
  cases hstate : s.interruptUnit.state with
  | IDLE =>
      have hlow : s.cpu.privilege.eipReply = false := by
        cases hr : s.cpu.privilege.eipReply with
        | false => rfl
        | true => exact absurd ((hexchange.reply hr).2.1.symm.trans hstate) (by decide)
      have hpending := causes_pending (x := x) hexchange hrst hlow causes
      rw [issuing_of_idle hstate, List.append_nil, ← hpending] at hbalance
      cases hr : i.rstInterrupt with
      | true =>
          obtain ⟨hnext, htimer⟩ :=
            s.interruptUnit.cycle_of_rst (i := s.unitIn i) hr
          refine ⟨fun _ => htimer, ?_⟩
          rw [consumedOf, hr, if_pos rfl, List.append_nil, issuing_of_idle hnext,
            List.append_nil]
          exact hbalance
      | false =>
          obtain ⟨hnext, htimer⟩ :=
            s.interruptUnit.cycle_idle (i := s.unitIn i) hr hstate (h.timer hstate)
          rw [consumedOf, hr, if_neg Bool.false_ne_true]
          cases hissued : s.interruptUnit.issued with
          | none =>
              rw [hissued] at hnext htimer
              refine ⟨fun _ => htimer, ?_⟩
              rw [issuing_of_idle (s := s.cycle x i) hnext, List.append_nil]
              simpa using hbalance
          | some device =>
              rw [hissued] at hnext htimer
              have hnext' : (s.cycle x i).interruptUnit.state = .ISSUE := hnext
              have htimer' : (s.cycle x i).interruptUnit.intIstimerReg = (device == .timer) := by
                refine htimer.trans ?_
                cases device <;> rfl
              have hissuing : (s.cycle x i).issuing = [device.cause] := by
                rw [issuing, hnext', hreplyReg, hlow, htimer']
                rfl
              refine ⟨fun hidle => absurd (hnext'.symm.trans hidle) (by decide), ?_⟩
              rw [List.map_append, hbalance, hissuing]
              simp
  | ISSUE =>
      have hrstUnit : i.rstInterrupt = false := by
        cases hr : i.rstInterrupt with
        | false => rfl
        | true => exact absurd ((hunit hr).1.symm.trans hstate) (by decide)
      have hnone : s.consumedOf i = [] := by
        rw [consumedOf, hrstUnit, InterruptUnit.issued, hstate]
        rfl
      rw [hnone, List.append_nil]
      cases hreply : s.interruptUnit.intReplyReg with
      | true =>
          obtain ⟨-, hlow, -⟩ := hexchange.unitReply hreply
          obtain ⟨hnext, htimer⟩ :=
            s.interruptUnit.cycle_replied (i := s.unitIn i) hrstUnit hstate hreply
          have hpending := causes_pending (x := x) hexchange hrst hlow causes
          refine ⟨fun _ => htimer, ?_⟩
          rw [issuing, hstate, hreply, if_neg (by decide), List.append_nil, ← hpending] at hbalance
          rw [hbalance, issuing_of_idle (s := s.cycle x i) hnext, List.append_nil]
      | false =>
          obtain ⟨hnext, htimer, -⟩ :=
            s.interruptUnit.cycle_issue (i := s.unitIn i) hrstUnit hstate hreply
          have hnext' : (s.cycle x i).interruptUnit.state = .ISSUE := hnext
          have htimer' : (s.cycle x i).interruptUnit.intIstimerReg =
              s.interruptUnit.intIstimerReg := htimer
          refine ⟨fun hidle => absurd (hnext'.symm.trans hidle) (by decide), ?_⟩
          rw [issuing, hstate, hreply, if_pos ⟨rfl, rfl⟩] at hbalance
          rw [issuing, hnext', hreplyReg, htimer']
          cases hlow : s.cpu.privilege.eipReply with
          | true =>
              -- The acknowledged request goes from the unit to the core.
              have hphase : s.cpu.core.phase ≠ .INTERRUPT := by
                intro hphase
                rw [(hexchange.taken hphase).2.1] at hlow
                cases hlow
              rw [pending_of_eipReply hexchange hlow] at hbalance
              rw [hbalance, eventsOf, pendingNext, hlow, if_neg hphase]
              simp [IntEvent.cause?, InterruptUnit.intIstimer]
          | false =>
              have hpending := causes_pending (x := x) hexchange hrst hlow causes
              rw [if_pos ⟨rfl, rfl⟩, hbalance, ← List.append_assoc, ← hpending, List.append_assoc]

end Cycle

/-! ## Runs -/

/-- Only requests of the UART, and of the timer, have been consumed. -/
structure UartOnly (s : PcpuMain) (consumed : List IrqDevice) : Prop where
  devices : ∀ device ∈ consumed, device = .timer ∨ device = .uart
  register : .uart ∈ consumed → s.interruptUnit.currentIrqDev = InterruptUnit.IRQ_DEV_UART

/-- In this cycle the unit issues neither a request of the GPIO nor of the PS/2. -/
def IssuesUart (s : PcpuMain) : Prop :=
  s.interruptUnit.issued ≠ some .gpio ∧ s.interruptUnit.issued ≠ some .ps2

theorem UartOnly.cycle {x : ReadX} {i : PcpuMainIn} {s : PcpuMain} {consumed : List IrqDevice}
    (h : s.UartOnly consumed) (huart : s.IssuesUart)
    (hrst : i.rstInterrupt = true → consumed = []) :
    (s.cycle x i).UartOnly (consumed ++ s.consumedOf i) := by
  obtain ⟨hgpio, hps2⟩ := huart
  cases hr : i.rstInterrupt with
  | true =>
      rw [consumedOf, hr, if_pos rfl, hrst hr]
      exact ⟨by simp, by simp⟩
  | false =>
      have hregister := s.interruptUnit.cycle_currentIrqDev (i := s.unitIn i) hr
      rw [consumedOf, hr, if_neg Bool.false_ne_true]
      cases hissued : s.interruptUnit.issued with
      | none =>
          rw [hissued] at hregister
          refine ⟨by simpa using h.devices, fun hmem => hregister.trans (h.register ?_)⟩
          simpa using hmem
      | some device =>
          rw [hissued] at hregister hgpio hps2
          cases device with
          | timer =>
              refine ⟨?_, fun hmem => hregister.trans (h.register ?_)⟩
              · simpa [or_imp, forall_and] using h.devices
              · simpa using hmem
          | uart =>
              refine ⟨?_, fun _ => hregister⟩
              simpa [or_imp, forall_and] using h.devices
          | gpio => exact absurd rfl hgpio
          | ps2 => exact absurd rfl hps2

private theorem handlerReads_uart {s : PcpuMain}
    (h : s.interruptUnit.currentIrqDev = InterruptUnit.IRQ_DEV_UART) :
    s.handlerReads = IrqDevice.uart.code := by
  rw [handlerReads, InterruptUnit.spo, if_neg (by decide), if_pos rfl, h]
  rfl

section FromReset

variable {x : ReadX} {ins : Nat → PcpuMainIn} {tr : Nat → PcpuMain} {n : Nat}

private theorem FromReset.rst_run (h : FromReset x ins tr n) (k : Nat) :
    (ins (n + k)).rst = false := by
  rw [h.rst]
  exact decide_eq_false (by omega)

/-- Only the first cycle of the run can still reset the unit. -/
theorem FromReset.first_of_rstInterrupt (h : FromReset x ins tr n) {k : Nat}
    (hrst : (ins (n + k)).rstInterrupt = true) : k = 0 := by
  by_contra hk
  rw [h.released (n + k) (by omega)] at hrst
  cases hrst

private theorem FromReset.quiet_run (h : FromReset x ins tr n) (htwo : 2 ≤ n) (k : Nat)
    (hrst : (ins (n + k)).rstInterrupt = true) : (tr (n + k)).Quiet := by
  rw [h.first_of_rstInterrupt hrst]
  exact (h.exchange htwo).2

theorem FromReset.intIstimerReg (h : FromReset x ins tr n) :
    (tr n).interruptUnit.intIstimerReg = false := by
  have hn : n = n - 1 + 1 := by
    have := h.pos
    omega
  rw [hn, h.cycle]
  exact ((tr (n - 1)).interruptUnit.cycle_of_rst (i := (tr (n - 1)).unitIn (ins (n - 1)))
    h.rstInterrupt).2

private theorem FromReset.accounted_run (h : FromReset x ins tr n) (htwo : 2 ≤ n) (k : Nat) :
    ∃ pending, (tr (n + k)).Exchange pending ∧
      (tr (n + k)).Accounted pending (consumed ins tr n k) (causes tr n k) := by
  induction k with
  | zero =>
      obtain ⟨hexchange, hquiet⟩ := h.exchange htwo
      refine ⟨none, hexchange, fun _ => h.intIstimerReg, ?_⟩
      change _ = _ ++ (_ ++ (tr n).issuing)
      rw [issuing_of_idle hquiet.1]
      rfl
  | succ k ih =>
      obtain ⟨pending, hexchange, haccounted⟩ := ih
      refine ⟨(tr (n + k)).pendingNext pending, ?_, ?_⟩
      · rw [← Nat.add_assoc, h.cycle]
        exact hexchange.cycle (h.rst_run k) (h.quiet_run htwo k)
      · have hnext := haccounted.cycle (x := x) hexchange (h.rst_run k) (h.quiet_run htwo k)
        rw [← h.cycle] at hnext
        rw [causes, events, List.filterMap_append]
        exact hnext

private theorem FromReset.uartOnly_run (h : FromReset x ins tr n)
    (huart : ∀ k, (tr (n + k)).IssuesUart) (k : Nat) :
    (tr (n + k)).UartOnly (consumed ins tr n k) := by
  induction k with
  | zero => exact ⟨by simp [consumed], by simp [consumed]⟩
  | succ k ih =>
      have hnext := ih.cycle (x := x) (i := ins (n + k)) (huart k) (by
        intro hrst
        rw [h.first_of_rstInterrupt hrst]
        rfl)
      rw [← h.cycle] at hnext
      exact hnext

private theorem consumed_mem_mono {device : IrqDevice} {k : Nat}
    (h : device ∈ consumed ins tr n k) (m : Nat) : device ∈ consumed ins tr n (k + m) := by
  induction m with
  | zero => exact h
  | succ m ih => exact List.mem_append_left _ ih

/-- The core takes the oldest consumed request that it has not taken. -/
theorem FromReset.consumed_of_taken (h : FromReset x ins tr n) (htwo : 2 ≤ n) {k : Nat}
    (hphase : (tr (n + k)).cpu.core.phase = .INTERRUPT) :
    ∃ device, (consumed ins tr n k)[(causes tr n k).length]? = some device ∧
      (tr (n + k + 1)).cpu.privilege.mcause = device.cause := by
  obtain ⟨pending, hexchange, haccounted⟩ := h.accounted_run htwo k
  obtain ⟨isTimer, hpending, hmcause⟩ :=
    hexchange.taken_pending (x := x) (h.rst_run k) hphase
  have hget : ((consumed ins tr n k).map IrqDevice.cause)[(causes tr n k).length]? =
      some (interruptCause isTimer) := by
    rw [haccounted.balance, hpending]
    simp
  rw [List.getElem?_map, Option.map_eq_some_iff] at hget
  obtain ⟨device, hdevice, hcause⟩ := hget
  refine ⟨device, hdevice, ?_⟩
  rw [h.cycle, hmcause, hcause]

/--
In every run after reset in which the unit issues no request of the GPIO or the
PS/2, the handlers are entered for the consumed requests in their order, at most
two of which are still to be taken, and from the entry for an external request
on, the register names the device of that request and selects its handler.
-/
theorem FromReset.attributed (h : FromReset x ins tr n) (htwo : 2 ≤ n)
    (huart : ∀ k, (tr (n + k)).IssuesUart) (k : Nat) :
    (∃ waiting, waiting.length ≤ 2 ∧
      (consumed ins tr n k).map IrqDevice.cause = causes tr n k ++ waiting) ∧
    ((tr (n + k)).cpu.core.phase = .INTERRUPT →
      (tr (n + k + 1)).cpu.privilege.mcause = 0x8000000b →
      ∃ device, (consumed ins tr n k)[(causes tr n k).length]? = some device ∧
        ∀ m, Attributed device (tr (n + k + m)).handlerReads) := by
  constructor
  · obtain ⟨pending, -, haccounted⟩ := h.accounted_run htwo k
    refine ⟨_, ?_, haccounted.balance⟩
    have hpending : pending.toList.length ≤ 1 := by cases pending <;> simp
    have hissuing : (tr (n + k)).issuing.length ≤ 1 := by
      unfold issuing
      split_ifs <;> simp
    rw [List.length_append, List.length_map]
    omega
  · intro hphase hmcause
    obtain ⟨device, hdevice, hcause⟩ := h.consumed_of_taken htwo hphase
    have hmem : device ∈ consumed ins tr n k := List.mem_of_getElem? hdevice
    have hdeviceUart : device = .uart := by
      rcases (h.uartOnly_run huart k).devices device hmem with htimer | huart
      · rw [hmcause, htimer] at hcause
        exact absurd hcause (by decide)
      · exact huart
    refine ⟨device, hdevice, fun m => ?_⟩
    subst hdeviceUart
    have hregister := (h.uartOnly_run huart (k + m)).register (consumed_mem_mono hmem m)
    rw [← Nat.add_assoc] at hregister
    rw [handlerReads_uart hregister]
    exact attributed_uart

private theorem FromReset.issuesUart (h : FromReset x ins tr n)
    (hin : ∀ t, (ins t).i.gpio = false ∧ (ins t).i.ps2 = false) (k : Nat) :
    (tr (n + k)).IssuesUart := by
  have hinput : (tr (n + k)).interruptUnit.WithoutInput := by
    induction k with
    | zero =>
        have hn : n = n - 1 + 1 := by
          have := h.pos
          omega
        rw [Nat.add_zero, hn, h.cycle]
        refine .cycle (hin _).1 (hin _).2 fun hrst => ?_
        rw [show ((tr (n - 1)).unitIn (ins (n - 1))).rst = true from h.rstInterrupt] at hrst
        cases hrst
    | succ k ih =>
        rw [← Nat.add_assoc, h.cycle]
        exact .cycle (hin _).1 (hin _).2 fun _ => ih
  obtain ⟨-, hgpio, hps2⟩ := hinput
  unfold IssuesUart InterruptUnit.issued
  rw [hgpio, hps2]
  cases (tr (n + k)).interruptUnit.state with
  | IDLE =>
      constructor <;> dsimp only <;> split_ifs <;> simp_all
  | ISSUE => exact ⟨nofun, nofun⟩

end FromReset

/-! ### Concrete runs -/

theorem attributed_uartRequest :
    (deviceRun uartRequest 25).cpu.core.phase = .INTERRUPT ∧
      ∃ device, (consumed (deviceIns uartRequest) (deviceRun uartRequest) 2 23)[0]? = some device ∧
        ∀ m, Attributed device (deviceRun uartRequest (25 + m)).handlerReads := by
  have hphase : (deviceRun uartRequest 25).cpu.core.phase = .INTERRUPT := by decide +kernel
  have hcauses : causes (deviceRun uartRequest) 2 23 = [] := by decide +kernel
  obtain ⟨-, hattributed⟩ := (fromReset_deviceRun uartRequest).attributed (by decide)
    ((fromReset_deviceRun uartRequest).issuesUart fun _ => ⟨rfl, rfl⟩) 23
  rw [hcauses] at hattributed
  exact ⟨hphase, hattributed hphase (by decide +kernel)⟩

/-- The UART requests in cycle 15 and the GPIO in cycle 16. -/
def uartGpioRequest (t : Nat) : Requests :=
  { timer := false, uart := t == 15, gpio := t == 16, ps2 := false }

/--
The unit issues the request of the GPIO before the handler of the UART is
entered; the handler reads the code of the GPIO, which `isr.h` does not have.
-/
theorem uartGpioRequest_not_attributed :
    FromReset tiedLow (deviceIns uartGpioRequest) (deviceRun uartGpioRequest) 2 ∧
      consumed (deviceIns uartGpioRequest) (deviceRun uartGpioRequest) 2 23 = [.uart, .gpio] ∧
      causes (deviceRun uartGpioRequest) 2 23 = [] ∧
      (deviceRun uartGpioRequest 25).cpu.core.phase = .INTERRUPT ∧
      (deviceRun uartGpioRequest 26).cpu.privilege.mcause = 0x8000000b ∧
      (∀ t ≤ 30, 25 ≤ t → (deviceRun uartGpioRequest t).handlerReads = IrqDevice.gpio.code) ∧
      isrExternal IrqDevice.gpio.code = .error (.panic "Unknown external irq device") := by
  refine ⟨fromReset_deviceRun uartGpioRequest, ?_, ?_, ?_, ?_, ?_, rfl⟩
  · decide +kernel
  · decide +kernel
  · decide +kernel
  · decide +kernel
  · decide +kernel

end PcpuMain

end PComputer.Rtl
