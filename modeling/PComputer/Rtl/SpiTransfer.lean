import Mathlib.Logic.Relation
import PComputer.Foundation.Clocked
import PComputer.Foundation.ShiftRegister
import PComputer.Rtl.Sdcard

/-!
# The SD card unit and a card

The card is seen as a shift register on the SPI wires: it shows the next of its bits
after each falling edge of `sclk` and takes a bit at each rising edge.  Between the
edges of `clk_pulse_slow` the unit takes or gives a byte, so two clocks make one step.
-/

namespace PComputer.Rtl

open PComputer.Foundation Relation

structure SpiCard where
  out : List Bool
  captured : List Bool

namespace SpiCard

variable (c : SpiCard)

def miso : Bool := c.out.headD true

def clock (before after : SdController) : SpiCard :=
  if before.cs then c
  else
    { out := if before.sclk && !after.sclk then c.out.tail else c.out
      captured := if !before.sclk && after.sclk then c.captured ++ [before.mosi] else c.captured }

end SpiCard

structure SdSystem where
  sd : Sdcard
  card : SpiCard

namespace SdSystem

variable (i : SdcardIn) (s : SdSystem)

def wired : SdcardIn := { i with sdDat0 := s.card.miso }

def cycle : SdSystem where
  sd := s.sd.cycle (s.wired i)
  card := s.card.clock s.sd.controller (s.sd.cycle (s.wired i)).controller

def ready : Bool := s.sd.sdReadyReal

end SdSystem

/-! ## Steps of two clocks -/

def SdcardIn.idle : SdcardIn where
  rst := false
  sdDat0 := true
  sdNcd := false
  a := 0
  d := 0
  we := false

@[simp] theorem SdcardIn.idle_rst : SdcardIn.idle.rst = false := rfl

@[simp] theorem SdcardIn.idle_writesBlock : SdcardIn.idle.writesBlock = false := rfl

/-- The registers that count when the clock of the controller is about to pulse. -/
structure SdCore where
  controller : SdController
  buffer : SdBuffer
  card : SpiCard

def SdBuffer.react (before after : SdController) (u : SdBuffer) : SdBuffer :=
  u.cycle .idle after.ready (!before.byteAvailable && after.byteAvailable)
    (!before.readyForNextByte && after.readyForNextByte) after.dout

namespace SdCore

variable (r : SdCore)

def controllerIn : SdControllerIn where
  clkPulseSlow := true
  reset := false
  miso := r.card.miso
  address := r.buffer.sdAddress
  rd := r.buffer.sdRd
  wr := r.buffer.sdWr
  din := r.buffer.sdDin

def step : SdCore where
  controller := r.controller.slow r.controllerIn
  buffer := r.buffer.react r.controller (r.controller.slow r.controllerIn)
  card := r.card.clock r.controller (r.controller.slow r.controllerIn)

/-- One step of a transfer; the last one, back to `IDLE`, is left out. -/
structure Moves (r r' : SdCore) : Prop where
  busy : r.buffer.readyReal r.controller.ready = false
  still : r.buffer.control .idle r.controller.ready = r.buffer
  step : r.step = r'
  works : r'.controller.state ≠ .IDLE

end SdCore

namespace SdSystem

/-- The clock of the controller is about to pulse, and no edge of a flag is pending. -/
structure InStep (s : SdSystem) : Prop where
  pulse : s.sd.clkPulseSlow = true
  readnext : s.sd.readnextOld = s.sd.controller.byteAvailable
  writenext : s.sd.writenextOld = s.sd.controller.readyForNextByte

def core (s : SdSystem) : SdCore where
  controller := s.sd.controller
  buffer := s.sd.buffer
  card := s.card

/-- No reset, and the CPU writes the buffer only while the unit is ready. -/
structure Quiet (ins : Nat → SdcardIn) (s : SdSystem) : Prop where
  rst : ∀ t, (ins t).rst = false
  busy : ∀ t, (trace cycle ins s t).ready = false → (ins t).writesBlock = false

end SdSystem

theorem SdController.ready_of_ne {c : SdController} (h : c.state ≠ .IDLE) : c.ready = false :=
  beq_eq_false_iff_ne.mpr h

/-! ### The buffer while the unit is busy -/

namespace SdBuffer

variable {i : SdcardIn} {u : SdBuffer} {sdReady p q : Bool} {b : BitVec 8}

/-- While the unit is not ready, the CPU only matters by its writes to the buffer. -/
theorem cycle_busy (hrst : i.rst = false) (hready : u.readyReal sdReady = false)
    (hwe : i.writesBlock = false) : u.cycle i sdReady p q b = u.cycle .idle sdReady p q b := by
  have hcontrol : u.control i sdReady = u.control .idle sdReady := by
    simp only [control, hready, Bool.false_eq_true, if_false]
  unfold cycle
  rw [hcontrol, hrst, hwe, SdcardIn.idle_rst, SdcardIn.idle_writesBlock]
  rfl

theorem cycle_still (hrst : i.rst = false) (hready : u.readyReal sdReady = false)
    (hstill : u.control .idle sdReady = u) (hwe : i.writesBlock = false) :
    u.cycle i sdReady false false b = u := by
  rw [cycle_busy hrst hready hwe, cycle, hstill]
  simp

end SdBuffer

theorem SpiCard.clock_self (c : SpiCard) (x : SdController) : c.clock x x = c := by
  unfold clock
  cases x.sclk <;> simp

namespace SdSystem

variable {i : SdcardIn} {s : SdSystem} {ins : Nat → SdcardIn} {t : Nat}

private theorem pulse_alternates (n : BitVec 5) :
    ((n + 1).extractLsb' 0 1 == 0) = !(n.extractLsb' 0 1 == 0) := by
  revert n
  decide

theorem pulse_cycle (hrst : i.rst = false) :
    (s.cycle i).sd.clkPulseSlow = !s.sd.clkPulseSlow := by
  change ((if i.rst then 0 else s.sd.clkcounter + 1).extractLsb' 0 1 == 0) = _
  rw [hrst]
  exact pulse_alternates s.sd.clkcounter

theorem controller_pulse (hrst : i.rst = false) (hpulse : s.sd.clkPulseSlow = true) :
    (s.cycle i).sd.controller = s.sd.controller.slow s.core.controllerIn := by
  change s.sd.controller.cycle _ = _
  rw [SdController.cycle, if_neg (by simp [Sdcard.controllerIn, wired, hrst]),
    if_pos (by exact hpulse)]
  congr 1
  simp [Sdcard.controllerIn, SdCore.controllerIn, wired, core, hrst, hpulse]

theorem controller_still (hrst : i.rst = false) (hpulse : s.sd.clkPulseSlow = false) :
    (s.cycle i).sd.controller = s.sd.controller := by
  change s.sd.controller.cycle _ = _
  rw [SdController.cycle, if_neg (by simp [Sdcard.controllerIn, wired, hrst]),
    if_neg (by simp [Sdcard.controllerIn, hpulse])]

theorem card_cycle :
    (s.cycle i).card = s.card.clock s.sd.controller (s.cycle i).sd.controller := rfl

theorem buffer_cycle : (s.cycle i).sd.buffer =
    s.sd.buffer.cycle (s.wired i) s.sd.controller.ready
      (!s.sd.readnextOld && s.sd.controller.byteAvailable)
      (!s.sd.writenextOld && s.sd.controller.readyForNextByte) s.sd.controller.dout := rfl

theorem InStep.first (h : s.InStep) (hrst : i.rst = false) (hwe : i.writesBlock = false)
    (hbusy : s.ready = false)
    (hstill : s.sd.buffer.control .idle s.sd.controller.ready = s.sd.buffer) :
    (s.cycle i).sd.controller = s.core.step.controller ∧ (s.cycle i).card = s.core.step.card ∧
      (s.cycle i).sd.buffer = s.sd.buffer ∧ (s.cycle i).sd.clkPulseSlow = false := by
  have hcontroller := controller_pulse hrst h.pulse
  refine ⟨hcontroller, by rw [card_cycle, hcontroller]; rfl, ?_, ?_⟩
  · rw [buffer_cycle, h.readnext, h.writenext, Bool.not_and_self, Bool.not_and_self]
    exact SdBuffer.cycle_still hrst hbusy hstill hwe
  · rw [pulse_cycle hrst, h.pulse]
    rfl

theorem InStep.step {j : SdcardIn} {r : SdCore} (h : s.InStep) (hmove : s.core.Moves r)
    (hi : i.rst = false) (hj : j.rst = false) (hwe : i.writesBlock = false)
    (hwe' : j.writesBlock = false) :
    ((s.cycle i).cycle j).InStep ∧ ((s.cycle i).cycle j).core = r := by
  obtain ⟨hbusy, hstill, rfl, hworks⟩ := hmove
  obtain ⟨hcontroller, hcard, hbuffer, hpulse⟩ := h.first hi hwe hbusy hstill
  have hcontroller' : ((s.cycle i).cycle j).sd.controller = s.core.step.controller := by
    rw [controller_still hj hpulse, hcontroller]
  have hcard' : ((s.cycle i).cycle j).card = s.core.step.card := by
    rw [card_cycle, hcontroller', hcontroller, hcard, SpiCard.clock_self]
  have hbuffer' : ((s.cycle i).cycle j).sd.buffer = s.core.step.buffer := by
    rw [buffer_cycle, hcontroller, hbuffer]
    refine SdBuffer.cycle_busy hj ?_ hwe'
    rw [SdBuffer.readyReal, SdController.ready_of_ne hworks]
    rfl
  refine ⟨⟨?_, ?_, ?_⟩, ?_⟩
  · rw [pulse_cycle hj, hpulse]
    rfl
  · rw [hcontroller', ← hcontroller]
    rfl
  · rw [hcontroller', ← hcontroller]
    rfl
  · rw [core, hcontroller', hbuffer', hcard']

theorem ready_of_works (hworks : s.sd.controller.state ≠ .IDLE) : s.ready = false := by
  unfold ready Sdcard.sdReadyReal SdBuffer.readyReal
  rw [SdController.ready_of_ne hworks]
  rfl

/-- A transfer of the core is a run of clocks, and the unit is not ready in any of them. -/
theorem InStep.run {r : SdCore} (h : s.InStep) (hquiet : Quiet ins s)
    (hmoves : ReflTransGen SdCore.Moves s.core r) :
    ∃ n, (trace cycle ins s n).InStep ∧ (trace cycle ins s n).core = r ∧
      ∀ k < n, (trace cycle ins s k).ready = false := by
  induction hmoves with
  | refl => exact ⟨0, h, rfl, fun k hk => absurd hk (Nat.not_lt_zero k)⟩
  | tail _ hmove ih =>
      obtain ⟨n, hstep, hcore, hbusy⟩ := ih
      rw [← hcore] at hmove
      have hready : (trace cycle ins s n).ready = false := hmove.busy
      have hwe := hquiet.busy n hready
      obtain ⟨hcontroller, -, -, -⟩ := hstep.first (hquiet.rst n) hwe hready hmove.still
      have hready' : (trace cycle ins s (n + 1)).ready = false := by
        refine ready_of_works ?_
        rw [trace_succ, hcontroller, hmove.step]
        exact hmove.works
      obtain ⟨hstep', hcore'⟩ := hstep.step hmove (hquiet.rst n) (hquiet.rst (n + 1)) hwe
        (hquiet.busy (n + 1) hready')
      refine ⟨n + 2, hstep', hcore', fun k hk => ?_⟩
      rcases Nat.lt_trichotomy k n with hlt | heq | hgt
      · exact hbusy k hlt
      · rw [heq]
        exact hready
      · rw [show k = n + 1 by omega]
        exact hready'

end SdSystem

/-! ## Bits -/

namespace SdCore

variable {c c₁ c₂ : SdController} {u : SdBuffer} {k : SpiCard} {i : SdControllerIn}

/-- In a transfer the commands have been taken and the card is selected. -/
structure Works (c : SdController) (u : SdBuffer) : Prop where
  state : c.state ≠ .IDLE
  cs : c.cs = false
  sdRd : u.sdRd = false
  sdWr : u.sdWr = false

theorem Works.moves (h : Works c u) (hslow : c.slow (controllerIn ⟨c, u, k⟩) = c₁)
    (hstate : c₁.state ≠ .IDLE) :
    Moves ⟨c, u, k⟩ ⟨c₁, u.react c c₁, k.clock c c₁⟩ where
  busy := by rw [SdBuffer.readyReal, SdController.ready_of_ne h.state]; rfl
  still := by
    unfold SdBuffer.control
    simp [SdBuffer.readyReal, SdController.ready_of_ne h.state, h.sdRd, h.sdWr]
  step := by rw [step, hslow]
  works := hstate

def Calm (before after : SdController) : Prop :=
  (!before.byteAvailable && after.byteAvailable) = false ∧
    (!before.readyForNextByte && after.readyForNextByte) = false

theorem Works.react (h : Works c u) (hstate : c₁.state ≠ .IDLE) (hcalm : Calm c c₁) :
    u.react c c₁ = u := by
  unfold SdBuffer.react SdBuffer.cycle SdBuffer.control
  rw [hcalm.1, hcalm.2]
  simp [SdBuffer.readyReal, SdController.ready_of_ne hstate, h.sdRd, h.sdWr]

theorem Works.rise (h : Works c u) (hsclk : c.sclkSig = false)
    (hslow : c.slow (controllerIn ⟨c, u, k⟩) = c₁) (hup : c₁.sclkSig = true)
    (hstate : c₁.state ≠ .IDLE) (hcalm : Calm c c₁) :
    Moves ⟨c, u, k⟩ ⟨c₁, u, ⟨k.out, k.captured ++ [c.mosi]⟩⟩ := by
  have hmove := h.moves hslow hstate
  rw [h.react hstate hcalm] at hmove
  simpa [SpiCard.clock, SdController.sclk, h.cs, hsclk, hup] using hmove

theorem Works.fall {a : SdController} (h : Works c u) (hsclk : c.sclkSig = true)
    (hslow : c.slow (controllerIn ⟨c, u, k⟩) = a) (hdown : a.sclkSig = false)
    (hstate : a.state ≠ .IDLE) (hcalm : Calm c a) :
    Moves ⟨c, u, k⟩ ⟨a, u, ⟨k.out.tail, k.captured⟩⟩ := by
  have hmove := h.moves hslow hstate
  rw [h.react hstate hcalm] at hmove
  simpa [SpiCard.clock, SdController.sclk, h.cs, hsclk, hdown] using hmove

theorem Works.stay (h : Works c u) (hslow : c.slow (controllerIn ⟨c, u, k⟩) = c₁)
    (hsclk : c₁.sclkSig = c.sclkSig) (hstate : c₁.state ≠ .IDLE) :
    Moves ⟨c, u, k⟩ ⟨c₁, u.react c c₁, k⟩ := by
  have hmove := h.moves hslow hstate
  cases hs : c.sclkSig <;> simpa [SpiCard.clock, SdController.sclk, hsclk, hs] using hmove

theorem Works.stay_calm (h : Works c u) (hslow : c.slow (controllerIn ⟨c, u, k⟩) = c₁)
    (hsclk : c₁.sclkSig = c.sclkSig) (hstate : c₁.state ≠ .IDLE) (hcalm : Calm c c₁) :
    Moves ⟨c, u, k⟩ ⟨c₁, u, k⟩ := by
  have hstay := h.stay hslow hsclk hstate
  rwa [h.react hstate hcalm] at hstay

theorem Works.bit (h : Works c u) (hsclk : c.sclkSig = false)
    (hup : c.slow (controllerIn ⟨c, u, k⟩) = c₁) (hdown : c₁.slow (controllerIn ⟨c, u, k⟩) = c₂)
    (hsclk₁ : c₁.sclkSig = true) (hcs₁ : c₁.cs = false) (hstate₁ : c₁.state ≠ .IDLE)
    (hcalm₁ : Calm c c₁) (hsclk₂ : c₂.sclkSig = false) (hstate₂ : c₂.state ≠ .IDLE)
    (hcalm₂ : Calm c₁ c₂) :
    ReflTransGen Moves ⟨c, u, k⟩ ⟨c₂, u, ⟨k.out.tail, k.captured ++ [c.mosi]⟩⟩ := by
  have hrise := h.rise hsclk hup hsclk₁ hstate₁ hcalm₁
  have hworks : Works c₁ u := ⟨hstate₁, hcs₁, h.sdRd, h.sdWr⟩
  exact (ReflTransGen.single hrise).tail (hworks.fall hsclk₁ hdown hsclk₂ hstate₂ hcalm₂)

private theorem mosi_cmd (hmode : c.cmdMode = true) : c.mosi = c.cmdOut.getMsbD 0 := by
  rw [SdController.mosi, if_pos hmode, BitVec.getMsbD_eq_getLsbD]
  rfl

theorem mosi_data (hmode : c.cmdMode = false) : c.mosi = c.dataSig.getMsbD 0 := by
  rw [SdController.mosi, if_neg (by rw [hmode]; decide), BitVec.getMsbD_eq_getLsbD]
  rfl

theorem counter_pred (n : Nat) : BitVec.ofNat 10 (n + 1) - 1#10 = BitVec.ofNat 10 n := by
  rw [BitVec.ofNat_add]
  exact BitVec.add_sub_cancel _ _

private theorem counter_ne {n : Nat} (hn : n + 1 < 1024) : BitVec.ofNat 10 (n + 1) ≠ 0#10 := by
  rw [ne_eq, ← BitVec.toNat_inj, BitVec.toNat_ofNat, Nat.mod_eq_of_lt hn]
  exact Nat.succ_ne_zero n

private theorem up_eq (hsclk : c.sclkSig = false)
    (hslow : c.slow i = SdController.toggle (if c.sclkSig then c₁ else c)) :
    c.slow i = { c with sclkSig := true } := by
  rw [hslow, hsclk]
  simp [SdController.toggle, hsclk]

private theorem toggle_up (hsclk : c.sclkSig = false) :
    SdController.toggle { c with sclkSig := true } = c := by
  change { c with sclkSig := !true } = c
  rw [show (!true) = c.sclkSig from hsclk.symm]

theorem calm_of_eq (hbyte : c₁.byteAvailable = c.byteAvailable)
    (hnext : c₁.readyForNextByte = c.readyForNextByte) : Calm c c₁ := by
  rw [Calm, hbyte, hnext, Bool.not_and_self, Bool.not_and_self]
  exact ⟨rfl, rfl⟩

/-! ### A register goes out -/

/--
`F v n` is the controller with the register at `v` and `n` bits after the next one, and
`done v` is how it goes on after the last.
-/
structure ShiftsOut {w : Nat} (F : BitVec w → Nat → SdController) (done : BitVec w → SdController) :
    Prop where
  up : ∀ v n i, (F v n).slow i = { F v n with sclkSig := true }
  next : ∀ v n i, n + 1 < 1024 →
    SdController.slow i { F v (n + 1) with sclkSig := true } = F (v.shiftConcat true) n
  last : ∀ v i, SdController.slow i { F v 0 with sclkSig := true } = done v
  mosi : ∀ v n, (F v n).mosi = v.getMsbD 0
  sclk : ∀ v n, (F v n).sclkSig = false
  works : ∀ v n, Works (F v n) u
  calm : ∀ v n, Calm (F v (n + 1)) (F (v.shiftConcat true) n)
  doneSclk : ∀ v, (done v).sclkSig = false
  doneState : ∀ v, (done v).state ≠ .IDLE
  doneCalm : ∀ v, Calm (F v 0) (done v)

theorem ShiftsOut.run {w n : Nat} {F : BitVec w → Nat → SdController}
    {done : BitVec w → SdController} (h : ShiftsOut (u := u) F done) (v : BitVec w) (hn : n < 1024)
      :
    ReflTransGen Moves ⟨F v n, u, k⟩
      ⟨done (shifted v n), u, ⟨k.out.drop (n + 1), k.captured ++ shiftedOut v (n + 1)⟩⟩ := by
  induction n generalizing v k with
  | zero =>
      have hbit := (h.works v 0).bit (h.sclk v 0) (h.up v 0 _)
        (h.last v (controllerIn ⟨F v 0, u, k⟩)) rfl (h.works v 0).cs (h.works v 0).state
        (calm_of_eq rfl rfl) (h.doneSclk v) (h.doneState v) (h.doneCalm v)
      rw [h.mosi, ← List.drop_one] at hbit
      exact hbit
  | succ n ih =>
      have hbit := (h.works v (n + 1)).bit (h.sclk v (n + 1)) (h.up v (n + 1) _)
        (h.next v n (controllerIn ⟨F v (n + 1), u, k⟩) hn) rfl (h.works v (n + 1)).cs
        (h.works v (n + 1)).state (calm_of_eq rfl rfl) (h.sclk _ n) (h.works _ n).state (h.calm v n)
      have hrest := ih (v.shiftConcat true) (by omega)
        (k := ⟨k.out.tail, k.captured ++ [v.getMsbD 0]⟩)
      rw [h.mosi] at hbit
      rw [List.drop_tail, List.append_assoc] at hrest
      exact hbit.trans hrest

private theorem slow_SEND_CMD (h : c.state = .SEND_CMD) :
    c.slow i = SdController.toggle
      (if c.sclkSig then
        if c.bitCounter = 0 then { c with state := .RECEIVE_BYTE_WAIT }
        else { c with bitCounter := c.bitCounter - 1, cmdOut := c.cmdOut.shiftConcat true }
      else c) := by
  simp only [SdController.slow, h]

private theorem Works.sendCommand {n : Nat} (h : Works c u) (hsclk : c.sclkSig = false)
    (hstate : c.state = .SEND_CMD) (hmode : c.cmdMode = true)
    (hcount : c.bitCounter = BitVec.ofNat 10 n) (hn : n < 1024) :
    ReflTransGen Moves ⟨c, u, k⟩
      ⟨{ c with
          state := .RECEIVE_BYTE_WAIT
          cmdOut := shifted c.cmdOut n
          bitCounter := 0 }, u,
        ⟨k.out.drop (n + 1), k.captured ++ shiftedOut c.cmdOut (n + 1)⟩⟩ := by
  have hrun : ShiftsOut (u := u)
      (fun v n => { c with cmdOut := v, bitCounter := BitVec.ofNat 10 n })
      (fun v => { c with state := .RECEIVE_BYTE_WAIT, cmdOut := v, bitCounter := 0 }) := {
    up := fun v n i => up_eq hsclk (slow_SEND_CMD hstate)
    next := fun v n i hn => by
      rw [slow_SEND_CMD (by exact hstate)]
      simp [SdController.toggle, hsclk, counter_ne hn, counter_pred]
    last := fun v i => by
      rw [slow_SEND_CMD (by exact hstate)]
      simp [SdController.toggle, hsclk]
    mosi := fun v n => mosi_cmd hmode
    sclk := fun _ _ => hsclk
    works := fun _ _ => ⟨h.state, h.cs, h.sdRd, h.sdWr⟩
    calm := fun _ _ => calm_of_eq rfl rfl
    doneSclk := fun _ => hsclk
    doneState := fun _ => by simp
    doneCalm := fun _ => calm_of_eq rfl rfl }
  have hcmd := hrun.run (k := k) c.cmdOut hn
  rwa [← hcount] at hcmd

private theorem slow_WRITE_BLOCK_BYTE (h : c.state = .WRITE_BLOCK_BYTE) :
    c.slow i = SdController.toggle
      (if c.sclkSig then
        if c.bitCounter = 0 then { c with state := .WRITE_BLOCK_DATA, readyForNextByte := false }
        else { c with dataSig := c.dataSig.shiftConcat true, bitCounter := c.bitCounter - 1 }
      else c) := by
  simp only [SdController.slow, h]

theorem Works.sendByte {n : Nat} (h : Works c u) (hsclk : c.sclkSig = false)
    (hstate : c.state = .WRITE_BLOCK_BYTE) (hmode : c.cmdMode = false)
    (hcount : c.bitCounter = BitVec.ofNat 10 n) (hn : n < 1024) :
    ReflTransGen Moves ⟨c, u, k⟩
      ⟨{ c with
          state := .WRITE_BLOCK_DATA
          dataSig := shifted c.dataSig n
          bitCounter := 0
          readyForNextByte := false }, u,
        ⟨k.out.drop (n + 1), k.captured ++ shiftedOut c.dataSig (n + 1)⟩⟩ := by
  have hrun : ShiftsOut (u := u)
      (fun v n => { c with dataSig := v, bitCounter := BitVec.ofNat 10 n })
      (fun v => { c with
        state := .WRITE_BLOCK_DATA, dataSig := v, bitCounter := 0, readyForNextByte := false }) := {
    up := fun v n i => up_eq hsclk (slow_WRITE_BLOCK_BYTE hstate)
    next := fun v n i hn => by
      rw [slow_WRITE_BLOCK_BYTE (by exact hstate)]
      simp [SdController.toggle, hsclk, counter_ne hn, counter_pred]
    last := fun v i => by
      rw [slow_WRITE_BLOCK_BYTE (by exact hstate)]
      simp [SdController.toggle, hsclk]
    mosi := fun v n => mosi_data hmode
    sclk := fun _ _ => hsclk
    works := fun _ _ => ⟨h.state, h.cs, h.sdRd, h.sdWr⟩
    calm := fun _ _ => calm_of_eq rfl rfl
    doneSclk := fun _ => hsclk
    doneState := fun _ => by simp
    doneCalm := fun _ => ⟨by simp, by simp⟩ }
  have hbyte := hrun.run (k := k) c.dataSig hn
  rwa [← hcount] at hbyte

/-! ### Waits -/

theorem Works.wait {n : Nat} (stop : Bool) {rest : List Bool} {f : SdController → SdController}
    (h : Works c u) (hsclk : c.sclkSig = false)
    (hslow : ∀ c' i, c'.state = c.state → c'.slow i =
      SdController.toggle (if c'.sclkSig && (i.miso == stop) then f c' else c'))
    (hout : k.out = List.replicate n (!stop) ++ stop :: rest) :
    ReflTransGen Moves ⟨c, u, k⟩
      ⟨{ c with sclkSig := true }, u,
        ⟨stop :: rest, k.captured ++ List.replicate (n + 1) c.mosi⟩⟩ := by
  have hup : ∀ i, c.slow i = { c with sclkSig := true } := fun i => by
    rw [hslow c i rfl, hsclk]
    simp [SdController.toggle, hsclk]
  induction n generalizing k with
  | zero =>
      have hrise := h.rise hsclk (hup (controllerIn ⟨c, u, k⟩)) rfl h.state (calm_of_eq rfl rfl)
      rw [hout] at hrise
      exact ReflTransGen.single hrise
  | succ n ih =>
      have hmiso : (controllerIn ⟨c, u, k⟩).miso = !stop := by
        change k.out.headD true = _
        rw [hout]
        rfl
      have hdown : SdController.slow (controllerIn ⟨c, u, k⟩) { c with sclkSig := true } = c := by
        rw [hslow { c with sclkSig := true } _ rfl, hmiso, if_neg (by cases stop <;> simp)]
        exact toggle_up hsclk
      have hbit := h.bit hsclk (hup _) hdown rfl h.cs h.state (calm_of_eq rfl rfl) hsclk h.state
        (calm_of_eq rfl rfl)
      have hrest := ih (k := ⟨k.out.tail, k.captured ++ [c.mosi]⟩) (by rw [hout]; rfl)
      rw [List.append_assoc, List.singleton_append, ← List.replicate_succ] at hrest
      exact hbit.trans hrest

/-! ### Bits come in -/

theorem slow_RECEIVE_BYTE (h : c.state = .RECEIVE_BYTE) :
    c.slow i = SdController.toggle
      (if c.sclkSig then
        { c with
          byteAvailable := false
          recvData := c.recvData.shiftConcat i.miso
          bitCounter := if c.bitCounter = 0 then c.bitCounter else c.bitCounter - 1
          state := if c.bitCounter = 0 then c.returnState else .RECEIVE_BYTE }
      else { c with byteAvailable := false }) := by
  simp only [SdController.slow, h]

theorem Works.receiveUp {n : Nat} {bs rest : List Bool} {b : Bool} (h : Works c u)
    (hsclk : c.sclkSig = false) (hstate : c.state = .RECEIVE_BYTE)
    (hcount : c.bitCounter = BitVec.ofNat 10 n) (hn : n < 1024) (hlen : bs.length = n)
    (hout : k.out = bs ++ b :: rest) :
    ReflTransGen Moves ⟨c, u, k⟩
      ⟨{ c with
          sclkSig := true
          byteAvailable := false
          recvData := bs.foldl BitVec.shiftConcat c.recvData
          bitCounter := 0 }, u,
        ⟨b :: rest, k.captured ++ List.replicate (n + 1) c.mosi⟩⟩ := by
  have hup : ∀ i, c.slow i = { c with sclkSig := true, byteAvailable := false } := fun i => by
    rw [slow_RECEIVE_BYTE hstate]
    simp [SdController.toggle, hsclk]
  have hcalm : Calm c { c with sclkSig := true, byteAvailable := false } := ⟨by simp, by simp⟩
  induction n generalizing c k bs with
  | zero =>
      have hrise := h.rise hsclk (hup (controllerIn ⟨c, u, k⟩)) rfl h.state hcalm
      obtain rfl := List.length_eq_zero_iff.mp hlen
      have hzero : c.bitCounter = 0 := hcount
      rw [hout] at hrise
      rw [← hzero]
      exact ReflTransGen.single hrise
  | succ n ih =>
      obtain ⟨b', bs, rfl⟩ := List.exists_cons_of_length_eq_add_one hlen
      have hmiso : (controllerIn ⟨c, u, k⟩).miso = b' := by
        change k.out.headD true = _
        rw [hout]
        rfl
      have hdown : SdController.slow (controllerIn ⟨c, u, k⟩)
          { c with sclkSig := true, byteAvailable := false } =
          { c with
            byteAvailable := false
            recvData := c.recvData.shiftConcat b'
            bitCounter := BitVec.ofNat 10 n } := by
        rw [slow_RECEIVE_BYTE (by exact hstate), hmiso]
        simp [SdController.toggle, hsclk, hcount, hstate, counter_ne hn, counter_pred]
      have hbit := h.bit hsclk (hup _) hdown rfl h.cs h.state hcalm hsclk h.state
        (calm_of_eq rfl rfl)
      have hrest := ih (c := { c with
          byteAvailable := false
          recvData := c.recvData.shiftConcat b'
          bitCounter := BitVec.ofNat 10 n }) (k := ⟨k.out.tail, k.captured ++ [c.mosi]⟩)
        ⟨h.state, h.cs, h.sdRd, h.sdWr⟩ hsclk hstate rfl (by omega) (by simpa using hlen)
        (by rw [hout]; rfl)
        (fun i => by
          rw [slow_RECEIVE_BYTE (by exact hstate)]
          simp [SdController.toggle, hsclk]) (calm_of_eq rfl rfl)
      rw [List.append_assoc] at hrest
      exact hbit.trans hrest

theorem Works.receive {n : Nat} {bs rest : List Bool} (h : Works c u)
    (hsclk : c.sclkSig = false) (hstate : c.state = .RECEIVE_BYTE)
    (hcount : c.bitCounter = BitVec.ofNat 10 n) (hn : n < 1024) (hlen : bs.length = n + 1)
    (hout : k.out = bs ++ rest) (hreturn : c.returnState ≠ .IDLE) :
    ReflTransGen Moves ⟨c, u, k⟩
      ⟨{ c with
          state := c.returnState
          byteAvailable := false
          recvData := bs.foldl BitVec.shiftConcat c.recvData
          bitCounter := 0 }, u,
        ⟨rest, k.captured ++ List.replicate (n + 1) c.mosi⟩⟩ := by
  obtain rfl | ⟨bs, b, rfl⟩ := bs.eq_nil_or_concat'
  · simp at hlen
  · have hup := h.receiveUp hsclk hstate hcount hn (by simpa using hlen)
      (by rw [hout, List.append_assoc]; rfl)
    have hworks : Works { c with
        sclkSig := true
        byteAvailable := false
        recvData := bs.foldl BitVec.shiftConcat c.recvData
        bitCounter := 0 } u := ⟨h.state, h.cs, h.sdRd, h.sdWr⟩
    have hfall := hworks.fall (a := { c with
        state := c.returnState
        byteAvailable := false
        recvData := (bs ++ [b]).foldl BitVec.shiftConcat c.recvData
        bitCounter := 0 })
      (k := ⟨b :: rest, k.captured ++ List.replicate (n + 1) c.mosi⟩) rfl
      (by
        rw [slow_RECEIVE_BYTE (by exact hstate)]
        simp [SdController.toggle, hsclk, controllerIn, SpiCard.miso]) hsclk hreturn
      (calm_of_eq rfl rfl)
    exact hup.tail hfall

/-! ### The answer to a command -/

private theorem slow_RECEIVE_BYTE_WAIT (h : c.state = .RECEIVE_BYTE_WAIT) :
    c.slow i = SdController.toggle
      (if c.sclkSig && (i.miso == false) then
        { c with
          recvData := 0
          bitCounter := if c.responseType = 7 then 38 else 6
          state := .RECEIVE_BYTE }
      else c) := by
  simp only [SdController.slow, h]
  cases i.miso <;> rfl

theorem Works.answer {n : Nat} {bs rest : List Bool} (h : Works c u) (hsclk : c.sclkSig = false)
    (hstate : c.state = .RECEIVE_BYTE_WAIT) (hresponse : c.responseType = 1)
    (hreturn : c.returnState ≠ .IDLE) (hlen : bs.length = 7)
    (hout : k.out = List.replicate n true ++ false :: bs ++ rest) :
    ReflTransGen Moves ⟨c, u, k⟩
      ⟨{ c with
          state := c.returnState
          byteAvailable := false
          recvData := bs.foldl BitVec.shiftConcat 0
          bitCounter := 0 }, u,
        ⟨rest, k.captured ++ List.replicate (n + 8) c.mosi⟩⟩ := by
  have hwait := h.wait false
    (f := fun c => { c with
      recvData := 0, bitCounter := if c.responseType = 7 then 38 else 6, state := .RECEIVE_BYTE })
    hsclk (fun c' i hc' => slow_RECEIVE_BYTE_WAIT (hc'.trans hstate))
    (by rw [hout, List.append_assoc]; rfl)
  have hworks : Works { c with sclkSig := true } u := ⟨h.state, h.cs, h.sdRd, h.sdWr⟩
  have hfall := hworks.fall (k := ⟨false :: (bs ++ rest), k.captured ++ List.replicate (n + 1)
      c.mosi⟩)
    (a := { c with recvData := 0, bitCounter := 6, state := .RECEIVE_BYTE }) rfl
    (by
      rw [slow_RECEIVE_BYTE_WAIT (by exact hstate)]
      simp [SdController.toggle, hsclk, controllerIn, SpiCard.miso, hresponse]) hsclk (by simp)
    (calm_of_eq rfl rfl)
  have hreceive := Works.receive (n := 6) (u := u)
    (c := { c with recvData := 0, bitCounter := 6, state := .RECEIVE_BYTE })
    (k := ⟨bs ++ rest, k.captured ++ List.replicate (n + 1) c.mosi⟩)
    ⟨by simp, h.cs, h.sdRd, h.sdWr⟩ hsclk rfl rfl (by decide) hlen rfl hreturn
  have hcaptured : k.captured ++ List.replicate (n + 8) c.mosi =
      k.captured ++ List.replicate (n + 1) c.mosi ++ List.replicate 7 c.mosi := by
    rw [List.append_assoc, List.replicate_append_replicate]
  rw [hcaptured]
  exact (hwait.tail hfall).trans hreceive

/-- How the controller goes on when the answer to its command is in. -/
structure Answered (c c' : SdController) : Prop where
  state : c'.state = c.returnState
  sclk : c'.sclkSig = false
  cs : c'.cs = false
  cmdMode : c'.cmdMode = true
  byteAvailable : c'.byteAvailable = false
  readyForNextByte : c'.readyForNextByte = c.readyForNextByte
  responseType : c'.responseType = 1

/-- A command goes out, and its answer comes in while ones go out. -/
theorem Works.command {n : Nat} {skipped answer rest : List Bool} (h : Works c u)
    (hsclk : c.sclkSig = false) (hstate : c.state = .SEND_CMD) (hmode : c.cmdMode = true)
    (hcount : c.bitCounter = 55) (hresponse : c.responseType = 1) (hreturn : c.returnState ≠ .IDLE)
    (hlast : c.cmdOut.getMsbD 55 = true) (hskipped : skipped.length = 56)
    (hanswer : answer.length = 7)
    (hout : k.out = skipped ++ (List.replicate n true ++ false :: answer ++ rest)) :
    ∃ c', Answered c c' ∧ ReflTransGen Moves ⟨c, u, k⟩
      ⟨c', u, ⟨rest, k.captured ++ bits c.cmdOut ++ List.replicate (n + 8) true⟩⟩ := by
  have hsend := h.sendCommand (k := k) (n := 55) hsclk hstate hmode hcount (by decide)
  have hdrop : k.out.drop (55 + 1) = List.replicate n true ++ false :: answer ++ rest := by
    rw [hout]
    exact List.drop_left' hskipped
  rw [hdrop, show 55 + 1 = 56 from rfl, shiftedOut_width] at hsend
  have hanswers := Works.answer (n := n) (u := u)
    (c := { c with state := .RECEIVE_BYTE_WAIT, cmdOut := shifted c.cmdOut 55, bitCounter := 0 })
    (k := ⟨List.replicate n true ++ false :: answer ++ rest, k.captured ++ bits c.cmdOut⟩)
    ⟨by simp, h.cs, h.sdRd, h.sdWr⟩ hsclk rfl hresponse hreturn hanswer rfl
  rw [mosi_cmd (by exact hmode)] at hanswers
  dsimp only at hanswers
  rw [getMsbD_shifted _ (by decide), if_pos (by decide), Nat.zero_add, hlast] at hanswers
  refine ⟨_, ?_, hsend.trans hanswers⟩
  exact ⟨rfl, hsclk, h.cs, hmode, rfl, rfl, hresponse⟩

end SdCore

end PComputer.Rtl
