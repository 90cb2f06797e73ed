import PComputer.Rtl.SectorTransfer

/-!
# A sector is written back as it was read

While the unit is ready its registers rest, and the CPU may write the buffer.  A command
sets `sd_rd` or `sd_wr`; the unit then runs through the steps of a transfer and is ready
again one clock after the last of them.
-/

namespace PComputer.Rtl

open PComputer.Foundation Relation

namespace SdcardIn

variable (i : SdcardIn)

def commands (register : BitVec 16) : Bool := i.we && i.a == register && i.data.getLsbD 0

def startsRead : Bool := i.commands 0x1004

def startsWrite : Bool := i.commands 0x1008

end SdcardIn

/-! ## The registers of the controller -/

namespace SdController

variable {c : SdController} {i : SdControllerIn}

/-- The states that send or receive return to the one they work for. -/
def phase (c : SdController) : SdState :=
  if c.state = .SEND_CMD ∨ c.state = .RECEIVE_BYTE_WAIT ∨ c.state = .RECEIVE_BYTE then
    c.returnState
  else c.state

/-- What holds of the controller in every state after a reset. -/
structure Orderly (c : SdController) : Prop where
  sclk : c.state ∉ [.RST, .INIT, .SEND_CMD, .RECEIVE_BYTE_WAIT, .RECEIVE_BYTE, .READ_BLOCK_WAIT,
    .WRITE_BLOCK_BYTE, .WRITE_BLOCK_WAIT] → c.sclkSig = false
  init : c.state = .INIT → c.sclkSig = c.bitCounter.getLsbD 0
  returns : c.state ∈ [.SEND_CMD, .RECEIVE_BYTE_WAIT, .RECEIVE_BYTE] → c.returnState ∉ [.RST, .INIT,
    .SEND_CMD, .RECEIVE_BYTE_WAIT, .RECEIVE_BYTE, .WRITE_BLOCK_DATA, .WRITE_BLOCK_BYTE]
  cmdMode : c.phase ∉ [.WRITE_BLOCK_DATA, .WRITE_BLOCK_BYTE, .WRITE_BLOCK_WAIT] → c.cmdMode = true
  byteAvailable : c.state ∉ [.RST, .RECEIVE_BYTE] → c.byteAvailable = false
  readyForNextByte :
    c.phase ∉ [.RST, .WRITE_BLOCK_INIT, .WRITE_BLOCK_BYTE] → c.readyForNextByte = false
  cs : c.state ∉ [.RST, .INIT] → c.cs = false

private theorem parity_pred (n : BitVec 10) : (n - 1)[0] = !n[0] := by
  rw [Bool.eq_iff_iff]
  simp [← BitVec.getLsbD_eq_getElem, BitVec.getLsbD, BitVec.toNat_sub, Nat.testBit_zero]
  omega

private theorem Orderly.slow_boot (h : c.Orderly) (hstate : c.state = .RST ∨ c.state = .INIT) :
    (c.slow i).Orderly := by
  obtain ⟨hsclk, hinit, hreturns, hmode, hbyte, hnext, hcs⟩ := h
  rcases c with ⟨state, returnState⟩
  rcases hstate with rfl | rfl <;> simp [SdController.phase] at * <;> constructor <;>
    simp [SdController.slow, SdController.phase] <;> grind [parity_pred]

private theorem Orderly.slow_shift (h : c.Orderly)
    (hstate : c.state = .SEND_CMD ∨ c.state = .RECEIVE_BYTE_WAIT ∨ c.state = .RECEIVE_BYTE) :
    (c.slow i).Orderly := by
  obtain ⟨hsclk, hinit, hreturns, hmode, hbyte, hnext, hcs⟩ := h
  rcases c with ⟨state, returnState⟩
  rcases hstate with rfl | rfl | rfl <;> simp [SdController.phase] at * <;> constructor <;>
    simp [SdController.slow, SdController.phase, toggle] <;> grind

theorem Orderly.slow (h : c.Orderly) : (c.slow i).Orderly := by
  by_cases hboot : c.state = .RST ∨ c.state = .INIT
  · exact h.slow_boot hboot
  by_cases hshift : c.state = .SEND_CMD ∨ c.state = .RECEIVE_BYTE_WAIT ∨ c.state = .RECEIVE_BYTE
  · exact h.slow_shift hshift
  obtain ⟨hsclk, hinit, hreturns, hmode, hbyte, hnext, hcs⟩ := h
  rcases c with ⟨state, returnState⟩
  cases state
  case RST | INIT => simp at hboot
  case SEND_CMD | RECEIVE_BYTE_WAIT | RECEIVE_BYTE => simp at hshift
  all_goals
    simp [SdController.phase] at *
    constructor <;> simp [SdController.slow, SdController.phase, SdController.sendInit, toggle] <;>
      grind

private theorem orderly_of_reset (hreset : i.reset = true) : (c.cycle i).Orderly := by
  rw [SdController.cycle, if_pos hreset]
  constructor <;> simp [SdController.phase]

theorem Orderly.cycle (h : c.Orderly) : (c.cycle i).Orderly := by
  by_cases hreset : i.reset = true
  · exact orderly_of_reset hreset
  · rw [SdController.cycle, if_neg hreset]
    split_ifs
    · exact h.slow
    · exact h

private theorem slow_IDLE (h : c.state = .IDLE) :
    c.slow i = { c with
      state := if i.rd then .READ_BLOCK else if i.wr then .WRITE_BLOCK_CMD else .IDLE } := by
  simp only [SdController.slow, h]

theorem Orderly.settled (h : c.Orderly) (hstate : c.state = .IDLE) : c.Settled := by
  have hphase : c.phase = .IDLE := by
    rw [phase, hstate]
    rfl
  exact {
    sclk := h.sclk (by rw [hstate]; decide)
    cmdMode := h.cmdMode (by rw [hphase]; decide)
    byteAvailable := h.byteAvailable (by rw [hstate]; decide)
    readyForNextByte := h.readyForNextByte (by rw [hphase]; decide)
    cs := h.cs (by rw [hstate]; decide) }

end SdController

namespace SdSystem

variable {s : SdSystem} {i : SdcardIn} {ins : Nat → SdcardIn}

/-- A reset brings the controller in order, and it stays so. -/
theorem orderly_after_reset (hreset : (ins 0).rst = true) (t : Nat) :
    (trace cycle ins s (t + 1)).sd.controller.Orderly := by
  induction t with
  | zero => exact SdController.orderly_of_reset hreset
  | succ t ih => exact ih.cycle

/-! ## The unit between commands -/

structure Waiting (s : SdSystem) : Prop where
  state : s.sd.controller.state = .IDLE
  settled : s.sd.controller.Settled
  sdRd : s.sd.buffer.sdRd = false
  sdWr : s.sd.buffer.sdWr = false

private theorem ready_iff : s.ready = true ↔
    s.sd.controller.state = .IDLE ∧ s.sd.buffer.sdRd = false ∧ s.sd.buffer.sdWr = false := by
  simp [ready, Sdcard.sdReadyReal, SdBuffer.readyReal, SdController.ready, and_assoc]

private theorem waiting_of_ready (h : s.sd.controller.Orderly) (hready : s.ready = true) :
    s.Waiting := by
  obtain ⟨hstate, hrd, hwr⟩ := ready_iff.mp hready
  exact ⟨hstate, h.settled hstate, hrd, hwr⟩

theorem Waiting.ready (h : s.Waiting) : s.ready = true := ready_iff.mpr ⟨h.state, h.sdRd, h.sdWr⟩

/-- Without a command the controller keeps still, and so does the card. -/
theorem Waiting.controller (h : s.Waiting) (hrst : i.rst = false) :
    (s.cycle i).sd.controller = s.sd.controller := by
  cases hpulse : s.sd.clkPulseSlow
  · exact controller_still hrst hpulse
  · rw [controller_pulse hrst hpulse, SdController.slow_IDLE h.state]
    simp only [SdCore.controllerIn, core, h.sdRd, h.sdWr, Bool.false_eq_true, if_false]
    rw [← h.state]

theorem Waiting.card (h : s.Waiting) (hrst : i.rst = false) : (s.cycle i).card = s.card := by
  rw [card_cycle, h.controller hrst, SpiCard.clock_self]

theorem Waiting.buffer (h : s.Waiting) (hrst : i.rst = false) :
    (s.cycle i).sd.buffer =
      { s.sd.buffer with
        sdAddress := if i.we && i.a == 0x1000 then i.data else s.sd.buffer.sdAddress
        sdRd := i.startsRead
        sdWr := i.startsWrite
        reading := false
        writing := false
        block :=
          if i.writesBlock then Function.update s.sd.buffer.block i.index i.d
          else s.sd.buffer.block
        dirty := i.writesBlock || s.sd.buffer.dirty } := by
  have hready : s.sd.buffer.readyReal s.sd.controller.ready = true := h.ready
  have hwrite : i.writesBlock = (s.wired i).writesBlock := rfl
  rw [buffer_cycle, h.settled.byteAvailable, h.settled.readyForNextByte, Bool.and_false,
    Bool.and_false, SdBuffer.cycle, if_neg (by rw [show (s.wired i).rst = false from hrst]; decide),
    Bool.and_false, Bool.and_false, if_neg Bool.false_ne_true, if_neg Bool.false_ne_true,
    SdBuffer.control, if_pos hready, h.sdRd, h.sdWr]
  cases hblock : i.writesBlock <;> rw [← hwrite, hblock] <;>
    simp [SdcardIn.startsRead, SdcardIn.startsWrite, SdcardIn.commands, wired, SdcardIn.data,
      SdcardIn.index] <;> grind

theorem Waiting.rest (h : s.Waiting) (hrst : i.rst = false) (hread : i.startsRead = false)
    (hwrite : i.startsWrite = false) : (s.cycle i).Waiting := by
  have hcontroller := h.controller hrst
  have hbuffer := h.buffer hrst
  refine ⟨?_, ?_, ?_, ?_⟩
  · rw [hcontroller]
    exact h.state
  · rw [hcontroller]
    exact h.settled
  · rw [hbuffer]
    exact hread
  · rw [hbuffer]
    exact hwrite

end SdSystem

namespace SdCore

variable {c : SdController} {u : SdBuffer} {k : SpiCard}

theorem takes (state : SdState) (hset : c.Settled) (hidle : c.state = .IDLE)
    (hcommand : u.sdRd = true ∨ u.sdWr = true) (hworks : state ≠ .IDLE)
    (hstate : state = if u.sdRd then .READ_BLOCK else if u.sdWr then .WRITE_BLOCK_CMD else .IDLE) :
    ∃ c', c'.state = state ∧ c'.Settled ∧ Moves ⟨c, u, k⟩ ⟨c', u.control .idle false, k⟩ := by
  have hslow : c.slow (controllerIn ⟨c, u, k⟩) = { c with state := state } := by
    rw [SdController.slow_IDLE hidle, hstate]
    rfl
  have hready : c.ready = true := beq_iff_eq.mpr hidle
  have hbusy : u.readyReal c.ready = false := by
    rcases hcommand with hset' | hset' <;> simp [SdBuffer.readyReal, hset']
  have hbuffer : u.react c { c with state := state } = u.control .idle false := by
    rw [SdBuffer.react, SdController.ready_of_ne hworks, Bool.not_and_self, Bool.not_and_self]
    simp [SdBuffer.cycle]
  refine ⟨{ c with state := state }, rfl, ⟨hset.sclk, hset.cmdMode, hset.byteAvailable,
    hset.readyForNextByte, hset.cs⟩, hbusy, ?_, ?_, hworks⟩
  · rw [SdBuffer.control, hbusy, hready]
    simp
  · rw [step, hslow, hbuffer, SpiCard.clock, if_neg (by rw [hset.cs]; decide)]
    simp [SdController.sclk]

end SdCore

/-! ## Words that the CPU writes -/

/--
The bytes of the sector after a clock.  The bus is big-endian: the word that the CPU
stores is `byteSwap d`, and its low byte comes first.
-/
def SdcardIn.patch (i : SdcardIn) (sector : Nat → BitVec 8) (n : Nat) : BitVec 8 :=
  if i.writesBlock = true ∧ n / 4 = i.index.toNat then lane (byteSwap i.d) (BitVec.ofNat 2 n)
  else sector n

def patched (ins : Nat → SdcardIn) (sector : Nat → BitVec 8) : Nat → Nat → BitVec 8
  | 0 => sector
  | n + 1 => (ins n).patch (patched ins sector n)

/-- Word `w` of a sector, as the CPU loads it. -/
def littleEndian (sector : Nat → BitVec 8) (w : Nat) : Word :=
  sector (4 * w + 3) ++ sector (4 * w + 2) ++ sector (4 * w + 1) ++ sector (4 * w)

private theorem byteSwap_sectorWord (sector : Nat → BitVec 8) (w : Nat) :
    byteSwap (sectorWord sector w) = littleEndian sector w := by
  obtain ⟨h0, h1, h2, h3⟩ := extract_bytes (sector (4 * w)) (sector (4 * w + 1))
    (sector (4 * w + 2)) (sector (4 * w + 3))
  rw [byteSwap, sectorWord, h0, h1, h2, h3, littleEndian]

private theorem lane_patch (i : SdcardIn) {sector : Nat → BitVec 8} {w j : Nat} (hj : j < 4) :
    i.patch sector (4 * w + j) =
      if i.writesBlock = true ∧ w = i.index.toNat then lane (byteSwap i.d) (BitVec.ofNat 2 j)
      else sector (4 * w + j) := by
  have hlane : BitVec.ofNat 2 (4 * w + j) = BitVec.ofNat 2 j := by
    rw [← BitVec.toNat_inj, BitVec.toNat_ofNat, BitVec.toNat_ofNat]
    omega
  rw [SdcardIn.patch, hlane, show (4 * w + j) / 4 = w by omega]

private theorem sectorWord_patch (i : SdcardIn) (sector : Nat → BitVec 8) (w : Nat) :
    sectorWord (i.patch sector) w =
      if i.writesBlock = true ∧ w = i.index.toNat then i.d else sectorWord sector w := by
  have hlow : i.patch sector (4 * w) = _ := lane_patch i (j := 0) (by decide)
  rw [sectorWord, hlow, lane_patch i (by decide), lane_patch i (by decide),
    lane_patch i (by decide)]
  split_ifs with hword
  · exact byteSwap_byteSwap i.d
  · rfl

def SdBuffer.Holds (u : SdBuffer) (sector : Nat → BitVec 8) : Prop :=
  ∀ w < 128, u.block (BitVec.ofNat 7 w) = sectorWord sector w

theorem SdBuffer.Filled.holds {u : SdBuffer} {sector : Nat → BitVec 8} (h : u.Filled sector 512) :
    u.Holds sector := h.block

theorem SdBuffer.Holds.bytes {u : SdBuffer} {sector : Nat → BitVec 8} (h : u.Holds sector) :
    (List.range 512).map (byteAt u.block) = (List.range 512).map sector := by
  refine List.map_congr_left fun n hn => byteAt_eq (h _ ?_)
  have hlt := List.mem_range.mp hn
  omega

theorem SdBuffer.Holds.load {sd : Sdcard} {sector : Nat → BitVec 8} {i : SdcardIn}
    (h : sd.buffer.Holds sector) (hblock : i.inBlock = true) :
    byteSwap (sd.spo i) = littleEndian sector i.index.toNat := by
  have hword := h i.index.toNat i.index.isLt
  rw [BitVec.ofNat_toNat, BitVec.setWidth_eq] at hword
  rw [Sdcard.spo, if_pos hblock, hword, byteSwap_sectorWord]

namespace SdSystem

variable {s : SdSystem} {i : SdcardIn} {ins : Nat → SdcardIn} {sector : Nat → BitVec 8}

theorem Waiting.patch (h : s.Waiting) (hrst : i.rst = false) (hholds : s.sd.buffer.Holds sector) :
    (s.cycle i).sd.buffer.Holds (i.patch sector) := by
  intro w hw
  rw [h.buffer hrst, sectorWord_patch]
  dsimp only
  have hindex : BitVec.ofNat 7 w = i.index ↔ w = i.index.toNat := by
    rw [← BitVec.toNat_inj, BitVec.toNat_ofNat, Nat.mod_eq_of_lt hw]
  by_cases hwrite : i.writesBlock = true
  · rw [if_pos hwrite, Function.update_apply]
    simp only [hindex, hwrite, true_and, hholds w hw]
  · rw [if_neg hwrite, if_neg fun hand => hwrite hand.1]
    exact hholds w hw

/-- Between commands the sector takes the words of the CPU, and the card sees nothing. -/
theorem Waiting.run {n : Nat} (h : s.Waiting) (hrst : ∀ t, (ins t).rst = false)
    (hread : ∀ t < n, (ins t).startsRead = false) (hwrite : ∀ t < n, (ins t).startsWrite = false)
    (hholds : s.sd.buffer.Holds sector) :
    (trace cycle ins s n).Waiting ∧ (trace cycle ins s n).card = s.card ∧
      (trace cycle ins s n).sd.buffer.Holds (patched ins sector n) := by
  induction n with
  | zero => exact ⟨h, rfl, hholds⟩
  | succ n ih =>
      obtain ⟨hwaiting, hcard, hpatched⟩ :=
        ih (fun t ht => hread t (by omega)) (fun t ht => hwrite t (by omega))
      exact ⟨hwaiting.rest (hrst n) (hread n (by omega)) (hwrite n (by omega)),
        (hwaiting.card (hrst n)).trans hcard, hwaiting.patch (hrst n) hpatched⟩

/-! ## A transfer -/

structure Commanded (s : SdSystem) : Prop where
  state : s.sd.controller.state = .IDLE
  readnext : s.sd.readnextOld = s.sd.controller.byteAvailable
  writenext : s.sd.writenextOld = s.sd.controller.readyForNextByte
  command : s.sd.buffer.sdRd = true ∨ s.sd.buffer.sdWr = true

theorem Commanded.busy (h : s.Commanded) : s.ready = false := by
  rw [← Bool.not_eq_true, ready_iff]
  rintro ⟨-, hrd, hwr⟩
  rcases h.command with hset | hset <;> simp_all

theorem Commanded.still (h : s.Commanded) :
    s.sd.buffer.control .idle s.sd.controller.ready = s.sd.buffer := by
  have hidle : s.sd.controller.ready = true := beq_iff_eq.mpr h.state
  have hbusy : s.sd.buffer.readyReal s.sd.controller.ready = false := h.busy
  rw [SdBuffer.control, hbusy, hidle]
  simp

private theorem Commanded.align (h : s.Commanded) (hquiet : Quiet ins s) :
    ∃ n, (trace cycle ins s n).InStep ∧ (trace cycle ins s n).core = s.core ∧
      ∀ k < n, (trace cycle ins s k).ready = false := by
  cases hpulse : s.sd.clkPulseSlow
  case true => exact ⟨0, ⟨hpulse, h.readnext, h.writenext⟩, rfl, fun k hk => absurd hk
    k.not_lt_zero⟩
  case false =>
    have hrst := hquiet.rst 0
    have hcontroller := controller_still hrst hpulse
    have hcard : (s.cycle (ins 0)).card = s.card := by
      rw [card_cycle, hcontroller, SpiCard.clock_self]
    have hbuffer : (s.cycle (ins 0)).sd.buffer = s.sd.buffer := by
      rw [buffer_cycle, h.readnext, h.writenext, Bool.not_and_self, Bool.not_and_self]
      exact SdBuffer.cycle_still hrst h.busy h.still (hquiet.busy 0 h.busy)
    refine ⟨1, ⟨?_, ?_, ?_⟩, ?_, ?_⟩
    · rw [trace_succ, trace_zero, pulse_cycle hrst, hpulse]
      rfl
    · rw [trace_succ, trace_zero, hcontroller]
      rfl
    · rw [trace_succ, trace_zero, hcontroller]
      rfl
    · change (s.cycle (ins 0)).core = s.core
      rw [core, hcontroller, hbuffer, hcard, core]
    · intro k hk
      rw [Nat.lt_one_iff.mp hk]
      exact h.busy

private theorem InStep.close (h : s.InStep) (hclosing : SdCore.Closing s.core)
    (hrst : i.rst = false)
    (hwe : i.writesBlock = false) :
    (s.cycle i).Waiting ∧ (s.cycle i).sd.buffer = s.sd.buffer ∧
      (s.cycle i).card = ⟨s.card.out.tail, s.card.captured⟩ := by
  have hworks : SdCore.Works s.sd.controller s.sd.buffer := hclosing.works
  have hbusy : s.ready = false := ready_of_works hworks.state
  have hstill : s.sd.buffer.control .idle s.sd.controller.ready = s.sd.buffer := by
    unfold SdBuffer.control
    simp [SdBuffer.readyReal, SdController.ready_of_ne hworks.state, hworks.sdRd, hworks.sdWr]
  obtain ⟨hcontroller, hcard, hbuffer, -⟩ := h.first hrst hwe hbusy hstill
  have hidle := hclosing.idle
  have hsettled := hclosing.settled
  rw [← hcontroller] at hidle hsettled
  refine ⟨⟨hidle, hsettled, ?_, ?_⟩, hbuffer, ?_⟩
  · rw [hbuffer]
    exact hworks.sdRd
  · rw [hbuffer]
    exact hworks.sdWr
  · have hup : s.sd.controller.sclkSig = true := hclosing.sclk
    have hdown := hsettled.sclk
    rw [card_cycle, SpiCard.clock, if_neg (by rw [hworks.cs]; decide), SdController.sclk,
      SdController.sclk, hup, hdown]
    rfl

theorem Quiet.shift (h : Quiet ins s) (m : Nat) :
    Quiet (fun k => ins (m + k)) (trace cycle ins s m) where
  rst t := h.rst (m + t)
  busy t hready := h.busy (m + t) (by rw [trace_add]; exact hready)

/-- A command is carried out, and the unit is not ready before it is done. -/
theorem Commanded.transfer {r : SdCore} (h : s.Commanded) (hquiet : Quiet ins s)
    (hmoves : ReflTransGen SdCore.Moves s.core r) (hclosing : SdCore.Closing r) :
    ∃ n, (∀ t < n, (trace cycle ins s t).ready = false) ∧ (trace cycle ins s n).Waiting ∧
      (trace cycle ins s n).sd.buffer = r.buffer ∧
      (trace cycle ins s n).card = ⟨r.card.out.tail, r.card.captured⟩ := by
  obtain ⟨m, hstep, hcore, hbusy⟩ := h.align hquiet
  rw [← hcore] at hmoves
  obtain ⟨l, hstep', hcore', hbusy'⟩ := hstep.run (hquiet.shift m) hmoves
  rw [← trace_add] at hstep' hcore'
  have hworks : (trace cycle ins s (m + l)).sd.controller.state ≠ .IDLE := by
    have hstate := hclosing.works.state
    rw [← hcore'] at hstate
    exact hstate
  have hlast : (trace cycle ins s (m + l)).ready = false := ready_of_works hworks
  obtain ⟨hwaiting, hbuffer, hcard⟩ := hstep'.close (by rw [hcore']; exact hclosing)
    (hquiet.rst (m + l)) (hquiet.busy (m + l) hlast)
  refine ⟨m + l + 1, fun t ht => ?_, hwaiting, ?_, ?_⟩
  · rcases Nat.lt_or_ge t m with hlt | hge
    · exact hbusy t hlt
    · obtain ⟨k, rfl⟩ := Nat.exists_eq_add_of_le hge
      rcases Nat.lt_or_ge k l with hlt' | hge'
      · rw [trace_add]
        exact hbusy' k hlt'
      · rw [show k = l by omega]
        exact hlast
  · rw [trace_succ, hbuffer, ← hcore', core]
  · rw [trace_succ, hcard, ← hcore', core]

private theorem writesBlock_of_commands {register : BitVec 16} (h : i.commands register = true)
    (hregister : register.extractLsb' 12 4 ≠ 0) : i.writesBlock = false := by
  simp only [SdcardIn.commands, Bool.and_eq_true, beq_iff_eq] at h
  rw [SdcardIn.writesBlock, SdcardIn.inBlock, h.1.2, beq_eq_false_iff_ne.mpr hregister,
    Bool.and_false]

theorem Waiting.command (h : s.Waiting) (hrst : i.rst = false)
    (hcommand : i.startsRead = true ∨ i.startsWrite = true) : (s.cycle i).Commanded where
  state := (congrArg _ (h.controller hrst)).trans h.state
  readnext := by rw [h.controller hrst]; rfl
  writenext := by rw [h.controller hrst]; rfl
  command := by
    rw [h.buffer hrst]
    exact hcommand

private theorem startsWrite_of_startsRead (h : i.startsRead = true) : i.startsWrite = false := by
  simp only [SdcardIn.startsRead, SdcardIn.commands, Bool.and_eq_true, beq_iff_eq] at h
  simp [SdcardIn.startsWrite, SdcardIn.commands, h.1.2]

private theorem startsRead_of_startsWrite (h : i.startsWrite = true) : i.startsRead = false := by
  simp only [SdcardIn.startsWrite, SdcardIn.commands, Bool.and_eq_true, beq_iff_eq] at h
  simp [SdcardIn.startsRead, SdcardIn.commands, h.1.2]

private theorem Waiting.command_core (h : s.Waiting) (hrst : i.rst = false) :
    (s.cycle i).core = ⟨s.sd.controller, (s.cycle i).sd.buffer, s.card⟩ := by
  rw [core, h.controller hrst, h.card hrst]

/-- A read command brings the sector of the card into the buffer. -/
theorem Waiting.read {later : List Bool} (h : s.Waiting) (hquiet : Quiet ins s)
    (hread : (ins 0).startsRead = true) (hcard : AnswersRead sector later s.card.out) :
    ∃ n, (∀ t < n, (trace cycle ins s (1 + t)).ready = false) ∧
      (trace cycle ins s (1 + n)).Waiting ∧ (trace cycle ins s (1 + n)).sd.buffer.Holds sector ∧
      (trace cycle ins s (1 + n)).card.out = later := by
  have hrst := hquiet.rst 0
  have hbuffer := h.buffer hrst
  have hrd : (s.cycle (ins 0)).sd.buffer.sdRd = true := by
    rw [hbuffer]
    exact hread
  have hwr : (s.cycle (ins 0)).sd.buffer.sdWr = false := by
    rw [hbuffer]
    exact startsWrite_of_startsRead hread
  obtain ⟨c, hstate, hset, htakes⟩ := SdCore.takes (k := s.card) .READ_BLOCK h.settled h.state
      (.inl hrd) (by decide)
    (by rw [hrd]; rfl)
  have hcontrol : (s.cycle (ins 0)).sd.buffer.control .idle false =
      { (s.cycle (ins 0)).sd.buffer with sdRd := false, reading := true, counter := 0 } := by
    simp [SdBuffer.control, SdBuffer.readyReal, hrd]
  rw [hcontrol, ← h.command_core hrst] at htakes
  have hworks : SdCore.Works c
      { (s.cycle (ins 0)).sd.buffer with sdRd := false, reading := true, counter := 0 } :=
    ⟨htakes.works, hset.cs, rfl, hwr⟩
  obtain ⟨r, hclosing, hfilled, hrest, hmoves⟩ :=
    SdCore.read_run hset hworks hstate rfl rfl hcard
  obtain ⟨n, hbusy, hwaiting, hkept, hout⟩ := (h.command hrst (.inl hread)).transfer
    (hquiet.shift 1) (ReflTransGen.head htakes hmoves) hclosing
  refine ⟨n, fun t ht => ?_, ?_, ?_, ?_⟩ <;> rw [trace_add]
  · exact hbusy t ht
  · exact hwaiting
  · rw [show (trace cycle ins s 1) = s.cycle (ins 0) from rfl, hkept]
    exact hfilled.holds
  · rw [show (trace cycle ins s 1) = s.cycle (ins 0) from rfl, hout]
    exact hrest

/-- A write command puts the buffer on the card. -/
theorem Waiting.write {rest : List Bool} (h : s.Waiting) (hquiet : Quiet ins s)
    (hwrite : (ins 0).startsWrite = true) (hcard : AnswersWrite rest s.card.out)
    (hholds : s.sd.buffer.Holds sector) :
    ∃ n, (∀ t < n, (trace cycle ins s (1 + t)).ready = false) ∧
      (trace cycle ins s (1 + n)).Waiting ∧
      Puts s.sd.buffer.sdAddress ((List.range 512).map sector) s.card.captured
        (trace cycle ins s (1 + n)).card.captured := by
  have hrst := hquiet.rst 0
  have hbuffer := h.buffer hrst
  have hwr : (s.cycle (ins 0)).sd.buffer.sdWr = true := by
    rw [hbuffer]
    exact hwrite
  have hrd : (s.cycle (ins 0)).sd.buffer.sdRd = false := by
    rw [hbuffer]
    exact startsRead_of_startsWrite hwrite
  have hkept : (s.cycle (ins 0)).sd.buffer.block = s.sd.buffer.block := by
    rw [hbuffer]
    exact if_neg (by rw [writesBlock_of_commands hwrite (by decide)]; decide)
  have haddress : (s.cycle (ins 0)).sd.buffer.sdAddress = s.sd.buffer.sdAddress := by
    have hregister := hwrite
    simp only [SdcardIn.startsWrite, SdcardIn.commands, Bool.and_eq_true, beq_iff_eq] at hregister
    rw [hbuffer]
    simp [hregister.1.2]
  obtain ⟨c, hstate, hset, htakes⟩ := SdCore.takes (k := s.card) .WRITE_BLOCK_CMD h.settled h.state
      (.inr hwr)
    (by decide) (by rw [hrd, hwr]; rfl)
  have hcontrol : (s.cycle (ins 0)).sd.buffer.control .idle false =
      { (s.cycle (ins 0)).sd.buffer with
        sdWr := false, writing := true, counter := 0, dirty := false } := by
    simp [SdBuffer.control, SdBuffer.readyReal, hrd, hwr]
  rw [hcontrol, ← h.command_core hrst] at htakes
  have hworks : SdCore.Works c
      { (s.cycle (ins 0)).sd.buffer with
        sdWr := false, writing := true, counter := 0, dirty := false } :=
    ⟨htakes.works, hset.cs, hrd, rfl⟩
  obtain ⟨r, hclosing, -, -, hputs, hmoves⟩ :=
    SdCore.write_run hset hworks hstate rfl rfl hcard
  obtain ⟨n, hbusy, hwaiting, -, hout⟩ := (h.command hrst (.inr hwrite)).transfer
    (hquiet.shift 1) (ReflTransGen.head htakes hmoves) hclosing
  refine ⟨n, fun t ht => ?_, ?_, ?_⟩ <;> rw [trace_add]
  · exact hbusy t ht
  · exact hwaiting
  · rw [show (trace cycle ins s 1) = s.cycle (ins 0) from rfl, hout, ← hholds.bytes, ← hkept,
      ← haddress]
    exact hputs

/--
The CPU reads a sector, stores words to the buffer and writes the buffer back.  Its loads
see the sector with the words in it, and the card gets the same bytes, each one once.
-/
theorem read_and_write_agree {later : List Bool} (horderly : s.sd.controller.Orderly)
    (hready : s.ready = true) (hquiet : Quiet ins s) (hread : (ins 0).startsRead = true)
    (hcard : AnswersRead sector later s.card.out) :
    ∃ T > 0, (∀ t, 0 < t → t < T → (trace cycle ins s t).ready = false) ∧
      ∀ n, (∀ t < n, (ins (T + t)).startsRead = false ∧ (ins (T + t)).startsWrite = false) →
        (trace cycle ins s (T + n)).ready = true ∧
        (∀ i : SdcardIn, i.inBlock = true →
          byteSwap ((trace cycle ins s (T + n)).sd.spo i) =
            littleEndian (patched (fun t => ins (T + t)) sector n) i.index.toNat) ∧
        ∀ rest, (ins (T + n)).startsWrite = true → AnswersWrite rest later →
          ∃ T' > T + n, (∀ t, T + n < t → t < T' → (trace cycle ins s t).ready = false) ∧
            (trace cycle ins s T').ready = true ∧
            Puts (trace cycle ins s (T + n)).sd.buffer.sdAddress
              ((List.range 512).map (patched (fun t => ins (T + t)) sector n))
              (trace cycle ins s (T + n)).card.captured (trace cycle ins s T').card.captured := by
  obtain ⟨n₁, hbusy, hwaiting, hholds, hout⟩ :=
    (waiting_of_ready horderly hready).read hquiet hread hcard
  refine ⟨1 + n₁, by omega, fun t ht hlt => ?_, fun n hnone => ?_⟩
  · obtain ⟨k, rfl⟩ := Nat.exists_eq_add_of_le ht
    exact hbusy k (by omega)
  have hquiet₁ := hquiet.shift (1 + n₁)
  obtain ⟨hwaiting', hcard', hpatched⟩ := hwaiting.run hquiet₁.rst (fun t ht => (hnone t ht).1)
    (fun t ht => (hnone t ht).2) hholds
  rw [← trace_add] at hwaiting' hcard' hpatched
  refine ⟨hwaiting'.ready, fun i hblock => hpatched.load hblock, fun rest hwrite hanswers => ?_⟩
  rw [← hout, ← hcard'] at hanswers
  obtain ⟨n₂, hbusy', hwaiting'', hputs⟩ :=
    hwaiting'.write (hquiet.shift (1 + n₁ + n)) hwrite hanswers hpatched
  refine ⟨1 + n₁ + n + (1 + n₂), by omega, fun t ht hlt => ?_, ?_, ?_⟩
  · obtain ⟨k, rfl⟩ := Nat.exists_eq_add_of_le ht
    rw [show (1 + n₁ + n).succ + k = 1 + n₁ + n + (1 + k) by omega, trace_add]
    exact hbusy' k (by omega)
  · rw [trace_add]
    exact hwaiting''.ready
  · rw [trace_add _ (1 + n₂)]
    exact hputs

/-! ### A session -/

def attached (sector : Nat → BitVec 8) : SdSystem where
  sd := {
    clkcounter := 0
    controller := {
      state := .IDLE
      returnState := .IDLE
      sclkSig := false
      cmdOut := 0
      cmdMode := true
      dataSig := 0
      responseType := 1
      byteCounter := 0
      bitCounter := 0
      bootCounter := 0
      resetCounter := 0
      cs := false
      dout := 0
      byteAvailable := false
      readyForNextByte := false
      recvData := 0 }
    readnextOld := false
    writenextOld := false
    buffer := {
      sdAddress := 0x2000
      block := fun _ => 0
      dirty := false
      sdRd := false
      sdWr := false
      sdDin := 0
      reading := false
      writing := false
      counter := 0
      cache1 := 0
      cache2 := 0
      cache3 := 0 } }
  card := {
    out := List.replicate 56 true ++ (List.replicate 8 true ++ false :: List.replicate 7 false ++
      (List.replicate 99 true ++ false ::
        (wire ((List.range 512).map sector) ++ (bits (0 : BitVec 8) ++ (bits (0 : BitVec 8) ++
          (List.replicate 56 true ++ (List.replicate 8 true ++ false :: List.replicate 7 false ++
            (List.replicate 4120 true ++ (List.replicate 3 true ++ false :: List.replicate 7 false
              ++
              (List.replicate 99 false ++ true :: []))))))))))
    captured := [] }

def stores : SdcardIn := { SdcardIn.idle with a := 0x000c, d := 0xefbeadde, we := true }

/-- A read command, a store at clock `n`, and then a write command. -/
def copies (n t : Nat) : SdcardIn :=
  if t = 0 then { SdcardIn.idle with a := 0x1004, d := 0x01000000, we := true }
  else if t < n then SdcardIn.idle
  else if t = n then stores
  else { SdcardIn.idle with a := 0x1008, d := 0x01000000, we := true }

private theorem copies_startsRead (n : Nat) : (copies n 0).startsRead = true := by
  rw [copies, if_pos rfl]
  decide

private theorem copies_rst (n t : Nat) : (copies n t).rst = false := by
  unfold copies
  split_ifs <;> rfl

private theorem copies_writesBlock {n t : Nat} (h : t ≠ n) : (copies n t).writesBlock = false := by
  unfold copies
  split_ifs <;> rfl

/-- The store comes when the sector has been read. -/
theorem quiet_copies {n : Nat} (hready : (trace cycle (copies n) s n).ready = true) :
    Quiet (copies n) s where
  rst := copies_rst n
  busy t hbusy := copies_writesBlock fun heq => by
    rw [heq, hready] at hbusy
    exact absurd hbusy (by decide)

private theorem exists_ready {later : List Bool} (horderly : s.sd.controller.Orderly)
    (hready : s.ready = true) (hcard : AnswersRead sector later s.card.out) :
    ∃ n > 0, (∀ t, 0 < t → t < n → (trace cycle (copies n) s t).ready = false) ∧
      (trace cycle (copies n) s n).ready = true := by
  -- The clocks before the store are those of a CPU that never stores.
  let reads (t : Nat) : SdcardIn := copies (t + 1) t
  have hquiet : Quiet reads s := ⟨fun t => copies_rst _ t, fun t _ => copies_writesBlock (by omega)⟩
  obtain ⟨n, hbusy, hwaiting, -, -⟩ :=
    (waiting_of_ready horderly hready).read hquiet (copies_startsRead _) hcard
  have hsame : ∀ t ≤ 1 + n, trace cycle (copies (1 + n)) s t = trace cycle reads s t := by
    refine fun t ht => trace_congr fun k hk => ?_
    simp only [reads, copies]
    split_ifs <;> first | rfl | omega
  refine ⟨1 + n, by omega, fun t ht hlt => ?_, ?_⟩
  · rw [hsame t (by omega)]
    obtain ⟨k, rfl⟩ := Nat.exists_eq_add_of_le (show 1 ≤ t from ht)
    exact hbusy k (by omega)
  · rw [hsame _ le_rfl]
    exact hwaiting.ready

theorem copies_store_sector : ∃ T T', T + 1 < T' ∧
    (trace cycle (copies T) (attached (BitVec.ofNat 8)) (T + 1)).ready = true ∧
    (∀ i : SdcardIn, i.inBlock = true →
      byteSwap ((trace cycle (copies T) (attached (BitVec.ofNat 8)) (T + 1)).sd.spo i) =
        littleEndian (stores.patch (BitVec.ofNat 8)) i.index.toNat) ∧
    Puts (trace cycle (copies T) (attached (BitVec.ofNat 8)) (T + 1)).sd.buffer.sdAddress
      ((List.range 512).map (stores.patch (BitVec.ofNat 8)))
      (trace cycle (copies T) (attached (BitVec.ofNat 8)) (T + 1)).card.captured
      (trace cycle (copies T) (attached (BitVec.ofNat 8)) T').card.captured := by
  have horderly : (attached (BitVec.ofNat 8)).sd.controller.Orderly := by
    constructor <;> intro _ <;> first | rfl | contradiction
  have hready : (attached (BitVec.ofNat 8)).ready = true := by decide
  have hread : AnswersRead (BitVec.ofNat 8) _ (attached (BitVec.ofNat 8)).card.out :=
    ⟨_, _, _, _, _, _, List.length_replicate, List.length_replicate, rfl⟩
  obtain ⟨n, hn, hbusy, hdone⟩ := exists_ready horderly hready hread
  obtain ⟨T, hT, hwait, hsession⟩ := read_and_write_agree horderly hready (quiet_copies hdone)
    (copies_startsRead n) hread
  have hreadyT := (hsession 0 fun t ht => absurd ht t.not_lt_zero).1
  obtain rfl : T = n := by
    rcases Nat.lt_trichotomy T n with hlt | heq | hgt
    · exact absurd (hbusy T hT hlt) (by simpa using hreadyT)
    · exact heq
    · exact absurd (hwait n hn hgt) (by simpa using hdone)
  have hstore : copies T (T + 0) = stores := by
    rw [Nat.add_zero, copies, if_neg (by omega), if_neg (by omega), if_pos rfl]
  have hcommand : (copies T (T + 1)).startsWrite = true := by
    rw [copies, if_neg (by omega), if_neg (by omega), if_neg (by omega)]
    decide
  obtain ⟨hready', hload, hwrite⟩ := hsession 1 fun t ht => by
    rw [Nat.lt_one_iff.mp ht, hstore]
    exact ⟨rfl, rfl⟩
  simp only [patched, hstore] at hload hwrite
  obtain ⟨T', hlt, -, -, hputs⟩ := hwrite [] hcommand
    ⟨_, _, _, _, _, _, _, List.length_replicate, List.length_replicate, List.length_replicate,
      List.length_replicate, rfl⟩
  exact ⟨T, T', hlt, hready', hload, hputs⟩

end SdSystem

end PComputer.Rtl
