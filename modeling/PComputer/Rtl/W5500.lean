import PComputer.Foundation.ByteLanes
import PComputer.Foundation.ShiftRegister

/-!
# `w5500.v` and the chip behind it

The unit sends an address, a control byte and up to four bytes of data, and takes the
same number of bits; the chip stores and returns the bytes in the order of the wire.
-/

namespace PComputer.Rtl

open PComputer.Foundation

/-! ## `w5500_fdm` -/

inductive W5500State where
  | INIT | RST | IDLE | XFER
  deriving DecidableEq, Repr

structure W5500 where
  sclkReg : Bool
  rstnReg : Bool
  fdmLen : BitVec 3
  spiAddr : BitVec 16
  spiCtrl : BitVec 8
  spiData : Word
  state : W5500State
  bootCounter : BitVec 20
  sendcntMax : BitVec 8
  sendcnt : BitVec 8
  recvbits : Word

structure W5500In where
  rst : Bool
  a : Word
  d : Word
  we : Bool
  intn : Bool
  miso : Bool

def W5500In.reg (i : W5500In) : BitVec 3 := i.a.extractLsb' 2 3

def W5500In.data (i : W5500In) : Word := byteSwap i.d

namespace W5500

def BOOT_COUNTER_RST : BitVec 20 := 40000
def BOOT_COUNTER : BitVec 20 := 80000

variable (i : W5500In) (u : W5500)

def sendbits : BitVec 56 := u.spiAddr ++ u.spiCtrl ++ u.spiData

def sclk : Bool := u.sclkReg

/-- Past the end of `sendbits` the bit is undefined. -/
def mosi : Bool := u.sendbits.getMsbD u.sendcnt.toNat

def spo : Word :=
  if i.reg = 5 then 0#7 ++ BitVec.ofBool (u.state == .IDLE) ++ 0#24
  else if i.reg = 6 then byteSwap u.recvbits
  else if i.reg = 7 then 0#7 ++ BitVec.ofBool i.intn ++ 0#24
  else 0

def xfer : W5500 :=
  { u with
    sclkReg := if u.sendcnt < u.sendcntMax then !u.sclkReg else u.sclkReg
    state := if u.sclkReg ∧ u.sendcnt.toNat + 1 = u.sendcntMax.toNat then .IDLE else .XFER
    sendcnt := if u.sclkReg then u.sendcnt + 1 else u.sendcnt
    recvbits :=
      if u.sclkReg = false ∧ 24 ≤ u.sendcnt then u.recvbits.shiftConcat i.miso else u.recvbits }

def fsm : W5500 :=
  match u.state with
  | .RST =>
      if u.bootCounter = 0 then
        { u with state := .INIT, bootCounter := BOOT_COUNTER, rstnReg := true }
      else { u with bootCounter := u.bootCounter - 1 }
  | .INIT =>
      if u.bootCounter = 0 then { u with state := .IDLE }
      else { u with bootCounter := u.bootCounter - 1 }
  | .IDLE =>
      if i.we ∧ i.reg = 4 then
        { u with
          sclkReg := false
          state := .XFER
          sendcntMax := 24 + (0#2 ++ u.fdmLen ++ 0#3)
          sendcnt := 0
          recvbits := 0 }
      else { u with sclkReg := false }
  | .XFER => u.xfer i

def reset : W5500 :=
  { u with
    sclkReg := false
    bootCounter := BOOT_COUNTER_RST
    state := .RST
    rstnReg := false }

/-- The data register takes the word as it is on the bus, with the low byte in front. -/
def cycle : W5500 :=
  { (if i.rst then u.reset else u.fsm i) with
    spiAddr := if i.we ∧ i.reg = 0 then i.data.extractLsb' 0 16 else u.spiAddr
    spiCtrl := if i.we ∧ i.reg = 1 then i.data.extractLsb' 0 8 else u.spiCtrl
    spiData := if i.we ∧ i.reg = 2 then i.d else u.spiData
    fdmLen := if i.we ∧ i.reg = 3 then i.data.extractLsb' 0 3 else u.fdmLen }

/-! ### Between transfers -/

structure Off (u : W5500) : Prop where
  state : u.state ≠ .XFER
  sclk : u.sclk = false

structure Waits (u u' : W5500) : Prop where
  off : u'.Off
  recvbits : u'.recvbits = u.recvbits
  idle : u.state = .IDLE → u'.state = .IDLE

variable {i u}

theorem Off.fsm (h : u.Off) (hissue : u.state = .IDLE → ¬(i.we = true ∧ i.reg = 4)) :
    u.Waits (u.fsm i) := by
  have hstate := h.state
  have hsclk : u.sclkReg = false := h.sclk
  unfold W5500.fsm
  cases hcase : u.state with
  | RST =>
      dsimp only
      split_ifs
      · exact ⟨⟨nofun, hsclk⟩, rfl, fun hidle => by cases hcase.symm.trans hidle⟩
      · exact ⟨⟨nofun, hsclk⟩, rfl, fun hidle => by cases hcase.symm.trans hidle⟩
  | INIT =>
      dsimp only
      split_ifs
      · exact ⟨⟨nofun, hsclk⟩, rfl, fun _ => rfl⟩
      · exact ⟨⟨nofun, hsclk⟩, rfl, fun hidle => by cases hcase.symm.trans hidle⟩
  | IDLE =>
      dsimp only
      rw [if_neg (hissue hcase)]
      exact ⟨⟨nofun, rfl⟩, rfl, fun _ => rfl⟩
  | XFER => exact absurd hcase hstate

theorem Off.cycle (h : u.Off) (hrst : i.rst = false)
    (hissue : u.state = .IDLE → ¬(i.we = true ∧ i.reg = 4)) : u.Waits (u.cycle i) := by
  obtain ⟨⟨hstate, hsclk⟩, hrecvbits, hidle⟩ := h.fsm hissue
  unfold W5500.cycle
  rw [hrst]
  exact ⟨⟨hstate, hsclk⟩, hrecvbits, hidle⟩

def bootClocks (u : W5500) : Nat :=
  match u.state with
  | .RST => u.bootCounter.toNat + BOOT_COUNTER.toNat + 2
  | .INIT => u.bootCounter.toNat + 1
  | .IDLE | .XFER => 0

private theorem toNat_bootCounter_sub_one (hcount : u.bootCounter ≠ 0) :
    (u.bootCounter - 1).toNat + 1 = u.bootCounter.toNat := by
  obtain ⟨left, hleft⟩ := exists_toNat_eq_succ hcount
  have hless : (u.bootCounter - 1).toNat = left := toNat_sub_of_eq hleft
  rw [hless, hleft]

theorem bootClocks_cycle (hrst : i.rst = false) (hoff : u.Off) (hidle : u.state ≠ .IDLE) :
    (u.cycle i).bootClocks < u.bootClocks := by
  have hcycle : (u.cycle i).bootClocks = (u.fsm i).bootClocks := by
    unfold W5500.cycle
    rw [hrst]
    rfl
  rw [hcycle]
  unfold fsm
  cases hcase : u.state with
  | RST =>
      dsimp only
      split_ifs with hcount
      · simp only [bootClocks, hcase]
        omega
      · have hless := toNat_bootCounter_sub_one hcount
        simp only [bootClocks, hcase]
        omega
  | INIT =>
      dsimp only
      split_ifs with hcount
      · simp only [bootClocks, hcase]
        omega
      · have hless := toNat_bootCounter_sub_one hcount
        simp only [bootClocks, hcase]
        omega
  | IDLE => exact absurd hcase hidle
  | XFER => exact absurd hcase hoff.state

/-! ### Edges of `sclk` -/

theorem fsm_registers : (u.fsm i).spiAddr = u.spiAddr ∧ (u.fsm i).spiCtrl = u.spiCtrl ∧
    (u.fsm i).spiData = u.spiData ∧ (u.fsm i).fdmLen = u.fdmLen := by
  unfold fsm
  cases u.state with
  | RST | INIT | IDLE =>
      dsimp only
      split_ifs <;> exact ⟨rfl, rfl, rfl, rfl⟩
  | XFER => exact ⟨rfl, rfl, rfl, rfl⟩

theorem cycle_of_load (hrst : i.rst = false) (hwe : i.we = false) : u.cycle i = u.fsm i := by
  unfold W5500.cycle
  simp only [hrst, hwe, Bool.false_eq_true, false_and, if_false]
  unfold fsm xfer
  cases u.state <;> dsimp only <;> split_ifs <;> rfl

theorem xfer_rise (hsclk : u.sclkReg = false) (hstate : u.state = .XFER)
    (hless : u.sendcnt < u.sendcntMax) :
    u.xfer i =
      { u with
        sclkReg := true
        recvbits := if 24 ≤ u.sendcnt then u.recvbits.shiftConcat i.miso else u.recvbits } := by
  unfold xfer
  simp only [hsclk, hless, if_true, Bool.not_false, Bool.false_eq_true, false_and, if_false,
    true_and, hstate]

theorem xfer_fall (hsclk : u.sclkReg = true) (hless : u.sendcnt < u.sendcntMax) :
    u.xfer i =
      { u with
        sclkReg := false
        state := if u.sendcnt.toNat + 1 = u.sendcntMax.toNat then .IDLE else .XFER
        sendcnt := u.sendcnt + 1 } := by
  unfold xfer
  simp only [hsclk, hless, if_true, Bool.not_true, Bool.true_eq_false, false_and, if_false,
    true_and]

end W5500

/-! ## The chip -/

/-- The blocks of registers, the bits of the frame so far, and what the chip drives. -/
structure W5500Chip where
  mem : BitVec 5 → BitVec 16 → BitVec 8
  frame : List Bool
  miso : Bool

namespace W5500Chip

variable (c : W5500Chip)

def address : BitVec 16 := ofBits 16 (c.frame.take 16)

def control : BitVec 8 := ofBits 8 ((c.frame.drop 16).take 8)

def block : BitVec 5 := c.control.extractLsb' 3 5

def writes : Bool := c.control.getLsbD 2

/-- The operation mode: one, two or four bytes, or a variable length, which needs `scsn`. -/
def modeLength (mode : BitVec 2) : Option Nat :=
  if mode = 1 then some 1 else if mode = 2 then some 2 else if mode = 3 then some 4 else none

def dataLength : Option Nat := modeLength (c.control.extractLsb' 0 2)

def dataByte (k : Nat) : BitVec 8 := ofBits 8 ((c.frame.drop (24 + 8 * k)).take 8)

/-- The bytes of a frame of length `n`, one behind the other from its address on. -/
def stored (n : Nat) (b : BitVec 5) (a : BitVec 16) : BitVec 8 :=
  if c.writes ∧ b = c.block ∧ (a - c.address).toNat < n then c.dataByte (a - c.address).toNat
  else c.mem b a

def dataBit (k : Nat) : Bool :=
  (c.mem c.block (c.address + BitVec.ofNat 16 (k / 8))).getMsbD (k % 8)

def endFrame : W5500Chip :=
  if 24 ≤ c.frame.length then
    match c.dataLength with
    | some n =>
        if c.frame.length = 24 + 8 * n then { c with mem := c.stored n, frame := [] } else c
    | none => c
  else c

def rise (mosi : Bool) : W5500Chip := ({ c with frame := c.frame ++ [mosi] }).endFrame

def fall : W5500Chip :=
  if 24 ≤ c.frame.length ∧ c.writes = false then
    { c with miso := c.dataBit (c.frame.length - 24) }
  else c

def clock (before after : W5500) : W5500Chip :=
  if !before.sclk && after.sclk then c.rise before.mosi
  else if before.sclk && !after.sclk then c.fall
  else c

variable {c} {before after : W5500}

theorem clock_of_rise (hbefore : before.sclk = false) (hafter : after.sclk = true) :
    c.clock before after = c.rise before.mosi := by
  unfold clock
  rw [hbefore, hafter]
  rfl

theorem clock_of_fall (hbefore : before.sclk = true) (hafter : after.sclk = false) :
    c.clock before after = c.fall := by
  unfold clock
  rw [hbefore, hafter]
  rfl

theorem clock_of_low (hbefore : before.sclk = false) (hafter : after.sclk = false) :
    c.clock before after = c := by
  unfold clock
  rw [hbefore, hafter]
  rfl

end W5500Chip

/-! ## Frames -/

structure SpiFrame where
  addr : BitVec 16
  ctrl : BitVec 8
  data : Word
  bytes : Nat

namespace SpiFrame

variable (f : SpiFrame)

def sendbits : BitVec 56 := f.addr ++ f.ctrl ++ f.data

def line : List Bool := bits f.sendbits

def length : Nat := 24 + 8 * f.bytes

def block : BitVec 5 := f.ctrl.extractLsb' 3 5

def writes : Bool := f.ctrl.getLsbD 2

def dataBit (mem : BitVec 5 → BitVec 16 → BitVec 8) (k : Nat) : Bool :=
  (mem f.block (f.addr + BitVec.ofNat 16 (k / 8))).getMsbD (k % 8)

def dataByte (k : Nat) : BitVec 8 := ofBits 8 (((bits f.data).drop (8 * k)).take 8)

def stored (mem : BitVec 5 → BitVec 16 → BitVec 8) (b : BitVec 5) (a : BitVec 16) : BitVec 8 :=
  if f.writes ∧ b = f.block ∧ (a - f.addr).toNat < f.bytes then f.dataByte (a - f.addr).toNat
  else mem b a

/-- The control byte tells the chip how many bytes the unit sends. -/
structure Valid : Prop where
  mode : W5500Chip.modeLength (f.ctrl.extractLsb' 0 2) = some f.bytes
  bytes : f.bytes ≤ 4

variable {f} {c : W5500Chip} {k : Nat}

theorem length_line : f.line.length = 56 := length_bits _

private theorem take_line (hk : 24 ≤ k) :
    f.line.take k = bits f.addr ++ (bits f.ctrl ++ (bits f.data).take (k - 24)) := by
  unfold line sendbits
  rw [bits_append, bits_append, List.append_assoc,
    show k = (bits f.addr).length + ((bits f.ctrl).length + (k - 24)) by
      rw [length_bits, length_bits]; omega,
    List.take_length_add_append, List.take_length_add_append]
  congr 4
  rw [length_bits, length_bits]
  omega

private theorem address_of_frame (hframe : c.frame = f.line.take k) (hk : 24 ≤ k) :
    c.address = f.addr := by
  have htake : c.frame.take 16 = bits f.addr := by
    rw [hframe, take_line hk, List.take_left' (length_bits f.addr)]
  rw [W5500Chip.address, htake, ofBits_bits _ le_rfl, BitVec.setWidth_eq]

private theorem control_of_frame (hframe : c.frame = f.line.take k) (hk : 24 ≤ k) :
    c.control = f.ctrl := by
  have htake : (c.frame.drop 16).take 8 = bits f.ctrl := by
    rw [hframe, take_line hk, List.drop_left' (length_bits f.addr),
      List.take_left' (length_bits f.ctrl)]
  rw [W5500Chip.control, htake, ofBits_bits _ le_rfl, BitVec.setWidth_eq]

private theorem dataByte_of_frame (hframe : c.frame = f.line.take f.length) {j : Nat}
    (hj : j < f.bytes) :
    c.dataByte j = f.dataByte j := by
  unfold W5500Chip.dataByte dataByte
  rw [hframe, take_line (by unfold length; omega),
    show 24 + 8 * j = (bits f.addr).length + ((bits f.ctrl).length + 8 * j) by
      rw [length_bits, length_bits]; omega,
    List.drop_length_add_append, List.drop_length_add_append, List.drop_take, List.take_take]
  congr 2
  unfold length
  omega

private theorem stored_of_frame (hframe : c.frame = f.line.take f.length) :
    c.stored f.bytes = f.stored c.mem := by
  have hk : 24 ≤ f.length := by
    unfold length
    omega
  funext b a
  unfold W5500Chip.stored stored W5500Chip.writes W5500Chip.block writes block
  rw [address_of_frame hframe hk, control_of_frame hframe hk]
  split_ifs with hin
  · exact dataByte_of_frame hframe hin.2.2
  · rfl

theorem rise_of_frame (hvalid : f.Valid) (hframe : c.frame = f.line.take k) (hk : k < f.length) :
    c.rise (f.sendbits.getMsbD k) =
      if k + 1 = f.length then { c with mem := f.stored c.mem, frame := [] }
      else { c with frame := f.line.take (k + 1) } := by
  have hlength : k < 56 := by
    have hbytes := hvalid.bytes
    unfold length at hk
    omega
  have hnext : c.frame ++ [f.sendbits.getMsbD k] = f.line.take (k + 1) := by
    rw [hframe]
    exact (take_succ_bits f.sendbits hlength).symm
  unfold W5500Chip.rise
  rw [hnext]
  obtain ⟨c', hc'⟩ : ∃ c' : W5500Chip, c' = { c with frame := f.line.take (k + 1) } := ⟨_, rfl⟩
  have hframe' : c'.frame = f.line.take (k + 1) := by rw [hc']
  have hlength' : c'.frame.length = k + 1 := by
    rw [hframe', List.length_take, length_line]
    omega
  rw [← hc', W5500Chip.endFrame, hlength']
  by_cases hlow : 24 ≤ k + 1
  · have hdata : c'.dataLength = some f.bytes := by
      rw [W5500Chip.dataLength, control_of_frame hframe' hlow]
      exact hvalid.mode
    rw [if_pos hlow, hdata]
    change (if k + 1 = f.length then _ else c') = _
    by_cases hlast : k + 1 = f.length
    · rw [if_pos hlast, if_pos hlast]
      rw [hlast] at hframe'
      rw [stored_of_frame hframe', hc']
    · rw [if_neg hlast, if_neg hlast]
  · rw [if_neg hlow, if_neg (by unfold length; omega)]

theorem fall_of_frame (hframe : c.frame = f.line.take k) (hk : 24 ≤ k) (hlast : k ≤ 56) :
    c.fall = if f.writes = false then { c with miso := f.dataBit c.mem (k - 24) } else c := by
  have hlength : c.frame.length = k := by
    rw [hframe, List.length_take, length_line, Nat.min_eq_left hlast]
  have hwrites : c.writes = f.writes := by
    rw [W5500Chip.writes, control_of_frame hframe hk]
    rfl
  unfold W5500Chip.fall W5500Chip.dataBit W5500Chip.block
  rw [hlength, hwrites, address_of_frame hframe hk, control_of_frame hframe hk]
  by_cases hread : f.writes = false
  · rw [if_pos ⟨hk, hread⟩, if_pos hread]
    rfl
  · rw [if_neg fun h => hread h.2, if_neg hread]

end SpiFrame

end PComputer.Rtl
