import PComputer.Rtl.Uart

/-!
# Two UARTs on one line

The bit of the receiver takes 72 clocks, that of the transmitter 68, so the samples
drift towards the end of their bits.  The stop bit makes up for it: if the next start
bit comes before its end, the receiver leaves it early and then counts the start bit
one tick late, never more.
-/

namespace PComputer.Rtl

open PComputer.Foundation

structure Loopback where
  sender : Uart
  receiver : Uart

structure LoopbackIn where
  sender : UartIn
  receiver : UartIn

namespace Loopback

/-- The `rx` of the receiver is the `tx` of the sender, whatever its own input says. -/
def wired (i : LoopbackIn) (s : Loopback) : UartIn :=
  { i.receiver with rx := s.sender.sender.tx }

def cycle (i : LoopbackIn) (s : Loopback) : Loopback where
  sender := s.sender.cycle 62500000 921600 i.sender
  receiver := s.receiver.cycle 62500000 921600 (s.wired i)

def written (i : LoopbackIn) (s : Loopback) : List (BitVec 8) :=
  if s.sender.sender.accepts i.sender then [i.sender.data] else []

def raised (_ : LoopbackIn) (s : Loopback) : List (BitVec 8) :=
  if s.receiver.irq then [s.receiver.rxdata] else []

variable (ins : Nat → LoopbackIn) (s : Loopback)

def sent : Nat → List (BitVec 8) := logged cycle written ins s

def received : Nat → List (BitVec 8) := logged cycle raised ins s

/--
Each byte is received once, in order, and at the latest 822 clocks after it is written;
`rxnew` is high for one clock at a time, and `data_rx` holds a byte until the next.
-/
structure Delivers : Prop where
  inOrder : ∀ t, received ins s t <+: sent ins s t
  all : ∀ t, sent ins s t <+: received ins s (t + 822)
  once : ∀ t, (trace cycle ins s t).receiver.irq = true →
    (trace cycle ins s (t + 1)).receiver.irq = false
  held : ∀ t, (trace cycle ins s t).receiver.rxdata =
    (received ins s (t + 1)).getLast?.getD s.receiver.rxdata

/-- Nothing is under way; the accumulators stand anywhere in their periods. -/
structure AtRest : Prop where
  rxAcc : s.receiver.gen.rxAcc ≤ 3
  txAcc : s.sender.gen.txAcc ≤ 67
  tx : s.sender.sender.tx = true
  stateTx : s.sender.sender.stateTx = .IDLE
  rxR : s.receiver.receiver.rxR = true
  stateRx : s.receiver.receiver.stateRx = .START
  sample : s.receiver.receiver.sample = 0
  rxnew : s.receiver.receiver.rxnew = false

end Loopback

/-! ## The accumulators -/

private theorem BaudRateGen.toNat_count {accMax : Nat} {acc : BitVec 20} (hmax : accMax < 2 ^ 20)
    (hacc : acc.toNat ≤ accMax) :
    (count accMax false acc).toNat = (acc.toNat + 1) % (accMax + 1) := by
  unfold count
  rw [if_neg Bool.false_ne_true]
  by_cases hlast : acc = BitVec.ofNat 20 accMax
  · rw [if_pos hlast, hlast, BitVec.toNat_ofNat, Nat.mod_eq_of_lt hmax, Nat.mod_self]
    rfl
  · have hne : acc.toNat ≠ accMax := by
      intro h
      exact hlast (by rw [← h, BitVec.ofNat_toNat, BitVec.setWidth_eq])
    have hone : (1 : BitVec 20).toNat = 1 := rfl
    rw [if_neg hlast, BitVec.toNat_add, hone, Nat.mod_eq_of_lt (by omega)]
    exact (Nat.mod_eq_of_lt (by omega)).symm

private theorem BaudRateGen.count_le {accMax : Nat} {acc : BitVec 20} (hpos : 0 < accMax)
    (hmax : accMax < 2 ^ 20) (hacc : acc.toNat ≤ accMax) (rst : Bool) :
    (count accMax rst acc).toNat ≤ accMax := by
  cases rst with
  | true => exact hpos
  | false =>
      rw [toNat_count hmax hacc]
      exact Nat.lt_succ_iff.mp (Nat.mod_lt _ (Nat.succ_pos _))

/-! ## The transmitter -/

namespace UartTx

variable {i : UartIn} {en : Bool} {u : UartTx} {l l' : SerialLine}

def drive (en : Bool) (u : UartTx) (l : SerialLine) : SerialLine :=
  if u.stateTx = .START ∧ en = true then l.next u.dataTx else l.tick

def pending (u : UartTx) : List (BitVec 8) := if u.stateTx = .START then [u.dataTx] else []

/-- Where the transmitter is in the frame on the line. -/
inductive Sends (l : SerialLine) (u : UartTx) : Prop
  | data (hslot : l.slot 68 < 8) (hstate : u.stateTx = .DATA)
      (hpos : u.bitposTx = BitVec.ofNat 3 (l.slot 68)) (hbyte : u.dataTx = l.byte)
      (htx : u.tx = l.level 68)
  | stop (hslot : l.slot 68 = 8) (hstate : u.stateTx = .STOP) (htx : u.tx = l.level 68)
  | idle (hslot : 9 ≤ l.slot 68) (hstate : u.stateTx = .IDLE) (htx : u.tx = l.level 68)
  | start (hslot : 9 ≤ l.slot 68) (hstate : u.stateTx = .START) (hpos : u.bitposTx = 0)
      (htx : u.tx = l.level 68)

theorem Sends.tx (h : Sends l u) : u.tx = l.level 68 := by
  cases h <;> assumption

private theorem begun_drive (hrst : i.rst = false) :
    (drive en u l).begun ++ (u.cycle i en).pending =
      l.begun ++ u.pending ++ if u.accepts i then [i.data] else [] := by
  obtain ⟨tx, stateTx, dataTx, bitposTx⟩ := u
  unfold drive pending accepts cycle
  cases stateTx with
  | IDLE => cases hwe : i.writesData <;> simp [hrst, SerialLine.tick]
  | START => cases en <;> simp [hrst, SerialLine.tick, SerialLine.next]
  | DATA => by_cases hlast : bitposTx = 7#3 <;> cases en <;> simp [hrst, hlast, SerialLine.tick]
  | STOP => cases en <;> simp [hrst, SerialLine.tick]

private theorem drive_of_ne (h : u.stateTx ≠ .START) : drive en u l = l.tick :=
  if_neg fun hstart => h hstart.1

private theorem slot_tick :
    l.tick.slot 68 = l.slot 68 + if (l.clocks + 1) % 68 = 0 then 1 else 0 := by
  unfold SerialLine.slot SerialLine.tick
  dsimp only
  split_ifs <;> omega

private theorem cycle_waiting (hrst : i.rst = false) (hstate : u.stateTx = .START) :
    u.cycle i false = u := by
  simp only [cycle, hrst, hstate, Bool.false_eq_true, if_false]

theorem Sends.hold (h : Sends l u) (hslot : l'.slot 68 = l.slot 68) (hbyte : l'.byte = l.byte) :
    Sends l' u := by
  have hlevel : l'.level 68 = l.level 68 := by
    rw [SerialLine.level, SerialLine.level, hslot, hbyte]
  cases h with
  | data h8 hstate hpos hdata htx =>
      exact .data (hslot ▸ h8) hstate (hslot ▸ hpos) (hbyte ▸ hdata) (hlevel ▸ htx)
  | stop h8 hstate htx => exact .stop (hslot ▸ h8) hstate (hlevel ▸ htx)
  | idle h9 hstate htx => exact .idle (hslot ▸ h9) hstate (hlevel ▸ htx)
  | start h9 hstate hpos htx => exact .start (hslot ▸ h9) hstate hpos (hlevel ▸ htx)

private theorem Sends.cycle_data (hrst : i.rst = false) (hslot : l.slot 68 < 8)
    (hstate : u.stateTx = .DATA)
    (hpos : u.bitposTx = BitVec.ofNat 3 (l.slot 68)) (hbyte : u.dataTx = l.byte)
    (hen : (l.clocks + 1) % 68 = 0) : Sends l.tick (u.cycle i true) := by
  have hnext : l.tick.slot 68 = l.slot 68 + 1 := by rw [slot_tick, if_pos hen]
  have hval : u.bitposTx.toNat = l.slot 68 := by
    rw [hpos, BitVec.toNat_ofNat, Nat.mod_eq_of_lt hslot]
  have htx : u.dataTx.getLsbD u.bitposTx.toNat = l.tick.level 68 := by
    rw [SerialLine.level, hnext, frameBit_data hslot, hval, hbyte, SerialLine.byte_tick]
  have hcycle : u.cycle i true = { u with
      stateTx := if u.bitposTx = 7 then .STOP else .DATA
      bitposTx := if u.bitposTx = 7 then u.bitposTx else u.bitposTx + 1
      tx := u.dataTx.getLsbD u.bitposTx.toNat } := by
    simp only [UartTx.cycle, hrst, hstate]
    rfl
  rw [hcycle]
  by_cases hlast : u.bitposTx = 7
  · have h7 : l.slot 68 = 7 := by rw [← hval, hlast]; rfl
    exact .stop (by rw [hnext, h7]) (if_pos hlast) htx
  · have h7 : l.slot 68 ≠ 7 := fun h7 => hlast (by rw [hpos, h7]; rfl)
    refine .data (by omega) (if_neg hlast) ?_ hbyte htx
    dsimp only
    rw [if_neg hlast, hpos, hnext, BitVec.ofNat_add]
    rfl

theorem Sends.cycle (h : Sends l u) (hrst : i.rst = false)
    (hen : en = true ↔ (l.clocks + 1) % 68 = 0) : Sends (drive en u l) (u.cycle i en) := by
  have hle : l.slot 68 ≤ l.tick.slot 68 := by rw [slot_tick]; exact Nat.le_add_right _ _
  have hsame : en = false → l.tick.slot 68 = l.slot 68 := by
    intro hfalse
    have hne : ¬(l.clocks + 1) % 68 = 0 := fun h0 => by simp [hen.mpr h0] at hfalse
    rw [slot_tick, if_neg hne, Nat.add_zero]
  cases h with
  | data hslot hstate hpos hbyte htx =>
      rw [drive_of_ne (by rw [hstate]; decide)]
      cases en with
      | true => exact .cycle_data hrst hslot hstate hpos hbyte (hen.mp rfl)
      | false =>
          simp only [UartTx.cycle, hrst, hstate]
          exact (Sends.data hslot hstate hpos hbyte htx).hold (hsame rfl) rfl
  | stop hslot hstate htx =>
      rw [drive_of_ne (by rw [hstate]; decide)]
      cases en with
      | true =>
          have h9 : 9 ≤ l.tick.slot 68 := by rw [slot_tick, if_pos (hen.mp rfl), hslot]
          simp only [UartTx.cycle, hrst, hstate]
          exact .idle h9 rfl (SerialLine.level_high h9).symm
      | false =>
          simp only [UartTx.cycle, hrst, hstate]
          exact (Sends.stop hslot hstate htx).hold (hsame rfl) rfl
  | idle hslot hstate htx =>
      have h9 : 9 ≤ l.tick.slot 68 := le_trans hslot hle
      have hhigh : u.tx = l.tick.level 68 := by
        rw [htx, SerialLine.level_high hslot, SerialLine.level_high h9]
      rw [drive_of_ne (by rw [hstate]; decide)]
      simp only [UartTx.cycle, hrst, hstate]
      cases i.writesData with
      | true => exact .start h9 rfl rfl hhigh
      | false => exact .idle h9 hstate hhigh
  | start hslot hstate hpos htx =>
      cases en with
      | true =>
          have hslot0 : (l.next u.dataTx).slot 68 = 0 := Nat.zero_div 68
          simp only [UartTx.cycle, hrst, hstate, drive, and_self, if_true]
          refine .data (by rw [hslot0]; decide) rfl ?_ (SerialLine.byte_next l _).symm ?_
          · rw [hslot0]
            exact hpos
          · exact (SerialLine.level_next 68 l _).symm
      | false =>
          simp only [UartTx.cycle, hrst, hstate, drive, Bool.false_eq_true, and_false, if_false]
          exact (Sends.start hslot hstate hpos htx).hold (hsame rfl) rfl

private theorem Sends.step_drive (h : Sends l u) (hen : en = true ↔ (l.clocks + 1) % 68 = 0) :
    SerialLine.Step 68 l (drive en u l) := by
  unfold drive
  split_ifs with hstart
  · have hmod := hen.mp hstart.2
    have hslot : 9 ≤ l.clocks / 68 := by
      cases h with
      | data _ hstate => rw [hstart.1] at hstate; cases hstate
      | stop _ hstate => rw [hstart.1] at hstate; cases hstate
      | idle hslot => exact hslot
      | start hslot => exact hslot
    exact .begins l _ (by omega) (by omega)
  · exact .runs l

end UartTx

/-! ## The receiver -/

namespace UartRx

variable {i : UartIn} {en : Bool} {u : UartRx} {l : SerialLine} {n : Nat} {late : Bool}
  {done : List (BitVec 8)}

def ended (en : Bool) (u : UartRx) : List (BitVec 8) :=
  if u.wireRxStateStop en then [u.scratch] else []

/--
Where the receiver is after `n` ticks of a frame.  It counts 18 ticks for each bit, from
the second tick on if it was still in the stop bit of the frame before.
-/
inductive Hears (l : SerialLine) (n : Nat) (done : List (BitVec 8)) (u : UartRx) : Prop
  | ending (s : Nat) (hn : n = 0) (hle : 4 ≤ s) (hlt : s < 17) (hstate : u.stateRx = .STOP)
      (hsample : u.sample = BitVec.ofNat 5 s) (hdone : l.begun = done ++ [u.scratch, l.byte])
  | start (hn : n < 18) (hstate : u.stateRx = .START) (hsample : u.sample = BitVec.ofNat 5 n)
      (hdone : l.begun = done ++ [l.byte])
  | startRemedy (q : Nat) (hn : n = q + 1) (hq : q < 18) (hstate : u.stateRx = .START_REMEDY)
      (hsample : u.sample = BitVec.ofNat 5 q) (hdone : l.begun = done ++ [l.byte])
  | data (k s : Nat) (late : Bool) (hn : n = 18 * (k + 1) + s + late.toNat) (hk : k < 8)
      (hs : s < 18) (hstate : u.stateRx = .DATA) (hsample : u.sample = BitVec.ofNat 5 s)
      (hpos : u.bitposRx = BitVec.ofNat 4 (if 6 < s then k + 1 else k))
      (hbits : ∀ j < if 6 < s then k + 1 else k, u.scratch.getLsbD j = l.byte.getLsbD j)
      (hdone : l.begun = done ++ [l.byte])
  | stop (s : Nat) (late : Bool) (hn : n = 162 + s + late.toNat) (hs : s < 18)
      (hstate : u.stateRx = .STOP) (hsample : u.sample = BitVec.ofNat 5 s)
      (hbyte : u.scratch = l.byte) (hdone : l.begun = done ++ [l.byte])
  | rest (hn : 180 ≤ n) (hstate : u.stateRx = .START) (hsample : u.sample = 0)
      (hdone : l.begun = done)

theorem getLsbD_setBit {v : BitVec 8} {k j : Nat} {b : Bool} (hj : j < 8) :
    (setBit v k b).getLsbD j = if j = k then b else v.getLsbD j := by
  unfold setBit
  by_cases hjk : j = k
  · subst hjk
    cases b <;> simp [hj]
  · rw [if_neg hjk]
    cases b with
    | false => simp [hj, hjk]
    | true => simp [BitVec.getLsbD_twoPow, Ne.symm hjk]

private theorem sample_eq_iff {s c : Nat} (hs : s < 32) (hc : c < 32) :
    BitVec.ofNat 5 s = BitVec.ofNat 5 c ↔ s = c := by
  rw [← BitVec.toNat_inj, BitVec.toNat_ofNat, BitVec.toNat_ofNat, Nat.mod_eq_of_lt hs,
    Nat.mod_eq_of_lt hc]

private theorem sample_eq_count {s : Nat} (hs : s < 18) (hsample : u.sample = BitVec.ofNat 5 s) :
    u.sample = SAMPLE_COUNT ↔ s = 17 := by
  rw [hsample]
  exact sample_eq_iff (by omega) (by decide)

private theorem sample_succ {s : Nat} (hsample : u.sample = BitVec.ofNat 5 s) :
    u.sample + 1 = BitVec.ofNat 5 (s + 1) := by
  rw [hsample, BitVec.ofNat_add]
  rfl

private theorem stopDone_iff {s : Nat} (hs : s < 18) (hsample : u.sample = BitVec.ofNat 5 s) :
    u.stopDone = true ↔ s = 17 ∨ 4 ≤ s ∧ u.rxR = false := by
  have hle : SAMPLE_REMEDY ≤ u.sample ↔ 4 ≤ s := by
    rw [hsample, BitVec.le_def, BitVec.toNat_ofNat, Nat.mod_eq_of_lt (by omega)]
    rfl
  unfold stopDone
  simp [sample_eq_count hs hsample, hle]

private theorem Hears.of_enterData (late : Bool) (hn : n = 18 + late.toNat)
    (hdone : l.begun = done ++ [l.byte]) :
    Hears l n done u.enterData :=
  .data 0 0 late (by omega) (by decide) (by decide) rfl rfl rfl (fun j hj => by simp at hj) hdone

private theorem rxnew_cycle : (u.cycle i en).rxnew = u.wireRxStateStop en := rfl

private theorem rxclkEn_of_wire (h : u.wireRxStateStop en = true) : en = true := by
  unfold wireRxStateStop at h
  cases en with
  | false => cases h
  | true => rfl

private theorem dataRx_tick :
    u.tick.dataRx = if u.wireRxStateStop true then u.scratch else u.dataRx := by
  unfold wireRxStateStop UartRx.tick
  cases hstate : u.stateRx with
  | START =>
      dsimp only
      split_ifs <;> first | rfl | contradiction
  | START_REMEDY =>
      dsimp only
      split_ifs <;> first | rfl | contradiction
  | DATA => rfl
  | STOP => cases hdone : u.stopDone <;> simp

private theorem dataRx_cycle (hrst : i.rst = false) :
    (u.cycle i en).dataRx = (u.ended en).getLast?.getD u.dataRx := by
  unfold ended UartRx.cycle
  rw [hrst, if_neg Bool.false_ne_true]
  cases en with
  | false => rfl
  | true =>
      dsimp only
      rw [if_pos rfl, dataRx_tick]
      split_ifs <;> rfl

private theorem ended_of_ne (h : u.stateRx ≠ .STOP) : u.ended en = [] := by
  unfold ended wireRxStateStop
  rw [if_neg]
  simp [h]

private theorem Hears.tick_start (hr : u.rxR = frameBit l.byte (n / 17)) (hn : n < 18)
    (hstate : u.stateRx = .START) (hsample : u.sample = BitVec.ofNat 5 n)
    (hdone : l.begun = done ++ [l.byte]) : Hears l (n + 1) done u.tick := by
  by_cases hlast : n = 17
  · have htick : u.tick = u.enterData := by
      simp only [UartRx.tick, hstate, (sample_eq_count hn hsample).mpr hlast, if_true]
    rw [htick]
    exact .of_enterData false (by rw [hlast]; rfl) hdone
  · have hstep : (!u.rxR || u.sample != 0) = true := by
      by_cases h0 : n = 0
      · rw [hr, h0]; rfl
      · have hne : u.sample ≠ 0 := by
          rw [hsample]
          exact fun h => h0 ((sample_eq_iff (by omega) (by decide)).mp h)
        rw [bne_iff_ne.mpr hne, Bool.or_true]
    have htick : u.tick = { u with sample := u.sample + 1 } := by
      simp only [UartRx.tick, hstate, mt (sample_eq_count hn hsample).mp hlast, hstep, if_true,
        if_false]
    rw [htick]
    exact .start (by omega) hstate (sample_succ hsample) hdone

private theorem Hears.tick_startRemedy {q : Nat} (hn : n = q + 1) (hq : q < 18)
    (hstate : u.stateRx = .START_REMEDY) (hsample : u.sample = BitVec.ofNat 5 q)
    (hdone : l.begun = done ++ [l.byte]) : Hears l (n + 1) done u.tick := by
  by_cases hlast : q = 17
  · have htick : u.tick = u.enterData := by
      simp only [UartRx.tick, hstate, (sample_eq_count hq hsample).mpr hlast, if_true]
    rw [htick]
    exact .of_enterData true (by rw [hn, hlast]; rfl) hdone
  · have htick : u.tick = { u with sample := u.sample + 1 } := by
      simp only [UartRx.tick, hstate, mt (sample_eq_count hq hsample).mp hlast, if_false]
    rw [htick]
    exact .startRemedy (q + 1) (by omega) (by omega) hstate (sample_succ hsample) hdone

private theorem tick_data_eq {k s : Nat} (hk : k < 8) (hs : s < 18) (hstate : u.stateRx = .DATA)
    (hsample : u.sample = BitVec.ofNat 5 s)
    (hpos : u.bitposRx = BitVec.ofNat 4 (if 6 < s then k + 1 else k)) :
    u.tick = { u with
      sample := BitVec.ofNat 5 (if s = 17 then 0 else s + 1)
      scratch := if s = 6 then setBit u.scratch k u.rxR else u.scratch
      bitposRx := BitVec.ofNat 4 (if 6 ≤ s then k + 1 else k)
      stateRx := if k = 7 ∧ s = 17 then .STOP else .DATA } := by
  have hcount := sample_eq_count hs hsample
  have hsampled : u.sample = SAMPLE_SAMPLE ↔ s = 6 := by
    rw [hsample]
    exact sample_eq_iff (by omega) (by decide)
  have hend : u.bitposRx = 8 ∧ s = 17 ↔ k = 7 ∧ s = 17 := by
    refine and_congr_left fun hlast => ?_
    rw [hpos, hlast, if_pos (by decide), ← BitVec.toNat_inj, BitVec.toNat_ofNat,
      Nat.mod_eq_of_lt (by omega)]
    change k + 1 = 8 ↔ k = 7
    omega
  simp only [UartRx.tick, hstate, hcount, hsampled, hend]
  congr 1
  · split_ifs
    · rfl
    · exact sample_succ hsample
  · rw [hpos]
    rcases Nat.lt_trichotomy s 6 with hlt | heq | hgt
    · rw [if_neg (by omega), if_neg (by omega), if_neg (by omega)]
    · rw [if_pos heq, if_neg (by omega), if_pos (by omega), BitVec.ofNat_add]
      rfl
    · rw [if_neg (by omega), if_pos hgt, if_pos (by omega)]
  · split_ifs with h6
    · have hbit : (u.bitposRx.extractLsb' 0 3).toNat = k := by
        rw [hpos, if_neg (by omega), BitVec.extractLsb'_toNat, BitVec.toNat_ofNat]
        omega
      rw [hbit]
    · rfl

private theorem Hears.tick_data {k s : Nat} (hr : u.rxR = frameBit l.byte (n / 17))
    (hn : n = 18 * (k + 1) + s + late.toNat) (hk : k < 8) (hs : s < 18)
    (hstate : u.stateRx = .DATA) (hsample : u.sample = BitVec.ofNat 5 s)
    (hpos : u.bitposRx = BitVec.ofNat 4 (if 6 < s then k + 1 else k))
    (hbits : ∀ j < if 6 < s then k + 1 else k, u.scratch.getLsbD j = l.byte.getLsbD j)
    (hdone : l.begun = done ++ [l.byte]) : Hears l (n + 1) done u.tick := by
  have hlate : late.toNat ≤ 1 := Bool.toNat_le late
  rw [tick_data_eq hk hs hstate hsample hpos]
  by_cases hlast : s = 17
  · subst hlast
    rw [if_pos (by decide)] at hbits
    by_cases hend : k = 7
    · refine .stop 0 late (by omega) (by decide) (if_pos ⟨hend, rfl⟩) rfl ?_ hdone
      refine BitVec.eq_of_getLsbD_eq fun j hj => ?_
      exact hbits j (by omega)
    · refine .data (k + 1) 0 late (by omega) (by omega) (by decide) ?_ rfl rfl ?_ hdone
      · exact if_neg fun h => hend h.1
      · exact hbits
  · have hstay : (if k = 7 ∧ s = 17 then RxState.STOP else .DATA) = .DATA :=
      if_neg fun h => hlast h.2
    have hnext : BitVec.ofNat 5 (if s = 17 then 0 else s + 1) = BitVec.ofNat 5 (s + 1) := by
      rw [if_neg hlast]
    refine .data k (s + 1) late (by omega) hk (by omega) hstay hnext ?_ ?_ hdone
    · dsimp only
      rw [if_congr Nat.lt_succ_iff rfl rfl]
    · intro j hj
      by_cases hmid : s = 6
      · have hslot : n / 17 = k + 1 := by omega
        rw [if_pos (by omega)] at hj
        rw [if_neg (by omega)] at hbits
        dsimp only
        rw [if_pos hmid, getLsbD_setBit (by omega)]
        split_ifs with hjk
        · rw [hr, hslot, frameBit_data hk, hjk]
        · exact hbits j (by omega)
      · dsimp only
        rw [if_neg hmid]
        refine hbits j (lt_of_lt_of_eq hj ?_)
        split_ifs <;> omega

private theorem Hears.tick_stop {s : Nat} (hr : u.rxR = frameBit l.byte (n / 17))
    (hn : n = 162 + s + late.toNat) (hs : s < 18) (hstate : u.stateRx = .STOP)
    (hsample : u.sample = BitVec.ofNat 5 s) (hbyte : u.scratch = l.byte)
    (hdone : l.begun = done ++ [l.byte]) : Hears l (n + 1) (done ++ u.ended true) u.tick := by
  have hlate : late.toNat ≤ 1 := Bool.toNat_le late
  have hhigh : u.rxR = true := by rw [hr, frameBit_stop (by omega)]
  have hdoneIff := stopDone_iff hs hsample
  rw [hhigh] at hdoneIff
  by_cases hlast : s = 17
  · have hstop : u.stopDone = true := hdoneIff.mpr (Or.inl hlast)
    have hended : u.ended true = [u.scratch] := by
      simp [ended, wireRxStateStop, hstate, hstop]
    have htick : u.tick = { u with stateRx := .START, dataRx := u.scratch, sample := 0 } := by
      simp only [UartRx.tick, hstate, hstop, hhigh, if_true]
    rw [hended, htick, hbyte, ← hdone]
    exact .rest (by omega) rfl rfl rfl
  · have hstop : u.stopDone = false := by
      refine Bool.eq_false_iff.mpr fun h => ?_
      rcases hdoneIff.mp h with h | ⟨_, h⟩
      · exact hlast h
      · cases h
    have hended : u.ended true = [] := by
      simp [ended, wireRxStateStop, hstop]
    have htick : u.tick = { u with sample := u.sample + 1 } := by
      simp only [UartRx.tick, hstate, hstop, Bool.false_eq_true, if_false]
    rw [hended, htick, List.append_nil]
    exact .stop (s + 1) late (by omega) (by omega) hstate (sample_succ hsample) hbyte hdone

/-- The start bit of the next frame ends the stop bit early. -/
theorem Hears.tick_ending {s : Nat} (hr : u.rxR = frameBit l.byte (n / 17)) (hn : n = 0)
    (hle : 4 ≤ s) (hlt : s < 17) (hstate : u.stateRx = .STOP)
    (hsample : u.sample = BitVec.ofNat 5 s) (hdone : l.begun = done ++ [u.scratch, l.byte]) :
    Hears l (n + 1) (done ++ u.ended true) u.tick := by
  have hlow : u.rxR = false := by rw [hr, hn]; rfl
  have hstop : u.stopDone = true := (stopDone_iff (by omega) hsample).mpr (Or.inr ⟨hle, hlow⟩)
  have hended : u.ended true = [u.scratch] := by
    simp [ended, wireRxStateStop, hstate, hstop]
  have htick : u.tick =
      { u with stateRx := .START_REMEDY, dataRx := u.scratch, sample := 0 } := by
    simp only [UartRx.tick, hstate, hstop, hlow, if_true, Bool.false_eq_true, if_false]
  rw [hended, htick]
  exact .startRemedy 0 (by omega) (by decide) rfl rfl (by rw [hdone, List.append_assoc]; rfl)

theorem Hears.tick (h : Hears l n done u) (hr : u.rxR = frameBit l.byte (n / 17)) :
    Hears l (n + 1) (done ++ u.ended true) u.tick := by
  cases h with
  | ending s hn hle hlt hstate hsample hdone =>
      exact .tick_ending hr hn hle hlt hstate hsample hdone
  | start hn hstate hsample hdone =>
      rw [ended_of_ne (by rw [hstate]; decide), List.append_nil]
      exact .tick_start hr hn hstate hsample hdone
  | startRemedy q hn hq hstate hsample hdone =>
      rw [ended_of_ne (by rw [hstate]; decide), List.append_nil]
      exact .tick_startRemedy hn hq hstate hsample hdone
  | data k s late hn hk hs hstate hsample hpos hbits hdone =>
      rw [ended_of_ne (by rw [hstate]; decide), List.append_nil]
      exact .tick_data hr hn hk hs hstate hsample hpos hbits hdone
  | stop s late hn hs hstate hsample hbyte hdone =>
      exact .tick_stop hr hn hs hstate hsample hbyte hdone
  | rest hn hstate hsample hdone =>
      have hhigh : u.rxR = true := by rw [hr, frameBit_stop (by omega)]
      have htick : u.tick = u := by
        simp only [UartRx.tick, hstate, hsample, hhigh]
        rfl
      rw [ended_of_ne (by rw [hstate]; decide), List.append_nil, htick]
      exact .rest (by omega) hstate hsample hdone

/-- A new frame begins when the receiver rests or is in the middle of the stop bit. -/
theorem Hears.next (h : Hears l n done u) (hlong : 170 ≤ n) (hslot : 17 ∣ n) (d : BitVec 8) :
    Hears (l.next d) 0 done u := by
  have hbegun : (l.next d).begun = l.begun ++ [(l.next d).byte] := by
    rw [SerialLine.byte_next]
    rfl
  cases h with
  | ending s hn => omega
  | start hn => omega
  | startRemedy q hn hq => omega
  | data k s late hn hk hs =>
      have hlate : late.toNat ≤ 1 := Bool.toNat_le late
      omega
  | stop s late hn hs hstate hsample hbyte hdone =>
      have hlate : late.toNat ≤ 1 := Bool.toNat_le late
      refine .ending s rfl (by omega) (by omega) hstate hsample ?_
      rw [hbegun, hdone, hbyte, List.append_assoc]
      rfl
  | rest hn hstate hsample hdone =>
      exact .start (by decide) hstate hsample (by rw [hbegun, hdone])

private theorem Hears.done_heard (h : Hears l n done u) : done <+: l.begun := by
  cases h with
  | ending s hn hle hlt hstate hsample hdone => exact hdone ▸ List.prefix_append _ _
  | start hn hstate hsample hdone => exact hdone ▸ List.prefix_append _ _
  | startRemedy q hn hq hstate hsample hdone => exact hdone ▸ List.prefix_append _ _
  | data k s late hn hk hs hstate hsample hpos hbits hdone =>
      exact hdone ▸ List.prefix_append _ _
  | stop s late hn hs hstate hsample hbyte hdone => exact hdone ▸ List.prefix_append _ _
  | rest hn hstate hsample hdone => exact hdone ▸ List.prefix_rfl

private theorem Hears.dropLast_heard (h : Hears l n done u) (hn : 1 ≤ n) :
    l.begun.dropLast <+: done := by
  have hlast : l.begun = done ++ [l.byte] → l.begun.dropLast <+: done := fun hdone => by
    rw [hdone, List.dropLast_concat]
  cases h with
  | ending s h0 => omega
  | start _ _ _ hdone => exact hlast hdone
  | startRemedy q _ _ _ _ hdone => exact hlast hdone
  | data k s late _ _ _ _ _ _ _ hdone => exact hlast hdone
  | stop s late _ _ _ _ _ hdone => exact hlast hdone
  | rest _ _ _ hdone => exact hdone ▸ List.dropLast_prefix _

private theorem Hears.done_of_long (h : Hears l n done u) (hn : 181 ≤ n) : l.begun = done := by
  cases h with
  | ending s h0 => omega
  | start hlt => omega
  | startRemedy q heq hlt => omega
  | data k s late heq hk hs => have hlate : late.toNat ≤ 1 := Bool.toNat_le late; omega
  | stop s late heq hs => have hlate : late.toNat ≤ 1 := Bool.toNat_le late; omega
  | rest _ _ _ hdone => exact hdone

def ticks (first clocks : Nat) : Nat := (clocks + 3 - first) / 4

theorem Hears.wire (h : Hears l n done u) (rxR rxNew rxnew : Bool) :
    Hears l.tick n done { u with rxR := rxR, rxNew := rxNew, rxnew := rxnew } := by
  cases h with
  | ending s hn hle hlt hstate hsample hdone =>
      exact .ending s hn hle hlt hstate hsample hdone
  | start hn hstate hsample hdone => exact .start hn hstate hsample hdone
  | startRemedy q hn hq hstate hsample hdone => exact .startRemedy q hn hq hstate hsample hdone
  | data k s late hn hk hs hstate hsample hpos hbits hdone =>
      exact .data k s late hn hk hs hstate hsample hpos hbits hdone
  | stop s late hn hs hstate hsample hbyte hdone =>
      exact .stop s late hn hs hstate hsample hbyte hdone
  | rest hn hstate hsample hdone => exact .rest hn hstate hsample hdone

theorem Hears.cycle {first clocks : Nat} (h : Hears l (ticks first clocks) done u)
    (hrst : i.rst = false) (hfirst : first < 4) (hr : u.rxR = frameBit l.byte (clocks / 68))
    (hen : en = true ↔ (clocks + 4 - first) % 4 = 0) :
    Hears l.tick (ticks first (clocks + 1)) (done ++ u.ended en) (u.cycle i en) := by
  unfold UartRx.cycle
  refine Hears.wire ?_ _ _ _
  rw [hrst, if_neg Bool.false_ne_true]
  unfold ticks at h ⊢
  cases en with
  | true =>
      have hmod := hen.mp rfl
      rw [show (clocks + 1 + 3 - first) / 4 = (clocks + 3 - first) / 4 + 1 by omega]
      exact h.tick (by rw [hr]; congr 1; omega)
  | false =>
      have hmod : ¬(clocks + 4 - first) % 4 = 0 := fun h0 => Bool.false_ne_true (hen.mpr h0)
      have hended : u.ended false = [] := rfl
      rw [hended, List.append_nil,
        show (clocks + 1 + 3 - first) / 4 = (clocks + 3 - first) / 4 by omega]
      exact h

end UartRx

/-! ## The two together -/

namespace Loopback

open UartTx UartRx

variable {ins : Nat → LoopbackIn} {i : LoopbackIn} {s : Loopback} {l l' : SerialLine}
  {first t : Nat} {done : List (BitVec 8)}

/--
The receiver has registered the line `l`, one clock behind the line `l'` of the sender.
A bit is 17 ticks long, so `first` is the same in all frames.
-/
structure Linked (first : Nat) (l l' : SerialLine) (done : List (BitVec 8)) (s : Loopback) :
    Prop where
  bound : first < 4
  step : SerialLine.Step 68 l l'
  rxAcc : s.receiver.gen.rxAcc.toNat = (l.clocks + 4 - first) % 4
  txAcc : s.sender.gen.txAcc.toNat = (l'.clocks + 1) % 68
  rxR : s.receiver.receiver.rxR = l.level 68
  hears : Hears l (ticks first l.clocks) done s.receiver.receiver
  sends : Sends l' s.sender.sender

theorem Linked.rxclkEn (h : Linked first l l' done s) :
    s.receiver.gen.rxclkEn = true ↔ (l.clocks + 4 - first) % 4 = 0 := by
  rw [BaudRateGen.rxclkEn, beq_iff_eq, ← BitVec.toNat_inj, h.rxAcc]
  rfl

theorem Linked.txclkEn (h : Linked first l l' done s) :
    s.sender.gen.txclkEn = true ↔ (l'.clocks + 1) % 68 = 0 := by
  rw [BaudRateGen.txclkEn, beq_iff_eq, ← BitVec.toNat_inj, h.txAcc]
  rfl

def drive (s : Loopback) (l : SerialLine) : SerialLine :=
  s.sender.sender.drive s.sender.gen.txclkEn l

private theorem sender_cycle : (s.cycle i).sender.sender =
    s.sender.sender.cycle i.sender s.sender.gen.txclkEn := rfl

theorem Linked.cycle (h : Linked first l l' done s) (hsender : i.sender.rst = false)
    (hreceiver : i.receiver.rst = false) :
    Linked first l' (s.drive l') (done ++ s.receiver.receiver.ended s.receiver.gen.rxclkEn)
      (s.cycle i) where
  bound := h.bound
  step := h.sends.step_drive h.txclkEn
  rxAcc := by
    have hcount : (BaudRateGen.count 3 false s.receiver.gen.rxAcc).toNat =
        (s.receiver.gen.rxAcc.toNat + 1) % 4 :=
      BaudRateGen.toNat_count (by decide) (by rw [h.rxAcc]; omega)
    have hnext : (s.cycle i).receiver.gen.rxAcc.toNat = (s.receiver.gen.rxAcc.toNat + 1) % 4 := by
      rw [← hcount, ← hreceiver]
      rfl
    have hmod := h.step.clocks_mod (m := 4) (by decide)
    have hbound := h.bound
    rw [hnext, h.rxAcc]
    omega
  txAcc := by
    have hcount : (BaudRateGen.count 67 false s.sender.gen.txAcc).toNat =
        (s.sender.gen.txAcc.toNat + 1) % 68 :=
      BaudRateGen.toNat_count (by decide) (by rw [h.txAcc]; omega)
    have hnext : (s.cycle i).sender.gen.txAcc.toNat = (s.sender.gen.txAcc.toNat + 1) % 68 := by
      rw [← hcount, ← hsender]
      rfl
    have hmod := (h.sends.step_drive h.txclkEn).clocks_mod (m := 68) dvd_rfl
    rw [hnext, h.txAcc]
    unfold drive
    omega
  rxR := h.sends.tx
  hears := by
    have hcycle := h.hears.cycle (i := s.wired i) hreceiver h.bound h.rxR h.rxclkEn
    have hbound := h.bound
    cases h.step with
    | runs => exact hcycle
    | begins d hlong hslot =>
        have h0 : ticks first (l.next d).clocks = 0 := by
          change (0 + 3 - first) / 4 = 0
          omega
        rw [h0]
        exact hcycle.next (by unfold ticks; omega) (by unfold ticks; omega) d
  sends := h.sends.cycle hsender h.txclkEn

/-! ## Runs -/

/-- The line registered by the receiver at each clock; the next one is the sender's. -/
def lines (l l' : SerialLine) (ins : Nat → LoopbackIn) (s : Loopback) : Nat → SerialLine
  | 0 => l
  | 1 => l'
  | t + 2 => (trace cycle ins s t).drive (lines l l' ins s (t + 1))

def ends : (Nat → LoopbackIn) → Loopback → Nat → List (BitVec 8) :=
  logged cycle fun _ s => s.receiver.receiver.ended s.receiver.gen.rxclkEn

def Runs (ins : Nat → LoopbackIn) : Prop :=
  ∀ t, (ins t).sender.rst = false ∧ (ins t).receiver.rst = false

theorem Linked.run (h : Linked first l l' [] s) (hrst : Runs ins) (t : Nat) :
    Linked first (lines l l' ins s t) (lines l l' ins s (t + 1)) (ends ins s t)
      (trace Loopback.cycle ins s t) := by
  induction t with
  | zero => exact h
  | succ t ih => exact ih.cycle (hrst t).1 (hrst t).2

private theorem Linked.line_step (h : Linked first l l' [] s) (hrst : Runs ins) (t : Nat) :
    SerialLine.Step 68 (lines l l' ins s t) (lines l l' ins s (t + 1)) :=
  (h.run hrst t).step

/-! ### What is sent -/

private theorem sent_eq (hbegun : l'.begun ++ s.sender.sender.pending = []) (hrst : Runs ins)
    (t : Nat) :
    sent ins s t =
      (lines l l' ins s (t + 1)).begun ++ (trace cycle ins s t).sender.sender.pending := by
  induction t with
  | zero => exact hbegun.symm
  | succ t ih =>
      rw [sent, logged_succ, ← sent, ih]
      exact (begun_drive (hrst t).1).symm

theorem Linked.begins (h : Linked first l l' [] s) (hrst : Runs ins)
    (hbegun : l'.begun ++ s.sender.sender.pending = []) {r : Nat}
    (hstart : (trace Loopback.cycle ins s t).sender.sender.stateTx = .START)
    (hwait : (lines l l' ins s (t + 1)).clocks % 68 + r = 67) :
    sent ins s t = (lines l l' ins s (t + 2 + r)).begun := by
  induction r generalizing t with
  | zero =>
      have hen := (h.run hrst t).txclkEn.mpr (by omega)
      rw [sent_eq hbegun hrst, pending, if_pos hstart, Nat.add_zero, lines, Loopback.drive,
        UartTx.drive, if_pos ⟨hstart, hen⟩]
      rfl
  | succ r ih =>
      have hen : (trace Loopback.cycle ins s t).sender.gen.txclkEn = false := by
        refine Bool.eq_false_iff.mpr fun hen => ?_
        have hmod := (h.run hrst t).txclkEn.mp hen
        omega
      have hcycle : (trace Loopback.cycle ins s (t + 1)).sender.sender =
          (trace Loopback.cycle ins s t).sender.sender := by
        rw [trace_succ, sender_cycle, hen]
        exact cycle_waiting (hrst t).1 hstart
      have hline : lines l l' ins s (t + 2) = (lines l l' ins s (t + 1)).tick := by
        rw [lines, Loopback.drive, UartTx.drive, hen]
        exact if_neg fun hand => Bool.false_ne_true hand.2
      have hsent : sent ins s t = sent ins s (t + 1) := by
        rw [sent_eq hbegun hrst, sent_eq hbegun hrst, hcycle, hline]
        rfl
      rw [hsent, show t + 2 + (r + 1) = t + 1 + 2 + r by omega]
      refine ih (by rw [hcycle]; exact hstart) ?_
      rw [hline]
      change ((lines l l' ins s (t + 1)).clocks + 1) % 68 + r = 67
      omega

private theorem Linked.sent_begun (h : Linked first l l' [] s) (hrst : Runs ins)
    (hbegun : l'.begun ++ s.sender.sender.pending = []) (t : Nat) :
    sent ins s t <+: (lines l l' ins s (t + 69)).begun := by
  have hmono : ∀ {m n}, m ≤ n →
      (lines l l' ins s m).begun <+: (lines l l' ins s n).begun := fun {m n} hle => by
    have hinitial := SerialLine.begun_extends (h.line_step hrst) m (n - m)
    rwa [Nat.add_sub_cancel' hle] at hinitial
  by_cases hstart : (trace Loopback.cycle ins s t).sender.sender.stateTx = .START
  · rw [h.begins hrst hbegun hstart
      (r := 67 - (lines l l' ins s (t + 1)).clocks % 68) (by omega)]
    exact hmono (by omega)
  · rw [sent_eq hbegun hrst, pending, if_neg hstart, List.append_nil]
    exact hmono (by omega)

/-! ### What is received -/

private theorem begun_ends (h : Linked first l l' [] s) (hrst : Runs ins) (m : Nat) :
    (lines l l' ins s m).begun <+: ends ins s (m + 752) := by
  rcases SerialLine.run_or_begun (h.line_step hrst) m 748 with hline | ⟨j, hj, hclocks, hbegun⟩
  · have hhears := (h.run hrst (m + 748)).hears
    have hbound := h.bound
    rw [hline] at hhears
    have hdone := hhears.done_of_long (by unfold ticks; dsimp only; omega)
    dsimp only at hdone
    rw [hdone]
    exact logged_extends (m + 748) 4
  · have hline := SerialLine.run_frame (h.line_step hrst) (t := m + j) (k := 4)
      (by rw [hclocks]; decide)
    have hhears := (h.run hrst (m + j + 4)).hears
    have hbound := h.bound
    rw [hline, hclocks] at hhears
    have hdone := hhears.dropLast_heard (by unfold ticks; dsimp only; omega)
    refine hbegun.trans (hdone.trans ?_)
    have hinitial : ends ins s (m + j + 4) <+: ends ins s (m + j + 4 + (748 - j)) :=
      logged_extends _ _
    rwa [show m + j + 4 + (748 - j) = m + 752 by omega] at hinitial

private theorem raised_cycle (hrst : i.receiver.rst = false) (j : LoopbackIn) :
    raised j (s.cycle i) = s.receiver.receiver.ended s.receiver.gen.rxclkEn := by
  have hdata : (s.cycle i).receiver.rxdata = _ := dataRx_cycle (i := s.wired i) hrst
  have hirq : (s.cycle i).receiver.irq = _ := rxnew_cycle (i := s.wired i)
  unfold raised
  rw [hirq, hdata]
  unfold ended
  split_ifs <;> rfl

private theorem received_succ (hnew : s.receiver.irq = false) (hrst : Runs ins) (t : Nat) :
    received ins s (t + 1) = ends ins s t := by
  induction t with
  | zero =>
      rw [received, logged_succ, logged_zero, trace_zero, raised, hnew]
      rfl
  | succ t ih =>
      rw [received, logged_succ, ← received, ih, trace_succ, raised_cycle (hrst t).2]
      rfl

private theorem rxdata_eq (hrst : Runs ins) (t : Nat) :
    (trace Loopback.cycle ins s t).receiver.rxdata =
      (ends ins s t).getLast?.getD s.receiver.rxdata := by
  induction t with
  | zero => rfl
  | succ t ih =>
      have hdata : (trace Loopback.cycle ins s (t + 1)).receiver.rxdata = _ :=
        dataRx_cycle (i := (trace Loopback.cycle ins s t).wired (ins t)) (hrst t).2
      have hends : ends ins s (t + 1) = ends ins s t ++ _ := rfl
      rw [hdata, hends, List.getLast?_append]
      change _ = Option.getD (Option.or _ _) _
      rw [Option.getD_or, ← ih]
      rfl

theorem Linked.delivers (h : Linked first l l' [] s) (hrst : Runs ins)
    (hbegun : l'.begun ++ s.sender.sender.pending = []) (hnew : s.receiver.irq = false) :
    Delivers ins s where
  inOrder := by
    intro t
    cases t with
    | zero => exact List.nil_prefix
    | succ t =>
        have hdone := (h.run hrst t).hears.done_heard
        have hline := SerialLine.begun_extends (h.line_step hrst) t 2
        rw [received_succ hnew hrst, sent_eq hbegun hrst]
        exact hdone.trans (hline.trans (List.prefix_append _ _))
  all := by
    intro t
    rw [received_succ hnew hrst]
    exact (h.sent_begun hrst hbegun t).trans (begun_ends h hrst (t + 69))
  once := by
    intro t hraised
    cases t with
    | zero => rw [trace_zero, hnew] at hraised; cases hraised
    | succ t =>
        -- The pulse comes from a tick, and the next tick is four clocks later.
        have hnext : (trace Loopback.cycle ins s (t + 2)).receiver.irq =
            (trace Loopback.cycle ins s (t + 1)).receiver.receiver.wireRxStateStop
              (trace Loopback.cycle ins s (t + 1)).receiver.gen.rxclkEn := rfl
        have hnow : (trace Loopback.cycle ins s (t + 1)).receiver.irq =
            (trace Loopback.cycle ins s t).receiver.receiver.wireRxStateStop
              (trace Loopback.cycle ins s t).receiver.gen.rxclkEn := rfl
        have hen := (h.run hrst t).rxclkEn.mp (rxclkEn_of_wire (hnow ▸ hraised))
        refine Bool.eq_false_iff.mpr fun hagain => ?_
        have hen' := (h.run hrst (t + 1)).rxclkEn.mp (rxclkEn_of_wire (hnext ▸ hagain))
        have hmod := (h.line_step hrst t).clocks_mod (m := 4) (by decide)
        have hbound := h.bound
        omega
  held := by
    intro t
    rw [received_succ hnew hrst]
    exact rxdata_eq hrst t

/-- At rest the line looks as if its last frame had begun long ago. -/
theorem AtRest.linked (h : AtRest s) : ∃ first l, l.begun = [] ∧ Linked first l l.tick [] s := by
  have hrx : s.receiver.gen.rxAcc.toNat ≤ 3 := h.rxAcc
  have htx : s.sender.gen.txAcc.toNat ≤ 67 := h.txAcc
  generalize hrxAcc : s.receiver.gen.rxAcc.toNat = rxAcc at hrx
  generalize htxAcc : s.sender.gen.txAcc.toNat = txAcc at htx
  have hslot : 9 ≤ (SerialLine.mk [] (814 + txAcc)).slot 68 := by
    unfold SerialLine.slot
    dsimp only
    omega
  have hslot' : 9 ≤ (SerialLine.mk [] (814 + txAcc)).tick.slot 68 := by
    unfold SerialLine.slot SerialLine.tick
    dsimp only
    omega
  refine ⟨(txAcc + 70 - rxAcc) % 4, ⟨[], 814 + txAcc⟩, rfl, ?_⟩
  exact {
    bound := Nat.mod_lt _ (by decide)
    step := .runs _
    rxAcc := by rw [hrxAcc]; dsimp only; omega
    txAcc := by rw [htxAcc, SerialLine.tick]; dsimp only; omega
    rxR := by rw [h.rxR, SerialLine.level_high hslot]
    hears := .rest (by unfold ticks; dsimp only; omega) h.stateRx h.sample rfl
    sends := .idle hslot' h.stateTx (by rw [h.tx, SerialLine.level_high hslot']) }

theorem delivers_each_byte_once (hrest : AtRest s) (hrst : Runs ins) : Delivers ins s := by
  obtain ⟨first, l, hbegun, hlinked⟩ := hrest.linked
  refine hlinked.delivers hrst ?_ hrest.rxnew
  have hpending : s.sender.sender.pending = [] :=
    if_neg (by rw [hrest.stateTx]; decide)
  rw [hpending, List.append_nil]
  exact hbegun

/-- Both UARTs have just been reset, at any distance of their accumulators. -/
def fresh (rxAcc txAcc : BitVec 20) : Loopback :=
  let idle : Uart := {
    gen := ⟨rxAcc, txAcc⟩
    sender := ⟨true, .IDLE, 0, 0⟩
    receiver := ⟨true, .START, 0, 0, 0, 0, false, false⟩ }
  ⟨idle, idle⟩

/-- A write in every clock: the bytes go out back to back. -/
def busy (_ : Nat) : LoopbackIn :=
  let i : UartIn := { rst := false, rx := true, a := 0, d := 0x41000000#32, we := true }
  ⟨i, i⟩

theorem delivers_back_to_back : Delivers busy (fresh 2 41) :=
  delivers_each_byte_once
    ⟨by decide, by decide, rfl, rfl, rfl, rfl, rfl, rfl⟩ fun _ => ⟨rfl, rfl⟩

theorem Delivers.complete (h : Delivers ins s) {bytes : List (BitVec 8)}
    (hsent : ∀ n, t ≤ n → sent ins s n = bytes) {n : Nat} (hn : t + 822 ≤ n) :
    received ins s n = bytes := by
  have hpre := h.inOrder n
  have hall := h.all (n - 822)
  rw [hsent n (by omega)] at hpre
  rw [hsent _ (by omega), Nat.sub_add_cancel (by omega)] at hall
  exact hpre.eq_of_length (le_antisymm hpre.length_le hall.length_le)

/-! ## Where a run starts -/

/-- Two clocks of reset are enough, whatever the state before. -/
theorem atRest_of_reset {j : LoopbackIn} (hi : i.sender.rst = true ∧ i.receiver.rst = true)
    (hj : j.sender.rst = true ∧ j.receiver.rst = true) : AtRest ((s.cycle i).cycle j) := by
  have hsender : (s.cycle i).sender.sender = ⟨true, .IDLE, 0, 0⟩ := by
    rw [sender_cycle, UartTx.cycle, if_pos hi.1]
  have hstart : (s.cycle i).receiver.receiver.stateRx = .START := by
    simp [Loopback.cycle, Uart.cycle, UartRx.cycle, wired, hi.2]
  constructor
  · simp [Loopback.cycle, Uart.cycle, BaudRateGen.cycle, BaudRateGen.count, wired, hj.2]
  · simp [Loopback.cycle, Uart.cycle, BaudRateGen.cycle, BaudRateGen.count, hj.1]
  · rw [sender_cycle, UartTx.cycle, if_pos hj.1]
  · rw [sender_cycle, UartTx.cycle, if_pos hj.1]
  · exact congrArg UartTx.tx hsender
  · simp [Loopback.cycle, Uart.cycle, UartRx.cycle, wired, hj.2]
  · simp [Loopback.cycle, Uart.cycle, UartRx.cycle, wired, hj.2]
  · change (s.cycle i).receiver.receiver.wireRxStateStop _ = false
    simp [wireRxStateStop, hstart]

/-- Until the first write the accumulators run on, each in its own time. -/
theorem AtRest.cycle (h : AtRest s) (hwe : s.sender.sender.accepts i.sender = false) :
    AtRest (s.cycle i) := by
  have hsender : (s.cycle i).sender.sender.tx = true ∧
      (s.cycle i).sender.sender.stateTx = .IDLE := by
    rw [sender_cycle, UartTx.cycle]
    unfold accepts at hwe
    cases hrst : i.sender.rst with
    | true => exact ⟨rfl, rfl⟩
    | false =>
        simp only [hrst, h.stateTx, Bool.not_false, beq_self_eq_true, Bool.true_and] at hwe
        simp only [h.stateTx, hwe, Bool.false_eq_true, if_false]
        exact ⟨h.tx, trivial⟩
  have htick : s.receiver.receiver.tick = s.receiver.receiver := by
    simp only [UartRx.tick, h.stateRx, h.sample, h.rxR]
    rfl
  have hreceiver : (s.cycle i).receiver.receiver.stateRx = .START ∧
      (s.cycle i).receiver.receiver.sample = 0 := by
    simp only [Loopback.cycle, Uart.cycle, UartRx.cycle, htick, ite_self]
    split_ifs
    · exact ⟨rfl, rfl⟩
    · exact ⟨h.stateRx, h.sample⟩
  constructor
  · exact BaudRateGen.count_le (by decide) (by decide) h.rxAcc _
  · exact BaudRateGen.count_le (by decide) (by decide) h.txAcc _
  · exact hsender.1
  · exact hsender.2
  · exact h.tx
  · exact hreceiver.1
  · exact hreceiver.2
  · change s.receiver.receiver.wireRxStateStop _ = false
    simp [wireRxStateStop, h.stateRx]

end Loopback

end PComputer.Rtl
