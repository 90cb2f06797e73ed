import PComputer.Foundation.ByteLanes
import PComputer.Foundation.Clocked

/-!
# The transmitter of `ch375b.v`

A byte written to one address goes out with the ninth bit set, a byte written to
another one with the ninth bit clear.  The driver polls the transmitter around each
write, so each of its writes becomes one frame on the line.
-/

namespace PComputer.Rtl

open PComputer.Foundation

/-! ## The transmitter -/

structure Ch375bIn where
  rst : Bool
  a : BitVec 3
  d : Word
  we : Bool

def Ch375bIn.data (i : Ch375bIn) : BitVec 8 := i.d.extractLsb' 24 8

def Ch375bIn.writes (i : Ch375bIn) : Bool := i.we && (i.a == 0 || i.a == 2)

inductive Ch375bState where
  | IDLE | START | DATA | DATA_SEL | STOP
  deriving DecidableEq, Repr

structure Ch375bTx where
  tx : Bool
  stateTx : Ch375bState
  dataTx : BitVec 8
  bitposTx : BitVec 3
  cmdOrData : Bool

/-- What the ninth bit tells from the data. -/
structure UsbFrame where
  command : Bool
  byte : BitVec 8
  deriving DecidableEq, Repr

namespace Ch375bTx

variable (txclkEn : Bool) (i : Ch375bIn) (u : Ch375bTx)

def cycle : Ch375bTx :=
  if i.rst then { tx := true, dataTx := 0, stateTx := .IDLE, bitposTx := 0, cmdOrData := true }
  else
    match u.stateTx with
    | .IDLE =>
        if i.writes then
          { u with
            dataTx := i.data
            stateTx := .START
            bitposTx := 0
            cmdOrData := !i.a.getLsbD 1 }
        else u
    | .START => if txclkEn then { u with tx := false, stateTx := .DATA } else u
    | .DATA =>
        if txclkEn then
          { u with
            stateTx := if u.bitposTx = 7 then .DATA_SEL else .DATA
            bitposTx := if u.bitposTx = 7 then u.bitposTx else u.bitposTx + 1
            tx := u.dataTx.getLsbD u.bitposTx.toNat }
        else u
    | .DATA_SEL => if txclkEn then { u with tx := u.cmdOrData, stateTx := .STOP } else u
    | .STOP => if txclkEn then { u with tx := true, stateTx := .IDLE } else u

def spoDone : Word := 0#7 ++ BitVec.ofBool (u.stateTx == .IDLE) ++ 0#24

/-! ## The bits on the line -/

def shifted : List Bool :=
  if txclkEn && u.stateTx != .IDLE then [(u.cycle txclkEn i).tx] else []

def accepted : List UsbFrame :=
  if u.stateTx == .IDLE && i.writes then [⟨!i.a.getLsbD 1, i.data⟩] else []

end Ch375bTx

def dataBits (byte : BitVec 8) (k : Nat) : List Bool :=
  (List.range' k (8 - k)).map byte.getLsbD

private theorem dataBits_of_lt {byte : BitVec 8} {k : Nat} (h : k < 8) :
    dataBits byte k = byte.getLsbD k :: dataBits byte (k + 1) := by
  unfold dataBits
  rw [show 8 - k = 8 - (k + 1) + 1 by omega, List.range'_succ, List.map_cons]

def UsbFrame.lineBits (f : UsbFrame) : List Bool :=
  false :: dataBits f.byte 0 ++ [f.command, true]

/-- A start bit, eight bits from the least significant on, the ninth bit, and a stop bit. -/
def deframe : List Bool → Option (List UsbFrame)
  | [] => some []
  | false :: b0 :: b1 :: b2 :: b3 :: b4 :: b5 :: b6 :: b7 :: command :: true :: rest =>
      (deframe rest).map fun fs =>
        ⟨command, BitVec.ofBool b7 ++ BitVec.ofBool b6 ++ BitVec.ofBool b5 ++ BitVec.ofBool b4 ++
          BitVec.ofBool b3 ++ BitVec.ofBool b2 ++ BitVec.ofBool b1 ++ BitVec.ofBool b0⟩ :: fs
  | _ => none

private theorem deframe_lineBits (f : UsbFrame) (rest : List Bool) :
    deframe (f.lineBits ++ rest) = (deframe rest).map (f :: ·) := by
  obtain ⟨command, byte⟩ := f
  have hbyte : BitVec.ofBool (byte.getLsbD 7) ++ BitVec.ofBool (byte.getLsbD 6) ++
      BitVec.ofBool (byte.getLsbD 5) ++ BitVec.ofBool (byte.getLsbD 4) ++
      BitVec.ofBool (byte.getLsbD 3) ++ BitVec.ofBool (byte.getLsbD 2) ++
      BitVec.ofBool (byte.getLsbD 1) ++ BitVec.ofBool (byte.getLsbD 0) = byte := by
    revert byte
    decide
  change (deframe rest).map _ = _
  simp only [hbyte]

private theorem deframe_flatMap (fs : List UsbFrame) :
    deframe (fs.flatMap UsbFrame.lineBits) = some fs := by
  induction fs with
  | nil => rfl
  | cons f fs ih => rw [List.flatMap_cons, deframe_lineBits, ih, Option.map_some]

namespace Ch375bTx

variable {txclkEn : Bool} {i : Ch375bIn} {u : Ch375bTx}

def pending (u : Ch375bTx) : List Bool :=
  match u.stateTx with
  | .IDLE => []
  | .START => false :: dataBits u.dataTx 0 ++ [u.cmdOrData, true]
  | .DATA => dataBits u.dataTx u.bitposTx.toNat ++ [u.cmdOrData, true]
  | .DATA_SEL => [u.cmdOrData, true]
  | .STOP => [true]

/-- In the data state the counter starts at the first bit. -/
def Ready (u : Ch375bTx) : Prop := u.stateTx = .START → u.bitposTx = 0

theorem Ready.cycle (hrst : i.rst = false) (h : Ready u) : Ready (u.cycle txclkEn i) := by
  unfold Ready Ch375bTx.cycle at *
  rw [hrst]
  cases hstate : u.stateTx <;> cases txclkEn <;> simp_all
  all_goals split_ifs <;> simp_all

private theorem pending_data {u : Ch375bTx} (h : u.stateTx = .DATA) :
    u.pending = u.dataTx.getLsbD u.bitposTx.toNat ::
      (dataBits u.dataTx (u.bitposTx.toNat + 1) ++ [u.cmdOrData, true]) := by
  unfold pending
  rw [h]
  simp only
  rw [dataBits_of_lt u.bitposTx.isLt, List.cons_append]

/-- What goes out in a cycle and what is left after it were pending or have been taken in. -/
theorem shifted_append_pending (txclkEn : Bool) (hrst : i.rst = false) (h : Ready u) :
    shifted txclkEn i u ++ (u.cycle txclkEn i).pending =
      u.pending ++ (accepted i u).flatMap UsbFrame.lineBits := by
  cases hstate : u.stateTx with
  | IDLE =>
      cases hwrites : i.writes <;>
        simp [shifted, accepted, Ch375bTx.cycle, pending, UsbFrame.lineBits, hrst, hstate, hwrites]
  | DATA =>
      have hidle : accepted i u = [] := by simp [accepted, hstate]
      rw [hidle, List.flatMap_nil, List.append_nil]
      cases txclkEn with
      | false => simp [shifted, Ch375bTx.cycle, hrst, hstate]
      | true =>
          rw [pending_data hstate]
          unfold shifted Ch375bTx.cycle
          simp only [hrst, hstate, Bool.false_eq_true, if_false, if_true]
          by_cases hlast : u.bitposTx = 7
          · simp [pending, hlast, dataBits]
          · have hnext : (u.bitposTx + 1).toNat = u.bitposTx.toNat + 1 := by
              have hlt : u.bitposTx.toNat ≠ 7 := fun heq => hlast (BitVec.eq_of_toNat_eq heq)
              have hbound := u.bitposTx.isLt
              have hone : (1 : BitVec 3).toNat = 1 := rfl
              rw [BitVec.toNat_add, hone]
              omega
            simp only [bne, pending, if_neg hlast, hnext]
            rfl
  | START =>
      cases txclkEn <;>
        simp [shifted, accepted, Ch375bTx.cycle, pending, hrst, hstate, h hstate]
  | DATA_SEL =>
      cases txclkEn <;> simp [shifted, accepted, Ch375bTx.cycle, pending, hrst, hstate]
  | STOP =>
      cases txclkEn <;> simp [shifted, accepted, Ch375bTx.cycle, pending, hrst, hstate]

end Ch375bTx

/-! ## `CH375_WR` and `CH375_WR_DATA` -/

def USB_TX_CMD : Word := 0x97000000
def USB_TX_DATA : Word := 0x97000008

/-- Where the two functions stand: the first loop on `usb_tx_done`, the write, the second loop. -/
inductive WritePhase where
  | before | store | after
  deriving DecidableEq, Repr

/-- The frames that are still to be written, the current one first. -/
structure Ch375Writer where
  frames : List UsbFrame
  phase : WritePhase
  port : Ch375bTx

/-- Whether the CPU makes its next access in the cycle, and the tick of the baud rate. -/
structure WriterIn where
  access : Bool
  txclkEn : Bool

namespace Ch375Writer

def start (port : Ch375bTx) (frames : List UsbFrame) : Ch375Writer := ⟨frames, .before, port⟩

variable (i : WriterIn) (w : Ch375Writer)

def storing : Option UsbFrame :=
  if i.access && w.phase == .store then w.frames.head? else none

/-- The access as `mmapper` passes it on; the CPU stores with its bytes swapped. -/
def request : Ch375bIn :=
  match w.storing i with
  | some f =>
      { rst := false
        a := (if f.command then USB_TX_CMD else USB_TX_DATA).extractLsb' 2 3
        d := byteSwap (f.byte.setWidth 32)
        we := true }
  | none => { rst := false, a := USB_TX_DATA.extractLsb' 2 3, d := 0, we := false }

def usbTxDone : Bool := byteSwap w.port.spoDone != 0

def accessed : Ch375Writer :=
  match w.phase with
  | .before => { w with phase := if w.usbTxDone then .store else .before }
  | .store => { w with phase := .after }
  | .after => if w.usbTxDone then { w with frames := w.frames.tail, phase := .before } else w

def cycle : Ch375Writer :=
  { (if i.access && !w.frames.isEmpty then w.accessed else w : Ch375Writer) with
    port := w.port.cycle i.txclkEn (w.request i) }

def bit (i : WriterIn) (w : Ch375Writer) : List Bool := w.port.shifted i.txclkEn (w.request i)

variable {i w} {ins : Nat → WriterIn} {port : Ch375bTx} {frames : List UsbFrame}

private theorem usbTxDone_eq : w.usbTxDone = (w.port.stateTx == .IDLE) := by
  unfold usbTxDone Ch375bTx.spoDone
  cases w.port.stateTx <;> decide

def unstored (w : Ch375Writer) : List UsbFrame :=
  if w.phase = .after then w.frames.tail else w.frames

/-- Frames are stored while the transmitter is idle. -/
structure Polls (w : Ch375Writer) : Prop where
  ready : w.port.Ready
  store : w.phase = .store → w.port.stateTx = .IDLE
  done : w.frames = [] → w.phase = .before ∧ w.port.stateTx = .IDLE

variable {f : UsbFrame}

theorem request_rst : (w.request i).rst = false := by
  unfold request
  split <;> rfl

private theorem data_byteSwap (byte : BitVec 8) :
    (byteSwap (byte.setWidth 32)).extractLsb' 24 8 = byte := by
  revert byte
  decide

private theorem accepted_request (hstoring : w.storing i = some f)
    (hidle : w.port.stateTx = .IDLE) :
    Ch375bTx.accepted (w.request i) w.port = [f] := by
  obtain ⟨command, byte⟩ := f
  have hdata := data_byteSwap byte
  unfold Ch375bTx.accepted request
  rw [hstoring, hidle]
  cases command <;> simp [Ch375bIn.writes, Ch375bIn.data, USB_TX_CMD, USB_TX_DATA, hdata]

private theorem accepted_of_storing_none (hstoring : w.storing i = none) :
    Ch375bTx.accepted (w.request i) w.port = [] := by
  unfold Ch375bTx.accepted request
  rw [hstoring]
  simp [Ch375bIn.writes]

private theorem port_cycle_of_idle (hstoring : w.storing i = none)
    (hidle : w.port.stateTx = .IDLE) :
    w.port.cycle i.txclkEn (w.request i) = w.port := by
  unfold Ch375bTx.cycle request
  rw [hstoring, hidle]
  simp [Ch375bIn.writes]

private theorem storing_eq_some (h : w.storing i = some f) :
    i.access = true ∧ w.phase = .store ∧ ∃ rest, w.frames = f :: rest := by
  unfold storing at h
  split_ifs at h with hstore
  rw [Bool.and_eq_true, beq_iff_eq] at hstore
  exact ⟨hstore.1, hstore.2, List.head?_eq_some_iff.mp h⟩

private theorem accepted_append_unstored (h : Polls w) :
    Ch375bTx.accepted (w.request i) w.port ++ (w.cycle i).unstored = w.unstored := by
  cases hstoring : w.storing i with
  | some f =>
      obtain ⟨haccess, hphase, rest, hframes⟩ := storing_eq_some hstoring
      rw [accepted_request hstoring (h.store hphase)]
      simp [unstored, cycle, accessed, haccess, hphase, hframes]
  | none =>
      rw [accepted_of_storing_none hstoring, List.nil_append]
      cases haccess : i.access with
      | false => simp [unstored, cycle, haccess]
      | true =>
          cases hframes : w.frames with
          | nil => simp [unstored, cycle, hframes]
          | cons f rest =>
              cases hphase : w.phase with
              | store => simp [storing, haccess, hphase, hframes] at hstoring
              | before =>
                  cases hdone : w.usbTxDone <;>
                    simp [unstored, cycle, accessed, haccess, hphase, hframes, hdone]
              | after =>
                  cases hdone : w.usbTxDone <;>
                    simp [unstored, cycle, accessed, haccess, hphase, hframes, hdone]

theorem Polls.cycle (h : Polls w) : Polls (w.cycle i) := by
  have hidle (hphase : i.access = true → w.phase ≠ .store) (hport : w.port.stateTx = .IDLE) :
      (w.cycle i).port.stateTx = .IDLE := by
    have hstoring : w.storing i = none := by
      cases haccess : i.access with
      | false => simp [storing, haccess]
      | true => simp [storing, haccess, hphase haccess]
    change (w.port.cycle i.txclkEn (w.request i)).stateTx = _
    rw [port_cycle_of_idle hstoring hport, hport]
  have hready : (w.cycle i).port.Ready := h.ready.cycle request_rst
  cases hframes : w.frames with
  | nil =>
      obtain ⟨hphase, hport⟩ := h.done hframes
      have hidle' := hidle (fun _ => by rw [hphase]; decide) hport
      have hphase' : (w.cycle i).phase = .before := by simp [Ch375Writer.cycle, hframes, hphase]
      exact ⟨hready, fun _ => hidle', fun _ => ⟨hphase', hidle'⟩⟩
  | cons f rest =>
      cases haccess : i.access with
      | false =>
          refine ⟨hready, fun hstore => ?_, fun hnil => ?_⟩
          · refine hidle (fun htrue => ?_) (h.store
              (by simpa [Ch375Writer.cycle, haccess] using hstore))
            rw [haccess] at htrue
            cases htrue
          · simp [Ch375Writer.cycle, haccess, hframes] at hnil
      | true =>
          cases hphase : w.phase with
          | store =>
              refine ⟨hready, fun hstore => ?_, fun hnil => ?_⟩
              · simp [Ch375Writer.cycle, accessed, haccess, hframes, hphase] at hstore
              · simp [Ch375Writer.cycle, accessed, haccess, hframes, hphase] at hnil
          | before =>
              refine ⟨hready, fun hstore => ?_, fun hnil => ?_⟩
              · refine hidle (fun _ => by rw [hphase]; decide) ?_
                simpa [Ch375Writer.cycle, accessed, haccess, hframes, hphase, usbTxDone_eq] using
                  hstore
              · simp [Ch375Writer.cycle, accessed, haccess, hframes, hphase] at hnil
          | after =>
              cases hdone : w.usbTxDone with
              | false =>
                  refine ⟨hready, fun hstore => ?_, fun hnil => ?_⟩
                  · simp [Ch375Writer.cycle, accessed, haccess, hframes, hphase, hdone] at hstore
                  · simp [Ch375Writer.cycle, accessed, haccess, hframes, hphase, hdone] at hnil
              | true =>
                  have hport : w.port.stateTx = .IDLE := by
                    simpa [usbTxDone_eq] using hdone
                  have hidle' := hidle (fun _ => by rw [hphase]; decide) hport
                  refine ⟨hready, fun _ => hidle', fun _ => ⟨?_, hidle'⟩⟩
                  simp [Ch375Writer.cycle, accessed, haccess, hframes, hphase, hdone]

private theorem polls_start (frames : List UsbFrame) (hidle : port.stateTx = .IDLE) :
    Polls (start port frames) where
  ready := fun hstart => by
    rw [show (start port frames).port.stateTx = .IDLE from hidle] at hstart
    cases hstart
  store := fun hstore => by cases hstore
  done := fun _ => ⟨rfl, hidle⟩

private theorem polls_trace (ins : Nat → WriterIn) (frames : List UsbFrame)
    (hidle : port.stateTx = .IDLE) (t : Nat) :
    Polls (trace cycle ins (start port frames) t) := by
  induction t with
  | zero => exact polls_start frames hidle
  | succ t ih => exact ih.cycle

/-- What has gone out, what is under way and what is still to be stored make up the frames. -/
theorem line_eq (ins : Nat → WriterIn) (frames : List UsbFrame) (hidle : port.stateTx = .IDLE)
    (t : Nat) :
    logged cycle bit ins (start port frames) t ++
        ((trace cycle ins (start port frames) t).port.pending ++
          (trace cycle ins (start port frames) t).unstored.flatMap UsbFrame.lineBits) =
      frames.flatMap UsbFrame.lineBits := by
  induction t with
  | zero => simp [start, unstored, Ch375bTx.pending, hidle]
  | succ t ih =>
      have hpolls := polls_trace ins frames hidle t
      rw [← ih, logged_succ, trace_succ]
      generalize trace cycle ins (start port frames) t = w at hpolls ⊢
      have hpending : bit (ins t) w ++ (cycle (ins t) w).port.pending =
          w.port.pending ++ (Ch375bTx.accepted (w.request (ins t)) w.port).flatMap
            UsbFrame.lineBits := Ch375bTx.shifted_append_pending _ request_rst hpolls.ready
      rw [← accepted_append_unstored (i := ins t) hpolls, List.flatMap_append, List.append_assoc,
        ← List.append_assoc (bit _ _), hpending, List.append_assoc]

/-- Once all frames have been written, the line has carried just them. -/
theorem deframe_line (hidle : port.stateTx = .IDLE) {t : Nat}
    (hdone : (trace cycle ins (start port frames) t).frames = []) :
    deframe (logged cycle bit ins (start port frames) t) = some frames := by
  have hline := line_eq ins frames hidle t
  obtain ⟨hphase, hport⟩ := (polls_trace ins frames hidle t).done hdone
  have hnone : (trace cycle ins (start port frames) t).unstored = [] := by
    simp [unstored, hphase, hdone]
  have hpending : (trace cycle ins (start port frames) t).port.pending = [] := by
    simp [Ch375bTx.pending, hport]
  rw [hnone, hpending, List.flatMap_nil, List.append_nil, List.append_nil] at hline
  rw [hline, deframe_flatMap]

/-! ## Writing comes to an end -/

def always : Nat → WriterIn := fun _ => ⟨true, true⟩

private theorem pending_eq_nil {u : Ch375bTx} (h : u.pending = []) : u.stateTx = .IDLE := by
  unfold Ch375bTx.pending at h
  cases hstate : u.stateTx <;> simp [hstate] at h ⊢

private theorem waits_after {rest : List UsbFrame} (h : Polls w) (hphase : w.phase = .after)
    (hframes : w.frames = f :: rest) :
    ∃ t port', port'.stateTx = .IDLE ∧ trace cycle always w t = start port' rest := by
  induction hlength : w.port.pending.length generalizing w with
  | zero =>
      have hidle := pending_eq_nil (List.length_eq_zero_iff.mp hlength)
      have hstoring : w.storing (always 0) = none := by simp [storing, hphase]
      refine ⟨1, w.port, hidle, ?_⟩
      have hport := port_cycle_of_idle hstoring hidle
      simp [trace_succ, cycle, accessed, hphase, hframes, usbTxDone_eq, hidle, start, always]
        at hport ⊢
      exact hport
  | succ n ih =>
      have hbusy : w.port.stateTx ≠ .IDLE := by
        intro hidle
        simp [Ch375bTx.pending, hidle] at hlength
      have hnext : (cycle (always 0) w).phase = .after ∧
          (cycle (always 0) w).frames = f :: rest := by
        simp [cycle, accessed, hphase, hframes, usbTxDone_eq, hbusy, always]
      have hshorter : (cycle (always 0) w).port.pending.length = n := by
        have hbits := congrArg List.length
          (Ch375bTx.shifted_append_pending true (request_rst (i := always 0) (w := w)) h.ready)
        simp [Ch375bTx.shifted, Ch375bTx.accepted, hbusy, hlength] at hbits
        change (w.port.cycle true (w.request (always 0))).pending.length = n
        omega
      obtain ⟨t, port', hidle, htrace⟩ := ih h.cycle hnext.1 hnext.2 hshorter
      refine ⟨1 + t, port', hidle, ?_⟩
      rw [trace_add]
      exact htrace

theorem writes_frame (f : UsbFrame) (rest : List UsbFrame) (hidle : port.stateTx = .IDLE) :
    ∃ t port', port'.stateTx = .IDLE ∧
      trace cycle always (start port (f :: rest)) t = start port' rest := by
  have hpolls := (polls_start (f :: rest) hidle).cycle (i := always 0)
  have hstore : (cycle (always 0) (start port (f :: rest))).phase = .store ∧
      (cycle (always 0) (start port (f :: rest))).frames = f :: rest := by
    simp [cycle, accessed, start, usbTxDone_eq, hidle, always]
  generalize hw : cycle (always 0) (start port (f :: rest)) = w at hpolls hstore
  have hafter : (cycle (always 1) w).phase = .after ∧ (cycle (always 1) w).frames = f :: rest := by
    simp [cycle, accessed, hstore, always]
  obtain ⟨t, port', hidle', htrace⟩ := waits_after hpolls.cycle hafter.1 hafter.2
  refine ⟨2 + t, port', hidle', ?_⟩
  rw [trace_add, trace_succ, trace_succ, trace_zero, hw]
  exact htrace

theorem exists_done (frames : List UsbFrame) (hidle : port.stateTx = .IDLE) :
    ∃ t, (trace cycle always (start port frames) t).frames = [] := by
  induction frames generalizing port with
  | nil => exact ⟨0, rfl⟩
  | cons f rest ih =>
      obtain ⟨t₁, port', hidle', hnext⟩ := writes_frame f rest hidle
      obtain ⟨t₂, ht⟩ := ih hidle'
      refine ⟨t₁ + t₂, ?_⟩
      rw [trace_add, hnext]
      exact ht

end Ch375Writer

end PComputer.Rtl
