import PComputer.Foundation.Clocked
import PComputer.Foundation.LeadsTo
import PComputer.Foundation.ShiftRegister
import PComputer.Rtl.MemoryController

/-!
# Requests to `memory_controller_burst`

A transfer begins with a system at rest and ends with one.  The host makes no other
request meanwhile, so that every cycle is determined by what the two controllers hold.
-/

namespace PComputer.Rtl

open PComputer.Foundation

def MemoryIn.calm (i : MemoryIn) : MemoryIn := { i with rst := false, we := false, rd := false }

/-! ## What the parts hold -/

namespace MemoryController

variable (m : MemoryController) (write : Bool)

def idle (ready : Bool) : MemoryController :=
  { m with
    readyR := ready
    mRd := false
    mRend := false
    mWe := false
    mWend := false
    mByteAvailableOld := false
    mReadyForNextByteOld := false
    state := .IDLE }

def active (count : BitVec 6) (next : Bool) : MemoryController :=
  { m with
    readyR := false
    readyROld := false
    readyDelay := false
    count := count
    mRd := false
    mRend := false
    mWe := false
    mWend := false
    mByteAvailableOld := false
    mReadyForNextByteOld := next
    state := if write then .WE else .RD }

def accepted (i : MemoryIn) : MemoryController :=
  { m with
    rega := i.a
    regbuf := lane i.d
    regburstEn := i.burstEn
    regburstLength := i.burstLength }

end MemoryController

/-- A transfer in which `n` words are left behind the present one. -/
def Remaining (en : Bool) (len : BitVec 8) (n : Nat) : Prop :=
  en = false ∧ n = 0 ∨ en = true ∧ len.toNat = n + 1

theorem Remaining.last {en : Bool} {len : BitVec 8} (h : Remaining en len 0) :
    en = false ∨ len = 1 := by
  rcases h with ⟨hen, -⟩ | ⟨-, hlen⟩
  · exact .inl hen
  · exact .inr (BitVec.eq_of_toNat_eq hlen)

theorem Remaining.more {en : Bool} {len : BitVec 8} {n : Nat} (h : Remaining en len (n + 1)) :
    en = true ∧ len ≠ 1 ∧ Remaining true (len - 1) n := by
  obtain ⟨hen, hlen⟩ := h.resolve_left nofun
  have hne : len ≠ 1 := by
    rintro rfl
    simp at hlen
  exact ⟨hen, hne, .inr ⟨rfl, toNat_sub_of_eq hlen⟩⟩

namespace PsramFast

variable (p : PsramFast) (write : Bool)

def resting : PsramFast :=
  { p with
    sclk := false
    ce := true
    byteAvailable := false
    readyForNextByte := false
    state := .IDLE
    reseting := false
    rendLatch := false
    wendLatch := false
    weLatch := false
    rdLatch := false }

def busy (state : PsramState) (sclk : Bool) : PsramFast :=
  { p with
    sclk := sclk
    ce := false
    byteAvailable := false
    readyForNextByte := false
    state := state
    reseting := false
    rendLatch := false
    wendLatch := false
    weLatch := write
    rdLatch := !write }

def shiftQuad (v : BitVec 32) : BitVec 32 := v.extractLsb' 0 28 ++ 1#4

def quads : Nat → BitVec 32 → List Pins
  | 0, _ => []
  | n + 1, v => .quad (v.extractLsb' 28 4) :: quads n (shiftQuad v)

def sending (v : BitVec 32) (cnt : BitVec 8) (sclk next : Bool) : PsramFast :=
  { p.busy write .SEND_QUAD sclk with
    readyForNextByte := next
    stateReturn := if write then .WRITING_PREPARE_QUAD else .READING_PREPARE_QUAD
    sendbits := v
    sendcnt := cnt
    readPCnt := if write then p.readPCnt else 12
    bytecnt := 0 }

def prepared : PsramFast :=
  { p.busy write (if write then .WRITING_PREPARE_QUAD else .READING_PREPARE_QUAD) false with
    readyForNextByte := write
    readPCnt := if write then p.readPCnt else 12
    bytecnt := 0 }

end PsramFast

namespace PsramChip

variable (c : PsramChip)

def resting : PsramChip := { c with captured := [], clocks := 0 }

def captures (pins : Pins) : PsramChip := { c with captured := c.captured ++ [pins] }

def ticks : PsramChip := { c with clocks := c.clocks + 1 }

def framed : PsramChip :=
  { c with captured := [], clocks := 0, frames := c.frames ++ [c.captured] }

end PsramChip

namespace MemorySystem

structure Ready (s : MemorySystem) : Prop where
  memory : s.memory = s.memory.idle true
  psram : s.psram = s.psram.resting
  chip : s.chip = s.chip.resting

variable {s : MemorySystem} {i : MemoryIn}

theorem not_ready_of_state (h : s.memory.state ≠ .IDLE) : ¬s.Ready := by
  intro hready
  have hidle : s.memory.state = (s.memory.idle true).state := congrArg _ hready.memory
  exact h hidle

theorem not_ready_of_psram (h : s.psram.state ≠ .IDLE) : ¬s.Ready := by
  intro hready
  have hidle : s.psram.state = s.psram.resting.state := congrArg _ hready.psram
  exact h hidle

theorem Ready.shows (h : s.Ready) : s.memory.ready i.calm = true := by
  rw [h.memory]
  rfl

theorem Ready.calm_cycle (h : s.Ready) : (s.cycle i.calm).Ready ∧
    (s.cycle i.calm).memory.spo = s.memory.spo ∧
    (s.cycle i.calm).chip.frames = s.chip.frames := by
  have hstate : s = ⟨s.clk, s.memory.idle true, s.psram.resting, s.chip.resting, s.events⟩ := by
    rw [← h.memory, ← h.psram, ← h.chip]
  rw [hstate]
  exact ⟨⟨rfl, rfl, rfl⟩, rfl, rfl⟩

/-! ## Runs -/

/-- `ready` is on and `spo` stays, as long as no request comes. -/
def Idles (ins : Nat → MemoryIn) (s : MemorySystem) : Prop :=
  ∀ n, (∀ k, k < n → ins k = (ins k).calm) →
    (trace cycle ins s n).Ready ∧
    (trace cycle ins s n).memory.ready (ins n).calm = true ∧
    (trace cycle ins s n).memory.spo = s.memory.spo ∧
    (trace cycle ins s n).chip.frames = s.chip.frames

theorem Ready.idles {ins : Nat → MemoryIn} (h : s.Ready) : Idles ins s := by
  intro n hcalm
  have hready : (trace cycle ins s n).Ready ∧
      (trace cycle ins s n).memory.spo = s.memory.spo ∧
      (trace cycle ins s n).chip.frames = s.chip.frames := by
    induction n with
    | zero => exact ⟨h, rfl, rfl⟩
    | succ n ih =>
        obtain ⟨hready, hspo, hframes⟩ := ih fun k hk => hcalm k (Nat.lt_succ_of_lt hk)
        obtain ⟨hready', hspo', hframes'⟩ := hready.calm_cycle (i := ins n)
        rw [trace_succ, hcalm n n.lt_succ_self]
        exact ⟨hready', hspo'.trans hspo, hframes'.trans hframes⟩
  exact ⟨hready.1, hready.1.shows, hready.2⟩

noncomputable def transfer (ins : Nat → MemoryIn) (s₀ : MemorySystem) : Nat → MemorySystem :=
  trace (stopped Ready cycle) ins s₀

def Waits (ins : Nat → MemoryIn) (tr : Nat → MemorySystem) : Prop :=
  ∀ t, ¬(tr t).Ready → ins t = (ins t).calm

/-- In a state that is known but for the half of the cycle of `clk`. -/
def At (f : Bool → MemorySystem) (s : MemorySystem) : Prop := ∃ clk, s = f clk

variable {ins : Nat → MemoryIn} {s₀ : MemorySystem}

theorem Waits.leadsTo {P Q : MemorySystem → Prop} (hwaits : Waits ins (transfer ins s₀))
    (hbusy : ∀ {s}, P s → ¬s.Ready) (hcycle : ∀ {s} {i : MemoryIn}, P s → Q (s.cycle i.calm)) :
    LeadsTo (transfer ins s₀) P Q := by
  refine leadsTo_of_next fun n h => ?_
  change Q (stopped Ready cycle (ins n) (transfer ins s₀ n))
  rw [stopped_of_not_done (hbusy h), hwaits n (hbusy h)]
  exact hcycle h

theorem Waits.next {f g : Bool → MemorySystem} (hwaits : Waits ins (transfer ins s₀))
    (hbusy : ∀ clk, ¬(f clk).Ready)
    (hcycle : ∀ (clk : Bool) (i : MemoryIn), (f clk).cycle i.calm = g (!clk)) :
    LeadsTo (transfer ins s₀) (At f) (At g) := by
  refine hwaits.leadsTo ?_ ?_
  · rintro s ⟨clk, rfl⟩
    exact hbusy clk
  · rintro s i ⟨clk, rfl⟩
    exact ⟨!clk, hcycle clk i⟩

/-! ## The request -/

section Request

variable (m : MemoryController) (p : PsramFast) (c : PsramChip) (es : List BurstEvent)
variable (write : Bool)

def asking (old delay clk : Bool) : MemorySystem where
  clk := clk
  memory := { m.active write 4 false with
    readyROld := old
    readyDelay := delay
    state := if write then .WE_BEGIN else .RD_BEGIN }
  psram := p
  chip := c
  events := es

def issued (clk : Bool) : MemorySystem where
  clk := clk
  memory := { m.active write 4 false with mRd := !write, mWe := write }
  psram := p.resting
  chip := c.resting
  events := es

def latched (clk : Bool) : MemorySystem where
  clk := clk
  memory := m.active write 4 false
  psram := { p.resting with weLatch := write, rdLatch := !write }
  chip := c.resting
  events := es

def command : BitVec 32 := (if write then 0x38#8 else 0xeb#8) ++ m.rega

def opened (sclk clk : Bool) : MemorySystem where
  clk := clk
  memory := m.active write 4 false
  psram := p.sending write (command m write) 32 sclk (sclk && write)
  chip := c
  events := es

def firstCount : BitVec 6 := if write then 4 - 1 else 4

def header (v : BitVec 32) (cnt : BitVec 8) (sclk clk : Bool) : MemorySystem where
  clk := clk
  memory := m.active write (firstCount write) write
  psram := p.sending write v cnt sclk write
  chip := c
  events := es

def prepared (clk : Bool) : MemorySystem where
  clk := clk
  memory := m.active write (firstCount write) write
  psram := p.prepared write
  chip := c
  events := es

end Request

variable {m : MemoryController} {p : PsramFast} {c : PsramChip} {es : List BurstEvent}
variable {write clk : Bool} {v : BitVec 32} {cnt : BitVec 8}

private theorem eventsNext_quiet (htakes : s.memory.takes i = false)
    (hready : s.memory.ready i = false) :
    s.eventsNext i = s.events := by
  simp [eventsNext, htakes, hready]

theorem asking_of_ready (hs : s.Ready) (hrst : i.rst = false) (hwe : i.we = write)
    (hrd : i.rd = !write) :
    s.cycle i = asking (s.memory.accepted i) s.psram.resting s.chip.resting
      (if write then s.events ++ [.takes i.d] else s.events) write true
      (!s.memory.readyROld) (!s.clk) := by
  have hstate : s = ⟨s.clk, s.memory.idle true, s.psram.resting, s.chip.resting, s.events⟩ := by
    rw [← hs.memory, ← hs.psram, ← hs.chip]
  have hin : i = { i with rst := false, we := write, rd := !write } := by
    rw [← hrst, ← hrd, ← hwe]
  rw [hstate, hin]
  cases write <;> rfl

theorem asking_cycle {old delay : Bool} (hrst : i.rst = false)
    (hmask : (delay && !(i.rd || i.we)) = false) (hbyte : p.byteAvailable = false)
    (hnext : p.readyForNextByte = false) :
    (asking m p c es write old delay clk).cycle i =
      { (if p.ready then issued m p c es write (!clk)
          else asking m p c es write false false (!clk)) with
        psram := p.cycle ((asking m p c es write old delay clk).psramIn i)
        chip := c.clock p (p.cycle ((asking m p c es write old delay clk).psramIn i)) } := by
  have hmemory : (asking m p c es write old delay clk).memory.cycle i p =
      if p.ready then (issued m p c es write (!clk)).memory
      else (asking m p c es write false false (!clk)).memory := by
    cases write
    all_goals
      cases hready : p.ready
      all_goals
        simp [asking, issued, MemoryController.cycle, MemoryController.fsm,
          MemoryController.regbufNext, MemoryController.takesNext,
          MemoryController.byteAvailablePosedge, MemoryController.active, hrst, hready, hbyte,
          hnext]
  have htakes : (asking m p c es write old delay clk).memory.takes i = false := by
    rw [MemoryController.takes, hrst]
    cases write <;> rfl
  have hready : (asking m p c es write old delay clk).memory.ready i = false := hmask
  have hevents : (asking m p c es write old delay clk).eventsNext i = es :=
    eventsNext_quiet htakes hready
  change MemorySystem.mk (!clk)
    ((asking m p c es write old delay clk).memory.cycle i p) _ _
    ((asking m p c es write old delay clk).eventsNext i) = _
  rw [hmemory, hevents]
  cases p.ready <;> rfl

theorem issued_of_asking {old delay : Bool} (hrst : i.rst = false)
    (hmask : (delay && !(i.rd || i.we)) = false) :
    (asking m p.resting c.resting es write old delay clk).cycle i =
      issued m p c es write (!clk) := by
  have hin : i = { i with rst := false } := by rw [← hrst]
  rw [asking_cycle hrst hmask rfl rfl, hin]
  rfl

/-! ## The command and the address -/

private theorem issued_cycle : (issued m p c es write clk).cycle i.calm =
    latched m p c es write (!clk) := by
  cases write <;> rfl

private theorem latched_cycle : (latched m p c es write clk).cycle i.calm =
    opened m p c.resting es write false (!clk) := by
  cases write <;> rfl

private theorem opened_low : (opened m p c es write false clk).cycle i.calm =
    opened m p (c.captures (.quad ((command m write).extractLsb' 28 4))) es write true (!clk) := by
  cases write <;> rfl

private theorem opened_high : (opened m p c es write true clk).cycle i.calm =
    header m p c.ticks es write (PsramFast.shiftQuad (command m write)) (32 - 4) false (!clk) := by
  cases write <;> rfl

private theorem header_low : (header m p c es write v cnt false clk).cycle i.calm =
    header m p (c.captures (.quad (v.extractLsb' 28 4))) es write v cnt true (!clk) := by
  cases write <;> rfl

private theorem header_high (hcnt : cnt ≠ 4) : (header m p c es write v cnt true clk).cycle i.calm =
    header m p c.ticks es write (PsramFast.shiftQuad v) (cnt - 4) false (!clk) := by
  have hstate (ret : PsramState) : (if cnt = 4 then ret else .SEND_QUAD) = PsramState.SEND_QUAD :=
    if_neg hcnt
  cases write
  · exact congrArg (fun state => MemorySystem.mk (!clk) (m.active false 4 false)
      { p.sending false (PsramFast.shiftQuad v) (cnt - 4) false false with state := state }
      c.ticks es) (hstate _)
  · exact congrArg (fun state => MemorySystem.mk (!clk) (m.active true (4 - 1) true)
      { p.sending true (PsramFast.shiftQuad v) (cnt - 4) false true with state := state }
      c.ticks es) (hstate _)

private theorem header_last : (header m p c es write v 4 true clk).cycle i.calm =
    prepared m (p.sending write (PsramFast.shiftQuad v) (4 - 4) false write) c.ticks es write
      (!clk) := by
  cases write <;> rfl

private theorem opened_busy {sclk : Bool} : ¬(opened m p c es write sclk clk).Ready :=
  not_ready_of_psram nofun

private theorem header_busy {sclk : Bool} : ¬(header m p c es write v cnt sclk clk).Ready :=
  not_ready_of_psram nofun

def sent (c : PsramChip) (pins : List Pins) : PsramChip :=
  { c with captured := c.captured ++ pins, clocks := c.clocks + pins.length }

theorem sent_nil : sent c [] = c := by
  simp [sent]

theorem sent_two {a b : Pins} : ((c.captures a).ticks.captures b).ticks = sent c [a, b] := by
  simp [sent, PsramChip.captures, PsramChip.ticks]

theorem sent_pair {a b d : Pins} : (((c.captures a).ticks.captures b).ticks).captures d =
    (sent c [a, b]).captures d := by
  rw [sent_two]

theorem sent_sent (x y : List Pins) : sent (sent c x) y = sent c (x ++ y) := by
  simp [sent, Nat.add_assoc]

theorem sent_cons (pin : Pins) (pins : List Pins) :
    sent c (pin :: pins) = sent (c.captures pin).ticks pins := by
  simp [sent, PsramChip.captures, PsramChip.ticks]
  omega

private theorem header_leadsTo (hwaits : Waits ins (transfer ins s₀)) {n : Nat}
    (hcnt : cnt.toNat = 4 * (n + 1)) :
    LeadsTo (transfer ins s₀) (At (header m p c es write v cnt false))
      fun s => ∃ p', At (prepared m p' (sent c (PsramFast.quads (n + 1) v)) es write) s := by
  have hlow : LeadsTo (transfer ins s₀) (At (header m p c es write v cnt false))
      (At (header m p (c.captures (.quad (v.extractLsb' 28 4))) es write v cnt true)) :=
    hwaits.next (fun _ => header_busy) fun _ _ => header_low
  induction n generalizing v cnt c with
  | zero =>
      obtain rfl : cnt = 4 := BitVec.eq_of_toNat_eq hcnt
      refine hlow.trans (hwaits.leadsTo ?_ ?_)
      · rintro s ⟨clk, rfl⟩
        exact header_busy
      · rintro s i ⟨clk, rfl⟩
        exact ⟨_, !clk, header_last⟩
  | succ n ih =>
      have hne : cnt ≠ 4 := by
        rintro rfl
        simp at hcnt
      have hless : (cnt - 4).toNat = 4 * (n + 1) := toNat_sub_of_eq hcnt
      have hhigh : LeadsTo (transfer ins s₀)
          (At (header m p (c.captures (.quad (v.extractLsb' 28 4))) es write v cnt true))
          (At (header m p (c.captures (.quad (v.extractLsb' 28 4))).ticks es write
            (PsramFast.shiftQuad v) (cnt - 4) false)) :=
        hwaits.next (fun _ => header_busy) fun _ _ => header_high hne
      rw [PsramFast.quads, sent_cons]
      exact hlow.trans <| hhigh.trans <| ih hless <|
        hwaits.next (fun _ => header_busy) fun _ _ => header_low

theorem issued_leadsTo (hwaits : Waits ins (transfer ins s₀)) :
    LeadsTo (transfer ins s₀) (At (issued m p c es write)) fun s => ∃ p',
      At (prepared m p' (sent c.resting (PsramFast.quads 8 (command m write))) es write) s := by
  have hlatched : LeadsTo (transfer ins s₀) (At (issued m p c es write))
      (At (latched m p c es write)) :=
    hwaits.next (fun _ => not_ready_of_state (by cases write <;> nofun)) fun _ _ => issued_cycle
  have hopened : LeadsTo (transfer ins s₀) (At (latched m p c es write))
      (At (opened m p c.resting es write false)) :=
    hwaits.next (fun _ => not_ready_of_state (by cases write <;> nofun)) fun _ _ => latched_cycle
  have hlow : LeadsTo (transfer ins s₀) (At (opened m p c.resting es write false)) _ :=
    hwaits.next (fun _ => opened_busy) fun _ _ => opened_low
  have hhigh (c : PsramChip) : LeadsTo (transfer ins s₀) (At (opened m p c es write true)) _ :=
    hwaits.next (fun _ => opened_busy) fun _ _ => opened_high
  rw [PsramFast.quads, sent_cons]
  exact hlatched.trans (hopened.trans (hlow.trans ((hhigh _).trans (header_leadsTo hwaits rfl))))

/-! ## The end of a transfer -/

section End

variable (m : MemoryController) (p : PsramFast) (c : PsramChip) (es : List BurstEvent)

def idled (i : MemoryIn) : MemoryController :=
  { m.accepted i with
    readyROld := false
    mRend := false
    mWend := false
    mByteAvailableOld := false
    mReadyForNextByteOld := false }

/-- `ce` rises in the second of the eight cycles in BTWN_READ_IDLE or BTWN_WRITE_IDLE. -/
def closing (write ce : Bool) (k : BitVec 3) (clk : Bool) : MemorySystem where
  clk := clk
  memory := { m with
    readyR := false
    readyDelay := false
    mRd := false
    mWe := false
    state := .IDLE }
  psram := { p.busy false (if write then .BTWN_WRITE_IDLE else .BTWN_READ_IDLE) false with
    ce := ce
    rdLatch := false
    cecnt := k }
  chip := c
  events := es

def settled (clk : Bool) : MemorySystem where
  clk := clk
  memory := { m.idle false with readyDelay := false }
  psram := p.resting
  chip := c.resting
  events := es

end End

/-- The transfer closes, whatever the controller takes from its inputs meanwhile. -/
def Closing (c : PsramChip) (es : List BurstEvent) (spo : Word) (ce : Bool) (k : BitVec 3)
    (s : MemorySystem) : Prop :=
  ∃ m p write, m.regspo = spo ∧ At (closing m p c es write ce k) s

def Settled (c : PsramChip) (es : List BurstEvent) (spo : Word) (s : MemorySystem) : Prop :=
  ∃ m p, m.regspo = spo ∧ At (settled m p c es) s

/-- The transfer has ended, and the chip has seen what it has captured as a frame. -/
structure Ended (c : PsramChip) (es : List BurstEvent) (spo : Word) (s : MemorySystem) : Prop where
  ready : s.Ready
  frames : s.chip.frames = c.frames ++ [c.captured]
  stream : s.chip.stream = c.stream
  events : s.events = es
  spo : s.memory.spo = spo

variable {spo : Word} {ce : Bool} {k : BitVec 3}

private theorem closing_low : (closing m p c es write false 6 clk).cycle i.calm =
    closing (idled m i) p c.framed es write true 5 (!clk) := by
  change _ = closing (idled m i) p c.framed es write true (6 - 1) (!clk)
  cases write <;> rfl

private theorem closing_high (hk : k = 1 ∨ k = 2 ∨ k = 3 ∨ k = 4 ∨ k = 5) :
    (closing m p c.resting es write true k clk).cycle i.calm =
      closing (idled m i) p c.resting es write true (k - 1) (!clk) := by
  rcases hk with rfl | rfl | rfl | rfl | rfl
  all_goals
    cases write
    all_goals rfl

private theorem closing_last : (closing m p c.resting es write true 0 clk).cycle i.calm =
    settled (idled m i) { p with cecnt := 0 - 1 } c es (!clk) := by
  cases write <;> rfl

private theorem settled_cycle : (settled m p c es clk).cycle i.calm =
    ⟨!clk, { idled m i with readyDelay := false }.idle true, p.resting, c.resting, es⟩ := rfl

theorem Closing.busy (h : Closing c es spo ce k s) : ¬s.Ready := by
  obtain ⟨m, p, write, -, clk, rfl⟩ := h
  exact not_ready_of_psram (by cases write <;> nofun)

theorem Settled.busy (h : Settled c es spo s) : ¬s.Ready := by
  obtain ⟨m, p, -, clk, rfl⟩ := h
  intro hready
  have hfalse : false = true := congrArg MemoryController.readyR hready.memory
  cases hfalse

theorem Closing.low (h : Closing c es spo false 6 s) :
    Closing c.framed es spo true 5 (s.cycle i.calm) := by
  obtain ⟨m, p, write, hspo, clk, rfl⟩ := h
  exact ⟨idled m i, p, write, hspo, !clk, closing_low⟩

theorem Closing.high (h : Closing c.resting es spo true k s)
    (hk : k = 1 ∨ k = 2 ∨ k = 3 ∨ k = 4 ∨ k = 5) :
    Closing c.resting es spo true (k - 1) (s.cycle i.calm) := by
  obtain ⟨m, p, write, hspo, clk, rfl⟩ := h
  exact ⟨idled m i, p, write, hspo, !clk, closing_high hk⟩

theorem Closing.last (h : Closing c.resting es spo true 0 s) :
    Settled c es spo (s.cycle i.calm) := by
  obtain ⟨m, p, write, hspo, clk, rfl⟩ := h
  exact ⟨idled m i, _, hspo, !clk, closing_last⟩

theorem Settled.ended (h : Settled c.framed es spo s) : Ended c es spo (s.cycle i.calm) := by
  obtain ⟨m, p, hspo, clk, rfl⟩ := h
  rw [settled_cycle]
  exact ⟨⟨rfl, rfl, rfl⟩, rfl, rfl, rfl, hspo⟩

theorem closing_leadsTo (hwaits : Waits ins (transfer ins s₀)) :
    LeadsTo (transfer ins s₀) (Closing c es spo false 6) (Ended c es spo) := by
  have hlow : LeadsTo (transfer ins s₀) (Closing c es spo false 6)
      (Closing c.framed es spo true 5) := hwaits.leadsTo Closing.busy Closing.low
  have hhigh {k : BitVec 3} (hk : k = 1 ∨ k = 2 ∨ k = 3 ∨ k = 4 ∨ k = 5) :
      LeadsTo (transfer ins s₀) (Closing c.framed es spo true k)
        (Closing c.framed es spo true (k - 1)) :=
    hwaits.leadsTo Closing.busy fun h => Closing.high (c := c.framed) h hk
  have hcount : LeadsTo (transfer ins s₀) (Closing c.framed es spo true 5)
      (Closing c.framed es spo true 0) :=
    (hhigh (k := 5) (by decide)).trans <| (hhigh (k := 4) (by decide)).trans <|
      (hhigh (k := 3) (by decide)).trans <| (hhigh (k := 2) (by decide)).trans <|
        hhigh (k := 1) (by decide)
  have hlast : LeadsTo (transfer ins s₀) (Closing c.framed es spo true 0)
      (Settled c.framed es spo) :=
    hwaits.leadsTo Closing.busy fun h => Closing.last (c := c.framed) h
  have hended : LeadsTo (transfer ins s₀) (Settled c.framed es spo) (Ended c es spo) :=
    hwaits.leadsTo Settled.busy Settled.ended
  exact hlow.trans (hcount.trans (hlast.trans hended))

end MemorySystem

end PComputer.Rtl
