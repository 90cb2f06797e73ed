import PComputer.Rtl.BurstStates

/-!
# A burst that is written

A byte goes out in four cycles.  The next one is asked for in the second of them, counted
in the third and loaded in the fourth, where the last byte of a word also makes room for
the next word.
-/

namespace PComputer.Rtl

open PComputer.Foundation

def quadHigh (b : BitVec 8) : Pins := .quad (b.extractLsb' 4 4)

def quadLow (b : BitVec 8) : Pins := .quad (b.extractLsb' 0 4)

def wordQuads (w : Word) : List Pins :=
  [quadHigh (lane w 3), quadLow (lane w 3), quadHigh (lane w 2), quadLow (lane w 2),
    quadHigh (lane w 1), quadLow (lane w 1), quadHigh (lane w 0), quadLow (lane w 0)]

def lowFirst (b : BitVec 8) : BitVec 8 := b.extractLsb' 0 4 ++ 1#4

private theorem quadHigh_lowFirst (b : BitVec 8) : quadHigh (lowFirst b) = quadLow b := by
  exact congrArg Pins.quad BitVec.extractLsb'_append_eq_left

def PsramFast.writing (p : PsramFast) (sclk : Bool) (bytecnt : BitVec 3) (byte : BitVec 8)
    (next : Bool) : PsramFast :=
  { p.busy true .WRITING_QUAD sclk with
    readyForNextByte := next
    databyte := byte
    bytecnt := bytecnt }

def MemoryController.feeding (m : MemoryController) (w : Word) (en : Bool) (len : BitVec 8)
    (count : BitVec 6) (next : Bool) : MemoryController :=
  { m.active true count next with
    regbuf := lane w
    regburstEn := en
    regburstLength := len }

namespace MemorySystem

section Block

variable (m : MemoryController) (p : PsramFast) (c : PsramChip) (es : List BurstEvent) (w : Word)
variable (en : Bool) (len : BitVec 8) (count : BitVec 6) (byte : BitVec 8) (clk : Bool)

def loaded : MemorySystem where
  clk := clk
  memory := m.feeding w en len count true
  psram := p.writing false 0 byte false
  chip := c
  events := es

def highOut : MemorySystem where
  clk := clk
  memory := m.feeding w en len count false
  psram := p.writing true 0 byte false
  chip := c
  events := es

def asked : MemorySystem where
  clk := clk
  memory := m.feeding w en len count false
  psram := p.writing false 4 (lowFirst byte) true
  chip := c
  events := es

def lowOut : MemorySystem where
  clk := clk
  memory := m.feeding w en len count true
  psram := p.writing true 4 (lowFirst byte) true
  chip := c
  events := es

def pulsed : MemorySystem where
  clk := clk
  memory := { m.feeding w en len count true with readyR := true }
  psram := p.writing true 4 (lowFirst byte) true
  chip := c
  events := es

def pulsedTwice : MemorySystem where
  clk := clk
  memory := { m.feeding w en len count true with readyROld := true, readyDelay := true }
  psram := p.writing false 0 byte false
  chip := c
  events := if clk then es else es ++ [.ready m.regspo]

end Block

variable {m : MemoryController} {p : PsramFast} {c : PsramChip} {es : List BurstEvent} {w : Word}
variable {en clk : Bool} {len : BitVec 8} {count : BitVec 6} {byte : BitVec 8} {i : MemoryIn}

private theorem prepared_cycle {j : MemoryIn} :
    (prepared (m.accepted j) p c es true clk).cycle i.calm =
    loaded (m.accepted j) p c es j.d j.burstEn j.burstLength 3 (lane j.d 3) (!clk) := by
  change _ = loaded (m.accepted j) p c es j.d j.burstEn j.burstLength (4 - 1) (lane j.d 3) (!clk)
  rfl

private theorem loaded_cycle (hcount : count = 1 ∨ count = 2 ∨ count = 3 ∨ count = 4) :
    (loaded m p c es w en len count byte clk).cycle i.calm =
      highOut m p (c.captures (quadHigh byte)) es w en len count byte (!clk) := by
  rcases hcount with rfl | rfl | rfl | rfl <;> cases en <;> rfl

private theorem highOut_cycle (hcount : count = 1 ∨ count = 2 ∨ count = 3 ∨ count = 4) :
    (highOut m p c es w en len count byte clk).cycle i.calm =
      asked m p c.ticks es w en len count byte (!clk) := by
  rcases hcount with rfl | rfl | rfl | rfl <;> cases en <;> rfl

private theorem asked_cycle (hcount : count = 1 ∨ count = 2 ∨ count = 4) :
    (asked m p c es w en len count byte clk).cycle i.calm =
      lowOut m p (c.captures (quadHigh (lowFirst byte))) es w en len (count - 1) byte (!clk) := by
  rcases hcount with rfl | rfl | rfl <;> cases en <;> rfl

private theorem lowOut_cycle (hcount : count = 1 ∨ count = 2 ∨ count = 3) :
    (lowOut m p c es w en len count byte clk).cycle i.calm =
      loaded m p c.ticks es w en len count (lane w (count.setWidth 2)) (!clk) := by
  change _ = MemorySystem.mk (!clk) (m.feeding w en len count true)
    (p.writing false (4 + 4) (lane w (count.setWidth 2)) false) c.ticks es
  rcases hcount with rfl | rfl | rfl <;> cases en <;> rfl

/-! ### The second byte of a word -/

private theorem asked_single : (asked m p c es w false len 3 byte clk).cycle i.calm =
    lowOut m p (c.captures (quadHigh (lowFirst byte))) es w false len (3 - 1) byte (!clk) := rfl

private theorem asked_last : (asked m p c es w true 1 3 byte clk).cycle i.calm =
    lowOut m p (c.captures (quadHigh (lowFirst byte))) es w true (1 - 1) (3 - 1) byte (!clk) := rfl

private theorem asked_more (hlen : len ≠ 1) : (asked m p c es w true len 3 byte clk).cycle i.calm =
    pulsed m p (c.captures (quadHigh (lowFirst byte))) es w true (len - 1) (3 - 1) byte (!clk) := by
  have hready : ((len != 1) || false) = true := by
    rw [Bool.or_false]
    exact bne_iff_ne.mpr hlen
  exact congrArg (fun ready : Bool => MemorySystem.mk (!clk)
    { m.feeding w true (len - 1) (3 - 1) true with readyR := ready }
    (p.writing true 4 (lowFirst byte) true) (c.captures (quadHigh (lowFirst byte))) es) hready

private theorem pulsed_cycle : (pulsed m p c es w en len 2 byte clk).cycle i.calm =
    pulsedTwice m p c.ticks es w en len 2 (lane w 2) (!clk) := by
  change _ = MemorySystem.mk (!clk)
    { m.feeding w en len 2 true with readyROld := true, readyDelay := true }
    (p.writing false (4 + 4) (lane w 2) false) c.ticks
    (if !clk then es else es ++ [.ready m.regspo])
  cases clk <;> cases en <;> rfl

private theorem pulsedTwice_cycle : (pulsedTwice m p c es w en len 2 byte clk).cycle i.calm =
    highOut m p (c.captures (quadHigh byte)) (es ++ [.ready m.regspo]) w en len 2 byte (!clk) := by
  cases clk <;> cases en <;> rfl

/-! ### The last byte of a word -/

private theorem lowOut_takes (hlen : len ≠ 0) :
    (lowOut m p c es w true len 0 byte clk).cycle i.calm =
    loaded m p c.ticks (es ++ [.takes i.d]) i.d true len 4 (lane w 0) (!clk) := by
  have hlen' : ¬len = 0#8 := hlen
  have hmemory : (m.feeding w true len 0 true).cycle i.calm
      (p.writing true 4 (lowFirst byte) true) = m.feeding i.d true len 4 true := by
    simp [MemoryController.cycle, MemoryController.fsm, MemoryController.regbufNext,
      MemoryController.takesNext, MemoryController.readyForNextBytePosedge,
      MemoryController.feeding, MemoryController.active, PsramFast.writing, PsramFast.busy,
      MemoryIn.calm, hlen']
  have hevents : (lowOut m p c es w true len 0 byte clk).eventsNext i.calm =
      es ++ [.takes i.d] := by
    simp [eventsNext, lowOut, MemoryController.takes, MemoryController.takesNext,
      MemoryController.ready, MemoryController.feeding, MemoryController.active, MemoryIn.calm,
      hlen']
  change MemorySystem.mk (!clk) _ (p.writing false (4 + 4) (lane w 0) false) c.ticks _ = _
  rw [hevents]
  exact congrArg (fun memory => MemorySystem.mk (!clk) memory (p.writing false 0 (lane w 0) false)
    c.ticks (es ++ [.takes i.d])) hmemory

/-- The last byte of the burst is loaded, and the side of the CPU has done its part. -/
def parting (m : MemoryController) (p : PsramFast) (c : PsramChip) (es : List BurstEvent)
    (byte : BitVec 8) (clk : Bool) : MemorySystem where
  clk := clk
  memory := { m.active true 0 true with mWend := true, state := .IDLE }
  psram := p.writing false 0 byte false
  chip := c
  events := es

private theorem lowOut_single : (lowOut m p c es w false len 0 byte clk).cycle i.calm =
    parting (m.feeding w false len 0 true) p c.ticks es (lane w 0) (!clk) := by
  change _ = MemorySystem.mk (!clk)
    { (m.feeding w false len 0 true).active true 0 true with mWend := true, state := .IDLE }
    (p.writing false (4 + 4) (lane w 0) false) c.ticks es
  rfl

private theorem lowOut_last : (lowOut m p c es w true 0 0 byte clk).cycle i.calm =
    parting (m.feeding w true 0 0 true) p c.ticks es (lane w 0) (!clk) := by
  change _ = MemorySystem.mk (!clk)
    { (m.feeding w true 0 0 true).active true 0 true with mWend := true, state := .IDLE }
    (p.writing false (4 + 4) (lane w 0) false) c.ticks es
  rfl

/-! ### The last byte of the burst -/

/-- The last byte goes out while the side of the CPU is in IDLE. -/
def leaving (m : MemoryController) (p : PsramFast) (c : PsramChip) (es : List BurstEvent)
    (sclk : Bool) (bytecnt : BitVec 3) (byte : BitVec 8) (next clk : Bool) : MemorySystem where
  clk := clk
  memory := { m with
    readyR := false
    readyDelay := false
    mRd := false
    mWe := false
    mWend := false
    state := .IDLE }
  psram := { p.writing sclk bytecnt byte next with wendLatch := true }
  chip := c
  events := es

def left (m : MemoryController) (p : PsramFast) (c : PsramChip) (es : List BurstEvent)
    (clk : Bool) : MemorySystem where
  clk := clk
  memory := { m with
    readyR := false
    readyDelay := false
    mRd := false
    mWe := false
    state := .IDLE }
  psram := { p.busy true .BTWN_WRITE_IDLE false with wendLatch := true, cecnt := 7 }
  chip := c
  events := es

/-- As `leaving` and `left`, whatever the controller takes from its inputs meanwhile. -/
def Leaving (c : PsramChip) (es : List BurstEvent) (spo : Word) (sclk : Bool)
    (bytecnt : BitVec 3) (byte : BitVec 8) (next : Bool) (s : MemorySystem) : Prop :=
  ∃ m p, m.regspo = spo ∧ At (leaving m p c es sclk bytecnt byte next) s

def Left (c : PsramChip) (es : List BurstEvent) (spo : Word) (s : MemorySystem) : Prop :=
  ∃ m p, m.regspo = spo ∧ At (left m p c es) s

private theorem parting_cycle : (parting m p c es byte clk).cycle i.calm =
    leaving (idled (m.active true 0 true) i) p (c.captures (quadHigh byte)) es true 0 byte false
      (!clk) := rfl

private theorem leaving_high : (leaving m p c es true 0 byte false clk).cycle i.calm =
    leaving (idled m i) p c.ticks es false 4 (lowFirst byte) true (!clk) := by
  change _ = leaving (idled m i) p c.ticks es false (0 + 4) (lowFirst byte) true (!clk)
  rfl

private theorem leaving_asked : (leaving m p c es false 4 byte true clk).cycle i.calm =
    leaving { idled m i with mReadyForNextByteOld := true } p (c.captures (quadHigh byte)) es true 4
      byte true (!clk) := rfl

private theorem leaving_low : ∃ p', (leaving m p c es true 4 byte true clk).cycle i.calm =
    left { idled m i with mReadyForNextByteOld := true } p' c.ticks es (!clk) :=
  ⟨{ p with databyte := _, bytecnt := 4 + 4 }, rfl⟩

private theorem left_cycle : (left m p c es clk).cycle i.calm =
    closing (idled m i) p c es true false 6 (!clk) := by
  change _ = closing (idled m i) p c es true false (7 - 1) (!clk)
  rfl

variable {spo : Word} {s : MemorySystem} {sclk next : Bool} {bytecnt : BitVec 3}

theorem Leaving.busy (h : Leaving c es spo sclk bytecnt byte next s) : ¬s.Ready := by
  obtain ⟨m, p, -, clk, rfl⟩ := h
  exact not_ready_of_psram nofun

theorem Leaving.high (h : Leaving c es spo true 0 byte false s) :
    Leaving c.ticks es spo false 4 (lowFirst byte) true (s.cycle i.calm) := by
  obtain ⟨m, p, hspo, clk, rfl⟩ := h
  exact ⟨idled m i, p, hspo, !clk, leaving_high⟩

theorem Leaving.asked (h : Leaving c es spo false 4 byte true s) :
    Leaving (c.captures (quadHigh byte)) es spo true 4 byte true (s.cycle i.calm) := by
  obtain ⟨m, p, hspo, clk, rfl⟩ := h
  exact ⟨{ idled m i with mReadyForNextByteOld := true }, p, hspo, !clk, leaving_asked⟩

theorem Leaving.low (h : Leaving c es spo true 4 byte true s) :
    Left c.ticks es spo (s.cycle i.calm) := by
  obtain ⟨m, p, hspo, clk, rfl⟩ := h
  obtain ⟨p', hcycle⟩ : ∃ p', (leaving m p c es true 4 byte true clk).cycle i.calm =
      left { idled m i with mReadyForNextByteOld := true } p' c.ticks es (!clk) := leaving_low
  exact ⟨{ idled m i with mReadyForNextByteOld := true }, p', hspo, !clk, hcycle⟩

theorem Left.busy (h : Left c es spo s) : ¬s.Ready := by
  obtain ⟨m, p, -, clk, rfl⟩ := h
  exact not_ready_of_psram nofun

theorem Left.closing (h : Left c es spo s) : Closing c es spo false 6 (s.cycle i.calm) := by
  obtain ⟨m, p, hspo, clk, rfl⟩ := h
  exact ⟨idled m i, p, true, hspo, !clk, left_cycle⟩

/-! ### A byte, a word and a burst -/

variable {ins : Nat → MemoryIn} {s₀ : MemorySystem} {a b : Pins}

section Run

variable (hwaits : Waits ins (transfer ins s₀))
include hwaits

private theorem highOut_leadsTo (hcount : count = 1 ∨ count = 2 ∨ count = 3 ∨ count = 4) :
    LeadsTo (transfer ins s₀) (At (highOut m p c es w en len count byte))
      (At (asked m p c.ticks es w en len count byte)) :=
  hwaits.next (fun _ => not_ready_of_psram nofun) fun _ _ => highOut_cycle hcount

private theorem asked_leadsTo (hcount : count = 1 ∨ count = 2 ∨ count = 4) :
    LeadsTo (transfer ins s₀) (At (asked m p c es w en len count byte))
      (At (lowOut m p (c.captures (quadLow byte)) es w en len (count - 1) byte)) := by
  rw [← quadHigh_lowFirst]
  exact hwaits.next (fun _ => not_ready_of_psram nofun) fun _ _ => asked_cycle hcount

private theorem loaded_leadsTo (hcount : count = 1 ∨ count = 2 ∨ count = 3 ∨ count = 4) :
    LeadsTo (transfer ins s₀) (At (loaded m p c es w en len count byte))
      (At (highOut m p (c.captures (quadHigh byte)) es w en len count byte)) :=
  hwaits.next (fun _ => not_ready_of_psram nofun) fun _ _ => loaded_cycle hcount

private theorem lowOut_leadsTo (hcount : count = 1 ∨ count = 2 ∨ count = 3) :
    LeadsTo (transfer ins s₀) (At (lowOut m p c es w en len count byte))
      (At (highOut m p (c.ticks.captures (quadHigh (lane w (count.setWidth 2)))) es w en len count
        (lane w (count.setWidth 2)))) := by
  have hloaded : LeadsTo (transfer ins s₀) (At (lowOut m p c es w en len count byte)) _ :=
    hwaits.next (fun _ => not_ready_of_psram nofun) fun _ _ => lowOut_cycle hcount
  exact hloaded.trans (loaded_leadsTo hwaits (by rcases hcount with rfl | rfl | rfl <;> decide))

private theorem byte_leadsTo (hcount : count = 2 ∨ count = 4) :
    LeadsTo (transfer ins s₀)
      (At (highOut m p (c.captures (quadHigh byte)) es w en len count byte))
      (At (highOut m p ((sent c [quadHigh byte, quadLow byte]).captures
        (quadHigh (lane w ((count - 1).setWidth 2)))) es w en len (count - 1)
        (lane w ((count - 1).setWidth 2)))) := by
  have hless : count - 1 = 1 ∨ count - 1 = 2 ∨ count - 1 = 3 := by
    rcases hcount with rfl | rfl <;> decide
  rw [← sent_pair]
  exact (highOut_leadsTo hwaits (by rcases hcount with rfl | rfl <;> decide)).trans <|
    (asked_leadsTo hwaits (.inr hcount)).trans (lowOut_leadsTo hwaits hless)

private theorem second_leadsTo (hlast : en = false ∨ len = 1) :
    LeadsTo (transfer ins s₀) (At (asked m p c es w en len 3 byte))
      (At (lowOut m p (c.captures (quadLow byte)) es w en (if en then 0 else len) 2 byte)) := by
  rw [← quadHigh_lowFirst]
  refine hwaits.next (fun _ => not_ready_of_psram nofun) fun clk i => ?_
  cases en with
  | false => exact asked_single
  | true =>
      obtain rfl : len = 1 := hlast.resolve_left nofun
      exact asked_last

private theorem pulse_leadsTo (hlen : len ≠ 1) :
    LeadsTo (transfer ins s₀) (At (asked m p c es w true len 3 byte))
      (At (highOut m p ((c.captures (quadLow byte)).ticks.captures (quadHigh (lane w 2)))
        (es ++ [.ready m.regspo]) w true (len - 1) 2 (lane w 2))) := by
  rw [← quadHigh_lowFirst]
  have hpulsed : LeadsTo (transfer ins s₀) (At (asked m p c es w true len 3 byte)) _ :=
    hwaits.next (fun _ => not_ready_of_psram nofun) fun _ _ => asked_more hlen
  have htwice : LeadsTo (transfer ins s₀)
      (At (pulsed m p (c.captures (quadHigh (lowFirst byte))) es w true (len - 1) 2 byte)) _ :=
    hwaits.next (fun _ => not_ready_of_psram nofun) fun _ _ => pulsed_cycle
  refine hpulsed.trans (htwice.trans ?_)
  exact hwaits.next (fun _ => not_ready_of_psram nofun) fun _ _ => pulsedTwice_cycle

private theorem parting_leadsTo :
    LeadsTo (transfer ins s₀) (At (parting m p c es byte))
      (Ended (sent c [quadHigh byte, quadLow byte]) es m.regspo) := by
  have hhigh : LeadsTo (transfer ins s₀) (At (parting m p c es byte))
      (Leaving (c.captures (quadHigh byte)) es m.regspo true 0 byte false) := by
    refine hwaits.leadsTo ?_ ?_
    · rintro s ⟨clk, rfl⟩
      exact not_ready_of_psram nofun
    · rintro s i ⟨clk, rfl⟩
      exact ⟨idled (m.active true 0 true) i, p, rfl, !clk, parting_cycle⟩
  have hasked : LeadsTo (transfer ins s₀)
      (Leaving (c.captures (quadHigh byte)) es m.regspo true 0 byte false)
      (Leaving (c.captures (quadHigh byte)).ticks es m.regspo false 4 (lowFirst byte) true) :=
    hwaits.leadsTo Leaving.busy Leaving.high
  have hlow : LeadsTo (transfer ins s₀)
      (Leaving (c.captures (quadHigh byte)).ticks es m.regspo false 4 (lowFirst byte) true)
      (Leaving ((c.captures (quadHigh byte)).ticks.captures (quadLow byte)) es m.regspo true 4
        (lowFirst byte) true) := by
    rw [← quadHigh_lowFirst]
    exact hwaits.leadsTo Leaving.busy Leaving.asked
  rw [← sent_two]
  exact hhigh.trans <| hasked.trans <| hlow.trans <|
    (hwaits.leadsTo Leaving.busy Leaving.low).trans <|
      (hwaits.leadsTo Left.busy Left.closing).trans (closing_leadsTo hwaits)

/-- The word behind the last byte of another one is taken from `d`. -/
theorem takes_leadsTo (hlen : len ≠ 0) :
    LeadsTo (transfer ins s₀)
      (At (lowOut m p ((c.captures a).ticks.captures b) es w true len 0 byte))
      fun s => ∃ d, At (highOut m p ((sent c [a, b]).captures (quadHigh (lane w 0)))
        (es ++ [.takes d]) d true len 4 (lane w 0)) s := by
  have hloaded : LeadsTo (transfer ins s₀)
      (At (lowOut m p ((c.captures a).ticks.captures b) es w true len 0 byte))
      fun s => ∃ d, At (loaded m p ((c.captures a).ticks.captures b).ticks (es ++ [.takes d]) d true
        len 4 (lane w 0)) s := by
    refine hwaits.leadsTo ?_ ?_
    · rintro s ⟨clk, rfl⟩
      exact not_ready_of_psram nofun
    · rintro s i ⟨clk, rfl⟩
      exact ⟨i.d, !clk, lowOut_takes hlen⟩
  refine hloaded.trans (leadsTo_exists fun d => ?_)
  rw [← sent_pair]
  exact loaded_leadsTo hwaits (by decide)

private theorem middle_leadsTo :
    LeadsTo (transfer ins s₀)
      (At (highOut m p (c.captures (quadHigh (lane w 2))) es w en len 2 (lane w 2)))
      (At (lowOut m p (((sent c [quadHigh (lane w 2), quadLow (lane w 2)]).captures
        (quadHigh (lane w 1))).ticks.captures (quadLow (lane w 1))) es w en len 0 (lane w 1))) := by
  have hbyte : LeadsTo (transfer ins s₀)
      (At (highOut m p (c.captures (quadHigh (lane w 2))) es w en len 2 (lane w 2)))
      (At (highOut m p ((sent c [quadHigh (lane w 2), quadLow (lane w 2)]).captures
        (quadHigh (lane w 1))) es w en len 1 (lane w 1))) := byte_leadsTo hwaits (.inl rfl)
  exact hbyte.trans ((highOut_leadsTo hwaits (.inl rfl)).trans (asked_leadsTo hwaits (.inl rfl)))

private theorem word_leadsTo (hlen : len ≠ 1) :
    LeadsTo (transfer ins s₀)
      (At (highOut m p (c.captures (quadHigh (lane w 3))) es w true len 3 (lane w 3)))
      fun s => ∃ d, At (highOut m p ((sent c (wordQuads w)).captures (quadHigh (lane d 3)))
        (es ++ [.ready m.regspo, .takes d]) d true (len - 1) 3 (lane d 3)) s := by
  have hne : len - 1 ≠ 0 := fun h => hlen (by rw [← BitVec.sub_add_cancel len 1, h]; rfl)
  have hsecond : LeadsTo (transfer ins s₀)
      (At (highOut m p (c.captures (quadHigh (lane w 3))) es w true len 3 (lane w 3)))
      (At (highOut m p ((sent c [quadHigh (lane w 3), quadLow (lane w 3)]).captures
        (quadHigh (lane w 2))) (es ++ [.ready m.regspo]) w true (len - 1) 2 (lane w 2))) := by
    rw [← sent_pair]
    exact (highOut_leadsTo hwaits (by decide)).trans (pulse_leadsTo hwaits hlen)
  refine hsecond.trans ((middle_leadsTo hwaits).trans ((takes_leadsTo hwaits hne).trans
    (leadsTo_exists fun d => ?_)))
  have hchip : sent c (wordQuads w) = sent (sent (sent (sent c
      [quadHigh (lane w 3), quadLow (lane w 3)]) [quadHigh (lane w 2), quadLow (lane w 2)])
      [quadHigh (lane w 1), quadLow (lane w 1)]) [quadHigh (lane w 0), quadLow (lane w 0)] := by
    simp [sent_sent, wordQuads]
  have hevents : es ++ [.ready m.regspo, .takes d] = es ++ [.ready m.regspo] ++ [.takes d] := by
    rw [List.append_assoc]
    rfl
  rw [hchip, hevents]
  exact byte_leadsTo hwaits (.inr rfl)

private theorem last_leadsTo (hlast : en = false ∨ len = 1) :
    LeadsTo (transfer ins s₀)
      (At (highOut m p (c.captures (quadHigh (lane w 3))) es w en len 3 (lane w 3)))
      (Ended (sent c (wordQuads w)) es m.regspo) := by
  have hsecond : LeadsTo (transfer ins s₀)
      (At (highOut m p (c.captures (quadHigh (lane w 3))) es w en len 3 (lane w 3)))
      (At (highOut m p ((sent c [quadHigh (lane w 3), quadLow (lane w 3)]).captures
        (quadHigh (lane w 2))) es w en (if en then 0 else len) 2 (lane w 2))) := by
    rw [← sent_pair]
    exact (highOut_leadsTo hwaits (by decide)).trans <|
      (second_leadsTo hwaits hlast).trans (lowOut_leadsTo hwaits (.inr (.inl rfl)))
  have hparting (c : PsramChip) (a b : Pins) : LeadsTo (transfer ins s₀)
      (At (lowOut m p ((c.captures a).ticks.captures b) es w en (if en then 0 else len) 0
        (lane w 1)))
      (At (parting (m.feeding w en (if en then 0 else len) 0 true) p (sent c [a, b]) es
        (lane w 0))) := by
    rw [← sent_two]
    refine hwaits.next (fun _ => not_ready_of_psram nofun) fun clk i => ?_
    cases en with
    | false => exact lowOut_single
    | true => exact lowOut_last
  have hchip : sent c (wordQuads w) = sent (sent (sent (sent c
      [quadHigh (lane w 3), quadLow (lane w 3)]) [quadHigh (lane w 2), quadLow (lane w 2)])
      [quadHigh (lane w 1), quadLow (lane w 1)]) [quadHigh (lane w 0), quadLow (lane w 0)] := by
    simp [sent_sent, wordQuads]
  rw [hchip]
  exact hsecond.trans ((middle_leadsTo hwaits).trans ((hparting _ _ _).trans
    (parting_leadsTo hwaits)))

/-- A burst goes out, and each word behind the first one is asked for once before it is taken. -/
theorem burst_leadsTo {n : Nat} (hn : Remaining en len n) :
    LeadsTo (transfer ins s₀)
      (At (highOut m p (c.captures (quadHigh (lane w 3))) es w en len 3 (lane w 3)))
      fun s => ∃ ds : List Word, ds.length = n ∧
        Ended (sent c ((w :: ds).flatMap wordQuads))
          (es ++ ds.flatMap fun d => [.ready m.regspo, .takes d]) m.regspo s := by
  induction n generalizing w len c es with
  | zero =>
      intro t ht
      obtain ⟨k, hle, hk⟩ := last_leadsTo hwaits hn.last t ht
      refine ⟨k, hle, [], rfl, ?_⟩
      simpa using hk
  | succ n ih =>
      obtain ⟨rfl, hne, hless⟩ := hn.more
      refine (word_leadsTo hwaits hne).trans ?_
      rintro t ⟨d, ht⟩
      obtain ⟨k, hle, ds, hlength, hk⟩ := ih hless t ht
      refine ⟨k, hle, d :: ds, by rw [List.length_cons, hlength], ?_⟩
      rw [sent_sent] at hk
      simpa using hk

theorem write_leadsTo {j : MemoryIn} {n : Nat} (hn : Remaining j.burstEn j.burstLength n) :
    LeadsTo (transfer ins s₀) (At (issued (m.accepted j) p c es true)) fun s =>
      ∃ ds : List Word, ds.length = n ∧
        Ended (sent c.resting
          (PsramFast.quads 8 (0x38#8 ++ j.a) ++ (j.d :: ds).flatMap wordQuads))
          (es ++ ds.flatMap fun d => [.ready m.regspo, .takes d]) m.regspo s := by
  refine (issued_leadsTo hwaits).trans ?_
  rintro t ⟨p', ht⟩
  have hloaded : LeadsTo (transfer ins s₀)
      (At (prepared (m.accepted j) p'
        (sent c.resting (PsramFast.quads 8 (command (m.accepted j) true))) es true)) _ :=
    hwaits.next (fun _ => not_ready_of_psram nofun) fun _ _ => prepared_cycle
  obtain ⟨k, hle, ds, hlength, hk⟩ :=
    (hloaded.trans ((loaded_leadsTo hwaits (by decide)).trans (burst_leadsTo hwaits hn))) t ht
  refine ⟨k, hle, ds, hlength, ?_⟩
  rw [sent_sent] at hk
  exact hk

end Run

end MemorySystem

end PComputer.Rtl
