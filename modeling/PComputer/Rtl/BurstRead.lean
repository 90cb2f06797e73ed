import PComputer.Rtl.BurstStates

/-!
# A burst that is read

Behind the command come six clocks in which nothing is transferred, and one more edge.
A byte comes in four cycles, as two samples; it is counted one cycle later, so that a word
is shown with the first sample of the next one.
-/

namespace PComputer.Rtl

open PComputer.Foundation

/-! ## The answer of the chip -/

def PsramChip.answering (c : PsramChip) (cmd : List Pins) (k : Nat) : PsramChip :=
  { c with captured := cmd ++ List.replicate (7 + k) Pins.floating, clocks := 14 + k }

def PsramChip.nibbleAt (c : PsramChip) (cmd : List Pins) (k : Nat) : BitVec 4 :=
  c.stream c.frames cmd k

def PsramChip.byteAt (c : PsramChip) (cmd : List Pins) (k : Nat) : BitVec 8 :=
  c.nibbleAt cmd k ++ c.nibbleAt cmd (k + 1)

def PsramChip.wordAt (c : PsramChip) (cmd : List Pins) (k : Nat) : Word :=
  c.byteAt cmd k ++ c.byteAt cmd (k + 2) ++ c.byteAt cmd (k + 4) ++ c.byteAt cmd (k + 6)

section Answer

variable {c : PsramChip} {cmd : List Pins} {k : Nat}

private theorem answering_next :
    (c.answering cmd k).ticks.captures .floating = c.answering cmd (k + 1) := by
  simp only [PsramChip.answering, PsramChip.ticks, PsramChip.captures, List.append_assoc,
    ← List.replicate_succ']
  rfl

private theorem sio_answering (hcmd : cmd.length = 8) (noise : BitVec 4) :
    (c.answering cmd k).sio noise = c.nibbleAt cmd k := by
  have htake : (cmd ++ List.replicate (7 + k) Pins.floating).take 8 = cmd := by
    rw [← hcmd, List.take_left]
  unfold PsramChip.sio PsramChip.answering
  dsimp only
  rw [if_pos (by omega), htake, Nat.add_sub_cancel_left]
  rfl

end Answer

/-! ## The cycles of a byte -/

def shiftIn (byte : BitVec 8) (nibble : BitVec 4) : BitVec 8 := byte.extractLsb' 0 4 ++ nibble

private theorem shiftIn_shiftIn (byte : BitVec 8) (high low : BitVec 4) :
    shiftIn (shiftIn byte high) low = high ++ low := by
  rw [shiftIn, shiftIn, BitVec.extractLsb'_append_eq_right]

def wordOf (buf : BitVec 2 → BitVec 8) : Word := buf 3 ++ buf 2 ++ buf 1 ++ buf 0

private theorem wordOf_update (buf : BitVec 2 → BitVec 8) (b₂ b₁ b₀ : BitVec 8) :
    wordOf (Function.update (Function.update (Function.update buf 2 b₂) 1 b₁) 0 b₀) =
      buf 3 ++ b₂ ++ b₁ ++ b₀ := by
  simp [wordOf]

def PsramFast.reading (p : PsramFast) (sclk : Bool) (bytecnt : BitVec 3) (byte : BitVec 8)
    (available : Bool) : PsramFast :=
  { p.busy false .READING_QUAD sclk with
    byteAvailable := available
    databyte := byte
    bytecnt := bytecnt }

def MemoryController.fetching (m : MemoryController) (buf : BitVec 2 → BitVec 8) (spo : Word)
    (en : Bool) (len : BitVec 8) (count : BitVec 6) (available : Bool) : MemoryController :=
  { m.active false count false with
    regspo := spo
    regbuf := buf
    regburstEn := en
    regburstLength := len
    mByteAvailableOld := available }

namespace MemorySystem

section Block

variable (m : MemoryController) (p : PsramFast) (c : PsramChip) (es : List BurstEvent)
variable (buf : BitVec 2 → BitVec 8) (spo : Word) (en : Bool) (len : BitVec 8)
variable (count : BitVec 6) (byte : BitVec 8)

def dummy (k : BitVec 4) (sclk clk : Bool) : MemorySystem where
  clk := clk
  memory := m.active false 4 false
  psram := { p.busy false .READING_PREPARE_QUAD sclk with readPCnt := k, bytecnt := 0 }
  chip := c
  events := es

/-- The first sample of a byte; a byte before it is still shown. -/
def highIn (available clk : Bool) : MemorySystem where
  clk := clk
  memory := m.fetching buf spo en len count available
  psram := p.reading true 0 byte available
  chip := c
  events := es

def lowDue (available clk : Bool) : MemorySystem where
  clk := clk
  memory := m.fetching buf spo en len count available
  psram := p.reading false 4 byte false
  chip := c
  events := es

def lowIn (clk : Bool) : MemorySystem where
  clk := clk
  memory := m.fetching buf spo en len count false
  psram := p.reading true 4 byte false
  chip := c
  events := es

def available (clk : Bool) : MemorySystem where
  clk := clk
  memory := m.fetching buf spo en len count false
  psram := { p.reading false 0 byte true with dout := byte }
  chip := c
  events := es

end Block

variable {m : MemoryController} {p : PsramFast} {c : PsramChip} {es : List BurstEvent}
variable {buf : BitVec 2 → BitVec 8} {spo : Word} {en : Bool} {len : BitVec 8}
variable {count : BitVec 6} {byte : BitVec 8} {clk seen sclk : Bool} {i : MemoryIn}
variable {k : BitVec 4} {nibble : BitVec 4}

private theorem dummy_cycle (hk : k ≠ 0) : (dummy m p c es k sclk clk).cycle i.calm =
    dummy m p (if sclk then c.ticks else c.captures .floating) es (k - 1) (!sclk) (!clk) := by
  have hstate : (if k = 0 then PsramState.READING_QUAD else .READING_PREPARE_QUAD) =
      .READING_PREPARE_QUAD := if_neg hk
  cases sclk
  · exact congrArg (fun state => MemorySystem.mk (!clk) (m.active false 4 false)
      { p.busy false state true with readPCnt := k - 1, bytecnt := 0 } (c.captures .floating) es)
      hstate
  · exact congrArg (fun state => MemorySystem.mk (!clk) (m.active false 4 false)
      { p.busy false state false with readPCnt := k - 1, bytecnt := 0 } c.ticks es) hstate

private theorem dummy_last : (dummy m p c es 0 false clk).cycle i.calm =
    highIn m { p with readPCnt := 0 - 1 } (c.captures .floating) es m.regbuf m.regspo m.regburstEn
      m.regburstLength 4 p.databyte false (!clk) := rfl

/-! ### Bytes before the last one -/

def Proceeds (en : Bool) (len : BitVec 8) (count : BitVec 6) : Prop :=
  (count == 1 && (!en || len == 1) || false) = false

private theorem proceeds_of_count (hcount : count ≠ 1) : Proceeds en len count := by
  unfold Proceeds
  rw [beq_eq_false_iff_ne.mpr hcount]
  rfl

private theorem proceeds_of_len (hlen : len ≠ 1) : Proceeds true len count := by
  unfold Proceeds
  rw [beq_eq_false_iff_ne.mpr hlen]
  cases count == 1 <;> rfl

private theorem highIn_cycle (hcount : count = 1 ∨ count = 2 ∨ count = 3 ∨ count = 4)
    (hproceeds : Proceeds en len count) (hsio : ∀ noise, c.sio noise = nibble) :
    (highIn m p c es buf spo en len count byte seen clk).cycle i.calm =
      lowDue m p c.ticks es buf spo en len count (shiftIn byte nibble) seen (!clk) := by
  rw [← hsio i.noise]
  change _ = MemorySystem.mk (!clk) { m.fetching buf spo en len count seen with mRend := false }
    (p.reading false (0 + 4) (shiftIn byte (c.sio i.noise)) false) c.ticks es
  rcases hcount with rfl | rfl | rfl | rfl <;> cases seen
  all_goals
    exact congrArg (fun rend : Bool => MemorySystem.mk (!clk)
      { m.fetching buf spo en len _ _ with mRend := rend }
      (p.reading false (0 + 4) (shiftIn byte (c.sio i.noise)) false) c.ticks es) hproceeds

private theorem lowDue_cycle (hcount : count = 1 ∨ count = 2 ∨ count = 3 ∨ count = 4)
    (hproceeds : Proceeds en len count) :
    (lowDue m p c es buf spo en len count byte seen clk).cycle i.calm =
      lowIn m p (c.captures .floating) es buf spo en len count byte (!clk) := by
  rcases hcount with rfl | rfl | rfl | rfl <;> cases seen
  all_goals
    exact congrArg (fun rend : Bool => MemorySystem.mk (!clk)
      { m.fetching buf spo en len _ false with mRend := rend } (p.reading true 4 byte false)
      (c.captures .floating) es) hproceeds

private theorem lowIn_cycle (hcount : count = 1 ∨ count = 2 ∨ count = 3 ∨ count = 4)
    (hproceeds : Proceeds en len count) (hsio : ∀ noise, c.sio noise = nibble) :
    (lowIn m p c es buf spo en len count byte clk).cycle i.calm =
      available m p c.ticks es buf spo en len count (shiftIn byte nibble) (!clk) := by
  rw [← hsio i.noise]
  change _ = MemorySystem.mk (!clk) (m.fetching buf spo en len count false)
    { p.reading false (4 + 4) (shiftIn byte (c.sio i.noise)) true with
      dout := shiftIn byte (c.sio i.noise) } c.ticks es
  rcases hcount with rfl | rfl | rfl | rfl
  all_goals
    exact congrArg (fun rend : Bool => MemorySystem.mk (!clk)
      { m.fetching buf spo en len _ false with mRend := rend }
      { p.reading false (4 + 4) (shiftIn byte (c.sio i.noise)) true with
        dout := shiftIn byte (c.sio i.noise) } c.ticks es) hproceeds

private theorem regbufNext_available (m : MemoryController) (spo : Word)
    (hcount : count = 1 ∨ count = 2 ∨ count = 3 ∨ count = 4) :
    (m.fetching buf spo en len count false).regbufNext i { p.reading false 0 byte true with
      dout := byte } = Function.update buf ((count - 1).setWidth 2) byte := by
  have hfull : ¬((m.fetching buf spo en len count false).state = .IDLE ∨
      (m.fetching buf spo en len count false).takesNext) := by
    rintro (h | h)
    · cases h
    · cases h
  have hcount' : (count - 1).toNat < 4 := by rcases hcount with rfl | rfl | rfl | rfl <;> decide
  exact (if_neg hfull).trans (if_pos ⟨rfl, rfl, hcount'⟩)

private theorem available_cycle (hcount : count = 1 ∨ count = 2 ∨ count = 3 ∨ count = 4)
    (hproceeds : Proceeds en len count) :
    (available m p c es buf spo en len count byte clk).cycle i.calm =
      highIn m { p with dout := byte } (c.captures .floating) es
        (Function.update buf ((count - 1).setWidth 2) byte) spo en len (count - 1) byte true
        (!clk) := by
  let stored (buf' : BitVec 2 → BitVec 8) (rend : Bool) : MemorySystem := ⟨!clk,
    { m.fetching buf' spo en len (count - 1) true with mRend := rend },
    { p.reading true 0 byte true with dout := byte }, c.captures .floating, es⟩
  have hbuf : (available m p c es buf spo en len count byte clk).memory.regbufNext i.calm
      (available m p c es buf spo en len count byte clk).psram =
        Function.update buf ((count - 1).setWidth 2) byte :=
    regbufNext_available m spo hcount
  have hcycle : (available m p c es buf spo en len count byte clk).cycle i.calm =
      stored ((available m p c es buf spo en len count byte clk).memory.regbufNext i.calm
        (available m p c es buf spo en len count byte clk).psram)
        (count == 1 && (!en || len == 1) || false) := by
    rcases hcount with rfl | rfl | rfl | rfl <;> rfl
  exact hcycle.trans (congrArg₂ stored hbuf hproceeds)

/-! ### The end of a word -/

def shown (m : MemoryController) (p : PsramFast) (c : PsramChip) (es : List BurstEvent)
    (buf : BitVec 2 → BitVec 8) (spo : Word) (len : BitVec 8) (byte : BitVec 8) (clk : Bool) :
    MemorySystem where
  clk := clk
  memory := { m.fetching buf spo true len 4 true with readyR := true }
  psram := p.reading false 4 byte false
  chip := c
  events := es

def shownTwice (m : MemoryController) (p : PsramFast) (c : PsramChip) (es : List BurstEvent)
    (buf : BitVec 2 → BitVec 8) (spo : Word) (len : BitVec 8) (byte : BitVec 8) (clk : Bool) :
    MemorySystem where
  clk := clk
  memory := { m.fetching buf spo true len 4 false with readyROld := true, readyDelay := true }
  psram := p.reading true 4 byte false
  chip := c
  events := if clk then es else es ++ [.ready spo]

private theorem highIn_shown (hlen : len ≠ 1) (hsio : ∀ noise, c.sio noise = nibble) :
    (highIn m p c es buf spo true len 0 byte true clk).cycle i.calm =
      shown m p c.ticks es buf (wordOf buf) (len - 1) (shiftIn byte nibble) (!clk) := by
  have hlen' : ¬len = 1#8 := hlen
  have hmemory : (m.fetching buf spo true len 0 true).cycle i.calm (p.reading true 0 byte true) =
      { m.fetching buf (wordOf buf) true (len - 1) 4 true with readyR := true } := by
    simp [MemoryController.cycle, MemoryController.fsm, MemoryController.regbufNext,
      MemoryController.takesNext, MemoryController.byteAvailablePosedge,
      MemoryController.fetching, MemoryController.active, PsramFast.reading, PsramFast.busy,
      MemoryIn.calm, wordOf, hlen']
  rw [← hsio i.noise]
  change _ = MemorySystem.mk (!clk)
    { m.fetching buf (wordOf buf) true (len - 1) 4 true with readyR := true }
    (p.reading false (0 + 4) (shiftIn byte (c.sio i.noise)) false) c.ticks es
  rw [← hmemory]
  rfl

private theorem shown_cycle : (shown m p c es buf spo len byte clk).cycle i.calm =
    shownTwice m p (c.captures .floating) es buf spo len byte (!clk) := by
  cases clk <;> rfl

private theorem shownTwice_cycle (hsio : ∀ noise, c.sio noise = nibble) :
    (shownTwice m p c es buf spo len byte clk).cycle i.calm =
      available m p c.ticks (es ++ [.ready spo]) buf spo true len 4
        (shiftIn byte nibble) (!clk) := by
  rw [← hsio i.noise]
  change _ = MemorySystem.mk (!clk) (m.fetching buf spo true len 4 false)
    { p.reading false (4 + 4) (shiftIn byte (c.sio i.noise)) true with
      dout := shiftIn byte (c.sio i.noise) } c.ticks (es ++ [.ready spo])
  cases clk <;> rfl

/-! ### The last byte of a burst -/

section Last

variable (m : MemoryController) (p : PsramFast) (c : PsramChip) (es : List BurstEvent)
variable (buf : BitVec 2 → BitVec 8) (spo : Word) (en : Bool) (len byte : BitVec 8) (clk : Bool)

/-- The end of the burst is asked for while its last byte comes in. -/
def lowDueLast : MemorySystem where
  clk := clk
  memory := { m.fetching buf spo en len 1 true with mRend := true }
  psram := p.reading false 4 byte false
  chip := c
  events := es

def lowInLast : MemorySystem where
  clk := clk
  memory := { m.fetching buf spo en len 1 false with mRend := true }
  psram := { p.reading true 4 byte false with rendLatch := true }
  chip := c
  events := es

def availableLast : MemorySystem where
  clk := clk
  memory := { m.fetching buf spo en len 1 false with mRend := true }
  psram := { p.reading false 0 byte true with dout := byte, rendLatch := true }
  chip := c
  events := es

/-- The last word is complete, and `psram_controller_fast` has left READING_QUAD. -/
def fetched : MemorySystem where
  clk := clk
  memory := { m.fetching buf spo en len 0 true with mRend := true }
  psram := { p.busy false .BTWN_READ_IDLE false with
    byteAvailable := true
    rendLatch := true
    cecnt := 7 }
  chip := c
  events := es

end Last

private theorem highIn_last (hlast : en = false ∨ len = 1) (hsio : ∀ noise, c.sio noise = nibble) :
    (highIn m p c es buf spo en len 1 byte true clk).cycle i.calm =
      lowDueLast m p c.ticks es buf spo en len (shiftIn byte nibble) (!clk) := by
  rw [← hsio i.noise]
  change _ = MemorySystem.mk (!clk) { m.fetching buf spo en len 1 true with mRend := true }
    (p.reading false (0 + 4) (shiftIn byte (c.sio i.noise)) false) c.ticks es
  rcases hlast with rfl | rfl
  · rfl
  · cases en <;> rfl

private theorem lowDueLast_cycle : (lowDueLast m p c es buf spo en len byte clk).cycle i.calm =
    lowInLast m p (c.captures .floating) es buf spo en len byte (!clk) := by
  have hrend : (true && (!en || len == 1) || true) = true := Bool.or_true _
  exact congrArg (fun rend : Bool => MemorySystem.mk (!clk)
    { m.fetching buf spo en len 1 false with mRend := rend }
    { p.reading true 4 byte false with rendLatch := true } (c.captures .floating) es) hrend

private theorem lowInLast_cycle (hsio : ∀ noise, c.sio noise = nibble) :
    (lowInLast m p c es buf spo en len byte clk).cycle i.calm =
      availableLast m p c.ticks es buf spo en len (shiftIn byte nibble) (!clk) := by
  have hrend : (true && (!en || len == 1) || true) = true := Bool.or_true _
  rw [← hsio i.noise]
  change _ = MemorySystem.mk (!clk) { m.fetching buf spo en len 1 false with mRend := true }
    { p.reading false (4 + 4) (shiftIn byte (c.sio i.noise)) true with
      dout := shiftIn byte (c.sio i.noise)
      rendLatch := true } c.ticks es
  exact congrArg (fun rend : Bool => MemorySystem.mk (!clk)
    { m.fetching buf spo en len 1 false with mRend := rend }
    { p.reading false (4 + 4) (shiftIn byte (c.sio i.noise)) true with
      dout := shiftIn byte (c.sio i.noise)
      rendLatch := true } c.ticks es) hrend

private theorem availableLast_cycle :
    (availableLast m p c es buf spo en len byte clk).cycle i.calm =
      fetched m { p.reading false 0 byte true with dout := byte } c es
        (Function.update buf 0 byte) spo en len (!clk) := by
  let stored (buf' : BitVec 2 → BitVec 8) (rend : Bool) : MemorySystem := ⟨!clk,
    { m.fetching buf' spo en len (1 - 1) true with mRend := rend },
    (fetched m { p.reading false 0 byte true with dout := byte } c es buf' spo en len clk).psram,
    c, es⟩
  have hbuf : (availableLast m p c es buf spo en len byte clk).memory.regbufNext i.calm
      (availableLast m p c es buf spo en len byte clk).psram = Function.update buf 0 byte :=
    regbufNext_available m spo (.inl rfl)
  have hrend : (true && (!en || len == 1) || true) = true := Bool.or_true _
  exact congrArg₂ stored hbuf hrend

private theorem fetched_cycle (hlast : en = false ∨ len = 1) : ∃ m', m'.regspo = wordOf buf ∧
    (fetched m p c es buf spo en len clk).cycle i.calm =
      closing m' p c es false false 6 (!clk) := by
  refine ⟨{ m.fetching buf (wordOf buf) en (if en then len - 1 else len) 0 true with
    mRend := true }, rfl, ?_⟩
  change _ = closing { m.fetching buf (wordOf buf) en (if en then len - 1 else len) 0 true with
    mRend := true } p c es false false (7 - 1) (!clk)
  rcases hlast with rfl | rfl
  · rfl
  · cases en <;> rfl

/-! ### A byte, a word and a burst -/

variable {ins : Nat → MemoryIn} {s₀ : MemorySystem} {cmd : List Pins}

/-- A byte begins to come in, the nibbles and the bytes before it apart. -/
def Fetches (m : MemoryController) (c : PsramChip) (es : List BurstEvent)
    (buf : BitVec 2 → BitVec 8) (spo : Word) (en : Bool) (len : BitVec 8) (count : BitVec 6)
    (seen : Bool) (s : MemorySystem) : Prop :=
  ∃ p byte, At (highIn m p c es buf spo en len count byte seen) s

section Run

variable (hwaits : Waits ins (transfer ins s₀))
include hwaits

private theorem dummy_leadsTo {n : Nat} (hk : k.toNat = 2 * n) :
    LeadsTo (transfer ins s₀) (At (dummy m p c es k false))
      (At (highIn m { p with readPCnt := 0 - 1 }
        ((sent c (List.replicate n .floating)).captures .floating) es m.regbuf m.regspo
        m.regburstEn m.regburstLength 4 p.databyte false)) := by
  induction n generalizing k c with
  | zero =>
      obtain rfl : k = 0 := BitVec.eq_of_toNat_eq hk
      rw [List.replicate_zero, sent_nil]
      exact hwaits.next (fun _ => not_ready_of_psram nofun) fun _ _ => dummy_last
  | succ n ih =>
      have hk' : (k - 1).toNat = 2 * n + 1 := toNat_sub_of_eq hk
      have hless : (k - 1 - 1).toNat = 2 * n := toNat_sub_of_eq hk'
      have hne {k : BitVec 4} {n : Nat} (h : k.toNat = n + 1) : k ≠ 0 := by
        rintro rfl
        cases h
      have hlow : LeadsTo (transfer ins s₀) (At (dummy m p c es k false))
          (At (dummy m p (c.captures .floating) es (k - 1) true)) :=
        hwaits.next (fun _ => not_ready_of_psram nofun) fun _ _ => dummy_cycle (hne hk)
      have hhigh : LeadsTo (transfer ins s₀)
          (At (dummy m p (c.captures .floating) es (k - 1) true))
          (At (dummy m p (c.captures .floating).ticks es (k - 1 - 1) false)) :=
        hwaits.next (fun _ => not_ready_of_psram nofun) fun _ _ => dummy_cycle (hne hk')
      rw [List.replicate_succ, sent_cons]
      exact hlow.trans (hhigh.trans (ih hless))

private theorem available_leadsTo {k : Nat} (hcount : count = 1 ∨ count = 2 ∨ count = 3 ∨ count = 4)
    (hproceeds : Proceeds en len count) :
    LeadsTo (transfer ins s₀)
      (At (available m p (c.answering cmd k).ticks es buf spo en len count byte))
      (Fetches m (c.answering cmd (k + 1)) es
        (Function.update buf ((count - 1).setWidth 2) byte) spo en len (count - 1) true) := by
  rw [← answering_next]
  refine hwaits.leadsTo ?_ ?_
  · rintro s ⟨clk, rfl⟩
    exact not_ready_of_psram nofun
  · rintro s i ⟨clk, rfl⟩
    exact ⟨{ p with dout := byte }, byte, !clk, available_cycle hcount hproceeds⟩

private theorem byteIn_leadsTo {k : Nat} (hcmd : cmd.length = 8)
    (hcount : count = 1 ∨ count = 2 ∨ count = 3 ∨ count = 4) (hproceeds : Proceeds en len count) :
    LeadsTo (transfer ins s₀)
      (Fetches m (c.answering cmd k) es buf spo en len count seen)
      (Fetches m (c.answering cmd (k + 2)) es
        (Function.update buf ((count - 1).setWidth 2) (c.byteAt cmd k)) spo en len (count - 1)
        true) := by
  rintro t ⟨p, byte, ht⟩
  have hhigh : LeadsTo (transfer ins s₀)
      (At (highIn m p (c.answering cmd k) es buf spo en len count byte seen))
      (At (lowDue m p (c.answering cmd k).ticks es buf spo en len count
        (shiftIn byte (c.nibbleAt cmd k)) seen)) :=
    hwaits.next (fun _ => not_ready_of_psram nofun) fun _ _ =>
      highIn_cycle hcount hproceeds (sio_answering hcmd)
  have hdue : LeadsTo (transfer ins s₀)
      (At (lowDue m p (c.answering cmd k).ticks es buf spo en len count
        (shiftIn byte (c.nibbleAt cmd k)) seen))
      (At (lowIn m p (c.answering cmd (k + 1)) es buf spo en len count
        (shiftIn byte (c.nibbleAt cmd k)))) := by
    rw [← answering_next]
    exact hwaits.next (fun _ => not_ready_of_psram nofun) fun _ _ => lowDue_cycle hcount hproceeds
  have hlow : LeadsTo (transfer ins s₀)
      (At (lowIn m p (c.answering cmd (k + 1)) es buf spo en len count
        (shiftIn byte (c.nibbleAt cmd k))))
      (At (available m p (c.answering cmd (k + 1)).ticks es buf spo en len count
        (c.byteAt cmd k))) := by
    rw [PsramChip.byteAt, ← shiftIn_shiftIn byte]
    exact hwaits.next (fun _ => not_ready_of_psram nofun) fun _ _ =>
      lowIn_cycle hcount hproceeds (sio_answering hcmd)
  exact (hhigh.trans (hdue.trans (hlow.trans (available_leadsTo hwaits hcount hproceeds)))) t ht

/-- The two bytes in the middle of a word. -/
theorem middleIn_leadsTo {k : Nat} (hcmd : cmd.length = 8) :
    LeadsTo (transfer ins s₀)
      (Fetches m (c.answering cmd k) es buf spo en len 3 true)
      (Fetches m (c.answering cmd (k + 4)) es
        (Function.update (Function.update buf 2 (c.byteAt cmd k)) 1 (c.byteAt cmd (k + 2))) spo en
        len 1 true) := by
  have hthird : LeadsTo (transfer ins s₀)
      (Fetches m (c.answering cmd k) es buf spo en len 3 true)
      (Fetches m (c.answering cmd (k + 2)) es (Function.update buf 2 (c.byteAt cmd k)) spo en len 2
        true) :=
    byteIn_leadsTo hwaits hcmd (by decide) (proceeds_of_count (by decide))
  have hsecond : LeadsTo (transfer ins s₀)
      (Fetches m (c.answering cmd (k + 2)) es (Function.update buf 2 (c.byteAt cmd k)) spo en len 2
        true)
      (Fetches m (c.answering cmd (k + 2 + 2)) es
        (Function.update (Function.update buf 2 (c.byteAt cmd k)) 1 (c.byteAt cmd (k + 2))) spo en
        len 1 true) :=
    byteIn_leadsTo hwaits hcmd (by decide) (proceeds_of_count (by decide))
  exact hthird.trans hsecond

private theorem shown_leadsTo {k : Nat} (hcmd : cmd.length = 8) (hlen : len ≠ 1) :
    LeadsTo (transfer ins s₀)
      (Fetches m (c.answering cmd k) es buf spo true len 0 true)
      (Fetches m (c.answering cmd (k + 2)) (es ++ [.ready (wordOf buf)])
        (Function.update buf 3 (c.byteAt cmd k)) (wordOf buf) true (len - 1) 3 true) := by
  rintro t ⟨p, byte, ht⟩
  have hshown : LeadsTo (transfer ins s₀)
      (At (highIn m p (c.answering cmd k) es buf spo true len 0 byte true))
      (At (shown m p (c.answering cmd k).ticks es buf (wordOf buf) (len - 1)
        (shiftIn byte (c.nibbleAt cmd k)))) :=
    hwaits.next (fun _ => not_ready_of_psram nofun) fun _ _ =>
      highIn_shown hlen (sio_answering hcmd)
  have htwice : LeadsTo (transfer ins s₀)
      (At (shown m p (c.answering cmd k).ticks es buf (wordOf buf) (len - 1)
        (shiftIn byte (c.nibbleAt cmd k))))
      (At (shownTwice m p (c.answering cmd (k + 1)) es buf (wordOf buf) (len - 1)
        (shiftIn byte (c.nibbleAt cmd k)))) := by
    rw [← answering_next]
    exact hwaits.next (fun _ => not_ready_of_psram nofun) fun _ _ => shown_cycle
  have hlow : LeadsTo (transfer ins s₀)
      (At (shownTwice m p (c.answering cmd (k + 1)) es buf (wordOf buf) (len - 1)
        (shiftIn byte (c.nibbleAt cmd k))))
      (At (available m p (c.answering cmd (k + 1)).ticks (es ++ [.ready (wordOf buf)]) buf
        (wordOf buf) true (len - 1) 4 (c.byteAt cmd k))) := by
    rw [PsramChip.byteAt, ← shiftIn_shiftIn byte]
    exact hwaits.next (fun _ => not_ready_of_psram nofun) fun _ _ =>
      shownTwice_cycle (sio_answering hcmd)
  exact (hshown.trans (htwice.trans (hlow.trans (available_leadsTo hwaits (by decide)
    (proceeds_of_count (by decide)))))) t ht

private theorem wordIn_leadsTo {k : Nat} (hcmd : cmd.length = 8) (hlen : len ≠ 1)
    (hbuf : buf 3 = c.byteAt cmd k) :
    LeadsTo (transfer ins s₀)
      (Fetches m (c.answering cmd (k + 2)) es buf spo true len 3 true)
      fun s => ∃ buf', buf' 3 = c.byteAt cmd (k + 8) ∧
        Fetches m (c.answering cmd (k + 8 + 2)) (es ++ [.ready (c.wordAt cmd k)]) buf'
          (c.wordAt cmd k) true (len - 1) 3 true s := by
  let late : BitVec 2 → BitVec 8 :=
    Function.update (Function.update buf 2 (c.byteAt cmd (k + 2))) 1 (c.byteAt cmd (k + 4))
  let full : BitVec 2 → BitVec 8 := Function.update late 0 (c.byteAt cmd (k + 6))
  have hword : wordOf full = c.wordAt cmd k := by rw [wordOf_update, hbuf, PsramChip.wordAt]
  have hmiddle : LeadsTo (transfer ins s₀)
      (Fetches m (c.answering cmd (k + 2)) es buf spo true len 3 true)
      (Fetches m (c.answering cmd (k + 6)) es late spo true len 1 true) :=
    middleIn_leadsTo hwaits hcmd
  have hlast : LeadsTo (transfer ins s₀)
      (Fetches m (c.answering cmd (k + 6)) es late spo true len 1 true)
      (Fetches m (c.answering cmd (k + 8)) es full spo true len 0 true) :=
    byteIn_leadsTo hwaits hcmd (.inl rfl) (proceeds_of_len hlen)
  have hshown : LeadsTo (transfer ins s₀)
      (Fetches m (c.answering cmd (k + 8)) es full spo true len 0 true)
      (Fetches m (c.answering cmd (k + 8 + 2)) (es ++ [.ready (c.wordAt cmd k)])
        (Function.update full 3 (c.byteAt cmd (k + 8))) (c.wordAt cmd k) true (len - 1) 3
        true) := by
    rw [← hword]
    exact shown_leadsTo hwaits hcmd hlen
  intro t ht
  obtain ⟨n, hle, hn⟩ := (hmiddle.trans (hlast.trans hshown)) t ht
  exact ⟨n, hle, _, Function.update_self _ _ _, hn⟩

private theorem availableLast_leadsTo (hlast : en = false ∨ len = 1) :
    LeadsTo (transfer ins s₀) (At (availableLast m p c es buf spo en len byte))
      (Ended c es (wordOf (Function.update buf 0 byte))) := by
  have hstored : LeadsTo (transfer ins s₀) (At (availableLast m p c es buf spo en len byte))
      (At (fetched m { p.reading false 0 byte true with dout := byte } c es
        (Function.update buf 0 byte) spo en len)) :=
    hwaits.next (fun _ => not_ready_of_psram nofun) fun _ _ => availableLast_cycle
  have hclosing : LeadsTo (transfer ins s₀)
      (At (fetched m { p.reading false 0 byte true with dout := byte } c es
        (Function.update buf 0 byte) spo en len))
      (Closing c es (wordOf (Function.update buf 0 byte)) false 6) := by
    refine hwaits.leadsTo ?_ ?_
    · rintro s ⟨clk, rfl⟩
      exact not_ready_of_psram nofun
    · rintro s i ⟨clk, rfl⟩
      obtain ⟨m', hspo, hcycle⟩ := fetched_cycle hlast
      exact ⟨m', _, false, hspo, !clk, hcycle⟩
  exact hstored.trans (hclosing.trans (closing_leadsTo hwaits))

private theorem lastByte_leadsTo {k : Nat} (hcmd : cmd.length = 8) (hlast : en = false ∨ len = 1) :
    LeadsTo (transfer ins s₀)
      (Fetches m (c.answering cmd k) es buf spo en len 1 true)
      (Ended (c.answering cmd (k + 1)).ticks es
        (wordOf (Function.update buf 0 (c.byteAt cmd k)))) := by
  rintro t ⟨p, byte, ht⟩
  have hhigh : LeadsTo (transfer ins s₀)
      (At (highIn m p (c.answering cmd k) es buf spo en len 1 byte true))
      (At (lowDueLast m p (c.answering cmd k).ticks es buf spo en len
        (shiftIn byte (c.nibbleAt cmd k)))) :=
    hwaits.next (fun _ => not_ready_of_psram nofun) fun _ _ =>
      highIn_last hlast (sio_answering hcmd)
  have hdue : LeadsTo (transfer ins s₀)
      (At (lowDueLast m p (c.answering cmd k).ticks es buf spo en len
        (shiftIn byte (c.nibbleAt cmd k))))
      (At (lowInLast m p (c.answering cmd (k + 1)) es buf spo en len
        (shiftIn byte (c.nibbleAt cmd k)))) := by
    rw [← answering_next]
    exact hwaits.next (fun _ => not_ready_of_psram nofun) fun _ _ => lowDueLast_cycle
  have hlow : LeadsTo (transfer ins s₀)
      (At (lowInLast m p (c.answering cmd (k + 1)) es buf spo en len
        (shiftIn byte (c.nibbleAt cmd k))))
      (At (availableLast m p (c.answering cmd (k + 1)).ticks es buf spo en len
        (c.byteAt cmd k))) := by
    rw [PsramChip.byteAt, ← shiftIn_shiftIn byte]
    exact hwaits.next (fun _ => not_ready_of_psram nofun) fun _ _ =>
      lowInLast_cycle (sio_answering hcmd)
  exact (hhigh.trans (hdue.trans (hlow.trans (availableLast_leadsTo hwaits hlast)))) t ht

private theorem lastIn_leadsTo {k : Nat} (hcmd : cmd.length = 8) (hlast : en = false ∨ len = 1)
    (hbuf : buf 3 = c.byteAt cmd k) :
    LeadsTo (transfer ins s₀)
      (Fetches m (c.answering cmd (k + 2)) es buf spo en len 3 true)
      (Ended (c.answering cmd (k + 7)).ticks es (c.wordAt cmd k)) := by
  rw [PsramChip.wordAt, ← hbuf, ← wordOf_update]
  exact (middleIn_leadsTo hwaits hcmd).trans (lastByte_leadsTo hwaits hcmd hlast)

/-- The words from nibble `k` on come in, and each is shown once. -/
theorem answer_leadsTo {n k : Nat} (hcmd : cmd.length = 8)
    (hn : Remaining en len n) (hbuf : buf 3 = c.byteAt cmd k) :
    LeadsTo (transfer ins s₀)
      (Fetches m (c.answering cmd (k + 2)) es buf spo en len 3 true)
      (Ended (c.answering cmd (k + 8 * n + 7)).ticks
        (es ++ (List.range n).map fun j => .ready (c.wordAt cmd (k + 8 * j)))
        (c.wordAt cmd (k + 8 * n))) := by
  induction n generalizing k len es spo buf with
  | zero =>
      simpa using lastIn_leadsTo hwaits hcmd hn.last hbuf
  | succ n ih =>
      obtain ⟨rfl, hne, hless⟩ := hn.more
      refine (wordIn_leadsTo hwaits hcmd hne hbuf).trans ?_
      rintro t ⟨buf', hbuf', ht⟩
      have hrest := ih hless hbuf' t ht
      have hshift (j : Nat) : k + 8 + 8 * j = k + 8 * (j + 1) := by omega
      simpa only [List.range_succ_eq_map, List.map_cons, List.map_map, Function.comp_def, hshift,
        List.append_assoc, List.singleton_append, Nat.mul_zero, Nat.add_zero] using hrest

private theorem prepared_leadsTo (hcmd : cmd.length = 8) :
    LeadsTo (transfer ins s₀) (At (prepared m p (sent c.resting cmd) es false))
      (Fetches m (c.answering cmd 0) es m.regbuf m.regspo m.regburstEn m.regburstLength 4
        false) := by
  have hchip : (sent (sent c.resting cmd) (List.replicate 6 .floating)).captures .floating =
      c.answering cmd 0 := by
    simp [sent, PsramChip.captures, PsramChip.resting, PsramChip.answering, hcmd,
      List.replicate_succ]
  intro t ht
  obtain ⟨n, hle, hn⟩ := dummy_leadsTo hwaits (k := 12) (n := 6) rfl t ht
  rw [hchip] at hn
  exact ⟨n, hle, _, _, hn⟩

private theorem fetch_leadsTo {j : MemoryIn} {n : Nat} (hcmd : cmd.length = 8)
    (hn : Remaining j.burstEn j.burstLength n) :
    LeadsTo (transfer ins s₀) (At (prepared (m.accepted j) p (sent c.resting cmd) es false))
      (Ended (c.answering cmd (8 * n + 7)).ticks
        (es ++ (List.range n).map fun w => .ready (c.wordAt cmd (8 * w)))
        (c.wordAt cmd (8 * n))) := by
  have hfirst : LeadsTo (transfer ins s₀)
      (Fetches (m.accepted j) (c.answering cmd 0) es (lane j.d) m.regspo j.burstEn j.burstLength 4
        false)
      (Fetches (m.accepted j) (c.answering cmd (0 + 2)) es
        (Function.update (lane j.d) 3 (c.byteAt cmd 0)) m.regspo j.burstEn j.burstLength 3
        true) :=
    byteIn_leadsTo hwaits hcmd (by decide) (proceeds_of_count (by decide))
  have hanswer : LeadsTo (transfer ins s₀)
      (Fetches (m.accepted j) (c.answering cmd (0 + 2)) es
        (Function.update (lane j.d) 3 (c.byteAt cmd 0)) m.regspo j.burstEn j.burstLength 3 true)
      (Ended (c.answering cmd (0 + 8 * n + 7)).ticks
        (es ++ (List.range n).map fun w => .ready (c.wordAt cmd (0 + 8 * w)))
        (c.wordAt cmd (0 + 8 * n))) :=
    answer_leadsTo hwaits hcmd hn (Function.update_self _ _ _)
  simp only [Nat.zero_add] at hfirst hanswer
  exact (prepared_leadsTo hwaits hcmd).trans (hfirst.trans hanswer)

theorem read_leadsTo {j : MemoryIn} {n : Nat} (hn : Remaining j.burstEn j.burstLength n) :
    LeadsTo (transfer ins s₀) (At (issued (m.accepted j) p c es false))
      (Ended (c.answering (PsramFast.quads 8 (0xeb#8 ++ j.a)) (8 * n + 7)).ticks
        (es ++ (List.range n).map fun w =>
          .ready (c.wordAt (PsramFast.quads 8 (0xeb#8 ++ j.a)) (8 * w)))
        (c.wordAt (PsramFast.quads 8 (0xeb#8 ++ j.a)) (8 * n))) := by
  refine (issued_leadsTo hwaits).trans ?_
  rintro t ⟨p', ht⟩
  exact fetch_leadsTo hwaits rfl hn t ht

end Run

end MemorySystem

end PComputer.Rtl
