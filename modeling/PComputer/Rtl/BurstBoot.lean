import PComputer.Rtl.BurstStates

/-!
# The boot of `psram_controller_fast`

After a reset three commands go out on one wire, and the chip is in QPI mode behind them.
The side of the CPU does not wait for that: its first request can come earlier, and stays
in WE_BEGIN or RD_BEGIN until then.
-/

namespace PComputer.Rtl

open PComputer.Foundation

/-! ## The commands of the boot -/

inductive BootCommand where
  | RSTEN | RST | QPI_ENTER
  deriving DecidableEq, Repr

namespace BootCommand

def code : BootCommand → BitVec 8
  | RSTEN => 0b01100110
  | RST => 0b10011001
  | QPI_ENTER => 0b00110101

def state : BootCommand → PsramState
  | RSTEN => .RSTEN
  | RST => .RST
  | QPI_ENTER => .QPI_ENTER

def between : BootCommand → PsramState
  | RSTEN => .BTWN_RSTEN_RST
  | RST => .BTWN_RST_QE
  | QPI_ENTER => .BTWN_QPI_IDLE

def later : BootCommand → List BootCommand
  | RSTEN => [RST, QPI_ENTER]
  | RST => [QPI_ENTER]
  | QPI_ENTER => []

def next (b : BootCommand) : PsramState := (b.later.head?.map state).getD .IDLE

def frame (b : BootCommand) : List Pins := (bits b.code).map fun bit => ⟨some bit, none, none, none⟩

def serial : Nat → BitVec 32 → List Pins
  | 0, _ => []
  | n + 1, v => ⟨some v[31], none, none, none⟩ :: serial n (v.shiftConcat true)

private theorem serial_code (b : BootCommand) : serial 8 (b.code ++ 0#24) = b.frame := by
  cases b <;> decide

def frames (b : BootCommand) : List (List Pins) := b.frame :: b.later.map frame

end BootCommand

namespace PsramFast

def booting (p : PsramFast) (state : PsramState) (ce sclk : Bool) : PsramFast :=
  { p with
    sclk := sclk
    ce := ce
    byteAvailable := false
    readyForNextByte := false
    state := state
    reseting := true
    rendLatch := false
    wendLatch := false
    weLatch := false
    rdLatch := false }

def serving (p : PsramFast) (b : BootCommand) (v : BitVec 32) (cnt : BitVec 8) (sclk : Bool) :
    PsramFast :=
  { p.booting .SEND false sclk with
    stateReturn := b.between
    sendbits := v
    sendcnt := cnt
    cecnt := 7 }

def parted (p : PsramFast) (b : BootCommand) (ce : Bool) (k : BitVec 3) : PsramFast :=
  { p.booting b.between ce false with cecnt := k }

end PsramFast

/--
The boot, `n` cycles before the end; `total` are the frames that the chip has seen when it
is over.
-/
inductive Booting (total : List (List Pins)) (n : Nat) : PsramFast → PsramChip → Prop where
  | init (p : PsramFast) (c : PsramChip) (hn : n = 76 + p.bootCounter.toNat)
      (htotal : total = c.frames ++ BootCommand.RSTEN.frames) :
      Booting total n (p.booting .INIT true false) c.resting
  | enter (p : PsramFast) (c : PsramChip) (b : BootCommand) (hn : n = 25 * b.later.length + 25)
      (htotal : total = c.frames ++ b.frames) :
      Booting total n (p.booting b.state true false) c.resting
  | low (p : PsramFast) (c : PsramChip) (b : BootCommand) (v : BitVec 32) (cnt : BitVec 8)
      (k : Nat)
      (hn : n = 25 * b.later.length + 8 + 2 * (k + 1)) (hcnt : cnt.toNat = k + 1)
      (hframe : c.captured ++ BootCommand.serial (k + 1) v = b.frame)
      (htotal : total = c.frames ++ b.frames) :
      Booting total n (p.serving b v cnt false) c
  | high (p : PsramFast) (c : PsramChip) (b : BootCommand) (v : BitVec 32) (cnt : BitVec 8)
      (k : Nat)
      (hn : n = 25 * b.later.length + 8 + (2 * k + 1)) (hcnt : cnt.toNat = k + 1)
      (hframe : c.captured ++ BootCommand.serial k (v.shiftConcat true) = b.frame)
      (htotal : total = c.frames ++ b.frames) :
      Booting total n (p.serving b v cnt true) c
  | closing (p : PsramFast) (c : PsramChip) (b : BootCommand) (k : BitVec 3)
      (hn : n = 25 * b.later.length + (k.toNat + 1)) (hk : k = 6 ∨ k = 7)
      (hframe : c.captured = b.frame) (htotal : total = c.frames ++ b.frames) :
      Booting total n (p.parted b false k) c
  | apart (p : PsramFast) (c : PsramChip) (b : BootCommand) (k : BitVec 3)
      (hn : n = 25 * b.later.length + (k.toNat + 1)) (hk : k.toNat ≤ 5)
      (htotal : total = c.frames ++ b.later.map BootCommand.frame) :
      Booting total n (p.parted b true k) c.resting
  | last (p : PsramFast) (c : PsramChip) (hn : n = 0) (htotal : total = c.frames) :
      Booting total n (p.booting .IDLE true false) c.resting

def PsramIn.calm (i : PsramIn) : PsramIn := { i with rst := false, rd := false, we := false }

namespace PsramFast

variable {p : PsramFast} {i : PsramIn} {b : BootCommand} {v : BitVec 32} {cnt : BitVec 8}
variable {k : BitVec 3}

private theorem booting_init (h : p.bootCounter ≠ 0) : (p.booting .INIT true false).cycle i.calm =
    { p with bootCounter := p.bootCounter - 1 }.booting .INIT true false := by
  have h' : ¬p.bootCounter = 0#16 := h
  simp [cycle, fsm, booting, PsramIn.calm, h']

private theorem booting_init_zero (h : p.bootCounter = 0) :
    (p.booting .INIT true false).cycle i.calm = p.booting .RSTEN true false := by
  have h' : p.bootCounter = 0#16 := h
  simp [cycle, fsm, booting, PsramIn.calm, h']

private theorem booting_enter : (p.booting b.state true false).cycle i.calm =
    p.serving b (b.code ++ 0#24) 8 false := by
  cases b <;> rfl

private theorem serving_low : (p.serving b v cnt false).cycle i.calm = p.serving b v cnt true := rfl

private theorem serving_high (h : cnt ≠ 1) : (p.serving b v cnt true).cycle i.calm =
    p.serving b (v.shiftConcat true) (cnt - 1) false := by
  have hstate : (if cnt = 1 then b.between else .SEND) = PsramState.SEND := if_neg h
  exact congrArg (fun state =>
    { p.serving b (v.shiftConcat true) (cnt - 1) false with state := state }) hstate

private theorem serving_last : (p.serving b v 1 true).cycle i.calm =
    (p.serving b (v.shiftConcat true) (1 - 1) false).parted b false 7 := rfl

private theorem parted_first : (p.parted b false 7).cycle i.calm = p.parted b false 6 := by
  change _ = p.parted b false (7 - 1)
  cases b <;> rfl

private theorem parted_second : (p.parted b false 6).cycle i.calm = p.parted b true 5 := by
  change _ = p.parted b true (6 - 1)
  cases b <;> rfl

private theorem parted_cycle (h : k ≠ 0) :
    (p.parted b true k).cycle i.calm = p.parted b true (k - 1) := by
  let parted' (ce : Bool) (state : PsramState) : PsramFast :=
    { p.parted b ce (k - 1) with state := state }
  have hcycle : (p.parted b true k).cycle i.calm =
      parted' (if k ≠ 7 then true else true) (if k = 0 then b.next else b.between) := by
    cases b <;> rfl
  rw [hcycle, ite_self, if_neg h]
  rfl

private theorem parted_last : (p.parted b true 0).cycle i.calm =
    { p with cecnt := 0 - 1 }.booting b.next true false := by
  cases b <;> rfl

private theorem booting_last : (p.booting .IDLE true false).cycle i.calm = p.resting := rfl

end PsramFast

namespace Booting

variable {total : List (List Pins)} {n : Nat} {p : PsramFast} {c : PsramChip} {i : PsramIn}

theorem behind (b : BootCommand) (p : PsramFast) (c : PsramChip) (hn : n = 25 * b.later.length)
    (htotal : total = c.frames ++ b.later.map BootCommand.frame) :
    Booting total n (p.booting b.next true false) c.resting := by
  cases b with
  | RSTEN => exact .enter p c .RST hn htotal
  | RST => exact .enter p c .QPI_ENTER hn htotal
  | QPI_ENTER => exact .last p c hn (htotal.trans (List.append_nil _))

theorem cycle (h : Booting total (n + 1) p c) :
    Booting total n (p.cycle i.calm) (c.clock p (p.cycle i.calm)) := by
  cases h with
  | init p c hn htotal =>
      by_cases hzero : p.bootCounter = 0
      · rw [PsramFast.booting_init_zero hzero]
        rw [hzero] at hn
        exact .enter p c .RSTEN (Nat.succ_injective hn) htotal
      · rw [PsramFast.booting_init hzero]
        obtain ⟨left, hleft⟩ := exists_toNat_eq_succ hzero
        have hless : (p.bootCounter - 1).toNat = left := toNat_sub_of_eq hleft
        exact .init _ c (by dsimp only; omega) htotal
  | enter p c b hn htotal =>
      rw [PsramFast.booting_enter]
      exact .low p _ b _ 8 7 (by omega) rfl b.serial_code htotal
  | low p c b v cnt k hn hcnt hframe htotal =>
      rw [PsramFast.serving_low]
      refine .high p _ b v cnt k (by omega) hcnt ?_ htotal
      rw [← hframe]
      exact List.append_assoc _ _ _
  | high p c b v cnt k hn hcnt hframe htotal =>
      by_cases hone : cnt = 1
      · subst hone
        obtain rfl : k = 0 := by simpa using hcnt.symm
        rw [PsramFast.serving_last]
        refine .closing _ _ b 7 (by simpa using hn) (.inr rfl) ?_ htotal
        rw [← hframe]
        exact (List.append_nil _).symm
      · rw [PsramFast.serving_high hone]
        obtain ⟨j, rfl⟩ : ∃ j, k = j + 1 := by
          refine Nat.exists_eq_succ_of_ne_zero ?_
          rintro rfl
          exact hone (BitVec.eq_of_toNat_eq hcnt)
        exact .low p _ b _ (cnt - 1) j (by omega) (toNat_sub_of_eq hcnt) hframe htotal
  | closing p c b k hn hk hframe htotal =>
      rcases hk with rfl | rfl
      · rw [PsramFast.parted_second]
        have hframes : total = (c.frames ++ [c.captured]) ++ b.later.map BootCommand.frame := by
          rw [htotal, hframe, List.append_assoc]
          rfl
        exact .apart p c.framed b 5 (Nat.succ_injective hn) (by decide) hframes
      · rw [PsramFast.parted_first]
        exact .closing p _ b 6 (Nat.succ_injective hn) (.inl rfl) hframe htotal
  | apart p c b k hn hk htotal =>
      by_cases hzero : k = 0
      · subst hzero
        rw [PsramFast.parted_last]
        exact behind b _ c (by simpa using hn) htotal
      · rw [PsramFast.parted_cycle hzero]
        obtain ⟨left, hleft⟩ := exists_toNat_eq_succ hzero
        have hless : (k - 1).toNat = left := toNat_sub_of_eq hleft
        exact .apart p c b (k - 1) (by omega) (by omega) htotal
  | last p c hn htotal => cases hn

theorem quiet (h : Booting total n p c) :
    p.byteAvailable = false ∧ p.readyForNextByte = false := by
  cases h <;> exact ⟨rfl, rfl⟩

theorem reseting (h : Booting total n p c) : p.reseting = true := by
  cases h <;> rfl

private theorem not_ready (h : Booting total (n + 1) p c) : p.ready = false := by
  cases h with
  | enter p c b => cases b <;> rfl
  | closing p c b => cases b <;> rfl
  | apart p c b => cases b <;> rfl
  | last p c hn => cases hn
  | _ => rfl

private theorem eq_of_zero (h : Booting total 0 p c) :
    p = p.booting .IDLE true false ∧ c = c.resting ∧ c.frames = total := by
  cases h with
  | last p c _ htotal => exact ⟨rfl, rfl, htotal.symm⟩
  | _ => omega

theorem frames (h : Booting total n p c) :
    ∃ boot, boot <:+ BootCommand.RSTEN.frames ∧ total = c.frames ++ boot := by
  have hsuffix (b : BootCommand) : b.frames <:+ BootCommand.RSTEN.frames := by cases b <;> decide
  cases h with
  | init p c hn htotal => exact ⟨_, List.suffix_refl _, htotal⟩
  | enter p c b hn htotal => exact ⟨_, hsuffix b, htotal⟩
  | low p c b v cnt k hn hcnt hframe htotal => exact ⟨_, hsuffix b, htotal⟩
  | high p c b v cnt k hn hcnt hframe htotal => exact ⟨_, hsuffix b, htotal⟩
  | closing p c b k hn hk hframe htotal => exact ⟨_, hsuffix b, htotal⟩
  | apart p c b k hn hk htotal =>
      exact ⟨_, (List.suffix_cons b.frame _).trans (hsuffix b), htotal⟩
  | last p c hn htotal => exact ⟨[], List.nil_suffix, htotal.trans (List.append_nil _).symm⟩

end Booting

theorem PsramChip.stream_clock (c : PsramChip) (before after : PsramFast) :
    (c.clock before after).stream = c.stream := by
  unfold clock
  cases after.ce <;> rfl

/-! ## Requests during the boot -/

def MemoryController.fresh (m : MemoryController) : MemoryController :=
  { m with
    mRd := false
    mWe := false
    mByteAvailableOld := false
    mReadyForNextByteOld := false
    state := .IDLE }

namespace MemorySystem

variable {s : MemorySystem} {i : MemoryIn} {total : List (List Pins)} {n : Nat}
variable {m : MemoryController} {p : PsramFast} {c : PsramChip} {es : List BurstEvent}
variable {write old delay clk : Bool}

def Fresh (s : MemorySystem) : Prop :=
  ∃ (before : MemorySystem) (j : MemoryIn) (ins : Nat → MemoryIn) (n : Nat),
    j.rst = true ∧ (∀ k, k < n → ins k = (ins k).calm) ∧
      s = trace cycle ins (before.cycle j) n

structure Starting (total : List (List Pins)) (n : Nat) (s : MemorySystem) : Prop where
  memory : s.memory = s.memory.fresh
  boot : Booting total n s.psram s.chip

private theorem starting_of_reset (hrst : i.rst = true) :
    Starting ((s.cycle i).chip.frames ++ BootCommand.RSTEN.frames) 20076 (s.cycle i) := by
  have hin : i = { i with rst := true } := by rw [← hrst]
  rw [hin]
  refine ⟨rfl, ?_⟩
  exact .init { s.psram with bootCounter := 20000, sendbits := 0, databyte := 0, bytecnt := 0 }
    (s.cycle { i with rst := true }).chip (by simp) rfl

theorem Starting.psramIn (h : Starting total n s) (hrst : i.rst = false) :
    s.psramIn i = (s.psramIn i).calm := by
  have hin : i = { i with rst := false } := by rw [← hrst]
  unfold MemorySystem.psramIn
  rw [h.memory, hin]
  rfl

private theorem fresh_cycle (hbyte : p.byteAvailable = false) (hnext : p.readyForNextByte = false) :
    m.fresh.cycle i.calm p = (m.fresh.cycle i.calm p).fresh := by
  simp [MemoryController.cycle, MemoryController.fsm, MemoryController.fresh, MemoryIn.calm, hbyte,
    hnext]

theorem Starting.next (h : Starting total (n + 1) s) : Starting total n (s.cycle i.calm) := by
  obtain ⟨hbyte, hnext⟩ := h.boot.quiet
  refine ⟨?_, ?_⟩
  · have hfresh := fresh_cycle (m := s.memory) (i := i) hbyte hnext
    rw [← h.memory] at hfresh
    exact hfresh
  · change Booting total n (s.psram.cycle (s.psramIn i.calm))
      (s.chip.clock s.psram (s.psram.cycle (s.psramIn i.calm)))
    rw [h.psramIn rfl]
    exact h.boot.cycle

/-- With the first cycle in IDLE the system is ready. -/
theorem Starting.ready (h : Starting total 0 s) :
    (s.cycle i.calm).Ready ∧ (s.cycle i.calm).chip.frames = total := by
  obtain ⟨hpsram, hchip, hframes⟩ := h.boot.eq_of_zero
  have hstate : s = ⟨s.clk, s.memory.fresh, s.psram.booting .IDLE true false, s.chip.resting,
      s.events⟩ := by
    rw [← h.memory, ← hpsram, ← hchip]
  rw [hstate, ← hframes]
  exact ⟨⟨rfl, rfl, rfl⟩, rfl⟩

theorem Starting.run {ins : Nat → MemoryIn} {left : Nat} (h : Starting total (n + left) s)
    (hcalm : ∀ k, k < n → ins k = (ins k).calm) : Starting total left (trace cycle ins s n) := by
  induction n generalizing left with
  | zero => rwa [Nat.zero_add] at h
  | succ n ih =>
      have hbefore : Starting total (left + 1) (trace cycle ins s n) :=
        ih (by rwa [Nat.add_comm left 1, ← Nat.add_assoc]) fun k hk =>
          hcalm k (Nat.lt_succ_of_lt hk)
      rw [trace_succ, hcalm n n.lt_succ_self]
      exact hbefore.next

/-- A reset and 20077 cycles without a request make the system ready. -/
theorem ready_of_reset {ins : Nat → MemoryIn} (hrst : i.rst = true)
    (hcalm : ∀ k, k < n + 20077 → ins k = (ins k).calm) :
    (trace cycle ins (s.cycle i) (n + 20077)).Ready ∧
      (trace cycle ins (s.cycle i) (n + 20077)).chip.frames =
        (s.cycle i).chip.frames ++ BootCommand.RSTEN.frames := by
  have hstart : Starting _ 0 (trace cycle ins (s.cycle i) 20076) :=
    (starting_of_reset hrst).run fun k hk => hcalm k (by omega)
  have hlast : trace cycle ins (s.cycle i) 20077 =
      (trace cycle ins (s.cycle i) 20076).cycle (ins 20076).calm := by
    rw [← hcalm 20076 (by omega)]
    exact trace_succ 20076
  obtain ⟨hready, hframes⟩ := hstart.ready (i := ins 20076)
  rw [← hlast] at hready hframes
  have hidles : Idles (fun k => ins (20077 + k)) (trace cycle ins (s.cycle i) 20077) :=
    hready.idles
  obtain ⟨hready', -, -, hframes'⟩ := hidles n fun k hk => hcalm (20077 + k) (by omega)
  rw [Nat.add_comm n, trace_add]
  exact ⟨hready', hframes'.trans hframes⟩

theorem Starting.busy (h : Starting total n s) : ¬s.Ready := by
  intro hready
  have hresting : s.psram.reseting = false := congrArg PsramFast.reseting hready.psram
  rw [h.boot.reseting] at hresting
  cases hresting

theorem Fresh.starting_or_ready (h : s.Fresh) : (∃ total n, Starting total n s) ∨ s.Ready := by
  obtain ⟨before, j, ins, n, hrst, hcalm, rfl⟩ := h
  induction n with
  | zero =>
      exact .inl ⟨_, _, starting_of_reset hrst⟩
  | succ n ih =>
      rw [trace_succ, hcalm n n.lt_succ_self]
      rcases ih fun k hk => hcalm k (Nat.lt_succ_of_lt hk) with ⟨total, left, hstart⟩ | hready
      · cases left with
        | zero => exact .inr hstart.ready.1
        | succ left => exact .inl ⟨total, left, hstart.next⟩
      · exact .inr hready.calm_cycle.1

/-- What is left of the boot comes before the command of a request. -/
def Booted (m : MemoryController) (es : List BurstEvent) (write : Bool) (total : List (List Pins))
    (c : PsramChip) (s : MemorySystem) : Prop :=
  ∃ p c', c'.frames = total ∧ c'.stream = c.stream ∧ At (issued m p c' es write) s

def Waiting (m : MemoryController) (es : List BurstEvent) (write : Bool)
    (total : List (List Pins)) (n : Nat) (c : PsramChip) (s : MemorySystem) : Prop :=
  ∃ p c', Booting total n p c' ∧ c'.stream = c.stream ∧
    At (asking m p c' es write false false) s

private theorem asking_psramIn (hrst : i.rst = false) :
    (asking m p c es write old delay clk).psramIn i =
      ((asking m p c es write old delay clk).psramIn i).calm := by
  have hin : i = { i with rst := false } := by rw [← hrst]
  rw [hin]
  rfl

private theorem fresh_accepts (hrst : i.rst = false) (hwe : i.we = write) (hrd : i.rd = !write)
    (hbyte : p.byteAvailable = false) (hnext : p.readyForNextByte = false) :
    m.fresh.cycle i p = (asking (m.accepted i) p c es write m.readyR
      (m.readyR && !m.readyROld) clk).memory := by
  cases write
  all_goals
    simp [asking, MemoryController.cycle, MemoryController.fsm, MemoryController.fresh,
      MemoryController.active, MemoryController.accepted, MemoryController.regbufNext, hrst, hwe,
      hrd, hbyte, hnext]

private theorem asking_of_starting (h : Starting total n s) (hrst : i.rst = false)
    (hwe : i.we = write)
    (hrd : i.rd = !write) :
    s.cycle i = asking (s.memory.accepted i) (s.psram.cycle (s.psramIn i).calm)
      (s.chip.clock s.psram (s.psram.cycle (s.psramIn i).calm))
      (if write then s.events ++ [.takes i.d] else s.events) write s.memory.readyR
      (s.memory.readyR && !s.memory.readyROld) (!s.clk) := by
  obtain ⟨hbyte, hnext⟩ := h.boot.quiet
  have hmemory : s.memory.cycle i s.psram =
      (asking (s.memory.accepted i) s.psram s.chip s.events write s.memory.readyR
        (s.memory.readyR && !s.memory.readyROld) s.clk).memory := by
    rw [← fresh_accepts hrst hwe hrd hbyte hnext, ← h.memory]
  have hidle : s.memory.state = .IDLE := by
    rw [h.memory]
    rfl
  have hevents : s.eventsNext i = if write then s.events ++ [.takes i.d] else s.events := by
    cases write
    all_goals
      simp [eventsNext, MemoryController.takes, MemoryController.takesNext,
        MemoryController.ready, hidle, hrst, hwe, hrd]
  change MemorySystem.mk (!s.clk) (s.memory.cycle i s.psram) _ _ (s.eventsNext i) = _
  rw [hmemory, hevents, h.psramIn hrst]
  rfl

private theorem waiting_of_asking {c₀ : PsramChip} (hboot : Booting total (n + 1) p c)
    (hstream : c.stream = c₀.stream) (hrst : i.rst = false)
    (hmask : (delay && !(i.rd || i.we)) = false) :
    Waiting m es write total n c₀ ((asking m p c es write old delay clk).cycle i) := by
  obtain ⟨hbyte, hnext⟩ := hboot.quiet
  rw [asking_cycle hrst hmask hbyte hnext, asking_psramIn hrst, hboot.not_ready]
  exact ⟨_, _, hboot.cycle, (c.stream_clock _ _).trans hstream, !clk, rfl⟩

private theorem booted_of_asking {c₀ : PsramChip} (hboot : Booting total 0 p c)
    (hstream : c.stream = c₀.stream) (hrst : i.rst = false)
    (hmask : (delay && !(i.rd || i.we)) = false) :
    Booted m es write total c₀ ((asking m p c es write old delay clk).cycle i) := by
  obtain ⟨hbyte, hnext⟩ := hboot.quiet
  obtain ⟨hpsram, hchip, hframes⟩ := hboot.eq_of_zero
  rw [asking_cycle hrst hmask hbyte hnext, asking_psramIn hrst, hpsram, hchip]
  exact ⟨p, c, hframes, hstream, !clk, rfl⟩

theorem Starting.booted_or_waiting {j : MemoryIn} (h : Starting total n s) (hrst : i.rst = false)
    (hwe : i.we = write) (hrd : i.rd = !write) (hrst' : j.rst = false)
    (hhold : (j.rd || j.we) = true) :
    Booted (s.memory.accepted i) (if write then s.events ++ [.takes i.d] else s.events) write total
        s.chip ((s.cycle i).cycle j) ∨
      ∃ n, Waiting (s.memory.accepted i) (if write then s.events ++ [.takes i.d] else s.events)
        write total n s.chip ((s.cycle i).cycle j) := by
  have hmask (delay : Bool) : (delay && !(j.rd || j.we)) = false := by
    rw [hhold]
    exact Bool.and_false delay
  rw [asking_of_starting h hrst hwe hrd]
  have hstream := s.chip.stream_clock s.psram (s.psram.cycle (s.psramIn i).calm)
  cases n with
  | zero =>
      obtain ⟨hpsram, hchip, hframes⟩ := h.boot.eq_of_zero
      refine .inl ⟨s.psram, s.chip, hframes, rfl, s.clk, ?_⟩
      rw [hpsram, hchip, PsramFast.booting_last]
      exact (issued_of_asking hrst' (hmask _)).trans (by rw [Bool.not_not]; rfl)
  | succ n =>
      cases n with
      | zero => exact .inl (booted_of_asking h.boot.cycle hstream hrst' (hmask _))
      | succ n => exact .inr ⟨n, waiting_of_asking h.boot.cycle hstream hrst' (hmask _)⟩

theorem Ready.booted {j : MemoryIn} (h : s.Ready) (hrst : i.rst = false)
    (hwe : i.we = write) (hrd : i.rd = !write) (hrst' : j.rst = false)
    (hhold : (j.rd || j.we) = true) :
    Booted (s.memory.accepted i) (if write then s.events ++ [.takes i.d] else s.events) write
      s.chip.frames s.chip ((s.cycle i).cycle j) := by
  have hmask : (!s.memory.readyROld && !(j.rd || j.we)) = false := by
    rw [hhold]
    exact Bool.and_false _
  rw [asking_of_ready h hrst hwe hrd, issued_of_asking hrst' hmask]
  exact ⟨s.psram, s.chip, rfl, rfl, _, rfl⟩

theorem waiting_leadsTo {ins : Nat → MemoryIn} {s₀ : MemorySystem}
    (hwaits : Waits ins (transfer ins s₀)) :
    LeadsTo (transfer ins s₀) (Waiting m es write total n c) (Booted m es write total c) := by
  have hbusy {n : Nat} {s : MemorySystem} (h : Waiting m es write total n c s) : ¬s.Ready := by
    obtain ⟨p, c', -, -, clk, rfl⟩ := h
    exact not_ready_of_state (by cases write <;> nofun)
  induction n with
  | zero =>
      refine hwaits.leadsTo hbusy ?_
      rintro s i ⟨p, c', hboot, hstream, clk, rfl⟩
      exact booted_of_asking hboot hstream rfl rfl
  | succ n ih =>
      refine LeadsTo.trans (hwaits.leadsTo hbusy ?_) ih
      rintro s i ⟨p, c', hboot, hstream, clk, rfl⟩
      exact waiting_of_asking hboot hstream rfl rfl

end MemorySystem

end PComputer.Rtl
