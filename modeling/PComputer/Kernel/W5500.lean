import PComputer.Foundation.Clocked
import PComputer.Foundation.LeadsTo
import PComputer.Rtl.W5500

/-!
# `w5500.c`: `w5500_spi`

A call stores its arguments in the registers of the unit, starts the transfer and polls
until the unit is ready.
-/

namespace PComputer.PseudOS

open PComputer.Foundation PComputer.Rtl

def w5500Setaddr : Word := 0x9c000000
def w5500Setctrl : Word := 0x9c000004
def w5500Setdata : Word := 0x9c000008
def w5500Setxfrlen : Word := 0x9c00000c
def w5500Issue : Word := 0x9c000010
def w5500Ready : Word := 0x9c000014
def w5500Recvbits : Word := 0x9c000018

def W5_RW_R : Word := 0
def W5_RW_W : Word := 1
def W5_FDM1 : Word := 1
def W5_FDM2 : Word := 2
def W5_FDM4 : Word := 3

structure SpiCall where
  blksel : Word
  addr : Word
  rw : Word
  len : Word
  data : Word

namespace SpiCall

variable (c : SpiCall)

def ctrl : Word := (c.blksel <<< 3) + (c.rw <<< 2) + c.len

def xfrlen : Word := if c.len = W5_FDM4 then 4 else c.len

def frame : SpiFrame where
  addr := c.addr.extractLsb' 0 16
  ctrl := c.ctrl.extractLsb' 0 8
  data := byteSwap c.data
  bytes := (c.xfrlen.extractLsb' 0 3).toNat

end SpiCall

/-- The next access of a call: its stores in order, the poll, and the read of the result. -/
inductive SpiPhase where
  | setaddr | setctrl | setxfrlen | setdata | issue | ready | recvbits
  deriving DecidableEq, Repr

/--
The calls that are still to be made, the current one first, and for each call that has
returned its value and the bits that were clocked out meanwhile.
-/
structure W5500System where
  calls : List SpiCall
  phase : SpiPhase
  clocked : List Bool
  returned : List (Word × List Bool)
  unit : W5500
  chip : W5500Chip

structure SpiIn where
  rst : Bool
  access : Bool
  intn : Bool

namespace W5500System

variable (i : SpiIn) (s : W5500System)

/-- The access as the unit sees it; the CPU stores with its bytes swapped. -/
def store (address value : Word) : W5500In :=
  { rst := i.rst, a := address, d := byteSwap value, we := true, intn := i.intn,
    miso := s.chip.miso }

def load (address : Word) : W5500In :=
  { rst := i.rst, a := address, d := 0, we := false, intn := i.intn, miso := s.chip.miso }

def current : Option SpiCall := if i.access then s.calls.head? else none

def request : W5500In :=
  match s.current i with
  | none => s.load i 0
  | some c =>
      match s.phase with
      | .setaddr => s.store i w5500Setaddr c.addr
      | .setctrl => s.store i w5500Setctrl c.ctrl
      | .setxfrlen => s.store i w5500Setxfrlen c.xfrlen
      | .setdata => s.store i w5500Setdata c.data
      | .issue => s.store i w5500Issue 1
      | .ready => s.load i w5500Ready
      | .recvbits => s.load i w5500Recvbits

def value : Word := byteSwap (s.unit.spo (s.request i))

def accessed : W5500System :=
  match s.phase with
  | .setaddr => { s with phase := .setctrl }
  | .setctrl => { s with phase := .setxfrlen }
  | .setxfrlen => { s with phase := .setdata }
  | .setdata => { s with phase := .issue }
  | .issue => { s with phase := .ready }
  | .ready => { s with phase := if s.value i ≠ 0 then .recvbits else .ready }
  | .recvbits =>
      { s with
        calls := s.calls.tail
        phase := .setaddr
        clocked := []
        returned := s.returned ++ [(s.value i, s.clocked)] }

def unitNext : W5500 := s.unit.cycle (s.request i)

def bit : List Bool :=
  if !s.unit.sclk && (s.unitNext i).sclk then [s.unit.mosi] else []

def cycle : W5500System :=
  let cpu := if (s.current i).isSome then s.accessed i else s
  { cpu with
    clocked := cpu.clocked ++ s.bit i
    unit := s.unitNext i
    chip := s.chip.clock s.unit (s.unitNext i) }

/-! ## Cycles without a transfer -/

variable {i s}

theorem request_rst : (s.request i).rst = i.rst := by
  unfold request
  cases s.current i with
  | none => rfl
  | some c => cases s.phase <;> rfl

private theorem not_issue (h : s.current i = none ∨ s.phase ≠ .issue) :
    ¬((s.request i).we = true ∧ (s.request i).reg = 4) := by
  rintro ⟨hwe, hreg⟩
  unfold request at hwe hreg
  cases hcurrent : s.current i with
  | none =>
      rw [hcurrent] at hwe
      cases hwe
  | some c =>
      have hphase := h.resolve_left (by rw [hcurrent]; nofun)
      rw [hcurrent] at hwe hreg
      cases hcase : s.phase with
      | issue => exact hphase hcase
      | ready | recvbits =>
          rw [hcase] at hwe
          cases hwe
      | setaddr | setctrl | setxfrlen | setdata =>
          rw [hcase] at hreg
          exact absurd hreg (by simp only [store, W5500In.reg]; decide)

def cpuNext (i : SpiIn) (s : W5500System) : W5500System :=
  if (s.current i).isSome then s.accessed i else s

private theorem cycle_of_off (hoff : s.unit.Off) (hrst : i.rst = false)
    (h : s.unit.state = .IDLE → s.current i = none ∨ s.phase ≠ .issue) :
    s.cycle i = { s.cpuNext i with unit := s.unitNext i, chip := s.chip } ∧
      s.unit.Waits (s.unitNext i) := by
  have hwaits : s.unit.Waits (s.unitNext i) :=
    hoff.cycle (request_rst.trans hrst) fun hidle => not_issue (h hidle)
  have hbit : s.bit i = [] := by
    unfold bit
    rw [hwaits.off.sclk, Bool.and_false]
    rfl
  refine ⟨?_, hwaits⟩
  unfold cycle
  rw [hbit, W5500Chip.clock_of_low hoff.sclk hwaits.off.sclk]
  simp only [List.append_nil]
  rfl

/-! ### Stages of a call -/

structure Progress where
  calls : List SpiCall
  clocked : List Bool
  returned : List (Word × List Bool)
  mem : BitVec 5 → BitVec 16 → BitVec 8

/-- The CPU is in a phase, the unit makes no transfer and the chip is between two frames. -/
structure Stage (p : SpiPhase) (g : Progress) (s : W5500System) : Prop where
  phase : s.phase = p
  calls : s.calls = g.calls
  clocked : s.clocked = g.clocked
  returned : s.returned = g.returned
  mem : s.chip.mem = g.mem
  frame : s.chip.frame = []
  off : s.unit.Off

variable {p : SpiPhase} {g : Progress}

private theorem current_of_not_access (haccess : ¬i.access = true) :
    s.current i = none := if_neg haccess

theorem Stage.current {c : SpiCall} {rest : List SpiCall} (h : Stage p g s)
    (hcalls : g.calls = c :: rest) (haccess : i.access = true) : s.current i = some c := by
  unfold W5500System.current
  rw [if_pos haccess, h.calls, hcalls]
  rfl

theorem Stage.wait (h : Stage p g s) (hrst : i.rst = false) (haccess : ¬i.access = true) :
    Stage p g (s.cycle i) ∧ (s.cycle i).unit = s.unit.fsm (s.load i 0) ∧
      s.unit.Waits (s.cycle i).unit := by
  have hnone := current_of_not_access (s := s) haccess
  obtain ⟨hcycle, hwaits⟩ := cycle_of_off h.off hrst fun _ => .inl hnone
  have hcpu : s.cpuNext i = s := by
    unfold cpuNext
    rw [hnone]
    rfl
  have hunit : s.unitNext i = s.unit.fsm (s.load i 0) := by
    unfold unitNext request
    rw [hnone]
    exact W5500.cycle_of_load hrst rfl
  rw [hcycle, hcpu]
  exact ⟨⟨h.phase, h.calls, h.clocked, h.returned, h.mem, h.frame, hwaits.off⟩, hunit, hwaits⟩

/-! ### The stores -/

def storePhase : Nat → SpiPhase
  | 0 => .setaddr
  | 1 => .setctrl
  | 2 => .setxfrlen
  | 3 => .setdata
  | _ => .issue

structure Holds (c : SpiCall) (n : Nat) (u : W5500) : Prop where
  addr : 1 ≤ n → u.spiAddr = c.addr.extractLsb' 0 16
  ctrl : 2 ≤ n → u.spiCtrl = c.ctrl.extractLsb' 0 8
  len : 3 ≤ n → u.fdmLen = c.xfrlen.extractLsb' 0 3
  data : 4 ≤ n → u.spiData = byteSwap c.data

/-- After `n` stores of a call; `booted` says that the unit was ready before the first of them. -/
structure Storing (booted : Prop) (c : SpiCall) (g : Progress) (n : Nat) (s : W5500System) :
    Prop where
  stage : Stage (storePhase n) g s
  holds : Holds c n s.unit
  idle : booted → s.unit.state = .IDLE

variable {booted : Prop} {c : SpiCall} {rest : List SpiCall} {n : Nat}

theorem Storing.wait (h : Storing booted c g n s) (hrst : i.rst = false)
    (haccess : ¬i.access = true) : Storing booted c g n (s.cycle i) := by
  obtain ⟨hstage, hunit, hwaits⟩ := h.stage.wait hrst haccess
  obtain ⟨haddr, hctrl, hdata, hlen⟩ := W5500.fsm_registers (i := s.load i 0) (u := s.unit)
  refine ⟨hstage, ?_, fun hbooted => hwaits.idle (h.idle hbooted)⟩
  rw [hunit]
  exact ⟨fun h1 => haddr.trans (h.holds.addr h1), fun h2 => hctrl.trans (h.holds.ctrl h2),
    fun h3 => hlen.trans (h.holds.len h3), fun h4 => hdata.trans (h.holds.data h4)⟩

theorem Stage.store {p' : SpiPhase} (h : Stage p g s) (hcalls : g.calls = c :: rest)
    (hrst : i.rst = false) (haccess : i.access = true) (hissue : p ≠ .issue)
    (haccessed : s.accessed i = { s with phase := p' }) :
    Stage p' g (s.cycle i) ∧ (s.cycle i).unit = s.unitNext i ∧
      s.unit.Waits (s.cycle i).unit := by
  have hcurrent := h.current hcalls haccess
  obtain ⟨hcycle, hwaits⟩ := cycle_of_off h.off hrst fun _ => .inr (h.phase ▸ hissue)
  have hcpu : s.cpuNext i = { s with phase := p' } := by
    unfold cpuNext
    rw [hcurrent]
    exact haccessed
  rw [hcycle, hcpu]
  exact ⟨⟨rfl, h.calls, h.clocked, h.returned, h.mem, h.frame, hwaits.off⟩, rfl, hwaits⟩

private theorem registers_store (a v : Word) (u : W5500) :
    ((u.cycle (s.store i a v)).spiAddr =
      if a.extractLsb' 2 3 = 0 then v.extractLsb' 0 16 else u.spiAddr) ∧
    ((u.cycle (s.store i a v)).spiCtrl =
      if a.extractLsb' 2 3 = 1 then v.extractLsb' 0 8 else u.spiCtrl) ∧
    ((u.cycle (s.store i a v)).spiData =
      if a.extractLsb' 2 3 = 2 then byteSwap v else u.spiData) ∧
    ((u.cycle (s.store i a v)).fdmLen =
      if a.extractLsb' 2 3 = 3 then v.extractLsb' 0 3 else u.fdmLen) := by
  simp only [W5500.cycle, store, W5500In.reg, W5500In.data, byteSwap_byteSwap, true_and, and_self]

theorem Storing.access (h : Storing booted c g n s) (hcalls : g.calls = c :: rest) (hn : n < 4)
    (hrst : i.rst = false) (haccess : i.access = true) :
    Storing booted c g (n + 1) (s.cycle i) := by
  have hcurrent := h.stage.current hcalls haccess
  have hphase := h.stage.phase
  have hcases : n = 0 ∨ n = 1 ∨ n = 2 ∨ n = 3 := by omega
  rcases hcases with rfl | rfl | rfl | rfl
  all_goals
    obtain ⟨hstage, hunit, hwaits⟩ := h.stage.store hcalls hrst haccess (by decide)
      (by unfold accessed; rw [hphase]; rfl)
    refine ⟨hstage, ?_, fun hbooted => hwaits.idle (h.idle hbooted)⟩
    rw [hunit, unitNext, request, hcurrent, hphase]
    dsimp only [storePhase]
  · obtain ⟨haddr, -⟩ := registers_store (i := i) (s := s) w5500Setaddr c.addr s.unit
    exact ⟨fun _ => haddr.trans (if_pos (by decide)), fun h => by omega, fun h => by omega,
      fun h => by omega⟩
  · obtain ⟨haddr, hctrl, -⟩ := registers_store (i := i) (s := s) w5500Setctrl c.ctrl s.unit
    exact ⟨fun _ => haddr.trans ((if_neg (by decide)).trans (h.holds.addr (by decide))),
      fun _ => hctrl.trans (if_pos (by decide)), fun h => by omega, fun h => by omega⟩
  · obtain ⟨haddr, hctrl, -, hlen⟩ :=
      registers_store (i := i) (s := s) w5500Setxfrlen c.xfrlen s.unit
    exact ⟨fun _ => haddr.trans ((if_neg (by decide)).trans (h.holds.addr (by decide))),
      fun _ => hctrl.trans ((if_neg (by decide)).trans (h.holds.ctrl (by decide))),
      fun _ => hlen.trans (if_pos (by decide)), fun h => by omega⟩
  · obtain ⟨haddr, hctrl, hdata, hlen⟩ :=
      registers_store (i := i) (s := s) w5500Setdata c.data s.unit
    exact ⟨fun _ => haddr.trans ((if_neg (by decide)).trans (h.holds.addr (by decide))),
      fun _ => hctrl.trans ((if_neg (by decide)).trans (h.holds.ctrl (by decide))),
      fun _ => hlen.trans ((if_neg (by decide)).trans (h.holds.len (by decide))),
      fun _ => hdata.trans (if_pos (by decide))⟩

/-! ### The poll -/

private theorem value_ready (hcurrent : s.current i = some c) (hphase : s.phase = .ready) :
    s.value i ≠ 0 ↔ s.unit.state = .IDLE := by
  have hspo : s.unit.spo (s.request i) =
      0#7 ++ BitVec.ofBool (s.unit.state == .IDLE) ++ 0#24 := by
    rw [request, hcurrent, hphase]
    exact if_pos (by simp only [load, W5500In.reg]; decide)
  rw [value, hspo]
  cases s.unit.state <;> decide

private theorem value_recvbits (hcurrent : s.current i = some c) (hphase : s.phase = .recvbits) :
    s.value i = s.unit.recvbits := by
  have hspo : s.unit.spo (s.request i) = byteSwap s.unit.recvbits := by
    rw [request, hcurrent, hphase]
    unfold W5500.spo
    rw [if_neg (by simp only [load, W5500In.reg]; decide),
      if_pos (by simp only [load, W5500In.reg]; decide)]
  rw [value, hspo, byteSwap_byteSwap]

private theorem cpuNext_of_busy (hphase : s.phase = .ready) (hbusy : s.unit.state ≠ .IDLE) :
    s.cpuNext i = s := by
  unfold cpuNext
  cases hcurrent : s.current i with
  | none => rfl
  | some c =>
      have hvalue : s.value i = 0 := by
        by_contra hne
        exact hbusy ((value_ready hcurrent hphase).mp hne)
      rw [Option.isSome_some, if_pos rfl]
      unfold accessed
      rw [hphase]
      dsimp only
      rw [hvalue, if_neg (by decide), ← hphase]

structure Polled (p : SpiPhase) (g : Progress) (r : Word) (s : W5500System) : Prop where
  stage : Stage p g s
  idle : s.unit.state = .IDLE
  recvbits : s.unit.recvbits = r

variable {r : Word}

theorem Stage.boot (h : Stage .ready g s) (hrst : i.rst = false) (hbusy : s.unit.state ≠ .IDLE) :
    Stage .ready g (s.cycle i) ∧ (s.cycle i).unit.bootClocks < s.unit.bootClocks := by
  obtain ⟨hcycle, hwaits⟩ := cycle_of_off h.off hrst fun _ => .inr (by rw [h.phase]; decide)
  have hless : (s.unitNext i).bootClocks < s.unit.bootClocks :=
    W5500.bootClocks_cycle (request_rst.trans hrst) h.off hbusy
  rw [hcycle, cpuNext_of_busy h.phase hbusy]
  exact ⟨⟨h.phase, h.calls, h.clocked, h.returned, h.mem, h.frame, hwaits.off⟩, hless⟩

theorem Polled.wait (h : Polled p g r s) (hrst : i.rst = false) (haccess : ¬i.access = true) :
    Polled p g r (s.cycle i) := by
  obtain ⟨hstage, -, hwaits⟩ := h.stage.wait hrst haccess
  exact ⟨hstage, hwaits.idle h.idle, hwaits.recvbits.trans h.recvbits⟩

theorem Polled.ready (h : Polled .ready g r s) (hcalls : g.calls = c :: rest)
    (hrst : i.rst = false) (haccess : i.access = true) : Polled .recvbits g r (s.cycle i) := by
  have hstage := h.stage
  have hcurrent := hstage.current hcalls haccess
  obtain ⟨hcycle, hwaits⟩ := cycle_of_off hstage.off hrst fun _ =>
    .inr (by rw [hstage.phase]; decide)
  have hcpu : s.cpuNext i = { s with phase := .recvbits } := by
    unfold cpuNext accessed
    rw [hcurrent, hstage.phase, Option.isSome_some, if_pos rfl]
    dsimp only
    rw [if_pos ((value_ready hcurrent hstage.phase).mpr h.idle)]
  rw [hcycle, hcpu]
  exact ⟨⟨rfl, hstage.calls, hstage.clocked, hstage.returned, hstage.mem, hstage.frame,
    hwaits.off⟩, hwaits.idle h.idle, hwaits.recvbits.trans h.recvbits⟩

def Progress.next (g : Progress) (r : Word) : Progress where
  calls := g.calls.tail
  clocked := []
  returned := g.returned ++ [(r, g.clocked)]
  mem := g.mem

theorem Polled.recvbits_read (h : Polled .recvbits g r s) (hcalls : g.calls = c :: rest)
    (hrst : i.rst = false) (haccess : i.access = true) :
    Polled .setaddr (g.next r) r (s.cycle i) := by
  have hstage := h.stage
  have hcurrent := hstage.current hcalls haccess
  obtain ⟨hcycle, hwaits⟩ := cycle_of_off hstage.off hrst fun _ =>
    .inr (by rw [hstage.phase]; decide)
  have hcpu : s.cpuNext i =
      { s with
        calls := s.calls.tail
        phase := .setaddr
        clocked := []
        returned := s.returned ++ [(r, s.clocked)] } := by
    unfold cpuNext accessed
    rw [hcurrent, hstage.phase, Option.isSome_some, if_pos rfl]
    dsimp only
    rw [value_recvbits hcurrent hstage.phase, h.recvbits]
  rw [hcycle, hcpu]
  refine ⟨⟨rfl, ?_, rfl, ?_, hstage.mem, hstage.frame, hwaits.off⟩, hwaits.idle h.idle,
    hwaits.recvbits.trans h.recvbits⟩
  · exact congrArg List.tail hstage.calls
  · exact congrArg₂ (fun returned clocked => returned ++ [(r, clocked)]) hstage.returned
      hstage.clocked

/-! ## A transfer -/

structure Sends (f : SpiFrame) (g : Progress) (s : W5500System) : Prop where
  phase : s.phase = .ready
  calls : s.calls = g.calls
  returned : s.returned = g.returned
  state : s.unit.state = .XFER
  sendbits : s.unit.sendbits = f.sendbits
  sendcntMax : s.unit.sendcntMax.toNat = f.length

structure Low (f : SpiFrame) (g : Progress) (k : Nat) (s : W5500System) : Prop where
  sends : Sends f g s
  sclk : s.unit.sclkReg = false
  sendcnt : s.unit.sendcnt.toNat = k
  clocked : s.clocked = f.line.take k
  mem : s.chip.mem = g.mem
  frame : s.chip.frame = f.line.take k
  recvbits : f.writes = false →
    s.unit.recvbits = ofBits 32 ((List.range (k - 24)).map (f.dataBit g.mem))
  miso : f.writes = false → 24 ≤ k → s.chip.miso = f.dataBit g.mem (k - 24)

structure High (f : SpiFrame) (g : Progress) (k : Nat) (s : W5500System) : Prop where
  sends : Sends f g s
  sclk : s.unit.sclkReg = true
  sendcnt : s.unit.sendcnt.toNat = k
  clocked : s.clocked = f.line.take (k + 1)
  mem : s.chip.mem = if k + 1 = f.length then f.stored g.mem else g.mem
  frame : s.chip.frame = if k + 1 = f.length then [] else f.line.take (k + 1)
  recvbits : f.writes = false →
    s.unit.recvbits = ofBits 32 ((List.range (k + 1 - 24)).map (f.dataBit g.mem))

variable {f : SpiFrame} {k : Nat}

/-! ### The issue -/

theorem Storing.issue (h : Storing booted c g 4 s) (hcalls : g.calls = c :: rest)
    (hclocked : g.clocked = []) (hrst : i.rst = false) (haccess : i.access = true)
    (hidle : s.unit.state = .IDLE) : Low c.frame g 0 (s.cycle i) := by
  have hcurrent := h.stage.current hcalls haccess
  have hphase : s.phase = .issue := h.stage.phase
  have hrequest : s.request i = s.store i w5500Issue 1 := by
    unfold request
    rw [hcurrent, hphase]
  have hunit : s.unitNext i =
      { s.unit with
        sclkReg := false
        state := .XFER
        sendcntMax := 24 + (0#2 ++ s.unit.fdmLen ++ 0#3)
        sendcnt := 0
        recvbits := 0 } := by
    unfold unitNext
    rw [hrequest]
    unfold W5500.cycle W5500.fsm
    rw [hidle]
    simp only [store, W5500In.reg, hrst]
    rfl
  have hlow : (s.unitNext i).sclk = false := by
    rw [hunit]
    rfl
  have hbit : s.bit i = [] := by
    unfold bit
    rw [hlow, Bool.and_false]
    rfl
  have hcycle : s.cycle i =
      { s with phase := .ready, clocked := s.clocked, unit := s.unitNext i, chip := s.chip } := by
    unfold W5500System.cycle accessed
    rw [hbit, W5500Chip.clock_of_low h.stage.off.sclk hlow, hcurrent, hphase]
    simp only [List.append_nil]
    rfl
  have hmax : (24 + (0#2 ++ s.unit.fdmLen ++ 0#3) : BitVec 8).toNat = c.frame.length := by
    have hlen := h.holds.len (by decide)
    have hless := s.unit.fdmLen.isLt
    have hshift : (0#2 ++ s.unit.fdmLen ++ 0#3 : BitVec 8).toNat = 8 * s.unit.fdmLen.toNat := by
      rw [BitVec.toNat_append, BitVec.toNat_append, Nat.shiftLeft_eq]
      simp [Nat.mul_comm]
    rw [BitVec.toNat_add, hshift, SpiFrame.length, SpiCall.frame, ← hlen]
    simp only [BitVec.ofNat_eq_ofNat, BitVec.toNat_ofNat]
    omega
  rw [hcycle]
  refine ⟨⟨rfl, h.stage.calls, h.stage.returned, ?_, ?_, ?_⟩, ?_, ?_, ?_, h.stage.mem, ?_, ?_,
    nofun⟩
  all_goals dsimp only
  · rw [hunit]
  · rw [hunit]
    dsimp only [W5500.sendbits, SpiFrame.sendbits, SpiCall.frame]
    rw [h.holds.addr (by decide), h.holds.ctrl (by decide), h.holds.data (by decide)]
  · rw [hunit]
    exact hmax
  · exact hlow
  · rw [hunit]
    rfl
  · exact (h.stage.clocked.trans hclocked).trans List.take_zero.symm
  · exact h.stage.frame.trans List.take_zero.symm
  · intro hread
    rw [hunit]
    rfl

/-- While the unit boots, an issue is lost. -/
theorem Storing.lost (h : Storing booted c g 4 s) (hcalls : g.calls = c :: rest)
    (hrst : i.rst = false) (haccess : i.access = true) (hbusy : s.unit.state ≠ .IDLE) :
    Stage .ready g (s.cycle i) := by
  have hcurrent := h.stage.current hcalls haccess
  have hphase : s.phase = .issue := h.stage.phase
  obtain ⟨hcycle, hwaits⟩ := cycle_of_off h.stage.off hrst fun hidle => absurd hidle hbusy
  have hcpu : s.cpuNext i = { s with phase := .ready } := by
    unfold cpuNext accessed
    rw [hcurrent, hphase]
    rfl
  rw [hcycle, hcpu]
  exact ⟨rfl, h.stage.calls, h.stage.clocked, h.stage.returned, h.stage.mem, h.stage.frame,
    hwaits.off⟩

private theorem request_miso : (s.request i).miso = s.chip.miso := by
  unfold request
  cases s.current i with
  | none => rfl
  | some c => cases s.phase <;> rfl

private theorem request_ready (hphase : s.phase = .ready) : (s.request i).we = false := by
  unfold request
  cases s.current i with
  | none => rfl
  | some c =>
      rw [hphase]
      rfl

theorem Sends.cycle (h : Sends f g s) (hrst : i.rst = false) :
    s.unitNext i = s.unit.xfer (s.request i) ∧
      s.cycle i =
        { s with
          clocked := s.clocked ++ s.bit i
          unit := s.unitNext i
          chip := s.chip.clock s.unit (s.unitNext i) } := by
  constructor
  · rw [unitNext, W5500.cycle_of_load (request_rst.trans hrst) (request_ready h.phase), W5500.fsm,
      h.state]
  · have hcpu := cpuNext_of_busy (i := i) h.phase (by rw [h.state]; decide)
    unfold cpuNext at hcpu
    unfold W5500System.cycle
    rw [hcpu]

private theorem Sends.sendcnt_lt (h : Sends f g s) (hsendcnt : s.unit.sendcnt.toNat = k)
    (hk : k < f.length) : s.unit.sendcnt < s.unit.sendcntMax := by
  rw [BitVec.lt_def, hsendcnt, h.sendcntMax]
  exact hk

theorem Low.rise (h : Low f g k s) (hvalid : f.Valid) (hk : k < f.length) (hrst : i.rst = false) :
    High f g k (s.cycle i) := by
  obtain ⟨hunit, hcycle⟩ := h.sends.cycle hrst
  rw [W5500.xfer_rise h.sclk h.sends.state (h.sends.sendcnt_lt h.sendcnt hk)] at hunit
  have hafter : (s.unitNext i).sclk = true := by
    rw [hunit]
    rfl
  have hmosi : s.unit.mosi = f.sendbits.getMsbD k := by
    rw [W5500.mosi, h.sends.sendbits, h.sendcnt]
  have hbit : s.bit i = [f.sendbits.getMsbD k] := by
    rw [bit, hafter, show s.unit.sclk = false from h.sclk, hmosi]
    rfl
  have hbytes : k < 56 := by
    have hfour := hvalid.bytes
    unfold SpiFrame.length at hk
    omega
  rw [W5500Chip.clock_of_rise h.sclk hafter, hmosi,
    SpiFrame.rise_of_frame hvalid h.frame hk] at hcycle
  rw [hcycle]
  refine ⟨⟨h.sends.phase, h.sends.calls, h.sends.returned, ?_, ?_, ?_⟩, hafter, ?_, ?_, ?_, ?_, ?_⟩
  all_goals dsimp only
  · rw [hunit]
    exact h.sends.state
  · rw [hunit]
    exact h.sends.sendbits
  · rw [hunit]
    exact h.sends.sendcntMax
  · rw [hunit]
    exact h.sendcnt
  · rw [hbit, h.clocked]
    exact (take_succ_bits f.sendbits hbytes).symm
  · rw [h.mem, apply_ite W5500Chip.mem]
  · rw [apply_ite W5500Chip.frame]
  · intro hread
    rw [hunit]
    dsimp only
    rw [h.recvbits hread, request_miso]
    by_cases hlow : 24 ≤ k
    · have hdata : (24 : BitVec 8) ≤ s.unit.sendcnt := by
        rw [BitVec.le_def, h.sendcnt]
        exact hlow
      rw [if_pos hdata, h.miso hread hlow, show k + 1 - 24 = k - 24 + 1 by omega,
        List.range_succ, List.map_append, List.map_singleton, ofBits_concat]
    · have hdata : ¬(24 : BitVec 8) ≤ s.unit.sendcnt := by
        rw [BitVec.le_def, h.sendcnt]
        exact hlow
      rw [if_neg hdata, show k + 1 - 24 = k - 24 by omega]

theorem High.unit (h : High f g k s) (hk : k < f.length) (hrst : i.rst = false) :
    s.unitNext i =
      { s.unit with
        sclkReg := false
        state := if k + 1 = f.length then .IDLE else .XFER
        sendcnt := s.unit.sendcnt + 1 } := by
  rw [(h.sends.cycle hrst).1, W5500.xfer_fall h.sclk (h.sends.sendcnt_lt h.sendcnt hk), h.sendcnt,
    h.sends.sendcntMax]

theorem High.cycle (h : High f g k s) (hk : k < f.length) (hrst : i.rst = false) :
    s.cycle i = { s with unit := s.unitNext i, chip := s.chip.fall } := by
  have hafter : (s.unitNext i).sclk = false := by
    rw [h.unit hk hrst]
    rfl
  have hbit : s.bit i = [] := by
    rw [bit, hafter, Bool.and_false]
    rfl
  rw [(h.sends.cycle hrst).2, hbit, List.append_nil, W5500Chip.clock_of_fall h.sclk hafter]

theorem High.fall (h : High f g k s) (hvalid : f.Valid) (hk : k + 1 < f.length)
    (hrst : i.rst = false) : Low f g (k + 1) (s.cycle i) := by
  have hunit := h.unit (Nat.lt_of_succ_lt hk) hrst
  rw [if_neg (by omega)] at hunit
  have hframe : s.chip.frame = f.line.take (k + 1) := h.frame.trans (if_neg (by omega))
  have hmem : s.chip.mem = g.mem := h.mem.trans (if_neg (by omega))
  have hbytes : k + 1 ≤ 56 := by
    have hfour := hvalid.bytes
    unfold SpiFrame.length at hk
    omega
  have hsame : s.chip.fall.mem = s.chip.mem ∧ s.chip.fall.frame = s.chip.frame := by
    unfold W5500Chip.fall
    split_ifs <;> exact ⟨rfl, rfl⟩
  rw [h.cycle (Nat.lt_of_succ_lt hk) hrst]
  refine ⟨⟨h.sends.phase, h.sends.calls, h.sends.returned, ?_, ?_, ?_⟩, ?_, ?_, h.clocked, ?_, ?_,
    ?_, ?_⟩
  all_goals dsimp only
  · rw [hunit]
  · rw [hunit]
    exact h.sends.sendbits
  · rw [hunit]
    exact h.sends.sendcntMax
  · rw [hunit]
  · rw [hunit]
    dsimp only
    rw [BitVec.toNat_add, h.sendcnt, show (1 : BitVec 8).toNat = 1 from rfl]
    omega
  · exact hsame.1.trans hmem
  · exact hsame.2.trans hframe
  · intro hread
    rw [hunit]
    exact h.recvbits hread
  · intro hread hlow
    rw [SpiFrame.fall_of_frame hframe hlow hbytes, if_pos hread, hmem]

def Progress.sent (g : Progress) (f : SpiFrame) : Progress :=
  { g with clocked := f.line.take f.length, mem := f.stored g.mem }

/-- What a transfer leaves in `recvbits`, if the chip answers it. -/
def Receives (f : SpiFrame) (g : Progress) (r : Word) : Prop :=
  f.writes = false → r = ofBits 32 ((List.range (8 * f.bytes)).map (f.dataBit g.mem))

theorem High.done (h : High f g k s) (hk : k + 1 = f.length) (hrst : i.rst = false) :
    ∃ r, Receives f g r ∧ Polled .ready (g.sent f) r (s.cycle i) := by
  have hless : k < f.length := hk ▸ Nat.lt_succ_self k
  have hunit := h.unit hless hrst
  rw [if_pos hk] at hunit
  have hframe : s.chip.frame = [] := h.frame.trans (if_pos hk)
  have hfall : s.chip.fall = s.chip := by
    unfold W5500Chip.fall
    rw [hframe, if_neg (by simp)]
  rw [h.cycle hless hrst, hunit, hfall]
  refine ⟨s.unit.recvbits, fun hread => ?_, ⟨h.sends.phase, h.sends.calls, ?_, h.sends.returned, ?_,
    hframe, ⟨nofun, rfl⟩⟩, rfl, rfl⟩
  · rw [h.recvbits hread, hk, SpiFrame.length, Nat.add_sub_cancel_left]
  · exact h.clocked.trans (by rw [hk]; rfl)
  · exact h.mem.trans (if_pos hk)

end W5500System

end PComputer.PseudOS
