import PComputer.Rtl.CacheStages
import PComputer.Rtl.PsramStore

/-!
# `memory_controller_burst` in cycles of `clk`

Two cycles of `clk_mem` are one of `clk`, and the side of the CPU sees the second of them.
A burst that is under way takes and shows its words one after the other; behind a pulse of
`ready` no word is taken for two cycles, and `spo` stays.  Between the bursts the chip
holds the words of the memory.
-/

namespace PComputer.Rtl

open PComputer.Foundation

/-! ## The pace of the controller -/

namespace MemoryController

variable {m : MemoryController} {i : MemoryIn} {p : PsramFast}

/-- In which places of a word `ready` is on. -/
structure Paced (m : MemoryController) : Prop where
  asking : m.state = .WE_BEGIN ∨ m.state = .RD_BEGIN → m.count = 4 ∧ m.readyR = false
  taking : m.state = .WE →
    (m.readyR = true → m.count = 2 ∧ m.mReadyForNextByteOld = true) ∧
      (m.readyDelay = true → m.count = 2)
  showing : m.state = .RD →
    (m.readyR = true → m.count = 4) ∧ (m.readyDelay = true → m.count = 3 ∨ m.count = 4)

structure Far (m : MemoryController) : Prop where
  asking : m.state = .WE_BEGIN → m.count = 4
  taking : m.state = .WE → m.count ≠ 0 ∧ (m.count = 1 → m.mReadyForNextByteOld = true)

theorem paced_of_idle (h : m.state = .IDLE) : m.Paced := by
  constructor <;> simp [h]

theorem Paced.cycle (h : m.Paced) : (m.cycle i p).Paced := by
  cases hrst : i.rst with
  | true => exact paced_of_idle (by simp [MemoryController.cycle, reset, hrst])
  | false =>
      obtain ⟨hasking, htaking, hshowing⟩ := h
      constructor
      all_goals
        cases hstate : m.state
        all_goals
          simp [MemoryController.cycle, fsm, hrst, hstate, readyForNextBytePosedge,
            byteAvailablePosedge] at *
          try grind

theorem Far.takesNext (h : m.Far) : m.takesNext = false := by
  by_cases hstate : m.state = .WE
  · have hcount : ¬m.count = 0#6 := (h.taking hstate).1
    simp [MemoryController.takesNext, hcount]
  · simp [MemoryController.takesNext, hstate]

theorem Far.next (h : m.Far) : (m.cycle i.calm p).takesNext = false := by
  obtain ⟨hasking, htaking⟩ := h
  cases hstate : m.state <;> cases hready : p.ready
  all_goals
    simp [MemoryController.takesNext, MemoryController.cycle, fsm, MemoryIn.calm, hstate, hready,
      readyForNextBytePosedge] at *
    try grind

/-- Behind a pulse of `ready` no word is taken for two cycles. -/
theorem Paced.far (h : m.Paced) (hready : m.ready i.calm = true) : (m.cycle i.calm p).Far := by
  have hready' : m.readyR = true ∨ m.readyDelay = true := by
    simpa [MemoryController.ready, MemoryIn.calm] using hready
  obtain ⟨hasking, htaking, -⟩ := h
  constructor
  all_goals
    cases hstate : m.state
    all_goals
      simp [MemoryController.cycle, fsm, MemoryIn.calm, hstate, readyForNextBytePosedge] at *
      try grind

def Steady (m : MemoryController) : Prop := m.state = .RD → m.count ≠ 0

theorem Steady.cycle (h : m.Steady) : (m.cycle i p).spo = m.spo := by
  cases hrst : i.rst with
  | true => simp [MemoryController.cycle, reset, spo, hrst]
  | false =>
      cases hstate : m.state
      all_goals
        simp [MemoryController.cycle, fsm, spo, Steady, hrst, hstate] at *
        try grind

theorem Paced.steady (h : m.Paced) (hready : m.ready i.calm = true) :
    m.Steady ∧ (m.cycle i.calm p).Steady := by
  have hready' : m.readyR = true ∨ m.readyDelay = true := by
    simpa [MemoryController.ready, MemoryIn.calm] using hready
  obtain ⟨hasking, -, hshowing⟩ := h
  constructor
  all_goals
    cases hstate : m.state
    all_goals
      simp [MemoryController.cycle, fsm, MemoryIn.calm, hstate, Steady, byteAvailablePosedge] at *
      try grind

end MemoryController

/-! ## Cycles of `clk` -/

/-- The port of the memory in one cycle of `clk`; a request is for 32 words. -/
structure LowPort where
  rd : Bool
  we : Bool
  a : Word
  d : Word

namespace LowPort

def request (p : LowPort) : Bool := p.rd || p.we

def input (p : LowPort) (junk : BitVec 8) (noise : BitVec 4) : MemoryIn where
  rst := false
  burstEn := true
  burstLength := 32
  a := p.a.setWidth 24
  d := p.d
  we := p.we
  rd := p.rd
  junk := junk
  noise := noise

theorem request_eq_false {p : LowPort} : p.request = false ↔ p.rd = false ∧ p.we = false := by
  simp [request]

theorem input_calm {p : LowPort} (h : p.request = false) (junk : BitVec 8) (noise : BitVec 4) :
    p.input junk noise = (p.input junk noise).calm := by
  obtain ⟨hrd, hwe⟩ := request_eq_false.mp h
  simp [input, MemoryIn.calm, hrd, hwe]

end LowPort

/-- What comes in: `port` changes with `clk`, the wires do as they like. -/
structure Feed where
  port : Nat → LowPort
  junk : Nat → BitVec 8
  noise : Nat → BitVec 4

namespace Feed

variable (f : Feed) (s : MemorySystem) (t : Nat)

def ins (n : Nat) : MemoryIn := (f.port (n / 2)).input (f.junk n) (f.noise n)

theorem ins_first : f.ins (2 * t) = (f.port t).input (f.junk (2 * t)) (f.noise (2 * t)) := by
  rw [ins, Nat.mul_div_cancel_left t Nat.two_pos]

theorem ins_second :
    f.ins (2 * t + 1) = (f.port t).input (f.junk (2 * t + 1)) (f.noise (2 * t + 1)) := by
  have hhalf : (2 * t + 1) / 2 = t := by omega
  rw [ins, hhalf]

def memory : MemorySystem := trace MemorySystem.cycle f.ins s (2 * t)

def half : MemorySystem := (f.memory s t).cycle (f.ins (2 * t))

def takesEarly : Bool := (f.memory s t).memory.takes (f.ins (2 * t))

def takesLate : Bool := (f.half s t).memory.takes (f.ins (2 * t + 1))

def ready : Bool := (f.half s t).memory.ready (f.ins (2 * t + 1))

def spo : Word := (f.half s t).memory.spo

def env : BurstEnv where
  take := f.takesEarly s t || f.takesLate s t
  finish := f.ready s t
  junk := f.spo s t

/-- The burst memory that makes these choices. -/
def lowCycle (b : BurstMemory) : BurstMemory :=
  b.cycle false (f.env s t) (f.port t).rd (f.port t).we (f.port t).a (f.port t).d

def low (low₀ : BurstMemory) : Nat → BurstMemory := trace (f.lowCycle s) id low₀

variable {f s t}

theorem half_eq : f.half s t = trace MemorySystem.cycle f.ins s (2 * t + 1) := rfl

theorem memory_succ : f.memory s (t + 1) = (f.half s t).cycle (f.ins (2 * t + 1)) := rfl

section Quiet

variable {mem : WordMemory} {shown : Option Word} {base : BitVec 30} {k : Nat}
  {settling taken : Bool}

theorem lowCycle_done (h : (f.port t).request = false) :
    f.lowCycle s t ⟨mem, .done, shown⟩ = ⟨mem, .done, none⟩ := by
  obtain ⟨hrd, hwe⟩ := LowPort.request_eq_false.mp h
  simp [lowCycle, BurstMemory.cycle, hrd, hwe]

theorem lowCycle_read (h : (f.port t).request = false) :
    f.lowCycle s t ⟨mem, .read base k, shown⟩ =
      if f.ready s t then
        ⟨mem, if k = 31 then .done else .read base (k + 1), some (mem (base + BitVec.ofNat 30 k))⟩
      else ⟨mem, .read base k, none⟩ := by
  obtain ⟨hrd, hwe⟩ := LowPort.request_eq_false.mp h
  simp [lowCycle, BurstMemory.cycle, env, hrd, hwe]
  rfl

theorem lowCycle_write (h : (f.port t).request = false) :
    f.lowCycle s t ⟨mem, .write base k settling taken, shown⟩ =
      ⟨if !settling && !taken && (f.takesEarly s t || f.takesLate s t || f.ready s t) then
          storeWord mem (base + BitVec.ofNat 30 k) (f.port t).d
        else mem,
        if settling then .write base k false taken
        else if f.ready s t then if k = 31 then .done else .write base (k + 1) true false
        else .write base k false (taken || (f.takesEarly s t || f.takesLate s t)),
        none⟩ := by
  obtain ⟨hrd, hwe⟩ := LowPort.request_eq_false.mp h
  simp [lowCycle, BurstMemory.cycle, BurstMemory.sample, env, hrd, hwe]

end Quiet

theorem clk_memory (h : s.clk = false) : (f.memory s t).clk = false := by
  induction t with
  | zero => exact h
  | succ t ih =>
      change (!!(f.memory s t).clk) = false
      rw [ih]
      rfl

end Feed

/-! ## What the side of the CPU sees -/

namespace MemorySystem

variable {ins : Nat → MemoryIn} {s : MemorySystem} {i j : MemoryIn}

theorem events_prefix {n n' : Nat} (h : n ≤ n') :
    (trace cycle ins s n).events <+: (trace cycle ins s n').events := by
  induction n', h using Nat.le_induction with
  | base => exact List.prefix_refl _
  | succ n' _ ih =>
      refine ih.trans ?_
      rw [trace_succ]
      change _ <+: (trace cycle ins s n').eventsNext (ins n')
      unfold eventsNext
      split_ifs <;> simp

def takesOf (s : MemorySystem) (i : MemoryIn) : List BurstEvent :=
  if s.memory.takes i then [.takes i.d] else []

def readyOf (s : MemorySystem) (i : MemoryIn) : List BurstEvent :=
  if s.memory.ready i then [.ready s.memory.spo] else []

def seen (early late ready : Bool) (d spo : Word) : List BurstEvent :=
  (if early then [.takes d] else []) ++ (if late then [.takes d] else []) ++
    (if ready then [.ready spo] else [])

private theorem events_half (h : s.clk = false) : (s.cycle i).events = s.events ++ s.takesOf i := by
  change s.eventsNext i = _
  simp only [eventsNext, takesOf, h, Bool.and_false, Bool.false_eq_true, if_false]
  split_ifs <;> simp

private theorem events_whole (h : s.clk = true) :
    (s.cycle i).events = s.events ++ s.takesOf i ++ s.readyOf i := by
  change s.eventsNext i = _
  simp only [eventsNext, takesOf, readyOf, h, Bool.and_true]
  split_ifs <;> simp

private theorem takesOf_of_ready (h : s.Ready) (i : MemoryIn) : s.takesOf i.calm = [] := by
  have hstate : s.memory.state = .IDLE := congrArg MemoryController.state h.memory
  have htakes : s.memory.takes i.calm = false := by
    simp [MemoryController.takes, MemoryController.takesNext, hstate, MemoryIn.calm]
  rw [takesOf, htakes]
  rfl

theorem stream_trace (n : Nat) : (trace cycle ins s n).chip.stream = s.chip.stream := by
  induction n with
  | zero => rfl
  | succ n ih =>
      rw [trace_succ]
      exact (PsramChip.stream_clock _ _ _).trans ih

end MemorySystem

/-! ## A burst that is under way -/

section Burst

open MemorySystem

variable {f : Feed} {s s₀ : MemorySystem} {ins : Nat → MemoryIn} {t n last : Nat}

/--
In cycle `t` the burst that a request made in `s₀` is under way, `n` cycles of `clk_mem`
behind the request; it ends with the cycle `last`.
-/
structure Underway (f : Feed) (s : MemorySystem) (t : Nat) (s₀ : MemorySystem)
    (ins : Nat → MemoryIn) (n last : Nat) : Prop where
  run : f.memory s t = trace cycle ins s₀ n
  later : ∀ k, ins (n + k) = (f.ins (2 * t + k)).calm
  le : n ≤ last
  ends : EndsAt ins s₀ last
  paced : (f.memory s t).memory.Paced
  clk : (f.memory s t).clk = false

theorem Feed.calm_first (h : (f.port t).request = false) :
    f.ins (2 * t) = (f.ins (2 * t)).calm := by
  rw [f.ins_first]
  exact LowPort.input_calm h _ _

theorem Feed.calm_second (h : (f.port t).request = false) :
    f.ins (2 * t + 1) = (f.ins (2 * t + 1)).calm := by
  rw [f.ins_second]
  exact LowPort.input_calm h _ _

private theorem Feed.takesOf_first : (f.memory s t).takesOf (f.ins (2 * t)) =
    if f.takesEarly s t then [.takes (f.port t).d] else [] := by
  have hd : (f.ins (2 * t)).d = (f.port t).d := by
    rw [f.ins_first]
    rfl
  rw [← hd]
  rfl

private theorem Feed.takesOf_second : (f.half s t).takesOf (f.ins (2 * t + 1)) =
    if f.takesLate s t then [.takes (f.port t).d] else [] := by
  have hd : (f.ins (2 * t + 1)).d = (f.port t).d := by
    rw [f.ins_second]
    rfl
  rw [← hd]
  rfl

theorem Feed.events_succ (hclk : (f.memory s t).clk = false) :
    (f.memory s (t + 1)).events = (f.memory s t).events ++
      seen (f.takesEarly s t) (f.takesLate s t) (f.ready s t) (f.port t).d (f.spo s t) := by
  have hclk' : (f.half s t).clk = true := by
    change (!(f.memory s t).clk) = true
    rw [hclk]
    rfl
  have hhalf : (f.half s t).events =
      (f.memory s t).events ++ (f.memory s t).takesOf (f.ins (2 * t)) :=
    events_half hclk
  rw [f.memory_succ, events_whole hclk', hhalf, f.takesOf_first, f.takesOf_second]
  simp only [List.append_assoc, seen]
  rfl

namespace Underway

theorem half (h : Underway f s t s₀ ins n last) (hquiet : (f.port t).request = false) :
    f.half s t = trace cycle ins s₀ (n + 1) := by
  have hin : ins n = f.ins (2 * t) := (h.later 0).trans (f.calm_first hquiet).symm
  rw [Feed.half, h.run, trace_succ, hin]

theorem memory_succ (h : Underway f s t s₀ ins n last) (hquiet : (f.port t).request = false) :
    f.memory s (t + 1) = trace cycle ins s₀ (n + 2) := by
  have hin : ins (n + 1) = f.ins (2 * t + 1) := (h.later 1).trans (f.calm_second hquiet).symm
  rw [f.memory_succ, h.half hquiet, trace_succ (n + 1), hin]

theorem next (h : Underway f s t s₀ ins n last) (hquiet : (f.port t).request = false)
    (hlt : n + 2 ≤ last) : Underway f s (t + 1) s₀ ins (n + 2) last where
  run := h.memory_succ hquiet
  later k := by
    rw [Nat.add_assoc, h.later (2 + k), Nat.mul_succ, Nat.add_assoc]
  le := hlt
  ends := h.ends
  paced := h.paced.cycle.cycle
  clk := by
    change (!!(f.memory s t).clk) = false
    rw [h.clk]
    rfl

theorem events_prefix (h : Underway f s t s₀ ins n last) (hquiet : (f.port t).request = false)
    (hlt : n + 2 ≤ last) :
    (f.memory s (t + 1)).events <+: (trace cycle ins s₀ last).events := by
  rw [h.memory_succ hquiet]
  exact MemorySystem.events_prefix hlt

/-- The burst ends in this cycle, so that `ready` is on in its second half. -/
structure Ending (f : Feed) (s : MemorySystem) (t : Nat) (e : MemorySystem) : Prop where
  ready : (f.half s t).Ready
  events : (f.memory s t).events ++ (if f.takesEarly s t then [.takes (f.port t).d] else []) =
    e.events
  frames : (f.half s t).chip.frames = e.chip.frames
  spo : (f.half s t).memory.spo = e.memory.spo

theorem ending (h : Underway f s t s₀ ins n last) (hquiet : (f.port t).request = false)
    (hlast : last ≤ n + 1) : Ending f s t (trace cycle ins s₀ last) := by
  have hevents : (f.half s t).events =
      (f.memory s t).events ++ (f.memory s t).takesOf (f.ins (2 * t)) :=
    events_half h.clk
  rw [f.takesOf_first] at hevents
  have hready := h.ends.2.2
  rcases Nat.le_or_eq_of_le_succ hlast with hle | rfl
  · obtain rfl : last = n := Nat.le_antisymm hle h.le
    rw [← h.run] at hready ⊢
    have hcalm := f.calm_first hquiet
    have hhalf : f.half s t = (f.memory s t).cycle (f.ins (2 * t)).calm := by
      rw [Feed.half, ← hcalm]
    obtain ⟨hready', hspo, hframes⟩ := hready.calm_cycle (i := f.ins (2 * t))
    rw [← hhalf] at hready' hspo hframes
    refine ⟨hready', ?_, hframes, hspo⟩
    rw [← f.takesOf_first, hcalm, takesOf_of_ready hready, List.append_nil]
  · rw [← h.half hquiet] at hready ⊢
    exact ⟨hready, hevents.symm, rfl, rfl⟩

end Underway

/-! ## The memory and the chip -/

/-- The words of the memory in a region of 8 MB are those of the chip. -/
def Holds (region : BitVec 9) (mem : WordMemory) (bytes : ChipBytes) : Prop :=
  ∀ w : BitVec 21, mem (region ++ w) = bytes.words w

/-- A line of 32 words in the region. -/
def lineBase (region : BitVec 9) (line : BitVec 16) : BitVec 30 := region ++ (line ++ 0#5)

private theorem toNat_append_region (region : BitVec 9) (w : BitVec 21) :
    (region ++ w).toNat = 2097152 * region.toNat + w.toNat := by
  rw [BitVec.toNat_append, ← Nat.shiftLeft_add_eq_or_of_lt w.isLt, Nat.shiftLeft_eq,
    Nat.mul_comm]

private theorem append_region_inj {region : BitVec 9} {w w' : BitVec 21} :
    region ++ w = region ++ w' ↔ w = w' := by
  refine ⟨fun h => ?_, fun h => by rw [h]⟩
  have hright := congrArg (BitVec.setWidth 21) h
  rwa [BitVec.setWidth_append_eq_right, BitVec.setWidth_append_eq_right] at hright

private theorem fillFrom_region {M : WordMemory} {N : BitVec 21 → Word} {region : BitVec 9}
    (hMN : ∀ w, M (region ++ w) = N w) (w : BitVec 21) (vs : List Word)
    (hfit : w.toNat + vs.length ≤ 2097152) (w' : BitVec 21) :
    fillFrom M (region ++ w) vs (region ++ w') = fillFrom N w vs w' := by
  induction vs generalizing M N w with
  | nil => exact hMN w'
  | cons v vs ih =>
      have hput (u : BitVec 21) :
          Function.update M (region ++ w) v (region ++ u) = Function.update N w v u := by
        simp only [Function.update_apply, append_region_inj, hMN]
      cases vs with
      | nil => exact hput w'
      | cons u vs =>
          simp only [List.length_cons] at hfit
          have hnext : (w + 1).toNat = w.toNat + 1 := by
            rw [BitVec.toNat_add]
            exact Nat.mod_eq_of_lt (show w.toNat + 1 < 2097152 by omega)
          have hplace : region ++ w + 1 = region ++ (w + 1) := by
            apply BitVec.eq_of_toNat_eq
            have := region.isLt
            rw [BitVec.toNat_add, toNat_append_region, toNat_append_region, hnext]
            exact Nat.mod_eq_of_lt
              (show 2097152 * region.toNat + w.toNat + 1 < 1073741824 by omega)
          rw [fillFrom, fillFrom, hplace]
          exact ih hput (w + 1) (by simp only [List.length_cons]; omega)

theorem lineBase_add (region : BitVec 9) (line : BitVec 16) {j : Nat} (hj : j < 32) :
    lineBase region line + BitVec.ofNat 30 j = region ++ (line ++ 0#5 + BitVec.ofNat 21 j) := by
  apply BitVec.eq_of_toNat_eq
  have hregion := region.isLt
  have hline := line.isLt
  rw [lineBase, BitVec.toNat_add, toNat_append_region, toNat_append_region, BitVec.toNat_add,
    toNat_append_offset]
  simp
  omega

private theorem toNat_lineBase (line : BitVec 16) : (line ++ 0#5).toNat + 32 ≤ 2097152 := by
  have := line.isLt
  rw [toNat_append_offset]
  simp
  omega

theorem setWidth_lineAddress (region : BitVec 9) (line : BitVec 16) :
    (BitVec.setWidth 24 (region ++ line ++ 0#7)).setWidth 23 = (line ++ 0#5) ++ 0#2 := by
  apply BitVec.eq_of_getLsbD_eq
  intro k hk
  simp only [BitVec.getLsbD_setWidth, BitVec.getLsbD_append]
  grind

theorem wordIndex_lineAddress (region : BitVec 9) (line : BitVec 16) :
    wordIndex (region ++ line ++ 0#7) = lineBase region line := by
  apply BitVec.eq_of_getLsbD_eq
  intro k hk
  simp only [wordIndex, lineBase, BitVec.getLsbD_extractLsb', BitVec.getLsbD_append]
  grind

theorem Holds.store {region : BitVec 9} {M : WordMemory} {bytes : ChipBytes} {a : BitVec 24}
    {line : BitVec 16} {ws : List Word} (h : Holds region M bytes)
    (ha : a.setWidth 23 = (line ++ 0#5) ++ 0#2) (hws : ws.length = 32) :
    Holds region (fillFrom M (lineBase region line) ws) (bytes.store (writeFrame a ws)) := by
  intro w
  rw [ChipBytes.store_writeFrame, ha, ChipBytes.words_fillFrom]
  exact fillFrom_region h _ ws (by rw [hws]; exact toNat_lineBase line) w

end Burst

end PComputer.Rtl
