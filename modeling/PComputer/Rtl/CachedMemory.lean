import PComputer.Rtl.BurstContract
import PComputer.Rtl.CacheRefinement

/-!
# The cache on the real memory

`cache_cpu` on `clk`, `memory_controller_burst` and `psram_controller_fast` on `clk_mem`
and the chip behind them, from a reset on: what the cache takes for a burst memory is one,
so that all of it together is a flat memory of 8 MB.
-/

namespace PComputer.Rtl

open PComputer.Foundation

/-! ## The parts together -/

def CacheCpu.port (c : CacheCpu) : LowPort where
  rd := c.lowmemRd
  we := c.lowmemWe
  a := c.lowmemA
  d := c.lowmemD

structure Wires where
  junk : BitVec 8
  noise : BitVec 4

structure CachedMemory where
  cache : CacheCpu
  memory : MemorySystem

namespace CachedMemory

variable (h : HostIn) (w w' : Wires) (s : CachedMemory)

def half : MemorySystem := s.memory.cycle (s.cache.port.input w.junk w.noise)

def cacheIn : CacheIn where
  rst := false
  a := h.a
  d := h.d
  we := h.we
  rd := h.rd
  lowmemSpo := (s.half w).memory.spo
  lowmemReady := (s.half w).memory.ready (s.cache.port.input w'.junk w'.noise)

def cycle : CachedMemory where
  cache := s.cache.cycle (s.cacheIn h w w')
  memory := (s.half w).cycle (s.cache.port.input w'.junk w'.noise)

def ready : Bool := s.cache.ready h.we h.rd

def spo : Word := s.cache.spo

end CachedMemory

/-! ## When the cache listens -/

namespace CacheCpu

variable {c : CacheCpu} {i : CacheIn}

/-- No word of a burst is expected, so that `ready` of the memory makes no difference. -/
def Deaf (c : CacheCpu) : Prop :=
  c.state = .WRITEBACK ∨ c.state = .LOAD → c.burstIssue = true ∨ c.lowmemWe = true

theorem Deaf.cycle (h : c.Deaf) (hrst : i.rst = false) (hquiet : c.port.request = false) :
    (c.cycle i).Deaf := by
  obtain ⟨hrd, hwe⟩ := LowPort.request_eq_false.mp hquiet
  simp only [port, lowmemRd, lowmemWe] at hrd hwe
  unfold Deaf at *
  cases hstate : c.state <;> cases hinit : c.way.initDone
  all_goals
    simp [CacheCpu.cycle, fsm, lowmemWe, hrst, hstate, hinit] at *
    try grind

/-- A deaf cache that makes no request does not see `ready`. -/
theorem Deaf.cycle_ready (h : c.Deaf) (hquiet : c.port.request = false)
    (ready : Bool) : c.cycle { i with lowmemReady := ready } = c.cycle i := by
  obtain ⟨hrd, hwe⟩ := LowPort.request_eq_false.mp hquiet
  simp only [port] at hrd hwe
  have hfsm : c.fsm { i with lowmemReady := ready } = c.fsm i := by
    cases hstate : c.state with
    | WRITEBACK =>
        have hissue : c.burstIssue = true := (h (.inl hstate)).resolve_right (by simp [hwe])
        simp [fsm, hstate, hissue]
    | LOAD =>
        have hissue : c.burstIssue = true := (h (.inr hstate)).resolve_right (by simp [hwe])
        simp [fsm, hstate, hissue]
    | IDLE =>
        simp only [fsm, hstate]
        rfl
    | INIT | HIT => simp only [fsm, hstate]
  have hway : c.wayIn { i with lowmemReady := ready } = c.wayIn i := rfl
  rw [CacheCpu.cycle, CacheCpu.cycle, hfsm, hway]

end CacheCpu

/-! ## The region -/

def InRegion (region : BitVec 9) (b : BlockAddress) : Prop := b.extractLsb' 16 9 = region

private theorem InRegion.lineAddress {region : BitVec 9} {b : BlockAddress}
    (h : InRegion region b) :
    ∃ line : BitVec 16, b ++ 0#7 = region ++ line ++ 0#7 := by
  refine ⟨b.extractLsb' 0 16, ?_⟩
  have hb : b = region ++ b.extractLsb' 0 16 := by
    rw [← h]
    apply BitVec.eq_of_getLsbD_eq
    intro k hk
    simp only [BitVec.getLsbD_append, BitVec.getLsbD_extractLsb']
    grind
  exact congrArg (fun b : BlockAddress => b ++ 0#7) hb

namespace CacheCpu

variable {c : CacheCpu} {i : CacheIn} {region : BitVec 9}

/-- The lines of the cache and the request that it serves are in the region. -/
structure Within (region : BitVec 9) (c : CacheCpu) : Prop where
  tags : ∀ k b dirty, absLine (c.way.tags k) = some (b, dirty) → InRegion region b
  host : c.state ≠ .INIT → c.state ≠ .IDLE → InRegion region (blockOf c.hostA)
  base : c.state = .WRITEBACK → InRegion region c.burstWbBaseA

private theorem block_of_absLine {tag : Word} {b : BlockAddress} {dirty : Bool}
    (h : absLine tag = some (b, dirty)) : blockOf tag = b := by
  unfold absLine at h
  split_ifs at h
  simp only [Option.some.injEq, Prod.mk.injEq] at h
  exact h.1

private theorem block_wayTagIn (c : CacheCpu) (i : CacheIn) :
    blockOf (c.wayTagIn i) = blockOf i.a :=
  (tag_fields (blockOf i.a) (c.wayControl i).dirtyIn (c.wayControl i).validIn).2.2

private theorem request_of_en (h : (c.wayControl i).en = true) :
    (i.we || i.rd) = true ∨ c.state ≠ .INIT ∧ c.state ≠ .IDLE := by
  cases hstate : c.state with
  | INIT => simp [wayControl, hstate] at h
  | IDLE =>
      left
      by_contra hquiet
      simp [wayControl, hstate, quickHit, Bool.eq_false_of_not_eq_true hquiet] at h
  | HIT | LOAD | WRITEBACK => exact .inr ⟨(by simp), (by simp)⟩

section Within

variable (h : c.Within region) (hrst : i.rst = false)
  (hport : (i.we || i.rd) = true ∨ c.state ≠ .INIT ∧ c.state ≠ .IDLE →
    InRegion region (blockOf i.a))

include h hrst

include hport in
private theorem Within.tags_cycle {k : BitVec 8} {b : BlockAddress} {dirty : Bool}
    (hline : absLine ((c.cycle i).way.tags k) = some (b, dirty)) : InRegion region b := by
  change absLine ((c.way.cycle (c.wayIn i)).tags k) = some (b, dirty) at hline
  rw [CacheWay.cycle] at hline
  have hreset : (c.wayIn i).rst = false := hrst
  simp only [hreset, Bool.false_eq_true, if_false] at hline
  split_ifs at hline with hclear hput
  · by_cases hk : k = c.way.count
    · rw [hk, Function.update_self] at hline
      cases hline
    · rw [Function.update_of_ne hk] at hline
      exact h.tags k b dirty hline
  · by_cases hk : k = CacheWay.index (c.wayIn i).a
    · rw [hk, Function.update_self] at hline
      have hen : (c.wayControl i).en = true := (Bool.and_eq_true_iff.mp hput).1
      rw [← block_of_absLine hline]
      change InRegion region (blockOf (c.wayTagIn i))
      rw [block_wayTagIn]
      exact hport (request_of_en hen)
    · rw [Function.update_of_ne hk] at hline
      exact h.tags k b dirty hline
  · exact h.tags k b dirty hline

include hport in
private theorem Within.host_cycle (hinit : (c.cycle i).state ≠ .INIT)
    (hidle : (c.cycle i).state ≠ .IDLE) : InRegion region (blockOf (c.cycle i).hostA) := by
  have hkept (hstate : c.state = .LOAD ∨ c.state = .WRITEBACK) : (c.cycle i).hostA = c.hostA := by
    rcases hstate with hstate | hstate <;>
      simp only [CacheCpu.cycle, fsm, hrst, hstate, Bool.false_eq_true, if_false] <;>
      split_ifs <;> rfl
  cases hstate : c.state with
  | INIT => cases hdone : c.way.initDone <;> simp [CacheCpu.cycle, fsm, hrst, hstate, hdone] at *
  | IDLE =>
      cases hquiet : (i.we || i.rd) with
      | false => simp [CacheCpu.cycle, fsm, hrst, hstate, hquiet] at hidle
      | true =>
          have hA : (c.cycle i).hostA = i.a := by
            simp only [CacheCpu.cycle, fsm, hrst, hstate, hquiet, Bool.false_eq_true, if_false]
            split_ifs <;> rfl
          rw [hA]
          exact hport (.inl hquiet)
  | HIT => simp [CacheCpu.cycle, fsm, hrst, hstate] at hidle
  | LOAD =>
      rw [hkept (.inl hstate)]
      exact h.host (by simp [hstate]) (by simp [hstate])
  | WRITEBACK =>
      rw [hkept (.inr hstate)]
      exact h.host (by simp [hstate]) (by simp [hstate])

private theorem Within.base_cycle (hback : (c.cycle i).state = .WRITEBACK) :
    InRegion region (c.cycle i).burstWbBaseA := by
  cases hstate : c.state with
  | INIT => cases hdone : c.way.initDone <;> simp [CacheCpu.cycle, fsm, hrst, hstate, hdone] at *
  | IDLE =>
      simp only [CacheCpu.cycle, fsm, hrst, hstate, Bool.false_eq_true, if_false] at hback ⊢
      split_ifs at hback ⊢ with hrequest hhit hvalid hdirty
      rw [Bool.not_eq_true, Bool.not_eq_false'] at hvalid
      exact h.tags _ _ _ (if_pos hvalid)
  | HIT => simp [CacheCpu.cycle, fsm, hrst, hstate] at hback
  | LOAD =>
      simp only [CacheCpu.cycle, fsm, hrst, hstate, Bool.false_eq_true, if_false] at hback
      split_ifs at hback
  | WRITEBACK =>
      have hbase : (c.cycle i).burstWbBaseA = c.burstWbBaseA := by
        simp only [CacheCpu.cycle, fsm, hrst, hstate, Bool.false_eq_true, if_false]
        split_ifs <;> rfl
      rw [hbase]
      exact h.base hstate

include hport in
theorem Within.cycle : (c.cycle i).Within region :=
  ⟨fun _ _ _ => h.tags_cycle hrst hport, h.host_cycle hrst hport, h.base_cycle hrst⟩

end Within

/-! ## The cache as the host of the memory -/

private theorem quiet_of_writeBack (hstate : c.state = .WRITEBACK)
    (h : c.burstIssue = true ∨ c.burstIssueDelayed = false) : c.port.request = false := by
  rcases h with h | h <;> simp [LowPort.request, port, lowmemRd, lowmemWe, hstate, h]

private theorem quiet_of_load (hstate : c.state = .LOAD) (h : c.burstIssue = false) :
    c.port.request = false := by
  simp [LowPort.request, port, lowmemRd, lowmemWe, hstate, h]

private theorem quiet_of_state (hback : c.state ≠ .WRITEBACK) (hload : c.state ≠ .LOAD) :
    c.port.request = false := by
  simp [LowPort.request, port, lowmemRd, lowmemWe, hback, hload]

/-- In every stage of a miss the cache obeys the protocol of the memory. -/
theorem obeys_of_stage {low : BurstMemory} {M : WordMemory} {n : Nat}
    (hs : (CacheSystem.mk c low).Stage M n) (hin : c.Within region) : c.port.Obeys region low := by
  cases hs with
  | writeBackIssue h hissue _ _ => exact .quiet (quiet_of_writeBack h.state (.inl hissue))
  | writeBackRequest h hissue hdelayed _ hdone _ =>
      have hstate : c.state = .WRITEBACK := h.state
      have hissue' : c.burstIssue = false := hissue
      have hdelayed' : c.burstIssueDelayed = true := hdelayed
      refine ⟨fun hbusy => absurd hdone hbusy, fun _ => ?_, fun _ => ?_⟩
      · simp [port, lowmemRd, lowmemWe, hstate, hissue', hdelayed']
      · obtain ⟨line, hline⟩ := (hin.base hstate).lineAddress
        exact ⟨line, by rw [← hline]; exact congrArg (· ++ 0#7) (if_pos hstate)⟩
  | writeBackBurst _ _ _ h _ hdelayed _ _ _ _ _ _ =>
      exact .quiet (quiet_of_writeBack h.state (.inr hdelayed))
  | writeBackDone h _ hdelayed _ _ _ =>
      exact .quiet (quiet_of_writeBack h.state (.inr hdelayed))
  | loadIssue h hissue _ hdone =>
      have hstate : c.state = .LOAD := h.state
      have hissue' : c.burstIssue = true := hissue
      refine ⟨fun hbusy => absurd hdone hbusy, fun _ => ?_, fun _ => ?_⟩
      · simp [port, lowmemRd, lowmemWe, hstate, hissue']
      · have hhost := hin.host (by simp [hstate]) (by simp [hstate])
        obtain ⟨line, hline⟩ := hhost.lineAddress
        exact ⟨line, by rw [← hline]; exact congrArg (· ++ 0#7) (if_neg (by simp [hstate]))⟩
  | loadBurst _ h hissue _ _ _ _ _ _ => exact .quiet (quiet_of_load h.state hissue)
  | loadDone h hissue _ _ _ _ _ _ => exact .quiet (quiet_of_load h.state hissue)
  | hit hstate _ _ _ _ _ =>
      have hstate' : c.state = .HIT := hstate
      exact .quiet (quiet_of_state (by simp [hstate']) (by simp [hstate']))

end CacheCpu

/-! ## Runs -/

namespace CachedMemory

open CacheSystem

section Run

variable {ins : Nat → HostIn} {wires : Nat → Wires} {tr : Nat → CachedMemory}
variable {region : BitVec 9} {m : ChipBytes} {mem : WordMemory} {t : Nat}

def IsRun (ins : Nat → HostIn) (wires : Nat → Wires) (tr : Nat → CachedMemory) : Prop :=
  ∀ t, tr (t + 1) = (tr t).cycle (ins t) (wires (2 * t)) (wires (2 * t + 1))

def feed (wires : Nat → Wires) (tr : Nat → CachedMemory) : Feed where
  port t := (tr t).cache.port
  junk n := (wires n).junk
  noise n := (wires n).noise

/-- The cache of a run, on the burst memory that the controllers and the chip are. -/
def system (wires : Nat → Wires) (tr : Nat → CachedMemory) (mem : WordMemory) (t : Nat) :
    CacheSystem where
  cache := (tr t).cache
  low := (feed wires tr).low (tr 0).memory ⟨mem, .done, none⟩ t

def env (wires : Nat → Wires) (tr : Nat → CachedMemory) (t : Nat) : BurstEnv :=
  (feed wires tr).env (tr 0).memory t

theorem IsRun.half (hmemory : (feed wires tr).memory (tr 0).memory t = (tr t).memory) :
    (feed wires tr).half (tr 0).memory t = (tr t).half (wires (2 * t)) := by
  rw [Feed.half, hmemory, Feed.ins_first]
  rfl

theorem IsRun.memory (hrun : IsRun ins wires tr) (t : Nat) :
    (feed wires tr).memory (tr 0).memory t = (tr t).memory := by
  induction t with
  | zero => rfl
  | succ t ih =>
      rw [Feed.memory_succ, IsRun.half ih, Feed.ins_second, hrun t]
      rfl

/-- The cache does not see whether it is the real memory or the burst memory. -/
theorem IsRun.system_succ (hrun : IsRun ins wires tr) {left : Nat}
    (h : Coupled (feed wires tr) (tr 0).memory m region t (system wires tr mem t).low left)
    (hobeys : (tr t).cache.port.Obeys region (system wires tr mem t).low)
    (hdeaf : (∀ u, u < t → (tr u).cache.port.request = false) → (tr t).cache.Deaf) :
    system wires tr mem (t + 1) =
      (system wires tr mem t).cycle false (ins t) (env wires tr t) := by
  have hhalf : (feed wires tr).half (tr 0).memory t = (tr t).half (wires (2 * t)) :=
    IsRun.half (hrun.memory t)
  have hspo : ((tr t).half (wires (2 * t))).memory.spo =
      (system wires tr mem t).low.spo (env wires tr t) := by
    rw [← hhalf]
    exact h.spo
  have hready : (feed wires tr).ready (tr 0).memory t =
      ((tr t).half (wires (2 * t))).memory.ready ((tr t).cache.port.input (wires (2 * t + 1)).junk
        (wires (2 * t + 1)).noise) := by
    rw [Feed.ready, hhalf, Feed.ins_second]
    rfl
  have hcache : (tr (t + 1)).cache = (tr t).cache.cycle
      ((system wires tr mem t).cacheIn (ins t) (env wires tr t)) := by
    rw [hrun t]
    change (tr t).cache.cycle _ = _
    rcases h.ready hobeys with hsame | hquiet
    · rw [cacheIn, hspo, ← hready, hsame]
      rfl
    · have hnow : (tr t).cache.port.request = false := hquiet t (Nat.le_refl t)
      have hbefore : (tr t).cache.Deaf := hdeaf fun u hu => hquiet u (Nat.le_of_lt hu)
      rw [cacheIn, hspo]
      exact hbefore.cycle_ready
        (i := CacheSystem.cacheIn (ins t) (env wires tr t) (system wires tr mem t)) hnow _
  rw [system, hcache]
  rfl

/-! ### Initialisation -/

/-- Behind a reset, with a chip that holds `m`; the memory may have got further with its boot. -/
structure Reset (s : CachedMemory) (m : ChipBytes) : Prop where
  cache : ∃ (c : CacheCpu) (i : CacheIn), i.rst = true ∧ s.cache = c.cycle i
  fresh : s.memory.Fresh
  clk : s.memory.clk = false
  stores : s.memory.chip.Stores m

/--
Once the cache is ready, the host makes one request at a time, and holds address and data
until `ready` is high again.
-/
structure Protocol (ins : Nat → HostIn) (tr : Nat → CachedMemory) : Prop where
  issued : ∀ t, 257 ≤ t → (ins (t + 1)).request = true → (tr t).ready (ins t) = true
  held : ∀ t, 257 ≤ t → (ins (t + 1)).request = false →
    (tr (t + 1)).ready (ins (t + 1)) = false → (ins (t + 1)).a = (ins t).a ∧
      (ins (t + 1)).d = (ins t).d

/-- It makes no request before, and requests words of the region only. -/
structure HostOk (region : BitVec 9) (ins : Nat → HostIn) (tr : Nat → CachedMemory) : Prop
    extends Protocol ins tr where
  quiet : ∀ t, t < 257 → (ins t).request = false
  region : ∀ t, (ins t).request = true → InRegion region (blockOf (ins t).a)

/-- The cache clears its tags while it knows nothing of its memory. -/
theorem clearing_of_run {env : Nat → BurstEnv} {tr : Nat → CacheSystem}
    (hrun : CacheSystem.IsRun false ins env tr) (hreset : (tr 0).Clearing 0) {k : Nat}
    (hk : k ≤ 255) : (tr k).Clearing k := by
  induction k with
  | zero => exact hreset
  | succ k ih =>
      rw [hrun k]
      exact clearing_cycle (by omega) (ih (by omega))

private theorem init_of_run {env : Nat → BurstEnv} {tr : Nat → CacheSystem}
    (hrun : CacheSystem.IsRun false ins env tr) (hreset : (tr 0).Clearing 0) {k : Nat}
    (hk : k ≤ 256) : (tr k).cache.state = .INIT := by
  rcases Nat.le_succ_iff.mp hk with hle | rfl
  · exact (clearing_of_run hrun hreset hle).state
  · have hlast := clearing_of_run hrun hreset (Nat.le_refl 255)
    rw [hrun 255]
    simp [CacheSystem.cycle, CacheCpu.cycle, CacheCpu.fsm, CacheSystem.cacheIn, hlast.state,
      hlast.initDone]

def initialMem (s : CachedMemory) (m : ChipBytes) : WordMemory :=
  fun w => (s.memory.chip.bytes m).words (w.setWidth 21)

private theorem holds_initialMem (s : CachedMemory) :
    Holds region (initialMem s m) (s.memory.chip.bytes m) := by
  intro w
  rw [initialMem, BitVec.setWidth_append_eq_right]

theorem Reset.coupled (h : (tr 0).Reset m) (wires : Nat → Wires) (region : BitVec 9) :
    Coupled (feed wires tr) (tr 0).memory m region 0
      (system wires tr (initialMem (tr 0) m) 0).low 0 :=
  .booting h.fresh (fun u hu => absurd hu (Nat.not_lt_zero u)) (holds_initialMem (tr 0))

private theorem init_quiet {c : CacheCpu} (h : c.state = .INIT) :
    c.port.request = false ∧ c.Deaf := by
  refine ⟨CacheCpu.quiet_of_state (by simp [h]) (by simp [h]), fun hstate => ?_⟩
  simp [h] at hstate

private theorem initialised (hrun : IsRun ins wires tr) (hreset : (tr 0).Reset m)
    (region : BitVec 9) :
    (system wires tr (initialMem (tr 0) m) 257).Initialised ∧
      (system wires tr (initialMem (tr 0) m) 257).low.mem = initialMem (tr 0) m ∧
      (∀ u, u < 257 → (tr u).cache.state = .INIT) ∧
      ∃ left, Coupled (feed wires tr) (tr 0).memory m region 257
        (system wires tr (initialMem (tr 0) m) 257).low left := by
  let sys := system wires tr (initialMem (tr 0) m)
  let run : Nat → CacheSystem :=
    trace (fun (i : HostIn × BurstEnv) s => s.cycle false i.1 i.2)
      (fun t => (ins t, env wires tr t)) (sys 0)
  have hruns : CacheSystem.IsRun false ins (env wires tr) run := fun _ => rfl
  have hclear : (run 0).Clearing 0 := by
    obtain ⟨c, i, hrst, hcache⟩ := hreset.cache
    change (CacheSystem.mk (tr 0).cache _).Clearing 0
    rw [hcache]
    exact clearing_of_rst i hrst c _ rfl
  have hstep (t : Nat) (ht : t ≤ 257) : sys t = run t ∧
      (∀ u, u < t → (tr u).cache.state = .INIT) ∧
      ∃ left, Coupled (feed wires tr) (tr 0).memory m region t (sys t).low left := by
    induction t with
    | zero => exact ⟨rfl, fun u hu => absurd hu (Nat.not_lt_zero u), 0, hreset.coupled wires region⟩
    | succ t ih =>
        obtain ⟨hsame, hbefore, left, hcoupled⟩ := ih (by omega)
        have hinit : (tr t).cache.state = .INIT := by
          have := init_of_run hruns hclear (show t ≤ 256 by omega)
          rwa [← hsame] at this
        obtain ⟨hquiet, hdeaf⟩ := init_quiet hinit
        have hobeys : (tr t).cache.port.Obeys region (sys t).low := .quiet hquiet
        obtain ⟨left', hcoupled', -⟩ := hcoupled.cycle hreset.clk hreset.stores hobeys
        refine ⟨?_, fun u hu => ?_, left', hcoupled'⟩
        · have hnext : sys (t + 1) = (sys t).cycle false (ins t) (env wires tr t) :=
            hrun.system_succ hcoupled hobeys fun _ => hdeaf
          rw [hnext, hruns t, ← hsame]
        · rcases Nat.lt_succ_iff_lt_or_eq.mp hu with hlt | rfl
          · exact hbefore u hlt
          · exact hinit
  obtain ⟨hsame, hbefore, hcoupled⟩ := hstep 257 (Nat.le_refl 257)
  obtain ⟨hinit, hmem⟩ := initialised_of_reset hruns hclear
  rw [← hsame] at hinit hmem
  exact ⟨hinit, hmem, hbefore, hcoupled⟩

theorem state_of_run (hrun : IsRun ins wires tr) (hreset : (tr 0).Reset m) :
    (∀ u, u < 257 → (tr u).cache.state = .INIT) ∧ (tr 257).cache.state = .IDLE := by
  obtain ⟨hinit, -, hclears, -⟩ := initialised hrun hreset 0
  exact ⟨hclears, hinit.state⟩

/-! ### The flat memory -/

def later {α : Type} (f : Nat → α) (t : Nat) : α := f (257 + t)

theorem Protocol.later (hok : Protocol ins tr) :
    CacheSystem.HostOk (later ins) (later (system wires tr mem)) where
  issued t hrequest := hok.issued (257 + t) (by omega) hrequest
  held t hquiet hbusy := hok.held (257 + t) (by omega) hquiet hbusy

structure Sound (region : BitVec 9) (m : ChipBytes) (ins : Nat → HostIn) (wires : Nat → Wires)
    (tr : Nat → CachedMemory) (t : Nat) : Prop where
  coupled : ∃ left, Coupled (feed wires tr) (tr 0).memory m region (257 + t)
    (system wires tr (initialMem (tr 0) m) (257 + t)).low left
  within : (tr (257 + t)).cache.Within region
  deaf : (∀ u, u < 257 + t → (tr u).cache.port.request = false) → (tr (257 + t)).cache.Deaf
  serving : Serving (later ins) (later (system wires tr (initialMem (tr 0) m)))
    (flatMemory (initialMem (tr 0) m) (later ins) t) t

theorem Sound.start (hrun : IsRun ins wires tr) (hreset : (tr 0).Reset m) :
    Sound region m ins wires tr 0 := by
  obtain ⟨hinit, hmem, -, hcoupled⟩ := initialised hrun hreset region
  have hidle := hinit.idle
  rw [hmem] at hidle
  refine ⟨hcoupled, ⟨fun k b dirty hline => ?_, fun _ hne => ?_, fun hback => ?_⟩,
    fun _ hlisten => ?_, .idle hidle⟩
  · have hnone : absLine ((tr 257).cache.way.tags k) = none := hinit.empty k
    rw [hnone] at hline
    cases hline
  · exact absurd hinit.state hne
  · have hstate : (tr 257).cache.state = .IDLE := hinit.state
    rw [hstate] at hback
    cases hback
  · have hstate : (tr 257).cache.state = .IDLE := hinit.state
    simp [hstate] at hlisten

theorem Sound.obeys (h : Sound region m ins wires tr t) :
    (tr (257 + t)).cache.port.Obeys region
      (system wires tr (initialMem (tr 0) m) (257 + t)).low := by
  have hserving := h.serving
  generalize flatMemory (initialMem (tr 0) m) (CachedMemory.later ins) t = M at hserving
  cases hserving with
  | idle hidle =>
      have hstate : (tr (257 + t)).cache.state = .IDLE := hidle.state
      exact .quiet (CacheCpu.quiet_of_state (by simp [hstate]) (by simp [hstate]))
  | busy hstage _ _ _ => exact CacheCpu.obeys_of_stage hstage h.within

theorem Sound.port (h : Sound region m ins wires tr t) (hok : HostOk region ins tr)
    (hport : (ins (257 + t)).request = true ∨
      (tr (257 + t)).cache.state ≠ .INIT ∧ (tr (257 + t)).cache.state ≠ .IDLE) :
    InRegion region (blockOf (ins (257 + t)).a) := by
  rcases hport with hrequest | ⟨hinit, hidle⟩
  · exact hok.region _ hrequest
  · have hserving := h.serving
    generalize flatMemory (initialMem (tr 0) m) (CachedMemory.later ins) t = M at hserving
    cases hserving with
    | idle h => exact absurd h.state hidle
    | busy hstage _ hA hbusy =>
        have hheld := (hok.later.quiet hstage.state_ne_idle hbusy hA).2
        have hhost := h.within.host hinit hidle
        rw [CachedMemory.later] at hheld
        rw [hheld]
        exact hhost

theorem Sound.step (hrun : IsRun ins wires tr) (h : Sound region m ins wires tr t) :
    later (system wires tr (initialMem (tr 0) m)) (t + 1) =
      (later (system wires tr (initialMem (tr 0) m)) t).cycle false (later ins t)
        (later (env wires tr) t) := by
  obtain ⟨left, hcoupled⟩ := h.coupled
  exact hrun.system_succ hcoupled h.obeys h.deaf

theorem Sound.next (hrun : IsRun ins wires tr) (hreset : (tr 0).Reset m)
    (hok : HostOk region ins tr) (h : Sound region m ins wires tr t) :
    Sound region m ins wires tr (t + 1) := by
  have hobeys := h.obeys
  have hstep := h.step hrun
  obtain ⟨left, hcoupled⟩ := h.coupled
  obtain ⟨left', hcoupled', -⟩ := hcoupled.cycle hreset.clk hreset.stores hobeys
  refine ⟨⟨left', hcoupled'⟩, ?_, fun hquiet => ?_, serving_succ hstep hok.later h.serving⟩
  · change (tr (257 + t + 1)).cache.Within region
    rw [hrun (257 + t)]
    refine h.within.cycle rfl fun hport => h.port hok ?_
    exact hport
  · change (tr (257 + t + 1)).cache.Deaf
    rw [hrun (257 + t)]
    exact (h.deaf fun u hu => hquiet u (by omega)).cycle rfl (hquiet (257 + t) (by omega))

theorem sound (hrun : IsRun ins wires tr) (hreset : (tr 0).Reset m) (hok : HostOk region ins tr)
    (t : Nat) : Sound region m ins wires tr t := by
  induction t with
  | zero => exact .start hrun hreset
  | succ t ih => exact ih.next hrun hreset hok

private theorem fair (hrun : IsRun ins wires tr) (hreset : (tr 0).Reset m)
    (hok : HostOk region ins tr)
    (t : Nat) : ∃ u, t ≤ u ∧ (later (env wires tr) u).finish = true := by
  have hobeys : (feed wires tr).Obeys (tr 0).memory region
      ⟨initialMem (tr 0) m, .done, none⟩ := by
    intro u
    rcases Nat.lt_or_ge u 257 with hlt | hge
    · exact .quiet (init_quiet ((state_of_run hrun hreset).1 u hlt)).1
    · obtain ⟨k, rfl⟩ := Nat.exists_eq_add_of_le hge
      exact (sound hrun hreset hok k).obeys
  obtain ⟨u, hle, hready⟩ := ready_again hobeys hreset.clk hreset.stores
    (hreset.coupled wires region) (257 + t)
  obtain ⟨k, rfl⟩ := Nat.exists_eq_add_of_le (show 257 ≤ u by omega)
  exact ⟨k, by omega, hready⟩

theorem flatMemory_later (hquiet : ∀ t, t < 257 → (ins t).request = false) (M : WordMemory)
    (t : Nat) : flatMemory M ins (257 + t) = flatMemory M (later ins) t := by
  have hstart (t : Nat) (ht : t ≤ 257) : flatMemory M ins t = M := by
    induction t with
    | zero => rfl
    | succ t ih => rw [flatMemory, ih (by omega), respond_quiet (hquiet t (by omega))]
  induction t with
  | zero => exact hstart 257 (Nat.le_refl 257)
  | succ t ih =>
      rw [← Nat.add_assoc, flatMemory, flatMemory, ih]
      rfl

/-- The first cycle with `ready` high after cycle `t` shows `v`. -/
def Responds (ins : Nat → HostIn) (tr : Nat → CachedMemory) (t : Nat) (v : Word) : Prop :=
  ∃ r, t < r ∧ (tr r).ready (ins r) = true ∧
    (∀ u, t < u → u < r → (tr u).ready (ins u) = false) ∧ (tr r).spo = v

theorem state_of_ready (h : (tr t).ready (ins t) = true) :
    (tr t).cache.state = .IDLE ∧ (ins t).request = false := by
  have hready : ((ins t).we = false ∧ (ins t).rd = false) ∧ (tr t).cache.state = .IDLE := by
    simpa [ready, CacheCpu.ready] using h
  exact ⟨hready.2, by simp [HostIn.request, hready.1]⟩

theorem idle_of_quiet (hquiet : (ins t).request = false) :
    (tr t).ready (ins t) = true ↔ (tr t).cache.state = .IDLE := by
  obtain ⟨hwe, hrd⟩ : (ins t).we = false ∧ (ins t).rd = false := by
    simpa [HostIn.request] using hquiet
  simp [ready, CacheCpu.ready, hwe, hrd]

theorem HostOk.le (hok : HostOk region ins tr) (hrequest : (ins t).request = true) : 257 ≤ t := by
  by_contra hlt
  rw [hok.quiet t (by omega)] at hrequest
  cases hrequest

theorem answers (hrun : IsRun ins wires tr) (hreset : (tr 0).Reset m)
    (hok : HostOk region ins tr) (hrequest : (ins t).request = true) :
    Responds ins tr t (flatMemory (initialMem (tr 0) m) ins t (wordIndex (ins t).a)) := by
  obtain ⟨k, rfl⟩ := Nat.exists_eq_add_of_le (hok.le hrequest)
  have hserves : Serves (later ins) (later (env wires tr))
      (later (system wires tr (initialMem (tr 0) m))) :=
    fun t _ => (sound hrun hreset hok t).step hrun
  obtain ⟨r, hkr, hready, hfirst, hspo⟩ := (sound hrun hreset hok k).serving.responds hserves
    hok.later (fair hrun hreset hok) hrequest
  rw [flatMemory_later hok.quiet]
  refine ⟨257 + r, by omega, hready, fun u hlt hur => ?_, hspo⟩
  obtain ⟨j, rfl⟩ := Nat.exists_eq_add_of_le (show 257 ≤ u by omega)
  exact hfirst j (by omega) (by omega)

/--
The cache, the two controllers and the chip are a flat memory: in every run from a reset on,
for every host that obeys the protocol and stays in the 8 MB of the chip, the first ready
cycle after a read shows what was last written to the address, or else what the chip held.
-/
theorem read_shows_flat (hrun : IsRun ins wires tr) (hreset : (tr 0).Reset m)
    (hok : HostOk region ins tr) {t : Nat} (hrd : (ins t).rd = true) :
    Responds ins tr t (flatMemory (initialMem (tr 0) m) ins t (wordIndex (ins t).a)) :=
  answers hrun hreset hok (request_of_rd hrd)

end Run

/-! ## A host that makes its requests one after the other -/

/-- The cache with its host: what that puts on the port, and what it has left to request. -/
structure Asking where
  host : HostIn
  left : List HostIn
  cached : CachedMemory

namespace Asking

def cycle (s : Asking) : Asking :=
  let cached := s.cached.cycle s.host ⟨0, 0⟩ ⟨0, 0⟩
  let quiet := { s.host with we := false, rd := false }
  if s.cached.ready s.host then
    match s.left with
    | [] => ⟨quiet, [], cached⟩
    | h :: left => ⟨h, left, cached⟩
  else ⟨quiet, s.left, cached⟩

structure Within (region : BitVec 9) (s : Asking) : Prop where
  host : s.host.request = true → InRegion region (blockOf s.host.a)
  left : ∀ h ∈ s.left, h.request = true ∧ InRegion region (blockOf h.a)

variable {s : Asking} {region : BitVec 9} {M : WordMemory} {h : HostIn} {left : List HostIn}
variable {t r : Nat}

theorem cached_cycle (s : Asking) : s.cycle.cached = s.cached.cycle s.host ⟨0, 0⟩ ⟨0, 0⟩ := by
  unfold cycle
  cases s.cached.ready s.host <;> cases s.left <;> rfl

theorem cycle_busy (h : s.cached.ready s.host = false) :
    s.cycle.host = { s.host with we := false, rd := false } ∧ s.cycle.left = s.left := by
  simp [cycle, h]

private theorem cycle_ready (h : s.cached.ready s.host = true) {next : HostIn}
    (hleft : s.left = next :: left) : s.cycle.host = next ∧ s.cycle.left = left := by
  simp [cycle, h, hleft]

private theorem cycle_done (h : s.cached.ready s.host = true) (hleft : s.left = []) :
    s.cycle.host = { s.host with we := false, rd := false } ∧ s.cycle.left = [] := by
  simp [cycle, h, hleft]

theorem Within.cycle (h : s.Within region) : s.cycle.Within region := by
  have hquiet (s' : Asking) (hhost : s'.host = { s.host with we := false, rd := false })
      (hleft : ∀ h ∈ s'.left, h ∈ s.left) : s'.Within region := by
    refine ⟨fun hrequest => ?_, fun h' hmem => h.left h' (hleft h' hmem)⟩
    rw [hhost] at hrequest
    cases hrequest
  cases hready : s.cached.ready s.host with
  | false =>
      obtain ⟨hhost, hleft⟩ := cycle_busy hready
      exact hquiet s.cycle hhost fun h' hmem => hleft ▸ hmem
  | true =>
      cases hleft : s.left with
      | nil =>
          obtain ⟨hhost, hleft'⟩ := cycle_done hready hleft
          exact hquiet s.cycle hhost fun h' hmem => by simp [hleft'] at hmem
      | cons next left =>
          obtain ⟨hhost, hleft'⟩ := cycle_ready hready hleft
          have hin := h.left
          rw [hleft] at hin
          refine ⟨fun _ => ?_, fun h' hmem => ?_⟩
          · rw [hhost]
            exact (hin next (List.mem_cons_self ..)).2
          · rw [hleft'] at hmem
            exact hin h' (List.mem_cons_of_mem _ hmem)

def run (s : Asking) (t : Nat) : Asking := Asking.cycle^[t] s

def hosts (s : Asking) (t : Nat) : HostIn := (s.run t).host

def cacheds (s : Asking) (t : Nat) : CachedMemory := (s.run t).cached

private theorem run_succ (s : Asking) (t : Nat) : s.run (t + 1) = (s.run t).cycle :=
  Function.iterate_succ_apply' ..

theorem Within.run (h : s.Within region) (t : Nat) : (s.run t).Within region := by
  induction t with
  | zero => exact h
  | succ t ih =>
      rw [run_succ]
      exact ih.cycle

theorem isRun (s : Asking) : IsRun s.hosts (fun _ => ⟨0, 0⟩) s.cacheds := by
  intro t
  rw [cacheds, run_succ, cached_cycle]
  rfl

private theorem ready_of_request (hrequest : (s.hosts (t + 1)).request = true) :
    (s.cacheds t).ready (s.hosts t) = true := by
  by_contra hready
  have hbusy : (s.run t).cached.ready (s.run t).host = false := Bool.eq_false_of_not_eq_true hready
  rw [hosts, run_succ, (cycle_busy hbusy).1] at hrequest
  cases hrequest

theorem protocol (h : s.Within region) : Protocol s.hosts s.cacheds where
  issued _ _ := ready_of_request
  held t _ hquiet _ := by
    have hnext : (s.hosts (t + 1)).request = true ∨
        s.hosts (t + 1) = { s.hosts t with we := false, rd := false } := by
      simp only [hosts, run_succ]
      cases hready : (s.run t).cached.ready (s.run t).host with
      | false => exact .inr (cycle_busy hready).1
      | true =>
          cases hleft : (s.run t).left with
          | nil => exact .inr (cycle_done hready hleft).1
          | cons next left =>
              rw [(cycle_ready hready hleft).1]
              exact .inl ((h.run t).left next (by simp [hleft])).1
    rcases hnext with hrequest | hheld
    · rw [hquiet] at hrequest
      cases hrequest
    · rw [hheld]
      exact ⟨rfl, rfl⟩

private theorem hostOk (h : s.Within region) {m : ChipBytes} (hreset : s.cached.Reset m)
    (hquiet : s.host.request = false) : HostOk region s.hosts s.cacheds where
  toProtocol := protocol h
  region t := (h.run t).host
  quiet t ht := by
    cases t with
    | zero => exact hquiet
    | succ t =>
        by_contra hrequest
        have hready := ready_of_request (s := s) (t := t) (by simpa using hrequest)
        have hinit := (state_of_run s.isRun hreset).1 t (by omega)
        rw [ready, CacheCpu.ready, hinit] at hready
        simp at hready

private theorem next_request (htr : t ≤ r) (hready : (s.cacheds r).ready (s.hosts r) = true)
    (hbusy : ∀ u, t ≤ u → u < r → (s.cacheds u).ready (s.hosts u) = false)
    (hleft : (s.run t).left = h :: left) :
    s.hosts (r + 1) = h ∧ (s.run (r + 1)).left = left ∧
      flatMemory M s.hosts (r + 1) = respond (s.hosts t) (flatMemory M s.hosts t) := by
  have hwaits (u : Nat) (htu : t ≤ u) (hur : u ≤ r) : (s.run u).left = h :: left ∧
      flatMemory M s.hosts (u + 1) = respond (s.hosts t) (flatMemory M s.hosts t) := by
    induction u, htu using Nat.le_induction with
    | base => exact ⟨hleft, rfl⟩
    | succ u htu ih =>
        obtain ⟨hsame, hflat⟩ := ih (by omega)
        obtain ⟨hhost, hleft'⟩ := cycle_busy (hbusy u htu (by omega))
        refine ⟨by rw [run_succ, hleft', hsame], ?_⟩
        have hquiet : (s.hosts (u + 1)).request = false := by
          rw [hosts, run_succ, hhost]
          rfl
        rw [flatMemory, respond_quiet hquiet, hflat]
  obtain ⟨hlast, hflat⟩ := hwaits r htr (Nat.le_refl r)
  obtain ⟨hhost, hleft'⟩ := cycle_ready hready hlast
  rw [hosts, run_succ]
  exact ⟨hhost, hleft', hflat⟩

/-- The first request is made when the cache has cleared its tags. -/
theorem exists_first {m : ChipBytes} (hreset : s.cached.Reset m) (hquiet : s.host.request = false)
    (hleft : s.left = h :: left) :
    ∃ u, s.hosts u = h ∧ (s.run u).left = left ∧ flatMemory M s.hosts u = M := by
  obtain ⟨hclears, hidle⟩ := state_of_run s.isRun hreset
  have hbusy (u : Nat) (hu : u < 257) : (s.cacheds u).ready (s.hosts u) = false := by
    simp [ready, CacheCpu.ready, hclears u hu]
  have hhost : (s.hosts 257).request = false := by
    by_contra hrequest
    have hready := ready_of_request (s := s) (t := 256) (by simpa using hrequest)
    rw [hbusy 256 (by decide)] at hready
    cases hready
  have hready : (s.cacheds 257).ready (s.hosts 257) = true :=
    (idle_of_quiet hhost).mpr hidle
  refine ⟨258, ?_⟩
  obtain ⟨hnext, hleft', hflat⟩ := next_request (M := M) (Nat.zero_le 257) hready
    (fun u _ hu => hbusy u hu) hleft
  rw [hflat]
  exact ⟨hnext, hleft', respond_quiet hquiet⟩

theorem exists_next (hin : s.Within region) {m : ChipBytes} (hreset : s.cached.Reset m)
    (hquiet : s.host.request = false) (hrequest : (s.hosts t).request = true)
    (hleft : (s.run t).left = h :: left) :
    ∃ u, s.hosts u = h ∧ (s.run u).left = left ∧
      flatMemory M s.hosts u = respond (s.hosts t) (flatMemory M s.hosts t) := by
  obtain ⟨r, htr, hready, hfirst, -⟩ :=
    answers s.isRun hreset (hostOk hin hreset hquiet) hrequest
  refine ⟨r + 1, next_request (by omega) hready (fun u htu hur => ?_) hleft⟩
  rcases htu.eq_or_lt with rfl | hlt
  · have hor : ((s.hosts t).we || (s.hosts t).rd) = true := hrequest
    simp [ready, CacheCpu.ready, hor]
  · exact hfirst u hlt hur

end Asking

def poweredUp : CachedMemory where
  cache := boot.cache.cycle ⟨true, 0, 0, false, false, 0, false⟩
  memory := fromReset

private theorem reset_poweredUp : poweredUp.Reset fun _ => 0 :=
  ⟨⟨boot.cache, _, rfl, rfl⟩, fresh_fromReset, rfl, rfl⟩

/-- Write 1 to address 4, write 2 to an address of the same line, read address 4 again. -/
def evicting : Asking where
  host := ⟨0, 0, false, false⟩
  left := [⟨4, 1, true, false⟩, ⟨0x8004, 2, true, false⟩, ⟨4, 0, false, true⟩]
  cached := poweredUp

private theorem within_evicting : evicting.Within 0 := by
  have hregion : InRegion 0 (blockOf 4) ∧ InRegion 0 (blockOf 0x8004) := by
    unfold InRegion
    decide
  refine ⟨fun hrequest => ?_, fun h hmem => ?_⟩
  · cases hrequest
  · simp only [evicting, List.mem_cons, List.not_mem_nil, or_false] at hmem
    rcases hmem with rfl | rfl | rfl
    · exact ⟨rfl, hregion.1⟩
    · exact ⟨rfl, hregion.2⟩
    · exact ⟨rfl, hregion.1⟩

/-- The line comes back from the chip as it was written. -/
theorem read_shows_flat_evicted :
    ∃ t, evicting.hosts t = ⟨4, 0, false, true⟩ ∧ Responds evicting.hosts evicting.cacheds t 1 := by
  have hok := Asking.hostOk within_evicting reset_poweredUp rfl
  obtain ⟨t, hhost, hleft, hflat⟩ := Asking.exists_first (s := evicting)
    (M := initialMem poweredUp fun _ => 0) reset_poweredUp rfl rfl
  obtain ⟨u, hhost', hleft', hflat'⟩ := Asking.exists_next within_evicting reset_poweredUp rfl
    (by rw [hhost]; rfl) hleft
  obtain ⟨v, hread, -, hflat''⟩ := Asking.exists_next within_evicting reset_poweredUp rfl
    (by rw [hhost']; rfl) hleft'
  refine ⟨v, hread, ?_⟩
  have hshown := read_shows_flat evicting.isRun reset_poweredUp hok (t := v) (by rw [hread])
  change Responds _ _ v (flatMemory (initialMem poweredUp fun _ => 0) _ v _) at hshown
  rw [hflat'', hflat', hflat, hhost', hhost, hread] at hshown
  simpa [respond, storeWord, wordIndex] using hshown

end CachedMemory

end PComputer.Rtl
