import PComputer.Foundation.Clocked
import PComputer.Rtl.CacheSteps

/-!
# The cache refines a flat memory

From any state in which the cache is idle and flat, every request of a host that
holds its address and data until `ready` is served as a flat memory would serve
it, for every memory below that keeps the burst contract and samples no word in
the first cycle after a pulse.
-/

namespace PComputer.Rtl

open PComputer.Foundation

namespace CacheSystem

variable {early : Bool} {h : HostIn} {e : BurstEnv} {s : CacheSystem} {M : WordMemory}

/-! ## Accesses -/

/-- What the way does in a cycle that serves a request for `a` from its line. -/
def access (w : CacheWay) (a d : Word) (we : Bool) : CacheWay :=
  { w with
    tags :=
      let dirty := we || (w.tagOut a).getLsbD 1
      Function.update w.tags (CacheWay.index a)
        (blockOf a ++ 0#4 ++ 0#1 ++ BitVec.ofBool dirty ++ 1#1)
    bram := if we then Function.update w.bram (CacheWay.bramA a) d else w.bram
    spo := w.bram (CacheWay.bramA a) }

private theorem lines_access {w : CacheWay} {mem : WordMemory} {a d : Word} {we dirty : Bool}
    (hline : absLine (w.tagOut a) = some (blockOf a, dirty)) :
    Rtl.lines (access w a d we).tags (access w a d we).bram mem =
      if we then
        (Rtl.lines w.tags w.bram mem).put lineIndex (blockOf a) (CacheWay.offset a) d
      else Rtl.lines w.tags w.bram mem := by
  have hdirty : (w.tagOut a).getLsbD 1 = dirty := by
    unfold absLine at hline
    split_ifs at hline
    simp only [Option.some.injEq, Prod.mk.injEq] at hline
    exact hline.2
  obtain ⟨hvalid', hdirty', hblock'⟩ := tag_fields (blockOf a) (we || dirty) true
  have htag : absLine (blockOf a ++ 0#4 ++ 0#1 ++ BitVec.ofBool (we || dirty) ++ 1#1) =
      some (blockOf a, we || dirty) :=
    (if_pos hvalid').trans (congrArg some (Prod.ext hblock' hdirty'))
  cases we with
  | true =>
      simp only [access, if_true, lines_tag, bramA_eq, lines_bram, index_eq, hdirty, htag]
      rfl
  | false =>
      simp only [access, Bool.false_eq_true, if_false, lines_tag, index_eq, hdirty, htag]
      simp only [Bool.false_or, Rtl.lines, DirectMapped.mk.injEq, and_true]
      funext i
      by_cases hi : i = lineIndex (blockOf a)
      · subst hi
        rw [Function.update_self, ← hline, CacheWay.tagOut, index_eq]
      · rw [Function.update_of_ne hi]

private theorem flat_access {w : CacheWay} {mem : WordMemory} {a : Word} {dirty : Bool} (d : Word)
    (we : Bool)
    (hline : absLine (w.tagOut a) = some (blockOf a, dirty))
    (hflat : Flat (Rtl.lines w.tags w.bram mem) M) :
    Flat (Rtl.lines (access w a d we).tags (access w a d we).bram mem)
        (if we then storeWord M (wordIndex a) d else M) ∧
      (access w a d we).spo = M (wordIndex a) := by
  have hholds : (Rtl.lines w.tags w.bram mem).Holds lineIndex (blockOf a) := by
    refine DirectMapped.holds_of_line (?_ : _ = some (blockOf a, dirty))
    rw [← hline, CacheWay.tagOut, index_eq]
    rfl
  constructor
  · rw [lines_access hline]
    cases we with
    | false => exact hflat
    | true =>
        simp only [if_true]
        refine ⟨DirectMapped.coherent_put hflat.1 _ _, fun b o => ?_⟩
        rw [DirectMapped.view_put hholds, hflat.2, storeWord, wordIndex_eq_block]
        simp only [append_offset_inj]
  · have hview := hflat.2 (blockOf a) (CacheWay.offset a)
    rw [DirectMapped.view_of_holds hholds, ← wordIndex_eq_block] at hview
    rw [← hview, access, bramA_eq]
    rfl

private theorem hit_cycle (hheld : h.a = s.cache.hostA) (hstate : s.cache.state = .HIT)
    (hinit : s.cache.way.initDone = true) (hburstWe : s.cache.burstWe = false)
    (hdone : s.low.burst = .done) (htag : s.Tagged) (hflat : Flat s.lines M) :
    (s.cycle early h e).Idle
        (if s.cache.hostWeorrd then storeWord M (wordIndex s.cache.hostA) s.cache.hostD else M) ∧
      (s.cycle early h e).spo = M (wordIndex s.cache.hostA) := by
  have hway : (s.cycle early h e).cache.way =
      access s.cache.way s.cache.hostA s.cache.hostD s.cache.hostWeorrd := by
    simp [cycle, CacheCpu.cycle, CacheWay.cycle, CacheCpu.wayIn, CacheCpu.wayControl,
      CacheCpu.wayA, CacheCpu.wayD, CacheCpu.bursting, CacheCpu.wayTagIn, CacheCpu.wayTagDirty,
      CacheCpu.wayTagOut, cacheIn, access, hstate, hinit, hheld]
  have hfsm : (s.cycle early h e).cache.state = .IDLE ∧
      (s.cycle early h e).cache.burstWe = s.cache.burstWe := by
    simp [cycle, CacheCpu.cycle, CacheCpu.fsm, cacheIn, hstate]
  have hlow : (s.cycle early h e).low.mem = s.low.mem ∧
      (s.cycle early h e).low.burst = .done := by
    simp [cycle, BurstMemory.cycle, CacheCpu.lowmemWe, CacheCpu.lowmemRd, hstate, hdone]
  have hline : absLine (s.cache.way.tagOut s.cache.hostA) =
      some (blockOf s.cache.hostA, false) := by
    rw [CacheWay.tagOut, index_eq]
    exact htag
  obtain ⟨hflat', hspo⟩ := flat_access s.cache.hostD s.cache.hostWeorrd hline hflat
  refine ⟨⟨hfsm.1, by rw [hway]; exact hinit, hfsm.2.trans hburstWe, hlow.2, ?_⟩, ?_⟩
  · rw [lines, hway, hlow.1]
    exact hflat'
  · rw [spo, CacheCpu.spo, hway]
    exact hspo

/-! ## Requests -/

/-- The memory after the request that is being served, `M` being the one before it. -/
def pending (s : CacheSystem) (M : WordMemory) : WordMemory :=
  if s.cache.hostWeorrd then storeWord M (wordIndex s.cache.hostA) s.cache.hostD else M

def respond (h : HostIn) (M : WordMemory) : WordMemory :=
  if h.we then storeWord M (wordIndex h.a) h.d else M

theorem cycle_quiet {c : CacheCpu} {i : CacheIn} (hstate : c.state = .IDLE)
    (hinit : c.way.initDone = true) (hrst : i.rst = false)
    (hrequest : i.we = false ∧ i.rd = false) :
    (c.cycle i).state = .IDLE ∧ (c.cycle i).burstWe = c.burstWe ∧
      (c.cycle i).way.initDone = true ∧ (c.cycle i).way.tags = c.way.tags ∧
      (c.cycle i).way.bram = c.way.bram := by
  obtain ⟨hwe, hrd⟩ := hrequest
  refine ⟨?_, ?_, ?_, ?_, ?_⟩
  · simp [CacheCpu.cycle, CacheCpu.fsm, hstate, hrst, hwe, hrd]
  · simp [CacheCpu.cycle, CacheCpu.fsm, hstate, hrst, hwe, hrd]
  all_goals
    simp [CacheCpu.cycle, CacheWay.cycle, CacheCpu.wayIn, CacheCpu.wayControl, CacheCpu.quickHit,
      hstate, hinit, hrst, hwe, hrd]

theorem idle_quiet (hi : s.Idle M) (hrequest : h.request = false) : (s.cycle early h e).Idle M := by
  have hquiet : h.we = false ∧ h.rd = false := by simpa [HostIn.request] using hrequest
  obtain ⟨hstate, hburstWe, hinit, htags, hbram⟩ :=
    cycle_quiet (i := s.cacheIn h e) hi.state hi.initDone rfl hquiet
  have hlow : (s.cycle early h e).low.mem = s.low.mem ∧
      (s.cycle early h e).low.burst = .done := by
    simp [cycle, BurstMemory.cycle, CacheCpu.lowmemWe, CacheCpu.lowmemRd, hi.state, hi.done]
  refine ⟨hstate, hinit, hburstWe.trans hi.burstWe, hlow.2, ?_⟩
  change Flat (Rtl.lines (s.cache.cycle (s.cacheIn h e)).way.tags
    (s.cache.cycle (s.cacheIn h e)).way.bram (s.cycle early h e).low.mem) M
  rw [htags, hbram, hlow.1]
  exact hi.flat

def lineAt (s : CacheSystem) (a : Word) : Option (BlockAddress × Bool) :=
  absLine (s.cache.way.tagOut a)

private theorem wayHit_iff (hi : s.Idle M) :
    s.cache.wayHit (s.cacheIn h e) = true ↔
      ∃ dirty, s.lineAt h.a = some (blockOf h.a, dirty) := by
  simp only [CacheCpu.wayHit, CacheCpu.wayTagValid, CacheCpu.wayTagAddr, CacheCpu.wayTagOut,
    CacheCpu.wayA, CacheCpu.bursting, hi.state, lineAt, absLine, cacheIn]
  simp

theorem idle_hit (early : Bool) (hi : s.Idle M) (hrequest : h.request = true)
    (hhit : s.cache.wayHit (s.cacheIn h e) = true) :
    (s.cycle early h e).Idle (respond h M) ∧ (s.cycle early h e).spo = M (wordIndex h.a) := by
  have hor : h.we = true ∨ h.rd = true := by simpa [HostIn.request] using hrequest
  have hway : (s.cycle early h e).cache.way = access s.cache.way h.a h.d h.we := by
    have hquick : s.cache.quickHit (s.cacheIn h e) = true := by
      simp only [CacheCpu.quickHit, hhit, Bool.and_true]
      exact hrequest
    have hA : s.cache.wayA (s.cacheIn h e) = h.a := by
      simp [CacheCpu.wayA, CacheCpu.bursting, hi.state, cacheIn]
    simp [cycle, CacheCpu.cycle, CacheWay.cycle, CacheCpu.wayIn, CacheCpu.wayControl, hquick, hA,
      CacheCpu.wayD, CacheCpu.bursting, CacheCpu.wayTagIn, CacheCpu.wayTagDirty,
      CacheCpu.wayTagOut, access, hi.state, hi.initDone]
    simp [cacheIn]
    congr
  have hfsm : (s.cycle early h e).cache.state = .IDLE ∧
      (s.cycle early h e).cache.burstWe = s.cache.burstWe := by
    simp [cycle, CacheCpu.cycle, CacheCpu.fsm, hi.state, hhit]
    simp [cacheIn, hor]
  have hlow : (s.cycle early h e).low.mem = s.low.mem ∧
      (s.cycle early h e).low.burst = .done := by
    simp [cycle, BurstMemory.cycle, CacheCpu.lowmemWe, CacheCpu.lowmemRd, hi.state, hi.done]
  obtain ⟨dirty, hline⟩ := (wayHit_iff hi).1 hhit
  obtain ⟨hflat, hspo⟩ := flat_access h.d h.we hline hi.flat
  refine ⟨⟨hfsm.1, by rw [hway]; exact hi.initDone, hfsm.2.trans hi.burstWe, hlow.2, ?_⟩, ?_⟩
  · rw [lines, hway, hlow.1]
    exact hflat
  · rw [spo, CacheCpu.spo, hway]
    exact hspo

theorem idle_miss (early : Bool) (hi : s.Idle M) (hrequest : h.request = true)
    (hmiss : s.cache.wayHit (s.cacheIn h e) = false) :
    (∃ n, (s.cycle early h e).Stage M n) ∧ (s.cycle early h e).cache.hostA = h.a ∧
      pending (s.cycle early h e) M = respond h M := by
  have hor : h.we = true ∨ h.rd = true := by simpa [HostIn.request] using hrequest
  have hway : (s.cycle early h e).cache.way.tags = s.cache.way.tags ∧
      (s.cycle early h e).cache.way.bram = s.cache.way.bram ∧
      (s.cycle early h e).cache.way.initDone = true := by
    have hquick : s.cache.quickHit (s.cacheIn h e) = false := by
      simp only [CacheCpu.quickHit, hmiss, Bool.and_false]
    simp [cycle, CacheCpu.cycle, CacheWay.cycle, CacheCpu.wayIn, CacheCpu.wayControl, hquick,
      hi.state, hi.initDone]
    simp [cacheIn]
  have hlow : (s.cycle early h e).low.mem = s.low.mem ∧
      (s.cycle early h e).low.burst = .done := by
    simp [cycle, BurstMemory.cycle, CacheCpu.lowmemWe, CacheCpu.lowmemRd, hi.state, hi.done]
  have hA : s.cache.wayTagOut (s.cacheIn h e) = s.cache.way.tagOut h.a := by
    simp [CacheCpu.wayTagOut, CacheCpu.wayA, CacheCpu.bursting, hi.state, cacheIn]
  have hfsm : (s.cycle early h e).cache.hostA = h.a ∧ (s.cycle early h e).cache.hostD = h.d ∧
      (s.cycle early h e).cache.hostWeorrd = h.we ∧
      (s.cycle early h e).cache.burstIssue = true ∧
      (s.cycle early h e).cache.burstWe = false ∧ (s.cycle early h e).cache.xferCnt = 0#16 ∧
      (s.cycle early h e).cache.state =
        (if (s.cache.way.tagOut h.a).getLsbD 0 ∧ (s.cache.way.tagOut h.a).getLsbD 1 then
          .WRITEBACK else .LOAD) ∧
      ((s.cycle early h e).cache.state = .WRITEBACK →
        (s.cycle early h e).cache.burstWbBaseA = blockOf (s.cache.way.tagOut h.a)) := by
    simp only [cycle, CacheCpu.cycle, CacheCpu.fsm, hi.state, hmiss, CacheCpu.wayTagValid,
      CacheCpu.wayTagDirty, CacheCpu.wayTagAddr, hA]
    cases hvalid : (s.cache.way.tagOut h.a).getLsbD 0 <;>
      cases hdirty : (s.cache.way.tagOut h.a).getLsbD 1 <;>
      simp [cacheIn, hor, hi.burstWe]
  obtain ⟨hhostA, hhostD, hhostWe, hissue, hburstWe, hxfer, hstate, hbase⟩ := hfsm
  refine ⟨?_, hhostA, by rw [pending, respond, hhostA, hhostD, hhostWe]⟩
  have hlines : (s.cycle early h e).lines = s.lines := by
    rw [lines, hway.1, hway.2.1, hlow.1, lines]
  have hslot : (s.cycle early h e).slot = CacheWay.index h.a := by
    rw [slot, block, hhostA, index_eq]
  have hline : s.lines.line (s.cycle early h e).slot = s.lineAt h.a := by
    rw [hslot]
    rfl
  by_cases hdirty : (s.cache.way.tagOut h.a).getLsbD 0 ∧ (s.cache.way.tagOut h.a).getLsbD 1
  · -- the line holds another block, which has to be written back first
    rw [if_pos hdirty] at hstate
    have hbase := hbase hstate
    have hold : s.lines.line (s.cycle early h e).slot =
        some ((s.cycle early h e).cache.burstWbBaseA, true) := by
      rw [hline, lineAt, absLine, if_pos hdirty.1, hbase, hdirty.2]
    have hholding : (s.cycle early h e).holding
        (some ((s.cycle early h e).cache.burstWbBaseA, true)) = s.lines := by
      rw [holding, hlines, ← hold, Function.update_eq_self]
    exact ⟨_, .writeBackIssue ⟨hstate, hway.2.2, hburstWe, hi.flat.1.home hold,
      by rw [hholding]; exact hi.flat⟩ hissue hxfer hlow.2⟩
  · -- the line is empty or clean, so what it holds can be dropped
    rw [if_neg hdirty] at hstate
    refine ⟨_, .loadIssue ⟨hstate, hway.2.2, ?_⟩ hissue hburstWe hlow.2⟩
    have hholding : (s.cycle early h e).holding none = s.lines.drop (s.cycle early h e).slot := by
      rw [holding, hlines, DirectMapped.drop]
    rw [hholding]
    refine hi.flat.of_view (DirectMapped.coherent_drop hi.flat.1 _) (DirectMapped.view_drop ?_)
    intro b dirty _ hb
    obtain rfl : dirty = false := by
      by_contra hne
      rw [hline, lineAt, absLine] at hb
      split_ifs at hb with hvalid
      simp only [Option.some.injEq, Prod.mk.injEq] at hb
      exact hdirty ⟨hvalid, by rw [hb.2]; simpa using hne⟩
    exact hi.flat.1.clean hb

theorem Stage.cycle_hit {n : Nat} (hs : s.Stage M n) (early : Bool) (e : BurstEnv)
    (hheld : h.a = s.cache.hostA)
    (hhit : s.cache.state = .HIT) :
    (s.cycle early h e).Idle (pending s M) ∧
      (s.cycle early h e).spo = M (wordIndex s.cache.hostA) := by
  cases hs with
  | hit hstate hinit hburstWe hdone htag hflat =>
      exact hit_cycle hheld hstate hinit hburstWe hdone htag hflat
  | writeBackIssue hw | writeBackRequest hw | writeBackDone hw =>
      rw [hw.state] at hhit
      cases hhit
  | writeBackBurst _ _ _ hw =>
      rw [hw.state] at hhit
      cases hhit
  | loadIssue hl | loadDone hl =>
      rw [hl.state] at hhit
      cases hhit
  | loadBurst _ hl =>
      rw [hl.state] at hhit
      cases hhit

/-! ## Runs -/

def IsRun (early : Bool) (ins : Nat → HostIn) (env : Nat → BurstEnv) (tr : Nat → CacheSystem) :
    Prop :=
  ∀ t, tr (t + 1) = (tr t).cycle early (ins t) (env t)

/--
The host requests only in the cycle after one with `ready` high, so for one
cycle at a time, and holds address and data until `ready` is high again.
-/
structure HostOk (ins : Nat → HostIn) (tr : Nat → CacheSystem) : Prop where
  issued : ∀ t, (ins (t + 1)).request = true → (tr t).ready (ins t) = true
  held : ∀ t, (ins (t + 1)).request = false → (tr (t + 1)).ready (ins (t + 1)) = false →
    (ins (t + 1)).a = (ins t).a ∧ (ins (t + 1)).d = (ins t).d

/-- The flat memory before cycle `t`: `M` with the writes requested until then. -/
def flatMemory (M : WordMemory) (ins : Nat → HostIn) : Nat → WordMemory
  | 0 => M
  | t + 1 => respond (ins t) (flatMemory M ins t)

def Serves (ins : Nat → HostIn) (env : Nat → BurstEnv) (tr : Nat → CacheSystem) : Prop :=
  ∀ t, (tr t).cache.state ≠ .IDLE ∨ (ins t).request = true →
    tr (t + 1) = (tr t).cycle false (ins t) (env t)

theorem IsRun.serves {ins : Nat → HostIn} {env : Nat → BurstEnv} {tr : Nat → CacheSystem}
    (h : IsRun false ins env tr) : Serves ins env tr := fun t _ => h t

/-- At time `t` the cache is idle and flat, or busy with the last request. -/
inductive Serving (ins : Nat → HostIn) (tr : Nat → CacheSystem) (M : WordMemory) : Nat → Prop
  | idle {t : Nat} (h : (tr t).Idle M) : Serving ins tr M t
  | busy {t n : Nat} {M₀ : WordMemory} (h : (tr (t + 1)).Stage M₀ n)
      (pending : (tr (t + 1)).pending M₀ = M) (hostA : (tr (t + 1)).cache.hostA = (ins t).a)
      (busy : (tr t).ready (ins t) = false) : Serving ins tr M (t + 1)

section Run

variable {ins : Nat → HostIn} {env : Nat → BurstEnv} {tr : Nat → CacheSystem}
  {t n : Nat} {M₀ : WordMemory}

theorem ready_eq_false (hstate : s.cache.state ≠ .IDLE) : s.ready h = false := by
  simp [ready, CacheCpu.ready, hstate]

private theorem ready_eq_true (hstate : s.cache.state = .IDLE) (hrequest : h.request = false) :
    s.ready h = true := by
  obtain ⟨hwe, hrd⟩ : h.we = false ∧ h.rd = false := by simpa [HostIn.request] using hrequest
  simp [ready, CacheCpu.ready, hstate, hwe, hrd]

theorem respond_quiet (hrequest : h.request = false) : respond h M = M := by
  have hwe : h.we = false := by
    simp only [HostIn.request, Bool.or_eq_false_iff] at hrequest
    exact hrequest.1
  simp [respond, hwe]

theorem HostOk.quiet (hok : HostOk ins tr) (hstate : (tr (t + 1)).cache.state ≠ .IDLE)
    (hbusy : (tr t).ready (ins t) = false) (hA : (tr (t + 1)).cache.hostA = (ins t).a) :
    (ins (t + 1)).request = false ∧ (ins (t + 1)).a = (tr (t + 1)).cache.hostA := by
  have hrequest : (ins (t + 1)).request = false := by
    by_contra hrequest
    have := hok.issued t (by simpa using hrequest)
    simp [hbusy] at this
  exact ⟨hrequest, (hok.held t hrequest (ready_eq_false hstate)).1.trans hA.symm⟩

private theorem busy_cycle
    (hstep : tr (t + 2) = (tr (t + 1)).cycle false (ins (t + 1)) (env (t + 1)))
    (hok : HostOk ins tr) (hs : (tr (t + 1)).Stage M₀ n) (hA : (tr (t + 1)).cache.hostA = (ins t).a)
    (hbusy : (tr t).ready (ins t) = false) (hhit : (tr (t + 1)).cache.state ≠ .HIT) :
    Advances (env (t + 1)) (tr (t + 2)) M₀ n ∧
      (tr (t + 2)).pending M₀ = (tr (t + 1)).pending M₀ ∧
      (tr (t + 2)).cache.hostA = (ins (t + 1)).a ∧
      (tr (t + 1)).ready (ins (t + 1)) = false := by
  obtain ⟨-, hheld⟩ := hok.quiet hs.state_ne_idle hbusy hA
  have hadvances := hs.cycle (e := env (t + 1)) hheld hhit
  obtain ⟨hhostA, hhostD, hhostWe, -⟩ := fsm_cycle false (ins (t + 1)) (env (t + 1))
    hs.state_ne_idle
  rw [← hstep] at hadvances hhostA hhostD hhostWe
  exact ⟨hadvances, by rw [pending, pending, hhostA, hhostD, hhostWe], hhostA.trans hheld.symm,
    ready_eq_false hs.state_ne_idle⟩

private theorem serving_request (hstep : tr (t + 1) = (tr t).cycle false (ins t) (env t))
    (hi : (tr t).Idle M) (hrequest : (ins t).request = true) :
    Serving ins tr (respond (ins t) M) (t + 1) := by
  cases hhit : (tr t).cache.wayHit ((tr t).cacheIn (ins t) (env t)) with
  | true =>
      refine .idle ?_
      rw [hstep]
      exact (idle_hit false hi hrequest hhit).1
  | false =>
      obtain ⟨⟨n, hstage⟩, hA, hpending⟩ := idle_miss false hi hrequest hhit
      rw [← hstep] at hstage hA hpending
      refine .busy hstage hpending hA ?_
      have hor : ((ins t).we || (ins t).rd) = true := hrequest
      simp [ready, CacheCpu.ready, hor]

private theorem serving_busy
    (hstep : tr (t + 2) = (tr (t + 1)).cycle false (ins (t + 1)) (env (t + 1)))
    (hok : HostOk ins tr) (hstage : (tr (t + 1)).Stage M₀ n)
    (hA : (tr (t + 1)).cache.hostA = (ins t).a)
    (hbusy : (tr t).ready (ins t) = false) :
    Serving ins tr ((tr (t + 1)).pending M₀) (t + 2) := by
  obtain ⟨-, hheld⟩ := hok.quiet hstage.state_ne_idle hbusy hA
  by_cases hhit : (tr (t + 1)).cache.state = .HIT
  · refine .idle ?_
    rw [hstep]
    exact (hstage.cycle_hit false (env (t + 1)) hheld hhit).1
  · obtain ⟨⟨n', -, hstage'⟩, hpending', hA', hbusy'⟩ :=
      busy_cycle hstep hok hstage hA hbusy hhit
    exact .busy hstage' hpending' hA' hbusy'

theorem serving_succ (hstep : tr (t + 1) = (tr t).cycle false (ins t) (env t))
    (hok : HostOk ins tr) (hs : Serving ins tr M t) :
    Serving ins tr (respond (ins t) M) (t + 1) := by
  cases hs with
  | idle hi =>
      cases hrequest : (ins t).request with
      | false =>
          refine .idle ?_
          rw [respond_quiet hrequest, hstep]
          exact idle_quiet hi hrequest
      | true => exact serving_request hstep hi hrequest
  | @busy t n M₀ hstage hpending hA hbusy =>
      obtain ⟨hrequest, -⟩ := hok.quiet hstage.state_ne_idle hbusy hA
      rw [respond_quiet hrequest, ← hpending]
      exact serving_busy hstep hok hstage hA hbusy

theorem serving (hrun : IsRun false ins env tr) (hok : HostOk ins tr) (hidle : (tr 0).Idle M)
    (t : Nat) : Serving ins tr (flatMemory M ins t) t := by
  induction t with
  | zero => exact .idle hidle
  | succ t ih => exact serving_succ (hrun t) hok ih

/-- The first cycle with `ready` high after cycle `t` shows `v`. -/
def Responds (ins : Nat → HostIn) (tr : Nat → CacheSystem) (t : Nat) (v : Word) : Prop :=
  ∃ r, t < r ∧ (tr r).ready (ins r) = true ∧
    (∀ u, t < u → u < r → (tr u).ready (ins u) = false) ∧ (tr r).spo = v

private theorem Responds.of_succ {v : Word} (hbusy : (tr (t + 1)).ready (ins (t + 1)) = false)
    (h : Responds ins tr (t + 1) v) : Responds ins tr t v := by
  obtain ⟨r, htr, hready, hfirst, hspo⟩ := h
  refine ⟨r, by omega, hready, fun u htu hur => ?_, hspo⟩
  rcases Nat.lt_or_ge (t + 1) u with hu | hu
  · exact hfirst u hu hur
  · obtain rfl : u = t + 1 := by omega
    exact hbusy

private theorem responds_step (hrun : Serves ins env tr) (hok : HostOk ins tr)
    (hs : (tr (t + 1)).Stage M₀ n) (hA : (tr (t + 1)).cache.hostA = (ins t).a)
    (hbusy : (tr t).ready (ins t) = false)
    (hnext : ∀ n', (n' < n ∨ n' = n ∧ (env (t + 1)).finish = false) →
      (tr (t + 2)).Stage M₀ n' → (tr (t + 2)).cache.hostA = (ins (t + 1)).a →
      (tr (t + 1)).ready (ins (t + 1)) = false →
      Responds ins tr (t + 1) (M₀ (wordIndex (ins (t + 1)).a))) :
    Responds ins tr t (M₀ (wordIndex (ins t).a)) := by
  obtain ⟨hrequest, hheld⟩ := hok.quiet hs.state_ne_idle hbusy hA
  have hbusy' : (tr (t + 1)).ready (ins (t + 1)) = false := ready_eq_false hs.state_ne_idle
  have ha : (ins (t + 1)).a = (ins t).a := hheld.trans hA
  apply Responds.of_succ hbusy'
  by_cases hhit : (tr (t + 1)).cache.state = .HIT
  · obtain ⟨hidle, hspo⟩ := hs.cycle_hit false (env (t + 1)) hheld hhit
    rw [← hrun (t + 1) (.inl hs.state_ne_idle)] at hidle hspo
    have hrequest' : (ins (t + 2)).request = false := by
      by_contra hrequest'
      have := hok.issued (t + 1) (by simpa using hrequest')
      simp [hbusy'] at this
    exact ⟨t + 2, by omega, ready_eq_true hidle.state hrequest', fun u _ _ => by omega,
      by rw [hspo, hA]⟩
  · obtain ⟨⟨n', hless, hstage'⟩, -, hA', -⟩ :=
      busy_cycle (hrun (t + 1) (.inl hs.state_ne_idle)) hok hs hA hbusy hhit
    rw [← ha]
    exact hnext n' hless hstage' hA' hbusy'

/--
A busy cache responds; by induction on the bound of its stage, and for a given
bound on the time to the next progress of the memory.
-/
theorem busy_responds (hrun : Serves ins env tr) (hok : HostOk ins tr)
    (hfair : ∀ t, ∃ u, t ≤ u ∧ (env u).finish = true)
    (hs : (tr (t + 1)).Stage M₀ n) (hA : (tr (t + 1)).cache.hostA = (ins t).a)
    (hbusy : (tr t).ready (ins t) = false) :
    Responds ins tr t (M₀ (wordIndex (ins t).a)) := by
  induction n using Nat.strong_induction_on generalizing t with
  | _ n ihn =>
      obtain ⟨u, htu, hfinish⟩ := hfair (t + 1)
      obtain ⟨d, rfl⟩ : ∃ d, u = t + 1 + d := ⟨u - (t + 1), by omega⟩
      clear htu
      induction d generalizing t with
      | zero =>
          refine responds_step hrun hok hs hA hbusy fun n' hless hs' hA' hbusy' => ?_
          rcases hless with hless | ⟨-, hnot⟩
          · exact ihn n' hless hs' hA' hbusy'
          · rw [Nat.add_zero, hnot] at hfinish
            cases hfinish
      | succ d ihd =>
          refine responds_step hrun hok hs hA hbusy fun n' hless hs' hA' hbusy' => ?_
          rcases hless with hless | ⟨rfl, -⟩
          · exact ihn n' hless hs' hA' hbusy'
          · exact ihd hs' hA' hbusy' (by rwa [show t + 1 + 1 + d = t + 1 + (d + 1) by omega])

theorem request_of_rd (hrd : (ins t).rd = true) : (ins t).request = true := by
  simp [HostIn.request, hrd]

/-- Every request is answered; with a read comes the word before it, and with a write too. -/
theorem Serving.responds (hrun : Serves ins env tr) (hok : HostOk ins tr)
    (hfair : ∀ t, ∃ u, t ≤ u ∧ (env u).finish = true) (hserving : Serving ins tr M t)
    (hrequest : (ins t).request = true) : Responds ins tr t (M (wordIndex (ins t).a)) := by
  have hor : ((ins t).we || (ins t).rd) = true := hrequest
  have hbusy : (tr t).ready (ins t) = false := by simp [ready, CacheCpu.ready, hor]
  cases hserving with
  | idle hi =>
      have hstep := hrun t (.inr hrequest)
      cases hhit : (tr t).cache.wayHit ((tr t).cacheIn (ins t) (env t)) with
      | true =>
          obtain ⟨hidle', hspo⟩ := idle_hit false hi hrequest hhit
          rw [← hstep] at hidle' hspo
          have hrequest' : (ins (t + 1)).request = false := by
            by_contra hrequest'
            have := hok.issued t (by simpa using hrequest')
            simp [hbusy] at this
          exact ⟨t + 1, by omega, ready_eq_true hidle'.state hrequest', fun u _ _ => by omega,
            hspo⟩
      | false =>
          obtain ⟨⟨n, hstage⟩, hA, -⟩ := idle_miss false hi hrequest hhit
          rw [← hstep] at hstage hA
          exact busy_responds hrun hok hfair hstage hA hbusy
  | busy hstage _ hA hbusy' =>
      have := (hok.quiet hstage.state_ne_idle hbusy' hA).1
      rw [hrequest] at this
      cases this

structure Initialised (s : CacheSystem) : Prop where
  state : s.cache.state = .IDLE
  initDone : s.cache.way.initDone = true
  burstWe : s.cache.burstWe = false
  done : s.low.burst = .done
  empty : ∀ i, absLine (s.cache.way.tags i) = none

theorem Initialised.idle (hs : s.Initialised) : s.Idle s.low.mem := by
  have hline (i : LineIndex) : s.lines.line i = none := hs.empty i
  refine ⟨hs.state, hs.initDone, hs.burstWe, hs.done, ⟨?_, ?_⟩, fun b o => ?_⟩
  · intro i b dirty hline'
    rw [hline i] at hline'
    cases hline'
  · intro i b hline'
    rw [hline i] at hline'
    cases hline'
  · have hnot : ¬ s.lines.Holds lineIndex b := by simp [DirectMapped.Holds, hline]
    rw [DirectMapped.view_of_not_holds hnot]
    rfl

/-- During initialisation: the first `k` tags are cleared. -/
structure Clearing (s : CacheSystem) (k : Nat) : Prop where
  state : s.cache.state = .INIT
  initDone : s.cache.way.initDone = false
  count : s.cache.way.count = BitVec.ofNat 8 k
  burstWe : s.cache.burstWe = false
  done : s.low.burst = .done
  empty : ∀ i : LineIndex, i.toNat < k → absLine (s.cache.way.tags i) = none

theorem clearing_of_rst (i : CacheIn) (hrst : i.rst = true) (c : CacheCpu) (low : BurstMemory)
    (hdone : low.burst = .done) : (CacheSystem.mk (c.cycle i) low).Clearing 0 := by
  refine ⟨?_, ?_, ?_, ?_, hdone, fun _ h => absurd h (Nat.not_lt_zero _)⟩ <;>
    simp [CacheCpu.cycle, CacheCpu.fsmReset, CacheWay.cycle, CacheCpu.wayIn, hrst]

private theorem init_low (early : Bool) (h : HostIn) (e : BurstEnv) (hstate : s.cache.state = .INIT)
    (hdone : s.low.burst = .done) :
    (s.cycle early h e).low.burst = .done ∧ (s.cycle early h e).low.mem = s.low.mem := by
  simp [CacheSystem.cycle, BurstMemory.cycle, CacheCpu.lowmemWe, CacheCpu.lowmemRd, hstate, hdone]

private theorem clearing_tags {k : Nat} (hk : k < 256) (hs : s.Clearing k) (i : LineIndex)
    (hi : i.toNat < k + 1) : absLine ((s.cycle early h e).cache.way.tags i) = none := by
  have htags : (s.cycle early h e).cache.way.tags =
      Function.update s.cache.way.tags (BitVec.ofNat 8 k) 0 := by
    simp [CacheSystem.cycle, CacheCpu.cycle, CacheWay.cycle, CacheCpu.wayIn, cacheIn, hs.initDone,
      hs.count]
  rw [htags]
  by_cases hik : i = BitVec.ofNat 8 k
  · rw [hik, Function.update_self]
    decide
  · rw [Function.update_of_ne hik]
    refine hs.empty i ?_
    have hne : i.toNat ≠ k := fun hne => hik (by
      apply BitVec.eq_of_toNat_eq
      simp [hne]
      omega)
    omega

theorem clearing_cycle {k : Nat} (hk : k < 255) (hs : s.Clearing k) :
    (s.cycle early h e).Clearing (k + 1) := by
  have hne : BitVec.ofNat 8 k ≠ 255#8 := by
    intro heq
    have := congrArg BitVec.toNat heq
    simp at this
    omega
  refine ⟨?_, ?_, ?_, ?_, (init_low _ _ _ hs.state hs.done).1, clearing_tags (by omega) hs⟩
  · simp [CacheSystem.cycle, CacheCpu.cycle, CacheCpu.fsm, cacheIn, hs.state, hs.initDone]
  · simp [CacheSystem.cycle, CacheCpu.cycle, CacheWay.cycle, CacheCpu.wayIn, cacheIn, hs.initDone,
      hs.count, hne]
  · simp [CacheSystem.cycle, CacheCpu.cycle, CacheWay.cycle, CacheCpu.wayIn, cacheIn, hs.initDone,
      hs.count, BitVec.ofNat_add]
  · simp [CacheSystem.cycle, CacheCpu.cycle, CacheCpu.fsm, cacheIn, hs.state, hs.initDone,
      hs.burstWe]

/-- Initialisation takes 257 cycles and leaves the memory below as it is. -/
theorem initialised_of_reset {early : Bool} (hrun : IsRun early ins env tr)
    (hreset : (tr 0).Clearing 0) :
    (tr 257).Initialised ∧ (tr 257).low.mem = (tr 0).low.mem := by
  have hclear (k : Nat) (hk : k ≤ 255) :
      (tr k).Clearing k ∧ (tr k).low.mem = (tr 0).low.mem := by
    induction k with
    | zero => exact ⟨hreset, rfl⟩
    | succ k ih =>
        obtain ⟨hs, hmem⟩ := ih (by omega)
        rw [hrun k]
        exact ⟨clearing_cycle (by omega) hs, (init_low _ _ _ hs.state hs.done).2.trans hmem⟩
  obtain ⟨hs, hmem⟩ := hclear 255 le_rfl
  -- the last tag is cleared in cycle 255, and `state` follows `init_done` one cycle later
  have hlast : (tr 256).cache.state = .INIT ∧ (tr 256).cache.way.initDone = true ∧
      (tr 256).cache.burstWe = false := by
    rw [hrun 255]
    refine ⟨?_, ?_, ?_⟩
    · simp [CacheSystem.cycle, CacheCpu.cycle, CacheCpu.fsm, cacheIn, hs.state, hs.initDone]
    · simp [CacheSystem.cycle, CacheCpu.cycle, CacheWay.cycle, CacheCpu.wayIn, cacheIn,
        hs.initDone, hs.count]
    · simp [CacheSystem.cycle, CacheCpu.cycle, CacheCpu.fsm, cacheIn, hs.state, hs.initDone,
        hs.burstWe]
  have hempty (i : LineIndex) : absLine ((tr 256).cache.way.tags i) = none := by
    rw [hrun 255]
    exact clearing_tags (by omega) hs i i.isLt
  obtain ⟨hdone, hmem'⟩ := init_low early (ins 255) (env 255) hs.state hs.done
  rw [← hrun 255] at hdone hmem'
  obtain ⟨hstate, hinit, hburstWe⟩ := hlast
  obtain ⟨hdone', hmem''⟩ := init_low early (ins 256) (env 256) hstate hdone
  rw [← hrun 256] at hdone' hmem''
  refine ⟨⟨?_, ?_, ?_, hdone', fun i => ?_⟩, hmem''.trans (hmem'.trans hmem)⟩
  · rw [hrun 256]
    simp [CacheSystem.cycle, CacheCpu.cycle, CacheCpu.fsm, cacheIn, hstate, hinit]
  · rw [hrun 256]
    simp [CacheSystem.cycle, CacheCpu.cycle, CacheWay.cycle, CacheCpu.wayIn, cacheIn, hinit]
  · rw [hrun 256]
    simp [CacheSystem.cycle, CacheCpu.cycle, CacheCpu.fsm, cacheIn, hstate, hinit, hburstWe]
  · have htags : (tr 257).cache.way.tags = (tr 256).cache.way.tags := by
      rw [hrun 256]
      simp [CacheSystem.cycle, CacheCpu.cycle, CacheWay.cycle, CacheCpu.wayIn, cacheIn,
        CacheCpu.wayControl, hstate, hinit]
    rw [htags]
    exact hempty i

/--
The cache refines a flat memory: in every run after initialisation, for every
host that obeys the protocol and every memory that keeps the burst contract,
samples no word in the first cycle after a pulse and does not stop, the first
ready cycle after a read shows the last value written to the address.
-/
theorem read_responds (hrun : IsRun false ins env tr) (hok : HostOk ins tr)
    (hfair : ∀ t, ∃ u, t ≤ u ∧ (env u).finish = true) (hinit : (tr 0).Initialised) (t : Nat)
    (hrd : (ins t).rd = true) :
    Responds ins tr t (flatMemory (tr 0).low.mem ins t (wordIndex (ins t).a)) :=
  (serving hrun hok hinit.idle t).responds hrun.serves hok hfair (request_of_rd hrd)

end Run

/-! ## Runs on fixed requests -/

def boot : CacheSystem where
  cache :=
    { state := .IDLE
      burstIssue := false
      burstIssueDelayed := false
      burstWbBaseA := 0
      burstWe := false
      hostWeorrd := false
      hostA := 0
      hostD := 0
      xferCnt := 0
      way := { tags := fun _ => 0, initDone := true, count := 0, bram := fun _ => 0, spo := 0 } }
  low := { mem := fun _ => 0, burst := .done, shown := none }

theorem initialised_boot : boot.Initialised := by
  refine ⟨rfl, rfl, rfl, rfl, fun _ => ?_⟩
  have hzero : absLine 0 = none := by decide
  exact hzero

/-- The memory makes progress in every cycle that the contract allows. -/
def eagerEnv (_ : Nat) : BurstEnv where
  take := true
  finish := true
  junk := 0

def runOf (early : Bool) (ins : Nat → HostIn) : Nat → CacheSystem :=
  trace (fun i s => s.cycle early i.1 i.2) (fun t => (ins t, eagerEnv t)) boot

/-- Write 1 to address 4, then read it back. -/
def writeReadIns (t : Nat) : HostIn where
  a := 4
  d := 1
  we := t == 0
  rd := t == 37

theorem read_responds_hit : Responds writeReadIns (runOf false writeReadIns) 37 1 := by
  have hok : HostOk writeReadIns (runOf false writeReadIns) := by
    refine ⟨fun t hrequest => ?_, fun _ _ _ => ⟨rfl, rfl⟩⟩
    obtain rfl : t = 36 := by simpa [HostIn.request, writeReadIns] using hrequest
    decide +kernel
  have hread := read_responds (fun _ => rfl) hok (fun t => ⟨t, le_rfl, rfl⟩) initialised_boot 37
    (by decide)
  have hvalue : flatMemory (runOf false writeReadIns 0).low.mem writeReadIns 37
      (wordIndex (writeReadIns 37).a) = 1 := by decide +kernel
  rwa [hvalue] at hread

/-- Write 1 to address 4, read address 0x8000 of the same line, read address 4 again. -/
def evictIns (t : Nat) : HostIn where
  a := if 37 ≤ t ∧ t < 109 then 0x8000 else 4
  d := 1
  we := t == 0
  rd := t == 37 || t == 109

private theorem hostOk_evictIns : HostOk evictIns (runOf true evictIns) := by
  refine ⟨fun t hrequest => ?_, fun t hquiet _ => ?_⟩
  · have ht : t = 36 ∨ t = 108 := by simpa [HostIn.request, evictIns] using hrequest
    rcases ht with rfl | rfl <;> decide +kernel
  · have ht : t ≠ 36 ∧ t ≠ 108 := by simpa [HostIn.request, evictIns] using hquiet
    refine ⟨?_, rfl⟩
    simp only [evictIns]
    congr 1
    simp only [eq_iff_iff]
    omega

/--
A memory that samples the next word in the first cycle after a pulse samples the
word before it, since the counter and the block RAM are both registered: the
line comes back shifted by one word.
-/
theorem early_sampling_not_flat :
    ¬ ∀ (ins : Nat → HostIn) (env : Nat → BurstEnv) (tr : Nat → CacheSystem),
      IsRun true ins env tr → HostOk ins tr → (∀ t, ∃ u, t ≤ u ∧ (env u).finish = true) →
      (tr 0).Initialised → ∀ t, (ins t).rd = true →
      Responds ins tr t (flatMemory (tr 0).low.mem ins t (wordIndex (ins t).a)) := by
  intro h
  obtain ⟨r, htr, hready, hfirst, hspo⟩ := h evictIns eagerEnv (runOf true evictIns) (fun _ => rfl)
    hostOk_evictIns (fun t => ⟨t, le_rfl, rfl⟩) initialised_boot 109 (by decide)
  have hbusy : ∀ u < 145, 109 < u → (runOf true evictIns u).ready (evictIns u) = false := by
    decide +kernel
  have hdone : (runOf true evictIns 145).ready (evictIns 145) = true := by decide +kernel
  have hr : r = 145 := by
    rcases Nat.lt_trichotomy r 145 with hlt | heq | hgt
    · rw [hbusy r hlt htr] at hready
      cases hready
    · exact heq
    · rw [hfirst 145 (by omega) hgt] at hdone
      cases hdone
  subst hr
  have hzero : (runOf true evictIns 145).spo = 0 := by decide +kernel
  have hone : flatMemory (runOf true evictIns 0).low.mem evictIns 109
      (wordIndex (evictIns 109).a) = 1 := by decide +kernel
  rw [hzero, hone] at hspo
  cases hspo

end CacheSystem

end PComputer.Rtl
