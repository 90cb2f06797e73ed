import PComputer.Rtl.CachedMemory

/-!
# Accesses to the cached memory

Every access is answered, a write as well as a read, and what a read shows stays on `spo`
for another cycle if the address does.  While the cache is idle, the flat memory can be
read off the lines of the cache and the bytes of the chip.
-/

namespace PComputer.Rtl

open PComputer.Foundation

/-! ## One cycle of the cache -/

namespace CacheCpu

variable {c : CacheCpu} {i : CacheIn}

private theorem spo_cycle (c : CacheCpu) (i : CacheIn) :
    (c.cycle i).spo = c.way.bram (CacheWay.bramA (c.wayA i)) := rfl

private theorem wayA_idle (h : c.state = .IDLE) : c.wayA i = i.a := by
  simp [wayA, bursting, h]

private theorem wayA_hit (h : c.state = .HIT) : c.wayA i = c.hostA := by
  simp [wayA, bursting, h]

private theorem bram_cycle (h : (c.wayControl i).we = false) :
    (c.cycle i).way.bram = c.way.bram := by
  have hwe : ((c.wayIn i).en && (c.wayIn i).we) = false := by
    change ((c.wayControl i).en && (c.wayControl i).we) = false
    rw [h, Bool.and_false]
  change (c.way.cycle (c.wayIn i)).bram = c.way.bram
  rw [CacheWay.cycle, hwe]
  rfl

private theorem we_idle (h : c.state = .IDLE) (hwe : i.we = false) :
    (c.wayControl i).we = false := by
  simp only [wayControl, h, hwe]
  split_ifs <;> rfl

private theorem we_hit (h : c.state = .HIT) (hwe : c.hostWeorrd = false) :
    (c.wayControl i).we = false := by
  simp only [wayControl, h, hwe]

structure Busy (c : CacheCpu) (a : Word) (we : Bool) : Prop where
  init : c.state ≠ .INIT
  idle : c.state ≠ .IDLE
  hostA : c.hostA = a
  hostWeorrd : c.hostWeorrd = we

theorem Busy.cycle {a : Word} {we : Bool} (h : c.Busy a we) (hrst : i.rst = false)
    (hidle : (c.cycle i).state ≠ .IDLE) : (c.cycle i).Busy a we := by
  obtain ⟨hinit, hnot, hhostA, hhostWe⟩ := h
  refine ⟨?_, hidle, ?_, ?_⟩
  all_goals
    cases hstate : c.state
    all_goals
      simp only [CacheCpu.cycle, fsm, hrst, hstate, Bool.false_eq_true, if_false] at *
      try split_ifs
      all_goals simp_all

private theorem busy_of_idle (hrst : i.rst = false) (hstate : c.state = .IDLE)
    (hrequest : (i.we || i.rd) = true) (hidle : (c.cycle i).state ≠ .IDLE) :
    (c.cycle i).Busy i.a i.we := by
  refine ⟨?_, hidle, ?_, ?_⟩
  all_goals
    simp only [CacheCpu.cycle, fsm, hrst, hstate, hrequest, Bool.false_eq_true, if_false, if_true]
    split_ifs <;> simp

theorem Busy.hit {a : Word} {we : Bool} (h : c.Busy a we) (hrst : i.rst = false)
    (hidle : (c.cycle i).state = .IDLE) : c.state = .HIT := by
  cases hstate : c.state with
  | HIT => rfl
  | INIT => exact absurd hstate h.init
  | IDLE => exact absurd hstate h.idle
  | LOAD | WRITEBACK =>
      simp only [CacheCpu.cycle, fsm, hrst, hstate, Bool.false_eq_true, if_false] at hidle
      split_ifs at hidle

end CacheCpu

/-! ## Accesses in a run -/

namespace CachedMemory

open CacheSystem

section Run

variable {ins : Nat → HostIn} {wires : Nat → Wires} {tr : Nat → CachedMemory}
variable {region : BitVec 9} {m : ChipBytes} {t r : Nat}

/-- The host makes a request only while the cache is idle, and none in the next cycle. -/
theorem idle_of_request (hrun : IsRun ins wires tr) (hreset : (tr 0).Reset m)
    (hok : Protocol ins tr) (ht : 257 ≤ t) (hrequest : (ins t).request = true) :
    (tr t).cache.state = .IDLE ∧ (ins (t + 1)).request = false := by
  constructor
  · rcases ht.eq_or_lt with rfl | hlt
    · exact (state_of_run hrun hreset).2
    · obtain ⟨u, rfl⟩ := Nat.exists_eq_add_of_le' (show 1 ≤ t by omega)
      obtain ⟨hidle, hquiet⟩ := state_of_ready (hok.issued u (by omega) hrequest)
      have hor : ((ins u).we || (ins u).rd) = false := hquiet
      rw [hrun u]
      simp [cycle, cacheIn, CacheCpu.cycle, CacheCpu.fsm, hidle, hor]
  · by_contra hnext
    have hor : ((ins t).we || (ins t).rd) = true := hrequest
    have hready := hok.issued t ht (by simpa using hnext)
    simp [ready, CacheCpu.ready, hor] at hready

private theorem busy_until (hrun : IsRun ins wires tr) (hreset : (tr 0).Reset m)
    (hok : Protocol ins tr) (ht : 257 ≤ t) (hrequest : (ins t).request = true)
    (hfirst : ∀ u, t < u → u < r → (tr u).ready (ins u) = false) {u : Nat} (htu : t < u)
    (hur : u < r) : (tr u).cache.Busy (ins t).a (ins t).we ∧ (ins u).request = false := by
  obtain ⟨hidle, hnext⟩ := idle_of_request hrun hreset hok ht hrequest
  have hnot {v : Nat} (htv : t < v) (hvr : v < r) (hquiet : (ins v).request = false) :
      (tr v).cache.state ≠ .IDLE := by
    intro hstate
    have hready := (idle_of_quiet hquiet).mpr hstate
    rw [hfirst v htv hvr] at hready
    cases hready
  induction u, htu using Nat.le_induction with
  | base =>
      have hstate := hnot (Nat.lt_succ_self t) hur hnext
      refine ⟨?_, hnext⟩
      rw [hrun t] at hstate ⊢
      exact CacheCpu.busy_of_idle rfl hidle hrequest hstate
  | succ u htu ih =>
      obtain ⟨hbusy, hquiet⟩ := ih (by omega)
      have hnext' : (ins (u + 1)).request = false := by
        by_contra hreq
        have hready := hok.issued u (by omega) (by simpa using hreq)
        rw [hfirst u htu (by omega)] at hready
        cases hready
      have hstate := hnot (by omega) hur hnext'
      refine ⟨?_, hnext'⟩
      rw [hrun u] at hstate ⊢
      exact hbusy.cycle rfl hstate

theorem read_stays (hrun : IsRun ins wires tr) (hreset : (tr 0).Reset m)
    (hok : Protocol ins tr) (ht : 257 ≤ t) (hrd : (ins t).rd = true)
    (hwe : (ins t).we = false) (htr : t < r)
    (hfirst : ∀ u, t < u → u < r → (tr u).ready (ins u) = false)
    (hready : (tr r).ready (ins r) = true) (ha : (ins r).a = (ins t).a) :
    (tr (r + 1)).spo = (tr r).spo := by
  have hrequest : (ins t).request = true := request_of_rd hrd
  obtain ⟨hidle, -⟩ := idle_of_request hrun hreset hok ht hrequest
  obtain ⟨hstate, -⟩ := state_of_ready hready
  obtain ⟨p, rfl⟩ : ∃ p, r = p + 1 := ⟨r - 1, by omega⟩
  have hlast : (tr (p + 1 + 1)).spo =
      (tr (p + 1)).cache.way.bram (CacheWay.bramA (ins (p + 1)).a) := by
    rw [hrun (p + 1)]
    change ((tr (p + 1)).cache.cycle _).spo = _
    rw [CacheCpu.spo_cycle, CacheCpu.wayA_idle hstate]
    rfl
  have hbefore : (tr (p + 1)).cache.way.bram = (tr p).cache.way.bram ∧
      (tr (p + 1)).spo = (tr p).cache.way.bram (CacheWay.bramA (ins t).a) := by
    rcases Nat.lt_succ_iff_lt_or_eq.mp htr with hlt | rfl
    · obtain ⟨hbusy, -⟩ := busy_until hrun hreset hok ht hrequest hfirst hlt (Nat.lt_succ_self p)
      have hhit : (tr p).cache.state = .HIT := by
        rw [hrun p] at hstate
        exact hbusy.hit rfl hstate
      rw [hrun p]
      refine ⟨CacheCpu.bram_cycle (CacheCpu.we_hit hhit (hbusy.hostWeorrd.trans hwe)), ?_⟩
      change ((tr p).cache.cycle _).spo = _
      rw [CacheCpu.spo_cycle, CacheCpu.wayA_hit hhit, hbusy.hostA]
    · rw [hrun t]
      refine ⟨CacheCpu.bram_cycle (CacheCpu.we_idle hidle hwe), ?_⟩
      change ((tr t).cache.cycle _).spo = _
      rw [CacheCpu.spo_cycle, CacheCpu.wayA_idle hidle]
      rfl
  rw [hlast, ha, hbefore.1, hbefore.2]

/-! ## A host that stops -/

/-- The host, which after cycle `last` only waits. -/
def stopped (ins : Nat → HostIn) (last t : Nat) : HostIn :=
  if t ≤ last then ins t else { ins last with we := false, rd := false }

def stoppedRun (ins : Nat → HostIn) (wires : Nat → Wires) (tr : Nat → CachedMemory) (last : Nat) :
    Nat → CachedMemory :=
  trace (fun (i : HostIn × Wires × Wires) s => s.cycle i.1 i.2.1 i.2.2)
    (fun t => (stopped ins last t, wires (2 * t), wires (2 * t + 1))) (tr 0)

/-- Up to cycle `last` the host uses the cache when that is ready, and for the region only. -/
def Careful (region : BitVec 9) (ins : Nat → HostIn) (last : Nat) : Prop :=
  ∀ t, t ≤ last → (ins t).request = true → 257 ≤ t ∧ InRegion region (blockOf (ins t).a)

private theorem stopped_of_le {last : Nat} (h : t ≤ last) : stopped ins last t = ins t := if_pos h

private theorem stopped_of_lt {last : Nat} (h : last < t) :
    stopped ins last t = { ins last with we := false, rd := false } := if_neg (by omega)

private theorem stoppedRun_eq (hrun : IsRun ins wires tr) {last : Nat} (ht : t ≤ last + 1) :
    stoppedRun ins wires tr last t = tr t := by
  induction t with
  | zero => rfl
  | succ t ih =>
      rw [stoppedRun, trace_succ, ← stoppedRun, ih (by omega), stopped_of_le (by omega), hrun t]

private theorem flatMemory_stopped {last : Nat} (M : WordMemory) (ht : t ≤ last + 1) :
    flatMemory M (stopped ins last) t = flatMemory M ins t := by
  induction t with
  | zero => rfl
  | succ t ih => rw [flatMemory, flatMemory, ih (by omega), stopped_of_le (by omega)]

/-- The cache cannot expect more of a host that waits. -/
theorem hostOk_stopped (hrun : IsRun ins wires tr) (hok : Protocol ins tr) {last : Nat}
    (hcareful : Careful region ins last) :
    HostOk region (stopped ins last) (stoppedRun ins wires tr last) where
  issued t ht hrequest := by
    rcases Nat.lt_or_ge t last with hlt | hge
    · rw [stopped_of_le (by omega)] at hrequest
      rw [stopped_of_le (by omega), stoppedRun_eq hrun (by omega)]
      exact hok.issued t ht hrequest
    · rw [stopped_of_lt (by omega)] at hrequest
      cases hrequest
  held t ht hquiet hbusy := by
    rcases Nat.lt_trichotomy t last with hlt | rfl | hgt
    · rw [stopped_of_le (by omega)] at hquiet hbusy
      rw [stoppedRun_eq hrun (by omega)] at hbusy
      rw [stopped_of_le (by omega), stopped_of_le (by omega)]
      exact hok.held t ht hquiet hbusy
    · rw [stopped_of_lt (Nat.lt_succ_self t), stopped_of_le (Nat.le_refl t)]
      exact ⟨rfl, rfl⟩
    · rw [stopped_of_lt (by omega), stopped_of_lt hgt]
      exact ⟨rfl, rfl⟩
  quiet t ht := by
    rcases Nat.lt_or_ge last t with hlt | hge
    · rw [stopped_of_lt hlt]
      rfl
    · rw [stopped_of_le hge]
      by_contra hrequest
      have hle := (hcareful t hge (by simpa using hrequest)).1
      omega
  region t hrequest := by
    rcases Nat.lt_or_ge last t with hlt | hge
    · rw [stopped_of_lt hlt] at hrequest
      cases hrequest
    · rw [stopped_of_le hge] at hrequest ⊢
      exact (hcareful t hge hrequest).2

private theorem ready_quiet {h h' : HostIn} (s : CachedMemory) (hquiet : h.request = false)
    (hquiet' : h'.request = false) : s.ready h = s.ready h' := by
  have hor : (h.we || h.rd) = false := hquiet
  have hor' : (h'.we || h'.rd) = false := hquiet'
  simp [ready, CacheCpu.ready, hor, hor']

private theorem eq_quiet {h h' : HostIn} (hquiet : h'.request = false) (ha : h'.a = h.a)
    (hd : h'.d = h.d) : h' = { h with we := false, rd := false } := by
  rw [← ha, ← hd]
  cases h'
  simpa [HostIn.request] using hquiet

/-- While it is not answered, a host is as good as one that has stopped. -/
theorem stopped_until (hrun : IsRun ins wires tr) (hok : Protocol ins tr) (ht : 257 ≤ t)
    (hrequest : (ins t).request = true)
    (hfirst : ∀ u, t < u → u < r →
      (stoppedRun ins wires tr t u).ready (stopped ins t u) = false) {u : Nat} (htu : t < u)
    (hur : u ≤ r) : stoppedRun ins wires tr t u = tr u ∧ (ins u).request = false ∧
      (u < r → stopped ins t u = ins u) := by
  have hnext {v : Nat} (htv : t ≤ v) (hbusy : (tr v).ready (ins v) = false)
      (ha : (ins v).a = (ins t).a) (hd : (ins v).d = (ins t).d)
      (hsame : stoppedRun ins wires tr t (v + 1) = tr (v + 1)) :
      (ins (v + 1)).request = false ∧ (v + 1 < r → stopped ins t (v + 1) = ins (v + 1)) := by
    have hquiet : (ins (v + 1)).request = false := by
      by_contra hnow
      have hready := hok.issued v (by omega) (by simpa using hnow)
      rw [hbusy] at hready
      cases hready
    have hstop : stopped ins t (v + 1) = { ins t with we := false, rd := false } :=
      stopped_of_lt (by omega)
    refine ⟨hquiet, fun hvr => ?_⟩
    have hbusy' : (tr (v + 1)).ready (ins (v + 1)) = false := by
      rw [← hsame, ← hfirst (v + 1) (by omega) hvr, hstop]
      exact ready_quiet _ hquiet rfl
    obtain ⟨ha', hd'⟩ := hok.held v (by omega) hquiet hbusy'
    rw [hstop]
    exact (eq_quiet hquiet (ha'.trans ha) (hd'.trans hd)).symm
  induction u, htu using Nat.le_induction with
  | base =>
      have hor : ((ins t).we || (ins t).rd) = true := hrequest
      have hsame : stoppedRun ins wires tr t (t + 1) = tr (t + 1) :=
        stoppedRun_eq hrun (Nat.le_refl _)
      exact ⟨hsame, hnext (Nat.le_refl t) (by simp [ready, CacheCpu.ready, hor]) rfl rfl hsame⟩
  | succ u htu ih =>
      obtain ⟨hsame, -, hstopped⟩ := ih (by omega)
      have hheld := hstopped (by omega)
      have hsame' : stoppedRun ins wires tr t (u + 1) = tr (u + 1) := by
        rw [stoppedRun, trace_succ, ← stoppedRun, hsame, hheld, hrun u]
      have hbusy := hfirst u htu (by omega)
      rw [hsame, hheld] at hbusy
      rw [stopped_of_lt (by omega)] at hheld
      exact ⟨hsame', hnext (by omega) hbusy (by rw [← hheld]) (by rw [← hheld]) hsame'⟩

/-- What a host asks for that was careful until then is answered. -/
theorem Careful.answers (hcareful : Careful region ins t) (hrun : IsRun ins wires tr)
    (hreset : (tr 0).Reset m) (hok : Protocol ins tr) (hrequest : (ins t).request = true) :
    Responds ins tr t (flatMemory (initialMem (tr 0) m) ins t (wordIndex (ins t).a)) := by
  have ht := (hcareful t (Nat.le_refl t) hrequest).1
  have hrun' : IsRun (stopped ins t) wires (stoppedRun ins wires tr t) := fun _ => rfl
  have hrequest' : (stopped ins t t).request = true := by
    rw [stopped_of_le (Nat.le_refl t)]
    exact hrequest
  obtain ⟨r, htr, hready, hfirst, hspo⟩ :=
    CachedMemory.answers hrun' hreset (hostOk_stopped hrun hok hcareful) hrequest'
  have huntil {u : Nat} (htu : t < u) (hur : u ≤ r) :=
    stopped_until hrun hok ht hrequest hfirst htu hur
  obtain ⟨hlast, hquiet, -⟩ := huntil htr (Nat.le_refl r)
  rw [hlast] at hready hspo
  refine ⟨r, htr, ?_, fun u htu hur => ?_, ?_⟩
  · rw [← hready]
    exact ready_quiet _ hquiet (state_of_ready hready).2
  · obtain ⟨hsame, -, hstopped⟩ := huntil htu hur.le
    rw [← hsame, ← hstopped hur]
    exact hfirst u htu hur
  · rw [hspo, stopped_of_le (Nat.le_refl t)]
    exact congrFun (flatMemory_stopped _ (Nat.le_succ t)) _

/-! ## The flat memory, read off the state -/

/-- The words of the cache where it has them, those of the chip elsewhere. -/
def view (m : ChipBytes) (s : CachedMemory) (w : BitVec 30) : Word :=
  let b : BlockAddress := w.extractLsb' 5 25
  if (absLine (s.cache.way.tags (lineIndex b))).map Prod.fst = some b then
    s.cache.way.bram (lineIndex b ++ w.extractLsb' 0 5)
  else (s.memory.chip.bytes m).words (w.setWidth 21)

private theorem append_extract_offset (w : BitVec 30) :
    (w.extractLsb' 5 25 : BlockAddress) ++ (w.extractLsb' 0 5 : BlockOffset) = w := by
  apply BitVec.eq_of_getLsbD_eq
  intro k hk
  simp only [BitVec.getLsbD_append, BitVec.getLsbD_extractLsb']
  grind

private theorem append_extract_region {w : BitVec 30} (hw : w.extractLsb' 21 9 = region) :
    region ++ w.setWidth 21 = w := by
  rw [← hw]
  apply BitVec.eq_of_getLsbD_eq
  intro k hk
  simp only [BitVec.getLsbD_append, BitVec.getLsbD_extractLsb', BitVec.getLsbD_setWidth]
  grind

private theorem view_eq_of_hostOk (hrun : IsRun ins wires tr) (hreset : (tr 0).Reset m)
    (hok : HostOk region ins tr) (ht : 257 ≤ t) (hidle : (tr t).cache.state = .IDLE)
    {w : BitVec 30} (hw : w.extractLsb' 21 9 = region) :
    (tr t).view m w = flatMemory (initialMem (tr 0) m) ins t w := by
  obtain ⟨k, rfl⟩ := Nat.exists_eq_add_of_le ht
  have hsound := sound hrun hreset hok k
  obtain ⟨left, hcoupled⟩ := hsound.coupled
  have hserving := hsound.serving
  rw [flatMemory_later hok.quiet]
  generalize flatMemory (initialMem (tr 0) m) (later ins) k = M at hserving
  cases hserving with
  | busy hstage _ _ _ => exact absurd hidle hstage.state_ne_idle
  | idle hi =>
      have hholds := hcoupled.holds hi.done (w.setWidth 21)
      rw [append_extract_region hw, hrun.memory] at hholds
      have hflat := hi.flat.2 (w.extractLsb' 5 25) (w.extractLsb' 0 5)
      rw [append_extract_offset] at hflat
      rw [← hflat, view, ← hholds]
      unfold DirectMapped.view DirectMapped.Holds CacheSystem.lines Rtl.lines later system
      simp only [append_extract_offset]

theorem Careful.view_eq {last : Nat} (hcareful : Careful region ins last)
    (hrun : IsRun ins wires tr) (hreset : (tr 0).Reset m) (hok : Protocol ins tr)
    (hlast : 256 ≤ last) (hidle : (tr (last + 1)).cache.state = .IDLE) {w : BitVec 30}
    (hw : w.extractLsb' 21 9 = region) :
    (tr (last + 1)).view m w = flatMemory (initialMem (tr 0) m) ins (last + 1) w := by
  have hrun' : IsRun (stopped ins last) wires (stoppedRun ins wires tr last) := fun _ => rfl
  have hsame : stoppedRun ins wires tr last (last + 1) = tr (last + 1) :=
    stoppedRun_eq hrun (Nat.le_refl _)
  have hview := view_eq_of_hostOk hrun' hreset (hostOk_stopped hrun hok hcareful)
    (t := last + 1) (by omega) (by rw [hsame]; exact hidle) hw
  rw [hsame] at hview
  rw [hview]
  exact congrFun (flatMemory_stopped _ (Nat.le_refl _)) w

end Run

end CachedMemory

end PComputer.Rtl
