import PComputer.Rtl.SerialBoot

/-!
# Serial boot and the cache

A word that `serialboot` writes behind the cache is what the CPU reads from then
on, and what stays in the memory, if the cache does not hold another word in its
place at that moment.
-/

namespace PComputer.Rtl

open PComputer.Foundation

namespace CacheSystem

variable {h : HostIn} {e : BurstEnv} {s : CacheSystem} {M : WordMemory} {x : BitVec 30} {w : Word}

/-! ## What a miss writes back -/

private theorem WriteBack.bram_eq (hw : s.WriteBack M) (o : BlockOffset) :
    s.cache.way.bram (s.slot ++ o) = M (s.cache.burstWbBaseA ++ o) := by
  have hholds : (s.holding (some (s.cache.burstWbBaseA, true))).Holds lineIndex
      s.cache.burstWbBaseA := by
    have hline : (s.holding (some (s.cache.burstWbBaseA, true))).line
        (lineIndex s.cache.burstWbBaseA) = some (s.cache.burstWbBaseA, true) := by
      rw [hw.home, holding_line]
    exact DirectMapped.holds_of_line hline
  have hview := hw.flat.2 s.cache.burstWbBaseA o
  rw [DirectMapped.view_of_holds hholds, hw.home] at hview
  exact hview

private theorem storeWord_or (mem M : WordMemory) (y x : BitVec 30) (taken : Bool) :
    (if taken then storeWord mem y (M y) else mem) x = mem x ∨
      (if taken then storeWord mem y (M y) else mem) x = M x := by
  cases taken with
  | false => exact .inl rfl
  | true =>
      rw [if_pos rfl, storeWord]
      by_cases hx : x = y
      · rw [if_pos hx, hx]
        exact .inr rfl
      · rw [if_neg hx]
        exact .inl rfl

/-- Every word that is written back is the one that the user of the cache sees. -/
theorem Stage.low_cycle {n : Nat} (hs : s.Stage M n) (h : HostIn) (e : BurstEnv) (x : BitVec 30) :
    (s.cycle false h e).low.mem x = s.low.mem x ∨ (s.cycle false h e).low.mem x = M x := by
  cases hs with
  | writeBackIssue hw hissue _ hdone =>
      left
      simp [CacheSystem.cycle, BurstMemory.cycle, CacheCpu.lowmemWe, CacheCpu.lowmemRd, hissue,
        hw.state, hdone]
  | writeBackRequest hw hissue hdelayed _ _ hspo =>
      have hmem : (s.cycle false h e).low.mem =
          if e.take then
            storeWord s.low.mem (s.cache.burstWbBaseA ++ 0#5) (M (s.cache.burstWbBaseA ++ 0#5))
          else s.low.mem := by
        rw [← hw.bram_eq, ← hspo]
        simp [CacheSystem.cycle, BurstMemory.cycle, CacheCpu.lowmemWe, CacheCpu.lowmemA,
          CacheCpu.lowmemD,
          hw.state, hissue, hdelayed, wordIndex_append_zero]
      rw [hmem]
      exact storeWord_or _ _ _ _ _
  | writeBackBurst k settling taken hw hissue hdelayed hk _ hburst _ hspo =>
      have hwe : s.cache.lowmemWe = false := by simp [CacheCpu.lowmemWe, hdelayed]
      have hrd : s.cache.lowmemRd = false := by simp [CacheCpu.lowmemRd, hw.state]
      have hmem : (s.cycle false h e).low.mem =
          if BurstMemory.sample e settling taken then
            storeWord s.low.mem (s.cache.burstWbBaseA ++ BitVec.ofNat 5 k)
              (M (s.cache.burstWbBaseA ++ BitVec.ofNat 5 k))
          else s.low.mem := by
        cases settling with
        | true => simp [CacheSystem.cycle, BurstMemory.cycle, hwe, hrd, hburst, BurstMemory.sample]
        | false =>
            rw [← hw.bram_eq, ← hspo rfl]
            simp [CacheSystem.cycle, BurstMemory.cycle, hwe, hrd, hburst, CacheCpu.lowmemD,
              append_add _ hk]
      rw [hmem]
      exact storeWord_or _ _ _ _ _
  | writeBackDone hw _ hdelayed _ hdone =>
      left
      simp [CacheSystem.cycle, BurstMemory.cycle, CacheCpu.lowmemWe, CacheCpu.lowmemRd, hdelayed,
        hw.state,
        hdone]
  | loadIssue hl hissue =>
      left
      simp [CacheSystem.cycle, BurstMemory.cycle, CacheCpu.lowmemWe, CacheCpu.lowmemRd, hissue,
        hl.state]
  | loadBurst k hl hissue hk _ _ hburst =>
      left
      simp [CacheSystem.cycle, BurstMemory.cycle, CacheCpu.lowmemWe, CacheCpu.lowmemRd, hissue,
        hl.state, hburst]
      split
      · rfl
      · rfl
  | loadDone hl hissue _ _ _ hdone =>
      left
      simp [CacheSystem.cycle, BurstMemory.cycle, CacheCpu.lowmemWe, CacheCpu.lowmemRd, hissue,
        hl.state, hdone]
  | hit hstate _ _ hdone =>
      left
      simp [CacheSystem.cycle, BurstMemory.cycle, CacheCpu.lowmemWe, CacheCpu.lowmemRd, hstate,
        hdone]

private theorem Idle.low_cycle (hi : s.Idle M) (h : HostIn) (e : BurstEnv) :
    (s.cycle false h e).low.mem = s.low.mem := by
  simp [CacheSystem.cycle, BurstMemory.cycle, CacheCpu.lowmemWe, CacheCpu.lowmemRd, hi.state,
    hi.done]

/-! ## A word that stays -/

structure Keeps (x : BitVec 30) (w : Word) (s : CacheSystem) : Prop where
  low : s.low.mem x = w
  view : (∃ M, s.Idle M ∧ M x = w) ∨ ∃ n M, s.Stage M n ∧ M x = w ∧ s.pending M x = w

private theorem respond_of_ne (hne : h.we = true → wordIndex h.a ≠ x) : respond h M x = M x := by
  unfold respond
  by_cases hwe : h.we = true
  · rw [if_pos hwe, storeWord, if_neg (hne hwe).symm]
  · rw [if_neg hwe]

theorem Keeps.cycle (hk : s.Keeps x w)
    (hheld : s.cache.state ≠ .IDLE → h.a = s.cache.hostA)
    (hne : h.we = true → wordIndex h.a ≠ x) : (s.cycle false h e).Keeps x w := by
  obtain ⟨hlow, hview⟩ := hk
  rcases hview with ⟨M, hi, hM⟩ | ⟨n, M, hs, hM, hpending⟩
  · refine ⟨by rw [hi.low_cycle, hlow], ?_⟩
    have hrespond : respond h M x = w := (respond_of_ne hne).trans hM
    cases hrequest : h.request with
    | false => exact .inl ⟨M, idle_quiet hi hrequest, hM⟩
    | true =>
        cases hhit : s.cache.wayHit (s.cacheIn h e) with
        | true => exact .inl ⟨_, (idle_hit false hi hrequest hhit).1, hrespond⟩
        | false =>
            obtain ⟨⟨n, hstage⟩, -, hpending⟩ := idle_miss false hi hrequest hhit
            exact .inr ⟨n, M, hstage, hM, by rw [hpending, hrespond]⟩
  · have hlow' : (s.cycle false h e).low.mem x = w := by
      rcases hs.low_cycle h e x with hkeep | hback
      · rw [hkeep, hlow]
      · rw [hback, hM]
    have hheld := hheld hs.state_ne_idle
    refine ⟨hlow', ?_⟩
    by_cases hhit : s.cache.state = .HIT
    · exact .inl ⟨_, (hs.cycle_hit false e hheld hhit).1, hpending⟩
    · obtain ⟨n', -, hstage'⟩ := hs.cycle (e := e) hheld hhit
      obtain ⟨hhostA, hhostD, hhostWe, -⟩ := fsm_cycle false h e hs.state_ne_idle
      refine .inr ⟨n', M, hstage', hM, ?_⟩
      rw [pending, hhostA, hhostD, hhostWe]
      exact hpending

end CacheSystem

namespace BootSystem

variable {i : BootIn} {s : BootSystem} {M : WordMemory}

/-! ## Cycles of the system -/

theorem cached_cycle (h : s.boot.transferring i.control = false) :
    (s.cycle i).cached = s.cached.cycle false i.host i.env := by
  have hport : s.memPort i = s.cache.memPort := by
    unfold memPort SerialBoot.memPort
    rw [h, if_neg Bool.false_ne_true]
  unfold cycle cacheIn
  rw [hport]
  rfl

def Fresh (c : CacheCpu) (a w : Word) : Prop :=
  let tag := c.way.tagOut a
  tag.getLsbD 0 = true → blockOf tag = blockOf a → c.way.bram (CacheWay.bramA a) = w

instance (c : CacheCpu) (a w : Word) : Decidable (Fresh c a w) :=
  inferInstanceAs (Decidable (_ → _ → _))

theorem Fresh.data {a w : Word} (h : Fresh s.cache a w)
    (hholds : s.cached.lines.Holds lineIndex (blockOf a)) :
    s.cached.lines.data (lineIndex (blockOf a)) (CacheWay.offset a) = w := by
  have hline : (absLine (s.cache.way.tagOut a)).map Prod.fst = some (blockOf a) := by
    rw [CacheWay.tagOut, index_eq]
    exact hholds
  unfold absLine at hline
  by_cases hvalid : (s.cache.way.tagOut a).getLsbD 0 = true
  · rw [if_pos hvalid] at hline
    have hbram := h hvalid (Option.some.inj hline)
    rw [bramA_eq] at hbram
    exact hbram
  · rw [if_neg hvalid] at hline
    cases hline

def written (i : BootIn) (s : BootSystem) (M : WordMemory) : WordMemory :=
  if s.transfers i then storeWord M (wordIndex s.boot.sbA) s.boot.sbD else M

private theorem idle_transferring (hi : s.cached.Idle M) (hquiet : i.host.request = false)
    (htransferring : s.boot.transferring i.control = true)
    (hfresh : s.transfers i = true → Fresh s.cache s.boot.sbA s.boot.sbD) :
    (s.cycle i).cached.Idle (s.written i M) ∧ (s.cycle i).low.mem = s.written i s.low.mem := by
  have hquiet' : i.host.we = false ∧ i.host.rd = false := by
    simpa [HostIn.request] using hquiet
  have hrd : s.cache.lowmemRd = false := by
    have hstate : s.cache.state = .IDLE := hi.state
    simp [CacheCpu.lowmemRd, hstate]
  have hdone : s.low.burst = .done := hi.done
  have hlow : (s.cycle i).low.mem = s.written i s.low.mem ∧ (s.cycle i).low.burst = .done := by
    unfold cycle memPort SerialBoot.memPort BurstMemory.serve written transfers
    rw [htransferring, if_pos rfl]
    cases hwe : s.boot.sbWe i.control with
    | true => exact ⟨rfl, rfl⟩
    | false =>
        simp only [Bool.false_eq_true, if_false, CacheCpu.memPort, hrd]
        unfold BurstMemory.cycle
        simp only [Bool.false_eq_true, if_false, hdone, and_self]
  obtain ⟨hstate, hburstWe, hinit, htags, hbram⟩ :=
    CacheSystem.cycle_quiet (c := s.cache) (i := s.cacheIn i) hi.state hi.initDone rfl hquiet'
  refine ⟨⟨hstate, hinit, hburstWe.trans hi.burstWe, hlow.2, ?_⟩, hlow.1⟩
  change Flat (Rtl.lines (s.cache.cycle (s.cacheIn i)).way.tags
    (s.cache.cycle (s.cacheIn i)).way.bram (s.cycle i).low.mem) (s.written i M)
  rw [htags, hbram, hlow.1]
  unfold written
  by_cases hwe : s.transfers i = true
  · have hdata := (hfresh hwe).data
    rw [if_pos hwe, if_pos hwe, wordIndex_eq_block, lines_mem]
    refine ⟨DirectMapped.coherent_poke hi.flat.1 hdata, fun b o => ?_⟩
    refine (DirectMapped.view_poke hdata b o).trans ?_
    rw [storeWord]
    simp only [append_offset_inj]
    congr 1
    exact hi.flat.2 b o
  · rw [if_neg hwe, if_neg hwe]
    exact hi.flat

/-! ## Runs -/

/--
The CPU as the host of the cache and of `serialboot`: it makes no request while
`serialboot` is not ready, and starts a transfer only when its last request is
done and without another one at the same time.
-/
structure HostOk (ins : Nat → BootIn) (tr : Nat → BootSystem) : Prop where
  cache : CacheSystem.HostOk (fun t => (ins t).host) fun t => (tr t).cached
  waits : ∀ t, (tr t).boot.ready (ins t).control = false → (ins t).host.request = false
  starts : ∀ t, (ins t).control.we = true →
    (ins t).host.request = false ∧ (tr t).cached.ready (ins t).host = true

structure Initialised (s : BootSystem) : Prop where
  cached : s.cached.Initialised
  began : s.boot.began = false

/-- Every word is transferred where no line holds another word. -/
def AllFresh (ins : Nat → BootIn) (tr : Nat → BootSystem) : Prop :=
  ∀ t, (tr t).transfers (ins t) = true → Fresh (tr t).cache (tr t).boot.sbA (tr t).boot.sbD

/-- The cache serves some flat memory, and is idle from the start of a transfer to its end. -/
structure Sound (ins : Nat → BootIn) (tr : Nat → BootSystem) (t : Nat) : Prop where
  serving : ∃ M, CacheSystem.Serving (fun t => (ins t).host) (fun t => (tr t).cached) M t
  began : (tr t).boot.began = true → ∃ M, (tr t).cached.Idle M

section Run

variable {ins : Nat → BootIn} {tr : Nat → BootSystem} {t : Nat}

theorem Initialised.sound (h : (tr 0).Initialised) : Sound ins tr 0 := by
  refine ⟨⟨_, .idle h.cached.idle⟩, fun hbegan => ?_⟩
  rw [h.began] at hbegan
  cases hbegan

private theorem began_of_transferring (h : (tr t).boot.transferring (ins t).control = true) :
    (tr t).boot.began = true := by
  unfold SerialBoot.transferring at h
  exact (Bool.and_eq_true_iff.mp h).1

theorem HostOk.quiet (hok : HostOk ins tr)
    (htransferring : (tr t).boot.transferring (ins t).control = true) :
    (ins t).host.request = false := by
  apply hok.waits t
  unfold SerialBoot.ready
  rw [htransferring]
  rfl

theorem Sound.transferring (h : Sound ins tr t) (hrun : IsBootRun ins tr) (hok : HostOk ins tr)
    (hfresh : AllFresh ins tr) (htransferring : (tr t).boot.transferring (ins t).control = true) :
    Sound ins tr (t + 1) := by
  obtain ⟨M, hi⟩ := h.began (began_of_transferring htransferring)
  have hidle := (idle_transferring hi (hok.quiet htransferring) htransferring (hfresh t)).1
  rw [← hrun t] at hidle
  exact ⟨⟨_, .idle hidle⟩, fun _ => ⟨_, hidle⟩⟩

private theorem Sound.idle_of_began (h : Sound ins tr t) (hrun : IsBootRun ins tr)
    (hok : HostOk ins tr)
    (htransferring : (tr t).boot.transferring (ins t).control = false)
    (hbegan : (tr (t + 1)).boot.began = true) : ∃ M, (tr (t + 1)).cached.Idle M := by
  have hstarts : (ins t).control.we = true := by
    by_contra hwe
    rw [hrun t] at hbegan
    change (if (ins t).control.rst then false
      else if (ins t).control.we && (ins t).control.a == 2 then true
      else if SerialBoot.finish (ins t).control then false
      else (tr t).boot.began) = true at hbegan
    unfold SerialBoot.transferring at htransferring
    rw [eq_false_of_ne_true hwe] at hbegan
    cases hrst : (ins t).control.rst <;> cases hfinish : SerialBoot.finish (ins t).control <;>
      simp_all
  obtain ⟨hquiet, hready⟩ := hok.starts t hstarts
  obtain ⟨M, hserving⟩ := h.serving
  have hidle : (tr t).cached.Idle M := by
    cases hserving with
    | idle hi => exact hi
    | busy hstage =>
        rw [CacheSystem.ready_eq_false hstage.state_ne_idle] at hready
        cases hready
  refine ⟨M, ?_⟩
  rw [hrun t, cached_cycle htransferring]
  exact CacheSystem.idle_quiet hidle hquiet

theorem Sound.succ (h : Sound ins tr t) (hrun : IsBootRun ins tr) (hok : HostOk ins tr)
    (hfresh : AllFresh ins tr) : Sound ins tr (t + 1) := by
  cases htransferring : (tr t).boot.transferring (ins t).control with
  | true => exact h.transferring hrun hok hfresh htransferring
  | false =>
      obtain ⟨M, hserving⟩ := h.serving
      have hstep : (tr (t + 1)).cached =
          (tr t).cached.cycle false (ins t).host (ins t).env := by
        rw [hrun t, cached_cycle htransferring]
      refine ⟨⟨CacheSystem.respond (ins t).host M, ?_⟩, h.idle_of_began hrun hok htransferring⟩
      exact @CacheSystem.serving_succ _ _ (fun t => (ins t).env) _ _ hstep hok.cache hserving

variable (hrun : IsBootRun ins tr) (hok : HostOk ins tr) (hinit : (tr 0).Initialised)
  (hfresh : AllFresh ins tr)

include hrun hok hinit hfresh

theorem sound (t : Nat) : Sound ins tr t := by
  induction t with
  | zero => exact hinit.sound
  | succ t ih => exact ih.succ hrun hok hfresh

private theorem not_transferring (h : (tr t).cache.state ≠ .IDLE ∨ (ins t).host.request = true) :
    (tr t).boot.transferring (ins t).control = false := by
  cases htransferring : (tr t).boot.transferring (ins t).control with
  | false => rfl
  | true =>
      rcases h with hstate | hrequest
      · obtain ⟨M, hi⟩ := (sound hrun hok hinit hfresh t).began
          (began_of_transferring htransferring)
        exact absurd hi.state hstate
      · have hquiet := hok.quiet htransferring
        rw [hrequest] at hquiet
        cases hquiet

theorem serves : CacheSystem.Serves (fun t => (ins t).host) (fun t => (ins t).env)
    fun t => (tr t).cached := by
  intro t h
  change (tr (t + 1)).cached = _
  rw [hrun t, cached_cycle (not_transferring hrun hok hinit hfresh h)]

theorem idle_of_request (hrd : (ins t).host.rd = true) : (tr t).cache.state = .IDLE := by
  obtain ⟨M, hserving⟩ := (sound hrun hok hinit hfresh t).serving
  cases hserving with
  | idle hi => exact hi.state
  | busy hstage _ hA hbusy =>
      obtain ⟨hquiet, -⟩ := hok.cache.quiet hstage.state_ne_idle hbusy hA
      change ((ins _).host.we || (ins _).host.rd) = false at hquiet
      rw [hrd, Bool.or_true] at hquiet
      cases hquiet

private theorem keeps_of_transfers (htransfers : (tr t).transfers (ins t) = true) :
    (tr (t + 1)).cached.Keeps (wordIndex (tr t).boot.sbA) (tr t).boot.sbD := by
  have htransferring : (tr t).boot.transferring (ins t).control = true := by
    unfold transfers SerialBoot.sbWe at htransfers
    exact (Bool.and_eq_true_iff.mp htransfers).2
  have hquiet := hok.quiet htransferring
  obtain ⟨M, hi⟩ := (sound hrun hok hinit hfresh t).began (began_of_transferring htransferring)
  obtain ⟨hidle, hlow⟩ := idle_transferring hi hquiet htransferring (hfresh t)
  have hwritten (N : WordMemory) :
      (tr t).written (ins t) N (wordIndex (tr t).boot.sbA) = (tr t).boot.sbD := by
    unfold written
    rw [if_pos htransfers, storeWord_self]
  rw [← hrun t] at hidle hlow
  refine ⟨?_, .inl ⟨_, hidle, hwritten M⟩⟩
  change (tr (t + 1)).low.mem _ = _
  rw [hlow, hwritten]

def Overwrites (x : BitVec 30) (i : BootIn) (s : BootSystem) : Prop :=
  i.host.we = true ∧ wordIndex i.host.a = x ∨ s.transfers i = true ∧ wordIndex s.boot.sbA = x

omit hrun hok hinit hfresh in
private theorem written_of_not_overwrites {x : BitVec 30} {i : BootIn} {s : BootSystem}
    {N : WordMemory}
    (h : ¬Overwrites x i s) : s.written i N x = N x := by
  unfold written
  by_cases htransfers : s.transfers i = true
  · rw [if_pos htransfers, storeWord, if_neg fun hx => h (.inr ⟨htransfers, hx.symm⟩)]
  · rw [if_neg htransfers]

private theorem keeps_succ {x : BitVec 30} {w : Word} (hk : (tr t).cached.Keeps x w)
    (hfree : ¬Overwrites x (ins t) (tr t)) : (tr (t + 1)).cached.Keeps x w := by
  cases htransferring : (tr t).boot.transferring (ins t).control with
  | true =>
      have hquiet := hok.quiet htransferring
      obtain ⟨hlow, ⟨M, hi, hM⟩ | ⟨n, M, hstage, -⟩⟩ := hk
      · obtain ⟨hidle, hlow'⟩ := idle_transferring hi hquiet htransferring (hfresh t)
        rw [← hrun t] at hidle hlow'
        refine ⟨?_, .inl ⟨_, hidle, (written_of_not_overwrites hfree).trans hM⟩⟩
        change (tr (t + 1)).low.mem x = w
        rw [hlow', written_of_not_overwrites hfree]
        exact hlow
      · obtain ⟨M', hi⟩ := (sound hrun hok hinit hfresh t).began
          (began_of_transferring htransferring)
        exact absurd hi.state hstage.state_ne_idle
  | false =>
      rw [hrun t, cached_cycle htransferring]
      refine hk.cycle (fun hstate => ?_) fun hwe hx => hfree (.inl ⟨hwe, hx⟩)
      obtain ⟨M, hserving⟩ := (sound hrun hok hinit hfresh t).serving
      cases hserving with
      | idle hi => exact absurd hi.state hstate
      | busy hstage _ hA hbusy => exact (hok.cache.quiet hstate hbusy hA).2

private theorem keeps_of_transfer {u : Nat} (htransfers : (tr t).transfers (ins t) = true)
    (htu : t < u)
    (hfree : ∀ v, t < v → v < u → ¬Overwrites (wordIndex (tr t).boot.sbA) (ins v) (tr v)) :
    (tr u).cached.Keeps (wordIndex (tr t).boot.sbA) (tr t).boot.sbD := by
  obtain ⟨d, rfl⟩ := Nat.exists_eq_add_of_lt htu
  induction d with
  | zero => exact keeps_of_transfers hrun hok hinit hfresh htransfers
  | succ d ih =>
      refine keeps_succ hrun hok hinit hfresh (ih (by omega) fun v htv hvu => ?_)
        (hfree _ (by omega) (by omega))
      exact hfree v htv (by omega)

/--
A transferred word is in the memory, and is what the CPU reads, until somebody
writes to its place again: in every run in which no word is transferred to where
a line holds another one.
-/
theorem transfer_coherent (hfair : ∀ t, ∃ u, t ≤ u ∧ (ins u).env.finish = true) {u : Nat}
    (htransfers : (tr t).transfers (ins t) = true) (htu : t < u)
    (hfree : ∀ v, t < v → v < u → ¬Overwrites (wordIndex (tr t).boot.sbA) (ins v) (tr v)) :
    (tr u).low.mem (wordIndex (tr t).boot.sbA) = (tr t).boot.sbD ∧
      ((ins u).host.rd = true → wordIndex (ins u).host.a = wordIndex (tr t).boot.sbA →
        CacheSystem.Responds (fun t => (ins t).host) (fun t => (tr t).cached) u
          (tr t).boot.sbD) := by
  obtain ⟨hlow, hview⟩ := keeps_of_transfer hrun hok hinit hfresh htransfers htu hfree
  refine ⟨hlow, fun hrd ha => ?_⟩
  have hserves := serves hrun hok hinit hfresh
  rcases hview with ⟨M, hi, hM⟩ | ⟨n, M, hstage, -⟩
  · have hrequest : (ins u).host.request = true := by simp [HostIn.request, hrd]
    have hresponds := CacheSystem.Serving.responds hserves hok.cache hfair (.idle hi) hrequest
    rw [ha, hM] at hresponds
    exact hresponds
  · exact absurd (idle_of_request hrun hok hinit hfresh hrd) hstage.state_ne_idle

end Run

/-! ### Concrete runs -/

def start : BootSystem where
  boot :=
    { began := false, uartByteCnt := 0, uartByte := fun _ => 0, uartReadyPrev := false,
      memStartAddr := 0 }
  cache := CacheSystem.boot.cache
  low := CacheSystem.boot.low

private theorem initialised_start : start.Initialised := ⟨CacheSystem.initialised_boot, rfl⟩

/--
Read address 0x80 or another one; from cycle 40 on transfer the word 0x11111111
to address 0x80; read there in cycle 62.
-/
def transferIns (first : Word) (t : Nat) : BootIn where
  host := { a := if t < 40 then first else 0x80, d := 0, we := false, rd := t == 0 || t == 62 }
  control :=
    { rst := false
      a := if t = 40 then 1 else 2
      d := 0x80000000
      we := t == 40 || t == 41
      uartData := if 42 ≤ t ∧ t < 60 then 0x31 else 0x20
      uartReady := decide (43 ≤ t) && decide (t ≤ 57) && t % 2 == 1 }
  env := CacheSystem.eagerEnv t

def transferRun (first : Word) : Nat → BootSystem :=
  trace (fun i s => s.cycle i) (transferIns first) start

private theorem hostOk_transferIns {first : Word}
    (h40 : (transferRun first 40).cached.ready (transferIns first 40).host = true)
    (h41 : (transferRun first 41).cached.ready (transferIns first 41).host = true)
    (h61 : (transferRun first 61).cached.ready (transferIns first 61).host = true) :
    HostOk (transferIns first) (transferRun first) := by
  refine ⟨⟨fun t hrequest => ?_, fun t _ hbusy => ⟨?_, rfl⟩⟩, fun t hwaits => ?_, fun t hwe => ?_⟩
  · obtain rfl : t = 61 := by simpa [HostIn.request, transferIns] using hrequest
    exact h61
  · have ht : t ≠ 39 := by
      rintro rfl
      exact absurd (h40.symm.trans hbusy) (by decide)
    change (if t + 1 < 40 then first else 0x80) = if t < 40 then first else 0x80
    congr 1
    apply propext
    omega
  · by_contra hrequest
    have ht : t = 0 ∨ t = 62 := by
      have himp : ¬t = 0 → t = 62 := by simpa [HostIn.request, transferIns] using hrequest
      omega
    have hfinish : SerialBoot.finish (transferIns first t).control = true := by
      rcases ht with rfl | rfl <;> rfl
    unfold SerialBoot.ready SerialBoot.transferring at hwaits
    rw [hfinish, Bool.not_true, Bool.and_false] at hwaits
    cases hwaits
  · have ht : t = 40 ∨ t = 41 := by simpa [transferIns] using hwe
    rcases ht with rfl | rfl
    · exact ⟨rfl, h40⟩
    · exact ⟨rfl, h41⟩

private theorem transferIns_free {first : Word} {x : BitVec 30}
    (hquiet : ∀ v < 62, 58 < v → (transferRun first v).transfers (transferIns first v) = false) :
    ∀ v, 58 < v → v < 62 → ¬Overwrites x (transferIns first v) (transferRun first v) := by
  rintro v hv hu (⟨hwe, -⟩ | ⟨htransfers, -⟩)
  · cases hwe
  · rw [hquiet v hu hv] at htransfers
    cases htransfers

/-- The other address has the same line: the read in cycle 62 is a miss. -/
theorem transfer_coherent_miss :
    CacheSystem.Responds (fun t => (transferIns 0x8080 t).host)
      (fun t => (transferRun 0x8080 t).cached) 62 0x11111111 := by
  have hok : HostOk (transferIns 0x8080) (transferRun 0x8080) :=
    hostOk_transferIns (by decide +kernel) (by decide +kernel) (by decide +kernel)
  have hfresh : AllFresh (transferIns 0x8080) (transferRun 0x8080) := by
    intro t htransfers
    have ht : t < 60 := by
      by_contra hlate
      have hdata : uartDataBin (transferIns 0x8080 t).control.uartData = none := by
        have hlast : ¬(42 ≤ t ∧ t < 60) := by omega
        simp only [transferIns, if_neg hlast]
        rfl
      unfold transfers SerialBoot.sbWe at htransfers
      rw [hdata] at htransfers
      simp at htransfers
    have hall : ∀ t < 60, (transferRun 0x8080 t).transfers (transferIns 0x8080 t) = true →
        Fresh (transferRun 0x8080 t).cache (transferRun 0x8080 t).boot.sbA
          (transferRun 0x8080 t).boot.sbD := by
      decide +kernel
    exact hall t ht htransfers
  obtain ⟨-, hreads⟩ := transfer_coherent (t := 58) (u := 62) (fun _ => rfl) hok initialised_start
    hfresh (fun t => ⟨t, le_rfl, rfl⟩) (by decide +kernel) (by decide)
      (transferIns_free (by decide +kernel))
  have hresponds := hreads rfl (by decide +kernel)
  have hword : (transferRun 0x8080 58).boot.sbD = 0x11111111 := by decide +kernel
  rwa [hword] at hresponds

/-- A line that holds the old word answers with it. -/
theorem transfer_not_coherent :
    ¬ ∀ (ins : Nat → BootIn) (tr : Nat → BootSystem), IsBootRun ins tr → HostOk ins tr →
      (tr 0).Initialised → (∀ t, ∃ u, t ≤ u ∧ (ins u).env.finish = true) → ∀ t u,
      (tr t).transfers (ins t) = true → t < u →
      (∀ v, t < v → v < u → ¬Overwrites (wordIndex (tr t).boot.sbA) (ins v) (tr v)) →
      (ins u).host.rd = true → wordIndex (ins u).host.a = wordIndex (tr t).boot.sbA →
      CacheSystem.Responds (fun t => (ins t).host) (fun t => (tr t).cached) u
        (tr t).boot.sbD := by
  intro h
  have hok : HostOk (transferIns 0x80) (transferRun 0x80) :=
    hostOk_transferIns (by decide +kernel) (by decide +kernel) (by decide +kernel)
  obtain ⟨r, htr, hready, hfirst, hspo⟩ := h (transferIns 0x80) (transferRun 0x80) (fun _ => rfl)
    hok initialised_start (fun t => ⟨t, le_rfl, rfl⟩) 58 62 (by decide +kernel) (by decide)
      (transferIns_free (by decide +kernel)) rfl (by decide +kernel)
  have hdone : (transferRun 0x80 63).cached.ready (transferIns 0x80 63).host = true := by
    decide +kernel
  have hr : r = 63 := by
    by_contra hne
    exact absurd (hdone.symm.trans (hfirst 63 (by decide) (by omega))) (by decide)
  subst hr
  have hword : (transferRun 0x80 58).boot.sbD = 0x11111111 := by decide +kernel
  have hold : (transferRun 0x80 63).cached.spo = 0 := by decide +kernel
  rw [hword] at hspo
  exact absurd (hold.symm.trans hspo) (by decide)

end BootSystem

end PComputer.Rtl
