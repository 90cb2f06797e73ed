import PComputer.Rtl.CacheStages

/-!
# One cycle of a cache miss

Each stage of a miss is followed by the next stage, or by itself while the
memory is not done.  In each of them the lines change by steps of the
write-back cache that keep the view.
-/

namespace PComputer.Rtl

open PComputer.Foundation

namespace CacheSystem

variable {early : Bool} {h : HostIn} {e : BurstEnv} {s : CacheSystem} {M : WordMemory}

def newTag (a : Word) : Word := blockOf a ++ 0#4 ++ 0#1 ++ 0#1 ++ 1#1

private theorem absLine_newTag (a : Word) : absLine (newTag a) = some (blockOf a, false) := by
  obtain ⟨hvalid, hdirty, hblock⟩ := tag_fields (blockOf a) false true
  exact (if_pos hvalid).trans (by rw [newTag]; exact congrArg some (Prod.ext hblock hdirty))

private theorem way_cycle_WRITEBACK (early : Bool) (h : HostIn) (e : BurstEnv)
    (hstate : s.cache.state = .WRITEBACK)
    (hinit : s.cache.way.initDone = true) :
    (s.cycle early h e).cache.way =
      { s.cache.way with
        tags :=
          if s.cache.burstIssue then
            Function.update s.cache.way.tags (lineIndex s.cache.burstWbBaseA) (newTag h.a)
          else s.cache.way.tags
        spo := s.cache.way.bram
          (lineIndex s.cache.burstWbBaseA ++ s.cache.xferCnt.extractLsb' 0 5) } := by
  simp [cycle, CacheCpu.cycle, CacheWay.cycle, CacheCpu.wayIn, CacheCpu.wayControl,
    CacheCpu.wayA, CacheCpu.bursting, CacheCpu.burstWbA, CacheCpu.wayTagIn, cacheIn, newTag,
    bramA_eq, index_eq, blockOf_append, offset_append, hstate, hinit]

private theorem way_cycle_LOAD (early : Bool) (h : HostIn) (e : BurstEnv)
    (hstate : s.cache.state = .LOAD)
    (hinit : s.cache.way.initDone = true) :
    (s.cycle early h e).cache.way =
      { s.cache.way with
        tags :=
          if s.cache.burstIssue then Function.update s.cache.way.tags s.slot (newTag h.a)
          else s.cache.way.tags
        bram :=
          if s.cache.burstWe then
            Function.update s.cache.way.bram (s.slot ++ s.cache.xferCnt.extractLsb' 0 5)
              (s.low.spo e)
          else s.cache.way.bram
        spo := s.cache.way.bram (s.slot ++ s.cache.xferCnt.extractLsb' 0 5) } := by
  simp [cycle, CacheCpu.cycle, CacheWay.cycle, CacheCpu.wayIn, CacheCpu.wayControl,
    CacheCpu.wayA, CacheCpu.wayD, CacheCpu.bursting, CacheCpu.burstLdA, CacheCpu.wayTagIn, cacheIn,
    newTag, bramA_eq, index_eq, blockOf_append, offset_append, slot, block, hstate, hinit]

theorem fsm_cycle (early : Bool) (h : HostIn) (e : BurstEnv) (hstate : s.cache.state ≠ .IDLE) :
    (s.cycle early h e).cache.hostA = s.cache.hostA ∧
      (s.cycle early h e).cache.hostD = s.cache.hostD ∧
      (s.cycle early h e).cache.hostWeorrd = s.cache.hostWeorrd ∧
      (s.cycle early h e).cache.burstWbBaseA = s.cache.burstWbBaseA ∧
      (s.cycle early h e).cache.burstIssueDelayed = s.cache.burstIssue := by
  simp only [cycle, CacheCpu.cycle, cacheIn, Bool.false_eq_true, if_false, and_true]
  unfold CacheCpu.fsm
  cases hs : s.cache.state with
  | IDLE => exact absurd hs hstate
  | HIT => exact ⟨rfl, rfl, rfl, rfl⟩
  | INIT | WRITEBACK | LOAD => dsimp only; split_ifs <;> exact ⟨rfl, rfl, rfl, rfl⟩

/-! ## Lines of the next state -/

variable {s' : CacheSystem}

private theorem holding_congr (hslot : s'.slot = s.slot)
    (htags : ∀ i, i ≠ s.slot → s'.cache.way.tags i = s.cache.way.tags i)
    (hbram : s'.cache.way.bram = s.cache.way.bram) (hmem : s'.low.mem = s.low.mem)
    (l : Option (BlockAddress × Bool)) : s'.holding l = s.holding l := by
  simp only [holding, lines, Rtl.lines, hslot, hbram, hmem, DirectMapped.mk.injEq, and_true]
  funext i
  by_cases hi : i = s.slot
  · simp [hi]
  · simp [hi, htags i hi]

private theorem holding_spill (hslot : s'.slot = s.slot)
    (htags : s'.cache.way.tags = s.cache.way.tags)
    (hbram : s'.cache.way.bram = s.cache.way.bram) {b : BlockAddress} {o : BlockOffset}
    (hhome : lineIndex b = s.slot)
    (hmem : s'.low.mem = storeWord s.low.mem (b ++ o) (s.cache.way.bram (s.slot ++ o)))
    (l : Option (BlockAddress × Bool)) :
    s'.holding l = (s.holding l).spill lineIndex b o := by
  simp only [holding, lines, hslot, hbram, htags, hmem, lines_mem, DirectMapped.spill, hhome]
  rfl

private theorem holding_fill (hslot : s'.slot = s.slot)
    (htags : s'.cache.way.tags = s.cache.way.tags)
    {o : BlockOffset} {v : Word}
    (hbram : s'.cache.way.bram = Function.update s.cache.way.bram (s.slot ++ o) v)
    (hmem : s'.low.mem = s.low.mem) (l : Option (BlockAddress × Bool)) :
    s'.holding l = (s.holding l).fill s.slot o v := by
  simp only [holding, lines, hslot, hbram, htags, hmem, lines_bram]
  rfl

@[simp] theorem holding_line (l : Option (BlockAddress × Bool)) :
    (s.holding l).line s.slot = l := by
  simp [holding]

theorem WriteBack.spill (hw : s.WriteBack M) {b : BlockAddress} (hb : b = s.cache.burstWbBaseA)
    (o : BlockOffset) :
    Flat ((s.holding (some (b, true))).spill lineIndex b o) M := by
  subst hb
  have hline : (s.holding (some (s.cache.burstWbBaseA, true))).line
      (lineIndex s.cache.burstWbBaseA) = some (s.cache.burstWbBaseA, true) := by
    rw [hw.home, holding_line]
  exact hw.flat.of_view (DirectMapped.coherent_spill hw.flat.1 hline o)
    (DirectMapped.view_spill (DirectMapped.holds_of_line hline) o)

theorem Load.fill (hl : s.Load M) (o : BlockOffset) (v : Word) :
    Flat ((s.holding none).fill s.slot o v) M :=
  hl.flat.of_view (DirectMapped.coherent_fill hl.flat.1 (holding_line none) o v)
    (DirectMapped.view_fill (holding_line none) o v)

private theorem block_cycle (early : Bool) (h : HostIn) (e : BurstEnv)
    (hstate : s.cache.state ≠ .IDLE) :
    (s.cycle early h e).block = s.block ∧ (s.cycle early h e).slot = s.slot := by
  obtain ⟨hA, -⟩ := fsm_cycle early h e hstate
  simp [slot, block, hA]

/-! ## Write-back -/

theorem WriteBack.next (hw : s.WriteBack M)
    (hstate : (s.cycle early h e).cache.state = .WRITEBACK)
    (hburstWe : (s.cycle early h e).cache.burstWe = false)
    (hflat : Flat ((s.cycle early h e).holding (some (s.cache.burstWbBaseA, true))) M) :
    (s.cycle early h e).WriteBack M := by
  have hbusy : s.cache.state ≠ .IDLE := by simp [hw.state]
  obtain ⟨-, -, -, hbase, -⟩ := fsm_cycle early h e hbusy
  refine ⟨hstate, ?_, hburstWe, ?_, by rw [hbase]; exact hflat⟩
  · rw [way_cycle_WRITEBACK early h e hw.state hw.initDone]
    exact hw.initDone
  · rw [hbase, (block_cycle early h e hbusy).2]
    exact hw.home

private theorem WriteBack.flat_keep (hw : s.WriteBack M)
    (hmem : (s.cycle early h e).low.mem = s.low.mem) :
    Flat ((s.cycle early h e).holding (some (s.cache.burstWbBaseA, true))) M := by
  have hway := way_cycle_WRITEBACK early h e hw.state hw.initDone
  have hbusy : s.cache.state ≠ .IDLE := by simp [hw.state]
  rw [holding_congr (block_cycle early h e hbusy).2 ?_ (by rw [hway]) hmem]
  · exact hw.flat
  · intro i hi
    rw [hway]
    dsimp only
    split_ifs
    · rw [hw.home, Function.update_of_ne hi]
    · rfl

private theorem WriteBack.flat_sample (hw : s.WriteBack M) (hissue : s.cache.burstIssue = false)
    {o : BlockOffset}
    (hmem : (s.cycle early h e).low.mem =
      storeWord s.low.mem (s.cache.burstWbBaseA ++ o) (s.cache.way.bram (s.slot ++ o))) :
    Flat ((s.cycle early h e).holding (some (s.cache.burstWbBaseA, true))) M := by
  have hway := way_cycle_WRITEBACK early h e hw.state hw.initDone
  have hbusy : s.cache.state ≠ .IDLE := by simp [hw.state]
  rw [holding_spill (block_cycle early h e hbusy).2 (by rw [hway, hissue]; rfl) (by rw [hway])
    hw.home hmem]
  exact hw.spill rfl o

private theorem writeBackIssue_cycle (hw : s.WriteBack M) (hissue : s.cache.burstIssue = true)
    (hxfer : s.cache.xferCnt = 0#16) (hdone : s.low.burst = .done) :
    Advances e (s.cycle early h e) M 300 := by
  have hbusy : s.cache.state ≠ .IDLE := by simp [hw.state]
  obtain ⟨-, -, -, -, hdelayed⟩ := fsm_cycle early h e hbusy
  have hfsm : (s.cycle early h e).cache.state = .WRITEBACK ∧
      (s.cycle early h e).cache.burstIssue = false ∧
      (s.cycle early h e).cache.xferCnt = 0#16 ∧
      (s.cycle early h e).cache.burstWe = s.cache.burstWe := by
    simp [cycle, CacheCpu.cycle, CacheCpu.fsm, cacheIn, hw.state, hissue]
  have hlow : (s.cycle early h e).low.mem = s.low.mem ∧
      (s.cycle early h e).low.burst = .done := by
    simp [cycle, BurstMemory.cycle, CacheCpu.lowmemWe, CacheCpu.lowmemRd, hw.state, hissue, hdone]
  refine ⟨_, .inl (by omega),
    .writeBackRequest (hw.next hfsm.1 (hfsm.2.2.2.trans hw.burstWe) (hw.flat_keep hlow.1))
    hfsm.2.1 (hdelayed.trans hissue) hfsm.2.2.1 hlow.2 ?_⟩
  rw [way_cycle_WRITEBACK early h e hw.state hw.initDone, (block_cycle early h e hbusy).2, hxfer,
    hw.home]
  rfl

private theorem writeBackRequest_cycle (hw : s.WriteBack M) (hissue : s.cache.burstIssue = false)
    (hdelayed : s.cache.burstIssueDelayed = true) (hxfer : s.cache.xferCnt = 0#16)
    (hspo : s.cache.way.spo = s.cache.way.bram (s.slot ++ 0#5)) :
    Advances e (s.cycle early h e) M 299 := by
  have hbusy : s.cache.state ≠ .IDLE := by simp [hw.state]
  obtain ⟨-, -, -, hbase, hdelayed'⟩ := fsm_cycle early h e hbusy
  have hway := way_cycle_WRITEBACK early h e hw.state hw.initDone
  have hslot := (block_cycle early h e hbusy).2
  have hwe : s.cache.lowmemWe = true := by
    simp [CacheCpu.lowmemWe, hw.state, hdelayed, hissue]
  have hfsm : (s.cycle early h e).cache.state = .WRITEBACK ∧
      (s.cycle early h e).cache.burstIssue = false ∧
      (s.cycle early h e).cache.xferCnt = 0#16 ∧
      (s.cycle early h e).cache.burstWe = s.cache.burstWe := by
    simp [cycle, CacheCpu.cycle, CacheCpu.fsm, cacheIn, BurstMemory.ready, hwe, hw.state, hissue,
      hxfer]
  have hburst : (s.cycle early h e).low.burst =
      .write ((s.cycle early h e).cache.burstWbBaseA ++ 0#5) 0 false e.take := by
    rw [hbase]
    simp [cycle, BurstMemory.cycle, hwe, CacheCpu.lowmemA, hw.state, wordIndex_append_zero]
  have hmem : (s.cycle early h e).low.mem =
      if e.take then
        storeWord s.low.mem (s.cache.burstWbBaseA ++ 0#5) (s.cache.way.bram (s.slot ++ 0#5))
      else s.low.mem := by
    simp [cycle, BurstMemory.cycle, hwe, CacheCpu.lowmemA, CacheCpu.lowmemD, hw.state, hspo,
      wordIndex_append_zero]
  have hflat : Flat ((s.cycle early h e).holding (some (s.cache.burstWbBaseA, true))) M := by
    by_cases htake : e.take
    · exact hw.flat_sample hissue (hmem.trans (if_pos htake))
    · exact hw.flat_keep (hmem.trans (if_neg htake))
  refine ⟨_, .inl (by simp),
    .writeBackBurst 0 false e.take (hw.next hfsm.1 (hfsm.2.2.2.trans hw.burstWe) hflat)
    hfsm.2.1 (hdelayed'.trans hissue) (by omega) hfsm.2.2.1 hburst (by simp) (fun _ => ?_) ?_⟩
  · rw [hway, hslot, hxfer, hw.home]
    rfl
  · intro o ho
    cases htake : e.take with
    | false =>
        rw [htake] at ho
        exact absurd ho (Nat.not_lt_zero _)
    | true =>
        have ho' : o = 0#5 := by
          apply BitVec.eq_of_toNat_eq
          rw [htake, Bool.toNat_true] at ho
          simpa using ho
        rw [hway, hslot, hbase, hmem, if_pos htake, ho', storeWord_self]

private theorem writeBack_sample (early : Bool) (h : HostIn) (e : BurstEnv) (hw : s.WriteBack M)
    (hissue : s.cache.burstIssue = false)
    (hdelayed : s.cache.burstIssueDelayed = false) {k : Nat} {taken : Bool} (hk : k < 32)
    (hburst : s.low.burst = .write (s.cache.burstWbBaseA ++ 0#5) k false taken)
    (hspo : s.cache.way.spo = s.cache.way.bram (s.slot ++ BitVec.ofNat 5 k))
    (hspilled : ∀ o : BlockOffset, o.toNat < k + taken.toNat →
      s.cache.way.bram (s.slot ++ o) = s.low.mem (s.cache.burstWbBaseA ++ o)) :
    Flat ((s.cycle early h e).holding (some (s.cache.burstWbBaseA, true))) M ∧
      ∀ o : BlockOffset, o.toNat < k + (taken || e.take || e.finish).toNat →
        s.cache.way.bram (s.slot ++ o) =
          (s.cycle early h e).low.mem (s.cache.burstWbBaseA ++ o) := by
  have hwe : s.cache.lowmemWe = false := by simp [CacheCpu.lowmemWe, hdelayed]
  have hrd : s.cache.lowmemRd = false := by simp [CacheCpu.lowmemRd, hw.state]
  have hmem : (s.cycle early h e).low.mem =
      if BurstMemory.sample e false taken then
        storeWord s.low.mem (s.cache.burstWbBaseA ++ BitVec.ofNat 5 k)
          (s.cache.way.bram (s.slot ++ BitVec.ofNat 5 k))
      else s.low.mem := by
    simp [cycle, BurstMemory.cycle, hwe, hrd, hburst, CacheCpu.lowmemD, hspo, append_add _ hk]
  by_cases hsample : BurstMemory.sample e false taken
  · rw [if_pos hsample] at hmem
    refine ⟨hw.flat_sample hissue hmem, fun o ho => ?_⟩
    obtain ⟨rfl, htake⟩ : taken = false ∧ (e.take || e.finish) = true := by
      simpa [BurstMemory.sample] using hsample
    rw [hmem]
    by_cases hok : o = BitVec.ofNat 5 k
    · rw [hok, storeWord_self]
    · rw [storeWord, if_neg (fun heq => hok (append_offset_inj.1 heq).2)]
      refine hspilled o ?_
      have hne : o.toNat ≠ k := fun hne => hok (by
        apply BitVec.eq_of_toNat_eq
        simp [hne]
        omega)
      rw [Bool.false_or, htake, Bool.toNat_true] at ho
      simp only [Bool.toNat_false]
      omega
  · rw [if_neg hsample] at hmem
    refine ⟨hw.flat_keep hmem, fun o ho => ?_⟩
    rw [hmem]
    refine hspilled o (lt_of_lt_of_le ho ?_)
    have : (taken || e.take || e.finish) = taken := by
      cases taken <;> simp_all [BurstMemory.sample]
    rw [this]

private theorem writeBackBurst_cycle (hw : s.WriteBack M) (hissue : s.cache.burstIssue = false)
    (hdelayed : s.cache.burstIssueDelayed = false) {k : Nat} {settling taken : Bool} (hk : k < 32)
    (hxfer : s.cache.xferCnt = BitVec.ofNat 16 k)
    (hburst : s.low.burst = .write (s.cache.burstWbBaseA ++ 0#5) k settling taken)
    (hsettled : settling = true → taken = false)
    (hspo : settling = false → s.cache.way.spo = s.cache.way.bram (s.slot ++ BitVec.ofNat 5 k))
    (hspilled : ∀ o : BlockOffset, o.toNat < k + taken.toNat →
      s.cache.way.bram (s.slot ++ o) = s.low.mem (s.cache.burstWbBaseA ++ o)) :
    Advances e (s.cycle false h e) M (200 + 2 * (32 - k) + settling.toNat) := by
  have hbusy : s.cache.state ≠ .IDLE := by simp [hw.state]
  obtain ⟨-, -, -, hbase, hdelayed'⟩ := fsm_cycle false h e hbusy
  have hway := way_cycle_WRITEBACK false h e hw.state hw.initDone
  have hslot := (block_cycle false h e hbusy).2
  have hwe : s.cache.lowmemWe = false := by simp [CacheCpu.lowmemWe, hdelayed]
  have hrd : s.cache.lowmemRd = false := by simp [CacheCpu.lowmemRd, hw.state]
  have hne : BitVec.ofNat 16 k ≠ 32#16 := by
    intro heq
    have := congrArg BitVec.toNat heq
    simp at this
    omega
  have hfsm : (s.cycle false h e).cache.state = .WRITEBACK ∧
      (s.cycle false h e).cache.burstIssue = false ∧
      (s.cycle false h e).cache.xferCnt =
        (if !settling && e.finish then BitVec.ofNat 16 (k + 1) else BitVec.ofNat 16 k) ∧
      (s.cycle false h e).cache.burstWe = s.cache.burstWe := by
    simp [cycle, CacheCpu.cycle, CacheCpu.fsm, cacheIn, BurstMemory.ready, BurstMemory.pulse, hwe,
      hrd, hburst, hw.state, hissue, hxfer, hne, BitVec.ofNat_add]
  have hbram : (s.cycle false h e).cache.way.bram = s.cache.way.bram := by rw [hway]
  have hspo' : (s.cycle false h e).cache.way.spo =
      s.cache.way.bram (s.slot ++ BitVec.ofNat 5 k) := by
    have hoffset : (BitVec.ofNat 16 k).extractLsb' 0 5 = BitVec.ofNat 5 k := by
      apply BitVec.eq_of_toNat_eq
      simp
    rw [hway, hxfer, hw.home, hoffset]
  cases settling with
  | true =>
      obtain rfl := hsettled rfl
      have hlow : (s.cycle false h e).low.mem = s.low.mem ∧
          (s.cycle false h e).low.burst =
            .write ((s.cycle false h e).cache.burstWbBaseA ++ 0#5) k false false := by
        rw [hbase]
        simp [cycle, BurstMemory.cycle, BurstMemory.sample, hwe, hrd, hburst]
      refine ⟨_, .inl (by simp),
        .writeBackBurst k false false
        (hw.next hfsm.1 (hfsm.2.2.2.trans hw.burstWe) (hw.flat_keep hlow.1)) hfsm.2.1
        (hdelayed'.trans hissue) hk (by simpa using hfsm.2.2.1) hlow.2 (by simp)
        (fun _ => by rw [hspo', hbram, hslot]) ?_⟩
      intro o ho
      rw [hbram, hslot, hbase, hlow.1]
      exact hspilled o ho
  | false =>
      obtain ⟨hflat, hspilled'⟩ := writeBack_sample false h e hw hissue
        hdelayed hk hburst (hspo rfl) hspilled
      have hw' := hw.next hfsm.1 (hfsm.2.2.2.trans hw.burstWe) hflat
      have hburst' : (s.cycle false h e).low.burst =
          if e.finish then
            if k = 31 then .done
            else .write ((s.cycle false h e).cache.burstWbBaseA ++ 0#5) (k + 1) true false
          else .write ((s.cycle false h e).cache.burstWbBaseA ++ 0#5) k false
            (taken || e.take) := by
        rw [hbase]
        simp [cycle, BurstMemory.cycle, hwe, hrd, hburst]
      cases hfinish : e.finish with
      | false =>
          simp only [hfinish, Bool.and_false, Bool.or_false, Bool.false_eq_true, if_false]
            at hfsm hburst' hspilled'
          refine ⟨_, .inr ⟨rfl, hfinish⟩,
            .writeBackBurst k false (taken || e.take) hw' hfsm.2.1 (hdelayed'.trans hissue) hk
            hfsm.2.2.1 hburst' (by simp) (fun _ => by rw [hspo', hbram, hslot]) ?_⟩
          intro o ho
          rw [hbram, hslot, hbase]
          exact hspilled' o ho
      | true =>
          simp only [hfinish, Bool.or_true, Bool.not_false, Bool.and_true, if_true,
            Bool.toNat_true] at *
          by_cases hlast : k = 31
          · subst hlast
            refine ⟨_, .inl (by omega),
              .writeBackDone hw' hfsm.2.1 (hdelayed'.trans hissue) hfsm.2.2.1
              (hburst'.trans (if_pos rfl)) fun o => ?_⟩
            rw [hbram, hslot, hbase]
            exact hspilled' o (by have := o.isLt; omega)
          · rw [if_neg hlast] at hburst'
            refine ⟨_, .inl (by simp; omega),
              .writeBackBurst (k + 1) true false hw' hfsm.2.1 (hdelayed'.trans hissue)
              (by omega) hfsm.2.2.1 hburst' (by simp) (by simp) fun o ho => ?_⟩
            rw [hbram, hslot, hbase]
            exact hspilled' o (by simpa using ho)

private theorem writeBackDone_cycle (hw : s.WriteBack M) (hissue : s.cache.burstIssue = false)
    (hdelayed : s.cache.burstIssueDelayed = false) (hxfer : s.cache.xferCnt = 32#16)
    (hdone : s.low.burst = .done)
    (hspilled : ∀ o : BlockOffset,
      s.cache.way.bram (s.slot ++ o) = s.low.mem (s.cache.burstWbBaseA ++ o)) :
    Advances e (s.cycle early h e) M 120 := by
  have hbusy : s.cache.state ≠ .IDLE := by simp [hw.state]
  have hway := way_cycle_WRITEBACK early h e hw.state hw.initDone
  have hwe : s.cache.lowmemWe = false := by simp [CacheCpu.lowmemWe, hdelayed]
  have hrd : s.cache.lowmemRd = false := by simp [CacheCpu.lowmemRd, hw.state]
  have hfsm : (s.cycle early h e).cache.state = .LOAD ∧
      (s.cycle early h e).cache.burstIssue = true ∧
      (s.cycle early h e).cache.burstWe = s.cache.burstWe := by
    simp [cycle, CacheCpu.cycle, CacheCpu.fsm, cacheIn, hw.state, hissue, hxfer]
  have hlow : (s.cycle early h e).low.mem = s.low.mem ∧
      (s.cycle early h e).low.burst = .done := by
    simp [cycle, BurstMemory.cycle, hwe, hrd, hdone]
  refine ⟨_, .inl (by omega),
    .loadIssue ⟨hfsm.1, by rw [hway]; exact hw.initDone, ?_⟩ hfsm.2.1
    (hfsm.2.2.trans hw.burstWe) hlow.2⟩
  -- the line is written back, so it can be dropped
  have hdrop : (s.cycle early h e).holding none =
      (s.holding (some (s.cache.burstWbBaseA, true))).drop s.slot := by
    rw [holding_congr (block_cycle early h e hbusy).2 (fun _ _ => by rw [hway, hissue]; rfl)
      (by rw [hway])
      hlow.1]
    simp [holding, DirectMapped.drop]
  rw [hdrop]
  refine hw.flat.of_view (DirectMapped.coherent_drop hw.flat.1 _) (DirectMapped.view_drop ?_)
  intro b dirty _ hline
  simp only [holding_line, Option.some.injEq, Prod.mk.injEq] at hline
  obtain ⟨rfl, -⟩ := hline
  exact funext hspilled

/-! ## Load -/

theorem Load.next (hl : s.Load M) (hstate : (s.cycle early h e).cache.state = .LOAD)
    (hflat : Flat ((s.cycle early h e).holding none) M) : (s.cycle early h e).Load M :=
  ⟨hstate, by rw [way_cycle_LOAD early h e hl.state hl.initDone]; exact hl.initDone, hflat⟩

private theorem Load.flat_keep (hl : s.Load M) (hburstWe : s.cache.burstWe = false)
    (hmem : (s.cycle early h e).low.mem = s.low.mem) :
    Flat ((s.cycle early h e).holding none) M := by
  have hway := way_cycle_LOAD early h e hl.state hl.initDone
  rw [holding_congr (block_cycle early h e (by simp [hl.state])).2 ?_ (by rw [hway, hburstWe]; rfl)
    hmem]
  · exact hl.flat
  · intro i hi
    rw [hway]
    dsimp only
    split_ifs
    · rw [Function.update_of_ne hi]
    · rfl

private theorem Load.flat_fill (hl : s.Load M) (hissue : s.cache.burstIssue = false)
    (hburstWe : s.cache.burstWe = true) (hmem : (s.cycle early h e).low.mem = s.low.mem) :
    Flat ((s.cycle early h e).holding none) M := by
  have hway := way_cycle_LOAD early h e hl.state hl.initDone
  rw [holding_fill (block_cycle early h e (by simp [hl.state])).2 (by rw [hway, hissue]; rfl)
    (by rw [hway, hburstWe]; rfl) hmem]
  exact hl.fill _ _

private theorem loadIssue_cycle (hheld : h.a = s.cache.hostA) (hl : s.Load M)
    (hissue : s.cache.burstIssue = true) (hburstWe : s.cache.burstWe = false) :
    Advances e (s.cycle early h e) M 119 := by
  have hbusy : s.cache.state ≠ .IDLE := by simp [hl.state]
  obtain ⟨hblock, hslot⟩ := block_cycle early h e hbusy
  have hway := way_cycle_LOAD early h e hl.state hl.initDone
  have hwe : s.cache.lowmemWe = false := by simp [CacheCpu.lowmemWe, hl.state]
  have hrd : s.cache.lowmemRd = true := by simp [CacheCpu.lowmemRd, hl.state, hissue]
  have hfsm : (s.cycle early h e).cache.state = .LOAD ∧
      (s.cycle early h e).cache.burstIssue = false ∧
      (s.cycle early h e).cache.xferCnt = BitVec.ofNat 16 0 - 1#16 ∧
      (s.cycle early h e).cache.burstWe = false := by
    simp [cycle, CacheCpu.cycle, CacheCpu.fsm, cacheIn, hl.state, hissue, hburstWe]
  have hlow : (s.cycle early h e).low.mem = s.low.mem ∧
      (s.cycle early h e).low.burst = .read (s.block ++ 0#5) 0 := by
    simp [cycle, BurstMemory.cycle, hwe, hrd, CacheCpu.lowmemA, hl.state, wordIndex_append_zero,
      block]
  refine ⟨_, .inl (by omega),
    .loadBurst 0 (hl.next hfsm.1 (hl.flat_keep hburstWe hlow.1)) hfsm.2.1 (by omega) ?_
    hfsm.2.2.1 (by rw [hblock]; exact hlow.2) (by simp [hfsm.2.2.2])
    (fun o ho => absurd ho (Nat.not_lt_zero _))⟩
  rw [Tagged, hblock, hslot, hway, hissue]
  simp [absLine_newTag, hheld, block]

private theorem xferCnt_offset {k : Nat} (hk : k ≠ 0) :
    (BitVec.ofNat 16 k - 1#16).extractLsb' 0 5 = BitVec.ofNat 5 (k - 1) := by
  obtain ⟨j, rfl⟩ : ∃ j, k = j + 1 := ⟨k - 1, by omega⟩
  apply BitVec.eq_of_toNat_eq
  simp [BitVec.toNat_sub]
  omega

private theorem loadBurst_filled (early : Bool) (h : HostIn) (e : BurstEnv) (hl : s.Load M)
    (hissue : s.cache.burstIssue = false) {k : Nat}
    (hxfer : s.cache.xferCnt = BitVec.ofNat 16 k - 1#16)
    (hshown : s.cache.burstWe = true →
      k ≠ 0 ∧ s.low.shown = some (s.low.mem (s.block ++ BitVec.ofNat 5 (k - 1))))
    (hfilled : ∀ o : BlockOffset, o.toNat + s.cache.burstWe.toNat < k →
      s.cache.way.bram (s.slot ++ o) = s.low.mem (s.block ++ o))
    (hmem : (s.cycle early h e).low.mem = s.low.mem) :
    Flat ((s.cycle early h e).holding none) M ∧
      ∀ o : BlockOffset, o.toNat < k →
        (s.cycle early h e).cache.way.bram (s.slot ++ o) = s.low.mem (s.block ++ o) := by
  have hway := way_cycle_LOAD early h e hl.state hl.initDone
  cases hburstWe : s.cache.burstWe with
  | false =>
      refine ⟨hl.flat_keep hburstWe hmem, fun o ho => ?_⟩
      rw [hway, hburstWe]
      exact hfilled o (by simpa [hburstWe] using ho)
  | true =>
      refine ⟨hl.flat_fill hissue hburstWe hmem, fun o ho => ?_⟩
      obtain ⟨hk0, hshown⟩ := hshown hburstWe
      rw [hway, hburstWe, hxfer, xferCnt_offset hk0]
      simp only [if_true, BurstMemory.spo, hshown, Option.getD_some]
      by_cases hok : o = BitVec.ofNat 5 (k - 1)
      · rw [hok, Function.update_self]
      · rw [Function.update_of_ne (fun heq => hok (append_offset_inj.1 heq).2)]
        refine hfilled o ?_
        have hne : o.toNat ≠ k - 1 := fun hne => hok (by
          apply BitVec.eq_of_toNat_eq
          simp [hne]
          omega)
        simp only [hburstWe, Bool.toNat_true]
        omega

private theorem loadBurst_cycle (hl : s.Load M) (hissue : s.cache.burstIssue = false) {k : Nat}
    (hk : k < 32) (htag : s.Tagged) (hxfer : s.cache.xferCnt = BitVec.ofNat 16 k - 1#16)
    (hburst : s.low.burst = .read (s.block ++ 0#5) k)
    (hshown : s.cache.burstWe = true →
      k ≠ 0 ∧ s.low.shown = some (s.low.mem (s.block ++ BitVec.ofNat 5 (k - 1))))
    (hfilled : ∀ o : BlockOffset, o.toNat + s.cache.burstWe.toNat < k →
      s.cache.way.bram (s.slot ++ o) = s.low.mem (s.block ++ o)) :
    Advances e (s.cycle early h e) M (10 + (32 - k)) := by
  have hbusy : s.cache.state ≠ .IDLE := by simp [hl.state]
  obtain ⟨hblock, hslot⟩ := block_cycle early h e hbusy
  have hway := way_cycle_LOAD early h e hl.state hl.initDone
  have hwe : s.cache.lowmemWe = false := by simp [CacheCpu.lowmemWe, hl.state]
  have hrd : s.cache.lowmemRd = false := by simp [CacheCpu.lowmemRd, hissue]
  have hne : BitVec.ofNat 16 k - 1#16 ≠ 31#16 := by
    intro heq
    have := congrArg BitVec.toNat heq
    simp [BitVec.toNat_sub] at this
    omega
  have hfsm : (s.cycle early h e).cache.state = .LOAD ∧
      (s.cycle early h e).cache.burstIssue = false ∧
      (s.cycle early h e).cache.xferCnt =
        (if e.finish then BitVec.ofNat 16 (k + 1) - 1#16 else BitVec.ofNat 16 k - 1#16) ∧
      (s.cycle early h e).cache.burstWe = e.finish := by
    cases hfinish : e.finish <;>
      simp [cycle, CacheCpu.cycle, CacheCpu.fsm, cacheIn, BurstMemory.ready, BurstMemory.pulse,
        hwe, hrd, hburst, hl.state, hissue, hxfer, hne, hfinish, BitVec.ofNat_add]
  have hlow : (s.cycle early h e).low.mem = s.low.mem ∧
      (s.cycle early h e).low.burst =
        (if e.finish then if k = 31 then .done else .read (s.block ++ 0#5) (k + 1)
          else .read (s.block ++ 0#5) k) ∧
      (s.cycle early h e).low.shown =
        (if e.finish then some (s.low.mem (s.block ++ BitVec.ofNat 5 k)) else none) := by
    cases hfinish : e.finish <;>
      simp [cycle, BurstMemory.cycle, hwe, hrd, hburst, hfinish, append_add _ hk]
  obtain ⟨hstate', hissue', hxfer', hburstWe'⟩ := hfsm
  obtain ⟨hmem', hburst', hshown'⟩ := hlow
  obtain ⟨hflat, hfilled'⟩ := loadBurst_filled early h e hl hissue hxfer hshown hfilled hmem'
  have hl' := hl.next hstate' hflat
  have htag' : (s.cycle early h e).Tagged := by
    rw [Tagged, hblock, hslot, hway, hissue]
    exact htag
  cases hfinish : e.finish with
  | false =>
      simp only [hfinish, Bool.false_eq_true, if_false] at hxfer' hburst' hburstWe'
      refine ⟨_, .inr ⟨rfl, hfinish⟩,
        .loadBurst k hl' hissue' hk htag' hxfer' (by rw [hblock]; exact hburst')
        (by simp [hburstWe']) fun o ho => ?_⟩
      rw [hslot, hblock, hmem']
      exact hfilled' o (by simpa [hburstWe'] using ho)
  | true =>
      simp only [hfinish, if_true] at *
      by_cases hlast : k = 31
      · subst hlast
        refine ⟨_, .inl (by omega),
          .loadDone hl' hissue' htag' hxfer' hburstWe' (hburst'.trans (if_pos rfl))
          (by rw [hmem', hblock]; exact hshown') fun o ho => ?_⟩
        rw [hslot, hblock, hmem']
        exact hfilled' o ho
      · rw [if_neg hlast] at hburst'
        refine ⟨_, .inl (by omega),
          .loadBurst (k + 1) hl' hissue' (by omega) htag' hxfer'
          (by rw [hblock]; exact hburst')
          (fun _ => ⟨by omega, by rw [hmem', hblock]; exact hshown'⟩) fun o ho => ?_⟩
        rw [hslot, hblock, hmem']
        exact hfilled' o (by simpa [hburstWe'] using ho)

private theorem loadDone_cycle (hl : s.Load M) (hissue : s.cache.burstIssue = false)
    (htag : s.Tagged)
    (hxfer : s.cache.xferCnt = 31#16) (hburstWe : s.cache.burstWe = true)
    (hdone : s.low.burst = .done) (hshown : s.low.shown = some (s.low.mem (s.block ++ 31#5)))
    (hfilled : ∀ o : BlockOffset, o.toNat < 31 →
      s.cache.way.bram (s.slot ++ o) = s.low.mem (s.block ++ o)) :
    Advances e (s.cycle early h e) M 5 := by
  have hbusy : s.cache.state ≠ .IDLE := by simp [hl.state]
  obtain ⟨hblock, hslot⟩ := block_cycle early h e hbusy
  have hway := way_cycle_LOAD early h e hl.state hl.initDone
  have hwe : s.cache.lowmemWe = false := by simp [CacheCpu.lowmemWe, hl.state]
  have hrd : s.cache.lowmemRd = false := by simp [CacheCpu.lowmemRd, hissue]
  have hfsm : (s.cycle early h e).cache.state = .HIT ∧
      (s.cycle early h e).cache.burstWe = false := by
    simp [cycle, CacheCpu.cycle, CacheCpu.fsm, cacheIn, BurstMemory.ready, hwe, hrd, hdone,
      hl.state, hissue, hxfer]
  have hlow : (s.cycle early h e).low.mem = s.low.mem ∧
      (s.cycle early h e).low.burst = .done := by
    simp [cycle, BurstMemory.cycle, hwe, hrd, hdone]
  obtain ⟨hflat, hfilled'⟩ := loadBurst_filled early h e (k := 32) hl
    hissue hxfer (fun _ => ⟨by omega, hshown⟩)
    (fun o ho => hfilled o (by rw [hburstWe, Bool.toNat_true] at ho; omega)) hlow.1
  have htag' : (s.cycle early h e).Tagged := by
    rw [Tagged, hblock, hslot, hway, hissue]
    exact htag
  refine ⟨_, .inl (by omega),
    .hit hfsm.1 (by rw [hway]; exact hl.initDone) hfsm.2 hlow.2 htag' ?_⟩
  -- the line holds the whole block, so it can be installed
  have hinstall : (s.cycle early h e).lines =
      ((s.cycle early h e).holding none).install lineIndex s.block := by
    simp only [holding, DirectMapped.install, lines, Rtl.lines, DirectMapped.mk.injEq, and_true]
    funext i
    by_cases hi : i = lineIndex s.block
    · subst hi
      rw [Function.update_self]
      rw [Tagged, hblock, hslot] at htag'
      exact htag'
    · rw [Function.update_of_ne hi, Function.update_of_ne (by rw [hslot]; exact hi)]
  have hline : ((s.cycle early h e).holding none).line (lineIndex s.block) = none := by
    have := holding_line (s := s.cycle early h e) none
    rwa [hslot] at this
  have hdata : ((s.cycle early h e).holding none).data (lineIndex s.block) =
      ((s.cycle early h e).holding none).low s.block := by
    funext o
    have := hfilled' o o.isLt
    rw [← hlow.1] at this
    exact this
  rw [hinstall]
  exact hflat.of_view (DirectMapped.coherent_install hflat.1 hdata)
    (DirectMapped.view_install hline hdata)

/-! ## Every stage -/

theorem Stage.state_ne_idle {n : Nat} (hs : s.Stage M n) : s.cache.state ≠ .IDLE := by
  cases hs with
  | writeBackIssue hw | writeBackRequest hw | writeBackDone hw => simp [hw.state]
  | writeBackBurst _ _ _ hw => simp [hw.state]
  | loadIssue hl | loadDone hl => simp [hl.state]
  | loadBurst _ hl => simp [hl.state]
  | hit hstate => simp [hstate]

theorem Stage.cycle {n : Nat} (hs : s.Stage M n) (hheld : h.a = s.cache.hostA)
    (hhit : s.cache.state ≠ .HIT) : Advances e (s.cycle false h e) M n := by
  cases hs with
  | writeBackIssue hw hissue hxfer hdone => exact writeBackIssue_cycle hw hissue hxfer hdone
  | writeBackRequest hw hissue hdelayed hxfer _ hspo =>
      exact writeBackRequest_cycle hw hissue hdelayed hxfer hspo
  | writeBackBurst k settling taken hw hissue hdelayed hk hxfer hburst hsettled hspo hspilled =>
      exact writeBackBurst_cycle hw hissue hdelayed hk hxfer hburst hsettled hspo hspilled
  | writeBackDone hw hissue hdelayed hxfer hdone hspilled =>
      exact writeBackDone_cycle hw hissue hdelayed hxfer hdone hspilled
  | loadIssue hl hissue hburstWe => exact loadIssue_cycle hheld hl hissue hburstWe
  | loadBurst k hl hissue hk htag hxfer hburst hshown hfilled =>
      exact loadBurst_cycle hl hissue hk htag hxfer hburst hshown hfilled
  | loadDone hl hissue htag hxfer hburstWe hdone hshown hfilled =>
      exact loadDone_cycle hl hissue htag hxfer hburstWe hdone hshown hfilled
  | hit hstate => exact absurd hstate hhit

end CacheSystem

end PComputer.Rtl
