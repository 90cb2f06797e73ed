import PComputer.Rtl.ComputerHost

/-!
# Accesses of the computer

The boot ROM, the distributed RAM and the chip behind the cache make one memory, which the
stores of the CPU write and nothing else, and every access to it is answered.
-/

namespace PComputer.Rtl

open PComputer.Foundation

namespace Computer

open CacheSystem (flatMemory respond respond_quiet)

section Run

variable {x : ReadX} {m : ChipBytes} {ins : Nat → ComputerIn} {tr : Nat → Computer} {t : Nat}

/-! ## The memory of the CPU -/

/-- The words that the CPU finds, where `flat` is what the chip and the cache hold. -/
def words (flat : WordMemory) (s : Computer) : WordMemory := fun w =>
  byteSwap <|
    if ChipWindow w then flat w
    else if RamWindow w then s.distram.mem (w.extractLsb' 0 12)
    else if RomWindow w then s.bootrom.mem (w.extractLsb' 0 10)
    else 0

/-- A request for a word of one of the memories; the boot ROM is only read. -/
def Mapped (s : Computer) : Prop :=
  s.core.requests = true → ChipWindow (wordIndex s.a) ∨ RamWindow (wordIndex s.a) ∨
    RomWindow (wordIndex s.a) ∧ s.core.we = false

def flat (m : ChipBytes) (tr : Nat → Computer) (t : Nat) : WordMemory :=
  flatMemory (CachedMemory.initialMem (tr 2).cached m) (hosts tr) (t - 2)

def memory (m : ChipBytes) (tr : Nat → Computer) (t : Nat) : WordMemory :=
  (tr t).words (flat m tr t)

def view (m : ChipBytes) (s : Computer) : WordMemory := s.words (s.cached.view m)

private theorem area_eq (a : Word) : Mmapper.area a = (wordIndex a).extractLsb' 26 4 := by
  apply BitVec.eq_of_getLsbD_eq
  intro k hk
  simp only [Mmapper.area, wordIndex, BitVec.getLsbD_extractLsb']
  grind

private theorem extract_extract {n j k l : Nat} (w : BitVec n) (i : Nat) (hk : k + l ≤ j) :
    w.extractLsb' (i + k) l = (w.extractLsb' i j).extractLsb' k l := by
  apply BitVec.eq_of_getLsbD_eq
  intro b hb
  simp only [BitVec.getLsbD_extractLsb']
  grind

private theorem area_of_chip {a : Word} (h : ChipWindow (wordIndex a)) : Mmapper.area a = 2 := by
  rw [area_eq, extract_extract (j := 9) (k := 5) _ 21 (by decide), h]
  rfl

private theorem area_of_ram {a : Word} (h : RamWindow (wordIndex a)) : Mmapper.area a = 1 := by
  rw [area_eq, extract_extract (j := 18) (k := 14) _ 12 (by decide), h]
  rfl

private theorem area_of_rom {a : Word} (h : RomWindow (wordIndex a)) : Mmapper.area a = 0xf := by
  rw [area_eq, extract_extract (j := 20) (k := 16) _ 10 (by decide), h]
  rfl

theorem Mapped.window {s : Computer} (h : s.Mapped) (hrequest : s.hostIn.request = true) :
    ChipWindow (wordIndex s.a) := by
  obtain ⟨harea, hrequests⟩ := request_hostIn.mp hrequest
  rcases h hrequests with hchip | hram | ⟨hrom, -⟩
  · exact hchip
  · rw [area_of_ram hram] at harea
    exact absurd harea (by decide)
  · rw [area_of_rom hrom] at harea
    exact absurd harea (by decide)

theorem served_of_mapped (hmapped : ∀ u, 0 < u → u < t → (tr u).Mapped)
    (hlate : ∀ u, 0 < u → u < t → (tr u).hostIn.request = true → 259 ≤ u) : Served tr t :=
  fun u hu hut hrequest => ⟨hlate u hu hut hrequest, (hmapped u hu hut).window hrequest⟩

private theorem ram_injective {v w : BitVec 30} (hv : RamWindow v) (hw : RamWindow w)
    (h : v.extractLsb' 0 12 = w.extractLsb' 0 12) : v = w := by
  have hsplit (w : BitVec 30) : w = (w.extractLsb' 12 18 ++ w.extractLsb' 0 12 : BitVec 30) := by
    apply BitVec.eq_of_getLsbD_eq
    intro k hk
    simp only [BitVec.getLsbD_append, BitVec.getLsbD_extractLsb']
    grind
  rw [hsplit v, hsplit w, hv, hw, h]

private theorem not_chip_of_ram {w : BitVec 30} (h : RamWindow w) : ¬ ChipWindow w := by
  intro hchip
  have hlow : w.extractLsb' 21 9 = (0x4000#18).extractLsb' 9 9 :=
    (extract_extract (j := 18) (k := 9) w 12 (by decide)).trans (congrArg _ h)
  rw [hchip] at hlow
  exact absurd hlow (by decide)

theorem not_chip_of_rom {w : BitVec 30} (h : RomWindow w) : ¬ ChipWindow w := by
  intro hchip
  have hlow : w.extractLsb' 21 9 = (0xf0000#20).extractLsb' 11 9 :=
    (extract_extract (j := 20) (k := 11) w 10 (by decide)).trans (congrArg _ h)
  rw [hchip] at hlow
  exact absurd hlow (by decide)

theorem not_ram_of_rom {w : BitVec 30} (h : RomWindow w) : ¬ RamWindow w := by
  intro hram
  have hlow : w.extractLsb' 12 18 = (0xf0000#20).extractLsb' 2 18 :=
    (extract_extract (j := 20) (k := 2) w 10 (by decide)).trans (congrArg _ h)
  rw [hram] at hlow
  exact absurd hlow (by decide)

private theorem mapOut_ram (s : Computer) :
    s.mapOut.distmWe = (decide (Mmapper.area s.a = 1) && s.core.we) ∧
      s.mapOut.distmRd = (decide (Mmapper.area s.a = 1) && s.core.rd) := by
  by_cases harea : Mmapper.area s.a = 1
  · simp [mapOut, Mmapper.out, harea]
  · simp only [mapOut, Mmapper.out, harea, if_false, decide_false, Bool.false_and]
    split_ifs
    · exact ⟨rfl, rfl⟩
    · split <;> exact ⟨rfl, rfl⟩
    all_goals exact ⟨rfl, rfl⟩

private theorem flat_succ (ht : 0 < t) (hserved : Served tr (t + 1)) :
    flat m tr (t + 1) = respond (tr t).hostIn (flat m tr t) := by
  rcases Nat.lt_or_ge t 2 with hlt | hge
  · obtain rfl : t = 1 := by omega
    have hquiet : (tr 1).hostIn.request = false := by
      by_contra hrequest
      have hle := (hserved 1 Nat.one_pos (by decide) (by simpa using hrequest)).1
      omega
    rw [respond_quiet hquiet]
    rfl
  · have hsub : t + 1 - 2 = t - 2 + 1 := by omega
    have hadd : t - 2 + 2 = t := by omega
    rw [flat, hsub, flatMemory, hosts, hadd, flat]

namespace Starts

/-- Between the accesses, the memory of the CPU can be read off the state. -/
theorem memory_eq_view (h : Starts x m ins tr) (ht : 259 ≤ t) (hserved : Served tr t)
    (hwait : (tr t).phase ≠ .MEM_WAIT) : memory m tr t = (tr t).view m := by
  have hidle : (tr t).cached.cache.state = .IDLE := by
    by_contra hstate
    exact hwait (h.waits_for_cache ht hstate).1
  obtain ⟨k, rfl⟩ := Nat.exists_eq_add_of_le' (show 3 ≤ t by omega)
  funext w
  unfold memory view words
  by_cases hw : ChipWindow w
  · have hview := hserved.careful.view_eq h.cached_isRun h.cached_reset h.protocol (by omega)
      hidle hw
    simp only [if_pos hw]
    exact congrArg byteSwap hview.symm
  · simp only [if_neg hw]

theorem memory_succ (h : Starts x m ins tr) (ht : 0 < t) (hserved : Served tr (t + 1))
    (hmapped : (tr t).Mapped) : memory m tr (t + 1) =
      if (tr t).core.we then
        storeWord (memory m tr t) (wordIndex (tr t).a) (byteSwap (tr t).core.d)
      else memory m tr t := by
  have hrom : (tr (t + 1)).bootrom.mem = (tr t).bootrom.mem := by
    rw [h.isRun.next t]
    rfl
  have hram : (tr (t + 1)).distram.mem =
      if (tr t).mapOut.distmWe then
        Function.update (tr t).distram.mem ((tr t).a.extractLsb' 2 12) (tr t).core.d
      else (tr t).distram.mem := by
    rw [h.isRun.next t]
    rfl
  have hflat := flat_succ (m := m) ht hserved
  rw [respond] at hflat
  change flat m tr (t + 1) = if (tr t).mapOut.cacheWe then _ else _ at hflat
  rw [(tr t).mapOut_cache.1] at hflat
  rw [(tr t).mapOut_ram.1] at hram
  cases hwe : (tr t).core.we with
  | false =>
      simp only [hwe, Bool.and_false, Bool.false_eq_true, if_false] at hflat hram ⊢
      unfold memory words
      rw [hflat, hram, hrom]
  | true =>
      have hrequests : (tr t).core.requests = true := by simp [Core.requests, hwe]
      simp only [if_true]
      funext w
      rcases hmapped hrequests with hchip | hwindow | ⟨-, hread⟩
      · have harea := area_of_chip hchip
        simp only [harea, hwe, decide_true, Bool.and_true, if_true] at hflat
        simp only [harea, (by decide : ¬ (2 : BitVec 4) = 1), decide_false, Bool.false_and,
          Bool.false_eq_true, if_false] at hram
        unfold memory words storeWord
        rw [hflat, hram, hrom]
        by_cases hw : w = wordIndex (tr t).a
        · rw [hw, if_pos hchip, if_pos rfl]
          simp [storeWord, hostIn]
        · simp [hw, storeWord, hostIn]
      · have harea := area_of_ram hwindow
        simp only [harea, (by decide : ¬ (1 : BitVec 4) = 2), decide_false, Bool.false_and,
          Bool.false_eq_true, if_false] at hflat
        simp only [harea, hwe, decide_true, Bool.and_true, if_true] at hram
        have hplace : (tr t).a.extractLsb' 2 12 = (wordIndex (tr t).a).extractLsb' 0 12 :=
          extract_extract (j := 30) (k := 0) (tr t).a 2 (by decide)
        unfold memory words storeWord
        rw [hflat, hram, hrom, hplace]
        by_cases hw : w = wordIndex (tr t).a
        · rw [hw, if_neg (not_chip_of_ram hwindow), if_pos hwindow, if_pos rfl]
          simp
        · by_cases hram : RamWindow w
          · have hother : w.extractLsb' 0 12 ≠ (wordIndex (tr t).a).extractLsb' 0 12 :=
              fun hsame => hw (ram_injective hram hwindow hsame)
            simp [hw, Function.update_of_ne hother]
          · simp [hw, hram]
      · rw [hwe] at hread
        cases hread

end Starts

/-! ## Answers -/

structure Answers (m : ChipBytes) (ins : Nat → ComputerIn) (tr : Nat → Computer) (t r : Nat) :
    Prop where
  lt : t < r
  waiting : ∀ u, t < u → u ≤ r → (tr u).phase = .MEM_WAIT ∧ (tr u).a = (tr t).a
  busy : ∀ u, t ≤ u → u < r → (tr u).ready (ins u) = false
  ready : (tr r).ready (ins r) = true
  shows : (tr t).core.we = false →
    (tr r).spo (ins r) = byteSwap (memory m tr t (wordIndex (tr t).a))
  stays : (tr t).core.we = false → (tr (r + 1)).a = (tr t).a →
    (tr (r + 1)).spo (ins (r + 1)) = byteSwap (memory m tr t (wordIndex (tr t).a))

namespace Starts

/-- Until it is answered the CPU waits, with the address in place. -/
theorem waits (h : Starts x m ins tr) (ht : 0 < t) (hrequests : (tr t).core.requests = true)
    {r : Nat}
    (hbusy : ∀ u, t ≤ u → u < r → (tr u).a = (tr t).a → (tr u).ready (ins u) = false)
    {u : Nat} (htu : t < u) (hur : u ≤ r) : (tr u).phase = .MEM_WAIT ∧ (tr u).a = (tr t).a := by
  have hheld {u : Nat} (hu : 0 < u) (hwait : (tr (u + 1)).core.phase = .MEM_WAIT) :
      (tr (u + 1)).a = (tr u).a := by
    have hcore := h.core_succ hu
    rw [a, hcore]
    exact (Core.advance_held (hcore ▸ hwait)).1
  induction u, htu using Nat.le_induction with
  | base =>
      have hwait : (tr (t + 1)).core.phase = .MEM_WAIT := by
        rw [h.core_succ ht]
        exact Core.phase_of_request hrequests fun _ => hbusy t (Nat.le_refl t) (by omega) rfl
      exact ⟨hwait, hheld ht hwait⟩
  | succ u htu ih =>
      obtain ⟨hphase, ha⟩ := ih (by omega)
      have hphase' : (tr u).core.phase = .MEM_WAIT := hphase
      have hready : ((tr u).coreIn x (ins u)).ready = false := hbusy u (by omega) (by omega) ha
      have hwait : (tr (u + 1)).core.phase = .MEM_WAIT := by
        rw [h.core_succ (t := u) (by omega), Core.advance_phase, Core.phaseNext]
        simp [hphase', hready]
      exact ⟨hwait, (hheld (by omega) hwait).trans ha⟩

private theorem answers_next (h : Starts x m ins tr) (ht : 0 < t) (hserved : Served tr (t + 1))
    (hrequests : (tr t).core.requests = true) (hmapped : (tr t).Mapped)
    (hbusy : (tr t).ready (ins t) = false)
    (hready : (tr (t + 1)).core.requests = false → (tr (t + 1)).a = (tr t).a →
      (tr (t + 1)).ready (ins (t + 1)) = true)
    (hspo : ∀ u, (tr u).a = (tr t).a → (tr (u + 1)).a = (tr t).a →
      (tr (u + 1)).spo (ins (u + 1)) = byteSwap (memory m tr u (wordIndex (tr t).a))) :
    Answers m ins tr t (t + 1) := by
  have hwaits {u : Nat} (htu : t < u) (hut : u ≤ t + 1) :
      (tr u).phase = .MEM_WAIT ∧ (tr u).a = (tr t).a := by
    refine h.waits ht hrequests (r := t + 1) (fun v htv hvt _ => ?_) htu hut
    obtain rfl : v = t := by omega
    exact hbusy
  obtain ⟨hphase, ha⟩ := hwaits (Nat.lt_succ_self t) (Nat.le_refl _)
  have hphase' : (tr (t + 1)).core.phase = .MEM_WAIT := hphase
  have hquiet : (tr (t + 1)).core.requests = false := by
    simp [Core.requests, Core.quiet_of_phase hphase' (by decide)]
  refine ⟨Nat.lt_succ_self t, fun u => hwaits, fun u htu hut => ?_, hready hquiet ha,
    fun _ => hspo t rfl ha, fun hwe hlast => ?_⟩
  · obtain rfl : u = t := by omega
    exact hbusy
  · have hsame : memory m tr (t + 1) = memory m tr t := by
      simp [h.memory_succ ht hserved hmapped, hwe]
    rw [hspo (t + 1) ha hlast, hsame]

private theorem answers_ram (h : Starts x m ins tr) (ht : 0 < t) (hserved : Served tr (t + 1))
    (hrequests : (tr t).core.requests = true) (hwindow : RamWindow (wordIndex (tr t).a)) :
    Answers m ins tr t (t + 1) := by
  have harea := area_of_ram hwindow
  have hor : ((tr t).core.rd || (tr t).core.we) = true := hrequests
  refine h.answers_next ht hserved hrequests (fun _ => .inr (.inl hwindow)) ?_ (fun hquiet ha => ?_)
    fun u ha ha' => ?_
  · simp [ready, Mmapper.ready, mapIn, SimpleRam.ready, mapOut_ram, harea, hor]
  · have hquiet' : (tr (t + 1)).core.rd = false ∧ (tr (t + 1)).core.we = false := by
      simpa [Core.requests] using hquiet
    simp [ready, Mmapper.ready, mapIn, SimpleRam.ready, mapOut_ram, ha, harea, hquiet']
  · have hdist : (tr (u + 1)).distram.spo = (tr u).distram.mem ((tr u).a.extractLsb' 2 12) := by
      rw [h.isRun.next u]
      rfl
    have hplace : (tr t).a.extractLsb' 2 12 = (wordIndex (tr t).a).extractLsb' 0 12 :=
      extract_extract (j := 30) (k := 0) (tr t).a 2 (by decide)
    rw [spo, Mmapper.spo, ha', if_pos harea, mapIn, hdist, ha, hplace, memory, words,
      if_neg (not_chip_of_ram hwindow), if_pos hwindow, byteSwap_byteSwap]

private theorem answers_rom (h : Starts x m ins tr) (ht : 0 < t) (hserved : Served tr (t + 1))
    (hrequests : (tr t).core.requests = true) (hwindow : RomWindow (wordIndex (tr t).a))
    (hwe : (tr t).core.we = false) :
    Answers m ins tr t (t + 1) := by
  have harea := area_of_rom hwindow
  have hrd : (tr t).core.rd = true := by simpa [Core.requests, hwe] using hrequests
  have hrom {s : Computer} (hs : Mmapper.area s.a = 0xf) : s.mapOut.bootmRd = s.core.rd := by
    simp [mapOut, Mmapper.out, hs]
  refine h.answers_next ht hserved hrequests (fun _ => .inr (.inr ⟨hwindow, hwe⟩)) ?_
    (fun hquiet ha => ?_) fun u ha ha' => ?_
  · simp [ready, Mmapper.ready, mapIn, ClockedRom.ready, hrom harea, harea, hrd]
  · have hquiet' : (tr (t + 1)).core.rd = false := by
      have hboth : (tr (t + 1)).core.rd = false ∧ (tr (t + 1)).core.we = false := by
        simpa [Core.requests] using hquiet
      exact hboth.1
    have harea' : Mmapper.area (tr (t + 1)).a = 0xf := ha ▸ harea
    simp [ready, Mmapper.ready, mapIn, ClockedRom.ready, hrom harea', harea', hquiet']
  · have hboot : (tr (u + 1)).bootrom.spo = (tr u).bootrom.mem ((tr u).a.extractLsb' 2 10) := by
      rw [h.isRun.next u]
      rfl
    have hplace : (tr t).a.extractLsb' 2 10 = (wordIndex (tr t).a).extractLsb' 0 10 :=
      extract_extract (j := 30) (k := 0) (tr t).a 2 (by decide)
    rw [spo, Mmapper.spo, ha', mapIn, hboot, ha, hplace, memory, words,
      if_neg (not_chip_of_rom hwindow), if_neg (not_ram_of_rom hwindow), if_pos hwindow,
      byteSwap_byteSwap]
    simp [harea]

private theorem answers_chip (h : Starts x m ins tr) (ht : 0 < t) (hserved : Served tr (t + 1))
    (hrequests : (tr t).core.requests = true) (hwindow : ChipWindow (wordIndex (tr t).a)) :
    ∃ r, Answers m ins tr t r := by
  have harea := area_of_chip hwindow
  have hrequest : (tr t).hostIn.request = true := request_hostIn.mpr ⟨harea, hrequests⟩
  have hle := (hserved t ht (Nat.lt_succ_self t) hrequest).1
  obtain ⟨k, rfl⟩ := Nat.exists_eq_add_of_le' (show 2 ≤ t by omega)
  have hrun := h.cached_isRun
  have hready {u : Nat} (ha : (tr u).a = (tr (k + 2)).a) :
      (tr u).ready (ins u) = (tr u).cached.ready (tr u).hostIn :=
    ready_of_cache (ha ▸ harea) (ins u)
  have hspo {u : Nat} (ha : (tr u).a = (tr (k + 2)).a) :
      (tr u).spo (ins u) = (tr u).cached.spo := by
    simp [spo, Mmapper.spo, ha, harea, mapIn]
  obtain ⟨r, hkr, hanswered, hfirst, hshown⟩ :=
    hserved.careful.answers hrun h.cached_reset h.protocol hrequest
  have hword : flatMemory (CachedMemory.initialMem (tr 2).cached m) (hosts tr) k
      (wordIndex (tr (k + 2)).a) = byteSwap (memory m tr (k + 2) (wordIndex (tr (k + 2)).a)) := by
    rw [memory, words, if_pos hwindow, byteSwap_byteSwap]
    rfl
  have hbusy (u : Nat) (htu : k + 2 ≤ u) (hur : u < r + 2) (ha : (tr u).a = (tr (k + 2)).a) :
      (tr u).ready (ins u) = false := by
    obtain ⟨j, rfl⟩ := Nat.exists_eq_add_of_le' (show 2 ≤ u by omega)
    rw [hready ha]
    rcases Nat.lt_or_ge k j with hlt | hge
    · exact hfirst j hlt (by omega)
    · obtain rfl : j = k := by omega
      have hor : ((tr (j + 2)).hostIn.we || (tr (j + 2)).hostIn.rd) = true := hrequest
      simp [CachedMemory.ready, CacheCpu.ready, hor]
  have hwaits {u : Nat} (htu : k + 2 < u) (hur : u ≤ r + 2) := h.waits ht hrequests hbusy htu hur
  obtain ⟨-, ha⟩ := hwaits (show k + 2 < r + 2 by omega) (Nat.le_refl _)
  refine ⟨r + 2, by omega, fun u => hwaits, fun u htu hur => ?_, (hready ha).trans hanswered,
    fun _ => ?_, fun hwe hlast => ?_⟩
  · rcases htu.eq_or_lt with rfl | hlt
    · exact hbusy _ (Nat.le_refl _) hur rfl
    · exact hbusy u htu hur (hwaits hlt (by omega)).2
  · rw [hspo ha, ← hword]
    exact hshown
  · have hread : (hosts tr k).rd = true ∧ (hosts tr k).we = false := by
      obtain ⟨hcacheWe, hcacheRd⟩ := (tr (k + 2)).mapOut_cache
      have hrd : (tr (k + 2)).core.rd = true := by simpa [Core.requests, hwe] using hrequests
      exact ⟨hcacheRd.trans (by simp [harea, hrd]), hcacheWe.trans (by simp [hwe])⟩
    have hstays := CachedMemory.read_stays hrun h.cached_reset h.protocol (by omega) hread.1 hread.2
      hkr hfirst hanswered ha
    rw [hspo hlast, ← hword]
    exact hstays.trans hshown

/-- Every access to one of the memories is answered. -/
theorem answers (h : Starts x m ins tr) (ht : 0 < t) (hserved : Served tr (t + 1))
    (hrequests : (tr t).core.requests = true) (hmapped : (tr t).Mapped) :
    ∃ r, Answers m ins tr t r := by
  rcases hmapped hrequests with hchip | hram | ⟨hrom, hwe⟩
  · exact h.answers_chip ht hserved hrequests hchip
  · exact ⟨t + 1, h.answers_ram ht hserved hrequests hram⟩
  · exact ⟨t + 1, h.answers_rom ht hserved hrequests hrom hwe⟩

end Starts

end Run

end Computer

end PComputer.Rtl
