import PComputer.Rtl.BurstCycles

/-!
# The controllers keep the burst contract

`memory_controller_burst`, `psram_controller_fast` and the chip, seen once for each cycle
of `clk`, are a burst memory: `ready` comes as its pulses, `spo` is what it shows, a word
is never taken in the first cycle after a pulse, and between the bursts the chip holds the
words of the memory.
-/

namespace PComputer.Rtl

open PComputer.Foundation MemorySystem

/-! ## The coupling -/

/-- What is still to be seen of a burst write: the words come alternately with `ready`. -/
def upcoming (spo : Word) : Bool → List Word → List BurstEvent
  | true, rest => rest.flatMap fun d => [.ready spo, .takes d]
  | false, [] => []
  | false, d :: rest => .takes d :: rest.flatMap fun d => [.ready spo, .takes d]

section Coupling

variable (f : Feed) (s : MemorySystem) (m : ChipBytes) (region : BitVec 9) (t : Nat)
variable (s₀ : MemorySystem) (ins : Nat → MemoryIn) (n last : Nat)

/-- Before word `k` of a burst read. -/
structure Reading (mem : WordMemory) (base : BitVec 30) (k : Nat) : Prop where
  way : Underway f s t s₀ ins n last
  hk : k < 32
  holds : Holds region mem ((trace cycle ins s₀ last).chip.bytes m)
  events : (f.memory s t).events ++ (List.range' k (31 - k)).map
    (fun j => .ready (mem (base + BitVec.ofNat 30 j))) = (trace cycle ins s₀ last).events
  last_spo : (trace cycle ins s₀ last).memory.spo = mem (base + 31)

/-- At word `k` of a burst write, `done` being the words that have been taken. -/
structure Writing (mem : WordMemory) (line : BitVec 16) (k : Nat) (settling taken : Bool)
    (done rest : List Word) : Prop where
  way : Underway f s t s₀ ins n last
  hk : k < 32
  length : done.length = k + taken.toNat
  words : (done ++ rest).length = 32
  holds : Holds region (fillFrom mem (lineBase region line) (done ++ rest))
    ((trace cycle ins s₀ last).chip.bytes m)
  events : (f.memory s t).events ++ upcoming s₀.memory.spo taken rest =
    (trace cycle ins s₀ last).events
  settled : settling = true → taken = false ∧ (f.memory s t).memory.Far

/--
What the controllers and the chip have to do with a burst memory in cycle `t`; a burst
that is under way ends within the number of cycles.
-/
inductive Coupled : BurstMemory → Nat → Prop
  | booting {mem : WordMemory} (fresh : (f.memory s t).Fresh)
      (quiet : ∀ u, u < t → (f.port u).request = false)
      (holds : Holds region mem ((f.memory s t).chip.bytes m)) :
      Coupled ⟨mem, .done, none⟩ 0
  | resting {mem : WordMemory} {shown : Option Word} (ready : (f.memory s t).Ready)
      (holds : Holds region mem ((f.memory s t).chip.bytes m))
      (shows : ∀ v ∈ shown, (f.memory s t).memory.spo = v) :
      Coupled ⟨mem, .done, shown⟩ 0
  | reading {s₀ : MemorySystem} {ins : Nat → MemoryIn} {n last : Nat} {mem : WordMemory}
      {base : BitVec 30} {shown : Option Word} {k : Nat}
      (h : Reading f s m region t s₀ ins n last mem base k)
      (shows : ∀ v ∈ shown, (f.memory s t).memory.spo = v ∧ (f.memory s t).memory.Steady) :
      Coupled ⟨mem, .read base k, shown⟩ (last - n)
  | writing {s₀ : MemorySystem} {ins : Nat → MemoryIn} {n last : Nat} {mem : WordMemory}
      {line : BitVec 16} {settling taken : Bool} {done rest : List Word} {k : Nat}
      (h : Writing f s m region t s₀ ins n last mem line k settling taken done rest) :
      Coupled
        ⟨fillFrom mem (lineBase region line) done, .write (lineBase region line) k settling taken,
          none⟩ (last - n)

end Coupling

section Seen

variable {early late ready : Bool} {d d' spo v : Word} {k : Nat} {rest : List Word}

private theorem seen_reading {word : Nat → Word}
    (h : seen early late ready d v <+:
      (List.range' k (31 - k)).map fun j => BurstEvent.ready (word j)) :
    early = false ∧ late = false ∧ (ready = true → k < 31 ∧ v = word k) := by
  cases hleft : 31 - k with
  | zero =>
      rw [hleft, List.range'_zero, List.map_nil, List.prefix_nil] at h
      cases early <;> cases late <;> cases ready <;> simp [seen] at h ⊢
  | succ left =>
      have hk : k < 31 := by omega
      rw [hleft, List.range'_succ, List.map_cons] at h
      cases early <;> cases late <;> cases ready <;> simp [seen, hk] at h ⊢
      exact h

private theorem seen_taken (h : seen early late ready d v <+: upcoming spo true rest) :
    early = false ∧ late = false ∧ (ready = true → rest ≠ [] ∧ v = spo) := by
  cases rest with
  | nil =>
      rw [upcoming, List.flatMap_nil, List.prefix_nil] at h
      cases early <;> cases late <;> cases ready <;> simp [seen] at h ⊢
  | cons d' rest =>
      rw [upcoming, List.flatMap_cons] at h
      cases early <;> cases late <;> cases ready <;> simp [seen] at h ⊢
      exact h

private theorem seen_wanted (h : seen early late ready d v <+: upcoming spo false (d' :: rest)) :
    seen early late ready d v = [] ∧ early = false ∧ late = false ∧ ready = false ∨
      seen early late ready d v = [.takes d'] ∧ (early || late) = true ∧ d = d' ∧ ready = false ∨
      seen early late ready d v = [.takes d', .ready spo] ∧ (early || late) = true ∧ d = d' ∧
        ready = true ∧ rest ≠ [] := by
  rw [upcoming] at h
  cases early <;> cases late <;> cases ready <;> cases rest <;> simp [seen] at h ⊢
  all_goals first | exact h | exact ⟨h, h.1⟩

end Seen

/-! ## One cycle -/

section Cycle

variable {f : Feed} {s s₀ : MemorySystem} {ins : Nat → MemoryIn} {m : ChipBytes}
variable {region : BitVec 9} {t n last left : Nat} {b : BurstMemory}

/-- What is coupled in the next cycle; a burst has been ready or comes closer to its end. -/
def Continues (f : Feed) (s : MemorySystem) (m : ChipBytes) (region : BitVec 9) (t : Nat)
    (b : BurstMemory) (left : Nat) : Prop :=
  ∃ left', Coupled f s m region (t + 1) (f.lowCycle s t b) left' ∧
    (b.burst = .done ∨ f.ready s t = true ∨
      (f.lowCycle s t b).burst ≠ .done ∧ left' < left)

private theorem resting_of_half {mem : WordMemory} {shown : Option Word}
    (hready : (f.half s t).Ready)
    (hquiet : (f.port t).request = false)
    (hholds : Holds region mem ((f.half s t).chip.bytes m))
    (hshows : ∀ v ∈ shown, (f.half s t).memory.spo = v) :
    Coupled f s m region (t + 1) ⟨mem, .done, shown⟩ 0 := by
  have hnext : f.memory s (t + 1) = (f.half s t).cycle (f.ins (2 * t + 1)).calm := by
    rw [f.memory_succ, ← f.calm_second hquiet]
  obtain ⟨hready', hspo, hframes⟩ := hready.calm_cycle (i := f.ins (2 * t + 1))
  rw [← hnext] at hready' hspo hframes
  refine .resting hready' ?_ fun v hv => hspo.trans (hshows v hv)
  rwa [PsramChip.bytes, hframes]

private theorem ready_of_half (hready : (f.half s t).Ready) (hquiet : (f.port t).request = false) :
    f.ready s t = true := by
  rw [Feed.ready, f.calm_second hquiet]
  exact hready.shows

theorem Underway.far (way : Underway f s t s₀ ins n last) (hquiet : (f.port t).request = false)
    (hready : f.ready s t = true) : (f.memory s (t + 1)).memory.Far := by
  rw [Feed.ready, f.calm_second hquiet] at hready
  rw [f.memory_succ, f.calm_second hquiet]
  exact way.paced.cycle.far hready

theorem Underway.steady (way : Underway f s t s₀ ins n last) (hquiet : (f.port t).request = false)
    (hready : f.ready s t = true) :
    (f.memory s (t + 1)).memory.spo = f.spo s t ∧ (f.memory s (t + 1)).memory.Steady := by
  rw [Feed.ready, f.calm_second hquiet] at hready
  obtain ⟨hsteady, hsteady'⟩ := way.paced.cycle.steady hready
  rw [f.memory_succ, f.calm_second hquiet]
  exact ⟨hsteady.cycle, hsteady'⟩

/-! ### Reads -/

section Read

variable {mem : WordMemory} {base : BitVec 30} {shown : Option Word} {k : Nat}

theorem Reading.goes (h : Reading f s m region t s₀ ins n last mem base k)
    (hquiet : (f.port t).request = false) (hlt : n + 2 ≤ last) :
    Continues f s m region t ⟨mem, .read base k, shown⟩ (last - n) := by
  have hinitial := h.way.events_prefix hquiet hlt
  have hevents := Feed.events_succ h.way.clk
  rw [hevents, ← h.events, List.prefix_append_right_inj] at hinitial
  obtain ⟨hearly, hlate, hready⟩ := seen_reading hinitial
  have hnext := h.way.next hquiet hlt
  have hless : last - (n + 2) < last - n := by omega
  have hleft := h.events
  rw [Continues, f.lowCycle_read hquiet]
  rw [hearly, hlate] at hevents
  cases hpulse : f.ready s t with
  | false =>
      rw [hpulse] at hevents
      refine ⟨_, .reading ⟨hnext, h.hk, h.holds, ?_, h.last_spo⟩ (by simp), .inr (.inr ⟨?_, hless⟩)⟩
      · rw [hevents, ← hleft]
        simp [seen]
      · simp
  | true =>
      obtain ⟨hk, hspo⟩ := hready hpulse
      rw [hpulse] at hevents
      have hrange : 31 - k = (31 - (k + 1)) + 1 := by omega
      rw [hrange, List.range'_succ, List.map_cons] at hleft
      obtain ⟨hspo', hsteady⟩ := h.way.steady hquiet hpulse
      rw [if_pos rfl, if_neg (by omega)]
      refine ⟨_, .reading ⟨hnext, by omega, h.holds, ?_, h.last_spo⟩ ?_, .inr (.inl rfl)⟩
      · rw [hevents, ← hleft]
        simp [seen, hspo]
      · rintro v ⟨⟩
        exact ⟨hspo'.trans hspo, hsteady⟩

theorem Reading.ends (h : Reading f s m region t s₀ ins n last mem base k)
    (hquiet : (f.port t).request = false) (hlast : last ≤ n + 1) :
    Continues f s m region t ⟨mem, .read base k, shown⟩ (last - n) := by
  have hend := h.way.ending hquiet hlast
  have hpulse := ready_of_half hend.ready hquiet
  have hevents := hend.events
  rw [← h.events, List.append_cancel_left_eq] at hevents
  obtain rfl : k = 31 := by
    by_contra hne
    have hk := h.hk
    have hrange : 31 - k = (31 - (k + 1)) + 1 := by omega
    rw [hrange, List.range'_succ, List.map_cons] at hevents
    split_ifs at hevents
    cases hevents
  rw [Continues, f.lowCycle_read hquiet, if_pos hpulse, if_pos rfl]
  refine ⟨0, resting_of_half hend.ready hquiet ?_ ?_, .inr (.inl hpulse)⟩
  · rw [PsramChip.bytes, hend.frames]
    exact h.holds
  · rintro v ⟨⟩
    exact hend.spo.trans h.last_spo

end Read

/-! ### Writes -/

private theorem takes_calm {c : MemoryController} {i : MemoryIn} (h : c.takesNext = false) :
    c.takes i.calm = false := by
  simp [MemoryController.takes, MemoryIn.calm, h]

private theorem quiet_of_far (hfar : (f.memory s t).memory.Far)
    (hquiet : (f.port t).request = false) :
    f.takesEarly s t = false ∧ f.takesLate s t = false := by
  constructor
  · rw [Feed.takesEarly, f.calm_first hquiet]
    exact takes_calm hfar.takesNext
  · rw [Feed.takesLate, f.calm_second hquiet, Feed.half, f.calm_first hquiet]
    exact takes_calm hfar.next

section Write

variable {mem : WordMemory} {line : BitVec 16} {settling taken : Bool} {done rest : List Word}
  {k : Nat}

private theorem storeWord_fillFrom (hlength : done.length = k) (d : Word) :
    storeWord (fillFrom mem (lineBase region line) done) (lineBase region line + BitVec.ofNat 30 k)
      d = fillFrom mem (lineBase region line) (done ++ [d]) := by
  rw [fillFrom_concat, hlength]
  funext w
  rw [storeWord, Function.update_apply]

namespace Writing

theorem cons (h : Writing f s m region t s₀ ins n last mem line k settling false done rest) :
    ∃ d rest', rest = d :: rest' := by
  have hk := h.hk
  have hlength := h.length
  have hwords := h.words
  cases rest with
  | nil =>
      rw [List.append_nil, hlength] at hwords
      simp at hwords
      omega
  | cons d rest => exact ⟨d, rest, rfl⟩

private theorem settling_of_taken
    (h : Writing f s m region t s₀ ins n last mem line k settling true done rest) :
    settling = false := by
  by_contra hne
  cases (h.settled (by simpa using hne)).1

private theorem settling_lt
    (h : Writing f s m region t s₀ ins n last mem line k true taken done rest)
    (hquiet : (f.port t).request = false) : n + 2 ≤ last := by
  by_contra hlast
  obtain ⟨rfl, hfar⟩ := h.settled rfl
  obtain ⟨d, rest, rfl⟩ := h.cons
  have hevents := (h.way.ending hquiet (by omega)).events
  rw [← h.events, List.append_cancel_left_eq, (quiet_of_far hfar hquiet).1] at hevents
  cases hevents

private theorem settling_seen
    (h : Writing f s m region t s₀ ins n last mem line k true taken done rest)
    (hquiet : (f.port t).request = false) :
    f.takesEarly s t = false ∧ f.takesLate s t = false ∧ f.ready s t = false := by
  have hinitial := h.way.events_prefix hquiet (h.settling_lt hquiet)
  obtain ⟨rfl, hfar⟩ := h.settled rfl
  obtain ⟨hearly, hlate⟩ := quiet_of_far hfar hquiet
  obtain ⟨d, rest, rfl⟩ := h.cons
  rw [Feed.events_succ h.way.clk, ← h.events, List.prefix_append_right_inj, hearly,
    hlate] at hinitial
  rcases seen_wanted hinitial with ⟨-, -, -, hready⟩ | ⟨-, hor, -⟩ | ⟨-, hor, -⟩
  · exact ⟨hearly, hlate, hready⟩
  · cases hor
  · cases hor

private theorem goes_settling
    (h : Writing f s m region t s₀ ins n last mem line k true taken done rest)
    (hquiet : (f.port t).request = false) :
    Continues f s m region t ⟨fillFrom mem (lineBase region line) done,
      .write (lineBase region line) k true taken, none⟩ (last - n) := by
  have hlt := h.settling_lt hquiet
  obtain ⟨hearly, hlate, hready⟩ := h.settling_seen hquiet
  have hevents := Feed.events_succ h.way.clk
  rw [hearly, hlate, hready] at hevents
  obtain ⟨rfl, -⟩ := h.settled rfl
  rw [Continues, f.lowCycle_write hquiet]
  refine ⟨last - (n + 2), .writing ⟨h.way.next hquiet hlt, h.hk, h.length, h.words, h.holds, ?_,
    by simp⟩, .inr (.inr ⟨(by simp), by omega⟩)⟩
  rw [hevents, ← h.events]
  simp [seen]

private theorem goes_taken
    (h : Writing f s m region t s₀ ins n last mem line k settling true done rest)
    (hquiet : (f.port t).request = false) (hlt : n + 2 ≤ last) :
    Continues f s m region t ⟨fillFrom mem (lineBase region line) done,
      .write (lineBase region line) k settling true, none⟩ (last - n) := by
  obtain rfl := h.settling_of_taken
  have hinitial := h.way.events_prefix hquiet hlt
  have hevents := Feed.events_succ h.way.clk
  rw [hevents, ← h.events, List.prefix_append_right_inj] at hinitial
  obtain ⟨hearly, hlate, hready⟩ := seen_taken hinitial
  have hnext := h.way.next hquiet hlt
  have hleft := h.events
  rw [Continues, f.lowCycle_write hquiet]
  rw [hearly, hlate] at hevents
  cases hpulse : f.ready s t with
  | false =>
      rw [hpulse] at hevents
      refine ⟨last - (n + 2), .writing ⟨hnext, h.hk, h.length, h.words, h.holds, ?_, by simp⟩,
        .inr (.inr ⟨(by simp), by omega⟩)⟩
      rw [hevents, ← hleft]
      simp [seen]
  | true =>
      rw [hpulse] at hevents
      obtain ⟨hrest, hspo⟩ := hready hpulse
      obtain ⟨d, rest, rfl⟩ := List.exists_cons_of_ne_nil hrest
      have hk : k + 1 < 32 := by
        have hwords := h.words
        rw [List.length_append, h.length] at hwords
        simp at hwords
        omega
      have hne : ¬k = 31 := by omega
      simp only [hne, Bool.not_true, Bool.and_false, Bool.false_and, Bool.false_eq_true, if_false,
        if_true]
      refine ⟨last - (n + 2), .writing ⟨hnext, hk, h.length, h.words, h.holds, ?_, fun _ =>
        ⟨rfl, h.way.far hquiet hpulse⟩⟩, .inr (.inl trivial)⟩
      rw [hevents, ← hleft]
      simp [seen, upcoming, hspo]

private theorem goes_wanted
    (h : Writing f s m region t s₀ ins n last mem line k false false done rest)
    (hquiet : (f.port t).request = false) (hlt : n + 2 ≤ last) :
    Continues f s m region t ⟨fillFrom mem (lineBase region line) done,
      .write (lineBase region line) k false false, none⟩ (last - n) := by
  obtain ⟨d, rest, rfl⟩ := h.cons
  have hinitial := h.way.events_prefix hquiet hlt
  have hevents := Feed.events_succ h.way.clk
  rw [hevents, ← h.events, List.prefix_append_right_inj] at hinitial
  have hnext := h.way.next hquiet hlt
  have hleft := h.events
  have hlength : done.length = k := h.length
  have hwords : (done ++ [d] ++ rest).length = 32 := by
    rw [List.append_assoc]
    exact h.words
  have hholds := h.holds
  rw [List.append_cons] at hholds
  rw [Continues, f.lowCycle_write hquiet]
  rcases seen_wanted hinitial with ⟨hseen, hearly, hlate, hready⟩ | ⟨hseen, htakes, hd, hready⟩ |
    ⟨hseen, htakes, hd, hready, hrest⟩
  · rw [hseen, List.append_nil] at hevents
    rw [hearly, hlate, hready]
    refine ⟨last - (n + 2), .writing ⟨hnext, h.hk, h.length, h.words, h.holds, ?_, by simp⟩,
      .inr (.inr ⟨(by simp), by omega⟩)⟩
    rw [hevents]
    exact h.events
  · rw [htakes, hready, hd]
    simp only [Bool.not_false, Bool.and_self, Bool.true_or, Bool.or_true, if_true,
      Bool.false_eq_true, if_false, storeWord_fillFrom hlength]
    refine ⟨last - (n + 2), .writing ⟨hnext, h.hk, ?_, hwords, hholds, ?_, by simp⟩,
      .inr (.inr ⟨(by simp), by omega⟩)⟩
    · simp [hlength]
    · rw [hevents, hseen, ← hleft]
      simp [upcoming]
  · have hk : k + 1 < 32 := by
      obtain ⟨d', rest, rfl⟩ := List.exists_cons_of_ne_nil hrest
      simp [hlength] at hwords
      omega
    have hne : ¬k = 31 := by omega
    have hfar := h.way.far hquiet hready
    rw [htakes, hready, hd]
    simp only [Bool.not_false, Bool.and_self, Bool.true_or, if_true, Bool.false_eq_true, if_false,
      storeWord_fillFrom hlength, hne]
    refine ⟨last - (n + 2), .writing ⟨hnext, hk, ?_, hwords, hholds, ?_, fun _ => ⟨rfl, hfar⟩⟩,
      .inr (.inl trivial)⟩
    · simp [hlength]
    · obtain ⟨d', rest, rfl⟩ := List.exists_cons_of_ne_nil hrest
      rw [hevents, hseen, ← hleft]
      simp [upcoming]

theorem ends (h : Writing f s m region t s₀ ins n last mem line k settling taken done rest)
    (hquiet : (f.port t).request = false) (hlast : last ≤ n + 1) :
    Continues f s m region t ⟨fillFrom mem (lineBase region line) done,
      .write (lineBase region line) k settling taken, none⟩ (last - n) := by
  have hend := h.way.ending hquiet hlast
  have hpulse := ready_of_half hend.ready hquiet
  have hevents := hend.events
  rw [← h.events, List.append_cancel_left_eq] at hevents
  have hholds := h.holds
  have hwords := h.words
  obtain rfl : settling = false := by
    by_contra hne
    obtain rfl : settling = true := by simpa using hne
    have := h.settling_lt hquiet
    omega
  rw [Continues, f.lowCycle_write hquiet]
  suffices hmem : k = 31 ∧ (if !false && !taken && (f.takesEarly s t || f.takesLate s t ||
      f.ready s t) then storeWord (fillFrom mem (lineBase region line) done)
        (lineBase region line + BitVec.ofNat 30 k) (f.port t).d
      else fillFrom mem (lineBase region line) done) =
      fillFrom mem (lineBase region line) (done ++ rest) by
    rw [hmem.2, if_neg Bool.false_ne_true, if_pos hpulse, if_pos hmem.1]
    refine ⟨0, resting_of_half hend.ready hquiet ?_ (by simp), .inr (.inl hpulse)⟩
    rw [PsramChip.bytes, hend.frames]
    exact hholds
  cases taken with
  | true =>
      obtain rfl : rest = [] := by
        cases rest with
        | nil => rfl
        | cons d rest =>
            rw [upcoming, List.flatMap_cons] at hevents
            split_ifs at hevents
            · cases hevents
            · cases hevents
      have hlength := h.length
      rw [List.append_nil] at hwords ⊢
      simp at hlength ⊢
      omega
  | false =>
      obtain ⟨d, rest, rfl⟩ := h.cons
      have hlength : done.length = k := h.length
      have hdone : d = (f.port t).d ∧ rest = [] := by
        rw [upcoming] at hevents
        split_ifs at hevents
        cases rest with
        | nil => simpa using hevents.symm
        | cons d' rest => simp at hevents
      obtain ⟨rfl, rfl⟩ := hdone
      rw [hpulse, ← storeWord_fillFrom hlength]
      simp [hlength] at hwords ⊢
      omega

end Writing

end Write

/-! ### Between the bursts -/

section Rest

variable {mem : WordMemory} {shown : Option Word}

private theorem bytes_of_starting {total : List (List Pins)} {left : Nat} {s : MemorySystem}
    (h : Starting total left s) : s.chip.bytes m = total.foldl ChipBytes.store m := by
  obtain ⟨boot, hboot, rfl⟩ := h.boot.frames
  rw [List.foldl_append, ChipBytes.store_boot hboot]
  rfl

theorem MemorySystem.Fresh.calm_cycle {s : MemorySystem} {i : MemoryIn} (h : s.Fresh) :
    (s.cycle i.calm).Fresh ∧ (s.cycle i.calm).chip.bytes m = s.chip.bytes m := by
  constructor
  · obtain ⟨before, j, ins, n, hrst, hcalm, rfl⟩ := h
    have hsame : ∀ k < n, ins k = (fun k => if k < n then ins k else i.calm) k :=
      fun k hk => (if_pos hk).symm
    refine ⟨before, j, fun k => if k < n then ins k else i.calm, n + 1, hrst, fun k hk => ?_, ?_⟩
    · dsimp only
      split_ifs with hlt
      · exact hcalm k hlt
      · rfl
    · rw [trace_succ, if_neg (Nat.lt_irrefl n), ← trace_congr hsame]
  · rcases h.starting_or_ready with ⟨total, left, hstart⟩ | hready
    · rw [bytes_of_starting hstart]
      cases left with
      | zero => rw [PsramChip.bytes, hstart.ready.2]
      | succ left => exact bytes_of_starting hstart.next
    · rw [PsramChip.bytes, hready.calm_cycle.2.2]
      rfl

private theorem booting_quiet (hfresh : (f.memory s t).Fresh)
    (hbefore : ∀ u, u < t → (f.port u).request = false)
    (hholds : Holds region mem ((f.memory s t).chip.bytes m))
    (hquiet : (f.port t).request = false) :
    Continues f s m region t ⟨mem, .done, shown⟩ left := by
  have hnext : f.memory s (t + 1) =
      ((f.memory s t).cycle (f.ins (2 * t)).calm).cycle (f.ins (2 * t + 1)).calm := by
    rw [f.memory_succ, Feed.half, ← f.calm_first hquiet, ← f.calm_second hquiet]
  obtain ⟨hfresh', hbytes⟩ := hfresh.calm_cycle (m := m) (i := f.ins (2 * t))
  obtain ⟨hfresh'', hbytes'⟩ := hfresh'.calm_cycle (m := m) (i := f.ins (2 * t + 1))
  rw [← hnext] at hfresh'' hbytes'
  refine ⟨0, ?_, .inl rfl⟩
  rw [f.lowCycle_done hquiet]
  refine .booting hfresh'' (fun u hu => ?_) (by rwa [hbytes', hbytes])
  rcases Nat.lt_succ_iff_lt_or_eq.mp hu with hlt | rfl
  · exact hbefore u hlt
  · exact hquiet

private theorem resting_quiet (hready : (f.memory s t).Ready)
    (hholds : Holds region mem ((f.memory s t).chip.bytes m))
    (hquiet : (f.port t).request = false) :
    Continues f s m region t ⟨mem, .done, shown⟩ left := by
  obtain ⟨hready', -, hframes⟩ := hready.calm_cycle (i := f.ins (2 * t))
  rw [← f.calm_first hquiet] at hready' hframes
  refine ⟨0, ?_, .inl rfl⟩
  rw [f.lowCycle_done hquiet]
  refine resting_of_half hready' hquiet ?_ (by simp)
  rw [PsramChip.bytes, Feed.half, hframes]
  exact hholds

end Rest

/-! ### Requests -/

/-- The host of the memory requests lines of the region, and only between the bursts. -/
structure LowPort.Obeys (p : LowPort) (region : BitVec 9) (b : BurstMemory) : Prop where
  waits : b.burst ≠ .done → p.request = false
  one : p.request = true → p.rd = !p.we
  line : p.request = true → ∃ line : BitVec 16, p.a = region ++ line ++ 0#7

theorem LowPort.Obeys.quiet {p : LowPort} (h : p.request = false) : p.Obeys region b :=
  ⟨fun _ => h, fun h' => absurd h' (by simp [h]), fun h' => absurd h' (by simp [h])⟩

theorem MemorySystem.Begins.bytes {c : PsramChip} (h : Begins s₀ c) :
    c.bytes m = s₀.chip.bytes m := by
  obtain ⟨boot, hboot, hframes⟩ := h.frames
  rw [PsramChip.bytes, hframes, List.foldl_append, ChipBytes.store_boot hboot]
  rfl

/-- The inputs from a request on, if no other one came. -/
def Feed.after (f : Feed) (t k : Nat) : MemoryIn :=
  if k < 2 then f.ins (2 * t + k) else (f.ins (2 * t + k)).calm

section Request

variable {mem : WordMemory} {line : BitVec 16} {write : Bool}

theorem requests (hstart : (f.memory s t).Ready ∨ (f.memory s t).Fresh)
    (hwe : (f.port t).we = write) (hrd : (f.port t).rd = !write) :
    Requests (f.after t) (f.memory s t) write where
  start := hstart
  first := by
    change (f.ins (2 * t)).rst = false ∧ (f.ins (2 * t)).we = write ∧ (f.ins (2 * t)).rd = !write
    rw [f.ins_first]
    exact ⟨rfl, hwe, hrd⟩
  second := by
    change (f.ins (2 * t + 1)).rst = false ∧ (f.ins (2 * t + 1)).we = write ∧
      (f.ins (2 * t + 1)).rd = !write
    rw [f.ins_second]
    exact ⟨rfl, hwe, hrd⟩
  burst := by
    intro _
    change (f.ins (2 * t)).burstLength ≠ 0
    rw [f.ins_first]
    exact (by decide : (32 : BitVec 8) ≠ 0)
  waits n hn _ := by
    rw [Feed.after, if_neg (Nat.not_lt.mpr hn)]
    rfl

private theorem memory_idle (hstart : (f.memory s t).Ready ∨ (f.memory s t).Fresh) :
    (f.memory s t).memory.state = .IDLE := by
  have hready (h : (f.memory s t).Ready) : (f.memory s t).memory.state = .IDLE :=
    congrArg MemoryController.state h.memory
  rcases hstart with h | h
  · exact hready h
  · rcases h.starting_or_ready with ⟨total, left, hstarting⟩ | h
    · exact congrArg MemoryController.state hstarting.memory
    · exact hready h

private theorem underway (hclk : (f.memory s t).clk = false)
    (hstart : (f.memory s t).Ready ∨ (f.memory s t).Fresh)
    (hends : EndsAt (f.after t) (f.memory s t) last) :
    Underway f s (t + 1) (f.memory s t) (f.after t) 2 last where
  run := rfl
  later k := by
    have hplace : 2 * t + (2 + k) = 2 * (t + 1) + k := by omega
    rw [Feed.after, if_neg (by omega), hplace]
  le := hends.1
  ends := hends
  paced := ((MemoryController.paced_of_idle (memory_idle hstart)).cycle).cycle
  clk := by
    change (!!(f.memory s t).clk) = false
    rw [hclk]
    rfl

private theorem seen_request (hstart : (f.memory s t).Ready ∨ (f.memory s t).Fresh)
    (hwe : (f.port t).we = write) (hrd : (f.port t).rd = !write) :
    f.takesEarly s t = write ∧ f.takesLate s t = false ∧ f.ready s t = false := by
  have hidle := memory_idle hstart
  have hhalf : (f.half s t).memory.state = if write then .WE_BEGIN else .RD_BEGIN := by
    cases write
    all_goals
      simp [Feed.half, MemorySystem.cycle, MemoryController.cycle, MemoryController.fsm,
        f.ins_first, LowPort.input, hidle, hwe, hrd]
  refine ⟨?_, ?_, ?_⟩
  · simp [Feed.takesEarly, MemoryController.takes, MemoryController.takesNext, f.ins_first,
      LowPort.input, hidle, hwe]
  · cases write
    all_goals
      simp [Feed.takesLate, MemoryController.takes, MemoryController.takesNext, hhalf]
  · cases write
    all_goals
      simp [Feed.ready, MemoryController.ready, f.ins_second, LowPort.input, hwe, hrd]

private theorem setWidth_after (ha : (f.port t).a = region ++ line ++ 0#7) :
    (f.after t 0).a.setWidth 23 = (line ++ 0#5) ++ 0#2 := by
  change (f.ins (2 * t)).a.setWidth 23 = _
  rw [f.ins_first, ← setWidth_lineAddress region, ← ha]
  rfl

private theorem after_d : (f.after t 0).d = (f.port t).d := by
  change (f.ins (2 * t)).d = _
  rw [f.ins_first]
  rfl

private theorem words_after : (f.after t 0).words = 32 := by
  change (f.ins (2 * t)).words = 32
  rw [f.ins_first]
  rfl

private theorem coupled_write (hclk : (f.memory s t).clk = false)
    (hstart : (f.memory s t).Ready ∨ (f.memory s t).Fresh)
    (hholds : Holds region mem ((f.memory s t).chip.bytes m))
    (hwe : (f.port t).we = true) (hrd : (f.port t).rd = false)
    (ha : (f.port t).a = region ++ line ++ 0#7) (shown : Option Word) :
    ∃ left, Coupled f s m region (t + 1) (f.lowCycle s t ⟨mem, .done, shown⟩) left := by
  obtain ⟨last, c, hends, hbegins, ds, hlength, hframes, hevents⟩ :=
    (requests hstart hwe hrd).wrote
  obtain ⟨hearly, hlate, hready⟩ := seen_request hstart hwe hrd
  have hput : storeWord mem (wordIndex (f.port t).a) (f.port t).d =
      fillFrom mem (lineBase region line) [(f.port t).d] := by
    rw [ha, wordIndex_lineAddress]
    funext w
    rw [storeWord, fillFrom, fillFrom, Function.update_apply]
  have hlow : f.lowCycle s t ⟨mem, .done, shown⟩ =
      ⟨fillFrom mem (lineBase region line) [(f.port t).d],
        .write (lineBase region line) 0 false true, none⟩ := by
    rw [← hput, ← wordIndex_lineAddress, ← ha]
    simp [Feed.lowCycle, BurstMemory.cycle, Feed.env, hwe, hearly]
  rw [words_after] at hlength
  rw [after_d] at hframes hevents
  refine ⟨last - 2, ?_⟩
  rw [hlow]
  refine .writing ⟨underway hclk hstart hends, by omega, rfl, hlength, ?_, ?_, by simp⟩
  · rw [PsramChip.bytes, hframes, List.foldl_append]
    refine Holds.store ?_ (setWidth_after ha) hlength
    change Holds region mem (c.bytes m)
    rw [hbegins.bytes]
    exact hholds
  · rw [Feed.events_succ hclk, hearly, hlate, hready, hevents]
    simp [seen, upcoming]

private theorem coupled_read (hclk : (f.memory s t).clk = false)
    (hstart : (f.memory s t).Ready ∨ (f.memory s t).Fresh)
    (hstores : (f.memory s t).chip.Stores m)
    (hholds : Holds region mem ((f.memory s t).chip.bytes m))
    (hwe : (f.port t).we = false) (hrd : (f.port t).rd = true)
    (ha : (f.port t).a = region ++ line ++ 0#7) (shown : Option Word) :
    ∃ left, Coupled f s m region (t + 1) (f.lowCycle s t ⟨mem, .done, shown⟩) left := by
  obtain ⟨last, c, hends, hbegins, hframes, hevents, hspo⟩ := (requests hstart hwe hrd).fetched
  obtain ⟨hearly, hlate, hready⟩ := seen_request hstart hwe hrd
  have hlow : f.lowCycle s t ⟨mem, .done, shown⟩ =
      ⟨mem, .read (lineBase region line) 0, none⟩ := by
    rw [← wordIndex_lineAddress, ← ha]
    simp [Feed.lowCycle, BurstMemory.cycle, hwe, hrd]
  have hbytes : c.bytes m = (f.memory s t).chip.bytes m := hbegins.bytes
  have hword (j : Nat) (hj : j < 32) : c.wordAt (frameHeader 0xeb (f.after t 0).a) (8 * j) =
      mem (lineBase region line + BitVec.ofNat 30 j) := by
    have hstores' : c.Stores m := hbegins.stream.trans hstores
    rw [ChipBytes.wordAt_frameHeader hstores' (setWidth_after ha), hbytes, ← hholds,
      lineBase_add region line hj]
  rw [words_after] at hframes hevents hspo
  refine ⟨last - 2, ?_⟩
  rw [hlow]
  refine .reading ⟨underway hclk hstart hends, by omega, ?_, ?_, ?_⟩ (by simp)
  · rw [PsramChip.bytes, hframes, List.foldl_append, List.foldl_cons, List.foldl_nil,
      ChipBytes.store_readFrame]
    change Holds region mem (c.bytes m)
    rw [hbytes]
    exact hholds
  · rw [Feed.events_succ hclk, hearly, hlate, hready, hevents, List.range_eq_range']
    have hwords : (List.range' 0 31).map (fun j => BurstEvent.ready
          (mem (lineBase region line + BitVec.ofNat 30 j))) =
        (List.range' 0 31).map (fun j => BurstEvent.ready
          (c.wordAt (frameHeader 0xeb (f.after t 0).a) (8 * j))) := by
      refine List.map_congr_left fun j hj => ?_
      rw [hword j (by simp at hj; omega)]
    simpa [seen] using hwords
  · exact hspo.trans (hword 31 (by omega))

end Request

/-! ### Any cycle -/

/-- The controllers and a burst memory stay coupled, as long as the host obeys. -/
theorem Coupled.cycle (h : Coupled f s m region t b left) (hclk : s.clk = false)
    (hstores : s.chip.Stores m) (hobeys : (f.port t).Obeys region b) :
    Continues f s m region t b left := by
  have hclk' : (f.memory s t).clk = false := f.clk_memory hclk
  have hstores' : (f.memory s t).chip.Stores m := (stream_trace _).trans hstores
  have hrequest {mem : WordMemory} (shown : Option Word)
      (hstart : (f.memory s t).Ready ∨ (f.memory s t).Fresh)
      (hholds : Holds region mem ((f.memory s t).chip.bytes m))
      (hrequest : (f.port t).request = true) (hone : (f.port t).rd = !(f.port t).we)
      (hline : ∃ line : BitVec 16, (f.port t).a = region ++ line ++ 0#7) :
      Continues f s m region t ⟨mem, .done, shown⟩ left := by
    obtain ⟨line, ha⟩ := hline
    cases hwe : (f.port t).we with
    | false =>
        rw [hwe] at hone
        obtain ⟨left', h⟩ := coupled_read hclk' hstart hstores' hholds hwe hone ha shown
        exact ⟨left', h, .inl rfl⟩
    | true =>
        rw [hwe] at hone
        obtain ⟨left', h⟩ := coupled_write hclk' hstart hholds hwe hone ha shown
        exact ⟨left', h, .inl rfl⟩
  cases h with
  | booting hfresh hbefore hholds =>
      cases hquiet : (f.port t).request with
      | false => exact booting_quiet hfresh hbefore hholds hquiet
      | true =>
          exact hrequest none (.inr hfresh) hholds hquiet (hobeys.one hquiet) (hobeys.line hquiet)
  | resting hready hholds hshows =>
      cases hquiet : (f.port t).request with
      | false => exact resting_quiet hready hholds hquiet
      | true =>
          exact hrequest _ (.inl hready) hholds hquiet (hobeys.one hquiet) (hobeys.line hquiet)
  | @reading s₀ ins n last mem base shown k h hshows =>
      have hquiet := hobeys.waits (by simp)
      rcases Nat.lt_or_ge (n + 1) last with hlt | hge
      · exact h.goes hquiet hlt
      · exact h.ends hquiet hge
  | @writing s₀ ins n last mem line settling taken done rest k h =>
      have hquiet := hobeys.waits (by simp)
      rcases Nat.lt_or_ge (n + 1) last with hlt | hge
      · cases settling with
        | true => exact h.goes_settling hquiet
        | false =>
            cases taken with
            | true => exact h.goes_taken hquiet hlt
            | false => exact h.goes_wanted hquiet hlt
      · exact h.ends hquiet hge

theorem Coupled.spo (h : Coupled f s m region t b left) : f.spo s t = b.spo (f.env s t) := by
  have hsteady (hsteady : (f.memory s t).memory.Steady) :
      f.spo s t = (f.memory s t).memory.spo := hsteady.cycle
  cases h with
  | booting hfresh hbefore hholds => rfl
  | resting hready hholds hshows =>
      rename_i shown
      cases shown with
      | none => rfl
      | some v =>
          refine (hsteady fun hstate => ?_).trans (hshows v rfl)
          rw [memory_idle (.inl hready)] at hstate
          cases hstate
  | reading h hshows =>
      rename_i shown _
      cases shown with
      | none => rfl
      | some v =>
          obtain ⟨hspo, hsteady'⟩ := hshows v rfl
          exact (hsteady hsteady').trans hspo
  | writing h => rfl

private theorem ready_request (h : (f.port t).request = true) : f.ready s t = false := by
  have hor : ((f.port t).rd || (f.port t).we) = true := h
  rw [Feed.ready, MemoryController.ready, f.ins_second]
  simp [LowPort.input, hor]

theorem Coupled.ready (h : Coupled f s m region t b left) (hobeys : (f.port t).Obeys region b) :
    f.ready s t = b.ready (f.env s t) (f.port t).rd (f.port t).we ∨
      ∀ u, u ≤ t → (f.port u).request = false := by
  cases hquiet : (f.port t).request with
  | true =>
      have hor : ((f.port t).rd || (f.port t).we) = true := hquiet
      left
      rw [ready_request hquiet, BurstMemory.ready, hor]
      rfl
  | false =>
      have hor : ((f.port t).rd || (f.port t).we) = false := hquiet
      cases h with
      | booting hfresh hbefore hholds =>
          refine .inr fun u hu => ?_
          rcases Nat.lt_or_eq_of_le hu with hlt | rfl
          · exact hbefore u hlt
          · exact hquiet
      | resting hready hholds hshows =>
          have hhalf : (f.half s t).Ready := by
            rw [Feed.half, f.calm_first hquiet]
            exact hready.calm_cycle.1
          left
          rw [ready_of_half hhalf hquiet, BurstMemory.ready, hor]
          rfl
      | reading h hshows =>
          left
          rw [BurstMemory.ready, hor]
          rfl
      | @writing s₀ ins n last mem line settling taken done rest k h =>
          left
          rw [BurstMemory.ready, hor]
          cases settling with
          | true => exact (h.settling_seen hquiet).2.2
          | false => rfl

end Cycle

/-! ## Runs -/

section Run

variable {f : Feed} {s : MemorySystem} {m : ChipBytes} {region : BitVec 9} {low₀ : BurstMemory}
variable {t left : Nat}

/-- In every cycle the host obeys the protocol of the memory. -/
def Feed.Obeys (f : Feed) (s : MemorySystem) (region : BitVec 9) (low₀ : BurstMemory) : Prop :=
  ∀ t, (f.port t).Obeys region (f.low s low₀ t)

private theorem coupled_run (hobeys : f.Obeys s region low₀) (hclk : s.clk = false)
    (hstores : s.chip.Stores m) (hstart : Coupled f s m region 0 low₀ 0) (t : Nat) :
    ∃ left, Coupled f s m region t (f.low s low₀ t) left := by
  induction t with
  | zero => exact ⟨0, hstart⟩
  | succ t ih =>
      obtain ⟨left, h⟩ := ih
      obtain ⟨left', h', -⟩ := h.cycle hclk hstores (hobeys t)
      exact ⟨left', h'⟩

private theorem lowCycle_request {b : BurstMemory} (h : (f.port t).request = true) :
    (f.lowCycle s t b).burst ≠ .done := by
  have hor : (f.port t).rd = true ∨ (f.port t).we = true := by simpa [LowPort.request] using h
  cases hwe : (f.port t).we with
  | true => simp [Feed.lowCycle, BurstMemory.cycle, hwe]
  | false =>
      have hrd : (f.port t).rd = true := hor.resolve_right (by simp [hwe])
      simp [Feed.lowCycle, BurstMemory.cycle, hwe, hrd]

/-- A burst comes to its next pulse, by induction on what is left of it. -/
theorem ready_of_busy (hobeys : f.Obeys s region low₀) (hclk : s.clk = false)
    (hstores : s.chip.Stores m) (h : Coupled f s m region t (f.low s low₀ t) left)
    (hbusy : (f.low s low₀ t).burst ≠ .done) : ∃ u, t ≤ u ∧ f.ready s u = true := by
  induction left using Nat.strong_induction_on generalizing t with
  | _ left ih =>
      obtain ⟨left', h', hdone | hready | ⟨hbusy', hless⟩⟩ := h.cycle hclk hstores (hobeys t)
      · exact absurd hdone hbusy
      · exact ⟨t, Nat.le_refl t, hready⟩
      · obtain ⟨u, hle, hready⟩ := ih left' hless h' hbusy'
        exact ⟨u, by omega, hready⟩

/-- Without a request the boot comes to its end. -/
theorem ready_of_fresh (hfresh : (f.memory s t).Fresh)
    (hquiet : ∀ u, t ≤ u → (f.port u).request = false) : f.ready s (t + 10039) = true := by
  obtain ⟨before, j, ins, n, hrst, hcalm, hstate⟩ := hfresh
  let joined (k : Nat) : MemoryIn := if k < n then ins k else f.ins (2 * t + (k - n))
  have hmemory : trace cycle joined (before.cycle j) n = f.memory s t := by
    rw [hstate]
    exact trace_congr fun k hk => if_pos hk
  have hins : (fun k => joined (n + k)) = fun k => f.ins (2 * t + k) := by
    funext k
    change (if n + k < n then ins (n + k) else f.ins (2 * t + (n + k - n))) = _
    rw [if_neg (by omega), Nat.add_sub_cancel_left]
  have hhalf : f.half s (t + 10039) = trace cycle joined (before.cycle j) (n + 2 + 20077) := by
    have hplace : 2 * (t + 10039) + 1 = 2 * t + (2 + 20077) := by omega
    rw [Nat.add_assoc, trace_add, hmemory, hins, Feed.memory, ← trace_add, f.half_eq, hplace]
  have hcalm' (k : Nat) : joined k = (joined k).calm := by
    simp only [joined]
    split_ifs with hk
    · exact hcalm k hk
    · exact LowPort.input_calm (hquiet _ (by omega)) _ _
  have hready : (f.half s (t + 10039)).Ready := by
    rw [hhalf]
    exact (ready_of_reset hrst fun k _ => hcalm' k).1
  exact ready_of_half hready (hquiet _ (by omega))

theorem ready_again (hobeys : f.Obeys s region low₀) (hclk : s.clk = false)
    (hstores : s.chip.Stores m) (hstart : Coupled f s m region 0 low₀ 0) (t : Nat) :
    ∃ u, t ≤ u ∧ f.ready s u = true := by
  have hbusy (u : Nat) (hu : (f.low s low₀ u).burst ≠ .done) :
      ∃ v, u ≤ v ∧ f.ready s v = true := by
    obtain ⟨left, h⟩ := coupled_run hobeys hclk hstores hstart u
    exact ready_of_busy hobeys hclk hstores h hu
  by_cases hrequest : ∃ u, t ≤ u ∧ (f.port u).request = true
  · obtain ⟨u, hle, hu⟩ := hrequest
    obtain ⟨v, huv, hready⟩ := hbusy (u + 1) (lowCycle_request hu)
    exact ⟨v, by omega, hready⟩
  · have hquiet (u : Nat) (hu : t ≤ u) : (f.port u).request = false := by
      by_contra hne
      exact hrequest ⟨u, hu, by simpa using hne⟩
    obtain ⟨left, h⟩ := coupled_run hobeys hclk hstores hstart t
    by_cases hdone : (f.low s low₀ t).burst = .done
    · cases hlow : f.low s low₀ t with
      | mk mem burst shown =>
          rw [hlow] at h hdone
          cases h with
          | booting hfresh _ _ => exact ⟨t + 10039, by omega, ready_of_fresh hfresh hquiet⟩
          | resting hready _ _ =>
              refine ⟨t, Nat.le_refl t, ready_of_half ?_ (hquiet t (Nat.le_refl t))⟩
              rw [Feed.half, f.calm_first (hquiet t (Nat.le_refl t))]
              exact hready.calm_cycle.1
          | reading _ _ => cases hdone
          | writing _ => cases hdone
    · exact hbusy t hdone

theorem Coupled.holds {b : BurstMemory} (h : Coupled f s m region t b left)
    (hdone : b.burst = .done) : Holds region b.mem ((f.memory s t).chip.bytes m) := by
  cases h with
  | booting _ _ hholds => exact hholds
  | resting _ hholds _ => exact hholds
  | reading _ _ => cases hdone
  | writing _ => cases hdone

/--
From a reset on the controllers and the chip are a burst memory that samples no word in
the first cycle after a pulse: `ready` comes as its pulses, but for the boot before the
first request, `spo` is what it shows, it does not stop, and between the bursts the chip
holds its words.
-/
theorem burst_contract {mem : WordMemory} (hfresh : s.Fresh) (hclk : s.clk = false)
    (hstores : s.chip.Stores m) (hholds : Holds region mem (s.chip.bytes m))
    (hobeys : f.Obeys s region ⟨mem, .done, none⟩) :
    let low := f.low s ⟨mem, .done, none⟩
    (∀ t, f.ready s t = (low t).ready (f.env s t) (f.port t).rd (f.port t).we ∨
      ∀ u, u ≤ t → (f.port u).request = false) ∧
    (∀ t, f.spo s t = (low t).spo (f.env s t)) ∧
    (∀ t, ∃ u, t ≤ u ∧ (f.env s u).finish = true) ∧
    ∀ t, (low t).burst = .done → Holds region (low t).mem ((f.memory s t).chip.bytes m) := by
  have hstart : Coupled f s m region 0 ⟨mem, .done, none⟩ 0 :=
    .booting hfresh (fun u hu => absurd hu (Nat.not_lt_zero u)) hholds
  have hrun := coupled_run hobeys hclk hstores hstart
  refine ⟨fun t => ?_, fun t => ?_, ready_again hobeys hclk hstores hstart, fun t hdone => ?_⟩
  · obtain ⟨left, h⟩ := hrun t
    exact h.ready (hobeys t)
  · obtain ⟨left, h⟩ := hrun t
    exact h.spo
  · obtain ⟨left, h⟩ := hrun t
    exact h.holds hdone

end Run

def writeFirst : Feed where
  port t := ⟨false, t == 0, 0, 0xdeadbeef⟩
  junk _ := 0
  noise _ := 0

def fromReset : MemorySystem :=
  (MemorySystem.mk true .initial .initial ⟨ChipBytes.stream fun _ => 0, [], 0, []⟩ []).cycle
    { writeFirst.ins 0 with rst := true }

theorem fresh_fromReset : fromReset.Fresh :=
  ⟨_, { writeFirst.ins 0 with rst := true }, writeFirst.ins, 0, rfl,
    fun k hk => absurd hk (Nat.not_lt_zero k), rfl⟩

theorem burst_contract_writeFirst :
    ∃ u, 5 ≤ u ∧ (writeFirst.env fromReset u).finish = true := by
  have hobeys : writeFirst.Obeys fromReset 0 ⟨fun _ => 0, .done, none⟩ := by
    intro u
    cases u with
    | zero => exact ⟨fun h => absurd rfl h, fun _ => rfl, fun _ => ⟨0, rfl⟩⟩
    | succ u => exact .quiet rfl
  have hzero : (0 : Word) = 0#8 ++ 0#8 ++ 0#8 ++ 0#8 := by decide
  have hholds : Holds 0 (fun _ => 0) (fromReset.chip.bytes fun _ => 0) := fun _ => hzero
  exact (burst_contract fresh_fromReset rfl rfl hholds hobeys).2.2.1 5

end PComputer.Rtl
