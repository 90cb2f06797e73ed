import PComputer.Rtl.Computer

/-!
# The CPU as the host of the cache

What the CPU requests, it requests once, and it waits with address and data in place.  So
the cache in the computer gets the host it was proved against.
-/

namespace PComputer.Rtl

open PComputer.Foundation

/-! ## The requests of the core -/

namespace Core

variable {c : Core} {i : CoreIn}

def requests (c : Core) : Bool := c.rd || c.we

structure Coherent (c : Core) : Prop where
  memory : c.phase = .MEM → c.op = OP_STORE ∨ c.op = OP_LOAD
  rv32m : c.phase = .RV32M_WAIT → c.op = OP_R
  returns : c.phase = .MEM_WAIT → c.phaseReturn = .ID_RF ∨ c.phaseReturn = .WB ∨
    c.phaseReturn = .EXU ∨ c.phaseReturn = .IF

theorem requests_IF (h : c.phase = .IF) : c.rd = true ∧ c.we = false := by
  simp [rd, we, control, h]

theorem requests_MEM (hc : c.Coherent) (h : c.phase = .MEM) : c.requests = true := by
  rcases hc.memory h with hop | hop
  · cases hu : c.storeUnaligned <;> simp [requests, rd, we, control, controlMEM, h, hop, hu]
  · simp [requests, rd, we, control, controlMEM, h, hop]

theorem requests_MEMU (h : c.phase = .MEMU) : c.rd = false ∧ c.we = true := by
  simp [rd, we, control, h]

theorem quiet_of_phase {p : Phase} (h : c.phase = p)
    (hp : p ≠ .IF ∧ p ≠ .MEM ∧ p ≠ .MEMU) :
    c.rd = false ∧ c.we = false := by
  obtain ⟨hIF, hMEM, hMEMU⟩ := hp
  cases p with
  | IF => exact absurd rfl hIF
  | MEM => exact absurd rfl hMEM
  | MEMU => exact absurd rfl hMEMU
  | EX =>
      simp only [rd, we, control, h, controlEX]
      split_ifs <;> exact ⟨rfl, rfl⟩
  | WB =>
      simp only [rd, we, control, h, controlWB]
      split_ifs <;> exact ⟨rfl, rfl⟩
  | _ => simp [rd, we, control, h]

theorem phase_of_requests (h : c.requests = true) :
    c.phase = .IF ∨ c.phase = .MEM ∨ c.phase = .MEMU := by
  by_contra hphase
  rw [not_or, not_or] at hphase
  have hquiet := quiet_of_phase rfl hphase
  simp [requests, hquiet] at h

theorem control_ready (c : Core) (ready : Bool) :
    c.memAddr (c.control ready) = c.a ∧ c.memwriteData (c.control ready) = byteSwap c.d := by
  have hctl : (c.control ready).IorDorW = (c.control false).IorDorW ∧
      (c.control ready).MemSrc = (c.control false).MemSrc := by
    cases h : c.phase <;> simp [control, h]
  simp only [a, d, byteSwap_byteSwap, memAddr, memwriteData, hctl, and_self]

private theorem bus_MEM_WAIT (h : c.phase = .MEM_WAIT) : c.a = c.mar ∧ c.d = byteSwap c.mwr := by
  simp [a, d, control, memAddr, memwriteData, h]

theorem advance_held (h : (c.advance i).phase = .MEM_WAIT) :
    (c.advance i).a = c.a ∧ (c.advance i).d = c.d := by
  obtain ⟨ha, hd⟩ := c.control_ready i.ready
  obtain ⟨hmar, hmwr⟩ := bus_MEM_WAIT h
  rw [hmar, hmwr, advance_mar, advance_mwr, ha, hd, byteSwap_byteSwap]
  exact ⟨rfl, rfl⟩

theorem advance_instruction_of_ne (hIF : c.phase ≠ .IF) (hwait : c.phase ≠ .MEM_WAIT) :
    (c.advance i).instruction = c.instruction := by
  have hctl : (c.control i.ready).IRWrite = false := by
    cases h : c.phase with
    | IF => exact absurd h hIF
    | MEM_WAIT => exact absurd h hwait
    | EX =>
        simp only [control, h, controlEX]
        split_ifs <;> rfl
    | MEM =>
        simp only [control, h, controlMEM]
        split_ifs <;> rfl
    | WB =>
        simp only [control, h, controlWB]
        split_ifs <;> rfl
    | _ => simp [control, h]
  rw [advance_instruction, hctl]
  simp

theorem phase_of_request (h : c.requests = true) (hready : c.phase = .IF → i.ready = false) :
    (c.advance i).phase = .MEM_WAIT := by
  rw [advance_phase, phaseNext]
  rcases phase_of_requests h with hphase | hphase | hphase <;> simp [hphase, hready]

structure Origins (c : Core) (i : CoreIn) : Prop where
  EX : (c.advance i).phase = .EX → c.phase = .ID_RF
  RV32M_WAIT : (c.advance i).phase = .RV32M_WAIT →
    c.phase = .EX ∧ c.op = OP_R ∨ c.phase = .RV32M_WAIT
  MEM : (c.advance i).phase = .MEM → c.phase = .EX ∧ (c.op = OP_STORE ∨ c.op = OP_LOAD)
  MEM_WAIT : (c.advance i).phase = .MEM_WAIT →
    c.phase = .IF ∧ i.ready = false ∨ c.phase = .MEM ∨ c.phase = .MEMU ∨
      c.phase = .MEM_WAIT ∧ i.ready = false
  EXU : (c.advance i).phase = .EXU →
    c.phase = .MEM_WAIT ∧ i.ready = true ∧ c.phaseReturn = .EXU
  MEMU : (c.advance i).phase = .MEMU → c.phase = .EXU
  WB : (c.advance i).phase = .WB →
    c.phase = .ID_RF ∧ (c.op = OP_LUI ∨ c.op = OP_AUIPC ∨ c.op = OP_JAL) ∨
      c.phase = .EX ∧ ¬ (c.op = OP_STORE ∨ c.op = OP_LOAD) ∨ c.phase = .RV32M_WAIT ∨
      c.phase = .MEM_WAIT ∧ i.ready = true ∧ c.phaseReturn = .WB

theorem Coherent.origins (hc : c.Coherent) (i : CoreIn) : c.Origins i := by
  have hreturn := hc.returns
  constructor
  all_goals
    intro h
    rw [advance_phase] at h
    cases hphase : c.phase with
    | IF | EX | RV32M_WAIT | MEM_WAIT =>
        simp only [phaseNext, hphase] at h
        split_ifs at h <;> simp_all
    | ID_RF =>
        simp only [phaseNext, hphase, phaseNextID_RF] at h
        split_ifs at h <;> simp_all
    | _ => simp_all [phaseNext]

theorem Coherent.advance (hc : c.Coherent) : (c.advance i).Coherent := by
  have horigins := hc.origins i
  have hop {p : Phase} (hphase : c.phase = p) (hp : p ≠ .IF ∧ p ≠ .MEM_WAIT) :
      (c.advance i).op = c.op := by
    rw [op, advance_instruction_of_ne (hphase ▸ hp.1) (hphase ▸ hp.2), op]
  refine ⟨fun h => ?_, fun h => ?_, fun h => ?_⟩
  · obtain ⟨hphase, hmem⟩ := horigins.MEM h
    rw [hop hphase (by decide)]
    exact hmem
  · rcases horigins.RV32M_WAIT h with ⟨hphase, hR⟩ | hphase
    · rw [hop hphase (by decide)]
      exact hR
    · rw [hop hphase (by decide)]
      exact hc.rv32m hphase
  · rw [advance_phaseReturn]
    rcases horigins.MEM_WAIT h with ⟨hphase, hready⟩ | hphase | hphase | ⟨hphase, -⟩
    · simp [phaseReturnNext, hphase, hready]
    · simp only [phaseReturnNext, hphase]
      split_ifs <;> simp
    · simp [phaseReturnNext, hphase]
    · simp only [phaseReturnNext, hphase]
      exact hc.returns hphase

end Core

/-! ## The windows -/

/-- The 8 MB of the chip. -/
abbrev ChipWindow (w : BitVec 30) : Prop := w.extractLsb' 21 9 = 64

abbrev RamWindow (w : BitVec 30) : Prop := w.extractLsb' 12 18 = 0x4000

abbrev RomWindow (w : BitVec 30) : Prop := w.extractLsb' 10 20 = 0xf0000

namespace Computer

section

variable {s : Computer}

theorem mapOut_cache (s : Computer) :
    s.mapOut.cacheWe = (decide (Mmapper.area s.a = 2) && s.core.we) ∧
      s.mapOut.cacheRd = (decide (Mmapper.area s.a = 2) && s.core.rd) := by
  by_cases harea : Mmapper.area s.a = 2
  · simp [mapOut, Mmapper.out, harea]
  · simp only [mapOut, Mmapper.out, harea, if_false, decide_false, Bool.false_and]
    split_ifs
    · exact ⟨rfl, rfl⟩
    · split <;> exact ⟨rfl, rfl⟩
    all_goals exact ⟨rfl, rfl⟩

theorem request_hostIn :
    s.hostIn.request = true ↔ Mmapper.area s.a = 2 ∧ s.core.requests = true := by
  obtain ⟨hwe, hrd⟩ := s.mapOut_cache
  simp only [HostIn.request, hostIn, hwe, hrd, Core.requests]
  cases s.core.rd <;> cases s.core.we <;> simp

theorem ready_of_cache (h : Mmapper.area s.a = 2) (i : ComputerIn) :
    s.ready i = s.cached.ready s.hostIn := by
  simp [ready, Mmapper.ready, mapIn, h]

end

/-! ## Runs -/

section Run

variable {x : ReadX} {m : ChipBytes} {ins : Nat → ComputerIn} {tr : Nat → Computer} {t : Nat}

def coreIn (x : ReadX) (i : ComputerIn) (s : Computer) : CoreIn := s.cpu.coreIn x (s.cpuIn i)

/-- A run from a reset on, with a chip that held `m` at power-up. -/
structure Starts (x : ReadX) (m : ChipBytes) (ins : Nat → ComputerIn) (tr : Nat → Computer) :
    Prop where
  isRun : IsRun x ins tr
  clk : (tr 0).cached.memory.clk = false
  stores : (tr 0).cached.memory.chip.Stores m

/--
The program leaves the cache alone until that has cleared its tags, and uses it for the 8 MB
of the chip only.
-/
structure Runs (x : ReadX) (m : ChipBytes) (ins : Nat → ComputerIn) (tr : Nat → Computer) :
    Prop extends Starts x m ins tr where
  early : ∀ t, 0 < t → t < 259 → (tr t).hostIn.request = false
  window : ∀ t, 0 < t → (tr t).hostIn.request = true → ChipWindow (wordIndex (tr t).a)

/-- Before cycle `t` the cache is used so. -/
def Served (tr : Nat → Computer) (t : Nat) : Prop :=
  ∀ u, 0 < u → u < t → (tr u).hostIn.request = true →
    259 ≤ u ∧ ChipWindow (wordIndex (tr u).a)

theorem Served.mono (h : Served tr t) {u : Nat} (hle : u ≤ t) : Served tr u :=
  fun v hv hvu => h v hv (by omega)

theorem Runs.served (h : Runs x m ins tr) (t : Nat) : Served tr t := by
  intro u hu _ hrequest
  refine ⟨?_, h.window u hu hrequest⟩
  by_contra hlt
  rw [h.early u hu (by omega)] at hrequest
  cases hrequest

namespace Starts

theorem core_succ (h : Starts x m ins tr) (ht : 0 < t) :
    (tr (t + 1)).core = (tr t).core.advance ((tr t).coreIn x (ins t)) := by
  rw [h.isRun.next t]
  change (tr t).core.cycle ((tr t).coreIn x (ins t)) = _
  have hrst : ((tr t).coreIn x (ins t)).rst = false := h.isRun.running t ht
  simp [Core.cycle, hrst]

theorem phase_one (h : Starts x m ins tr) : (tr 1).phase = .IF := by
  rw [h.isRun.next 0]
  change ((tr 0).core.cycle ((tr 0).coreIn x (ins 0))).phase = _
  have hrst : ((tr 0).coreIn x (ins 0)).rst = true := h.isRun.rst
  simp [Core.cycle, Core.reset, hrst]

theorem coherent (h : Starts x m ins tr) (ht : 0 < t) : (tr t).core.Coherent := by
  induction t, ht using Nat.le_induction with
  | base =>
      have hphase : (tr 1).core.phase = .IF := h.phase_one
      constructor <;> simp [hphase]
  | succ t ht ih =>
      rw [h.core_succ ht]
      exact ih.advance

private theorem reset_one (h : Starts x m ins tr) : (tr 1).reset = ⟨true, true, true⟩ := by
  rw [h.isRun.next 0]
  change (tr 0).reset.cycle (ins 0).rst = _
  simp [ResetUnit.cycle, h.isRun.rst]

private theorem reset_later (h : Starts x m ins tr) (t : Nat) :
    (tr (t + 2)).reset = ⟨false, false, false⟩ := by
  have hstep (t : Nat) (ht : 0 < t) : (tr (t + 1)).reset = (tr t).reset.cycle false := by
    rw [h.isRun.next t, ← h.isRun.running t ht]
    rfl
  induction t with
  | zero =>
      rw [hstep 1 Nat.one_pos, h.reset_one]
      rfl
  | succ t ih =>
      rw [hstep (t + 2) (by omega), ih]
      rfl

/-! ### The cache in the computer -/

end Starts

/-- From cycle 2 on the cache and its memory run by themselves. -/
def hosts (tr : Nat → Computer) (t : Nat) : HostIn := (tr (t + 2)).hostIn

def cacheds (tr : Nat → Computer) (t : Nat) : CachedMemory := (tr (t + 2)).cached

def wiring (ins : Nat → ComputerIn) (n : Nat) : Wires :=
  if n % 2 = 0 then (ins (n / 2 + 2)).wires else (ins (n / 2 + 2)).wires'

namespace Starts

theorem cached_isRun (h : Starts x m ins tr) :
    CachedMemory.IsRun (hosts tr) (wiring ins) (cacheds tr) := by
  intro t
  have hreset := h.reset_later t
  have hwires : wiring ins (2 * t) = (ins (t + 2)).wires := by simp [wiring]
  have hwires' : wiring ins (2 * t + 1) = (ins (t + 2)).wires' := by
    have hmod : (2 * t + 1) % 2 = 1 := by omega
    have hdiv : (2 * t + 1) / 2 = t := by omega
    simp [wiring, hmod, hdiv]
  rw [hwires, hwires', cacheds, h.isRun.next (t + 2)]
  exact cachedCycle_of_rst _ _ (by rw [hreset]) (by rw [hreset])

theorem cached_reset (h : Starts x m ins tr) : (cacheds tr 0).Reset m := by
  have hreset := h.reset_one
  have hnext : cacheds tr 0 = (tr 1).cachedCycle (ins 1) := by
    rw [cacheds, h.isRun.next 1]
    rfl
  have hfirst : (tr 1).cached = (tr 0).cachedCycle (ins 0) := by
    rw [h.isRun.next 0]
    rfl
  have hpsram : (tr 1).reset.rstPsram = true := by rw [hreset]
  have hmmu : (tr 1).reset.rstMmu = true := by rw [hreset]
  have hstream (s : MemorySystem) (i : MemoryIn) : (s.cycle i).chip.stream = s.chip.stream :=
    PsramChip.stream_clock _ _ _
  let input := (tr 1).cached.cache.port.input (ins 1).wires.junk (ins 1).wires.noise
  rw [hnext]
  refine ⟨⟨_, _, hmmu, rfl⟩, ⟨_, _, fun _ => input, 0, hpsram, ?_, rfl⟩, ?_, ?_⟩
  · exact fun k hk => absurd hk (Nat.not_lt_zero k)
  · change (!!(tr 1).cached.memory.clk) = false
    rw [hfirst]
    change (!!(!!(tr 0).cached.memory.clk)) = false
    rw [h.clk]
    rfl
  · unfold PsramChip.Stores
    change (MemorySystem.cycle _ (MemorySystem.cycle _ (tr 1).cached.memory)).chip.stream = _
    rw [hstream, hstream, hfirst]
    change (MemorySystem.cycle _ (MemorySystem.cycle _ (tr 0).cached.memory)).chip.stream = _
    rw [hstream, hstream]
    exact h.stores

theorem waits_for_cache (h : Starts x m ins tr) (ht : 259 ≤ t)
    (hstate : (tr t).cached.cache.state ≠ .IDLE) :
    (tr t).phase = .MEM_WAIT ∧ Mmapper.area (tr t).a = 2 ∧
      (tr t).a = (tr (t - 1)).a ∧ (tr t).core.d = (tr (t - 1)).core.d := by
  induction t, ht using Nat.le_induction with
  | base =>
      exact absurd (CachedMemory.state_of_run h.cached_isRun h.cached_reset).2 hstate
  | succ t ht ih =>
      have hcore := h.core_succ (t := t) (by omega)
      have hcached := h.cached_isRun (t - 2)
      have hshift : t - 2 + 2 = t := by omega
      have hshift' : t - 2 + 1 + 2 = t + 1 := by omega
      rw [cacheds, cacheds, hosts, hshift, hshift'] at hcached
      have harea : Mmapper.area (tr t).a = 2 ∧ (tr (t + 1)).core.phase = .MEM_WAIT := by
        by_cases hidle : (tr t).cached.cache.state = .IDLE
        · have hrequest : (tr t).hostIn.request = true := by
            by_contra hquiet
            obtain ⟨hwe, hrd⟩ : (tr t).hostIn.we = false ∧ (tr t).hostIn.rd = false := by
              simpa [HostIn.request] using hquiet
            refine hstate ?_
            rw [hcached]
            simp [CachedMemory.cycle, CachedMemory.cacheIn, CacheCpu.cycle, CacheCpu.fsm, hidle,
              hwe, hrd]
          obtain ⟨harea, hrequests⟩ := request_hostIn.mp hrequest
          refine ⟨harea, ?_⟩
          rw [hcore]
          refine Core.phase_of_request hrequests fun _ => ?_
          have hready := ready_of_cache harea (ins t)
          have hor : ((tr t).hostIn.we || (tr t).hostIn.rd) = true := hrequest
          exact hready.trans (by simp [CachedMemory.ready, CacheCpu.ready, hor])
        · obtain ⟨hphase, harea, -⟩ := ih hidle
          refine ⟨harea, ?_⟩
          have hphase' : (tr t).core.phase = .MEM_WAIT := hphase
          have hready : ((tr t).coreIn x (ins t)).ready = false :=
            (ready_of_cache harea (ins t)).trans
              (by simp [CachedMemory.ready, CacheCpu.ready, hidle])
          rw [hcore, Core.advance_phase, Core.phaseNext]
          simp [hphase', hready]
      obtain ⟨harea, hwait⟩ := harea
      have hheld := Core.advance_held (hcore ▸ hwait)
      rw [← hcore] at hheld
      have ha : (tr (t + 1)).a = (tr t).a := hheld.1
      exact ⟨hwait, ha ▸ harea, ha, hheld.2⟩

/-- The CPU obeys the protocol of the cache. -/
theorem protocol (h : Starts x m ins tr) :
    CachedMemory.Protocol (hosts tr) (cacheds tr) where
  issued t ht hrequest := by
    obtain ⟨-, hrequests⟩ := request_hostIn.mp hrequest
    have hcore : (tr (t + 3)).core =
        (tr (t + 2)).core.advance ((tr (t + 2)).coreIn x (ins (t + 2))) :=
      h.core_succ (t := t + 2) (by omega)
    have hphase : (tr (t + 3)).core.phase ≠ .MEM_WAIT := by
      have hrequests' : (tr (t + 3)).core.requests = true := hrequests
      rcases Core.phase_of_requests hrequests' with hother | hother | hother <;> simp [hother]
    have hidle : (tr (t + 2)).cached.cache.state = .IDLE := by
      by_contra hstate
      obtain ⟨hwait, harea, -⟩ := h.waits_for_cache (t := t + 2) (by omega) hstate
      have hwait' : (tr (t + 2)).core.phase = .MEM_WAIT := hwait
      have hready : ((tr (t + 2)).coreIn x (ins (t + 2))).ready = false :=
        (ready_of_cache harea (ins (t + 2))).trans
          (by simp [CachedMemory.ready, CacheCpu.ready, hstate])
      refine hphase ?_
      rw [hcore, Core.advance_phase, Core.phaseNext]
      simp [hwait', hready]
    have hquiet : (tr (t + 2)).hostIn.request = false := by
      by_contra hnow
      rw [Bool.not_eq_false] at hnow
      obtain ⟨harea, hrequests'⟩ := request_hostIn.mp hnow
      refine hphase ?_
      rw [hcore]
      refine Core.phase_of_request hrequests' fun _ => ?_
      have hor : ((tr (t + 2)).hostIn.we || (tr (t + 2)).hostIn.rd) = true := hnow
      exact (ready_of_cache harea (ins (t + 2))).trans
        (by simp [CachedMemory.ready, CacheCpu.ready, hor])
    have hready : (cacheds tr t).ready (hosts tr t) = true ↔ _ := CachedMemory.idle_of_quiet hquiet
    exact hready.mpr hidle
  held t ht hquiet hbusy := by
    have hstate : (tr (t + 3)).cached.cache.state ≠ .IDLE := by
      intro hidle
      have hready : (cacheds tr (t + 1)).ready (hosts tr (t + 1)) = true :=
        (CachedMemory.idle_of_quiet hquiet).mpr hidle
      rw [hbusy] at hready
      cases hready
    obtain ⟨-, -, ha, hd⟩ := h.waits_for_cache (t := t + 3) (by omega) hstate
    exact ⟨ha, hd⟩

end Starts

/-- The cache is used with care, for its region. -/
theorem Served.careful {k : Nat} (h : Served tr (k + 3)) :
    CachedMemory.Careful 64 (hosts tr) k := by
  intro t ht hrequest
  obtain ⟨hready, hwindow⟩ := h (t + 2) (by omega) (by omega) hrequest
  refine ⟨by omega, ?_⟩
  unfold InRegion
  rw [← hwindow]
  apply BitVec.eq_of_getLsbD_eq
  intro k hk
  simp only [blockOf, wordIndex, hosts, hostIn, BitVec.getLsbD_extractLsb']
  grind

end Run

end Computer

end PComputer.Rtl
