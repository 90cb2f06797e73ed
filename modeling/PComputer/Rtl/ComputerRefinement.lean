import PComputer.Rtl.ComputerAccess
import PComputer.Rtl.Runs

/-!
# The computer is the CPU on its bus

While the requests of the CPU go to the memories, the computer does what the core on the
word memory of `System` does, with the wait cycles that the devices take.
-/

namespace PComputer.Rtl

open PComputer.Foundation

/-! ## Cores that have seen the same -/

namespace Core

variable {c c' : Core} {i i' : CoreIn}

/-- The same, but for what the core took from the bus when it was not looking. -/
structure Like (c c' : Core) : Prop where
  rest : c' = { c with mdr := c'.mdr, mwr := c'.mwr }
  mdr : c.phase = .WB ∧ c.op = OP_LOAD ∨ c.phase = .EXU ∨ c.phase = .MEMU → c'.mdr = c.mdr
  mwr : c.phase = .MEMU → c'.mwr = c.mwr

theorem Like.refl (c : Core) : c.Like c := ⟨rfl, fun _ => rfl, fun _ => rfl⟩

theorem Like.eq (h : c.Like c') (hphase : c.phase = .MEMU) : c' = c := by
  rw [h.rest, h.mdr (.inr (.inr hphase)), h.mwr hphase]

theorem Like.control (h : c.Like c') (ready : Bool) : c'.control ready = c.control ready := by
  rw [h.rest]
  rfl

theorem Like.phase (h : c.Like c') : c'.phase = c.phase := by
  rw [h.rest]

theorem Like.phaseReturn (h : c.Like c') : c'.phaseReturn = c.phaseReturn := by
  rw [h.rest]

theorem Like.rd (h : c.Like c') : c'.rd = c.rd := congrArg Control.MemRead (h.control false)

theorem Like.we (h : c.Like c') : c'.we = c.we := congrArg Control.MemWrite (h.control false)

theorem Like.a (h : c.Like c') : c'.a = c.a := by
  rw [h.rest]
  rfl

/-- The data of a write do not come from what the core did not look at. -/
theorem Like.d (h : c.Like c') (hc : c.Coherent) (hwe : c.we = true) : c'.d = c.d := by
  have hrequests : c.requests = true := by simp [requests, hwe]
  rcases phase_of_requests hrequests with hphase | hphase | hphase
  · rw [(requests_IF hphase).2] at hwe
    cases hwe
  · rcases hc.memory hphase with hop | hop
    · have hsrc : (c.control false).MemSrc = 2 := by
        cases hu : c.storeUnaligned
        · simp [Core.control, controlMEM, hphase, hop, hu]
        · simp [Core.we, Core.control, controlMEM, hphase, hop, hu] at hwe
      have hread : c'.readData2 = c.readData2 := by
        rw [h.rest]
        rfl
      simp [Core.d, memwriteData, h.control, hsrc, hread]
    · simp [Core.we, Core.control, controlMEM, hphase, hop] at hwe
  · rw [h.eq hphase]

private theorem regSrc_of_not_load (h : ¬ (c.phase = .WB ∧ c.op = OP_LOAD)) (ready : Bool) :
    (c.control ready).RegSrc ≠ 4 ∧ (c.control ready).RegSrc ≠ 5 ∧
      (c.control ready).RegSrc ≠ 6 := by
  cases hphase : c.phase with
  | WB =>
      have hop : c.op ≠ OP_LOAD := fun hop => h ⟨hphase, hop⟩
      simp only [Core.control, hphase, controlWB, hop, if_false]
      split_ifs <;> simp
  | EX =>
      simp only [Core.control, hphase, controlEX]
      split_ifs <;> simp
  | MEM =>
      simp only [Core.control, hphase, controlMEM]
      split_ifs <;> simp
  | _ => simp [Core.control, hphase]

theorem Like.writeData (h : c.Like c') (ready : Bool) :
    c'.writeData (c.control ready) = c.writeData (c.control ready) := by
  by_cases hload : c.phase = .WB ∧ c.op = OP_LOAD
  · rw [h.rest, h.mdr (.inl hload)]
    rfl
  · obtain ⟨h4, h5, h6⟩ := regSrc_of_not_load hload ready
    simp only [Core.writeData, if_neg h4, if_neg h5, if_neg h6]
    rw [h.rest]
    rfl

/-- What the two cores get in one cycle; the bus may differ where the core does not look. -/
structure Agrees (c : Core) (i i' : CoreIn) : Prop where
  rest : i' = { i with spo := i'.spo, ready := i'.ready }
  ready : c.phase = .IF ∨ c.phase = .MEM_WAIT → i'.ready = i.ready
  spo : c.phase = .IF ∨ c.phase = .EXU ∨
    c.phase = .MEM_WAIT ∧ i.ready = true ∧ c.phaseReturn ≠ .IF → i'.spo = i.spo

theorem Agrees.control (h : c.Agrees i i') : c.control i'.ready = c.control i.ready := by
  by_cases hphase : c.phase = .MEM_WAIT
  · rw [h.ready (.inr hphase)]
  · cases hother : c.phase with
    | MEM_WAIT => exact absurd hother hphase
    | _ => simp [Core.control, hother]

theorem Agrees.phaseNext (h : c.Agrees i i') : c.phaseNext i' = c.phaseNext i := by
  rw [h.rest]
  cases hphase : c.phase with
  | IF => simp [Core.phaseNext, hphase, h.ready (.inl hphase)]
  | MEM_WAIT => simp [Core.phaseNext, hphase, h.ready (.inr hphase)]
  | _ => simp [Core.phaseNext, hphase]

theorem Agrees.phaseReturnNext (h : c.Agrees i i') :
    c.phaseReturnNext i' = c.phaseReturnNext i := by
  cases hphase : c.phase with
  | IF => simp [Core.phaseReturnNext, hphase, h.ready (.inl hphase)]
  | _ => simp [Core.phaseReturnNext, hphase]

theorem Agrees.instruction (h : c.Agrees i i') :
    (c.advance i').instruction = (c.advance i).instruction := by
  by_cases hIF : c.phase = .IF
  · simp [h.control, h.spo (.inl hIF)]
  · by_cases hwait : c.phase = .MEM_WAIT
    · by_cases hload : i.ready = true ∧ c.phaseReturn = .ID_RF
      · have hspo := h.spo (.inr (.inr ⟨hwait, hload.1, by simp [hload.2]⟩))
        simp [h.control, hspo]
      · have hctl : (c.control i.ready).IRWrite = false := by
          simpa [Core.control, hwait] using hload
        simp [h.control, hctl]
    · rw [advance_instruction_of_ne hIF hwait, advance_instruction_of_ne hIF hwait]

/-- Where the bus is read, and where the word is needed that it had. -/
theorem phase_of_loaded (hc : c.Coherent)
    (h : (c.advance i).phase = .WB ∧ (c.advance i).op = OP_LOAD ∨ (c.advance i).phase = .EXU ∨
      (c.advance i).phase = .MEMU) :
    c.phase = .EXU ∨ c.phase = .MEM_WAIT ∧ i.ready = true ∧ c.phaseReturn ≠ .IF := by
  have horigins := hc.origins i
  have hop {p : Phase} (hphase : c.phase = p) (hp : p ≠ .IF ∧ p ≠ .MEM_WAIT) :
      (c.advance i).op = c.op := by
    rw [op, advance_instruction_of_ne (hphase ▸ hp.1) (hphase ▸ hp.2), op]
  rcases h with ⟨hWB, hload⟩ | hEXU | hMEMU
  · rcases horigins.WB hWB with
      ⟨hphase, hupper⟩ | ⟨hphase, hother⟩ | hphase | ⟨hphase, hready, hret⟩
    · rw [hop hphase (by decide)] at hload
      simp [hload] at hupper
    · rw [hop hphase (by decide)] at hload
      exact absurd (.inr hload) hother
    · rw [hop hphase (by decide), hc.rv32m hphase] at hload
      cases hload
    · exact .inr ⟨hphase, hready, by simp [hret]⟩
  · obtain ⟨hphase, hready, hret⟩ := horigins.EXU hEXU
    exact .inr ⟨hphase, hready, by simp [hret]⟩
  · exact .inl (horigins.MEMU hMEMU)

private theorem wait_of_quiet (hc : c.Coherent) (hquiet : c.requests = false)
    (h : (c.advance i).phase = .MEM_WAIT) : c.phase = .MEM_WAIT ∧ i.ready = false := by
  rcases (hc.origins i).MEM_WAIT h with ⟨hphase, -⟩ | hphase | hphase | hwait
  · simp [requests, requests_IF hphase] at hquiet
  · simp [requests_MEM hc hphase] at hquiet
  · simp [requests, requests_MEMU hphase] at hquiet
  · exact hwait

private theorem returns_of_we (hwe : c.we = true) : (c.advance i).phaseReturn = .IF := by
  have hrequests : c.requests = true := by simp [requests, hwe]
  rcases phase_of_requests hrequests with hphase | hphase | hphase
  · simp [requests_IF hphase] at hwe
  · simp only [Core.we, Core.control, hphase, controlMEM] at hwe
    split_ifs at hwe with hread hwrite
    rw [not_or] at hread
    simp only [advance_phaseReturn, Core.phaseReturnNext, hphase, if_neg hread.1, if_neg hread.2]
    rfl
  · simp [Core.phaseReturnNext, hphase]

private theorem a_EXU (h : c.phase = .EXU) : c.a = c.mar := by
  simp [Core.a, Core.control, memAddr, h]

private theorem a_of_EXU (h : (c.advance i).phase = .EXU) : (c.advance i).a = c.a := by
  rw [a_EXU h, advance_mar, (c.control_ready i.ready).1]

private theorem Like.advance_rest (h : c.Like c') (hin : c.Agrees i i') :
    c'.advance i' =
      { c.advance i with mdr := (c'.advance i').mdr, mwr := (c'.advance i').mwr } := by
  have hctl : c'.control i'.ready = c.control i.ready := (h.control _).trans hin.control
  have hphase := hin.phaseNext
  have hreturn := hin.phaseReturnNext
  have hinstruction := hin.instruction
  have hwrite := h.writeData i.ready
  obtain ⟨mdr, mwr, rfl⟩ : ∃ mdr mwr, c' = { c with mdr := mdr, mwr := mwr } :=
    ⟨_, _, h.rest⟩
  obtain ⟨spo, ready, rfl⟩ : ∃ spo ready, i' = { i with spo := spo, ready := ready } :=
    ⟨_, _, hin.rest⟩
  simp only [advance_instruction, hin.control] at hinstruction
  simp only [Core.advance, Core.mk.injEq, hctl]
  refine ⟨rfl, trivial, hinstruction, rfl, rfl, rfl, trivial, trivial, rfl, trivial, trivial,
    trivial, rfl, hphase, ?_, ?_⟩
  · exact congrArg (fun p => p.getD c.phaseReturn) hreturn
  · rw [hwrite]

theorem Like.advance (h : c.Like c') (hc : c.Coherent) (hin : c.Agrees i i') :
    (c.advance i).Like (c'.advance i') := by
  have hspo (hlook : c.phase = .EXU ∨
      c.phase = .MEM_WAIT ∧ i.ready = true ∧ c.phaseReturn ≠ .IF) : i'.spo = i.spo :=
    hin.spo (.inr hlook)
  refine ⟨h.advance_rest hin, fun hload => ?_, fun hphase => ?_⟩
  · rw [advance_mdr, advance_mdr, hspo (phase_of_loaded hc hload)]
  · have hEXU : c.phase = .EXU := (hc.origins i).MEMU hphase
    have hmdr : c'.mdr = c.mdr := h.mdr (.inr (.inl hEXU))
    have hctl (ready : Bool) : (c.control ready).MemSrc = 0 := by simp [Core.control, hEXU]
    simp only [advance_mwr, h.control, memwriteData, hctl, if_true]
    rw [h.rest, hmdr]
    rfl

end Core

/-! ## CPUs that have seen the same -/

namespace Multicyc

variable {x : ReadX} {s s' : Multicyc} {i i' : MulticycIn}

structure Like (s s' : Multicyc) : Prop where
  core : s.core.Like s'.core
  privilege : s'.privilege = s.privilege
  rv32m : s'.rv32m = s.rv32m

structure Agrees (s : Multicyc) (i i' : MulticycIn) : Prop where
  rest : i' = { i with spo := i'.spo, ready := i'.ready }
  ready : s.core.phase = .IF ∨ s.core.phase = .MEM_WAIT → i'.ready = i.ready
  spo : s.core.phase = .IF ∨ s.core.phase = .EXU ∨
    s.core.phase = .MEM_WAIT ∧ i.ready = true ∧ s.core.phaseReturn ≠ .IF → i'.spo = i.spo

theorem Agrees.coreIn (h : s.Agrees i i') (hlike : s.Like s') :
    s.core.Agrees (s.coreIn x i) (s'.coreIn x i') := by
  refine ⟨?_, h.ready, h.spo⟩
  have hinstruction : s'.core.instruction = s.core.instruction := by rw [hlike.core.rest]
  rw [Multicyc.coreIn, Multicyc.coreIn, hlike.privilege, hlike.rv32m, hinstruction, h.rest]

theorem Like.cycle (h : s.Like s') (hc : s.core.Coherent) (hrst : i.rst = false)
    (hin : s.Agrees i i') : (s.cycle x i).Like (s'.cycle x i') := by
  have hcore : s.core.Agrees (s.coreIn x i) (s'.coreIn x i') := hin.coreIn h
  have hctl : s'.core.control i'.ready = s.core.control i.ready :=
    (h.core.control _).trans hcore.control
  have hrst' : i'.rst = false := by
    rw [hin.rest]
    exact hrst
  refine ⟨?_, ?_, ?_⟩
  · change (s.core.cycle (s.coreIn x i)).Like (s'.core.cycle (s'.coreIn x i'))
    have hlow : (s.coreIn x i).rst = false := hrst
    have hlow' : (s'.coreIn x i').rst = false := hrst'
    simp only [Core.cycle, hlow, hlow', Bool.false_eq_true, if_false]
    exact h.core.advance hc hcore
  · change s'.privilege.cycle (privilegeIn i' s') = s.privilege.cycle (privilegeIn i s)
    have hport : privilegeIn i' s' = privilegeIn i s := by
      simp only [privilegeIn, hctl]
      rw [h.core.rest, hin.rest]
      rfl
    rw [h.privilege, hport]
  · change s'.rv32m.cycle (rv32mIn x i' s') = s.rv32m.cycle (rv32mIn x i s)
    have hport : rv32mIn x i' s' = rv32mIn x i s := by
      have hcsr : (s'.coreIn x i').csrSpo = (s.coreIn x i).csrSpo := by rw [hcore.rest]
      simp only [rv32mIn, hctl, Core.ALUIn2, hcsr]
      rw [h.core.rest]
      rfl
    rw [h.rv32m, hport]

end Multicyc

/-! ## The simulation -/

namespace Computer

section Run

variable {x : ReadX} {m : ChipBytes} {ins : Nat → ComputerIn} {tr : Nat → Computer} {t u : Nat}
variable {s : System}

/-- The core on its bus, `s`, is where the computer is in cycle `u`. -/
structure Simulates (m : ChipBytes) (ins : Nat → ComputerIn) (tr : Nat → Computer) (u : Nat)
    (s : System) : Prop where
  cpu : (tr u).cpu.Like s.cpu
  mem : s.bus.mem = memory m tr u
  waiting : (tr u).phase = .MEM_WAIT → ∃ t r, Answers m ins tr t r ∧ t < u ∧ u ≤ r ∧
    s.bus.held = (tr t).a ∧ s.bus.wait = r - u ∧
    ((tr u).core.phaseReturn ≠ .IF → (tr t).core.we = false ∧ memory m tr t = memory m tr u)
  again : (tr u).phase = .EXU → s.bus.wait = 0 ∧ s.bus.held = (tr u).a ∧
    (tr u).spo (ins u) = byteSwap (memory m tr u (wordIndex (tr u).a))

theorem Simulates.rd (hs : Simulates m ins tr u s) : s.core.rd = (tr u).core.rd :=
  hs.cpu.core.rd

theorem Simulates.we (hs : Simulates m ins tr u s) : s.core.we = (tr u).core.we :=
  hs.cpu.core.we

theorem Simulates.a (hs : Simulates m ins tr u s) : s.core.a = (tr u).a := hs.cpu.core.a

/-- Where the access that the computer begins in cycle `u` is answered after `delay` cycles. -/
def envAt (delay : Nat) (i : ComputerIn) (s : Computer) : Env where
  delay := delay
  junk := s.spo i
  eip := i.eip
  eipIstimer := i.eipIstimer

/-- In `MEM_WAIT` both buses become ready in the same cycle. -/
theorem Simulates.ready_wait (hs : Simulates m ins tr u s) (hphase : (tr u).phase = .MEM_WAIT) :
    s.ready = (tr u).ready (ins u) := by
  obtain ⟨t, r, hans, htu, hur, -, hwait, -⟩ := hs.waiting hphase
  have hphase' : (tr u).core.phase = .MEM_WAIT := hphase
  have hquiet := Core.quiet_of_phase hphase' (by decide)
  have hready : s.ready = (s.bus.wait == 0) := by
    simp [System.ready, Bus.ready, hs.rd, hs.we, hquiet]
  rcases hur.eq_or_lt with rfl | hlt
  · rw [hready, hans.ready, hwait]
    simp
  · rw [hready, hans.busy u (by omega) hlt, hwait, beq_eq_false_iff_ne]
    omega

private theorem Simulates.spo_held (hs : Simulates m ins tr u s) (e : Env) (hready : s.ready = true)
    (hheld : s.bus.held = (tr u).a) :
    s.spo e = byteSwap (memory m tr u (wordIndex (tr u).a)) := by
  have hready' : s.bus.ready s.core.rd s.core.we = true := hready
  rw [System.spo, Bus.spo, if_pos ⟨hready', by rw [hs.a, hheld]⟩, hs.a, hs.mem]

theorem Simulates.agrees (hs : Simulates m ins tr u s) (h : Starts x m ins tr) (hu : 0 < u)
    {delay : Nat}
    (hanswer : (tr u).core.requests = true → Answers m ins tr u (u + 1 + delay)) :
    (tr u).cpu.Agrees ((tr u).cpuIn (ins u)) (s.cpuIn (envAt delay (ins u) (tr u))) := by
  have hbusy (hphase : (tr u).core.phase = .IF) :
      s.ready = false ∧ (tr u).ready (ins u) = false := by
    obtain ⟨hrd, -⟩ := Core.requests_IF hphase
    refine ⟨by simp [System.ready, Bus.ready, hs.rd, hrd], ?_⟩
    exact (hanswer (by simp [Core.requests, hrd])).busy u (Nat.le_refl u) (by omega)
  refine ⟨?_, fun hlook => ?_, fun hlook => ?_⟩
  · rw [System.cpuIn, cpuIn, h.isRun.running u hu]
    rfl
  · change s.ready = (tr u).ready (ins u)
    rcases hlook with hphase | hphase
    · obtain ⟨hsys, hcomp⟩ := hbusy hphase
      rw [hsys, hcomp]
    · exact hs.ready_wait hphase
  · change s.spo (envAt delay (ins u) (tr u)) = (tr u).spo (ins u)
    rcases hlook with hphase | hphase | ⟨hphase, hready, hreturn⟩
    · have hsys : s.bus.ready s.core.rd s.core.we = false := (hbusy hphase).1
      simp [System.spo, Bus.spo, hsys, envAt]
    · obtain ⟨hwait, hheld, hspo⟩ := hs.again hphase
      have hphase' : (tr u).core.phase = .EXU := hphase
      have hready : s.ready = true := by
        simp [System.ready, Bus.ready, hs.rd, hs.we, Core.quiet_of_phase hphase' (by decide), hwait]
      rw [hs.spo_held _ hready hheld, hspo]
    · have hready' : (tr u).ready (ins u) = true := hready
      obtain ⟨t, r, hans, htu, hur, hheld, -, hread⟩ := hs.waiting hphase
      obtain ⟨hwe, hmem⟩ := hread hreturn
      obtain rfl : u = r := by
        by_contra hne
        rw [hans.busy u (by omega) (by omega)] at hready'
        cases hready'
      have ha := (hans.waiting u htu (Nat.le_refl u)).2
      rw [hs.spo_held _ ((hs.ready_wait hphase).trans hready') (hheld.trans ha.symm),
        hans.shows hwe, hmem, ha]

theorem Simulates.next (hs : Simulates m ins tr u s) (h : Starts x m ins tr) (hu : 0 < u)
    (hserved : Served tr (u + 1)) (hmapped : (tr u).Mapped) {delay : Nat}
    (hanswer : (tr u).core.requests = true → Answers m ins tr u (u + 1 + delay)) :
    Simulates m ins tr (u + 1) (s.cycle x (envAt delay (ins u) (tr u))) := by
  have hc := h.coherent hu
  have hcore := h.core_succ hu
  have hmem := h.memory_succ hu hserved hmapped
  have hor (hrequests : (tr u).core.requests = true) :
      (tr u).core.rd = true ∨ (tr u).core.we = true := by
    simpa [Core.requests] using hrequests
  constructor
  · have hcpu : (tr (u + 1)).cpu = (tr u).cpu.cycle x ((tr u).cpuIn (ins u)) := by
      rw [h.isRun.next u]
      rfl
    rw [hcpu]
    exact hs.cpu.cycle hc (h.isRun.running u hu) (hs.agrees h hu hanswer)
  · rw [hmem]
    cases hwe : (tr u).core.we with
    | false => simp [Bus.cycle, hs.we, hwe, hs.mem]
    | true =>
        have hd : s.core.d = (tr u).core.d := hs.cpu.core.d hc hwe
        simp [Bus.cycle, hs.we, hs.a, hd, hwe, hs.mem]
  · intro hwait
    have hwait' : (tr (u + 1)).core.phase = .MEM_WAIT := hwait
    cases hrequests : (tr u).core.requests with
    | true =>
        refine ⟨u, u + 1 + delay, hanswer hrequests, Nat.lt_succ_self u, by omega, ?_, ?_,
          fun hreturn => ?_⟩
        · simp [Bus.cycle, hs.rd, hs.we, hs.a, hor hrequests]
        · simp [Bus.cycle, hs.rd, hs.we, hor hrequests, envAt]
        · have hwe : (tr u).core.we = false := by
            by_contra hwrite
            rw [hcore] at hreturn
            exact hreturn (Core.returns_of_we (by simpa using hwrite))
          exact ⟨hwe, by simp [hmem, hwe]⟩
    | false =>
        obtain ⟨hphase, hready⟩ := Core.wait_of_quiet hc hrequests (hcore ▸ hwait')
        have hready' : (tr u).ready (ins u) = false := hready
        obtain ⟨t, r, hans, htu, hur, hheld, hleft, hread⟩ := hs.waiting hphase
        have hquiet := Core.quiet_of_phase hphase (by decide)
        have hne : u ≠ r := by
          rintro rfl
          rw [hans.ready] at hready'
          cases hready'
        refine ⟨t, r, hans, by omega, by omega, ?_, ?_, fun hreturn => ?_⟩
        · simp [Bus.cycle, hs.rd, hs.we, hquiet, hheld]
        · simp only [System.bus_cycle, Bus.cycle, hs.rd, hs.we, hquiet, hleft]
          simp
          omega
        · have hsame : (tr (u + 1)).core.phaseReturn = (tr u).core.phaseReturn := by
            rw [hcore]
            simp [Core.phaseReturnNext, hphase]
          obtain ⟨hwe, hbefore⟩ := hread (hsame ▸ hreturn)
          exact ⟨hwe, by simp [hbefore, hmem, hquiet]⟩
  · intro hEXU
    have hEXU' : (tr (u + 1)).core.phase = .EXU := hEXU
    obtain ⟨hphase, hready, hreturn⟩ := (hc.origins _).EXU (hcore ▸ hEXU')
    have hready' : (tr u).ready (ins u) = true := hready
    obtain ⟨t, r, hans, htu, hur, hheld, hleft, hread⟩ := hs.waiting hphase
    obtain ⟨hwe, hbefore⟩ := hread (by simp [hreturn])
    have hquiet := Core.quiet_of_phase hphase (by decide)
    obtain rfl : u = r := by
      by_contra hne
      rw [hans.busy u (by omega) (by omega)] at hready'
      cases hready'
    have ha : (tr (u + 1)).a = (tr t).a := by
      have hsame : (tr (u + 1)).core.a = (tr u).core.a := by
        rw [hcore]
        exact Core.a_of_EXU (hcore ▸ hEXU')
      exact hsame.trans (hans.waiting u htu (Nat.le_refl u)).2
    refine ⟨?_, ?_, ?_⟩
    · simp [Bus.cycle, hs.rd, hs.we, hquiet, hleft]
    · simp [Bus.cycle, hs.rd, hs.we, hquiet, hheld, ha]
    · have hsame : memory m tr (u + 1) = memory m tr t := by simp [hbefore, hmem, hquiet]
      rw [hans.stays hwe ha, hsame, ha]

def system (m : ChipBytes) (tr : Nat → Computer) (t : Nat) : System where
  cpu := (tr t).cpu
  bus := { mem := memory m tr t, held := 0, wait := 0 }

theorem Simulates.start (hIF : (tr t).phase = .IF) : Simulates m ins tr t (system m tr t) where
  cpu := ⟨.refl _, rfl, rfl⟩
  mem := rfl
  waiting h := by
    rw [hIF] at h
    cases h
  again h := by
    rw [hIF] at h
    cases h

/-- The computer refines the core on its bus for as long as the cache is used with care. -/
theorem refines_bus (h : Starts x m ins tr) (ht : 0 < t) (hIF : (tr t).phase = .IF) :
    ∃ (env : Nat → Env) (sys : Nat → System), System.IsRun x env sys ∧
      sys 0 = system m tr t ∧
      (∀ k, (env k).eip = (ins (t + k)).eip ∧
        (env k).eipIstimer = (ins (t + k)).eipIstimer) ∧
      ∀ k, Served tr (t + k) → (∀ j, j < k → (tr (t + j)).Mapped) →
        (tr (t + k)).cpu.Like (sys k).cpu ∧ (sys k).bus.mem = memory m tr (t + k) := by
  have hdelay (u : Nat) : ∃ delay, 0 < u → Served tr (u + 1) → (tr u).Mapped →
      (tr u).core.requests = true → Answers m ins tr u (u + 1 + delay) := by
    by_cases hu : 0 < u ∧ Served tr (u + 1) ∧ (tr u).Mapped ∧ (tr u).core.requests = true
    · obtain ⟨hpos, hserved, hmapped, hrequests⟩ := hu
      obtain ⟨r, hans⟩ := h.answers hpos hserved hrequests hmapped
      have hlt := hans.lt
      obtain ⟨delay, rfl⟩ := Nat.exists_eq_add_of_le (show u + 1 ≤ r by omega)
      exact ⟨delay, fun _ _ _ _ => hans⟩
    · exact ⟨0, fun hpos hserved hmapped hrequests =>
        absurd ⟨hpos, hserved, hmapped, hrequests⟩ hu⟩
  choose delay hdelay using hdelay
  let env (k : Nat) : Env := envAt (delay (t + k)) (ins (t + k)) (tr (t + k))
  let sys : Nat → System := trace (fun e s => s.cycle x e) env (system m tr t)
  have hsim (k : Nat) (hserved : Served tr (t + k)) (hmapped : ∀ j, j < k → (tr (t + j)).Mapped) :
      Simulates m ins tr (t + k) (sys k) := by
    induction k with
    | zero => exact .start hIF
    | succ k ih =>
        have hlast := hmapped k (Nat.lt_succ_self k)
        have hbefore := ih (hserved.mono (by omega)) fun j hj => hmapped j (by omega)
        exact hbefore.next h (by omega) hserved hlast (hdelay (t + k) (by omega) hserved hlast)
  refine ⟨env, sys, fun _ => rfl, rfl, fun _ => ⟨rfl, rfl⟩, fun k hserved hmapped => ?_⟩
  exact ⟨(hsim k hserved hmapped).cpu, (hsim k hserved hmapped).mem⟩

/--
From any fetch on, and as long as the CPU requests words of the memories only, the computer
is the core on its bus: some sequence of delays makes a run of `System` that goes through
the same states, writes the same words and takes the same interrupts.
-/
theorem refines_system (h : Runs x m ins tr) (ht : 0 < t) (hIF : (tr t).phase = .IF) :
    ∃ (env : Nat → Env) (sys : Nat → System), System.IsRun x env sys ∧
      sys 0 = system m tr t ∧
      (∀ k, (env k).eip = (ins (t + k)).eip ∧
        (env k).eipIstimer = (ins (t + k)).eipIstimer) ∧
      ∀ k, (∀ j, j < k → (tr (t + j)).Mapped) →
        (tr (t + k)).cpu.Like (sys k).cpu ∧ (sys k).bus.mem = memory m tr (t + k) := by
  obtain ⟨env, sys, hrun, hstart, hirq, hlike⟩ := refines_bus h.toStarts ht hIF
  exact ⟨env, sys, hrun, hstart, hirq, fun k => hlike k (h.served _)⟩

end Run

end Computer

end PComputer.Rtl
