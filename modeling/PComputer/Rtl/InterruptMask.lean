import PComputer.Foundation.Clocked
import PComputer.Rtl.Multicyc

/-!
# `mstatus.MIE` and the interrupt FSM

`privilege` registers the enabled request, waits one state and then raises
`interrupt` as a level, which the core samples in `ID_RF`.  `MIE` gates only the
first of these steps, so a request that is past it is taken even if `MIE` falls
in the meantime.  As long as `MIE` falls only while no request is on its way,
the core takes interrupts only while `MIE` is high.
-/

namespace PComputer.Rtl

open PComputer.Foundation

namespace Multicyc

/-- The core lowers `MIE` in this cycle, other than by taking an interrupt. -/
def ClearsMie (s : Multicyc) : Prop :=
  match s.core.phase with
  | .WB =>
      s.core.op = Core.OP_PRIV ∧ s.core.privCsr = true ∧
        s.core.instruction.extractLsb' 20 12 = 0x300 ∧ s.core.ALUOut.getLsbD 3 = false
  | .EXCEPTION => True
  | .MRET => s.privilege.mstatus.getLsbD 7 = false
  | _ => False

instance (s : Multicyc) : Decidable s.ClearsMie := by
  unfold ClearsMie
  exact match s.core.phase with
    | .WB => inferInstance
    | .EXCEPTION => inferInstance
    | .MRET => inferInstance
    | .IF | .ID_RF | .EX | .MEM | .EXU | .MEMU | .MEM_WAIT | .RV32M_WAIT | .INTERRUPT
    | .BAD => inferInstanceAs (Decidable False)

/-- An enabled request is present, or one has passed the `MIE` gate and is not yet consumed. -/
def RequestInFlight (i : MulticycIn) (s : Multicyc) : Prop :=
  s.privilege.intCond (s.privilegeIn i) = true ∨
    (s.privilege.state = .IDLE ∧ s.privilege.intPending = true) ∨
    s.privilege.state = .ISSUE ∨ s.privilege.state = .REPLY

instance (i : MulticycIn) (s : Multicyc) : Decidable (s.RequestInFlight i) :=
  inferInstanceAs (Decidable (_ ∨ _))

/-! ## What a cycle does to `MIE` -/

private theorem getLsbD_writeMasked_mstatus (csr d : Word) :
    (Privilege.writeMasked csr Privilege.mstatusWriteMask d).getLsbD 3 = d.getLsbD 3 := by
  rw [Privilege.getLsbD_writeMasked]
  simp [Privilege.mstatusWriteMask]

private theorem mstatusMie_csrWrite {p : Privilege} {a : BitVec 12} {d : Word}
    (hmie : p.mstatusMie = true)
    (hd : a = 0x300 → d.getLsbD 3 = true) : (p.csrWrite a d).mstatusMie = true := by
  unfold Privilege.csrWrite Privilege.mstatusMie at *
  split_ifs with ha <;> first | exact hmie | skip
  rw [getLsbD_writeMasked_mstatus]
  exact hd ha

private theorem mstatusMie_excLeave {p : Privilege} (hmpie : p.mstatus.getLsbD 7 = true) :
    p.excLeave.mstatusMie = true := by
  simp only [Privilege.excLeave, Privilege.mstatusMie, Privilege.mstatusLeave,
    BitVec.getLsbD_append, BitVec.getLsbD_extractLsb']
  simpa using hmpie

private theorem mstatusMie_cycle_eq {i : MulticycIn} (hrst : i.rst = false) (x : ReadX)
    (s : Multicyc) :
    (s.cycle x i).privilege.mstatusMie =
      (s.privilege.csrUpdate (s.privilegeIn i)).mstatusMie := by
  have h : (s.cycle x i).privilege.mstatus = _ := (s.privilege.cycle_sampled hrst).1
  rw [Privilege.mstatusMie, h, Privilege.mstatusMie]

private theorem mstatusMie_cycle {x : ReadX} {i : MulticycIn} {s : Multicyc} (hrst : i.rst = false)
    (hclears : ¬ s.ClearsMie) (hphase : s.core.phase ≠ .INTERRUPT)
    (hmie : s.privilege.mstatusMie = true) : (s.cycle x i).privilege.mstatusMie = true := by
  rw [mstatusMie_cycle_eq hrst]
  simp only [Privilege.csrUpdate, privilegeIn, hrst, Core.control_csrWe, Core.control_onExcEnter,
    Core.control_onExcLeave]
  unfold ClearsMie at hclears
  cases h : s.core.phase with
  | WB =>
      by_cases hwe : s.core.op = Core.OP_PRIV ∧ s.core.privCsr = true
      · simp only [h, hwe.1, hwe.2, true_and, not_and, Bool.not_eq_false] at hclears
        simpa [hwe] using mstatusMie_csrWrite hmie hclears
      · simpa only [hwe, and_false, decide_false, Bool.false_eq_true, if_false, reduceCtorEq,
          or_self] using hmie
  | MRET =>
      simp only [h, Bool.not_eq_false] at hclears
      simpa using mstatusMie_excLeave hclears
  | INTERRUPT => exact absurd h hphase
  | EXCEPTION => simp [h] at hclears
  | _ => simpa using hmie

/-! ## The invariant -/

/-- While the request is on its way, `MIE` is high; it is consumed on the way to `IF`. -/
structure Masked (s : Multicyc) : Prop where
  idle : s.privilege.state = .IDLE → s.privilege.intPending = true →
    s.privilege.mstatusMie = true
  issue : s.privilege.state = .ISSUE → s.privilege.mstatusMie = true
  reply : s.privilege.state = .REPLY → s.privilege.intReplyReg = false →
    s.privilege.mstatusMie = true
  level : s.privilege.interrupt = true → s.privilege.state = .REPLY
  consumed : s.privilege.intReplyReg = true → s.core.phase = .IF
  taken : s.core.phase = .INTERRUPT →
    s.privilege.mstatusMie = true ∧ s.privilege.state = .REPLY ∧ s.privilege.intReplyReg = false
  returns : s.core.phase = .MEM_WAIT → s.core.phaseReturn ≠ .INTERRUPT

/-- The guard on a step: `MIE` is lowered only while no request is in flight. -/
def Careful (i : MulticycIn) (s : Multicyc) : Prop := s.ClearsMie → ¬ s.RequestInFlight i

instance (i : MulticycIn) (s : Multicyc) : Decidable (s.Careful i) :=
  inferInstanceAs (Decidable (_ → _))

theorem phase_cycle {i : MulticycIn} (hrst : i.rst = false) (x : ReadX) (s : Multicyc) :
    (s.cycle x i).core.phase = s.core.phaseNext (s.coreIn x i) := by
  simp [cycle, Core.cycle, coreIn, hrst, Core.advance]

theorem phaseNext_eq_INTERRUPT {c : Core} {i : CoreIn} (h : c.phaseNext i = .INTERRUPT)
    (hreturns : c.phase = .MEM_WAIT → c.phaseReturn ≠ .INTERRUPT) :
    c.phase = .ID_RF ∧ i.interrupt = true := by
  cases hphase : c.phase with
  | ID_RF =>
      refine ⟨rfl, ?_⟩
      by_contra hi
      simp only [Core.phaseNext, hphase, Core.phaseNextID_RF, hi, if_false] at h
      split_ifs at h
  | MEM_WAIT =>
      simp only [Core.phaseNext, hphase] at h
      split_ifs at h
      exact absurd h (hreturns hphase)
  | IF | EX | RV32M_WAIT =>
      simp only [Core.phaseNext, hphase] at h
      split_ifs at h
  | _ => simp [Core.phaseNext, hphase] at h

theorem phaseNext_eq_MEM_WAIT {c : Core} {i : CoreIn} (h : c.phaseNext i = .MEM_WAIT)
    (hreturns : c.phase = .MEM_WAIT → c.phaseReturn ≠ .INTERRUPT) :
    (c.phaseReturnNext i).getD c.phaseReturn ≠ .INTERRUPT := by
  cases hphase : c.phase with
  | IF =>
      simp only [Core.phaseNext, hphase] at h
      split_ifs at h with hready
      simp [Core.phaseReturnNext, hphase, hready]
  | MEM =>
      simp only [Core.phaseReturnNext, hphase]
      split_ifs <;> simp
  | MEMU => simp [Core.phaseReturnNext, hphase]
  | MEM_WAIT => simpa [Core.phaseReturnNext, hphase] using hreturns hphase
  | ID_RF =>
      simp only [Core.phaseNext, hphase, Core.phaseNextID_RF] at h
      split_ifs at h
  | EX | RV32M_WAIT =>
      simp only [Core.phaseNext, hphase] at h
      split_ifs at h
  | _ => simp [Core.phaseNext, hphase] at h

/-- The core takes an interrupt only from a request in `REPLY`, and with `MIE` high. -/
theorem Masked.enters {i : MulticycIn} (hrst : i.rst = false) {x : ReadX} {s : Multicyc}
    (h : s.Masked) (hint : (s.cycle x i).core.phase = .INTERRUPT) :
    s.core.phase = .ID_RF ∧ s.privilege.state = .REPLY ∧ s.privilege.intReplyReg = false ∧
      s.privilege.mstatusMie = true := by
  rw [phase_cycle hrst] at hint
  obtain ⟨hid, hlevel⟩ := phaseNext_eq_INTERRUPT hint h.returns
  have hst := h.level hlevel
  have hr : s.privilege.intReplyReg = false := by
    by_contra hr
    have := h.consumed (by simpa using hr)
    simp [hid] at this
  exact ⟨hid, hst, hr, h.reply hst hr⟩

private theorem masked_cycle {i : MulticycIn} (hrst : i.rst = false) (x : ReadX) {s : Multicyc}
    (hcareful : s.Careful i) (h : s.Masked) : (s.cycle x i).Masked := by
  have hstate : (s.cycle x i).privilege.state = s.privilege.stateNext :=
    s.privilege.cycle_state hrst
  have hinterrupt : (s.cycle x i).privilege.interrupt = s.privilege.interruptNext :=
    s.privilege.cycle_interrupt hrst
  obtain ⟨-, hpending, hreply⟩ := s.privilege.cycle_sampled (i := s.privilegeIn i) hrst
  have hphase := phase_cycle hrst x s
  have hreply' : (s.cycle x i).privilege.intReplyReg = decide (s.core.phase = .INTERRUPT) :=
    hreply.trans (Core.control_intReply _ _)
  -- `MIE` survives whenever a request is in flight and is not being taken
  have hkeep (hflight : s.RequestInFlight i) (hmie : s.privilege.mstatusMie = true)
      (htaken : s.core.phase ≠ .INTERRUPT) : (s.cycle x i).privilege.mstatusMie = true :=
    mstatusMie_cycle hrst (fun hclears => hcareful hclears hflight) htaken hmie
  have hnot (hst : s.privilege.state ≠ .REPLY) : s.core.phase ≠ .INTERRUPT :=
    fun hp => hst (h.taken hp).2.1
  refine ⟨?_, ?_, ?_, ?_, ?_, ?_, ?_⟩
  · intro hidle hpend
    have hcond : s.privilege.intCond (s.privilegeIn i) = true := hpending.symm.trans hpend
    have hmie : s.privilege.mstatusMie = true := by
      simp only [Privilege.intCond, Bool.and_eq_true] at hcond
      exact hcond.1
    refine hkeep (.inl hcond) hmie (hnot fun hst => ?_)
    rw [hstate, Privilege.stateNext, hst] at hidle
    split_ifs at hidle
  · intro hissue
    rw [hstate, Privilege.stateNext] at hissue
    cases hst : s.privilege.state <;> simp only [hst] at hissue
    case IDLE =>
      split_ifs at hissue with hp
      exact hkeep (.inr (.inl ⟨hst, hp⟩)) (h.idle hst hp) (hnot (by simp [hst]))
    case REPLY => split_ifs at hissue
    all_goals cases hissue
  · intro hrep hlow
    rw [hreply', decide_eq_false_iff_not] at hlow
    rw [hstate, Privilege.stateNext] at hrep
    cases hst : s.privilege.state <;> simp only [hst] at hrep
    case IDLE => split_ifs at hrep
    case ISSUE => exact hkeep (.inr (.inr (.inl hst))) (h.issue hst) hlow
    case REPLY =>
      split_ifs at hrep with hr
      exact hkeep (.inr (.inr (.inr hst))) (h.reply hst (by simpa using hr)) hlow
    case END => cases hrep
  · intro hlevel
    rw [hinterrupt, Privilege.interruptNext] at hlevel
    rw [hstate, Privilege.stateNext]
    cases hst : s.privilege.state <;> simp only [hst] at hlevel ⊢
    case REPLY =>
      split_ifs at hlevel with hr
      rw [if_neg hr]
    all_goals
      have := h.level hlevel
      simp [hst] at this
  · intro hr
    rw [hreply', decide_eq_true_iff] at hr
    rw [hphase, Core.phaseNext, hr]
  · intro hint
    obtain ⟨hid, hst, hr, hmie⟩ := h.enters hrst hint
    refine ⟨hkeep (.inr (.inr (.inr hst))) hmie (by simp [hid]), ?_, ?_⟩
    · simp [hstate, Privilege.stateNext, hst, hr]
    · simp [hreply', hid]
  · intro hwait
    rw [hphase] at hwait
    have := phaseNext_eq_MEM_WAIT hwait h.returns
    simpa [cycle, Core.cycle, coreIn, hrst, Core.advance] using this

/-! ## Runs from reset -/

/-- A run whose first `n` cycles are cycles of reset, and no other. -/
structure FromReset (x : ReadX) (ins : Nat → MulticycIn) (tr : Nat → Multicyc) (n : Nat) :
    Prop where
  pos : 0 < n
  cycle : ∀ t, tr (t + 1) = (tr t).cycle x (ins t)
  rst : ∀ t, (ins t).rst = decide (t < n)

theorem cycle_of_rst {i : MulticycIn} (hrst : i.rst = true) (x : ReadX) (s : Multicyc) :
    (s.cycle x i).core.phase = .IF ∧ (s.cycle x i).privilege.mstatusMie = false ∧
      (s.cycle x i).privilege.state = .IDLE ∧ (s.cycle x i).privilege.interrupt = false ∧
      (s.cycle x i).privilege.intPending = s.privilege.intCond (s.privilegeIn i) ∧
      ((s.cycle x i).privilege.intReplyReg = true → s.core.phase = .INTERRUPT) := by
  have hcore : (s.cycle x i).core = s.core.reset (s.coreIn x i) := by
    simp [Multicyc.cycle, Core.cycle, coreIn, hrst]
  have hpriv : (s.cycle x i).privilege =
      Privilege.intReset (Privilege.sample (s.privilegeIn i) s.privilege s.privilege.csrReset) := by
    simp [Multicyc.cycle, Privilege.cycle, Privilege.csrUpdate, privilegeIn, hrst]
  rw [hcore, hpriv]
  refine ⟨rfl, ?_, rfl, rfl, rfl, fun hr => ?_⟩
  · simp [Privilege.mstatusMie, Privilege.intReset, Privilege.sample, Privilege.csrReset]
  have hreply : (s.core.control i.ready).intReply = true := hr
  simpa [Core.control_intReply] using hreply

private theorem masked_of_reset {s : Multicyc} (hphase : s.core.phase = .IF)
    (hstate : s.privilege.state = .IDLE) (hinterrupt : s.privilege.interrupt = false)
    (hpending : s.privilege.intPending = false) : s.Masked := by
  refine ⟨?_, ?_, ?_, ?_, ?_, ?_, ?_⟩ <;> simp [hphase, hstate, hinterrupt, hpending]

section FromReset

variable {x : ReadX} {ins : Nat → MulticycIn} {tr : Nat → Multicyc} {n : Nat}

/-- `int_pending` has no reset: a second cycle of reset, or a quiet first one, clears it. -/
theorem FromReset.masked (h : FromReset x ins tr n)
    (hquiet : 2 ≤ n ∨ (tr 0).privilege.intCond ((tr 0).privilegeIn (ins 0)) = false) :
    (tr n).Masked := by
  obtain ⟨k, rfl⟩ : ∃ k, n = k + 1 := ⟨n - 1, by have := h.pos; omega⟩
  obtain ⟨hphase, -, hstate, hinterrupt, hpending, -⟩ :=
    cycle_of_rst (i := ins k) (by simp [h.rst]) x (tr k)
  rw [← h.cycle] at hphase hstate hinterrupt hpending
  refine masked_of_reset hphase hstate hinterrupt (hpending.trans ?_)
  rcases hquiet with htwo | hquiet
  · obtain ⟨j, rfl⟩ : ∃ j, k = j + 1 := ⟨k - 1, by omega⟩
    obtain ⟨-, hmie, -⟩ := cycle_of_rst (i := ins j)
        (by rw [h.rst]; exact decide_eq_true (by omega)) x (tr j)
    rw [← h.cycle] at hmie
    simp [Privilege.intCond, hmie]
  · cases k with
    | zero => exact hquiet
    | succ j =>
        obtain ⟨-, hmie, -⟩ := cycle_of_rst (i := ins j)
            (by rw [h.rst]; exact decide_eq_true (by omega)) x (tr j)
        rw [← h.cycle] at hmie
        simp [Privilege.intCond, hmie]

/--
In every run from reset that lowers `MIE` only while no request is in flight,
the core enters `INTERRUPT` only in a cycle where `MIE` is high, and `MIE` is
still high in the `INTERRUPT` cycle itself.
-/
theorem FromReset.interrupt_enabled (h : FromReset x ins tr n)
    (hquiet : 2 ≤ n ∨ (tr 0).privilege.intCond ((tr 0).privilegeIn (ins 0)) = false)
    (hcareful : ∀ t, n ≤ t → (tr t).Careful (ins t)) (t : Nat)
    (hint : (tr (t + 1)).core.phase = .INTERRUPT) :
    (tr t).core.phase = .ID_RF ∧ (tr t).privilege.mstatusMie = true ∧
      (tr (t + 1)).privilege.mstatusMie = true := by
  have hlow (u : Nat) (hu : n ≤ u) : (ins u).rst = false := by simp [h.rst, hu]
  have hmasked (u : Nat) : (tr (n + u)).Masked := by
    induction u with
    | zero => exact h.masked hquiet
    | succ u ih =>
        rw [← Nat.add_assoc, h.cycle]
        exact masked_cycle (hlow _ (by omega)) x (hcareful _ (by omega)) ih
  rcases Nat.lt_or_ge t n with ht | ht
  · have hIF := (cycle_of_rst (i := ins t) (by simp [h.rst, ht]) x (tr t)).1
    rw [← h.cycle, hint] at hIF
    cases hIF
  · obtain ⟨k, rfl⟩ : ∃ k, t = n + k := ⟨t - n, by omega⟩
    have hnext : (tr (n + k + 1)).privilege.mstatusMie = true := ((hmasked (k + 1)).taken hint).1
    rw [h.cycle] at hint
    obtain ⟨hid, -, -, hmie⟩ := (hmasked k).enters (hlow _ ht) hint
    exact ⟨hid, hmie, hnext⟩

end FromReset

/-! ## Runs on a fixed program -/

/-- `addi x1, x0, -2048; csrw mie, x1; csrsi mstatus, 8; w; nop; nop ...` -/
def enableProgram (w : Word) (k : Nat) : Word :=
  match k with
  | 0 => 0x80000093
  | 1 => 0x30409073
  | 2 => 0x30046073
  | 3 => w
  | _ => 0x00000013

/--
Two cycles of reset, then a memory that answers each fetch in the next cycle,
five cycles an instruction; it answers no fetch from cycle 26 on.  `eip` is high
from cycle 18 on, one cycle after `csrsi` has set `MIE`.
-/
def enableIns (w : Word) (t : Nat) : MulticycIn where
  rst := t < 2
  eip := 18 ≤ t
  eipIstimer := false
  spo := byteSwap (enableProgram w ((t - 2) / 5))
  ready := (t - 2) % 5 == 1 && t < 26

def enableRun (w : Word) : Nat → Multicyc :=
  trace (fun i s => s.cycle { mstatus := 0, mie := 0, mtvec := 0, mepc := 0, mip := false } i)
    (enableIns w) boot

private theorem fromReset_enableRun (w : Word) :
    FromReset { mstatus := 0, mie := 0, mtvec := 0, mepc := 0, mip := false } (enableIns w)
      (enableRun w) 2 where
  pos := by decide
  cycle := fun _ => rfl
  rst := fun _ => rfl

private theorem enableRun_waits (w : Word) (hwait : (enableRun w 27).core.phase = .MEM_WAIT)
    (k : Nat) :
    (enableRun w (27 + k)).core.phase = .MEM_WAIT := by
  induction k with
  | zero => exact hwait
  | succ k ih =>
      have hlow : (enableIns w (27 + k)).rst = false := by simp [enableIns]; omega
      have hbusy : (enableIns w (27 + k)).ready = false := by simp [enableIns]; omega
      have hnext := phase_cycle hlow
        { mstatus := 0, mie := 0, mtvec := 0, mepc := 0, mip := false } (enableRun w (27 + k))
      rw [← (fromReset_enableRun w).cycle] at hnext
      rw [← Nat.add_assoc, hnext, Core.phaseNext, ih]
      simp [coreIn, hbusy]

/-- With `nop` after `csrsi`, the interrupt is taken in cycle 25, with `MIE` high. -/
theorem interrupt_enabled_nop :
    (enableRun 0x00000013 24).core.phase = .ID_RF ∧
      (enableRun 0x00000013 24).privilege.mstatusMie = true ∧
      (enableRun 0x00000013 25).privilege.mstatusMie = true := by
  refine FromReset.interrupt_enabled (fromReset_enableRun 0x00000013) (.inl (by decide))
    (fun t ht => ?_) 24 (by decide +kernel)
  rcases Nat.lt_or_ge t 27 with hlt | hge
  · have hall : ∀ t < 27, 2 ≤ t → (enableRun 0x00000013 t).Careful (enableIns 0x00000013 t) := by
      decide +kernel
    exact hall t hlt ht
  · obtain ⟨k, rfl⟩ : ∃ k, t = 27 + k := ⟨t - 27, by omega⟩
    have hwait := enableRun_waits 0x00000013 (by decide +kernel) k
    intro hclears
    rw [ClearsMie, hwait] at hclears
    exact hclears.elim

/--
With `csrw mstatus, x0` there, the request is in `REPLY` when `MIE` falls, and
the core takes it at the next instruction.
-/
theorem interrupt_taken_disabled :
    ¬ ∀ (x : ReadX) (ins : Nat → MulticycIn) (tr : Nat → Multicyc) (n : Nat),
      FromReset x ins tr n → 2 ≤ n →
      ∀ t, (tr (t + 1)).core.phase = .INTERRUPT → (tr t).privilege.mstatusMie = true := by
  intro h
  have hmie := h _ _ _ 2 (fromReset_enableRun 0x30001073) (by decide) 24 (by decide +kernel)
  have hlow : (enableRun 0x30001073 24).privilege.mstatusMie = false := by decide +kernel
  rw [hlow] at hmie
  cases hmie

end Multicyc

end PComputer.Rtl
