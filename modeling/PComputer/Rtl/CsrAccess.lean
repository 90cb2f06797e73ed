import Mathlib.Tactic.IntervalCases
import PComputer.Rtl.Privilege

/-!
# Reading and writing the CSRs

A read of a masked CSR is meant to take the bits of `*_read_val` under the mask and
the register elsewhere.  What `spo` computes is `val & (mask + csr) & ~mask`, so a bit
of the register shows only where `val` has a one outside the mask.
-/

namespace PComputer.Rtl

open PComputer.Foundation

/-! ## The CSRs -/

structure Csrs where
  mstatus : Word
  misa : Word
  mie : Word
  mtvec : Word
  mscratch : Word
  mepc : Word
  mcause : Word
  mtval : Word
  mip : Word
  deriving DecidableEq

namespace Privilege

def csrs (p : Privilege) : Csrs where
  mstatus := p.mstatus
  misa := p.misa
  mie := p.mie
  mtvec := p.mtvec
  mscratch := p.mscratch
  mepc := p.mepc
  mcause := p.mcause
  mtval := p.mtval
  mip := p.mip

private theorem csrs_intStep (p q : Privilege) : (p.intStep q).csrs = q.csrs := by
  unfold intStep
  cases p.state with
  | IDLE | ISSUE | REPLY => dsimp only; split_ifs <;> rfl
  | END => rfl

theorem csrs_cycle {i : PrivilegeIn} (hrst : i.rst = false) (p : Privilege) :
    (p.cycle i).csrs = (p.csrUpdate i).csrs := by
  simp only [cycle, hrst, Bool.false_eq_true, if_false, csrs_intStep]
  rfl

theorem mtvecReg_cycle {i : PrivilegeIn} (hrst : i.rst = false) (p : Privilege) :
    (p.cycle i).mtvecReg = p.mtvec := by
  simp only [cycle, hrst, Bool.false_eq_true, if_false, intStep]
  cases p.state with
  | IDLE | ISSUE | REPLY => dsimp only; split_ifs <;> rfl
  | END => rfl

/-- Entering and leaving a trap sets `MPIE` and restores every other bit. -/
theorem mstatusLeave_mstatusEnter (mstatus : Word) :
    mstatusLeave (mstatusEnter mstatus) = mstatus ||| 0x80 := by
  apply BitVec.eq_of_getLsbD_eq
  intro k hk
  simp only [mstatusLeave, mstatusEnter, BitVec.getLsbD_append, BitVec.getLsbD_extractLsb',
    BitVec.getLsbD_or]
  interval_cases k <;> simp

theorem getLsbD_mstatusEnter (mstatus : Word) : (mstatusEnter mstatus).getLsbD 3 = false := by
  simp only [mstatusEnter, BitVec.getLsbD_append, BitVec.getLsbD_extractLsb']
  simp

/-! ## Reachable states -/

/-- The states after a reset. -/
inductive Reachable : Privilege → Prop where
  | reset (i : PrivilegeIn) (p : Privilege) (hrst : i.rst = true) : Reachable (p.cycle i)
  | cycle (i : PrivilegeIn) {p : Privilege} : Reachable p → Reachable (p.cycle i)

/-- The bits that software cannot set stay zero, except in `mepc`. -/
structure Reserved (c : Csrs) : Prop where
  mstatus : mstatusWriteMask &&& c.mstatus = 0#32
  mie : mieWriteMask &&& c.mie = 0#32
  mtvec : mtvecWriteMask &&& c.mtvec = 0#32
  mip : mipWriteMask &&& c.mip = 0#32

private theorem and_writeMasked {csr mask : Word} (h : mask &&& csr = 0#32) (d : Word) :
    mask &&& writeMasked csr mask d = 0#32 := by
  rw [writeMasked_eq_or]
  apply BitVec.eq_of_getLsbD_eq
  intro k hk
  have hbit := congrArg (BitVec.getLsbD · k) h
  simp only [BitVec.getLsbD_and, BitVec.getLsbD_or, BitVec.getLsbD_not, BitVec.getLsbD_zero,
    hk, decide_true, Bool.true_and] at hbit ⊢
  cases hm : mask.getLsbD k <;> cases hc : csr.getLsbD k <;> simp_all

theorem Reserved.write {p : Privilege} (h : Reserved p.csrs) (a : BitVec 12) (d : Word) :
    Reserved (p.csrWrite a d).csrs := by
  unfold csrWrite
  split_ifs
  · exact { h with mstatus := and_writeMasked h.mstatus d }
  · exact { h with mie := and_writeMasked h.mie d }
  · exact { h with mtvec := and_writeMasked h.mtvec d }
  · exact ⟨h.mstatus, h.mie, h.mtvec, h.mip⟩
  · exact ⟨h.mstatus, h.mie, h.mtvec, h.mip⟩
  · exact ⟨h.mstatus, h.mie, h.mtvec, h.mip⟩
  · exact ⟨h.mstatus, h.mie, h.mtvec, h.mip⟩
  · exact { h with mip := and_writeMasked h.mip d }
  · exact h

private theorem reserved_mstatusEnter {mstatus : Word} (h : mstatusWriteMask &&& mstatus = 0#32) :
    mstatusWriteMask &&& mstatusEnter mstatus = 0#32 ∧
      mstatusWriteMask &&& mstatusLeave mstatus = 0#32 := by
  have hbit : ∀ k, (hk : k < 32) → mstatusWriteMask.getLsbD k = true →
      mstatus[k] = false := by
    intro k hk hmask
    have := congrArg (BitVec.getLsbD · k) h
    simpa [hmask, BitVec.getLsbD_eq_getElem hk] using this
  simp only [mstatusWriteMask] at hbit ⊢
  constructor <;>
  · apply BitVec.eq_of_getLsbD_eq
    intro k hk
    simp only [mstatusEnter, mstatusLeave, BitVec.getLsbD_and, BitVec.getLsbD_append,
      BitVec.getLsbD_extractLsb']
    interval_cases k <;> simp [hbit]

private theorem reserved_csrReset (p : Privilege) : Reserved p.csrReset.csrs :=
  ⟨(by decide : mstatusWriteMask &&& 0x00000080#32 = 0#32), BitVec.and_zero, BitVec.and_zero,
    BitVec.and_zero⟩

theorem Reserved.update {p : Privilege} (h : Reserved p.csrs) (i : PrivilegeIn) :
    Reserved (p.csrUpdate i).csrs := by
  have hmstatus := reserved_mstatusEnter h.mstatus
  unfold csrUpdate
  split_ifs
  · exact reserved_csrReset p
  · exact h.write i.a i.d
  · exact ⟨hmstatus.1, h.mie, h.mtvec, h.mip⟩
  · exact ⟨hmstatus.2, h.mie, h.mtvec, h.mip⟩
  · exact h

theorem Reachable.reserved {p : Privilege} (h : Reachable p) : Reserved p.csrs := by
  induction h with
  | reset i p hrst =>
      have hcsrs : (p.cycle i).csrs = p.csrReset.csrs := by
        simp only [Privilege.cycle, csrUpdate, hrst, if_true]
        rfl
      rw [hcsrs]
      exact reserved_csrReset p
  | @cycle i p _ ih =>
      cases hrst : i.rst with
      | true =>
          have hcsrs : (p.cycle i).csrs = p.csrReset.csrs := by
            simp only [Privilege.cycle, csrUpdate, hrst, if_true]
            rfl
          rw [hcsrs]
          exact reserved_csrReset p
      | false =>
          rw [csrs_cycle hrst]
          exact ih.update i

/-! ### A bus that writes CSRs and nothing else -/

def idleIn : PrivilegeIn where
  rst := false
  a := 0
  d := 0
  we := false
  eip := false
  eipIstimer := false
  onExcEnter := false
  onExcIsint := false
  pcIn := 0
  mcauseCodeIn := 0
  onExcLeave := false
  intReply := false

def resetIn : PrivilegeIn := { idleIn with rst := true }

def writeIn (a : BitVec 12) (d : Word) : PrivilegeIn := { idleIn with a := a, d := d, we := true }

def afterReset : Privilege := (default : Privilege).cycle resetIn

private theorem reachable_afterReset : Reachable afterReset := .reset resetIn default rfl

end Privilege

/-! ## What a read shows -/

inductive MaskedCsr where
  | mstatus | mie | mtvec | mepc | mip
  deriving DecidableEq

namespace MaskedCsr

open Privilege

def address : MaskedCsr → BitVec 12
  | mstatus => 0x300
  | mie => 0x304
  | mtvec => 0x305
  | mepc => 0x341
  | mip => 0x344

def stored : MaskedCsr → Csrs → Word
  | mstatus => Csrs.mstatus
  | mie => Csrs.mie
  | mtvec => Csrs.mtvec
  | mepc => Csrs.mepc
  | mip => Csrs.mip

def writeMask : MaskedCsr → Word
  | mstatus => mstatusWriteMask
  | mie => mieWriteMask
  | mtvec => mtvecWriteMask
  | mepc => mepcWriteMask
  | mip => mipWriteMask

def writable (c : MaskedCsr) : Word := ~~~c.writeMask

/-- The external and timer pending bits that `mip` shows live. -/
def livePending : Word := 0x00000880

def visible : MaskedCsr → Word
  | mip => mip.writable ||| livePending
  | c => c.writable

def live (eip eipIstimer : Bool) : MaskedCsr → Word
  | mip =>
      0#20 ++ BitVec.ofBool (eip && !eipIstimer) ++ 0#3 ++ BitVec.ofBool (eip && eipIstimer) ++ 0#7
  | _ => 0

/-- A read shows `value` in the writable bits, and the live pending bits. -/
def Reads (x : ReadX) (p : Privilege) (eip eipIstimer : Bool) (c : MaskedCsr) (value : Word) :
    Prop :=
  p.spo x eip eipIstimer c.address &&& c.visible = value &&& c.writable ||| c.live eip eipIstimer

instance (x : ReadX) (p : Privilege) (eip eipIstimer : Bool) (c : MaskedCsr) (value : Word) :
    Decidable (Reads x p eip eipIstimer c value) :=
  inferInstanceAs (Decidable (_ = _))

/-- The `x` bits that let a bit of the register through; no bit of `mie` gets through. -/
def tied (x : ReadX) : MaskedCsr → Word
  | mstatus => x.mstatus
  | mie => 0#32
  | mtvec => x.mtvec
  | mepc => x.mepc
  | mip => BitVec.ofBool x.mip ++ 0#3 |>.setWidth 32

structure Shows (x : ReadX) (eip : Bool) (c : MaskedCsr) (value : Word) : Prop where
  tied : value &&& c.writable &&& ~~~c.tied x = 0#32
  /-- The sum with the mask must carry nothing into the address. -/
  aligned : c = mepc →
    byteOffset value = 0#2 ∨ value.getLsbD 2 = false ∧ x.mepc.getLsbD 2 = false
  quiet : c = mip → eip = false

/-! ### One CSR at a time -/

private theorem and_eq_right_iff {w : Nat} (x v : BitVec w) : x &&& v = v ↔ v &&& ~~~x = 0#w := by
  rw [BitVec.eq_of_getLsbD_eq_iff, BitVec.eq_of_getLsbD_eq_iff]
  refine forall₂_congr fun k hk => ?_
  simp only [BitVec.getLsbD_and, BitVec.getLsbD_not, BitVec.getLsbD_zero, hk, decide_true,
    Bool.true_and]
  cases x.getLsbD k <;> cases v.getLsbD k <;> simp

private theorem and_tied_iff (x writable value : Word) :
    x &&& writable &&& value &&& writable = value &&& writable ↔
      value &&& writable &&& ~~~x = 0#32 := by
  rw [← and_eq_right_iff, BitVec.and_assoc, BitVec.and_assoc, BitVec.and_comm writable,
    BitVec.and_assoc value, BitVec.and_self]

private theorem and_not_three (w : Word) : w &&& ~~~3#32 = wordAddress w := by
  apply BitVec.eq_of_getLsbD_eq
  intro k hk
  simp only [wordAddress, wordIndex, BitVec.getLsbD_and, BitVec.getLsbD_append,
    BitVec.getLsbD_extractLsb']
  interval_cases k <;> simp

private theorem wordIndex_and (a b : Word) : wordIndex (a &&& b) = wordIndex a &&& wordIndex b := by
  apply BitVec.eq_of_getLsbD_eq
  intro k hk
  simp [wordIndex, hk]

private theorem wordAddress_inj {a b : Word} :
    wordAddress a = wordAddress b ↔ wordIndex a = wordIndex b :=
  ⟨fun h => by rw [← wordIndex_wordAddress a, h, wordIndex_wordAddress],
    fun h => by rw [wordAddress, wordAddress, h]⟩

private theorem wordIndex_three_add (w : Word) :
    wordIndex (3#32 + w) = if byteOffset w = 0#2 then wordIndex w else wordIndex w + 1 := by
  have hw := w.isLt
  have hoffset : byteOffset w = 0#2 ↔ w.toNat % 4 = 0 := by
    rw [← BitVec.toNat_inj, toNat_byteOffset]
    rfl
  apply BitVec.eq_of_toNat_eq
  split_ifs with h <;> rw [hoffset] at h
  · rw [toNat_wordIndex, toNat_wordIndex, BitVec.toNat_add, BitVec.toNat_ofNat]
    omega
  · rw [toNat_wordIndex, BitVec.toNat_add, BitVec.toNat_add, toNat_wordIndex, BitVec.toNat_ofNat]
    simp
    omega

private theorem and_succ_eq_iff (x h : BitVec 30) :
    x &&& (h + 1) = h ↔ h &&& ~~~x = 0#30 ∧ h.getLsbD 0 = false ∧ x.getLsbD 0 = false := by
  have hsucc (heven : h.getLsbD 0 = false) : h + 1 = h ||| 1#30 := by
    refine BitVec.add_eq_or_of_and_eq_zero _ _ (BitVec.eq_of_getLsbD_eq fun k hk => ?_)
    cases k with
    | zero => simpa using heven
    | succ k => simp
  have hbit : (h + 1).getLsbD 0 = !h.getLsbD 0 := by
    rw [BitVec.getLsbD_add (by decide)]
    simp
  constructor
  · intro heq
    have hzero := congrArg (BitVec.getLsbD · 0) heq
    simp only [BitVec.getLsbD_and, hbit] at hzero
    have heven : h.getLsbD 0 = false := by
      cases hh : h.getLsbD 0 <;> simp_all
    rw [heven, Bool.not_false, Bool.and_true] at hzero
    refine ⟨?_, heven, hzero⟩
    rw [hsucc heven] at heq
    apply BitVec.eq_of_getLsbD_eq
    intro k hk
    have hk' := congrArg (BitVec.getLsbD · k) heq
    simp only [BitVec.getLsbD_and, BitVec.getLsbD_or] at hk'
    simp only [BitVec.getLsbD_and, BitVec.getLsbD_not, hk, decide_true, Bool.true_and,
      BitVec.getLsbD_zero]
    cases hx : x.getLsbD k <;> simp_all
  · rintro ⟨hsub, heven, hclear⟩
    rw [hsucc heven]
    apply BitVec.eq_of_getLsbD_eq
    intro k hk
    have hk' := congrArg (BitVec.getLsbD · k) hsub
    simp only [BitVec.getLsbD_and, BitVec.getLsbD_not, hk, decide_true, Bool.true_and,
      BitVec.getLsbD_zero] at hk'
    cases k with
    | zero => simp only [BitVec.getLsbD_and, hclear, heven, Bool.false_and]
    | succ k =>
        simp only [BitVec.getLsbD_and, BitVec.getLsbD_or]
        cases hx : x.getLsbD (k + 1) <;> simp_all

section Reads

variable {x : ReadX} {p : Privilege} {eip eipIstimer : Bool}

private theorem spo_mie : p.spo x eip eipIstimer mie.address = 0#32 := by
  change x.mie &&& 0x00000888#32 &&& (0x00000888#32 + p.mie) &&& ~~~0x00000888#32 = 0#32
  apply BitVec.eq_of_getLsbD_eq
  intro k hk
  simp only [BitVec.getLsbD_and, BitVec.getLsbD_not]
  cases BitVec.getLsbD 0x00000888#32 k <;> simp

private theorem spo_tied (h : Reserved p.csrs) {c : MaskedCsr} (hmepc : c ≠ mepc) (hmip : c ≠ mip) :
    p.spo x eip eipIstimer c.address = c.tied x &&& c.writable &&& c.stored p.csrs := by
  cases c with
  | mstatus => exact readMasked_eq_and h.mstatus
  | mie => simp only [spo_mie, tied, BitVec.zero_and]
  | mtvec => exact readMasked_eq_and h.mtvec
  | mepc => exact absurd rfl hmepc
  | mip => exact absurd rfl hmip

/-- A register whose read is its stored bits under the `x` bits. -/
theorem reads_tied (h : Reserved p.csrs) {c : MaskedCsr} (hmepc : c ≠ mepc) (hmip : c ≠ mip) :
    Reads x p eip eipIstimer c (c.stored p.csrs) ↔ Shows x eip c (c.stored p.csrs) := by
  have hvisible : c.visible = c.writable := by
    cases c <;> first | rfl | exact absurd rfl hmip
  have hlive : c.live eip eipIstimer = 0#32 := by
    cases c <;> first | rfl | exact absurd rfl hmip
  rw [Reads, hvisible, hlive, BitVec.or_zero, spo_tied h hmepc hmip, and_tied_iff]
  exact ⟨fun h => ⟨h, fun hc => absurd hc hmepc, fun hc => absurd hc hmip⟩, fun h => h.tied⟩

private theorem spo_mepc : p.spo x eip eipIstimer mepc.address &&& mepc.visible =
    wordAddress (x.mepc &&& (3#32 + p.mepc)) := by
  change x.mepc &&& ~~~3#32 &&& (3#32 + p.mepc) &&& ~~~3#32 &&& ~~~3#32 = _
  rw [← and_not_three]
  apply BitVec.eq_of_getLsbD_eq
  intro k hk
  simp only [BitVec.getLsbD_and]
  cases BitVec.getLsbD (~~~3#32) k <;> simp

private theorem reads_mepc : Reads x p eip eipIstimer mepc p.mepc ↔ Shows x eip mepc p.mepc := by
  have htied : p.mepc &&& mepc.writable &&& ~~~mepc.tied x = 0#32 ↔
      wordIndex p.mepc &&& ~~~wordIndex x.mepc = 0#30 := by
    change p.mepc &&& ~~~3#32 &&& ~~~x.mepc = 0#32 ↔ _
    rw [← and_eq_right_iff, ← and_eq_right_iff, ← BitVec.and_assoc, and_not_three, and_not_three,
      wordAddress_inj, wordIndex_and]
  have hreads : Reads x p eip eipIstimer mepc p.mepc ↔
      wordIndex x.mepc &&& wordIndex (3#32 + p.mepc) = wordIndex p.mepc := by
    rw [Reads, spo_mepc, ← wordIndex_and, ← wordAddress_inj]
    change _ = p.mepc &&& ~~~3#32 ||| 0#32 ↔ _
    rw [BitVec.or_zero, and_not_three]
  have hbit (w : Word) : (wordIndex w).getLsbD 0 = w.getLsbD 2 := by simp [wordIndex]
  have hquiet : mepc = mip → eip = false := by
    intro h
    cases h
  rw [hreads, wordIndex_three_add]
  split_ifs with halign
  · rw [and_eq_right_iff, ← htied]
    exact ⟨fun h => ⟨h, fun _ => .inl halign, hquiet⟩, fun h => h.tied⟩
  · rw [and_succ_eq_iff, ← htied, hbit, hbit]
    constructor
    · rintro ⟨h, heven⟩
      exact ⟨h, fun _ => .inr heven, hquiet⟩
    · rintro ⟨h, haligned, -⟩
      exact ⟨h, (haligned rfl).resolve_left halign⟩

private theorem mip_cases (h : Reserved p.csrs) : p.mip = 0#32 ∨ p.mip = 8#32 := by
  have hmip : 8#32 &&& p.mip = p.mip := (and_eq_right_iff ..).mpr ((BitVec.and_comm ..).trans h.mip)
  have hbit : p.mip &&& BitVec.twoPow 32 3 = _ := BitVec.and_twoPow p.mip 3
  rw [← hmip, BitVec.and_comm]
  change p.mip &&& BitVec.twoPow 32 3 = _ ∨ p.mip &&& BitVec.twoPow 32 3 = _
  rw [hbit]
  cases p.mip.getLsbD 3 with
  | false => exact .inl rfl
  | true => exact .inr rfl

private theorem reads_mip (h : Reserved p.csrs) :
    Reads x p eip eipIstimer mip p.mip ↔ Shows x eip mip p.mip := by
  have hspo : p.spo x eip eipIstimer mip.address = mipReadVal x eip eipIstimer &&& p.mip :=
    readMasked_eq_and h.mip
  have hmip := mip_cases h
  rw [Reads, hspo]
  have hshows : Shows x eip mip p.mip ↔ p.mip &&& mip.writable &&& ~~~mip.tied x = 0#32 ∧
      eip = false := ⟨fun h => ⟨h.tied, h.quiet rfl⟩, fun h => ⟨h.1, nofun, fun _ => h.2⟩⟩
  rw [hshows]
  simp only [mipReadVal, tied]
  obtain hmip | hmip := hmip <;> rw [hmip] <;> cases x.mip <;> cases eip <;> cases eipIstimer <;>
    decide

/-- What each masked CSR needs for a read to return it. -/
theorem reads_iff (h : Reserved p.csrs) (c : MaskedCsr) :
    Reads x p eip eipIstimer c (c.stored p.csrs) ↔ Shows x eip c (c.stored p.csrs) := by
  by_cases hmepc : c = mepc
  · subst hmepc
    exact reads_mepc
  · by_cases hmip : c = mip
    · subst hmip
      exact reads_mip h
    · exact reads_tied h hmepc hmip

end Reads

/-! ### Writing and reading back -/

section Writes

variable {p : Privilege} {i : PrivilegeIn} {c : MaskedCsr}

private theorem stored_csrWrite (c : MaskedCsr) (p : Privilege) (d : Word) :
    c.stored (p.csrWrite c.address d).csrs = writeMasked (c.stored p.csrs) c.writeMask d := by
  cases c <;> rfl

private theorem stored_cycle (hrst : i.rst = false) (hwe : i.we = true) (ha : i.a = c.address) :
    c.stored (p.cycle i).csrs = writeMasked (c.stored p.csrs) c.writeMask i.d := by
  rw [csrs_cycle hrst, csrUpdate, if_neg (by simp [hrst]), if_pos hwe, ha, stored_csrWrite]

private theorem writeMasked_and_not (csr mask d : Word) :
    writeMasked csr mask d &&& ~~~mask = d &&& ~~~mask := by
  rw [writeMasked_eq_or]
  apply BitVec.eq_of_getLsbD_eq
  intro k hk
  simp only [BitVec.getLsbD_and, BitVec.getLsbD_or, BitVec.getLsbD_not]
  cases mask.getLsbD k <;> simp

private theorem stored_and_writable (h : Reserved p.csrs) (hc : c = mstatus ∨ c = mie) :
    c.stored p.csrs &&& c.writeMask = 0#32 := by
  rw [BitVec.and_comm]
  obtain rfl | rfl := hc
  · exact h.mstatus
  · exact h.mie

private theorem modify_iff {x : ReadX} {eip eipIstimer : Bool} (h : Reserved p.csrs)
    (hc : c = mstatus ∨ c = mie) (bit d : Word)
    (hd : d = p.spo x eip eipIstimer c.address ||| bit ∨
      d = p.spo x eip eipIstimer c.address &&& ~~~bit) :
    writeMasked (c.stored p.csrs) c.writeMask d &&& ~~~bit = c.stored p.csrs &&& ~~~bit ↔
      c.stored p.csrs &&& ~~~bit &&& ~~~c.tied x = 0#32 := by
  have hstored := stored_and_writable h hc
  have hspo : p.spo x eip eipIstimer c.address = c.tied x &&& c.writable &&& c.stored p.csrs :=
    spo_tied h (by obtain rfl | rfl := hc <;> decide) (by obtain rfl | rfl := hc <;> decide)
  have hwritten : writeMasked (c.stored p.csrs) c.writeMask d &&& ~~~bit =
      c.tied x &&& (c.stored p.csrs &&& ~~~bit) := by
    rw [writeMasked_eq_or, hstored, BitVec.zero_or]
    rw [hspo, writable] at hd
    apply BitVec.eq_of_getLsbD_eq
    intro k hk
    have hbit := congrArg (BitVec.getLsbD · k) hstored
    simp only [BitVec.getLsbD_and, BitVec.getLsbD_zero] at hbit
    obtain rfl | rfl := hd <;>
    · simp only [BitVec.getLsbD_and, BitVec.getLsbD_or, BitVec.getLsbD_not, hk, decide_true,
        Bool.true_and]
      revert hbit
      cases c.writeMask.getLsbD k <;> cases (c.stored p.csrs).getLsbD k <;>
        cases bit.getLsbD k <;> simp
  rw [hwritten, and_eq_right_iff]

end Writes

/-- Exactly the stored values that the reads of `privilege.v` return. -/
theorem reads_back_iff {p : Privilege} (h : Reachable p) (x : ReadX) (eip eipIstimer : Bool)
    (c : MaskedCsr) :
    (Reads x p eip eipIstimer c (c.stored p.csrs) ↔ Shows x eip c (c.stored p.csrs)) ∧
    (∀ i : PrivilegeIn, i.rst = false → i.we = true → i.a = c.address →
      (Reads x (p.cycle i) eip eipIstimer c i.d ↔
        Shows x eip c (writeMasked (c.stored p.csrs) c.writeMask i.d))) ∧
    ∀ (q : Privilege) (i : PrivilegeIn) (k : Nat), c = mstatus ∨ c = mie → q.csrs = p.csrs →
      i.rst = false → i.we = true → i.a = c.address →
      (i.d = p.spo x eip eipIstimer c.address ||| BitVec.twoPow 32 k ∨
        i.d = p.spo x eip eipIstimer c.address &&& ~~~BitVec.twoPow 32 k) →
      (c.stored (q.cycle i).csrs &&& ~~~BitVec.twoPow 32 k =
          c.stored p.csrs &&& ~~~BitVec.twoPow 32 k ↔
        c.stored p.csrs &&& ~~~BitVec.twoPow 32 k &&& ~~~c.tied x = 0#32) := by
  refine ⟨reads_iff h.reserved c, ?_, ?_⟩
  · intro i hrst hwe ha
    have hread : Reads x (p.cycle i) eip eipIstimer c (c.stored (p.cycle i).csrs) ↔
        Shows x eip c (c.stored (p.cycle i).csrs) := reads_iff (h.cycle i).reserved c
    rw [stored_cycle hrst hwe ha, Reads, writable, writeMasked_and_not] at hread
    exact hread
  · intro q i k hc hq hrst hwe ha hd
    rw [stored_cycle hrst hwe ha, hq]
    exact modify_iff h.reserved hc _ _ hd

/-! ### The interrupt enables are lost -/

def allTied : ReadX where
  mstatus := BitVec.allOnes 32
  mie := BitVec.allOnes 32
  mtvec := BitVec.allOnes 32
  mepc := BitVec.allOnes 32
  mip := true

/-- With every `x` bit tied high, the enables written to `mie` still read as zero. -/
theorem mie_not_read_back :
    ¬ ∀ (p : Privilege) (x : ReadX) (eip eipIstimer : Bool) (c : MaskedCsr), Reachable p →
      Reads x p eip eipIstimer c (c.stored p.csrs) := by
  intro hclaim
  have h := hclaim _ allTied false false .mie (reachable_afterReset.cycle (writeIn 0x304 0x888))
  revert h
  decide

/-- After a reset the return address reads back, and `mie` loses the bit that is not being set. -/
theorem reads_back_afterReset :
    Reads allTied (afterReset.cycle (writeIn 0x341 0x40)) false false .mepc 0x40#32 ∧
      ¬ Reads allTied (afterReset.cycle (writeIn 0x304 0x80)) false false .mie 0x80#32 ∧
      ((afterReset.cycle (writeIn 0x304 0x80)).cycle (writeIn 0x304 0x800)).mie &&&
        ~~~BitVec.twoPow 32 11 ≠ 0x80#32 := by
  refine ⟨((reads_back_iff reachable_afterReset allTied false false .mepc).2.1
      (writeIn 0x341 0x40) rfl rfl rfl).mpr ⟨by decide, fun _ => .inl (by decide), nofun⟩,
    fun h => absurd (((reads_back_iff reachable_afterReset allTied false false .mie).2.1
      (writeIn 0x304 0x80) rfl rfl rfl).mp h).tied (by decide), fun h => ?_⟩
  exact absurd (((reads_back_iff (reachable_afterReset.cycle (writeIn 0x304 0x80)) allTied false
    false .mie).2.2 _ (writeIn 0x304 0x800) 11 (.inr rfl) rfl rfl rfl rfl (.inl (by decide))).mp
      (h.trans (by decide))) (by decide)

end MaskedCsr

/-! ## The software interrupt -/

namespace Privilege

def msip (p : Privilege) : Bool := p.mip.getLsbD 3

def externalCond (i : PrivilegeIn) (p : Privilege) : Bool :=
  (i.eip && !i.eipIstimer && p.meie) || (i.eip && i.eipIstimer && p.mtie)

def architecturalCond (i : PrivilegeIn) (p : Privilege) : Bool :=
  p.mstatusMie && (externalCond i p || (p.msip && p.msie))

private theorem intPending_cycle (i : PrivilegeIn) (p : Privilege) :
    (p.cycle i).intPending = p.intCond i := by
  cases hrst : i.rst with
  | true => simp only [cycle, hrst, if_true]; rfl
  | false => exact (cycle_sampled p hrst).2.1

/-- The bit that the request looks at is not the one that a write sets. -/
theorem Reachable.mipSip {p : Privilege} (h : Reachable p) : p.mipSip = false := by
  obtain hmip | hmip := MaskedCsr.mip_cases h.reserved <;>
    (rw [Privilege.mipSip, hmip]; decide)

/-- The request is the architectural one exactly when software alone would not raise it, and
without an external interrupt nothing raises it. -/
theorem intPending_architectural_iff {p : Privilege} (h : Reachable p) (i : PrivilegeIn) :
    ((p.cycle i).intPending = p.architecturalCond i ↔
      ¬ (p.mstatusMie = true ∧ p.msip = true ∧ p.msie = true ∧ p.externalCond i = false)) ∧
    (i.eip = false → (p.cycle i).intPending = false) := by
  have hpending : (p.cycle i).intPending = (p.mstatusMie && p.externalCond i) := by
    rw [intPending_cycle, intCond, h.mipSip, Bool.false_and, Bool.or_false, externalCond]
  rw [hpending, architecturalCond]
  constructor
  · cases p.mstatusMie <;> cases p.msip <;> cases p.msie <;> cases p.externalCond i <;> simp
  · intro heip
    simp [externalCond, heip]

def softwareRequest : Privilege :=
  ((afterReset.cycle (writeIn 0x304 8)).cycle
    (writeIn 0x344 8)).cycle (writeIn 0x300 8)

private theorem reachable_softwareRequest : Reachable softwareRequest :=
  ((reachable_afterReset.cycle _).cycle _).cycle _

theorem software_interrupt_lost :
    ¬ ∀ (p : Privilege) (i : PrivilegeIn), Reachable p →
      (p.cycle i).intPending = p.architecturalCond i := by
  intro hclaim
  have h := hclaim softwareRequest idleIn reachable_softwareRequest
  revert h
  decide

theorem intPending_softwareRequest :
    softwareRequest.msip = true ∧ (softwareRequest.cycle idleIn).intPending = false :=
  ⟨by decide,
    (intPending_architectural_iff reachable_softwareRequest idleIn).2 rfl⟩

end Privilege

end PComputer.Rtl
