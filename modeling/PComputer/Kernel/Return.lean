import PComputer.Kernel.Scheduling
import PComputer.Rtl.Traps

/-!
# Where a system call returns to

`EXCEPTION` saves the address after the `ecall`, `syscall_handler` adds 4 to it
once more, and `_proc_schedule` reads it back for the process table.  Each read
goes through the `x` bits of `mepc_read_val`.
-/

namespace PComputer.PseudOS

open PComputer.Foundation PComputer.Rtl

/-! ## `mepc` through its masks -/

private theorem getLsbD_of_byteOffset {w : Word} (h : byteOffset w = 0#2) (k : Nat) (hk : k < 2) :
    w.getLsbD k = false := by
  have hbit := congrArg (BitVec.getLsbD · k) h
  simpa [byteOffset, hk] using hbit

private theorem and_low_of_byteOffset {w : Word} (h : byteOffset w = 0#2) : w &&& 3#32 = 0#32 := by
  refine BitVec.eq_of_getLsbD_eq fun k hk => ?_
  have hmask : (3#32).getLsbD k = decide (k < 2) := by
    revert k
    decide
  have hbit := getLsbD_of_byteOffset h k
  rw [BitVec.getLsbD_and, hmask, BitVec.getLsbD_zero]
  grind

private theorem and_high_of_byteOffset {w : Word} (h : byteOffset w = 0#2) : w &&& ~~~3#32 = w := by
  have hsplit : w &&& (3#32 ||| ~~~3#32) = w := BitVec.and_allOnes
  rwa [BitVec.and_or_distrib_left, and_low_of_byteOffset h, BitVec.zero_or] at hsplit

theorem readMasked_mepc (x : ReadX) {m : Word} (h : byteOffset m = 0#2) :
    Privilege.readMasked (Privilege.mepcReadVal x) Privilege.mepcReadMask m = x.mepc &&& m := by
  have hlow : Privilege.mepcReadMask &&& m = 0#32 :=
    (BitVec.and_comm _ _).trans (and_low_of_byteOffset h)
  rw [Privilege.readMasked_eq_and hlow]
  change x.mepc &&& ~~~3#32 &&& m = x.mepc &&& m
  rw [BitVec.and_assoc, BitVec.and_comm (~~~3#32), and_high_of_byteOffset h]

theorem byteOffset_eq_zero {w : Word} (h : ∀ k < 2, w.getLsbD k = false) : byteOffset w = 0#2 := by
  apply BitVec.eq_of_getLsbD_eq
  intro k hk
  simp [byteOffset, hk, h k hk]

private theorem byteOffset_and (v : Word) {w : Word} (h : byteOffset w = 0#2) :
    byteOffset (v &&& w) = 0#2 := by
  refine byteOffset_eq_zero fun k hk => ?_
  rw [BitVec.getLsbD_and, getLsbD_of_byteOffset h k hk, Bool.and_false]

private theorem byteOffset_add_four {w : Word} (h : byteOffset w = 0#2) :
    byteOffset (w + 4) = 0#2 :=
  (byteOffset_add w 4).trans (by rw [h]; rfl)

theorem writeMasked_mepc {m d : Word} (hm : byteOffset m = 0#2) (hd : byteOffset d = 0#2) :
    Privilege.writeMasked m Privilege.mepcWriteMask d = d := by
  have hlow : m &&& Privilege.mepcWriteMask = 0#32 := and_low_of_byteOffset hm
  have hhigh : d &&& ~~~Privilege.mepcWriteMask = d := and_high_of_byteOffset hd
  rw [Privilege.writeMasked, hlow, hhigh, BitVec.zero_add]

private theorem getLsbD_two_add_four (w : Word) : (w + 4).getLsbD 2 = !w.getLsbD 2 := by
  rw [← BitVec.testBit_toNat, ← BitVec.testBit_toNat, Nat.testBit_eq_decide_div_mod_eq,
    Nat.testBit_eq_decide_div_mod_eq, BitVec.toNat_add]
  have hlt := w.isLt
  have hfour : (4 : Word).toNat = 4 := rfl
  rw [hfour]
  by_cases h : w.toNat / 2 ^ 2 % 2 = 1
  · rw [decide_eq_true h, decide_eq_false (by omega)]
    rfl
  · rw [decide_eq_false h, decide_eq_true (by omega)]
    rfl

/-! ## The resumption address -/

/-- What the process table holds for a process that executed an `ecall` before address `next`. -/
def resumption (x : ReadX) (next : Word) : Word := x.mepc &&& ((x.mepc &&& next) + 4)

/--
The only way for the two additions to cancel: the `x` bits of `mepc_read_val`
are tied so that they show every bit of `next` and hide bit 2, and `next` has bit 2 clear.
-/
def ReadsBack (x : ReadX) (next : Word) : Prop :=
  x.mepc &&& next = next ∧ next.getLsbD 2 = false ∧ x.mepc.getLsbD 2 = false

private theorem resumption_eq_iff (x : ReadX) (next : Word) :
    resumption x next = next ↔ ReadsBack x next := by
  unfold resumption ReadsBack
  constructor
  · intro h
    have hbits (k : Nat) : next.getLsbD k = true → x.mepc.getLsbD k = true := by
      intro hk
      rw [← h, BitVec.getLsbD_and, Bool.and_eq_true] at hk
      exact hk.1
    have hshown : x.mepc &&& next = next := by
      apply BitVec.eq_of_getLsbD_eq
      intro k hk
      have hbit := hbits k
      rw [BitVec.getLsbD_and]
      grind
    rw [hshown] at h
    have htwo := congrArg (BitVec.getLsbD · 2) h
    simp only [BitVec.getLsbD_and, getLsbD_two_add_four] at htwo
    have hbit := hbits 2
    refine ⟨hshown, ?_, ?_⟩ <;> grind
  · rintro ⟨hshown, hnext, hx⟩
    rw [hshown]
    have hdisjoint : next &&& 4#32 = 0#32 := by
      apply BitVec.eq_of_getLsbD_eq
      intro k hk
      have hfour : (4#32 : Word).getLsbD k = decide (k = 2) := by
        revert k
        decide
      rw [BitVec.getLsbD_and, hfour, BitVec.getLsbD_zero]
      grind
    have hsum : next + 4 = next ||| 4#32 := BitVec.add_eq_or_of_and_eq_zero _ _ hdisjoint
    rw [hsum]
    apply BitVec.eq_of_getLsbD_eq
    intro k hk
    have hfour : (4#32 : Word).getLsbD k = decide (k = 2) := by
      revert k
      decide
    have hbit := congrArg (BitVec.getLsbD · k) hshown
    simp only [BitVec.getLsbD_and] at hbit
    rw [BitVec.getLsbD_and, BitVec.getLsbD_or, hfour]
    grind

namespace Kernel

variable {x : ReadX} {k k' : Kernel} {c : Slot}

/-! ## One `schedule` -/

theorem mepc_dispatch (k : Kernel) (t : Slot) :
    (k.dispatch t).mepc =
      Privilege.writeMasked k.mepc Privilege.mepcWriteMask ((k.dispatch t).proc t).pc := by
  have hpc := congrArg Process.pc (proc_dispatch k t t)
  rw [if_pos rfl] at hpc
  rw [hpc]
  have hself := congrArg Process.pc (proc_setProc_self (k.stackframeLoad t) t
    fun p => { p with state := PROC_STATE_RUNNING })
  change Privilege.writeMasked k.mepc _ (Process.pc (proc ((k.stackframeLoad t).setProc t _) t)) = _
  rw [hself]
  rfl

private theorem schedule_mepc (hstart : k.doStart = false) (hok : k.schedule x = .ok k') :
    ∃ c t, pid2proc k.procRunning = .ok c ∧ (∀ i, (k'.proc i).pid = (k.proc i).pid) ∧
      (∀ i, (k'.proc i).pc = if i = c then k.csrrMepc x else (k.proc i).pc) ∧
      k'.procRunning = ((k.proc t).pid % 65536).toNat ∧
      k'.mepc = Privilege.writeMasked k.mepc Privilege.mepcWriteMask (k'.proc t).pc := by
  rcases schedule_cases hok with ⟨hstart', -⟩ | ⟨-, c, t, hc, -, rfl⟩
  · rw [hstart] at hstart'
    cases hstart'
  have hpid (i : Slot) : ((k.suspend x c).proc i).pid = (k.proc i).pid := by
    rw [proc_suspend]
    by_cases hi : i = c
    · rw [if_pos hi, hi]
    · rw [if_neg hi]
  have hpc (i : Slot) : ((k.suspend x c).proc i).pc =
      if i = c then k.csrrMepc x else (k.proc i).pc := by
    rw [proc_suspend]
    split_ifs <;> rfl
  refine ⟨c, t, hc, fun i => ?_, fun i => ?_, ?_, mepc_dispatch _ t⟩
  · rw [← hpid, proc_dispatch]
    by_cases hi : i = t
    · rw [if_pos hi, hi]
    · rw [if_neg hi]
  · rw [← hpc, proc_dispatch]
    by_cases hi : i = t
    · rw [if_pos hi, hi]
    · rw [if_neg hi]
  · rw [procRunning_dispatch, hpid]

/-! ## A process and its resumption address -/

/-- Process `c` of a running kernel: it, or another one, is executing. -/
structure Live (k : Kernel) (c : Slot) : Prop where
  started : k.doStart = false
  bounded : k.procRunning < 65536
  pids : ∀ i, (k.proc i).pid = -1 ∨ (k.proc i).pid = i.val
  live : (k.proc c).pid = c.val

/-- Process `c` executes from `next` when it runs. -/
structure ResumesAt (k : Kernel) (c : Slot) (next : Word) : Prop extends k.Live c where
  pc : (k.proc c).pc = next
  mepc : k.procRunning = c.val → k.mepc = next

theorem Live.of_frame (h : k.Live c) (hf : k.Frame k') : k'.Live c where
  started := hf.doStart.trans h.started
  bounded := hf.procRunning.symm ▸ h.bounded
  pids i := (hf.pid i).symm ▸ h.pids i
  live := (hf.pid c).trans h.live

theorem Live.running (h : k.Live c) {r : Slot} (hr : pid2proc k.procRunning = .ok r) :
    k.procRunning = r.val := by
  have hshort := pid2proc_eq_ok.mp hr
  have hlt : r.val < 64 := r.isLt
  have hbounded := h.bounded
  unfold toShort Int.bmod at hshort
  dsimp only at hshort
  split_ifs at hshort <;> omega

/-- `schedule` with `c` running keeps its `mepc`; otherwise `c` keeps what it has. -/
theorem Live.schedule {next : Word} (h : k.Live c) (hmepc : byteOffset k.mepc = 0#2)
    (hnext : byteOffset next = 0#2)
    (hpc : if k.procRunning = c.val then k.csrrMepc x = next else (k.proc c).pc = next)
    (hok : k.schedule x = .ok k') : k'.ResumesAt c next := by
  obtain ⟨r, t, hr, hpid, hpc', hrun', hmepc'⟩ := schedule_mepc h.started hok
  have hrunning := h.running hr
  have hnextpc : (k'.proc c).pc = next := by
    rw [hpc']
    by_cases hc : c = r
    · have hrc : k.procRunning = c.val := by rw [hrunning, hc]
      rw [if_pos hrc] at hpc
      rw [if_pos hc]
      exact hpc
    · have hrc : k.procRunning ≠ c.val := fun h => hc (Fin.ext (h.symm.trans hrunning))
      rw [if_neg hrc] at hpc
      rw [if_neg hc]
      exact hpc
  refine ⟨⟨doStart_schedule hok, ?_, fun i => ?_, ?_⟩, hnextpc, fun hc => ?_⟩
  · rw [hrun']
    omega
  · rw [hpid]
    exact h.pids i
  · rw [hpid]
    exact h.live
  · have ht : t = c := by
      have hlt : c.val < 64 := c.isLt
      have hlt' : t.val < 64 := t.isLt
      have hval : t.val = c.val := by
        rcases h.pids t with hpid' | hpid' <;> rw [hrun', hpid'] at hc <;> omega
      exact Fin.ext hval
    rw [hmepc', ht, hnextpc, writeMasked_mepc hmepc hnext]

theorem syscallIpc_frame (hok : k.syscallIpc x = .ok k') : (k.skipEcall x).Frame k' := by
  obtain ⟨mem, hcases⟩ := syscallIpc_cases hok
  have hmem : (k.skipEcall x).Frame { k.skipEcall x with mem := mem } :=
    ⟨rfl, rfl, rfl, rfl, rfl, fun _ => rfl, fun _ => rfl, fun _ => rfl⟩
  cases hreq : k.requested with
  | none =>
      rw [hreq] at hcases
      dsimp only at hcases
      rw [hcases]
      exact hmem
  | some call =>
      rw [hreq] at hcases
      obtain ⟨_, _, -, hcall⟩ := hcases
      exact hmem.trans (call_frame hcall)

theorem mepc_skipEcall {next : Word} (hmepc : k.mepc = next) (hnext : byteOffset next = 0#2) :
    (k.skipEcall x).mepc = (x.mepc &&& next) + 4 ∧ byteOffset (k.skipEcall x).mepc = 0#2 := by
  have hvalue : (k.skipEcall x).mepc = (x.mepc &&& next) + 4 := by
    unfold skipEcall csrrMepc csrwMepc
    rw [hmepc, readMasked_mepc x hnext]
    exact writeMasked_mepc hnext (byteOffset_add_four (byteOffset_and x.mepc hnext))
  rw [hvalue]
  exact ⟨rfl, byteOffset_add_four (byteOffset_and x.mepc hnext)⟩

private theorem isr_ecall (irqDev : Word) :
    k.interruptServiceRoutine x 0x0000000b irqDev = k.syscallHandler x := rfl

theorem Live.syscall {trap : Trap} {irqDev next : Word} (h : k.Live c)
    (hrunning : k.procRunning = c.val) (hpc : trap.pc = next) (hnext : byteOffset next = 0#2)
    (hok : (k.trapped trap).interruptServiceRoutine x 0x0000000b irqDev = .ok k') :
    k'.ResumesAt c (resumption x next) := by
  rw [isr_ecall] at hok
  obtain ⟨k₁, hipc, hschedule⟩ := bind_eq_ok.mp hok
  obtain ⟨hmepc, haligned⟩ := mepc_skipEcall (x := x) (k := k.trapped trap) hpc hnext
  have hframe := syscallIpc_frame hipc
  have htrapped : (k.trapped trap).Live c := ⟨h.started, h.bounded, h.pids, h.live⟩
  have hskipped : ((k.trapped trap).skipEcall x).Live c :=
    ⟨htrapped.started, htrapped.bounded, htrapped.pids, htrapped.live⟩
  have haligned₁ : byteOffset k₁.mepc = 0#2 := hframe.mepc ▸ haligned
  refine (hskipped.of_frame hframe).schedule haligned₁ ?_ ?_ hschedule
  · exact byteOffset_and x.mepc (byteOffset_add_four (byteOffset_and x.mepc hnext))
  · rw [if_pos (hframe.procRunning.trans hrunning)]
    unfold csrrMepc resumption
    rw [readMasked_mepc x haligned₁, hframe.mepc, hmepc]

end Kernel

def Event.Aligned : Event → Prop
  | .ecall t | .tick t => byteOffset t.pc = 0#2
  | .create _ _ => True

instance : DecidablePred Event.Aligned
  | .ecall t | .tick t => inferInstanceAs (Decidable (byteOffset t.pc = 0#2))
  | .create _ _ => inferInstanceAs (Decidable True)

namespace Kernel

variable {x : ReadX} {k k' : Kernel} {c : Slot}

theorem ResumesAt.step {next : Word} {e : Event} (h : k.ResumesAt c next)
    (hnext : byteOffset next = 0#2) (hother : k.procRunning ≠ c.val) (he : e.Aligned)
    (hok : k.step x e = .ok k') : k'.ResumesAt c next := by
  cases e with
  | ecall t =>
      obtain ⟨k₁, hipc, hschedule⟩ := bind_eq_ok.mp hok
      obtain ⟨-, haligned⟩ := mepc_skipEcall (x := x) (k := k.trapped t) rfl he
      have hframe := syscallIpc_frame hipc
      have hskipped : ((k.trapped t).skipEcall x).Live c := ⟨h.started, h.bounded, h.pids, h.live⟩
      refine (hskipped.of_frame hframe).schedule (hframe.mepc ▸ haligned) hnext ?_ hschedule
      rw [if_neg fun h => hother (hframe.procRunning.symm.trans h)]
      exact (hframe.pc c).trans h.pc
  | tick t =>
      have hticked : Live { k.trapped t with ticks := k.ticks + 1 } c :=
        ⟨h.started, h.bounded, h.pids, h.live⟩
      change (if (k.ticks + 1) % 5 = 0 then
        Kernel.schedule x { k.trapped t with ticks := k.ticks + 1 } else _) = _ at hok
      split_ifs at hok
      · refine hticked.schedule he hnext ?_ hok
        change if k.procRunning = c.val then _ else _
        rw [if_neg hother]
        exact h.pc
      · cases hok
        exact ⟨hticked, h.pc, fun hc => absurd hc hother⟩
  | create entry stack =>
      obtain ⟨i, -, hfree, f, rfl, hf⟩ := newProcess_cases hok
      have hne : c ≠ i := by
        rintro rfl
        have hlive := h.live
        omega
      refine ⟨⟨h.started, h.bounded, fun j => ?_, ?_⟩, ?_, fun hc => absurd hc hother⟩
      · rw [proc_setProc]
        by_cases hj : j = i
        · rw [if_pos hj, hj]
          exact .inr (hf _).1
        · rw [if_neg hj]
          exact h.pids j
      · rw [proc_setProc_ne hne]
        exact h.live
      · rw [proc_setProc_ne hne]
        exact h.pc

def Switches (x : ReadX) (c : Slot) (k₁ : Kernel) : List Event → Kernel → Prop :=
  Run (Kernel.step x) (· = k₁) fun k e => k.procRunning ≠ c.val ∧ e.Aligned

private theorem ResumesAt.switches {next : Word} {k₁ : Kernel} {events : List Event}
    (h : k₁.ResumesAt c next) (hnext : byteOffset next = 0#2)
    (hrun : Switches x c k₁ events k) : k.ResumesAt c next := by
  refine Run.invariant (fun _ k => k.ResumesAt c next) ?_ ?_ hrun
  · rintro _ rfl
    exact h
  · rintro _ s e s' hs ⟨hother, he⟩ hok
    exact hs.step hnext hother he hok

end Kernel

/-! ## The whole system call -/

open Rtl.System in
/--
One system call of process `c`, from its `ecall` at `p` to the `mret` after
which it runs again, at `q`: the core takes the trap, the kernel handles it,
other processes run and trap, and when the kernel has switched back to `c` the
core returns from the trap.
-/
inductive SystemCall (x : ReadX) (p q : Word) : Prop where
  | intro {env env' : Nat → Env} {tr tr' : Nat → Rtl.System} {t v t' v' : Nat}
      {log log' : List (Word × Word)} {k k₁ k₂ : Kernel} {c : Slot} {trap : Kernel.Trap}
      {irqDev : Word} {events : List Event}
      (hrun : IsRun x env tr) (hIF : (tr t).core.phase = .IF) (hint : Uninterrupted tr t)
      (hpc : (tr t).core.pc = p) (hfetch : (tr t).bus.mem (wordIndex p) = ecall)
      (hpath : Path tr t log v) (hentered : (tr v).core.phase = .IF)
      (hlive : k.Live c) (hexecuting : k.procRunning = c.val)
      (hsaved : trap.pc = (tr v).cpu.privilege.mepc)
      (hhandled : (k.trapped trap).interruptServiceRoutine x (tr v).cpu.privilege.mcause irqDev =
        .ok k₁)
      (hswitches : Kernel.Switches x c k₁ events k₂) (hresumed : k₂.procRunning = c.val)
      (hrun' : IsRun x env' tr') (hIF' : (tr' t').core.phase = .IF) (hint' : Uninterrupted tr' t')
      (hfetch' : (tr' t').bus.mem (wordIndex (tr' t').core.pc) = mret)
      (hrestored : (tr' t').cpu.privilege.mepc = k₂.mepc)
      (hpath' : Path tr' t' log' v') (hreturned : (tr' v').core.phase = .IF)
      (hq : (tr' v').core.pc = q) : SystemCall x p q

private theorem path_unique {tr : Nat → Rtl.System} {t v v' : Nat} {log log' : List (Word × Word)}
    (h : Rtl.System.Path tr t log v) (hIF : (tr v).core.phase = .IF)
    (h' : Rtl.System.Path tr t log' v') (hIF' : (tr v').core.phase = .IF) : v = v' := by
  by_contra hne
  rcases Nat.lt_or_gt_of_ne hne with hlt | hgt
  · exact (h'.running v h.lt hlt).1 hIF
  · exact (h.running v' h'.lt hgt).1 hIF'

theorem SystemCall.resumes {x : ReadX} {p q : Word} (h : SystemCall x p q)
    (hp : byteOffset p = 0#2) : q = resumption x (p + 4) := by
  obtain ⟨hrun, hIF, hint, rfl, hfetch, hpath, hentered, hlive, hexecuting, hsaved, hhandled,
    hswitches, hresumed, hrun', hIF', hint', hfetch', hrestored, hpath', hreturned, rfl⟩ := h
  obtain ⟨w, hpathw, hIFw, -, -, hmepc, hmcause⟩ := Rtl.System.ecall_traps hrun hIF hint hfetch
  obtain rfl := path_unique hpath hentered hpathw hIFw
  obtain ⟨w', hpathw', hIFw', -, -, hpc'⟩ := Rtl.System.mret_returns hrun' hIF' hint' hfetch'
  obtain rfl := path_unique hpath' hreturned hpathw' hIFw'
  rw [hmcause] at hhandled
  have hnext := byteOffset_add_four hp
  have haligned := byteOffset_and x.mepc (byteOffset_add_four (byteOffset_and x.mepc hnext))
  have hafter := (hlive.syscall hexecuting (hsaved.trans hmepc) hnext hhandled).switches haligned
    hswitches
  rw [hpc', hrestored, hafter.mepc hresumed]

/--
A system call resumes at the next instruction only if the `x` bits of
`mepc_read_val` happen to undo the second addition.
-/
theorem SystemCall.resumes_next_iff {x : ReadX} {p q : Word} (h : SystemCall x p q)
    (hp : byteOffset p = 0#2) : q = p + 4 ↔ ReadsBack x (p + 4) := by
  rw [h.resumes hp]
  exact resumption_eq_iff x (p + 4)

/-! ### Concrete system calls -/

/-- A memory full of one instruction, no interrupts, and a given `pc` and `mepc`. -/
def runFrom (x : ReadX) (instruction pc mepc : Word) : Nat → Rtl.System :=
  trace (fun e s => s.cycle x e)
    (fun _ => { delay := 0, junk := 0, eip := false, eipIstimer := false })
    { cpu :=
        { core := { Multicyc.boot.core with pc := pc }
          privilege := { Multicyc.boot.privilege with mepc := mepc }
          rv32m := Multicyc.boot.rv32m }
      bus := { mem := fun _ => instruction, held := 0, wait := 0 } }

private theorem isRun_runFrom (x : ReadX) (instruction pc mepc : Word) :
    Rtl.System.IsRun x (fun _ => { delay := 0, junk := 0, eip := false, eipIstimer := false })
      (runFrom x instruction pc mepc) := fun _ => rfl

structure Plain (tr : Nat → Rtl.System) : Prop where
  start : (tr 0).core.phase = .IF
  done : (tr 4).core.phase = .IF
  low : ∀ k < 4, (tr k).cpu.privilege.interrupt = false

private theorem Plain.uninterrupted {tr : Nat → Rtl.System} (h : Plain tr) :
    Rtl.System.Uninterrupted tr 0 := by
  intro k _ hbusy
  rcases Nat.lt_or_ge k 4 with hk | hk
  · exact h.low k hk
  · exact absurd h.done (hbusy 4 (by omega) hk)

namespace Kernel

def plainCall (p : Word) : Trap := .ecall 0 (-1) 0 (p + 4)

def tickRun (n : Nat) : List Event := List.replicate n (.tick receiveAny)

/-- Pid 1 runs, makes the call, and runs again after twenty ticks. -/
def plainCallRun (x : ReadX) (p : Word) : Option (Kernel × Kernel × Kernel) := do
  let k ← follow (step x) enabled ((default : Kernel).prepareProcesses someImage) (tickRun 5)
  let k₁ ← ((k.trapped (plainCall p)).interruptServiceRoutine x 0x0000000b 0).toOption
  let k₂ ← follow (step x)
    (fun k e => decide (k.procRunning ≠ (1 : Slot).val ∧ e.Aligned)) k₁ (tickRun 20)
  return (k, k₁, k₂)

def plainCallLook : Kernel × Kernel × Kernel → (Bool × Nat × Int × Bool) × Nat × Word
  | (k, _, k₂) =>
      ((k.doStart, k.procRunning, (k.proc 1).pid,
          decide (∀ i : Slot, (k.proc i).pid = -1 ∨ (k.proc i).pid = i.val)),
        (k₂.procRunning, k₂.mepc))

private theorem plainCallRun_eq {x : ReadX} {p mepc : Word}
    (hrun : (plainCallRun x p).map plainCallLook = some ((false, 1, 1, true), (1, mepc))) :
    ∃ k k₁ k₂ : Kernel, k.Live 1 ∧ k.procRunning = (1 : Slot).val ∧
      (k.trapped (plainCall p)).interruptServiceRoutine x 0x0000000b 0 = .ok k₁ ∧
      Switches x 1 k₁ (tickRun 20) k₂ ∧ k₂.procRunning = (1 : Slot).val ∧ k₂.mepc = mepc := by
  obtain ⟨⟨k, k₁, k₂⟩, hsome, hfields⟩ := Option.map_eq_some_iff.mp hrun
  simp only [plainCallLook, Prod.mk.injEq, decide_eq_true_eq] at hfields
  obtain ⟨⟨hstart, hrunning, hpid, hpids⟩, hresumed, hmepc⟩ := hfields
  simp only [plainCallRun, Option.bind_eq_bind, Option.bind_eq_some_iff, Option.pure_def,
    Option.some.injEq, Prod.mk.injEq] at hsome
  obtain ⟨k, -, k₁, hhandled, k₂, hfollow, rfl, rfl, rfl⟩ := hsome
  refine ⟨k, k₁, k₂, ⟨hstart, ?_, hpids, hpid⟩, hrunning, ?_, ?_, hresumed, hmepc⟩
  · omega
  · cases h : (k.trapped (plainCall p)).interruptServiceRoutine x 0x0000000b 0 with
    | error _ =>
        rw [h] at hhandled
        cases hhandled
    | ok _ =>
        rw [h] at hhandled
        cases hhandled
        rfl
  · exact Run.of_follow (fun _ _ h => of_decide_eq_true h) rfl hfollow

end Kernel

open Rtl.System in
private theorem systemCall_of_plainCall {x : ReadX} {p mepc : Word}
    (hrun : (Kernel.plainCallRun x p).map Kernel.plainCallLook =
      some ((false, 1, 1, true), (1, mepc)))
    (hecall : Plain (runFrom x ecall p 0)) (hmret : Plain (runFrom x mret p mepc)) :
    SystemCall x p mepc := by
  obtain ⟨k, k₁, k₂, hlive, hrunning, hhandled, hswitches, hresumed, hmepc⟩ :=
    Kernel.plainCallRun_eq hrun
  have hruns := isRun_runFrom x ecall p 0
  have hruns' := isRun_runFrom x mret p mepc
  obtain ⟨v, hpath, hentered, -, -, hsaved, hmcause⟩ :=
    ecall_traps hruns hecall.start hecall.uninterrupted rfl
  obtain ⟨v', hpath', hreturned, -, -, hq⟩ :=
    mret_returns hruns' hmret.start hmret.uninterrupted rfl
  exact .intro hruns hecall.start hecall.uninterrupted rfl rfl hpath hentered hlive hrunning
    hsaved.symm (hmcause ▸ hhandled) hswitches hresumed hruns' hmret.start hmret.uninterrupted rfl
    hmepc.symm hpath' hreturned hq

/-- With all `x` bits tied to 1 the call at the reset address skips an instruction. -/
theorem systemCall_plainCall : SystemCall Kernel.tiedHigh startAddr (startAddr + 8) :=
  systemCall_of_plainCall (by decide +kernel)
    ⟨by decide, by decide +kernel, by decide +kernel⟩
    ⟨by decide, by decide +kernel, by decide +kernel⟩

def hiddenBit : ReadX := { Kernel.tiedHigh with mepc := 0xfffffffb }

private theorem systemCall_hiddenBit : SystemCall hiddenBit (startAddr + 4) (startAddr + 8) :=
  systemCall_of_plainCall (by decide +kernel)
    ⟨by decide, by decide +kernel, by decide +kernel⟩
    ⟨by decide, by decide +kernel, by decide +kernel⟩

/-- One call that does not come back to the next instruction, and one that does. -/
theorem resumes_next_iff_plainCall :
    (startAddr + 8 = startAddr + 4 ↔ ReadsBack Kernel.tiedHigh (startAddr + 4)) ∧
      (startAddr + 8 = startAddr + 4 + 4 ↔ ReadsBack hiddenBit (startAddr + 4 + 4)) ∧
      ReadsBack hiddenBit (startAddr + 4 + 4) :=
  ⟨systemCall_plainCall.resumes_next_iff (by decide),
    systemCall_hiddenBit.resumes_next_iff (by decide), by unfold ReadsBack; decide⟩

theorem systemCall_skips :
    ¬∀ (x : ReadX) (p q : Word), byteOffset p = 0#2 → SystemCall x p q → q = p + 4 := by
  intro h
  exact absurd (h _ _ _ (by decide) systemCall_plainCall) (by decide)

end PComputer.PseudOS
