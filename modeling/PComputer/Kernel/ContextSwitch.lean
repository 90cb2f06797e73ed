import PComputer.Kernel.MessageWrites
import PComputer.Kernel.Return

/-!
# Switching between processes

A trap from the process's registers to the registers after `mret`: `isr_asm` saves
them, the handler may exchange the save area for that of another process, and
`isr_asm` loads what it finds.  `get_next` is a function pointer of `procmanager`,
so the scheduler's choice is a parameter.  The kernel writes messages wherever the
processes point, to the save area too.
-/

namespace PComputer.PseudOS

open PComputer.Foundation PComputer.Isa PComputer.Rtl Abi

/-! ## The scheduler for any `get_next` -/

/-- The loop `for(i = 0; i < 31; i++) to[i] = from[i];` -/
def copyFrame (src dst : StackFrame) : StackFrame :=
  updates dst ((List.finRange 31).map fun i => (i, src i))

private theorem copyFrame_eq (src dst : StackFrame) : copyFrame src dst = src := by
  funext i
  refine updates_of_mem ?_ (List.mem_map.mpr ⟨i, List.mem_finRange i, rfl⟩)
  rw [List.map_map]
  exact List.nodup_finRange 31 |>.map fun _ _ h => h

inductive TrapKind where
  | tick | ecall
  deriving DecidableEq, Repr

def TrapKind.mcause : TrapKind → Word
  | .tick => 0x80000007
  | .ecall => 0x0000000b

namespace Kernel

/-- The two copies are the loops of `_stackframe_save` and `_stackframe_load`. -/
theorem stackframeSave_eq_copy (k : Kernel) (i : Slot) :
    k.stackframeSave i = k.setProc i fun p => { p with regs := copyFrame k.regsSave p.regs } := by
  simp only [copyFrame_eq]
  rfl

theorem stackframeLoad_eq_copy (k : Kernel) (i : Slot) :
    k.stackframeLoad i = { k with regsSave := copyFrame (k.proc i).regs k.regsSave } := by
  rw [copyFrame_eq]
  rfl

def scheduleWith (x : ReadX) (getNext : Kernel → Int) (k : Kernel) : Except Fault Kernel := do
  if k.doStart then
    let k := { k with procmanager := { k.procmanager with doStart := false } }
    let pTo ← pid2proc 1
    return k.dispatch pTo
  else
    let pidTo := getNext k
    let pFrom ← pid2proc k.procRunning
    let pTo ← pid2proc pidTo
    return (k.suspend x pFrom).dispatch pTo

/--
`interrupt_service_routine` on a timer tick or a system call.  The save area is memory, so
after the message passing it holds what the messages have left there.
-/
def service (x : ReadX) (getNext : Kernel → Int) (k : Kernel) : TrapKind → Except Fault Kernel
  | .tick =>
      let k := { k with ticks := k.ticks + 1 }
      if k.ticks % 5 = 0 then k.scheduleWith x getNext else .ok k
  | .ecall => do
      let k ← k.syscallIpc x
      Kernel.scheduleWith x getNext { k with regsSave := frameAt k.mem }

end Kernel

/--
One trap: `isr_asm` with the C function in the middle, which hands back the
callee-saved registers and leaves anything in the others.
-/
def trap (x : ReadX) (getNext : Kernel → Int) (kind : TrapKind) (clobbered : Reg → Word)
    (h : Hart) (k : Kernel) : Except Fault (Hart × Kernel) := do
  let h := h.run isrSave
  let k ← { k with regsSave := frameAt h.mem, mem := h.mem, mepc := h.mepc }.service x getNext kind
  let h := { h with
    x := fun r => if calleeSaved r then h.x r else clobbered r
    mem := withFrame k.mem k.regsSave
    mepc := k.mepc }
  return ((h.run isrRestore).mret, k)

namespace Kernel

variable {x : ReadX} {getNext : Kernel → Int} {kind : TrapKind}
  {clobbered : Reg → Word} {h h' : Hart} {k k' : Kernel} {c : Slot}

def enter (k : Kernel) (h : Hart) : Kernel :=
  { k with
    regsSave := fun i => h.x (frameReg i)
    mem := (h.run isrSave).mem
    mepc := h.mepc }

private theorem trap_cases (hok : trap x getNext kind clobbered h k = .ok (h', k')) :
    (k.enter h).service x getNext kind = .ok k' ∧ (∀ i, h'.x (frameReg i) = k'.regsSave i) ∧
      h'.pc = k'.mepc := by
  obtain ⟨hmem, hs0, hmepc⟩ := h.run_isrSave
  unfold trap at hok
  obtain ⟨k₁, hservice, hok⟩ := bind_eq_ok.mp hok
  obtain ⟨hh, hk⟩ := Prod.mk.inj (pure_eq_ok.mp hok)
  subst hk
  have henter : { k with
      regsSave := frameAt (h.run isrSave).mem
      mem := (h.run isrSave).mem
      mepc := (h.run isrSave).mepc } = k.enter h := by
    rw [enter, hmepc, hmem, frameAt_withFrame]
  rw [henter] at hservice
  have hbase : (if calleeSaved s0 then (h.run isrSave).x s0 else clobbered s0) =
      REGS_SAVE_ADDR := by
    rw [if_pos (by decide), hs0]
  have hrestore := Hart.run_isrRestore
    { h.run isrSave with
      x := fun r => if calleeSaved r then (h.run isrSave).x r else clobbered r
      mem := withFrame k₁.mem k₁.regsSave
      mepc := k₁.mepc } hbase
  refine ⟨hservice, fun i => ?_, ?_⟩
  · rw [← hh, Hart.mret_x, (hrestore i).1, frameAt_withFrame]
  · rw [← hh, Hart.mret_pc, (hrestore 0).2]

/-! ## One `schedule` -/

private theorem scheduleWith_cases (hstart : k.doStart = false)
    (hok : k.scheduleWith x getNext = .ok k') :
    ∃ p t, pid2proc k.procRunning = .ok p ∧ k' = (k.suspend x p).dispatch t := by
  unfold scheduleWith at hok
  rw [if_neg (by simp [hstart])] at hok
  obtain ⟨p, hp, hok⟩ := bind_eq_ok.mp hok
  obtain ⟨t, -, hok⟩ := bind_eq_ok.mp hok
  cases pure_eq_ok.mp hok
  exact ⟨p, t, hp, rfl⟩

structure Saved (k : Kernel) (c : Slot) (frame : StackFrame) (next : Word) : Prop where
  regs : (k.proc c).regs = frame
  pc : (k.proc c).pc = next

structure Context (k : Kernel) (c : Slot) (frame : StackFrame) (next : Word) : Prop
    extends k.Live c where
  loaded : k.procRunning = c.val → k.regsSave = frame ∧ k.mepc = next
  saved : k.procRunning ≠ c.val → k.Saved c frame next

private theorem saved_dispatch (k : Kernel) (t c : Slot) :
    (k.dispatch t).Saved c (k.proc c).regs (k.proc c).pc := by
  rcases eq_or_ne c t with rfl | hc
  · constructor <;> rw [proc_dispatch, if_pos rfl]
  · constructor <;> rw [proc_dispatch, if_neg hc]

private theorem regsSave_dispatch (k : Kernel) (t : Slot) :
    (k.dispatch t).regsSave = ((k.dispatch t).proc t).regs := by
  rw [proc_dispatch, if_pos rfl]
  rfl

private theorem byteOffset_csrrMepc (x : ReadX) (k : Kernel) : byteOffset (k.csrrMepc x) = 0#2 := by
  refine byteOffset_eq_zero fun n hn => ?_
  have hmask : (~~~Privilege.mepcReadMask).getLsbD n = false := by
    revert n
    decide
  rw [csrrMepc, Privilege.readMasked, BitVec.getLsbD_and, hmask, Bool.and_false]

private theorem pid_suspend (x : ReadX) (k : Kernel) (p i : Slot) :
    ((k.suspend x p).proc i).pid = (k.proc i).pid := by
  rw [proc_suspend]
  by_cases hi : i = p
  · rw [if_pos hi, hi]
  · rw [if_neg hi]

theorem Live.suspend (h : k.Live c) (x : ReadX) (p t : Slot) :
    ((k.suspend x p).dispatch t).Live c := by
  have hpid (i : Slot) : (((k.suspend x p).dispatch t).proc i).pid = (k.proc i).pid := by
    rw [← pid_suspend x k p i, proc_dispatch]
    by_cases hi : i = t
    · rw [if_pos hi, hi]
    · rw [if_neg hi]
  refine ⟨h.started, ?_, fun i => hpid i ▸ h.pids i, (hpid c).trans h.live⟩
  rw [procRunning_dispatch]
  omega

theorem Live.dispatched (h : k.Live c) {x : ReadX} {p t : Slot}
    (hrunning : ((k.suspend x p).dispatch t).procRunning = c.val) : t = c := by
  rw [procRunning_dispatch, pid_suspend] at hrunning
  have hlt : c.val < 64 := c.isLt
  have hlt' : t.val < 64 := t.isLt
  refine Fin.ext ?_
  rcases h.pids t with hpid' | hpid' <;> rw [hpid'] at hrunning <;> omega

private theorem Live.saved_scheduleWith (hlive : k.Live c) (hok : k.scheduleWith x getNext = .ok k')
    {regs : StackFrame} {pc : Word}
    (hcontext : if k.procRunning = c.val then k.regsSave = regs ∧ k.csrrMepc x = pc
      else k.Saved c regs pc) : k'.Saved c regs pc := by
  obtain ⟨p, t, hp, rfl⟩ := scheduleWith_cases hlive.started hok
  have hrunning := hlive.running hp
  have hself := saved_dispatch (k.suspend x p) t c
  have hproc := proc_suspend x k p c
  by_cases hc : c = p
  · rw [if_pos (hrunning.trans (congrArg Fin.val hc.symm))] at hcontext
    rw [if_pos hc] at hproc
    rw [hproc] at hself
    exact ⟨hself.regs.trans hcontext.1, hself.pc.trans hcontext.2⟩
  · rw [if_neg fun h => hc (Fin.ext (h.symm.trans hrunning))] at hcontext
    rw [if_neg hc] at hproc
    rw [hproc] at hself
    exact ⟨hself.regs.trans hcontext.regs, hself.pc.trans hcontext.pc⟩

/-- What `_proc_schedule` loads is what it leaves in the table. -/
theorem Live.scheduleWith (hlive : k.Live c) (haligned : byteOffset k.mepc = 0#2)
    (hok : k.scheduleWith x getNext = .ok k') {regs : StackFrame} {pc : Word}
    (hpc : byteOffset pc = 0#2)
    (hcontext : if k.procRunning = c.val then k.regsSave = regs ∧ k.csrrMepc x = pc
      else k.Saved c regs pc) : k'.Context c regs pc := by
  have hsaved := hlive.saved_scheduleWith hok hcontext
  obtain ⟨p, t, -, rfl⟩ := scheduleWith_cases hlive.started hok
  refine ⟨hlive.suspend x p t, fun hto => ?_, fun _ => hsaved⟩
  obtain rfl := hlive.dispatched hto
  refine ⟨(regsSave_dispatch _ t).trans hsaved.regs, ?_⟩
  rw [mepc_dispatch, hsaved.pc]
  exact writeMasked_mepc haligned hpc

/-! ## One trap -/

theorem Live.enter (hlive : k.Live c) (h : Hart) : (k.enter h).Live c :=
  ⟨hlive.started, hlive.bounded, hlive.pids, hlive.live⟩

/-- The value of `mepc` with which the trap leaves the process, as `_proc_schedule` reads it. -/
def suspendedPc (x : ReadX) (k : Kernel) : TrapKind → Word
  | .tick => if (k.ticks + 1) % 5 = 0 then k.csrrMepc x else k.mepc
  | .ecall => (k.skipEcall x).csrrMepc x

private theorem suspendedPc_exact (haligned : byteOffset k.mepc = 0#2)
    (hx : x.mepc = BitVec.allOnes 32) :
    k.suspendedPc x kind = match kind with
      | .tick => k.mepc
      | .ecall => k.mepc + 4 := by
  have hread {k : Kernel} (h : byteOffset k.mepc = 0#2) : k.csrrMepc x = k.mepc := by
    rw [csrrMepc, readMasked_mepc x h, hx, BitVec.allOnes_and]
  cases kind with
  | tick =>
      unfold suspendedPc
      split_ifs
      · exact hread haligned
      · rfl
  | ecall =>
      obtain ⟨hmepc, haligned'⟩ := mepc_skipEcall (x := x) rfl haligned
      rw [suspendedPc, hread haligned', hmepc, hx, BitVec.allOnes_and]

private theorem byteOffset_suspendedPc (haligned : byteOffset k.mepc = 0#2) :
    byteOffset (k.suspendedPc x kind) = 0#2 := by
  cases kind with
  | tick =>
      unfold suspendedPc
      split_ifs
      · exact byteOffset_csrrMepc x k
      · exact haligned
  | ecall => exact byteOffset_csrrMepc x (k.skipEcall x)

/-- A kernel that handles a trap: no message that it may write lies over the save area. -/
structure Handles (k : Kernel) (kind : TrapKind) : Prop where
  aligned : byteOffset k.mepc = 0#2
  frame : frameAt k.mem = k.regsSave
  messages : k.MessagesApart
  call : kind = .ecall → k.CallApart

private theorem Handles.service_cases (hhandles : k.Handles kind)
    (hok : k.service x getNext kind = .ok k') :
    k' = { k with ticks := k.ticks + 1 } ∧ k.suspendedPc x kind = k.mepc ∨
      ∃ k₁ : Kernel, { k with mepc := k₁.mepc, ticks := k₁.ticks }.Frame k₁ ∧
        k₁.MessagesApart ∧ byteOffset k₁.mepc = 0#2 ∧ k₁.csrrMepc x = k.suspendedPc x kind ∧
          k₁.scheduleWith x getNext = .ok k' := by
  cases kind with
  | tick =>
      change (if (k.ticks + 1) % 5 = 0 then
        Kernel.scheduleWith x getNext { k with ticks := k.ticks + 1 } else _) = _ at hok
      by_cases hswitch : (k.ticks + 1) % 5 = 0
      · rw [if_pos hswitch] at hok
        rw [suspendedPc, if_pos hswitch]
        exact .inr ⟨{ k with ticks := k.ticks + 1 }, Frame.refl _, hhandles.messages,
          hhandles.aligned, rfl, hok⟩
      · rw [if_neg hswitch] at hok
        rw [suspendedPc, if_neg hswitch]
        exact .inl ⟨(Except.ok.inj hok).symm, rfl⟩
  | ecall =>
      obtain ⟨k₁, hipc, hok⟩ := bind_eq_ok.mp hok
      have hf := syscallIpc_frame hipc
      have hspares := hhandles.messages.syscallIpc (hhandles.call rfl) hipc
      obtain ⟨-, haligned'⟩ := mepc_skipEcall (x := x) rfl hhandles.aligned
      refine .inr ⟨{ k₁ with regsSave := frameAt k₁.mem }, ?_, hspares.messages,
        hf.mepc ▸ haligned', ?_, hok⟩
      · have hregs : frameAt k₁.mem = k.regsSave := hspares.frame.trans hhandles.frame
        exact ⟨hf.procRunning, hf.doStart, hregs, rfl, rfl, hf.pid, hf.pc, hf.regs⟩
      · change Kernel.csrrMepc x k₁ = _
        unfold suspendedPc csrrMepc
        rw [hf.mepc]

private theorem Live.ticked (hlive : k.Live c) (mepc ticks : Word) :
    { k with mepc := mepc, ticks := ticks }.Live c :=
  ⟨hlive.started, hlive.bounded, hlive.pids, hlive.live⟩

private theorem Live.service_live (hlive : k.Live c) (hhandles : k.Handles kind)
    (hok : k.service x getNext kind = .ok k') : k'.Live c := by
  rcases hhandles.service_cases hok with ⟨rfl, -⟩ | ⟨k₁, hf, -, -, -, hok⟩
  · exact hlive.ticked k.mepc (k.ticks + 1)
  · have hlive₁ : k₁.Live c := (hlive.ticked k₁.mepc k₁.ticks).of_frame hf
    obtain ⟨p, t, -, rfl⟩ := scheduleWith_cases hlive₁.started hok
    exact hlive₁.suspend x p t

private theorem MessagesApart.scheduleWith (h : k.MessagesApart) (hstart : k.doStart = false)
    (hok : k.scheduleWith x getNext = .ok k') : k'.MessagesApart := by
  obtain ⟨p, t, -, rfl⟩ := scheduleWith_cases hstart hok
  intro i
  have hmsg : (((k.suspend x p).dispatch t).proc i).pMsg = (k.proc i).pMsg := by
    have hsuspend (j : Slot) : ((k.suspend x p).proc j).pMsg = (k.proc j).pMsg := by
      rw [proc_suspend]
      by_cases hj : j = p
      · rw [if_pos hj, hj]
      · rw [if_neg hj]
    rw [← hsuspend, proc_dispatch]
    by_cases hi : i = t
    · rw [if_pos hi, hi]
    · rw [if_neg hi]
  rw [hmsg]
  exact h i

theorem Handles.service (hhandles : k.Handles kind) (hlive : k.Live c)
    (hok : k.service x getNext kind = .ok k') : k'.MessagesApart := by
  rcases hhandles.service_cases hok with ⟨rfl, -⟩ | ⟨k₁, hf, hmessages, -, -, hok⟩
  · exact hhandles.messages
  · exact hmessages.scheduleWith (hf.doStart.trans hlive.started) hok

theorem Live.service (hlive : k.Live c) (hhandles : k.Handles kind)
    (hrunning : k.procRunning = c.val) (hok : k.service x getNext kind = .ok k') :
    k'.Context c k.regsSave (k.suspendedPc x kind) := by
  have hpc : byteOffset (k.suspendedPc x kind) = 0#2 := byteOffset_suspendedPc hhandles.aligned
  rcases hhandles.service_cases hok with ⟨rfl, hpc'⟩ | ⟨k₁, hf, -, haligned₁, hpc₁, hok⟩
  · rw [hpc']
    exact ⟨hlive.ticked k.mepc (k.ticks + 1), fun _ => ⟨rfl, rfl⟩, fun h => absurd hrunning h⟩
  · refine ((hlive.ticked k₁.mepc k₁.ticks).of_frame hf).scheduleWith haligned₁ hok hpc ?_
    rw [if_pos (hf.procRunning.trans hrunning)]
    exact ⟨hf.regsSave, hpc₁⟩

private theorem Live.saved_service (hlive : k.Live c) (hhandles : k.Handles kind)
    (hother : k.procRunning ≠ c.val) (hok : k.service x getNext kind = .ok k') :
    k'.Saved c (k.proc c).regs (k.proc c).pc := by
  rcases hhandles.service_cases hok with ⟨rfl, -⟩ | ⟨k₁, hf, -, -, -, hok⟩
  · exact ⟨rfl, rfl⟩
  · refine ((hlive.ticked k₁.mepc k₁.ticks).of_frame hf).saved_scheduleWith hok ?_
    rw [if_neg fun h => hother (hf.procRunning.symm.trans h)]
    exact ⟨hf.regs c, hf.pc c⟩

theorem Context.service {regs : StackFrame} {pc : Word} (hcontext : k.Context c regs pc)
    (hhandles : k.Handles kind) (hpc : byteOffset pc = 0#2)
    (hother : k.procRunning ≠ c.val) (hok : k.service x getNext kind = .ok k') :
    k'.Context c regs pc := by
  have hlive := hcontext.toLive
  have hsaved := hcontext.saved hother
  rcases hhandles.service_cases hok with ⟨rfl, -⟩ | ⟨k₁, hf, -, haligned₁, -, hok⟩
  · exact ⟨hlive.ticked k.mepc (k.ticks + 1), fun h => absurd h hother,
      fun _ => ⟨hsaved.regs, hsaved.pc⟩⟩
  · refine ((hlive.ticked k₁.mepc k₁.ticks).of_frame hf).scheduleWith haligned₁ hok hpc ?_
    rw [if_neg fun h => hother (hf.procRunning.symm.trans h)]
    exact ⟨(hf.regs c).trans hsaved.regs, (hf.pc c).trans hsaved.pc⟩

end Kernel

/-! ## Runs of traps -/

/-- One trap with what the kernel model leaves open: the scheduler's choice and the C code's use
of the other registers. -/
structure TrapEvent where
  kind : TrapKind
  getNext : Kernel → Int
  clobbered : Reg → Word
  hart : Hart

/--
Traps one after the other from a kernel that has dispatched its first process.  The
trap `n` takes it from `k n` to `k (n + 1)` and leaves the registers `out n`; what the
processes do in between is in the registers and the memory of the next trap.
-/
structure Traps (x : ReadX) (len : Nat) (traps : Nat → TrapEvent) (out : Nat → Hart)
    (k : Nat → Kernel) : Prop where
  trapped : ∀ n < len, trap x (traps n).getNext (traps n).kind (traps n).clobbered (traps n).hart
    (k n) = .ok (out n, k (n + 1))
  started : (k 0).doStart = false
  bounded : (k 0).procRunning < 65536
  pids : ∀ i, ((k 0).proc i).pid = -1 ∨ ((k 0).proc i).pid = i.val
  aligned : ∀ n < len, byteOffset (traps n).hart.mepc = 0#2

/--
Traps in which the messages lie apart from the save area and from the kernel's own words:
the process table is not part of the memory that the messages are in.
-/
structure TrapRun (x : ReadX) (len : Nat) (traps : Nat → TrapEvent) (out : Nat → Hart)
    (k : Nat → Kernel) : Prop extends Traps x len traps out k where
  messages : (k 0).MessagesApart
  calls : ∀ n < len, (traps n).kind = .ecall → ((k n).enter (traps n).hart).CallApart

/-- `c` traps at `i` and runs again after the trap `j`, and not in between. -/
structure Suspended (k : Nat → Kernel) (c : Slot) (i j : Nat) : Prop where
  le : i ≤ j
  trapped : (k i).procRunning = c.val
  away : ∀ m, i < m → m ≤ j → (k m).procRunning ≠ c.val
  back : (k (j + 1)).procRunning = c.val

namespace TrapRun

open Kernel

variable {x : ReadX} {len : Nat} {traps : Nat → TrapEvent}
  {out : Nat → Hart} {k : Nat → Kernel} {c : Slot}

private theorem serviced (hrun : TrapRun x len traps out k) {n : Nat} (hn : n < len) :
    ((k n).enter (traps n).hart).service x (traps n).getNext (traps n).kind = .ok (k (n + 1)) :=
  (trap_cases (hrun.trapped n hn)).1

theorem handles (hrun : TrapRun x len traps out k) {n : Nat} (hn : n < len)
    (hmessages : (k n).MessagesApart) :
    ((k n).enter (traps n).hart).Handles (traps n).kind where
  aligned := hrun.aligned n hn
  frame := by
    rw [enter, (Hart.run_isrSave _).1, frameAt_withFrame]
  messages := hmessages
  call := hrun.calls n hn

private theorem live_and_apart (hrun : TrapRun x len traps out k)
    (hc : ((k 0).proc c).pid = c.val)
    {n : Nat} (hn : n ≤ len) : (k n).Live c ∧ (k n).MessagesApart := by
  induction n with
  | zero => exact ⟨⟨hrun.started, hrun.bounded, hrun.pids, hc⟩, hrun.messages⟩
  | succ n ih =>
      obtain ⟨hlive, hmessages⟩ := ih (by omega)
      have hhandles := hrun.handles hn hmessages
      exact ⟨(hlive.enter _).service_live hhandles (hrun.serviced hn),
        hhandles.service (hlive.enter _) (hrun.serviced hn)⟩

/-- From its own trap on, the context of `c` is that of the trap as long as others run. -/
theorem context (hrun : TrapRun x len traps out k) (hc : ((k 0).proc c).pid = c.val)
    {i j : Nat} (hij : i ≤ j) (hj : j < len) (htrapped : (k i).procRunning = c.val)
    (haway : ∀ m, i < m → m ≤ j → (k m).procRunning ≠ c.val) :
    (k (j + 1)).Context c (fun i' => (traps i).hart.x (frameReg i'))
      (((k i).enter (traps i).hart).suspendedPc x (traps i).kind) := by
  induction j, hij using Nat.le_induction with
  | base =>
      obtain ⟨hlive, hmessages⟩ := hrun.live_and_apart hc hj.le
      exact (hlive.enter _).service (hrun.handles hj hmessages) htrapped (hrun.serviced hj)
  | succ j hij ih =>
      have hother := haway (j + 1) (by omega) le_rfl
      have hcontext := ih (by omega) fun m him hmj => haway m him (by omega)
      have hsaved := hcontext.saved hother
      have hentered : ((k (j + 1)).enter (traps (j + 1)).hart).Context c
          (fun i' => (traps i).hart.x (frameReg i'))
          (((k i).enter (traps i).hart).suspendedPc x (traps i).kind) :=
        ⟨hcontext.toLive.enter _, fun h => absurd h hother, fun _ => ⟨hsaved.regs, hsaved.pc⟩⟩
      exact hentered.service (hrun.handles hj (hrun.live_and_apart hc hj.le).2)
        (byteOffset_suspendedPc (hrun.aligned i (by omega))) hother (hrun.serviced hj)

/-- A tick in process 1, from which the scheduler goes to process 2, which sends to process 3. -/
def thereAndBack (n : Nat) : TrapEvent :=
  if n = 0 then
    { kind := .tick
      getNext := fun _ => 2
      clobbered := fun _ => 0
      hart :=
        { x := fun r => r.setWidth 32
          mem := fun _ => 0
          mscratch := 0
          mepc := 0x20001000
          pc := 0 } }
  else
    { kind := .ecall
      getNext := fun _ => 1
      clobbered := fun _ => 0
      hart :=
        { x := fun r =>
              if r = a0 then 74 else if r = a1 then 3 else if r = a2 then 0x20120000 else 0xffffffff
          mem := fun _ => 0
          mscratch := 0
          mepc := 0x20002000
          pc := 0 } }

def dispatched : Kernel :=
  let k := (default : Kernel).prepareProcesses someImage
  { k with procmanager := { k.procmanager with doStart := false }, ticks := 4 }

def follow (x : ReadX) (traps : Nat → TrapEvent) (k : Kernel) : Nat → Except Fault (Hart × Kernel)
  | 0 => .ok ((traps 0).hart, k)
  | n + 1 => do
      let (_, k) ← follow x traps k n
      trap x (traps n).getNext (traps n).kind (traps n).clobbered (traps n).hart k

def after (x : ReadX) (traps : Nat → TrapEvent) (k : Kernel) (n : Nat) : Hart × Kernel :=
  match follow x traps k n with
  | .ok p => p
  | .error _ => ((traps 0).hart, k)

private theorem trapped_after {k₀ : Kernel} {n : Nat}
    (hok : (follow x traps k₀ (n + 1)).isOk = true) :
    trap x (traps n).getNext (traps n).kind (traps n).clobbered (traps n).hart
      (after x traps k₀ n).2 = .ok (after x traps k₀ (n + 1)) := by
  cases h : follow x traps k₀ (n + 1) with
  | error _ =>
      rw [h] at hok
      cases hok
  | ok p =>
      obtain ⟨q, hq, hp⟩ := bind_eq_ok.mp h
      unfold after
      rw [h, hq]
      exact hp

private theorem liesApart_user : LiesApart 0x20120000 where
  save := by decide +kernel
  kernel n hn := by
    change ¬(0x20001000 ≤ 4 * (messageWord 0x20120000 n).toNat ∧
      4 * (messageWord 0x20120000 n).toNat ≤ 0x200ffffc)
    revert n
    decide +kernel

private theorem trapRun_thereAndBack :
    TrapRun tiedHigh 2 thereAndBack
      (fun n => (after tiedHigh thereAndBack dispatched (n + 1)).1)
      (fun n => (after tiedHigh thereAndBack dispatched n).2) where
  trapped n hn := trapped_after (by revert n; decide +kernel)
  started := rfl
  bounded := by decide +kernel
  pids := by decide +kernel
  aligned := by decide +kernel
  messages i := .inl (by revert i; decide +kernel)
  calls n hn hkind := by
    have hn1 : n = 1 := by
      rcases Nat.lt_succ_iff_lt_or_eq.mp hn with hlt | rfl
      · obtain rfl : n = 0 := by omega
        cases hkind
      · rfl
    subst hn1
    exact fun _ => liesApart_user

private theorem suspended_thereAndBack :
    Suspended (fun n => (after tiedHigh thereAndBack dispatched n).2) 1 0 1 where
  le := by decide
  trapped := rfl
  away m hm hm' := by
    obtain rfl : m = 1 := by omega
    decide +kernel
  back := by decide +kernel

/-- A call of process 1 whose message is the save area: the kernel names the caller in `a1`. -/
def overlaid (_ : Nat) : TrapEvent :=
  { kind := .ecall
    getNext := fun _ => 1
    clobbered := fun _ => 0
    hart :=
      { x := fun r => if r = a1 then 2 else if r = a2 then REGS_SAVE_ADDR else 0
        mem := fun _ => 0
        mscratch := 0
        mepc := 0x20001000
        pc := 0 } }

end TrapRun

end PComputer.PseudOS
