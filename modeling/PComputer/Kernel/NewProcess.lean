import PComputer.Fs.Daemons
import PComputer.Kernel.LoaderBounds
import PComputer.Kernel.States

/-!
# `sdboot.c`: processes from programs in memory

A program is loaded, and the first free slot of the process table gets its entry point
and its stack, whatever the loader returns and whether there is a free slot or not.
-/

namespace PComputer.PseudOS

open PComputer.Foundation PComputer.Rtl

def KPROC_PID_TICKS : Int := 4
def KPROC_PID_MM : Int := 6
def KPROC_PID_TTY1 : Int := 8
def KPROC_PID_TTY2 : Int := 9
def KPROC_PID_FSS1 : Int := 11
def KPROC_PID_FSS2 : Int := 12
def KPROC_PID_ETH0 : Int := 13

def servicePids : List Int :=
  [KPROC_PID_TICKS, KPROC_PID_FS, KPROC_PID_MM, KPROC_PID_TTY0, KPROC_PID_TTY1, KPROC_PID_TTY2,
    KPROC_PID_FSS0, KPROC_PID_FSS1, KPROC_PID_FSS2, KPROC_PID_ETH0]

def Process.created (pid : Int) (entry stack : Word) (p : Process) : Process :=
  { p with
    pid := pid
    pMsg := 0
    pRecvfrom := IPC_TARGET_NONE
    pSendto := IPC_TARGET_NONE
    queueSending := none
    queueSendingNext := none
    pc := entry
    regs := Function.update p.regs StackFrame.sp stack
    state := PROC_STATE_READY }

/-- The kernel, and the memory in front of `proc_table` as `proc_table[-1]`. -/
structure ProcMemory where
  kernel : Kernel
  front : Process

/-- The part of the function behind the loading: `*pid` and the memory after it. -/
def createProcess (r : ExecLoad) (m : ProcMemory) : Int × ProcMemory :=
  (m.kernel.getavailpid,
    match m.kernel.newProcess r.entryAddr r.stackAddr with
    | .ok k => { m with kernel := k }
    | .error _ =>
        { m with front := m.front.created m.kernel.getavailpid r.entryAddr r.stackAddr })

private theorem createProcess_fst (r : ExecLoad) (m : ProcMemory) :
    (createProcess r m).1 = m.kernel.getavailpid := rfl

/-- `elfStackAddr` is what the variable of that name holds before it is set. -/
def newProcessFromElfInMemory (elfAddr : Word) (image : ElfImage) (stackSize : Int)
    (elfStackAddr : Word) (dynlinktbl : DynLinkTable) (m : ProcMemory) :
    Except LoaderFault (Int × ProcMemory) :=
  (loadDynamicExec elfAddr image stackSize elfStackAddr dynlinktbl).map fun r => createProcess r m

/-! ## The stack -/

/-- The bytes below `sp` that `stack_size` asks for, and the bytes of the two segments. -/
def OwnStack (base : Word) (image : ElfImage) (stackSize : Int) (sp : Word) : Prop :=
  ∀ k : Nat, 1 ≤ k → (k : Int) ≤ stackSize →
    ∀ p ∈ [image.phdr 2, image.phdr 3], ∀ m < p.pMemsz.toNat,
      sp - BitVec.ofNat 32 k ≠ base + p.pVaddr + BitVec.ofNat 32 m

def roomBelow (v : Word) : Nat := if v = 0 then 2 ^ 32 else v.toNat

/-- No stack, or a second segment without a byte and room between the first and its place. -/
def StackRoom (image : ElfImage) (stackSize : Int) : Prop :=
  stackSize ≤ 0 ∨ (image.phdr 3).pMemsz = 0 ∧
    ((image.phdr 2).pMemsz = 0 ∨
      (image.phdr 2).pMemsz.toNat + stackSize ≤ roomBelow (image.phdr 3).pVaddr)

section Stack

variable {base : Word} {image : ElfImage} {stackSize : Int}

private theorem sub_eq_add_iff (v w : Word) (k m : Nat) :
    base + v - BitVec.ofNat 32 k = base + w + BitVec.ofNat 32 m ↔ v = w + BitVec.ofNat 32 (m + k)
      := by
  rw [sub_eq_iff_eq_add, BitVec.ofNat_add, add_assoc, add_assoc, add_right_inj]

private theorem ofNat_roomBelow (v : Word) : BitVec.ofNat 32 (roomBelow v) = v := by
  unfold roomBelow
  split_ifs with hzero
  · rw [hzero]
    rfl
  · rw [BitVec.ofNat_toNat, BitVec.setWidth_eq]

private theorem roomBelow_pos (v : Word) : 0 < roomBelow v := by
  unfold roomBelow
  split_ifs with hzero
  · decide
  · bv_omega

private theorem ne_ofNat_of_lt_roomBelow {v : Word} {n : Nat} (hpos : 0 < n)
    (hlt : n < roomBelow v) :
    v ≠ BitVec.ofNat 32 n := by
  rintro rfl
  unfold roomBelow at hlt
  rw [BitVec.toNat_ofNat] at hlt
  split_ifs at hlt with hzero
  · have hmod : n % 2 ^ 32 = 0 := by simpa using congrArg BitVec.toNat hzero
    omega
  · have hle := Nat.mod_le n (2 ^ 32)
    omega

private theorem ownStack_iff (hfirst : (image.phdr 2).pVaddr = 0) :
    OwnStack base image stackSize (base + (image.phdr 3).pVaddr + (image.phdr 3).pMemsz) ↔
      StackRoom image stackSize := by
  unfold OwnStack StackRoom
  generalize hsecond : image.phdr 3 = second
  generalize image.phdr 2 = first at hfirst ⊢
  have hsp : base + second.pVaddr + second.pMemsz = base + (second.pVaddr + second.pMemsz) :=
    add_assoc _ _ _
  rw [hsp]
  simp only [List.mem_cons, List.not_mem_nil, or_false, forall_eq_or_imp, forall_eq, ne_eq,
    sub_eq_add_iff, hfirst]
  constructor
  · intro h
    by_cases hsize : stackSize ≤ 0
    · exact Or.inl hsize
    have hzero : second.pMemsz = 0 := by
      by_contra hne
      have hpos : 0 < second.pMemsz.toNat := by bv_omega
      refine (h 1 le_rfl (by omega)).2 (second.pMemsz.toNat - 1) (by omega) ?_
      rw [Nat.sub_add_cancel hpos, BitVec.ofNat_toNat, BitVec.setWidth_eq]
    refine Or.inr ⟨hzero, ?_⟩
    by_contra hroom
    rw [not_or] at hroom
    obtain ⟨hne, hlong⟩ := hroom
    have hpos : 0 < first.pMemsz.toNat := by bv_omega
    -- The bytes that meet: the last of the segment, or else the first below the stack pointer.
    have hroomPos := roomBelow_pos second.pVaddr
    obtain ⟨m, k, hm, hk, hle, hsum⟩ : ∃ m k : Nat, m < first.pMemsz.toNat ∧ 1 ≤ k ∧
        (k : Int) ≤ stackSize ∧ m + k = roomBelow second.pVaddr := by
      rcases Nat.le_total first.pMemsz.toNat (roomBelow second.pVaddr) with hfits | hover
      · exact ⟨first.pMemsz.toNat - 1, roomBelow second.pVaddr - (first.pMemsz.toNat - 1),
          by omega, by omega, by omega, by omega⟩
      · exact ⟨roomBelow second.pVaddr - 1, 1, by omega, le_rfl, by omega, by omega⟩
    refine (h k hk hle).1 m hm ?_
    rw [hsum, ofNat_roomBelow, hzero, add_zero, zero_add]
  · rintro (hsize | ⟨hzero, hroom⟩) k hk hle
    · omega
    · refine ⟨fun m hm => ?_, fun m hm => ?_⟩
      · rw [hzero, add_zero, zero_add]
        rcases hroom with hnone | hroom
        · rw [hnone] at hm
          exact absurd hm (Nat.not_lt_zero m)
        · exact ne_ofNat_of_lt_roomBelow (by omega) (by omega)
      · rw [hzero] at hm
        exact absurd hm (Nat.not_lt_zero m)

private theorem stackAddr_of_result_zero {elfStackAddr : Word} {dynlinktbl : DynLinkTable}
    {r : ExecLoad}
    (h : loadDynamicExec base image stackSize elfStackAddr dynlinktbl = .ok r) (hr : r.result = 0) :
    (image.phdr 2).pVaddr = 0 ∧
      r.stackAddr = base + (image.phdr 3).pVaddr + (image.phdr 3).pMemsz := by
  obtain ⟨hheaders, relaplt, temptbl, reladyn, -, -, -, rfl⟩ := loaded_of_result_zero h hr
  have hload := (headers_of_checks hheaders).2
  unfold loadHeadersOk at hload
  simp only [Bool.and_eq_true, beq_iff_eq] at hload
  exact ⟨hload.1.1.1.1.2, rfl⟩

/--
For every program that is accepted and every stack size: the stack of a new process is
its own just if none is asked for, or the second segment has no byte and there is room
between it and the first.
-/
theorem newProcess_ownStack_iff {elfStackAddr : Word} {dynlinktbl : DynLinkTable} {r : ExecLoad}
    (h : loadDynamicExec base image stackSize elfStackAddr dynlinktbl = .ok r) (hr : r.result = 0) :
    OwnStack base image stackSize r.stackAddr ↔ StackRoom image stackSize := by
  obtain ⟨hfirst, hsp⟩ := stackAddr_of_result_zero h hr
  rw [hsp]
  exact ownStack_iff hfirst

theorem newProcess_ownStack_someProgram :
    ∃ r, loadDynamicExec 0x20110000 someProgram 0x1000 0 [⟨0x20700100, [0x66]⟩] = .ok r ∧
      r.result = 0 ∧ (OwnStack 0x20110000 someProgram 0x1000 r.stackAddr ↔
        StackRoom someProgram 0x1000) := by
  obtain ⟨r, h, hr⟩ := accepted_someProgram
  exact ⟨r, h, hr, newProcess_ownStack_iff h hr⟩

/-- The first word that is pushed goes to the end of the `.bss`. -/
theorem not_ownStack_someProgram :
    ∃ r, loadDynamicExec 0x20110000 someProgram 0x1000 0 [⟨0x20700100, [0x66]⟩] = .ok r ∧
      r.result = 0 ∧ ¬OwnStack 0x20110000 someProgram 0x1000 r.stackAddr := by
  obtain ⟨r, h, hr⟩ := accepted_someProgram
  obtain ⟨hfirst, hsp⟩ := stackAddr_of_result_zero h hr
  refine ⟨r, h, hr, fun hown => ?_⟩
  rw [hsp, ownStack_iff hfirst] at hown
  unfold StackRoom at hown
  exact absurd hown (by decide +kernel)

end Stack

namespace Kernel

variable {k : Kernel} {i : Slot}

/-! ## The free slot -/

private theorem getavailpid_eq_iff :
    k.getavailpid = i.val ↔
      1 ≤ i.val ∧ (k.proc i).pid = -1 ∧ ∀ j < i, 1 ≤ j.val → (k.proc j).pid ≠ -1 := by
  unfold getavailpid
  constructor
  · intro h
    split at h
    · next i' hi' =>
        obtain rfl : i' = i := Fin.ext (Int.ofNat.inj h)
        rw [List.find?_eq_some_iff_getElem] at hi'
        obtain ⟨hfound, n, hn, heq, hbefore⟩ := hi'
        simp only [Bool.and_eq_true, decide_eq_true_eq, beq_iff_eq] at hfound
        refine ⟨hfound.1, hfound.2, fun j hj hpos hfree => ?_⟩
        have hval : n = i'.val := by simpa using congrArg Fin.val heq
        have hno := hbefore j.val (hval ▸ hj)
        simp [hpos, hfree] at hno
    · omega
  · rintro ⟨hpos, hfree, hbefore⟩
    have hfind : (List.finRange PROC_NUM_MAX).find?
        (fun i => 1 ≤ i.val && (k.proc i).pid == -1) = some i := by
      rw [List.find?_eq_some_iff_getElem]
      refine ⟨by simp [hpos, hfree], i.val, by simp, by simp, fun j hj => ?_⟩
      by_cases hone : 1 ≤ j
      · have hno := hbefore ⟨j, by omega⟩ hj hone
        simp [hno]
      · simp [hone]
    rw [hfind]

private theorem getavailpid_eq_none_iff :
    k.getavailpid = -1 ↔ ∀ i : Slot, 1 ≤ i.val → (k.proc i).pid ≠ -1 := by
  unfold getavailpid
  constructor
  · intro h i hpos hfree
    split at h
    · omega
    · next hnone =>
        rw [List.find?_eq_none] at hnone
        exact hnone i (List.mem_finRange i) (by simp [hpos, hfree])
  · intro h
    have hfind : (List.finRange PROC_NUM_MAX).find?
        (fun i => 1 ≤ i.val && (k.proc i).pid == -1) = none := by
      rw [List.find?_eq_none]
      intro i _ hfound
      simp only [Bool.and_eq_true, decide_eq_true_eq, beq_iff_eq] at hfound
      exact h i hfound.1 hfound.2
    rw [hfind]

private theorem newProcess_of_slot {entry stack : Word} (h : k.getavailpid = i.val) :
    k.newProcess entry stack = .ok (k.setProc i (Process.created i.val entry stack)) := by
  unfold newProcess
  simp only [h, pid2proc_val]
  rfl

private theorem newProcess_of_none {entry stack : Word} (h : k.getavailpid = -1) :
    k.newProcess entry stack = .error (.outOfTable (-1)) := by
  unfold newProcess
  simp only [h]
  rfl

end Kernel

/-! ## All or nothing -/

variable {r : ExecLoad} {k : Kernel} {m : ProcMemory}

private theorem createProcess_of_slot {i : Slot} (h : m.kernel.getavailpid = i.val) :
    createProcess r m = ((i.val : Int),
      { m with kernel := m.kernel.setProc i (Process.created i.val r.entryAddr r.stackAddr) }) := by
  unfold createProcess
  rw [Kernel.newProcess_of_slot h, h]

private theorem createProcess_of_none (h : m.kernel.getavailpid = -1) :
    createProcess r m = (-1,
      { m with front := m.front.created (-1) r.entryAddr r.stackAddr }) := by
  unfold createProcess
  rw [Kernel.newProcess_of_none h, h]

def Kernel.HasFreeSlot (k : Kernel) : Prop := ∃ i : Slot, 1 ≤ i.val ∧ (k.proc i).pid = -1

/-- With the table as it is in `k`, whatever lies in front of it. -/
structure AllOrNothing (load : Except LoaderFault ExecLoad)
    (call : ProcMemory → Except LoaderFault (Int × ProcMemory)) (k : Kernel) : Prop where
  fails : ¬Accepted load ∨ ¬k.HasFreeSlot →
    ∀ front, ∃ pid, call ⟨k, front⟩ = .ok (pid, ⟨k, front⟩)
  succeeds : Accepted load → k.HasFreeSlot →
    ∀ front, ∃ i : Slot, (k.proc i).pid = -1 ∧ ∃ f : Process → Process,
      (f (k.proc i)).pid = i.val ∧ call ⟨k, front⟩ = .ok (i.val, ⟨k.setProc i f, front⟩)

private theorem createProcess_changes (r : ExecLoad) (k : Kernel) :
    ∃ front, (createProcess r ⟨k, front⟩).2 ≠ ⟨k, front⟩ := by
  refine ⟨{ (default : Process) with pid := 0 }, fun hsame => ?_⟩
  rcases k.getavailpid_cases with ⟨i, -, hfree, hget⟩ | hnone
  · rw [createProcess_of_slot hget] at hsame
    have hpid := congrArg (fun m : ProcMemory => (m.kernel.proc i).pid) hsame
    simp only [Kernel.proc_setProc_self, Process.created] at hpid
    omega
  · rw [createProcess_of_none hnone] at hsame
    have hpid : (-1 : Int) = 0 := congrArg (fun m : ProcMemory => m.front.pid) hsame
    omega

private theorem allOrNothing_iff {load : Except LoaderFault ExecLoad} :
    AllOrNothing load (fun m => load.map fun r => createProcess r m) k ↔
      Accepted load ∧ k.HasFreeSlot := by
  constructor
  · intro h
    by_contra hno
    have hfails := h.fails (not_and_or.mp hno)
    cases load with
    | error fault =>
        obtain ⟨pid, hcall⟩ := hfails default
        cases hcall
    | ok r =>
        obtain ⟨front, hchange⟩ := createProcess_changes r k
        obtain ⟨pid, hcall⟩ := hfails front
        exact hchange (congrArg Prod.snd (Except.ok.inj hcall))
  · rintro ⟨haccepted, hfree⟩
    refine ⟨fun hfails => ?_, fun _ _ front => ?_⟩
    · rcases hfails with hbad | hnone
      · exact absurd haccepted hbad
      · exact absurd hfree hnone
    · obtain ⟨r, rfl, -⟩ := haccepted
      rcases k.getavailpid_cases with ⟨i, -, hpid, hget⟩ | hnone
      · exact ⟨i, hpid, _, rfl, congrArg Except.ok (createProcess_of_slot (m := ⟨k, front⟩) hget)⟩
      · obtain ⟨i, hpos, hpid⟩ := hfree
        exact absurd hpid (Kernel.getavailpid_eq_none_iff.mp hnone i hpos)

/--
For every table and every image: the call is all or nothing just if the loader succeeds
and a slot is free.
-/
theorem newProcess_allOrNothing_iff (elfAddr : Word) (image : ElfImage) (stackSize : Int)
    (elfStackAddr : Word) (dynlinktbl : DynLinkTable) (k : Kernel) :
    AllOrNothing (loadDynamicExec elfAddr image stackSize elfStackAddr dynlinktbl)
        (newProcessFromElfInMemory elfAddr image stackSize elfStackAddr dynlinktbl) k ↔
      Accepted (loadDynamicExec elfAddr image stackSize elfStackAddr dynlinktbl) ∧
        k.HasFreeSlot :=
  allOrNothing_iff

/-- What is no ELF file is run as a process. -/
theorem not_allOrNothing_zeros :
    ¬AllOrNothing (loadDynamicExec 0x20110000 (fun _ => 0) 0x1000 0 [])
        (newProcessFromElfInMemory 0x20110000 (fun _ => 0) 0x1000 0 [])
        (Kernel.procManagerClear default) := by
  intro h
  have haccepted := accepted_iff.mp (allOrNothing_iff.mp h).1
  exact absurd haccepted (by decide +kernel)

/-! ## The pids after the start -/

def createProcesses (rs : List ExecLoad) (m : ProcMemory) : ProcMemory :=
  rs.foldl (fun m r => (createProcess r m).2) m

/-- The pid was free, and no message to a service goes to it. -/
structure PidApart (r : ExecLoad) (m : ProcMemory) : Prop where
  unused : ∃ i : Slot, (m.kernel.proc i).pid = -1 ∧ (createProcess r m).1 = i.val
  apart : (createProcess r m).1 ∉ servicePids

def Freed (n : Nat) (k : Kernel) : Prop :=
  ∀ i : Slot, 1 ≤ i.val → ((k.proc i).pid = -1 ↔
    i.val = 4 ∧ n < 1 ∨ i.val = 6 ∧ n < 2 ∨ 8 ≤ i.val ∧ n + 6 ≤ i.val)

private theorem pid_prepareProcesses (image : Image) (k : Kernel) (i : Slot) :
    ((k.prepareProcesses image).proc i).pid =
      if i.val = 7 then 7 else if i.val = 5 then 5 else if i.val = 3 then 3
      else if i.val = 2 then 2 else if i.val = 1 then 1 else -1 := by
  have h7 : i = 7 ↔ i.val = 7 := Fin.ext_iff
  have h5 : i = 5 ↔ i.val = 5 := Fin.ext_iff
  have h3 : i = 3 ↔ i.val = 3 := Fin.ext_iff
  have h2 : i = 2 ↔ i.val = 2 := Fin.ext_iff
  have h1 : i = 1 ↔ i.val = 1 := Fin.ext_iff
  simp only [Kernel.prepareProcesses, Kernel.procManagerInit, Kernel.proc_setProc, h7, h5, h3, h2,
    h1]
  split_ifs <;> rfl

private theorem freed_prepareProcesses (image : Image) (k : Kernel) :
    Freed 0 (k.prepareProcesses image) := by
  intro i hi
  have hpid := pid_prepareProcesses image k i
  constructor <;> intro hcase <;> split_ifs at hpid <;> omega

theorem Freed.getavailpid {n : Nat} (h : Freed n k) :
    n = 0 ∧ k.getavailpid = 4 ∨ n = 1 ∧ k.getavailpid = 6 ∨
      2 ≤ n ∧ n < 58 ∧ k.getavailpid = (n : Int) + 6 ∨ 58 ≤ n ∧ k.getavailpid = -1 := by
  have hslot (i : Slot) (hpos : 1 ≤ i.val) (hfree : (k.proc i).pid = -1)
      (hbefore : ∀ j < i, 1 ≤ j.val → (k.proc j).pid ≠ -1) : k.getavailpid = i.val :=
    Kernel.getavailpid_eq_iff.mpr ⟨hpos, hfree, hbefore⟩
  by_cases hzero : n = 0
  · refine Or.inl ⟨hzero, hslot 4 (by decide) ((h 4 (by decide)).mpr (Or.inl ⟨rfl, by omega⟩))
      fun j hj hpos hfree => ?_⟩
    have hcases := (h j hpos).mp hfree
    have hless : j.val < 4 := hj
    omega
  by_cases hone : n = 1
  · refine Or.inr (Or.inl ⟨hone, hslot 6 (by decide)
      ((h 6 (by decide)).mpr (Or.inr (Or.inl ⟨rfl, by omega⟩))) fun j hj hpos hfree => ?_⟩)
    have hcases := (h j hpos).mp hfree
    have hless : j.val < 6 := hj
    omega
  by_cases hroom : n < 58
  · have hbound : n + 6 < PROC_NUM_MAX := by
      change n + 6 < 64
      omega
    have hget := hslot ⟨n + 6, hbound⟩ (by simp)
      ((h _ (by simp)).mpr (Or.inr (Or.inr ⟨by change 8 ≤ n + 6; omega, le_rfl⟩)))
      fun j hj hpos hfree => by
        have hcases := (h j hpos).mp hfree
        have hless : j.val < n + 6 := hj
        omega
    exact Or.inr (Or.inr (Or.inl ⟨by omega, hroom, by simpa using hget⟩))
  · refine Or.inr (Or.inr (Or.inr ⟨by omega, ?_⟩))
    refine Kernel.getavailpid_eq_none_iff.mpr fun i hpos hfree => ?_
    have hcases := (h i hpos).mp hfree
    have hbound : i.val < 64 := i.isLt
    omega

theorem Freed.create {n : Nat} (h : Freed n m.kernel) : Freed (n + 1) (createProcess r m).2.kernel
    := by
  have hget := h.getavailpid
  rcases m.kernel.getavailpid_cases with ⟨i, hpos, hfree, hslot⟩ | hnone
  · rw [createProcess_of_slot hslot]
    intro j hj
    change ((m.kernel.setProc i _).proc j).pid = -1 ↔ _
    rw [Kernel.proc_setProc]
    have hi := (h i hpos).mp hfree
    have hbound : j.val < 64 := j.isLt
    split_ifs with hsame
    · subst hsame
      change ((j.val : Int) = -1 ↔ _)
      rw [hslot] at hget
      constructor <;> intro hcase <;> omega
    · have hne : j.val ≠ i.val := fun heq => hsame (Fin.ext heq)
      rw [h j hj]
      rw [hslot] at hget
      constructor <;> intro hcase <;> omega
  · rw [createProcess_of_none hnone]
    intro j hj
    have hbound : j.val < 64 := j.isLt
    change (m.kernel.proc j).pid = -1 ↔ _
    rw [h j hj]
    rw [hnone] at hget
    constructor <;> intro hcase <;> omega

private theorem freed_createProcesses (image : Image) (k : Kernel) (front : Process)
    (rs : List ExecLoad) :
    Freed rs.length (createProcesses rs ⟨k.prepareProcesses image, front⟩).kernel := by
  induction rs using List.reverseRecOn with
  | nil => exact freed_prepareProcesses image k
  | append_singleton rs r ih =>
      rw [createProcesses, List.foldl_append, List.length_append]
      exact Freed.create ih

private theorem Freed.pidApart_iff {n : Nat} (h : Freed n m.kernel) :
    PidApart r m ↔ 8 ≤ n ∧ n < 58 := by
  have hget := h.getavailpid
  constructor
  · rintro ⟨⟨i, -, hi⟩, hapart⟩
    change m.kernel.getavailpid ∉ servicePids at hapart
    change m.kernel.getavailpid = i.val at hi
    rw [hi] at hget
    rw [hi] at hapart
    simp only [servicePids, KPROC_PID_TICKS, KPROC_PID_FS, KPROC_PID_MM, KPROC_PID_TTY0,
      KPROC_PID_TTY1, KPROC_PID_TTY2, KPROC_PID_FSS0, KPROC_PID_FSS1, KPROC_PID_FSS2,
      KPROC_PID_ETH0, List.mem_cons, List.not_mem_nil, or_false, not_or] at hapart
    omega
  · rintro ⟨hlow, hroom⟩
    rcases m.kernel.getavailpid_cases with ⟨i, -, hfree, hslot⟩ | hnone
    · refine ⟨⟨i, hfree, hslot⟩, ?_⟩
      change m.kernel.getavailpid ∉ servicePids
      simp only [servicePids, KPROC_PID_TICKS, KPROC_PID_FS, KPROC_PID_MM, KPROC_PID_TTY0,
        KPROC_PID_TTY1, KPROC_PID_TTY2, KPROC_PID_FSS0, KPROC_PID_FSS1, KPROC_PID_FSS2,
        KPROC_PID_ETH0, List.mem_cons, List.not_mem_nil, or_false]
      omega
    · omega

/--
After the start, the pid that a call gives is apart from those of the services just if
eight calls at least and fewer than fifty-eight came before it; so no sequence of calls
gives only such pids, but the empty one.
-/
theorem createProcesses_apart_iff (image : Image) (k : Kernel) (front : Process)
    (rs : List ExecLoad) :
    (∀ pre r post, rs = pre ++ r :: post →
        (PidApart r (createProcesses pre ⟨k.prepareProcesses image, front⟩) ↔
          8 ≤ pre.length ∧ pre.length < 58)) ∧
      ((∀ pre r post, rs = pre ++ r :: post →
        PidApart r (createProcesses pre ⟨k.prepareProcesses image, front⟩)) ↔ rs = []) := by
  have hcall (pre : List ExecLoad) (r : ExecLoad) :
      PidApart r (createProcesses pre ⟨k.prepareProcesses image, front⟩) ↔
        8 ≤ pre.length ∧ pre.length < 58 :=
    (freed_createProcesses image k front pre).pidApart_iff
  refine ⟨fun pre r _ _ => hcall pre r, fun h => ?_, ?_⟩
  · cases rs with
    | nil => rfl
    | cons r rs =>
        have hfirst := (hcall [] r).mp (h [] r rs rfl)
        exact absurd hfirst.1 (by decide)
  · rintro rfl pre r post hsplit
    exact absurd hsplit.symm (by simp)

/-- The memory after `prepare_processes` has run on a cleared one. -/
def prepared : ProcMemory := ⟨Kernel.prepareProcesses ⟨0, 0, 0, 0, 0, 0⟩ default, default⟩

/-- The first process gets the pid that the tick service is asked under. -/
theorem not_pidApart_first :
    (createProcess ⟨0, fun _ => 0, 0, 0⟩ prepared).1 = KPROC_PID_TICKS ∧
      ¬PidApart ⟨0, fun _ => 0, 0, 0⟩ prepared := by
  have hfreed : Freed 0 prepared.kernel := freed_prepareProcesses _ _
  refine ⟨?_, fun hapart => ?_⟩
  · rw [createProcess_fst]
    have hget := hfreed.getavailpid
    unfold KPROC_PID_TICKS
    omega
  · have hcalls := hfreed.pidApart_iff.mp hapart
    omega

end PComputer.PseudOS
