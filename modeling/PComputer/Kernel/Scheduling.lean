import PComputer.Kernel.States

/-!
# The running process

After `schedule` one process is RUNNING, it is `proc_running`, and it has no
unfinished IPC, as long as `schedule` finds a process to switch to when the
running one has blocked.  With none READY `_proc_getnext` falls back on the
blocked process and `schedule` resumes it.
-/

namespace PComputer.PseudOS

open PComputer.Foundation PComputer.Rtl

namespace Kernel

variable {k k' : Kernel} {c : Slot}

/-! ## `schedule` -/

def OtherReady (k : Kernel) : Prop := ∃ i : Slot, i.val ≠ k.procRunning ∧ k.isReady i = true

instance (k : Kernel) : Decidable k.OtherReady :=
  inferInstanceAs (Decidable (∃ i : Slot, i.val ≠ k.procRunning ∧ k.isReady i = true))

theorem Current.suspend (h : k.Current c) (x : ReadX) : (k.suspend x c).Wf ∧
    ∀ i, ((k.suspend x c).proc i).state ≠ PROC_STATE_RUNNING := by
  refine ⟨⟨fun i => ?_, fun i => ?_⟩, fun i => ?_⟩
  · rw [proc_suspend]
    by_cases hi : i = c
    · rw [if_pos hi, hi]
      exact h.pid c
    · rw [if_neg hi]
      exact h.pid i
  · rw [proc_suspend]
    split_ifs with hi hrun
    · obtain ⟨hmsg, hsend, hrecv⟩ := (h.valid c).idle_of_running hrun
      exact .ready rfl ⟨hmsg, hsend, hrecv⟩
    · exact Process.Valid.congr (p := k.proc c) rfl rfl rfl rfl (h.valid c)
    · exact h.valid i
  · rw [proc_suspend]
    split_ifs with hi hrun
    · exact ready_ne_running
    · exact hrun
    · exact fun hrun => hi (h.only i hrun)

theorem Wf.dispatch (h : k.Wf) {t : Slot} (hlive : (k.proc t).pid = t.val)
    (hidle : (k.proc t).Idle) (hnone : ∀ i, i ≠ t → (k.proc i).state ≠ PROC_STATE_RUNNING) :
    (k.dispatch t).Current t ∧ ((k.dispatch t).proc t).state = PROC_STATE_RUNNING := by
  have hself := proc_dispatch k t t
  rw [if_pos rfl] at hself
  refine ⟨⟨⟨fun i => ?_, fun i => ?_⟩, ?_, ?_, fun i hi => ?_⟩, ?_⟩
  · rw [proc_dispatch]
    split_ifs with hi
    · rw [hi]
      exact h.pid t
    · exact h.pid i
  · rw [proc_dispatch]
    split_ifs with hi
    · exact .running rfl ⟨hidle.pMsg, hidle.pSendto, hidle.pRecvfrom⟩
    · exact h.valid i
  · rw [procRunning_dispatch, hlive]
    have ht : t.val < 64 := t.isLt
    omega
  · rw [hself]
    exact hlive
  · rw [proc_dispatch] at hi
    split_ifs at hi with hit
    · exact hit
    · exact absurd hi (hnone i hit)
  · rw [hself]

theorem Current.slot_eq (h : k.Current c) {c' : Slot} (hc' : pid2proc k.procRunning = .ok c') :
    c' = c := by
  rw [h.procRunning, pid2proc_val] at hc'
  exact (Except.ok.inj hc').symm

private theorem Current.getnext (h : k.Current c)
    (hnext : (k.proc c).state = PROC_STATE_RUNNING ∨ k.OtherReady) {t : Slot}
    (ht : pid2proc k.procGetnext = .ok t) (x : ReadX) :
    ((k.suspend x c).proc t).pid = t.val ∧ ((k.suspend x c).proc t).Idle := by
  rcases procGetnext_cases k with ⟨i, hi, hready, hget⟩ | ⟨hno, hget⟩
  · rw [hget, pid2proc_val] at ht
    obtain rfl : i = t := Except.ok.inj ht
    have hne : i ≠ c := by
      rintro rfl
      exact hi h.procRunning.symm
    obtain ⟨hpid, hstate⟩ := isReady_eq_true.mp hready
    rw [proc_suspend, if_neg hne]
    exact ⟨(h.pid i).resolve_left hpid, (h.valid i).idle_of_ready hstate⟩
  · obtain rfl := h.slot_eq (hget ▸ ht)
    have hrun : (k.proc t).state = PROC_STATE_RUNNING := by
      rcases hnext with hrun | ⟨i, hi, hready⟩
      · exact hrun
      · rw [hno i hi] at hready
        cases hready
    obtain ⟨hmsg, hsend, hrecv⟩ := (h.valid t).idle_of_running hrun
    rw [proc_suspend, if_pos rfl]
    exact ⟨h.live, hmsg, hsend, hrecv⟩

theorem Current.schedule {x : ReadX} (h : k.Current c) (hstart : k.doStart = false)
    (hnext : (k.proc c).state = PROC_STATE_RUNNING ∨ k.OtherReady)
    (hok : k.schedule x = .ok k') :
    ∃ t, k'.Current t ∧ (k'.proc t).state = PROC_STATE_RUNNING := by
  obtain ⟨hwf, hnone⟩ := h.suspend x
  rcases schedule_cases hok with ⟨hstart', -⟩ | ⟨-, c', t, hc', ht, rfl⟩
  · rw [hstart] at hstart'
    cases hstart'
  · obtain rfl := h.slot_eq hc'
    obtain ⟨hlive, hidle⟩ := h.getnext hnext ht x
    exact ⟨t, hwf.dispatch hlive hidle fun i _ => hnone i⟩

private theorem Current.schedule_blocked {x : ReadX} (h : k.Current c) (hstart : k.doStart = false)
    (hmsg : (k.proc c).pMsg ≠ 0) (hno : ¬k.OtherReady) (hok : k.schedule x = .ok k') :
    ¬k'.Settled := by
  rcases schedule_cases hok with ⟨hstart', -⟩ | ⟨-, c', t, hc', ht, rfl⟩
  · rw [hstart] at hstart'
    cases hstart'
  · obtain rfl := h.slot_eq hc'
    rcases procGetnext_cases k with ⟨i, hi, hready, -⟩ | ⟨-, hget⟩
    · exact absurd ⟨i, hi, hready⟩ hno
    · obtain rfl := h.slot_eq (hget ▸ ht)
      rintro ⟨r, hr, hrunning, hidle⟩
      have hself := proc_dispatch (k.suspend x t) t t
      rw [if_pos rfl] at hself
      obtain rfl : t = r := (hrunning t).mp (by rw [hself])
      refine hmsg ?_
      have hmsg' := hidle.pMsg
      rw [hself, proc_suspend, if_pos rfl] at hmsg'
      exact hmsg'

/-! ## Runs -/

/-- Between two events the current process is RUNNING; before the first dispatch it is pid 1. -/
def Steady (k : Kernel) : Prop :=
  ∃ c, k.Current c ∧ (k.proc c).state = PROC_STATE_RUNNING ∧ (k.doStart = true → c = 1)

theorem Steady.settled : k.Steady → k.Settled := by
  rintro ⟨c, h, hc, -⟩
  exact h.settled hc

theorem Steady.of_table (h : k.Steady) (htable : k'.procmanager = k.procmanager) : k'.Steady := by
  obtain ⟨c, hcur, hc, hstart⟩ := h
  have hproc : k'.proc = k.proc := by
    unfold proc
    rw [htable]
  refine ⟨c, hcur.of_body (fun i => by rw [hproc]) (congrArg ProcManager.procRunning htable), ?_,
    fun h => hstart ((congrArg ProcManager.doStart htable).symm.trans h)⟩
  rw [hproc]
  exact hc

def ecallBlocks (k : Kernel) : Prop :=
  ∃ c : Slot, c.val = k.procRunning ∧ ∃ call ∈ k.requested, k.callBlocks c call = true

/-- A system call that blocks leaves its `schedule` another process. -/
def Covers (k : Kernel) : Event → Prop
  | .ecall t => (k.trapped t).ecallBlocks → k.OtherReady
  | .tick _ | .create _ _ => True

theorem syscallIpc_spec {x : ReadX} (h : k.Current c)
    (hc : (k.proc c).state = PROC_STATE_RUNNING) (hok : k.syscallIpc x = .ok k') :
    k'.Current c ∧ k'.doStart = k.doStart ∧
      (k.ecallBlocks ∧ (k'.proc c).pMsg ≠ 0 ∧ (k'.proc c).state ≠ PROC_STATE_RUNNING ∧
          (k'.OtherReady ↔ k.OtherReady) ∨
        ¬k.ecallBlocks ∧ (k'.proc c).state = PROC_STATE_RUNNING) := by
  obtain ⟨mem, hcases⟩ := syscallIpc_cases hok
  cases hreq : k.requested with
  | none =>
      rw [hreq] at hcases
      dsimp only at hcases
      subst hcases
      refine ⟨h.of_body (fun _ => rfl) rfl, rfl, .inr ⟨?_, hc⟩⟩
      rintro ⟨_, -, call, hcall, -⟩
      rw [hreq] at hcall
      cases hcall
  | some call =>
      rw [hreq] at hcases
      obtain ⟨c', r, hc', hcall⟩ := hcases
      obtain rfl := h.slot_eq hc'
      have hready : Kernel.Current { k.skipEcall x with mem := mem } c' :=
        h.of_body (fun _ => rfl) rfl
      have hafter := hready.call hcall
      have hc₁ : (Kernel.proc { k.skipEcall x with mem := mem } c').state = PROC_STATE_RUNNING := by
        unfold proc
        exact hc
      have hblocks : k.ecallBlocks ↔
          Kernel.callBlocks { k.skipEcall x with mem := mem } c' call = true := by
        constructor
        · rintro ⟨d, hd, call', hcall', hblocks⟩
          rw [hreq] at hcall'
          cases hcall'
          obtain rfl : d = c' := Fin.ext (hd.trans h.procRunning)
          exact hblocks
        · exact fun hblocks => ⟨c', h.procRunning.symm, call, hreq, hblocks⟩
      have hstart : k'.doStart = k.doStart := by
        rw [(call_frame hcall).doStart]
        unfold doStart
        rfl
      refine ⟨hafter, hstart, ?_⟩
      cases hb : Kernel.callBlocks { k.skipEcall x with mem := mem } c' call with
      | true =>
          obtain ⟨hstate, hmsg, hothers⟩ := call_of_blocks hcall hb
          refine .inl ⟨hblocks.mpr hb, hmsg, hstate, ?_⟩
          unfold OtherReady
          rw [hafter.procRunning, h.procRunning]
          refine exists_congr fun i => and_congr_right fun hi => ?_
          rw [hothers i fun hic => hi (congrArg Fin.val hic)]
          rfl
      | false =>
          refine .inr ⟨fun h => ?_, call_of_not_blocks hready hc₁ hcall hb⟩
          rw [hblocks, hb] at h
          cases h

theorem doStart_schedule {x : ReadX} (hok : k.schedule x = .ok k') : k'.doStart = false := by
  rcases schedule_cases hok with ⟨-, _, -, h, -, rfl⟩ | ⟨h, _, _, -, -, rfl⟩ <;> exact h

theorem Steady.schedule {x : ReadX} (h : k.Steady) (hok : k.schedule x = .ok k') :
    k'.Steady := by
  obtain ⟨c, hcur, hrun, hfirst⟩ := h
  have hstart' : k'.doStart = true → ∀ t : Slot, t = 1 := by
    intro h
    rw [doStart_schedule hok] at h
    cases h
  cases hstart : k.doStart with
  | false =>
      obtain ⟨t, hcur', hrun'⟩ := hcur.schedule hstart (.inl hrun) hok
      exact ⟨t, hcur', hrun', fun h => hstart' h t⟩
  | true =>
      obtain rfl := hfirst hstart
      rcases schedule_cases hok with ⟨-, k₁, hproc, -, -, rfl⟩ | ⟨hno, -⟩
      · have hwf : k₁.Wf := ⟨fun i => hproc ▸ hcur.pid i, fun i => hproc ▸ hcur.valid i⟩
        obtain ⟨hcur', hrun'⟩ := hwf.dispatch (t := 1) (by rw [hproc]; exact hcur.live)
          (by rw [hproc]; exact (hcur.valid 1).idle_of_running hrun)
          (fun i hi h => hi (hcur.only i (hproc ▸ h)))
        exact ⟨1, hcur', hrun', fun _ => rfl⟩
      · rw [hstart] at hno
        cases hno

theorem Steady.newProcess {entry stack : Word} (h : k.Steady)
    (hok : k.newProcess entry stack = .ok k') : k'.Steady := by
  obtain ⟨c, hcur, hrun, hfirst⟩ := h
  obtain ⟨i, -, hfree, f, rfl, hf⟩ := newProcess_cases hok
  obtain ⟨hpid, hready, hidle, -⟩ := hf (k.proc i)
  have hne : i ≠ c := by
    rintro rfl
    have hlive := hcur.live
    omega
  refine ⟨c, hcur.setProc (.inr ⟨hne, hpid⟩) (.ready hready hidle) fun _ h => ?_, ?_, hfirst⟩
  · exact ready_ne_running (hready.symm.trans h)
  · rw [proc_setProc_ne hne.symm]
    exact hrun

/-- One event from a steady kernel; an `ecall` that blocks decides it. -/
theorem Steady.step {x : ReadX} {e : Event} (h : k.Steady) (henabled : k.enabled e = true)
    (hok : k.step x e = .ok k') : (k.Covers e → k'.Steady) ∧ (k'.Settled → k.Covers e) := by
  cases e with
  | ecall t =>
      obtain ⟨c, h, hc, -⟩ : (k.trapped t).Steady := h.of_table rfl
      obtain ⟨k₁, hipc, hschedule⟩ := bind_eq_ok.mp hok
      obtain ⟨hcur, hstart, hcase⟩ := syscallIpc_spec h hc hipc
      have hstarted : k.doStart = false := by simpa only [enabled, Bool.not_eq_true'] using henabled
      have hstart₁ : k₁.doStart = false := hstart.trans hstarted
      have hstart' : k'.doStart = false := doStart_schedule hschedule
      have hsteady : (k₁.proc c).state = PROC_STATE_RUNNING ∨ k₁.OtherReady → k'.Steady := by
        intro hnext
        obtain ⟨t', hcur', hrun'⟩ := hcur.schedule hstart₁ hnext hschedule
        refine ⟨t', hcur', hrun', fun h => ?_⟩
        rw [hstart'] at h
        cases h
      rcases hcase with ⟨hblocks, hmsg, -, hother⟩ | ⟨hno, hrun⟩
      · refine ⟨fun hcovers => hsteady (.inr (hother.mpr (hcovers hblocks))), fun hsettled _ => ?_⟩
        by_contra hnone
        exact hcur.schedule_blocked hstart₁ hmsg (fun h => hnone (hother.mp h)) hschedule hsettled
      · exact ⟨fun _ => hsteady (.inl hrun), fun _ h => absurd h hno⟩
  | tick t =>
      refine ⟨fun _ => ?_, fun _ => trivial⟩
      change (if (k.ticks + 1) % 5 = 0 then
        Kernel.schedule x { k.trapped t with ticks := k.ticks + 1 } else _) = _ at hok
      have hticked : ({ k.trapped t with ticks := k.ticks + 1 } : Kernel).Steady := h.of_table rfl
      split_ifs at hok
      · exact hticked.schedule hok
      · cases hok
        exact hticked
  | create entry stack => exact ⟨fun _ => h.newProcess hok, fun _ => trivial⟩

theorem Current.addReady {i : Slot} {f : Process → Process} (h : k.Current c) (hne : i ≠ c)
    (hpid : (f (k.proc i)).pid = i.val) (hstate : (f (k.proc i)).state = PROC_STATE_READY)
    (hidle : (f (k.proc i)).Idle) : (k.setProc i f).Current c :=
  h.setProc (.inr ⟨hne, hpid⟩) (.ready hstate hidle) fun _ hrun =>
    ready_ne_running (hstate.symm.trans hrun)

theorem current_register (image : Image) (k : Kernel) :
    (k.procManagerClear.setProc 1
      (Process.register 1 image.proc1 0x2010fffc PROC_STATE_RUNNING)).Current 1 where
  toWf := by
    refine Wf.setProc ⟨fun i => .inl rfl, fun i => .free rfl ⟨rfl, rfl, rfl⟩⟩ (.inr rfl) ?_
    exact .running rfl ⟨rfl, rfl, rfl⟩
  procRunning := rfl
  live := by
    rw [proc_setProc_self]
    rfl
  only i hi := by
    by_contra hne
    rw [proc_setProc_ne hne] at hi
    exact absurd hi (by change PROC_STATE_UNDEF ≠ PROC_STATE_RUNNING; decide)

private theorem steady_procManagerInit (image : Image) (k : Kernel) :
    (k.procManagerInit image).Steady := by
  have hfirst := current_register image k
  have hsecond := hfirst.addReady (i := 2)
    (f := Process.register 2 image.proc2 0x2010effc PROC_STATE_READY) (by decide) rfl rfl
    ⟨rfl, rfl, rfl⟩
  have hthird := hsecond.addReady (i := 3)
    (f := Process.register 3 image.proc3 0x2010dffc PROC_STATE_READY) (by decide) rfl rfl
    ⟨rfl, rfl, rfl⟩
  exact ⟨1, hthird, rfl, fun _ => rfl⟩

theorem steady_prepareProcesses (image : Image) (k : Kernel) :
    (k.prepareProcesses image).Steady := by
  obtain ⟨c, hcur, hrun, hfirst⟩ := steady_procManagerInit image k
  obtain rfl := hfirst rfl
  have hfs := hcur.addReady (i := 5)
    (f := Process.register KPROC_PID_FS image.fsProcMain 0x20100ffc PROC_STATE_READY) (by decide)
    rfl rfl ⟨rfl, rfl, rfl⟩
  refine ⟨1, ?_, rfl, fun _ => rfl⟩
  unfold prepareProcesses
  exact hfs.addReady (by decide) rfl rfl ⟨rfl, rfl, rfl⟩

def Booted (image : Image) (k : Kernel) : Prop := ∃ k₀ : Kernel, k = k₀.prepareProcesses image

private theorem booted_prepareProcesses (image : Image) (k₀ : Kernel) :
    Booted image (k₀.prepareProcesses image) := ⟨k₀, rfl⟩

theorem settled_of_covers {x : ReadX} {image : Image} {events : List Event} {k : Kernel}
    (h : Run (Kernel.step x) (Booted image) (fun k e => k.enabled e = true ∧ k.Covers e) events k) :
    k.Settled ∧
      ∀ e k', k.enabled e = true → k.step x e = .ok k' → (k'.Settled ↔ k.Covers e) := by
  have hsteady : k.Steady := by
    refine Run.invariant (fun _ k => k.Steady) ?_ ?_ h
    · rintro _ ⟨k₀, rfl⟩
      exact steady_prepareProcesses image k₀
    · rintro _ s e s' hs ⟨henabled, hcovers⟩ hok
      exact (hs.step henabled hok).1 hcovers
  refine ⟨hsteady.settled, fun e k' henabled hok => ?_⟩
  obtain ⟨hkeeps, hneeds⟩ := hsteady.step henabled hok
  exact ⟨hneeds, fun hcovers => (hkeeps hcovers).settled⟩

/-! ### Concrete runs -/

/-- Every `x` bit of the CSR constants tied to 1. -/
def tiedHigh : ReadX := ⟨-1, -1, -1, -1, true⟩

def someImage : Image := ⟨0x20001000, 0x20002000, 0x20003000, 0x20004000, 0x20005000, 0x20006000⟩

def receiveAny : Trap := .ecall IPC_RECEIVE IPC_TARGET_ANY 0x20200000 0x20010000

/-- Five ticks dispatch pid 1; then each process in turn receives from any. -/
def receiving (n : Nat) : List Event :=
  List.replicate 5 (.tick receiveAny) ++ List.replicate n (.ecall receiveAny)

theorem settled_of_covers_receive :
    ∃ k, Run (Kernel.step tiedHigh) (Booted someImage)
      (fun k e => k.enabled e = true ∧ k.Covers e) (receiving 1) k ∧ k.Settled := by
  have hrun : (follow (Kernel.step tiedHigh) (fun k e => k.enabled e && decide k.OtherReady)
      ((default : Kernel).prepareProcesses someImage) (receiving 1)).isSome = true := by
    decide +kernel
  obtain ⟨k, hk⟩ := Option.isSome_iff_exists.mp hrun
  have hfollow : Run (Kernel.step tiedHigh) (Booted someImage)
      (fun k e => k.enabled e = true ∧ k.Covers e) (receiving 1) k := by
    refine Run.of_follow ?_ (booted_prepareProcesses someImage default) hk
    intro s e h
    rw [Bool.and_eq_true, decide_eq_true_eq] at h
    cases e with
    | ecall t => exact ⟨h.1, fun _ => h.2⟩
    | tick _ | create _ _ => exact ⟨h.1, trivial⟩
  exact ⟨k, hfollow, (settled_of_covers hfollow).1⟩

/-- With all five processes receiving, the last one runs on in its unfinished receive. -/
theorem receiver_resumed_unfinished :
    ∃ k, Run (Kernel.step tiedHigh) (Booted someImage) (fun k e => k.enabled e = true)
        (receiving 5) k ∧ ¬k.Settled := by
  have hrun : (follow (Kernel.step tiedHigh) Kernel.enabled
      ((default : Kernel).prepareProcesses someImage) (receiving 5)).map
        (fun k => ((k.proc 7).state, (k.proc 7).pMsg)) =
      some (PROC_STATE_RUNNING, 0x20200000) := by
    decide +kernel
  obtain ⟨k, hk, hseven⟩ := Option.map_eq_some_iff.mp hrun
  obtain ⟨hstate, hmsg⟩ := Prod.mk.inj hseven
  refine ⟨k, Run.of_follow (fun _ _ h => h) (booted_prepareProcesses someImage default) hk, ?_⟩
  rintro ⟨c, -, hrunning, hidle⟩
  obtain rfl := (hrunning 7).mp hstate
  rw [hidle.pMsg] at hmsg
  exact absurd hmsg (by decide)

end Kernel

end PComputer.PseudOS
