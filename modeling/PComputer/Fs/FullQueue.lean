import PComputer.Fs.Steps

/-!
# The full queue of TTY0

FS waits for a place in TTY0's queue while TTY0 waits for FS to receive its
result.  Every request on the way belongs to another user process, and the queue,
FS and TTY0 hold at most eleven of them, so ten user processes cannot bring the
two to a halt and eleven can.
-/

namespace PComputer.PseudOS

open PComputer.Foundation PComputer.Rtl

def ioFunctions : List Word := [SYS_ioctl, SYS_readv, SYS_writev]

def pidWord (u : Slot) : Word := BitVec.ofNat 32 u.val

private theorem pidWord_injective : Function.Injective pidWord := by
  intro u v h
  have hval := congrArg BitVec.toNat h
  have hu : u.val < 64 := u.isLt
  have hv : v.val < 64 := v.isLt
  simp only [pidWord, BitVec.toNat_ofNat] at hval
  apply Fin.ext
  omega

private theorem toInt_pidWord (u : Slot) : (pidWord u).toInt = u.val := by
  have hu : u.val < 64 := u.isLt
  rw [pidWord, BitVec.toInt_ofNat', Int.bmod_eq_of_le] <;> omega

namespace System

variable {s s' : System} {c : Slot} {x : ReadX} {address : Slot → Word} {users : Finset Slot}

/-- FS waits for TTY0 to take a request, and TTY0 waits for FS to take a result. -/
def Deadlocked (s : System) : Prop :=
  s.fs.point = .wait ∧ (∃ q, s.queue = some q ∧ ioqueueIsfull q = true) ∧
    (s.kernel.proc ttySlot).state = PROC_STATE_SENDING ∧
    (s.kernel.proc ttySlot).pSendto = KPROC_PID_FS

def IoRequest : Action → Prop
  | .user msg => msg.function ∈ ioFunctions
  | .switch _ | .call | .fs | .tty _ => True

instance : (a : Action) → Decidable (IoRequest a)
  | .user msg => inferInstanceAs (Decidable (msg.function ∈ ioFunctions))
  | .switch _ | .call | .fs | .tty _ => isTrue trivial

/-! ## The requests on the way -/

def FsProc.serves (fs : FsProc) : List Word :=
  match fs.point with
  | .receive | .notify _ => []
  | .dispatch => if fs.msg.function = OS_fs_resume then [fs.msg.param 1] else [fs.msg.source]
  | .wait | .enqueue => [fs.msg.source]
  | .resume pid => [BitVec.ofInt 32 pid]

def queued (queue : Option IOQueue) : List Word :=
  match queue with
  | none => []
  | some q => q.contents.map Message.source

def TtyProc.serves (tty : TtyProc) : List Word :=
  match tty.point with
  | .start | .check | .receive | .dequeue => []
  | .serve => [tty.elem.source]
  | .reply => [tty.msg.param 1]

def outstanding (s : System) : List Word :=
  FsProc.serves s.fs ++ (queued s.queue ++ TtyProc.serves s.tty)

/-- Every user process has at most one request on the way, and awaits its result. -/
structure Counted (users : Finset Slot) (s : System) : Prop where
  apart : ∀ u ∈ users, u ≠ fsSlot ∧ u ≠ ttySlot
  nodup : s.outstanding.Nodup
  await : ∀ w ∈ s.outstanding, ∃ u ∈ users, w = pidWord u ∧ (s.user u).point = .await
  request : ∀ u ∈ users, (s.user u).point = .request → (s.user u).msg.function ∈ ioFunctions
  dispatch : s.fs.point = .dispatch → s.fs.msg.function ∈ OS_fs_resume :: ioFunctions
  notify : ∀ pid, s.fs.point = .notify pid → pid = KPROC_PID_TTY0
  resume : ∀ pid, s.fs.point = .resume pid → ∃ u ∈ users, pid = u.val
  reply : s.tty.point = .reply → s.tty.msg.function = OS_fs_resume

theorem Initial.counted (h : s.Initial users) : s.Counted users := by
  have hnone : s.outstanding = [] := by
    unfold outstanding FsProc.serves TtyProc.serves queued
    rw [h.fs, h.tty, h.queue]
    rfl
  constructor
  case apart => exact h.apart
  case nodup => rw [hnone]; exact List.nodup_nil
  case await => rw [hnone]; exact fun w hw => absurd hw List.not_mem_nil
  case request => exact fun u _ hu => absurd ((h.user u).symm.trans hu) (by decide)
  case dispatch => exact fun hp => absurd (h.fs.symm.trans hp) (by decide)
  case notify => exact fun pid hp => nomatch h.fs.symm.trans hp
  case resume => exact fun pid hp => nomatch h.fs.symm.trans hp
  case reply => exact fun hp => absurd (h.tty.symm.trans hp) (by decide)

/-- Each process works for one user process, and the queue holds at most nine. -/
theorem Counted.not_deadlocked (h : s.Counted users) (hsound : s.Sound address users)
    (hcard : users.card ≤ 10) : ¬s.Deadlocked := by
  rintro ⟨hfs, ⟨q, hq, hfull⟩, hstate, -⟩
  have htty : s.tty.point = .reply := by
    obtain ⟨dest, msg, hcall, -⟩ := hsound.sending ttySlot hstate
    unfold callOf at hcall
    rw [if_neg tty_ne_fs, if_pos rfl] at hcall
    cases hp : s.tty.point <;> rw [hp] at hcall <;> cases hcall
  have hlength : s.outstanding.length = 11 := by
    unfold outstanding FsProc.serves TtyProc.serves queued
    rw [hfs, htty, hq]
    have hnine := length_contents_of_isfull hfull
    simp [-RingBuffer.length_contents, hnine]
  have hsub : s.outstanding.toFinset ⊆ users.image pidWord := by
    intro w hw
    obtain ⟨u, hu, rfl, -⟩ := h.await w (List.mem_toFinset.mp hw)
    exact Finset.mem_image_of_mem pidWord hu
  have hle := Finset.card_le_card hsub
  rw [List.toFinset_card_of_nodup h.nodup, hlength, Finset.card_image_of_injective _
    pidWord_injective] at hle
  omega

/-! ## The local steps -/

theorem Counted.keep (h : s.Counted users) (huser : s'.user = s.user)
    (hsub : s'.outstanding.Subperm s.outstanding)
    (hdispatch : s'.fs.point = .dispatch → s'.fs.msg.function ∈ OS_fs_resume :: ioFunctions)
    (hnotify : ∀ pid, s'.fs.point = .notify pid → pid = KPROC_PID_TTY0)
    (hresume : ∀ pid, s'.fs.point = .resume pid → ∃ u ∈ users, pid = u.val)
    (hreply : s'.tty.point = .reply → s'.tty.msg.function = OS_fs_resume) :
    s'.Counted users where
  apart := h.apart
  nodup := by
    obtain ⟨l, hperm, hsublist⟩ := hsub
    exact hperm.nodup_iff.mp (h.nodup.sublist hsublist)
  await w hw := by
    rw [huser]
    exact h.await w (hsub.subset hw)
  request := by
    rw [huser]
    exact h.request
  dispatch := hdispatch
  notify := hnotify
  resume := hresume
  reply := hreply

private theorem resume_notMem_ioFunctions : OS_fs_resume ∉ ioFunctions := by decide

theorem Counted.fsStep (h : s.Counted users) (hok : s.fsStep = .ok s') : s'.Counted users := by
  have hreply : s'.tty.point = .reply → s'.tty.msg.function = OS_fs_resume := by
    rw [(fsStep_frame hok).2.1]
    exact h.reply
  cases FsMove.of_step hok with
  | byFd hpoint hio =>
      have hne : s.fs.msg.function ≠ OS_fs_resume := fun heq =>
        resume_notMem_ioFunctions (heq ▸ by simpa [ioFunctions] using hio)
      refine h.keep rfl ?_ nofun nofun nofun hreply
      unfold outstanding FsProc.serves
      simp [hpoint, hne, List.Subperm.refl]
  | byPath hpoint hpath =>
      have hfunction := h.dispatch hpoint
      simp only [List.mem_cons, List.not_mem_nil, or_false] at hpath
      rcases hpath with heq | heq <;> rw [heq] at hfunction <;> exact absurd hfunction (by decide)
  | resume hpoint hresume =>
      have hserves : s.outstanding =
          s.fs.msg.param 1 :: (queued s.queue ++ TtyProc.serves s.tty) := by
        unfold outstanding FsProc.serves
        rw [hpoint]
        simp [hresume]
      refine h.keep rfl ?_ nofun nofun ?_ hreply
      · rw [hserves]
        unfold outstanding FsProc.serves fsResumeUserproc
        simp [List.Subperm.refl]
      · rintro pid ⟨⟩
        obtain ⟨u, hu, hw, -⟩ := h.await (s.fs.msg.param 1) (hserves ▸ List.mem_cons_self)
        exact ⟨u, hu, by rw [hw, toInt_pidWord]⟩
  | unknown hpoint hresume hio =>
      rcases List.mem_cons.mp (h.dispatch hpoint) with heq | hmem
      · exact absurd heq hresume
      · exact absurd (by simpa [ioFunctions] using hmem) hio
  | full | calls => exact h
  | room q hpoint =>
      refine h.keep rfl ?_ nofun nofun nofun hreply
      unfold outstanding FsProc.serves
      simp [hpoint, List.Subperm.refl]
  | enqueue q q' hpoint hq hq' =>
      refine h.keep rfl ?_ nofun ?_ nofun hreply
      · change (q'.contents.map Message.source ++ TtyProc.serves s.tty).Subperm s.outstanding
        have hbefore : s.outstanding = s.fs.msg.source ::
            (q.contents.map Message.source ++ TtyProc.serves s.tty) := by
          unfold outstanding FsProc.serves queued
          rw [hpoint, hq]
          rfl
        rw [hbefore, ioenqueue_eq_some hq', List.map_append, List.append_assoc]
        exact List.perm_middle.subperm
      · rintro pid ⟨⟩
        rfl

theorem Counted.ttyStep {xfrcnt : Word} (h : s.Counted users)
    (hok : s.ttyStep xfrcnt = .ok s') : s'.Counted users := by
  obtain ⟨-, hfs, huser⟩ := ttyStep_frame hok
  have hkeep (hsub : s'.outstanding.Subperm s.outstanding)
      (hreply : s'.tty.point = .reply → s'.tty.msg.function = OS_fs_resume) :
      s'.Counted users := by
    refine h.keep huser hsub ?_ ?_ ?_ hreply
    · rw [hfs]
      exact h.dispatch
    · rw [hfs]
      exact h.notify
    · rw [hfs]
      exact h.resume
  cases TtyMove.of_step hok with
  | start hpoint =>
      refine hkeep ?_ nofun
      apply List.Sublist.subperm
      unfold outstanding TtyProc.serves
      simp [hpoint, queued, contents_ioqueueInit]
  | empty _ hpoint | nonempty _ hpoint | tricky _ hpoint =>
      refine hkeep ?_ nofun
      unfold outstanding TtyProc.serves
      simp [hpoint, List.Subperm.refl]
  | dequeue q q' elem hpoint hq hq' =>
      refine hkeep ?_ nofun
      change (FsProc.serves s.fs ++ (q'.contents.map Message.source ++ [elem.source])).Subperm
        s.outstanding
      have hbefore : s.outstanding =
          FsProc.serves s.fs ++ elem.source :: q'.contents.map Message.source := by
        unfold outstanding TtyProc.serves queued
        rw [hpoint, hq]
        dsimp only
        rw [iodequeue_eq_some hq', List.append_nil]
        rfl
      rw [hbefore]
      exact (List.Perm.append_left _ (List.perm_append_singleton _ _)).subperm
  | served msg hpoint hfunction _ hsource =>
      refine hkeep ?_ fun _ => hfunction
      unfold outstanding TtyProc.serves
      simp [hpoint, hsource, List.Subperm.refl]
  | ignored hpoint =>
      refine hkeep ?_ nofun
      apply List.Sublist.subperm
      unfold outstanding TtyProc.serves
      simp [hpoint]
  | calls => exact h

theorem Counted.user (h : s.Counted users) (hc : c ∈ users)
    (hpoint : (s.user c).point = .compute) {msg : Message} (hio : msg.function ∈ ioFunctions) :
    { s with user := Function.update s.user c { point := .request, msg := msg } }.Counted
      users where
  apart := h.apart
  nodup := h.nodup
  await w hw := by
    obtain ⟨u, hu, hw', hawait⟩ := h.await w hw
    have huc : u ≠ c := by
      rintro rfl
      rw [hpoint] at hawait
      cases hawait
    exact ⟨u, hu, hw', (congrArg UserProc.point (Function.update_of_ne huc _ _)).trans hawait⟩
  request u hu hrequest := by
    dsimp only at hrequest ⊢
    by_cases huc : u = c
    · rw [huc, Function.update_self]
      exact hio
    · rw [Function.update_of_ne huc] at hrequest ⊢
      exact h.request u hu hrequest
  dispatch := h.dispatch
  notify := h.notify
  resume := h.resume
  reply := h.reply

/-! ## Transfers -/

private theorem receiver_cases (hsound : s.Sound address users) {d : Slot} {src : Int} {msg : Word}
    (hcall : s.callOf address d = some (.receive src msg)) :
    d = fsSlot ∧ s.fs.point = .receive ∨ d = ttySlot ∧ s.tty.point = .receive ∨
      d ∈ users ∧ (s.user d).point = .await := by
  have hmem := hsound.mem_of_callOf hcall
  unfold callOf at hcall
  by_cases hfs : d = fsSlot
  · rw [if_pos hfs] at hcall
    cases hp : s.fs.point <;> rw [hp] at hcall <;> cases hcall
    exact .inl ⟨hfs, rfl⟩
  · by_cases htty : d = ttySlot
    · rw [if_neg hfs, if_pos htty] at hcall
      cases hp : s.tty.point <;> rw [hp] at hcall <;> cases hcall
      exact .inr (.inl ⟨htty, rfl⟩)
    · rw [if_neg hfs, if_neg htty] at hcall
      cases hp : (s.user d).point <;> rw [hp] at hcall <;> cases hcall
      exact .inr (.inr ⟨hmem.resolve_right (not_or.mpr ⟨hfs, htty⟩), rfl⟩)

private theorem sender_cases (hsound : s.Sound address users) {f : Slot} {dest : Int} {msg : Word}
    {nonblocking : Bool} (hcall : s.callOf address f = some (.send dest msg nonblocking)) :
    f = fsSlot ∧ (s.fs.point = .notify dest ∨ s.fs.point = .resume dest) ∨
      f = ttySlot ∧ s.tty.point = .reply ∧ dest = KPROC_PID_FS ∨
      f ∈ users ∧ (s.user f).point = .request ∧ dest = KPROC_PID_FS := by
  have hmem := hsound.mem_of_callOf hcall
  unfold callOf at hcall
  by_cases hfs : f = fsSlot
  · rw [if_pos hfs] at hcall
    cases hp : s.fs.point <;> rw [hp] at hcall <;> cases hcall
    · exact .inl ⟨hfs, .inl rfl⟩
    · exact .inl ⟨hfs, .inr rfl⟩
  · by_cases htty : f = ttySlot
    · rw [if_neg hfs, if_pos htty] at hcall
      cases hp : s.tty.point <;> rw [hp] at hcall <;> cases hcall
      exact .inr (.inl ⟨htty, rfl, rfl⟩)
    · rw [if_neg hfs, if_neg htty] at hcall
      cases hp : (s.user f).point <;> rw [hp] at hcall <;> cases hcall
      exact .inr (.inr ⟨hmem.resolve_right (not_or.mpr ⟨hfs, htty⟩), rfl, rfl⟩)

theorem Counted.notified (h : s.Counted users) (hfs : ∃ pid, s.fs.point = .notify pid)
    (htty : s.tty.point = .receive) : (s.transferred fsSlot ttySlot).Counted users := by
  obtain ⟨pid, hfs⟩ := hfs
  refine h.keep rfl ?_ nofun nofun nofun nofun
  change (queued s.queue ++ []).Subperm s.outstanding
  unfold outstanding FsProc.serves TtyProc.serves
  rw [hfs, htty]
  exact List.Subperm.refl _

theorem Counted.replied (h : s.Counted users) (hfs : s.fs.point = .receive)
    (htty : s.tty.point = .reply) : (s.transferred ttySlot fsSlot).Counted users := by
  have hfunction := h.reply htty
  have hafter : (s.transferred ttySlot fsSlot).outstanding =
      s.tty.msg.param 1 :: queued s.queue := by
    change (if s.tty.msg.function = OS_fs_resume then [s.tty.msg.param 1]
      else [BitVec.ofNat 32 ttySlot.val]) ++ (queued s.queue ++ []) = _
    rw [if_pos hfunction, List.append_nil]
    rfl
  have hbefore : s.outstanding = queued s.queue ++ [s.tty.msg.param 1] := by
    unfold outstanding FsProc.serves TtyProc.serves
    rw [hfs, htty]
    rfl
  refine h.keep rfl ?_ (fun _ => ?_) nofun nofun nofun
  · rw [hafter, hbefore]
    exact (List.perm_append_singleton _ _).symm.subperm
  · exact List.mem_cons.mpr (.inl hfunction)

theorem Counted.requested (h : s.Counted users) (hc : c ∈ users) (hfs : s.fs.point = .receive)
    (hrequest : (s.user c).point = .request) : (s.transferred c fsSlot).Counted users := by
  obtain ⟨hcfs, hctty⟩ := h.apart c hc
  have hio := h.request c hc hrequest
  have hsent : s.sent c =
      { s with user := Function.update s.user c { s.user c with point := .await } } := by
    unfold sent
    rw [if_neg hcfs, if_neg hctty]
  have hout : s.outgoing c = (s.user c).msg := by
    unfold outgoing
    rw [if_neg hcfs, if_neg hctty]
  have heq : s.transferred c fsSlot =
      { s with
        user := Function.update s.user c { s.user c with point := .await }
        fs := { s.fs with
          point := .dispatch, msg := { (s.user c).msg with source := pidWord c } } } := by
    unfold transferred
    rw [hsent, hout]
    rfl
  have hbefore : s.outstanding = queued s.queue ++ TtyProc.serves s.tty := by
    unfold outstanding FsProc.serves
    rw [hfs]
    rfl
  have hne : (s.user c).msg.function ≠ OS_fs_resume :=
    fun heq => resume_notMem_ioFunctions (heq ▸ hio)
  have hafter : (s.transferred c fsSlot).outstanding = pidWord c :: s.outstanding := by
    rw [heq, hbefore]
    change (if (s.user c).msg.function = OS_fs_resume then _ else [pidWord c]) ++ _ = _
    rw [if_neg hne]
    rfl
  have hother (u : Slot) (hu : u ≠ c) : (s.transferred c fsSlot).user u = s.user u := by
    rw [heq]
    exact Function.update_of_ne hu _ _
  have hself : ((s.transferred c fsSlot).user c).point = .await := by
    rw [heq]
    simp only [Function.update_self]
  constructor
  case apart => exact h.apart
  case nodup =>
    rw [hafter]
    refine List.nodup_cons.mpr ⟨fun hmem => ?_, h.nodup⟩
    obtain ⟨u, -, hu, hawait⟩ := h.await _ hmem
    rw [← pidWord_injective hu, hrequest] at hawait
    cases hawait
  case await =>
    rw [hafter]
    intro w hw
    rcases List.mem_cons.mp hw with rfl | hw
    · exact ⟨c, hc, rfl, hself⟩
    · obtain ⟨u, hu, hw, hawait⟩ := h.await w hw
      have huc : u ≠ c := by
        rintro rfl
        rw [hrequest] at hawait
        cases hawait
      exact ⟨u, hu, hw, by rw [hother u huc, hawait]⟩
  case request =>
    intro u hu hpoint
    have huc : u ≠ c := by
      rintro rfl
      rw [hself] at hpoint
      cases hpoint
    rw [hother u huc] at hpoint ⊢
    exact h.request u hu hpoint
  case dispatch =>
    intro _
    rw [heq]
    exact List.mem_cons_of_mem _ hio
  case notify =>
    rw [heq]
    exact nofun
  case resume =>
    rw [heq]
    exact nofun
  case reply =>
    rw [heq]
    exact h.reply

theorem Counted.resumed (h : s.Counted users) (hc : c ∈ users)
    (hfs : s.fs.point = .resume c.val) (hawait : (s.user c).point = .await) :
    (s.transferred fsSlot c).Counted users := by
  obtain ⟨hcfs, hctty⟩ := h.apart c hc
  have heq : s.transferred fsSlot c =
      { s with
        fs := { s.fs with point := .receive }
        user := Function.update s.user c
          { point := .compute
            msg := { s.fs.msgSend with source := BitVec.ofNat 32 fsSlot.val } } } := by
    unfold transferred received
    rw [if_neg hcfs, if_neg hctty]
    rfl
  have hbefore : s.outstanding = pidWord c :: (s.transferred fsSlot c).outstanding := by
    rw [heq]
    unfold outstanding FsProc.serves
    rw [hfs]
    rfl
  have hnodup := h.nodup
  rw [hbefore, List.nodup_cons] at hnodup
  have hother (u : Slot) (hu : u ≠ c) : (s.transferred fsSlot c).user u = s.user u := by
    rw [heq]
    exact Function.update_of_ne hu _ _
  have hself : ((s.transferred fsSlot c).user c).point = .compute := by
    rw [heq]
    simp only [Function.update_self]
  constructor
  case apart => exact h.apart
  case nodup => exact hnodup.2
  case await =>
    intro w hw
    obtain ⟨u, hu, hw', hawait'⟩ := h.await w (hbefore ▸ List.mem_cons_of_mem _ hw)
    have huc : u ≠ c := by
      rintro rfl
      exact hnodup.1 (hw' ▸ hw)
    exact ⟨u, hu, hw', by rw [hother u huc, hawait']⟩
  case request =>
    intro u hu hpoint
    have huc : u ≠ c := by
      rintro rfl
      rw [hself] at hpoint
      cases hpoint
    rw [hother u huc] at hpoint ⊢
    exact h.request u hu hpoint
  case dispatch =>
    rw [heq]
    exact nofun
  case notify =>
    rw [heq]
    exact nofun
  case resume =>
    rw [heq]
    exact nofun
  case reply =>
    rw [heq]
    exact h.reply

theorem Counted.transfer (h : s.Counted users) (hsound : s.Sound address users) {f d : Slot}
    {dest src : Int} {msg msg' : Word} {nonblocking : Bool}
    (hf : s.callOf address f = some (.send dest msg nonblocking)) (hdest : pid2proc dest = .ok d)
    (hd : s.callOf address d = some (.receive src msg')) : (s.transferred f d).Counted users := by
  have hreceiver := receiver_cases hsound hd
  rcases sender_cases hsound hf with ⟨rfl, hnotify | hresume⟩ | ⟨rfl, hreply, rfl⟩ |
    ⟨huser, hrequest, rfl⟩
  · rw [h.notify dest hnotify, pid2proc_tty] at hdest
    obtain rfl := Except.ok.inj hdest
    refine h.notified ⟨dest, hnotify⟩ ?_
    rcases hreceiver with ⟨heq, -⟩ | ⟨-, htty⟩ | ⟨hu, -⟩
    · exact absurd heq tty_ne_fs
    · exact htty
    · exact absurd rfl (h.apart _ hu).2
  · obtain ⟨u, hu, rfl⟩ := h.resume dest hresume
    rw [pid2proc_val] at hdest
    obtain rfl := Except.ok.inj hdest
    obtain ⟨hufs, hutty⟩ := h.apart u hu
    refine h.resumed hu hresume ?_
    rcases hreceiver with ⟨heq, -⟩ | ⟨heq, -⟩ | ⟨-, hawait⟩
    · exact absurd heq hufs
    · exact absurd heq hutty
    · exact hawait
  all_goals
    rw [pid2proc_fs] at hdest
    obtain rfl := Except.ok.inj hdest
    have hreceive : s.fs.point = .receive := by
      rcases hreceiver with ⟨-, hreceive⟩ | ⟨heq, -⟩ | ⟨hu, -⟩
      · exact hreceive
      · exact absurd heq.symm tty_ne_fs
      · exact absurd rfl (h.apart _ hu).1
  · exact h.replied hreceive hreply
  · exact h.requested huser hreceive hrequest

theorem Counted.dropped (h : s.Counted users) {dest : Int} {msg : Word}
    (hcall : s.callOf address c = some (.send dest msg true)) :
    (s.sent c).Counted users := by
  have hc : c = fsSlot ∧ ∃ pid, s.fs.point = .notify pid := by
    unfold callOf at hcall
    by_cases hfs : c = fsSlot
    · rw [if_pos hfs] at hcall
      cases hp : s.fs.point <;> rw [hp] at hcall <;> cases hcall
      exact ⟨hfs, dest, rfl⟩
    · by_cases htty : c = ttySlot
      · rw [if_neg hfs, if_pos htty] at hcall
        cases hp : s.tty.point <;> rw [hp] at hcall <;> cases hcall
      · rw [if_neg hfs, if_neg htty] at hcall
        cases hp : (s.user c).point <;> rw [hp] at hcall <;> cases hcall
  obtain ⟨rfl, pid, hfs⟩ := hc
  refine h.keep rfl ?_ nofun nofun nofun h.reply
  change (queued s.queue ++ TtyProc.serves s.tty).Subperm s.outstanding
  unfold outstanding FsProc.serves
  rw [hfs]
  exact List.Subperm.refl _

private theorem Counted.of_kernel (h : s.Counted users) (k : Kernel) :
    { s with kernel := k }.Counted users :=
  ⟨h.apart, h.nodup, h.await, h.request, h.dispatch, h.notify, h.resume, h.reply⟩

private theorem transferred_kernel (k : Kernel) (f d : Slot) :
    { s with kernel := k }.transferred f d = { s.transferred f d with kernel := k } := by
  unfold transferred received sent outgoing
  split_ifs <;> rfl

theorem Counted.call (h : s.Counted users) (hsound : s.Sound address users) (hrun : s.Runs c)
    {call : Call} (hcall : s.callOf address c = some call) (hipc : s.ipc c call = .ok s') :
    s'.Counted users := by
  obtain ⟨houtcome, -⟩ := ipc_outcome (hsound.current_of_runs hrun) hrun.2 hipc
  cases houtcome with
  | delivered d k' hd hne hstate hrecv hready honly hs' =>
      obtain ⟨src, msg', hreceive, -⟩ := hsound.receiving d hstate
      rw [hs', transferred_kernel]
      exact (h.transfer hsound hcall hd hreceive).of_kernel k'
  | dropped d hd hwaits hs' =>
      rw [hs']
      exact h.dropped hcall
  | sendBlocked d k' hd hstate hsendto honly hs' =>
      rw [hs']
      exact h.of_kernel k'
  | taken f k' hsource hne hstate hsendto hready honly hs' =>
      obtain ⟨dest, msg', hsend, hdest⟩ := hsound.sending f hstate
      rw [hs', transferred_kernel]
      refine (h.transfer hsound hsend ?_ hcall).of_kernel k'
      rw [← hdest, hsendto, pid2proc_val]
  | receiveBlocked k' hsource hstate honly hs' =>
      rw [hs']
      exact h.of_kernel k'

theorem Counted.step (h : s.Counted users) (hsound : s.Sound address users) {a : Action}
    (henabled : s.Enabled users a) (hio : IoRequest a) (hok : s.step x address a = .ok s') :
    s'.Counted users := by
  cases a with
  | switch t =>
      obtain ⟨c, hc⟩ := hsound.current
      rw [step_switch hc.procRunning] at hok
      cases hok
      exact h.of_kernel _
  | call =>
      obtain ⟨c, hrun⟩ := henabled
      cases hcall : s.callOf address c with
      | none =>
          rw [step_call_none hrun.1 hcall] at hok
          cases hok
          exact h
      | some call =>
          rw [step_call hrun.1 hcall] at hok
          exact h.call hsound hrun hcall hok
  | fs =>
      rw [step_fs henabled.1] at hok
      exact h.fsStep hok
  | tty xfrcnt =>
      rw [step_tty henabled.1] at hok
      exact h.ttyStep hok
  | user msg =>
      obtain ⟨c, hc, hrun, hcompute, -⟩ := henabled
      rw [step_user hrun.1] at hok
      cases hok
      exact h.user hc hcompute hio

/-! ## Runs -/

/--
With at most ten user processes FS never waits for a place in the queue while
TTY0 waits for FS.
-/
theorem not_deadlocked_of_card {actions : List Action} (hcard : users.card ≤ 10)
    (h : Run (step x address) (Initial users) (fun s a => s.Enabled users a ∧ IoRequest a)
      actions s) : ¬s.Deadlocked := by
  have hinvariant : s.Sound address users ∧ s.Counted users := by
    refine Run.invariant (fun _ s => s.Sound address users ∧ s.Counted users) ?_ ?_ h
    · intro s hs
      exact ⟨hs.sound, hs.counted⟩
    · intro _ s a s' ⟨hsound, hcounted⟩ ⟨henabled, hio⟩ hok
      exact ⟨hsound.step henabled hok, hcounted.step hsound henabled hio hok⟩
  exact hinvariant.2.not_deadlocked hinvariant.1 hcard

/-! ### Concrete runs -/

def ioWritev : Message :=
  { function := SYS_writev, source := 0, param := fun i => if i = 0 then 1 else 0 }

def askFs (u : Slot) : List Action := [.switch u, .user ioWritev, .call, .switch 5, .fs, .fs]

def askTty (u : Slot) : List Action := askFs u ++ [.fs, .call, .call]

/-- TTY0 has taken the first request; nine more fill its queue; one more is with FS. -/
def fillQueue (first last : Slot) (us : List Slot) : List Action :=
  [.switch 7, .tty 0, .switch 5, .call] ++ askTty first ++ [.switch 7, .tty 0, .tty 0] ++
    us.flatMap askTty ++ askFs last ++ [.switch 7, .tty 0, .call]

private theorem initial_boot_one : (boot [4]).Initial [4].toFinset := initial_boot (by decide)

theorem not_deadlocked_one :
    ∃ s, Run (step Kernel.tiedHigh fun _ => 4) (Initial [4].toFinset)
        (fun s a => s.Enabled [4].toFinset a ∧ IoRequest a)
        ([.switch 7, .tty 0, .switch 5, .call] ++ askTty 4) s ∧ ¬s.Deadlocked := by
  have hrun : (follow (step Kernel.tiedHigh fun _ => 4)
      (fun s a => decide (s.Enabled [4].toFinset a ∧ IoRequest a)) (boot [4])
      ([.switch 7, .tty 0, .switch 5, .call] ++ askTty 4)).isSome = true := by
    decide +kernel
  obtain ⟨s, hs⟩ := Option.isSome_iff_exists.mp hrun
  have hfollow := Run.of_follow (fun _ _ h => of_decide_eq_true h) initial_boot_one hs
  exact ⟨s, hfollow, not_deadlocked_of_card (by decide) hfollow⟩

def elevenUsers : List Slot := [4, 6, 8, 9, 10, 11, 12, 13, 14, 15, 16]

theorem deadlocked_eleven :
    ∃ s, Run (step Kernel.tiedHigh fun _ => 4) (Initial elevenUsers.toFinset)
        (fun s a => s.Enabled elevenUsers.toFinset a ∧ IoRequest a)
        (fillQueue 4 16 [6, 8, 9, 10, 11, 12, 13, 14, 15]) s ∧ s.Deadlocked := by
  have hrun : (follow (step Kernel.tiedHigh fun _ => 4)
      (fun s a => decide (s.Enabled elevenUsers.toFinset a ∧ IoRequest a)) (boot elevenUsers)
      (fillQueue 4 16 [6, 8, 9, 10, 11, 12, 13, 14, 15])).map
        (fun s => (s.fs.point, s.queue.map ioqueueIsfull, (s.kernel.proc ttySlot).state,
          (s.kernel.proc ttySlot).pSendto)) =
      some (.wait, some true, PROC_STATE_SENDING, KPROC_PID_FS) := by
    decide +kernel
  obtain ⟨s, hs, hfinal⟩ := Option.map_eq_some_iff.mp hrun
  obtain ⟨hpoint, hrest⟩ := Prod.mk.inj hfinal
  obtain ⟨hqueue, hrest⟩ := Prod.mk.inj hrest
  obtain ⟨hstate, hsendto⟩ := Prod.mk.inj hrest
  have hinitial : (boot elevenUsers).Initial elevenUsers.toFinset := initial_boot (by decide)
  refine ⟨s, Run.of_follow (fun _ _ h => of_decide_eq_true h) hinitial hs, hpoint, ?_, hstate,
    hsendto⟩
  obtain ⟨q, hq, hfull⟩ := Option.map_eq_some_iff.mp hqueue
  exact ⟨q, hq, hfull⟩

end System

end PComputer.PseudOS
