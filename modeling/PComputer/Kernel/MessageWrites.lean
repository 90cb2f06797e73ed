import PComputer.Kernel.Calls
import PComputer.Kernel.IsrAsm

/-!
# Where the kernel writes messages

A system call writes the message that it names and those of the processes that wait.
The kernel checks no pointer, so a message over the save area changes saved registers.
-/

namespace PComputer.PseudOS

open PComputer.Foundation PComputer.Rtl

def messageWord (msg : Word) (n : Nat) : BitVec 30 := wordIndex (msg + BitVec.ofNat 32 (4 * n))

/--
The kernel's image begins at 0x20001000, and its stack comes down from `KERNEL_STACK`; the
process table is between them.
-/
def kernelWords : Set (BitVec 30) := {w | 0x20001000 ≤ 4 * w.toNat ∧ 4 * w.toNat ≤ 0x200ffffc}

structure LiesApart (msg : Word) : Prop where
  save : ∀ n < messageWords, ∀ i, messageWord msg n ≠ wordIndex (fieldAddr i)
  kernel : ∀ n < messageWords, messageWord msg n ∉ kernelWords

private theorem copyMessage_of_ne {w : BitVec 30} {dst : Word}
    (h : ∀ n < messageWords, messageWord dst n ≠ w) (mem : WordMemory) (src : Word) :
    copyMessage mem dst src w = mem w := by
  have hfold (l : List Nat) (hl : ∀ n ∈ l, messageWord dst n ≠ w) (mem : WordMemory) :
      l.foldl (fun m n => storeInt m (dst + BitVec.ofNat 32 (4 * n))
        (loadInt m (src + BitVec.ofNat 32 (4 * n)))) mem w = mem w := by
    induction l generalizing mem with
    | nil => rfl
    | cons n l ih =>
        rw [List.foldl_cons, ih fun m hm => hl m (List.mem_cons_of_mem _ hm), storeInt_eq_update]
        exact Function.update_of_ne (Ne.symm (hl n List.mem_cons_self)) _ _
  exact hfold _ (fun n hn => h n (List.mem_range.mp hn)) mem

private theorem setMessageSource_of_ne {w : BitVec 30} {msg : Word} (h : messageWord msg 1 ≠ w)
    (mem : WordMemory) (source : Int) : setMessageSource mem msg source w = mem w := by
  rw [setMessageSource, storeInt_eq_update]
  exact Function.update_of_ne (Ne.symm h) _ _

namespace Kernel

variable {x : ReadX} {k k' : Kernel} {c : Slot} {msg : Word}

def MessagesApart (k : Kernel) : Prop :=
  ∀ i, (k.proc i).pMsg = 0 ∨ LiesApart (k.proc i).pMsg

/-- The message of a system call, if the call has a partner and so writes it, lies apart. -/
def CallApart (k : Kernel) : Prop :=
  k.destination (k.regsSave StackFrame.a1).toInt (k.regsSave StackFrame.a2) ≠ -1 →
    LiesApart (k.regsSave StackFrame.a2)

/-- What lies apart from the messages stays, and so do the messages. -/
structure Spares (k k' : Kernel) : Prop where
  frame : frameAt k'.mem = frameAt k.mem
  messages : k'.MessagesApart

theorem Spares.trans {k'' : Kernel} (h : Spares k k') (h' : Spares k' k'') :
    Spares k k'' :=
  ⟨h'.frame.trans h.frame, h'.messages⟩

private theorem frameAt_of_ne {mem mem' : WordMemory}
    (h : ∀ i, mem' (wordIndex (fieldAddr i)) = mem (wordIndex (fieldAddr i))) :
    frameAt mem' = frameAt mem :=
  funext h

private theorem save_of_message (h : msg = 0 ∨ LiesApart msg) (n : Nat) (hn : n < messageWords)
    (i : Fin 31) : messageWord msg n ≠ wordIndex (fieldAddr i) := by
  rcases h with rfl | h
  · revert n i
    decide +kernel
  · exact h.save n hn i

theorem MessagesApart.setProc {i : Slot} {f : Process → Process} (h : k.MessagesApart)
    (hf : (f (k.proc i)).pMsg = 0 ∨ LiesApart (f (k.proc i)).pMsg) :
    (k.setProc i f).MessagesApart := by
  intro j
  rw [proc_setProc]
  split_ifs
  · exact hf
  · exact h j

theorem MessagesApart.of_body (h : k.MessagesApart)
    (hbody : ∀ i, (k'.proc i).body = (k.proc i).body) : k'.MessagesApart := by
  intro i
  rw [Process.pMsg_of_body (hbody i)]
  exact h i

theorem MessagesApart.transfer (h : k.MessagesApart) (note : Transfer) {dst : Word}
    (hdst : dst = 0 ∨ LiesApart dst) (src : Word) : Spares k (k.transfer note dst src) :=
  ⟨frameAt_of_ne fun i => copyMessage_of_ne (fun n hn => save_of_message hdst n hn i) _ _, h⟩

private theorem enqueue_mem {s d : Slot} (h : k.enqueue s d = .ok k') : k'.mem = k.mem := by
  rcases enqueue_cases h with ⟨-, rfl⟩ | ⟨head, -, -, rfl⟩ <;> rfl

private theorem unlink_mem {r f : Slot} {prev : Option Slot} (h : k.unlink r f prev = .ok k') :
    k'.mem = k.mem := by
  rcases unlink_cases h with ⟨-, -, rfl⟩ | ⟨q, -, -, rfl⟩ <;> rfl

theorem MessagesApart.msgSend {dest r : Int} {nonblocking : Bool} (h : k.MessagesApart)
    (hmsg : LiesApart msg) (hcall : k.msgSend c dest msg nonblocking = .ok (r, k')) :
    Spares k k' := by
  obtain ⟨d, -, -, ⟨-, -, rfl⟩ | ⟨-, -, -, rfl⟩ | ⟨-, -, -, hblock⟩⟩ := msgSend_cases hcall
  · have htransfer := h.transfer (.sent c d msg) (h d) msg
    exact ⟨htransfer.frame, htransfer.messages.setProc (.inl rfl)⟩
  · exact ⟨rfl, h⟩
  · obtain ⟨-, -, -, k₁, hk₁, rfl⟩ := blockSender_cases hblock
    have hblocked : (k.setProc c (Process.blockOn dest msg)).MessagesApart :=
      h.setProc (.inr hmsg)
    have hmem : k₁.mem = (k.setProc c (Process.blockOn dest msg)).mem := enqueue_mem hk₁
    have hqueued : Spares k k₁ := ⟨congrArg frameAt hmem, hblocked.of_body (enqueue_body hk₁)⟩
    exact ⟨hqueued.frame, hqueued.messages⟩

theorem MessagesApart.msgReceive {src r : Int} (h : k.MessagesApart)
    (hmsg : LiesApart msg) (hcall : k.msgReceive c src msg = .ok (r, k')) :
    Spares k k' := by
  obtain ⟨-, -, ⟨f, prev, -, hnow⟩ | ⟨recvfrom, -, hblock⟩⟩ := msgReceive_cases hcall
  · obtain ⟨-, -, k₁, hk₁, rfl⟩ := receiveNow_cases hnow
    have hunlinked : Spares k k₁ :=
      ⟨congrArg frameAt (unlink_mem hk₁), h.of_body (unlink_body hk₁)⟩
    have htransfer :=
      hunlinked.messages.transfer (.received f c (k.proc f).pMsg) (.inr hmsg) (k.proc f).pMsg
    exact hunlinked.trans ⟨htransfer.frame, htransfer.messages.setProc (.inl rfl)⟩
  · obtain ⟨-, -, -, -, rfl⟩ := blockReceiver_cases hblock
    exact ⟨rfl, h.setProc (.inr hmsg)⟩

theorem MessagesApart.named (h : k.MessagesApart) (hmsg : LiesApart msg) (c : Slot) :
    Spares k (k.named c msg) :=
  ⟨frameAt_of_ne fun i => setMessageSource_of_ne (hmsg.save 1 (by decide) i) _ _, h⟩

/-- A system call whose message lies apart spares the save area. -/
theorem MessagesApart.syscallIpc (h : k.MessagesApart) (hcall : k.CallApart)
    (hok : k.syscallIpc x = .ok k') : Spares k k' := by
  have hskip : Spares k (k.skipEcall x) := ⟨rfl, h⟩
  unfold Kernel.syscallIpc at hok
  change (if k.destination (k.regsSave StackFrame.a1).toInt (k.regsSave StackFrame.a2) = -1
    then _ else if messageFunction k.mem (k.regsSave StackFrame.a2) ≠ _ then _ else _) = _ at hok
  split_ifs at hok with hdest hblocking
  · cases pure_eq_ok.mp hok
    exact hskip
  · have hmsg := hcall hdest
    obtain ⟨⟨r, k₁⟩, hsend, hok⟩ := bind_eq_ok.mp hok
    cases pure_eq_ok.mp hok
    obtain ⟨c, -, hsend⟩ := sendrec_cases hsend
    have hnamed := hskip.trans (hskip.messages.named hmsg c)
    split_ifs at hsend
    · exact hnamed.trans (hnamed.messages.msgSend hmsg hsend)
    · exact hnamed.trans (hnamed.messages.msgReceive hmsg hsend)
    · rw [hsend]
      exact hnamed
  · have hmsg := hcall hdest
    obtain ⟨⟨r, k₁⟩, hsend, hok⟩ := bind_eq_ok.mp hok
    cases pure_eq_ok.mp hok
    obtain ⟨c, -, hsend⟩ := sendrecNonblock_cases hsend
    have hnamed := hskip.trans (hskip.messages.named hmsg c)
    split_ifs at hsend
    · exact hnamed.trans (hnamed.messages.msgSend hmsg hsend)
    · rw [hsend]
      exact hnamed

end Kernel

end PComputer.PseudOS
