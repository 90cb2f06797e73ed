import PComputer.Foundation.Calls
import PComputer.Fs.IoQueue

/-!
# `ioqueue.c` as a bounded queue

The functions on the struct as C has it, with `int` indices into `list`.  From
`ioqueue_init` on the struct is a ring buffer, and the calls are those of a queue with
room for one element less than `list` has cells.
-/

namespace PComputer.PseudOS

open PComputer.Foundation

/-! ## The struct -/

structure IOQueueStruct where
  size : Int
  head : Int
  tail : Int
  list : Int → IOQuest

inductive QueueCall where
  | enqueue (elem : IOQuest)
  | dequeue (elem : IOQuest)

namespace IOQueueStruct

variable (q : IOQueueStruct)

def ioqueueInit : IOQueueStruct where
  size := 0
  head := 0
  tail := 0
  list := fun i => if 0 ≤ i ∧ i < FS_IOQUEUE_LEN then IOQuest.zero else q.list i

def ioqueueIsfull : Bool := (q.tail + 1 - q.head).tmod FS_IOQUEUE_LEN == 0

def ioqueueIsempty : Bool := q.tail == q.head

def ioenqueue (elem : IOQuest) : Int × IOQueueStruct :=
  if q.ioqueueIsfull then (-1, q)
  else
    (0, { q with
      list := Function.update q.list q.tail elem
      tail := (q.tail + 1).tmod FS_IOQUEUE_LEN })

/-- The result, `*elem` after the call, which was `elem` before, and the queue. -/
def iodequeue (elem : IOQuest) : Int × IOQuest × IOQueueStruct :=
  if q.ioqueueIsempty then (-1, elem, q)
  else
    (0, q.list q.head, { q with
      list := Function.update q.list q.head IOQuest.zero
      head := (q.head + 1).tmod FS_IOQUEUE_LEN })

def call : QueueCall → (Int × IOQuest) × IOQueueStruct
  | .enqueue elem => (((q.ioenqueue elem).1, elem), (q.ioenqueue elem).2)
  | .dequeue elem => (((q.iodequeue elem).1, (q.iodequeue elem).2.1), (q.iodequeue elem).2.2)

end IOQueueStruct

/-! ## The bounded queue -/

def fifoCall (capacity : Nat) (queue : List IOQuest) : QueueCall → (Int × IOQuest) × List IOQuest
  | .enqueue elem =>
      if queue.length < capacity then ((0, elem), queue ++ [elem]) else ((-1, elem), queue)
  | .dequeue elem =>
      match queue with
      | [] => ((-1, elem), [])
      | first :: rest => ((0, first), rest)

/-! ## The struct and the ring buffer -/

structure IOQueueStruct.Holds (q : IOQueueStruct) (r : IOQueue) : Prop where
  head : q.head = r.head.val
  tail : q.tail = r.tail.val
  list : ∀ i : Fin FS_IOQUEUE_LEN, q.list i.val = r.cells i

namespace IOQueueStruct

variable {q : IOQueueStruct} {r : IOQueue}

private theorem holds_ioqueueInit (q : IOQueueStruct) :
    q.ioqueueInit.Holds PseudOS.ioqueueInit where
  head := rfl
  tail := rfl
  list i := if_pos ⟨Int.natCast_nonneg _, Int.ofNat_lt.mpr i.isLt⟩

private theorem tmod_succ (i : Fin FS_IOQUEUE_LEN) :
    ((i.val : Int) + 1).tmod FS_IOQUEUE_LEN = (i + 1).val := by
  have hlt := i.isLt
  rw [Fin.val_add, Fin.val_one', Int.tmod_eq_emod_of_nonneg (by omega)]
  unfold FS_IOQUEUE_LEN at *
  omega

theorem Holds.update (h : q.Holds r) (i : Fin FS_IOQUEUE_LEN) (elem : IOQuest)
    (j : Fin FS_IOQUEUE_LEN) :
    Function.update q.list i.val elem j.val = Function.update r.cells i elem j := by
  by_cases heq : j = i
  · rw [heq, Function.update_self, Function.update_self]
  · have hval : (j.val : Int) ≠ i.val := fun hval => heq (Fin.ext (Int.ofNat.inj hval))
    rw [Function.update_of_ne hval, Function.update_of_ne heq, h.list]

theorem Holds.ioqueueIsfull (h : q.Holds r) : q.ioqueueIsfull = PseudOS.ioqueueIsfull r := by
  unfold IOQueueStruct.ioqueueIsfull PseudOS.ioqueueIsfull
  rw [h.head, h.tail]

theorem Holds.ioqueueIsempty (h : q.Holds r) : q.ioqueueIsempty = PseudOS.ioqueueIsempty r := by
  unfold IOQueueStruct.ioqueueIsempty PseudOS.ioqueueIsempty
  rw [h.head, h.tail, Bool.eq_iff_iff, beq_iff_eq, beq_iff_eq, Fin.ext_iff, Int.ofNat_inj]

theorem Holds.ioenqueue (h : q.Holds r) (elem : IOQuest) :
    match PseudOS.ioenqueue r elem with
    | none => q.ioenqueue elem = (-1, q)
    | some r' => (q.ioenqueue elem).1 = 0 ∧ (q.ioenqueue elem).2.Holds r' := by
  unfold PseudOS.ioenqueue IOQueueStruct.ioenqueue
  rw [h.ioqueueIsfull]
  split_ifs
  · rfl
  · refine ⟨rfl, h.head, ?_, fun i => ?_⟩
    · change (q.tail + 1).tmod FS_IOQUEUE_LEN = _
      rw [h.tail, tmod_succ]
      rfl
    · change Function.update q.list q.tail elem i.val = _
      rw [h.tail, h.update]
      rfl

theorem Holds.iodequeue (h : q.Holds r) (elem : IOQuest) :
    match PseudOS.iodequeue r with
    | none => q.iodequeue elem = (-1, elem, q)
    | some (first, r') => (q.iodequeue elem).1 = 0 ∧ (q.iodequeue elem).2.1 = first ∧
        (q.iodequeue elem).2.2.Holds r' := by
  unfold PseudOS.iodequeue IOQueueStruct.iodequeue
  rw [h.ioqueueIsempty]
  split_ifs
  · rfl
  · refine ⟨rfl, ?_, ?_, h.tail, fun i => ?_⟩
    · change q.list q.head = _
      rw [h.head, h.list]
    · change (q.head + 1).tmod FS_IOQUEUE_LEN = _
      rw [h.head, tmod_succ]
      rfl
    · change Function.update q.list q.head IOQuest.zero i.val = _
      rw [h.head, h.update]
      rfl

end IOQueueStruct

/-! ## The calls -/

def IOQueueStruct.Queues (q : IOQueueStruct) (queue : List IOQuest) : Prop :=
  ∃ r : IOQueue, q.Holds r ∧ r.contents = queue

namespace IOQueueStruct

variable {q : IOQueueStruct} {queue : List IOQuest}

theorem Queues.call (h : q.Queues queue) (c : QueueCall) :
    (q.call c).1 = (fifoCall (FS_IOQUEUE_LEN - 1) queue c).1 ∧
      (q.call c).2.Queues (fifoCall (FS_IOQUEUE_LEN - 1) queue c).2 := by
  obtain ⟨r, hr, rfl⟩ := h
  cases c with
  | enqueue elem =>
      have hcall := hr.ioenqueue elem
      have hfull := r.full_iff
      have hlt := r.size_lt
      rw [← ioqueueIsfull_iff, RingBuffer.length_contents] at hfull
      simp only [IOQueueStruct.call, fifoCall, RingBuffer.length_contents]
      cases henqueue : PseudOS.ioenqueue r elem with
      | none =>
          rw [henqueue] at hcall
          have hisfull : PseudOS.ioqueueIsfull r = true := by
            by_contra hnot
            rw [PseudOS.ioenqueue, if_neg hnot] at henqueue
            cases henqueue
          have hsize := hfull.mp hisfull
          rw [if_neg (by omega), hcall]
          exact ⟨rfl, r, hr, rfl⟩
      | some r' =>
          rw [henqueue] at hcall
          have hroom : ¬r.size + 1 = FS_IOQUEUE_LEN := by
            intro hsize
            rw [PseudOS.ioenqueue, if_pos (hfull.mpr hsize)] at henqueue
            cases henqueue
          rw [if_pos (by omega), hcall.1]
          exact ⟨rfl, r', hcall.2, ioenqueue_eq_some henqueue⟩
  | dequeue elem =>
      have hcall := hr.iodequeue elem
      simp only [IOQueueStruct.call, fifoCall]
      cases hdequeue : PseudOS.iodequeue r with
      | none =>
          rw [hdequeue] at hcall
          have hempty : PseudOS.ioqueueIsempty r = true := by
            by_contra hnot
            rw [PseudOS.iodequeue, if_neg hnot] at hdequeue
            cases hdequeue
          rw [ioqueueIsempty_iff.mp hempty, hcall]
          exact ⟨rfl, r, hr, ioqueueIsempty_iff.mp hempty⟩
      | some out =>
          obtain ⟨first, r'⟩ := out
          rw [hdequeue] at hcall
          rw [iodequeue_eq_some hdequeue, hcall.1, hcall.2.1]
          exact ⟨rfl, r', hcall.2.2, rfl⟩

/-- The calls answer as the bounded queue does, and every state is one of it. -/
theorem queues_answers (q : IOQueueStruct) (calls : List QueueCall) :
    (answers call q.ioqueueInit calls).1 = (answers (fifoCall (FS_IOQUEUE_LEN - 1)) [] calls).1 ∧
      (answers call q.ioqueueInit calls).2.Queues
        (answers (fifoCall (FS_IOQUEUE_LEN - 1)) [] calls).2 :=
  answers_of_simulation (fun _ _ c h => h.call c)
    ⟨PseudOS.ioqueueInit, holds_ioqueueInit q, contents_ioqueueInit⟩ calls

private theorem call_eq_of_failed {c : QueueCall} (h : (q.call c).1.1 = -1) :
    (q.call c).2 = q ∧ ∀ elem, c = .dequeue elem → (q.call c).1.2 = elem := by
  cases c with
  | enqueue elem =>
      unfold call ioenqueue at *
      split_ifs at *
      exact ⟨rfl, nofun⟩
  | dequeue elem =>
      unfold call iodequeue at *
      split_ifs at *
      refine ⟨rfl, ?_⟩
      rintro _ ⟨⟩
      rfl

/--
From `ioqueue_init` on, every sequence of calls is answered as by a queue with room for
nine elements, a failed call changes nothing, and the indices stay inside `list`.
-/
theorem ioqueue_bounded_fifo (q : IOQueueStruct) (calls : List QueueCall) :
    (answers call q.ioqueueInit calls).1 = (answers (fifoCall (FS_IOQUEUE_LEN - 1)) [] calls).1 ∧
      (∀ c, ((answers call q.ioqueueInit calls).2.call c).1.1 = -1 →
        ((answers call q.ioqueueInit calls).2.call c).2 = (answers call q.ioqueueInit calls).2 ∧
          ∀ elem, c = .dequeue elem →
            ((answers call q.ioqueueInit calls).2.call c).1.2 = elem) ∧
      0 ≤ (answers call q.ioqueueInit calls).2.head ∧
      (answers call q.ioqueueInit calls).2.head < FS_IOQUEUE_LEN ∧
      0 ≤ (answers call q.ioqueueInit calls).2.tail ∧
      (answers call q.ioqueueInit calls).2.tail < FS_IOQUEUE_LEN := by
  obtain ⟨hanswers, r, hr, -⟩ := queues_answers q calls
  refine ⟨hanswers, fun c hfailed => call_eq_of_failed hfailed, ?_⟩
  rw [hr.head, hr.tail]
  have hhead := r.head.isLt
  have htail := r.tail.isLt
  omega

end IOQueueStruct

end PComputer.PseudOS
