import PComputer.Foundation.RingBuffer
import PComputer.Kernel.Syscall

/-!
# `ioqueue.c`: the queue of a worker

The requests that FS has handed to a worker process and that the worker has not
taken yet.
-/

namespace PComputer.PseudOS

open PComputer.Foundation PComputer.Rtl

-- The numerals that index `param` need it.
instance neZeroParams : NeZero 8 := ⟨by decide⟩

structure Message where
  function : Word
  source : Word
  param : Fin 8 → Word
  deriving DecidableEq, Inhabited

abbrev IOQuest := Message

abbrev FS_IOQUEUE_LEN : Nat := 10

instance : NeZero FS_IOQUEUE_LEN := ⟨by decide⟩

/-- `head` and `tail` stay below `FS_IOQUEUE_LEN`; the source never reads `size`. -/
abbrev IOQueue := RingBuffer IOQuest FS_IOQUEUE_LEN

def IOQuest.zero : IOQuest := { function := 0, source := 0, param := fun _ => 0 }

def ioqueueInit : IOQueue := { head := 0, tail := 0, cells := fun _ => IOQuest.zero }

def ioqueueIsfull (q : IOQueue) : Bool :=
  ((q.tail.val : Int) + 1 - q.head.val).tmod FS_IOQUEUE_LEN == 0

def ioqueueIsempty (q : IOQueue) : Bool := q.tail == q.head

/-- `none` is the return value -1. -/
def ioenqueue (q : IOQueue) (elem : IOQuest) : Option IOQueue :=
  if ioqueueIsfull q then none else some (q.push elem)

/-- The element goes out and its cell is cleared; `none` is the return value -1. -/
def iodequeue (q : IOQueue) : Option (IOQuest × IOQueue) :=
  if ioqueueIsempty q then none else some (q.cells q.head, q.pop IOQuest.zero)

variable {q q' : IOQueue} {elem : IOQuest}

theorem contents_ioqueueInit : ioqueueInit.contents = [] := rfl

theorem ioqueueIsempty_iff : ioqueueIsempty q = true ↔ q.contents = [] := by
  unfold ioqueueIsempty
  rw [beq_iff_eq, q.contents_eq_nil]

theorem ioqueueIsfull_iff : ioqueueIsfull q = true ↔ q.tail + 1 = q.head := by
  unfold ioqueueIsfull
  have hhead := q.head.isLt
  have htail := q.tail.isLt
  rw [beq_iff_eq, Fin.ext_iff, Fin.val_add, Fin.val_one', ← Int.dvd_iff_tmod_eq_zero]
  unfold FS_IOQUEUE_LEN at *
  omega

theorem length_contents_of_isfull (h : ioqueueIsfull q = true) : q.contents.length = 9 := by
  have hlength := q.full_iff.mp (ioqueueIsfull_iff.mp h)
  unfold FS_IOQUEUE_LEN at hlength
  omega

theorem ioenqueue_eq_some (h : ioenqueue q elem = some q') :
    q'.contents = q.contents ++ [elem] := by
  unfold ioenqueue at h
  split_ifs at h with hfull
  cases h
  exact q.contents_push fun heq => hfull (ioqueueIsfull_iff.mpr heq)

theorem iodequeue_eq_some (h : iodequeue q = some (elem, q')) :
    q.contents = elem :: q'.contents := by
  unfold iodequeue at h
  split_ifs at h with hempty
  cases h
  exact q.contents_pop fun heq => hempty (beq_iff_eq.mpr heq)

end PComputer.PseudOS
