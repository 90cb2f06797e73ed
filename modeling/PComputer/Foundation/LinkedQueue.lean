import Mathlib.Data.List.Nodup

/-!
# Queues linked through their elements

A queue whose elements carry the link to the next one, as a head and a link
function over any type of elements.  `Linked next head queue` reads off the
sequence; it is unique, and writing a link outside the sequence keeps it.
-/

namespace PComputer.Foundation

variable {α : Type*} {next next' : α → Option α} {head : Option α} {queue : List α} {a b : α}

/-- The sequence that starts at `head` and follows the links. -/
inductive Linked (next : α → Option α) : Option α → List α → Prop
  | nil : Linked next none []
  | cons {a : α} {queue : List α} :
      Linked next (next a) queue → Linked next (some a) (a :: queue)

theorem Linked.eq_nil (h : Linked next none queue) : queue = [] := by
  cases h
  rfl

theorem Linked.head_eq_none (h : Linked next head []) : head = none := by
  cases h
  rfl

theorem Linked.head_eq (h : Linked next head (a :: queue)) : head = some a := by
  cases h
  rfl

theorem Linked.exists_cons (h : Linked next (some a) queue) :
    ∃ rest, queue = a :: rest ∧ Linked next (next a) rest := by
  cases h with
  | cons h => exact ⟨_, rfl, h⟩

theorem Linked.tail (h : Linked next head (a :: queue)) : Linked next (next a) queue := by
  cases h with
  | cons h => exact h

theorem Linked.unique {queue' : List α} (h : Linked next head queue)
    (h' : Linked next head queue') : queue = queue' := by
  induction h generalizing queue' with
  | nil =>
      cases h'
      rfl
  | cons _ ih =>
      cases h' with
      | cons h' => rw [ih h']

theorem Linked.congr (h : Linked next head queue) (heq : ∀ a ∈ queue, next' a = next a) :
    Linked next' head queue := by
  induction h with
  | nil => exact .nil
  | @cons a queue _ ih =>
      refine .cons ?_
      rw [heq a List.mem_cons_self]
      exact ih fun b hb => heq b (List.mem_cons_of_mem a hb)

theorem Linked.append {queue' : List α} (h : Linked next head (queue ++ a :: queue')) :
    Linked next (some a) (a :: queue') := by
  induction queue generalizing head with
  | nil =>
      obtain rfl := h.head_eq
      exact h
  | cons b queue ih => exact ih h.tail

theorem Linked.nodup (h : Linked next head queue) : queue.Nodup := by
  induction h with
  | nil => exact List.nodup_nil
  | @cons a queue h ih =>
      refine List.nodup_cons.mpr ⟨fun hmem => ?_, ih⟩
      -- A second visit would start the same sequence again, one element shorter.
      obtain ⟨before, after, rfl⟩ := List.append_of_mem hmem
      have hsame := h.append.unique (Linked.cons h)
      have hlength := congrArg List.length hsame
      simp only [List.length_cons, List.length_append] at hlength
      omega

end PComputer.Foundation
