import Mathlib.Data.List.Nodup
import Mathlib.Logic.Function.Basic

/-!
# Updates one after the other

A list of key-value pairs written into a function, in order.  When no key occurs
twice the order does not matter: each key holds its value, every other one keeps
what it had.
-/

namespace PComputer.Foundation

variable {κ α : Type*} [DecidableEq κ]

/-- Write the pairs into `f`, the first one first. -/
def updates (f : κ → α) (l : List (κ × α)) : κ → α :=
  l.foldl (fun g p => Function.update g p.1 p.2) f

@[simp] theorem updates_cons (f : κ → α) (p : κ × α) (l : List (κ × α)) :
    updates f (p :: l) = updates (Function.update f p.1 p.2) l := rfl

theorem updates_append (f : κ → α) (l l' : List (κ × α)) :
    updates f (l ++ l') = updates (updates f l) l' :=
  List.foldl_append

theorem updates_of_notMem {f : κ → α} {l : List (κ × α)} {k : κ} (h : k ∉ l.map Prod.fst) :
    updates f l k = f k := by
  induction l generalizing f with
  | nil => rfl
  | cons p l ih =>
      rw [List.map_cons, List.mem_cons, not_or] at h
      rw [updates_cons, ih h.2, Function.update_of_ne h.1]

theorem updates_of_mem {f : κ → α} {l : List (κ × α)} {k : κ} {v : α}
    (hnodup : (l.map Prod.fst).Nodup) (h : (k, v) ∈ l) : updates f l k = v := by
  induction l generalizing f with
  | nil => cases h
  | cons p l ih =>
      rw [List.map_cons, List.nodup_cons] at hnodup
      rw [updates_cons]
      rcases List.mem_cons.mp h with rfl | hmem
      · rw [updates_of_notMem hnodup.1, Function.update_self]
      · exact ih hnodup.2 hmem

theorem updates_of_agree {f : κ → α} {l : List (κ × α)} {p : κ × α} (hmem : p ∈ l)
    (h : ∀ q ∈ l, q.1 = p.1 → q.2 = p.2) : updates f l p.1 = p.2 := by
  induction l generalizing f p with
  | nil => cases hmem
  | cons q l ih =>
      rw [updates_cons]
      have hrest : ∀ r ∈ l, r.1 = p.1 → r.2 = p.2 := fun r hr => h r (List.mem_cons_of_mem q hr)
      by_cases hlater : p.1 ∈ l.map Prod.fst
      · obtain ⟨r, hr, hkey⟩ := List.mem_map.mp hlater
        rw [← hkey, ← hrest r hr hkey]
        exact ih hr fun r' hr' hkey' => by rw [hrest r' hr' (hkey'.trans hkey), hrest r hr hkey]
      · rcases List.mem_cons.mp hmem with rfl | hp
        · rw [updates_of_notMem hlater, Function.update_self]
        · exact absurd (List.mem_map_of_mem hp) hlater

theorem map_updates_eq_iff {f : κ → α} {l : List (κ × α)} :
    (l.map Prod.fst).map (updates f l) = l.map Prod.snd ↔
      ∀ p ∈ l, ∀ q ∈ l, p.1 = q.1 → p.2 = q.2 := by
  rw [List.map_map, List.map_inj_left]
  constructor
  · intro h p hp q hq hkey
    rw [← h p hp, ← h q hq, Function.comp_apply, Function.comp_apply, hkey]
  · intro h p hp
    exact updates_of_agree hp fun q hq hkey => h q hq p hp hkey

end PComputer.Foundation
