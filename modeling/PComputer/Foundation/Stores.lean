import Mathlib.Data.List.Induction
import Mathlib.Tactic.SplitIfs

/-!
# Blocks stored in a memory

A memory of cells, blocks of a fixed width that are stored one after the other, each at
its own place, and a move that brings cells from elsewhere.  The last block over a cell
decides what the cell holds.
-/

namespace PComputer.Foundation

variable {α β : Type*} (width : Nat) (piece : β → Int → α)

def Covers (s : Int × β) (x : Int) : Prop := s.1 ≤ x ∧ x < s.1 + width

instance (s : Int × β) (x : Int) : Decidable (Covers width s x) :=
  inferInstanceAs (Decidable (_ ∧ _))

/-- Store the block `s.2` at `s.1`; cell `i` of a block `b` is `piece b i`. -/
def put (m : Int → α) (s : Int × β) : Int → α :=
  fun x => if Covers width s x then piece s.2 (x - s.1) else m x

def puts (m : Int → α) (l : List (Int × β)) : Int → α := l.foldl (put width piece) m

/-- The same blocks, `d` cells lower. -/
def lower (d : Int) (l : List (Int × β)) : List (Int × β) := l.map fun s => (s.1 - d, s.2)

variable {width piece} {m m' : Int → α} {l : List (Int × β)} {s : Int × β} {x d : Int}

theorem puts_append (l l' : List (Int × β)) :
    puts width piece m (l ++ l') = puts width piece (puts width piece m l) l' :=
  List.foldl_append

theorem puts_concat (l : List (Int × β)) (s : Int × β) :
    puts width piece m (l ++ [s]) = put width piece (puts width piece m l) s :=
  puts_append l [s]

theorem puts_of_not_covers (h : ∀ s ∈ l, ¬Covers width s x) : puts width piece m l x = m x := by
  induction l using List.reverseRecOn with
  | nil => rfl
  | append_singleton l s ih =>
      rw [puts_concat, put, if_neg (h s (by simp))]
      exact ih fun t ht => h t (List.mem_append_left _ ht)

theorem puts_of_last (piece : β → Int → α) (m : Int → α) (l : List (Int × β))
    {l' : List (Int × β)} (hs : Covers width s x) (hlater : ∀ t ∈ l', ¬Covers width t x) :
    puts width piece m (l ++ s :: l') x = piece s.2 (x - s.1) := by
  rw [List.append_cons, puts_append, puts_of_not_covers hlater, puts_concat, put, if_pos hs]

theorem covered_of_concat (h : ∃ t ∈ l ++ [s], Covers width t x) (hs : ¬Covers width s x) :
    ∃ t ∈ l, Covers width t x := by
  obtain ⟨t, ht, hcovers⟩ := h
  rcases List.mem_append.mp ht with hmem | hlast
  · exact ⟨t, hmem, hcovers⟩
  · rw [List.mem_singleton] at hlast
    exact absurd (hlast ▸ hcovers) hs

theorem lower_append (d : Int) (l l' : List (Int × β)) :
    lower d (l ++ l') = lower d l ++ lower d l' :=
  List.map_append

theorem covers_lower : Covers width (s.1 - d, s.2) (x - d) ↔ Covers width s x := by
  unfold Covers
  constructor
  · rintro ⟨hlow, hhigh⟩
    change s.1 - d ≤ x - d at hlow
    change x - d < s.1 - d + width at hhigh
    omega
  · rintro ⟨hlow, hhigh⟩
    change s.1 - d ≤ x - d ∧ x - d < s.1 - d + width
    omega

theorem puts_lower_of_covered (h : ∃ s ∈ l, Covers width s x) :
    puts width piece m (lower d l) (x - d) = puts width piece m' l x := by
  induction l using List.reverseRecOn with
  | nil =>
      obtain ⟨s, hs, -⟩ := h
      cases hs
  | append_singleton l t ih =>
      rw [lower_append]
      change puts width piece m (lower d l ++ [(t.1 - d, t.2)]) (x - d) = _
      rw [puts_concat, puts_concat, put, put]
      by_cases ht : Covers width t x
      · rw [if_pos ht, if_pos (covers_lower.mpr ht)]
        congr 1
        change x - d - (t.1 - d) = x - t.1
        omega
      · rw [if_neg ht, if_neg (mt covers_lower.mp ht)]
        exact ih (covered_of_concat h ht)

theorem exists_covers_lower (h : ∃ s ∈ lower d l, Covers width s x) :
    ∃ s ∈ l, Covers width s (x + d) := by
  obtain ⟨s, hs, hcovers⟩ := h
  obtain ⟨t, ht, rfl⟩ := List.mem_map.mp hs
  refine ⟨t, ht, covers_lower (d := d).mp ?_⟩
  rw [show x + d - d = x by omega]
  exact hcovers

def mapBlocks (g : β → β) (l : List (Int × β)) : List (Int × β) := l.map fun s => (s.1, g s.2)

theorem exists_covers_mapBlocks {g : β → β} :
    (∃ s ∈ mapBlocks g l, Covers width s x) ↔ ∃ s ∈ l, Covers width s x := by
  constructor
  · rintro ⟨s, hs, hcovers⟩
    obtain ⟨t, ht, rfl⟩ := List.mem_map.mp hs
    exact ⟨t, ht, hcovers⟩
  · rintro ⟨s, hs, hcovers⟩
    exact ⟨(s.1, g s.2), List.mem_map.mpr ⟨s, hs, rfl⟩, hcovers⟩

theorem puts_mapBlocks_ne {g : β → β}
    (hg : ∀ b (i : Int), 0 ≤ i → i < width → piece (g b) i ≠ piece b i)
    (h : ∃ s ∈ l, Covers width s x) :
    puts width piece m (mapBlocks g l) x ≠ puts width piece m l x := by
  induction l using List.reverseRecOn with
  | nil =>
      obtain ⟨s, hs, -⟩ := h
      cases hs
  | append_singleton l t ih =>
      unfold mapBlocks at ih ⊢
      rw [List.map_append, List.map_singleton, puts_concat, puts_concat, put, put]
      by_cases ht : Covers width t x
      · obtain ⟨hlow, hhigh⟩ := ht
        rw [if_pos ⟨hlow, hhigh⟩, if_pos ⟨hlow, hhigh⟩]
        exact hg t.2 (x - t.1) (by omega) (by omega)
      · have hother : ¬Covers width (t.1, g t.2) x := ht
        rw [if_neg hother, if_neg ht]
        exact ih (covered_of_concat h ht)

theorem lower_mapBlocks (g : β → β) (l : List (Int × β)) :
    lower d (mapBlocks g l) = mapBlocks g (lower d l) := by
  unfold lower mapBlocks
  rw [List.map_map, List.map_map]
  rfl

theorem exists_bound (width : Nat) (l : List (Int × β)) :
    ∃ bound : Int, ∀ s ∈ l, s.1 + width ≤ bound := by
  induction l with
  | nil => exact ⟨0, fun s hs => by cases hs⟩
  | cons t l ih =>
      obtain ⟨bound, hbound⟩ := ih
      refine ⟨max (t.1 + width) bound, fun s hs => ?_⟩
      rcases List.mem_cons.mp hs with rfl | hmem
      · omega
      · have hle := hbound s hmem
        omega

/-! ## A move -/

variable (source : Int → Option Int) (blank : α)

/-- Each cell from its source; a cell without one is blank. -/
def brought (m : Int → α) : Int → α := fun x => (source x).elim blank m

variable {source blank}

theorem brought_puts_lower (h : ∃ s ∈ l, Covers width s x) (hsource : source x = some (x - d)) :
    brought source blank (puts width piece m (lower d l)) x =
      puts width piece (brought source blank m) l x := by
  unfold brought
  rw [hsource, Option.elim_some]
  exact puts_lower_of_covered h

/--
The converse for a move that leaves cells where they are or brings them `d` cells up: if
two sets of blocks that differ in every cell both get through, the move brings the cells.
-/
theorem source_of_brought_eq (blank : α) {g : β → β} (hd : 0 ≤ d)
    (hg : ∀ b (i : Int), 0 ≤ i → i < width → piece (g b) i ≠ piece b i)
    (hcases : ∀ y, (∃ s ∈ l, Covers width s y) →
      source y = none ∨ source y = some y ∨ source y = some (y - d))
    (hstays : ∀ y, (∃ s ∈ l, Covers width s y) → source y = some y → 0 < d →
      source (y + d) ≠ some y)
    (hsame : ∀ y, (∃ s ∈ l, Covers width s y) →
      brought source blank (puts width piece m (lower d l)) y =
        puts width piece (brought source blank m) l y)
    (hsame' : ∀ y, (∃ s ∈ l, Covers width s y) →
      brought source blank (puts width piece m (lower d (mapBlocks g l))) y =
        puts width piece (brought source blank m) (mapBlocks g l) y)
    (h : ∃ s ∈ l, Covers width s x) : source x = some (x - d) := by
  obtain ⟨bound, hbound⟩ := exists_bound width l
  -- Upwards: what is stored `d` cells below a cell that is brought stands in no cell that stays.
  induction hn : (bound - x).toNat using Nat.strongRecOn generalizing x with
  | ind n ih =>
      have hne := puts_mapBlocks_ne (m := brought source blank m) hg h
      have hfirst := hsame x h
      have hsecond := hsame' x h
      unfold brought at hfirst hsecond
      rcases hcases x h with hnone | hstay | hbrought
      · rw [hnone, Option.elim_none] at hfirst hsecond
        exact absurd (hsecond.symm.trans hfirst) hne
      · by_cases hzero : d = 0
        · rw [hstay, hzero, Int.sub_zero]
        · rw [hstay, Option.elim_some] at hfirst hsecond
          by_cases hlower : ∃ s ∈ lower d l, Covers width s x
          · have habove := exists_covers_lower hlower
            obtain ⟨s, hs, hlow, hhigh⟩ := h
            have hend := hbound s hs
            have hsource := ih (bound - (x + d)).toNat (by omega) habove rfl
            rw [show x + d - d = x by omega] at hsource
            exact absurd hsource (hstays x ⟨s, hs, hlow, hhigh⟩ hstay (by omega))
          · have hmap : ¬∃ s ∈ lower d (mapBlocks g l), Covers width s x := by
              rw [lower_mapBlocks, exists_covers_mapBlocks]
              exact hlower
            rw [puts_of_not_covers fun s hs hcovers => hlower ⟨s, hs, hcovers⟩] at hfirst
            rw [puts_of_not_covers fun s hs hcovers => hmap ⟨s, hs, hcovers⟩] at hsecond
            exact absurd (hsecond.symm.trans hfirst) hne
      · exact hbrought

end PComputer.Foundation
