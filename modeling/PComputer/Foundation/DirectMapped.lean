import Mathlib.Data.Set.Function

/-!
# Direct-mapped write-back caches

A memory of blocks of words behind a cache with one line per index.  A line is
empty or holds one block, dirty or clean.  `view` is the memory that the user of
the cache sees.  A cache moves between its states in small steps, one word at a
time; every step other than `put` keeps the view.
-/

set_option linter.unusedSectionVars false

namespace PComputer.Foundation

variable {Block Offset Index V : Type*}

structure DirectMapped (Block Offset Index V : Type*) where
  line : Index → Option (Block × Bool)
  data : Index → Offset → V
  low : Block → Offset → V

namespace DirectMapped

variable [DecidableEq Block] [DecidableEq Offset] [DecidableEq Index]
variable (index : Block → Index)

def Holds (c : DirectMapped Block Offset Index V) (b : Block) : Prop :=
  (c.line (index b)).map Prod.fst = some b

instance (c : DirectMapped Block Offset Index V) (b : Block) : Decidable (c.Holds index b) :=
  inferInstanceAs (Decidable (_ = _))

def view (c : DirectMapped Block Offset Index V) (b : Block) (o : Offset) : V :=
  if c.Holds index b then c.data (index b) o else c.low b o

/-- Every block is in its own line, and a clean line agrees with the memory below. -/
structure Coherent (c : DirectMapped Block Offset Index V) : Prop where
  home : ∀ {i b dirty}, c.line i = some (b, dirty) → index b = i
  clean : ∀ {i b}, c.line i = some (b, false) → c.data i = c.low b

/-! ## Steps -/

def put (c : DirectMapped Block Offset Index V) (b : Block) (o : Offset) (v : V) :
    DirectMapped Block Offset Index V :=
  { c with
    line := Function.update c.line (index b) (some (b, true))
    data := Function.update c.data (index b) (Function.update (c.data (index b)) o v) }

def spill (c : DirectMapped Block Offset Index V) (b : Block) (o : Offset) :
    DirectMapped Block Offset Index V :=
  { c with low := Function.update c.low b (Function.update (c.low b) o (c.data (index b) o)) }

def drop (c : DirectMapped Block Offset Index V) (i : Index) :
    DirectMapped Block Offset Index V :=
  { c with line := Function.update c.line i none }

def fill (c : DirectMapped Block Offset Index V) (i : Index) (o : Offset) (v : V) :
    DirectMapped Block Offset Index V :=
  { c with data := Function.update c.data i (Function.update (c.data i) o v) }

def install (c : DirectMapped Block Offset Index V) (b : Block) :
    DirectMapped Block Offset Index V :=
  { c with line := Function.update c.line (index b) (some (b, false)) }

def poke (c : DirectMapped Block Offset Index V) (b : Block) (o : Offset) (v : V) :
    DirectMapped Block Offset Index V :=
  { c with low := Function.update c.low b (Function.update (c.low b) o v) }

variable {index} {c : DirectMapped Block Offset Index V} {b : Block}

/-! ## What the steps do to the view -/

theorem view_of_holds (h : c.Holds index b) : c.view index b = c.data (index b) := by
  funext o
  simp [view, h]

theorem view_of_not_holds (h : ¬ c.Holds index b) : c.view index b = c.low b := by
  funext o
  simp [view, h]

theorem holds_of_line {dirty : Bool} (h : c.line (index b) = some (b, dirty)) :
    c.Holds index b := by
  simp [Holds, h]

theorem view_put (h : c.Holds index b) (o : Offset) (v : V) (b' : Block) (o' : Offset) :
    (c.put index b o v).view index b' o' =
      if b' = b ∧ o' = o then v else c.view index b' o' := by
  by_cases hi : index b' = index b
  · by_cases hb : b' = b
    · subst hb
      have hput : (c.put index b' o v).Holds index b' := by simp [Holds, put]
      rw [view_of_holds h, view_of_holds hput]
      by_cases ho : o' = o <;> simp [put, ho]
    · have hnot : ¬ c.Holds index b' := by
        rw [Holds, hi, h]
        simp [Ne.symm hb]
      simp [view, hnot, hb]
      simp [Holds, put, hi, Ne.symm hb]
  · have hb : b' ≠ b := fun hb => hi (hb ▸ rfl)
    simp [view, Holds, put, hi, hb]

theorem coherent_put (hc : c.Coherent index) (o : Offset) (v : V) :
    (c.put index b o v).Coherent index where
  home := by
    intro i b' dirty hline
    by_cases hi : i = index b
    · subst hi
      simp only [put, Function.update_self, Option.some.injEq, Prod.mk.injEq] at hline
      rw [hline.1]
    · exact hc.home (by simpa [put, hi] using hline)
  clean := by
    intro i b' hline
    by_cases hi : i = index b
    · simp [put, hi] at hline
    · simpa [put, hi] using hc.clean (by simpa [put, hi] using hline)

theorem view_spill (h : c.Holds index b) (o : Offset) :
    (c.spill index b o).view index = c.view index := by
  funext b' o'
  by_cases hb : b' = b
  · subst hb
    have h' : (c.spill index b' o).Holds index b' := h
    rw [view_of_holds h, view_of_holds h']
    rfl
  · simp [view, Holds, spill, hb]

theorem coherent_spill (hc : c.Coherent index) (hdirty : c.line (index b) = some (b, true))
    (o : Offset) : (c.spill index b o).Coherent index where
  home := hc.home
  clean := by
    intro i b' hline
    have hb : b' ≠ b := by
      rintro rfl
      have hline' : c.line i = some (b', false) := hline
      rw [← hc.home hline', hdirty] at hline'
      simp at hline'
    simpa [spill, hb] using hc.clean hline

/-- A line can be dropped once the memory below has caught up with it. -/
theorem view_drop {i : Index}
    (h : ∀ b dirty, index b = i → c.line i = some (b, dirty) → c.data i = c.low b) :
    (c.drop i).view index = c.view index := by
  funext b' o'
  by_cases hi : index b' = i
  · subst hi
    have hnot : ¬ (c.drop (index b')).Holds index b' := by simp [Holds, drop]
    rw [view, if_neg hnot]
    by_cases hold : c.Holds index b'
    · obtain ⟨⟨b, dirty⟩, hline, hb⟩ := Option.map_eq_some_iff.1 hold
      obtain rfl : b = b' := hb
      rw [view_of_holds hold, h b dirty rfl hline]
      rfl
    · rw [view_of_not_holds hold]
      rfl
  · simp [view, Holds, drop, hi]

theorem coherent_drop (hc : c.Coherent index) (i : Index) : (c.drop i).Coherent index where
  home := by
    intro i' b' dirty hline
    by_cases hi : i' = i
    · simp [drop, hi] at hline
    · exact hc.home (by simpa [drop, hi] using hline)
  clean := by
    intro i' b' hline
    by_cases hi : i' = i
    · simp [drop, hi] at hline
    · exact hc.clean (by simpa [drop, hi] using hline)

theorem view_fill {i : Index} (h : c.line i = none) (o : Offset) (v : V) :
    (c.fill i o v).view index = c.view index := by
  funext b' o'
  by_cases hi : index b' = i
  · simp [view, Holds, fill, hi, h]
  · simp [view, Holds, fill, hi]

theorem coherent_fill (hc : c.Coherent index) {i : Index} (h : c.line i = none) (o : Offset)
    (v : V) : (c.fill i o v).Coherent index where
  home := hc.home
  clean := by
    intro i' b' hline
    have hi : i' ≠ i := by
      rintro rfl
      have hline' : c.line i' = some (b', false) := hline
      simp [h] at hline'
    simpa [fill, hi] using hc.clean hline

theorem view_install (h : c.line (index b) = none) (hdata : c.data (index b) = c.low b) :
    (c.install index b).view index = c.view index := by
  funext b' o'
  by_cases hi : index b' = index b
  · by_cases hb : b' = b
    · subst hb
      simp [view, Holds, install, h, hdata]
    · simp [view, Holds, install, hi, h, Ne.symm hb]
  · simp [view, Holds, install, hi]

theorem coherent_install (hc : c.Coherent index) (hdata : c.data (index b) = c.low b) :
    (c.install index b).Coherent index where
  home := by
    intro i b' dirty hline
    by_cases hi : i = index b
    · subst hi
      simp only [install, Function.update_self, Option.some.injEq, Prod.mk.injEq] at hline
      rw [hline.1]
    · exact hc.home (by simpa [install, hi] using hline)
  clean := by
    intro i b' hline
    by_cases hi : i = index b
    · subst hi
      simp only [install, Function.update_self, Option.some.injEq, Prod.mk.injEq] at hline
      rw [← hline.1]
      exact hdata
    · exact hc.clean (by simpa [install, hi] using hline)

theorem view_poke {o : Offset} {v : V} (h : c.Holds index b → c.data (index b) o = v) (b' : Block)
    (o' : Offset) :
    (c.poke b o v).view index b' o' = if b' = b ∧ o' = o then v else c.view index b' o' := by
  by_cases hb : b' = b
  · subst hb
    by_cases hholds : c.Holds index b'
    · have hpoke : (c.poke b' o v).Holds index b' := hholds
      rw [view_of_holds hholds, view_of_holds hpoke]
      by_cases ho : o' = o
      · subst ho
        rw [if_pos ⟨rfl, rfl⟩]
        exact h hholds
      · rw [if_neg fun hand => ho hand.2]
        rfl
    · have hpoke : ¬ (c.poke b' o v).Holds index b' := hholds
      rw [view_of_not_holds hholds, view_of_not_holds hpoke]
      by_cases ho : o' = o <;> simp [poke, ho]
  · simp [view, Holds, poke, hb]

theorem coherent_poke {o : Offset} {v : V} (hc : c.Coherent index)
    (h : c.Holds index b → c.data (index b) o = v) : (c.poke b o v).Coherent index where
  home := hc.home
  clean := by
    intro i b' hline
    have hclean := hc.clean hline
    by_cases hb : b' = b
    · subst hb
      have hi := hc.home hline
      subst hi
      have hdata := h (holds_of_line hline)
      funext o'
      by_cases ho : o' = o
      · simp [poke, ho, hdata]
      · simp [poke, ho, hclean]
    · simp [poke, hb, hclean]

end DirectMapped

end PComputer.Foundation
