import PComputer.Foundation.Clocked
import PComputer.Foundation.LeadsTo
import PComputer.Kernel.W5500

/-!
# Runs of `w5500_spi`

A call returns after finitely many cycles, whenever the CPU makes its accesses.  The calls
return in order, and what one has returned stays.
-/

namespace PComputer.PseudOS

open PComputer.Foundation PComputer.Rtl

namespace W5500System

/-- There is no reset, and the CPU goes on making its accesses. -/
structure Executes (ins : Nat → SpiIn) : Prop where
  rst : ∀ t, (ins t).rst = false
  access : ∀ t, ∃ m, t ≤ m ∧ (ins m).access = true

variable {ins : Nat → SpiIn} {s₀ : W5500System} {g : Progress} {f : SpiFrame} {c : SpiCall}
variable {rest : List SpiCall} {booted : Prop} {k n m : Nat} {r : Word}

/-! ## A transfer -/

private theorem low_leadsTo (hins : Executes ins) (hvalid : f.Valid) (hk : k < f.length) :
    LeadsTo (trace cycle ins s₀) (Low f g 0) (Low f g k) := by
  induction k with
  | zero => exact fun n h => ⟨n, le_rfl, h⟩
  | succ k ih =>
      have hhigh : LeadsTo (trace cycle ins s₀) (Low f g k) (High f g k) :=
        leadsTo_of_next fun n h => h.rise hvalid (by omega) (hins.rst n)
      have hlow : LeadsTo (trace cycle ins s₀) (High f g k) (Low f g (k + 1)) :=
        leadsTo_of_next fun n h => h.fall hvalid hk (hins.rst n)
      exact (ih (by omega)).trans (hhigh.trans hlow)

private theorem transfer_leadsTo (hins : Executes ins) (hvalid : f.Valid) :
    LeadsTo (trace cycle ins s₀) (Low f g 0)
      fun s => ∃ r, Receives f g r ∧ Polled .ready (g.sent f) r s := by
  have hlast : f.length - 1 + 1 = f.length := by
    unfold SpiFrame.length
    omega
  refine (low_leadsTo hins hvalid (k := f.length - 1) (by omega)).trans ?_
  have hhigh : LeadsTo (trace cycle ins s₀) (Low f g (f.length - 1)) (High f g (f.length - 1)) :=
    leadsTo_of_next fun n h => h.rise hvalid (by omega) (hins.rst n)
  exact hhigh.trans (leadsTo_of_next fun n h => h.done hlast (hins.rst n))

private theorem polled_leadsTo (hins : Executes ins) (hcalls : g.calls = c :: rest) :
    LeadsTo (trace cycle ins s₀) (Polled .ready g r) (Polled .setaddr (g.next r) r) := by
  have hready : LeadsTo (trace cycle ins s₀) (Polled .ready g r) (Polled .recvbits g r) :=
    leadsTo_of_event hins.access (fun n haccess h => h.wait (hins.rst n) haccess)
      fun n haccess h => h.ready hcalls (hins.rst n) haccess
  exact hready.trans (leadsTo_of_event hins.access
    (fun n haccess h => h.wait (hins.rst n) haccess)
    fun n haccess h => h.recvbits_read hcalls (hins.rst n) haccess)

/-! ## A call -/

theorem Stage.storing (h : Stage .setaddr g s₀) (hbooted : booted → s₀.unit.state = .IDLE) :
    Storing booted c g 0 s₀ :=
  ⟨h, ⟨fun h => by omega, fun h => by omega, fun h => by omega, fun h => by omega⟩, hbooted⟩

private theorem storing_leadsTo (hins : Executes ins) (hcalls : g.calls = c :: rest) (hn : n ≤ 4) :
    LeadsTo (trace cycle ins s₀) (Storing booted c g 0) (Storing booted c g n) := by
  induction n with
  | zero => exact fun m h => ⟨m, le_rfl, h⟩
  | succ n ih =>
      refine (ih (by omega)).trans (leadsTo_of_event hins.access
        (fun m haccess h => h.wait (hins.rst m) haccess)
        fun m haccess h => h.access hcalls (by omega) (hins.rst m) haccess)

theorem exists_issue (hins : Executes ins) (hcalls : g.calls = c :: rest)
    (h : Storing booted c g 0 (trace cycle ins s₀ n)) :
    ∃ m, Storing booted c g 4 (trace cycle ins s₀ m) ∧ (ins m).access = true := by
  obtain ⟨m, -, hstored⟩ := storing_leadsTo hins hcalls le_rfl n h
  obtain ⟨t, -, hissue, haccess⟩ := exists_event hins.access
    (fun k haccess h => Storing.wait h (hins.rst k) haccess) hstored
  exact ⟨t, hissue, haccess⟩

theorem issue_returns (hins : Executes ins) (hcalls : g.calls = c :: rest)
    (hclocked : g.clocked = []) (hvalid : c.frame.Valid)
    (h : Storing booted c g 4 (trace cycle ins s₀ n)) (haccess : (ins n).access = true)
    (hidle : (trace cycle ins s₀ n).unit.state = .IDLE) :
    ∃ m r, Receives c.frame g r ∧
      Polled .setaddr ((g.sent c.frame).next r) r (trace cycle ins s₀ m) := by
  have hlow : Low c.frame g 0 (trace cycle ins s₀ (n + 1)) :=
    h.issue hcalls hclocked (hins.rst n) haccess hidle
  obtain ⟨t, -, r, hreceives, hready⟩ := transfer_leadsTo hins hvalid (n + 1) hlow
  obtain ⟨m, -, hpolled⟩ := polled_leadsTo hins (g := g.sent c.frame) hcalls t hready
  exact ⟨m, r, hreceives, hpolled⟩

theorem lost_returns (hins : Executes ins) (hcalls : g.calls = c :: rest)
    (h : Storing booted c g 4 (trace cycle ins s₀ n)) (haccess : (ins n).access = true)
    (hbusy : (trace cycle ins s₀ n).unit.state ≠ .IDLE) :
    ∃ m r, Polled .setaddr (g.next r) r (trace cycle ins s₀ m) := by
  have hboot : LeadsTo (trace cycle ins s₀) (Stage .ready g) fun s => ∃ r, Polled .ready g r s := by
    refine leadsTo_of_measure (fun s => s.unit.bootClocks) fun k hk => ?_
    by_cases hidle : (trace cycle ins s₀ k).unit.state = .IDLE
    · exact .inl ⟨_, hk, hidle, rfl⟩
    · exact .inr (hk.boot (hins.rst k) hidle)
  have hstage : Stage .ready g (trace cycle ins s₀ (n + 1)) :=
    h.lost hcalls (hins.rst n) haccess hbusy
  obtain ⟨t, -, r, hready⟩ := hboot (n + 1) hstage
  obtain ⟨m, -, hpolled⟩ := polled_leadsTo hins hcalls t hready
  exact ⟨m, r, hpolled⟩

/-- A call that finds the unit ready returns, and leaves the unit ready. -/
theorem call_returns (hins : Executes ins) (hcalls : g.calls = c :: rest)
    (hclocked : g.clocked = []) (hvalid : c.frame.Valid)
    (h : Polled .setaddr g r (trace cycle ins s₀ n)) :
    ∃ m r', Receives c.frame g r' ∧
      Polled .setaddr ((g.sent c.frame).next r') r' (trace cycle ins s₀ m) := by
  have hstoring : Storing True c g 0 (trace cycle ins s₀ n) := h.stage.storing fun _ => h.idle
  obtain ⟨t, hissue, haccess⟩ := exists_issue hins hcalls hstoring
  exact issue_returns hins hcalls hclocked hvalid hissue haccess (hissue.idle trivial)

/-! ## The calls in order -/

variable {i : SpiIn} {s : W5500System}

private theorem cpu_cycle : (s.cycle i).calls = (s.cpuNext i).calls ∧
    (s.cycle i).phase = (s.cpuNext i).phase ∧ (s.cycle i).returned = (s.cpuNext i).returned :=
  ⟨rfl, rfl, rfl⟩

def Issued (p : SpiPhase) : Prop := p = .ready ∨ p = .recvbits

private theorem calls_cycle :
    (s.cycle i).calls = s.calls ∧ (s.cycle i).returned = s.returned ∧
        (Issued s.phase → Issued (s.cycle i).phase) ∨
      ∃ c x, s.calls = c :: (s.cycle i).calls ∧ (s.cycle i).returned = s.returned ++ [x] := by
  obtain ⟨hcalls, hphase, hreturned⟩ := cpu_cycle (i := i) (s := s)
  rw [hcalls, hphase, hreturned]
  unfold cpuNext
  cases hcurrent : s.current i with
  | none => exact .inl ⟨rfl, rfl, id⟩
  | some c =>
      rw [Option.isSome_some, if_pos rfl]
      unfold accessed
      cases s.phase with
      | setaddr | setctrl | setxfrlen | setdata | issue =>
          exact .inl ⟨rfl, rfl, fun h => h.elim nofun nofun⟩
      | ready =>
          refine .inl ⟨rfl, rfl, fun _ => ?_⟩
          dsimp only
          split_ifs
          · exact .inr rfl
          · exact .inl rfl
      | recvbits =>
          have hhead : s.calls.head? = some c := by
            unfold current at hcurrent
            split_ifs at hcurrent
            exact hcurrent
          obtain ⟨rest, hrest⟩ := List.head?_eq_some_iff.mp hhead
          refine .inr ⟨c, _, ?_, rfl⟩
          dsimp only
          rw [hrest, List.tail_cons]

theorem returned_mono (h : n ≤ m) :
    (trace cycle ins s₀ n).returned <+: (trace cycle ins s₀ m).returned := by
  induction m, h using Nat.le_induction with
  | base => exact List.prefix_rfl
  | succ m _ ih =>
      rw [trace_succ]
      rcases calls_cycle (i := ins m) (s := trace cycle ins s₀ m) with
        ⟨-, hreturned, -⟩ | ⟨c, x, -, hreturned⟩
      · rwa [hreturned]
      · rw [hreturned]
        exact ih.trans (List.prefix_append _ _)

private theorem length_returned (n : Nat) :
    (trace cycle ins s₀ n).returned.length + (trace cycle ins s₀ n).calls.length =
      s₀.returned.length + s₀.calls.length := by
  induction n with
  | zero => rfl
  | succ n ih =>
      rw [trace_succ]
      rcases calls_cycle (i := ins n) (s := trace cycle ins s₀ n) with
        ⟨hcalls, hreturned, -⟩ | ⟨c, x, hcalls, hreturned⟩
      · rw [hcalls, hreturned, ih]
      · have hlength := congrArg List.length hcalls
        rw [List.length_cons] at hlength
        rw [hreturned, List.length_append, List.length_singleton]
        omega

theorem returned_of_calls (h : (trace cycle ins s₀ n).calls = (trace cycle ins s₀ m).calls) :
    (trace cycle ins s₀ n).returned = (trace cycle ins s₀ m).returned := by
  have hlength :
      (trace cycle ins s₀ n).returned.length = (trace cycle ins s₀ m).returned.length := by
    have hn : (trace cycle ins s₀ n).returned.length + (trace cycle ins s₀ n).calls.length = _ :=
      length_returned n
    have hm : (trace cycle ins s₀ m).returned.length + (trace cycle ins s₀ m).calls.length = _ :=
      length_returned m
    rw [h] at hn
    omega
  rcases Nat.le_total n m with hle | hle
  · exact (returned_mono hle).eq_of_length hlength
  · exact ((returned_mono hle).eq_of_length hlength.symm).symm

/-! ## The issue of the first call -/

def Past (g : Progress) (s : W5500System) : Prop :=
  s.calls.length < g.calls.length ∨ s.calls = g.calls ∧ Issued s.phase

theorem Past.cycle (h : Past g s) : Past g (s.cycle i) := by
  rcases calls_cycle (i := i) (s := s) with ⟨hcalls, -, hissued⟩ | ⟨c, x, hcalls, -⟩
  · rcases h with hless | ⟨hsame, hphase⟩
    · exact .inl (hcalls ▸ hless)
    · exact .inr ⟨hcalls.trans hsame, hissued hphase⟩
  · have hlength := congrArg List.length hcalls
    rw [List.length_cons] at hlength
    rcases h with hless | ⟨hsame, -⟩
    · exact .inl (by omega)
    · rw [hsame] at hlength
      exact .inl (by omega)

theorem Storing.past (h : Storing booted c g 4 s) (hcalls : g.calls = c :: rest)
    (haccess : i.access = true) : Past g (s.cycle i) := by
  have hphase : s.phase = .issue := h.stage.phase
  have hcpu : s.cpuNext i = { s with phase := .ready } := by
    unfold cpuNext accessed
    rw [h.stage.current hcalls haccess, hphase]
    rfl
  obtain ⟨hnext, hready, -⟩ := cpu_cycle (i := i) (s := s)
  rw [hcpu] at hnext hready
  exact .inr ⟨hnext.trans h.stage.calls, .inl hready⟩

private theorem storing_or_past (hins : Executes ins) (hcalls : g.calls = c :: rest)
    (h : Storing booted c g 0 s₀) (n : Nat) :
    (∃ k ≤ 4, Storing booted c g k (trace cycle ins s₀ n)) ∨ Past g (trace cycle ins s₀ n) := by
  induction n with
  | zero => exact .inl ⟨0, by decide, h⟩
  | succ n ih =>
      rw [trace_succ]
      rcases ih with ⟨k, hk, hstoring⟩ | hpast
      · by_cases haccess : (ins n).access = true
        · rcases Nat.lt_or_eq_of_le hk with hless | rfl
          · exact .inl ⟨k + 1, hless, hstoring.access hcalls hless (hins.rst n) haccess⟩
          · exact .inr (hstoring.past hcalls haccess)
        · exact .inl ⟨k, hk, hstoring.wait (hins.rst n) haccess⟩
      · exact .inr hpast.cycle

theorem storing_of_issue (hins : Executes ins) (hcalls : g.calls = c :: rest)
    (h : Storing booted c g 0 s₀) (hphase : (trace cycle ins s₀ n).phase = .issue)
    (hfirst : (trace cycle ins s₀ n).calls = g.calls) :
    Storing booted c g 4 (trace cycle ins s₀ n) := by
  rcases storing_or_past hins hcalls h n with ⟨k, hk, hstoring⟩ | hless | ⟨-, hissued⟩
  · have hlast : k = 4 := by
      have hstage : storePhase k = .issue := hstoring.stage.phase.symm.trans hphase
      by_contra hne
      have hcases : k = 0 ∨ k = 1 ∨ k = 2 ∨ k = 3 := by omega
      rcases hcases with rfl | rfl | rfl | rfl
      all_goals cases hstage
    exact hlast ▸ hstoring
  · rw [hfirst] at hless
    exact absurd hless (Nat.lt_irrefl _)
  · rw [hphase] at hissued
    exact hissued.elim nofun nofun

end W5500System

end PComputer.PseudOS
