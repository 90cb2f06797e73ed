import PComputer.Isa.Rv32i
import PComputer.Rtl.Phases

/-!
# Runs of the core on its bus

A `Path` is a stretch of a run in which the core is busy with one instruction,
with the bus writes made on it.  Every access on it is answered, however many
wait cycles the bus inserts, and every instruction starts with a fetch and a
register read.
-/

namespace PComputer.Rtl

open PComputer.Foundation PComputer.Isa

namespace System

def arch (s : System) : Arch where
  pc := s.core.pc
  x := s.core.regfile.read
  mem := bytesOf s.bus.mem
  x_zero := RegisterFile.read_zero _

def busWrite (s : System) : List (Word × Word) :=
  if s.core.we then [(s.core.a, s.core.d)] else []

def Running (s : System) : Prop := s.core.phase ≠ .IF ∧ s.core.phase ≠ .BAD

def IsRun (x : ReadX) (env : Nat → Env) (tr : Nat → System) : Prop :=
  ∀ t, tr (t + 1) = (tr t).cycle x (env t)

/--
A stretch of a run between two times with neither `IF` nor `BAD` strictly in
between, and the bus writes made on it, in order.
-/
inductive Path (tr : Nat → System) (t : Nat) : List (Word × Word) → Nat → Prop
  | start : Path tr t (tr t).busWrite (t + 1)
  | step {log : List (Word × Word)} {u : Nat} :
      Path tr t log u → (tr u).Running → Path tr t (log ++ (tr u).busWrite) (u + 1)

theorem Path.quiet {tr : Nat → System} {t u : Nat} {log : List (Word × Word)}
    (h : Path tr t log u) (hrunning : (tr u).Running) (hwe : (tr u).core.we = false) :
    Path tr t log (u + 1) := by
  have := h.step hrunning
  rwa [busWrite, if_neg (by simp [hwe]), List.append_nil] at this

theorem Path.write {tr : Nat → System} {t u : Nat} {log : List (Word × Word)}
    (h : Path tr t log u) (hrunning : (tr u).Running) (hwe : (tr u).core.we = true) :
    Path tr t (log ++ [((tr u).core.a, (tr u).core.d)]) (u + 1) := by
  have := h.step hrunning
  rwa [busWrite, if_pos hwe] at this

theorem Path.lt {tr : Nat → System} {t u : Nat} {log : List (Word × Word)}
    (h : Path tr t log u) : t < u := by
  induction h with
  | start => omega
  | step _ _ ih => omega

theorem Path.running {tr : Nat → System} {t u : Nat} {log : List (Word × Word)}
    (h : Path tr t log u) (k : Nat) (htk : t < k) (hku : k < u) : (tr k).Running := by
  induction h with
  | start => omega
  | @step log u hpath hrunning ih =>
      by_cases hk : k = u
      · exact hk ▸ hrunning
      · exact ih (by omega)

/-! ## Accesses -/

theorem Answered.of_frame {s s' s'' : System} {p : Phase} {a : Word} (hf : s.Frame s')
    (h : s'.Answered s'' p a) : s.Answered s'' p a where
  phase := h.phase
  pc := h.pc.trans hf.pc
  instruction := by rw [h.instruction, hf.mem, hf.instruction]
  regfile := h.regfile.trans hf.regfile
  mem := h.mem.trans hf.mem
  mar := h.mar
  mdr := by rw [h.mdr, hf.mem]
  A := by rw [h.A, hf.readData1]
  held := h.held
  wait := h.wait
  mepc := h.mepc.trans hf.mepc

section Run

variable {x : ReadX} {env : Nat → Env} {tr : Nat → System} {log : List (Word × Word)} {t u : Nat}

/-- Whatever the delay, an access is answered; by induction on the wait left. -/
theorem Path.wait (hrun : IsRun x env tr) {p : Phase} {a : Word} (hpath : Path tr t log u)
    (h : (tr u).Waiting p a) :
    ∃ v, Path tr t log v ∧ (tr u).Answered (tr v) p a := by
  have hrunning : (tr u).Running := by simp [Running, h.phase]
  have hwe : (tr u).core.we = false := we_eq_false (by simp [h.phase]) (by simp [h.phase])
  generalize hk : (tr u).bus.wait = k
  induction k generalizing u with
  | zero =>
      refine ⟨u + 1, hpath.quiet hrunning hwe, ?_⟩
      rw [hrun u]
      exact cycle_MEM_WAIT_ready h hk
  | succ k ih =>
      have hbusy := cycle_MEM_WAIT_busy (x := x) (e := env u) h (by omega)
      rw [← hrun u] at hbusy
      obtain ⟨hwaiting, hframe, hwait⟩ := hbusy
      obtain ⟨v, hv, hanswer⟩ := ih (hpath.quiet hrunning hwe) hwaiting
        (by simp [Running, hwaiting.phase])
        (we_eq_false (by simp [hwaiting.phase]) (by simp [hwaiting.phase])) (by omega)
      exact ⟨v, hv, hanswer.of_frame hframe⟩

/-- The state that follows `ID_RF`: the instruction is fetched and its operands read. -/
structure Issued (s s' : System) : Prop where
  phase : s'.core.phase = s'.core.phaseNextID_RF false
  pc : s'.core.pc = s.core.pc + 4
  instruction : s'.core.instruction = s.bus.mem (wordIndex s.core.pc)
  regfile : s'.core.regfile = s.core.regfile
  mem : s'.bus.mem = s.bus.mem
  A : s'.core.A = s'.core.readData1
  B : s'.core.B = s'.core.readData2
  ALUOut : s'.core.ALUOut = s.core.pc + s'.core.imm
  mcauseCodeOut : s'.core.op = Core.OP_PRIV → s'.core.privEbreak = false →
    s'.core.privEcall = true → s'.core.mcauseCodeOut = Core.EXC_ECALL_FROM_M_MODE
  mepcReg : s'.cpu.privilege.mepcReg = s.cpu.privilege.mepc
  mepc : s'.cpu.privilege.mepc = s.cpu.privilege.mepc

theorem phaseNextID_RF_congr {c c' : Core} (h : c.instruction = c'.instruction) :
    c.phaseNextID_RF false = c'.phaseNextID_RF false := by
  cases c
  cases c'
  subst h
  rfl

theorem imm_congr {c c' : Core} (h : c.instruction = c'.instruction) : c.imm = c'.imm := by
  cases c
  cases c'
  subst h
  rfl

/--
From time `t` on, and as long as the core is busy with the instruction that
starts there, `interrupt` is low.
-/
def Uninterrupted (tr : Nat → System) (t : Nat) : Prop :=
  ∀ k, t ≤ k → (∀ j, t < j → j ≤ k → (tr j).core.phase ≠ .IF) →
    (tr k).cpu.privilege.interrupt = false

/-- The state in which `ID_RF` starts: the word at `pc` is fetched, and nothing else has moved. -/
structure Fetched (s s' : System) : Prop where
  phase : s'.core.phase = .ID_RF
  pc : s'.core.pc = s.core.pc
  instruction : s'.core.instruction = s.bus.mem (wordIndex s.core.pc)
  regfile : s'.core.regfile = s.core.regfile
  mem : s'.bus.mem = s.bus.mem
  mepc : s'.cpu.privilege.mepc = s.cpu.privilege.mepc

theorem exists_fetched (hrun : IsRun x env tr) (hIF : (tr t).core.phase = .IF) :
    ∃ u, Path tr t [] u ∧ (tr t).Fetched (tr u) := by
  have hfetch := cycle_IF (x := x) (e := env t) hIF
  rw [← hrun t] at hfetch
  obtain ⟨hwaiting, hpc, hregfile, hmem, hmepc⟩ := hfetch
  have hstart : Path tr t [] (t + 1) := by
    have h : Path tr t _ _ := Path.start
    rwa [busWrite, if_neg (by simp [we_eq_false (s := tr t), hIF])] at h
  obtain ⟨u, hpath, ha⟩ := hstart.wait hrun hwaiting
  exact ⟨u, hpath, ha.phase, ha.pc.trans hpc, by rw [ha.instruction, if_pos rfl, hmem],
    ha.regfile.trans hregfile, ha.mem.trans hmem, ha.mepc.trans hmepc⟩

theorem exists_issued (hrun : IsRun x env tr) (hIF : (tr t).core.phase = .IF)
    (hint : Uninterrupted tr t) :
    ∃ u, Path tr t [] u ∧ (tr t).Issued (tr u) := by
  obtain ⟨u, hpath, hf⟩ := exists_fetched hrun hIF
  have hlow : (tr u).cpu.privilege.interrupt = false := by
    refine hint u hpath.lt.le fun j htj hju => ?_
    rcases hju.eq_or_lt with rfl | hju
    · simp [hf.phase]
    · exact (hpath.running j htj hju).1
  have hdecode := cycle_ID_RF (x := x) (e := env u) hf.phase hlow
  rw [← hrun u] at hdecode
  obtain ⟨hphase, hpc', hinstruction, hregfile', hmem', hA, hB, hALUOut, hcode, hreg,
    hmepc'⟩ := hdecode
  refine ⟨u + 1, hpath.quiet (by simp [Running, hf.phase])
    (we_eq_false (by simp [hf.phase]) (by simp [hf.phase])), ?_⟩
  have hword : (tr (u + 1)).core.instruction = (tr t).bus.mem (wordIndex (tr t).core.pc) := by
    rw [hinstruction, hf.instruction]
  refine ⟨?_, ?_, hword, ?_, ?_, ?_, ?_, ?_, ?_, ?_, hmepc'.trans hf.mepc⟩
  · rw [hphase, phaseNextID_RF_congr hinstruction]
  · rw [hpc', hf.pc]
  · rw [hregfile', hf.regfile]
  · rw [hmem', hf.mem]
  · rw [hA, Core.readData1, Core.readData1, hinstruction, hregfile']
  · rw [hB, Core.readData2, Core.readData2, hinstruction, hregfile']
  · rw [hALUOut, hf.pc, imm_congr hinstruction]
  · intro hop hebreak hecall
    rw [hcode]
    unfold Core.op Core.privEbreak Core.privEcall Core.funct3 Core.bit at *
    rw [hinstruction] at hop hebreak hecall
    unfold Core.mcauseCodeNext Core.op Core.privEbreak Core.privEcall Core.funct3 Core.bit
    rw [if_pos hop, hebreak, hecall]
    rfl
  · rw [hreg, hf.mepc]

end Run

end System

end PComputer.Rtl
