import PComputer.Rtl.BurstBoot
import PComputer.Rtl.BurstRead
import PComputer.Rtl.BurstWrite

/-!
# Transfers of `memory_controller_burst`

What a request comes to, on the wires and for the host, up to the next time the system is
ready.  A transfer is in order whatever came before it.
-/

namespace PComputer.Rtl

open PComputer.Foundation

/-! ## Frames -/

def byteQuads (bs : List (BitVec 8)) : List Pins := bs.flatMap fun b => [quadHigh b, quadLow b]

def wordBytes (w : Word) : List (BitVec 8) := [lane w 3, lane w 2, lane w 1, lane w 0]

def addressBytes (a : BitVec 24) : List (BitVec 8) :=
  [a.extractLsb' 16 8, a.extractLsb' 8 8, a.extractLsb' 0 8]

def frameHeader (cmd : BitVec 8) (a : BitVec 24) : List Pins := byteQuads (cmd :: addressBytes a)

def writeFrame (a : BitVec 24) (ws : List Word) : List Pins :=
  frameHeader 0x38 a ++ byteQuads (ws.flatMap wordBytes)

/-- Six dummy clocks and two samples for each of the four bytes of `n` words. -/
def readFrame (a : BitVec 24) (n : Nat) : List Pins :=
  frameHeader 0xeb a ++ List.replicate 6 .floating ++ List.replicate (2 * (4 * n)) .floating

private theorem byteQuads_words (ws : List Word) :
    byteQuads (ws.flatMap wordBytes) = ws.flatMap wordQuads :=
  List.flatMap_assoc

private theorem extractLsb'_shiftQuad {v : BitVec 32} {start : Nat} (h : start + 4 ≤ 28) :
    (PsramFast.shiftQuad v).extractLsb' (start + 4) 4 = v.extractLsb' start 4 := by
  rw [PsramFast.shiftQuad, BitVec.extractLsb'_append_eq_of_le (Nat.le_add_left 4 start),
    Nat.add_sub_cancel, BitVec.extractLsb'_extractLsb'_of_le h]

private theorem quads_eight (v : BitVec 32) : PsramFast.quads 8 v =
    [.quad (v.extractLsb' 28 4), .quad (v.extractLsb' 24 4), .quad (v.extractLsb' 20 4),
      .quad (v.extractLsb' 16 4), .quad (v.extractLsb' 12 4), .quad (v.extractLsb' 8 4),
      .quad (v.extractLsb' 4 4), .quad (v.extractLsb' 0 4)] := by
  simp [PsramFast.quads, extractLsb'_shiftQuad]

private theorem extractLsb'_byte {v : BitVec 24} {start low : Nat} (h : low + 4 ≤ 8) :
    (v.extractLsb' start 8).extractLsb' low 4 = v.extractLsb' (start + low) 4 := by
  ext k hk
  simp only [BitVec.getElem_extractLsb', BitVec.getLsbD_extractLsb', Nat.add_assoc,
    Bool.and_eq_right_iff_imp, decide_eq_true_eq]
  omega

section Command

variable {cmd : BitVec 8} {a : BitVec 24} {start : Nat}

private theorem extractLsb'_command (h : 24 ≤ start) :
    (show BitVec 32 from cmd ++ a).extractLsb' start 4 = cmd.extractLsb' (start - 24) 4 :=
  BitVec.extractLsb'_append_eq_of_le h

private theorem extractLsb'_address (h : start + 4 ≤ 24) :
    (show BitVec 32 from cmd ++ a).extractLsb' start 4 = a.extractLsb' start 4 :=
  BitVec.extractLsb'_append_eq_of_add_le h

private theorem quads_frameHeader : PsramFast.quads 8 (cmd ++ a) = frameHeader cmd a := by
  rw [quads_eight]
  simp [frameHeader, byteQuads, addressBytes, quadHigh, quadLow, extractLsb'_byte,
    extractLsb'_command, extractLsb'_address]

end Command

namespace MemoryIn

def words (i : MemoryIn) : Nat := if i.burstEn then i.burstLength.toNat else 1

private theorem words_eq {i : MemoryIn} (h : i.burstEn = true → i.burstLength ≠ 0) :
    ∃ n, i.words = n + 1 ∧ Remaining i.burstEn i.burstLength n := by
  cases hen : i.burstEn with
  | false => exact ⟨0, by simp [words, hen], .inl ⟨rfl, rfl⟩⟩
  | true =>
      obtain ⟨n, hn⟩ := exists_toNat_eq_succ (h hen)
      exact ⟨n, by simp [words, hen, hn], .inr ⟨rfl, hn⟩⟩

end MemoryIn

namespace MemorySystem

/-! ## Requests -/

/--
A request in the run from `s`, as long as a cycle of `clk`: in a system that is ready, or the
first one since a reset.  Behind it the host waits until the system is ready.
-/
structure Requests (ins : Nat → MemoryIn) (s : MemorySystem) (write : Bool) : Prop where
  start : s.Ready ∨ s.Fresh
  first : (ins 0).rst = false ∧ (ins 0).we = write ∧ (ins 0).rd = !write
  second : (ins 1).rst = false ∧ (ins 1).we = write ∧ (ins 1).rd = !write
  burst : (ins 0).burstEn = true → (ins 0).burstLength ≠ 0
  waits : ∀ t, 2 ≤ t → (∀ u, 2 ≤ u → u ≤ t → ¬(trace cycle ins s u).Ready) →
    ins t = (ins t).calm

/-- At `t` the system is ready for the first time after the request. -/
def EndsAt (ins : Nat → MemoryIn) (s : MemorySystem) (t : Nat) : Prop :=
  2 ≤ t ∧ (∀ u, 2 ≤ u → u < t → ¬(trace cycle ins s u).Ready) ∧ (trace cycle ins s t).Ready

/-- The chip when the frame begins: what is left of a boot comes before it. -/
structure Begins (s : MemorySystem) (c : PsramChip) : Prop where
  stream : c.stream = s.chip.stream
  frames : ∃ boot, boot <:+ BootCommand.RSTEN.frames ∧ c.frames = s.chip.frames ++ boot
  ready : s.Ready → c.frames = s.chip.frames

/-- One frame with the words taken from `d`, of which all but the first are asked for. -/
def Wrote (i : MemoryIn) (s : MemorySystem) (c : PsramChip) (e : MemorySystem) : Prop :=
  ∃ ds : List Word, ds.length + 1 = i.words ∧
    e.chip.frames = c.frames ++ [writeFrame i.a (i.d :: ds)] ∧
    e.events = s.events ++ .takes i.d :: ds.flatMap fun d => [.ready s.memory.spo, .takes d]

/-- One frame, and the words that came with it, of which all but the last are shown once. -/
def Fetched (i : MemoryIn) (s : MemorySystem) (c : PsramChip) (e : MemorySystem) : Prop :=
  e.chip.frames = c.frames ++ [readFrame i.a i.words] ∧
    e.events = s.events ++ (List.range (i.words - 1)).map (fun j =>
      .ready (c.wordAt (frameHeader 0xeb i.a) (8 * j))) ∧
    e.memory.spo = c.wordAt (frameHeader 0xeb i.a) (8 * (i.words - 1))

variable {ins : Nat → MemoryIn} {s e : MemorySystem} {write : Bool}

namespace Requests

theorem begins (h : Requests ins s write) : ∃ total,
    (∀ c : PsramChip, c.frames = total → c.stream = s.chip.stream → Begins s c) ∧
    (Booted (s.memory.accepted (ins 0))
        (if write then s.events ++ [.takes (ins 0).d] else s.events) write total s.chip
        (trace cycle ins s 2) ∨
      ∃ n, Waiting (s.memory.accepted (ins 0))
        (if write then s.events ++ [.takes (ins 0).d] else s.events) write total n s.chip
        (trace cycle ins s 2)) := by
  obtain ⟨hrst, hwe, hrd⟩ := h.first
  obtain ⟨hrst', hwe', hrd'⟩ := h.second
  have hhold : ((ins 1).rd || (ins 1).we) = true := by
    rw [hwe', hrd']
    exact Bool.not_or_self write
  have hstart : s.Ready ∨ ∃ total n, Starting total n s := by
    rcases h.start with hready | hfresh
    · exact .inl hready
    · exact hfresh.starting_or_ready.symm
  rcases hstart with hready | ⟨total, n, hstarting⟩
  · refine ⟨s.chip.frames, fun c hframes hstream => ⟨hstream, ⟨[], List.nil_suffix, ?_⟩, ?_⟩,
      .inl (hready.booted hrst hwe hrd hrst' hhold)⟩
    · rw [hframes, List.append_nil]
    · exact fun _ => hframes
  · obtain ⟨boot, hboot, htotal⟩ := hstarting.boot.frames
    exact ⟨total, fun c hframes hstream => ⟨hstream, ⟨boot, hboot, hframes.trans htotal⟩,
      fun hready => absurd hready hstarting.busy⟩,
      hstarting.booted_or_waiting hrst hwe hrd hrst' hhold⟩

/-- What the transfer leads to is reached when the system is ready for the first time. -/
theorem exists_of_leadsTo {Q : PsramChip → MemorySystem → Prop} (h : Requests ins s write)
    (hQ : ∀ c e, Q c e → e.Ready)
    (hleads : ∀ {ins' : Nat → MemoryIn} {s' : MemorySystem}, Waits ins' (transfer ins' s') →
      ∀ p c, LeadsTo (transfer ins' s') (At (issued (s.memory.accepted (ins 0)) p c
        (if write then s.events ++ [.takes (ins 0).d] else s.events) write)) (Q c)) :
    ∃ t c, EndsAt ins s t ∧ Begins s c ∧ Q c (trace cycle ins s t) := by
  have hrun (n : Nat) : trace cycle (fun k => ins (2 + k)) (trace cycle ins s 2) n =
      trace cycle ins s (2 + n) := (trace_add 2 n).symm
  have hwaits : Waits (fun k => ins (2 + k))
      (transfer (fun k => ins (2 + k)) (trace cycle ins s 2)) := by
    intro n hn
    refine h.waits (2 + n) (Nat.le_add_right 2 n) fun u hu hle => ?_
    obtain ⟨k, rfl⟩ := Nat.exists_eq_add_of_le hu
    rw [← hrun]
    exact (trace_of_not_done hn).2 k (Nat.le_of_add_le_add_left hle)
  obtain ⟨total, hbegins, hstart⟩ := h.begins
  have hbooted : ∃ n, Booted (s.memory.accepted (ins 0))
      (if write then s.events ++ [.takes (ins 0).d] else s.events) write total s.chip
      (transfer (fun k => ins (2 + k)) (trace cycle ins s 2) n) := by
    rcases hstart with hbooted | ⟨n, hwaiting⟩
    · exact ⟨0, hbooted⟩
    · obtain ⟨n, -, hbooted⟩ := waiting_leadsTo hwaits 0 hwaiting
      exact ⟨n, hbooted⟩
  obtain ⟨n, p, c, hframes, hstream, hissued⟩ := hbooted
  obtain ⟨n, -, hn⟩ := hleads hwaits p c n hissued
  obtain ⟨m, hm, hbefore⟩ := exists_trace_of_done (hQ c _ hn)
  rw [hrun] at hm
  rw [transfer, ← hm] at hn
  refine ⟨2 + m, c, ⟨Nat.le_add_right 2 m, fun u hu hlt => ?_, hQ c _ hn⟩,
    hbegins c hframes hstream, hn⟩
  obtain ⟨k, rfl⟩ := Nat.exists_eq_add_of_le hu
  rw [← hrun]
  exact hbefore k (Nat.lt_of_add_lt_add_left hlt)

/-! ## Transfers -/

theorem wrote (h : Requests ins s true) :
    ∃ t c, EndsAt ins s t ∧ Begins s c ∧ Wrote (ins 0) s c (trace cycle ins s t) := by
  obtain ⟨n, hwords, hn⟩ := MemoryIn.words_eq h.burst
  obtain ⟨t, c, hends, hbegins, ds, hlength, hended⟩ :=
    h.exists_of_leadsTo (fun c e ⟨ds, _, he⟩ => he.ready) fun hwaits p c => write_leadsTo hwaits hn
  refine ⟨t, c, hends, hbegins, ds, by rw [hlength, hwords], ?_, ?_⟩
  · rw [hended.frames, writeFrame, byteQuads_words, ← quads_frameHeader]
    rfl
  · rw [hended.events]
    exact List.append_assoc s.events [.takes (ins 0).d] _

theorem fetched (h : Requests ins s false) :
    ∃ t c, EndsAt ins s t ∧ Begins s c ∧ Fetched (ins 0) s c (trace cycle ins s t) := by
  obtain ⟨n, hwords, hn⟩ := MemoryIn.words_eq h.burst
  obtain ⟨t, c, hends, hbegins, hended⟩ :=
    h.exists_of_leadsTo (fun c e he => he.ready) fun hwaits p c => read_leadsTo hwaits hn
  refine ⟨t, c, hends, hbegins, ?_, ?_, ?_⟩
  · have hsamples : 6 + 2 * (4 * (n + 1)) = 7 + (8 * n + 7) := by omega
    rw [hended.frames, readFrame, hwords, ← quads_frameHeader, List.append_assoc,
      List.replicate_append_replicate, hsamples]
    rfl
  · rw [hended.events, hwords, quads_frameHeader]
    rfl
  · rw [hended.spo, hwords, quads_frameHeader]
    rfl

end Requests

/--
Every transfer is exact, and with it the system is ready again: a write sends its command,
its address and its words, a read sends its command and its address and shows the words
that come back.
-/
theorem burst_exact (h : Requests ins s write) :
    ∃ t c, EndsAt ins s t ∧ Begins s c ∧
      (if write then Wrote (ins 0) s c (trace cycle ins s t)
        else Fetched (ins 0) s c (trace cycle ins s t)) ∧
      Idles (fun k => ins (t + k)) (trace cycle ins s t) := by
  cases write with
  | false =>
      obtain ⟨t, c, hends, hbegins, hfetched⟩ := h.fetched
      exact ⟨t, c, hends, hbegins, hfetched, hends.2.2.idles⟩
  | true =>
      obtain ⟨t, c, hends, hbegins, hwrote⟩ := h.wrote
      exact ⟨t, c, hends, hbegins, hwrote, hends.2.2.idles⟩

def writeTwo (t : Nat) : MemoryIn where
  rst := false
  burstEn := true
  burstLength := 2
  a := 0x00abcd
  d := 0xdeadbeef
  we := t < 2
  rd := false
  junk := 0
  noise := 0

def started : MemorySystem :=
  (MemorySystem.mk false .initial .initial ⟨fun _ _ _ => 0, [], 0, []⟩ []).cycle
    { writeTwo 0 with rst := true }

theorem burst_exact_writeTwo :
    ∃ t c, EndsAt writeTwo started t ∧ Begins started c ∧
      Wrote (writeTwo 0) started c (trace cycle writeTwo started t) ∧
      Idles (fun k => writeTwo (t + k)) (trace cycle writeTwo started t) := by
  refine burst_exact (show Requests writeTwo started true from ⟨.inr ?_, ?_, ?_, ?_, ?_⟩)
  · exact ⟨_, { writeTwo 0 with rst := true }, writeTwo, 0, rfl, nofun, rfl⟩
  · exact ⟨rfl, rfl, rfl⟩
  · exact ⟨rfl, rfl, rfl⟩
  · intro _
    decide
  · intro t ht _
    have hwe : decide (t < 2) = false := decide_eq_false (Nat.not_lt.mpr ht)
    exact congrArg (fun we : Bool => { writeTwo t with we := we }) hwe

end MemorySystem

end PComputer.Rtl
