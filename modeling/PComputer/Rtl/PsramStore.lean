import PComputer.Rtl.BurstTransfers

/-!
# The memory chip as a store

Eight megabytes behind the four wires.  A frame that begins with the command 0x38 and an
address stores its bytes from there on; to the command 0xEB and an address the chip answers
with what it holds from there on.  Frames that do not use all the wires change nothing.
-/

namespace PComputer.Rtl

open PComputer.Foundation

/-! ## Frames as bytes -/

def Pins.nibble : Pins → Option (BitVec 4)
  | ⟨some b₀, some b₁, some b₂, some b₃⟩ =>
      some (BitVec.ofBool b₃ ++ BitVec.ofBool b₂ ++ BitVec.ofBool b₁ ++ BitVec.ofBool b₀)
  | _ => none

@[simp] theorem Pins.nibble_quad (n : BitVec 4) : (Pins.quad n).nibble = some n := by
  decide +revert

def pairBytes : List (BitVec 4) → List (BitVec 8)
  | hi :: lo :: rest => (hi ++ lo) :: pairBytes rest
  | _ => []

def frameBytes (frame : List Pins) : Option (List (BitVec 8)) :=
  (frame.mapM Pins.nibble).map pairBytes

private theorem nibbles_byte (b : BitVec 8) : b.extractLsb' 4 4 ++ b.extractLsb' 0 4 = b := by
  decide +revert

@[simp] theorem frameBytes_byteQuads (bs : List (BitVec 8)) :
    frameBytes (byteQuads bs) = some bs := by
  induction bs with
  | nil => rfl
  | cons b bs ih =>
      obtain ⟨ns, hns, hpairs⟩ := Option.map_eq_some_iff.mp ih
      change ((quadHigh b :: quadLow b :: byteQuads bs).mapM Pins.nibble).map pairBytes = _
      simp [quadHigh, quadLow, hns, pairBytes, hpairs, nibbles_byte]

private theorem frameBytes_of_mem {frame : List Pins} {p : Pins} (hmem : p ∈ frame)
    (hp : p.nibble = none) : frameBytes frame = none := by
  have hnone : frame.mapM Pins.nibble = none := by
    induction frame with
    | nil => cases hmem
    | cons q frame ih =>
        rcases List.mem_cons.mp hmem with rfl | hmem
        · simp [hp]
        · simp [ih hmem]
  rw [frameBytes, hnone]
  rfl

/-! ## The store -/

abbrev ChipBytes := BitVec 23 → BitVec 8

def chipAddress (high middle low : BitVec 8) : BitVec 23 :=
  (show BitVec 24 from high ++ middle ++ low).setWidth 23

def fillFrom {n : Nat} {α : Type} (f : BitVec n → α) (i : BitVec n) : List α → BitVec n → α
  | [] => f
  | v :: vs => fillFrom (Function.update f i v) (i + 1) vs

theorem fillFrom_concat {n : Nat} {α : Type} (f : BitVec n → α) (i : BitVec n) (vs : List α)
    (v : α) : fillFrom f i (vs ++ [v]) =
      Function.update (fillFrom f i vs) (i + BitVec.ofNat n vs.length) v := by
  induction vs generalizing f i with
  | nil => simp [fillFrom]
  | cons u vs ih =>
      have hplace : i + 1 + BitVec.ofNat n vs.length = i + BitVec.ofNat n (vs.length + 1) := by
        rw [BitVec.ofNat_add, BitVec.add_assoc, BitVec.add_comm 1]
        rfl
      rw [List.cons_append, fillFrom, fillFrom, ih, hplace]
      rfl

namespace ChipBytes

variable (m : ChipBytes)

def store (frame : List Pins) : ChipBytes :=
  match frameBytes frame with
  | some (cmd :: high :: middle :: low :: data) =>
      if cmd = 0x38 then fillFrom m (chipAddress high middle low) data else m
  | _ => m

def answer (cmd : List Pins) (k : Nat) : BitVec 4 :=
  match frameBytes cmd with
  | some [cmd, high, middle, low] =>
      let byte := m (chipAddress high middle low + BitVec.ofNat 23 (k / 2))
      if cmd = 0xeb then byte.extractLsb' (if k % 2 = 0 then 4 else 0) 4 else 0
  | _ => 0

def stream (frames : List (List Pins)) (cmd : List Pins) (k : Nat) : BitVec 4 :=
  answer (frames.foldl store m) cmd k

def words (w : BitVec 21) : Word :=
  m (w ++ 0#2) ++ m (w ++ 1#2) ++ m (w ++ 2#2) ++ m (w ++ 3#2)

end ChipBytes

namespace PsramChip

variable (c : PsramChip)

/-- The chip answers as the store does that held `m` at power-up. -/
def Stores (m : ChipBytes) : Prop := c.stream = m.stream

def bytes (m : ChipBytes) : ChipBytes := c.frames.foldl ChipBytes.store m

end PsramChip

namespace ChipBytes

variable {m : ChipBytes} {a : BitVec 24}

private theorem store_of_none {frame : List Pins} (h : frameBytes frame = none) :
    m.store frame = m := by
  rw [store, h]

theorem store_readFrame (n : Nat) : m.store (readFrame a n) = m := by
  refine store_of_none (frameBytes_of_mem (p := .floating) ?_ rfl)
  simp [readFrame]

theorem store_boot {frames : List (List Pins)} (h : frames <:+ BootCommand.RSTEN.frames) :
    frames.foldl store m = m := by
  have hnone : ∀ frame ∈ frames, frameBytes frame = none := by
    have hboot : ∀ frame ∈ BootCommand.RSTEN.frames, frameBytes frame = none := by decide
    exact fun frame hframe => hboot frame (h.mem hframe)
  clear h
  induction frames with
  | nil => rfl
  | cons frame frames ih =>
      rw [List.foldl_cons, store_of_none (hnone frame List.mem_cons_self)]
      exact ih fun f hf => hnone f (List.mem_cons_of_mem frame hf)

private theorem chipAddress_bytes (a : BitVec 24) :
    chipAddress (a.extractLsb' 16 8) (a.extractLsb' 8 8) (a.extractLsb' 0 8) = a.setWidth 23 := by
  apply BitVec.eq_of_getLsbD_eq
  intro k hk
  simp only [chipAddress, BitVec.getLsbD_setWidth, BitVec.getLsbD_append,
    BitVec.getLsbD_extractLsb']
  grind

theorem store_writeFrame (ws : List Word) :
    m.store (writeFrame a ws) = fillFrom m (a.setWidth 23) (ws.flatMap wordBytes) := by
  have hframe : writeFrame a ws = byteQuads (0x38 :: addressBytes a ++ ws.flatMap wordBytes) :=
    List.flatMap_append.symm
  rw [store, hframe, frameBytes_byteQuads]
  exact congrArg (fillFrom m · _) (chipAddress_bytes a)

/-! ## Words -/

private theorem toNat_append_two (w : BitVec 21) (i : BitVec 2) :
    (w ++ i).toNat = 4 * w.toNat + i.toNat := by
  rw [BitVec.toNat_append, ← Nat.shiftLeft_add_eq_or_of_lt i.isLt, Nat.shiftLeft_eq]
  omega

private theorem append_two_succ (w : BitVec 21) (i : BitVec 2) :
    w ++ i + 1 = if i = 3 then (w + 1) ++ 0#2 else w ++ (i + 1) := by
  have := w.isLt
  have hi : i = 0 ∨ i = 1 ∨ i = 2 ∨ i = 3 := by decide +revert
  apply BitVec.eq_of_toNat_eq
  rw [BitVec.toNat_add, toNat_append_two]
  rcases hi with rfl | rfl | rfl | rfl
  all_goals
    simp [toNat_append_two]
    omega

private theorem append_two_add (w : BitVec 21) (k : Nat) :
    w ++ 0#2 + BitVec.ofNat 23 k = (w + BitVec.ofNat 21 (k / 4)) ++ BitVec.ofNat 2 k := by
  apply BitVec.eq_of_toNat_eq
  have := w.isLt
  rw [toNat_append_two, BitVec.toNat_add, toNat_append_two, BitVec.toNat_add]
  simp only [BitVec.toNat_ofNat]
  omega

private theorem append_two_inj {w w' : BitVec 21} {i i' : BitVec 2} :
    w ++ i = w' ++ i' ↔ w = w' ∧ i = i' := by
  constructor
  · intro h
    have h' := congrArg BitVec.toNat h
    rw [toNat_append_two, toNat_append_two] at h'
    have := i.isLt
    have := i'.isLt
    exact ⟨BitVec.eq_of_toNat_eq (by omega), BitVec.eq_of_toNat_eq (by omega)⟩
  · rintro ⟨rfl, rfl⟩
    rfl

def putWord (m : ChipBytes) (w : BitVec 21) (d : Word) : ChipBytes :=
  Function.update (Function.update (Function.update (Function.update m (w ++ 0#2) (lane d 3))
    (w ++ 1#2) (lane d 2)) (w ++ 2#2) (lane d 1)) (w ++ 3#2) (lane d 0)

private theorem words_putWord (w : BitVec 21) (d : Word) :
    (m.putWord w d).words = Function.update m.words w d := by
  funext w'
  by_cases hw : w' = w
  · subst hw
    simp only [words, putWord, Function.update_apply, append_two_inj]
    simpa using (word_eq_lanes d).symm
  · simp [words, putWord, append_two_inj, hw]

private theorem fillFrom_wordBytes (w : BitVec 21) (d : Word) (bs : List (BitVec 8)) :
    fillFrom m (w ++ 0#2) (wordBytes d ++ bs) = fillFrom (m.putWord w d) ((w + 1) ++ 0#2) bs := by
  have h₁ : w ++ 0#2 + 1 = w ++ 1#2 := append_two_succ w 0
  have h₂ : w ++ 1#2 + 1 = w ++ 2#2 := append_two_succ w 1
  have h₃ : w ++ 2#2 + 1 = w ++ 3#2 := append_two_succ w 2
  have h₄ : w ++ 3#2 + 1 = (w + 1) ++ 0#2 := append_two_succ w 3
  simp only [wordBytes, List.cons_append, List.nil_append, fillFrom, h₁, h₂, h₃, h₄, putWord]

theorem words_fillFrom (w : BitVec 21) (ds : List Word) :
    words (fillFrom m (w ++ 0#2) (ds.flatMap wordBytes)) = fillFrom m.words w ds := by
  induction ds generalizing m w with
  | nil => rfl
  | cons d ds ih =>
      rw [List.flatMap_cons, fillFrom_wordBytes, ih, words_putWord]
      rfl

private theorem byteAt_frameHeader {c : PsramChip} (h : c.Stores m) (q : Nat) :
    c.byteAt (frameHeader 0xeb a) (2 * q) =
      c.bytes m (a.setWidth 23 + BitVec.ofNat 23 q) := by
  have hframe : frameBytes (frameHeader 0xeb a) = some (0xeb :: addressBytes a) :=
    frameBytes_byteQuads _
  have hodd : (2 * q + 1) / 2 = q := by omega
  have heven : 2 * q / 2 = q := by omega
  have hnibble (k : Nat) : c.nibbleAt (frameHeader 0xeb a) k =
      (c.bytes m (a.setWidth 23 + BitVec.ofNat 23 (k / 2))).extractLsb'
        (if k % 2 = 0 then 4 else 0) 4 := by
    rw [PsramChip.nibbleAt, h, stream, answer, hframe, ← chipAddress_bytes]
    rfl
  rw [PsramChip.byteAt, hnibble, hnibble, hodd, heven]
  simp [Nat.add_mod, nibbles_byte]

theorem wordAt_frameHeader {c : PsramChip} (h : c.Stores m) {w : BitVec 21}
    (ha : a.setWidth 23 = w ++ 0#2) (j : Nat) :
    c.wordAt (frameHeader 0xeb a) (8 * j) = (c.bytes m).words (w + BitVec.ofNat 21 j) := by
  have hbyte (i : Nat) (hi : i < 4) : c.byteAt (frameHeader 0xeb a) (8 * j + 2 * i) =
      c.bytes m ((w + BitVec.ofNat 21 j) ++ BitVec.ofNat 2 i) := by
    have hplace : 8 * j + 2 * i = 2 * (4 * j + i) := by omega
    have hword : (4 * j + i) / 4 = j := by omega
    have hlane : BitVec.ofNat 2 (4 * j + i) = BitVec.ofNat 2 i := by
      apply BitVec.eq_of_toNat_eq
      simp [Nat.add_mod, Nat.mul_mod_right]
    rw [hplace, byteAt_frameHeader h, ha, append_two_add, hword, hlane]
  rw [PsramChip.wordAt, words, ← hbyte 0 (by omega), ← hbyte 1 (by omega), ← hbyte 2 (by omega),
    ← hbyte 3 (by omega)]
  rfl

end ChipBytes

end PComputer.Rtl
