import PComputer.Rtl.Decode

/-!
# Sub-word loads and stores

The load multiplexers pick bytes of `mdr` by the low bits of `mar`, and the
store multiplexers merge bytes of `rs2` into `mdr`.  Seen through `bytesOf`,
writing a merged word back is writing one or two bytes.
-/

namespace PComputer.Rtl

open PComputer.Foundation PComputer.Isa

private theorem byteOffset_cases (k : BitVec 2) : k = 0#2 ∨ k = 1#2 ∨ k = 2#2 ∨ k = 3#2 := by
  revert k
  decide

/-! ## Extension -/

private theorem signExtend_byte (b : BitVec 8) : fill 24 (b.getLsbD 7) ++ b = b.signExtend 32 := by
  apply BitVec.eq_of_getLsbD_eq
  intro k hk
  simp only [BitVec.getLsbD_signExtend, BitVec.getLsbD_append, BitVec.msb_eq_getLsbD_last,
    getLsbD_fill]
  grind

private theorem signExtend_half (b : BitVec 16) :
    fill 16 (b.getLsbD 15) ++ b = b.signExtend 32 := by
  apply BitVec.eq_of_getLsbD_eq
  intro k hk
  simp only [BitVec.getLsbD_signExtend, BitVec.getLsbD_append, BitVec.msb_eq_getLsbD_last,
    getLsbD_fill]
  grind

private theorem zeroExtend_byte (b : BitVec 8) : 0#24 ++ b = b.zeroExtend 32 := by
  apply BitVec.eq_of_getLsbD_eq
  intro k hk
  simp
  grind

private theorem zeroExtend_half (b : BitVec 16) : 0#16 ++ b = b.zeroExtend 32 := by
  apply BitVec.eq_of_getLsbD_eq
  intro k hk
  simp
  grind

namespace Core

variable (c : Core)

/-! ## Lanes of the multiplexers -/

private theorem mar_bit1 : c.mar.getLsbD 1 = (byteOffset c.mar).getLsbD 1 := by
  simp [byteOffset]

private theorem loadbyteByte_eq : c.loadbyteByte = lane c.mdr (byteOffset c.mar) := by
  unfold loadbyteByte
  rcases byteOffset_cases (byteOffset c.mar) with h | h | h | h <;> rw [h] <;> rfl

private theorem loadhalfHalf_eq (h : (byteOffset c.mar).getLsbD 0 = false) :
    c.loadhalfHalf = lane c.mdr (byteOffset c.mar + 1) ++ lane c.mdr (byteOffset c.mar) := by
  unfold loadhalfHalf
  rw [mar_bit1]
  rcases byteOffset_cases (byteOffset c.mar) with h' | h' | h' | h' <;> rw [h'] at h ⊢ <;>
    first | (exact absurd h (by decide)) | skip
  all_goals
    apply BitVec.eq_of_getLsbD_eq
    intro n hn
    simp [lane]
    grind

private theorem lane_storebyte (k : BitVec 2) :
    lane c.storebyte k =
      if k = byteOffset c.mar then c.readData2.extractLsb' 0 8 else lane c.mdr k := by
  unfold storebyte
  rcases byteOffset_cases (byteOffset c.mar) with h | h | h | h <;>
    rcases byteOffset_cases k with rfl | rfl | rfl | rfl
  all_goals
    apply BitVec.eq_of_getLsbD_eq
    intro n hn
    simp [h, lane]
    grind

private theorem lane_storehalf (h : (byteOffset c.mar).getLsbD 0 = false) (k : BitVec 2) :
    lane c.storehalf k =
      if k = byteOffset c.mar + 1 then c.readData2.extractLsb' 8 8
      else if k = byteOffset c.mar then c.readData2.extractLsb' 0 8
      else lane c.mdr k := by
  unfold storehalf
  rw [mar_bit1]
  rcases byteOffset_cases (byteOffset c.mar) with h' | h' | h' | h' <;>
    rcases byteOffset_cases k with rfl | rfl | rfl | rfl <;> rw [h'] at h ⊢ <;>
    first | (exact absurd h (by decide)) | skip
  all_goals
    apply BitVec.eq_of_getLsbD_eq
    intro n hn
    simp [lane]
    grind

/-! ## Loads -/

variable {c} {mem : WordMemory}

private theorem loadbyte_eq (hmdr : c.mdr = mem (wordIndex c.mar)) :
    c.loadbyte = if c.bit 14 then (bytesOf mem c.mar).zeroExtend 32
      else (bytesOf mem c.mar).signExtend 32 := by
  rw [loadbyte, loadbyteByte_eq, hmdr, zeroExtend_byte, signExtend_byte]
  rfl

private theorem bytesOf_succ (a : Word) (h : (byteOffset a).getLsbD 0 = false) :
    wordIndex (a + 1) = wordIndex a ∧ byteOffset (a + 1) = byteOffset a + 1#2 := by
  have hlow : a.toNat % 4 + 1 < 4 := by
    rw [← toNat_byteOffset]
    rcases byteOffset_cases (byteOffset a) with h' | h' | h' | h' <;> rw [h'] at h ⊢ <;>
      simp_all
  exact ⟨wordIndex_add hlow, byteOffset_add a 1⟩

private theorem loadhalf_eq (hmdr : c.mdr = mem (wordIndex c.mar))
    (h : (byteOffset c.mar).getLsbD 0 = false) :
    c.loadhalf = if c.bit 14 then (bytesOf mem (c.mar + 1) ++ bytesOf mem c.mar).zeroExtend 32
      else (bytesOf mem (c.mar + 1) ++ bytesOf mem c.mar).signExtend 32 := by
  obtain ⟨hindex, hoffset⟩ := bytesOf_succ c.mar h
  rw [loadhalf, loadhalfHalf_eq c h, hmdr, zeroExtend_half, signExtend_half]
  simp only [bytesOf, hindex, hoffset]
  rfl

/-! ## Stores -/

private theorem bytesOf_storebyte (hmdr : c.mdr = mem (wordIndex c.mar)) (k : Word) :
    bytesOf (storeWord mem (wordIndex c.mar) c.storebyte) k =
      if k = c.mar then c.readData2.extractLsb' 0 8 else bytesOf mem k := by
  have hk : k = c.mar ↔ _ := address_eq_iff
  simp only [bytesOf_storeWord, lane_storebyte, hmdr, hk]
  by_cases hindex : wordIndex k = wordIndex c.mar
  · simp [hindex, bytesOf]
  · simp [hindex]

private theorem bytesOf_storehalf (hmdr : c.mdr = mem (wordIndex c.mar))
    (h : (byteOffset c.mar).getLsbD 0 = false) (k : Word) :
    bytesOf (storeWord mem (wordIndex c.mar) c.storehalf) k =
      if k = c.mar + 1 then c.readData2.extractLsb' 8 8
      else if k = c.mar then c.readData2.extractLsb' 0 8 else bytesOf mem k := by
  obtain ⟨hsucc, hsucc'⟩ := bytesOf_succ c.mar h
  have hk : k = c.mar ↔ _ := address_eq_iff
  have hk' : k = c.mar + 1 ↔ _ := address_eq_iff
  simp only [bytesOf_storeWord, lane_storehalf c h, hmdr, hk, hk', hsucc, hsucc']
  by_cases hindex : wordIndex k = wordIndex c.mar
  · simp [hindex, bytesOf]
  · simp [hindex]

end Core

private theorem bytesOf_storeWord_aligned (mem : WordMemory) {a : Word} (h : byteOffset a = 0#2)
    (w : Word) (k : Word) :
    bytesOf (storeWord mem (wordIndex a) w) k =
      if k = a + 3 then w.extractLsb' 24 8
      else if k = a + 2 then w.extractLsb' 16 8
      else if k = a + 1 then w.extractLsb' 8 8
      else if k = a then w.extractLsb' 0 8
      else bytesOf mem k := by
  have hlow : a.toNat % 4 = 0 := by rw [← toNat_byteOffset, h]; rfl
  have hat (j : Nat) (hj : j < 4) : (k = a + BitVec.ofNat 32 j) ↔
      wordIndex k = wordIndex a ∧ byteOffset k = BitVec.ofNat 2 j := by
    rw [address_eq_iff, wordIndex_add (by omega), byteOffset_add, h, BitVec.zero_add]
  have h3 : k = a + 3 ↔ _ := hat 3 (by omega)
  have h2 : k = a + 2 ↔ _ := hat 2 (by omega)
  have h1 : k = a + 1 ↔ _ := hat 1 (by omega)
  have h0 : k = a ↔ _ := address_eq_iff
  simp only [bytesOf_storeWord, h3, h2, h1, h0, h]
  by_cases hindex : wordIndex k = wordIndex a
  · rcases byteOffset_cases (byteOffset k) with h' | h' | h' | h' <;> simp [hindex, h', lane]
  · simp [hindex]

namespace Core

variable {c : Core} {mem : WordMemory} {s : Arch}

/-! ## The instructions -/

private theorem half_aligned {a : Word} (h : (a.extractLsb' 0 1 == 0) = true) :
    (byteOffset a).getLsbD 0 = false := by
  have := congrArg (fun v => v.getLsbD 0) (eq_of_beq h)
  simpa [byteOffset] using this

theorem writeData_load {op : LoadOp} (hop : loadOp? c.funct3 = some op)
    (hmem : s.mem = bytesOf mem) (hmdr : c.mdr = mem (wordIndex c.mar))
    (haligned : op.aligned c.mar = true) :
    c.writeData { RegWrite := true, RegSrc := 0#1 ++ 1#1 ++ c.instruction.extractLsb' 12 2 } =
      op.eval s c.mar := by
  have hsrc := c.extract_funct3_low
  have hnse := c.bit14_eq
  have hfunct3 := loadOp?_some hop
  rw [hfunct3] at hsrc hnse
  cases op with
  | lb =>
      simp [writeData, hsrc, LoadOp.funct3, loadbyte_eq hmdr, hnse, LoadOp.eval, hmem]
  | lbu =>
      simp [writeData, hsrc, LoadOp.funct3, loadbyte_eq hmdr, hnse, LoadOp.eval, hmem]
  | lh =>
      simp [writeData, hsrc, LoadOp.funct3, loadhalf_eq hmdr (half_aligned haligned), hnse,
        LoadOp.eval, Arch.loadHalf, hmem]
  | lhu =>
      simp [writeData, hsrc, LoadOp.funct3, loadhalf_eq hmdr (half_aligned haligned), hnse,
        LoadOp.eval, Arch.loadHalf, hmem]
  | lw =>
      have hoffset : byteOffset c.mar = 0#2 := eq_of_beq haligned
      simp [writeData, hsrc, LoadOp.funct3, hmdr, ← word_of_bytes mem hoffset, LoadOp.eval,
        Arch.loadWord, hmem]

theorem bytesOf_memwriteData {op : StoreOp} (hop : storeOp? c.funct3 = some op) (hsw : op ≠ .sw)
    (hmem : s.mem = bytesOf mem) (hmdr : c.mdr = mem (wordIndex c.mar))
    (haligned : op.aligned c.mar = true) :
    bytesOf (storeWord mem (wordIndex c.mar)
        (c.memwriteData { MemSrc := c.instruction.extractLsb' 12 2 })) =
      (op.apply s c.mar c.readData2).mem := by
  have hsrc := c.extract_funct3_low
  rw [storeOp?_some hop] at hsrc
  funext k
  cases op with
  | sb =>
      simp [memwriteData, hsrc, StoreOp.funct3, bytesOf_storebyte hmdr, StoreOp.apply,
        Arch.setByte, hmem]
  | sh =>
      simp [memwriteData, hsrc, StoreOp.funct3, bytesOf_storehalf hmdr (half_aligned haligned),
        StoreOp.apply, Arch.setByte, hmem]
  | sw => exact absurd rfl hsw

theorem storeUnaligned_eq {op : StoreOp} (hop : storeOp? c.funct3 = some op) :
    c.storeUnaligned = decide (op ≠ .sw) := by
  rw [storeUnaligned, bit13_eq, storeOp?_some hop]
  cases op <;> rfl

end Core

theorem storeOp_apply_x (op : StoreOp) (s : Arch) (address value : Word) :
    (op.apply s address value).x = s.x := by
  cases op <;> rfl

theorem bytesOf_storeWord_sw {s : Arch} {mem : WordMemory} {a : Word}
    (hmem : s.mem = bytesOf mem) (haligned : StoreOp.sw.aligned a = true) (w : Word) :
    bytesOf (storeWord mem (wordIndex a) w) = (StoreOp.sw.apply s a w).mem := by
  have hoffset : byteOffset a = 0#2 := eq_of_beq haligned
  funext k
  rw [bytesOf_storeWord_aligned mem hoffset]
  simp [StoreOp.apply, Arch.setByte, hmem]

end PComputer.Rtl
