import PComputer.Rtl.SpiTransfer

/-!
# Sectors between a card and the CPU

The buffer holds byte `4 i` of a sector in the top bits of word `i`.  A read fills it in
this order and a write empties it in the same order: the request before the start token
fetches byte 0, so each later request fetches the byte behind the one that goes out.
-/

namespace PComputer.Rtl

open PComputer.Foundation Relation

def wire (bytes : List (BitVec 8)) : List Bool := bytes.flatMap bits

private theorem wire_append (a b : List (BitVec 8)) : wire (a ++ b) = wire a ++ wire b :=
  List.flatMap_append

private theorem wire_cons (b : BitVec 8) (bs : List (BitVec 8)) :
    wire (b :: bs) = bits b ++ wire bs :=
  List.flatMap_cons

private theorem wire_singleton (b : BitVec 8) : wire [b] = bits b := List.append_nil (bits b)

/--
The card's side of a read command: 56 bits while the command comes in, the answer, the
start token, the sector and two bytes of checksum.
-/
def AnswersRead (sector : Nat → BitVec 8) (rest out : List Bool) : Prop :=
  ∃ (skipped answer : List Bool) (n m : Nat) (crc₁ crc₂ : BitVec 8),
    skipped.length = 56 ∧ answer.length = 7 ∧
      out = skipped ++ (List.replicate n true ++ false :: answer ++
        (List.replicate m true ++ false ::
          (wire ((List.range 512).map sector) ++ (bits crc₁ ++ (bits crc₂ ++ rest)))))

/--
The card's side of a write command: 56 bits while the command comes in, the answer, 515
bytes that it listens to, the data response and the time it is busy.
-/
def AnswersWrite (rest out : List Bool) : Prop :=
  ∃ (skipped answer data response : List Bool) (n m l : Nat),
    skipped.length = 56 ∧ answer.length = 7 ∧ data.length = 4120 ∧ response.length = 7 ∧
      out = skipped ++ (List.replicate n true ++ false :: answer ++
        (data ++ (List.replicate m true ++ false :: response ++
          (List.replicate l false ++ true :: rest))))

/--
What a write command puts on the card: the command, the start token, the bytes and two
more bytes, with ones before and behind them.
-/
def Puts (address : Word) (bytes : List (BitVec 8)) (captured captured' : List Bool) : Prop :=
  ∃ n m, captured' = captured ++ bits (0xFF58#16 ++ address ++ 0xFF#8) ++ List.replicate n true ++
    wire (0xFE :: bytes ++ [0xFF, 0xFF]) ++ List.replicate m true

/-! ## Bytes of the buffer -/

def sectorWord (sector : Nat → BitVec 8) (w : Nat) : Word :=
  sector (4 * w) ++ sector (4 * w + 1) ++ sector (4 * w + 2) ++ sector (4 * w + 3)

def byteAt (block : BitVec 7 → Word) (n : Nat) : BitVec 8 :=
  (block (BitVec.ofNat 7 (n / 4))).extractLsb' (8 * (3 - n % 4)) 8

theorem extract_bytes (a b c d : BitVec 8) :
    (a ++ b ++ c ++ d).extractLsb' 24 8 = a ∧ (a ++ b ++ c ++ d).extractLsb' 16 8 = b ∧
      (a ++ b ++ c ++ d).extractLsb' 8 8 = c ∧ (a ++ b ++ c ++ d).extractLsb' 0 8 = d := by
  refine ⟨?_, ?_, ?_, BitVec.extractLsb'_append_eq_right⟩
  · rw [BitVec.extractLsb'_append_eq_of_le (by decide),
      BitVec.extractLsb'_append_eq_of_le (by decide)]
    exact BitVec.extractLsb'_append_eq_left
  · rw [BitVec.extractLsb'_append_eq_of_le (by decide),
      BitVec.extractLsb'_append_eq_of_le (by decide)]
    exact BitVec.extractLsb'_append_eq_right
  · rw [BitVec.extractLsb'_append_eq_of_le (by decide)]
    exact BitVec.extractLsb'_append_eq_right

theorem byteAt_eq {block : BitVec 7 → Word} {sector : Nat → BitVec 8} {n : Nat}
    (h : block (BitVec.ofNat 7 (n / 4)) = sectorWord sector (n / 4)) :
    byteAt block n = sector n := by
  obtain ⟨w, j, hj, rfl⟩ : ∃ w j, j < 4 ∧ n = 4 * w + j :=
    ⟨n / 4, n % 4, Nat.mod_lt _ (by decide), (Nat.div_add_mod n 4).symm⟩
  obtain ⟨h0, h1, h2, h3⟩ := extract_bytes (sector (4 * w)) (sector (4 * w + 1))
    (sector (4 * w + 2)) (sector (4 * w + 3))
  have hw : (4 * w + j) / 4 = w := by omega
  have hlane : (4 * w + j) % 4 = j := by omega
  rw [hw] at h
  rw [byteAt, hw, hlane, h, sectorWord]
  match j, hj with
  | 0, _ => exact h0
  | 1, _ => exact h1
  | 2, _ => exact h2
  | 3, _ => exact h3

namespace SdBuffer

variable {u after : SdBuffer} {sector : Nat → BitVec 8} {n : Nat}

private theorem counter_index {n : Nat} (hn : n < 1024) :
    (BitVec.ofNat 10 n).extractLsb' 2 7 = BitVec.ofNat 7 (n / 4) := by
  rw [← BitVec.toNat_inj, BitVec.extractLsb'_toNat, BitVec.toNat_ofNat, BitVec.toNat_ofNat,
    Nat.mod_eq_of_lt hn, Nat.shiftRight_eq_div_pow]

private theorem counter_lane (hn : n < 1024) (m : Nat) (hm : m < 4) :
    (BitVec.ofNat 10 n).extractLsb' 0 2 = BitVec.ofNat 2 m ↔ n % 4 = m := by
  rw [← BitVec.toNat_inj, BitVec.extractLsb'_toNat, BitVec.toNat_ofNat, BitVec.toNat_ofNat,
    Nat.mod_eq_of_lt hn, Nat.mod_eq_of_lt hm]
  rfl

private theorem counter_succ (n : Nat) : BitVec.ofNat 10 n + 1 = BitVec.ofNat 10 (n + 1) := by
  rw [BitVec.ofNat_add]
  rfl

private theorem send_eq (hcount : u.counter = BitVec.ofNat 10 n) (hn : n < 1024) :
    u.send after =
      { after with sdDin := byteAt u.block n, counter := BitVec.ofNat 10 (n + 1) } := by
  have h0 := counter_lane hn 0 (by decide)
  have h1 := counter_lane hn 1 (by decide)
  have h2 := counter_lane hn 2 (by decide)
  unfold send blockcounterspo byteAt
  rw [hcount, counter_index hn, counter_succ]
  congr 1
  change (if _ = BitVec.ofNat 2 0 then _ else if _ = BitVec.ofNat 2 1 then _
    else if _ = BitVec.ofNat 2 2 then _ else _) = _
  simp only [h0, h1, h2]
  have hlane : n % 4 = 0 ∨ n % 4 = 1 ∨ n % 4 = 2 ∨ n % 4 = 3 := by omega
  rcases hlane with h4 | h4 | h4 | h4 <;> rw [h4] <;> rfl

/-- The bytes before the `n`-th are in the buffer, the last of them maybe in the caches. -/
structure Filled (sector : Nat → BitVec 8) (n : Nat) (u : SdBuffer) : Prop where
  counter : u.counter = BitVec.ofNat 10 n
  block : ∀ w < n / 4, u.block (BitVec.ofNat 7 w) = sectorWord sector w
  cache1 : 1 ≤ n % 4 → u.cache1 = sector (4 * (n / 4))
  cache2 : 2 ≤ n % 4 → u.cache2 = sector (4 * (n / 4) + 1)
  cache3 : 3 ≤ n % 4 → u.cache3 = sector (4 * (n / 4) + 2)

private theorem receive_eq (hcount : u.counter = BitVec.ofNat 10 n) (hn : n < 1024) (b : BitVec 8) :
    u.receive b u =
      { u with
        cache1 := if n % 4 = 0 then b else u.cache1
        cache2 := if n % 4 = 1 then b else u.cache2
        cache3 := if n % 4 = 2 then b else u.cache3
        block :=
          if n % 4 = 3 then
            Function.update u.block (BitVec.ofNat 7 (n / 4)) (u.cache1 ++ u.cache2 ++ u.cache3 ++ b)
          else u.block
        counter := BitVec.ofNat 10 (n + 1) } := by
  have h0 := counter_lane hn 0 (by decide)
  have h1 := counter_lane hn 1 (by decide)
  have h2 := counter_lane hn 2 (by decide)
  unfold receive
  rw [hcount, counter_index hn, counter_succ]
  simp only [show (0 : BitVec 2) = BitVec.ofNat 2 0 from rfl,
    show (1 : BitVec 2) = BitVec.ofNat 2 1 from rfl, show (2 : BitVec 2) = BitVec.ofNat 2 2 from
      rfl,
    h0, h1, h2]
  have hlane : n % 4 = 0 ∨ n % 4 = 1 ∨ n % 4 = 2 ∨ n % 4 = 3 := by omega
  rcases hlane with h4 | h4 | h4 | h4 <;> simp [h4]

theorem Filled.receive (h : Filled sector n u) (hn : n < 512) :
    Filled sector (n + 1) (u.receive (sector n) u) := by
  have hlane : n % 4 < 3 ∨ n % 4 = 3 := by omega
  rw [receive_eq h.counter (by omega)]
  rcases hlane with hlt | hlast
  · have hdiv : (n + 1) / 4 = n / 4 := by omega
    have hmod : (n + 1) % 4 = n % 4 + 1 := by omega
    have hbyte : sector n = sector (4 * (n / 4) + n % 4) := by rw [Nat.div_add_mod]
    refine ⟨rfl, ?_, ?_, ?_, ?_⟩ <;> rw [hdiv] <;> try rw [hmod]
    · intro w hw
      rw [if_neg (by omega)]
      exact h.block w hw
    · intro _
      dsimp only
      split_ifs with h0
      · rw [hbyte, h0]
        rfl
      · exact h.cache1 (by omega)
    · intro h2
      dsimp only
      split_ifs with h1
      · rw [hbyte, h1]
      · exact h.cache2 (by omega)
    · intro h3
      have htwo : n % 4 = 2 := by omega
      dsimp only
      rw [if_pos htwo, hbyte, htwo]
  · have hdiv : (n + 1) / 4 = n / 4 + 1 := by omega
    have hmod : (n + 1) % 4 = 0 := by omega
    have hbyte : sector n = sector (4 * (n / 4) + 3) := by rw [← hlast, Nat.div_add_mod]
    refine ⟨rfl, ?_, ?_, ?_, ?_⟩ <;> rw [hdiv] <;> try rw [hmod]
    · intro w hw
      rw [if_pos hlast]
      dsimp only
      by_cases hlt : w < n / 4
      · have hne : BitVec.ofNat 7 w ≠ BitVec.ofNat 7 (n / 4) := by
          rw [ne_eq, ← BitVec.toNat_inj, BitVec.toNat_ofNat, BitVec.toNat_ofNat]
          omega
        rw [Function.update_of_ne hne]
        exact h.block w hlt
      · have heq : w = n / 4 := by omega
        rw [heq, Function.update_self, h.cache1 (by omega), h.cache2 (by omega),
          h.cache3 (by omega), hbyte]
        rfl
    · omega
    · omega
    · omega

end SdBuffer

/-! ## A read -/

/-- How the controller rests, and how it comes to rest. -/
structure SdController.Settled (c : SdController) : Prop where
  sclk : c.sclkSig = false
  cmdMode : c.cmdMode = true
  byteAvailable : c.byteAvailable = false
  readyForNextByte : c.readyForNextByte = false
  cs : c.cs = false

namespace SdCore

variable {c c₁ : SdController} {u : SdBuffer} {k : SpiCard} {i : SdControllerIn}
  {sector : Nat → BitVec 8} {n : Nat} {rest : List Bool}

/-- The first `n` bytes have been received, and the next is on the way. -/
structure Reading (sector : Nat → BitVec 8) (n : Nat) (c : SdController) (u : SdBuffer) : Prop where
  works : Works c u
  sclk : c.sclkSig = false
  state : c.state = .RECEIVE_BYTE
  bitCounter : c.bitCounter = BitVec.ofNat 10 7
  byteCounter : c.byteCounter = BitVec.ofNat 10 (511 - n)
  returnState : c.returnState = if n = 512 then .READ_BLOCK_CRC else .READ_BLOCK_DATA
  cmdMode : c.cmdMode = true
  readyForNextByte : c.readyForNextByte = false
  reading : u.reading = true
  filled : u.Filled sector n

private theorem Works.react_receive (h : Works c u) (hstate : c₁.state ≠ .IDLE)
    (hbefore : c.byteAvailable = false) (hafter : c₁.byteAvailable = true)
    (hreading : u.reading = true) : u.react c c₁ = u.receive c₁.dout u := by
  unfold SdBuffer.react SdBuffer.cycle SdBuffer.control
  simp [SdBuffer.readyReal, SdController.ready_of_ne hstate, h.sdRd, h.sdWr, hbefore, hafter,
    hreading]

private theorem slow_READ_BLOCK_DATA (h : c.state = .READ_BLOCK_DATA) :
    c.slow i =
      { c with
        dout := c.recvData
        byteAvailable := true
        byteCounter := if c.byteCounter = 0 then c.byteCounter else c.byteCounter - 1
        returnState := if c.byteCounter = 0 then .READ_BLOCK_CRC else .READ_BLOCK_DATA
        bitCounter := 7
        state := .RECEIVE_BYTE } := by
  simp only [SdController.slow, h]

theorem Reading.next (h : Reading sector n c u) (hn : n < 512)
    (hout : k.out = bits (sector n) ++ rest) :
    ∃ c' u' captured, Reading sector (n + 1) c' u' ∧
      ReflTransGen Moves ⟨c, u, k⟩ ⟨c', u', ⟨rest, captured⟩⟩ := by
  have hreturn : c.returnState = .READ_BLOCK_DATA := by rw [h.returnState, if_neg (by omega)]
  have hreceive := h.works.receive (n := 7) h.sclk h.state h.bitCounter (by decide)
    (length_bits _) hout (by rw [hreturn]; decide)
  rw [foldl_shiftConcat_bits] at hreceive
  have hlast : c.byteCounter = 0 ↔ n + 1 = 512 := by
    rw [h.byteCounter, ← BitVec.toNat_inj, BitVec.toNat_ofNat, Nat.mod_eq_of_lt (by omega)]
    change 511 - n = 0 ↔ _
    omega
  have hworks : Works { c with
      state := c.returnState
      byteAvailable := false
      recvData := sector n
      bitCounter := 0 } u := ⟨by simp [hreturn], h.works.cs, h.works.sdRd, h.works.sdWr⟩
  have hstay := hworks.stay (k := ⟨rest, k.captured ++ List.replicate 8 c.mosi⟩)
    (slow_READ_BLOCK_DATA hreturn) rfl (by simp)
  rw [hworks.react_receive (by simp) rfl rfl h.reading] at hstay
  have hcounter : (if c.byteCounter = 0 then c.byteCounter else c.byteCounter - 1) =
      BitVec.ofNat 10 (511 - (n + 1)) := by
    split_ifs with h0
    · rw [h0, show 511 - (n + 1) = 0 by have hn' := hlast.mp h0; omega]
      rfl
    · have hn' := mt hlast.mpr h0
      rw [h.byteCounter, show 511 - n = 511 - (n + 1) + 1 by omega]
      exact counter_pred _
  have hbuffer := SdBuffer.receive_eq h.filled.counter (by omega) (sector n)
  refine ⟨_, _, _, ?_, hreceive.tail hstay⟩
  exact {
    works := ⟨by simp, h.works.cs, by rw [hbuffer]; exact h.works.sdRd,
      by rw [hbuffer]; exact h.works.sdWr⟩
    sclk := h.sclk
    state := rfl
    bitCounter := rfl
    byteCounter := hcounter
    returnState := by simp only [hlast]
    cmdMode := h.cmdMode
    readyForNextByte := h.readyForNextByte
    reading := by rw [hbuffer]; exact h.reading
    filled := h.filled.receive hn }

theorem Reading.run (h : Reading sector 0 c u) (hn : n ≤ 512)
    (hout : k.out = wire ((List.range n).map sector) ++ rest) :
    ∃ c' u' captured, Reading sector n c' u' ∧
      ReflTransGen Moves ⟨c, u, k⟩ ⟨c', u', ⟨rest, captured⟩⟩ := by
  induction n generalizing rest with
  | zero =>
      refine ⟨c, u, k.captured, h, ?_⟩
      rw [show rest = k.out from hout.symm]
  | succ n ih =>
      rw [List.range_succ, List.map_append, wire_append, List.append_assoc] at hout
      obtain ⟨c', u', captured, h', hmoves⟩ := ih (by omega) hout
      obtain ⟨c'', u'', captured', h'', hmoves'⟩ := h'.next
        (k := ⟨wire [sector n] ++ rest, captured⟩) (by omega) (by rw [wire_singleton])
      exact ⟨c'', u'', captured', h'', hmoves.trans hmoves'⟩

private theorem slow_READ_BLOCK (h : c.state = .READ_BLOCK) :
    c.slow i =
      { c with
        cmdOut := 0xFF51#16 ++ i.address ++ 0xFF#8
        bitCounter := 55
        responseType := 1
        returnState := .READ_BLOCK_WAIT
        state := .SEND_CMD } := by
  simp only [SdController.slow, h]

private theorem slow_READ_BLOCK_WAIT (h : c.state = .READ_BLOCK_WAIT) :
    c.slow i = SdController.toggle
      (if c.sclkSig && (i.miso == false) then
        { c with
          byteCounter := 511
          bitCounter := 7
          returnState := .READ_BLOCK_DATA
          state := .RECEIVE_BYTE }
      else c) := by
  simp only [SdController.slow, h]
  cases i.miso <;> rfl

private theorem slow_READ_BLOCK_CRC (h : c.state = .READ_BLOCK_CRC) :
    c.slow i = { c with bitCounter := 7, returnState := .IDLE, state := .RECEIVE_BYTE } := by
  simp only [SdController.slow, h]

structure Closing (r : SdCore) : Prop where
  works : Works r.controller r.buffer
  sclk : r.controller.sclkSig = true
  idle : r.step.controller.state = .IDLE
  settled : r.step.controller.Settled

private theorem getMsbD_command (token : BitVec 16) (address : BitVec 32) :
    (token ++ address ++ 0xFF#8).getMsbD 55 = true := by
  rw [BitVec.getMsbD_eq_getLsbD, BitVec.getLsbD_append]
  rfl

private theorem Reading.token {m : Nat} (h : Works c u) (hsclk : c.sclkSig = false)
    (hstate : c.state = .READ_BLOCK_WAIT) (hmode : c.cmdMode = true)
    (hnext : c.readyForNextByte = false) (hreading : u.reading = true) (hcounter : u.counter = 0)
    (hout : k.out = List.replicate m true ++ false :: rest) :
    ∃ c' captured, Reading sector 0 c' u ∧
      ReflTransGen Moves ⟨c, u, k⟩ ⟨c', u, ⟨rest, captured⟩⟩ := by
  have hwait := h.wait false
    (f := fun c => { c with
      byteCounter := 511, bitCounter := 7, returnState := .READ_BLOCK_DATA, state := .RECEIVE_BYTE
        })
    hsclk (fun c' i hc' => slow_READ_BLOCK_WAIT (hc'.trans hstate)) hout
  have hfall := Works.fall (c := { c with sclkSig := true }) (u := u)
    (a := { c with
      byteCounter := 511, bitCounter := 7, returnState := .READ_BLOCK_DATA, state := .RECEIVE_BYTE
        })
    (k := ⟨false :: rest, k.captured ++ List.replicate (m + 1) c.mosi⟩)
    ⟨h.state, h.cs, h.sdRd, h.sdWr⟩ rfl
    (by
      rw [slow_READ_BLOCK_WAIT (by exact hstate)]
      simp [SdController.toggle, hsclk, controllerIn, SpiCard.miso])
    hsclk (by simp) (calm_of_eq rfl rfl)
  refine ⟨_, _, ?_, hwait.tail hfall⟩
  exact {
    works := ⟨by simp, h.cs, h.sdRd, h.sdWr⟩
    sclk := hsclk
    state := rfl
    bitCounter := rfl
    byteCounter := rfl
    returnState := rfl
    cmdMode := hmode
    readyForNextByte := hnext
    reading := hreading
    filled := {
      counter := hcounter
      block := fun w hw => absurd hw (Nat.not_lt_zero w)
      cache1 := fun h => absurd h (by decide)
      cache2 := fun h => absurd h (by decide)
      cache3 := fun h => absurd h (by decide) } }

theorem Reading.begin (hset : c.Settled) (hworks : Works c u) (hstate : c.state = .READ_BLOCK)
    (hreading : u.reading = true) (hcounter : u.counter = 0) {skipped answer : List Bool}
    {m : Nat} (hskipped : skipped.length = 56) (hanswer : answer.length = 7)
    (hout : k.out = skipped ++ (List.replicate n true ++ false :: answer ++
      (List.replicate m true ++ false :: rest))) :
    ∃ c' captured, Reading sector 0 c' u ∧
      ReflTransGen Moves ⟨c, u, k⟩ ⟨c', u, ⟨rest, captured⟩⟩ := by
  have hstay := hworks.stay_calm (k := k) (slow_READ_BLOCK hstate) rfl (by simp)
    (by exact calm_of_eq rfl rfl)
  obtain ⟨c₂, hanswered, hcommand⟩ := Works.command (u := u) (k := k)
    ⟨hstay.works, hset.cs, hworks.sdRd, hworks.sdWr⟩ hset.sclk rfl hset.cmdMode rfl rfl
    (by simp) (getMsbD_command _ _) hskipped hanswer hout
  have hstate₂ : c₂.state = .READ_BLOCK_WAIT := hanswered.state
  have htoken : ∀ captured', ∃ c' captured, Reading sector 0 c' u ∧ ReflTransGen Moves
      ⟨c₂, u, ⟨List.replicate m true ++ false :: rest, captured'⟩⟩ ⟨c', u, ⟨rest, captured⟩⟩ :=
    fun captured' => Reading.token
      ⟨by rw [hstate₂]; decide, hanswered.cs, hworks.sdRd, hworks.sdWr⟩ hanswered.sclk hstate₂
      hanswered.cmdMode (hanswered.readyForNextByte.trans hset.readyForNextByte) hreading hcounter
      rfl
  obtain ⟨c', captured, hstart, htoken⟩ := htoken _
  exact ⟨c', captured, hstart, (ReflTransGen.head hstay hcommand).trans htoken⟩

private theorem Closing.of_receive (h : Works c u) (hsclk : c.sclkSig = true)
    (hstate : c.state = .RECEIVE_BYTE) (hcount : c.bitCounter = 0) (hreturn : c.returnState = .IDLE)
    (hmode : c.cmdMode = true) (hnext : c.readyForNextByte = false) : Closing ⟨c, u, k⟩ := by
  have hslow : (step ⟨c, u, k⟩).controller = { c with
      state := .IDLE
      sclkSig := false
      byteAvailable := false
      recvData := c.recvData.shiftConcat k.miso } := by
    change c.slow _ = _
    rw [slow_RECEIVE_BYTE hstate]
    simp [SdController.toggle, hsclk, hcount, hreturn, controllerIn]
  refine ⟨h, hsclk, ?_, ?_⟩ <;> rw [hslow]
  exact ⟨rfl, hmode, rfl, hnext, h.cs⟩

theorem Reading.finish (h : Reading sector 512 c u) {crc₁ crc₂ : BitVec 8}
    (hout : k.out = bits crc₁ ++ (bits crc₂ ++ rest)) :
    ∃ c' k', Closing ⟨c', u, k'⟩ ∧ k'.out.tail = rest ∧
      ReflTransGen Moves ⟨c, u, k⟩ ⟨c', u, k'⟩ := by
  have hreturn : c.returnState = .READ_BLOCK_CRC := by rw [h.returnState, if_pos rfl]
  have hfirst := h.works.receive (n := 7) h.sclk h.state h.bitCounter (by decide)
    (length_bits _) hout (by rw [hreturn]; decide)
  have hworks : Works { c with
      state := c.returnState
      byteAvailable := false
      recvData := (bits crc₁).foldl BitVec.shiftConcat c.recvData
      bitCounter := 0 } u := ⟨by simp [hreturn], h.works.cs, h.works.sdRd, h.works.sdWr⟩
  have hstay := hworks.stay_calm (k := ⟨bits crc₂ ++ rest, k.captured ++ List.replicate 8 c.mosi⟩)
    (slow_READ_BLOCK_CRC hreturn) rfl (by simp) (by exact calm_of_eq rfl rfl)
  obtain ⟨bs, b, hbits⟩ : ∃ bs b, bits crc₂ = bs ++ [b] := by
    obtain hnil | hconcat := (bits crc₂).eq_nil_or_concat'
    · have hlen := length_bits crc₂
      rw [hnil] at hlen
      cases hlen
    · exact hconcat
  have hlen : bs.length = 7 := by
    have hlen := length_bits crc₂
    rw [hbits, List.length_append] at hlen
    exact Nat.succ.inj hlen
  have hup := Works.receiveUp (n := 7) (u := u) (c := { c with
      state := .RECEIVE_BYTE
      byteAvailable := false
      recvData := (bits crc₁).foldl BitVec.shiftConcat c.recvData
      bitCounter := 7
      returnState := .IDLE })
    (k := ⟨bits crc₂ ++ rest, k.captured ++ List.replicate 8 c.mosi⟩)
    ⟨by simp, h.works.cs, h.works.sdRd, h.works.sdWr⟩ h.sclk rfl rfl (by decide) hlen
    (by rw [hbits, List.append_assoc]; rfl)
  refine ⟨_, _, ?_, ?_, (hfirst.tail hstay).trans hup⟩
  · exact .of_receive ⟨by simp, h.works.cs, h.works.sdRd, h.works.sdWr⟩ rfl rfl rfl rfl
      h.cmdMode h.readyForNextByte
  · rfl

/-- From the command to the last bit: the sector is in the buffer. -/
theorem read_run (hset : c.Settled) (hworks : Works c u) (hstate : c.state = .READ_BLOCK)
    (hreading : u.reading = true) (hcounter : u.counter = 0) (hout : AnswersRead sector rest k.out)
      :
    ∃ r, Closing r ∧ r.buffer.Filled sector 512 ∧ r.card.out.tail = rest ∧
      ReflTransGen Moves ⟨c, u, k⟩ r := by
  obtain ⟨skipped, answer, n, m, crc₁, crc₂, hskipped, hanswer, hout⟩ := hout
  obtain ⟨c₁, captured₁, hstart, hbegin⟩ : ∃ c' captured, Reading sector 0 c' u ∧ _ :=
    Reading.begin hset hworks hstate hreading hcounter hskipped hanswer hout
  obtain ⟨c₂, u₂, captured₂, hall, hrun⟩ := hstart.run (k := ⟨_, captured₁⟩) le_rfl rfl
  obtain ⟨c₃, k₃, hclosing, hrest, hfinish⟩ := hall.finish (k := ⟨_, captured₂⟩) rfl
  exact ⟨_, hclosing, hall.filled, hrest, (hbegin.trans hrun).trans hfinish⟩

/-! ## A write -/

private theorem Works.react_send (h : Works c u) (hstate : c₁.state ≠ .IDLE)
    (hbyte : c₁.byteAvailable = c.byteAvailable) (hbefore : c.readyForNextByte = false)
    (hafter : c₁.readyForNextByte = true) (hwriting : u.writing = true) :
    u.react c c₁ = u.send u := by
  unfold SdBuffer.react SdBuffer.cycle SdBuffer.control
  simp [SdBuffer.readyReal, SdController.ready_of_ne hstate, h.sdRd, h.sdWr, hbyte, hbefore, hafter,
    hwriting]

private theorem slow_WRITE_BLOCK_CMD (h : c.state = .WRITE_BLOCK_CMD) :
    c.slow i =
      { c with
        cmdOut := 0xFF58#16 ++ i.address ++ 0xFF#8
        bitCounter := 55
        returnState := .WRITE_BLOCK_INIT
        responseType := 1
        state := .SEND_CMD
        readyForNextByte := true } := by
  simp only [SdController.slow, h]

private theorem slow_WRITE_BLOCK_INIT (h : c.state = .WRITE_BLOCK_INIT) :
    c.slow i =
      { c with
        cmdMode := false
        byteCounter := SdController.WRITE_DATA_SIZE
        state := .WRITE_BLOCK_DATA
        readyForNextByte := false } := by
  simp only [SdController.slow, h]

private theorem slow_WRITE_BLOCK_DATA (h : c.state = .WRITE_BLOCK_DATA) :
    c.slow i =
      if c.byteCounter = 0 then
        { c with state := .RECEIVE_BYTE_WAIT, returnState := .WRITE_BLOCK_WAIT }
      else
        { c with
          dataSig :=
            if c.byteCounter = 2 ∨ c.byteCounter = 1 then 0xFF
            else if c.byteCounter = SdController.WRITE_DATA_SIZE then 0xFE
            else i.din
          readyForNextByte :=
            if c.byteCounter = 2 ∨ c.byteCounter = 1 ∨
                c.byteCounter = SdController.WRITE_DATA_SIZE then c.readyForNextByte
            else true
          bitCounter := 7
          state := .WRITE_BLOCK_BYTE
          byteCounter := c.byteCounter - 1 } := by
  simp only [SdController.slow, h]

private theorem slow_WRITE_BLOCK_WAIT (h : c.state = .WRITE_BLOCK_WAIT) :
    c.slow i = SdController.toggle
      (if c.sclkSig && (i.miso == true) then { c with state := .IDLE, cmdMode := true }
      else c) := by
  simp only [SdController.slow, h, beq_true]

/-- The controller is in the data of a write; `b` bytes are left after the start token. -/
structure Data (b : Nat) (c : SdController) (u : SdBuffer) : Prop where
  works : Works c u
  sclk : c.sclkSig = false
  state : c.state = .WRITE_BLOCK_DATA
  byteCounter : c.byteCounter = BitVec.ofNat 10 b
  cmdMode : c.cmdMode = false
  readyForNextByte : c.readyForNextByte = false
  byteAvailable : c.byteAvailable = false
  responseType : c.responseType = 1

private theorem Data.sendRegister {b : Nat} (h : Data (b + 1) c u) (v : BitVec 8) (q : Bool) :
    ∃ c', Data b c' u ∧ c'.dataSig = shifted v 7 ∧ ReflTransGen Moves
      ⟨{ c with
          dataSig := v
          readyForNextByte := q
          bitCounter := 7
          state := .WRITE_BLOCK_BYTE
          byteCounter := c.byteCounter - 1 }, u, k⟩
      ⟨c', u, ⟨k.out.drop 8, k.captured ++ bits v⟩⟩ := by
  have hcounter : c.byteCounter - 1 = BitVec.ofNat 10 b := by
    rw [h.byteCounter]
    exact counter_pred b
  have hsend := Works.sendByte (n := 7) (u := u) (k := k)
    (c := { c with
      dataSig := v
      readyForNextByte := q
      bitCounter := 7
      state := .WRITE_BLOCK_BYTE
      byteCounter := c.byteCounter - 1 })
    ⟨by simp, h.works.cs, h.works.sdRd, h.works.sdWr⟩ h.sclk rfl h.cmdMode rfl (by decide)
  dsimp only at hsend
  rw [show 7 + 1 = 8 from rfl, shiftedOut_width] at hsend
  refine ⟨_, ?_, ?_, hsend⟩
  · exact ⟨⟨by simp, h.works.cs, h.works.sdRd, h.works.sdWr⟩, h.sclk, rfl, hcounter, h.cmdMode, rfl,
      h.byteAvailable, h.responseType⟩
  · rfl

private theorem Data.sendFixed {b : Nat} (h : Data (b + 1) c u) (v : BitVec 8)
    (hslow : ∀ i, c.slow i = { c with
      dataSig := v, bitCounter := 7, state := .WRITE_BLOCK_BYTE, byteCounter := c.byteCounter - 1
        }) :
    ∃ c', Data b c' u ∧ c'.dataSig = shifted v 7 ∧
      ReflTransGen Moves ⟨c, u, k⟩ ⟨c', u, ⟨k.out.drop 8, k.captured ++ bits v⟩⟩ := by
  have hstay := h.works.stay_calm (k := k) (hslow _) rfl (by simp) (by exact calm_of_eq rfl rfl)
  obtain ⟨c', hdata, hlast, hsend⟩ := h.sendRegister (k := k) v c.readyForNextByte
  exact ⟨c', hdata, hlast, ReflTransGen.head hstay hsend⟩

private theorem byteCounter_eq_iff {b m : Nat} (hb : b < 1024) (hm : m < 1024) :
    BitVec.ofNat 10 b = BitVec.ofNat 10 m ↔ b = m := by
  rw [← BitVec.toNat_inj, BitVec.toNat_ofNat, BitVec.toNat_ofNat, Nat.mod_eq_of_lt hb,
    Nat.mod_eq_of_lt hm]

private theorem Data.sendToken (h : Data 515 c u) :
    ∃ c', Data 514 c' u ∧
      ReflTransGen Moves ⟨c, u, k⟩
        ⟨c', u, ⟨k.out.drop 8, k.captured ++ bits (0xFE : BitVec 8)⟩⟩ := by
  obtain ⟨c', hdata, -, hsend⟩ := h.sendFixed (k := k) 0xFE fun i => by
    rw [slow_WRITE_BLOCK_DATA h.state, h.byteCounter]
    rfl
  exact ⟨c', hdata, hsend⟩

private theorem Data.sendTrailer (h : Data 2 c u) :
    ∃ c', Data 0 c' u ∧ c'.mosi = true ∧ ReflTransGen Moves ⟨c, u, k⟩
      ⟨c', u, ⟨k.out.drop 16, k.captured ++ wire [0xFF, 0xFF]⟩⟩ := by
  obtain ⟨c₁, hdata₁, -, hsend₁⟩ := h.sendFixed (k := k) 0xFF fun i => by
    rw [slow_WRITE_BLOCK_DATA h.state, h.byteCounter]
    rfl
  obtain ⟨c₂, hdata₂, hlast, hsend₂⟩ :=
    hdata₁.sendFixed (k := ⟨k.out.drop 8, k.captured ++ bits (0xFF : BitVec 8)⟩) 0xFF fun i => by
      rw [slow_WRITE_BLOCK_DATA hdata₁.state, hdata₁.byteCounter]
      rfl
  have hmosi : c₂.mosi = true := by
    rw [mosi_data hdata₂.cmdMode, hlast]
    rfl
  rw [List.drop_drop, List.append_assoc] at hsend₂
  refine ⟨c₂, hdata₂, hmosi, ?_⟩
  have hwire : wire [0xFF, 0xFF] = bits (0xFF : BitVec 8) ++ bits (0xFF : BitVec 8) := rfl
  rw [hwire]
  exact hsend₁.trans hsend₂

structure Writing (block : BitVec 7 → Word) (n : Nat) (c : SdController) (u : SdBuffer) : Prop where
  data : Data (514 - n) c u
  kept : u.block = block
  writing : u.writing = true
  counter : u.counter = BitVec.ofNat 10 (n + 1)
  sdDin : u.sdDin = byteAt block n

theorem Writing.next {block : BitVec 7 → Word} (h : Writing block n c u) (hn : n < 512) :
    ∃ c' u', Writing block (n + 1) c' u' ∧ ReflTransGen Moves ⟨c, u, k⟩
      ⟨c', u', ⟨k.out.drop 8, k.captured ++ bits (byteAt block n)⟩⟩ := by
  have hslow : ∀ i, c.slow i = { c with
      dataSig := i.din
      readyForNextByte := true
      bitCounter := 7
      state := .WRITE_BLOCK_BYTE
      byteCounter := c.byteCounter - 1 } := fun i => by
    have hne : ∀ m, m < 3 ∨ m = 515 → c.byteCounter ≠ BitVec.ofNat 10 m := fun m hm => by
      rw [h.data.byteCounter, ne_eq, byteCounter_eq_iff (by omega) (by omega)]
      omega
    have h0 : c.byteCounter ≠ 0 := hne 0 (by decide)
    have h1 : c.byteCounter ≠ 1 := hne 1 (by decide)
    have h2 : c.byteCounter ≠ 2 := hne 2 (by decide)
    have h515 : c.byteCounter ≠ SdController.WRITE_DATA_SIZE := hne 515 (by decide)
    rw [slow_WRITE_BLOCK_DATA h.data.state]
    simp only [h0, h1, h2, h515, or_self, if_false]
  have hbyte : byteAt u.block (n + 1) = byteAt block (n + 1) := by rw [h.kept]
  have hstay := h.data.works.stay (k := k) (hslow _) rfl (by simp)
  rw [h.data.works.react_send (by simp) (by exact rfl) h.data.readyForNextByte (by exact rfl)
    h.writing, SdBuffer.send_eq h.counter (by omega), hbyte] at hstay
  have hdata : Data (514 - (n + 1) + 1) c
      { u with sdDin := byteAt block (n + 1), counter := BitVec.ofNat 10 (n + 1 + 1) } := {
    h.data with
    works := ⟨h.data.works.state, h.data.works.cs, h.data.works.sdRd, h.data.works.sdWr⟩
    byteCounter := by rw [h.data.byteCounter, show 514 - n = 514 - (n + 1) + 1 by omega] }
  obtain ⟨c', hdata', -, hsend⟩ := hdata.sendRegister (k := k) u.sdDin true
  rw [h.sdDin] at hsend
  refine ⟨c', _, ⟨hdata', h.kept, h.writing, rfl, rfl⟩, ReflTransGen.head ?_ hsend⟩
  rw [← h.sdDin]
  exact hstay

theorem Writing.run {block : BitVec 7 → Word} (h : Writing block 0 c u) (hn : n ≤ 512) :
    ∃ c' u', Writing block n c' u' ∧ ReflTransGen Moves ⟨c, u, k⟩
      ⟨c', u',
        ⟨k.out.drop (8 * n), k.captured ++ wire ((List.range n).map (byteAt block))⟩⟩ := by
  induction n with
  | zero =>
      refine ⟨c, u, h, ?_⟩
      rw [Nat.mul_zero, List.drop_zero, List.range_zero, List.map_nil, wire, List.flatMap_nil,
        List.append_nil]
  | succ n ih =>
      obtain ⟨c₁, u₁, h₁, hrun⟩ := ih (by omega)
      obtain ⟨c₂, u₂, h₂, hnext⟩ := h₁.next
        (k := ⟨k.out.drop (8 * n), k.captured ++ wire ((List.range n).map (byteAt block))⟩)
          (by omega)
      refine ⟨c₂, u₂, h₂, hrun.trans ?_⟩
      rw [List.drop_drop, List.append_assoc] at hnext
      rw [List.range_succ, List.map_append, wire_append, List.map_singleton, wire_singleton,
        Nat.mul_succ]
      exact hnext

private theorem Closing.of_wait (h : Works c u) (hsclk : c.sclkSig = true)
    (hstate : c.state = .WRITE_BLOCK_WAIT) (hmiso : k.miso = true) (hbyte : c.byteAvailable = false)
    (hnext : c.readyForNextByte = false) : Closing ⟨c, u, k⟩ := by
  have hslow : (step ⟨c, u, k⟩).controller =
      { c with state := .IDLE, cmdMode := true, sclkSig := false } := by
    change c.slow _ = _
    rw [slow_WRITE_BLOCK_WAIT hstate]
    simp [SdController.toggle, hsclk, controllerIn, hmiso]
  refine ⟨h, hsclk, ?_, ?_⟩ <;> rw [hslow]
  exact ⟨rfl, rfl, hbyte, hnext, h.cs⟩

theorem Data.finish {m : Nat} {answer : List Bool} (h : Data 0 c u) (hmosi : c.mosi = true)
    (hanswer : answer.length = 7)
    (hout : k.out = List.replicate n true ++ false :: answer ++
      (List.replicate m false ++ true :: rest)) :
    ∃ r, Closing r ∧ r.buffer = u ∧ r.card.out.tail = rest ∧
      r.card.captured = k.captured ++ List.replicate (n + 8 + (m + 1)) true ∧
      ReflTransGen Moves ⟨c, u, k⟩ r := by
  have hslow : ∀ i, c.slow i =
      { c with state := .RECEIVE_BYTE_WAIT, returnState := .WRITE_BLOCK_WAIT } := fun i => by
    rw [slow_WRITE_BLOCK_DATA h.state, h.byteCounter]
    rfl
  have hstay := h.works.stay_calm (k := k) (hslow _) rfl (by simp) (by exact calm_of_eq rfl rfl)
  have hanswers := Works.answer (u := u) (k := k)
    (c := { c with state := .RECEIVE_BYTE_WAIT, returnState := .WRITE_BLOCK_WAIT })
    ⟨by simp, h.works.cs, h.works.sdRd, h.works.sdWr⟩ h.sclk rfl h.responseType (by simp) hanswer
      hout
  have hwait := Works.wait (n := m) (u := u) (c := { c with
      state := .WRITE_BLOCK_WAIT
      returnState := .WRITE_BLOCK_WAIT
      byteAvailable := false
      recvData := answer.foldl BitVec.shiftConcat 0
      bitCounter := 0 })
    (k := ⟨List.replicate m false ++ true :: rest, k.captured ++ List.replicate (n + 8) c.mosi⟩)
    (f := fun c => { c with state := .IDLE, cmdMode := true }) true
    ⟨by simp, h.works.cs, h.works.sdRd, h.works.sdWr⟩ h.sclk
    (fun c' i hc' => slow_WRITE_BLOCK_WAIT hc') rfl
  refine ⟨_, ?_, ?_, ?_, ?_, (ReflTransGen.head hstay hanswers).trans hwait⟩
  · exact .of_wait ⟨by simp, h.works.cs, h.works.sdRd, h.works.sdWr⟩ rfl rfl rfl rfl
      h.readyForNextByte
  · rfl
  · rfl
  · have hsame : ({ c with
        state := .WRITE_BLOCK_WAIT
        returnState := .WRITE_BLOCK_WAIT
        byteAvailable := false
        recvData := answer.foldl BitVec.shiftConcat 0
        bitCounter := 0 } : SdController).mosi = true := hmosi
    dsimp only
    rw [hsame, hmosi, List.append_assoc, List.replicate_append_replicate]

theorem Writing.begin {skipped answer : List Bool} (hset : c.Settled) (hworks : Works c u)
    (hstate : c.state = .WRITE_BLOCK_CMD) (hwriting : u.writing = true) (hcounter : u.counter = 0)
    (hskipped : skipped.length = 56) (hanswer : answer.length = 7)
    (hout : k.out = skipped ++ (List.replicate n true ++ false :: answer ++ rest)) :
    ∃ c' u', Writing u.block 0 c' u' ∧ ReflTransGen Moves ⟨c, u, k⟩
      ⟨c', u', ⟨rest.drop 8, k.captured ++ bits (0xFF58#16 ++ u.sdAddress ++ 0xFF#8) ++
        List.replicate (n + 8) true ++ bits (0xFE : BitVec 8)⟩⟩ := by
  have hstay := hworks.stay (k := k) (slow_WRITE_BLOCK_CMD hstate) rfl (by simp)
  rw [hworks.react_send (by simp) (by exact rfl) hset.readyForNextByte (by exact rfl) hwriting,
    SdBuffer.send_eq (n := 0) hcounter (by decide)] at hstay
  obtain ⟨c₁, hanswered, hcommand⟩ := Works.command (k := k)
    (u := { u with sdDin := byteAt u.block 0, counter := BitVec.ofNat 10 (0 + 1) })
    ⟨hstay.works, hset.cs, hworks.sdRd, hworks.sdWr⟩ hset.sclk rfl hset.cmdMode rfl rfl
    (by simp) (getMsbD_command _ _) hskipped hanswer hout
  have hstate₁ : c₁.state = .WRITE_BLOCK_INIT := hanswered.state
  have hworks₁ : Works c₁ { u with sdDin := byteAt u.block 0, counter := BitVec.ofNat 10 (0 + 1) }
      :=
    ⟨by rw [hstate₁]; decide, hanswered.cs, hworks.sdRd, hworks.sdWr⟩
  have hinit := hworks₁.stay_calm (k := ⟨rest, k.captured ++
      bits (0xFF58#16 ++ u.sdAddress ++ 0xFF#8) ++ List.replicate (n + 8) true⟩)
    (slow_WRITE_BLOCK_INIT hstate₁) rfl (by simp) ⟨by simp, by simp⟩
  have hdata : Data 515 { c₁ with
      cmdMode := false
      byteCounter := SdController.WRITE_DATA_SIZE
      state := .WRITE_BLOCK_DATA
      readyForNextByte := false }
      { u with sdDin := byteAt u.block 0, counter := BitVec.ofNat 10 (0 + 1) } :=
    ⟨⟨by simp, hanswered.cs, hworks.sdRd, hworks.sdWr⟩, hanswered.sclk, rfl, rfl, rfl, rfl,
      hanswered.byteAvailable, hanswered.responseType⟩
  obtain ⟨c₂, hdata₂, htoken⟩ := hdata.sendToken
  exact ⟨c₂, _, ⟨hdata₂, rfl, hwriting, rfl, rfl⟩,
    ((ReflTransGen.head hstay hcommand).tail hinit).trans htoken⟩

/-- From the command to the last bit: the buffer has gone out. -/
theorem write_run (hset : c.Settled) (hworks : Works c u) (hstate : c.state = .WRITE_BLOCK_CMD)
    (hwriting : u.writing = true) (hcounter : u.counter = 0) (hout : AnswersWrite rest k.out) :
    ∃ r, Closing r ∧ r.buffer.block = u.block ∧ r.card.out.tail = rest ∧
      Puts u.sdAddress ((List.range 512).map (byteAt u.block)) k.captured r.card.captured ∧
      ReflTransGen Moves ⟨c, u, k⟩ r := by
  obtain ⟨skipped, answer, data, response, n, m, l, hskipped, hanswer, hdata, hresponse, hout⟩ :=
      hout
  obtain ⟨c₁, u₁, hstart, hbegin⟩ :=
    Writing.begin hset hworks hstate hwriting hcounter hskipped hanswer hout
  obtain ⟨c₂, u₂, hall, hrun⟩ := hstart.run (k := ⟨_, _⟩) le_rfl
  obtain ⟨c₃, hdata₃, hmosi, htrailer⟩ := hall.data.sendTrailer (k := ⟨_, _⟩)
  have hleft : (((data ++ (List.replicate m true ++ false :: response ++
      (List.replicate l false ++ true :: rest))).drop 8).drop (8 * 512)).drop 16 =
      List.replicate m true ++ false :: response ++ (List.replicate l false ++ true :: rest) := by
    rw [List.drop_drop, List.drop_drop]
    exact List.drop_left' hdata
  obtain ⟨r, hclosing, hbuffer, hrest, hcaptured, hfinish⟩ :=
    hdata₃.finish (k := ⟨_, _⟩) hmosi hresponse hleft
  refine ⟨r, hclosing, by rw [hbuffer, hall.kept], hrest, ⟨n + 8, m + 8 + (l + 1), ?_⟩,
    ((hbegin.trans hrun).trans htrailer).trans hfinish⟩
  rw [hcaptured, wire_append, wire_cons 0xFE]
  simp only [List.append_assoc]

end SdCore

end PComputer.Rtl
