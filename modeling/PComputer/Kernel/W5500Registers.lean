import PComputer.Kernel.W5500Calls

/-!
# A register of the W5500 that is written and read back

A write sends the low byte of its value first, and a read takes the first byte it
receives for the highest one, so the value comes back with its bytes in reverse order.
-/

namespace PComputer.PseudOS

open PComputer.Foundation PComputer.Rtl

/-! ## The two calls -/

inductive FdmMode where
  | W5_FDM1 | W5_FDM2 | W5_FDM4
  deriving DecidableEq, Repr

namespace FdmMode

def code : FdmMode → Word
  | .W5_FDM1 => PseudOS.W5_FDM1
  | .W5_FDM2 => PseudOS.W5_FDM2
  | .W5_FDM4 => PseudOS.W5_FDM4

def bytes : FdmMode → Nat
  | .W5_FDM1 => 1
  | .W5_FDM2 => 2
  | .W5_FDM4 => 4

end FdmMode

namespace SpiCall

def write (blksel addr : Word) (m : FdmMode) (v : Word) : SpiCall :=
  ⟨blksel, addr, W5_RW_W, m.code, v⟩

/-- The data of a read go out as well, and the chip takes no notice of them. -/
def read (blksel addr : Word) (m : FdmMode) (data : Word) : SpiCall :=
  ⟨blksel, addr, W5_RW_R, m.code, data⟩

variable {blksel addr v data : Word} {m : FdmMode} {rw : Word}

private theorem toNat_ctrl (hrw : rw.toNat < 2) :
    ((SpiCall.mk blksel addr rw m.code v).frame.ctrl).toNat =
      8 * (blksel.toNat % 32) + 4 * rw.toNat + m.code.toNat := by
  have hcode : m.code.toNat < 4 := by cases m <;> decide
  simp only [frame, ctrl, BitVec.extractLsb'_toNat, BitVec.toNat_add, BitVec.toNat_shiftLeft,
    Nat.shiftLeft_eq, Nat.shiftRight_zero]
  omega

private theorem block_frame (hrw : rw.toNat < 2) :
    (SpiCall.mk blksel addr rw m.code v).frame.block = blksel.extractLsb' 0 5 := by
  have hcode : m.code.toNat < 4 := by cases m <;> decide
  apply BitVec.eq_of_toNat_eq
  rw [SpiFrame.block, BitVec.extractLsb'_toNat, toNat_ctrl hrw, BitVec.extractLsb'_toNat,
    Nat.shiftRight_eq_div_pow, Nat.shiftRight_zero]
  omega

theorem writes_frame (hrw : rw.toNat < 2) :
    (SpiCall.mk blksel addr rw m.code v).frame.writes = decide (rw.toNat = 1) := by
  have hcode : m.code.toNat < 4 := by cases m <;> decide
  rw [SpiFrame.writes, ← BitVec.testBit_toNat, toNat_ctrl hrw, Nat.testBit_eq_decide_div_mod_eq,
    decide_eq_decide]
  omega

private theorem bytes_frame : (SpiCall.mk blksel addr rw m.code v).frame.bytes = m.bytes := by
  cases m <;> rfl

private theorem valid_frame (hrw : rw.toNat < 2) :
    (SpiCall.mk blksel addr rw m.code v).frame.Valid := by
  have hmode : (SpiCall.mk blksel addr rw m.code v).frame.ctrl.extractLsb' 0 2 =
      m.code.extractLsb' 0 2 := by
    apply BitVec.eq_of_toNat_eq
    rw [BitVec.extractLsb'_toNat, toNat_ctrl hrw, BitVec.extractLsb'_toNat, Nat.shiftRight_zero,
      Nat.shiftRight_zero]
    omega
  constructor
  · rw [hmode, bytes_frame]
    cases m <;> rfl
  · rw [bytes_frame]
    cases m <;> decide

end SpiCall

/-! ## The bytes on the wire -/

namespace SpiFrame

variable {f f' : SpiFrame} {mem : BitVec 5 → BitVec 16 → BitVec 8} {v : Word}

private theorem dataByte_byteSwap (hdata : f.data = byteSwap v) {j : Nat} (hj : j < 4) :
    f.dataByte j = lane v (BitVec.ofNat 2 j) := by
  have hbits : bits f.data =
      bits (lane v 0) ++ (bits (lane v 1) ++ (bits (lane v 2) ++ bits (lane v 3))) := by
    rw [hdata, show byteSwap v = lane v 0 ++ lane v 1 ++ lane v 2 ++ lane v 3 from rfl,
      bits_append, bits_append, bits_append, List.append_assoc, List.append_assoc]
  have hbyte : ((bits f.data).drop (8 * j)).take 8 = bits (lane v (BitVec.ofNat 2 j)) := by
    rw [hbits]
    have hcases : j = 0 ∨ j = 1 ∨ j = 2 ∨ j = 3 := by omega
    rcases hcases with rfl | rfl | rfl | rfl <;> rfl
  rw [SpiFrame.dataByte, hbyte, ofBits_bits _ le_rfl, BitVec.setWidth_eq]

/-- A read of the register that was written shows the bytes as they were sent. -/
theorem dataBit_stored (hblock : f'.block = f.block) (haddr : f'.addr = f.addr)
    (hwrites : f.writes = true) {k : Nat} (hk : k < 8 * f.bytes) (hbytes : f.bytes ≤ 4) :
    f'.dataBit (f.stored mem) k = (f.dataByte (k / 8)).getMsbD (k % 8) := by
  have hoffset : (f'.addr + BitVec.ofNat 16 (k / 8) - f.addr).toNat = k / 8 := by
    rw [haddr, BitVec.add_comm, BitVec.add_sub_cancel, BitVec.toNat_ofNat]
    omega
  unfold SpiFrame.dataBit SpiFrame.stored
  rw [hoffset, if_pos ⟨hwrites, hblock, by omega⟩]

end SpiFrame

private theorem map_lane_bits (v : Word) (n : Nat) :
    (List.range (8 * n)).map (fun k => (lane v (BitVec.ofNat 2 (k / 8))).getMsbD (k % 8)) =
      (List.range n).flatMap fun j => bits (lane v (BitVec.ofNat 2 j)) := by
  induction n with
  | zero => rfl
  | succ n ih =>
      have hrange : List.range (n + 1) = List.range n ++ [n] := List.range_succ
      rw [show 8 * (n + 1) = 8 * n + 8 by omega, List.range_add, List.map_append, ih, hrange,
        List.flatMap_append, List.map_map, List.flatMap_singleton]
      congr 1
      refine List.map_congr_left fun k hk => ?_
      have hlt : k < 8 := List.mem_range.mp hk
      rw [Function.comp_apply, show (8 * n + k) / 8 = n by omega, show (8 * n + k) % 8 = k by omega]

def Palindromic (n : Nat) (v : Word) : Prop :=
  ∀ j < n, lane v (BitVec.ofNat 2 j) = lane v (BitVec.ofNat 2 (n - 1 - j))

instance (n : Nat) (v : Word) : Decidable (Palindromic n v) :=
  inferInstanceAs (Decidable (∀ j < n, _))

private theorem toNat_lane (v : Word) (j : BitVec 2) :
    (lane v j).toNat = v.toNat / 256 ^ j.toNat % 256 := by
  rw [lane, BitVec.extractLsb'_toNat, Nat.shiftRight_eq_div_pow, pow_mul]
  rfl

private theorem toNat_append_byte {w : Nat} (x : BitVec w) (b : BitVec 8) :
    (x ++ b).toNat = 256 * x.toNat + b.toNat := by
  rw [BitVec.toNat_append, ← Nat.shiftLeft_add_eq_or_of_lt b.isLt, Nat.shiftLeft_eq, Nat.mul_comm]

def received (m : FdmMode) (v : Word) : Nat :=
  match m with
  | .W5_FDM1 => (lane v 0).toNat
  | .W5_FDM2 => 256 * (lane v 0).toNat + (lane v 1).toNat
  | .W5_FDM4 =>
      256 * (256 * (256 * (lane v 0).toNat + (lane v 1).toNat) + (lane v 2).toNat) +
        (lane v 3).toNat

private theorem toNat_ofBits_lanes (m : FdmMode) (v : Word) :
    (ofBits 32 ((List.range m.bytes).flatMap fun j => bits (lane v (BitVec.ofNat 2 j)))).toNat =
      received m v := by
  cases m with
  | W5_FDM1 =>
      change (ofBits 32 (bits (lane v 0) ++ [])).toNat = _
      rw [List.append_nil, ofBits_bits _ (by decide), BitVec.toNat_setWidth_of_le (by decide)]
      rfl
  | W5_FDM2 =>
      change (ofBits 32 (bits (lane v 0) ++ (bits (lane v 1) ++ []))).toNat = _
      rw [List.append_nil, ← bits_append, ofBits_bits _ (by decide),
        BitVec.toNat_setWidth_of_le (by decide), toNat_append_byte]
      rfl
  | W5_FDM4 =>
      change (ofBits 32 (bits (lane v 0) ++ (bits (lane v 1) ++ (bits (lane v 2) ++
        (bits (lane v 3) ++ []))))).toNat = _
      rw [List.append_nil, ← List.append_assoc, ← List.append_assoc, ← bits_append, ← bits_append,
        ← bits_append, ofBits_bits _ (by decide), BitVec.toNat_setWidth_of_le (by decide),
        toNat_append_byte, toNat_append_byte, toNat_append_byte]
      rfl

private theorem received_eq_iff (m : FdmMode) {v : Word} (hfits : v.toNat < 2 ^ (8 * m.bytes)) :
    received m v = v.toNat ↔ Palindromic m.bytes v := by
  have hv := v.isLt
  have h0 : (lane v 0).toNat = v.toNat % 256 := by simpa using toNat_lane v 0
  have h1 : (lane v 1).toNat = v.toNat / 256 % 256 := by simpa using toNat_lane v 1
  have h2 : (lane v 2).toNat = v.toNat / 65536 % 256 := by simpa using toNat_lane v 2
  have h3 : (lane v 3).toNat = v.toNat / 16777216 % 256 := by simpa using toNat_lane v 3
  have hsum : v.toNat = (lane v 0).toNat + 256 * (lane v 1).toNat + 65536 * (lane v 2).toNat +
      16777216 * (lane v 3).toNat := by
    rw [h0, h1, h2, h3]
    omega
  have hbyte (j : BitVec 2) : (lane v j).toNat < 256 := (lane v j).isLt
  have hbyte0 := hbyte 0
  have hbyte1 := hbyte 1
  have hbyte2 := hbyte 2
  have hbyte3 := hbyte 3
  clear h0 h1 h2 h3
  cases m with
  | W5_FDM1 =>
      simp only [FdmMode.bytes] at hfits
      refine iff_of_true ?_ fun j hj => ?_
      · unfold received
        dsimp only
        omega
      · obtain rfl : j = 0 := by simpa [FdmMode.bytes] using hj
        rfl
  | W5_FDM2 =>
      simp only [FdmMode.bytes] at hfits
      have hpalindromic : Palindromic 2 v ↔ lane v 0 = lane v 1 := by
        refine ⟨fun h => h 0 (by decide), fun h j hj => ?_⟩
        have hcases : j = 0 ∨ j = 1 := by omega
        rcases hcases with rfl | rfl
        · exact h
        · exact h.symm
      rw [FdmMode.bytes, hpalindromic, ← BitVec.toNat_inj]
      unfold received
      dsimp only
      omega
  | W5_FDM4 =>
      have hpalindromic : Palindromic 4 v ↔ lane v 0 = lane v 3 ∧ lane v 1 = lane v 2 := by
        refine ⟨fun h => ⟨h 0 (by decide), h 1 (by decide)⟩, fun h j hj => ?_⟩
        have hcases : j = 0 ∨ j = 1 ∨ j = 2 ∨ j = 3 := by omega
        rcases hcases with rfl | rfl | rfl | rfl
        · exact h.1
        · exact h.2
        · exact h.2.symm
        · exact h.1.symm
      rw [FdmMode.bytes, hpalindromic, ← BitVec.toNat_inj, ← BitVec.toNat_inj]
      unfold received
      dsimp only
      omega

/-! ## A write and a read -/

namespace W5500System

structure Between (s : W5500System) : Prop where
  phase : s.phase = .setaddr
  clocked : s.clocked = []
  frame : s.chip.frame = []
  off : s.unit.Off

def progress (s : W5500System) : Progress := ⟨s.calls, s.clocked, s.returned, s.chip.mem⟩

/-- The unit is ready when the CPU stores the issue of the first call. -/
def IssuedReady (ins : Nat → SpiIn) (s : W5500System) : Prop :=
  ∃ t, (trace cycle ins s t).phase = .issue ∧ (trace cycle ins s t).calls = s.calls ∧
    (ins t).access = true ∧ (trace cycle ins s t).unit.state = .IDLE

/--
The first two calls return, each after as many bits as `bytes` bytes of data take, and the
second one returns `x`.
-/
structure Exchanges (ins : Nat → SpiIn) (s : W5500System) (bytes x : Nat) : Prop where
  returns : ∃ n, (trace cycle ins s n).calls = s.calls.drop 2
  values : ∀ n, (trace cycle ins s n).calls = s.calls.drop 2 →
    ∃ w out r out', (trace cycle ins s n).returned = s.returned ++ [(w, out), (r, out')] ∧
      out.length = 24 + 8 * bytes ∧ out'.length = 24 + 8 * bytes ∧ r.toNat = x

variable {ins : Nat → SpiIn} {s : W5500System} {g : Progress} {c : SpiCall} {rest : List SpiCall}
variable {blksel addr v data : Word} {m : FdmMode} {n : Nat} {r : Word}

theorem Polled.between (h : Polled .setaddr g r s) (hclocked : g.clocked = []) : s.Between :=
  ⟨h.stage.phase, h.stage.clocked.trans hclocked, h.stage.frame, h.stage.off⟩

theorem Between.storing (h : s.Between) : Storing False c s.progress 0 s :=
  Stage.storing ⟨h.phase, rfl, rfl, rfl, rfl, h.frame, h.off⟩ False.elim

private theorem received_of_receives
    (hmem : g.mem = (SpiCall.write blksel addr m v).frame.stored s.chip.mem)
    (h : Receives (SpiCall.read blksel addr m data).frame g r) : r.toNat = received m v := by
  have hbytes : m.bytes ≤ 4 := by cases m <;> decide
  have hblock : (SpiCall.read blksel addr m data).frame.block =
      (SpiCall.write blksel addr m v).frame.block :=
    (SpiCall.block_frame (by decide)).trans (SpiCall.block_frame (by decide)).symm
  have hwrites : (SpiCall.write blksel addr m v).frame.writes = true :=
    SpiCall.writes_frame (by decide)
  have hreads : (SpiCall.read blksel addr m data).frame.writes = false :=
    SpiCall.writes_frame (by decide)
  have hlength : (SpiCall.write blksel addr m v).frame.bytes = m.bytes := SpiCall.bytes_frame
  have hlength' : (SpiCall.read blksel addr m data).frame.bytes = m.bytes := SpiCall.bytes_frame
  have hbits : (List.range (8 * m.bytes)).map
        ((SpiCall.read blksel addr m data).frame.dataBit g.mem) =
      (List.range (8 * m.bytes)).map
        fun k => (lane v (BitVec.ofNat 2 (k / 8))).getMsbD (k % 8) := by
    refine List.map_congr_left fun k hk => ?_
    have hlt : k < 8 * m.bytes := List.mem_range.mp hk
    rw [hmem, SpiFrame.dataBit_stored hblock rfl hwrites (by omega) (by omega),
      SpiFrame.dataByte_byteSwap rfl (by omega)]
    rfl
  rw [h hreads, hlength', hbits, map_lane_bits, toNat_ofBits_lanes]

private theorem length_sent (hvalid : c.frame.Valid) (hbytes : c.frame.bytes = n) :
    (c.frame.line.take c.frame.length).length = 24 + 8 * n := by
  have hfour := hvalid.bytes
  rw [List.length_take, SpiFrame.length_line, SpiFrame.length]
  omega

/-! ### The outcome -/

variable {bytes x y : Nat}

theorem Exchanges.unique (h : Exchanges ins s bytes x) (h' : Exchanges ins s bytes y) : x = y := by
  obtain ⟨⟨n, hn⟩, hvalues⟩ := h
  obtain ⟨w, out, r, out', hreturned, -, -, rfl⟩ := hvalues n hn
  obtain ⟨w', last, r', last', hreturned', -, -, rfl⟩ := h'.values n hn
  have hsame : [(w, out), (r, out')] = [(w', last), (r', last')] :=
    List.append_cancel_left (hreturned.symm.trans hreturned')
  injection hsame with _ hsecond
  injection hsecond with hpair _
  injection hpair with hvalue _
  rw [hvalue]

section Calls

variable (hins : Executes ins) (hs : s.Between)
variable (hcalls : s.calls = .write blksel addr m v :: .read blksel addr m data :: rest)
include hins hs hcalls

/-- The bytes come back in reverse order. -/
theorem exchanges_of_ready (hready : IssuedReady ins s) :
    Exchanges ins s m.bytes (received m v) := by
  obtain ⟨t, hphase, hfirst, haccess, hidle⟩ := hready
  have hvalid : (SpiCall.write blksel addr m v).frame.Valid := SpiCall.valid_frame (by decide)
  have hvalid' : (SpiCall.read blksel addr m data).frame.Valid := SpiCall.valid_frame (by decide)
  have hissue := storing_of_issue (g := s.progress) hins hcalls hs.storing hphase hfirst
  obtain ⟨k, w, -, hwritten⟩ := issue_returns hins hcalls hs.clocked hvalid hissue haccess hidle
  have hnext : ((s.progress.sent (SpiCall.write blksel addr m v).frame).next w).calls =
      .read blksel addr m data :: rest := congrArg List.tail hcalls
  obtain ⟨n, r, hreceives, hread⟩ := call_returns hins hnext rfl hvalid' hwritten
  have hlast : (trace cycle ins s n).calls = s.calls.drop 2 :=
    hread.stage.calls.trans ((congrArg List.tail hnext).trans (by rw [hcalls]; rfl))
  obtain ⟨out, hout⟩ : ∃ out, out = (SpiCall.write blksel addr m v).frame.line.take
      (SpiCall.write blksel addr m v).frame.length := ⟨_, rfl⟩
  obtain ⟨out', hout'⟩ : ∃ out', out' = (SpiCall.read blksel addr m data).frame.line.take
      (SpiCall.read blksel addr m data).frame.length := ⟨_, rfl⟩
  have hreturned : (trace cycle ins s n).returned = s.returned ++ [(w, out), (r, out')] := by
    rw [hread.stage.returned, hout, hout']
    exact List.append_assoc _ _ _
  have hlength : out.length = 24 + 8 * m.bytes := hout ▸ length_sent hvalid SpiCall.bytes_frame
  have hlength' : out'.length = 24 + 8 * m.bytes := hout' ▸ length_sent hvalid' SpiCall.bytes_frame
  exact ⟨⟨n, hlast⟩, fun n' hn' => ⟨w, out, r, out',
    (returned_of_calls (hn'.trans hlast.symm)).trans hreturned, hlength, hlength',
    received_of_receives rfl hreceives⟩⟩

private theorem not_exchanges_of_lost {t : Nat} (hphase : (trace cycle ins s t).phase = .issue)
    (hfirst : (trace cycle ins s t).calls = s.calls) (haccess : (ins t).access = true)
    (hbusy : (trace cycle ins s t).unit.state ≠ .IDLE) : ¬Exchanges ins s bytes x := by
  rintro ⟨⟨n, hn⟩, hvalues⟩
  obtain ⟨w', out, r, out', hreturned, hlength, -⟩ := hvalues n hn
  have hissue := storing_of_issue (g := s.progress) hins hcalls hs.storing hphase hfirst
  obtain ⟨k, w, hpolled⟩ := lost_returns hins hcalls hissue haccess hbusy
  have hlost : (trace cycle ins s k).returned = s.returned ++ [(w, [])] := by
    rw [hpolled.stage.returned, Progress.next, show s.progress.clocked = [] from hs.clocked]
    rfl
  have hextends : (trace cycle ins s k).returned <+: (trace cycle ins s n).returned := by
    rcases Nat.le_total k n with hle | hle
    · exact returned_mono hle
    · have hbefore : (trace cycle ins s n).returned <+: (trace cycle ins s k).returned :=
        returned_mono hle
      have hlonger := hbefore.length_le
      rw [hlost, hreturned, List.length_append, List.length_append] at hlonger
      simp at hlonger
  rw [hlost, hreturned, List.prefix_append_right_inj, List.cons_prefix_cons] at hextends
  injection hextends.1 with _ hout
  rw [← hout, List.length_nil] at hlength
  omega

private theorem ready_of_exchanges (h : Exchanges ins s bytes x) : IssuedReady ins s := by
  have hstart : Storing False (.write blksel addr m v) s.progress 0 (trace cycle ins s 0) :=
    hs.storing
  obtain ⟨t, hissue, haccess⟩ := exists_issue hins hcalls hstart
  by_contra hnot
  have hbusy : (trace cycle ins s t).unit.state ≠ .IDLE := fun hidle =>
    hnot ⟨t, hissue.stage.phase, hissue.stage.calls, haccess, hidle⟩
  exact not_exchanges_of_lost hins hs hcalls hissue.stage.phase hissue.stage.calls haccess hbusy h

end Calls

def unitIn (state : W5500State) : W5500 where
  sclkReg := false
  rstnReg := true
  fdmLen := 0
  spiAddr := 0
  spiCtrl := 0
  spiData := 0
  state := state
  bootCounter := if state = .INIT then W5500.BOOT_COUNTER else 0
  sendcntMax := 0
  sendcnt := 0
  recvbits := 0

/-- `m.bytes` bytes of the gateway register (block 0, address 1) are written and read back. -/
def gateway (state : W5500State) (m : FdmMode) (v : Word) : W5500System where
  calls := [.write 0 1 m v, .read 0 1 m 0]
  phase := .setaddr
  clocked := []
  returned := []
  unit := unitIn state
  chip := { mem := fun _ _ => 0, frame := [], miso := false }

def steady (_ : Nat) : SpiIn := ⟨false, true, true⟩

private theorem executes_steady : Executes steady := ⟨fun _ => rfl, fun t => ⟨t, le_rfl, rfl⟩⟩

private theorem between_gateway (state : W5500State) (hstate : state ≠ .XFER) (m : FdmMode)
    (v : Word) :
    (gateway state m v).Between := ⟨rfl, rfl, rfl, ⟨hstate, rfl⟩⟩

private theorem ready_gateway : IssuedReady steady (gateway .IDLE .W5_FDM4 0x0163a8c0) :=
  ⟨4, rfl, rfl, rfl, by decide⟩

end W5500System

end PComputer.PseudOS
