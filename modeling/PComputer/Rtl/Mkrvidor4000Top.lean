import PComputer.Foundation.ByteLanes
import PComputer.Rtl.Hdmi

/-!
# `mkrvidor4000_top.sv`

The display of the computer: eighty kilobytes that the processor writes, and a picture of
320 by 240 bytes on a raster of 640 by 480.  The memory is read with a clock that is
faster than the pixels, so that its answer is there before the pixel is over.
-/

namespace PComputer.Rtl

open PComputer.Foundation

structure VideoIn where
  rst : Bool
  a : Word
  d : Word
  we : Bool

namespace VideoIn

variable (i : VideoIn)

def data : Word := byteSwap i.d

/-- A write to the upper blank addresses that set the modes. -/
def writesMode (sel : BitVec 2) : Bool := i.we && i.a.extractLsb' 17 2 == sel

end VideoIn

/-- The clocks that have an edge at an instant, the main one with what is at the port. -/
structure VideoEdges where
  clk : Option VideoIn
  clk2x : Bool
  clkPix : Bool
  clkTmds : Bool

structure Mkrvidor4000Top where
  hdmi : Hdmi
  lightMode : Bool
  monoMode : Bool
  lightModePix : Bool
  monoModePix : Bool
  pixALastSel : Bool
  pixSpoL : Word
  pixSpoH : Word
  vramLow64K : BitVec 14 → Word
  vramHigh16K : BitVec 12 → Word

/-! ## Colours -/

/-- A byte as a grey or as 3, 3 and 2 bits of red, green and blue. -/
def palette (light mono : Bool) (pix : BitVec 8) : BitVec 24 :=
  let r := pix.extractLsb' 5 3
  let g := pix.extractLsb' 2 3
  let b := pix.extractLsb' 0 2
  let rPadding : BitVec 5 := if light then if r = 0 then 0 else 1 else if r = 7 then 1 else 0
  let gPadding : BitVec 5 := if light then if g = 0 then 0 else 1 else if g = 7 then 1 else 0
  let bPadding : BitVec 6 := if light then if b = 0 then 0 else 1 else if b = 3 then 1 else 0
  if mono then pix ++ pix ++ pix else r ++ rPadding ++ (g ++ gPadding) ++ (b ++ bPadding)

namespace Mkrvidor4000Top

section Pixel

variable (m : Mkrvidor4000Top)

def pixAPix : BitVec 17 :=
  let cx := m.hdmi.pix.counterX.toNat
  let cy := m.hdmi.pix.counterY.toNat
  BitVec.ofNat 17 (cx / 2 + cy / 2 * 512 / 2 + cy / 2 * 128 / 2)

def pixAVram : BitVec 15 := m.pixAPix.extractLsb' 2 15

def pixData : Word := if m.pixALastSel then m.pixSpoH else m.pixSpoL

def pixCurr : BitVec 8 := lane m.pixData (m.pixAPix.extractLsb' 0 2)

def rgb : BitVec 24 := palette m.lightModePix m.monoModePix m.pixCurr

end Pixel

def modeAfter (mode : Bool) (sel : BitVec 2) (i : VideoIn) : Bool :=
  if i.rst then false else if i.writesMode sel then i.data.getLsbD 0 else mode

def hdmiIn (i : VideoEdges) (m : Mkrvidor4000Top) : HdmiIn where
  clkPix := i.clkPix
  clkTmds := i.clkTmds
  rgb := m.rgb

def step (i : VideoEdges) (m : Mkrvidor4000Top) : Mkrvidor4000Top where
  hdmi := m.hdmi.step (hdmiIn i m)
  lightMode := i.clk.elim m.lightMode (modeAfter m.lightMode 1)
  monoMode := i.clk.elim m.monoMode (modeAfter m.monoMode 2)
  lightModePix := if i.clkPix then m.lightMode else m.lightModePix
  monoModePix := if i.clkPix then m.monoMode else m.monoModePix
  pixALastSel := if i.clk2x then m.pixAVram.getLsbD 14 else m.pixALastSel
  pixSpoL := if i.clk2x then m.vramLow64K (m.pixAVram.extractLsb' 0 14) else m.pixSpoL
  pixSpoH := if i.clk2x then m.vramHigh16K (m.pixAVram.extractLsb' 0 12) else m.pixSpoH
  vramLow64K :=
    i.clk.elim m.vramLow64K fun p =>
      if p.we && !p.a.getLsbD 16 then Function.update m.vramLow64K (p.a.extractLsb' 2 14) p.data
      else m.vramLow64K
  vramHigh16K :=
    i.clk.elim m.vramHigh16K fun p =>
      if p.we && p.a.getLsbD 16 then Function.update m.vramHigh16K (p.a.extractLsb' 2 12) p.data
      else m.vramHigh16K

def wires (i : VideoEdges) (m : Mkrvidor4000Top) : Channels Bool := (m.step i).hdmi.link.out

/-! ## The memory as bytes -/

def screenByte (m : Mkrvidor4000Top) (k : Nat) : BitVec 8 :=
  lane
    (if k < 65536 then m.vramLow64K (BitVec.ofNat 14 (k / 4))
      else m.vramHigh16K (BitVec.ofNat 12 (k / 4)))
    (BitVec.ofNat 2 k)

end Mkrvidor4000Top

def videoPlace (a : Word) : Nat := if a.getLsbD 16 then 65536 + a.toNat % 16384 else a.toNat % 65536

def screenAfter (i : VideoEdges) (f : Nat → BitVec 8) : Nat → BitVec 8 :=
  i.clk.elim f fun p k =>
    if p.we ∧ k / 4 = videoPlace p.a / 4 then lane p.data (BitVec.ofNat 2 k) else f k

namespace Mkrvidor4000Top

private theorem low_index {a : Word} {k : Nat} (hk : k < 65536) :
    BitVec.ofNat 14 (k / 4) = a.extractLsb' 2 14 ↔ k / 4 = a.toNat % 65536 / 4 := by
  rw [← BitVec.toNat_inj, BitVec.toNat_ofNat, BitVec.extractLsb'_toNat,
    Nat.shiftRight_eq_div_pow]
  omega

private theorem high_index {a : Word} {k : Nat} (hlow : 65536 ≤ k) (hk : k < 81920) :
    BitVec.ofNat 12 (k / 4) = a.extractLsb' 2 12 ↔ k / 4 = (65536 + a.toNat % 16384) / 4 := by
  rw [← BitVec.toNat_inj, BitVec.toNat_ofNat, BitVec.extractLsb'_toNat,
    Nat.shiftRight_eq_div_pow]
  omega

private theorem screenByte_step (i : VideoEdges) (m : Mkrvidor4000Top) {k : Nat} (hk : k < 81920) :
    (m.step i).screenByte k = screenAfter i m.screenByte k := by
  cases hclk : i.clk with
  | none => simp [step, screenByte, screenAfter, hclk]
  | some p =>
      cases hwe : p.we
      · simp [step, screenByte, screenAfter, hclk, hwe]
      · simp only [step, screenByte, screenAfter, hclk, Option.elim_some, ite_apply,
          Function.update_apply, hwe, Bool.true_and, true_and, Bool.not_eq_true', videoPlace]
        by_cases hlow : k < 65536
        · simp only [if_pos hlow, low_index hlow]
          cases hsel : p.a.getLsbD 16
          · simp [apply_ite lane, ite_apply]
          · have hne : k / 4 ≠ (65536 + p.a.toNat % 16384) / 4 := by omega
            simp [hne]
        · simp only [if_neg hlow, high_index (Nat.not_lt.mp hlow) hk]
          cases hsel : p.a.getLsbD 16
          · have hne : k / 4 ≠ p.a.toNat % 65536 / 4 := by omega
            simp [hne]
          · simp [apply_ite lane, ite_apply]

/-! ## The pixel that is read -/

def pictureByte (x y : Nat) : Nat := x / 2 + 320 * (y / 2)

private theorem toNat_pixAPix {m : Mkrvidor4000Top} {x y : Nat} (hx : m.hdmi.pix.counterX.toNat = x)
    (hy : m.hdmi.pix.counterY.toNat = y) (hdraw : x < 640 ∧ y < 480) :
    m.pixAPix.toNat = pictureByte x y := by
  simp only [pixAPix, hx, hy, pictureByte, BitVec.toNat_ofNat]
  omega

private theorem toNat_pixAVram (m : Mkrvidor4000Top) : m.pixAVram.toNat = m.pixAPix.toNat / 4 := by
  have := m.pixAPix.isLt
  rw [pixAVram, BitVec.extractLsb'_toNat, Nat.shiftRight_eq_div_pow]
  omega

private theorem pixAVram_sel (m : Mkrvidor4000Top) :
    m.pixAVram.getLsbD 14 = decide (65536 ≤ m.pixAPix.toNat) := by
  have hmsb := BitVec.msb_eq_decide m.pixAVram
  rw [BitVec.msb_eq_getLsbD_last, toNat_pixAVram] at hmsb
  rw [hmsb]
  exact decide_eq_decide.mpr (by omega)

def spo (m : Mkrvidor4000Top) : Bool × Word × Word := (m.pixALastSel, m.pixSpoL, m.pixSpoH)

private theorem spo_step_of_still (i : VideoEdges) (m : Mkrvidor4000Top) (hclk : i.clk2x = false) :
    (m.step i).spo = m.spo := by
  simp [step, spo, hclk]

def pix (m : Mkrvidor4000Top) : HdmiPix × Bool × Bool :=
  (m.hdmi.pix, m.lightModePix, m.monoModePix)

private theorem pix_step_of_still (i : VideoEdges) (m : Mkrvidor4000Top) (hclk : i.clkPix = false) :
    (m.step i).pix = m.pix := by
  simp [step, pix, Hdmi.step, hdmiIn, hclk]

private theorem pixCurr_of_read {i : VideoEdges} {m m' : Mkrvidor4000Top} {x y : Nat}
    (hclk : i.clk2x = true) (hspo : m'.spo = (m.step i).spo) (hpix : m'.hdmi.pix = m.hdmi.pix)
    (hx : m.hdmi.pix.counterX.toNat = x) (hy : m.hdmi.pix.counterY.toNat = y)
    (hdraw : x < 640 ∧ y < 480) : m'.pixCurr = m.screenByte (pictureByte x y) := by
  have hplace := toNat_pixAPix hx hy hdraw
  have hsame : m'.pixAPix = m.pixAPix := by rw [pixAPix, pixAPix, hpix]
  have hbyte : m.pixAPix.extractLsb' 0 2 = BitVec.ofNat 2 (pictureByte x y) := by
    apply BitVec.eq_of_toNat_eq
    simp [hplace]
  have hlow : m.pixAVram.extractLsb' 0 14 = BitVec.ofNat 14 (pictureByte x y / 4) := by
    apply BitVec.eq_of_toNat_eq
    simp [toNat_pixAVram, hplace]
  have hhigh : m.pixAVram.extractLsb' 0 12 = BitVec.ofNat 12 (pictureByte x y / 4) := by
    apply BitVec.eq_of_toNat_eq
    simp [toNat_pixAVram, hplace]
  simp only [spo, step, hclk, if_true, Prod.mk.injEq] at hspo
  obtain ⟨hsel, hspoL, hspoH⟩ := hspo
  rw [pixCurr, pixData, hsame, hbyte, hsel, hspoL, hspoH, hlow, hhigh, pixAVram_sel, hplace,
    screenByte]
  by_cases hhalf : pictureByte x y < 65536
  · simp [hhalf, Nat.not_le.mpr hhalf]
  · simp [hhalf, Nat.not_lt.mp hhalf]

/-! ## Runs -/

variable {ins : Nat → VideoEdges} {m : Mkrvidor4000Top}

def hdmiIns (ins : Nat → VideoEdges) (m : Mkrvidor4000Top) (t : Nat) : HdmiIn :=
  hdmiIn (ins t) (trace step ins m t)

private theorem trace_hdmi (t : Nat) :
    (trace step ins m t).hdmi = trace Hdmi.step (hdmiIns ins m) m.hdmi t := by
  induction t with
  | zero => rfl
  | succ t ih => rw [trace_succ, trace_succ, ← ih]; rfl

private theorem logged_wires (t : Nat) :
    logged step (onEdges VideoEdges.clkTmds wires) ins m t =
      logged Hdmi.step (onEdges HdmiIn.clkTmds Hdmi.wires) (hdmiIns ins m) m.hdmi t := by
  induction t with
  | zero => rfl
  | succ t ih => rw [logged_succ, logged_succ, ← ih, ← trace_hdmi]; rfl

theorem place_trace (ins : Nat → VideoEdges) (hraster : m.hdmi.pix.InRaster) (t : Nat) :
    (trace step ins m t).hdmi.pix.InRaster ∧ (trace step ins m t).hdmi.pix.place =
      (m.hdmi.pix.place + edges (VideoEdges.clkPix ∘ ins) t) % 420000 := by
  rw [trace_hdmi]
  exact Hdmi.place_trace _ hraster t

private theorem screenByte_trace {k : Nat} (hk : k < 81920) (t : Nat) :
    (trace step ins m t).screenByte k = trace screenAfter ins m.screenByte t k := by
  induction t with
  | zero => rfl
  | succ t ih =>
      rw [trace_succ, trace_succ, screenByte_step _ _ hk, screenAfter, screenAfter]
      cases (ins t).clk with
      | none => exact ih
      | some p => simp only [Option.elim_some, ih]

/-- The colour that goes out at an edge of the pixel clock is that of a byte which the
memory held since the edge before. -/
theorem rgb_of_pixel {w u v x y : Nat} (hw : (ins w).clkPix = true) (hwv : w < v) (hvu : v < u)
    (hstill : edges (VideoEdges.clkPix ∘ ins) (w + 1) = edges (VideoEdges.clkPix ∘ ins) u)
    (hv : (ins v).clk2x = true)
    (hlast : edges (VideoEdges.clk2x ∘ ins) (v + 1) = edges (VideoEdges.clk2x ∘ ins) u)
    (hx : (trace step ins m u).hdmi.pix.counterX.toNat = x)
    (hy : (trace step ins m u).hdmi.pix.counterY.toNat = y) (hdraw : x < 640 ∧ y < 480) :
    (trace step ins m u).rgb =
      palette (trace step ins m w).lightMode (trace step ins m w).monoMode
        ((trace step ins m v).screenByte (pictureByte x y)) := by
  have hbefore := edges_mono (VideoEdges.clkPix ∘ ins) (show w + 1 ≤ v from hwv)
  have hafter := edges_mono (VideoEdges.clkPix ∘ ins) hvu.le
  have hsame : edges (VideoEdges.clkPix ∘ ins) v = edges (VideoEdges.clkPix ∘ ins) u := by omega
  have hfromW := trace_of_edges_eq (s := m) pix_step_of_still (show w + 1 ≤ u by omega) hstill
  have hfromV := trace_of_edges_eq (s := m) pix_step_of_still hvu.le hsame
  have hspo := trace_of_edges_eq (s := m) spo_step_of_still (show v + 1 ≤ u by omega) hlast
  simp only [pix, Prod.mk.injEq] at hfromW hfromV
  rw [hfromV.1] at hx hy
  have hcurr := pixCurr_of_read hv hspo hfromV.1 hx hy hdraw
  have hlight : (trace step ins m (w + 1)).lightModePix = (trace step ins m w).lightMode := by
    simp [trace_succ, step, hw]
  have hmono : (trace step ins m (w + 1)).monoModePix = (trace step ins m w).monoMode := by
    simp [trace_succ, step, hw]
  rw [rgb, hcurr, hfromW.2.1, hfromW.2.2, hlight, hmono]

/-- From power-up on, the receiver gets the raster pixel by pixel, and each pixel shows the
byte of the picture that the processor's writes had left in the memory at some instant
since the pixel before. -/
theorem shows_picture {phase : Nat} {aligned : Bool}
    (hlocked : Locked (VideoEdges.clkPix ∘ ins) (VideoEdges.clkTmds ∘ ins) 10 phase aligned)
    (hmem : ∀ w u, w < u → (ins w).clkPix = true → (ins u).clkPix = true →
      ∃ v, w < v ∧ v < u ∧ (ins v).clk2x = true)
    (hlink : m.hdmi.link = .powerUp) (hraster : m.hdmi.pix.InRaster) (n : Nat) {x y : Nat}
    (hx : x = (m.hdmi.pix.place + (n + 1)) % 420000 % 800)
    (hy : y = (m.hdmi.pix.place + (n + 1)) % 420000 / 800) :
    ∃ w v, w < v ∧ edges (VideoEdges.clkPix ∘ ins) w = n ∧
      edges (VideoEdges.clkPix ∘ ins) v = n + 1 ∧
      ∀ t, 10 * (n + 1 + Hdmi.lag phase aligned) + 10 ≤ edges (VideoEdges.clkTmds ∘ ins) t →
        receivedSymbols (((logged step (onEdges VideoEdges.clkTmds wires) ins m t).drop
            (10 * (n + 1 + Hdmi.lag phase aligned))).take 10) =
          rasterSymbols x y
            (palette (trace step ins m w).lightMode (trace step ins m w).monoMode
              (trace screenAfter ins m.screenByte v (pictureByte x y))) := by
  obtain ⟨u, hu, hcount⟩ := hlocked.exists_nth (n + 1)
  obtain ⟨w, hwu, hw, hbefore⟩ := exists_edge
    (show n < edges (VideoEdges.clkPix ∘ ins) u by omega)
  obtain ⟨v₀, hwv₀, hv₀u, hv₀⟩ := hmem w u hwu hw hu
  have hedge : (VideoEdges.clk2x ∘ ins) v₀ = true := hv₀
  obtain ⟨v, hv₀v, hvu, hv, hlast⟩ := exists_last_edge hv₀u hedge
  have hwv : w < v := by omega
  have hstill : edges (VideoEdges.clkPix ∘ ins) (w + 1) = edges (VideoEdges.clkPix ∘ ins) u := by
    rw [edges_of_edge hw, hbefore, hcount]
  have hvlow := edges_mono (VideoEdges.clkPix ∘ ins) (show w + 1 ≤ v from hwv)
  have hvhigh := edges_mono (VideoEdges.clkPix ∘ ins) hvu.le
  refine ⟨w, v, hwv, hbefore, by omega, fun t ht => ?_⟩
  obtain ⟨hin, hplace⟩ := place_trace ins hraster u
  have hxu : (trace step ins m u).hdmi.pix.counterX.toNat = x := by
    rw [HdmiPix.counterX_eq hin, hplace, hx, hcount]
  have hyu : (trace step ins m u).hdmi.pix.counterY.toNat = y := by
    rw [HdmiPix.counterY_eq hin, hplace, hy, hcount]
  have hclocks : Locked (HdmiIn.clkPix ∘ hdmiIns ins m) (HdmiIn.clkTmds ∘ hdmiIns ins m) 10 phase
      aligned := hlocked
  rw [logged_wires, Hdmi.received_pixel hclocks hlink hu hcount hraster hx hy ht]
  refine rasterSymbols_congr fun hdraw => ?_
  have hrgb := rgb_of_pixel (m := m) hw hwv hvu hstill hv hlast hxu hyu hdraw
  have hbyte : pictureByte x y < 81920 := by
    unfold pictureByte
    omega
  rw [← screenByte_trace hbyte]
  exact hrgb

/-! ## A display with its clocks in step -/

def writeFirst (t : Nat) : VideoEdges where
  clk := if t = 0 then some ⟨false, 0, 0xe0555555, true⟩ else none
  clk2x := true
  clkPix := divided 10 t
  clkTmds := true

def striped : Mkrvidor4000Top where
  hdmi :=
    { pix := { counterX := 0, counterY := 0, encode := ⟨.powerUp, .powerUp, .powerUp⟩ }
      link := .powerUp }
  lightMode := false
  monoMode := false
  lightModePix := false
  monoModePix := false
  pixALastSel := false
  pixSpoL := 0
  pixSpoH := 0
  vramLow64K := fun _ => 0x0f0f0f0f
  vramHigh16K := fun _ => 0x0f0f0f0f

private theorem modes_writeFirst (t : Nat) : (trace step writeFirst striped t).lightMode = false ∧
    (trace step writeFirst striped t).monoMode = false := by
  induction t with
  | zero => exact ⟨rfl, rfl⟩
  | succ t ih =>
      simp only [trace_succ, step, writeFirst, ih]
      by_cases ht : t = 0 <;> simp [ht, modeAfter, VideoIn.writesMode]

private theorem screen_writeFirst {t : Nat} (ht : 0 < t) :
    trace screenAfter writeFirst striped.screenByte t 0 = 0xe0 := by
  induction t, ht using Nat.le_induction with
  | base => rfl
  | succ t ht ih => simpa [trace_succ, screenAfter, writeFirst, Nat.ne_of_gt ht] using ih

/-- The second pixel of the picture has the colour that was written. -/
theorem shows_picture_written :
    receivedSymbols (((logged step (onEdges VideoEdges.clkTmds wires) writeFirst striped 30).drop
        20).take 10) = rasterSymbols 1 0 (palette false false 0xe0) := by
  have hlocked : Locked (VideoEdges.clkPix ∘ writeFirst) (VideoEdges.clkTmds ∘ writeFirst) 10
      0 true := locked_divided (show 0 < 10 by omega)
  have hmem (w u : Nat) (hwu : w < u) (hw : (writeFirst w).clkPix = true)
      (hu : (writeFirst u).clkPix = true) : ∃ v, w < v ∧ v < u ∧ (writeFirst v).clk2x = true := by
    have hw10 : w % 10 = 0 := by simpa [writeFirst, divided] using hw
    have hu10 : u % 10 = 0 := by simpa [writeFirst, divided] using hu
    exact ⟨w + 1, by omega, by omega, rfl⟩
  obtain ⟨w, v, hwv, -, -, hshown⟩ := shows_picture (m := striped) (x := 1) (y := 0) hlocked hmem
    rfl ⟨by decide, by decide⟩ 0 rfl rfl
  obtain ⟨hlight, hmono⟩ := modes_writeFirst w
  have hbyte : trace screenAfter writeFirst striped.screenByte v (pictureByte 1 0) = 0xe0 :=
    screen_writeFirst (by omega)
  rw [hlight, hmono, hbyte] at hshown
  exact hshown 30 (edges_always 30).ge

end Mkrvidor4000Top

end PComputer.Rtl
