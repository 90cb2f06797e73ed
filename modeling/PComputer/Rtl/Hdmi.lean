import PComputer.Foundation.ClockEdges
import PComputer.Rtl.TmdsEncoder

/-!
# `hdmi_fpga4fun` of `hdmi.v`

The pixel clock moves the counters and the encoders, the link clock is ten times as fast
and shifts the words out.  Where the counter of the link stands within a pixel is left to
the clocks; each word goes over the wires once, and whole.
-/

namespace PComputer.Rtl

open PComputer.Foundation

structure Channels (α : Type) where
  red : α
  green : α
  blue : α

namespace Channels

variable {α β γ : Type}

def map (f : α → β) (c : Channels α) : Channels β where
  red := f c.red
  green := f c.green
  blue := f c.blue

def zip (f : α → β → γ) (c : Channels α) (d : Channels β) : Channels γ where
  red := f c.red d.red
  green := f c.green d.green
  blue := f c.blue d.blue

end Channels

/-! ## The domain of the pixel clock -/

structure HdmiPix where
  counterX : BitVec 10
  counterY : BitVec 10
  encode : Channels TmdsEncoder

namespace HdmiPix

variable (rgb : BitVec 24) (p : HdmiPix)

def hSync : Bool := p.counterX ≥ 656 && p.counterX < 752

def vSync : Bool := p.counterY ≥ 490 && p.counterY < 492

def drawArea : Bool := p.counterX < 640 && p.counterY < 480

/-- What the encoders are given, the syncs going with the blue one. -/
def encoderIn : Channels TmdsIn where
  red := { vd := rgb.extractLsb' 16 8, cd := 0, vde := p.drawArea }
  green := { vd := rgb.extractLsb' 8 8, cd := 0, vde := p.drawArea }
  blue :=
    { vd := rgb.extractLsb' 0 8, cd := BitVec.ofBool p.vSync ++ BitVec.ofBool p.hSync
      vde := p.drawArea }

def cycle : HdmiPix where
  counterX := if p.counterX = 799 then 0 else p.counterX + 1
  counterY :=
    if p.counterX = 799 then if p.counterY = 524 then 0 else p.counterY + 1 else p.counterY
  encode := (p.encoderIn rgb).zip TmdsEncoder.cycle p.encode

def words : Channels (BitVec 10) := p.encode.map TmdsEncoder.tmds

def symbols : Channels TmdsSymbol := (p.encoderIn rgb).map TmdsIn.symbol

private theorem received_words_cycle :
    (p.cycle rgb).words.map TmdsEncoder.received = p.symbols rgb := by
  simp [words, symbols, cycle, Channels.map, Channels.zip, TmdsEncoder.received_cycle]

end HdmiPix

/-! ## The raster -/

/-- The symbols for the place `x`, `y` of a picture of 640 by 480 in a raster of 800 by
525, with the colour `rgb` there. -/
def rasterSymbols (x y : Nat) (rgb : BitVec 24) : Channels TmdsSymbol :=
  if x < 640 ∧ y < 480 then
    { red := .data (rgb.extractLsb' 16 8), green := .data (rgb.extractLsb' 8 8)
      blue := .data (rgb.extractLsb' 0 8) }
  else
    { red := .control 0, green := .control 0
      blue := .control (BitVec.ofBool (490 ≤ y ∧ y < 492) ++ BitVec.ofBool (656 ≤ x ∧ x < 752)) }

/-- Outside the picture the colour is not asked for. -/
theorem rasterSymbols_congr {x y : Nat} {c d : BitVec 24} (h : x < 640 ∧ y < 480 → c = d) :
    rasterSymbols x y c = rasterSymbols x y d := by
  by_cases hdraw : x < 640 ∧ y < 480
  · rw [h hdraw]
  · simp only [rasterSymbols, if_neg hdraw]

namespace HdmiPix

variable (rgb : BitVec 24) {p : HdmiPix}

private theorem symbols_eq (p : HdmiPix) :
    p.symbols rgb = rasterSymbols p.counterX.toNat p.counterY.toNat rgb := by
  by_cases hdraw : p.counterX.toNat < 640 ∧ p.counterY.toNat < 480
  all_goals
    simp [symbols, Channels.map, encoderIn, TmdsIn.symbol, drawArea, rasterSymbols, hdraw,
      hSync, vSync, BitVec.le_def, BitVec.lt_def]

structure InRaster (p : HdmiPix) : Prop where
  x : p.counterX.toNat < 800
  y : p.counterY.toNat < 525

def place (p : HdmiPix) : Nat := 800 * p.counterY.toNat + p.counterX.toNat

theorem counterX_eq (h : p.InRaster) : p.counterX.toNat = p.place % 800 := by
  have := h.x
  unfold place
  omega

theorem counterY_eq (h : p.InRaster) : p.counterY.toNat = p.place / 800 := by
  have := h.x
  unfold place
  omega

private theorem count_to {c : BitVec 10} {m : Nat} (hm : m < 1023) (h : c.toNat ≤ m) :
    (if c = BitVec.ofNat 10 m then 0 else c + 1).toNat =
      if c.toNat = m then 0 else c.toNat + 1 := by
  have hlast : c = BitVec.ofNat 10 m ↔ c.toNat = m := by
    rw [← BitVec.toNat_inj, BitVec.toNat_ofNat, Nat.mod_eq_of_lt (by omega)]
  by_cases hc : c.toNat = m
  · rw [if_pos (hlast.mpr hc), if_pos hc]
    rfl
  · rw [if_neg (mt hlast.mp hc), if_neg hc, BitVec.toNat_add]
    exact Nat.mod_eq_of_lt (by simp; omega)

theorem InRaster.cycle (h : p.InRaster) :
    (p.cycle rgb).InRaster ∧ (p.cycle rgb).place = (p.place + 1) % 420000 := by
  have hx := h.x
  have hy := h.y
  have hline : p.counterX = 799 ↔ p.counterX.toNat = 799 := by
    rw [← BitVec.toNat_inj]
    rfl
  have hnextX : (p.cycle rgb).counterX.toNat =
      if p.counterX.toNat = 799 then 0 else p.counterX.toNat + 1 :=
    count_to (m := 799) (by omega) (by omega)
  have hcountY := count_to (c := p.counterY) (m := 524) (by omega) (by omega)
  have hnextY : (p.cycle rgb).counterY.toNat =
      if p.counterX.toNat = 799 then if p.counterY.toNat = 524 then 0 else p.counterY.toNat + 1
      else p.counterY.toNat := by
    by_cases hlast : p.counterX.toNat = 799
    · rw [if_pos hlast, ← hcountY]
      simp [HdmiPix.cycle, hline.mpr hlast]
    · have hmid : p.counterX ≠ 799#10 := mt hline.mp hlast
      rw [if_neg hlast]
      simp [HdmiPix.cycle, hmid]
  refine ⟨⟨?_, ?_⟩, ?_⟩
  · rw [hnextX]
    split <;> omega
  · rw [hnextY]
    grind
  · rw [place, hnextX, hnextY, place]
    grind

end HdmiPix

/-! ## The domain of the link clock -/

structure HdmiLink where
  tmdsMod10 : BitVec 4
  tmdsShiftLoad : Bool
  tmdsShift : Channels (BitVec 10)

namespace HdmiLink

variable (words : Channels (BitVec 10)) (l : HdmiLink)

def powerUp : HdmiLink where
  tmdsMod10 := 0
  tmdsShiftLoad := false
  tmdsShift := ⟨0, 0, 0⟩

def cycle : HdmiLink where
  tmdsMod10 := if l.tmdsMod10 = 9 then 0 else l.tmdsMod10 + 1
  tmdsShiftLoad := l.tmdsMod10 == 9
  tmdsShift := if l.tmdsShiftLoad then words else l.tmdsShift.map fun w : BitVec 10 => w >>> 1

def out : Channels Bool := l.tmdsShift.map (·.getLsbD 0)

end HdmiLink

/-! ## The receiver -/

namespace Channels

def collect (bits : List (Channels Bool)) : Channels (BitVec 10) where
  red := (BitVec.ofBoolListLE (bits.map red)).setWidth 10
  green := (BitVec.ofBoolListLE (bits.map green)).setWidth 10
  blue := (BitVec.ofBoolListLE (bits.map blue)).setWidth 10

private theorem collect_word (w : BitVec 10) :
    (BitVec.ofBoolListLE ((List.range 10).map w.getLsbD)).setWidth 10 = w := by
  apply BitVec.eq_of_getLsbD_eq
  intro k hk
  rw [BitVec.getLsbD_setWidth, BitVec.getLsbD_ofBoolListLE]
  simp [hk]

private theorem collect_bits (c : Channels (BitVec 10)) :
    collect ((List.range 10).map fun i => c.map (·.getLsbD i)) = c := by
  unfold collect
  congr 1
  · exact collect_word c.red
  · exact collect_word c.green
  · exact collect_word c.blue

end Channels

/-- What a receiver makes of ten bits. -/
def receivedSymbols (bits : List (Channels Bool)) : Channels TmdsSymbol :=
  (Channels.collect bits).map TmdsEncoder.received

/-! ## Both of them -/

structure HdmiIn where
  clkPix : Bool
  clkTmds : Bool
  rgb : BitVec 24

structure Hdmi where
  pix : HdmiPix
  link : HdmiLink

namespace Hdmi

def step (i : HdmiIn) (h : Hdmi) : Hdmi where
  pix := if i.clkPix then h.pix.cycle i.rgb else h.pix
  link := if i.clkTmds then h.link.cycle h.pix.words else h.link

def wires (i : HdmiIn) (h : Hdmi) : Channels Bool := (h.step i).link.out

variable {ins : Nat → HdmiIn} {h : Hdmi} {phase : Nat} {aligned : Bool} {t u n : Nat}

private theorem step_pix_of_still (i : HdmiIn) (h : Hdmi) (hclk : i.clkPix = false) :
    (h.step i).pix = h.pix := by
  simp [step, hclk]

private theorem step_link_of_still (i : HdmiIn) (h : Hdmi) (hclk : i.clkTmds = false) :
    (h.step i).link = h.link := by
  simp [step, hclk]

private theorem step_link_of_edge (i : HdmiIn) (h : Hdmi) (hclk : i.clkTmds = true) :
    (h.step i).link = h.link.cycle h.pix.words := by
  simp [step, hclk]

private theorem mod10_next (m : BitVec 4) (n : Nat) (h : m.toNat = n % 10) :
    (if m = 9 then 0 else m + 1).toNat = (n + 1) % 10 ∧ (m = 9 ↔ (n + 1) % 10 = 0) := by
  have hnine : m = 9 ↔ m.toNat = 9 := by
    rw [← BitVec.toNat_inj]
    rfl
  refine ⟨?_, hnine.trans (by omega)⟩
  split_ifs with hm
  · have := hnine.mp hm
    simp only [BitVec.ofNat_eq_ofNat, BitVec.toNat_ofNat]
    omega
  · have := mt hnine.mpr hm
    simp only [BitVec.toNat_add, BitVec.ofNat_eq_ofNat, BitVec.toNat_ofNat]
    omega

private theorem link_count (ins : Nat → HdmiIn) (hlink : h.link = .powerUp) (t : Nat) :
    (trace step ins h t).link.tmdsMod10.toNat = edges (HdmiIn.clkTmds ∘ ins) t % 10 ∧
      ((trace step ins h t).link.tmdsShiftLoad = true ↔
        0 < edges (HdmiIn.clkTmds ∘ ins) t ∧ edges (HdmiIn.clkTmds ∘ ins) t % 10 = 0) := by
  induction t with
  | zero => simp [hlink, HdmiLink.powerUp]
  | succ t ih =>
      cases hclk : (ins t).clkTmds
      · rw [trace_succ, step_link_of_still _ _ hclk, edges_of_still hclk]
        exact ih
      · obtain ⟨hcount, hload⟩ := mod10_next _ _ ih.1
        rw [trace_succ, step_link_of_edge _ _ hclk, edges_of_edge hclk]
        exact ⟨hcount, by simpa [HdmiLink.cycle] using hload⟩

/-- Between two loads the shift registers hold what is left of the words of the first. -/
theorem link_shift (hlink : h.link = .powerUp) {t q i : Nat} (hi : i < 10)
    (ht : edges (HdmiIn.clkTmds ∘ ins) t = 10 * (q + 1) + i + 1) :
    ∃ w < t, (ins w).clkTmds = true ∧ edges (HdmiIn.clkTmds ∘ ins) w = 10 * (q + 1) ∧
      (trace step ins h t).link.tmdsShift =
        (trace step ins h w).pix.words.map fun v : BitVec 10 => v >>> i := by
  induction t generalizing i with
  | zero => simp at ht
  | succ t ih =>
      cases hclk : (ins t).clkTmds
      · rw [edges_of_still hclk] at ht
        obtain ⟨w, hw, hshift⟩ := ih hi ht
        rw [trace_succ, step_link_of_still _ _ hclk]
        exact ⟨w, by omega, hshift⟩
      · rw [edges_of_edge hclk, Nat.add_right_cancel_iff] at ht
        have hload := (link_count ins hlink t).2
        rw [trace_succ, step_link_of_edge _ _ hclk]
        cases i with
        | zero =>
            refine ⟨t, by omega, hclk, ht, ?_⟩
            rw [HdmiLink.cycle, if_pos (hload.mpr (by omega))]
            simp [Channels.map]
        | succ i =>
            obtain ⟨w, hw, hedge, hcount, hshift⟩ := ih (by omega) ht
            refine ⟨w, by omega, hedge, hcount, ?_⟩
            rw [HdmiLink.cycle, if_neg (mt hload.mp (by omega)), hshift]
            simp [Channels.map, BitVec.shiftRight_add]

/-! ## The counters of the picture -/

theorem place_trace (ins : Nat → HdmiIn) (hraster : h.pix.InRaster) (t : Nat) :
    (trace step ins h t).pix.InRaster ∧ (trace step ins h t).pix.place =
      (h.pix.place + edges (HdmiIn.clkPix ∘ ins) t) % 420000 := by
  induction t with
  | zero =>
      have hx := hraster.x
      have hy := hraster.y
      refine ⟨hraster, ?_⟩
      rw [trace_zero, edges_zero, HdmiPix.place]
      omega
  | succ t ih =>
      cases hclk : (ins t).clkPix
      · rw [trace_succ, step_pix_of_still _ _ hclk, edges_of_still hclk]
        exact ih
      · have hpix : (trace step ins h (t + 1)).pix =
            (trace step ins h t).pix.cycle (ins t).rgb := by
          simp [trace_succ, step, hclk]
        obtain ⟨hin, hplace⟩ := ih.1.cycle (ins t).rgb
        rw [hpix, hplace, ih.2, edges_of_edge hclk]
        exact ⟨hin, by omega⟩

/-! ## What the receiver gets -/

def lag (phase : Nat) (aligned : Bool) : Nat := (phase + aligned.toNat + 9) / 10

variable (hlocked : Locked (HdmiIn.clkPix ∘ ins) (HdmiIn.clkTmds ∘ ins) 10 phase aligned)
  (hlink : h.link = .powerUp) (hu : (ins u).clkPix = true)
  (hn : edges (HdmiIn.clkPix ∘ ins) u = n + 1)

include hlocked hlink hu hn

private theorem bit_of_pixel {t i : Nat} (hi : i < 10) (ht : (ins t).clkTmds = true)
    (hcount : edges (HdmiIn.clkTmds ∘ ins) t = 10 * (n + 1 + lag phase aligned) + i) :
    wires (ins t) (trace step ins h t) =
      ((trace step ins h u).pix.cycle (ins u).rgb).words.map (·.getLsbD i) := by
  have hnext : edges (HdmiIn.clkTmds ∘ ins) (t + 1) =
      10 * (n + lag phase aligned + 1) + i + 1 := by
    rw [edges_of_edge ht, hcount]
    omega
  obtain ⟨w, -, hw, hload, hshift⟩ := link_shift hlink hi hnext
  have hslow : edges (HdmiIn.clkPix ∘ ins) w = n + 1 + 1 := by
    unfold lag at hload
    exact hlocked.edges_slow hw (by omega) (by omega)
  have hafter : edges (HdmiIn.clkPix ∘ ins) (u + 1) = n + 1 + 1 := by
    rw [edges_of_edge hu, hn]
  have hlt : edges (HdmiIn.clkPix ∘ ins) u < edges (HdmiIn.clkPix ∘ ins) w := by omega
  have hsame : (trace step ins h w).pix = (trace step ins h (u + 1)).pix :=
    trace_of_edges_eq step_pix_of_still (lt_of_edges_lt hlt) (hafter.trans hslow.symm)
  have hpix : (trace step ins h (u + 1)).pix = (trace step ins h u).pix.cycle (ins u).rgb := by
    simp [trace_succ, step, hu]
  rw [hsame, hpix] at hshift
  have hwires : wires (ins t) (trace step ins h t) = (trace step ins h (t + 1)).link.out := rfl
  rw [hwires, HdmiLink.out, hshift]
  simp [Channels.map]

private theorem bits_of_pixel {t : Nat}
    (ht : 10 * (n + 1 + lag phase aligned) + 10 ≤ edges (HdmiIn.clkTmds ∘ ins) t) :
    ((logged step (onEdges HdmiIn.clkTmds wires) ins h t).drop
        (10 * (n + 1 + lag phase aligned))).take 10 =
      (List.range 10).map fun i =>
        ((trace step ins h u).pix.cycle (ins u).rgb).words.map (·.getLsbD i) := by
  apply List.ext_getElem?
  intro i
  by_cases hi : i < 10
  · obtain ⟨v, hvt, hv, hcount⟩ := exists_edge
      (show 10 * (n + 1 + lag phase aligned) + i < edges (HdmiIn.clkTmds ∘ ins) t by omega)
    rw [List.getElem?_take_of_lt hi, List.getElem?_drop, ← hcount,
      getElem?_logged_onEdges hvt hv, bit_of_pixel hlocked hlink hu hn hi hv hcount]
    simp [hi]
  · simp [hi]

/-- The receiver gets each pixel after the first, in the order of the raster. -/
theorem received_pixel (hraster : h.pix.InRaster) {t x y : Nat}
    (hx : x = (h.pix.place + (n + 1)) % 420000 % 800)
    (hy : y = (h.pix.place + (n + 1)) % 420000 / 800)
    (ht : 10 * (n + 1 + lag phase aligned) + 10 ≤ edges (HdmiIn.clkTmds ∘ ins) t) :
    receivedSymbols (((logged step (onEdges HdmiIn.clkTmds wires) ins h t).drop
        (10 * (n + 1 + lag phase aligned))).take 10) = rasterSymbols x y (ins u).rgb := by
  obtain ⟨hin, hplace⟩ := place_trace ins hraster u
  rw [bits_of_pixel hlocked hlink hu hn ht, receivedSymbols, Channels.collect_bits,
    HdmiPix.received_words_cycle, HdmiPix.symbols_eq, HdmiPix.counterX_eq hin,
    HdmiPix.counterY_eq hin, hplace, hn, hx, hy]

end Hdmi

end PComputer.Rtl
