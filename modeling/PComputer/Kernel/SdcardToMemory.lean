import Mathlib.Logic.Function.Iterate
import PComputer.Kernel.SeekAndRead

/-!
# `sdcard_to_memory`

The function counts `curr_offset` in bytes at first and in words after that, and waits
only behind a load: after a write-back its `ioctl` and its load come while the card is
busy, and `sdcard.v` ignores them.
-/

namespace PComputer.PseudOS

open PComputer.Foundation

def Disk.word (disk : Disk) (p : Nat) : Word :=
  disk.byte (p + 3) ++ disk.byte (p + 2) ++ disk.byte (p + 1) ++ disk.byte p

private theorem Disk.word_eq (disk : Disk) {p : Nat} (hp : p % 4 = 0) :
    disk.word p = disk (p / 0x200) (p % 0x200 / 4) := by
  have hbyte {k : Nat} (hk : k < 4) :
      disk.byte (p + k) = (disk (p / 0x200) (p % 0x200 / 4)).extractLsb' (8 * k) 8 := by
    have hsector : (p + k) / 0x200 = p / 0x200 := by omega
    have hword : (p + k) % 0x200 / 4 = p % 0x200 / 4 := by omega
    have hlane : (p + k) % 4 = k := by omega
    unfold Disk.byte
    rw [hsector, hword, hlane]
  have hfirst : disk.byte p = (disk (p / 0x200) (p % 0x200 / 4)).extractLsb' 0 8 :=
    hbyte (by decide : 0 < 4)
  unfold Disk.word
  rw [hbyte (by decide : 3 < 4), hbyte (by decide : 2 < 4), hbyte (by decide : 1 < 4), hfirst]
  generalize disk (p / 0x200) (p % 0x200 / 4) = w
  ext i hi
  simp only [BitVec.getElem_append, BitVec.getElem_extractLsb']
  rw [← BitVec.getLsbD_eq_getElem hi]
  split_ifs <;> congr 1 <;> omega

namespace Blk

/-! ## The code -/

/-- `sd_blk_ioctl`: the address register is written at once, or not at all. -/
def sdBlkIoctl (b : Blk) (sec : Nat) : Blk :=
  if b.isready then { b with sector := sec } else b

/-- `cache[i]`; behind the block cache, which shows eight times, come other registers. -/
def cacheAt (b : Blk) (junk : Nat → Word) (i : Nat) : Word :=
  if i < 0x400 then b.cache (i % 0x80) else junk i

structure Over where
  writeback : Bool
  ioctl : Bool
  load : Bool
  deriving DecidableEq, Repr

structure Copy where
  mem : List Word
  currOffset : Word
  currSec : Word
  blk : Blk

/-- `while (!isready)` waits for the end of the load. -/
def copyWord (junk : Nat → Word) (s : Copy) : Copy :=
  let mem := s.mem ++ [s.blk.cacheAt junk s.currOffset.toNat]
  let currOffset := s.currOffset + 1
  if currOffset = 0x200 / 4 then
    let currSec := s.currSec + 1
    { mem := mem, currOffset := 0, currSec := currSec
      blk := (s.blk.sdBlkIoctl currSec.toNat).load.finish }
  else { mem := mem, currOffset := currOffset, currSec := s.currSec, blk := s.blk }

section Code

variable (ended : Over) (junk : Nat → Word)

def tested (b : Blk) : Blk := if b.isdirty then (b.wait ended.writeback).writeback else b

/-- The `ioctl` and the load of the first sector. -/
def loadFirst (b : Blk) (sec : Nat) : Blk :=
  (((b.wait ended.ioctl).sdBlkIoctl sec).wait ended.load).load.finish

/-- The words at `mem_start` and the card after the call; `sd_start` is an `int`. -/
def sdcardToMemory (sdStart size : Word) (b : Blk) : List Word × Blk :=
  let b := b.tested ended
  let currSec := sdStart.sdiv 0x200
  let currOffset := sdStart.srem 0x200
  let s := (copyWord junk)^[size.toNat] ⟨[], currOffset, currSec, b.loadFirst ended currSec.toNat⟩
  (s.mem, s.blk)

end Code

/-- Whatever the disk and the cache hold, the words are copied and a dirty cache is saved. -/
def CopiesExactly (ended : Over) (sdStart size : Word) (sector : Nat) (dirty : Bool)
    (running : Option Command) : Prop :=
  ∀ (junk : Nat → Word) (b : Blk), b.sector = sector → b.dirty = dirty → b.running = running →
    (b.sdcardToMemory ended junk sdStart size).1 =
        (List.range size.toNat).map (fun i => b.saved.word (sdStart.toNat + 4 * i)) ∧
      (b.sdcardToMemory ended junk sdStart size).2.finish.disk = b.saved

/-! ## The first sector -/

variable {b : Blk} {ended : Over} {junk : Nat → Word} {sec sector n : Nat} {dirty : Bool}
  {running : Option Command} {sdStart size : Word}

private theorem sdBlkIoctl_of_idle (h : b.running = none) :
    b.sdBlkIoctl sec = { b with sector := sec } := by
  unfold sdBlkIoctl isready
  rw [h]
  rfl

private theorem sdBlkIoctl_of_busy (h : b.running ≠ none) : b.sdBlkIoctl sec = b := by
  unfold sdBlkIoctl isready
  rw [if_neg (by simpa [Option.isNone_iff_eq_none] using h)]

private theorem finish_load (h : b.running = none) :
    b.load.finish = { b with cache := b.disk b.sector, running := none } := by
  rw [load_of_idle h]
  rfl

private theorem cache_finish (hbusy : b.running ≠ none) (hioctl : b.running ≠ some .ioctl) :
    b.finish.cache = b.finish.disk b.sector := by
  unfold finish
  split
  · next h => exact absurd h hbusy
  · next h => exact absurd h hioctl
  · rfl
  · exact (Function.update_self b.sector b.cache b.disk).symm

private theorem sector_finish (b : Blk) : b.finish.sector = b.sector := by
  unfold finish
  split <;> rfl

/-- The sector that is loaded is the old one if the card is busy at the `ioctl`. -/
theorem loadFirst_eq (ended : Over) (sec : Nat) (hioctl : b.running ≠ some .ioctl) :
    (b.loadFirst ended sec).running = none ∧ (b.loadFirst ended sec).disk = b.finish.disk ∧
      (b.loadFirst ended sec).cache =
        b.finish.disk (if ended.ioctl = true ∨ b.running = none then sec else b.sector) := by
  unfold loadFirst
  by_cases hidle : ended.ioctl = true ∨ b.running = none
  · have hwait : b.wait ended.ioctl = b.finish := by
      rcases hidle with h | h
      · rw [h]
        rfl
      · rw [wait_of_idle h, finish_of_idle h]
    have hset : ({ b.finish with sector := sec } : Blk).running = none := running_finish b
    rw [if_pos hidle, hwait, sdBlkIoctl_of_idle (running_finish b), wait_of_idle hset,
      finish_load hset]
    exact ⟨rfl, rfl, rfl⟩
  · obtain ⟨hslow, hbusy⟩ := not_or.mp hidle
    have hwait : b.wait ended.ioctl = b := by
      rw [eq_false_of_ne_true hslow]
      rfl
    rw [if_neg hidle, hwait, sdBlkIoctl_of_busy hbusy]
    cases ended.load with
    | true =>
        have hfinish : b.wait true = b.finish := rfl
        rw [hfinish, finish_load (running_finish b)]
        exact ⟨rfl, rfl, congrArg _ (sector_finish b)⟩
    | false =>
        have hsame : b.wait false = b := rfl
        rw [hsame, load_of_busy hbusy]
        exact ⟨running_finish b, rfl, cache_finish hbusy hioctl⟩

private theorem tested_eq (ended : Over) (hioctl : b.running ≠ some .ioctl) :
    (b.tested ended).finish.disk = b.saved ∧ (b.tested ended).sector = b.sector ∧
      (b.tested ended).running ≠ some .ioctl ∧
      ((b.tested ended).running = none ↔ b.running = none ∧ b.dirty = false) := by
  unfold tested isdirty saved
  cases hdirty : b.dirty with
  | false => exact ⟨rfl, rfl, hioctl, ⟨fun h => ⟨h, rfl⟩, fun h => h.1⟩⟩
  | true =>
      rw [if_pos rfl, if_pos rfl]
      by_cases hidle : (b.wait ended.writeback).running = none
      · have hfinish : b.wait ended.writeback = b.finish := by
          rw [← finish_of_idle hidle, finish_wait]
        have hready : b.finish.isready = true := by
          unfold isready
          rw [running_finish]
          rfl
        rw [hfinish]
        unfold writeback
        rw [if_pos hready]
        exact ⟨rfl, sector_finish b, nofun, ⟨nofun, fun h => nomatch h.2⟩⟩
      · have hslow : ended.writeback = false := by
          by_contra htrue
          rw [eq_true_of_ne_false htrue] at hidle
          exact hidle (running_finish b)
        have hsame : b.wait ended.writeback = b := by
          rw [hslow]
          rfl
        rw [hsame] at hidle ⊢
        rw [writeback_of_busy hidle, cache_finish hidle hioctl, sector_finish,
          Function.update_eq_self]
        exact ⟨rfl, rfl, hioctl, ⟨fun h => absurd h hidle, fun h => absurd h.1 hidle⟩⟩

/-! ## The loop -/

structure Copied (disk : Disk) (first i : Nat) (s : Copy) : Prop where
  mem : s.mem = (List.range i).map fun k => disk.word (0x200 * first + 4 * k)
  offset : s.currOffset.toNat = i % 0x80
  sec : s.currSec.toNat = first + i / 0x80
  idle : s.blk.running = none
  cache : s.blk.cache = disk (first + i / 0x80)
  disk : s.blk.disk = disk

theorem Copied.next {disk : Disk} {first i : Nat} {s : Copy} (h : Copied disk first i s)
    (hsec : first + (i + 1) / 0x80 < 2 ^ 32) : Copied disk first (i + 1) (copyWord junk s) := by
  have hoffset := h.offset
  have hword : s.blk.cacheAt junk s.currOffset.toNat = disk.word (0x200 * first + 4 * i) := by
    have hmod : (0x200 * first + 4 * i) % 4 = 0 := by omega
    have hsector : (0x200 * first + 4 * i) / 0x200 = first + i / 0x80 := by omega
    have hindex : (0x200 * first + 4 * i) % 0x200 / 4 = i % 0x80 := by omega
    unfold cacheAt
    rw [Disk.word_eq disk hmod, hsector, hindex, h.offset, if_pos (by omega), h.cache,
      Nat.mod_mod]
  have hmem : s.mem ++ [s.blk.cacheAt junk s.currOffset.toNat] =
      (List.range (i + 1)).map fun k => disk.word (0x200 * first + 4 * k) := by
    rw [List.range_succ, List.map_append, h.mem, hword]
    rfl
  have hcount : (s.currOffset + 1).toNat = i % 0x80 + 1 := by
    rw [BitVec.toNat_add, h.offset]
    exact Nat.mod_eq_of_lt (by change i % 0x80 + 1 < _; omega)
  unfold copyWord
  dsimp only
  split_ifs with hend
  · have hlast : i % 0x80 + 1 = 0x80 := by
      rw [← hcount, hend]
      rfl
    have hnext : (s.currSec + 1).toNat = first + (i + 1) / 0x80 := by
      rw [BitVec.toNat_add, h.sec]
      change (first + i / 0x80 + 1) % 2 ^ 32 = _
      omega
    have hset : ({ s.blk with sector := (s.currSec + 1).toNat } : Blk).running = none := h.idle
    rw [sdBlkIoctl_of_idle h.idle, finish_load hset]
    refine ⟨hmem, ?_, hnext, rfl, ?_, h.disk⟩
    · change 0 = _
      omega
    · change s.blk.disk (s.currSec + 1).toNat = _
      rw [h.disk, hnext]
  · have hmore : i % 0x80 + 1 ≠ 0x80 := fun hlast =>
      hend (BitVec.eq_of_toNat_eq (hcount.trans hlast))
    have hsame : (i + 1) / 0x80 = i / 0x80 := by omega
    refine ⟨hmem, ?_, ?_, h.idle, ?_, h.disk⟩
    · rw [hcount]
      omega
    · rw [hsame]
      exact h.sec
    · rw [hsame]
      exact h.cache

theorem Copied.run {disk : Disk} {first : Nat} {s : Copy} (h : Copied disk first 0 s)
    (hsec : first + n / 0x80 < 2 ^ 32) : Copied disk first n ((copyWord junk)^[n] s) := by
  induction n with
  | zero => exact h
  | succ n ih =>
      rw [Function.iterate_succ_apply']
      exact (ih (by omega)).next hsec

private theorem head_copyWord (junk : Nat → Word) (s : Copy) (n : Nat) :
    ∃ rest, ((copyWord junk)^[n + 1] s).mem =
      s.mem ++ s.blk.cacheAt junk s.currOffset.toNat :: rest := by
  have hmem (s : Copy) :
      (copyWord junk s).mem = s.mem ++ [s.blk.cacheAt junk s.currOffset.toNat] := by
    unfold copyWord
    dsimp only
    split_ifs <;> rfl
  induction n with
  | zero => exact ⟨[], hmem s⟩
  | succ n ih =>
      obtain ⟨rest, hrest⟩ := ih
      rw [Function.iterate_succ_apply', hmem, hrest, List.append_assoc]
      exact ⟨_, rfl⟩

/-! ## Calls -/

private theorem toNat_sdiv_srem (hstart : sdStart.toNat < 2 ^ 31) :
    (sdStart.sdiv 0x200).toNat = sdStart.toNat / 0x200 ∧
      (sdStart.srem 0x200).toNat = sdStart.toNat % 0x200 := by
  have hmsb : sdStart.msb = false := by
    rw [BitVec.msb_eq_false_iff_two_mul_lt]
    omega
  have hmsb' : (0x200 : Word).msb = false := rfl
  constructor
  · rw [BitVec.sdiv_eq, hmsb, hmsb']
    exact BitVec.toNat_udiv
  · rw [BitVec.srem_eq, hmsb, hmsb']
    exact BitVec.toNat_umod

private theorem sdcardToMemory_eq (b : Blk) :
    b.sdcardToMemory ended junk sdStart size =
      let s := (copyWord junk)^[size.toNat] ⟨[], sdStart.srem 0x200, sdStart.sdiv 0x200,
        (b.tested ended).loadFirst ended (sdStart.sdiv 0x200).toNat⟩
      (s.mem, s.blk) := rfl

def numbered (sector : Nat) (dirty : Bool) (running : Option Command) (disk : Disk) : Blk :=
  { obtained := true, sector := sector, disk := disk, cache := disk sector, dirty := dirty,
    running := running }

private theorem saved_numbered (disk : Disk) :
    (numbered sector dirty running disk).saved = disk := by
  have hfinish : (numbered sector dirty running disk).finish.disk = disk ∧
      (numbered sector dirty running disk).finish.cache = disk sector := by
    unfold finish numbered
    split
    · exact ⟨rfl, rfl⟩
    · exact ⟨rfl, rfl⟩
    · exact ⟨rfl, rfl⟩
    · exact ⟨Function.update_eq_self sector disk, rfl⟩
  unfold saved
  rw [hfinish.1, hfinish.2, sector_finish]
  split_ifs
  · exact Function.update_eq_self sector disk
  · rfl

section Calls

variable (hstart : sdStart.toNat < 2 ^ 31) (hioctl : running ≠ some .ioctl)

include hstart hioctl

private theorem copies_of_first
    (hfirst : size = 0 ∨ sdStart.toNat % 0x200 = 0 ∧
      (sector = sdStart.toNat / 0x200 ∨ ended.ioctl = true ∨ running = none ∧ dirty = false)) :
    CopiesExactly ended sdStart size sector dirty running := by
  rintro junk b rfl rfl rfl
  obtain ⟨hsaved, hsector, hioctl', hidle⟩ := tested_eq ended hioctl
  obtain ⟨hnone, hdisk, hcache⟩ := loadFirst_eq ended (sdStart.sdiv 0x200).toNat hioctl'
  obtain ⟨hdiv, hrem⟩ := toNat_sdiv_srem hstart
  rw [sdcardToMemory_eq]
  rcases hfirst with rfl | ⟨haligned, hfirst⟩
  · exact ⟨rfl, (congrArg Blk.disk (finish_of_idle hnone)).trans (hdisk.trans hsaved)⟩
  · have hbegin : Copied b.saved (sdStart.toNat / 0x200) 0
        ⟨[], sdStart.srem 0x200, sdStart.sdiv 0x200,
          (b.tested ended).loadFirst ended (sdStart.sdiv 0x200).toNat⟩ := by
      refine ⟨rfl, hrem.trans haligned, hdiv, hnone, ?_, hdisk.trans hsaved⟩
      rw [hcache, hsaved, hsector, hdiv]
      simp only [hidle]
      rcases hfirst with hsame | hidle
      · rw [hsame, ite_self]
        rfl
      · rw [if_pos hidle]
        rfl
    have hsize := size.isLt
    have hrun : Copied b.saved (sdStart.toNat / 0x200) size.toNat
        ((copyWord junk)^[size.toNat] _) := hbegin.run (by omega)
    refine ⟨hrun.mem.trans (List.map_congr_left fun i _ => ?_),
      (congrArg Blk.disk (finish_of_idle hrun.idle)).trans hrun.disk⟩
    have hbase : 0x200 * (sdStart.toNat / 0x200) = sdStart.toNat := by omega
    rw [hbase]

private theorem first_word (hword : sdStart.toNat % 4 = 0) (hne : size ≠ 0)
    (hexact : CopiesExactly ended sdStart size sector dirty running) (disk : Disk) :
    disk (if ended.ioctl = true ∨ running = none ∧ dirty = false then sdStart.toNat / 0x200
        else sector) (sdStart.toNat % 0x200 % 0x80) =
      disk (sdStart.toNat / 0x200) (sdStart.toNat % 0x200 / 4) := by
  have hmem := (hexact (fun _ => 0) (numbered sector dirty running disk) rfl rfl rfl).1
  obtain ⟨hsaved, hsector, hioctl', hidle⟩ :=
    tested_eq (b := numbered sector dirty running disk) ended hioctl
  obtain ⟨-, -, hcache⟩ := loadFirst_eq ended (sdStart.sdiv 0x200).toNat hioctl'
  obtain ⟨hdiv, hrem⟩ := toNat_sdiv_srem hstart
  obtain ⟨n, hn⟩ : ∃ n, size.toNat = n + 1 :=
    Nat.exists_eq_succ_of_ne_zero fun h0 => hne (BitVec.eq_of_toNat_eq h0)
  rw [sdcardToMemory_eq, saved_numbered, hn] at hmem
  obtain ⟨rest, hrest⟩ := head_copyWord (fun _ => 0) ⟨[], sdStart.srem 0x200, sdStart.sdiv 0x200,
    ((numbered sector dirty running disk).tested ended).loadFirst ended
      (sdStart.sdiv 0x200).toNat⟩ n
  dsimp only at hmem
  rw [hrest, List.range_succ_eq_map, List.map_cons] at hmem
  have hhead := (List.cons.inj hmem).1
  unfold cacheAt at hhead
  dsimp only at hhead
  rw [hrem, if_pos (by omega), hcache, hsaved, saved_numbered, hsector, hdiv,
    Disk.word_eq disk (by omega)] at hhead
  simp only [hidle] at hhead
  exact hhead

end Calls

/--
The words are copied from the first byte of a sector on, if the card is not busy with the
write-back of another sector, or with what it did before, at the first `ioctl`.
-/
theorem copies_exactly_iff (hstart : sdStart.toNat < 2 ^ 31) (hword : sdStart.toNat % 4 = 0)
    (hioctl : running ≠ some .ioctl) :
    CopiesExactly ended sdStart size sector dirty running ↔
      size = 0 ∨ sdStart.toNat % 0x200 = 0 ∧
        (sector = sdStart.toNat / 0x200 ∨ ended.ioctl = true ∨ running = none ∧ dirty = false) := by
  refine ⟨fun hexact => ?_, copies_of_first hstart hioctl⟩
  by_cases hne : size = 0
  · exact .inl hne
  · have hfirst := first_word hstart hioctl hword hne hexact
    have hsector := hfirst fun s _ => BitVec.ofNat 32 (if s = sdStart.toNat / 0x200 then 1 else 0)
    have hindex := hfirst fun _ i => BitVec.ofNat 32
        (if i = sdStart.toNat % 0x200 / 4 then 1 else 0)
    refine .inr ⟨?_, ?_⟩
    · by_contra hoffset
      rw [if_pos rfl, if_neg (by omega)] at hindex
      exact absurd hindex (by decide)
    · by_contra hbusy
      obtain ⟨hother, hbusy⟩ := not_or.mp hbusy
      rw [if_neg hbusy, if_neg hother, if_pos rfl] at hsector
      exact absurd hsector (by decide)

/-! ### Two calls on a card whose words tell where they are -/

def labelled : Disk := fun s i => BitVec.ofNat 32 (0x100 * s + i)

/-- The call of `loadelf`, on a clean card. -/
theorem copies_exactly_iff_loadelf :
    CopiesExactly ⟨false, false, false⟩ 0x5000 16384 7 false none := by
  have hstart : (0x5000 : Word).toNat < 2 ^ 31 := by decide
  have hword : (0x5000 : Word).toNat % 4 = 0 := by decide
  have hidle : (none : Option Command) ≠ some .ioctl := nofun
  exact (copies_exactly_iff hstart hword hidle).mpr (.inr ⟨by decide, .inr (.inr ⟨rfl, rfl⟩)⟩)

/-- From byte 4 on word 4 is copied, and behind a write-back of sector 1 its word 0. -/
theorem copies_wrong_word :
    ((numbered 0 false none labelled).sdcardToMemory ⟨true, true, true⟩ (fun _ => 0) 4 1).1 = [4] ∧
      labelled.word 4 = 1 ∧
      ((numbered 1 true none labelled).sdcardToMemory ⟨false, false, false⟩ (fun _ => 0) 0 1).1 =
        [0x100] ∧
      (numbered 1 true none labelled).saved.word 0 = 0 := by
  decide +kernel

end Blk

end PComputer.PseudOS
