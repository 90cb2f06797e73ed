import PComputer.Kernel.Blk

/-!
# When `blk_seek_and_read` is exact

The function waits for nothing: it reads the disk exactly if every command is over
by the time the code needs the next one or its data.
-/

namespace PComputer.PseudOS

open PComputer.Foundation

namespace Blk

variable {b : Blk} {finished : Access → Bool} {junk : Access → Word} {seek bytes : Word}
  {sec byte n : Nat} {buf : List Byte}

/-! ## Commands -/

@[simp] theorem running_finish (b : Blk) : b.finish.running = none := by
  unfold finish
  split <;> first | assumption | rfl

theorem finish_of_idle (h : b.running = none) : b.finish = b := by
  unfold finish
  rw [h]

@[simp] theorem finish_wait (b : Blk) (f : Bool) : (b.wait f).finish = b.finish := by
  cases f with
  | false => rfl
  | true => exact finish_of_idle (running_finish b)

theorem wait_of_idle (h : b.running = none) (f : Bool) : b.wait f = b := by
  cases f with
  | false => rfl
  | true => exact finish_of_idle h

private theorem ioctl_of_idle (h : b.running = none) :
    b.ioctl sec = { b with sector := sec, running := some .ioctl } := by
  unfold ioctl isready
  rw [h]
  rfl

theorem load_of_idle (h : b.running = none) : b.load = { b with running := some .load } := by
  unfold load isready
  rw [h]
  rfl

private theorem ioctl_of_busy (h : b.running ≠ none) : b.ioctl sec = b := by
  unfold ioctl isready
  rw [if_neg (by simpa [Option.isNone_iff_eq_none] using h)]

theorem load_of_busy (h : b.running ≠ none) : b.load = b := by
  unfold load isready
  rw [if_neg (by simpa [Option.isNone_iff_eq_none] using h)]

theorem writeback_of_busy (h : b.running ≠ none) : b.writeback = b := by
  unfold writeback isready
  rw [if_neg (by simpa [Option.isNone_iff_eq_none] using h)]

@[simp] theorem disk_ioctl (b : Blk) (sec : Nat) : (b.ioctl sec).finish.disk = b.finish.disk := by
  by_cases h : b.running = none
  · rw [ioctl_of_idle h, finish_of_idle h]
    rfl
  · rw [ioctl_of_busy h]

@[simp] theorem disk_load (b : Blk) : b.load.finish.disk = b.finish.disk := by
  by_cases h : b.running = none
  · rw [load_of_idle h, finish_of_idle h]
    rfl
  · rw [load_of_busy h]

def loaded (finished : Access → Bool) (sec : Nat) (b : Blk) : Blk :=
  (((b.wait (finished (.ioctl sec))).ioctl sec).wait (finished (.load sec))).load

@[simp] theorem disk_loaded (b : Blk) :
    (b.loaded finished sec).finish.disk = b.finish.disk := by
  simp [loaded]

private theorem loaded_of_idle (hidle : (b.wait (finished (.ioctl sec))).running = none)
    (hload : finished (.load sec) = true) :
    (b.loaded finished sec).running = some .load ∧ (b.loaded finished sec).sector = sec ∧
      (b.loaded finished sec).disk = b.finish.disk := by
  unfold loaded
  rw [ioctl_of_idle hidle, hload, ← finish_wait b (finished (.ioctl sec)), finish_of_idle hidle]
  exact ⟨rfl, rfl, rfl⟩

/-! ## The bytes of a sector -/

def cached (b : Blk) (byte : Nat) : Byte :=
  ((b.cache (byte / 4)).sshiftRight (byte % 4 * 8)).setWidth 8

private theorem readByte_of_idle (h : b.running = none) :
    readByte finished junk sec (buf, b) byte = (buf ++ [b.cached byte], b) := by
  unfold readByte read isready cached
  simp only [wait_of_idle h, h, Option.isNone_none, if_true]

private theorem foldl_readByte_of_idle (h : b.running = none) (first n : Nat) :
    (List.range' first n).foldl (readByte finished junk sec) (buf, b) =
      (buf ++ (List.range' first n).map b.cached, b) := by
  induction n generalizing first buf with
  | zero => simp
  | succ n ih =>
      rw [List.range'_succ, List.foldl_cons, readByte_of_idle h, ih, List.map_cons,
        List.append_assoc]
      rfl

private theorem cached_eq_byte {disk : Disk} (hcache : b.cache = disk sec) (hbyte : byte < 0x200) :
    b.cached byte = disk.byte (0x200 * sec + byte) := by
  have hsector : (0x200 * sec + byte) / 0x200 = sec := by omega
  have hword : (0x200 * sec + byte) % 0x200 / 4 = byte / 4 := by omega
  have hlane : (0x200 * sec + byte) % 4 = byte % 4 := by omega
  unfold cached Disk.byte
  rw [hcache, hsector, hword, hlane]
  apply BitVec.eq_of_getLsbD_eq
  intro k hk
  have hbit : byte % 4 * 8 + k < 32 := by omega
  simp only [BitVec.getLsbD_setWidth, BitVec.getLsbD_sshiftRight, BitVec.getLsbD_extractLsb']
  rw [Nat.mul_comm 8]
  simp [hk, hbit]
  omega

private theorem foldl_readByte (hload : b.running = some .load) (hsector : b.sector = sec)
    (first : Nat)
    (hread : finished (.read sec first) = true) (hfirst : first + (n + 1) ≤ 0x200) :
    (List.range' first (n + 1)).foldl (readByte finished junk sec) (buf, b) =
      (buf ++ b.disk.bytes (0x200 * sec + first) (n + 1), b.finish) := by
  have hidle := running_finish b
  have hcache : b.finish.cache = b.disk sec := by
    unfold finish
    rw [hload, ← hsector]
  have hhead : readByte finished junk sec (buf, b) first =
      (buf ++ [b.finish.cached first], b.finish) := by
    unfold readByte read isready cached wait
    simp only [hread, if_true, hidle, Option.isNone_none]
  rw [List.range'_succ, List.foldl_cons, hhead, foldl_readByte_of_idle hidle]
  have hbytes : b.disk.bytes (0x200 * sec + first) (n + 1) =
      (List.range' first (n + 1)).map b.finish.cached := by
    unfold Disk.bytes
    rw [List.range'_eq_map_range, List.range'_eq_map_range, List.map_map, List.map_map]
    apply List.map_congr_left
    intro k hk
    have hlt := List.mem_range.mp hk
    have hbyte : first + k < 0x200 := by omega
    simp only [Function.comp_apply, cached_eq_byte hcache hbyte, Nat.add_assoc]
  rw [hbytes, List.range'_succ, List.map_cons, List.append_assoc]
  rfl

/-! ## The sectors of a call -/

def firstByte (seek : Word) (sec : Nat) : Nat := seek.toNat - 0x200 * sec

def endByte (seek bytes : Word) (sec : Nat) : Nat :=
  min 0x200 (seek.toNat + bytes.toNat - 0x200 * sec)

def covered (seek bytes : Word) (sec : Nat) : Nat :=
  min (0x200 * sec) (seek.toNat + bytes.toNat) - seek.toNat

private theorem covered_succ (seek bytes : Word) (sec : Nat) :
    covered seek bytes (sec + 1) =
      covered seek bytes sec + (endByte seek bytes sec - firstByte seek sec) := by
  unfold covered endByte firstByte
  omega

private theorem covered_add_firstByte (hend : 0x200 * sec < seek.toNat + bytes.toNat) :
    seek.toNat + covered seek bytes sec = 0x200 * sec + firstByte seek sec := by
  unfold covered firstByte
  omega

private theorem exists_bytes (hne : bytes ≠ 0) (hstart : seek.toNat / 0x200 ≤ sec)
    (hend : 0x200 * sec < seek.toNat + bytes.toNat) :
    ∃ n, endByte seek bytes sec - firstByte seek sec = n + 1 := by
  have hbytes : bytes.toNat ≠ 0 := fun h0 => hne (BitVec.eq_of_toNat_eq h0)
  refine ⟨endByte seek bytes sec - firstByte seek sec - 1, ?_⟩
  unfold endByte firstByte
  omega

variable (hlimit : seek.toNat + bytes.toNat < 2 ^ 32)

include hlimit

private theorem toNat_end : (seek + bytes).toNat = seek.toNat + bytes.toNat := by
  rw [BitVec.toNat_add]
  exact Nat.mod_eq_of_lt hlimit

private theorem readSector_eq {s : List Byte × Blk} (hstart : seek.toNat / 0x200 ≤ sec)
    (hend : sec ≤ (seek.toNat + bytes.toNat) / 0x200) :
    readSector finished junk seek bytes s sec =
      (List.range' (firstByte seek sec) (endByte seek bytes sec - firstByte seek sec)).foldl
        (readByte finished junk sec) (s.1, s.2.loaded finished sec) := by
  have hfirst : (if sec = seek.toNat / 0x200 then seek.toNat % 0x200 else 0) =
      firstByte seek sec := by
    unfold firstByte
    split_ifs <;> omega
  have hlast : (if sec = (seek.toNat + bytes.toNat) / 0x200 then
      (seek.toNat + bytes.toNat) % 0x200 else 0x200) = endByte seek bytes sec := by
    unfold endByte
    split_ifs <;> omega
  unfold readSector
  dsimp only
  rw [toNat_end hlimit, hfirst, hlast]
  rfl

omit hlimit

def saving (finished : Access → Bool) (b : Blk) : Blk :=
  if b.isdirty then (b.wait (finished .writeback)).writeback else b

private theorem disk_saving (hwriteback : finished .writeback = true) :
    (b.saving finished).finish.disk = b.saved := by
  unfold saving isdirty saved
  split_ifs with hdirty
  · rw [hwriteback]
    change b.finish.writeback.finish.disk = _
    unfold writeback isready
    rw [running_finish]
    rfl
  · rfl

def before (finished : Access → Bool) (junk : Access → Word) (seek bytes : Word) (sec : Nat)
    (b : Blk) : List Byte × Blk :=
  (List.range' (seek.toNat / 0x200) (sec - seek.toNat / 0x200)).foldl
    (readSector finished junk seek bytes) ([], b.saving finished)

private theorem before_start :
    before finished junk seek bytes (seek.toNat / 0x200) b = ([], b.saving finished) := by
  unfold before
  rw [Nat.sub_self]
  rfl

private theorem before_succ (hstart : seek.toNat / 0x200 ≤ sec) :
    before finished junk seek bytes (sec + 1) b =
      readSector finished junk seek bytes (before finished junk seek bytes sec b) sec := by
  unfold before
  rw [Nat.succ_sub hstart, List.range'_1_concat, List.foldl_append, List.foldl_cons,
    List.foldl_nil, Nat.add_sub_of_le hstart]

private theorem blkSeekAndRead_of_obtained (hobtained : b.obtained = true) :
    b.blkSeekAndRead finished junk seek bytes =
      let s := before finished junk seek bytes ((seek + bytes).toNat / 0x200 + 1) b
      ((s.1.length : Int), s.1, s.2) := by
  unfold blkSeekAndRead
  rw [hobtained]
  rfl

private theorem blkSeekAndRead_of_not_obtained (hobtained : b.obtained = false) :
    b.blkSeekAndRead finished junk seek bytes = (-1, [], b) := by
  unfold blkSeekAndRead
  rw [hobtained]
  rfl

/-! ## Prompt devices -/

structure Reading (finished : Access → Bool) (disk : Disk) (seek bytes : Word) (sec : Nat)
    (s : List Byte × Blk) : Prop where
  buf : s.1 = disk.bytes seek.toNat (covered seek bytes sec)
  disk : s.2.finish.disk = disk
  hears : 0x200 * sec < seek.toNat + bytes.toNat →
    (s.2.wait (finished (.ioctl sec))).running = none

include hlimit

theorem Reading.next {disk : Disk} {s : List Byte × Blk} (hprompt : Prompt finished seek bytes)
    (hne : bytes ≠ 0) (h : Reading finished disk seek bytes sec s)
    (hstart : seek.toNat / 0x200 ≤ sec) (hend : sec ≤ (seek.toNat + bytes.toNat) / 0x200) :
    Reading finished disk seek bytes (sec + 1)
      (readSector finished junk seek bytes s sec) := by
  rw [readSector_eq hlimit hstart hend]
  by_cases hlt : 0x200 * sec < seek.toNat + bytes.toNat
  · obtain ⟨hrunning, hsector, hdisk⟩ := loaded_of_idle (h.hears hlt)
      (hprompt.load hne sec hstart hlt)
    obtain ⟨n, hn⟩ := exists_bytes hne hstart hlt
    have hroom : firstByte seek sec + (n + 1) ≤ 0x200 := by
      unfold endByte at hn
      omega
    have hsucc := covered_succ seek bytes sec
    rw [hn] at hsucc
    have hread : finished (.read sec (firstByte seek sec)) = true :=
      hprompt.read hne sec hstart hlt
    rw [hn, foldl_readByte hrunning hsector _ hread hroom, hdisk, h.disk]
    refine ⟨?_, by rw [finish_of_idle (running_finish _), disk_loaded, h.disk], fun _ => ?_⟩
    · rw [h.buf, hsucc, ← covered_add_firstByte hlt]
      exact Disk.bytes_append disk seek.toNat (covered seek bytes sec) (n + 1)
    · rw [wait_of_idle (running_finish _)]
      exact running_finish _
  · have hnone : endByte seek bytes sec - firstByte seek sec = 0 := by
      unfold endByte firstByte
      omega
    have hsucc := covered_succ seek bytes sec
    rw [hnone, Nat.add_zero] at hsucc
    rw [hnone]
    exact ⟨by rw [hsucc]; exact h.buf, by rw [← h.disk]; exact disk_loaded _,
      fun hlt' => absurd hlt' (by omega)⟩

theorem Reading.before {disk : Disk} (hprompt : Prompt finished seek bytes) (hne : bytes ≠ 0)
    (h : Reading finished disk seek bytes (seek.toNat / 0x200) ([], b.saving finished))
    (hstart : seek.toNat / 0x200 ≤ sec) (hend : sec ≤ (seek.toNat + bytes.toNat) / 0x200 + 1) :
    Reading finished disk seek bytes sec (b.before finished junk seek bytes sec) := by
  induction sec, hstart using Nat.le_induction with
  | base =>
      rw [before_start]
      exact h
  | succ sec hstart ih =>
      rw [before_succ hstart]
      exact (ih (by omega)).next hlimit hprompt hne hstart (by omega)

/-- A prompt device is read exactly. -/
theorem exact_of_prompt (hprompt : Prompt finished seek bytes) : Exact finished seek bytes := by
  intro junk b hobtained
  have hdisk : (b.saving finished).finish.disk = b.saved := disk_saving hprompt.writeback
  rw [blkSeekAndRead_of_obtained hobtained, toNat_end hlimit]
  by_cases hne : bytes = 0
  · have hbytes : bytes.toNat = 0 := by
      rw [hne]
      rfl
    have hnone : endByte seek bytes (seek.toNat / 0x200) - firstByte seek (seek.toNat / 0x200) =
        0 := by
      unfold endByte firstByte
      omega
    have hbefore : b.before finished junk seek bytes ((seek.toNat + bytes.toNat) / 0x200 + 1) =
        ([], (b.saving finished).loaded finished (seek.toNat / 0x200)) := by
      have hend : (seek.toNat + bytes.toNat) / 0x200 = seek.toNat / 0x200 := by omega
      rw [hend, before_succ (Nat.le_refl _), readSector_eq hlimit (Nat.le_refl _) (by omega),
        hnone, before_start]
      rfl
    rw [hbefore, hbytes]
    exact ⟨_, rfl, (disk_loaded _).trans hdisk⟩
  · have hhears : ((b.saving finished).wait (finished (.ioctl (seek.toNat / 0x200)))).running =
        none := by
      rw [hprompt.ioctl hne]
      exact running_finish _
    have hfirst : covered seek bytes (seek.toNat / 0x200) = 0 := by
      unfold covered
      omega
    have hbefore : Reading finished b.saved seek bytes (seek.toNat / 0x200)
        ([], b.saving finished) := ⟨by rw [hfirst]; rfl, hdisk, fun _ => hhears⟩
    have hreading : Reading finished b.saved seek bytes ((seek.toNat + bytes.toNat) / 0x200 + 1)
        (b.before finished junk seek bytes ((seek.toNat + bytes.toNat) / 0x200 + 1)) :=
      hbefore.before hlimit hprompt hne (by omega) (Nat.le_refl _)
    have hlast : covered seek bytes ((seek.toNat + bytes.toNat) / 0x200 + 1) = bytes.toNat := by
      unfold covered
      omega
    have hbuf := hreading.buf
    rw [hlast] at hbuf
    refine ⟨_, ?_, hreading.disk⟩
    dsimp only
    rw [hbuf, Disk.length_bytes]

omit hlimit

/-! ## What the buffer shows -/

def shown (finished : Access → Bool) (junk : Access → Word) (sec byte : Nat) (b : Blk) : Byte :=
  (((b.wait (finished (.read sec byte))).read (junk (.read sec byte)) (byte / 4)).sshiftRight
    (byte % 4 * 8)).setWidth 8

private theorem readByte_eq : readByte finished junk sec (buf, b) byte =
    (buf ++ [b.shown finished junk sec byte], b.wait (finished (.read sec byte))) := rfl

private theorem exists_readByte (finished : Access → Bool) (junk : Access → Word) (sec : Nat)
    (l : List Nat) (buf : List Byte) (b : Blk) :
    ∃ out, (l.foldl (readByte finished junk sec) (buf, b)).1 = buf ++ out ∧
      out.length = l.length := by
  induction l generalizing buf b with
  | nil => exact ⟨[], (List.append_nil buf).symm, rfl⟩
  | cons byte l ih =>
      obtain ⟨out, hout, hlength⟩ := ih (buf ++ [b.shown finished junk sec byte])
        (b.wait (finished (.read sec byte)))
      refine ⟨b.shown finished junk sec byte :: out, ?_, congrArg (· + 1) hlength⟩
      rw [List.foldl_cons, readByte_eq, hout, List.append_assoc]
      rfl

private theorem before_prefix {sec' : Nat} (hstart : seek.toNat / 0x200 ≤ sec) (hle : sec ≤ sec') :
    (b.before finished junk seek bytes sec).1 <+: (b.before finished junk seek bytes sec').1 := by
  induction sec', hle using Nat.le_induction with
  | base => exact List.prefix_rfl
  | succ sec' hle ih =>
      rw [before_succ (hstart.trans hle)]
      unfold readSector
      obtain ⟨out, hout, -⟩ := exists_readByte finished junk sec' _
        (b.before finished junk seek bytes sec').1 _
      exact ih.trans ⟨out, hout.symm⟩

include hlimit

private theorem length_before (hstart : seek.toNat / 0x200 ≤ sec)
    (hend : sec ≤ (seek.toNat + bytes.toNat) / 0x200 + 1) :
    (b.before finished junk seek bytes sec).1.length = covered seek bytes sec := by
  induction sec, hstart using Nat.le_induction with
  | base =>
      rw [before_start]
      unfold covered
      simp only [List.length_nil]
      omega
  | succ sec hstart ih =>
      rw [before_succ hstart, readSector_eq hlimit hstart (by omega)]
      obtain ⟨out, hout, hlength⟩ := exists_readByte finished junk sec _ _ _
      rw [hout, List.length_append, hlength, List.length_range', ih (by omega), covered_succ]

theorem Exact.shows (hexact : Exact finished seek bytes) (junk : Access → Word) (hne : bytes ≠ 0)
    (hobtained : b.obtained = true) (hstart : seek.toNat / 0x200 ≤ sec)
    (hlt : 0x200 * sec < seek.toNat + bytes.toNat) :
    ((b.before finished junk seek bytes sec).2.loaded finished sec).shown finished junk sec
        (firstByte seek sec) = b.saved.byte (0x200 * sec + firstByte seek sec) := by
  obtain ⟨b', hcall, -⟩ := hexact junk b hobtained
  obtain ⟨n, hn⟩ := exists_bytes hne hstart hlt
  have hlast : sec + 1 ≤ (seek.toNat + bytes.toNat) / 0x200 + 1 := by omega
  obtain ⟨rest, hrest⟩ : (b.before finished junk seek bytes (sec + 1)).1 <+:
      b.saved.bytes seek.toNat bytes.toNat := by
    rw [blkSeekAndRead_of_obtained hobtained, toNat_end hlimit] at hcall
    rw [← (Prod.mk.inj (Prod.mk.inj hcall).2).1]
    exact before_prefix (by omega) hlast
  rw [before_succ hstart, readSector_eq hlimit hstart (by omega), hn, List.range'_succ,
    List.foldl_cons, readByte_eq] at hrest
  obtain ⟨out, hout, -⟩ := exists_readByte finished junk sec _ _ _
  rw [hout, List.append_assoc, List.append_assoc] at hrest
  have hcovered : covered seek bytes sec < bytes.toNat := by
    unfold endByte firstByte at hn
    unfold covered
    omega
  have hlength : (b.before finished junk seek bytes sec).1.length = covered seek bytes sec :=
    length_before hlimit hstart (by omega)
  have hbyte (x : Byte) (l : List Byte) :
      ((b.before finished junk seek bytes sec).1 ++ ([x] ++ l))[covered seek bytes sec]? =
        some x := by
    rw [← hlength, List.getElem?_append_right (Nat.le_refl _), Nat.sub_self]
    rfl
  have hshown := hbyte (((b.before finished junk seek bytes sec).2.loaded finished sec).shown
    finished junk sec (firstByte seek sec)) (out ++ rest)
  rw [hrest, Disk.getElem?_bytes _ _ hcovered, covered_add_firstByte hlt] at hshown
  exact (Option.some.inj hshown).symm

omit hlimit

/-! ## Devices that tell slow commands apart -/

def markedDisk (sec : Nat) : Disk := fun s _ => if s = sec then BitVec.allOnes 32 else 0

private theorem byte_markedDisk (hbyte : byte < 0x200) :
    (markedDisk sec).byte (0x200 * sec + byte) = BitVec.allOnes 8 := by
  have hsector : (0x200 * sec + byte) / 0x200 = sec := by omega
  unfold Disk.byte markedDisk
  rw [hsector, if_pos rfl]
  apply BitVec.eq_of_getLsbD_eq
  intro k hk
  have hbit : 8 * ((0x200 * sec + byte) % 4) + k < 32 := by omega
  simp only [BitVec.getLsbD_extractLsb', BitVec.getLsbD_allOnes, hk, hbit, decide_true,
    Bool.and_self]

/-- Nothing of the marked sector has reached the device's cache, or is about to. -/
structure Blind (sec : Nat) (b : Blk) : Prop where
  disk : b.disk = markedDisk sec
  cache : b.cache = fun _ => 0
  writeback : b.running ≠ some .writeback
  sector : b.sector ≠ sec

theorem Blind.wait (h : b.Blind sec) (f : Bool) : (b.wait f).Blind sec := by
  cases f with
  | false => exact h
  | true =>
      unfold Blk.wait finish
      rw [if_pos rfl]
      split
      · exact h
      · exact ⟨h.disk, h.cache, nofun, h.sector⟩
      · refine ⟨h.disk, ?_, nofun, h.sector⟩
        dsimp only
        rw [h.disk]
        funext i
        exact if_neg h.sector
      · next hrunning => exact absurd hrunning h.writeback

theorem Blind.load (h : b.Blind sec) : b.load.Blind sec := by
  by_cases hidle : b.running = none
  · rw [load_of_idle hidle]
    exact ⟨h.disk, h.cache, nofun, h.sector⟩
  · rw [load_of_busy hidle]
    exact h

theorem Blind.loaded {s : Nat} (h : b.Blind sec) (hne : s ≠ sec) :
    (b.loaded finished s).Blind sec := by
  have hioctl : ((b.wait (finished (.ioctl s))).ioctl s).Blind sec := by
    have hwait := h.wait (finished (.ioctl s))
    by_cases hidle : (b.wait (finished (.ioctl s))).running = none
    · rw [ioctl_of_idle hidle]
      exact ⟨hwait.disk, hwait.cache, nofun, hne⟩
    · rw [ioctl_of_busy hidle]
      exact hwait
  exact (hioctl.wait _).load

theorem Blind.readSector {s : List Byte × Blk} {i : Nat} (h : s.2.Blind sec) (hne : i ≠ sec) :
    (readSector finished junk seek bytes s i).2.Blind sec := by
  unfold Blk.readSector
  refine List.foldlRecOn _ _ (motive := fun s : List Byte × Blk => s.2.Blind sec) (h.loaded hne) ?_
  intro s hs byte _
  exact hs.wait _

private theorem shown_of_zeros (hcache : ∀ f, (b.wait f).cache = fun _ => 0) :
    b.shown finished (fun _ => 0) sec byte = 0#8 := by
  unfold shown read
  rw [hcache]
  split_ifs <;> simp

/-- An `ioctl` that comes too early is ignored, and the old sector is loaded. -/
theorem Blind.zeros_of_slow_ioctl (h : b.Blind sec) (hrunning : b.running ≠ none)
    (hslow : finished (.ioctl sec) = false) (f : Bool) :
    ((b.loaded finished sec).wait f).cache = fun _ => 0 := by
  unfold Blk.loaded
  rw [hslow]
  change ((((b.ioctl sec).wait _).load).wait f).cache = _
  rw [ioctl_of_busy hrunning]
  exact ((h.wait _).load.wait f).cache

private theorem Blind.zeros_of_slow_load (h : b.Blind sec) (hslow : finished (.load sec) = false)
    (f : Bool) : ((b.loaded finished sec).wait f).cache = fun _ => 0 := by
  have hwait := h.wait (finished (.ioctl sec))
  unfold Blk.loaded
  rw [hslow]
  change ((((b.wait (finished (.ioctl sec))).ioctl sec).load).wait f).cache = _
  by_cases hidle : (b.wait (finished (.ioctl sec))).running = none
  · rw [ioctl_of_idle hidle, load_of_busy (Option.some_ne_none _)]
    cases f with
    | false => exact hwait.cache
    | true => exact hwait.cache
  · rw [ioctl_of_busy hidle]
    exact (hwait.load.wait f).cache

private theorem shown_of_slow_read (hslow : finished (.read sec byte) = false) :
    (b.loaded finished sec).shown finished (fun _ => 0) sec byte = 0#8 := by
  have hrunning : (b.loaded finished sec).running ≠ none := by
    unfold loaded
    generalize ((b.wait _).ioctl sec).wait _ = b'
    by_cases h : b'.running = none
    · rw [load_of_idle h]
      exact nofun
    · rw [load_of_busy h]
      exact h
  unfold shown
  rw [hslow]
  change (((b.loaded finished sec).read 0 _).sshiftRight _).setWidth 8 = _
  unfold read isready
  rw [if_neg (by simpa [Option.isNone_iff_eq_none] using hrunning)]
  simp

def probe (sec : Nat) (running : Option Command) : Blk :=
  { obtained := true, sector := sec + 1, disk := markedDisk sec, cache := fun _ => 0,
    dirty := false, running := running }

private theorem blind_probe {running : Option Command} (h : running ≠ some .writeback) :
    (probe sec running).Blind sec :=
  ⟨rfl, rfl, h, Nat.succ_ne_self sec⟩

private theorem blind_before {running : Option Command} (h : running ≠ some .writeback) :
    ((probe sec running).before finished junk seek bytes sec).2.Blind sec := by
  unfold before
  refine List.foldlRecOn _ _ (motive := fun s : List Byte × Blk => s.2.Blind sec)
    (blind_probe h) ?_
  intro s hs i hi
  rw [List.mem_range'_1] at hi
  exact hs.readSector (by omega)

/-! ## What the reads leave alone -/

structure Kept (b b' : Blk) : Prop where
  obtained : b'.obtained = b.obtained
  dirty : b'.dirty = b.dirty
  disk : b'.finish.disk = b.finish.disk

theorem Kept.refl (b : Blk) : b.Kept b := ⟨rfl, rfl, rfl⟩

theorem Kept.trans {b b' b'' : Blk} (h : b.Kept b') (h' : b'.Kept b'') : b.Kept b'' :=
  ⟨h'.obtained.trans h.obtained, h'.dirty.trans h.dirty, h'.disk.trans h.disk⟩

private theorem kept_wait (b : Blk) (f : Bool) : b.Kept (b.wait f) := by
  refine ⟨?_, ?_, congrArg Blk.disk (finish_wait b f)⟩ <;>
    (unfold wait finish; split_ifs <;> first | rfl | (split <;> rfl))

private theorem kept_loaded (b : Blk) : b.Kept (b.loaded finished sec) := by
  have hioctl (b : Blk) : b.Kept (b.ioctl sec) :=
    ⟨by unfold ioctl; split <;> rfl, by unfold ioctl; split <;> rfl, disk_ioctl b sec⟩
  have hload (b : Blk) : b.Kept b.load :=
    ⟨by unfold load; split <;> rfl, by unfold load; split <;> rfl, disk_load b⟩
  exact (kept_wait b _).trans ((hioctl _).trans ((kept_wait _ _).trans (hload _)))

private theorem kept_readSector (s : List Byte × Blk) (sec : Nat) :
    s.2.Kept (readSector finished junk seek bytes s sec).2 := by
  unfold readSector
  refine List.foldlRecOn _ _ (motive := fun r : List Byte × Blk => s.2.Kept r.2)
    (kept_loaded s.2) ?_
  intro r hr byte _
  exact hr.trans (kept_wait r.2 _)

private theorem kept_before (b : Blk) :
    (b.saving finished).Kept (b.before finished junk seek bytes sec).2 := by
  unfold before
  refine List.foldlRecOn _ _ (motive := fun r : List Byte × Blk => (b.saving finished).Kept r.2)
    (.refl _) ?_
  intro r hr sec _
  exact hr.trans (kept_readSector r sec)

private theorem dirty_saving (hwriteback : finished .writeback = true) :
    (b.saving finished).dirty = false := by
  unfold saving isdirty writeback
  rw [hwriteback]
  split_ifs with hdirty hready
  · rfl
  · have hidle : (b.wait true).isready = true := by
      unfold isready wait
      simp
    exact absurd hidle hready
  · exact eq_false_of_ne_true hdirty

private theorem obtained_saving (b : Blk) : (b.saving finished).obtained = b.obtained := by
  unfold saving writeback
  split_ifs
  · exact (kept_wait b _).obtained
  · exact (kept_wait b _).obtained
  · rfl

theorem exists_blkSeekAndRead (hobtained : b.obtained = true)
    (hwriteback : finished .writeback = true) :
    ∃ buf b', b.blkSeekAndRead finished junk seek bytes = ((buf.length : Int), buf, b') ∧
      b'.obtained = true ∧ b'.saved = b.saved := by
  have hkept : (b.saving finished).Kept (b.before finished junk seek bytes
      ((seek + bytes).toNat / 0x200 + 1)).2 := kept_before b
  refine ⟨_, _, blkSeekAndRead_of_obtained hobtained,
    hkept.obtained.trans ((obtained_saving b).trans hobtained), ?_⟩
  unfold saved
  rw [hkept.dirty, dirty_saving hwriteback]
  exact hkept.disk.trans (disk_saving hwriteback)

def unsaved : Blk :=
  { obtained := true, sector := 0, disk := fun _ _ => 0, cache := fun _ => BitVec.allOnes 32,
    dirty := true, running := some .ioctl }

private theorem saving_unsaved (hslow : finished .writeback = false) :
    unsaved.saving finished = unsaved := by
  unfold saving
  rw [hslow]
  rfl

section

include hlimit

private theorem Exact.shown_ne_zero (hexact : Exact finished seek bytes) (hne : bytes ≠ 0)
    (hstart : seek.toNat / 0x200 ≤ sec) (hlt : 0x200 * sec < seek.toNat + bytes.toNat)
    {running : Option Command} (hrunning : running = none ∨ running = some .ioctl) :
    (((probe sec running).before finished (fun _ => 0) seek bytes sec).2.loaded finished
      sec).shown finished (fun _ => 0) sec (firstByte seek sec) ≠ 0#8 := by
  have hsaved : (probe sec running).saved = markedDisk sec := by
    rcases hrunning with rfl | rfl <;> rfl
  have hbyte : firstByte seek sec < 0x200 := by
    unfold firstByte
    omega
  rw [hexact.shows hlimit (fun _ => 0) hne rfl hstart hlt, hsaved,
    byte_markedDisk hbyte]
  decide

/-- Only a prompt device is read exactly whatever it holds. -/
theorem prompt_of_exact (hexact : Exact finished seek bytes) : Prompt finished seek bytes where
  writeback := by
    by_contra hslow
    obtain ⟨b', hcall, hdisk⟩ := hexact (fun _ => 0) unsaved rfl
    rw [blkSeekAndRead_of_obtained rfl] at hcall
    rw [← (Prod.mk.inj (Prod.mk.inj hcall).2).2, (kept_before unsaved).disk,
      saving_unsaved (eq_false_of_ne_true hslow)] at hdisk
    exact absurd (congrFun (congrFun hdisk 0) 0) (by decide)
  ioctl hne := by
    by_contra hslow
    have hlt : 0x200 * (seek.toNat / 0x200) < seek.toNat + bytes.toNat := by
      have hbytes : bytes.toNat ≠ 0 := fun h0 => hne (BitVec.eq_of_toNat_eq h0)
      omega
    refine hexact.shown_ne_zero hlimit hne (Nat.le_refl _) hlt (.inr rfl) (shown_of_zeros ?_)
    have hblind : (probe (seek.toNat / 0x200) (some .ioctl)).Blind (seek.toNat / 0x200) :=
      blind_probe (by decide)
    rw [before_start]
    exact hblind.zeros_of_slow_ioctl (Option.some_ne_none _) (eq_false_of_ne_true hslow)
  load hne s hstart hlt := by
    by_contra hslow
    have hblind : ((probe s none).before finished (fun _ => 0) seek bytes s).2.Blind s :=
      blind_before (by decide)
    exact hexact.shown_ne_zero hlimit hne hstart hlt (.inl rfl)
      (shown_of_zeros (hblind.zeros_of_slow_load (eq_false_of_ne_true hslow)))
  read hne s hstart hlt := by
    by_contra hslow
    exact hexact.shown_ne_zero hlimit hne hstart hlt (.inl rfl)
      (shown_of_slow_read (eq_false_of_ne_true hslow))

end

theorem buf_of_wrapped (hwrapped : 2 ^ 32 ≤ seek.toNat + bytes.toNat)
    (hbuf : (b.blkSeekAndRead finished junk seek bytes).2.1 = buf) : buf = [] := by
  rw [← hbuf]
  have hend : (seek + bytes).toNat = seek.toNat + bytes.toNat - 2 ^ 32 := by
    rw [BitVec.toNat_add]
    omega
  have hseek := seek.isLt
  have hbytes := bytes.isLt
  cases hobtained : b.obtained with
  | false => rw [blkSeekAndRead_of_not_obtained hobtained]
  | true =>
      rw [blkSeekAndRead_of_obtained hobtained]
      dsimp only
      rcases Nat.lt_or_ge ((seek + bytes).toNat / 0x200) (seek.toNat / 0x200) with hlt | hge
      · unfold before
        rw [Nat.sub_eq_zero_of_le hlt]
        rfl
      · -- the end wraps to a byte of the same sector, before the first
        have hsame : (seek + bytes).toNat / 0x200 = seek.toNat / 0x200 := by omega
        have hnone : (seek + bytes).toNat % 0x200 - seek.toNat % 0x200 = 0 := by omega
        rw [hsame, before_succ (Nat.le_refl _), before_start]
        unfold readSector
        dsimp only
        rw [hsame, if_pos rfl, if_pos rfl, hnone]
        rfl

/-! ## The devices that are read exactly -/

/-- Whatever the device holds, the call is exact just if every command is over in time. -/
theorem exact_iff_prompt (hlimit : seek.toNat + bytes.toNat < 2 ^ 32) :
    Exact finished seek bytes ↔ Prompt finished seek bytes :=
  ⟨prompt_of_exact hlimit, exact_of_prompt hlimit⟩

def slowLoad : Access → Bool
  | .read _ _ => false
  | .writeback | .ioctl _ | .load _ => true

/-- The partition table of a disk whose commands are over at once. -/
theorem exact_iff_prompt_instant : Exact (fun _ => true) 0x1BE 64 :=
  (exact_iff_prompt (by decide)).mpr ⟨rfl, fun _ => rfl, fun _ _ _ _ => rfl, fun _ _ _ _ => rfl⟩

/-- The partition table of a ready, clean disk, read while its load runs. -/
theorem slowLoad_not_exact :
    ((probe 0 none).blkSeekAndRead slowLoad (fun _ => 0) 0x1BE 64).2.1 ≠
      (probe 0 none).saved.bytes 0x1BE 64 := by
  decide +kernel

end Blk

end PComputer.PseudOS
