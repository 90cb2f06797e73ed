import PComputer.Kernel.Ch375

/-!
# A sector that is read and written back

The driver reads every packet to the start of `buf`, where it takes the blocks from it
one behind the other.
-/

namespace PComputer.PseudOS

open PComputer.Foundation PComputer.Rtl

/-! ## What the chip delivers -/

def blockAnswers (packet : List Byte) : List Byte :=
  USB_INT_DISK_READ :: BitVec.ofNat 8 packet.length :: packet

/-- The packets, and the interrupt status behind them. -/
def readAnswers (packets : List (List Byte)) (status : Byte) (rest : Stream' Byte) :
    Stream' Byte :=
  packets.flatMap blockAnswers ++ₛ Stream'.cons status rest

/-- The chip may end a sector early, with another status than that of a block. -/
structure Delivery (blockPerSector : Word) where
  sizes : List Nat
  status : Byte
  le : sizes.length ≤ blockPerSector.toNat
  packet : ∀ n ∈ sizes, n ≤ 64
  stops : sizes.length < blockPerSector.toNat → status ≠ USB_INT_DISK_READ

def dataBytes : List UsbFrame → List Byte
  | ⟨false, b⟩ :: fs => b :: dataBytes fs
  | _ => []

def payloads : List UsbFrame → List (List Byte)
  | [] => []
  | ⟨command, c⟩ :: fs =>
      if command && c == CMD_WR_USB_DATA7 then dataBytes fs.tail :: payloads fs else payloads fs

def taken : Nat → Stream' Byte → Nat
  | 0, _ => 0
  | count + 1, answers =>
      if answers.head = USB_INT_DISK_WRITE then taken count answers.tail + 1 else 0

/-- A read of the packets, with whatever the variable `irq` happens to hold, and what it leaves. -/
structure SectorRead (udisk : CH375Disk) (packets : List (List Byte)) (status : Byte)
    (result : Int) (udisk' : CH375Disk) : Prop where
  equal : result = 0 → (List.range packets.flatten.length).map udisk'.byte = packets.flatten
  sent : result = 0 → ∀ answers, payloads (usbWriteBackBuf udisk' ⟨[], answers⟩).2.sent <+: packets
  failed : ¬(packets.length = udisk.blockPerSector.toNat ∧ status = USB_INT_SUCCESS) →
    result = status.toNat
  writeFailed : ∀ answers, ¬(taken udisk.blockPerSector.toNat answers =
      udisk.blockPerSector.toNat ∧ answers.get udisk.blockPerSector.toNat = USB_INT_SUCCESS) →
    (usbWriteBackBuf udisk' ⟨[], answers⟩).1 =
      (answers.get (taken udisk.blockPerSector.toNat answers)).toNat

def ReadsSector {blockPerSector : Word} (d : Delivery blockPerSector) : Prop :=
  ∀ (udisk : CH375Disk) (packets : List (List Byte)) (irq : Int) (sectorNum : Word)
    (sent : List UsbFrame) (rest : Stream' Byte),
    udisk.blockPerSector = blockPerSector → packets.map List.length = d.sizes →
      SectorRead udisk packets d.status
        (usbReadOneSector irq udisk sectorNum ⟨sent, readAnswers packets d.status rest⟩).1
        (usbReadOneSector irq udisk sectorNum ⟨sent, readAnswers packets d.status rest⟩).2.1

/-! ## Reading -/

def overlay (buf : Nat → Byte) (packet : List Byte) : Nat → Byte :=
  fun m => packet[m]?.getD (buf m)

section Read

variable {buf : Nat → Byte} {l : UsbLine} {packet : List Byte} {packets : List (List Byte)}
  {rest : Stream' Byte} {status : Byte} {udisk : CH375Disk} {sectorNum : Word} {irq : Int}
  {answers : Stream' Byte}

private theorem readBytes_eq (i : Nat) (h : l.answers = packet ++ₛ rest) :
    readBytes packet.length i buf l =
      (fun m => if i ≤ m then packet[m - i]?.getD (buf m) else buf m,
        { l with answers := rest }) := by
  induction packet generalizing i buf l with
  | nil =>
      have hbuf : (fun m => if i ≤ m then ([] : List Byte)[m - i]?.getD (buf m) else buf m) = buf
          := by
        funext m
        simp
      obtain ⟨sent, answers⟩ := l
      obtain rfl : answers = rest := h
      rw [hbuf]
      rfl
  | cons b packet ih =>
      have hhead : l.ch375Rd.1 = b := by
        change l.answers.head = b
        rw [h]
        rfl
      have htail : l.ch375Rd.2.answers = packet ++ₛ rest := by
        change l.answers.tail = _
        rw [h]
        rfl
      rw [List.length_cons, readBytes, ih (i + 1) htail, hhead]
      refine Prod.ext (funext fun m => ?_) rfl
      rcases Nat.lt_trichotomy m i with hless | rfl | hmore
      · simp [Function.update_of_ne (Nat.ne_of_lt hless), Nat.not_le.mpr hless,
          Nat.not_le.mpr (Nat.lt_succ_of_lt hless)]
      · simp
      · obtain ⟨k, rfl⟩ : ∃ k, m = i + 1 + k := ⟨m - (i + 1), by omega⟩
        simp [Function.update_of_ne (Nat.ne_of_gt hmore), show i + 1 + k - i = k + 1 by omega,
          show i ≤ i + 1 + k by omega]

private theorem readBlock_eq (buf : Nat → Byte) (hlength : packet.length < 256)
    (h : l.answers = BitVec.ofNat 8 packet.length :: packet ++ₛ rest) :
    (readBlock buf l).1 = overlay buf packet ∧ (readBlock buf l).2.answers = rest := by
  have hhead : (l.ch375Wr CMD_RD_USB_DATA).ch375Rd.1.toNat = packet.length := by
    change l.answers.head.toNat = _
    rw [h]
    exact Nat.mod_eq_of_lt hlength
  have htail : (l.ch375Wr CMD_RD_USB_DATA).ch375Rd.2.answers = packet ++ₛ rest := by
    change l.answers.tail = _
    rw [h]
    rfl
  unfold readBlock
  simp only [hhead]
  rw [readBytes_eq 0 htail]
  exact ⟨by funext m; simp [overlay], rfl⟩

private theorem readBlocks_eq (buf : Nat → Byte) (l : UsbLine) (count : Nat)
    (hlength : ∀ p ∈ packets, p.length < 256)
    (h : l.answers = packets.flatMap blockAnswers ++ₛ rest) :
    ∃ l' : UsbLine, l'.answers = rest ∧
      readBlocks (packets.length + count) buf l =
        readBlocks count (packets.foldl overlay buf) l' := by
  induction packets generalizing buf l with
  | nil => exact ⟨l, h, by rw [List.length_nil, Nat.zero_add]; rfl⟩
  | cons packet packets ih =>
      have hirq : l.getIrq.1 = USB_INT_DISK_READ := by
        change l.answers.head = _
        rw [h]
        rfl
      have htail : l.getIrq.2.answers =
          BitVec.ofNat 8 packet.length :: packet ++ₛ (packets.flatMap blockAnswers ++ₛ rest) := by
        change l.answers.tail = _
        rw [h, List.flatMap_cons, Stream'.append_append_stream]
        rfl
      obtain ⟨hbuf, hanswers⟩ :=
        readBlock_eq buf (hlength packet List.mem_cons_self) htail
      obtain ⟨l', hl', heq⟩ := ih (readBlock buf l.getIrq.2).1 _
        (fun p hp => hlength p (List.mem_cons_of_mem packet hp)) hanswers
      refine ⟨l', hl', ?_⟩
      rw [List.length_cons, Nat.add_right_comm, readBlocks, if_pos hirq, heq, hbuf,
        List.foldl_cons]

private theorem usbReadOneSector_complete (rest : Stream' Byte) (status : Byte) (udisk : CH375Disk)
    (sectorNum : Word) (irq : Int) (sent : List UsbFrame)
    (hcount : packets.length = udisk.blockPerSector.toNat)
    (hlength : ∀ p ∈ packets, p.length < 256) :
    (usbReadOneSector irq udisk sectorNum ⟨sent, readAnswers packets status rest⟩).1 =
        (if status = USB_INT_SUCCESS then 0 else (status.toNat : Int)) ∧
      (usbReadOneSector irq udisk sectorNum ⟨sent, readAnswers packets status rest⟩).2.1 =
        { udisk with buf := packets.foldl overlay udisk.buf, currentSector := sectorNum } := by
  obtain ⟨l', hl', heq⟩ := readBlocks_eq udisk.buf
    ((⟨sent, readAnswers packets status rest⟩ : UsbLine).address CMD_DISK_READ sectorNum) 0
    hlength rfl
  have hirq : l'.getIrq.1 = status := congrArg Stream'.head hl'
  unfold usbReadOneSector
  rw [← hcount, ← Nat.add_zero packets.length, heq, readBlocks]
  simp only [if_true, hirq]
  split_ifs
  · exact ⟨rfl, rfl⟩
  · exact ⟨rfl, rfl⟩

/-- A read that is ended early returns the variable that was never set. -/
theorem usbReadOneSector_stopped {sent : List UsbFrame}
    (hcount : packets.length < udisk.blockPerSector.toNat)
    (hlength : ∀ p ∈ packets, p.length < 256) (hstatus : status ≠ USB_INT_DISK_READ) :
    (usbReadOneSector irq udisk sectorNum ⟨sent, readAnswers packets status rest⟩).1 = irq := by
  obtain ⟨count, hmore⟩ : ∃ count, udisk.blockPerSector.toNat = packets.length + (count + 1) :=
    ⟨udisk.blockPerSector.toNat - packets.length - 1, by omega⟩
  obtain ⟨l', hl', heq⟩ := readBlocks_eq udisk.buf
    ((⟨sent, readAnswers packets status rest⟩ : UsbLine).address CMD_DISK_READ sectorNum)
    (count + 1) hlength rfl
  have hirq : l'.getIrq.1 ≠ USB_INT_DISK_READ := by
    rwa [show l'.getIrq.1 = status from congrArg Stream'.head hl']
  unfold usbReadOneSector
  rw [hmore, heq, readBlocks, if_neg hirq]
  rfl

end Read

/-! ## Writing back -/

def blockBytes (udisk : CH375Disk) (ibuf : Nat) : List Byte :=
  (List.range' ibuf CH375_BLOCK_SIZE).map udisk.byte

section WriteBack

variable {udisk : CH375Disk} {l : UsbLine} {fs : List UsbFrame} {answers : Stream' Byte}

private theorem payloads_data (bs : List Byte) :
    payloads (bs.map (⟨false, ·⟩) ++ fs) = payloads fs := by
  induction bs with
  | nil => rfl
  | cons b bs ih => exact ih

private theorem dataBytes_data (bs : List Byte) (c : Byte) :
    dataBytes (bs.map (⟨false, ·⟩) ++ ⟨true, c⟩ :: fs) = bs := by
  induction bs with
  | nil => rfl
  | cons b bs ih => exact congrArg (b :: ·) ih

private theorem payloads_command {c : Byte} (hc : c ≠ CMD_WR_USB_DATA7) :
    payloads (⟨true, c⟩ :: fs) = payloads fs := by
  simp [payloads, hc]

private theorem payloads_block (bs : List Byte) :
    payloads (⟨true, CMD_GET_STATUS⟩ :: ⟨true, CMD_WR_USB_DATA7⟩ ::
        ⟨true, BitVec.ofNat 8 CH375_BLOCK_SIZE⟩ ::
        (bs.map (⟨false, ·⟩) ++ ⟨true, CMD_DISK_WR_GO⟩ :: fs)) = bs :: payloads fs := by
  rw [payloads_command (by decide)]
  have hpayload : payloads (⟨true, CMD_WR_USB_DATA7⟩ ::
      ⟨true, BitVec.ofNat 8 CH375_BLOCK_SIZE⟩ ::
        (bs.map (⟨false, ·⟩) ++ ⟨true, CMD_DISK_WR_GO⟩ :: fs)) =
      dataBytes (bs.map (⟨false, ·⟩) ++ ⟨true, CMD_DISK_WR_GO⟩ :: fs) ::
        payloads (⟨true, BitVec.ofNat 8 CH375_BLOCK_SIZE⟩ ::
          (bs.map (⟨false, ·⟩) ++ ⟨true, CMD_DISK_WR_GO⟩ :: fs)) := rfl
  rw [hpayload, dataBytes_data, payloads_command (by decide), payloads_data,
    payloads_command (by decide)]

private theorem answers_writeBytes (count ibuf : Nat) :
    (writeBytes udisk count ibuf l).answers = l.answers := by
  induction count generalizing ibuf l with
  | zero => rfl
  | succ count ih => exact ih (ibuf + 1)

private theorem answers_writeBlock (ibuf : Nat) :
    (writeBlock udisk ibuf l.getIrq.2).answers = l.answers.tail := by
  rw [writeBlock, UsbLine.ch375Wr, answers_writeBytes]
  rfl

private theorem sent_writeBlock_getIrq (ibuf : Nat) :
    (writeBlock udisk ibuf l.getIrq.2).sent =
      l.sent ++ ⟨true, CMD_GET_STATUS⟩ :: ⟨true, CMD_WR_USB_DATA7⟩ ::
        ⟨true, BitVec.ofNat 8 CH375_BLOCK_SIZE⟩ ::
        ((blockBytes udisk ibuf).map (⟨false, ·⟩) ++ [⟨true, CMD_DISK_WR_GO⟩]) := by
  have hsent : l.getIrq.2.sent = l.sent ++ [⟨true, CMD_GET_STATUS⟩] := rfl
  rw [UsbLine.sent_writeBlock, hsent, List.append_assoc, blockBytes, List.map_map]
  rfl

private theorem payloads_writeBlocks (udisk : CH375Disk) (l : UsbLine) (count ibuf : Nat) :
    ∃ fs, (writeBlocks udisk count ibuf l).2.sent = l.sent ++ fs ∧
      ∀ fs', payloads (fs ++ fs') =
        (List.range (taken count l.answers)).map
            (fun j => blockBytes udisk (ibuf + CH375_BLOCK_SIZE * j)) ++ payloads fs' := by
  induction count generalizing ibuf l with
  | zero => exact ⟨[], (List.append_nil _).symm, fun _ => rfl⟩
  | succ count ih =>
      unfold writeBlocks taken
      by_cases hirq : l.answers.head = USB_INT_DISK_WRITE
      · obtain ⟨fs, hsent, hpayloads⟩ := ih (writeBlock udisk ibuf l.getIrq.2)
          (ibuf + CH375_BLOCK_SIZE)
        rw [answers_writeBlock] at hpayloads
        rw [sent_writeBlock_getIrq, List.append_assoc] at hsent
        rw [if_pos (show l.getIrq.1 = _ from hirq), if_pos hirq]
        refine ⟨_, hsent, fun fs' => ?_⟩
        simp only [List.cons_append, List.append_assoc, List.nil_append]
        rw [payloads_block, hpayloads, List.range_succ_eq_map, List.map_cons, List.map_map]
        simp only [Nat.mul_zero, Nat.add_zero, List.cons_append]
        congr 3
        funext k
        rw [Function.comp_apply, Nat.succ_eq_add_one, Nat.mul_add_one]
        congr 1
        omega
      · rw [if_neg (show l.getIrq.1 ≠ _ from hirq), if_neg hirq]
        exact ⟨[⟨true, CMD_GET_STATUS⟩], rfl, fun _ => payloads_command (by decide)⟩

private theorem payloads_usbWriteBackBuf (answers : Stream' Byte) :
    payloads (usbWriteBackBuf udisk ⟨[], answers⟩).2.sent =
      (List.range (taken udisk.blockPerSector.toNat answers)).map
        fun j => blockBytes udisk (CH375_BLOCK_SIZE * j) := by
  obtain ⟨fs, hsent, hpayloads⟩ := payloads_writeBlocks udisk
    ((⟨[], answers⟩ : UsbLine).address CMD_DISK_WRITE udisk.currentSector)
    udisk.blockPerSector.toNat 0
  rw [UsbLine.sent_address, List.nil_append, List.cons_append] at hsent
  have hwrite (fs' : List UsbFrame) (hnone : payloads fs' = []) :
      payloads (((writeBlocks udisk udisk.blockPerSector.toNat 0
          ((⟨[], answers⟩ : UsbLine).address CMD_DISK_WRITE udisk.currentSector)).2.sent) ++ fs') =
        (List.range (taken udisk.blockPerSector.toNat answers)).map
          fun j => blockBytes udisk (CH375_BLOCK_SIZE * j) := by
    rw [hsent, List.cons_append, List.append_assoc, payloads_command (by decide), payloads_data,
      hpayloads, hnone, List.append_nil]
    simp only [Nat.zero_add]
    rfl
  unfold usbWriteBackBuf
  generalize writeBlocks udisk udisk.blockPerSector.toNat 0
    ((⟨[], answers⟩ : UsbLine).address CMD_DISK_WRITE udisk.currentSector) = written at hwrite ⊢
  obtain ⟨_ | irq, line⟩ := written
  · simp only
    split_ifs
    · exact hwrite _ (payloads_command (by decide))
    · have hclear : line.getIrq.2.usbClearError.sent = line.sent ++
          [⟨true, CMD_GET_STATUS⟩, ⟨true, CMD_DISK_R_SENSE⟩, ⟨true, CMD_GET_STATUS⟩] := by
        simp [UsbLine.usbClearError, UsbLine.getIrq, UsbLine.ch375Wr, UsbLine.ch375Rd]
      simp only [hclear]
      exact hwrite _ (by decide)
  · have hclear : line.usbClearError.sent =
        line.sent ++ [⟨true, CMD_DISK_R_SENSE⟩, ⟨true, CMD_GET_STATUS⟩] := by
      simp [UsbLine.usbClearError, UsbLine.getIrq, UsbLine.ch375Wr, UsbLine.ch375Rd]
    simp only [hclear]
    exact hwrite _ (by decide)

private theorem taken_le (count : Nat) (answers : Stream' Byte) : taken count answers ≤ count := by
  induction count generalizing answers with
  | zero => exact le_rfl
  | succ count ih =>
      unfold taken
      split_ifs
      · exact Nat.succ_le_succ (ih answers.tail)
      · exact Nat.zero_le _

private theorem writeBlocks_status (udisk : CH375Disk) (l : UsbLine) (count ibuf : Nat) :
    (writeBlocks udisk count ibuf l).1 =
        (if taken count l.answers = count then none
        else some (l.answers.get (taken count l.answers))) ∧
      (taken count l.answers = count →
        (writeBlocks udisk count ibuf l).2.answers.head = l.answers.get count) := by
  induction count generalizing ibuf l with
  | zero => exact ⟨rfl, fun _ => rfl⟩
  | succ count ih =>
      unfold writeBlocks taken
      by_cases hirq : l.answers.head = USB_INT_DISK_WRITE
      · obtain ⟨hstatus, hlast⟩ := ih (ibuf + CH375_BLOCK_SIZE)
          (l := writeBlock udisk ibuf l.getIrq.2)
        rw [answers_writeBlock] at hstatus hlast
        rw [if_pos (show l.getIrq.1 = _ from hirq), if_pos hirq, hstatus]
        simp only [Nat.add_right_cancel_iff]
        exact ⟨rfl, hlast⟩
      · rw [if_neg (show l.getIrq.1 ≠ _ from hirq), if_neg hirq,
          if_neg (Nat.zero_ne_add_one count)]
        exact ⟨rfl, fun hzero => absurd hzero (Nat.zero_ne_add_one count)⟩

private theorem usbWriteBackBuf_result (answers : Stream' Byte) :
    (usbWriteBackBuf udisk ⟨[], answers⟩).1 =
      if taken udisk.blockPerSector.toNat answers = udisk.blockPerSector.toNat ∧
          answers.get udisk.blockPerSector.toNat = USB_INT_SUCCESS then 0
      else ((answers.get (taken udisk.blockPerSector.toNat answers)).toNat : Int) := by
  obtain ⟨hstatus, hlast⟩ := writeBlocks_status udisk
    ((⟨[], answers⟩ : UsbLine).address CMD_DISK_WRITE udisk.currentSector)
    udisk.blockPerSector.toNat 0
  change _ = (if taken udisk.blockPerSector.toNat answers = _ then none else _) at hstatus
  change taken udisk.blockPerSector.toNat answers = _ → _ = answers.get _ at hlast
  unfold usbWriteBackBuf
  generalize writeBlocks udisk udisk.blockPerSector.toNat 0
    ((⟨[], answers⟩ : UsbLine).address CMD_DISK_WRITE udisk.currentSector) = written
    at hstatus hlast ⊢
  obtain ⟨last, line⟩ := written
  by_cases hall : taken udisk.blockPerSector.toNat answers = udisk.blockPerSector.toNat
  · rw [if_pos hall] at hstatus
    obtain rfl : last = none := hstatus
    have hirq : line.getIrq.1 = answers.get udisk.blockPerSector.toNat := hlast hall
    simp only [hall, hirq, true_and]
    split_ifs <;> rfl
  · rw [if_neg hall] at hstatus
    obtain rfl : last = some _ := hstatus
    rw [if_neg fun h => hall h.1]
    rfl

end WriteBack

/-! ## One block and no more -/

section OneBlock

variable {udisk : CH375Disk} {packet : List Byte} {blockPerSector : Word}
  {d : Delivery blockPerSector}

private theorem byte_of_lt {i : Nat} (h : i < 520) : udisk.byte i = udisk.buf i := by
  unfold CH375Disk.byte
  rw [if_neg (by omega), if_neg (by omega)]

private theorem blockBytes_overlay (buf : Nat → Byte) (currentSector : Word)
    (h : packet.length = 64) :
    blockBytes ⟨overlay buf packet, blockPerSector, currentSector⟩ 0 = packet := by
  apply List.ext_getElem
  · rw [blockBytes, List.length_map, List.length_range', h]
    rfl
  · intro i hi hi'
    have hbyte : i < 520 := by omega
    simp [blockBytes, byte_of_lt hbyte, overlay, hi']

private theorem sectorRead_one (status : Byte) {result : Int} {buf : Nat → Byte}
    {currentSector : Word}
    (hone : udisk.blockPerSector.toNat = 1) (h : packet.length = 64)
    (hresult : result = if status = USB_INT_SUCCESS then 0 else (status.toNat : Int)) :
    SectorRead udisk [packet] status result
      ⟨overlay buf packet, udisk.blockPerSector, currentSector⟩ where
  equal := fun _ => by
    rw [List.flatten_singleton, h, List.range_eq_range']
    exact blockBytes_overlay buf currentSector h
  sent := fun _ answers => by
    rw [payloads_usbWriteBackBuf, hone]
    have hle := taken_le 1 answers
    obtain hnone | hsome : taken 1 answers = 0 ∨ taken 1 answers = 1 := by omega
    · rw [hnone]
      exact List.nil_prefix
    · rw [hsome, List.range_one, List.map_singleton, Nat.mul_zero,
        blockBytes_overlay buf currentSector h]
  failed := fun hfail => by
    rw [hresult, if_neg fun hok => hfail ⟨hone.symm, hok⟩]
  writeFailed := fun answers hfail => by
    rw [usbWriteBackBuf_result, if_neg hfail]

private theorem sectorRead_none (status : Byte) {result : Int} {udisk' : CH375Disk}
    (hblocks : udisk'.blockPerSector = udisk.blockPerSector)
    (hzero : udisk.blockPerSector.toNat = 0)
    (hresult : result = if status = USB_INT_SUCCESS then 0 else (status.toNat : Int)) :
    SectorRead udisk [] status result udisk' where
  equal := fun _ => rfl
  sent := fun _ answers => by
    rw [payloads_usbWriteBackBuf, hblocks, hzero]
    exact List.nil_prefix
  failed := fun hfail => by
    rw [hresult, if_neg fun hok => hfail ⟨hzero.symm, hok⟩]
  writeFailed := fun answers hfail => by
    rw [← hblocks] at hfail ⊢
    rw [usbWriteBackBuf_result, if_neg hfail]

private theorem sectorRead_failed {packets : List (List Byte)} {status : Byte} {udisk' : CH375Disk}
    (hblocks : udisk'.blockPerSector = udisk.blockPerSector) (hzero : status ≠ 0) :
    SectorRead udisk packets status status.toNat udisk' where
  equal := fun h => absurd (BitVec.eq_of_toNat_eq (Int.ofNat.inj h)) hzero
  sent := fun h => absurd (BitVec.eq_of_toNat_eq (Int.ofNat.inj h)) hzero
  failed := fun _ => rfl
  writeFailed := fun answers hfail => by
    rw [← hblocks] at hfail ⊢
    rw [usbWriteBackBuf_result, if_neg hfail]

private theorem taken_const (count : Nat) :
    taken count (Stream'.const USB_INT_DISK_WRITE) = count := by
  induction count with
  | zero => rfl
  | succ count ih =>
      have hhead : (Stream'.const USB_INT_DISK_WRITE).head = USB_INT_DISK_WRITE := rfl
      rw [taken, if_pos hhead]
      exact congrArg (· + 1) ih

private theorem map_length_replicate (sizes : List Nat) :
    (sizes.map fun n => List.replicate n (0 : Byte)).map List.length = sizes := by
  induction sizes with
  | nil => rfl
  | cons n sizes ih => rw [List.map_cons, List.map_cons, ih, List.length_replicate]

private theorem length_lt (d : Delivery blockPerSector) {packets : List (List Byte)}
    (h : packets.map List.length = d.sizes) : ∀ p ∈ packets, p.length < 256 := by
  intro p hp
  have hle := d.packet p.length (h ▸ List.mem_map_of_mem hp)
  omega

private theorem readsSector_of (hall : d.sizes.length = blockPerSector.toNat)
    (hone : d.status = USB_INT_SUCCESS ∨ d.status = 0 → d.sizes = [] ∨ d.sizes = [64]) :
    ReadsSector d := by
  rintro udisk packets irq sectorNum sent rest rfl hpackets
  have hcount : packets.length = udisk.blockPerSector.toNat := by
    rw [← hall, ← hpackets, List.length_map]
  obtain ⟨hresult, hdisk⟩ := usbReadOneSector_complete rest d.status udisk sectorNum irq sent
    hcount (length_lt d hpackets)
  rw [hdisk]
  by_cases hstatus : d.status = USB_INT_SUCCESS ∨ d.status = 0
  · rcases hone hstatus with hnone | hfull
    · obtain rfl : packets = [] := List.map_eq_nil_iff.mp (hpackets.trans hnone)
      exact sectorRead_none d.status rfl hcount.symm hresult
    · obtain ⟨packet, rfl, hlength⟩ := List.map_eq_singleton_iff.mp (hpackets.trans hfull)
      exact sectorRead_one d.status hcount.symm hlength hresult
  · rw [not_or] at hstatus
    rw [hresult, if_neg hstatus.1]
    exact sectorRead_failed rfl hstatus.2

/-! ## What goes wrong otherwise -/

private theorem length_eq_of_readsSector (h : ReadsSector d) :
    d.sizes.length = blockPerSector.toNat := by
  by_contra hne
  have hless : d.sizes.length < blockPerSector.toNat := lt_of_le_of_ne d.le hne
  let udisk : CH375Disk := ⟨fun _ => 0, blockPerSector, 0⟩
  let packets := d.sizes.map fun n => List.replicate n (0 : Byte)
  have hpackets : packets.map List.length = d.sizes := map_length_replicate d.sizes
  have hcount : packets.length < udisk.blockPerSector.toNat := by simpa [packets] using hless
  -- the variable that is returned holds no status at all
  have hread := h udisk packets 256 0 [] (Stream'.const 0) rfl hpackets
  have hfailed := hread.failed fun hok => absurd hok.1 (Nat.ne_of_lt hcount)
  rw [usbReadOneSector_stopped hcount (length_lt d hpackets) (d.stops hless)] at hfailed
  have hbyte := d.status.isLt
  omega

section Success

variable (h : ReadsSector d) (hstatus : d.status = USB_INT_SUCCESS ∨ d.status = 0)
  {packets : List (List Byte)} (hpackets : packets.map List.length = d.sizes)

include h hstatus hpackets

private theorem sectorRead_success :
    SectorRead ⟨fun _ => 0, blockPerSector, 0⟩ packets d.status 0
      ⟨packets.foldl overlay fun _ => 0, blockPerSector, 0⟩ := by
  have hread := h ⟨fun _ => 0, blockPerSector, 0⟩ packets 0 0 [] (Stream'.const 0) rfl hpackets
  have hcount : packets.length = blockPerSector.toNat := by
    rw [← length_eq_of_readsSector h, ← hpackets, List.length_map]
  obtain ⟨hresult, hdisk⟩ := usbReadOneSector_complete (Stream'.const 0) d.status
    ⟨fun _ => 0, blockPerSector, 0⟩ 0 0 [] hcount (length_lt d hpackets)
  have hzero : (if d.status = USB_INT_SUCCESS then 0 else (d.status.toNat : Int)) = 0 := by
    rcases hstatus with hok | hzero
    · rw [if_pos hok]
    · rw [hzero]
      rfl
  rw [hresult, hdisk, hzero] at hread
  exact hread

private theorem sizes_eq_replicate : d.sizes = List.replicate blockPerSector.toNat 64 := by
  have hcount : packets.length = blockPerSector.toNat := by
    rw [← length_eq_of_readsSector h, ← hpackets, List.length_map]
  have hsent := (sectorRead_success h hstatus hpackets).sent rfl
    (Stream'.const USB_INT_DISK_WRITE)
  rw [payloads_usbWriteBackBuf, taken_const] at hsent
  have heq := hsent.eq_of_length (by rw [List.length_map, List.length_range, hcount])
  rw [← hpackets, ← heq, List.map_map, List.eq_replicate_iff]
  refine ⟨by rw [List.length_map, List.length_range], fun n hn => ?_⟩
  obtain ⟨j, -, rfl⟩ := List.mem_map.mp hn
  rw [Function.comp_apply, blockBytes, List.length_map, List.length_range']
  rfl

end Success

/-- A second packet goes over the first one. -/
theorem blockPerSector_le_one (h : ReadsSector d)
    (hstatus : d.status = USB_INT_SUCCESS ∨ d.status = 0)
    (hsizes : d.sizes = List.replicate blockPerSector.toNat 64) : blockPerSector.toNat ≤ 1 := by
  by_contra hmore
  obtain ⟨k, hk⟩ : ∃ k, blockPerSector.toNat = k + 1 + 1 := ⟨blockPerSector.toNat - 2, by omega⟩
  let packets := List.replicate (k + 1) (List.replicate 64 (0 : Byte)) ++ [List.replicate 64 1]
  have hpackets : packets.map List.length = d.sizes := by
    rw [hsizes, hk, List.replicate_succ']
    simp [packets]
  have hequal := (sectorRead_success h hstatus hpackets).equal rfl
  have hfirst := congrArg (fun bytes => bytes[0]?) hequal
  simp [packets, List.foldl_append, overlay, byte_of_lt, List.replicate_succ] at hfirst

end OneBlock

/--
A sector comes back as it was, and every status is returned, just if a read does not
fail before its end and a sector is empty or one full packet.
-/
theorem usb_sector_iff {blockPerSector : Word} (d : Delivery blockPerSector) :
    ReadsSector d ↔
      d.sizes.length = blockPerSector.toNat ∧
        (d.status = USB_INT_SUCCESS ∨ d.status = 0 → d.sizes = [] ∨ d.sizes = [64]) := by
  constructor
  · intro h
    refine ⟨length_eq_of_readsSector h, fun hstatus => ?_⟩
    have hsizes := sizes_eq_replicate h hstatus (map_length_replicate d.sizes)
    have hle := blockPerSector_le_one h hstatus hsizes
    obtain hnone | hone : blockPerSector.toNat = 0 ∨ blockPerSector.toNat = 1 := by omega
    · exact Or.inl (by rw [hsizes, hnone]; rfl)
    · exact Or.inr (by rw [hsizes, hone]; rfl)
  · rintro ⟨hall, hone⟩
    exact readsSector_of hall hone

/-- A sector of eight packets, as a disk with sectors of 512 bytes delivers it. -/
def eightPackets : Delivery 8 where
  sizes := List.replicate 8 64
  status := USB_INT_SUCCESS
  le := by decide
  packet := by decide
  stops := by decide

theorem not_readsSector_eightPackets : ¬ReadsSector eightPackets := by
  intro h
  exact absurd (blockPerSector_le_one h (Or.inl rfl) rfl) (by decide)

end PComputer.PseudOS
