import PComputer.Fs.ReadWithin

/-!
# Continuous files

Where the entries of a file's clusters are read as they lie in the FAT, the code takes
the file if one of them is at least `0x0fffffff`, and refuses it if the clusters break
off before any such entry.
-/

namespace PComputer.PseudOS

open PComputer.Foundation

namespace Fat32

variable {fs : Fat32} {disk : Disk} {junk : Word → Word → Byte} {clusters chain : List Word}
  {c d : Word} {file record : List Byte} {seek size : Word}

/-! ## Entries of consecutive clusters -/

private theorem taken_iff_of_countsUp (h : fs.CountsUp disk c d) :
    fs.Taken disk c ↔ fs.Taken disk d := by
  constructor
  · rintro ⟨e, hpath, hend⟩
    rcases hpath.cases_head with rfl | ⟨d', hstep, hrest⟩
    · exact absurd h.2.1 (BitVec.not_lt.mpr (h.2.2 ▸ hend))
    · obtain rfl : d' = d := hstep.1.trans h.1.symm
      exact ⟨e, hrest, hend⟩
  · rintro ⟨e, hpath, hend⟩
    exact ⟨e, .head h hpath, hend⟩

/-- Of a continuous file one entry must be at least `0x0fffffff`, its end marker or another. -/
theorem Chain.taken_iff (h : fs.Chain disk c clusters) (hconsecutive : Consecutive clusters)
    (hreads : ∀ d ∈ clusters, fs.entryRead disk d = fs.fatEntry disk d)
    (hgood : ∀ d ∈ clusters, d < 0x0ffffff7) :
    fs.Taken disk c ↔ ∃ d ∈ clusters, 0x0fffffff ≤ fs.fatEntry disk d := by
  induction h with
  | @last c hc hlt hend =>
      have hread := hreads c List.mem_cons_self
      simp only [List.mem_singleton, exists_eq_left]
      refine ⟨?_, fun h => ⟨c, .refl, hread ▸ h⟩⟩
      rintro ⟨d, hpath, hd⟩
      rcases hpath.cases_head with rfl | ⟨d', ⟨rfl, hlow, hentry⟩, -⟩
      · exact hread ▸ hd
      · rw [hread] at hentry
        have hsucc : c.toNat < 0x0ffffff7 := hgood c List.mem_cons_self
        rw [clusterOf_of_lt (hentry ▸ hlow), hentry] at hend
        have hend' : 0x0ffffff8 ≤ (c + 1).toNat := hend
        rw [BitVec.toNat_add] at hend'
        change 0x0ffffff8 ≤ (c.toNat + 1) % 2 ^ 32 at hend'
        omega
  | @next c rest hc hlt hrest ih =>
      obtain ⟨tail, rfl⟩ := hrest.exists_cons
      have hread := hreads c List.mem_cons_self
      obtain ⟨hnext, htail⟩ := List.isChain_cons_cons.mp hconsecutive
      by_cases hend : 0x0fffffff ≤ fs.fatEntry disk c
      · exact iff_of_true ⟨c, .refl, hread ▸ hend⟩ ⟨c, List.mem_cons_self, hend⟩
      · have hlow : fs.fatEntry disk c < 0x0fffffff := BitVec.not_le.mp hend
        have hentry := clusterOf_of_lt hlow
        have hstep : fs.CountsUp disk c (clusterOf (fs.fatEntry disk c)) :=
          ⟨hnext, by rw [hentry]; exact hlow, hread.trans hentry.symm⟩
        rw [taken_iff_of_countsUp hstep, ih htail
          (fun d hd => hreads d (List.mem_cons_of_mem _ hd))
          fun d hd => hgood d (List.mem_cons_of_mem _ hd)]
        simp only [List.exists_mem_cons_iff _ c, hend, false_or]

private theorem refused_iff_of_countsUp (h : fs.CountsUp disk c d) :
    fs.Refused disk c ↔ fs.Refused disk d := by
  constructor
  · rintro ⟨e, hpath, hlow, hne⟩
    rcases hpath.cases_head with rfl | ⟨d', hstep, hrest⟩
    · exact absurd (h.2.2.trans h.1) hne
    · obtain rfl : d' = d := hstep.1.trans h.1.symm
      exact ⟨e, hrest, hlow, hne⟩
  · rintro ⟨e, hpath, hend⟩
    exact ⟨e, .head h hpath, hend⟩

/-- Up to the first gap between two clusters no entry is at least `0x0fffffff`. -/
def Breaks (fs : Fat32) (disk : Disk) (clusters : List Word) : Prop :=
  ∃ before c d after, clusters = before ++ c :: d :: after ∧ d ≠ c + 1 ∧
    ∀ e ∈ before ++ [c], fs.fatEntry disk e < 0x0fffffff

private theorem breaks_cons_of_ne {rest : List Word} (hne : d ≠ c + 1) :
    fs.Breaks disk (c :: d :: rest) ↔ fs.fatEntry disk c < 0x0fffffff := by
  constructor
  · rintro ⟨before, c', d', after, heq, -, hlow⟩
    cases before with
    | nil => exact (List.cons.inj heq).1 ▸ hlow c' List.mem_cons_self
    | cons b before => exact (List.cons.inj heq).1 ▸ hlow b List.mem_cons_self
  · intro hlow
    exact ⟨[], c, d, rest, rfl, hne, by simpa using hlow⟩

private theorem breaks_cons_of_eq {rest : List Word} (heq : d = c + 1) :
    fs.Breaks disk (c :: d :: rest) ↔
      fs.fatEntry disk c < 0x0fffffff ∧ fs.Breaks disk (d :: rest) := by
  constructor
  · rintro ⟨before, c', d', after, hsplit, hne, hlow⟩
    cases before with
    | nil =>
        obtain ⟨rfl, htail⟩ := List.cons.inj hsplit
        exact absurd ((List.cons.inj htail).1.symm.trans heq) hne
    | cons b before =>
        obtain ⟨rfl, htail⟩ := List.cons.inj hsplit
        exact ⟨hlow c List.mem_cons_self, before, c', d', after, htail, hne, fun e he =>
          hlow e (List.mem_cons_of_mem _ he)⟩
  · rintro ⟨hfirst, before, c', d', after, htail, hne, hlow⟩
    exact ⟨c :: before, c', d', after, congrArg (c :: ·) htail, hne,
      List.forall_mem_cons.mpr ⟨hfirst, hlow⟩⟩

/-- A file with a gap is refused just if the entries lead the code to it. -/
theorem Chain.refused_iff (h : fs.Chain disk c clusters) (hbroken : ¬Consecutive clusters)
    (hreads : ∀ d ∈ clusters, fs.entryRead disk d = fs.fatEntry disk d) :
    fs.Refused disk c ↔ fs.Breaks disk clusters := by
  induction h with
  | @last c => exact absurd (List.IsChain.singleton c) hbroken
  | @next c rest hc hlt hrest ih =>
      obtain ⟨tail, rfl⟩ := hrest.exists_cons
      have hread := hreads c List.mem_cons_self
      by_cases hlow : fs.fatEntry disk c < 0x0fffffff
      · have hentry := clusterOf_of_lt hlow
        by_cases hnext : clusterOf (fs.fatEntry disk c) = c + 1
        · have hstep : fs.CountsUp disk c (clusterOf (fs.fatEntry disk c)) :=
            ⟨hnext, by rw [hentry]; exact hlow, hread.trans hentry.symm⟩
          rw [refused_iff_of_countsUp hstep, breaks_cons_of_eq hnext,
            ih (fun htail => hbroken (List.isChain_cons_cons.mpr ⟨hnext, htail⟩))
              fun d hd => hreads d (List.mem_cons_of_mem _ hd)]
          exact (and_iff_right hlow).symm
        · rw [breaks_cons_of_ne hnext]
          refine iff_of_true ⟨c, .refl, hread ▸ hlow, ?_⟩ hlow
          rw [hread, ← hentry]
          exact hnext
      · have hnotBreaks : ¬fs.Breaks disk (c :: clusterOf (fs.fatEntry disk c) :: tail) := by
          by_cases hnext : clusterOf (fs.fatEntry disk c) = c + 1
          · rw [breaks_cons_of_eq hnext]
            exact fun hbreaks => hlow hbreaks.1
          · rw [breaks_cons_of_ne hnext]
            exact hlow
        refine iff_of_false ?_ hnotBreaks
        rintro ⟨e, hpath, hend, -⟩
        rcases hpath.cases_head with rfl | ⟨d', ⟨-, hd', hentry⟩, -⟩
        · exact hlow (hread ▸ hend)
        · exact hlow (hread ▸ hentry ▸ hd')

/-! ## Files that are not empty -/

/-- The clusters of a file by the rules of FAT32; `0x0ffffff7` marks a bad one. -/
structure FileClusters (fs : Fat32) (disk : Disk) (record : List Byte) (clusters : List Word) :
    Prop where
  nonempty : DirectoryRecord.fileSize record ≠ 0
  chain : fs.Chain disk (DirectoryRecord.fileCluster record) clusters
  good : 0x0ffffff7 ∉ clusters
  room : (DirectoryRecord.fileSize record).toNat ≤ clusters.length * fs.bytesPerCluster

def ReadInPlace (fs : Fat32) (disk : Disk) (clusters : List Word) : Prop :=
  ∀ c ∈ clusters, fs.entryRead disk c = fs.fatEntry disk c

private theorem readInPlace_of_fits (h : ∀ c ∈ clusters, fs.fatByte c + 4 < 2 ^ 32) :
    fs.ReadInPlace disk clusters :=
  fun c hc => nextEntry_eq (h c hc)

private theorem Chain.lt_of_mem (h : fs.Chain disk c clusters) (hd : d ∈ clusters) :
    d < 0x0ffffff8 := by
  induction h with
  | last _ hlt => exact List.mem_singleton.mp hd ▸ hlt
  | next _ hlt _ ih =>
      rcases List.mem_cons.mp hd with rfl | hd
      · exact hlt
      · exact ih hd

theorem FileClusters.lt (h : fs.FileClusters disk record clusters) (hd : d ∈ clusters) :
    d < 0x0ffffff7 := by
  have hlt : d.toNat < 0x0ffffff8 := h.chain.lt_of_mem hd
  have hne : d.toNat ≠ 0x0ffffff7 := fun heq =>
    h.good ((BitVec.eq_of_toNat_eq heq : d = 0x0ffffff7) ▸ hd)
  exact BitVec.lt_def.mpr (by change d.toNat < 0x0ffffff7; omega)

private theorem FileClusters.contiguous (h : fs.FileClusters disk record clusters)
    (hsectors : fs.sectorsPerCluster ≠ 0) (hconsecutive : Consecutive clusters) :
    fs.ContiguousFile disk record clusters :=
  ⟨hsectors, fun hempty => absurd hempty h.nonempty, fun _ => h.chain, hconsecutive, h.room⟩

def JudgedRight (fs : Fat32) (disk : Disk) (record : List Byte) (clusters : List Word) : Prop :=
  (Consecutive clusters → fs.Taken disk (DirectoryRecord.fileCluster record)) ∧
    (¬Consecutive clusters → fs.Refused disk (DirectoryRecord.fileCluster record))

private theorem FileClusters.judgedRight_iff (h : fs.FileClusters disk record clusters)
    (hplace : fs.ReadInPlace disk clusters) :
    fs.JudgedRight disk record clusters ↔
      (Consecutive clusters → ∃ c ∈ clusters, 0x0fffffff ≤ fs.fatEntry disk c) ∧
        (¬Consecutive clusters → fs.Breaks disk clusters) :=
  and_congr
    (imp_congr_right fun hconsecutive =>
      h.chain.taken_iff hconsecutive hplace fun _ hd => h.lt hd)
    (imp_congr_right fun hbroken => h.chain.refused_iff hbroken hplace)

/-! ## Their bytes -/

private theorem readsBytes_iff : fs.ReadsBytes disk record clusters seek size ↔
    (fs.clusterByte (DirectoryRecord.fileCluster record) + seek.toNat) % 2 ^ 32 +
        left record seek size < 2 ^ 32 ∧
      ∀ i < left record seek size,
        disk.byte
            ((fs.clusterByte (DirectoryRecord.fileCluster record) + seek.toNat) % 2 ^ 32 + i) =
          disk.byte (fs.filePos clusters (seek.toNat + i)) := by
  unfold ReadsBytes fileBytes Disk.bytes
  refine and_congr_right fun _ => ?_
  rw [List.range'_eq_map_range, List.range'_eq_map_range, List.map_map, List.map_map,
    List.map_inj_left]
  simp only [List.mem_range, Function.comp_apply]

private theorem readsBytes_of_whole
    (h : fs.ReadsBytes disk record clusters 0 (DirectoryRecord.fileSize record))
    (hrange : seek.toNat + size.toNat ≤ (DirectoryRecord.fileSize record).toNat) :
    fs.ReadsBytes disk record clusters seek size := by
  have hwhole : left record 0 (DirectoryRecord.fileSize record) =
      (DirectoryRecord.fileSize record).toNat := Nat.min_self _
  have hpart : left record seek size = size.toNat := by
    unfold left
    omega
  rw [readsBytes_iff, hwhole] at h
  rw [readsBytes_iff, hpart]
  obtain ⟨hfits, hbytes⟩ := h
  have hzero : (0 : Word).toNat = 0 := rfl
  simp only [hzero, Nat.add_zero, Nat.zero_add] at hfits hbytes
  have hpos : (fs.clusterByte (DirectoryRecord.fileCluster record) + seek.toNat) % 2 ^ 32 =
      fs.clusterByte (DirectoryRecord.fileCluster record) % 2 ^ 32 + seek.toNat := by
    omega
  rw [hpos]
  refine ⟨by omega, fun i hi => ?_⟩
  rw [Nat.add_assoc]
  exact hbytes (seek.toNat + i) (by omega)

/-! ## Chains by the rules of FAT32 -/

/--
`FAT32_Read` refuses a file whose clusters are not consecutive, reads the bytes of
every other, and goes through the root directory as its chain says.
-/
structure FollowsChains (fs : Fat32) (disk : Disk) (chain : List Word) (file record : List Byte)
    (clusters : List Word) : Prop where
  refuses : ¬Consecutive clusters → ∀ (junk : Word → Word → Byte) (stack : List Byte),
    stack.length = 32 → ∃ fuel, ∀ seek size buf,
      fs.fat32Read disk junk stack fuel file seek size buf = some (-1, buf)
  reads : Consecutive clusters → ∀ (junk : Word → Word → Byte) (stack : List Byte),
    stack.length = 32 → ∃ fuel, ∀ (seek size : Word) (buf : List Byte),
      seek.toNat + size.toNat ≤ (DirectoryRecord.fileSize record).toNat →
        size.toNat ≤ buf.length →
          fs.fat32Read disk junk stack fuel file seek size buf =
            some (size.toInt, fs.fileBytes disk clusters seek.toNat size.toNat ++
              buf.drop size.toNat)
  walks : fs.Walks disk fs.root chain
  loop : ∀ (junk : Word → Word → Byte) (name ext : List Byte) (fuel : Nat) (record : List Byte),
    fs.walk disk junk name ext fuel fs.root record =
      fs.walkAlong disk junk name ext chain fuel record

section FollowsChains

variable (hfound : fs.Found disk file record) (hclusters : fs.FileClusters disk record clusters)

include hfound hclusters

private theorem refuses_iff_refused :
    (∀ (junk : Word → Word → Byte) (stack : List Byte), stack.length = 32 →
      ∃ fuel, ∀ seek size buf,
        fs.fat32Read disk junk stack fuel file seek size buf = some (-1, buf)) ↔
      fs.Refused disk (DirectoryRecord.fileCluster record) := by
  have hc : DirectoryRecord.fileCluster record < 0x0fffffff :=
    BitVec.lt_trans hclusters.chain.lt (by decide)
  constructor
  · intro hrefuses
    have hstack : (List.replicate 32 (0 : Byte)).length = 32 := List.length_replicate
    obtain ⟨fuel, hread⟩ := hrefuses (fun _ _ => 0) _ hstack
    obtain ⟨fuel', b, -, hrefused, -, hread'⟩ := hfound.fat32Read hc hstack fun _ _ => 0
    have hresult := fat32Read_unique (hread 0 0 []) (hread' 0 0 [])
    cases b with
    | false => exact hrefused.mp rfl
    | true =>
        have hzero : clampedSize record 0 0 = 0 := by
          unfold clampedSize
          rw [if_neg (by simp [BitVec.lt_def])]
        have hstatus : (-1 : Int) = (clampedSize record 0 0).toInt := congrArg Prod.fst hresult
        rw [hzero] at hstatus
        cases hstatus
  · intro hrefused junk stack hstack
    obtain ⟨fuel, b, -, hrefused', -, hread⟩ := hfound.fat32Read hc hstack junk
    obtain rfl := hrefused'.mpr hrefused
    exact ⟨fuel, hread⟩

variable (hsectors : fs.sectorsPerCluster ≠ 0) (hconsecutive : Consecutive clusters)

include hsectors hconsecutive

private theorem reads_iff_taken :
    (∀ (junk : Word → Word → Byte) (stack : List Byte), stack.length = 32 →
      ∃ fuel, ∀ (seek size : Word) (buf : List Byte),
        seek.toNat + size.toNat ≤ (DirectoryRecord.fileSize record).toNat →
          size.toNat ≤ buf.length →
            fs.fat32Read disk junk stack fuel file seek size buf =
              some (size.toInt, fs.fileBytes disk clusters seek.toNat size.toNat ++
                buf.drop size.toNat)) ↔
      fs.Taken disk (DirectoryRecord.fileCluster record) ∧
        fs.ReadsBytes disk record clusters 0 (DirectoryRecord.fileSize record) := by
  have hc : DirectoryRecord.fileCluster record < 0x0fffffff :=
    BitVec.lt_trans hclusters.chain.lt (by decide)
  have hfile := hclusters.contiguous hsectors hconsecutive
  have hpositive : (DirectoryRecord.fileSize record).toNat ≠ 0 := fun hzero =>
    hclusters.nonempty (BitVec.eq_of_toNat_eq hzero)
  have hclamp {seek size : Word}
      (hrange : seek.toNat + size.toNat ≤ (DirectoryRecord.fileSize record).toNat) :
      clampedSize record seek size = size ∧ left record seek size = size.toNat := by
    have hlt := (DirectoryRecord.fileSize record).isLt
    have hsum : (seek + size).toNat = seek.toNat + size.toNat := by
      rw [BitVec.toNat_add]
      exact Nat.mod_eq_of_lt (by omega)
    refine ⟨if_neg ?_, ?_⟩
    · rw [BitVec.lt_def, hsum]
      omega
    · unfold left
      omega
  constructor
  · intro hreads
    have hstack : (List.replicate 32 (0 : Byte)).length = 32 := List.length_replicate
    obtain ⟨fuel, hread⟩ := hreads (fun _ _ => 0) _ hstack
    obtain ⟨fuel', b, htaken, -, -, hread'⟩ := hfound.fat32Read hc hstack fun _ _ => 0
    have hresult {seek size : Word} {buf : List Byte}
        (hrange : seek.toNat + size.toNat ≤ (DirectoryRecord.fileSize record).toNat)
        (hbuf : size.toNat ≤ buf.length) :=
      fat32Read_unique (hread seek size buf hrange hbuf) (hread' seek size buf)
    cases b with
    | false =>
        have hone : (0 : Word).toNat + (1 : Word).toNat ≤
            (DirectoryRecord.fileSize record).toNat := by
          change 0 + 1 ≤ _
          omega
        have hroom : (1 : Word).toNat ≤ [(0 : Byte)].length := Nat.le_refl 1
        cases congrArg Prod.fst (hresult hone hroom)
    | true =>
        have hrange : (0 : Word).toNat + (DirectoryRecord.fileSize record).toNat ≤
            (DirectoryRecord.fileSize record).toNat := (Nat.zero_add _).le
        obtain ⟨hclamped, hleft⟩ := hclamp hrange
        have hiff := hfile.seekAndRead_iff (congrArg BitVec.toNat hclamped |>.trans hleft.symm)
        rw [hleft] at hiff
        refine ⟨htaken.mp rfl, (hiff.mp fun buf hbuf => ?_).resolve_left hpositive⟩
        exact (congrArg Prod.snd (hresult hrange hbuf)).symm
  · rintro ⟨htaken, hbytes⟩ junk stack hstack
    obtain ⟨fuel, b, htaken', -, -, hread⟩ := hfound.fat32Read hc hstack junk
    obtain rfl := htaken'.mpr htaken
    refine ⟨fuel, fun seek size buf hrange hbuf => (hread seek size buf).trans ?_⟩
    obtain ⟨hclamped, hleft⟩ := hclamp hrange
    have hiff := hfile.seekAndRead_iff (congrArg BitVec.toNat hclamped |>.trans hleft.symm)
    rw [hleft] at hiff
    refine congrArg some (Prod.ext ?_ ?_)
    · exact congrArg BitVec.toInt hclamped
    · exact hiff.mpr (.inr (readsBytes_of_whole hbytes hrange)) buf hbuf

end FollowsChains

end Fat32

end PComputer.PseudOS
