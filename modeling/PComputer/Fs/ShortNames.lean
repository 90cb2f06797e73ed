import PComputer.Fs.Fat32

/-!
# Names of files

The name in a directory record is padded with spaces; `FAT32_Read` cuts the
padding off before it compares.  It reads one byte too many to cut the padding of
an extension off, and leaves the padding unless that byte happens to be a space.
-/

namespace PComputer.PseudOS

open PComputer.Foundation

variable {l name ext file : List Byte} {junk : Byte} {n : Nat}

/-! ## Padding -/

def pad (n : Nat) (name : List Byte) : List Byte := name ++ List.replicate (n - name.length) 0x20

/-- A name or an extension of a path: no zeros, no dots, no spaces at the end. -/
structure PlainName (name : List Byte) : Prop where
  zero : (0 : Byte) ∉ name
  dot : (0x2e : Byte) ∉ name
  space : ∀ h : name ≠ [], name.getLast h ≠ 0x20

private theorem cstr_of_notMem (h : (0 : Byte) ∉ l) : cstr l = l := by
  unfold cstr
  rw [List.takeWhile_eq_self_iff]
  intro x hx
  exact bne_iff_ne.mpr fun h0 => h (h0 ▸ hx)

private theorem strncpy_of_notMem (h : (0 : Byte) ∉ l) (hlength : l.length = n) :
    strncpy n l = l := by
  unfold strncpy
  simp only [List.take_of_length_le hlength.le, cstr_of_notMem h, hlength, Nat.sub_self,
    List.replicate_zero, List.append_nil]

private theorem trimSpaces_append (l : List Byte) (k : Nat) :
    trimSpaces (l ++ List.replicate k 0x20) = trimSpaces l := by
  induction k with
  | zero => rw [List.replicate_zero, List.append_nil]
  | succ k ih =>
      rw [List.replicate_succ', ← List.append_assoc]
      exact (List.rdropWhile_concat_pos _ _ _ rfl).trans ih

private theorem trimSpaces_append_replicate (l : List Byte) :
    l = trimSpaces l ++ List.replicate (l.length - (trimSpaces l).length) 0x20 := by
  have hsplit := List.rdropWhile_append_rtakeWhile (p := fun x : Byte => x == 0x20) (l := l)
  have hlength := congrArg List.length hsplit
  rw [List.length_append] at hlength
  have hspaces : l.rtakeWhile (· == 0x20) =
      List.replicate (l.length - (trimSpaces l).length) 0x20 := by
    rw [List.eq_replicate_iff]
    refine ⟨?_, fun x hx => ?_⟩
    · unfold trimSpaces
      omega
    · exact beq_iff_eq.mp (List.mem_rtakeWhile_imp (p := fun x : Byte => x == 0x20) hx)
  rw [← hspaces]
  exact hsplit.symm

private theorem trimSpaces_eq_self (h : PlainName name) : trimSpaces name = name := by
  unfold trimSpaces
  rw [List.rdropWhile_eq_self_iff]
  exact fun hne => by simpa using h.space hne

private theorem length_pad (h : name.length ≤ n) : (pad n name).length = n := by
  unfold pad
  rw [List.length_append, List.length_replicate]
  omega

private theorem trimSpaces_eq_iff (h : PlainName name) (hlength : l.length = n) :
    trimSpaces l = name ↔ l = pad n name := by
  constructor
  · rintro rfl
    unfold pad
    rw [← hlength]
    exact trimSpaces_append_replicate l
  · rintro rfl
    exact (trimSpaces_append _ _).trans (trimSpaces_eq_self h)

/-! ## Fields of a record -/

/-- A field shows the name: padded with spaces, or cut off by a zero. -/
def Shows (n : Nat) (field name : List Byte) : Prop :=
  field = pad n name ∨ ∃ rest, field = name ++ 0 :: rest

private theorem length_strncpy (n : Nat) (src : List Byte) : (strncpy n src).length = n := by
  have hle : (cstr (src.take n)).length ≤ n :=
    (List.takeWhile_prefix _).length_le.trans (List.length_take_le _ _)
  unfold strncpy
  rw [List.length_append, List.length_replicate]
  omega

private theorem cstr_append_zero {l : List Byte} (h : (0 : Byte) ∉ l) (rest : List Byte) :
    cstr (l ++ 0 :: rest) = l := by
  have hall : ∀ x ∈ l, (x != 0) = true := by
    intro x hx
    exact bne_iff_ne.mpr fun h0 => h (h0 ▸ hx)
  unfold cstr
  rw [List.takeWhile_append_of_pos hall]
  simp

private theorem strncpy_append_zero {l : List Byte} (h : (0 : Byte) ∉ l) (rest : List Byte)
    (hlength : (l ++ 0 :: rest).length = n) :
    strncpy n (l ++ 0 :: rest) = l ++ List.replicate (n - l.length) 0 := by
  unfold strncpy
  rw [List.take_of_length_le hlength.le, cstr_append_zero h]

private theorem exists_zeros {l rest : List Byte} (hlength : (l ++ 0 :: rest).length = n) :
    ∃ m, n - l.length = m + 1 := by
  rw [List.length_append, List.length_cons] at hlength
  exact ⟨rest.length, by omega⟩

private theorem notMem_pad (h : PlainName name) : (0 : Byte) ∉ pad n name := by
  unfold pad
  rw [List.mem_append, List.mem_replicate, not_or]
  exact ⟨h.zero, fun h0 => absurd h0.2 (by decide)⟩

private theorem cstr_trimSpaces_iff (h : PlainName name) {field : List Byte}
    (hlength : field.length = n) :
    cstr (trimSpaces (strncpy n field)) = name ↔ Shows n field name := by
  by_cases hzero : (0 : Byte) ∈ field
  · obtain ⟨l, rest, rfl, hl⟩ := List.eq_append_cons_of_mem hzero
    obtain ⟨m, hm⟩ := exists_zeros hlength
    -- a copy that ends with a zero has no space to trim
    have htrim : trimSpaces (l ++ List.replicate (m + 1) 0) = l ++ List.replicate (m + 1) 0 := by
      unfold trimSpaces
      rw [List.replicate_succ', ← List.append_assoc]
      exact List.rdropWhile_concat_neg _ _ _ (by decide)
    rw [strncpy_append_zero hl rest hlength, hm, htrim, List.replicate_succ, cstr_append_zero hl]
    constructor
    · rintro rfl
      exact .inr ⟨rest, rfl⟩
    · rintro (hpad | ⟨rest', heq⟩)
      · exact absurd (hpad ▸ hzero) (notMem_pad h)
      · rw [← cstr_append_zero hl rest, heq, cstr_append_zero h.zero]
  · have htrim : (0 : Byte) ∉ trimSpaces field := fun h0 =>
      hzero ((List.rdropWhile_prefix _ _).mem h0)
    rw [strncpy_of_notMem hzero hlength, cstr_of_notMem htrim, trimSpaces_eq_iff h hlength]
    refine ⟨.inl, fun hshows => hshows.resolve_right ?_⟩
    rintro ⟨rest, rfl⟩
    exact hzero (List.mem_append_right _ List.mem_cons_self)

private theorem cstr_strncpy {field : List Byte} (hlength : field.length = n) :
    cstr (strncpy n field) = cstr field := by
  by_cases hzero : (0 : Byte) ∈ field
  · obtain ⟨l, rest, rfl, hl⟩ := List.eq_append_cons_of_mem hzero
    obtain ⟨m, hm⟩ := exists_zeros hlength
    rw [strncpy_append_zero hl rest hlength, hm, List.replicate_succ, cstr_append_zero hl,
      cstr_append_zero hl]
  · rw [strncpy_of_notMem hzero hlength]

private theorem shows_iff_of_length (h : PlainName name) (hname : name.length = n)
    {field : List Byte}
    (hlength : field.length = n) : Shows n field name ↔ cstr field = name := by
  have hpad : pad n name = name := by
    rw [pad, hname, Nat.sub_self, List.replicate_zero, List.append_nil]
  unfold Shows
  rw [hpad]
  constructor
  · rintro (rfl | ⟨rest, rfl⟩)
    · exact cstr_of_notMem h.zero
    · rw [List.length_append, List.length_cons] at hlength
      omega
  · intro hcstr
    left
    have hinitial : cstr field <+: field := List.takeWhile_prefix _
    rw [hcstr] at hinitial
    exact (hinitial.eq_of_length (hname.trans hlength.symm)).symm

private theorem shows_of_cstr {field : List Byte} (hlength : field.length = n)
    (hcstr : cstr field = name) : Shows n field name := by
  by_cases hzero : (0 : Byte) ∈ field
  · obtain ⟨l, rest, rfl, hl⟩ := List.eq_append_cons_of_mem hzero
    rw [cstr_append_zero hl] at hcstr
    rw [hcstr]
    exact .inr ⟨rest, rfl⟩
  · rw [cstr_of_notMem hzero] at hcstr
    left
    rw [hcstr, pad, ← hcstr, hlength, Nat.sub_self, List.replicate_zero, List.append_nil]

/-! ## The name in a record -/

namespace DirectoryRecord

variable {record : List Byte}

/-- The record is that of `name` and `ext`. -/
def Names (record name ext : List Byte) : Prop :=
  shortname record = pad 8 name ++ pad 3 ext

/-- Neither deleted, nor a directory, nor part of a long name. -/
def Live (record : List Byte) : Prop :=
  record.getD 0 0 ≠ 0xe5 ∧ attribD record = false ∧
    ¬(attribR record = true ∧ attribH record = true ∧ attribS record = true ∧
      attribV record = true)

/--
Any 32 bytes that are live and show `name` and `ext`.  A record has no zeros in its name,
but what lies outside the directory may.
-/
def Resembles (record name ext : List Byte) : Prop :=
  Live record ∧ Shows 8 ((shortname record).take 8) name ∧ Shows 3 ((shortname record).drop 8) ext

private theorem isValidFile_iff :
    isValidFile record = true ↔ record.getD 0 0 ≠ 0 ∧ Live record := by
  unfold isValidFile Live
  simp only [Bool.not_eq_true', Bool.or_eq_false_iff, Bool.and_eq_false_iff, beq_eq_false_iff_ne,
    ne_eq, and_assoc]
  cases attribR record <;> cases attribH record <;> cases attribS record <;>
    cases attribV record <;> simp

private theorem names_iff (hname : name.length ≤ 8) :
    Names record name ext ↔
      (shortname record).take 8 = pad 8 name ∧ (shortname record).drop 8 = pad 3 ext := by
  unfold Names
  constructor
  · intro h
    rw [h]
    exact ⟨List.take_left' (length_pad hname), List.drop_left' (length_pad hname)⟩
  · rintro ⟨htake, hdrop⟩
    rw [← htake, ← hdrop, List.take_append_drop]

theorem Names.resembles (h : Names record name ext) (hlive : Live record)
    (hname : name.length ≤ 8) : Resembles record name ext :=
  ⟨hlive, .inl ((names_iff hname).mp h).1, .inl ((names_iff hname).mp h).2⟩

theorem Resembles.names (h : Resembles record name ext)
    (hzero : (0 : Byte) ∉ shortname record) (hname : name.length ≤ 8) :
    Names record name ext := by
  obtain ⟨-, htake, hdrop⟩ := h
  refine (names_iff hname).mpr ⟨htake.resolve_right ?_, hdrop.resolve_right ?_⟩
  · rintro ⟨rest, heq⟩
    refine hzero (List.mem_of_mem_take (i := 8) ?_)
    rw [heq]
    exact List.mem_append_right _ List.mem_cons_self
  · rintro ⟨rest, heq⟩
    refine hzero (List.mem_of_mem_drop (i := 8) ?_)
    rw [heq]
    exact List.mem_append_right _ List.mem_cons_self

section Length

variable (hlength : record.length = 32)

include hlength

private theorem length_take_shortname : ((shortname record).take 8).length = 8 := by
  unfold shortname
  rw [List.length_take, List.length_take, hlength]
  rfl

private theorem length_drop_shortname : ((shortname record).drop 8).length = 3 := by
  unfold shortname
  rw [List.length_drop, List.length_take, hlength]
  rfl

private theorem recName_iff (hname : PlainName name) :
    recName record = name ↔ Shows 8 ((shortname record).take 8) name := by
  rw [← cstr_trimSpaces_iff hname (length_take_shortname hlength)]
  have hcopy : strncpy 8 (shortname record) = strncpy 8 ((shortname record).take 8) := by
    unfold strncpy
    rw [List.take_take]
    rfl
  rw [recName, hcopy]

omit hlength in
/-- Without luck the padding of an extension stays. -/
private theorem recExt_eq {junk : Byte} (hjunk : junk ≠ 0x20) :
    recExt record junk = cstr (strncpy 3 ((shortname record).drop 8)) := by
  unfold recExt trimSpaces
  rw [List.rdropWhile_concat_neg _ _ _ (by simpa using hjunk),
    List.take_left' (length_strncpy 3 _)]

omit hlength in
private theorem recExt_space :
    recExt record 0x20 = cstr (trimSpaces (strncpy 3 ((shortname record).drop 8))) := by
  have hhead := List.rdropWhile_prefix (fun x : Byte => x == 0x20)
    (strncpy 3 ((shortname record).drop 8))
  unfold recExt trimSpaces
  rw [List.rdropWhile_concat_pos _ _ _ rfl,
    List.take_of_length_le (hhead.length_le.trans (length_strncpy 3 _).le)]

end Length

variable (hlength : record.length = 32) (hname : PlainName name) (hext : PlainName ext)

include hlength hname hext

theorem resembles_of_isFile (h : isFile record junk name ext = true) :
    Resembles record name ext := by
  unfold isFile at h
  simp only [Bool.and_eq_true, beq_iff_eq] at h
  obtain ⟨⟨hvalid, hn⟩, he⟩ := h
  refine ⟨(isValidFile_iff.mp hvalid).2, (recName_iff hlength hname).mp hn, ?_⟩
  by_cases hjunk : junk = 0x20
  · rw [hjunk, recExt_space] at he
    exact (cstr_trimSpaces_iff hext (length_drop_shortname hlength)).mp he
  · rw [recExt_eq hjunk, cstr_strncpy (length_drop_shortname hlength)] at he
    exact shows_of_cstr (length_drop_shortname hlength) he

omit hlength hext in
private theorem Resembles.getD_ne_zero (h : Resembles record name ext) (hne : name ≠ []) :
    record.getD 0 0 ≠ 0 := by
  obtain ⟨x, rest, rfl⟩ := List.exists_cons_of_ne_nil hne
  have hx : x ≠ 0 := fun h0 => hname.zero (h0 ▸ List.mem_cons_self)
  have hfirst : ((shortname record).take 8).getD 0 0 = x := by
    rcases h.2.1 with heq | ⟨_, heq⟩ <;> rw [heq] <;> rfl
  have hrecord : record.getD 0 0 = ((shortname record).take 8).getD 0 0 := by
    unfold shortname
    cases record <;> rfl
  rw [hrecord, hfirst]
  exact hx

omit hext in
private theorem Resembles.isFile_iff (h : Resembles record name ext) (hne : name ≠ []) :
    isFile record junk name ext = true ↔ recExt record junk = ext := by
  have hvalid := isValidFile_iff.mpr ⟨h.getD_ne_zero hname hne, h.1⟩
  unfold isFile
  rw [hvalid, (recName_iff hlength hname).mpr h.2.1]
  simp

/-- With a space in `rec_ext[3]` the test of the code is right. -/
theorem Resembles.isFile_space (h : Resembles record name ext) (hne : name ≠ []) :
    isFile record 0x20 name ext = true := by
  rw [h.isFile_iff hlength hname hne, recExt_space]
  exact (cstr_trimSpaces_iff hext (length_drop_shortname hlength)).mpr h.2.2

theorem Resembles.isFile (h : Resembles record name ext) (hne : name ≠ [])
    (hthree : ext.length = 3) : isFile record junk name ext = true := by
  by_cases hjunk : junk = 0x20
  · rw [hjunk]
    exact h.isFile_space hlength hname hext hne
  · have hdrop := length_drop_shortname hlength
    rw [h.isFile_iff hlength hname hne, recExt_eq hjunk, cstr_strncpy hdrop]
    exact (shows_iff_of_length hext hthree hdrop).mp h.2.2

omit hname in
theorem length_of_isFile (hext3 : ext.length ≤ 3) (hname8 : name.length ≤ 8)
    (hjunk : junk ≠ 0x20) (hnames : Names record name ext)
    (h : DirectoryRecord.isFile record junk name ext = true) : ext.length = 3 := by
  have hdrop := ((names_iff hname8).mp hnames).2
  unfold DirectoryRecord.isFile at h
  simp only [Bool.and_eq_true, beq_iff_eq] at h
  have he := h.2
  rw [recExt_eq hjunk, cstr_strncpy (length_drop_shortname hlength), hdrop,
    cstr_of_notMem (notMem_pad hext)] at he
  rw [← he, length_pad hext3]

end DirectoryRecord

/-! ## Paths -/

def IsPath (file name ext : List Byte) : Prop :=
  file = 0x2f :: (name ++ 0x2e :: ext) ∨ ext = [] ∧ file = 0x2f :: name

private theorem lastDot_eq_self (hdot : file[n]? = some 0x2e) : lastDot file n = n := by
  cases n with
  | zero => rfl
  | succ n => exact if_pos hdot

private theorem lastDot_add (i : Nat) (hnone : ∀ j, n < j → j ≤ n + i → file[j]? ≠ some 0x2e) :
    lastDot file (n + i) = lastDot file n := by
  induction i with
  | zero => rfl
  | succ i ih =>
      have hlast : file[n + i + 1]? ≠ some 0x2e := hnone _ (by omega) (by omega)
      exact (if_neg hlast).trans (ih fun j hj hle => hnone j hj (by omega))

private theorem getElem?_ne_dot {l : List Byte} (hdot : (0x2e : Byte) ∉ l) (i : Nat) :
    l[i]? ≠ some 0x2e :=
  fun h => hdot (List.mem_of_getElem? h)

theorem parsePath_eq (hpath : IsPath file name ext) (hname : PlainName name)
    (hext : PlainName ext) (hname8 : name.length ≤ 8) (hext3 : ext.length ≤ 3) :
    parsePath file = some (name, ext) := by
  unfold parsePath
  rcases hpath with rfl | ⟨rfl, rfl⟩
  · have hdot : (0x2f :: (name ++ 0x2e :: ext) : List Byte)[name.length + 1]? = some 0x2e := by
      rw [List.getElem?_cons_succ, List.getElem?_append_right (Nat.le_refl _), Nat.sub_self]
      rfl
    have hlast : lastDot (0x2f :: (name ++ 0x2e :: ext)) (name.length + 1 + ext.length) =
        name.length + 1 := by
      rw [lastDot_add, lastDot_eq_self hdot]
      intro j hj hle
      obtain ⟨i, rfl⟩ := Nat.exists_eq_add_of_lt hj
      rw [show name.length + 1 + i + 1 = name.length + (i + 1) + 1 by omega,
        List.getElem?_cons_succ, List.getElem?_append_right (by omega), Nat.add_sub_cancel_left]
      exact getElem?_ne_dot hext.dot i
    have hlength : (0x2f :: (name ++ 0x2e :: ext) : List Byte).length - 1 =
        name.length + 1 + ext.length := by
      simp only [List.length_cons, List.length_append]
      omega
    have hdrop : (0x2f :: (name ++ 0x2e :: ext) : List Byte).drop (name.length + 1 + 1) = ext := by
      rw [List.drop_succ_cons, ← List.drop_drop, List.drop_left]
      rfl
    simp only [hlength, hlast, hdrop, List.head?_cons, ne_eq, not_true_eq_false, if_false,
      Nat.succ_ne_zero, List.drop_succ_cons, List.drop_zero, Nat.add_sub_cancel, List.take_left']
    rw [if_neg (by omega), if_neg (by omega), if_neg (by omega)]
  · have hlast : lastDot (0x2f :: name) (0 + name.length) = 0 := by
      rw [lastDot_add]
      · rfl
      · intro j hj hle
        obtain ⟨i, rfl⟩ := Nat.exists_eq_succ_of_ne_zero hj.ne'
        rw [List.getElem?_cons_succ]
        exact getElem?_ne_dot hname.dot i
    rw [Nat.zero_add] at hlast
    simp only [List.length_cons, Nat.add_sub_cancel, hlast, List.head?_cons, ne_eq,
      not_true_eq_false, if_false, if_true, List.drop_succ_cons, List.drop_zero, List.length_nil]
    rw [if_neg (by omega), if_neg (by omega)]
    rfl

end PComputer.PseudOS
