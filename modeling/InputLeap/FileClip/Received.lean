import InputLeap.FileClip.Basic
import InputLeap.Text.Surrounded
import InputLeap.Transfer.StreamChunker
import Mathlib.Data.List.DropRight

/-!
# The files of a paste in the received folder

Another program moves the files of a paste.  Their names say to which paste they belong and which
of its files they are, and the folder they arrive in is searched for them.

## Main definitions

* `FileClip.transferPrefix`, `FileClip.transferName` : the names files are sent under.
* `ReceivedFolder.Windows` : what the system answers about the folder.
* `ReceivedFolder.findReceived` : the search for a file that has arrived.

## Main results

* `FileClip.Distinguishes.eq_of_transferPrefix` : the beginning of a name belongs to one file of
  one paste, also where names are compared without regard to case.
* `ReceivedFolder.transfers_matched` : the file that is found is the one that was looked for, and
  it is not one that is being written.
-/

namespace InputLeap

/-- A text of 16 bit characters. -/
abbrev WString := List UInt16

/-- The bytes as characters. -/
def wide (s : Bytes) : WString := s.map UInt8.toUInt16

namespace FileClip

/-- The bytes of a paste request. -/
def requestBytes (request : String) : Bytes := request.toList.map fun c => UInt8.ofNat c.toNat

/-- `leapdesk-` -/
def leapdesk : Bytes := [108, 101, 97, 112, 100, 101, 115, 107, 45]

/-- How the name of a file of a paste starts, whatever the file is called. -/
def transferPrefix (request : String) (index : UInt64) : Bytes :=
  leapdesk ++ (requestBytes request ++ 45 :: (sizeToString (index + 1).toNat ++ [45]))

/-- The name that a file is sent under; there must be a file of that index. -/
def transferName (clip : FileClip) (request : String) (index : UInt64) : Option Bytes :=
  clip.files[index.toNat]?.map fun file => transferPrefix request index ++ file.name

end FileClip

namespace ReceivedFolder

/-- A file or folder, with the short name that it may have besides its name. -/
structure Entry where
  cFileName : WString
  alternate : Option WString
  directory : Bool
  alternate_length : ∀ s ∈ alternate, s.length ≤ 12

/-- The functions of the system: the characters of a text (`MultiByteToWideChar`), the characters
that it takes for the same in names, whether a name is that of a folder or of a file if there is one
(`GetFileAttributesW`), and what is found for a pattern (`FindFirstFileW`, `FindNextFileW`). -/
structure Windows where
  multiByteToWideChar : Bytes → WString
  upcase : UInt16 → UInt16
  attributes : WString → Option Bool
  find : WString → List Entry

/-- The characters of a text up to one that is 0; there are none of a text that is too long. -/
def Windows.widen (w : Windows) (text : Bytes) : WString :=
  if 2 ^ 31 - 1 < text.length then []
  else (w.multiByteToWideChar text).takeWhile fun c => c != 0

/-- `.partial` -/
def partialText : WString := [46, 112, 97, 114, 116, 105, 97, 108]

/-- A file that is still being written. -/
def isPartial (candidate : WString) : Bool :=
  decide (partialText.length < candidate.length) && partialText.isSuffixOf candidate

/-- A file that is not being written any more. -/
def Entry.hasArrived (e : Entry) : Bool := !e.directory && !isPartial e.cFileName

/-- The path of the file with the name, or of one whose name begins so and that is not being
written; empty if there is neither. -/
def findReceived (w : Windows) (folder : WString) (start name : Bytes) : WString :=
  if w.attributes (w.widen name) = some false then folder ++ 92 :: w.widen name
  else
    match (w.find (w.widen start ++ [42])).find? Entry.hasArrived with
    | some e => folder ++ 92 :: e.cFileName
    | none => []

/-! ### What the system promises -/

/-- The names are the same but for the case of their letters. -/
def Windows.SameName (w : Windows) (a b : WString) : Prop := a.map w.upcase = b.map w.upcase

/-- Dots and blanks do not count at the end of a name. -/
def isIgnored (c : UInt16) : Bool := c == 46 || c == 32

/-- The name without what does not count at its end. -/
def trim (n : WString) : WString := n.rdropWhile isIgnored

/-- The name is one of the names of the file. -/
def Windows.Names (w : Windows) (n : WString) (e : Entry) : Prop :=
  w.SameName (trim n) e.cFileName ∨ ∃ s ∈ e.alternate, w.SameName (trim n) s

/-- One of the names of the file begins so. -/
def Windows.Begins (w : Windows) (p : WString) (e : Entry) : Prop :=
  p.map w.upcase <+: e.cFileName.map w.upcase ∨
    ∃ s ∈ e.alternate, p.map w.upcase <+: s.map w.upcase

/-- The small letters and digits of numbers, and the mark between the parts of a name. -/
def IsLetter (b : UInt8) : Prop := b = 45 ∨ (48 ≤ b ∧ b ≤ 57) ∨ (97 ≤ b ∧ b ≤ 102)

/-- What is documented of the functions, for the files that are in the folder meanwhile: characters
of ASCII are themselves and come from nothing else, the letters that are used differ also without
regard to case, and only files that are there and have the name are found. -/
structure Windows.Documented (w : Windows) (entries : List Entry) : Prop where
  empty : w.multiByteToWideChar [] = []
  ascii_append : ∀ a s, (∀ b ∈ a, b < 128) →
    w.multiByteToWideChar (a ++ s) = wide a ++ w.multiByteToWideChar s
  mem_ascii : ∀ s, ∀ c ∈ w.multiByteToWideChar s, c < 128 → c ∈ wide s
  upcase_inj : ∀ a b, IsLetter a → IsLetter b →
    w.upcase a.toUInt16 = w.upcase b.toUInt16 → a = b
  attributes : ∀ n, 47 ∉ n → 92 ∉ n → 58 ∉ n → w.attributes n = some false →
    ∃ e ∈ entries, e.directory = false ∧ w.Names n e
  find : ∀ p : Bytes, (∀ b ∈ p, (97 ≤ b ∧ b ≤ 122) ∨ (48 ≤ b ∧ b ≤ 57) ∨ b = 45) →
    ∀ e ∈ w.find (wide p ++ [42]), e ∈ entries ∧ w.Begins (wide p) e

/-- The file is of a paste and has an index in it; its name may have been changed behind the
beginning. -/
def Entry.IsOf (e : Entry) (request : String) (index : UInt64) : Prop :=
  wide (FileClip.transferPrefix request index) <+: e.cFileName

/-- The path is empty, or that of a file which is of the paste and has the index in it: under the
name it has, or under the name it was looked for by. -/
def Found (w : Windows) (entries : List Entry) (folder : WString) (request : String)
    (index : UInt64) (name : Bytes) (path : WString) : Prop :=
  path = [] ∨ ∃ e ∈ entries, e.directory = false ∧ e.IsOf request index ∧
    (path = folder ++ 92 :: e.cFileName ∨
      path = folder ++ 92 :: w.widen name ∧ w.Names (w.widen name) e)

end ReceivedFolder

/-! ### The beginning of a name -/

namespace FileClip

open ReceivedFolder (IsLetter)

variable {request request' : String} {index index' : UInt64}

theorem sizeToString_inj {m n : UInt64} (h : sizeToString m.toNat = sizeToString n.toNat) :
    m = n := by
  have hread := congrArg stringToSizeType h
  rwa [stringToSizeType_sizeToString m.toNat_lt, stringToSizeType_sizeToString n.toNat_lt,
    UInt64.toNat_inj] at hread

/-- The digits of a number are letters, and not the mark. -/
theorem isLetter_of_mem_sizeToString {n : ℕ} {b : UInt8} (hb : b ∈ sizeToString n) :
    IsLetter b ∧ b ≠ 45 := by
  have hdigit := toNat_of_mem_sizeToString hb
  refine ⟨.inr (.inl hdigit), ?_⟩
  rintro rfl
  exact absurd hdigit.1 (by decide)

theorem toNat_of_mem_request (h : isValidPasteRequest request = true) {c : Char}
    (hc : c ∈ request.toList) :
    (48 ≤ c.toNat ∧ c.toNat ≤ 57) ∨ (97 ≤ c.toNat ∧ c.toNat ≤ 102) := by
  rw [isValidPasteRequest, Bool.and_eq_true, List.all_eq_true] at h
  have hchar := h.2 c hc
  simp only [Bool.or_eq_true, Bool.and_eq_true, decide_eq_true_eq] at hchar
  exact hchar

theorem length_request (h : isValidPasteRequest request = true) :
    8 ≤ request.toList.length ∧ request.toList.length ≤ 64 := by
  rw [isValidPasteRequest, Bool.and_eq_true, Bool.and_eq_true] at h
  exact ⟨of_decide_eq_true h.1.1, of_decide_eq_true h.1.2⟩

theorem isLetter_of_mem_requestBytes (h : isValidPasteRequest request = true) {b : UInt8}
    (hb : b ∈ requestBytes request) : IsLetter b ∧ b ≠ 45 := by
  obtain ⟨c, hc, rfl⟩ := List.mem_map.1 hb
  have hnat := toNat_of_mem_request h hc
  have hbyte : (UInt8.ofNat c.toNat).toNat = c.toNat := Nat.mod_eq_of_lt (by omega)
  refine ⟨.inr ?_, fun hmark => ?_⟩
  · simp only [UInt8.le_iff_toNat_le, hbyte]
    exact hnat
  · rw [hmark] at hbyte
    have h45 : (45 : UInt8).toNat = 45 := rfl
    omega

theorem requestBytes_inj (h : isValidPasteRequest request = true)
    (h' : isValidPasteRequest request' = true)
    (heq : requestBytes request = requestBytes request') : request = request' := by
  -- The characters are those of the bytes again.
  have hback : ∀ {r : String}, isValidPasteRequest r = true →
      (requestBytes r).map (fun b => Char.ofNat b.toNat) = r.toList := by
    intro r hr
    rw [requestBytes, List.map_map]
    refine (List.map_congr_left fun c hc => ?_).trans (List.map_id _)
    have hnat := toNat_of_mem_request hr hc
    have hbyte : (UInt8.ofNat c.toNat).toNat = c.toNat := Nat.mod_eq_of_lt (by omega)
    rw [Function.comp_apply, hbyte, Char.ofNat_toNat, id_eq]
  refine String.toList_inj.1 ?_
  rw [← hback h, ← hback h', heq]

theorem wide_transferPrefix (request : String) (index : UInt64) (rest : WString) :
    wide (transferPrefix request index) ++ rest = wide leapdesk ++ (wide (requestBytes request) ++
      45 :: (wide (sizeToString (index + 1).toNat) ++ 45 :: rest)) := by
  simp only [transferPrefix, wide, List.map_append, List.map_cons, List.append_assoc,
    List.cons_append]
  rfl

/-- Letters that differ are not taken for the same. -/
def Distinguishes {β : Type*} (f : UInt16 → β) : Prop :=
  ∀ a b, IsLetter a → IsLetter b → f a.toUInt16 = f b.toUInt16 → a = b

section Comparison

variable {β : Type*} {f : UInt16 → β} (hf : Distinguishes f)

include hf

theorem Distinguishes.map_inj {a b : Bytes} (ha : ∀ c ∈ a, IsLetter c) (hb : ∀ c ∈ b, IsLetter c)
    (h : (wide a).map f = (wide b).map f) : a = b := by
  induction a generalizing b with
  | nil =>
    rw [wide, List.map_nil, List.map_nil, eq_comm, List.map_eq_nil_iff, wide,
      List.map_eq_nil_iff] at h
    exact h.symm
  | cons x a ih =>
    cases b with
    | nil => cases h
    | cons y b =>
      obtain ⟨hxy, hrest⟩ := List.cons.inj h
      rw [hf x y (ha x List.mem_cons_self) (hb y List.mem_cons_self) hxy,
        ih (fun c hc => ha c (List.mem_cons_of_mem _ hc))
          (fun c hc => hb c (List.mem_cons_of_mem _ hc)) hrest]

theorem Distinguishes.ne_mark {a : Bytes} (ha : ∀ b ∈ a, IsLetter b ∧ b ≠ 45) :
    ∀ c ∈ wide a, f c ≠ f 45 := by
  intro c hc heq
  obtain ⟨b, hb, rfl⟩ := List.mem_map.1 hc
  exact (ha b hb).2 (hf b 45 (ha b hb).1 (.inl rfl) heq)

/-- **The beginning of a name** is that of one file of one paste, also where names are compared
without regard to case. -/
theorem Distinguishes.eq_of_transferPrefix (h : isValidPasteRequest request = true)
    (h' : isValidPasteRequest request' = true) (rest : WString)
    (hpre : (wide (transferPrefix request index)).map f <+:
      (wide (transferPrefix request' index') ++ rest).map f) :
    request = request' ∧ index = index' := by
  have hrequest : ∀ b ∈ requestBytes request, IsLetter b ∧ b ≠ 45 :=
    fun _ => isLetter_of_mem_requestBytes h
  have hrequest' : ∀ b ∈ requestBytes request', IsLetter b ∧ b ≠ 45 :=
    fun _ => isLetter_of_mem_requestBytes h'
  have hnumber : ∀ n, ∀ b ∈ sizeToString n, IsLetter b ∧ b ≠ 45 :=
    fun _ _ => isLetter_of_mem_sizeToString
  rw [← List.append_nil (wide (transferPrefix request index)), wide_transferPrefix,
    wide_transferPrefix, @List.map_append _ _ f (wide leapdesk),
    @List.map_append _ _ f (wide leapdesk), List.prefix_append_right_inj] at hpre
  obtain ⟨hwords, hbehind⟩ := Text.map_of_marked_prefix (hf.ne_mark hrequest)
    (hf.ne_mark hrequest') hpre
  obtain ⟨hnumbers, -⟩ := Text.map_of_marked_prefix (hf.ne_mark (hnumber _))
    (hf.ne_mark (hnumber _)) hbehind
  have hbytes := hf.map_inj (fun b hb => (hrequest b hb).1) (fun b hb => (hrequest' b hb).1) hwords
  have hdigits := hf.map_inj (fun b hb => (hnumber _ b hb).1) (fun b hb => (hnumber _ b hb).1)
    hnumbers
  exact ⟨requestBytes_inj h h' hbytes, (UInt64.add_left_inj 1).1 (sizeToString_inj hdigits)⟩

end Comparison

end FileClip

/-! ### The search -/

namespace ReceivedFolder

open FileClip (transferPrefix)

variable {w : Windows} {entries : List Entry} {request : String} {index : UInt64}

theorem length_transferPrefix (h : isValidPasteRequest request = true) (index : UInt64) :
    18 ≤ (transferPrefix request index).length ∧ (transferPrefix request index).length ≤ 95 := by
  have hrequest := FileClip.length_request h
  have hdigits : (Nat.toDigits 10 (index + 1).toNat).length ≤ 20 :=
    (Nat.length_toDigits_le_iff (by decide) (by decide)).2
      ((index + 1).toNat_lt.trans (by decide))
  simp only [transferPrefix, FileClip.requestBytes, FileClip.leapdesk, sizeToString,
    List.length_append, List.length_cons, List.length_nil, List.length_map]
  omega

/-- Only small letters, digits and marks are in the beginning of a name. -/
theorem mem_transferPrefix (h : isValidPasteRequest request = true) {b : UInt8}
    (hb : b ∈ transferPrefix request index) :
    (97 ≤ b ∧ b ≤ 122) ∨ (48 ≤ b ∧ b ≤ 57) ∨ b = 45 := by
  have hletter : ∀ {b : UInt8}, IsLetter b →
      (97 ≤ b ∧ b ≤ 122) ∨ (48 ≤ b ∧ b ≤ 57) ∨ b = 45 := by
    rintro b (hmark | hdigit | ⟨hlow, hhigh⟩)
    · exact .inr (.inr hmark)
    · exact .inr (.inl hdigit)
    · exact .inl ⟨hlow, UInt8.le_trans hhigh (by decide)⟩
  have hword : FileClip.leapdesk.all (fun b => 97 ≤ b && b ≤ 122 || b == 45) = true := by decide
  simp only [transferPrefix, List.mem_append, List.mem_cons, List.not_mem_nil, or_false] at hb
  obtain hb | hb | rfl | hb | rfl := hb
  · have hb' := List.all_eq_true.1 hword b hb
    rw [Bool.or_eq_true, Bool.and_eq_true, decide_eq_true_eq, decide_eq_true_eq, beq_iff_eq] at hb'
    exact hb'.imp_right .inr
  · exact hletter (FileClip.isLetter_of_mem_requestBytes h hb).1
  · exact .inr (.inr rfl)
  · exact hletter (FileClip.isLetter_of_mem_sizeToString hb).1
  · exact .inr (.inr rfl)

/-- The dots and blanks at the end of a name are behind its beginning. -/
theorem prefix_trim (request : String) (index : UInt64) (rest : WString) :
    wide (transferPrefix request index) <+: trim (wide (transferPrefix request index) ++ rest) := by
  induction rest using List.reverseRecOn with
  | nil =>
    have hbytes : transferPrefix request index = FileClip.leapdesk ++
        (FileClip.requestBytes request ++ 45 :: sizeToString (index + 1).toNat) ++ [45] := by
      rw [transferPrefix, List.append_assoc, List.append_assoc, List.cons_append]
    have hmark : wide (transferPrefix request index) = wide (FileClip.leapdesk ++
        (FileClip.requestBytes request ++ 45 :: sizeToString (index + 1).toNat)) ++ [45] :=
      (congrArg wide hbytes).trans List.map_append
    have htrim : trim (wide (transferPrefix request index) ++ []) =
        wide (transferPrefix request index) := by
      rw [List.append_nil, trim, hmark, List.rdropWhile_concat_neg _ _ _ (by decide)]
    exact ⟨[], (List.append_nil _).trans htrim.symm⟩
  | append_singleton rest c ih =>
    rw [trim, ← List.append_assoc]
    by_cases hc : isIgnored c = true
    · rw [List.rdropWhile_concat_pos _ _ _ hc]
      exact ih
    · rw [List.rdropWhile_concat_neg _ _ _ hc, List.append_assoc]
      exact List.prefix_append _ _

/-- A short name is too short to begin like the name of a file of a paste. -/
theorem begins_cFileName (h : isValidPasteRequest request = true) {e : Entry}
    (hbegins : w.Begins (wide (transferPrefix request index)) e) :
    (wide (transferPrefix request index)).map w.upcase <+: e.cFileName.map w.upcase := by
  obtain hname | ⟨s, hs, hshort⟩ := hbegins
  · exact hname
  · have hlength := hshort.length_le
    have hlong := (length_transferPrefix h index).1
    have halternate := e.alternate_length s hs
    simp only [wide, List.length_map] at hlength
    omega

theorem begins_of_names {rest : WString} {e : Entry}
    (hnames : w.Names (wide (transferPrefix request index) ++ rest) e) :
    w.Begins (wide (transferPrefix request index)) e := by
  have htrim := (prefix_trim request index rest).map w.upcase
  obtain hname | ⟨s, hs, hshort⟩ := hnames
  · exact .inl (hname ▸ htrim)
  · exact .inr ⟨s, hs, hshort ▸ htrim⟩

/-- A file of some paste whose name begins so is of that paste. -/
theorem isOf_of_begins (hw : w.Documented entries) (h : isValidPasteRequest request = true)
    {e : Entry} (htransferred : ∃ request' index', isValidPasteRequest request' = true ∧
      e.IsOf request' index') (hbegins : w.Begins (wide (transferPrefix request index)) e) :
    e.IsOf request index := by
  obtain ⟨request', index', hrequest', hof⟩ := htransferred
  obtain ⟨rest, hrest⟩ := id hof
  have hpre := begins_cFileName h hbegins
  rw [← hrest] at hpre
  have hdistinguishes : FileClip.Distinguishes w.upcase := hw.upcase_inj
  obtain ⟨rfl, rfl⟩ := hdistinguishes.eq_of_transferPrefix h hrequest' rest hpre
  exact hof

/-- The characters of a name begin with those of its beginning. -/
theorem widen_transferPrefix (hw : w.Documented entries) (h : isValidPasteRequest request = true)
    (index : UInt64) {name : Bytes} (hname : name.length ≤ FileClip.maxNameLength) :
    w.widen (transferPrefix request index ++ name) =
      wide (transferPrefix request index) ++
        (w.multiByteToWideChar name).takeWhile fun c => c != 0 := by
  have hascii : ∀ b ∈ transferPrefix request index, 0 < b ∧ b < 128 := by
    intro b hb
    have hchar := mem_transferPrefix h hb
    simp only [UInt8.le_iff_toNat_le, UInt8.lt_iff_toNat_lt, ← UInt8.toNat_inj] at hchar ⊢
    simp only [UInt8.reduceToNat] at hchar ⊢
    omega
  have hlength := (length_transferPrefix h index).2
  have hmax : FileClip.maxNameLength = 1024 := rfl
  rw [Windows.widen, if_neg, hw.ascii_append _ _ fun b hb => (hascii b hb).2,
    List.takeWhile_append_of_pos]
  · intro c hc
    obtain ⟨b, hb, rfl⟩ := List.mem_map.1 hc
    refine bne_iff_ne.2 fun hzero => ?_
    exact absurd (UInt8.toUInt16_inj.1 hzero) (UInt8.ne_of_lt (hascii b hb).1).symm
  · rw [List.length_append]
    omega

/-- A plain name has no character that would make a path of it. -/
theorem not_mem_widen (hw : w.Documented entries) (h : isValidPasteRequest request = true)
    {name : Bytes} (hplain : FileClip.isPlainName name = true) {b : UInt8}
    (hb : b = 47 ∨ b = 92 ∨ b = 58) :
    b.toUInt16 ∉ w.widen (transferPrefix request index ++ name) := by
  intro hmem
  have hbytes : b ∈ transferPrefix request index ++ name := by
    rw [Windows.widen] at hmem
    split_ifs at hmem
    · cases hmem
    · have hascii : b.toUInt16 < 128 := by
        obtain rfl | rfl | rfl := hb <;> decide
      obtain ⟨b', hb', heq⟩ := List.mem_map.1
        (hw.mem_ascii _ _ ((List.takeWhile_subset _) hmem) hascii)
      rwa [← UInt8.toUInt16_inj.1 heq]
  obtain hstart | hname := List.mem_append.1 hbytes
  · have hchar := mem_transferPrefix h hstart
    obtain rfl | rfl | rfl := hb <;> revert hchar <;> decide
  · rw [FileClip.isPlainName, Bool.and_eq_true, List.all_eq_true] at hplain
    have hchar := hplain.2 b hname
    obtain rfl | rfl | rfl := hb <;> revert hchar <;> decide

theorem widen_start (hw : w.Documented entries) (h : isValidPasteRequest request = true) :
    w.widen (transferPrefix request index) = wide (transferPrefix request index) := by
  have hempty : ([] : Bytes).length ≤ FileClip.maxNameLength := Nat.zero_le _
  have hwiden := widen_transferPrefix hw h index hempty
  rwa [hw.empty, List.append_nil, List.takeWhile_nil, List.append_nil] at hwiden

/-- The end of a path is that of the name in it, which is long. -/
theorem suffix_of_path {folder n : WString} (hlength : 18 ≤ n.length)
    (h : partialText <:+ folder ++ 92 :: n) : partialText <:+ n := by
  refine List.suffix_of_suffix_length_le h ?_ ((by decide : partialText.length ≤ 18).trans hlength)
  exact (List.suffix_cons 92 n).trans (List.suffix_append _ _)

/-- What the search finds is a file that is there, under the name or with such a beginning. -/
theorem findReceived_cases (w : Windows) (folder : WString) (start name : Bytes) :
    (w.attributes (w.widen name) = some false ∧
      findReceived w folder start name = folder ++ 92 :: w.widen name) ∨
    (∃ e ∈ w.find (w.widen start ++ [42]), e.directory = false ∧ isPartial e.cFileName = false ∧
      findReceived w folder start name = folder ++ 92 :: e.cFileName) ∨
    findReceived w folder start name = [] := by
  rw [findReceived]
  split_ifs with hattributes
  · exact .inl ⟨hattributes, rfl⟩
  · split
    · next e he =>
      have hfound := List.find?_some he
      rw [Entry.hasArrived, Bool.and_eq_true, Bool.not_eq_true', Bool.not_eq_true'] at hfound
      exact .inr (.inl ⟨e, List.mem_of_find?_eq_some he, hfound.1, hfound.2, rfl⟩)
    · exact .inr (.inr rfl)

/-- **Transferred files** are matched: the beginning of a name is that of a file of one paste and
index only, and what is found for a file of a paste is that file or none, and is not one that is
being written unless it has such a name itself. -/
theorem transfers_matched {request request' : String} (h : isValidPasteRequest request = true)
    (h' : isValidPasteRequest request' = true) (index index' : UInt64) (clip : FileClip) :
    (∀ name, clip.transferName request' index' = some name →
      transferPrefix request index <+: name → request = request' ∧ index = index') ∧
    ∀ (w : Windows) (entries : List Entry) (folder : WString), w.Documented entries →
      (∀ e ∈ entries, e.directory = false → ∃ request' index',
        isValidPasteRequest request' = true ∧ e.IsOf request' index') →
      (∀ file ∈ clip.files, FileClip.isPlainName file.name = true ∧
        file.name.length ≤ FileClip.maxNameLength) →
      ∀ name, clip.transferName request index = some name →
        Found w entries folder request index name
          (findReceived w folder (transferPrefix request index) name) ∧
        (partialText <:+ findReceived w folder (transferPrefix request index) name →
          partialText <:+ w.widen name) := by
  refine ⟨fun name hname hpre => ?_, fun w entries folder hw hentries hfiles name hname => ?_⟩
  · obtain ⟨file, -, rfl⟩ := Option.map_eq_some_iff.1 hname
    obtain ⟨rest, hrest⟩ := hpre
    have hdistinguishes : FileClip.Distinguishes (id : UInt16 → UInt16) :=
      fun a b _ _ heq => UInt8.toUInt16_inj.1 heq
    refine hdistinguishes.eq_of_transferPrefix h h' (wide file.name) ⟨wide rest, ?_⟩
    rw [List.map_id, List.map_id, wide, wide, wide, wide, ← List.map_append, ← List.map_append,
      hrest]
  · obtain ⟨file, hfile, rfl⟩ := Option.map_eq_some_iff.1 hname
    obtain ⟨hplain, hmax⟩ := hfiles file (List.mem_of_getElem? hfile)
    have hwiden := widen_transferPrefix hw h index hmax
    have hlong := (length_transferPrefix h index).1
    obtain ⟨hattributes, hpath⟩ | ⟨e, he, hdirectory, hpartial, hpath⟩ | hpath :=
      findReceived_cases w folder (transferPrefix request index)
        (transferPrefix request index ++ file.name)
    · obtain ⟨e, he, hdirectory, hnames⟩ := hw.attributes _
        (not_mem_widen hw h hplain (b := 47) (.inl rfl))
        (not_mem_widen hw h hplain (b := 92) (.inr (.inl rfl)))
        (not_mem_widen hw h hplain (b := 58) (.inr (.inr rfl))) hattributes
      have hbegins := begins_of_names (hwiden ▸ hnames)
      have hof := isOf_of_begins hw h (hentries e he hdirectory) hbegins
      rw [hpath]
      refine ⟨.inr ⟨e, he, hdirectory, hof, .inr ⟨rfl, hnames⟩⟩, suffix_of_path ?_⟩
      rw [hwiden, List.length_append, wide, List.length_map]
      omega
    · rw [widen_start hw h] at he
      obtain ⟨hmem, hbegins⟩ := hw.find _ (fun b => mem_transferPrefix h) e he
      have hof := isOf_of_begins hw h (hentries e hmem hdirectory) hbegins
      have hlength := hof.length_le
      rw [wide, List.length_map] at hlength
      rw [hpath]
      refine ⟨.inr ⟨e, hmem, hdirectory, hof, .inl rfl⟩, fun hsuffix => ?_⟩
      have hend := suffix_of_path (by omega) hsuffix
      have hshort : partialText.length < e.cFileName.length := by
        have hpartialText : partialText.length = 8 := rfl
        omega
      rw [isPartial, decide_eq_true hshort, Bool.true_and] at hpartial
      exact absurd (List.isSuffixOf_iff_suffix.2 hend) (Bool.eq_false_iff.1 hpartial)
    · rw [hpath]
      exact ⟨.inl rfl, fun hsuffix => absurd (List.suffix_nil.1 hsuffix) (by decide)⟩

/-- The capital letter of a small letter of ASCII. -/
def capital (c : UInt16) : UInt16 := if 97 ≤ c ∧ c ≤ 122 then c - 32 else c

/-- A folder in which only characters of ASCII have capital letters. -/
def folderOf (entries : List Entry) : Windows where
  multiByteToWideChar := wide
  upcase := capital
  attributes n :=
    (entries.find? fun e => (trim n).map capital = e.cFileName.map capital).map Entry.directory
  find pattern :=
    entries.filter fun e => pattern.dropLast.map capital <+: e.cFileName.map capital

theorem toNat_capital (b : UInt8) : (capital b.toUInt16).toNat =
    if 97 ≤ b.toNat ∧ b.toNat ≤ 122 then b.toNat - 32 else b.toNat := by
  rw [capital]
  simp only [UInt16.le_iff_toNat_le, UInt8.toNat_toUInt16, UInt16.reduceToNat]
  split_ifs with h
  · have hle : (32 : UInt16) ≤ b.toUInt16 := by
      rw [UInt16.le_iff_toNat_le, UInt8.toNat_toUInt16]
      exact (by decide : (32 : UInt16).toNat ≤ 97).trans h.1
    rw [UInt16.toNat_sub_of_le _ _ hle, UInt8.toNat_toUInt16]
    rfl
  · rfl

theorem capital_inj : FileClip.Distinguishes capital := by
  intro a b ha hb heq
  have hnat := congrArg UInt16.toNat heq
  rw [toNat_capital, toNat_capital] at hnat
  simp only [IsLetter, UInt8.le_iff_toNat_le, ← UInt8.toNat_inj, UInt8.reduceToNat] at ha hb ⊢
  split_ifs at hnat <;> omega

theorem documented_folderOf (entries : List Entry) : (folderOf entries).Documented entries where
  empty := rfl
  ascii_append a s _ := List.map_append
  mem_ascii s c hc _ := hc
  upcase_inj := capital_inj
  attributes n _ _ _ h := by
    obtain ⟨e, he, hdirectory⟩ := Option.map_eq_some_iff.1 h
    have hname : (trim n).map capital = e.cFileName.map capital := by
      simpa using List.find?_some he
    exact ⟨e, List.mem_of_find?_eq_some he, hdirectory, .inl hname⟩
  find p _ e he := by
    simp only [folderOf, List.dropLast_concat] at he
    obtain ⟨hmem, hbegins⟩ := List.mem_filter.1 he
    have hname : (wide p).map capital <+: e.cFileName.map capital := by simpa using hbegins
    exact ⟨hmem, .inl hname⟩

/-- A clip of two files called `a` and `b`. -/
def twoFiles : FileClip := ⟨[49], [⟨[97], 1, 0⟩, ⟨[98], 1, 0⟩]⟩

/-- A file that has arrived from a paste, with `rest` behind the beginning of its name. -/
def arrived (request : String) (index : UInt64) (rest : Bytes) : Entry :=
  ⟨wide (transferPrefix request index ++ rest), none, false, nofun⟩

theorem isOf_arrived (request : String) (index : UInt64) (rest : Bytes) :
    (arrived request index rest).IsOf request index :=
  ⟨wide rest, by rw [arrived, wide, wide, wide, List.map_append]⟩

/-- The files of two pastes: one that is being written, one under its name, and one under another
name, `a-2`. -/
def twoTransfers : List Entry :=
  [arrived "00000000" 0 [97, 46, 112, 97, 114, 116, 105, 97, 108], arrived "00000001" 1 [98],
    arrived "00000000" 0 [97, 45, 50]]

/-- The file of the first paste is found under its other name. -/
theorem transfers_matched_twoTransfers :
    ¬transferPrefix "00000000" 0 <+: transferPrefix "00000001" 1 ++ [98] ∧
    findReceived (folderOf twoTransfers) [67, 58] (transferPrefix "00000000" 0)
        (transferPrefix "00000000" 0 ++ [97]) =
      [67, 58, 92] ++ wide (transferPrefix "00000000" 0 ++ [97, 45, 50]) ∧
    Found (folderOf twoTransfers) twoTransfers [67, 58] "00000000" 0
      (transferPrefix "00000000" 0 ++ [97])
      ([67, 58, 92] ++ wide (transferPrefix "00000000" 0 ++ [97, 45, 50])) := by
  have hzeros : isValidPasteRequest "00000000" = true := by decide
  have hone : isValidPasteRequest "00000001" = true := by decide
  have h := transfers_matched hzeros hone 0 1 twoFiles
  have hpath : findReceived (folderOf twoTransfers) [67, 58] (transferPrefix "00000000" 0)
        (transferPrefix "00000000" 0 ++ [97]) =
      [67, 58, 92] ++ wide (transferPrefix "00000000" 0 ++ [97, 45, 50]) := by
    decide +kernel
  have hfound := h.2 (folderOf twoTransfers) twoTransfers [67, 58]
    (documented_folderOf twoTransfers) ?_ ?_ (transferPrefix "00000000" 0 ++ [97]) rfl
  · exact ⟨fun hpre => absurd (h.1 _ rfl hpre).1 (by decide), hpath, hpath ▸ hfound.1⟩
  · intro e he _
    simp only [twoTransfers, List.mem_cons, List.not_mem_nil, or_false] at he
    rcases he with rfl | rfl | rfl
    · exact ⟨_, _, hzeros, isOf_arrived _ _ _⟩
    · exact ⟨_, _, hone, isOf_arrived _ _ _⟩
    · exact ⟨_, _, hzeros, isOf_arrived _ _ _⟩
  · intro file hfile
    simp only [twoFiles, List.mem_cons, List.not_mem_nil, or_false] at hfile
    rcases hfile with rfl | rfl
    · exact ⟨by decide, by decide⟩
    · exact ⟨by decide, by decide⟩

end ReceivedFolder

end InputLeap
