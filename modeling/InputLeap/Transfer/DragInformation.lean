import InputLeap.Text.Find
import InputLeap.Transfer.StreamChunker

/-!
# Drag information

Before files are dragged to another screen, their names and sizes are sent as one text with a
comma behind every name and every size, together with the number of files.  The receiver takes
the text apart with two positions.  After an entry it goes on behind the name, and not behind the
size, so that the second entry it reads is the size of the first.

A text is a list of bytes, written as characters.

## Main definitions

* `DragInformation.setupDragInfo`, `DragInformation.parseDragInfo` : the sender and the receiver.
  The receiver has no result where it throws: a position outside the text, or an entry outside the
  list.
* `DragInformation.fields` : the parts of a text that end in a comma, and the rest.
* `DragInformation.sized` : the fields whose entries are given a size.

## Main results

* `parseEntries_isSome_iff` : when the receiver stays inside the text and its list.
* `prefix_of_parseEntries` : an entry keeps the name it was given.
* `parseDragInfo_iff` : what is sent is read back only for one file with a name, and the receiver
  stays inside exactly when no field that is given a size ends in a slash, and a count beyond the
  fields comes with a slash.
-/

namespace InputLeap

/-- An entry of the list of files. -/
structure DragInformation where
  filename : Text
  filesize : ℕ
  deriving DecidableEq

namespace DragInformation

/-- What a search answers that finds nothing, the greatest `size_t`. -/
def npos : ℕ := 2 ^ 64 - 1

/-- The sum of two `size_t`. -/
def add (a b : ℕ) : ℕ := (a + b) % 2 ^ 64

/-- The difference of two `size_t`. -/
def sub (a b : ℕ) : ℕ := (a + 2 ^ 64 - b) % 2 ^ 64

/-- `data.find(',', pos)`. -/
def findComma (data : Text) (pos : ℕ) : ℕ := (data.find ',' pos).getD npos

/-- `data.find_last_of(slash, pos)`. -/
def findSlash (slash : Char) (data : Text) (pos : ℕ) : ℕ := (data.findLast slash pos).getD npos

/-- The number in the text.  A blank text leaves the number unset there, and 0 here. -/
def stringToNum (str : Text) : ℕ := stringToSizeType (str.map fun c => UInt8.ofNat c.toNat)

/-- `dragFileList.at(index).setFilesize(size)`. -/
def setFilesize (dragFileList : List DragInformation) (index size : ℕ) :
    Option (List DragInformation) :=
  if index < dragFileList.length then
    some (dragFileList.modify index fun di => { di with filesize := size })
  else none

/-- The separator of the parts of a path. -/
def slashOf (data : Text) : Char := if '/' ∈ data then '/' else '\\'

/-- The name that ends at the comma. -/
def parseName (slash : Char) (data : Text) (findResult1 : ℕ)
    (dragFileList : List DragInformation) : Option (List DragInformation) :=
  let findResult2 := findSlash slash data findResult1
  if 1 < sub findResult1 findResult2 then
    (data.substr? (add findResult2 1) (sub (sub findResult1 findResult2) 1)).map fun filename =>
      dragFileList ++ [⟨filename, 0⟩]
  else some dragFileList

/-- The size behind the comma. -/
def parseSize (data : Text) (findResult1 index : ℕ) (dragFileList : List DragInformation) :
    Option (List DragInformation) :=
  let findResult2 := findComma data (add findResult1 1)
  if 1 < sub findResult2 findResult1 then
    (data.substr? (add findResult1 1) (sub (sub findResult2 findResult1) 1)).bind fun filesize =>
      setFilesize dragFileList index (stringToNum filesize)
  else some dragFileList

/-- The loop, with the number of turns that are left. -/
def parseEntries (slash : Char) (data : Text) :
    ℕ → ℕ → ℕ → List DragInformation → Option (List DragInformation)
  | 0, _, _, dragFileList => some dragFileList
  | n + 1, index, startPos, dragFileList =>
    let findResult1 := findComma data startPos
    if findResult1 = startPos then some dragFileList
    else
      (parseName slash data findResult1 dragFileList).bind fun named =>
        (parseSize data findResult1 index named).bind fun sized =>
          parseEntries slash data n (index + 1) (add findResult1 1) sized

/-- The list of files in the text. -/
def parseDragInfo (fileNum : ℕ) (data : Text) : Option (List DragInformation) :=
  parseEntries (slashOf data) data fileNum 0 0 []

/-- The size of a file as text; reading it fails for a file that cannot be opened. -/
def getFileSize (fileSize : Text → Option UInt64) (filename : Text) : Option Text :=
  (fileSize filename).map fun size => Nat.toDigits 10 size.toNat

/-- The text about the files, and their number. -/
def setupDragInfo (fileSize : Text → Option UInt64) :
    List DragInformation → Option (Text × ℕ)
  | [] => some ([], 0)
  | di :: fileList =>
    (getFileSize fileSize di.filename).bind fun filesize =>
      (setupDragInfo fileSize fileList).map fun (output, size) =>
        (di.filename ++ ',' :: (filesize ++ ',' :: output), size + 1)

/-! ### One entry -/

variable {slash : Char} {data a g t : Text} {list : List DragInformation} {index : ℕ}

/-- The part of the text behind the last slash. -/
def afterSlash (slash : Char) (s : Text) : Text := s.rtakeWhile (· ≠ slash)

theorem afterSlash_of_not_mem (h : slash ∉ a) : afterSlash slash a = a := by
  refine List.rtakeWhile_eq_self_iff.2 fun c hc => ?_
  exact decide_eq_true fun hcs => h (hcs ▸ hc)

theorem not_mem_afterSlash : slash ∉ afterSlash slash a := fun h => by
  simpa using List.mem_rtakeWhile_imp h

/-- A text with a slash is split at the last one. -/
theorem exists_eq_append_afterSlash (h : slash ∈ a) :
    ∃ b, a = b ++ slash :: afterSlash slash a := by
  have happ := List.rdropWhile_append_rtakeWhile (p := fun c : Char => decide (c ≠ slash)) (l := a)
  have hne : a.rdropWhile (fun c : Char => decide (c ≠ slash)) ≠ [] := by
    rw [ne_eq, List.rdropWhile_eq_nil_iff]
    intro hall
    exact absurd rfl (of_decide_eq_true (hall slash h))
  have hlast := List.rdropWhile_last_not _ _ hne
  rw [decide_eq_true_eq, not_not] at hlast
  refine ⟨(a.rdropWhile fun c : Char => decide (c ≠ slash)).dropLast, ?_⟩
  conv_lhs => rw [← happ, ← List.dropLast_append_getLast hne, hlast]
  rw [List.append_assoc]
  rfl

theorem afterSlash_eq_nil_iff (ha : a ≠ []) :
    afterSlash slash a = [] ↔ a.getLast? = some slash := by
  rw [afterSlash, List.rtakeWhile_eq_nil_iff, List.getLast?_eq_getLast_of_ne_nil ha]
  simp [ha]

theorem afterSlash_of_append (h : slash ∉ t) (b : Text) :
    afterSlash slash (b ++ slash :: t) = t := by
  have hrev : (b ++ slash :: t).reverse = t.reverse ++ slash :: b.reverse := by
    rw [List.reverse_append, List.reverse_cons, List.append_assoc, List.singleton_append]
  rw [afterSlash, List.rtakeWhile, hrev, Text.takeWhile_run, List.reverse_reverse]
  · intro c hc
    exact decide_eq_true fun hcs => h (hcs ▸ List.mem_reverse.1 hc)
  · intro c hc
    obtain rfl : slash = c := Option.some.inj hc
    exact decide_eq_false (not_not.2 rfl)

theorem sub_of_le {m n : ℕ} (hle : n ≤ m) (hm : m ≤ npos) : sub m n = m - n := by
  unfold sub npos at *
  omega

theorem sub_npos {m : ℕ} (hm : m < npos) : sub m npos = m + 1 := by
  unfold sub npos at *
  omega

theorem add_one {m : ℕ} (hm : m < npos) : add m 1 = m + 1 := by
  unfold add npos at *
  omega

theorem add_npos : add npos 1 = 0 := by decide

theorem length_lt_of_eq {b : Text} {c : Char} (hdata : data = b ++ c :: t) :
    b.length < data.length := by
  rw [hdata, List.length_append, List.length_cons]
  omega

theorem findComma_of_append (hdata : data = a ++ g ++ ',' :: t) (hg : ',' ∉ g) :
    findComma data a.length = (a ++ g).length := by
  have hdrop : data.drop a.length = g ++ ',' :: t := by
    rw [hdata, List.append_assoc, List.drop_left]
  rw [findComma, Text.find_of_drop hdrop hg, Option.getD_some, List.length_append]

theorem findComma_of_not_mem (hdata : data = a ++ t) (ht : ',' ∉ t) :
    findComma data a.length = npos := by
  have hdrop : data.drop a.length = t := by rw [hdata, List.drop_left]
  rw [findComma, Text.find_eq_none_iff.2 (hdrop ▸ ht), Option.getD_none]

/-- What is added to the list when a name is read, if the name is not empty. -/
def named (slash : Char) (a : Text) (list : List DragInformation) : List DragInformation :=
  if afterSlash slash a = [] then list else list ++ [⟨afterSlash slash a, 0⟩]

/-- The name is what stands between the last slash and the comma. -/
theorem parseName_comma (hlength : data.length < npos) (hdata : data = a ++ ',' :: t)
    (hslash : slash ≠ ',') (ha : a ≠ []) :
    parseName slash data a.length list = some (named slash a list) := by
  have halt : a.length < npos := (length_lt_of_eq hdata).trans hlength
  have htake : data.take (a.length + 1) = a ++ [','] := by
    rw [hdata, List.take_append, List.take_of_length_le (Nat.le_succ _)]
    simp
  unfold named
  by_cases hmem : slash ∈ a
  · obtain ⟨b, hb⟩ := exists_eq_append_afterSlash hmem
    have hnot : slash ∉ afterSlash slash a := not_mem_afterSlash
    generalize afterSlash slash a = c at hb hnot ⊢
    subst hb
    have happ : b ++ slash :: c ++ [','] = b ++ slash :: (c ++ [',']) := by simp
    have hfind : findSlash slash data (b ++ slash :: c).length = b.length := by
      rw [findSlash, Text.findLast_of_take (htake.trans happ) (by simp [hnot, hslash]),
        Option.getD_some]
    have hsub : sub (b ++ slash :: c).length b.length = c.length + 1 := by
      rw [sub_of_le (by simp) halt.le]
      simp
    have hblt : b.length < npos := (length_lt_of_eq (c := slash) rfl).trans halt
    have hdrop : data.drop (b.length + 1) = c ++ ',' :: t := by
      rw [hdata, ← List.drop_drop, List.append_assoc, List.drop_left]
      rfl
    have hpart : data.substr? (b.length + 1) c.length = some c := by
      refine Text.substr?_of_drop hdrop ?_
      simp [hdata]
    have hclt : c.length + 1 ≤ npos := by
      rw [List.length_append, List.length_cons] at halt
      omega
    rw [parseName, hfind, hsub, add_one hblt, sub_of_le (Nat.le_add_left 1 _) hclt,
      Nat.add_sub_cancel, hpart]
    by_cases hc : c = []
    · simp [hc]
    · rw [if_neg hc, if_pos (by have := List.length_pos_iff.2 hc; omega), Option.map_some]
  · have hfind : findSlash slash data a.length = npos := by
      rw [findSlash, Text.findLast_eq_none_iff.2 (by simp [htake, hmem, hslash]),
        Option.getD_none]
    have hpart : data.substr? 0 a.length = some a :=
      Text.substr?_of_drop (List.drop_zero.trans hdata) (Nat.zero_le _)
    have hpos := List.length_pos_iff.2 ha
    rw [parseName, hfind, sub_npos halt, add_npos, sub_of_le (Nat.le_add_left 1 _) halt,
      Nat.add_sub_cancel, hpart, if_pos (by omega), afterSlash_of_not_mem hmem, if_neg ha,
      Option.map_some]

/-- Behind the last comma the name is what stands behind the last slash, and without a slash
there is none. -/
theorem parseName_npos (hlength : data.length < npos) :
    parseName slash data npos list =
      some (if slash ∈ data then list ++ [⟨afterSlash slash data, 0⟩] else list) := by
  have htake : data.take (npos + 1) = data := List.take_of_length_le (by omega)
  by_cases hmem : slash ∈ data
  · obtain ⟨b, hb⟩ := exists_eq_append_afterSlash hmem
    have hnot : slash ∉ afterSlash slash data := not_mem_afterSlash
    generalize afterSlash slash data = c at hb hnot ⊢
    have hfind : findSlash slash data npos = b.length := by
      rw [findSlash, Text.findLast_of_take (htake.trans hb) hnot, Option.getD_some]
    have hblt : b.length < data.length := length_lt_of_eq hb
    have hclt : b.length + c.length < data.length := by
      rw [hb, List.length_append, List.length_cons]
      omega
    have hpart : data.substr? (b.length + 1) (npos - b.length - 1) = some c := by
      rw [Text.substr?, if_pos (by omega), hb, ← List.drop_drop, List.drop_left]
      refine congrArg some (List.take_of_length_le ?_)
      simp only [List.drop_succ_cons, List.drop_zero]
      omega
    rw [parseName, hfind, sub_of_le (by omega) le_rfl, add_one (by omega),
      sub_of_le (by omega) (by omega), hpart, if_pos (by omega), if_pos hmem, Option.map_some]
  · have hfind : findSlash slash data npos = npos := by
      rw [findSlash, Text.findLast_eq_none_iff.2 (htake.symm ▸ hmem), Option.getD_none]
    rw [parseName, hfind, sub_of_le le_rfl le_rfl, Nat.sub_self, if_neg hmem]
    rfl

/-- The size is what stands between two commas. -/
theorem parseSize_comma (hlength : data.length < npos) (hdata : data = a ++ ',' :: (g ++ ',' :: t))
    (hg : ',' ∉ g) :
    parseSize data a.length index list =
      if g = [] then some list else setFilesize list index (stringToNum g) := by
  have halt : a.length < npos := (length_lt_of_eq hdata).trans hlength
  have hdata' : data = (a ++ [',']) ++ g ++ ',' :: t := by simp [hdata]
  have hfind := findComma_of_append hdata' hg
  have hend := length_lt_of_eq hdata'
  have hone : (a ++ [',']).length = a.length + 1 := by simp
  rw [hone, List.length_append, hone] at hfind
  rw [List.length_append, hone] at hend
  have hpart : data.substr? (a.length + 1) g.length = some g := by
    refine Text.substr?_of_drop (t := ',' :: t) ?_ (by omega)
    rw [hdata, ← List.drop_drop, List.drop_left]
    rfl
  rw [parseSize, add_one halt, hfind, sub_of_le (by omega) (by omega),
    show a.length + 1 + g.length - a.length = g.length + 1 by omega,
    sub_of_le (Nat.le_add_left 1 _) (by omega), Nat.add_sub_cancel, hpart]
  by_cases hc : g = []
  · simp [hc]
  · rw [if_neg hc, if_pos (by have := List.length_pos_iff.2 hc; omega), Option.bind_some]

/-- The last size is all that is left. -/
theorem parseSize_last (hlength : data.length < npos) (hdata : data = a ++ ',' :: t)
    (ht : ',' ∉ t) :
    parseSize data a.length index list = setFilesize list index (stringToNum t) := by
  have halt : a.length < data.length := length_lt_of_eq hdata
  have hdata' : data = (a ++ [',']) ++ t := by simp [hdata]
  have hfind := findComma_of_not_mem hdata' ht
  rw [List.length_append, List.length_singleton] at hfind
  have hlen : data.length = a.length + 1 + t.length := by
    rw [hdata', List.length_append, List.length_append, List.length_singleton]
  have hpart : data.substr? (a.length + 1) (npos - a.length - 1) = some t := by
    rw [Text.substr?, if_pos (by omega), hdata, ← List.drop_drop, List.drop_left]
    refine congrArg some (List.take_of_length_le ?_)
    simp only [List.drop_succ_cons, List.drop_zero]
    omega
  rw [parseSize, add_one (by omega), hfind, sub_of_le (by omega) le_rfl,
    sub_of_le (by omega) (by omega), hpart, if_pos (by omega), Option.bind_some]

/-- Behind the last comma the size is read from the start of the text. -/
theorem parseSize_npos (hlength : data.length < npos) (hdata : data = g ++ ',' :: t)
    (hg : ',' ∉ g) (hne : g ≠ []) :
    parseSize data npos index list = setFilesize list index (stringToNum g) := by
  have hfind : findComma data 0 = g.length := findComma_of_append (a := []) hdata hg
  have hlt : g.length < data.length := length_lt_of_eq hdata
  have hpos := List.length_pos_iff.2 hne
  have hpart : data.substr? 0 g.length = some g :=
    Text.substr?_of_drop (List.drop_zero.trans hdata) (Nat.zero_le _)
  rw [parseSize, add_npos, hfind, sub_npos (by omega), sub_of_le (Nat.le_add_left 1 _) (by omega),
    Nat.add_sub_cancel, hpart, if_pos (by omega), Option.bind_some]

/-- A text without commas has no sizes. -/
theorem parseSize_of_not_mem (h : ',' ∉ data) : parseSize data npos index list = some list := by
  have hfind : findComma data 0 = npos := findComma_of_not_mem (a := []) rfl h
  rw [parseSize, add_npos, hfind, sub_of_le le_rfl le_rfl, Nat.sub_self]
  rfl

/-! ### Fields -/

/-- The parts of the text that end in a comma, and what is left behind the last of them. -/
def fields : Text → List Text × Text
  | [] => ([], [])
  | c :: s =>
    if c = ',' then ([] :: (fields s).1, (fields s).2)
    else
      match (fields s).1 with
      | [] => ([], c :: (fields s).2)
      | f :: fs => ((c :: f) :: fs, (fields s).2)

/-- Fields with a comma behind each. -/
def joined (fs : List Text) : Text := fs.flatMap (· ++ [','])

@[simp] theorem joined_nil : joined [] = [] := rfl

@[simp] theorem joined_cons (f : Text) (fs : List Text) :
    joined (f :: fs) = f ++ ',' :: joined fs := by
  simp [joined]

@[simp] theorem joined_append (fs gs : List Text) : joined (fs ++ gs) = joined fs ++ joined gs :=
  List.flatMap_append

/-- The fields and the rest have no commas and are the text. -/
theorem fields_spec (s : Text) :
    s = joined (fields s).1 ++ (fields s).2 ∧ (∀ f ∈ (fields s).1, ',' ∉ f) ∧
      ',' ∉ (fields s).2 := by
  induction s with
  | nil => simp [fields]
  | cons c s ih =>
    obtain ⟨heq, hfs, hrest⟩ := ih
    unfold fields
    split_ifs with hc
    · subst hc
      refine ⟨?_, ?_, hrest⟩
      · rw [joined_cons, List.nil_append, List.cons_append, ← heq]
      · simpa using hfs
    · cases hf : (fields s).1 with
      | nil =>
        rw [hf] at heq
        refine ⟨?_, by simp, ?_⟩
        · simpa using heq
        · simp [hrest, Ne.symm hc]
      | cons f fs =>
        rw [hf] at heq hfs
        refine ⟨?_, ?_, hrest⟩
        · rw [joined_cons] at heq ⊢
          rw [List.cons_append, List.cons_append, ← heq]
        · intro g hg
          obtain rfl | hg := List.mem_cons.1 hg
          · simp [hfs f List.mem_cons_self, Ne.symm hc]
          · exact hfs g (List.mem_cons_of_mem f hg)

/-- The fields whose entries are given a size: those before the first empty field, without the
one right before it. -/
def sized : List Text → List Text
  | [] => []
  | [] :: _ => []
  | _ :: [] :: _ => []
  | f :: fs => f :: sized fs

theorem sized_cons {f : Text} {fs : List Text} (hf : f ≠ []) (hfs : fs.head? ≠ some []) :
    sized (f :: fs) = f :: sized fs := by
  rw [sized]
  · exact hf
  · rintro fs' rfl
    exact hfs rfl

theorem mem_of_mem_sized {f : Text} {fs : List Text} (h : f ∈ sized fs) : f ∈ fs := by
  fun_induction sized fs with
  | case1 => exact h
  | case2 fs => cases h
  | case3 => cases h
  | case4 g fs _ _ ih =>
    obtain rfl | h := List.mem_cons.1 h
    · exact List.mem_cons_self
    · exact List.mem_cons_of_mem g (ih h)

/-! ### The loop -/

/-- The text is the fields `fs` with their commas and the rest `r`. -/
structure Split (data : Text) (fs : List Text) (r : Text) : Prop where
  eq : data = joined fs ++ r
  fields : ∀ f ∈ fs, ',' ∉ f
  rest : ',' ∉ r
  length : data.length < npos

variable {fs done todo : List Text} {f r : Text} {n size : ℕ}

theorem setFilesize_of_lt (size : ℕ) (h : index < list.length) :
    ∃ list', setFilesize list index size = some list' ∧ list'.length = list.length := by
  refine ⟨_, if_pos h, ?_⟩
  rw [List.length_modify]

theorem setFilesize_of_le (h : list.length ≤ index) : setFilesize list index size = none :=
  if_neg (not_lt.2 h)

/-- The size behind a field is set unless the next field is empty. -/
theorem parseSize_field (hlength : data.length < npos)
    (hdata : data = a ++ ',' :: (joined fs ++ r)) (hfs : ∀ f ∈ fs, ',' ∉ f) (hr : ',' ∉ r) :
    parseSize data a.length index list =
      if fs.head? = some [] then some list
      else setFilesize list index (stringToNum (fs.head?.getD r)) := by
  cases fs with
  | nil =>
    rw [parseSize_last hlength hdata hr]
    rfl
  | cons g fs =>
    rw [joined_cons, List.append_assoc, List.cons_append] at hdata
    rw [parseSize_comma hlength hdata (hfs g List.mem_cons_self)]
    simp

/-- An empty field ends the loop. -/
theorem parseEntries_empty (done : List Text) (hdata : data = joined done ++ ',' :: t) :
    parseEntries slash data (n + 1) index (joined done).length list = some list := by
  have hdata' : data = joined done ++ [] ++ ',' :: t := by
    rw [List.append_nil]
    exact hdata
  have hfind := findComma_of_append hdata' List.not_mem_nil
  rw [List.append_nil] at hfind
  rw [parseEntries, hfind, if_pos rfl]

/-- A field that is not empty gives a name and is left behind. -/
theorem parseEntries_field (done : List Text) (hlength : data.length < npos)
    (hslash : slash ≠ ',')
    (hdata : data = joined done ++ f ++ ',' :: t) (hf : ',' ∉ f) (hne : f ≠ []) :
    parseEntries slash data (n + 1) index (joined done).length list =
      (parseSize data (joined done ++ f).length index (named slash (joined done ++ f) list)).bind
        (parseEntries slash data n (index + 1) (joined (done ++ [f])).length) := by
  have hfind := findComma_of_append hdata hf
  have hlt := length_lt_of_eq hdata
  have hpos := List.length_pos_iff.2 hne
  have hname : parseName slash data _ list = _ := parseName_comma hlength hdata hslash
    (List.append_ne_nil_of_right_ne_nil _ hne)
  have hnext : add (joined done ++ f).length 1 = (joined (done ++ [f])).length := by
    rw [add_one (hlt.trans hlength)]
    simp
    omega
  rw [parseEntries, hfind, if_neg (by rw [List.length_append]; omega), hname, Option.bind_some,
    hnext]

/-- Behind the last comma the loop starts over. -/
theorem parseEntries_rest (done : List Text) (hlength : data.length < npos)
    (hdata : data = joined done ++ r) (hr : ',' ∉ r) :
    parseEntries slash data (n + 1) index (joined done).length list =
      (parseSize data npos index
        (if slash ∈ data then list ++ [⟨afterSlash slash data, 0⟩] else list)).bind
        (parseEntries slash data n (index + 1) 0) := by
  have hfind := findComma_of_not_mem hdata hr
  have hle : (joined done).length ≤ data.length := by
    rw [hdata, List.length_append]
    omega
  rw [parseEntries, hfind, if_neg (by omega), parseName_npos hlength, Option.bind_some, add_npos]

theorem named_eq_self_iff (hne : f ≠ []) :
    named slash (a ++ f) list =
      if f.getLast? = some slash then list
      else list ++ [⟨afterSlash slash (a ++ f), 0⟩] := by
  have hlast : (a ++ f).getLast? = f.getLast? := by
    rw [List.getLast?_append, List.getLast?_eq_getLast_of_ne_nil hne, Option.some_or]
  rw [named, if_congr (afterSlash_eq_nil_iff (List.append_ne_nil_of_right_ne_nil a hne)) rfl rfl,
    hlast]

/-- Behind the last comma the text itself gives an entry if it contains a slash, and the loop
starts over. -/
theorem parseEntries_over (slash : Char) (n : ℕ) (list : List DragInformation)
    (hs : Split data fs r) (hne : fs ≠ []) (hfirst : ∀ f ∈ fs, f ≠ []) :
    (slash ∈ data → ∃ list' : List DragInformation, list'.length = list.length + 1 ∧
      parseEntries slash data (n + 1) list.length (joined fs).length list =
        parseEntries slash data n list'.length (joined []).length list') ∧
      (slash ∉ data →
        parseEntries slash data (n + 1) list.length (joined fs).length list = none) := by
  obtain ⟨g, gs, rfl⟩ := List.exists_cons_of_ne_nil hne
  have hdata : data = g ++ ',' :: (joined gs ++ r) := by
    rw [hs.eq, joined_cons, List.append_assoc, List.cons_append]
  rw [parseEntries_rest (g :: gs) hs.length hs.eq hs.rest,
    parseSize_npos hs.length hdata (hs.fields g List.mem_cons_self)
      (hfirst g List.mem_cons_self)]
  constructor
  · intro hmem
    have hlt : list.length <
        (list ++ [DragInformation.mk (afterSlash slash data) 0]).length := by simp
    obtain ⟨list', hset, hlen⟩ := setFilesize_of_lt (stringToNum g) hlt
    rw [List.length_append, List.length_singleton] at hlen
    refine ⟨list', hlen, ?_⟩
    rw [if_pos hmem, hset, Option.bind_some, hlen]
    rfl
  · intro hmem
    rw [if_neg hmem, setFilesize_of_le le_rfl, Option.bind_none]

/-- A field that does not end in a slash gives an entry, whose size is set. -/
theorem parseEntries_entry (n : ℕ) (list : List DragInformation) (hs : Split data fs r)
    (hslash : slash ≠ ',') (heq : done ++ f :: todo = fs) (hf : f ≠ [])
    (hhead : todo.head? ≠ some []) :
    (f.getLast? ≠ some slash → ∃ list' : List DragInformation, list'.length = list.length + 1 ∧
      parseEntries slash data (n + 1) list.length (joined done).length list =
        parseEntries slash data n list'.length (joined (done ++ [f])).length list') ∧
      (f.getLast? = some slash →
        parseEntries slash data (n + 1) list.length (joined done).length list = none) := by
  have hdata : data = joined done ++ f ++ ',' :: (joined todo ++ r) := by
    rw [hs.eq, ← heq, joined_append, joined_cons]
    simp only [List.append_assoc, List.cons_append]
  have hcomma : ',' ∉ f := hs.fields f (by simp [← heq])
  have htodo : ∀ g ∈ todo, ',' ∉ g := fun g hg => hs.fields g (by simp [← heq, hg])
  rw [parseEntries_field done hs.length hslash hdata hcomma hf,
    parseSize_field hs.length hdata htodo hs.rest, if_neg hhead, named_eq_self_iff hf]
  constructor
  · intro hlast
    have hlt : list.length <
        (list ++ [DragInformation.mk (afterSlash slash (joined done ++ f)) 0]).length := by simp
    obtain ⟨list', hset, hlen⟩ := setFilesize_of_lt (stringToNum (todo.head?.getD r)) hlt
    rw [List.length_append, List.length_singleton] at hlen
    refine ⟨list', hlen, ?_⟩
    rw [if_neg hlast, hset, Option.bind_some, hlen]
  · intro hlast
    rw [if_pos hlast, setFilesize_of_le le_rfl, Option.bind_none]

/-- The field before an empty one is the last that is read, and gets no size. -/
theorem isSome_parseEntries_of_empty (hs : Split data fs r) (hslash : slash ≠ ',')
    (heq : done ++ f :: [] :: todo = fs) (hf : f ≠ []) :
    (parseEntries slash data (n + 1) index (joined done).length list).isSome = true := by
  have hdata : data = joined done ++ f ++ ',' :: (joined ([] :: todo) ++ r) := by
    rw [hs.eq, ← heq, joined_append, joined_cons]
    simp only [List.append_assoc, List.cons_append]
  have hcomma : ',' ∉ f := hs.fields f (by simp [← heq])
  have htodo : ∀ g ∈ [] :: todo, ',' ∉ g := fun g hg => hs.fields g (by
    rw [← heq]
    exact List.mem_append_right _ (List.mem_cons_of_mem _ hg))
  rw [parseEntries_field done hs.length hslash hdata hcomma hf,
    parseSize_field hs.length hdata htodo hs.rest, if_pos List.head?_cons, Option.bind_some]
  cases n with
  | zero => rfl
  | succ n =>
    rw [parseEntries_empty (done ++ [f]) (t := joined todo ++ r) (by simp [hdata])]
    rfl

/-- When the receiver stays inside the text and its list, from a field on: all fields before gave
an entry each. -/
theorem parseEntries_isSome_iff (hs : Split data fs r) (hslash : slash ≠ ',') (hne : fs ≠ [])
    (n : ℕ) (done todo : List Text) (list : List DragInformation) (heq : done ++ todo = fs)
    (hdone : ∀ f ∈ done, f ≠ [] ∧ f.getLast? ≠ some slash) :
    (parseEntries slash data n list.length (joined done).length list).isSome = true ↔
      (∀ f ∈ (sized todo).take n, f.getLast? ≠ some slash) ∧
        ((∀ f ∈ todo, f ≠ []) → todo.length < n → slash ∈ data) := by
  induction n generalizing done todo list with
  | zero => simp [parseEntries]
  | succ n ih =>
    cases todo with
    | nil =>
      rw [List.append_nil] at heq
      subst heq
      obtain ⟨hover, hstop⟩ := parseEntries_over slash n list hs hne fun f hf => (hdone f hf).1
      by_cases hmem : slash ∈ data
      · obtain ⟨list', -, hturn⟩ := hover hmem
        -- starting over, every field is known to give an entry
        have hagain := ih [] done list' rfl (by simp)
        rw [hturn, hagain]
        constructor
        · intro _
          exact ⟨by simp [sized], fun _ _ => hmem⟩
        · intro _
          exact ⟨fun f hf => (hdone f (mem_of_mem_sized (List.mem_of_mem_take hf))).2,
            fun _ _ => hmem⟩
      · rw [hstop hmem]
        simp [hmem]
    | cons f todo =>
      by_cases hf : f = []
      · subst hf
        have hdata : data = joined done ++ ',' :: (joined todo ++ r) := by
          rw [hs.eq, ← heq, joined_append, joined_cons]
          simp only [List.append_assoc, List.cons_append, List.nil_append]
        rw [parseEntries_empty done hdata]
        simp [sized]
      by_cases hhead : todo.head? = some []
      · -- the next field is empty and ends the loop
        obtain ⟨todo, rfl⟩ : ∃ fs, todo = [] :: fs := by
          cases todo with
          | nil => cases hhead
          | cons g gs => exact ⟨gs, by rw [Option.some.inj hhead]⟩
        rw [isSome_parseEntries_of_empty hs hslash heq hf]
        simp [sized]
      obtain ⟨hentry, hstop⟩ := parseEntries_entry n list hs hslash heq hf hhead
      rw [sized_cons hf hhead]
      by_cases hlast : f.getLast? = some slash
      · rw [hstop hlast]
        simp [hlast]
      · obtain ⟨list', -, hturn⟩ := hentry hlast
        rw [hturn, ih (done ++ [f]) todo list' (by simp [← heq]) (by
          intro g hg
          obtain hg | hg := List.mem_append.1 hg
          · exact hdone g hg
          · obtain rfl := List.mem_singleton.1 hg
            exact ⟨hf, hlast⟩)]
        simp [hlast, hf]

/-- A text without commas gives no sizes, so that nothing outside the list is asked for. -/
theorem parseEntries_isSome_of_not_mem (hlength : data.length < npos) (hdata : ',' ∉ data) (n : ℕ)
    (index : ℕ) (list : List DragInformation) :
    (parseEntries slash data n index 0 list).isSome = true := by
  induction n generalizing index list with
  | zero => rfl
  | succ n ih =>
    have h : parseEntries slash data (n + 1) index 0 list = _ :=
      parseEntries_rest [] hlength rfl hdata
    rw [parseSize_of_not_mem hdata, Option.bind_some] at h
    rw [h]
    exact ih _ _

/-- The condition on the count and the text under which the receiver stays inside. -/
def InBounds (fileNum : ℕ) (data : Text) : Prop :=
  (∀ f ∈ (sized (fields data).1).take fileNum, f.getLast? ≠ some (slashOf data)) ∧
    ((fields data).1 ≠ [] → (∀ f ∈ (fields data).1, f ≠ []) →
      (fields data).1.length < fileNum → slashOf data ∈ data)

theorem slashOf_ne_comma (data : Text) : slashOf data ≠ ',' := by
  unfold slashOf
  split_ifs <;> decide

theorem parseDragInfo_isSome_iff (fileNum : ℕ) (hlength : data.length < npos) :
    (parseDragInfo fileNum data).isSome = true ↔ InBounds fileNum data := by
  obtain ⟨heq, hfields, hrest⟩ := fields_spec data
  unfold parseDragInfo InBounds
  by_cases hne : (fields data).1 = []
  · have hnot : ',' ∉ data := by
      rw [hne, joined_nil, List.nil_append] at heq
      rw [heq]
      exact hrest
    simp [parseEntries_isSome_of_not_mem hlength hnot, hne, sized]
  · have h := parseEntries_isSome_iff ⟨heq, hfields, hrest, hlength⟩ (slashOf_ne_comma data) hne
      fileNum [] (fields data).1 [] rfl (by simp)
    rw [List.length_nil, joined_nil, List.length_nil] at h
    rw [h]
    simp [hne]

/-! ### The round trip -/

theorem map_filename_setFilesize {list' : List DragInformation}
    (h : setFilesize list index size = some list') :
    list'.map DragInformation.filename = list.map DragInformation.filename := by
  unfold setFilesize at h
  split_ifs at h
  obtain rfl := Option.some.inj h
  refine List.ext_getElem (by simp) fun i h₁ h₂ => ?_
  simp only [List.getElem_map, List.getElem_modify]
  split_ifs <;> rfl

theorem map_filename_parseSize {list' : List DragInformation} {pos : ℕ}
    (h : parseSize data pos index list = some list') :
    list'.map DragInformation.filename = list.map DragInformation.filename := by
  rw [parseSize] at h
  split_ifs at h
  · obtain ⟨filesize, -, hset⟩ := Option.bind_eq_some_iff.1 h
    exact map_filename_setFilesize hset
  · obtain rfl := Option.some.inj h
    rfl

theorem prefix_of_parseName {list' : List DragInformation} {pos : ℕ}
    (h : parseName slash data pos list = some list') : list <+: list' := by
  rw [parseName] at h
  split_ifs at h
  · obtain ⟨filename, -, rfl⟩ := Option.map_eq_some_iff.1 h
    exact List.prefix_append _ _
  · obtain rfl := Option.some.inj h
    exact List.prefix_rfl

/-- An entry keeps the name it was given. -/
theorem prefix_of_parseEntries {list' : List DragInformation} {startPos : ℕ}
    (h : parseEntries slash data n index startPos list = some list') :
    list.map DragInformation.filename <+: list'.map DragInformation.filename := by
  induction n generalizing index startPos list with
  | zero =>
    obtain rfl := Option.some.inj h
    exact List.prefix_rfl
  | succ n ih =>
    rw [parseEntries] at h
    split_ifs at h
    · obtain rfl := Option.some.inj h
      exact List.prefix_rfl
    · obtain ⟨list₁, hname, h⟩ := Option.bind_eq_some_iff.1 h
      obtain ⟨list₂, hsize, h⟩ := Option.bind_eq_some_iff.1 h
      refine List.IsPrefix.trans ?_ (ih h)
      rw [map_filename_parseSize hsize]
      exact (prefix_of_parseName hname).map _

/-- The name of a file without the path to it. -/
def baseName (filename : Text) : Text := afterSlash (slashOf filename) filename

/-- What the receiver is to read: the names without their paths, and the sizes. -/
def received (fileSize : Text → Option UInt64) (fileList : List DragInformation) :
    List DragInformation :=
  fileList.map fun di => ⟨baseName di.filename, ((fileSize di.filename).getD 0).toNat⟩

theorem not_mem_toDigits {c : Char} (hc : c.toNat < 48 ∨ 57 < c.toNat) (n : ℕ) :
    c ∉ Nat.toDigits 10 n := fun h => by
  have := toNat_of_mem_toDigits h
  omega

theorem slashOf_not_mem_toDigits (data : Text) (n : ℕ) : slashOf data ∉ Nat.toDigits 10 n := by
  refine not_mem_toDigits ?_ n
  unfold slashOf
  split_ifs <;> decide

theorem stringToNum_toDigits (size : UInt64) :
    stringToNum (Nat.toDigits 10 size.toNat) = size.toNat :=
  stringToSizeType_sizeToString size.toNat_lt

theorem afterSlash_append (h : slash ∉ t) (a : Text) :
    afterSlash slash (a ++ t) = afterSlash slash a ++ t := by
  by_cases hmem : slash ∈ a
  · obtain ⟨b, hb⟩ := exists_eq_append_afterSlash hmem
    have hnot : slash ∉ afterSlash slash a ++ t := by
      rw [List.mem_append, not_or]
      exact ⟨not_mem_afterSlash, h⟩
    conv_lhs => rw [hb, List.append_assoc, List.cons_append]
    exact afterSlash_of_append hnot b
  · rw [afterSlash_of_not_mem hmem, afterSlash_of_not_mem]
    rw [List.mem_append, not_or]
    exact ⟨hmem, h⟩

theorem mem_of_mem_afterSlash {c : Char} (h : c ∈ afterSlash slash a) : c ∈ a :=
  (List.rtakeWhile_suffix _ _).subset h

variable {fileSize : Text → Option UInt64} {fileList : List DragInformation} {text : Text}
  {count : ℕ} {di : DragInformation}

/-- The text starts with the name and the size of the first file. -/
theorem setupDragInfo_cons (h : setupDragInfo fileSize (di :: fileList) = some (text, count)) :
    ∃ filesize output size, fileSize di.filename = some filesize ∧
      setupDragInfo fileSize fileList = some (output, size) ∧
      text = di.filename ++ ',' :: (Nat.toDigits 10 filesize.toNat ++ ',' :: output) ∧
      count = size + 1 := by
  obtain ⟨digits, hdigits, h⟩ := Option.bind_eq_some_iff.1 h
  obtain ⟨filesize, hsize, rfl⟩ := Option.map_eq_some_iff.1 hdigits
  obtain ⟨⟨output, size⟩, hout, h⟩ := Option.map_eq_some_iff.1 h
  obtain ⟨rfl, rfl⟩ := Prod.mk.inj h
  exact ⟨filesize, output, size, hsize, hout, rfl, rfl⟩

/-- One file comes back if it has a name. -/
theorem parseDragInfo_single {filesize : UInt64} (hcomma : ',' ∉ di.filename)
    (htext : text = di.filename ++ ',' :: (Nat.toDigits 10 filesize.toNat ++ ',' :: []))
    (hlength : text.length < npos) :
    parseDragInfo 1 text = some [⟨baseName di.filename, filesize.toNat⟩] ↔
      baseName di.filename ≠ [] := by
  have hslash : slashOf text = slashOf di.filename := by
    have hmem : '/' ∈ text ↔ '/' ∈ di.filename := by
      simp [htext, not_mem_toDigits (c := '/') (.inl (by decide))]
    rw [slashOf, slashOf, if_congr hmem rfl rfl]
  have hdigits := Nat.toDigits_ne_nil (n := filesize.toNat) (b := 10)
  unfold parseDragInfo
  by_cases hne : di.filename = []
  · have hempty : baseName di.filename = [] := by rw [hne]; rfl
    rw [hempty]
    have h : parseEntries (slashOf text) text 1 0 0 [] = _ :=
      parseEntries_empty [] (htext.trans (by rw [hne]; rfl))
    rw [h]
    simp
  · have hdata : text = joined [] ++ di.filename ++
        ',' :: (Nat.toDigits 10 filesize.toNat ++ ',' :: []) := by
      rw [htext]
      rfl
    have h : parseEntries (slashOf text) text 1 0 0 [] = _ :=
      parseEntries_field [] hlength (slashOf_ne_comma text) hdata hcomma hne
    rw [joined_nil, List.nil_append, parseSize_comma hlength htext
      (not_mem_toDigits (.inl (by decide)) _), if_neg hdigits, stringToNum_toDigits] at h
    rw [h, named, hslash]
    change _ ↔ afterSlash (slashOf di.filename) di.filename ≠ []
    by_cases hbase : afterSlash (slashOf di.filename) di.filename = []
    · rw [if_pos hbase, setFilesize_of_le (Nat.zero_le _)]
      simp [hbase]
    · rw [if_neg hbase]
      simp [setFilesize, parseEntries, hbase, baseName]

/-- With two files or more the second entry has a comma in its name. -/
theorem exists_comma_of_parseDragInfo {name digits : Text} {out : List DragInformation}
    (hcomma : ',' ∉ name) (hdigits : ',' ∉ digits) (hslash : slashOf text ∉ digits)
    (hne : digits ≠ []) (htext : text = name ++ ',' :: (digits ++ ',' :: t))
    (hlength : text.length < npos) (h : parseDragInfo (n + 2) text = some out) :
    out = [] ∨ ∃ di ∈ out, ',' ∈ di.filename := by
  unfold parseDragInfo at h
  by_cases hname : name = []
  · have hempty : parseEntries (slashOf text) text (n + 2) 0 0 [] = _ :=
      parseEntries_empty [] (htext.trans (by rw [hname]; rfl))
    exact .inl (Option.some.inj (h.symm.trans hempty))
  · have hfirst : text = joined [] ++ name ++ ',' :: (digits ++ ',' :: t) := htext
    have hsecond : text = joined [name] ++ digits ++ ',' :: t := by
      rw [htext]
      simp
    have h₁ : parseEntries (slashOf text) text (n + 2) 0 0 [] = _ :=
      parseEntries_field [] hlength (slashOf_ne_comma text) hfirst hcomma hname
    rw [h₁] at h
    obtain ⟨list₁, -, h⟩ := Option.bind_eq_some_iff.1 h
    rw [List.nil_append,
      parseEntries_field [name] hlength (slashOf_ne_comma text) hsecond hdigits hne] at h
    obtain ⟨list₂, hsize, h⟩ := Option.bind_eq_some_iff.1 h
    -- the second entry is named, from the last slash on, after the first name and its size
    have hlast : digits.getLast? ≠ some (slashOf text) := fun hlast =>
      hslash (List.mem_of_getLast? hlast)
    have hnames := map_filename_parseSize hsize
    rw [named_eq_self_iff hne, if_neg hlast] at hnames
    have hprefix := prefix_of_parseEntries h
    rw [hnames] at hprefix
    have hmem : afterSlash (slashOf text) (joined [name] ++ digits) ∈
        out.map DragInformation.filename := hprefix.subset (by simp)
    obtain ⟨di, hdi, hfilename⟩ := List.mem_map.1 hmem
    refine .inr ⟨di, hdi, ?_⟩
    have happ : joined [name] ++ digits = name ++ ([','] ++ digits) := by simp
    rw [hfilename, happ, afterSlash_append]
    · simp
    · rw [List.mem_append, not_or]
      exact ⟨fun hc => slashOf_ne_comma text (List.mem_singleton.1 hc), hslash⟩

/-- What is sent is read back exactly for one file with a name. -/
theorem parseDragInfo_setupDragInfo_iff
    (hsetup : setupDragInfo fileSize fileList = some (text, count)) (hne : fileList ≠ [])
    (hcomma : ∀ di ∈ fileList, ',' ∉ di.filename) (hlength : text.length < npos) :
    parseDragInfo count text = some (received fileSize fileList) ↔
      ∃ di, fileList = [di] ∧ baseName di.filename ≠ [] := by
  obtain ⟨di, fileList, rfl⟩ := List.exists_cons_of_ne_nil hne
  obtain ⟨filesize, output, size, hsize, hout, htext, rfl⟩ := setupDragInfo_cons hsetup
  have hfirst := hcomma di List.mem_cons_self
  cases fileList with
  | nil =>
    obtain ⟨rfl, rfl⟩ : output = [] ∧ size = 0 := by
      obtain ⟨rfl, rfl⟩ := Prod.mk.inj (Option.some.inj hout)
      exact ⟨rfl, rfl⟩
    have hreceived : received fileSize [di] = [⟨baseName di.filename, filesize.toNat⟩] := by
      simp [received, hsize]
    rw [hreceived, Nat.zero_add, parseDragInfo_single hfirst htext hlength]
    simp
  | cons di₂ fileList =>
    obtain ⟨filesize₂, output₂, size₂, -, -, -, rfl⟩ := setupDragInfo_cons hout
    constructor
    · intro h
      obtain hnil | ⟨di', hdi', hmem⟩ := exists_comma_of_parseDragInfo hfirst
        (not_mem_toDigits (.inl (by decide)) _) (slashOf_not_mem_toDigits text _)
        Nat.toDigits_ne_nil htext hlength h
      · simp [received] at hnil
      · obtain ⟨di₀, hdi₀, rfl⟩ := List.mem_map.1 hdi'
        exact absurd (mem_of_mem_afterSlash hmem) (hcomma di₀ hdi₀)
    · rintro ⟨di', h, -⟩
      simp at h

/-- **Drag information.**  What is sent about files is read back exactly if it is one file with a
name; and for any count and text the receiver stays inside the text and its list exactly if no
field that is given a size ends in a slash, and a count beyond the fields comes with a slash. -/
theorem parseDragInfo_iff (fileSize : Text → Option UInt64) (fileList : List DragInformation)
    (text : Text) (count : ℕ) (hsetup : setupDragInfo fileSize fileList = some (text, count))
    (hne : fileList ≠ []) (hcomma : ∀ di ∈ fileList, ',' ∉ di.filename)
    (htext : text.length < npos) (fileNum : ℕ) (data : Text) (hdata : data.length < npos) :
    (parseDragInfo count text = some (received fileSize fileList) ↔
      ∃ di, fileList = [di] ∧ baseName di.filename ≠ []) ∧
    ((parseDragInfo fileNum data).isSome = true ↔ InBounds fileNum data) :=
  ⟨parseDragInfo_setupDragInfo_iff hsetup hne hcomma htext, parseDragInfo_isSome_iff fileNum hdata⟩

/-- One file is read back, and a count of three stays inside the two fields by the slash. -/
theorem parseDragInfo_oneFile :
    parseDragInfo 1 "/a,5,".toList =
        some (received (fun _ => some 5) [⟨"/a".toList, 0⟩]) ∧
      (parseDragInfo 3 "/a,5,".toList).isSome = true := by
  have h := parseDragInfo_iff (fun _ => some 5) [⟨"/a".toList, 0⟩] "/a,5,".toList 1 (by decide)
    (by decide) (by decide) (by decide) 3 "/a,5,".toList (by decide)
  exact ⟨h.1.mpr ⟨_, rfl, by decide⟩, h.2.mpr ⟨by decide, by decide⟩⟩

/-- Of two files the second comes back with the name and size of the first for a name, and a name
that ends in a slash makes the receiver ask for an entry that the list does not have. -/
theorem parseDragInfo_twoFiles :
    setupDragInfo (fun _ => some 1) [⟨"a".toList, 0⟩, ⟨"b".toList, 0⟩] =
        some ("a,1,b,1,".toList, 2) ∧
      parseDragInfo 2 "a,1,b,1,".toList = some [⟨"a".toList, 1⟩, ⟨"a,1".toList, 0⟩] ∧
      received (fun _ => some 1) [⟨"a".toList, 0⟩, ⟨"b".toList, 0⟩] =
        [⟨"a".toList, 1⟩, ⟨"b".toList, 1⟩] ∧
      parseDragInfo 1 "a/,1,".toList = none := by
  refine ⟨?_, ?_, ?_, ?_⟩ <;> decide +kernel

end DragInformation

end InputLeap
