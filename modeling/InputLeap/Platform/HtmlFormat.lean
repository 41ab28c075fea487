import InputLeap.Protocol.Types
import InputLeap.Text.Search

/-!
# HTML on the clipboard of Windows

Windows wants a description before the HTML, with the positions of the HTML and of the part of it
that was copied.  The converter writes the description, and reads the positions of one that any
program may have written.

## Main definitions

* `HtmlFormat.doFromIClipboard`, `HtmlFormat.doToIClipboard` : the converter.
* `HtmlFormat.Arg` : the digits behind a keyword of a description.
* `HtmlFormat.Layout` : the positions in a description are those of what they are about.
* `HtmlFormat.BeginsBehind` : the description says that the part begins behind the end.

## Main results

* `HtmlFormat.findArg_eq_iff` : what is read of a description.
* `HtmlFormat.converts` : the converter's own descriptions are right and give the part back, and a
  description can be read if and only if the part does not begin behind the end.
-/

namespace InputLeap

namespace HtmlFormat

/-- The bytes of a text of ASCII characters. -/
def bytes (s : String) : Bytes := s.toList.map fun c => UInt8.ofNat c.toNat

/-- The digits of a number, in as many places as there are (`%010u` for ten). -/
def decimal : ℕ → ℕ → Bytes
  | 0, _ => []
  | k + 1, n => decimal k (n / 10) ++ [UInt8.ofNat (48 + n % 10)]

/-! ### Writing -/

/-- What stands before the part; the letters are replaced by positions. -/
def template : Bytes :=
  bytes "Version:0.9\r\nStartHTML:0000000105\r\nEndHTML:ZZZZZZZZZZ\r\n" ++
    (bytes "StartFragment:XXXXXXXXXX\r\nEndFragment:YYYYYYYYYY\r\n" ++
      bytes "<!DOCTYPE><HTML><BODY><!--StartFragment-->")

/-- What stands behind it. -/
def suffix : Bytes := bytes "<!--EndFragment--></BODY></HTML>\r\n"

/-- Puts a number in the place of ten letters; it is an error if they are not there. -/
def patch (letters : String) (n : ℕ) (s : Bytes) : Option Bytes :=
  (Search.find? (bytes letters) s).map fun i => s.take i ++ (decimal 10 n ++ s.drop (i + 10))

/-- The description and the HTML for a part.  The positions are of type `uint32_t`. -/
def doFromIClipboard (data : Bytes) : Option Bytes :=
  let startFragment := template.length
  let endFragment := (startFragment + data.length % 2 ^ 32) % 2 ^ 32
  let endHTML := (endFragment + suffix.length) % 2 ^ 32
  (patch "XXXXXXXXXX" startFragment template).bind fun s =>
    (patch "YYYYYYYYYY" endFragment s).bind fun s =>
      (patch "ZZZZZZZZZZ" endHTML s).map fun s => s ++ data ++ suffix

/-! ### Reading -/

def isDigit (b : UInt8) : Bool := 48 ≤ b && b ≤ 57

/-- The end of a line. -/
def isEol (b : UInt8) : Bool := b == 13 || b == 10

/-- The digits that stand behind the first occurrence of a keyword and a colon, on the same line;
none if there are no such digits. -/
def findArg (data : Bytes) (name : String) : Bytes :=
  match Search.find? (bytes name) data with
  | none => []
  | some i =>
    match Search.findFrom? (fun b => b == 58 || isEol b) data i with
    | none => []
    | some i =>
      if data[i]? ≠ some 58 then []
      else
        match Search.findFrom? (fun b => isDigit b || isEol b) data (i + 1) with
        | none => []
        | some i =>
          if data[i]?.any isEol then []
          else
            let j := (Search.findFrom? (fun b => !isDigit b) data i).getD data.length
            (data.drop i).take (j - i)

/-- The number that the digits are. -/
def value (digits : Bytes) : ℕ := digits.foldl (fun n b => 10 * n + (b.toNat - 48)) 0

/-- The number as an `int`; a larger one becomes the largest. -/
def atoi (digits : Bytes) : ℕ := min (value digits) (2 ^ 31 - 1)

/-- The part that the positions are about; `none` if taking it throws an exception. -/
def doToIClipboard (data : Bytes) : Option Bytes :=
  let startArg := findArg data "StartFragment"
  let endArg := findArg data "EndFragment"
  if startArg = [] ∨ endArg = [] then some []
  else
    let start := atoi startArg
    let endOf := atoi endArg
    if start ≤ 0 ∨ endOf ≤ 0 ∨ start ≥ endOf then some []
    else Search.substr? data start (endOf - start)

/-! ### Descriptions -/

/-- The digits behind the first occurrence of a keyword: there is a colon and no other one or end
of a line before, and behind it no other digit or end of a line before them. -/
def Arg (data : Bytes) (name : String) (digits : Bytes) : Prop :=
  ∃ before between gap rest : Bytes,
    data = before ++ (bytes name ++ (between ++ 58 :: (gap ++ (digits ++ rest)))) ∧
    (∀ j < before.length, ¬bytes name <+: data.drop j) ∧
    (∀ b ∈ bytes name ++ between, (b == 58 || isEol b) = false) ∧
    (∀ b ∈ gap, (isDigit b || isEol b) = false) ∧
    (digits ≠ [] ∧ ∀ b ∈ digits, isDigit b = true) ∧ ∀ b ∈ rest.head?, isDigit b = false

/-- The positions in a description of the part `d`: the HTML goes from one to the end, and the part
stands between the two marks. -/
structure Layout (text d : Bytes) : Prop where
  startHTML : ∃ digits, Arg text "StartHTML" digits ∧
    bytes "<!DOCTYPE>" <+: text.drop (value digits)
  endHTML : ∃ digits, Arg text "EndHTML" digits ∧ value digits = text.length
  startFragment : ∃ digits, Arg text "StartFragment" digits ∧
    bytes "<!--StartFragment-->" <:+ text.take (value digits) ∧ d <+: text.drop (value digits)
  endFragment : ∃ digits, Arg text "EndFragment" digits ∧
    d <:+ text.take (value digits) ∧ bytes "<!--EndFragment-->" <+: text.drop (value digits)

/-- The description says that the part begins behind the end of the data and before its own end. -/
def BeginsBehind (data : Bytes) : Prop :=
  ∃ startArg endArg, Arg data "StartFragment" startArg ∧ Arg data "EndFragment" endArg ∧
    data.length < atoi startArg ∧ atoi startArg < atoi endArg

theorem Arg.ne_nil {data digits : Bytes} {name : String} (h : Arg data name digits) :
    digits ≠ [] := by
  obtain ⟨_, _, _, _, -, -, -, -, ⟨hne, -⟩, -⟩ := h
  exact hne

/-! ### Numbers -/

theorem length_decimal (k n : ℕ) : (decimal k n).length = k := by
  induction k generalizing n with
  | zero => rfl
  | succ k ih => rw [decimal, List.length_append, ih, List.length_singleton]

theorem isDigit_of_mem_decimal {k n : ℕ} {b : UInt8} (hb : b ∈ decimal k n) :
    isDigit b = true := by
  induction k generalizing n with
  | zero => cases hb
  | succ k ih =>
    rw [decimal, List.mem_append, List.mem_singleton] at hb
    obtain hb | rfl := hb
    · exact ih hb
    · have hlt : n % 10 < 10 := Nat.mod_lt n (by decide)
      generalize n % 10 = m at hlt
      revert m
      decide

/-- The digits of a number are those of its last places. -/
theorem value_decimal (k n : ℕ) : value (decimal k n) = n % 10 ^ k := by
  induction k generalizing n with
  | zero => exact (Nat.mod_one n).symm
  | succ k ih =>
    have hdigit : (UInt8.ofNat (48 + n % 10)).toNat = 48 + n % 10 :=
      Nat.mod_eq_of_lt (by omega)
    have hfold := ih (n / 10)
    rw [value] at hfold
    rw [value, decimal, List.foldl_append, hfold, List.foldl_cons, List.foldl_nil, hdigit,
      pow_succ', Nat.mod_mul]
    omega

/-! ### What is written -/

/-- The number is put in the place of the letters, which the text before does not have. -/
theorem patch_append (letters : String) {c : UInt8} {w : Bytes} (hletters : bytes letters = c :: w)
    (hw : w.length = 9) {a : Bytes} (ha : c ∉ a) (n : ℕ) (t : Bytes) :
    patch letters n (a ++ (bytes letters ++ t)) = some (a ++ (decimal 10 n ++ t)) := by
  have hdrop : (a ++ (c :: w ++ t)).drop (a.length + 10) = t := by
    rw [← List.append_assoc, List.drop_left']
    rw [List.length_append, List.length_cons, hw]
  rw [patch, hletters, Search.find?_of_not_mem ha, Option.map_some, List.take_left, hdrop]

/-- The first line and the beginning of the next ones. -/
def version : Bytes := bytes "Version:0.9\r\nStartHTML:0000000105\r\nEndHTML:"

/-- The text before the part with what stands in it for the positions. -/
def filled (html start endOf : Bytes) : Bytes :=
  version ++ (html ++ (bytes "\r\nStartFragment:" ++ (start ++
    (bytes "\r\nEndFragment:" ++ (endOf ++
      bytes "\r\n<!DOCTYPE><HTML><BODY><!--StartFragment-->")))))

theorem template_eq :
    template = filled (bytes "ZZZZZZZZZZ") (bytes "XXXXXXXXXX") (bytes "YYYYYYYYYY") := by
  decide +kernel

theorem length_template : template.length = 147 := by decide +kernel

theorem length_suffix : suffix.length = 34 := by decide +kernel

theorem not_mem_decimal {c : UInt8} (hc : isDigit c = false) (k n : ℕ) : c ∉ decimal k n :=
  fun hmem => Bool.false_ne_true (hc.symm.trans (isDigit_of_mem_decimal hmem))

/-- The text before a part that ends at `n`. -/
def described (n : ℕ) : Bytes := filled (decimal 10 (n + 34)) (decimal 10 147) (decimal 10 n)

/-- **What the converter writes**, as long as the positions are numbers of the type. -/
theorem doFromIClipboard_eq {d : Bytes} (hd : 181 + d.length < 2 ^ 32) :
    doFromIClipboard d = some (described (147 + d.length) ++ d ++ suffix) := by
  have hdata : d.length % 2 ^ 32 = d.length := Nat.mod_eq_of_lt (by omega)
  have hend : (147 + d.length) % 2 ^ 32 = 147 + d.length := Nat.mod_eq_of_lt (by omega)
  have hhtml : (147 + d.length + 34) % 2 ^ 32 = 147 + d.length + 34 := Nat.mod_eq_of_lt (by omega)
  -- Each search finds its own letters: the digits that were put in have none of them.
  have hfirst : patch "XXXXXXXXXX" 147 template =
      some (filled (bytes "ZZZZZZZZZZ") (decimal 10 147) (bytes "YYYYYYYYYY")) := by
    have hpatch := patch_append "XXXXXXXXXX" (c := 88) (w := List.replicate 9 88)
      (a := version ++ (bytes "ZZZZZZZZZZ" ++ bytes "\r\nStartFragment:")) rfl rfl (by decide) 147
    rw [template_eq]
    simpa only [filled, List.append_assoc] using hpatch (bytes "\r\nEndFragment:" ++
      (bytes "YYYYYYYYYY" ++ bytes "\r\n<!DOCTYPE><HTML><BODY><!--StartFragment-->"))
  have hsecond : patch "YYYYYYYYYY" (147 + d.length)
      (filled (bytes "ZZZZZZZZZZ") (decimal 10 147) (bytes "YYYYYYYYYY")) =
        some (filled (bytes "ZZZZZZZZZZ") (decimal 10 147) (decimal 10 (147 + d.length))) := by
    have hpatch := patch_append "YYYYYYYYYY" (c := 89) (w := List.replicate 9 89)
      (a := version ++ (bytes "ZZZZZZZZZZ" ++ (bytes "\r\nStartFragment:" ++ (decimal 10 147 ++
        bytes "\r\nEndFragment:")))) rfl rfl (by decide) (147 + d.length)
    simpa only [filled, List.append_assoc] using
      hpatch (bytes "\r\n<!DOCTYPE><HTML><BODY><!--StartFragment-->")
  have hthird : patch "ZZZZZZZZZZ" (147 + d.length + 34)
      (filled (bytes "ZZZZZZZZZZ") (decimal 10 147) (decimal 10 (147 + d.length))) =
        some (described (147 + d.length)) :=
    patch_append "ZZZZZZZZZZ" (c := 90) (w := List.replicate 9 90) rfl rfl (by decide) _ _
  rw [doFromIClipboard]
  simp only [length_template, length_suffix, hdata, hend, hhtml, hfirst, hsecond, hthird,
    Option.bind_some, Option.map_some]

/-! ### Keywords -/

/-- No colon, no end of a line and no digit is in the keyword. -/
def Keyword (name : String) : Prop :=
  ∀ b ∈ bytes name, (b == 58 || isEol b) = false ∧ isDigit b = false

instance (name : String) : Decidable (Keyword name) :=
  inferInstanceAs (Decidable (∀ b ∈ bytes name, _ ∧ _))

/-- The number behind the first occurrence of a keyword. -/
theorem arg_of_find? {name : String} {before rest : Bytes} {n : ℕ} (hname : Keyword name)
    (hfind : Search.find? (bytes name)
      (before ++ (bytes name ++ 58 :: (decimal 10 n ++ 13 :: rest))) = some before.length) :
    Arg (before ++ (bytes name ++ 58 :: (decimal 10 n ++ 13 :: rest))) name (decimal 10 n) := by
  refine ⟨before, [], [], 13 :: rest, rfl, ?_, ?_, nofun, ⟨?_, fun b => isDigit_of_mem_decimal⟩, ?_⟩
  · exact fun j => Search.not_prefix_drop_of_find? hfind
  · rw [List.append_nil]
    exact fun b hb => (hname b hb).1
  · exact List.ne_nil_of_length_pos (by rw [length_decimal]; decide)
  · rintro b ⟨⟩
    rfl

/-- The same where the keyword is behind a text that does not have it, and a number. -/
theorem arg_behind_number {name : String} {c : UInt8} {w a between : Bytes}
    (hbytes : bytes name = c :: w) (hname : Keyword name) (ha : ¬bytes name <:+: a)
    (hbetween : c ∉ between) (n m : ℕ) (rest : Bytes) :
    Arg (a ++ (decimal 10 n ++ (between ++
      (bytes name ++ 58 :: (decimal 10 m ++ 13 :: rest))))) name (decimal 10 m) := by
  have hne : decimal 10 n ≠ [] := List.ne_nil_of_length_pos (by rw [length_decimal]; decide)
  have hskip := Search.find?_skip ha hne (fun b hb => not_mem_decimal (hname b hb).2 10 n)
    (between ++ (bytes name ++ 58 :: (decimal 10 m ++ 13 :: rest)))
  have hfirst := Search.find?_of_not_mem (w := w) hbetween (58 :: (decimal 10 m ++ 13 :: rest))
  rw [← hbytes] at hfirst
  rw [hfirst, Option.map_some] at hskip
  have hfind : Search.find? (bytes name) ((a ++ (decimal 10 n ++ between)) ++
      (bytes name ++ 58 :: (decimal 10 m ++ 13 :: rest))) =
        some (a ++ (decimal 10 n ++ between)).length := by
    simpa only [List.append_assoc, List.length_append, Nat.add_assoc] using hskip
  simpa only [List.append_assoc] using arg_of_find? hname hfind

section Filled

variable (h s e : ℕ) (t : Bytes)

theorem arg_startHTML : Arg (filled (decimal 10 h) (decimal 10 s) (decimal 10 e) ++ t) "StartHTML"
    (decimal 10 105) := by
  have hversion : version = bytes "Version:0.9\r\n" ++
      (bytes "StartHTML" ++ 58 :: (decimal 10 105 ++ 13 :: bytes "\nEndHTML:")) := by decide +kernel
  rw [filled, hversion]
  simp only [List.append_assoc, List.cons_append]
  exact arg_of_find? (by decide +kernel) (Search.find?_of_not_mem (by decide) _)

theorem arg_endHTML : Arg (filled (decimal 10 h) (decimal 10 s) (decimal 10 e) ++ t) "EndHTML"
    (decimal 10 h) := by
  have hversion : version = bytes "Version:0.9\r\nStartHTML:0000000105\r\n" ++
      (bytes "EndHTML" ++ [58]) := by decide +kernel
  have hnext : bytes "\r\nStartFragment:" = 13 :: bytes "\nStartFragment:" := by decide +kernel
  rw [filled, hversion, hnext]
  simp only [List.append_assoc, List.cons_append, List.nil_append]
  exact arg_of_find? (by decide +kernel) (Search.find?_of_not_mem (by decide) _)

theorem arg_startFragment : Arg (filled (decimal 10 h) (decimal 10 s) (decimal 10 e) ++ t)
    "StartFragment" (decimal 10 s) := by
  have hline : bytes "\r\nStartFragment:" = [13, 10] ++ (bytes "StartFragment" ++ [58]) := by
    decide +kernel
  have hnext : bytes "\r\nEndFragment:" = 13 :: bytes "\nEndFragment:" := by decide +kernel
  rw [filled, hline, hnext]
  simp only [List.append_assoc]
  exact arg_behind_number rfl (by decide +kernel) (by decide +kernel) (by decide) h s _

theorem arg_endFragment : Arg (filled (decimal 10 h) (decimal 10 s) (decimal 10 e) ++ t)
    "EndFragment" (decimal 10 e) := by
  have hline : bytes "\r\nEndFragment:" = [13, 10] ++ (bytes "EndFragment" ++ [58]) := by
    decide +kernel
  have hnext : bytes "\r\n<!DOCTYPE><HTML><BODY><!--StartFragment-->" =
      13 :: bytes "\n<!DOCTYPE><HTML><BODY><!--StartFragment-->" := by decide +kernel
  have hbetween : 69 ∉ bytes "\r\nStartFragment:" ++ (decimal 10 s ++ [13, 10]) := by
    rw [List.mem_append, List.mem_append, not_or, not_or]
    exact ⟨by decide, not_mem_decimal rfl 10 s, by decide⟩
  have hkeyword : Keyword "EndFragment" := by decide +kernel
  have hversion : ¬bytes "EndFragment" <:+: version := by decide +kernel
  have harg := arg_behind_number rfl hkeyword hversion hbetween h e
    (bytes "\n<!DOCTYPE><HTML><BODY><!--StartFragment-->" ++ t)
  rw [filled, hline, hnext]
  simpa only [List.append_assoc, List.cons_append, List.nil_append] using harg

end Filled

/-! ### What is read -/

section Stages

variable {name : String} {data : Bytes} {i k m : ℕ}

/-- The three searches succeed, at places where a number may stand behind them. -/
structure Stages (data : Bytes) (name : String) (i k m : ℕ) : Prop where
  keyword : Search.find? (bytes name) data = some i
  colon : Search.findFrom? (fun b => b == 58 || isEol b) data i = some k
  isColon : data[k]? = some 58
  digit : Search.findFrom? (fun b => isDigit b || isEol b) data (k + 1) = some m
  isDigit : data[m]?.any isEol = false

theorem findArg_of_stages (h : Stages data name i k m) :
    findArg data name = (data.drop m).takeWhile HtmlFormat.isDigit := by
  obtain ⟨hkeyword, hcolon, hisColon, hdigit, hisDigit⟩ := h
  rw [findArg]
  simp only [hkeyword, hcolon, hdigit]
  rw [if_neg (fun hne => hne hisColon), if_neg (by rw [hisDigit]; decide),
    Search.take_findFrom? HtmlFormat.isDigit]

theorem stages_of_findArg (h : findArg data name ≠ []) : ∃ i k m, Stages data name i k m := by
  rw [findArg] at h
  split at h
  · exact absurd rfl h
  · next i hkeyword =>
    split at h
    · exact absurd rfl h
    · next k hcolon =>
      split_ifs at h with hne
      · exact absurd rfl h
      · split at h
        · exact absurd rfl h
        · next m hdigit =>
          split_ifs at h with heol
          · exact absurd rfl h
          · exact ⟨i, k, m, hkeyword, hcolon, not_not.1 hne, hdigit, Bool.eq_false_iff.2 heol⟩

theorem drop_add_length {s a t : Bytes} (h : s.drop i = a ++ t) : s.drop (i + a.length) = t := by
  rw [← List.drop_drop, h, List.drop_left]

theorem isEol_of_isDigit {b : UInt8} (h : isDigit b = true) : isEol b = false := by
  refine Bool.eq_false_iff.2 fun heol => ?_
  rw [isEol, Bool.or_eq_true, beq_iff_eq, beq_iff_eq] at heol
  obtain rfl | rfl := heol <;> exact absurd h (by decide)

/-- The searches find what the description of the digits is about. -/
theorem stages_of_arg {digits : Bytes} (h : Arg data name digits) : ∃ i k m,
    Stages data name i k m ∧ (data.drop m).takeWhile isDigit = digits := by
  obtain ⟨before, between, gap, rest, rfl, hfirst, hbetween, hgap, ⟨hne, hall⟩, hrest⟩ := h
  obtain ⟨c, digits, rfl⟩ := List.exists_cons_of_ne_nil hne
  have hc := hall c List.mem_cons_self
  generalize hdata : before ++ (bytes name ++ (between ++ 58 :: (gap ++ (c :: digits ++ rest)))) =
    data at hfirst ⊢
  have hkeyword : data.drop before.length =
      (bytes name ++ between) ++ 58 :: (gap ++ (c :: digits ++ rest)) := by
    rw [← hdata, List.drop_left, List.append_assoc]
  have hcolon := drop_add_length hkeyword
  have hbehind : data.drop (before.length + (bytes name ++ between).length + 1) =
      gap ++ c :: (digits ++ rest) := by
    rw [← List.drop_drop, hcolon]
    rfl
  have hnumber := drop_add_length hbehind
  refine ⟨before.length, before.length + (bytes name ++ between).length,
    before.length + (bytes name ++ between).length + 1 + gap.length, ⟨?_, ?_, ?_, ?_, ?_⟩, ?_⟩
  · refine Search.find?_eq_some_iff.2 ⟨?_, ?_, hfirst⟩
    · rw [hkeyword, List.append_assoc]
      exact List.prefix_append _ _
    · rw [← hdata, List.length_append]
      exact Nat.le_add_right _ _
  · exact Search.findFrom?_eq_some_iff.2 ⟨_, 58, _, hkeyword, hbetween, rfl, rfl⟩
  · rw [← List.head?_drop, hcolon]
    rfl
  · exact Search.findFrom?_eq_some_iff.2 ⟨gap, c, _, hbehind, hgap, by rw [hc]; rfl, rfl⟩
  · rw [← List.head?_drop, hnumber]
    exact isEol_of_isDigit hc
  · rw [hnumber, ← List.cons_append, List.takeWhile_append_of_pos hall]
    cases rest with
    | nil => exact List.append_nil _
    | cons b rest =>
      rw [List.takeWhile_cons_of_neg (by rw [hrest b rfl]; decide), List.append_nil]

/-- What the searches find is what the description of the digits is about. -/
theorem arg_of_stages (hname : Keyword name) (h : Stages data name i k m) :
    Arg data name ((data.drop m).takeWhile isDigit) := by
  obtain ⟨hkeyword, hcolon, hisColon, hdigit, hisDigit⟩ := h
  obtain ⟨⟨r, hr⟩, hle, hfirst⟩ := Search.find?_eq_some_iff.1 hkeyword
  obtain ⟨a, c, t, ha, hbefore, -, rfl⟩ := Search.findFrom?_eq_some_iff.1 hcolon
  obtain ⟨gap, c', t', hgap, hbehind, hc', rfl⟩ := Search.findFrom?_eq_some_iff.1 hdigit
  have hat := drop_add_length ha
  rw [← List.head?_drop, hat, List.head?_cons, Option.some_inj] at hisColon
  subst hisColon
  rw [← List.drop_drop, hat, List.drop_one, List.tail_cons] at hgap
  -- The keyword ends before the colon, which it does not have.
  obtain ⟨between, rfl⟩ : ∃ between, a = bytes name ++ between := by
    obtain ⟨between, hbetween, -⟩ | ⟨b, hb, hcolons⟩ := List.append_eq_append_iff.1 (hr.trans ha)
    · exact ⟨between, hbetween⟩
    · cases b with
      | nil => exact ⟨[], by rw [hb, List.append_nil, List.append_nil]⟩
      | cons b bs =>
        obtain ⟨rfl, -⟩ := List.cons.inj hcolons
        have hmem : (58 : UInt8) ∈ bytes name := by
          rw [hb]
          exact List.mem_append_right _ List.mem_cons_self
        exact absurd (hname 58 hmem).1 (by decide)
  have hnumber : data.drop (i + (bytes name ++ between).length + 1 + gap.length) = c' :: t' := by
    rw [← List.drop_drop, ← List.drop_drop (i := 1), hat, List.drop_one, List.tail_cons, hgap,
      List.drop_left]
  rw [← List.head?_drop, hnumber, List.head?_cons, Option.any_some] at hisDigit
  rw [hisDigit, Bool.or_false] at hc'
  refine ⟨data.take i, between, gap, (c' :: t').dropWhile isDigit, ?_, ?_, hbefore, hbehind,
    ⟨?_, ?_⟩, ?_⟩
  · rw [hnumber, List.takeWhile_append_dropWhile, ← hgap, ← List.append_assoc (bytes name), ← ha,
      List.take_append_drop]
  · rw [List.length_take, Nat.min_eq_left hle]
    exact hfirst
  · rw [hnumber, List.takeWhile_cons_of_pos hc']
    exact List.cons_ne_nil _ _
  · intro b hb
    exact List.mem_takeWhile_imp hb
  · intro b hb
    have hnot := List.head?_dropWhile_not isDigit (c' :: t')
    rw [Option.mem_def.1 hb] at hnot
    exact hnot

end Stages

/-- **The digits that are read** are those behind the first occurrence of the keyword. -/
theorem findArg_eq_iff {name : String} (hname : Keyword name) {data digits : Bytes}
    (hdigits : digits ≠ []) : findArg data name = digits ↔ Arg data name digits := by
  constructor
  · rintro rfl
    obtain ⟨i, k, m, hstages⟩ := stages_of_findArg hdigits
    rw [findArg_of_stages hstages]
    exact arg_of_stages hname hstages
  · intro h
    obtain ⟨i, k, m, hstages, hrun⟩ := stages_of_arg h
    rw [findArg_of_stages hstages, hrun]

theorem keyword_startFragment : Keyword "StartFragment" := by decide +kernel

theorem keyword_endFragment : Keyword "EndFragment" := by decide +kernel

/-- **When taking the part throws**: it begins behind the end. -/
theorem doToIClipboard_eq_none_iff (data : Bytes) :
    doToIClipboard data = none ↔ BeginsBehind data := by
  rw [doToIClipboard]
  constructor
  · intro h
    dsimp only at h
    split_ifs at h with hempty horder
    rw [not_or] at hempty
    rw [not_or, not_or, Nat.not_le, Nat.not_le, Nat.not_le] at horder
    rw [Search.substr?] at h
    split_ifs at h with hle
    exact ⟨_, _, (findArg_eq_iff keyword_startFragment hempty.1).1 rfl,
      (findArg_eq_iff keyword_endFragment hempty.2).1 rfl, Nat.lt_of_not_le hle, horder.2.2⟩
  · rintro ⟨startArg, endArg, hstart, hend, hbehind, horder⟩
    have hstartne := hstart.ne_nil
    have hendne := hend.ne_nil
    rw [(findArg_eq_iff keyword_startFragment hstartne).2 hstart,
      (findArg_eq_iff keyword_endFragment hendne).2 hend, if_neg (not_or.2 ⟨hstartne, hendne⟩),
      if_neg (by omega), Search.substr?, if_neg (Nat.not_le.2 hbehind)]

/-! ### What is written can be read -/

theorem atoi_decimal {n : ℕ} (hn : n < 2 ^ 31) : atoi (decimal 10 n) = n := by
  rw [atoi, value_decimal, Nat.mod_eq_of_lt (by omega), Nat.min_eq_left (by omega)]

/-- The part before the HTML has 105 bytes, up to the part that was copied are 147. -/
theorem described_eq (n : ℕ) : ∃ a : Bytes, a.length = 105 ∧
    described n = a ++ (bytes "<!DOCTYPE><HTML><BODY>" ++ bytes "<!--StartFragment-->") := by
  have hmarks : bytes "\r\n<!DOCTYPE><HTML><BODY><!--StartFragment-->" =
      [13, 10] ++ (bytes "<!DOCTYPE><HTML><BODY>" ++ bytes "<!--StartFragment-->") := by
    decide +kernel
  refine ⟨version ++ (decimal 10 (n + 34) ++ (bytes "\r\nStartFragment:" ++ (decimal 10 147 ++
    (bytes "\r\nEndFragment:" ++ (decimal 10 n ++ [13, 10]))))), ?_, ?_⟩
  · simp only [List.length_append, length_decimal]
    decide +kernel
  · rw [described, filled, hmarks]
    simp only [List.append_assoc]

theorem length_described (n : ℕ) : (described n).length = 147 := by
  obtain ⟨a, ha, hdescribed⟩ := described_eq n
  rw [hdescribed, List.length_append, List.length_append, ha]
  decide +kernel

section Written

variable {d : Bytes}

theorem drop_described (n : ℕ) (t : Bytes) : (described n ++ t).drop 147 = t :=
  List.drop_left' (length_described n)

/-- The positions that are written are right. -/
theorem layout_described (hd : 181 + d.length < 2 ^ 32) :
    Layout (described (147 + d.length) ++ d ++ suffix) d := by
  have hvalue : ∀ {n : ℕ}, n < 2 ^ 32 → value (decimal 10 n) = n := fun hn => by
    rw [value_decimal, Nat.mod_eq_of_lt (by omega)]
  obtain ⟨a, ha, hdescribed⟩ := described_eq (147 + d.length)
  have hpart : (described (147 + d.length) ++ d).length = 147 + d.length := by
    rw [List.length_append, length_described]
  refine ⟨⟨decimal 10 105, ?_, ?_⟩, ⟨decimal 10 (147 + d.length + 34), ?_, ?_⟩,
    ⟨decimal 10 147, ?_, ?_, ?_⟩, ⟨decimal 10 (147 + d.length), ?_, ?_, ?_⟩⟩
  · rw [List.append_assoc]
    exact arg_startHTML _ _ _ _
  · rw [hvalue (by decide), hdescribed, List.append_assoc, List.append_assoc, List.drop_left' ha]
    have hdoctype : bytes "<!DOCTYPE><HTML><BODY>" =
        bytes "<!DOCTYPE>" ++ bytes "<HTML><BODY>" := by decide +kernel
    rw [hdoctype]
    simp only [List.append_assoc]
    exact List.prefix_append _ _
  · rw [List.append_assoc]
    exact arg_endHTML _ _ _ _
  · rw [hvalue (by omega), List.length_append, hpart, length_suffix]
  · rw [List.append_assoc]
    exact arg_startFragment _ _ _ _
  · rw [hvalue (by decide), List.append_assoc, List.take_left' (length_described _), hdescribed,
      ← List.append_assoc]
    exact List.suffix_append _ _
  · rw [hvalue (by decide), List.append_assoc, drop_described]
    exact List.prefix_append _ _
  · rw [List.append_assoc]
    exact arg_endFragment _ _ _ _
  · rw [hvalue (by omega), List.take_left' hpart]
    exact List.suffix_append _ _
  · rw [hvalue (by omega), List.drop_left' hpart]
    exact ⟨bytes "</BODY></HTML>\r\n", by decide +kernel⟩

/-- What was written gives the part back. -/
theorem doToIClipboard_described (hne : d ≠ []) (hd : 181 + d.length < 2 ^ 31) :
    doToIClipboard (described (147 + d.length) ++ d ++ suffix) = some d := by
  have hpos := List.length_pos_of_ne_nil hne
  have hstart := arg_startFragment (147 + d.length + 34) 147 (147 + d.length) (d ++ suffix)
  have hend := arg_endFragment (147 + d.length + 34) 147 (147 + d.length) (d ++ suffix)
  have hpart := Search.substr?_append (described (147 + d.length)) d suffix
  rw [length_described] at hpart
  rw [List.append_assoc, doToIClipboard, described, (findArg_eq_iff keyword_startFragment
    hstart.ne_nil).2 hstart, (findArg_eq_iff keyword_endFragment hend.ne_nil).2 hend,
    if_neg (not_or.2 ⟨hstart.ne_nil, hend.ne_nil⟩), atoi_decimal (by decide),
    atoi_decimal (by omega)]
  dsimp only
  rw [if_neg (by omega), Nat.add_sub_cancel_left]
  exact hpart

end Written

/-- **The converter**: for a part that is not empty and whose positions are of the type `int`, the
positions that are written are right and the part is read back; and a description of any program
can be read without an exception if and only if the part does not begin behind the end. -/
theorem converts (d data : Bytes) :
    (d ≠ [] → 181 + d.length < 2 ^ 31 → ∃ text, doFromIClipboard d = some text ∧
      Layout text d ∧ doToIClipboard text = some d) ∧
    ((∃ part, doToIClipboard data = some part) ↔ ¬BeginsBehind data) := by
  refine ⟨fun hne hd => ?_, ?_⟩
  · have hpositions : 181 + d.length < 2 ^ 32 := by omega
    exact ⟨_, doFromIClipboard_eq hpositions, layout_described hpositions,
      doToIClipboard_described hne hd⟩
  · rw [← doToIClipboard_eq_none_iff, ← Option.isSome_iff_exists]
    exact Option.isSome_iff_ne_none

/-- A part with the keywords of a description in it. -/
theorem converts_keywords :
    (∃ text, doFromIClipboard (bytes "StartFragment:1\r\nEndFragment:2") = some text ∧
      Layout text (bytes "StartFragment:1\r\nEndFragment:2") ∧
        doToIClipboard text = some (bytes "StartFragment:1\r\nEndFragment:2")) ∧
    (∃ part, doToIClipboard (bytes "<b>") = some part) :=
  ⟨(converts (bytes "StartFragment:1\r\nEndFragment:2") []).1 (by decide) (by decide),
    (converts [] (bytes "<b>")).2.2 (by
      rw [← doToIClipboard_eq_none_iff]
      decide +kernel)⟩

/-- A description whose part begins behind the end. -/
theorem not_converts_behind :
    doToIClipboard (bytes "StartFragment:99999\r\nEndFragment:100000\r\n") = none := by
  decide +kernel

end HtmlFormat

end InputLeap
