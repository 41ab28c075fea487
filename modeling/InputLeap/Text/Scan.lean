import Mathlib.Algebra.Group.Int.Defs
import Mathlib.Algebra.Group.Nat.Defs
import Mathlib.Data.List.DropRight
import Mathlib.Tactic.SplitIfs

/-!
# Scanning text

Text is a list of characters here; a position in it is what is left of it.

## Main definitions

* `Text.isBlank`, `Text.trim` : blanks, and a text without those around it.
* `Text.splitOn` : the parts between separators.
* `Text.strtol`, `Text.hex4` : reading a number, and writing one in four digits.

## Main results

* `takeWhile_run`, `dropWhile_run` : a run of characters up to one that ends it.
* `splitOn_intercalate` : what was put together with separators comes apart again.
* `strtol_hex4` : four digits are read back.
-/

namespace InputLeap

/-- A text. -/
abbrev Text := List Char

namespace Text

/-- The characters of a text are checked one by one, and not those of the whole type. -/
instance (priority := high) decidableBAll (s : Text) (p : Char → Prop) [DecidablePred p] :
    Decidable (∀ c ∈ s, p c) := List.decidableBAll p s

/-- A space or a tab. -/
def isBlank (c : Char) : Bool := c == ' ' || c == '\t'

/-- The text without the blanks before and after it. -/
def trim (s : Text) : Text := (s.dropWhile isBlank).rdropWhile isBlank

/-- The parts of the text between the separators. -/
def splitOn (sep : Char) : Text → List Text
  | [] => [[]]
  | c :: s =>
    if c = sep then [] :: splitOn sep s
    else
      match splitOn sep s with
      | [] => [[c]]
      | p :: ps => (c :: p) :: ps

/-! ### Runs of characters -/

variable {p : Char → Bool} {s t : Text} {c : Char}

theorem takeWhile_run (hs : ∀ c ∈ s, p c = true) (ht : ∀ c ∈ t.head?, p c = false) :
    (s ++ t).takeWhile p = s := by
  rw [List.takeWhile_append_of_pos hs]
  cases t with
  | nil => rw [List.takeWhile_nil, List.append_nil]
  | cons c t =>
    have hc : p c = false := ht c rfl
    rw [List.takeWhile_cons_of_neg (by rw [hc]; exact Bool.false_ne_true), List.append_nil]

theorem dropWhile_run (hs : ∀ c ∈ s, p c = true) (ht : ∀ c ∈ t.head?, p c = false) :
    (s ++ t).dropWhile p = t := by
  rw [List.dropWhile_append_of_pos hs]
  cases t with
  | nil => rfl
  | cons c t =>
    have hc : p c = false := ht c rfl
    exact List.dropWhile_cons_of_neg (by rw [hc]; exact Bool.false_ne_true)

theorem dropWhile_of_head (ht : ∀ c ∈ t.head?, p c = false) : t.dropWhile p = t :=
  dropWhile_run (s := []) (fun _ hc => (by cases hc)) ht

theorem rdropWhile_of_last (h : ∀ c ∈ s.getLast?, p c = false) : s.rdropWhile p = s := by
  cases hlast : s.getLast? with
  | none =>
    rw [List.getLast?_eq_none_iff.1 hlast]
    rfl
  | some c =>
    obtain ⟨front, rfl⟩ := List.getLast?_eq_some_iff.1 hlast
    have hc : p c = false := h c hlast
    exact List.rdropWhile_concat_neg _ _ _ (by rw [hc]; exact Bool.false_ne_true)

/-- A text without blanks is trimmed. -/
theorem trim_of_noBlank (h : ∀ c ∈ s, isBlank c = false) : trim s = s := by
  have hdrop : s.dropWhile isBlank = s :=
    dropWhile_of_head fun c hc => h c (List.mem_of_mem_head? hc)
  rw [trim, hdrop]
  exact rdropWhile_of_last fun c hc => h c (List.mem_of_getLast? hc)

/-! ### Parts -/

variable {sep : Char}

theorem splitOn_ne_nil (sep : Char) (s : Text) : splitOn sep s ≠ [] := by
  cases s with
  | nil => exact List.cons_ne_nil _ _
  | cons c s =>
    rw [splitOn]
    split_ifs
    · exact List.cons_ne_nil _ _
    · split
      · exact List.cons_ne_nil _ _
      · exact List.cons_ne_nil _ _

theorem splitOn_of_not_mem (h : sep ∉ s) : splitOn sep s = [s] := by
  induction s with
  | nil => rfl
  | cons c s ih =>
    have hc := List.ne_of_not_mem_cons h
    rw [splitOn, if_neg hc.symm, ih (List.not_mem_of_not_mem_cons h)]

theorem splitOn_append (h : sep ∉ s) (t : Text) :
    splitOn sep (s ++ sep :: t) = s :: splitOn sep t := by
  induction s with
  | nil => exact if_pos rfl
  | cons c s ih =>
    have hc := List.ne_of_not_mem_cons h
    rw [List.cons_append, splitOn, if_neg hc.symm, ih (List.not_mem_of_not_mem_cons h)]

/-- **Parts that were put together** come apart again. -/
theorem splitOn_intercalate {ps : List Text} (hne : ps ≠ []) (h : ∀ p ∈ ps, sep ∉ p) :
    splitOn sep (List.intercalate [sep] ps) = ps := by
  induction ps with
  | nil => exact absurd rfl hne
  | cons p ps ih =>
    obtain ⟨hp, hps⟩ := List.forall_mem_cons.1 h
    cases ps with
    | nil =>
      rw [List.intercalate_singleton]
      exact splitOn_of_not_mem hp
    | cons q qs =>
      rw [List.intercalate_cons_cons, List.append_assoc, List.singleton_append, splitOn_append hp]
      exact congrArg _ (ih (List.cons_ne_nil _ _) hps)

/-! ### Numbers -/

/-- The value of a digit. -/
def digit? (c : Char) : Option ℕ :=
  if '0' ≤ c ∧ c ≤ '9' then some (c.toNat - '0'.toNat)
  else if 'a' ≤ c ∧ c ≤ 'z' then some (c.toNat - 'a'.toNat + 10)
  else if 'A' ≤ c ∧ c ≤ 'Z' then some (c.toNat - 'A'.toNat + 10)
  else none

/-- The number that the digits at the start of the text go on with, and what is behind them. -/
def digits (base : ℕ) : ℕ → Text → ℕ × Text
  | n, [] => (n, [])
  | n, c :: s =>
    match digit? c with
    | some d => if d < base then digits base (base * n + d) s else (n, c :: s)
    | none => (n, c :: s)

/-- The text starts with a digit. -/
def startsDigit (base : ℕ) (s : Text) : Bool := s.head?.any fun c => (digit? c).any (· < base)

/-- Whether `strtol` passes over the character at the start. -/
def isSpace (c : Char) : Bool := c == ' ' || ('\t' ≤ c && c ≤ '\r')

/-- The sign at the start of the text, `true` for a minus. -/
def sign : Text → Bool × Text
  | [] => (false, [])
  | c :: s => if c = '-' then (true, s) else if c = '+' then (false, s) else (false, c :: s)

/-- The text without the prefix of hexadecimal numbers. -/
def skipPrefix (base : ℕ) : Text → Text
  | c :: x :: s =>
    if base = 16 ∧ c = '0' ∧ (x = 'x' ∨ x = 'X') ∧ startsDigit 16 s then s else c :: x :: s
  | s => s

/-- `strtol`: the number at the start of the text, within the range of `long`, and what is behind
it; the whole text if there is no number. -/
def strtol (base : ℕ) (s : Text) : ℤ × Text :=
  let (negative, t) := sign (s.dropWhile isSpace)
  let t := skipPrefix base t
  if startsDigit base t then
    let (n, rest) := digits base 0 t
    (if negative then max (-n) (-2 ^ 63) else min n (2 ^ 63 - 1), rest)
  else (0, s)

/-- A digit in lower case. -/
def hexDigit (d : ℕ) : Char := "0123456789abcdef".toList.getD d '0'

/-- A number below 2 ^ 16 in four digits. -/
def hex4 (n : ℕ) : Text :=
  [hexDigit (n / 4096 % 16), hexDigit (n / 256 % 16), hexDigit (n / 16 % 16), hexDigit (n % 16)]

theorem digit?_hexDigit : ∀ d < 16, digit? (hexDigit d) = some d := by decide

theorem hexDigit_plain : ∀ d < 16, isSpace (hexDigit d) = false ∧ hexDigit d ≠ '-' ∧
    hexDigit d ≠ '+' ∧ hexDigit d ≠ 'x' ∧ hexDigit d ≠ 'X' := by decide

/-- A number that starts with two digits is read digit by digit. -/
theorem strtol_of_digits {x y : Char} (hspace : isSpace x = false) (hminus : x ≠ '-')
    (hplus : x ≠ '+') (hx : y ≠ 'x') (hX : y ≠ 'X') (hdigit : (digit? x).any (· < 16) = true)
    (s : Text) :
    strtol 16 (x :: y :: s) =
      (min ((digits 16 0 (x :: y :: s)).1 : ℤ) (2 ^ 63 - 1), (digits 16 0 (x :: y :: s)).2) := by
  have hsign : sign (x :: y :: s) = (false, x :: y :: s) := by
    rw [sign, if_neg hminus, if_neg hplus]
  have hskip : skipPrefix 16 (x :: y :: s) = x :: y :: s :=
    if_neg fun h => h.2.2.1.elim hx hX
  have hstart : startsDigit 16 (x :: y :: s) = true := hdigit
  unfold strtol
  rw [List.dropWhile_cons_of_neg (by rw [hspace]; exact Bool.false_ne_true), hsign]
  dsimp only
  rw [hskip, if_pos hstart]
  rfl

/-- **Four digits are read back.** -/
theorem strtol_hex4 {n : ℕ} (hn : n < 2 ^ 16) : strtol 16 (hex4 n) = ((n : ℤ), []) := by
  have ha : n / 4096 % 16 < 16 := Nat.mod_lt _ (by decide)
  have hb : n / 256 % 16 < 16 := Nat.mod_lt _ (by decide)
  have hc : n / 16 % 16 < 16 := Nat.mod_lt _ (by decide)
  have hd : n % 16 < 16 := Nat.mod_lt _ (by decide)
  obtain ⟨hspace, hminus, hplus, -, -⟩ := hexDigit_plain _ ha
  obtain ⟨-, -, -, hx, hX⟩ := hexDigit_plain _ hb
  have hdigits : digits 16 0 (hex4 n) = (n, []) := by
    simp only [hex4, digits, digit?_hexDigit _ ha, digit?_hexDigit _ hb, digit?_hexDigit _ hc,
      digit?_hexDigit _ hd, ha, hb, hc, hd, if_true]
    refine Prod.ext ?_ rfl
    show 16 * (16 * (16 * (16 * 0 + n / 4096 % 16) + n / 256 % 16) + n / 16 % 16) + n % 16 = n
    omega
  have hread := strtol_of_digits hspace hminus hplus hx hX
    (by rw [digit?_hexDigit _ ha]; simpa using ha)
    [hexDigit (n / 16 % 16), hexDigit (n % 16)]
  rw [← hex4, hdigits] at hread
  rw [hread]
  refine Prod.ext ?_ rfl
  show min (n : ℤ) (2 ^ 63 - 1) = n
  omega

end Text

end InputLeap
