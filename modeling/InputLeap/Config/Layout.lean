import InputLeap.Config.ConfigReader
import InputLeap.Config.RuleText
import Mathlib.Logic.Relation

/-!
# The layout of a configuration

Blanks around a line, comments and lines without anything else should not matter.  A line of blanks
only is not taken for an empty one, though, and a carriage return before what a line says is not
dropped.

## Main definitions

* `Layout.Edit` : a line without content is inserted, or a comment or blanks to a line.
* `Layout.contents` : what the lines say.
* `Layout.Plain` : the line is taken for what it says.

## Main results

* `Layout.readSections_congr` : a configuration is read through the lines that are returned.
* `Layout.not_stuck_of_readSections` : none of them is of blanks only.
* `Layout.readText_eq_iff` : when two layouts of a configuration are read alike.
-/

namespace InputLeap

namespace Layout

open Config ConfigReadContext
open RuleText (isEnd strip)

/-- One text comes from the other by a change of its layout. -/
inductive Edit : List Text → List Text → Prop
  /-- A line of spaces, tabs and carriage returns. -/
  | blankLine (before after : List Text) {line : Text} (h : ∀ c ∈ line, isEnd c = true) :
      Edit (before ++ after) (before ++ line :: after)
  | commentLine (before after : List Text) (comment : Text) :
      Edit (before ++ after) (before ++ ('#' :: comment) :: after)
  | comment (before after : List Text) (line comment : Text) :
      Edit (before ++ line :: after) (before ++ (line ++ '#' :: comment) :: after)
  | leading (before after : List Text) (line : Text) {w : Text} (h : ∀ c ∈ w, isEnd c = true) :
      Edit (before ++ line :: after) (before ++ (w ++ line) :: after)
  | trailing (before after : List Text) (line : Text) {w : Text} (h : ∀ c ∈ w, isEnd c = true) :
      Edit (before ++ line :: after) (before ++ (line ++ w) :: after)

/-- What a line says: without the comment and without the blanks around the rest. -/
def bare (line : Text) : Text := strip (line.dropWhile isEnd)

/-- What the lines say. -/
def contents (lines : List Text) : List Text := (lines.map bare).filter (· ≠ [])

/-- The line is empty, or something other than a carriage return is behind its leading blanks. -/
def Plain (line : Text) : Prop := line = [] ∨ ∃ c ∈ (line.dropWhile Text.isBlank).head?, c ≠ '\r'

/-- The lines that `readLine` returns. -/
def returned (lines : List Text) : List Text := (lines.map stripLine).filter (· ≠ [])

/-- A line of blanks only, or one that starts with a carriage return. -/
def Stuck (line : Text) : Prop :=
  line ≠ [] ∧ (line.head? = some '\r' ∨ ∀ c ∈ line, Text.isBlank c = true)

variable {line x w s : Text} {lines lines' rest : List Text}

/-! ### What a line says -/

theorem isEnd_of_isBlank {c : Char} (h : Text.isBlank c = true) : isEnd c = true := by
  rcases Bool.or_eq_true _ _ ▸ h with h | h
  · rw [beq_iff_eq.1 h]
    rfl
  · rw [beq_iff_eq.1 h]
    rfl

theorem ne_comment_of_isEnd {c : Char} (h : isEnd c = true) : c ≠ '#' := by
  rintro rfl
  cases h

theorem dropWhile_append_of_not {p : Char → Bool} (hx : x.dropWhile p ≠ []) (t : Text) :
    (x ++ t).dropWhile p = x.dropWhile p ++ t := by
  rw [List.dropWhile_append, if_neg]
  rwa [List.isEmpty_iff]

/-- A line without content. -/
theorem bare_of_forall (h : ∀ c ∈ line, isEnd c = true) : bare line = [] := by
  rw [bare, List.dropWhile_eq_nil_iff.2 h]
  rfl

theorem takeWhile_comment (x t : Text) :
    (x ++ '#' :: t).takeWhile (· != '#') = x.takeWhile (· != '#') := by
  induction x with
  | nil => rfl
  | cons c x ih =>
    rw [List.cons_append, List.takeWhile_cons, List.takeWhile_cons, ih]

theorem takeWhile_cons {c : Char} (hc : c ≠ '#') (s : Text) :
    (c :: s).takeWhile (· != '#') = c :: s.takeWhile (· != '#') :=
  List.takeWhile_cons_of_pos (bne_iff_ne.2 hc)

theorem ne_comment_of_mem_strip {c : Char} (h : c ∈ strip s) : c ≠ '#' := by
  have hc : c ∈ s.takeWhile (· != '#') := (List.rdropWhile_prefix isEnd _).subset h
  exact bne_iff_ne.1 (List.mem_takeWhile_imp (p := (· != '#')) hc)

theorem strip_comment (x t : Text) : strip (x ++ '#' :: t) = strip x := by
  rw [strip, takeWhile_comment]
  rfl

theorem strip_trailing (hw : ∀ c ∈ w, isEnd c = true) (x : Text) : strip (x ++ w) = strip x := by
  unfold strip
  rw [List.takeWhile_append]
  split_ifs with hlen
  · have hx : x.takeWhile (· != '#') = x :=
      (List.takeWhile_prefix _).eq_of_length hlen
    have hw' : w.takeWhile (· != '#') = w :=
      List.takeWhile_eq_self_iff.2 fun c hc => bne_iff_ne.2 (ne_comment_of_isEnd (hw c hc))
    rw [hx, hw', List.rdropWhile, List.reverse_append, List.dropWhile_append_of_pos]
    · rfl
    · exact fun c hc => hw c (List.mem_reverse.1 hc)
  · rfl

theorem bare_comment (line comment : Text) : bare (line ++ '#' :: comment) = bare line := by
  unfold bare
  by_cases hline : line.dropWhile isEnd = []
  · rw [List.dropWhile_append, hline]
    rfl
  · rw [dropWhile_append_of_not hline, strip_comment]

theorem bare_leading (hw : ∀ c ∈ w, isEnd c = true) (line : Text) :
    bare (w ++ line) = bare line := by
  rw [bare, List.dropWhile_append_of_pos hw]
  rfl

theorem bare_trailing (hw : ∀ c ∈ w, isEnd c = true) (line : Text) :
    bare (line ++ w) = bare line := by
  unfold bare
  by_cases hline : line.dropWhile isEnd = []
  · rw [List.dropWhile_append, hline, List.dropWhile_eq_nil_iff.2 hw]
    rfl
  · rw [dropWhile_append_of_not hline, strip_trailing hw]

theorem contents_append (lines lines' : List Text) :
    contents (lines ++ lines') = contents lines ++ contents lines' := by
  rw [contents, List.map_append, List.filter_append]
  rfl

theorem contents_cons_of_nil (h : bare line = []) (lines : List Text) :
    contents (line :: lines) = contents lines := by
  rw [contents, List.map_cons, h]
  rfl

theorem contents_cons_congr {line line' : Text} (h : bare line' = bare line) (lines : List Text) :
    contents (line' :: lines) = contents (line :: lines) := by
  rw [contents, List.map_cons, h]
  rfl

/-- A change of the layout leaves what the lines say. -/
theorem Edit.contents_eq (h : Edit lines lines') : contents lines' = contents lines := by
  cases h with
  | blankLine before after hline =>
    rw [contents_append, contents_append, contents_cons_of_nil (bare_of_forall hline)]
  | commentLine before after comment =>
    have hline : bare ('#' :: comment) = [] := bare_comment [] comment
    rw [contents_append, contents_append, contents_cons_of_nil hline]
  | comment before after line comment =>
    rw [contents_append, contents_append, contents_cons_congr (bare_comment line comment)]
  | leading before after line hw =>
    rw [contents_append, contents_append, contents_cons_congr (bare_leading hw line)]
  | trailing before after line hw =>
    rw [contents_append, contents_append, contents_cons_congr (bare_trailing hw line)]

theorem contents_eq_of_eqvGen (h : Relation.EqvGen Edit lines lines') :
    contents lines' = contents lines := by
  induction h with
  | rel lines lines' h => exact h.contents_eq
  | refl lines => rfl
  | symm lines lines' _ ih => exact ih.symm
  | trans lines lines' lines'' _ _ ih ih' => exact ih'.trans ih

/-! ### The lines that are returned -/

theorem isBlank_of_mem_head {c : Char} (h : c ∈ (line.dropWhile Text.isBlank).head?) :
    Text.isBlank c = false := by
  have hne : line.dropWhile Text.isBlank ≠ [] := by
    intro hnil
    rw [hnil] at h
    cases h
  rw [List.head?_eq_some_head hne] at h
  obtain rfl := Option.some.inj h
  exact List.head_dropWhile_not _ hne

/-- Blanks only are kept. -/
theorem stripLine_of_blank (h : ∀ c ∈ line, Text.isBlank c = true) : stripLine line = line := by
  have hcomment : line.takeWhile (· != '#') = line :=
    List.takeWhile_eq_self_iff.2 fun c hc =>
      bne_iff_ne.2 (ne_comment_of_isEnd (isEnd_of_isBlank (h c hc)))
  have hall : line.all Text.isBlank = true := List.all_eq_true.2 h
  have hend : line.all (fun c => c == ' ' || c == '\r' || c == '\t') = true :=
    List.all_eq_true.2 fun c hc => isEnd_of_isBlank (h c hc)
  rw [stripLine, if_pos hall, hcomment, if_pos hend]

/-- Otherwise the blanks before the rest are dropped. -/
theorem stripLine_of_dropWhile {c : Char} (h : line.dropWhile Text.isBlank = c :: s) :
    stripLine line =
      if ((c :: s).takeWhile (· != '#')).all isEnd then (c :: s).takeWhile (· != '#')
      else strip (c :: s) := by
  have hall : ¬line.all Text.isBlank = true := by
    intro hall
    rw [List.dropWhile_eq_nil_iff.2 (List.all_eq_true.1 hall)] at h
    cases h
  rw [stripLine, if_neg hall, h]
  rfl

/-- A line that starts with what it says. -/
theorem bare_of_head {c : Char} (hc : isEnd c = false) (s : Text) :
    bare (c :: s) = strip (c :: s) := by
  rw [bare, List.dropWhile_cons_of_neg (by rw [hc]; exact Bool.false_ne_true)]

theorem stripLine_of_plain (h : Plain line) : stripLine line = bare line := by
  rcases h with rfl | ⟨c, hc, hne⟩
  · rfl
  have hblank := isBlank_of_mem_head hc
  have hend : isEnd c = false := by
    rw [Text.isBlank, Bool.or_eq_false_iff] at hblank
    rw [isEnd, hblank.1, hblank.2, beq_false_of_ne hne]
    rfl
  obtain ⟨s, hs⟩ := List.head?_eq_some_iff.1 hc
  have hline : bare line = strip (c :: s) := by
    have hbefore : ∀ x ∈ line.takeWhile Text.isBlank, isEnd x = true :=
      fun x hx => isEnd_of_isBlank (List.mem_takeWhile_imp hx)
    rw [← List.takeWhile_append_dropWhile (p := Text.isBlank) (l := line), hs,
      bare_leading hbefore, bare_of_head hend]
  rw [stripLine_of_dropWhile hs, hline]
  by_cases hcomment : c = '#'
  · subst hcomment
    rfl
  · rw [if_neg]
    intro hall
    rw [takeWhile_cons hcomment, List.all_cons, hend] at hall
    cases hall

/-- A line that is not plain is not skipped, and it keeps what should not be there. -/
theorem stuck_of_not_plain (h : ¬Plain line) : Stuck (stripLine line) := by
  obtain ⟨hne, hhead⟩ := not_or.1 h
  cases hdrop : line.dropWhile Text.isBlank with
  | nil =>
    have hblank := List.dropWhile_eq_nil_iff.1 hdrop
    rw [stripLine_of_blank hblank]
    exact ⟨hne, .inr hblank⟩
  | cons c s =>
    have hc : c = '\r' := by
      by_contra hc
      exact hhead ⟨c, by rw [hdrop]; rfl, hc⟩
    subst hc
    have hkeep := takeWhile_cons (c := '\r') (by decide) s
    rw [stripLine_of_dropWhile hdrop]
    split_ifs with hall
    · rw [hkeep]
      exact ⟨List.cons_ne_nil _ _, .inl rfl⟩
    · -- something else is behind the carriage return
      have hrest : strip ('\r' :: s) ≠ [] := by
        rw [strip, Ne, List.rdropWhile_eq_nil_iff]
        exact fun hend => hall (List.all_eq_true.2 hend)
      obtain ⟨t, ht⟩ : strip ('\r' :: s) <+: ('\r' :: s).takeWhile (· != '#') :=
        List.rdropWhile_prefix _ _
      refine ⟨hrest, .inl ?_⟩
      rw [← List.head?_append_of_ne_nil _ hrest, ht, hkeep]
      rfl

/-- What a line says is left alone. -/
theorem stripLine_bare (line : Text) : stripLine (bare line) = bare line := by
  have hsame : bare (bare line) = bare line ∧ Plain (bare line) := by
    cases hdrop : line.dropWhile isEnd with
    | nil =>
      have hbare : bare line = [] := by rw [bare, hdrop]; rfl
      rw [hbare]
      exact ⟨rfl, .inl rfl⟩
    | cons c s =>
      have hend : isEnd c = false := by
        have hhead := List.head_dropWhile_not isEnd (l := line) (by rw [hdrop]; simp)
        simpa [hdrop] using hhead
      have hbare : bare line = strip (c :: s) := by rw [bare, hdrop]
      rw [hbare]
      by_cases hcomment : c = '#'
      · subst hcomment
        exact ⟨rfl, .inl rfl⟩
      have hstrip (s : Text) : strip (c :: s) = c :: strip s :=
        RuleText.strip_append (x := []) (List.not_mem_nil) hcomment hend
      have hblank : Text.isBlank c = false :=
        Bool.eq_false_iff.2 fun hblank => by rw [isEnd_of_isBlank hblank] at hend; cases hend
      refine ⟨?_, .inr ⟨c, ?_, ?_⟩⟩
      · rw [hstrip, bare_of_head hend, hstrip]
        refine congrArg _ ?_
        have hkeep : (strip s).takeWhile (· != '#') = strip s := by
          exact List.takeWhile_eq_self_iff.2 fun x hx => bne_iff_ne.2 (ne_comment_of_mem_strip hx)
        conv_lhs => rw [strip, hkeep]
        exact List.rdropWhile_idempotent _ _
      · rw [hstrip, List.dropWhile_cons_of_neg (by rw [hblank]; exact Bool.false_ne_true)]
        rfl
      · rintro rfl
        cases hend
  rw [stripLine_of_plain hsame.2, hsame.1]

theorem returned_of_plain (h : ∀ line ∈ lines, Plain line) : returned lines = contents lines := by
  rw [returned, contents, List.map_congr_left fun line hline => stripLine_of_plain (h line hline)]

/-- What the lines say is read as it is. -/
theorem returned_contents (lines : List Text) : returned (contents lines) = contents lines := by
  have hmap : (contents lines).map stripLine = contents lines := by
    refine (List.map_congr_left fun line hline => ?_).trans (List.map_id _)
    obtain ⟨line', -, rfl⟩ := List.mem_map.1 (List.mem_of_mem_filter hline)
    exact stripLine_bare line'
  rw [returned, hmap]
  exact List.filter_eq_self.2 fun line hline => (List.mem_filter.1 hline).2

/-! ### Reading through the lines that are returned -/

/-- What `readLine` returns. -/
theorem readLine_spec (lines : List Text) :
    (readLine lines).map (Option.map (Prod.map id returned)) =
      match returned lines with
      | [] => some none
      | line :: rest => if line.all isValid then some (some (line, rest)) else none := by
  induction lines with
  | nil => rfl
  | cons line lines ih =>
    rw [readLine]
    by_cases hempty : stripLine line = []
    · have hreturned : returned (line :: lines) = returned lines := by
        rw [returned, List.map_cons, hempty]
        rfl
      rw [if_pos hempty, ih, hreturned]
    · have hreturned : returned (line :: lines) = stripLine line :: returned lines := by
        rw [returned, List.map_cons, List.filter_cons_of_pos (by simpa using hempty)]
        rfl
      rw [if_neg hempty, hreturned]
      dsimp only
      split_ifs
      · rfl
      · rfl

theorem readLine_eq_some_none (h : readLine lines = some none) : returned lines = [] := by
  have hspec := readLine_spec lines
  rw [h] at hspec
  cases hreturned : returned lines with
  | nil => rfl
  | cons line rest =>
    rw [hreturned] at hspec
    dsimp only [Option.map_some, Option.map_none] at hspec
    split_ifs at hspec
    cases hspec

theorem readLine_eq_some (h : readLine lines = some (some (line, rest))) :
    returned lines = line :: returned rest ∧ line.all isValid = true := by
  have hspec := readLine_spec lines
  rw [h] at hspec
  cases hreturned : returned lines with
  | nil =>
    rw [hreturned] at hspec
    cases hspec
  | cons line' rest' =>
    rw [hreturned] at hspec
    dsimp only [Option.map_some, Prod.map_apply, id] at hspec
    split_ifs at hspec with hvalid
    cases hspec
    exact ⟨rfl, hvalid⟩

/-- Texts of which the same lines are returned are read alike, one line after the other. -/
theorem readLine_congr (h : returned lines = returned lines') :
    (readLine lines).map (Option.map (Prod.map id returned)) =
      (readLine lines').map (Option.map (Prod.map id returned)) := by
  rw [readLine_spec, readLine_spec, h]

theorem readLine_congr_none (h : returned lines = returned lines') (hline : readLine lines = none) :
    readLine lines' = none := by
  have hcongr := readLine_congr h
  rw [hline] at hcongr
  exact Option.map_eq_none_iff.1 hcongr.symm

theorem readLine_congr_end (h : returned lines = returned lines')
    (hline : readLine lines = some none) : readLine lines' = some none := by
  have hcongr := readLine_congr h
  rw [hline] at hcongr
  obtain ⟨next, hnext, hmap⟩ := Option.map_eq_some_iff.1 hcongr.symm
  rw [hnext, Option.map_eq_none_iff.1 hmap]

theorem readLine_congr_some (h : returned lines = returned lines')
    (hline : readLine lines = some (some (line, rest))) :
    ∃ rest', readLine lines' = some (some (line, rest')) ∧ returned rest = returned rest' := by
  have hcongr := readLine_congr h
  rw [hline] at hcongr
  obtain ⟨next, hnext, hmap⟩ := Option.map_eq_some_iff.1 hcongr.symm
  obtain ⟨⟨line', rest'⟩, rfl, hpair⟩ := Option.map_eq_some_iff.1 hmap
  obtain ⟨rfl, hrest⟩ := Prod.mk.inj hpair
  exact ⟨rest', hnext, hrest.symm⟩

/-- A line that is returned has no carriage return, so if it is stuck it has blanks only. -/
theorem Stuck.blank (h : Stuck line) (hvalid : line.all isValid = true) :
    line ≠ [] ∧ ∀ c ∈ line, Text.isBlank c = true := by
  obtain ⟨hne, hhead | hall⟩ := h
  · have hreturn := List.all_eq_true.1 hvalid '\r' (List.mem_of_mem_head? hhead)
    exact absurd hreturn (by decide)
  · exact ⟨hne, hall⟩

section readLines

variable {σ : Type*} {readLineOf : σ → Text → Option σ} {s s' : σ}

/-- One turn of the loop over the lines of a section. -/
theorem readLines_eq (readLineOf : σ → Text → Option σ) (s : σ) (lines : List Text) :
    readLines readLineOf s lines =
      match readLine lines with
      | none | some none => none
      | some (some (line, rest)) =>
        if line = "end".toList then some (s, rest)
        else (readLineOf s line).bind fun s => readLines readLineOf s rest := by
  rw [readLines]
  split
  · next h => rw [h]
  · next h => rw [h]
  · next line rest h =>
    rw [h]
    dsimp only
    split_ifs
    · rfl
    · cases readLineOf s line <;> rfl

theorem readLines_congr (h : returned lines = returned lines') :
    (readLines readLineOf s lines).map (Prod.map id returned) =
      (readLines readLineOf s lines').map (Prod.map id returned) := by
  fun_induction readLines readLineOf s lines generalizing lines' with
  | case1 s lines hline => rw [readLines_eq, readLine_congr_none h hline]
  | case2 s lines hline => rw [readLines_eq, readLine_congr_end h hline]
  | case3 s lines rest hline =>
    obtain ⟨rest', hline', hrest⟩ := readLine_congr_some h hline
    rw [readLines_eq, hline']
    dsimp only
    rw [if_pos rfl]
    exact congrArg (fun rest => some (s, rest)) hrest
  | case4 s lines line rest hline hend hs =>
    obtain ⟨rest', hline', hrest⟩ := readLine_congr_some h hline
    rw [readLines_eq, hline']
    dsimp only
    rw [if_neg hend, hs]
    rfl
  | case5 s lines line rest hline hend s'' hs ih =>
    obtain ⟨rest', hline', hrest⟩ := readLine_congr_some h hline
    rw [readLines_eq readLineOf s lines', hline']
    dsimp only
    rw [if_neg hend, hs]
    exact ih hrest

/-- A section that is read has no line that is stuck. -/
theorem not_stuck_of_readLines
    (hblank : ∀ s line, line ≠ [] → (∀ c ∈ line, Text.isBlank c = true) → readLineOf s line = none)
    (h : readLines readLineOf s lines = some (s', rest)) :
    ∃ front, returned lines = front ++ returned rest ∧ ∀ line ∈ front, ¬Stuck line := by
  fun_induction readLines readLineOf s lines with
  | case1 => cases h
  | case2 => cases h
  | case3 s lines rest' hline =>
    obtain ⟨rfl, rfl⟩ := Prod.mk.inj (Option.some.inj h)
    refine ⟨["end".toList], (readLine_eq_some hline).1, fun line hmem => ?_⟩
    obtain rfl := List.mem_singleton.1 hmem
    rintro ⟨-, hhead | hall⟩
    · exact absurd hhead (by decide)
    · exact absurd (hall 'e' (by decide)) (by decide)
  | case4 => cases h
  | case5 s lines line rest' hline hend s'' hs ih =>
    obtain ⟨front, hfront, hstuck⟩ := ih h
    obtain ⟨hreturned, hvalid⟩ := readLine_eq_some hline
    refine ⟨line :: front, by rw [hreturned, hfront, List.cons_append], ?_⟩
    refine List.forall_mem_cons.2 ⟨?_, hstuck⟩
    intro hstuck'
    obtain ⟨hne, hall⟩ := hstuck'.blank hvalid
    rw [hblank s line hne hall] at hs
    cases hs

end readLines

/-! ### Lines of blanks only -/

section Blank

variable {α : Type*} (env : ConfigReadEnv α) (hne : line ≠ [])
  (hblank : ∀ c ∈ line, Text.isBlank c = true)

include hblank

theorem parseNameWithArgs_blank (delim : Text) : parseNameWithArgs delim line = none := by
  rw [parseNameWithArgs, List.dropWhile_eq_nil_iff.2 hblank]
  rfl

theorem screenHeader_blank : screenHeader line = none := by
  rw [screenHeader, if_neg]
  intro hlast
  exact absurd (hblank ':' (List.mem_of_getLast? hlast)) (by decide)

theorem readOptionsLine_blank (cfg : ListeningConfig α) : readOptionsLine env cfg line = none := by
  rw [readOptionsLine, readOption, parseNameWithArgs_blank hblank]

theorem readLinksLine_blank (s : Config × String) : readLinksLine env s line = none := by
  rw [readLinksLine, screenHeader_blank hblank, parseNameWithArgs_blank hblank]
  exact ite_self none

include hne

theorem readScreensLine_blank (s : Config × String) : readScreensLine s line = none := by
  obtain ⟨c, rest, rfl⟩ := List.exists_cons_of_ne_nil hne
  have hname : readArgument (c :: rest) = none := by
    rw [readArgument, List.takeWhile_cons_of_neg]
    · rfl
    · simp [hblank c List.mem_cons_self]
  rw [readScreensLine, screenHeader_blank hblank, hname]
  exact ite_self none

theorem readAliasesLine_blank (s : Config × String) : readAliasesLine s line = none := by
  have hname : isValidScreenName line = false := by
    rw [isValidScreenName, Bool.and_eq_false_iff]
    refine .inr (Bool.eq_false_iff.2 fun hvalid => ?_)
    have hdot : '.' ∉ line := fun hdot => absurd (hblank '.' hdot) (by decide)
    obtain ⟨c, hc, hend⟩ := ((validParts_of_no_dot hne hdot).1 hvalid).first
    rcases Bool.or_eq_true _ _ ▸ hblank c (List.mem_of_mem_head? hc) with hspace | htab
    · rw [beq_iff_eq.1 hspace] at hend
      exact absurd hend (by decide)
    · rw [beq_iff_eq.1 htab] at hend
      exact absurd hend (by decide)
  rw [readAliasesLine, screenHeader_blank hblank, hname]
  exact ite_self none

theorem sectionName_blank : sectionName line = none := by
  obtain ⟨c, rest, rfl⟩ := List.exists_cons_of_ne_nil hne
  rw [sectionName, if_neg]
  intro hprefix
  obtain ⟨rest', hrest⟩ := List.isPrefixOf_iff_prefix.1 hprefix
  obtain ⟨rfl, -⟩ := List.cons.inj hrest
  exact absurd (hblank 's' List.mem_cons_self) (by decide)

end Blank

/-! ### Reading sections -/

section readSections

variable {α : Type*} {env : ConfigReadEnv α} {cfg cfg' : ListeningConfig α}

theorem readScreenSection_congr
    {readLineOf : Config × String → Text → Option (Config × String)}
    (h : returned lines = returned lines') :
    (readScreenSection readLineOf cfg lines).map (Prod.map id returned) =
      (readScreenSection readLineOf cfg lines').map (Prod.map id returned) := by
  have hcongr : (readLines readLineOf (cfg.toConfig, "") lines).map (Prod.map id returned) =
      (readLines readLineOf (cfg.toConfig, "") lines').map (Prod.map id returned) :=
    readLines_congr h
  have hmap := congrArg (Option.map fun r : (Config × String) × List Text =>
    (({ cfg with toConfig := r.1.1 } : ListeningConfig α), r.2)) hcongr
  rw [Option.map_map, Option.map_map] at hmap
  rw [readScreenSection, readScreenSection, Option.map_map, Option.map_map]
  exact hmap

theorem readSection_congr (env : ConfigReadEnv α) (cfg : ListeningConfig α) (line : Text)
    (h : returned lines = returned lines') :
    (readSection env cfg line lines).map (Prod.map id returned) =
      (readSection env cfg line lines').map (Prod.map id returned) := by
  unfold readSection
  cases sectionName line with
  | none => rfl
  | some name =>
    dsimp only
    split_ifs
    · exact readLines_congr h
    · exact readScreenSection_congr h
    · exact readScreenSection_congr h
    · exact readScreenSection_congr h
    · rfl

/-- One turn of the loop over the sections. -/
theorem readSections_eq (env : ConfigReadEnv α) (cfg : ListeningConfig α) (lines : List Text) :
    readSections env cfg lines =
      match readLine lines with
      | none => none
      | some none => some cfg
      | some (some (line, rest)) =>
        (readSection env cfg line rest).bind fun r => readSections env r.1 r.2 := by
  rw [readSections]
  split
  · next h => rw [h]
  · next h => rw [h]
  · next line rest h =>
    rw [h]
    dsimp only
    split
    · next hsection => rw [hsection]; rfl
    · next hsection => rw [hsection]; rfl

/-- **A configuration is read through the lines that are returned.** -/
theorem readSections_congr (h : returned lines = returned lines') :
    readSections env cfg lines = readSections env cfg lines' := by
  fun_induction readSections env cfg lines generalizing lines' with
  | case1 cfg lines hline => rw [readSections_eq, readLine_congr_none h hline]
  | case2 cfg lines hline => rw [readSections_eq, readLine_congr_end h hline]
  | case3 cfg lines line rest hline hsection =>
    obtain ⟨rest', hline', hrest⟩ := readLine_congr_some h hline
    have hcongr := readSection_congr env cfg line hrest
    rw [hsection] at hcongr
    rw [readSections_eq, hline']
    dsimp only
    rw [Option.map_eq_none_iff.1 hcongr.symm]
    rfl
  | case4 cfg lines line rest hline cfg' rest' hsection ih =>
    obtain ⟨rest₁, hline', hrest⟩ := readLine_congr_some h hline
    have hcongr := readSection_congr env cfg line hrest
    rw [hsection] at hcongr
    obtain ⟨⟨cfg₁, rest₂⟩, hsection', hpair⟩ := Option.map_eq_some_iff.1 hcongr.symm
    obtain ⟨rfl, hreturned⟩ := Prod.mk.inj hpair
    rw [readSections_eq env cfg lines', hline']
    dsimp only
    rw [hsection']
    exact ih hreturned.symm

theorem not_stuck_of_readScreenSection
    {readLineOf : Config × String → Text → Option (Config × String)}
    (hblank : ∀ s line, line ≠ [] → (∀ c ∈ line, Text.isBlank c = true) → readLineOf s line = none)
    (h : readScreenSection readLineOf cfg lines = some (cfg', rest)) :
    ∃ front, returned lines = front ++ returned rest ∧ ∀ line ∈ front, ¬Stuck line := by
  obtain ⟨⟨s, rest'⟩, hlines, hpair⟩ := Option.map_eq_some_iff.1 h
  obtain ⟨-, rfl⟩ := Prod.mk.inj hpair
  exact not_stuck_of_readLines hblank hlines

theorem not_stuck_of_readSection (h : readSection env cfg line lines = some (cfg', rest)) :
    sectionName line ≠ none ∧
      ∃ front, returned lines = front ++ returned rest ∧ ∀ line ∈ front, ¬Stuck line := by
  unfold readSection at h
  cases hname : sectionName line with
  | none =>
    rw [hname] at h
    cases h
  | some name =>
    rw [hname] at h
    dsimp only at h
    refine ⟨Option.some_ne_none _, ?_⟩
    split_ifs at h
    · exact not_stuck_of_readLines
        (fun cfg line _ hblank => readOptionsLine_blank env hblank cfg) h
    · exact not_stuck_of_readScreenSection
        (fun s line hne hblank => readScreensLine_blank hne hblank s) h
    · exact not_stuck_of_readScreenSection
        (fun s line _ hblank => readLinksLine_blank env hblank s) h
    · exact not_stuck_of_readScreenSection
        (fun s line hne hblank => readAliasesLine_blank hne hblank s) h

/-- **A configuration that is read has no line that is stuck.** -/
theorem not_stuck_of_readSections (h : readSections env cfg lines = some cfg') :
    ∀ line ∈ returned lines, ¬Stuck line := by
  fun_induction readSections env cfg lines with
  | case1 => cases h
  | case2 cfg lines hline =>
    rw [readLine_eq_some_none hline]
    exact fun line hmem => absurd hmem List.not_mem_nil
  | case3 => cases h
  | case4 cfg lines line rest hline cfg₁ rest' hsection ih =>
    obtain ⟨hreturned, hvalid⟩ := readLine_eq_some hline
    obtain ⟨hname, front, hfront, hstuck⟩ := not_stuck_of_readSection hsection
    rw [hreturned, hfront]
    refine List.forall_mem_cons.2 ⟨?_, fun line' hmem => ?_⟩
    · intro hstuck'
      obtain ⟨hne, hall⟩ := hstuck'.blank hvalid
      exact hname (sectionName_blank hne hall)
    · rcases List.mem_append.1 hmem with hmem | hmem
      · exact hstuck line' hmem
      · exact ih h line' hmem

/-- Lines that are plain are read for what they say. -/
theorem readSections_of_plain (h : ∀ line ∈ lines, Plain line) :
    readSections env cfg lines = readSections env cfg (contents lines) :=
  readSections_congr ((returned_of_plain h).trans (returned_contents lines).symm)

/-- A line that is not plain makes the text one that is rejected. -/
theorem readSections_of_not_plain (h : ¬∀ line ∈ lines, Plain line) :
    readSections env cfg lines = none := by
  cases hread : readSections env cfg lines with
  | none => rfl
  | some cfg' =>
    simp only [not_forall] at h
    obtain ⟨line, hline, hplain⟩ := h
    have hstuck := stuck_of_not_plain hplain
    refine absurd hstuck (not_stuck_of_readSections hread _ ?_)
    exact List.mem_filter.2 ⟨List.mem_map_of_mem hline, decide_eq_true hstuck.1⟩

end readSections

/-! ### Layouts of one configuration -/

instance (line : Text) : Decidable (Plain line) :=
  have : Decidable (∃ c ∈ (line.dropWhile Text.isBlank).head?, c ≠ '\r') :=
    Option.decidableExistsMem _
  inferInstanceAs (Decidable (_ ∨ _))

/-- Two layouts of a configuration are read alike if and only if both have plain lines only, or
neither has, or what their lines say is no configuration. -/
theorem readText_eq_iff {α : Type*} (env : ConfigReadEnv α) {t t' : Text}
    (h : Relation.EqvGen Edit (getLines t) (getLines t')) :
    readText env t = readText env t' ↔
      ((∀ line ∈ getLines t, Plain line) ↔ ∀ line ∈ getLines t', Plain line) ∨
        readSections env {} (contents (getLines t)) = none := by
  have hcontents := contents_eq_of_eqvGen h
  unfold readText
  by_cases ht : ∀ line ∈ getLines t, Plain line
  · by_cases ht' : ∀ line ∈ getLines t', Plain line
    · rw [readSections_of_plain ht, readSections_of_plain ht', hcontents]
      exact iff_of_true rfl (.inl (iff_of_true ht ht'))
    · rw [readSections_of_plain ht, readSections_of_not_plain ht']
      exact (or_iff_right fun hboth => ht' (hboth.1 ht)).symm
  · by_cases ht' : ∀ line ∈ getLines t', Plain line
    · rw [readSections_of_not_plain ht, readSections_of_plain ht', hcontents, eq_comm]
      exact (or_iff_right fun hboth => ht (hboth.2 ht')).symm
    · rw [readSections_of_not_plain ht, readSections_of_not_plain ht']
      exact iff_of_true rfl (.inl (iff_of_false ht ht'))

/-- Numbers of the integer kind, and hosts that are their own addresses. -/
def plainEnv : ConfigReadEnv Text where
  strtod s := ((Text.strtol 10 s).1, (Text.strtol 10 s).2)
  toFloat x := x
  resolve host := some host

/-- A configuration without screens. -/
def noScreens : Text := "section: screens\nend\n".toList

theorem getLines_noScreens :
    getLines noScreens = ["section: screens".toList, "end".toList] := by decide

/-- A comment and a tab on the last line do no harm. -/
theorem readText_noScreens :
    readText plainEnv noScreens = readText plainEnv "section: screens\n\tend# done\n".toList := by
  have hlines : getLines "section: screens\n\tend# done\n".toList =
      ["section: screens".toList, "\tend# done".toList] := by decide
  have hcomment := Edit.comment ["section: screens".toList] [] "end".toList " done".toList
  have htab := Edit.leading ["section: screens".toList] [] "end# done".toList (w := ['\t'])
    (by decide)
  have hedits : Relation.EqvGen Edit (getLines noScreens)
      (getLines "section: screens\n\tend# done\n".toList) := by
    rw [getLines_noScreens, hlines]
    exact .trans _ _ _ (.rel _ _ hcomment) (.rel _ _ htab)
  exact (readText_eq_iff plainEnv hedits).2 (.inl (iff_of_true (by decide) (by decide)))

/-- A line with a tab only, before the last line, makes the configuration one that is rejected. -/
theorem not_readText_eq : ¬∀ t t', Relation.EqvGen Edit (getLines t) (getLines t') →
    readText plainEnv t = readText plainEnv t' := by
  intro h
  have hlines : getLines "section: screens\n\t\nend\n".toList =
      ["section: screens".toList, "\t".toList, "end".toList] := by decide
  have hblank : Edit ["section: screens".toList, "end".toList]
      ["section: screens".toList, "\t".toList, "end".toList] :=
    .blankLine ["section: screens".toList] ["end".toList] (by decide)
  have hedit : Relation.EqvGen Edit (getLines noScreens)
      (getLines "section: screens\n\t\nend\n".toList) := by
    rw [getLines_noScreens, hlines]
    exact .rel _ _ hblank
  have hsame := h _ _ hedit
  have hrejected : readText plainEnv "section: screens\n\t\nend\n".toList = none :=
    readSections_of_not_plain (by decide)
  have hend : readLines readScreensLine (({} : Config), "") ["end".toList] =
      some (({}, ""), []) := by
    have hline : readLine ["end".toList] = some (some ("end".toList, [])) := by decide
    rw [readLines_eq, hline]
    exact if_pos rfl
  have haccepted : readText plainEnv noScreens = some {} := by
    have hline : readLine ["section: screens".toList, "end".toList] =
        some (some ("section: screens".toList, ["end".toList])) := by decide
    have hname : sectionName "section: screens".toList = some "screens".toList := by decide
    have hsection : readSection plainEnv {} "section: screens".toList ["end".toList] =
        some ({}, []) := by
      rw [readSection, hname]
      dsimp only
      rw [if_neg (by decide), if_pos rfl, readScreenSection, hend]
      rfl
    rw [readText, getLines_noScreens, readSections_eq, hline]
    dsimp only
    rw [hsection, Option.bind_some, readSections_eq]
    rfl
  rw [haccepted, hrejected] at hsame
  cases hsame

end Layout

end InputLeap
