import InputLeap.Config.RuleText

/-!
# The grammar of the lines of options

The comment in `Config::readSectionOptions` gives a grammar for the lines of the section.  The
reader goes from one name with arguments to the next.  It steps over the character between two of
them, whichever it is, and does not look at what is behind the value of a setting.

## Main definitions

* `OptionGrammar.LineText` : the grammar.
* `OptionGrammar.Regular` : the reader steps over what belongs there.
* `OptionGrammar.SortedInto` : which actions a rule has.

## Main results

* `OptionGrammar.callText_of_parseNameWithArgs` : what the scanner takes.
* `OptionGrammar.parseNameWithArgs_callText` : what it makes of the text of a call.
* `OptionGrammar.readOption_grammar` : a line that is accepted is one of the grammar if and only if
  that is true of it, and then a rule has the actions of its two lists.
-/

namespace InputLeap

namespace OptionGrammar

open ConfigReadContext InputFilter
open RuleText (Call Effect Reads perform released)

/-- Spaces and tabs. -/
def Blanks (b : Text) : Prop := ∀ x ∈ b, Text.isBlank x = true

/-- What ends the value of a list. -/
def valueEnd : Text := ",;\n".toList

/-! ### The grammar -/

/-- `<name>[(arg[,...])]`, where the last argument is not blank. -/
inductive CallText (delim : Text) : Text → Call → Prop
  | name {name : Text} (hname : ∀ x ∈ name, endsName delim x = false) :
      CallText delim name ⟨false, name, none⟩
  | args {name b args : Text} (hname : ∀ x ∈ name, endsName delim x = false) (hb : Blanks b)
      (hargs : ')' ∉ args) (hlast : ¬ RuleText.BlankLast args) :
      CallText delim (name ++ (b ++ '(' :: (args ++ [')']))) ⟨false, name, some args⟩

/-- `valueAndArgs[,valueAndArgs]...` -/
inductive ValuesText : Text → List Call → Prop
  | one {b text b' : Text} {c : Call} (hb : Blanks b) (hcall : CallText valueEnd text c)
      (hne : c.name ≠ []) (hb' : Blanks b') : ValuesText (b ++ (text ++ b')) [c]
  | cons {b text b' s : Text} {c : Call} {cs : List Call} (hb : Blanks b)
      (hcall : CallText valueEnd text c) (hne : c.name ≠ []) (hb' : Blanks b')
      (hrest : ValuesText s cs) : ValuesText (b ++ (text ++ (b' ++ ',' :: s))) (c :: cs)

/-- `[values]` -/
inductive OptionalText : Text → List Call → Prop
  | none {b : Text} (hb : Blanks b) : OptionalText b []
  | some {s : Text} {cs : List Call} (h : ValuesText s cs) : OptionalText s cs

/-- `values` or `[values];[values]` -/
inductive ListsText : Text → List Call → List Call → Prop
  | values {s : Text} {before : List Call} (h : ValuesText s before) : ListsText s before []
  | semicolon {s t : Text} {before after : List Call} (hbefore : OptionalText s before)
      (hafter : OptionalText t after) : ListsText (s ++ ';' :: t) before after

/-- `nameAndArgs = [values][;[values]]` -/
inductive LineText : Text → Call → List Call → List Call → Prop
  | line {b text b' s : Text} {c : Call} {before after : List Call} (hb : Blanks b)
      (hcall : CallText "=".toList text c) (hne : c.name ≠ []) (hb' : Blanks b')
      (hlists : ListsText s before after) :
      LineText (b ++ (text ++ (b' ++ '=' :: s))) c before after

/-! ### What the reader steps over -/

/-- Behind an action on deactivation there is a comma and another one, or nothing. -/
inductive AfterDeactivate : Text → Prop
  | done : AfterDeactivate []
  | comma {s value rest : Text} {args : List Text}
      (hvalue : parseNameWithArgs ",\n".toList s = some (value, args, rest))
      (hrest : AfterDeactivate rest) : AfterDeactivate (',' :: s)

/-- Behind an action on activation there is a comma and another one, or the semicolon, or
nothing. -/
inductive AfterActivate : Text → Prop
  | done : AfterActivate []
  | comma {s value rest : Text} {args : List Text}
      (hvalue : parseNameWithArgs valueEnd s = some (value, args, rest))
      (hrest : AfterActivate rest) : AfterActivate (',' :: s)
  | trailing {s : Text} (hs : Blanks s) : AfterActivate (';' :: s)
  | semicolon {s value rest : Text} {args : List Text}
      (hvalue : parseNameWithArgs ",\n".toList s = some (value, args, rest))
      (hrest : AfterDeactivate rest) : AfterActivate (';' :: s)

/-- There is an equals sign behind the name, and nothing behind the value of a setting, which is not
missing.  A list without a first action has nothing in its place. -/
inductive Regular (line : Text) : Prop
  | setting {name s value : Text} {args valueArgs : List Text}
      (hname : parseNameWithArgs "=".toList line = some (name, args, '=' :: s))
      (hsetting : String.ofList name ∈ Config.settings)
      (hvalue : parseNameWithArgs valueEnd s = some (value, valueArgs, [])) (hne : value ≠ [])
  | rule {name s value rest : Text} {args valueArgs : List Text}
      (hname : parseNameWithArgs "=".toList line = some (name, args, '=' :: s))
      (hsetting : String.ofList name ∉ Config.settings)
      (hvalue : parseNameWithArgs valueEnd s = some (value, valueArgs, rest))
      (hargs : value = [] → valueArgs = []) (hrest : AfterActivate rest)

/-! ### The actions of a rule -/

variable (cfg : Config)

/-- The rule has the actions of the lists: those that are not both pressed and released on the
side of their list, and of the others what is pressed on activation and what is released on
deactivation. -/
def SortedInto (r : Rule) (before after : List Call) : Prop :=
  ∃ es es' : List Effect, List.Forall₂ (Reads cfg) before es ∧ List.Forall₂ (Reads cfg) after es' ∧
    r.activateActions = es.map Effect.action ++ (es'.filter Effect.release).map Effect.action ∧
    r.deactivateActions = ((es.filter Effect.release).map fun e => released e.action) ++
      es'.map fun e => if e.release then released e.action else e.action

/-- The line is what its parts say. -/
def Says (c : Call) (before after : List Call) : Config.OptionLine → Prop
  | .setting name value => name = c.name ∧ (∃ args, before = [⟨false, value, args⟩]) ∧ after = []
  | .rule r => cfg.parseCondition c.name c.argList = r.condition ∧ r.condition ≠ none ∧
      SortedInto cfg r before after

/-! ### What the scanner takes -/

variable {d line s t name rest : Text} {args : List Text} {c : Call}

theorem exists_blanks (s : Text) : ∃ b, s = b ++ s.dropWhile Text.isBlank ∧ Blanks b :=
  ⟨_, List.takeWhile_append_dropWhile.symm, fun _ hx => List.mem_takeWhile_imp hx⟩

/-- The arguments that are read are those up to the first closing parenthesis. -/
theorem parseArgs_eq_some (h : parseArgs [] s = some (args, rest)) :
    ∃ inner, s = inner ++ ')' :: rest ∧ ')' ∉ inner ∧ ¬ RuleText.BlankLast inner ∧
      args = (Text.splitOn ',' inner).map trimArg := by
  by_cases hclose : ')' ∈ s
  · obtain ⟨inner, rest', rfl, hinner⟩ := List.eq_append_cons_of_mem hclose
    rw [RuleText.parseArgs_closed List.not_mem_nil hinner, List.reverse_nil, List.nil_append] at h
    obtain ⟨hlast, h⟩ := Option.ite_none_left_eq_some.1 h
    obtain ⟨hargs, rfl⟩ := Prod.mk.inj (Option.some.inj h)
    exact ⟨inner, rfl, hinner, hlast, hargs.symm⟩
  · rw [RuleText.parseArgs_open hclose] at h
    cases h

theorem findDelim_eq_some (h : findDelim d s = some rest) : ∃ b, s = b ++ rest ∧ Blanks b := by
  obtain ⟨b, hs, hb⟩ := exists_blanks s
  refine ⟨b, ?_, hb⟩
  unfold findDelim at h
  cases hdrop : s.dropWhile Text.isBlank with
  | nil =>
    rw [hdrop] at h hs
    dsimp only at h
    split_ifs at h
    cases h
    exact hs
  | cons x t =>
    rw [hdrop] at h hs
    dsimp only at h
    split_ifs at h
    cases h
    exact hs

/-- **What the scanner takes**: blanks, a name with its arguments, and blanks. -/
theorem callText_of_parseNameWithArgs (h : parseNameWithArgs d line = some (name, args, rest)) :
    ∃ b text b' c, line = b ++ (text ++ (b' ++ rest)) ∧ Blanks b ∧ CallText d text c ∧ Blanks b' ∧
      c.name = name ∧ c.argList = args := by
  obtain ⟨b, hline, hb⟩ := exists_blanks line
  unfold parseNameWithArgs at h
  generalize line.dropWhile Text.isBlank = s at h hline
  subst hline
  dsimp only at h
  by_cases hempty : s = []
  · rw [if_pos hempty] at h
    cases h
  rw [if_neg hempty] at h
  have hs := List.takeWhile_append_dropWhile (p := (!endsName d ·)) (l := s)
  have hname : ∀ x ∈ s.takeWhile (!endsName d ·), endsName d x = false := by
    intro x hx
    have hrun := List.mem_takeWhile_imp hx
    rwa [Bool.not_eq_true'] at hrun
  generalize s.takeWhile (!endsName d ·) = n at h hs hname
  generalize s.dropWhile (!endsName d ·) = t at h hs
  subst hs
  obtain ⟨b₁, ht, hb₁⟩ := exists_blanks t
  generalize t.dropWhile Text.isBlank = u at h ht
  subst ht
  cases u with
  | nil =>
    dsimp only at h
    split_ifs at h
    cases h
    exact ⟨b, _, b₁, _, rfl, hb, .name hname, hb₁, rfl, rfl⟩
  | cons x u =>
    dsimp only at h
    -- what follows the name and its blanks: arguments, or a delimiter
    by_cases hopen : x = '('
    · subst hopen
      rw [if_neg (not_not.2 rfl)] at h
      cases hargs : parseArgs [] u with
      | none =>
        rw [hargs] at h
        cases h
      | some r =>
        obtain ⟨args', v⟩ := r
        rw [hargs] at h
        obtain ⟨rest', hfind, heq⟩ := Option.map_eq_some_iff.1 h
        cases heq
        obtain ⟨inner, rfl, hinner, hlast, hsplit⟩ := parseArgs_eq_some hargs
        obtain ⟨b', rfl, hb'⟩ := findDelim_eq_some hfind
        refine ⟨b, _, b', _, ?_, hb, .args hname hb₁ hinner hlast, hb', rfl, hsplit.symm⟩
        simp only [List.append_assoc, List.cons_append, List.nil_append]
    · rw [if_pos hopen] at h
      cases h
      exact ⟨b, _, b₁, _, rfl, hb, .name hname, hb₁, rfl, rfl⟩

theorem CallText.marked_eq {text : Text} (h : CallText d text c) : c.marked = false := by
  cases h with
  | name => rfl
  | args => rfl

/-- A name ends alike for other delimiters that are not in it. -/
theorem CallText.mono {d' text : Text} (h : CallText d text c)
    (hname : ∀ x ∈ c.name, endsName d' x = false) : CallText d' text c := by
  cases h with
  | name => exact .name hname
  | args _ hb hargs hlast => exact .args hname hb hargs hlast

/-- Nothing stands where there is no name and there are no arguments. -/
theorem CallText.eq_nil {text : Text} (h : CallText d text c) (hname : c.name = [])
    (hargs : c.argList = []) : text = [] := by
  cases h with
  | name => exact hname
  | args => exact absurd (List.map_eq_nil_iff.1 hargs) (Text.splitOn_ne_nil _ _)

/-! ### Lists of actions -/

theorem ValuesText.blanks_append {b : Text} {cs : List Call} (hb : Blanks b)
    (h : ValuesText s cs) : ValuesText (b ++ s) cs := by
  have hboth {b' : Text} (hb' : Blanks b') : Blanks (b ++ b') :=
    List.forall_mem_append.2 ⟨hb, hb'⟩
  cases h with
  | one hb₁ hcall hne hb' =>
    rw [← List.append_assoc]
    exact .one (hboth hb₁) hcall hne hb'
  | cons hb₁ hcall hne hb' hrest =>
    rw [← List.append_assoc]
    exact .cons (hboth hb₁) hcall hne hb' hrest

/-- An action before others. -/
theorem ListsText.cons {b text b' : Text} {c' : Call} {before after : List Call} (hb : Blanks b)
    (hcall : CallText valueEnd text c) (hne : c.name ≠ []) (hb' : Blanks b')
    (h : ListsText s (c' :: before) after) :
    ListsText (b ++ (text ++ (b' ++ ',' :: s))) (c :: c' :: before) after := by
  cases h with
  | values h => exact .values (.cons hb hcall hne hb' h)
  | @semicolon s t _ _ hbefore hafter =>
    cases hbefore with
    | some hbefore =>
      have hlists := ListsText.semicolon (.some (.cons hb hcall hne hb' hbefore)) hafter
      simpa only [List.append_assoc, List.cons_append] using hlists

variable {cfg} {rule r : Rule} {value : Text} {activate : Bool}

/-- The names of actions have letters only. -/
theorem alpha_of_parseAction (h : cfg.parseAction name args rule activate = some r) :
    name ≠ [] ∧ ∀ x ∈ name, x.isAlpha = true := by
  refine ⟨?_, fun x hx => ?_⟩
  · rintro rfl
    rw [RuleText.parseAction_nil] at h
    cases h
  · by_contra hx'
    rw [RuleText.parseAction_of_mem cfg hx (Bool.eq_false_iff.2 hx')] at h
    cases h

/-- The text that an action is read from. -/
theorem callText_of_action
    (hvalue : parseNameWithArgs d s = some (value, args, rest))
    (h : cfg.parseAction value args rule activate = some r) :
    ∃ b text b' c, s = b ++ (text ++ (b' ++ rest)) ∧ Blanks b ∧ CallText valueEnd text c ∧
      c.name ≠ [] ∧ Blanks b' := by
  obtain ⟨hne, halpha⟩ := alpha_of_parseAction h
  obtain ⟨b, text, b', c, hs, hb, hcall, hb', rfl, -⟩ := callText_of_parseNameWithArgs hvalue
  refine ⟨b, text, b', c, hs, hb, hcall.mono fun x hx => ?_, hne, hb'⟩
  exact RuleText.endsName_alpha (by decide) (halpha x hx)

/-- The actions behind the semicolon. -/
theorem valuesText_of_readDeactivate
    (hvalue : parseNameWithArgs ",\n".toList s = some (value, args, rest))
    (hrest : AfterDeactivate rest) (h : cfg.readDeactivate s rule = some r) :
    ∃ cs, ValuesText s cs := by
  induction hrest generalizing s value args rule with
  | done =>
    rw [RuleText.readDeactivate_eq, hvalue, Option.bind_some] at h
    obtain ⟨rule', haction, -⟩ := Option.bind_eq_some_iff.1 h
    obtain ⟨b, text, b', c, rfl, hb, hcall, hne, hb'⟩ := callText_of_action hvalue haction
    rw [List.append_nil]
    exact ⟨[c], .one hb hcall hne hb'⟩
  | comma hnext hrest ih =>
    rw [RuleText.readDeactivate_eq, hvalue, Option.bind_some] at h
    obtain ⟨rule', haction, h⟩ := Option.bind_eq_some_iff.1 h
    obtain ⟨b, text, b', c, rfl, hb, hcall, hne, hb'⟩ := callText_of_action hvalue haction
    obtain ⟨cs, hcs⟩ := ih hnext h
    exact ⟨c :: cs, .cons hb hcall hne hb' hcs⟩

theorem parseNameWithArgs_dropWhile (d s : Text) :
    parseNameWithArgs d (s.dropWhile Text.isBlank) = parseNameWithArgs d s := by
  rw [parseNameWithArgs, parseNameWithArgs, List.dropWhile_idempotent]

/-- What the semicolon starts. -/
theorem optionalText_of_readActivate (hrest : AfterActivate (';' :: s))
    (h : cfg.readActivate (';' :: s) rule = some r) : ∃ after, OptionalText s after := by
  rw [Config.readActivate, if_pos rfl] at h
  cases hrest with
  | trailing hs => exact ⟨[], .none hs⟩
  | semicolon hvalue hrest =>
    rw [← parseNameWithArgs_dropWhile] at hvalue
    by_cases hempty : s.dropWhile Text.isBlank = []
    · rw [hempty] at hvalue
      cases hvalue
    rw [if_neg hempty] at h
    obtain ⟨cs, hcs⟩ := valuesText_of_readDeactivate hvalue hrest h
    obtain ⟨b, hs, hb⟩ := exists_blanks s
    have hvalues := hcs.blanks_append hb
    rw [← hs] at hvalues
    exact ⟨cs, .some hvalues⟩

/-- Behind the text of any action these are the others. -/
def Continues (rest : Text) (before after : List Call) : Prop :=
  ∀ ⦃b text b' c⦄, Blanks b → CallText valueEnd text c → c.name ≠ [] → Blanks b' →
    ListsText (b ++ (text ++ (b' ++ rest))) (c :: before) after

theorem continues_semicolon (hrest : AfterActivate (';' :: s))
    (h : cfg.readActivate (';' :: s) rule = some r) :
    ∃ before after, Continues (';' :: s) before after := by
  obtain ⟨after, hafter⟩ := optionalText_of_readActivate hrest h
  refine ⟨[], after, fun b text b' c hb hcall hne hb' => ?_⟩
  have hlists := ListsText.semicolon (.some (.one hb hcall hne hb')) hafter
  simpa only [List.append_assoc] using hlists

/-- The actions behind the first one. -/
theorem continues_of_readActivate (hrest : AfterActivate rest)
    (h : cfg.readActivate rest rule = some r) :
    ∃ before after, Continues rest before after := by
  induction hrest generalizing rule with
  | done =>
    refine ⟨[], [], fun b text b' c hb hcall hne hb' => ?_⟩
    rw [List.append_nil]
    exact .values (.one hb hcall hne hb')
  | comma hvalue hrest ih =>
    rw [RuleText.readActivate_comma] at h
    change (parseNameWithArgs valueEnd _).bind _ = _ at h
    rw [hvalue, Option.bind_some] at h
    obtain ⟨rule₁, haction, h⟩ := Option.bind_eq_some_iff.1 h
    obtain ⟨b₁, text₁, b₁', c₁, rfl, hb₁, hcall₁, hne₁, hb₁'⟩ := callText_of_action hvalue haction
    obtain ⟨before, after, hlists⟩ := ih h
    exact ⟨c₁ :: before, after, fun b text b' c hb hcall hne hb' =>
      .cons hb hcall hne hb' (hlists hb₁ hcall₁ hne₁ hb₁')⟩
  | trailing hs => exact continues_semicolon (.trailing hs) h
  | semicolon hvalue hrest => exact continues_semicolon (.semicolon hvalue hrest) h

/-! ### Lines that are accepted -/

/-- The lists of a rule, from where its first action stands on. -/
theorem listsText_of_readRule {valueArgs nameArgs : List Text}
    (hvalue : parseNameWithArgs valueEnd s = some (value, valueArgs, rest))
    (hargs : value = [] → valueArgs = []) (hrest : AfterActivate rest)
    (h : cfg.readRule name nameArgs value valueArgs rest = some r) :
    cfg.parseCondition name nameArgs ≠ none ∧ ∃ before after, ListsText s before after := by
  unfold Config.readRule at h
  cases hcondition : cfg.parseCondition name nameArgs with
  | none =>
    rw [hcondition] at h
    cases h
  | some condition =>
    rw [hcondition] at h
    refine ⟨Option.some_ne_none _, ?_⟩
    dsimp only at h
    by_cases hfirst : value ≠ [] ∨ rest.head? ≠ some ';'
    · rw [if_pos hfirst] at h
      obtain ⟨rule₁, haction, h⟩ := Option.bind_eq_some_iff.1 h
      obtain ⟨b, text, b', c, rfl, hb, hcall, hne, hb'⟩ := callText_of_action hvalue haction
      obtain ⟨before, after, hlists⟩ := continues_of_readActivate hrest h
      exact ⟨c :: before, after, hlists hb hcall hne hb'⟩
    · -- the first list is empty
      rw [if_neg hfirst] at h
      obtain ⟨hempty, hhead⟩ := not_or.1 hfirst
      obtain ⟨t, rfl⟩ := List.head?_eq_some_iff.1 (not_not.1 hhead)
      obtain ⟨b, text, b', c, rfl, hb, hcall, hb', hname, hlist⟩ :=
        callText_of_parseNameWithArgs hvalue
      obtain rfl := hcall.eq_nil (hname.trans (not_not.1 hempty))
        (hlist.trans (hargs (not_not.1 hempty)))
      obtain ⟨after, hafter⟩ := optionalText_of_readActivate hrest h
      have hlists := ListsText.semicolon (.none (List.forall_mem_append.2 ⟨hb, hb'⟩)) hafter
      refine ⟨[], after, ?_⟩
      simpa only [List.append_assoc, List.nil_append] using hlists

/-- A line whose name and first value are read. -/
theorem readOption_eq (cfg : Config) {nameArgs valueArgs : List Text}
    (hname : parseNameWithArgs "=".toList line = some (name, nameArgs, '=' :: s))
    (hvalue : parseNameWithArgs valueEnd s = some (value, valueArgs, rest)) :
    cfg.readOption line =
      if String.ofList name ∈ Config.settings then
        if rest.head? = some ',' ∨ rest.head? = some ';' then none else some (.setting name value)
      else (cfg.readRule name nameArgs value valueArgs rest).map .rule := by
  have hvalue' : parseNameWithArgs ",;\n".toList (('=' :: s).drop 1) =
      some (value, valueArgs, rest) := hvalue
  rw [Config.readOption, hname]
  dsimp only
  rw [hvalue']

/-- A line that is accepted is one of the grammar if the reader steps over what belongs there. -/
theorem lineText_of_regular {o : Config.OptionLine} (hline : Regular line)
    (h : cfg.readOption line = some o) : ∃ c before after, LineText line c before after := by
  cases hline with
  | @setting name s value nameArgs valueArgs hname hsetting hvalue hne =>
    obtain ⟨b, text, b', c, rfl, hb, hcall, hb', rfl, -⟩ := callText_of_parseNameWithArgs hname
    obtain ⟨b₁, text₁, b₁', c₁, rfl, hb₁, hcall₁, hb₁', rfl, -⟩ :=
      callText_of_parseNameWithArgs hvalue
    have hnamed : c.name ≠ [] := by
      intro hempty
      rw [hempty] at hsetting
      exact absurd hsetting (by decide)
    refine ⟨c, [c₁], [], .line hb hcall hnamed hb' ?_⟩
    rw [List.append_nil]
    exact .values (.one hb₁ hcall₁ hne hb₁')
  | @rule name s value rest nameArgs valueArgs hname hsetting hvalue hargs hrest =>
    rw [readOption_eq cfg hname hvalue, if_neg hsetting] at h
    obtain ⟨r, hrule, rfl⟩ := Option.map_eq_some_iff.1 h
    obtain ⟨b, text, b', c, rfl, hb, hcall, hb', rfl, rfl⟩ := callText_of_parseNameWithArgs hname
    obtain ⟨hcondition, before, after, hlists⟩ := listsText_of_readRule hvalue hargs hrest hrule
    have hnamed : c.name ≠ [] := by
      intro hempty
      rw [hempty] at hcondition
      exact hcondition rfl
    exact ⟨c, before, after, .line hb hcall hnamed hb' hlists⟩

/-! ### What the grammar is read as -/

theorem CallText.endsName_eq {text : Text} (h : CallText d text c) :
    ∀ x ∈ c.name, endsName d x = false := by
  cases h with
  | name hname => exact hname
  | args hname => exact hname

/-- The text of a call may end here: with a delimiter, or with the line. -/
inductive Stops (d : Text) : Text → Prop
  | done (hd : needsDelim d = false) : Stops d []
  | delim {x : Char} {s : Text} (hd : x ∈ d) (hblank : Text.isBlank x = false) (hopen : x ≠ '(') :
      Stops d (x :: s)

theorem Stops.head (h : Stops d rest) :
    ∀ x ∈ rest.head?, endsName d x = true ∧ Text.isBlank x = false := by
  intro x hx
  cases h with
  | done => cases hx
  | delim hd hblank =>
    cases hx
    refine ⟨?_, hblank⟩
    rw [endsName, List.contains_iff_mem.2 hd, Bool.or_true]

theorem findDelim_of_stops {b : Text} (hb : Blanks b) (h : Stops d rest) :
    findDelim d (b ++ rest) = some rest := by
  rw [findDelim, Text.dropWhile_run hb fun x hx => (h.head x hx).2]
  cases h with
  | done hd => exact if_neg (by rw [hd]; exact Bool.false_ne_true)
  | delim hd =>
    dsimp only
    rw [List.contains_iff_mem.2 hd, Bool.not_true, Bool.and_false, if_neg Bool.false_ne_true]

/-- **What the scanner makes of the text of a call**: its name and arguments. -/
theorem parseNameWithArgs_callText {b text b' : Text} (hb : Blanks b) (hcall : CallText d text c)
    (hne : c.name ≠ []) (hb' : Blanks b') (hrest : Stops d rest) :
    parseNameWithArgs d (b ++ (text ++ (b' ++ rest))) = some (c.name, c.argList, rest) := by
  cases hcall with
  | name hname =>
    rw [RuleText.parseNameWithArgs_blanks hb hne hname hb' hrest.head]
    cases hrest with
    | done hd => exact if_neg (by rw [hd]; exact Bool.false_ne_true)
    | delim _ _ hopen => exact if_pos hopen
  | @args name b₁ inner hname hb₁ hargs hlast =>
    rw [List.append_assoc, List.append_assoc,
      RuleText.parseNameWithArgs_blanks hb hne hname hb₁ fun x hx => by
        cases hx
        exact ⟨by simp [endsName], rfl⟩]
    simp only [List.cons_append, List.append_assoc, List.nil_append, ne_eq, not_true_eq_false,
      if_false]
    rw [RuleText.parseArgs_closed List.not_mem_nil hargs, List.reverse_nil, List.nil_append,
      if_neg hlast]
    simp only [findDelim_of_stops hb' hrest]
    rfl

example : parseNameWithArgs valueEnd "switchToScreen( , )".toList = none := by decide

/-- Behind the semicolon there is nothing that the scanner would not take for a call. -/
theorem parse_deactivate {b text b' : Text} (hb : Blanks b) (hcall : CallText valueEnd text c)
    (hne : c.name ≠ []) (hb' : Blanks b') (hrest : Stops ",\n".toList rest) :
    parseNameWithArgs ",\n".toList (b ++ (text ++ (b' ++ rest))) =
      some (c.name, c.argList, rest) := by
  have hname (x : Char) (hx : x ∈ c.name) : endsName ",\n".toList x = false :=
    RuleText.endsName_deactivate (hcall.endsName_eq x hx)
  exact parseNameWithArgs_callText hb (hcall.mono hname) hne hb' hrest

theorem afterDeactivate_of_valuesText {cs : List Call} (h : ValuesText s cs) :
    ∃ value args rest, parseNameWithArgs ",\n".toList s = some (value, args, rest) ∧
      AfterDeactivate rest := by
  induction h with
  | one hb hcall hne hb' =>
    have hparse := parse_deactivate hb hcall hne hb' (.done rfl)
    rw [List.append_nil] at hparse
    exact ⟨_, _, _, hparse, .done⟩
  | cons hb hcall hne hb' _ ih =>
    obtain ⟨value, args, rest, hvalue, hrest⟩ := ih
    exact ⟨_, _, _, parse_deactivate hb hcall hne hb' (.delim (by decide) rfl (by decide)),
      .comma hvalue hrest⟩

theorem readDeactivate_valuesText {cs : List Call} (h : ValuesText s cs) (rule : Rule) :
    cfg.readDeactivate s rule = cs.foldlM (fun rule c => perform cfg c false rule) rule := by
  induction h generalizing rule with
  | one hb hcall hne hb' =>
    have hparse := parse_deactivate hb hcall hne hb' (.done rfl)
    rw [List.append_nil] at hparse
    rw [RuleText.readDeactivate_eq, hparse, Option.bind_some]
    rfl
  | cons hb hcall hne hb' _ ih =>
    rw [RuleText.readDeactivate_eq,
      parse_deactivate hb hcall hne hb' (.delim (by decide) rfl (by decide)), Option.bind_some,
      List.foldlM_cons]
    exact congrArg _ (funext ih)

/-- What the semicolon starts is read as the second list. -/
theorem afterActivate_of_optionalText {after : List Call} (h : OptionalText s after) :
    AfterActivate (';' :: s) := by
  cases h with
  | none hb => exact .trailing hb
  | some h =>
    obtain ⟨value, args, rest, hvalue, hrest⟩ := afterDeactivate_of_valuesText h
    exact .semicolon hvalue hrest

theorem readActivate_optionalText {after : List Call} (h : OptionalText s after) (rule : Rule) :
    cfg.readActivate (';' :: s) rule =
      after.foldlM (fun rule c => perform cfg c false rule) rule := by
  rw [Config.readActivate, if_pos rfl]
  cases h with
  | none hb => exact if_pos (List.dropWhile_eq_nil_iff.2 hb)
  | some h =>
    obtain ⟨value, args, rest, hvalue, -⟩ := afterDeactivate_of_valuesText h
    rw [← parseNameWithArgs_dropWhile] at hvalue
    dsimp only
    by_cases hempty : s.dropWhile Text.isBlank = []
    · rw [hempty] at hvalue
      cases hvalue
    rw [if_neg hempty, ← readDeactivate_valuesText h, RuleText.readDeactivate_eq,
      RuleText.readDeactivate_eq, parseNameWithArgs_dropWhile]

/-- What ends the first list: the semicolon, or the line. -/
inductive Ends : Text → Prop
  | done : Ends []
  | semicolon {s : Text} : Ends (';' :: s)

theorem Ends.stops {tail : Text} (h : Ends tail) : Stops valueEnd tail := by
  cases h with
  | done => exact .done rfl
  | semicolon => exact .delim (by decide) rfl (by decide)

variable (cfg) in
/-- The text is read as the call, and `rest` behind it as the others and then `tail`. -/
structure ReadsOn (s tail : Text) (c : Call) (cs : List Call) (rest : Text) : Prop where
  named : c.name ≠ []
  unmarked : c.marked = false
  parse : parseNameWithArgs valueEnd s = some (c.name, c.argList, rest)
  regular : AfterActivate tail → AfterActivate rest
  read : ∀ rule, cfg.readActivate rest rule =
    (cs.foldlM (fun rule c => perform cfg c true rule) rule).bind (cfg.readActivate tail)
  single : rest.head? ≠ some ',' → cs = [] ∧ rest = tail

theorem readsOn_of_valuesText (cfg : Config) {tail : Text} {cs : List Call} (h : ValuesText s cs)
    (htail : Ends tail) :
    ∃ c cs' rest, cs = c :: cs' ∧ ReadsOn cfg (s ++ tail) tail c cs' rest := by
  induction h with
  | one hb hcall hne hb' =>
    refine ⟨_, [], tail, rfl, hne, hcall.marked_eq, ?_, id, fun rule => rfl, fun _ => ⟨rfl, rfl⟩⟩
    simpa only [List.append_assoc] using parseNameWithArgs_callText hb hcall hne hb' htail.stops
  | @cons b text b' s c cs hb hcall hne hb' _ ih =>
    obtain ⟨c', cs', rest, rfl, hreads⟩ := ih
    refine ⟨c, c' :: cs', ',' :: (s ++ tail), rfl, hne, hcall.marked_eq, ?_,
      fun h => .comma hreads.parse (hreads.regular h), fun rule => ?_, fun h => absurd rfl h⟩
    · have hstops : Stops valueEnd (',' :: (s ++ tail)) := .delim (by decide) rfl (by decide)
      simpa only [List.append_assoc, List.cons_append] using
        parseNameWithArgs_callText hb hcall hne hb' hstops
    · have hparse := hreads.parse
      unfold valueEnd at hparse
      rw [RuleText.readActivate_comma, hparse, Option.bind_some, List.foldlM_cons]
      show ((perform cfg c' true rule).bind fun rule => cfg.readActivate rest rule) = _
      simp only [hreads.read]
      exact (Option.bind_assoc _ _ _).symm

/-! ### Lines of the grammar -/

variable (cfg) in
/-- The text is read as the first value with its arguments, and `rest` behind it, which are the
actions of the lists. -/
structure ReadsLists (s : Text) (before after : List Call) (value : Text) (args : List Text)
    (rest : Text) : Prop where
  parse : parseNameWithArgs valueEnd s = some (value, args, rest)
  args_eq : value = [] → args = []
  regular : AfterActivate rest
  read : ∀ rule, (if value ≠ [] ∨ rest.head? ≠ some ';' then
      (cfg.parseAction value args rule true).bind (cfg.readActivate rest)
    else cfg.readActivate rest rule) =
      (before.foldlM (fun rule c => perform cfg c true rule) rule).bind fun rule =>
        after.foldlM (fun rule c => perform cfg c false rule) rule
  single : rest.head? ≠ some ',' → rest.head? ≠ some ';' →
    rest = [] ∧ value ≠ [] ∧ (∃ inner, before = [⟨false, value, inner⟩]) ∧ after = []

theorem ReadsOn.readsLists {tail : Text} {cs after : List Call} (h : ReadsOn cfg s tail c cs rest)
    (hregular : AfterActivate tail) (hsemicolon : tail.head? ≠ some ';' → tail = [] ∧ after = [])
    (htail : ∀ rule, cfg.readActivate tail rule =
      after.foldlM (fun rule c => perform cfg c false rule) rule) :
    ReadsLists cfg s (c :: cs) after c.name c.argList rest where
  parse := h.parse
  args_eq hname := absurd hname h.named
  regular := h.regular hregular
  read rule := by
    rw [if_pos (.inl h.named), List.foldlM_cons, ← funext htail]
    show ((perform cfg c true rule).bind fun rule => cfg.readActivate rest rule) = _
    simp only [h.read]
    exact (Option.bind_assoc _ _ _).symm
  single hcomma hend := by
    obtain ⟨rfl, rfl⟩ := h.single hcomma
    obtain ⟨rfl, rfl⟩ := hsemicolon hend
    refine ⟨rfl, h.named, ⟨c.args, ?_⟩, rfl⟩
    rw [← h.unmarked]

theorem readsLists_of_listsText (cfg : Config) {before after : List Call}
    (h : ListsText s before after) :
    ∃ value args rest, ReadsLists cfg s before after value args rest := by
  cases h with
  | values h =>
    obtain ⟨c, cs, rest, rfl, hreads⟩ := readsOn_of_valuesText cfg h .done
    rw [List.append_nil] at hreads
    refine ⟨_, _, rest, hreads.readsLists .done (fun _ => ⟨rfl, rfl⟩) fun rule => ?_⟩
    rw [Config.readActivate]
    rfl
  | @semicolon s t _ _ hbefore hafter =>
    have hread (rule : Rule) : cfg.readActivate (';' :: t) rule = _ :=
      readActivate_optionalText hafter rule
    have hregular := afterActivate_of_optionalText hafter
    cases hbefore with
    | some h =>
      obtain ⟨c, cs, rest, rfl, hreads⟩ := readsOn_of_valuesText cfg h .semicolon
      exact ⟨_, _, rest, hreads.readsLists hregular (fun h => absurd rfl h) hread⟩
    | none hb =>
      -- nothing stands before the semicolon
      refine ⟨[], [], ';' :: t, ?_, fun _ => rfl, hregular, fun rule => ?_, fun _ h => absurd rfl h⟩
      · rw [parseNameWithArgs, Text.dropWhile_run hb (by simp [Text.isBlank])]
        simp [endsName, valueEnd, Text.isBlank]
      · rw [if_neg (by simp)]
        exact hread rule

/-- Actions that are read one after the other sort the rule. -/
theorem sortedInto_of_foldlM {condition : Condition} {before after : List Call}
    (h : ((before.foldlM (fun rule c => perform cfg c true rule)
      { condition := some condition }).bind fun rule =>
        after.foldlM (fun rule c => perform cfg c false rule) rule) = some r) :
    r.condition = some condition ∧ SortedInto cfg r before after := by
  obtain ⟨rule', hbefore, hafter⟩ := Option.bind_eq_some_iff.1 h
  obtain ⟨es, hes, rfl⟩ := RuleText.reads_of_foldlM hbefore
  obtain ⟨es', hes', rfl⟩ := RuleText.reads_of_foldlM hafter
  refine ⟨?_, es, es', hes, hes', ?_, ?_⟩
  · rw [RuleText.foldl_adopt_condition, RuleText.foldl_adopt_condition]
  · rw [RuleText.foldl_adopt_deactivate.1, RuleText.foldl_adopt_activate.1]
    rfl
  · rw [RuleText.foldl_adopt_deactivate.2, RuleText.foldl_adopt_activate.2]
    rfl

/-- A line of the grammar that is accepted is what its parts say, and the reader steps over what
belongs there. -/
theorem says_of_lineText {o : Config.OptionLine} {before after : List Call}
    (hline : LineText line c before after) (h : cfg.readOption line = some o) :
    Regular line ∧ Says cfg c before after o := by
  cases hline with
  | @line b text b' s _ _ _ hb hcall hne hb' hlists =>
    have hstops : Stops "=".toList ('=' :: s) := .delim (by decide) rfl (by decide)
    have hname := parseNameWithArgs_callText hb hcall hne hb' hstops
    obtain ⟨value, args, rest, hreads⟩ := readsLists_of_listsText cfg hlists
    rw [readOption_eq cfg hname hreads.parse] at h
    -- A setting has one value; any other line is a rule with two lists of actions.
    by_cases hsetting : String.ofList c.name ∈ Config.settings
    · rw [if_pos hsetting] at h
      by_cases hend : rest.head? = some ',' ∨ rest.head? = some ';'
      · rw [if_pos hend] at h
        cases h
      · rw [if_neg hend] at h
        obtain rfl := Option.some.inj h
        obtain ⟨hcomma, hsemicolon⟩ := not_or.1 hend
        obtain ⟨rfl, hvalue, hbefore, hafter⟩ := hreads.single hcomma hsemicolon
        exact ⟨.setting hname hsetting hreads.parse hvalue, rfl, hbefore, hafter⟩
    · rw [if_neg hsetting] at h
      obtain ⟨r, hrule, rfl⟩ := Option.map_eq_some_iff.1 h
      refine ⟨.rule hname hsetting hreads.parse hreads.args_eq hreads.regular, ?_⟩
      unfold Config.readRule at hrule
      cases hcondition : cfg.parseCondition c.name c.argList with
      | none =>
        rw [hcondition] at hrule
        cases hrule
      | some condition =>
        rw [hcondition] at hrule
        dsimp only at hrule
        rw [hreads.read] at hrule
        obtain ⟨hr, hsorted⟩ := sortedInto_of_foldlM hrule
        exact ⟨hcondition.trans hr.symm, hr ▸ Option.some_ne_none _, hsorted⟩

/-- A line that is accepted is one of the grammar if and only if the reader steps over what belongs
there.  Then a setting has one value.  A rule has the actions of its first list on activation and
those of its second on deactivation; of an action that presses and releases, wherever it stands, the
press is on activation and the release on deactivation. -/
theorem readOption_grammar (cfg : Config) {line : Text} {o : Config.OptionLine}
    (h : cfg.readOption line = some o) :
    ((∃ c before after, LineText line c before after) ↔ Regular line) ∧
      ∀ c before after, LineText line c before after → Says cfg c before after o :=
  ⟨⟨fun ⟨_, _, _, hline⟩ => (says_of_lineText hline h).1, fun hline => lineText_of_regular hline h⟩,
    fun _ _ _ hline => (says_of_lineText hline h).2⟩

/-- A line whose second list has an action that presses and releases. -/
def twoLists : Text := "keystroke(a) = toggleScreen ; keystroke(b)".toList

theorem regular_twoLists : Regular twoLists := by
  have hname : parseNameWithArgs "=".toList twoLists =
      some ("keystroke".toList, ["a".toList], "= toggleScreen ; keystroke(b)".toList) := by decide
  have hvalue : parseNameWithArgs valueEnd " toggleScreen ; keystroke(b)".toList =
      some ("toggleScreen".toList, [], "; keystroke(b)".toList) := by decide
  have hsecond : parseNameWithArgs ",\n".toList " keystroke(b)".toList =
      some ("keystroke".toList, ["b".toList], []) := by decide
  exact .rule hname (by decide) hvalue (fun _ => rfl) (.semicolon hsecond .done)

theorem readOption_grammar_twoLists : ∃ c before after, LineText twoLists c before after ∧
    Says {} c before after (.rule ⟨some (.keystroke 97 0),
      [.toggleScreen, .keystroke ⟨98, 0, 0, 0, ""⟩ true],
      [.keystroke ⟨98, 0, 0, 0, ""⟩ false]⟩) := by
  have hread : Config.readOption {} twoLists = some (.rule ⟨some (.keystroke 97 0),
      [.toggleScreen, .keystroke ⟨98, 0, 0, 0, ""⟩ true],
      [.keystroke ⟨98, 0, 0, 0, ""⟩ false]⟩) := by decide +kernel
  obtain ⟨hregular, hsays⟩ := readOption_grammar {} hread
  obtain ⟨c, before, after, hline⟩ := hregular.2 regular_twoLists
  exact ⟨c, before, after, hline, hsays c before after hline⟩

/-! ### Actions that press and release -/

variable (cfg) in
/-- The rule has the actions of the first list on activation and those of the second on
deactivation, and no others. -/
def AsListed (r : Rule) (before after : List Call) : Prop :=
  ∃ es es' : List Effect, List.Forall₂ (Reads cfg) before es ∧ List.Forall₂ (Reads cfg) after es' ∧
    r.activateActions = es.map Effect.action ∧ r.deactivateActions = es'.map Effect.action

/-- Without a semicolon there is no second list. -/
theorem LineText.after_eq_nil {before after : List Call} (h : LineText line c before after)
    (hline : ';' ∉ line) : after = [] := by
  obtain @⟨b, text, b', s, _, _, _, -, -, -, -, hlists⟩ := h
  cases hlists with
  | values => rfl
  | semicolon => simp at hline

/-- One that stands alone adds its release to the other list. -/
theorem not_asListed_keystroke : ¬∀ (cfg : Config) (line : Text) (o : Config.OptionLine),
    cfg.readOption line = some o → ∃ c before after, LineText line c before after ∧
      ∀ r, o = .rule r → AsListed cfg r before after := by
  intro h
  have hread : Config.readOption {} "keystroke(a) = keystroke(b)".toList =
      some (.rule ⟨some (.keystroke 97 0), [.keystroke ⟨98, 0, 0, 0, ""⟩ true],
        [.keystroke ⟨98, 0, 0, 0, ""⟩ false]⟩) := by decide +kernel
  obtain ⟨c, before, after, hline, hlisted⟩ := h _ _ _ hread
  obtain rfl := hline.after_eq_nil (by decide)
  obtain ⟨es, es', -, hes', -, hdeactivate⟩ := hlisted _ rfl
  cases hes'
  cases hdeactivate

end OptionGrammar

end InputLeap
