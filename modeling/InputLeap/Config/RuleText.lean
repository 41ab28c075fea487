import InputLeap.Config.RuleReader

/-!
# Rules as text

How a line of the `options` section is read that was put together from names with arguments.

## Main definitions

* `RuleText.strip` : the line without its comment and the blanks at its end.
* `RuleText.Call` : a name and its arguments, with a semicolon before it or not.

## Main results

* `readActivate_tail`, `readDeactivate_tail` : what is read for a list of calls.
* `readActivate_some`, `readDeactivate_some` : only calls that are closed and without semicolon are
  read.
-/

namespace InputLeap

namespace RuleText

open ConfigReadContext

/-! ### Comments -/

/-- The characters that are dropped at the end of a line. -/
def isEnd (c : Char) : Bool := c == ' ' || c == '\r' || c == '\t'

/-- The line without its comment and the blanks at its end. -/
def strip (s : Text) : Text := (s.takeWhile (· != '#')).rdropWhile isEnd

variable {s t x : Text} {c : Char}

theorem rdropWhile_append {p : Char → Bool} (hc : p c = false) :
    (x ++ c :: s).rdropWhile p = x ++ c :: s.rdropWhile p := by
  induction s using List.reverseRecOn with
  | nil =>
    rw [List.rdropWhile_concat_neg _ _ _ (by rw [hc]; exact Bool.false_ne_true)]
    rfl
  | append_singleton s d ih =>
    rw [← List.cons_append, ← List.append_assoc]
    by_cases hd : p d = true
    · rw [List.rdropWhile_concat_pos _ _ _ hd, List.rdropWhile_concat_pos _ _ _ hd, ih]
    · rw [List.rdropWhile_concat_neg _ _ _ hd, List.rdropWhile_concat_neg _ _ _ hd,
        List.append_assoc, List.cons_append]

theorem takeWhile_comment (hx : '#' ∉ x) : (x ++ t).takeWhile (· != '#') =
    x ++ t.takeWhile (· != '#') :=
  List.takeWhile_append_of_pos fun _ hc => bne_iff_ne.2 fun h => hx (h ▸ hc)

@[simp] theorem strip_nil : strip [] = [] := rfl

/-- What is before a character that stays is kept. -/
theorem strip_append (hx : '#' ∉ x) (hc : c ≠ '#') (hend : isEnd c = false) :
    strip (x ++ c :: s) = x ++ c :: strip s := by
  have hkeep : (c :: s).takeWhile (· != '#') = c :: s.takeWhile (· != '#') :=
    List.takeWhile_cons_of_pos (bne_iff_ne.2 hc)
  rw [strip, takeWhile_comment hx, hkeep, rdropWhile_append hend]
  rfl

/-- A comment cuts the line. -/
theorem strip_comment (hx : '#' ∉ x) (hc : c ≠ '#') (hend : isEnd c = false) (hs : '#' ∉ s) :
    strip (x ++ c :: (s ++ '#' :: t)) = x ++ c :: s.rdropWhile isEnd := by
  rw [strip_append hx hc hend, strip, takeWhile_comment hs,
    List.takeWhile_cons_of_neg (by decide), List.append_nil]

/-! ### Arguments -/

theorem parseArgs_open {arg : Text} (hs : ')' ∉ s) : parseArgs arg s = none := by
  induction s generalizing arg with
  | nil => rfl
  | cons c s ih =>
    have hc := (List.ne_of_not_mem_cons hs).symm
    have hs := List.not_mem_of_not_mem_cons hs
    rw [parseArgs, if_neg hc]
    split_ifs
    · rw [ih hs, Option.map_none]
    · exact ih hs

/-- There is nothing but blanks behind the last comma. -/
def BlankLast (args : Text) : Prop :=
  (Text.splitOn ',' args).getLast?.any (·.all Text.isBlank) = true

instance (args : Text) : Decidable (BlankLast args) := inferInstanceAs (Decidable (_ = true))

theorem blankLast_of_not_mem (hs : ',' ∉ s) : BlankLast s ↔ s.all Text.isBlank = true := by
  rw [BlankLast, Text.splitOn_of_not_mem hs]
  rfl

theorem blankLast_append (hs : ',' ∉ s) (t : Text) : BlankLast (s ++ ',' :: t) ↔ BlankLast t := by
  obtain ⟨p, ps, hsplit⟩ := List.exists_cons_of_ne_nil (Text.splitOn_ne_nil ',' t)
  rw [BlankLast, BlankLast, Text.splitOn_append hs, hsplit, List.getLast?_cons_cons]

/-- The arguments are between the commas; the last one may not be blank. -/
theorem parseArgs_closed {arg : Text} (harg : ',' ∉ arg) (hs : ')' ∉ s) (t : Text) :
    parseArgs arg (s ++ ')' :: t) =
      if BlankLast (arg.reverse ++ s) then none
      else some ((Text.splitOn ',' (arg.reverse ++ s)).map trimArg, t) := by
  induction s generalizing arg with
  | nil =>
    have hcomma : ',' ∉ arg.reverse := fun h => harg (List.mem_reverse.1 h)
    have hblank : BlankLast arg.reverse ↔ arg.all Text.isBlank = true := by
      rw [blankLast_of_not_mem hcomma, List.all_reverse]
    rw [List.append_nil, Text.splitOn_of_not_mem hcomma, List.nil_append, parseArgs, if_pos rfl]
    by_cases h : BlankLast arg.reverse
    · rw [if_pos h, if_pos (hblank.1 h)]
    · rw [if_neg h, if_neg (mt hblank.2 h)]
      rfl
  | cons c s ih =>
    have hc := (List.ne_of_not_mem_cons hs).symm
    have hs' := List.not_mem_of_not_mem_cons hs
    rw [List.cons_append, parseArgs, if_neg hc]
    by_cases hcomma : c = ','
    · subst hcomma
      have hcomma : ',' ∉ arg.reverse := fun h => harg (List.mem_reverse.1 h)
      rw [if_pos rfl, ih List.not_mem_nil hs', Text.splitOn_append hcomma, List.reverse_nil,
        List.nil_append]
      by_cases h : BlankLast s
      · rw [if_pos h, if_pos ((blankLast_append hcomma s).2 h)]
        rfl
      · rw [if_neg h, if_neg (mt (blankLast_append hcomma s).1 h)]
        rfl
    · rw [if_neg hcomma, ih (by simpa using ⟨Ne.symm hcomma, harg⟩) hs', List.reverse_cons,
        List.append_assoc]
      rfl

/-! ### Calls -/

/-- A name and its arguments, in parentheses if there are any; a semicolon marks it. -/
structure Call where
  marked : Bool
  name : Text
  args : Option Text

namespace Call

/-- The name and the arguments. -/
def text (c : Call) : Text :=
  match c.args with
  | some args => c.name ++ '(' :: (args ++ [')'])
  | none => c.name

/-- The text of the call behind its semicolon. -/
def item (c : Call) : Text := if c.marked then ';' :: c.text else c.text

/-- The arguments as they are read. -/
def argList (c : Call) : List Text :=
  match c.args with
  | some args => (Text.splitOn ',' args).map trimArg
  | none => []

/-- The name is made of letters. -/
def Named (c : Call) : Prop := c.name ≠ [] ∧ ∀ x ∈ c.name, x.isAlpha = true

/-- The arguments go up to the closing parenthesis, and the last one is not blank. -/
def Closed (c : Call) : Prop :=
  ∀ args ∈ c.args, '#' ∉ args ∧ ')' ∉ args ∧ ¬ BlankLast args

/-- The arguments have a comment in them, or end before their closing parenthesis, or the last one
is blank. -/
inductive Broken (c : Call) : Prop
  | comment (s t : Text) (hargs : c.args = some (s ++ '#' :: t)) (hcomment : '#' ∉ s)
      (hclose : ')' ∉ s)
  | close (s t : Text) (hargs : c.args = some (s ++ ')' :: ',' :: t)) (hcomment : '#' ∉ s)
      (hclose : ')' ∉ s) (hrest : ∀ x ∈ t, endsName ",;\n".toList x = false ∧ x ≠ '#')
  | blank (s : Text) (hargs : c.args = some s) (hcomment : '#' ∉ s) (hclose : ')' ∉ s)
      (hblank : BlankLast s)

end Call

/-- The calls, each one behind a comma. -/
def tail : List Call → Text
  | [] => []
  | c :: cs => ',' :: ' ' :: (c.item ++ tail cs)

theorem intercalate_item (c : Call) (cs : List Call) :
    List.intercalate ", ".toList ((c :: cs).map Call.item) = c.item ++ tail cs := by
  induction cs generalizing c with
  | nil => rw [List.map_singleton, List.intercalate_singleton, tail, List.append_nil]
  | cons d cs ih =>
    rw [List.map_cons, List.map_cons, List.intercalate_cons_cons, ← List.map_cons, ih, tail,
      List.append_assoc]
    rfl

/-! ### Reading a call -/

/-- What ends an action: on activation, or on deactivation. -/
def delims : List Text := [",;\n".toList, ",\n".toList]

variable {d : Text} {c : Call}

theorem endsName_alpha (hd : d ∈ delims) {x : Char} (hx : x.isAlpha = true) :
    endsName d x = false := by
  have hne (y : Char) (hy : y.isAlpha = false) : x ≠ y := by
    rintro rfl
    rw [hx] at hy
    cases hy
  have hblank : Text.isBlank x = false := by
    simp [Text.isBlank, hne ' ' (by decide), hne '\t' (by decide)]
  simp only [delims, List.mem_cons, List.not_mem_nil, or_false] at hd
  rcases hd with rfl | rfl <;>
    simp [endsName, hblank, hne '(' (by decide), hne ',' (by decide), hne ';' (by decide),
      hne '\n' (by decide)]

theorem needsDelim_eq (hd : d ∈ delims) : needsDelim d = false := by
  revert hd d
  decide

theorem isBlank_of_endsName {x : Char} (h : endsName d x = false) : Text.isBlank x = false := by
  rw [endsName, Bool.or_eq_false_iff, Bool.or_eq_false_iff] at h
  exact h.1.1

/-- A name up to its end, between blanks. -/
theorem parseNameWithArgs_blanks {b name b' rest : Text} (hb : ∀ x ∈ b, Text.isBlank x = true)
    (hne : name ≠ []) (hname : ∀ x ∈ name, endsName d x = false)
    (hb' : ∀ x ∈ b', Text.isBlank x = true)
    (hrest : ∀ x ∈ rest.head?, endsName d x = true ∧ Text.isBlank x = false) :
    parseNameWithArgs d (b ++ (name ++ (b' ++ rest))) =
      match rest with
      | [] => if needsDelim d then none else some (name, [], [])
      | c :: s =>
        if c ≠ '(' then some (name, [], c :: s)
        else
          match parseArgs [] s with
          | none => none
          | some (args, s) => (findDelim d s).map fun rest => (name, args, rest) := by
  have hhead : ∀ x ∈ (name ++ (b' ++ rest)).head?, Text.isBlank x = false := by
    intro x hx
    rw [List.head?_append_of_ne_nil _ hne] at hx
    exact isBlank_of_endsName (hname x (List.mem_of_mem_head? hx))
  have hrun : ∀ x ∈ name, (!endsName d x) = true := fun x hx => by rw [hname x hx]; rfl
  have hend : ∀ x ∈ (b' ++ rest).head?, (!endsName d x) = false := by
    intro x hx
    cases b' with
    | nil => rw [(hrest x hx).1]; rfl
    | cons y b' =>
      cases hx
      rw [endsName, hb' x List.mem_cons_self]
      rfl
  rw [parseNameWithArgs, Text.dropWhile_run hb hhead]
  dsimp only
  rw [if_neg (List.append_ne_nil_of_left_ne_nil hne _), Text.takeWhile_run hrun hend,
    Text.dropWhile_run hrun hend, Text.dropWhile_run hb' fun x hx => (hrest x hx).2]
  cases rest with
  | nil => rfl
  | cons c s => rfl

/-- A name up to its end, behind blanks. -/
theorem parseNameWithArgs_name {b name rest : Text} (hb : ∀ x ∈ b, Text.isBlank x = true)
    (hne : name ≠ []) (hname : ∀ x ∈ name, endsName d x = false)
    (hrest : ∀ x ∈ rest.head?, endsName d x = true ∧ Text.isBlank x = false) :
    parseNameWithArgs d (b ++ (name ++ rest)) =
      match rest with
      | [] => if needsDelim d then none else some (name, [], [])
      | c :: s =>
        if c ≠ '(' then some (name, [], c :: s)
        else
          match parseArgs [] s with
          | none => none
          | some (args, s) => (findDelim d s).map fun rest => (name, args, rest) :=
  parseNameWithArgs_blanks hb hne hname (List.forall_mem_nil _) hrest

/-- The text goes on with another call, or ends. -/
def Follows (rest : Text) : Prop := rest = [] ∨ ∃ t, rest = ',' :: t

theorem Follows.head (hd : d ∈ delims) {rest : Text} (h : Follows rest) :
    ∀ x ∈ rest.head?, endsName d x = true ∧ Text.isBlank x = false := by
  intro x hx
  rcases h with rfl | ⟨t, rfl⟩
  · cases hx
  · cases hx
    exact ⟨by revert hd d; decide, rfl⟩

theorem findDelim_follows (hd : d ∈ delims) {rest : Text} (h : Follows rest) :
    findDelim d rest = some rest := by
  rw [findDelim, needsDelim_eq hd]
  rcases h with rfl | ⟨t, rfl⟩
  · rfl
  · rfl

/-- **A closed call is read** as its name and arguments. -/
theorem parseNameWithArgs_call (hd : d ∈ delims) (hnamed : c.Named) (hclosed : c.Closed)
    {b rest : Text} (hb : ∀ x ∈ b, Text.isBlank x = true) (hrest : Follows rest) :
    parseNameWithArgs d (b ++ (c.text ++ rest)) = some (c.name, c.argList, rest) := by
  have hname : ∀ x ∈ c.name, endsName d x = false := fun x hx => endsName_alpha hd (hnamed.2 x hx)
  obtain ⟨marked, name, args⟩ := c
  cases args with
  | none =>
    rw [Call.text, parseNameWithArgs_name hb hnamed.1 hname (hrest.head hd)]
    rcases hrest with rfl | ⟨t, rfl⟩
    · exact if_neg (by rw [needsDelim_eq hd]; exact Bool.false_ne_true)
    · rfl
  | some args =>
    rw [Call.text, List.append_assoc, List.cons_append, List.append_assoc,
      parseNameWithArgs_name hb hnamed.1 hname]
    · dsimp only
      obtain ⟨-, hclose, hblank⟩ := hclosed args rfl
      rw [if_neg (by decide), List.singleton_append, parseArgs_closed List.not_mem_nil hclose,
        List.reverse_nil, List.nil_append, if_neg hblank]
      dsimp only
      rw [findDelim_follows hd hrest]
      rfl
    · intro x hx
      cases hx
      exact ⟨by simp [endsName], rfl⟩

/-- A call without its closing parenthesis is not read. -/
theorem parseNameWithArgs_open (hd : d ∈ delims) (hnamed : c.Named) {b s : Text}
    (hb : ∀ x ∈ b, Text.isBlank x = true) (hs : ')' ∉ s) :
    parseNameWithArgs d (b ++ (c.name ++ '(' :: s)) = none := by
  rw [parseNameWithArgs_name hb hnamed.1 fun x hx => endsName_alpha hd (hnamed.2 x hx)]
  · dsimp only
    rw [if_neg (by decide), parseArgs_open hs]
  · intro x hx
    cases hx
    exact ⟨by simp [endsName], rfl⟩

/-- A call whose last argument is blank is not read. -/
theorem parseNameWithArgs_blank (hd : d ∈ delims) (hnamed : c.Named) {b s : Text}
    (hb : ∀ x ∈ b, Text.isBlank x = true) (hs : ')' ∉ s) (hblank : BlankLast s) (rest : Text) :
    parseNameWithArgs d (b ++ (c.name ++ '(' :: (s ++ ')' :: rest))) = none := by
  rw [parseNameWithArgs_name hb hnamed.1 fun x hx => endsName_alpha hd (hnamed.2 x hx)]
  · dsimp only
    rw [if_neg (by decide), parseArgs_closed List.not_mem_nil hs, List.reverse_nil,
      List.nil_append, if_pos hblank]
  · intro x hx
    cases hx
    exact ⟨by simp [endsName], rfl⟩

/-- A name that is read starts with the characters up to its end. -/
theorem mem_of_parseNameWithArgs {b s name : Text} {x : Char} {args : List Text} {rest : Text}
    (hb : ∀ x ∈ b, Text.isBlank x = true) (hs : ∀ y ∈ s, endsName d y = false)
    (hx : endsName d x = false) {t : Text}
    (h : parseNameWithArgs d (b ++ (s ++ x :: t)) = some (name, args, rest)) : x ∈ name := by
  have hhead : ∀ y ∈ (s ++ x :: t).head?, Text.isBlank y = false := by
    intro y hy
    cases s with
    | nil =>
      cases hy
      exact isBlank_of_endsName hx
    | cons z s =>
      cases hy
      exact isBlank_of_endsName (hs _ List.mem_cons_self)
  have hrun : ∀ y ∈ s, (!endsName d y) = true := fun y hy => by rw [hs y hy]; rfl
  have hmem : x ∈ (s ++ x :: t).takeWhile (!endsName d ·) := by
    rw [List.takeWhile_append_of_pos hrun, List.takeWhile_cons_of_pos (by rw [hx]; rfl)]
    exact List.mem_append_right _ List.mem_cons_self
  rw [parseNameWithArgs, Text.dropWhile_run hb hhead] at h
  dsimp only at h
  rw [if_neg (by simp)] at h
  generalize (s ++ x :: t).takeWhile (!endsName d ·) = n at h hmem
  generalize ((s ++ x :: t).dropWhile (!endsName d ·)).dropWhile Text.isBlank = u at h
  cases u with
  | nil =>
    dsimp only at h
    split_ifs at h
    cases h
    exact hmem
  | cons c u =>
    dsimp only at h
    by_cases hopen : c ≠ '('
    · rw [if_pos hopen] at h
      cases h
      exact hmem
    rw [if_neg hopen] at h
    rcases hargs : parseArgs [] u with - | ⟨args', v⟩
    · rw [hargs] at h
      cases h
    · rw [hargs] at h
      obtain ⟨rest', -, heq⟩ := Option.map_eq_some_iff.1 h
      cases heq
      exact hmem

/-! ### Actions -/

open InputFilter (Rule)

/-- What an action of a rule does; some release on deactivation what they press on activation. -/
structure Effect where
  action : InputFilter.Action
  release : Bool
  deriving DecidableEq

/-- The action that releases what is pressed. -/
def released : InputFilter.Action → InputFilter.Action
  | .keystroke info _ => .keystroke info false
  | .mouseButton button mask _ => .mouseButton button mask false
  | action => action

/-- Adds an effect to a rule as the server does. -/
def adopt (rule : Rule) (e : Effect) (activate : Bool) : Rule :=
  if e.release then (rule.adoptAction e.action true).adoptAction (released e.action) false
  else rule.adoptAction e.action activate

variable (cfg : Config) {name : Text} {args : List Text} {rule : Rule} {activate : Bool}

/-- Names with other characters than letters are not those of actions. -/
theorem parseAction_of_mem {x : Char} (hx : x ∈ name) (hx' : x.isAlpha = false) :
    cfg.parseAction name args rule activate = none := by
  have hne (s : String) (hs : ∀ y ∈ s.toList, y.isAlpha = true) : name ≠ s.toList := by
    rintro rfl
    rw [hs x hx] at hx'
    cases hx'
  unfold Config.parseAction
  rw [if_neg (hne _ (by decide)), if_neg (hne _ (by decide)), if_neg (hne _ (by decide)),
    if_neg (hne _ (by decide)), if_neg (hne _ (by decide)), if_neg (hne _ (by decide)),
    if_neg (hne _ (by decide)), if_neg (hne _ (by decide)), if_neg (hne _ (by decide)),
    if_neg (hne _ (by decide)), if_neg (hne _ (by decide))]

theorem parseAction_nil : cfg.parseAction [] args rule activate = none := by
  simp [Config.parseAction]

/-- The actions that release what they press. -/
def releases (name : Text) : Bool := name == "keystroke".toList || name == "mousebutton".toList

/-- An action that adds the same effect to each rule, or none. -/
def Adopts (release : Bool) (action : Rule → Bool → Option Rule) : Prop :=
  (∀ rule activate, action rule activate = none) ∨
    ∃ e : Effect, e.release = release ∧
      ∀ rule activate, action rule activate = some (adopt rule e activate)

theorem Adopts.map {α : Type} {release : Bool} (o : Option α) (f : α → Effect)
    (hf : ∀ x, (f x).release = release) :
    Adopts release fun rule activate => o.map fun x => adopt rule (f x) activate := by
  cases o with
  | none => exact .inl fun _ _ => rfl
  | some x => exact .inr ⟨f x, hf x, fun _ _ => rfl⟩

theorem Adopts.ite {release : Bool} {p : Prop} [Decidable p] {f g : Rule → Bool → Option Rule}
    (hf : p → Adopts release f) (hg : Adopts release g) :
    Adopts release fun rule activate => if p then f rule activate else g rule activate := by
  by_cases hp : p
  · simpa only [if_pos hp] using hf hp
  · simpa only [if_neg hp] using hg

theorem Adopts.none {release : Bool} : Adopts release fun _ _ => Option.none := .inl fun _ _ => rfl

/-- An action adds the same effect to each rule. -/
theorem adopts_parseAction (name : Text) (args : List Text) :
    Adopts (releases name) (cfg.parseAction name args) := by
  have htrue {s : String} (hs : releases s.toList = true) (h : name = s.toList) :
      true = releases name := by rw [h, hs]
  have hfalse {s : String} (hs : releases s.toList = false) (h : name = s.toList) :
      false = releases name := by rw [h, hs]
  unfold Config.parseAction
  -- Keystrokes, and keys that are pressed or released.
  refine .ite (fun h => ?_) (.ite (fun h => ?_) (.ite (fun h => ?_) ?_))
  · exact .map _ (fun info => ⟨.keystroke info true, true⟩) fun _ => htrue (by decide) h
  · exact .map _ (fun info => ⟨.keystroke info true, false⟩) fun _ => hfalse (by decide) h
  · exact .map _ (fun info => ⟨.keystroke info false, false⟩) fun _ => hfalse (by decide) h
  -- Clicks, and buttons that are pressed or released.
  refine .ite (fun h => ?_) (.ite (fun h => ?_) (.ite (fun h => ?_) ?_))
  · match args with
    | [arg] =>
      exact .map _ (fun info : ℕ × ℕ => ⟨.mouseButton info.1 info.2 true, true⟩)
        fun _ => htrue (by decide) h
    | [] | _ :: _ :: _ => exact .none
  · match args with
    | [arg] =>
      exact .map _ (fun info : ℕ × ℕ => ⟨.mouseButton info.1 info.2 true, false⟩)
        fun _ => hfalse (by decide) h
    | [] | _ :: _ :: _ => exact .none
  · match args with
    | [arg] =>
      exact .map _ (fun info : ℕ × ℕ => ⟨.mouseButton info.1 info.2 false, false⟩)
        fun _ => hfalse (by decide) h
    | [] | _ :: _ :: _ => exact .none
  -- Switches.
  refine .ite (fun h => ?_) (.ite (fun h => ?_) (.ite (fun h => ?_) (.ite (fun h => ?_) ?_)))
  · match args with
    | [arg] =>
      refine .ite (fun _ => ?_) (.ite (fun _ => ?_) .none)
      · exact .inr ⟨⟨.switchToScreen _, false⟩, hfalse (by decide) h, fun _ _ => rfl⟩
      · exact .inr ⟨⟨.switchToScreen "", false⟩, hfalse (by decide) h, fun _ _ => rfl⟩
    | [] | _ :: _ :: _ => exact .none
  · exact .inr ⟨⟨.toggleScreen, false⟩, hfalse (by decide) h, fun _ _ => rfl⟩
  · match args with
    | [arg] =>
      exact .map _ (fun dir => ⟨.switchInDirection dir, false⟩) fun _ => hfalse (by decide) h
    | [] | _ :: _ :: _ => exact .none
  · refine .ite (fun _ => ?_) .none
    exact .map _ (fun mode => ⟨.lockCursorToScreen mode, false⟩) fun _ => hfalse (by decide) h
  -- Broadcasts.
  refine .ite (fun h => ?_) .none
  cases Config.parseMode args with
  | none => exact .none
  | some mode =>
    match args with
    | [_, screens] =>
      exact .map _ (fun screens => ⟨.keyboardBroadcast mode (join screens), false⟩)
        fun _ => hfalse (by decide) h
    | [] | [_] =>
      exact .inr ⟨⟨.keyboardBroadcast mode (join ∅), false⟩, hfalse (by decide) h, fun _ _ => rfl⟩
    | _ :: _ :: _ :: _ => exact .none

/-! ### Lists of calls -/

theorem readActivate_comma (line : Text) (rule : Rule) :
    cfg.readActivate (',' :: line) rule =
      (parseNameWithArgs ",;\n".toList line).bind fun r =>
        (cfg.parseAction r.1 r.2.1 rule true).bind (cfg.readActivate r.2.2) := by
  rw [Config.readActivate, if_neg (by decide)]
  split
  · rename_i heq
    rw [heq]
    rfl
  · rename_i heq
    rw [heq, Option.bind_some]
    split
    · rename_i haction
      rw [haction]
      rfl
    · rename_i haction
      rw [haction]
      rfl

theorem readDeactivate_eq (line : Text) (rule : Rule) :
    cfg.readDeactivate line rule =
      (parseNameWithArgs ",\n".toList line).bind fun r =>
        (cfg.parseAction r.1 r.2.1 rule false).bind fun rule =>
          match r.2.2 with
          | [] => some rule
          | _ :: rest => cfg.readDeactivate rest rule := by
  rw [Config.readDeactivate]
  split
  · rename_i heq
    rw [heq]
    rfl
  · rename_i value args rest heq
    cases haction : cfg.parseAction value args rule false with
    | none => simp only [heq, Option.bind_some, haction, Option.bind_none]
    | some rule =>
      simp only [heq, Option.bind_some, haction]
      cases rest with
      | nil => rfl
      | cons y rest => rfl

/-- A call without a comment is left of it. -/
theorem strip_uncommented (hx : '#' ∉ x) (hnamed : c.Named) (hclosed : ∀ args ∈ c.args, '#' ∉ args)
    (rest : Text) :
    strip (x ++ (c.text ++ rest)) = x ++ (c.text ++ strip rest) := by
  have hcomment : '#' ∉ c.name := fun h => absurd (hnamed.2 _ h) (by decide)
  obtain ⟨marked, name, args⟩ := c
  cases args with
  | none =>
    -- The last letter of the name stays.
    obtain ⟨front, y, rfl⟩ : ∃ front y, name = front ++ [y] :=
      ⟨name.dropLast, name.getLast hnamed.1, (List.dropLast_append_getLast hnamed.1).symm⟩
    have hy : y.isAlpha = true := hnamed.2 y (List.mem_append_right _ List.mem_cons_self)
    have hne (z : Char) (hz : z.isAlpha = false) : y ≠ z := by
      rintro rfl
      rw [hy] at hz
      cases hz
    have hend : isEnd y = false := by
      simp [isEnd, hne ' ' (by decide), hne '\r' (by decide), hne '\t' (by decide)]
    have hfront : '#' ∉ x ++ front := by
      rw [List.mem_append, not_or]
      exact ⟨hx, fun h => hcomment (List.mem_append_left _ h)⟩
    have hstrip := strip_append (s := rest) hfront (hne '#' (by decide)) hend
    simpa only [Call.text, List.append_assoc, List.singleton_append] using hstrip
  | some args =>
    have hfront : '#' ∉ x ++ (name ++ '(' :: args) := by
      simp only [List.mem_append, List.mem_cons, not_or]
      exact ⟨hx, hcomment, by decide, hclosed args rfl⟩
    have hstrip := strip_append (s := rest) (c := ')') hfront (by decide) rfl
    simpa only [Call.text, List.append_assoc, List.cons_append, List.nil_append] using hstrip

theorem strip_call (hx : '#' ∉ x) (hnamed : c.Named) (hclosed : c.Closed) (rest : Text) :
    strip (x ++ (c.text ++ rest)) = x ++ (c.text ++ strip rest) :=
  strip_uncommented hx hnamed (fun args hargs => (hclosed args hargs).1) rest

theorem follows_strip_tail (cs : List Call) : Follows (strip (tail cs)) := by
  cases cs with
  | nil => exact .inl rfl
  | cons c cs => exact .inr ⟨_, strip_append (x := []) List.not_mem_nil (by decide) rfl⟩

/-- What is left of a broken call is not read, or something is behind it that is no action. -/
theorem strip_broken (hx : '#' ∉ x) (hnamed : c.Named) (hbroken : c.Broken) (rest : Text) :
    ∃ u, strip (x ++ (c.text ++ rest)) = x ++ u ∧
      ∀ d ∈ delims, ∀ b : Text, (∀ y ∈ b, Text.isBlank y = true) →
        parseNameWithArgs d (b ++ u) = none ∨
        ∃ name args t v, parseNameWithArgs d (b ++ u) = some (name, args, ',' :: (t ++ ')' :: v)) ∧
          ∀ y ∈ t, endsName ",;\n".toList y = false := by
  have hcomment : '#' ∉ c.name := fun h => absurd (hnamed.2 _ h) (by decide)
  have hname : '#' ∉ x ++ c.name := by
    rw [List.mem_append, not_or]
    exact ⟨hx, hcomment⟩
  obtain ⟨marked, name, args⟩ := c
  cases hbroken with
  | comment s t hargs hs hclose =>
    obtain rfl : args = _ := hargs
    -- the rest of the line is a comment, so that the parenthesis is never closed
    refine ⟨name ++ '(' :: s.rdropWhile isEnd, ?_, fun d hd b hb => .inl ?_⟩
    · have hstrip := strip_comment (t := t ++ ([')'] ++ rest)) (c := '(') hname (by decide) rfl hs
      simpa only [Call.text, List.append_assoc, List.cons_append, List.nil_append] using hstrip
    · exact parseNameWithArgs_open hd hnamed hb fun h =>
        hclose ((List.rdropWhile_prefix isEnd s).mem h)
  | close s t hargs hs hclose ht =>
    obtain rfl : args = _ := hargs
    have hfollows : Follows (',' :: (t ++ ')' :: strip rest)) := .inr ⟨_, rfl⟩
    refine ⟨(Call.mk marked name (some s)).text ++ ',' :: (t ++ ')' :: strip rest), ?_,
      fun d hd b hb => ?_⟩
    rotate_left
    · by_cases hblank : BlankLast s
      · have hparse := parseNameWithArgs_blank hd hnamed hb hclose hblank
          (',' :: (t ++ ')' :: strip rest))
        refine .inl ?_
        simpa only [Call.text, List.append_assoc, List.cons_append, List.nil_append] using hparse
      have hclosed : (Call.mk marked name (some s)).Closed := fun args hargs => by
        cases hargs
        exact ⟨hs, hclose, hblank⟩
      have hparse :=
        parseNameWithArgs_call (c := ⟨marked, name, some s⟩) hd hnamed hclosed hb hfollows
      exact .inr ⟨_, _, t, strip rest, hparse, fun y hy => (ht y hy).1⟩
    have hfront : '#' ∉ x ++ (name ++ '(' :: (s ++ ')' :: ',' :: t)) := by
      simp only [List.mem_append, List.mem_cons, not_or]
      exact ⟨hx, hcomment, by decide, hs, by decide, by decide, fun h => (ht _ h).2 rfl⟩
    have hstrip := strip_append (s := rest) (c := ')') hfront (by decide) rfl
    simpa only [Call.text, List.append_assoc, List.cons_append, List.nil_append] using hstrip
  | blank s hargs hs hclose hblank =>
    obtain rfl : args = _ := hargs
    refine ⟨_, strip_uncommented (c := ⟨marked, name, some s⟩) hx hnamed (fun args hargs => ?_)
      rest, fun d hd b hb => .inl ?_⟩
    · cases hargs
      exact hs
    · have hparse := parseNameWithArgs_blank hd hnamed hb hclose hblank (strip rest)
      simpa only [Call.text, List.append_assoc, List.cons_append, List.nil_append] using hparse

/-- The action of a call, added to the rule. -/
def perform (c : Call) (activate : Bool) (rule : Rule) : Option Rule :=
  cfg.parseAction c.name c.argList rule activate

variable {cs : List Call}

theorem isBlank_space : ∀ x ∈ [' '], Text.isBlank x = true := by
  decide

theorem item_of_not (h : c.marked = false) : c.item = c.text := by
  rw [Call.item, h]
  rfl

theorem item_of_marked (h : c.marked = true) : c.item = ';' :: c.text := by
  rw [Call.item, h]
  rfl

/-- A call behind a comma is an action on activation. -/
theorem readActivate_cons (hnamed : c.Named) (hclosed : c.Closed) (hmarked : c.marked = false) :
    cfg.readActivate (strip (tail (c :: cs))) rule =
      (perform cfg c true rule).bind (cfg.readActivate (strip (tail cs))) := by
  have hstrip := strip_call (x := [',', ' ']) (by decide) hnamed hclosed (tail cs)
  rw [tail, item_of_not hmarked]
  show cfg.readActivate (strip ([',', ' '] ++ (c.text ++ tail cs))) rule = _
  rw [hstrip]
  show cfg.readActivate (',' :: ([' '] ++ (c.text ++ strip (tail cs)))) rule = _
  rw [readActivate_comma, parseNameWithArgs_call (by decide) hnamed hclosed isBlank_space
    (follows_strip_tail cs)]
  rfl

/-- A text that has other characters in its name is no action. -/
theorem parse_none {s t : Text} {y : Char} (hs : ∀ y ∈ s, endsName d y = false)
    (hy : endsName d y = false) (hy' : y.isAlpha = false) {b : Text}
    (hb : ∀ x ∈ b, Text.isBlank x = true) {β : Type} (f : Rule → Text → Option β) :
    ((parseNameWithArgs d (b ++ (s ++ y :: t))).bind fun r =>
      (cfg.parseAction r.1 r.2.1 rule activate).bind fun rule => f rule r.2.2) = none := by
  cases hparse : parseNameWithArgs d (b ++ (s ++ y :: t)) with
  | none => rfl
  | some r =>
    obtain ⟨name, args, rest⟩ := r
    rw [Option.bind_some, parseAction_of_mem cfg (mem_of_parseNameWithArgs hb hs hy hparse) hy',
      Option.bind_none]

/-- A call with a semicolon is no action behind a comma. -/
theorem readActivate_marked (hmarked : c.marked = true) :
    cfg.readActivate (strip (tail (c :: cs))) rule = none := by
  have hstrip := strip_append (x := [',', ' ']) (c := ';') (s := c.text ++ tail cs) (by decide)
    (by decide) rfl
  rw [tail, item_of_marked hmarked]
  show cfg.readActivate (strip ([',', ' '] ++ ';' :: (c.text ++ tail cs))) rule = _
  rw [hstrip]
  show cfg.readActivate (',' :: ' ' :: ';' :: strip (c.text ++ tail cs)) rule = _
  have hparse (t : Text) :
      parseNameWithArgs ",;\n".toList (' ' :: ';' :: t) = some ([], [], ';' :: t) := by
    simp [parseNameWithArgs, Text.isBlank, endsName]
  rw [readActivate_comma, hparse, Option.bind_some, parseAction_nil, Option.bind_none]

/-- A broken call is no action. -/
theorem readActivate_broken (hnamed : c.Named) (hbroken : c.Broken) (hmarked : c.marked = false) :
    cfg.readActivate (strip (tail (c :: cs))) rule = none := by
  obtain ⟨u, hstrip, hparse⟩ := strip_broken (x := [',', ' ']) (by decide) hnamed hbroken (tail cs)
  rw [tail, item_of_not hmarked]
  show cfg.readActivate (strip ([',', ' '] ++ (c.text ++ tail cs))) rule = _
  rw [hstrip]
  show cfg.readActivate (',' :: ([' '] ++ u)) rule = _
  rw [readActivate_comma]
  rcases hparse ",;\n".toList (by decide) [' '] isBlank_space with
    hnone | ⟨name, args, t, v, hsome, ht⟩
  · rw [hnone, Option.bind_none]
  · rw [hsome, Option.bind_some]
    cases cfg.parseAction name args rule true with
    | none => rfl
    | some rule =>
      -- What is left starts with a name that has a parenthesis in it.
      rw [Option.bind_some, readActivate_comma]
      exact parse_none (b := []) cfg ht (by decide) (by decide) (by simp)
        fun rule rest => cfg.readActivate rest rule

/-- The calls are closed or broken. -/
def Readable (cs : List Call) : Prop := ∀ c ∈ cs, c.Named ∧ (c.Closed ∨ c.Broken)

/-- **Calls behind commas** are the actions on activation, if none has a semicolon. -/
theorem readActivate_tail (hcs : ∀ c ∈ cs, c.Named ∧ c.Closed ∧ c.marked = false) :
    cfg.readActivate (strip (tail cs)) rule =
      cs.foldlM (fun rule c => perform cfg c true rule) rule := by
  induction cs generalizing rule with
  | nil =>
    rw [tail, strip_nil, Config.readActivate]
    rfl
  | cons c cs ih =>
    obtain ⟨⟨hnamed, hclosed, hmarked⟩, hcs⟩ := List.forall_mem_cons.1 hcs
    rw [readActivate_cons cfg hnamed hclosed hmarked, List.foldlM_cons]
    exact congrArg _ (funext fun rule => ih hcs)

/-- Only closed calls without semicolon are read behind commas. -/
theorem readActivate_some {r : Rule} (hcs : Readable cs)
    (h : cfg.readActivate (strip (tail cs)) rule = some r) :
    ∀ c ∈ cs, c.Closed ∧ c.marked = false := by
  induction cs generalizing rule with
  | nil => exact fun c hc => by cases hc
  | cons c cs ih =>
    obtain ⟨⟨hnamed, hclosed⟩, hcs⟩ := List.forall_mem_cons.1 hcs
    cases hmarked : c.marked with
    | true =>
      rw [readActivate_marked cfg hmarked] at h
      cases h
    | false =>
      rcases hclosed with hclosed | hbroken
      · rw [readActivate_cons cfg hnamed hclosed hmarked] at h
        obtain ⟨rule', -, h⟩ := Option.bind_eq_some_iff.1 h
        exact List.forall_mem_cons.2 ⟨⟨hclosed, hmarked⟩, ih hcs h⟩
      · rw [readActivate_broken cfg hnamed hbroken hmarked] at h
        cases h

/-- What is read behind an action on deactivation. -/
def readNext (cs : List Call) (rule : Rule) : Option Rule :=
  match cs with
  | [] => some rule
  | c :: cs => cfg.readDeactivate (strip ([' '] ++ (c.item ++ tail cs))) rule

/-- A call is an action on deactivation. -/
theorem readDeactivate_cons (hnamed : c.Named) (hclosed : c.Closed) (hmarked : c.marked = false)
    {b : Text} (hb : ∀ x ∈ b, Text.isBlank x = true) :
    cfg.readDeactivate (strip (b ++ (c.item ++ tail cs))) rule =
      (perform cfg c false rule).bind (readNext cfg cs) := by
  have hcomment : '#' ∉ b := fun h => absurd (hb _ h) (by decide)
  rw [item_of_not hmarked, strip_call hcomment hnamed hclosed, readDeactivate_eq,
    parseNameWithArgs_call (by decide) hnamed hclosed hb (follows_strip_tail cs), Option.bind_some]
  refine congrArg _ (funext fun rule => ?_)
  cases cs with
  | nil => rfl
  | cons c' cs =>
    have hstrip := strip_append (x := []) (c := ',') (s := ' ' :: (c'.item ++ tail cs))
      List.not_mem_nil (by decide) rfl
    rw [List.nil_append] at hstrip
    rw [tail, hstrip]
    rfl

/-- A call with a semicolon is no action on deactivation. -/
theorem readDeactivate_marked (hmarked : c.marked = true) {b : Text}
    (hb : ∀ x ∈ b, Text.isBlank x = true) :
    cfg.readDeactivate (strip (b ++ (c.item ++ tail cs))) rule = none := by
  have hcomment : '#' ∉ b := fun h => absurd (hb _ h) (by decide)
  rw [item_of_marked hmarked, List.cons_append, strip_append hcomment (by decide) rfl,
    readDeactivate_eq]
  exact parse_none (s := []) cfg (by simp) (by decide) (by decide) hb
    fun rule rest => match rest with
      | [] => some rule
      | _ :: rest => cfg.readDeactivate rest rule

theorem endsName_deactivate {y : Char} (h : endsName ",;\n".toList y = false) :
    endsName ",\n".toList y = false := by
  simp [endsName] at h ⊢
  tauto

/-- A broken call is no action on deactivation. -/
theorem readDeactivate_broken (hnamed : c.Named) (hbroken : c.Broken) (hmarked : c.marked = false)
    {b : Text} (hb : ∀ x ∈ b, Text.isBlank x = true) :
    cfg.readDeactivate (strip (b ++ (c.item ++ tail cs))) rule = none := by
  have hcomment : '#' ∉ b := fun h => absurd (hb _ h) (by decide)
  obtain ⟨u, hstrip, hparse⟩ := strip_broken hcomment hnamed hbroken (tail cs)
  rw [item_of_not hmarked, hstrip, readDeactivate_eq]
  rcases hparse ",\n".toList (by decide) b hb with hnone | ⟨name, args, t, v, hsome, ht⟩
  · rw [hnone, Option.bind_none]
  · rw [hsome, Option.bind_some]
    cases cfg.parseAction name args rule false with
    | none => rfl
    | some rule =>
      rw [Option.bind_some]
      show cfg.readDeactivate (t ++ ')' :: v) rule = none
      rw [readDeactivate_eq]
      exact parse_none (b := []) cfg (fun y hy => endsName_deactivate (ht y hy)) (by decide)
        (by decide) (by simp) fun rule rest => match rest with
          | [] => some rule
          | _ :: rest => cfg.readDeactivate rest rule

/-- **Calls behind a semicolon** are the actions on deactivation, if none has another semicolon. -/
theorem readNext_eq (hcs : ∀ c ∈ cs, c.Named ∧ c.Closed ∧ c.marked = false) :
    readNext cfg cs rule = cs.foldlM (fun rule c => perform cfg c false rule) rule := by
  induction cs generalizing rule with
  | nil => rfl
  | cons c cs ih =>
    obtain ⟨⟨hnamed, hclosed, hmarked⟩, hcs⟩ := List.forall_mem_cons.1 hcs
    rw [readNext, readDeactivate_cons cfg hnamed hclosed hmarked isBlank_space, List.foldlM_cons]
    exact congrArg _ (funext fun rule => ih hcs)

/-- Only closed calls without another semicolon are read behind a semicolon. -/
theorem readNext_some {r : Rule} (hcs : Readable cs) (h : readNext cfg cs rule = some r) :
    ∀ c ∈ cs, c.Closed ∧ c.marked = false := by
  induction cs generalizing rule with
  | nil => exact fun c hc => by cases hc
  | cons c cs ih =>
    obtain ⟨⟨hnamed, hclosed⟩, hcs⟩ := List.forall_mem_cons.1 hcs
    rw [readNext] at h
    cases hmarked : c.marked with
    | true =>
      rw [readDeactivate_marked cfg hmarked isBlank_space] at h
      cases h
    | false =>
      rcases hclosed with hclosed | hbroken
      · rw [readDeactivate_cons cfg hnamed hclosed hmarked isBlank_space] at h
        obtain ⟨rule', -, h⟩ := Option.bind_eq_some_iff.1 h
        exact List.forall_mem_cons.2 ⟨⟨hclosed, hmarked⟩, ih hcs h⟩
      · rw [readDeactivate_broken cfg hnamed hbroken hmarked isBlank_space] at h
        cases h

/-! ### Rules -/

/-- The line of a rule. -/
def ruleLine (cond c : Call) (cs : List Call) : Text :=
  cond.text ++ (" = ".toList ++ (c.item ++ tail cs))

/-- The arguments of a condition have a comment in them, or end before their closing
parenthesis. -/
inductive BrokenCondition (cond : Call) : Prop
  | comment (s t : Text) (hargs : cond.args = some (s ++ '#' :: t)) (hcomment : '#' ∉ s)
      (hclose : ')' ∉ s)
  | close (s : Text) (hargs : cond.args = some (s ++ [')'])) (hcomment : '#' ∉ s)
      (hclose : ')' ∉ s)

variable {cond : Call}

theorem endsName_equals {y : Char} (hy : y.isAlpha = true) : endsName "=".toList y = false := by
  have hne (z : Char) (hz : z.isAlpha = false) : y ≠ z := by
    rintro rfl
    rw [hy] at hz
    cases hz
  simp [endsName, Text.isBlank, hne ' ' (by decide), hne '\t' (by decide), hne '(' (by decide),
    hne '=' (by decide)]

/-- A condition up to the equals sign. -/
theorem parseNameWithArgs_condition (hnamed : cond.Named) (s : Text) :
    parseNameWithArgs "=".toList (cond.name ++ '(' :: s) =
      match parseArgs [] s with
      | none => none
      | some (args, s) => (findDelim "=".toList s).map fun rest => (cond.name, args, rest) := by
  have hparse : parseNameWithArgs "=".toList ([] ++ (cond.name ++ '(' :: s)) = _ :=
    parseNameWithArgs_name (by simp) hnamed.1 (fun y hy => endsName_equals (hnamed.2 y hy))
      fun y hy => by
        cases hy
        exact ⟨by decide, rfl⟩
  rw [List.nil_append] at hparse
  rw [hparse]
  exact if_neg (by decide)

/-- A broken condition is not read. -/
theorem readOption_broken (hnamed : cond.Named) (hbroken : BrokenCondition cond) :
    cfg.readOption (strip (ruleLine cond c cs)) = none := by
  have hcomment : '#' ∉ cond.name := fun h => absurd (hnamed.2 _ h) (by decide)
  suffices h : parseNameWithArgs "=".toList (strip (ruleLine cond c cs)) = none by
    rw [Config.readOption, h]
  obtain ⟨marked, name, args⟩ := cond
  cases hbroken with
  | comment s t hargs hs hclose =>
    obtain rfl : args = _ := hargs
    have hstrip := strip_comment (t := t ++ ([')'] ++ (" = ".toList ++ (c.item ++ tail cs))))
      (c := '(') hcomment (by decide) rfl hs
    rw [ruleLine, Call.text]
    simp only [List.append_assoc, List.cons_append, List.nil_append] at hstrip ⊢
    rw [hstrip]
    rw [parseNameWithArgs_condition hnamed,
      parseArgs_open fun h => hclose ((List.rdropWhile_prefix isEnd s).mem h)]
  | close s hargs hs hclose =>
    obtain rfl : args = _ := hargs
    have hfront : '#' ∉ name ++ '(' :: (s ++ [')']) := by
      simp only [List.mem_append, List.mem_cons, not_or]
      exact ⟨hcomment, by decide, hs, by decide, List.not_mem_nil⟩
    have hstrip := strip_append (s := " = ".toList ++ (c.item ++ tail cs)) (c := ')') hfront
      (by decide) rfl
    rw [ruleLine, Call.text]
    simp only [List.append_assoc, List.cons_append, List.nil_append] at hstrip ⊢
    rw [hstrip, parseNameWithArgs_condition hnamed, parseArgs_closed List.not_mem_nil hclose]
    split_ifs <;> rfl

/-- What is read behind the equals sign. -/
def readValue (cond : Call) (r : Text × List Text × Text) : Option Rule :=
  cfg.readRule cond.name cond.argList r.1 r.2.1 r.2.2

/-- Behind a condition there are a value and its arguments. -/
theorem readOption_closed (hnamed : cond.Named) (hclosed : cond.Closed) (hargs : cond.args ≠ none)
    (hname : String.ofList cond.name ∉ Config.settings) :
    cfg.readOption (strip (ruleLine cond c cs)) =
      ((parseNameWithArgs ",;\n".toList (strip ([' '] ++ (c.item ++ tail cs)))).bind
        (readValue cfg cond)).map .rule := by
  have hstrip := strip_call (x := []) (by simp) hnamed hclosed (" = ".toList ++ (c.item ++ tail cs))
  have hequals := strip_append (x := [' ']) (c := '=') (s := [' '] ++ (c.item ++ tail cs))
    (by decide) (by decide) rfl
  have hparse : parseNameWithArgs "=".toList (strip (ruleLine cond c cs)) =
      some (cond.name, cond.argList, '=' :: strip ([' '] ++ (c.item ++ tail cs))) := by
    rw [ruleLine]
    rw [List.nil_append, List.nil_append] at hstrip
    rw [hstrip]
    show parseNameWithArgs _ (_ ++ strip ([' '] ++ '=' :: ([' '] ++ (c.item ++ tail cs)))) = _
    rw [hequals]
    obtain ⟨marked, name, args⟩ := cond
    cases args with
    | none => exact absurd rfl hargs
    | some args =>
      rw [Call.text, List.append_assoc, List.cons_append, List.append_assoc,
        parseNameWithArgs_condition hnamed, List.singleton_append,
        parseArgs_closed List.not_mem_nil (hclosed args rfl).2.1, List.reverse_nil, List.nil_append,
        if_neg (hclosed args rfl).2.2]
      rfl
  rw [Config.readOption, hparse]
  dsimp only
  rw [List.drop_one, List.tail_cons]
  cases parseNameWithArgs ",;\n".toList (strip ([' '] ++ (c.item ++ tail cs))) with
  | none => rfl
  | some r => exact if_neg hname

/-- A letter is no blank and stays at the end of a line. -/
theorem alpha_spec {y : Char} (hy : y.isAlpha = true) :
    Text.isBlank y = false ∧ isEnd y = false ∧ y ≠ '#' := by
  have hne (z : Char) (hz : z.isAlpha = false) : y ≠ z := by
    rintro rfl
    rw [hy] at hz
    cases hz
  refine ⟨isBlank_of_endsName (endsName_equals hy), ?_, hne '#' (by decide)⟩
  simp [isEnd, hne ' ' (by decide), hne '\r' (by decide), hne '\t' (by decide)]

/-- The tab at the start of a line is dropped. -/
theorem stripLine_tab {y : Char} (hy : y.isAlpha = true) (s : Text) :
    stripLine ('\t' :: y :: s) = strip (y :: s) := by
  obtain ⟨hblank, hend, hcomment⟩ := alpha_spec hy
  have hall : ('\t' :: y :: s).all Text.isBlank ≠ true := by simp [hblank]
  have hdrop : ('\t' :: y :: s).dropWhile Text.isBlank = y :: s := by
    rw [List.dropWhile_cons_of_pos (by rfl)]
    exact List.dropWhile_cons_of_neg (by rw [hblank]; decide)
  have htake : (y :: s).takeWhile (· != '#') = y :: s.takeWhile (· != '#') :=
    List.takeWhile_cons_of_pos (bne_iff_ne.2 hcomment)
  have hends : (y :: s.takeWhile (· != '#')).all isEnd ≠ true := by simp [hend]
  rw [stripLine, if_neg hall, hdrop, strip, htake]
  exact if_neg hends

/-- The call without its semicolon. -/
def Call.unmarked (c : Call) : Call := { c with marked := false }

/-- The text of a call starts with a letter. -/
theorem strip_text (hnamed : c.Named) (rest : Text) :
    ∃ y s, y.isAlpha = true ∧ strip (c.text ++ rest) = y :: s := by
  obtain ⟨marked, name, args⟩ := c
  obtain ⟨y, ys, rfl⟩ := List.exists_cons_of_ne_nil hnamed.1
  have hy : y.isAlpha = true := hnamed.2 y List.mem_cons_self
  obtain ⟨-, hend, hcomment⟩ := alpha_spec hy
  have hcons : ∃ t, Call.text ⟨marked, y :: ys, args⟩ ++ rest = [] ++ y :: t := by
    cases args with
    | none => exact ⟨_, rfl⟩
    | some args => exact ⟨_, rfl⟩
  obtain ⟨t, ht⟩ := hcons
  exact ⟨y, strip t, hy, by rw [ht, strip_append List.not_mem_nil hcomment hend]; rfl⟩

/-- A semicolon starts the actions on deactivation. -/
theorem readActivate_semicolon (hnamed : c.Named) :
    cfg.readActivate (';' :: strip (c.text ++ tail cs)) rule =
      cfg.readDeactivate (strip ([] ++ (c.unmarked.item ++ tail cs))) rule := by
  obtain ⟨y, s, hy, heq⟩ := strip_text hnamed (tail cs)
  have hblank : Text.isBlank y = false := isBlank_of_endsName (endsName_equals hy)
  have hdrop : (y :: s).dropWhile Text.isBlank = y :: s :=
    Text.dropWhile_of_head fun z hz => by
      cases hz
      exact hblank
  rw [Config.readActivate, if_pos rfl, item_of_not rfl]
  show (if (strip (c.text ++ tail cs)).dropWhile Text.isBlank = [] then some rule else
    cfg.readDeactivate ((strip (c.text ++ tail cs)).dropWhile Text.isBlank) rule) =
      cfg.readDeactivate (strip (c.text ++ tail cs)) rule
  rw [heq, hdrop, if_neg (List.cons_ne_nil _ _)]

/-- The first action is one on activation. -/
theorem readValue_closed (hnamed : c.Named) (hclosed : c.Closed) (hmarked : c.marked = false) :
    (parseNameWithArgs ",;\n".toList (strip ([' '] ++ (c.item ++ tail cs)))).bind
        (readValue cfg cond) =
      (cfg.parseCondition cond.name cond.argList).bind fun condition =>
        (perform cfg c true { condition := some condition }).bind
          (cfg.readActivate (strip (tail cs))) := by
  rw [item_of_not hmarked, strip_call (by decide) hnamed hclosed,
    parseNameWithArgs_call (by decide) hnamed hclosed isBlank_space (follows_strip_tail cs),
    Option.bind_some, readValue, Config.readRule]
  cases cfg.parseCondition cond.name cond.argList with
  | none => rfl
  | some condition => exact if_pos (.inl hnamed.1)

/-- The first action is one on deactivation. -/
theorem readValue_marked (hnamed : c.Named) (hmarked : c.marked = true) :
    (parseNameWithArgs ",;\n".toList (strip ([' '] ++ (c.item ++ tail cs)))).bind
        (readValue cfg cond) =
      (cfg.parseCondition cond.name cond.argList).bind fun condition =>
        cfg.readDeactivate (strip ([] ++ (c.unmarked.item ++ tail cs)))
          { condition := some condition } := by
  have hparse (t : Text) :
      parseNameWithArgs ",;\n".toList ([' '] ++ ';' :: t) = some ([], [], ';' :: t) := by
    simp [parseNameWithArgs, Text.isBlank, endsName]
  have hstrip := strip_append (x := [' ']) (c := ';') (s := c.text ++ tail cs) (by decide)
    (by decide) rfl
  rw [item_of_marked hmarked]
  show (parseNameWithArgs _ (strip ([' '] ++ ';' :: (c.text ++ tail cs)))).bind _ = _
  rw [hstrip, hparse, Option.bind_some, readValue, Config.readRule]
  cases cfg.parseCondition cond.name cond.argList with
  | none => rfl
  | some condition =>
    rw [Option.bind_some, ← readActivate_semicolon cfg hnamed]
    exact if_neg (by simp)

/-- A broken call is no first action. -/
theorem readValue_broken (hnamed : c.Named) (hbroken : c.Broken) (hmarked : c.marked = false) :
    (parseNameWithArgs ",;\n".toList (strip ([' '] ++ (c.item ++ tail cs)))).bind
      (readValue cfg cond) = none := by
  obtain ⟨u, hstrip, hparse⟩ := strip_broken (x := [' ']) (by decide) hnamed hbroken (tail cs)
  rw [item_of_not hmarked, hstrip]
  rcases hparse ",;\n".toList (by decide) [' '] isBlank_space with
    hnone | ⟨name, args, t, v, hsome, ht⟩
  · rw [hnone, Option.bind_none]
  · rw [hsome, Option.bind_some, readValue, Config.readRule]
    cases cfg.parseCondition cond.name cond.argList with
    | none => rfl
    | some condition =>
      dsimp only
      rw [if_pos (.inr (by simp))]
      cases cfg.parseAction name args _ true with
      | none => rfl
      | some rule =>
        rw [Option.bind_some, readActivate_comma]
        exact parse_none (b := []) cfg ht (by decide) (by decide) (by simp)
          fun rule rest => cfg.readActivate rest rule

section

variable (hcond : cond.Named) (hargs : cond.args ≠ none)
  (hname : String.ofList cond.name ∉ Config.settings)

include hcond hargs hname

/-- **A line of closed calls** is read as the rule that has all of them on activation, or on
deactivation if the first one has a semicolon. -/
theorem readOption_eq (hclosed : cond.Closed) (hc : c.Named ∧ c.Closed)
    (hcs : ∀ c ∈ cs, c.Named ∧ c.Closed ∧ c.marked = false) :
    cfg.readOption (strip (ruleLine cond c cs)) =
      ((cfg.parseCondition cond.name cond.argList).bind fun condition =>
        (c :: cs).foldlM (fun rule c' => perform cfg c' (!c.marked) rule)
          { condition := some condition }).map .rule := by
  rw [readOption_closed cfg hcond hclosed hargs hname]
  congr 1
  cases hmarked : c.marked with
  | false =>
    rw [readValue_closed cfg hc.1 hc.2 hmarked]
    refine congrArg _ (funext fun condition => ?_)
    rw [List.foldlM_cons]
    exact congrArg _ (funext fun rule => readActivate_tail cfg hcs)
  | true =>
    rw [readValue_marked cfg hc.1 hmarked]
    refine congrArg _ (funext fun condition => ?_)
    rw [List.foldlM_cons]
    refine (readDeactivate_cons cfg (c := c.unmarked) hc.1 hc.2 rfl (by simp)).trans ?_
    exact congrArg _ (funext fun rule => readNext_eq cfg hcs)

/-- Only lines of closed calls, without semicolons behind the first one, are read. -/
theorem readOption_some (hclosed : cond.Closed ∨ BrokenCondition cond) (hcs : Readable (c :: cs))
    {o : Config.OptionLine} (h : cfg.readOption (strip (ruleLine cond c cs)) = some o) :
    cond.Closed ∧ c.Closed ∧ ∀ c ∈ cs, c.Closed ∧ c.marked = false := by
  obtain ⟨⟨hnamed, hc⟩, hcs⟩ := List.forall_mem_cons.1 hcs
  rcases hclosed with hclosed | hbroken
  swap
  · rw [readOption_broken cfg hcond hbroken] at h
    cases h
  rw [readOption_closed cfg hcond hclosed hargs hname] at h
  obtain ⟨r, h, -⟩ := Option.map_eq_some_iff.1 h
  refine ⟨hclosed, ?_⟩
  cases hmarked : c.marked with
  | false =>
    -- the first action is one on activation
    rcases hc with hc | hc
    · rw [readValue_closed cfg hnamed hc hmarked] at h
      obtain ⟨condition, -, h⟩ := Option.bind_eq_some_iff.1 h
      obtain ⟨rule, -, h⟩ := Option.bind_eq_some_iff.1 h
      exact ⟨hc, readActivate_some cfg hcs h⟩
    · rw [readValue_broken cfg hnamed hc hmarked] at h
      cases h
  | true =>
    rw [readValue_marked cfg hnamed hmarked] at h
    obtain ⟨condition, -, h⟩ := Option.bind_eq_some_iff.1 h
    rcases hc with hc | hc
    · rw [readDeactivate_cons cfg (c := c.unmarked) hnamed hc rfl (by simp)] at h
      obtain ⟨rule, -, h⟩ := Option.bind_eq_some_iff.1 h
      exact ⟨hc, readNext_some cfg hcs h⟩
    · have hbroken : c.unmarked.Broken := by
        cases hc with
        | comment s t hargs hcomment hclose => exact .comment s t hargs hcomment hclose
        | close s t hargs hcomment hclose hrest => exact .close s t hargs hcomment hclose hrest
        | blank s hargs hcomment hclose hblank => exact .blank s hargs hcomment hclose hblank
      rw [readDeactivate_broken cfg (c := c.unmarked) hnamed hbroken rfl (by simp)] at h
      cases h

end

/-! ### Characters of a line -/

theorem strip_tail (hcs : ∀ c ∈ cs, c.Named ∧ c.Closed) : strip (tail cs) = tail cs := by
  induction cs with
  | nil => rfl
  | cons c cs ih =>
    obtain ⟨⟨hnamed, hclosed⟩, hcs⟩ := List.forall_mem_cons.1 hcs
    cases hmarked : c.marked with
    | false =>
      have hstrip := strip_call (x := [',', ' ']) (by decide) hnamed hclosed (tail cs)
      rw [ih hcs] at hstrip
      rw [tail, item_of_not hmarked]
      exact hstrip
    | true =>
      have hstrip := strip_call (x := [',', ' ', ';']) (by decide) hnamed hclosed (tail cs)
      rw [ih hcs] at hstrip
      rw [tail, item_of_marked hmarked]
      exact hstrip

/-- A line of closed calls has no comment. -/
theorem strip_ruleLine (hcond : cond.Named ∧ cond.Closed)
    (hcs : ∀ c' ∈ c :: cs, c'.Named ∧ c'.Closed) :
    strip (ruleLine cond c cs) = ruleLine cond c cs := by
  obtain ⟨⟨hnamed, hclosed⟩, hcs⟩ := List.forall_mem_cons.1 hcs
  have hvalue :
      strip (" = ".toList ++ (c.item ++ tail cs)) = " = ".toList ++ (c.item ++ tail cs) := by
    cases hmarked : c.marked with
    | false =>
      have hstrip := strip_call (x := " = ".toList) (by decide) hnamed hclosed (tail cs)
      rw [strip_tail hcs] at hstrip
      rw [item_of_not hmarked]
      exact hstrip
    | true =>
      have hstrip := strip_call (x := " = ;".toList) (by decide) hnamed hclosed (tail cs)
      rw [strip_tail hcs] at hstrip
      rw [item_of_marked hmarked]
      exact hstrip
  have hstrip :=
    strip_call (x := []) (by simp) hcond.1 hcond.2 (" = ".toList ++ (c.item ++ tail cs))
  rw [hvalue] at hstrip
  exact hstrip

/-- The characters of a line are those of the arguments, but for some. -/
theorem forall_ruleLine {P : Char → Prop} (hP : ∀ x ∈ " =,;()".toList, P x)
    (hname : ∀ c' ∈ cond :: c :: cs, ∀ x ∈ c'.name, P x) :
    (∀ x ∈ ruleLine cond c cs, P x) ↔
      ∀ c' ∈ cond :: c :: cs, ∀ args ∈ c'.args, ∀ x ∈ args, P x := by
  have htext (c' : Call) (hc' : ∀ x ∈ c'.name, P x) :
      (∀ x ∈ c'.text, P x) ↔ ∀ args ∈ c'.args, ∀ x ∈ args, P x := by
    obtain ⟨marked, name, args⟩ := c'
    cases args with
    | none => exact ⟨fun _ args hargs => (by cases hargs), fun _ => hc'⟩
    | some args =>
      rw [Call.text]
      simp only [List.forall_mem_append, List.forall_mem_cons]
      constructor
      · rintro ⟨-, -, hargs, -⟩ _ hmem
        cases hmem
        exact hargs
      · intro hargs
        exact ⟨hc', hP _ (by decide), hargs _ rfl, hP _ (by decide), by simp⟩
  have hitem (c' : Call) (hc' : ∀ x ∈ c'.name, P x) :
      (∀ x ∈ c'.item, P x) ↔ ∀ args ∈ c'.args, ∀ x ∈ args, P x := by
    rw [← htext c' hc', Call.item]
    split_ifs
    · rw [List.forall_mem_cons, and_iff_right (hP _ (by decide))]
    · rfl
  have htail (cs : List Call) (hcs : ∀ c' ∈ cs, ∀ x ∈ c'.name, P x) :
      (∀ x ∈ tail cs, P x) ↔ ∀ c' ∈ cs, ∀ args ∈ c'.args, ∀ x ∈ args, P x := by
    induction cs with
    | nil => exact ⟨fun _ _ h => (by cases h), fun _ _ h => (by cases h)⟩
    | cons c' cs ih =>
      obtain ⟨hc', hcs⟩ := List.forall_mem_cons.1 hcs
      rw [tail, List.forall_mem_cons, List.forall_mem_cons, List.forall_mem_append, hitem c' hc',
        ih hcs, and_iff_right (hP _ (by decide)), and_iff_right (hP _ (by decide)),
        List.forall_mem_cons]
  obtain ⟨hcond, hcs⟩ := List.forall_mem_cons.1 hname
  obtain ⟨hc, hcs⟩ := List.forall_mem_cons.1 hcs
  rw [ruleLine, List.forall_mem_append, List.forall_mem_append, List.forall_mem_append,
    htext cond hcond, hitem c hc, htail cs hcs, List.forall_mem_cons, List.forall_mem_cons]
  have hequals : ∀ x ∈ " = ".toList, P x := fun x hx => hP x (by revert x; decide)
  exact and_congr_right fun _ => and_iff_right hequals

/-! ### Effects of calls -/

/-- The call is read as the effect. -/
def Reads (c : Call) (e : Effect) : Prop :=
  ∀ rule activate, perform cfg c activate rule = some (adopt rule e activate)

variable {cfg} {e : Effect} {es : List Effect}

theorem Reads.release_eq (h : Reads cfg c e) : e.release = releases c.name := by
  rcases adopts_parseAction cfg c.name c.argList with hnone | ⟨e', hrelease, heq⟩
  · have hread := h { condition := none } true
    rw [perform, hnone] at hread
    cases hread
  · have hread := h { condition := none } true
    rw [perform, heq] at hread
    rw [← hrelease]
    obtain ⟨action, release⟩ := e
    obtain ⟨action', release'⟩ := e'
    cases release <;> cases release' <;> simp_all [adopt, InputFilter.Rule.adoptAction]

/-- Calls that are read add their effects one after the other. -/
theorem foldlM_of_reads (h : List.Forall₂ (Reads cfg) cs es) (rule : Rule) :
    cs.foldlM (fun rule c => perform cfg c activate rule) rule =
      some (es.foldl (fun rule e => adopt rule e activate) rule) := by
  induction h generalizing rule with
  | nil => rfl
  | cons hread _ ih => rw [List.foldlM_cons, hread rule activate, List.foldl_cons, ← ih]; rfl

/-- Calls that can be read have effects. -/
theorem reads_of_foldlM {r : Rule}
    (h : cs.foldlM (fun rule c => perform cfg c activate rule) rule = some r) :
    ∃ es, List.Forall₂ (Reads cfg) cs es ∧
      r = es.foldl (fun rule e => adopt rule e activate) rule := by
  induction cs generalizing rule with
  | nil =>
    cases h
    exact ⟨[], .nil, rfl⟩
  | cons c cs ih =>
    rw [List.foldlM_cons] at h
    obtain ⟨rule', hperform, h⟩ := Option.bind_eq_some_iff.1 h
    rcases adopts_parseAction cfg c.name c.argList with hnone | ⟨e, -, heq⟩
    · rw [perform, hnone] at hperform
      cases hperform
    · rw [perform, heq] at hperform
      cases hperform
      obtain ⟨es, hes, rfl⟩ := ih h
      exact ⟨e :: es, .cons heq hes, rfl⟩

theorem adopt_condition : (adopt rule e activate).condition = rule.condition := by
  unfold adopt InputFilter.Rule.adoptAction
  split_ifs <;> rfl

theorem foldl_adopt_condition :
    (es.foldl (fun rule e => adopt rule e activate) rule).condition = rule.condition := by
  induction es generalizing rule with
  | nil => rfl
  | cons e es ih => rw [List.foldl_cons, ih, adopt_condition]

/-- What is done when the effects are added for activation. -/
theorem foldl_adopt_activate :
    (es.foldl (fun rule e => adopt rule e true) rule).activateActions =
      rule.activateActions ++ es.map Effect.action ∧
    (es.foldl (fun rule e => adopt rule e true) rule).deactivateActions =
      rule.deactivateActions ++ (es.filter Effect.release).map fun e => released e.action := by
  induction es generalizing rule with
  | nil => simp
  | cons e es ih =>
    rw [List.foldl_cons, ih.1, ih.2]
    cases hrelease : e.release <;> simp [adopt, hrelease, InputFilter.Rule.adoptAction]

/-- What is done when they are added for deactivation. -/
theorem foldl_adopt_deactivate :
    (es.foldl (fun rule e => adopt rule e false) rule).activateActions =
      rule.activateActions ++ (es.filter Effect.release).map Effect.action ∧
    (es.foldl (fun rule e => adopt rule e false) rule).deactivateActions =
      rule.deactivateActions ++
        es.map fun e => if e.release then released e.action else e.action := by
  induction es generalizing rule with
  | nil => simp
  | cons e es ih =>
    rw [List.foldl_cons, ih.1, ih.2]
    cases hrelease : e.release <;> simp [adopt, hrelease, InputFilter.Rule.adoptAction]

end RuleText

end InputLeap
