import InputLeap.Config.Basic
import InputLeap.Config.KeyMap

/-!
# Reading the options of a configuration

A line of the `options` section is a setting or a rule of the input filter.  What the value of a
setting means is left out here.

## Main definitions

* `ConfigReadContext.stripLine`, `parseNameWithArgs`, `parseKeystroke`, ... : the parts of a line.
* `Config.parseCondition`, `Config.parseAction` : conditions and actions.
* `Config.readOption`, `Config.readSectionOptions` : a line, and the lines of the section.
-/

namespace InputLeap

open InputFilter (Action Condition KeyInfo Rule)

namespace ConfigReadContext

/-! ### Lines -/

/-- The line without leading blanks, its comment and trailing blanks.  A line of blanks only keeps
them. -/
def stripLine (line : Text) : Text :=
  let line := if line.all Text.isBlank then line else line.dropWhile Text.isBlank
  let line := line.takeWhile (· != '#')
  let isEnd (c : Char) : Bool := c == ' ' || c == '\r' || c == '\t'
  if line.all isEnd then line else line.rdropWhile isEnd

/-- The characters that a line may have. -/
def isValid (c : Char) : Bool := KeyMap.isGraph c || c == ' ' || c == '\t'

/-! ### Names and arguments -/

/-- An argument without the blanks around it; one of blanks only keeps them. -/
def trimArg (arg : Text) : Text := if arg.all Text.isBlank then arg else Text.trim arg

/-- The arguments up to the closing parenthesis, and what is behind it.  The characters of the
current argument are in `arg`, the last one first.  The last argument may not be blank. -/
def parseArgs : Text → Text → Option (List Text × Text)
  | _, [] => none
  | arg, c :: s =>
    if c = ')' then
      -- trimming a blank argument loses the position of the parenthesis
      if arg.all Text.isBlank then none else some ([trimArg arg.reverse], s)
    else if c = ',' then (parseArgs [] s).map fun r => (trimArg arg.reverse :: r.1, r.2)
    else parseArgs (c :: arg) s

/-- The character ends a name. -/
def endsName (delim : Text) (c : Char) : Bool := Text.isBlank c || c == '(' || delim.contains c

/-- The delimiter may not be missing: the end of the line is not among them. -/
def needsDelim (delim : Text) : Bool := !delim.isEmpty && !delim.contains '\n'

/-- The text from the delimiter on. -/
def findDelim (delim s : Text) : Option Text :=
  match s.dropWhile Text.isBlank with
  | [] => if needsDelim delim then none else some []
  | d :: s => if needsDelim delim && !delim.contains d then none else some (d :: s)

/-- A name and its arguments, and the text from the delimiter on. -/
def parseNameWithArgs (delim line : Text) : Option (Text × List Text × Text) :=
  let s := line.dropWhile Text.isBlank
  if s = [] then none
  else
    let name := s.takeWhile (!endsName delim ·)
    match (s.dropWhile (!endsName delim ·)).dropWhile Text.isBlank with
    | [] => if needsDelim delim then none else some (name, [], [])
    | c :: s =>
      if c ≠ '(' then some (name, [], c :: s)
      else
        match parseArgs [] s with
        | none => none
        | some (args, s) => (findDelim delim s).map fun rest => (name, args, rest)

/-! ### Values -/

/-- `IKeyState::KeyInfo::join`: the screens between colons, or all of them. -/
def join (screens : Std.TreeSet String) : String := KeyInfo.joinNames screens.toList ""

/-- The key and the modifiers of a keystroke. -/
def parseKeystroke (keystroke : Text) (screens : Std.TreeSet String) : Option KeyInfo :=
  match KeyMap.parseModifiers keystroke with
  | none => none
  | some (mask, s) =>
    match KeyMap.parseKey s with
    | none => none
    | some key =>
      if key = 0 ∧ mask = 0 then none else some ⟨key, mask, 0, 0, join screens⟩

/-- The button and the modifiers of a click. -/
def parseMouse (mouse : Text) : Option (ℕ × ℕ) :=
  match KeyMap.parseModifiers mouse with
  | none => none
  | some (mask, s) =>
    let (v, rest) := Text.strtol 10 s
    let button := (v % 2 ^ 8).toNat
    if rest ≠ [] then none
    else if s = [] ∨ button = 0 then none
    else some (button, mask)

end ConfigReadContext

namespace Config

open ConfigReadContext

variable (cfg : Config)

/-- The names of screens between colons; `*` stands for all screens. -/
def parseScreens (s : Text) : Option (Std.TreeSet String) :=
  (Text.splitOn ':' s).foldlM (fun screens part =>
    let rawName := String.ofList (Text.trim part)
    if rawName = "*" then some (screens.insert "*")
    else if rawName = "" then some screens
    else
      let name := cfg.getCanonicalName rawName
      if name = "" then none else some (screens.insert name)) ∅

/-- When a rule acts. -/
def parseCondition (name : Text) (args : List Text) : Option Condition :=
  if name = "keystroke".toList then
    match args with
    | [arg] => (parseKeystroke arg ∅).map fun info => .keystroke info.key info.mask
    | _ => none
  else if name = "mousebutton".toList then
    match args with
    | [arg] => (parseMouse arg).map fun info => .mouseButton info.1 info.2
    | _ => none
  else if name = "connect".toList then
    match args with
    | [arg] =>
      let screen := String.ofList arg
      if cfg.isScreen screen then some (.screenConnected (cfg.getCanonicalName screen))
      else if screen = "" then some (.screenConnected "")
      else none
    | _ => none
  else none

/-- The keys of an action, and the screens they are for. -/
def parseKeyInfo : List Text → Option KeyInfo
  | [keys] => parseKeystroke keys ∅
  | [keys, screens] => (cfg.parseScreens screens).bind (parseKeystroke keys)
  | _ => none

/-- The mode of an action; `toggle` if it has none. -/
def parseMode : List Text → Option InputFilter.Mode
  | [] => some .toggle
  | arg :: _ =>
    if arg = "off".toList then some .off
    else if arg = "on".toList then some .on
    else if arg = "toggle".toList then some .toggle
    else none

/-- The direction of a switch. -/
def parseDirection (arg : Text) : Option Direction :=
  if arg = "left".toList then some .left
  else if arg = "right".toList then some .right
  else if arg = "up".toList then some .top
  else if arg = "down".toList then some .bottom
  else none

/-- Adds an action to a rule.  One that presses and releases presses when the rule is activated
and releases when it is deactivated, whatever `activate` says. -/
def parseAction (name : Text) (args : List Text) (rule : Rule) (activate : Bool) : Option Rule :=
  if name = "keystroke".toList then
    (cfg.parseKeyInfo args).map fun info =>
      (rule.adoptAction (.keystroke info true) true).adoptAction (.keystroke info false) false
  else if name = "keyDown".toList then
    (cfg.parseKeyInfo args).map fun info => rule.adoptAction (.keystroke info true) activate
  else if name = "keyUp".toList then
    (cfg.parseKeyInfo args).map fun info => rule.adoptAction (.keystroke info false) activate
  else if name = "mousebutton".toList then
    match args with
    | [arg] =>
      (parseMouse arg).map fun info =>
        (rule.adoptAction (.mouseButton info.1 info.2 true) true).adoptAction
          (.mouseButton info.1 info.2 false) false
    | _ => none
  else if name = "mouseDown".toList then
    match args with
    | [arg] =>
      (parseMouse arg).map fun info => rule.adoptAction (.mouseButton info.1 info.2 true) activate
    | _ => none
  else if name = "mouseUp".toList then
    match args with
    | [arg] =>
      (parseMouse arg).map fun info => rule.adoptAction (.mouseButton info.1 info.2 false) activate
    | _ => none
  else if name = "switchToScreen".toList then
    match args with
    | [arg] =>
      let screen := String.ofList arg
      if cfg.isScreen screen then
        some (rule.adoptAction (.switchToScreen (cfg.getCanonicalName screen)) activate)
      else if screen = "" then some (rule.adoptAction (.switchToScreen "") activate)
      else none
    | _ => none
  else if name = "toggleScreen".toList then some (rule.adoptAction .toggleScreen activate)
  else if name = "switchInDirection".toList then
    match args with
    | [arg] =>
      (parseDirection arg).map fun dir => rule.adoptAction (.switchInDirection dir) activate
    | _ => none
  else if name = "lockCursorToScreen".toList then
    if args.length ≤ 1 then
      (parseMode args).map fun mode => rule.adoptAction (.lockCursorToScreen mode) activate
    else none
  else if name = "keyboardBroadcast".toList then
    match parseMode args, args with
    | some mode, [_, screens] =>
      (cfg.parseScreens screens).map fun screens =>
        rule.adoptAction (.keyboardBroadcast mode (join screens)) activate
    | some mode, _ =>
      if args.length ≤ 1 then some (rule.adoptAction (.keyboardBroadcast mode (join ∅)) activate)
      else none
    | none, _ => none
  else none

/-! ### Rules -/

theorem length_parseArgs_le {arg s : Text} {args : List Text} {rest : Text}
    (h : parseArgs arg s = some (args, rest)) : rest.length ≤ s.length := by
  induction s generalizing arg args with
  | nil => cases h
  | cons c s ih =>
    simp only [parseArgs] at h
    split_ifs at h with hclose hblank hcomma
    · cases h
      exact Nat.le_succ _
    · obtain ⟨⟨args', rest'⟩, hargs, heq⟩ := Option.map_eq_some_iff.1 h
      cases heq
      exact Nat.le_succ_of_le (ih hargs)
    · exact Nat.le_succ_of_le (ih h)

theorem length_findDelim_le {delim s rest : Text} (h : findDelim delim s = some rest) :
    rest.length ≤ s.length := by
  have hle := KeyMap.length_dropWhile_le Text.isBlank s
  unfold findDelim at h
  generalize s.dropWhile Text.isBlank = t at h hle
  cases t with
  | nil =>
    dsimp only at h
    split_ifs at h
    cases h
    exact Nat.zero_le _
  | cons d t =>
    dsimp only at h
    split_ifs at h
    cases h
    exact hle

theorem length_parseNameWithArgs_le {delim line name : Text} {args : List Text} {rest : Text}
    (h : parseNameWithArgs delim line = some (name, args, rest)) :
    rest.length ≤ line.length := by
  unfold parseNameWithArgs at h
  have hline := KeyMap.length_dropWhile_le Text.isBlank line
  generalize line.dropWhile Text.isBlank = s at h hline
  have hdrop := (KeyMap.length_dropWhile_le Text.isBlank (s.dropWhile (!endsName delim ·))).trans
    (KeyMap.length_dropWhile_le (!endsName delim ·) s)
  dsimp only at h
  by_cases hs : s = []
  · rw [if_pos hs] at h
    cases h
  rw [if_neg hs] at h
  generalize (s.dropWhile (!endsName delim ·)).dropWhile Text.isBlank = t at h hdrop
  cases t with
  | nil =>
    dsimp only at h
    split_ifs at h
    cases h
    exact Nat.zero_le _
  | cons c t =>
    dsimp only at h
    by_cases hopen : c ≠ '('
    · rw [if_pos hopen] at h
      cases h
      exact hdrop.trans hline
    rw [if_neg hopen] at h
    rcases hargs : parseArgs [] t with - | ⟨args', u⟩
    · rw [hargs] at h
      cases h
    · rw [hargs] at h
      obtain ⟨rest', hfind, heq⟩ := Option.map_eq_some_iff.1 h
      cases heq
      have hle := (length_findDelim_le hfind).trans (length_parseArgs_le hargs)
      rw [List.length_cons] at hdrop
      omega

/-- The actions on deactivation from here on. -/
def readDeactivate (line : Text) (rule : Rule) : Option Rule :=
  match _hparse : parseNameWithArgs ",\n".toList line with
  | none => none
  | some (value, args, rest) =>
    match cfg.parseAction value args rule false with
    | none => none
    | some rule =>
      match rest with
      | [] => some rule
      | _ :: rest => readDeactivate rest rule
termination_by line.length
decreasing_by
  have hle := length_parseNameWithArgs_le _hparse
  rw [List.length_cons] at hle
  omega

/-- The actions on activation behind the first one, and those on deactivation behind the
semicolon, which may be missing. -/
def readActivate (line : Text) (rule : Rule) : Option Rule :=
  match line with
  | [] => some rule
  | c :: line =>
    if c = ';' then
      let line := line.dropWhile Text.isBlank
      if line = [] then some rule else cfg.readDeactivate line rule
    else
      match _hparse : parseNameWithArgs ",;\n".toList line with
      | none => none
      | some (value, args, rest) =>
        match cfg.parseAction value args rule true with
        | none => none
        | some rule => readActivate rest rule
termination_by line.length
decreasing_by
  have hle := length_parseNameWithArgs_le _hparse
  rw [List.length_cons]
  omega

/-- The rule on a line with the condition and the first value. -/
def readRule (name : Text) (nameArgs : List Text) (value : Text) (valueArgs : List Text)
    (line : Text) : Option Rule :=
  match cfg.parseCondition name nameArgs with
  | none => none
  | some condition =>
    let rule : Rule := { condition := some condition }
    if value ≠ [] ∨ line.head? ≠ some ';' then
      (cfg.parseAction value valueArgs rule true).bind (cfg.readActivate line)
    else cfg.readActivate line rule

/-- What a line of the section is. -/
inductive OptionLine
  | setting (name value : Text)
  | rule (r : Rule)
  deriving DecidableEq

/-- The settings of the section. -/
def settings : List String :=
  ["address", "heartbeat", "switchCorners", "switchCornerSize", "switchDelay", "switchDoubleTap",
    "switchNeedsShift", "switchNeedsControl", "switchNeedsAlt", "screenSaverSync",
    "relativeMouseMoves", "win32KeepForeground", "clipboardSharing", "clipboardSharingSize"]

/-- Reads a line of the `options` section; `none` is `XConfigRead`. -/
def readOption (line : Text) : Option OptionLine :=
  match parseNameWithArgs "=".toList line with
  | none => none
  | some (name, nameArgs, line) =>
    match parseNameWithArgs ",;\n".toList (line.drop 1) with
    | none => none
    | some (value, valueArgs, line) =>
      if String.ofList name ∈ settings then
        -- A setting has one value.
        if line.head? = some ',' ∨ line.head? = some ';' then none else some (.setting name value)
      else (cfg.readRule name nameArgs value valueArgs line).map .rule

/-- Reads the lines of the section up to its end, which may not be missing. -/
def readSectionOptions : List Text → Option (List OptionLine)
  | [] => none
  | line :: lines =>
    let line := stripLine line
    if line = [] then readSectionOptions lines
    else if !line.all isValid then none
    else if line = "end".toList then some []
    else
      match cfg.readOption line with
      | none => none
      | some option => (readSectionOptions lines).map (option :: ·)

end Config

end InputLeap
