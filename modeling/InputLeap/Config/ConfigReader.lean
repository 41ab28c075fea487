import InputLeap.Config.RuleReader
import InputLeap.Config.ScreenNames

/-!
# Reading a configuration

`Config::read` reads sections line by line.  The lines of a section are read up to one that says
`end`.

Numbers of the floating point kind are read, and an address is resolved, by functions that are
parameters here.

## Main definitions

* `ConfigReadContext.readLine` : the next line that is not empty.
* `ConfigReadContext.parseBoolean`, `parseCorners`, `parseInterval`, ... : the values of settings.
* `Config.readScreensLine`, `readLinksLine`, `readAliasesLine`, `readOptionsLine` : the lines of the
  sections.
* `ConfigReadContext.readLines` : the loop over the lines of a section.
* `Config.readText` : the whole text.
-/

namespace InputLeap

namespace ConfigReadContext

/-! ### Lines -/

/-- The lines that `std::getline` finds in a text. -/
def getLines (text : Text) : List Text :=
  let parts := Text.splitOn '\n' text
  if parts.getLast? = some [] then parts.dropLast else parts

/-- The next line that is not empty, and those behind it; `some none` if there is none, and `none`
is `XConfigRead`. -/
def readLine : List Text → Option (Option (Text × List Text))
  | [] => some none
  | line :: lines =>
    let line := stripLine line
    if line = [] then readLine lines
    else if line.all isValid then some (some (line, lines))
    else none

theorem length_lt_of_readLine {line : Text} {lines rest : List Text}
    (h : readLine lines = some (some (line, rest))) : rest.length < lines.length := by
  induction lines with
  | nil => cases h
  | cons first lines ih =>
    rw [readLine] at h
    split_ifs at h
    · exact Nat.lt_succ_of_lt (ih h)
    · cases h
      exact Nat.lt_succ_self _

/-- Reads the lines of a section up to its end, which may not be missing. -/
def readLines {σ : Type*} (readLineOf : σ → Text → Option σ) (s : σ) (lines : List Text) :
    Option (σ × List Text) :=
  match _hline : readLine lines with
  | none => none
  | some none => none
  | some (some (line, rest)) =>
    if line = "end".toList then some (s, rest)
    else
      match readLineOf s line with
      | none => none
      | some s => readLines readLineOf s rest
termination_by lines.length
decreasing_by exact length_lt_of_readLine _hline

/-! ### Values -/

/-- The value of a name, whose case does not matter. -/
def lookup (names : List (String × ℤ)) (arg : Text) : Option ℤ :=
  (names.find? fun entry => CaselessCmp.equal (String.ofList arg) entry.1).map Prod.snd

def parseBoolean (arg : Text) : Option ℤ := lookup [("true", 1), ("false", 0)] arg

/-- A number that fits in 32 bits. -/
def parseInt (arg : Text) : Option ℤ :=
  let (value, rest) := Text.strtol 10 arg
  if rest ≠ [] then none else if -2 ^ 31 ≤ value ∧ value < 2 ^ 31 then some value else none

def parseModifierKey (arg : Text) : Option ℤ :=
  lookup [("shift", 1), ("ctrl", 2), ("alt", 3), ("altgr", 6), ("meta", 4), ("super", 5),
    ("none", 0)] arg

/-- The masks of the corners. -/
def parseCorner (arg : Text) : Option (BitVec 32) :=
  (lookup [("left", 5), ("right", 10), ("top", 3), ("bottom", 12), ("top-left", 1),
    ("top-right", 2), ("bottom-left", 4), ("bottom-right", 8), ("none", 0), ("all", 15)] arg).map
    (BitVec.ofInt 32)

/-- The corners behind the first ones: each is added or taken away. -/
def cornersLoop (corners : BitVec 32) (args : Text) : Option (BitVec 32) :=
  match _hargs : args.dropWhile Text.isBlank with
  | [] => some corners
  | op :: args' =>
    if op ≠ '-' ∧ op ≠ '+' then none
    else
      let token := args'.dropWhile Text.isBlank
      if token = [] then none
      else
        match parseCorner (token.takeWhile (!Text.isBlank ·)) with
        | none => none
        | some corner =>
          cornersLoop (if op = '+' then corners ||| corner else corners &&& ~~~corner)
            (token.dropWhile (!Text.isBlank ·))
termination_by args.length
decreasing_by
  have hargs := KeyMap.length_dropWhile_le Text.isBlank args
  have htoken := KeyMap.length_dropWhile_le Text.isBlank args'
  have hrest := KeyMap.length_dropWhile_le (!Text.isBlank ·) (args'.dropWhile Text.isBlank)
  rw [_hargs, List.length_cons] at hargs
  omega

def parseCorners (args : Text) : Option ℤ :=
  let token := args.dropWhile Text.isBlank
  if token = [] then none
  else
    match parseCorner (token.takeWhile (!Text.isBlank ·)) with
    | none => none
    | some corner => (cornersLoop corner (token.dropWhile (!Text.isBlank ·))).map BitVec.toInt

end ConfigReadContext

open ConfigReadContext

/-- What is not part of the program: the number at the start of a text and what is behind it
(`strtod`), the nearest number of type `float`, and the address of a host. -/
structure ConfigReadEnv (α : Type*) where
  strtod : Text → ℚ × Text
  toFloat : ℚ → ℚ
  /-- `NetworkAddress`, which throws if it cannot be resolved. -/
  resolve : Text → Option α

/-- The configuration with the address to listen at, if there is one. -/
structure ListeningConfig (α : Type*) extends Config where
  listenAddress : Option α := none

namespace ConfigReadContext

variable {α : Type*} (env : ConfigReadEnv α)

/-- Part of an edge, in per cent; the whole edge if it is not given. -/
def parseInterval (args : List Text) : Option (ℚ × ℚ) :=
  match args with
  | [] => some (0, 1)
  | [start, stop] =>
    if start = [] ∨ stop = [] then none
    else
      let (startValue, startRest) := env.strtod start
      let (endValue, endRest) := env.strtod stop
      if startRest ≠ [] ∨ endRest ≠ [] then none
      else if startValue < 0 ∨ 100 < startValue ∨ endValue < 0 ∨ 100 < endValue ∨
          endValue ≤ startValue then none
      else some (env.toFloat (startValue / 100), env.toFloat (endValue / 100))
  | _ => none

/-- `name = value`. -/
def readArgument (line : Text) : Option (Text × Text) :=
  let endsArgument (c : Char) : Bool := Text.isBlank c || c == '='
  let name := line.takeWhile (!endsArgument ·)
  if name = [] then none
  else
    match (line.dropWhile (!endsArgument ·)).dropWhile Text.isBlank with
    | '=' :: value => some (name, value.dropWhile Text.isBlank)
    | _ => none

/-- The name of a screen, if the line ends with a colon. -/
def screenHeader (line : Text) : Option Text :=
  if line.getLast? = some ':' then some line.dropLast else none

/-- The name of a section. -/
def sectionName (line : Text) : Option Text :=
  if "section:".toList.isPrefixOf line then
    let name := (line.drop "section:".length).dropWhile Text.isBlank
    if name = [] ∨ name.any Text.isBlank then none else some name
  else none

end ConfigReadContext

namespace Config

variable {α : Type*} (env : ConfigReadEnv α)

/-- Sets an option of a screen, or a global one. -/
def addOption (cfg : Config) (name : String) (option : OptionID) (value : ℤ) : Config :=
  if name = "" then cfg.addGlobalOption option value
  else
    match cfg.map[name]? with
    | none => cfg
    | some cell => cfg.setCell name { cell with options := cell.options.insert option value }

/-- The settings of the `options` section that are options, and how their values are read. -/
def globalSettings : List (String × OptionID × (Text → Option ℤ)) :=
  [("heartbeat", .heartbeat, parseInt), ("switchCorners", .screenSwitchCorners, parseCorners),
    ("switchCornerSize", .screenSwitchCornerSize, parseInt),
    ("switchDelay", .screenSwitchDelay, parseInt),
    ("switchDoubleTap", .screenSwitchTwoTap, parseInt),
    ("switchNeedsShift", .screenSwitchNeedsShift, parseBoolean),
    ("switchNeedsControl", .screenSwitchNeedsControl, parseBoolean),
    ("switchNeedsAlt", .screenSwitchNeedsAlt, parseBoolean),
    ("screenSaverSync", .screenSaverSync, parseBoolean),
    ("relativeMouseMoves", .relativeMouseMoves, parseBoolean),
    ("win32KeepForeground", .win32KeepForeground, parseBoolean),
    ("clipboardSharing", .clipboardSharing, parseBoolean),
    ("clipboardSharingSize", .clipboardSharingSize, parseInt)]

/-- The arguments of a screen, and how their values are read. -/
def screenSettings : List (String × OptionID × (Text → Option ℤ)) :=
  [("halfDuplexCapsLock", .halfDuplexCapsLock, parseBoolean),
    ("halfDuplexNumLock", .halfDuplexNumLock, parseBoolean),
    ("halfDuplexScrollLock", .halfDuplexScrollLock, parseBoolean),
    ("shift", .modifierMapForShift, parseModifierKey),
    ("ctrl", .modifierMapForControl, parseModifierKey),
    ("alt", .modifierMapForAlt, parseModifierKey),
    ("altgr", .modifierMapForAltGr, parseModifierKey),
    ("meta", .modifierMapForMeta, parseModifierKey),
    ("super", .modifierMapForSuper, parseModifierKey),
    ("xtestIsXineramaUnaware", .xTestXineramaUnaware, parseBoolean),
    ("switchCorners", .screenSwitchCorners, parseCorners),
    ("switchCornerSize", .screenSwitchCornerSize, parseInt),
    ("preserveFocus", .screenPreserveFocus, parseBoolean)]

/-- Reads the value of a setting and sets its option. -/
def readSetting (settings : List (String × OptionID × (Text → Option ℤ))) (cfg : Config)
    (screen : String) (name value : Text) : Option Config :=
  match settings.find? fun setting => setting.1 == String.ofList name with
  | none => none
  | some (_, option, parse) => (parse value).map fun value => cfg.addOption screen option value

/-- The action locks the cursor to the screen, or may. -/
def locksToScreen : InputFilter.Action → Bool
  | .lockCursorToScreen mode => mode != .off
  | _ => false

/-- Adds a rule behind the others. -/
def adoptRule (cfg : Config) (rule : InputFilter.Rule) : Config :=
  { cfg with
    inputFilterRules := cfg.inputFilterRules ++ [rule]
    hasLockToScreenAction := cfg.hasLockToScreenAction ||
      (rule.activateActions ++ rule.deactivateActions).any locksToScreen }

/-! ### The lines of the sections -/

/-- A line of the `options` section. -/
def readOptionsLine (cfg : ListeningConfig α) (line : Text) : Option (ListeningConfig α) :=
  match cfg.readOption line with
  | none => none
  | some (.setting name value) =>
    if name = "address".toList then
      (env.resolve value).map fun address => { cfg with listenAddress := some address }
    else
      (readSetting globalSettings cfg.toConfig "" name value).map
        fun c => { cfg with toConfig := c }
  | some (.rule rule) => some { cfg with toConfig := cfg.adoptRule rule }

/-- A line of the `screens` section, with the screen whose arguments are read. -/
def readScreensLine (s : Config × String) (line : Text) : Option (Config × String) :=
  match screenHeader line with
  | some screen =>
    if !isValidScreenName screen then none
    else (s.1.addScreen (String.ofList screen)).map (·, String.ofList screen)
  | none =>
    if s.2 = "" then none
    else
      match readArgument line with
      | none => none
      | some (name, value) => (readSetting screenSettings s.1 s.2 name value).map (·, s.2)

/-- The line that says whose links or aliases follow. -/
def readKnownScreen (cfg : Config) (screen : Text) : Option (Config × String) :=
  if !cfg.isScreen (String.ofList screen) then none
  else if !cfg.isCanonicalName (String.ofList screen) then none
  else some (cfg, String.ofList screen)

/-- A line of the `links` section, with the screen whose links are read. -/
def readLinksLine (s : Config × String) (line : Text) : Option (Config × String) :=
  match screenHeader line with
  | some screen => readKnownScreen s.1 screen
  | none =>
    if s.2 = "" then none
    else
      match parseNameWithArgs "=".toList line with
      | none => none
      | some (side, srcArgs, rest) =>
        match parseNameWithArgs [] (rest.drop 1) with
        | none => none
        | some (dstScreen, dstArgs, _) =>
          match parseInterval env srcArgs, parseInterval env dstArgs, parseDirection side with
          | some src, some dst, some dir =>
            if !s.1.isScreen (String.ofList dstScreen) then none
            else (s.1.connect s.2 dir src (String.ofList dstScreen) dst).map (·, s.2)
          | _, _, _ => none

/-- A line of the `aliases` section, with the screen whose aliases are read. -/
def readAliasesLine (s : Config × String) (line : Text) : Option (Config × String) :=
  match screenHeader line with
  | some screen => readKnownScreen s.1 screen
  | none =>
    if s.2 = "" then none
    else if !isValidScreenName line then none
    else (s.1.addAlias s.2 (String.ofList line)).map (·, s.2)

/-! ### Sections -/

/-- Reads the lines of a section that is about screens. -/
def readScreenSection (readLineOf : Config × String → Text → Option (Config × String))
    (cfg : ListeningConfig α) (lines : List Text) : Option (ListeningConfig α × List Text) :=
  (readLines readLineOf (cfg.toConfig, "") lines).map
    fun r => ({ cfg with toConfig := r.1.1 }, r.2)

/-- Reads the section that a line begins. -/
def readSection (cfg : ListeningConfig α) (line : Text) (lines : List Text) :
    Option (ListeningConfig α × List Text) :=
  match sectionName line with
  | none => none
  | some name =>
    if name = "options".toList then readLines (readOptionsLine env) cfg lines
    else if name = "screens".toList then readScreenSection readScreensLine cfg lines
    else if name = "links".toList then readScreenSection (readLinksLine env) cfg lines
    else if name = "aliases".toList then readScreenSection readAliasesLine cfg lines
    else none

theorem length_le_of_readLines {σ : Type*} {readLineOf : σ → Text → Option σ} {s s' : σ}
    {lines rest : List Text} (h : readLines readLineOf s lines = some (s', rest)) :
    rest.length ≤ lines.length := by
  fun_induction readLines readLineOf s lines with
  | case1 => cases h
  | case2 => cases h
  | case3 s lines rest' hline =>
    cases h
    exact (length_lt_of_readLine hline).le
  | case4 => cases h
  | case5 s lines line rest' hline hend s'' hs ih =>
    exact (ih h).trans (length_lt_of_readLine hline).le

theorem length_le_of_readSection {cfg cfg' : ListeningConfig α} {line : Text}
    {lines rest : List Text} (h : readSection env cfg line lines = some (cfg', rest)) :
    rest.length ≤ lines.length := by
  have hscreen {readLineOf : Config × String → Text → Option (Config × String)}
      (h : readScreenSection readLineOf cfg lines = some (cfg', rest)) :
      rest.length ≤ lines.length := by
    obtain ⟨⟨s, rest'⟩, hlines, heq⟩ := Option.map_eq_some_iff.1 h
    cases heq
    exact length_le_of_readLines hlines
  unfold readSection at h
  split at h
  · cases h
  · split_ifs at h
    · exact length_le_of_readLines h
    · exact hscreen h
    · exact hscreen h
    · exact hscreen h

/-- The sections of a text, one after the other. -/
def readSections (cfg : ListeningConfig α) (lines : List Text) : Option (ListeningConfig α) :=
  match _hline : readLine lines with
  | none => none
  | some none => some cfg
  | some (some (line, rest)) =>
    match _hsection : readSection env cfg line rest with
    | none => none
    | some (cfg, rest) => readSections cfg rest
termination_by lines.length
decreasing_by
  exact (length_le_of_readSection env _hsection).trans_lt (length_lt_of_readLine _hline)

/-- The configuration in a text (`operator>>`); `none` is `XConfigRead`. -/
def readText (text : Text) : Option (ListeningConfig α) := readSections env {} (getLines text)

end Config

end InputLeap
