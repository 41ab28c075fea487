import InputLeap.Client.ClipboardOptions
import InputLeap.Keyboard.MapKey
import InputLeap.Text.Swallow
import Mathlib.Algebra.Ring.Parity

/-!
# Lists of options from the network

A client reads a list of options three times.  Two of the loops step over two numbers at a time and
read a value behind each option that they know; that of the client itself takes one number at a
time.  None of them asks whether there is a value.  The numbers for modifiers are kept as they come,
and later used as places in tables.

## Main definitions

* `readPairs` : a loop that steps over two numbers at a time.
* `ServerProxySettings`, `ScreenSettings` : what the options set.
* `Client.readOptions?` : the loop of the client, which may read past the end.
* `ServerProxySettings.translateKey`, `ServerProxySettings.translateModifierMask` : where the
  numbers are used.
* `OptionsState.lts` : connections, resets and lists of options in any order.
* `OptionsInBounds` : nothing in a list is read past its end or used past the end of a table.

## Main results

* `readPairs_eq_none_iff`, `Client.readOptions?_eq_none_iff` : when a loop reads past the end.
* `Client.setOptions?_eq_some` : otherwise the loop of the client is the one that it runs.
* `OptionsState.inBounds_of_reachable` : which lists are handled in bounds.
-/

namespace InputLeap

/-! ### Loops over pairs -/

/-- A loop that steps over two numbers at a time.  There is nothing behind the last number. -/
def readPairs {σ : Type*} (option : ℕ → Option (ℕ → σ → σ)) : List ℕ → σ → Option σ
  | [], s => some s
  | [id], s => if (option id).isSome then none else some s
  | id :: value :: rest, s =>
    readPairs option rest (((option id).map fun set => set value s).getD s)

/-- The options and values of a list. -/
def pairs : List ℕ → List (ℕ × ℕ)
  | id :: value :: rest => (id, value) :: pairs rest
  | _ => []

section readPairs

variable {σ : Type*} {option : ℕ → Option (ℕ → σ → σ)}

/-- The loop reads past the end if an option that it knows is the last number. -/
theorem readPairs_eq_none_iff (options : List ℕ) (s : σ) :
    readPairs option options s = none ↔
      Odd options.length ∧ ∃ last ∈ options.getLast?, (option last).isSome := by
  fun_induction readPairs option options s with
  | case1 => simp
  | case2 id s h => simp [h]
  | case3 id s h => simp [h]
  | case4 id value rest s ih =>
    rw [ih, List.length_cons, List.length_cons, add_assoc, Nat.odd_add]
    simp only [Nat.reduceAdd, even_two, iff_true]
    refine and_congr_right fun hodd => ?_
    have hlast : (id :: value :: rest).getLast? = rest.getLast? := by
      cases rest with
      | nil => exact absurd hodd (by decide)
      | cons _ _ => simp [List.getLast?_cons_cons]
    rw [hlast]

/-- What the loop does, if it does not read past the end. -/
theorem readPairs_eq_some {options : List ℕ} {s s' : σ}
    (h : readPairs option options s = some s') :
    s' = (pairs options).foldl
      (fun s pair => ((option pair.1).map fun set => set pair.2 s).getD s) s := by
  fun_induction readPairs option options s with
  | case1 => exact (Option.some.inj h).symm
  | case2 => cases h
  | case3 => exact (Option.some.inj h).symm
  | case4 id value rest s ih => exact ih h

end readPairs

/-! ### The proxy of the server -/

/-- The modifiers of the table (`KeyModifierID`). -/
inductive KeyModifierID
  | null
  | shift
  | control
  | alt
  | metaKey
  | super
  | altGr
  deriving DecidableEq

namespace KeyModifierID

/-- `kKeyModifierIDLast`. -/
def last : ℕ := 7

/-- The number of a modifier. -/
def toNat : KeyModifierID → ℕ
  | null => 0
  | shift => 1
  | control => 2
  | alt => 3
  | metaKey => 4
  | super => 5
  | altGr => 6

/-- The modifier that an option is about. -/
def ofOption (id : ℕ) : KeyModifierID :=
  if id = OptionID.modifierMapForShift.code then shift
  else if id = OptionID.modifierMapForControl.code then control
  else if id = OptionID.modifierMapForAlt.code then alt
  else if id = OptionID.modifierMapForAltGr.code then altGr
  else if id = OptionID.modifierMapForMeta.code then metaKey
  else if id = OptionID.modifierMapForSuper.code then super
  else null

theorem toNat_lt (m : KeyModifierID) : m.toNat < last := by cases m <;> decide

end KeyModifierID

/-- What the options set in `ServerProxy`. -/
structure ServerProxySettings where
  /-- `m_modifierTranslationTable`. -/
  modifierTranslationTable : KeyModifierID → ℕ := KeyModifierID.toNat
  /-- The time between signs of life, in milliseconds. -/
  keepAliveRate : ℕ := 3000

namespace ServerProxySettings

variable (p : ServerProxySettings)

/-- Every modifier is translated to itself again. -/
def resetOptions : ServerProxySettings where
  modifierTranslationTable := KeyModifierID.toNat
  keepAliveRate := 3000

/-- What the loop does about an option. -/
def option (id : ℕ) : Option (ℕ → ServerProxySettings → ServerProxySettings) :=
  match KeyModifierID.ofOption id with
  | .null =>
    if id = OptionID.heartbeat.code then some fun value p => { p with keepAliveRate := value }
    else none
  | m => some fun value p =>
    { p with modifierTranslationTable := Function.update p.modifierTranslationTable m value }

def setOptions (options : List ℕ) : Option ServerProxySettings := readPairs option options p

/-- `s_translationTable`. -/
def translationTable : List (KeyID × KeyID) :=
  [(0, 0), (0xefe1, 0xefe2), (0xefe3, 0xefe4), (0xefe9, 0xefea), (0xefe7, 0xefe8),
    (0xefeb, 0xefec), (0xef7e, 0xef7e)]

/-- The modifier that a key is for, and whether it is the one on the right. -/
def modifierOfKey : KeyID → KeyModifierID × Bool
  | 0xefe1 => (.shift, false)
  | 0xefe2 => (.shift, true)
  | 0xefe3 => (.control, false)
  | 0xefe4 => (.control, true)
  | 0xefe9 => (.alt, false)
  | 0xefea => (.alt, true)
  -- there is only one on the right side
  | 0xef7e => (.altGr, true)
  | 0xefe7 => (.metaKey, false)
  | 0xefe8 => (.metaKey, true)
  | 0xefeb => (.super, false)
  | 0xefec => (.super, true)
  | _ => (.null, false)

def translateKey (id : KeyID) : Option KeyID :=
  match modifierOfKey id with
  | (.null, _) => some id
  | (m, side) =>
    translationTable[p.modifierTranslationTable m]?.map fun row => if side then row.2 else row.1

/-- `s_masks`. -/
def masks : List KeyModifierMask := [0, 0x1, 0x2, 0x4, 0x8, 0x10, 0x20]

/-- The modifiers that are looked for in a mask, in order, and their bits. -/
def translated : List (KeyModifierID × KeyModifierMask) :=
  [(.shift, 0x1), (.control, 0x2), (.alt, 0x4), (.altGr, 0x20), (.metaKey, 0x8), (.super, 0x10)]

def translateModifierMask (mask : KeyModifierMask) : Option KeyModifierMask :=
  translated.foldlM
    (fun newMask (m, bit) =>
      if mask &&& bit ≠ 0 then
        masks[p.modifierTranslationTable m]?.map fun other => newMask ||| other
      else some newMask)
    (mask &&& ~~~(0x1 ||| 0x2 ||| 0x4 ||| 0x8 ||| 0x10 ||| 0x20))

/-! #### What the loop does to the table -/

/-- The options that the loop knows. -/
def known : List OptionID :=
  [.modifierMapForShift, .modifierMapForControl, .modifierMapForAlt, .modifierMapForAltGr,
    .modifierMapForMeta, .modifierMapForSuper, .heartbeat]

theorem isSome_option_iff (id : ℕ) : (option id).isSome ↔ id ∈ known.map OptionID.code := by
  simp only [known, List.map_cons, List.map_nil, List.mem_cons, List.not_mem_nil, or_false]
  unfold option KeyModifierID.ofOption
  split_ifs <;> simp_all

/-- The last value for a modifier, if there is one, is its number in the table. -/
def lastValue (m : KeyModifierID) (options : List (ℕ × ℕ)) : Option ℕ :=
  ((options.filter fun pair => KeyModifierID.ofOption pair.1 = m).map Prod.snd).getLast?

theorem table_option (pair : ℕ × ℕ) {m : KeyModifierID} (hm : m ≠ .null) :
    (((option pair.1).map fun set => set pair.2 p).getD p).modifierTranslationTable m =
      if KeyModifierID.ofOption pair.1 = m then pair.2 else p.modifierTranslationTable m := by
  unfold option
  split
  next hnull =>
    rw [hnull, if_neg hm.symm]
    split_ifs
    · rfl
    · rfl
  next m' hnull =>
    simp only [Option.map_some, Option.getD_some, Function.update_apply]
    exact if_congr eq_comm rfl rfl

theorem table_null_option (pair : ℕ × ℕ) :
    (((option pair.1).map fun set => set pair.2 p).getD p).modifierTranslationTable .null =
      p.modifierTranslationTable .null := by
  unfold option
  split
  next hnull =>
    split_ifs
    · rfl
    · rfl
  next m' hnull =>
    exact Function.update_of_ne (fun h => hnull h.symm) _ _

variable {p} {p' : ServerProxySettings}

/-- What a list leaves in the table. -/
theorem table_setOptions {options : List ℕ} (h : p.setOptions options = some p')
    {m : KeyModifierID} (hm : m ≠ .null) :
    p'.modifierTranslationTable m =
      (lastValue m (pairs options)).getD (p.modifierTranslationTable m) := by
  rw [readPairs_eq_some h]
  clear h
  induction pairs options generalizing p with
  | nil => rfl
  | cons pair rest ih =>
    rw [List.foldl_cons, ih, table_option p pair hm]
    unfold lastValue
    by_cases hpair : KeyModifierID.ofOption pair.1 = m
    · rw [if_pos hpair, List.filter_cons, if_pos (decide_eq_true hpair), List.map_cons,
        Client.getLast?_cons_getD]
    · rw [if_neg hpair, List.filter_cons, if_neg (mt of_decide_eq_true hpair)]

theorem table_null_setOptions {options : List ℕ} (h : p.setOptions options = some p') :
    p'.modifierTranslationTable .null = p.modifierTranslationTable .null := by
  rw [readPairs_eq_some h]
  clear h
  induction pairs options generalizing p with
  | nil => rfl
  | cons pair rest ih => rw [List.foldl_cons, ih, table_null_option p pair]

/-- The numbers in the table are those of modifiers. -/
def InBounds (p : ServerProxySettings) : Prop :=
  ∀ m, p.modifierTranslationTable m < KeyModifierID.last

/-- From a table in bounds a list leads to one if and only if the last value for each modifier
is. -/
theorem InBounds.setOptions_iff (hp : p.InBounds) {options : List ℕ}
    (h : p.setOptions options = some p') :
    p'.InBounds ↔
      ∀ m ≠ .null, ∀ value ∈ lastValue m (pairs options), value < KeyModifierID.last := by
  constructor
  · intro hp' m hm value hvalue
    have hlast := hp' m
    rw [table_setOptions h hm, hvalue, Option.getD_some] at hlast
    exact hlast
  · intro hvalues m
    by_cases hm : m = .null
    · rw [hm, table_null_setOptions h]
      exact hp .null
    rw [table_setOptions h hm]
    cases hvalue : lastValue m (pairs options) with
    | none => exact hp m
    | some value => exact hvalues m hm value hvalue

/-! #### Where the numbers are used -/

theorem InBounds.isSome_translateKey (hp : p.InBounds) (id : KeyID) :
    (p.translateKey id).isSome := by
  unfold translateKey
  split
  · rfl
  · next m side _ _ =>
    rw [Option.isSome_map, List.getElem?_eq_getElem (hp m)]
    rfl

/-- A loop of which no turn fails does not fail. -/
theorem isSome_foldlM {α β : Type*} {f : β → α → Option β} (hf : ∀ b a, (f b a).isSome)
    (l : List α) (b : β) : (l.foldlM f b).isSome := by
  induction l generalizing b with
  | nil => rfl
  | cons a l ih =>
    obtain ⟨b', hb'⟩ := Option.isSome_iff_exists.1 (hf b a)
    rw [List.foldlM_cons, hb']
    exact ih b'

theorem InBounds.isSome_translateModifierMask (hp : p.InBounds) (mask : KeyModifierMask) :
    (p.translateModifierMask mask).isSome := by
  refine isSome_foldlM (fun newMask modifier => ?_) _ _
  dsimp only
  split_ifs
  · rw [Option.isSome_map, List.getElem?_eq_getElem (hp modifier.1)]
    rfl
  · rfl

end ServerProxySettings

/-! ### The screen -/

/-- What the options set in `Screen`. -/
structure ScreenSettings where
  halfDuplex : KeyModifierMask := 0
  screenSaverSync : Bool := true

namespace ScreenSettings

variable (s : ScreenSettings)

def resetOptions : ScreenSettings where
  halfDuplex := 0
  screenSaverSync := true

/-- A lock is half-duplex if the value is not zero. -/
def setHalfDuplex (bit : KeyModifierMask) (value : ℕ) : ScreenSettings :=
  { s with halfDuplex := if value ≠ 0 then s.halfDuplex ||| bit else s.halfDuplex &&& ~~~bit }

/-- What the loop does about an option. -/
def option (id : ℕ) : Option (ℕ → ScreenSettings → ScreenSettings) :=
  if id = OptionID.screenSaverSync.code then
    some fun value s => { s with screenSaverSync := value != 0 }
  else if id = OptionID.halfDuplexCapsLock.code then
    some fun value s => s.setHalfDuplex 0x1000 value
  else if id = OptionID.halfDuplexNumLock.code then
    some fun value s => s.setHalfDuplex 0x2000 value
  else if id = OptionID.halfDuplexScrollLock.code then
    some fun value s => s.setHalfDuplex 0x4000 value
  else none

def setOptions (options : List ℕ) : Option ScreenSettings := readPairs option options s

/-- The options that the loop knows. -/
def known : List OptionID :=
  [.screenSaverSync, .halfDuplexCapsLock, .halfDuplexNumLock, .halfDuplexScrollLock]

theorem isSome_option_iff (id : ℕ) : (option id).isSome ↔ id ∈ known.map OptionID.code := by
  simp only [known, List.map_cons, List.map_nil, List.mem_cons, List.not_mem_nil, or_false]
  unfold option
  split_ifs <;> simp_all

end ScreenSettings

/-! ### The client -/

namespace Client

/-- The loop over the options.  It does not notice that it got past the end. -/
def readOptions? : List ℕ → Client → Option Client
  | [], c => some c
  | id :: rest, c =>
    if id = OptionID.clipboardSharing.code then
      match rest with
      | [] => none
      | value :: _ => some { c with enableClipboard := value != 0 }
    else if id = OptionID.clipboardSharingSize.code then
      match rest with
      -- no value is read, but the loop steps over the end
      | [] => none
      | value :: rest => readOptions? rest { c with maximumClipboardSize := value }
    else readOptions? rest c

def setOptions? (c : Client) (options : List ℕ) : Option Client :=
  (readOptions? options c).map fun c =>
    if c.enableClipboard ∧ c.maximumClipboardSize = 0 then { c with enableClipboard := false }
    else c

/-- The number is the option whose value is taken with it. -/
def isSize (id : ℕ) : Bool := id == OptionID.clipboardSharingSize.code

/-- The number behind the others is taken for an option: it is not the value of a size option, and
no sharing option stands before it. -/
def TakenForOption (front : List ℕ) : Prop :=
  Even (Text.trailing isSize front) ∧
    ∀ i < front.length, front[i]? = some OptionID.clipboardSharing.code →
      ¬Even (Text.trailing isSize (front.take i))

instance (front : List ℕ) : Decidable (TakenForOption front) :=
  inferInstanceAs (Decidable (_ ∧ _))

/-- The last number is taken for an option and is one that the client looks for. -/
def Overruns (options : List ℕ) : Prop :=
  ∃ last ∈ options.getLast?, (last = OptionID.clipboardSharing.code ∨
    last = OptionID.clipboardSharingSize.code) ∧ TakenForOption options.dropLast

instance (options : List ℕ) : Decidable (Overruns options) :=
  inferInstanceAs (Decidable (∃ last ∈ options.getLast?, _))

/-! #### When the client reads past the end -/

/-- The loop that looks where it reads agrees with the other one. -/
theorem readOptions?_eq_some {options : List ℕ} {c c' : Client}
    (h : readOptions? options c = some c') : c' = readOptions options c := by
  fun_induction readOptions? options c with
  | case1 => exact (Option.some.inj h).symm
  | case2 => cases h
  | case3 c value rest =>
    rw [readOptions, if_pos rfl]
    exact (Option.some.inj h).symm
  | case4 => cases h
  | case5 c value rest hne ih =>
    rw [readOptions, if_neg hne, if_pos rfl]
    exact ih h
  | case6 id rest c hne hne' ih =>
    rw [readOptions_cons_of_ne hne hne']
    exact ih h

/-- If nothing is read past the end, the loop is that of `setOptions`. -/
theorem setOptions?_eq_some {options : List ℕ} {c c' : Client}
    (h : c.setOptions? options = some c') : c' = c.setOptions options := by
  obtain ⟨c₁, hread, rfl⟩ := Option.map_eq_some_iff.1 h
  rw [setOptions, ← readOptions?_eq_some hread]

theorem takenForOption_nil : TakenForOption [] := by decide

theorem takenForOption_cons {id : ℕ} {front : List ℕ} :
    TakenForOption (id :: front) ↔ id ≠ OptionID.clipboardSharing.code ∧
      Text.swallows isSize (id :: front) = false ∧
      ∀ i < front.length, front[i]? = some OptionID.clipboardSharing.code →
        Text.swallows isSize (id :: front.take i) ≠ false := by
  rw [TakenForOption, List.length_cons, Nat.forall_lt_succ_left, and_left_comm]
  simp only [← Text.swallows_eq_false_iff]
  refine and_congr ?_ (and_congr_right fun _ => Iff.rfl)
  refine ⟨fun h hid => h (congrArg some hid) rfl, fun h hid => absurd (Option.some.inj hid) h⟩

theorem not_takenForOption_sharing (front : List ℕ) :
    ¬TakenForOption (OptionID.clipboardSharing.code :: front) :=
  fun h => (takenForOption_cons.1 h).1 rfl

theorem not_takenForOption_size : ¬TakenForOption [OptionID.clipboardSharingSize.code] := by decide

/-- The value of a size option is taken with it. -/
theorem takenForOption_size_cons (value : ℕ) (front : List ℕ) :
    TakenForOption (OptionID.clipboardSharingSize.code :: value :: front) ↔
      TakenForOption front := by
  have hsize : isSize OptionID.clipboardSharingSize.code = true := by decide
  rw [takenForOption_cons, Text.swallows_cons_cons_of_true hsize, List.length_cons,
    Nat.forall_lt_succ_left, and_iff_right code_ne, TakenForOption, Text.swallows_eq_false_iff]
  refine and_congr_right fun _ => ?_
  have hvalue : Text.swallows isSize [OptionID.clipboardSharingSize.code] ≠ false := by decide
  simp only [List.take_zero, List.getElem?_cons_zero, List.getElem?_cons_succ,
    List.take_succ_cons, Text.swallows_cons_cons_of_true hsize, ← Text.swallows_eq_false_iff]
  exact and_iff_right fun _ => hvalue

/-- Another number changes nothing. -/
theorem takenForOption_cons_of_ne {id : ℕ} (hne : id ≠ OptionID.clipboardSharing.code)
    (hne' : id ≠ OptionID.clipboardSharingSize.code) (front : List ℕ) :
    TakenForOption (id :: front) ↔ TakenForOption front := by
  have hsize : isSize id = false := beq_false_of_ne hne'
  rw [takenForOption_cons, and_iff_right hne, TakenForOption]
  simp only [Text.swallows_cons_of_false hsize, ← Text.swallows_eq_false_iff, ne_eq]

theorem overruns_cons_cons {id value : ℕ} {rest : List ℕ} :
    Overruns (id :: value :: rest) ↔ ∃ last ∈ (value :: rest).getLast?,
      (last = OptionID.clipboardSharing.code ∨ last = OptionID.clipboardSharingSize.code) ∧
        TakenForOption (id :: (value :: rest).dropLast) := by
  rw [Overruns, List.getLast?_cons_cons, List.dropLast_cons_cons]

/-- The loop reads past the end if and only if the last number is taken for an option that the
client looks for. -/
theorem readOptions?_eq_none_iff (options : List ℕ) (c : Client) :
    readOptions? options c = none ↔ Overruns options := by
  fun_induction readOptions? options c with
  | case1 => simp [Overruns]
  | case2 => simp [Overruns, takenForOption_nil]
  | case3 c value rest =>
    rw [overruns_cons_cons]
    refine iff_of_false (Option.some_ne_none _) ?_
    rintro ⟨last, -, -, htaken⟩
    exact not_takenForOption_sharing _ htaken
  | case4 => simp [Overruns, takenForOption_nil]
  | case5 c value rest hne ih =>
    rw [ih, overruns_cons_cons]
    cases rest with
    | nil => simp [Overruns, not_takenForOption_size]
    | cons next rest =>
      rw [List.getLast?_cons_cons, List.dropLast_cons_cons, takenForOption_size_cons]
      rfl
  | case6 id rest c hne hne' ih =>
    rw [ih]
    cases rest with
    | nil => simp [Overruns, hne, hne']
    | cons value rest =>
      rw [overruns_cons_cons, takenForOption_cons_of_ne hne hne']
      rfl

theorem setOptions?_eq_none_iff (c : Client) (options : List ℕ) :
    c.setOptions? options = none ↔ Overruns options := by
  rw [setOptions?, Option.map_eq_none_iff, readOptions?_eq_none_iff]

end Client

/-! ### Lists of options -/

/-- What is read in a list is in it, and what it leaves in the table are numbers of modifiers. -/
structure OptionsInBounds (options : List ℕ) : Prop where
  /-- If a number is left over by the pairs, it is no option that the proxy or the screen knows. -/
  paired : Odd options.length → ∀ last ∈ options.getLast?,
    last ∉ (ServerProxySettings.known ++ ScreenSettings.known).map OptionID.code
  /-- The last number is not taken for an option that the client looks for. -/
  single : ¬Client.Overruns options
  /-- The last value for a modifier is the number of one. -/
  modifiers : ∀ m ≠ .null, ∀ value ∈ ServerProxySettings.lastValue m (pairs options),
    value < KeyModifierID.last

/-- What the options set on a client. -/
structure OptionsState where
  client : Client := {}
  screen : ScreenSettings := {}
  proxy : ServerProxySettings := {}

/-- What concerns the options. -/
inductive OptionsEvent
  /-- There is a connection, with a proxy of its own. -/
  | connected
  | reset
  | set (options : List ℕ)

namespace OptionsState

variable (s : OptionsState)

/-- `ServerProxy::resetOptions`, with those that it calls. -/
def resetOptions : OptionsState :=
  ⟨s.client.resetOptions, .resetOptions, .resetOptions⟩

/-- `ServerProxy::setOptions`, with those that it calls before its own loop. -/
def setOptions (options : List ℕ) : Option OptionsState := do
  let client ← s.client.setOptions? options
  let screen ← s.screen.setOptions options
  let proxy ← s.proxy.setOptions options
  return ⟨client, screen, proxy⟩

/-- Connections, resets and lists of options in any order.  There is no step where a number past
the end of a list is read. -/
def lts : LTS OptionsState OptionsEvent where
  init s := s = {}
  step s
    | .connected => some { s with proxy := {} }
    | .reset => some s.resetOptions
    | .set options => s.setOptions options

/-- The lists that are in bounds. -/
def Handled : OptionsEvent → Prop
  | .set options => OptionsInBounds options
  | _ => True

variable {s}

theorem inBounds_default : ({} : ServerProxySettings).InBounds := KeyModifierID.toNat_lt

/-- A list is read in bounds if and only if no loop finds its option at the end. -/
theorem setOptions_eq_none_iff (options : List ℕ) : s.setOptions options = none ↔
    Client.Overruns options ∨ Odd options.length ∧ ∃ last ∈ options.getLast?,
      last ∈ (ServerProxySettings.known ++ ScreenSettings.known).map OptionID.code := by
  have hclient := Client.setOptions?_eq_none_iff s.client options
  have hscreen : s.screen.setOptions options = none ↔ _ := readPairs_eq_none_iff options s.screen
  have hproxy : s.proxy.setOptions options = none ↔ _ := readPairs_eq_none_iff options s.proxy
  simp only [ScreenSettings.isSome_option_iff] at hscreen
  simp only [ServerProxySettings.isSome_option_iff] at hproxy
  rw [List.map_append]
  simp only [List.mem_append, and_or_left, exists_or]
  rw [← hscreen, ← hproxy, ← hclient, setOptions]
  cases s.client.setOptions? options with
  | none => simp
  | some client =>
    cases s.screen.setOptions options with
    | none => simp
    | some screen =>
      cases s.proxy.setOptions options with
      | none => simp
      | some proxy => simp

theorem setOptions_eq_some {s' : OptionsState} {options : List ℕ}
    (h : s.setOptions options = some s') : s.proxy.setOptions options = some s'.proxy := by
  obtain ⟨client, -, h⟩ := Option.bind_eq_some_iff.1 h
  obtain ⟨screen, -, h⟩ := Option.bind_eq_some_iff.1 h
  obtain ⟨proxy, hproxy, h⟩ := Option.bind_eq_some_iff.1 h
  obtain rfl := Option.some.inj h
  exact hproxy

/-- From a table in bounds, a list is handled and leaves one if and only if it is in bounds. -/
theorem setOptions_iff (hs : s.proxy.InBounds) (options : List ℕ) :
    (∃ s', s.setOptions options = some s' ∧ s'.proxy.InBounds) ↔ OptionsInBounds options := by
  have hnone := setOptions_eq_none_iff (s := s) options
  constructor
  · rintro ⟨s', hset, hs'⟩
    rw [hset, iff_false_left (Option.some_ne_none s'), not_or] at hnone
    refine ⟨fun hodd last hlast hknown => hnone.2 ⟨hodd, last, hlast, hknown⟩, hnone.1, ?_⟩
    exact (hs.setOptions_iff (setOptions_eq_some hset)).1 hs'
  · rintro ⟨hpaired, hsingle, hmodifiers⟩
    cases hset : s.setOptions options with
    | none =>
      rcases hnone.1 hset with hover | ⟨hodd, last, hlast, hknown⟩
      · exact absurd hover hsingle
      · exact absurd hknown (hpaired hodd last hlast)
    | some s' =>
      exact ⟨s', rfl, (hs.setOptions_iff (setOptions_eq_some hset)).2 hmodifiers⟩

/-- In runs whose lists are in bounds, the table is, and the keys and masks are translated within
the tables for them.  After such a run any list is read in bounds and leaves the table in bounds if
and only if the list is in bounds. -/
theorem inBounds_of_reachable (hs : lts.ReachableVia (fun _ e => Handled e) s) :
    s.proxy.InBounds ∧ (∀ id, (s.proxy.translateKey id).isSome) ∧
      (∀ mask, (s.proxy.translateModifierMask mask).isSome) ∧
      ∀ options, (∃ s', lts.step s (.set options) = some s' ∧ s'.proxy.InBounds) ↔
        OptionsInBounds options := by
  have hbounds : s.proxy.InBounds := by
    refine hs.invariant (I := fun s => s.proxy.InBounds) ?_ ?_
    · rintro _ rfl
      exact inBounds_default
    · intro s e s' hI hG hst
      cases e with
      | connected =>
        obtain rfl := Option.some.inj hst
        exact inBounds_default
      | reset =>
        obtain rfl := Option.some.inj hst
        exact KeyModifierID.toNat_lt
      | set options =>
        obtain ⟨s'', hset, hs''⟩ := (setOptions_iff hI options).2 hG
        obtain rfl := Option.some.inj (hset.symm.trans hst)
        exact hs''
  exact ⟨hbounds, hbounds.isSome_translateKey, hbounds.isSome_translateModifierMask,
    setOptions_iff hbounds⟩

/-- Shift and Control change places, and there is a number behind the last pair. -/
def swapModifiers : List ℕ :=
  [OptionID.modifierMapForShift.code, 2, OptionID.modifierMapForControl.code, 1,
    OptionID.clipboardSharingSize.code, OptionID.clipboardSharing.code, 5]

theorem optionsInBounds_swapModifiers : OptionsInBounds swapModifiers where
  paired := by decide
  single := by decide
  modifiers m hm value hvalue := by
    cases m with
    | null => exact absurd rfl hm
    | shift => exact Option.some.inj hvalue ▸ by decide
    | control => exact Option.some.inj hvalue ▸ by decide
    | alt | altGr | metaKey | super => cases hvalue

/-- Such a list is handled, and its keys are translated. -/
theorem inBounds_swapModifiers : ∃ s, lts.exec {} [.set swapModifiers] = some s ∧
    s.proxy.InBounds ∧ ∃ id, s.proxy.translateKey 0xefe1 = some id := by
  have hinit : lts.ReachableVia (fun _ e => Handled e) {} := .init rfl
  refine ⟨_, rfl, ?_⟩
  obtain ⟨hbounds, hkey, -, -⟩ := inBounds_of_reachable
    (hinit.step (l := .set swapModifiers) optionsInBounds_swapModifiers rfl)
  exact ⟨hbounds, Option.isSome_iff_exists.1 (hkey 0xefe1)⟩

/-- An option without a value is read past the end of its list, and a modifier is mapped to a number
that has no place in the tables. -/
theorem not_inBounds_of_reachable :
    (¬∀ s options, lts.Reachable s → (lts.step s (.set options)).isSome) ∧
    ¬∀ s, lts.Reachable s → s.proxy.InBounds ∧ ∀ id, (s.proxy.translateKey id).isSome := by
  constructor
  · intro h
    have hheartbeat := h {} [OptionID.heartbeat.code] (.init rfl)
    exact absurd hheartbeat (by decide)
  · intro h
    have hshift := (h _ (@LTS.Reachable.of_exec _ _ lts {} _
      [.set [OptionID.modifierMapForShift.code, 7]] rfl rfl)).2 0xefe1
    exact absurd hshift (by decide)

end OptionsState

end InputLeap
