import InputLeap.Gui.ActionText
import Mathlib.Data.List.Forall2

/-!
# Hotkeys as text

The GUI writes a hotkey as a line of the `options` section, and the server reads the line.

## Main definitions

* `Gui.Hotkey.rule` : the rule that a hotkey stands for.
* `Gui.Hotkey.ReadAsWritten` : the server reads the line of the hotkey as this rule and nothing
  else.
* `Gui.Hotkey.Portable` : the hotkeys of which this is so.

## Main results

* `readAsWritten_iff_portable` : exactly the portable hotkeys are read as they are written.
-/

namespace InputLeap

namespace Gui

open RuleText (BlankLast Call Effect Reads BrokenCondition adopt released tail ruleLine strip)

open KeySequence (Enclosed Shaped)

open InputFilter (Rule)

namespace Hotkey

variable (toLower : ℕ → ℕ) (cfg : Config) (h : Hotkey)

/-- The condition that the hotkey stands for. -/
def condition : Option InputFilter.Condition :=
  if h.keySequence.isMouseButton then
    h.keySequence.click.map fun info => .mouseButton info.1 info.2
  else (h.keySequence.keystroke toLower).map fun info => .keystroke info.1 info.2

/-- Adds what an action does: one that is active on release does all of it on deactivation. -/
def addEffect (activeOnRelease : Bool) (rule : Rule) (e : Effect) : Rule :=
  if activeOnRelease then
    { rule with deactivateActions := rule.deactivateActions ++
        if e.release then [e.action, released e.action] else [e.action] }
  else adopt rule e true

/-- The rule that the hotkey stands for. -/
def rule : Option Rule :=
  (h.condition toLower).bind fun condition =>
    h.actions.foldlM (fun rule a => (a.effect toLower cfg).map (addEffect a.activeOnRelease rule))
      { condition := some condition }

/-- The server reads the line of the hotkey as the rule, and nothing else. -/
def ReadAsWritten : Prop :=
  ∃ rule ∈ h.rule toLower cfg, ∃ text ∈ h.write toLower,
    cfg.readSectionOptions (Text.splitOn '\n' (text ++ "end\n".toList)) = some [.rule rule]

/-- No action is active on release, or only the first one, if it is no keystroke and the others
are. -/
def Ordered : Prop :=
  (∀ a ∈ h.actions, a.activeOnRelease = false) ∨
    ∃ a as, h.actions = a :: as ∧ a.activeOnRelease = true ∧ a.type ≠ .keystroke ∧
      ∀ b ∈ as, b.activeOnRelease = false ∧ b.type = .keystroke

/-- The server can read the keys, the actions and their order. -/
structure Portable : Prop where
  keySequence : h.keySequence.Portable
  actions : ∀ a ∈ h.actions, a.Portable cfg
  order : h.Ordered

/-- What the dialogs make: recorded keys and some actions. -/
structure Made : Prop where
  keySequence : h.keySequence.Recorded toLower
  nonempty : h.actions ≠ []
  actions : ∀ a ∈ h.actions, a.Made toLower

/-! ### The line of a hotkey -/

/-- The name of the condition. -/
def conditionName (isMouseButton : Bool) : Text :=
  if isMouseButton then "mousebutton".toList else "keystroke".toList

/-- The condition as a name with arguments. -/
def call : Call :=
  ⟨false, conditionName h.keySequence.isMouseButton, some (h.keySequence.toString toLower)⟩

theorem conditionName_spec : ∀ b, conditionName b ≠ [] ∧
    (∀ x ∈ conditionName b, x.isAlpha = true) ∧
      String.ofList (conditionName b) ∉ Config.settings := by
  decide

theorem named_call : (h.call toLower).Named :=
  ⟨(conditionName_spec _).1, (conditionName_spec _).2.1⟩

theorem call_not_setting : String.ofList (h.call toLower).name ∉ Config.settings :=
  (conditionName_spec _).2.2

theorem text_eq : h.text toLower = (h.call toLower).text := by
  unfold text call Call.text conditionName
  cases h.keySequence.isMouseButton <;> simp

variable {toLower} {cfg} {h} {c : Call} {cs : List Call} {as : List Gui.Action}

/-- The calls of the actions. -/
def Calls (toLower : ℕ → ℕ) (as : List Gui.Action) (cs : List Call) : Prop :=
  List.Forall₂ (fun a c => a.call toLower = some c) as cs

theorem mapM_write (hcs : Calls toLower as cs) :
    as.mapM (Gui.Action.write toLower) = some (cs.map Call.item) := by
  induction hcs with
  | nil => rfl
  | cons hc _ ih =>
    rw [List.mapM_cons, Gui.Action.write_eq, hc, ih]
    rfl

theorem calls_of_mapM {texts : List Text}
    (htexts : as.mapM (Gui.Action.write toLower) = some texts) : ∃ cs, Calls toLower as cs := by
  induction as generalizing texts with
  | nil => exact ⟨[], .nil⟩
  | cons a as ih =>
    rw [List.mapM_cons, Gui.Action.write_eq] at htexts
    obtain ⟨t, ht, htexts⟩ := Option.bind_eq_some_iff.1 htexts
    obtain ⟨ts, hts, -⟩ := Option.bind_eq_some_iff.1 htexts
    obtain ⟨c, hc, -⟩ := Option.map_eq_some_iff.1 ht
    obtain ⟨cs, hcs⟩ := ih hts
    exact ⟨c :: cs, .cons hc hcs⟩

/-- The line of a hotkey. -/
theorem write_eq {a : Gui.Action} (hactions : h.actions = a :: as)
    (hcs : Calls toLower (a :: as) (c :: cs)) :
    h.write toLower = some ('\t' :: ruleLine (h.call toLower) c cs ++ ['\n']) := by
  rw [write, hactions, if_neg (List.cons_ne_nil _ _), mapM_write hcs, Option.map_some,
    RuleText.intercalate_item, text_eq, ruleLine]
  simp

/-! ### The section -/

variable (toLower h c) in
theorem ruleLine_head (cs : List Call) :
    ∃ y s, y.isAlpha = true ∧ y ≠ 'e' ∧ ruleLine (h.call toLower) c cs = y :: s := by
  have hhead (b : Bool) : ∃ y ∈ (conditionName b).head?, y.isAlpha = true ∧ y ≠ 'e' := by
    cases b
    · exact ⟨_, rfl, by decide⟩
    · exact ⟨_, rfl, by decide⟩
  obtain ⟨y, hy, halpha, hne⟩ := hhead h.keySequence.isMouseButton
  obtain ⟨s, hs⟩ := List.head?_eq_some_iff.1 hy
  exact ⟨y, _, halpha, hne, by rw [ruleLine, call, Call.text, hs]; rfl⟩

/-- The section with the line of a hotkey. -/
theorem readSectionOptions_ruleLine (hnewline : '\n' ∉ ruleLine (h.call toLower) c cs) :
    cfg.readSectionOptions
        (Text.splitOn '\n' ('\t' :: ruleLine (h.call toLower) c cs ++ ['\n'] ++ "end\n".toList)) =
      if (strip (ruleLine (h.call toLower) c cs)).all ConfigReadContext.isValid then
        (cfg.readOption (strip (ruleLine (h.call toLower) c cs))).map ([·])
      else none := by
  obtain ⟨y, s, halpha, hne, hline⟩ := ruleLine_head toLower h c cs
  obtain ⟨-, hend, hcomment⟩ := RuleText.alpha_spec halpha
  have hsplit : Text.splitOn '\n'
      ('\t' :: ruleLine (h.call toLower) c cs ++ ['\n'] ++ "end\n".toList) =
      ['\t' :: ruleLine (h.call toLower) c cs, "end".toList, []] := by
    have htab : '\n' ∉ '\t' :: ruleLine (h.call toLower) c cs := by
      rw [List.mem_cons, not_or]
      exact ⟨by decide, hnewline⟩
    rw [List.append_assoc, List.singleton_append, Text.splitOn_append htab]
    rfl
  have hstrip : strip (y :: s) = y :: strip s :=
    RuleText.strip_append (x := []) List.not_mem_nil hcomment hend
  rw [hsplit, Config.readSectionOptions, hline, RuleText.stripLine_tab halpha, hstrip,
    if_neg (List.cons_ne_nil _ _)]
  cases hvalid : (y :: strip s).all ConfigReadContext.isValid with
  | false => rfl
  | true =>
    have hsection : cfg.readSectionOptions ["end".toList, []] = some [] := by
      have hend : ConfigReadContext.stripLine "end".toList = "end".toList := by decide
      rw [Config.readSectionOptions, hend, if_neg (by decide), if_neg (by decide), if_pos rfl]
    have hname : y :: strip s ≠ "end".toList := fun h => hne (List.cons.inj h).1
    rw [if_neg (by decide), if_neg hname, if_pos rfl]
    cases cfg.readOption (y :: strip s) with
    | none => rfl
    | some o =>
      dsimp only
      rw [hsection]
      rfl

/-! ### The condition -/

variable {mods : List ℕ} {key : ℕ}

/-- The condition is closed, or broken by its key. -/
theorem closed_or_broken (hlower : LowersCode toLower)
    (hs : Shaped toLower h.keySequence mods key) :
    (h.call toLower).Closed ∨ BrokenCondition (h.call toLower) := by
  rcases KeySequence.toString_cases hlower hs with htame | ⟨s, htame, heq⟩
  · exact .inl (Gui.Action.closed_of_tame rfl (fun x hx => .inl (htame x hx))
      (Gui.Action.not_blankLast_tame (KeySequence.toString_ne_nil hs) htame))
  have hcomment : '#' ∉ s := fun hx => (Gui.Action.ne_of_tame (htame _ hx)).1 rfl
  have hclose : ')' ∉ s := fun hx => (Gui.Action.ne_of_tame (htame _ hx)).2.1 rfl
  rcases heq with heq | heq
  · exact .inr (.comment s [] (congrArg some heq) hcomment hclose)
  · exact .inr (.close s (congrArg some heq) hcomment hclose)

/-- **The condition** is read as it is meant exactly if the keys are portable. -/
theorem condition_iff (hlower : LowersCode toLower) (hs : Shaped toLower h.keySequence mods key) :
    (Enclosed (h.keySequence.toString toLower) ∧ ∃ condition ∈ h.condition toLower,
        cfg.parseCondition (h.call toLower).name (h.call toLower).argList = some condition) ↔
      h.keySequence.Portable := by
  have hargs (henclosed : Enclosed (h.keySequence.toString toLower)) :
      (h.call toLower).argList = [h.keySequence.toString toLower] :=
    Gui.Action.splitOn_tame (Gui.Action.tame_of_enclosed hlower hs henclosed)
  have hmouse := hs.isMouseButton_eq
  by_cases hkey : key < 0x20
  · rw [decide_eq_true hkey] at hmouse
    rw [← KeySequence.click_iff_portable hs hkey, condition, if_pos hmouse]
    refine and_congr_right fun henclosed => ?_
    have hparse : cfg.parseCondition (h.call toLower).name (h.call toLower).argList =
        (ConfigReadContext.parseMouse (h.keySequence.toString toLower)).map fun info =>
          .mouseButton info.1 info.2 := by
      rw [hargs henclosed, call, hmouse]
      rfl
    rw [hparse]
    constructor
    · rintro ⟨condition, hcondition, hread⟩
      obtain ⟨info, hinfo, rfl⟩ := Option.map_eq_some_iff.1 hcondition
      obtain ⟨info', hinfo', heq⟩ := Option.map_eq_some_iff.1 hread
      obtain ⟨hbutton, hmask⟩ := InputFilter.Condition.mouseButton.inj heq
      exact ⟨info, hinfo, hinfo'.trans (congrArg some (Prod.ext hbutton hmask))⟩
    · rintro ⟨info, hinfo, hread⟩
      exact ⟨_, Option.map_eq_some_iff.2 ⟨info, hinfo, rfl⟩, by rw [hread]; rfl⟩
  · rw [decide_eq_false hkey] at hmouse
    rw [← KeySequence.keystroke_iff_portable ∅ hlower hs (not_lt.1 hkey), condition,
      if_neg (by rw [hmouse]; decide)]
    refine and_congr_right fun henclosed => ?_
    have hparse : cfg.parseCondition (h.call toLower).name (h.call toLower).argList =
        (ConfigReadContext.parseKeystroke (h.keySequence.toString toLower) ∅).map fun info =>
          .keystroke info.key info.mask := by
      rw [hargs henclosed, call, hmouse]
      rfl
    rw [hparse]
    constructor
    · rintro ⟨condition, hcondition, hread⟩
      obtain ⟨info, hinfo, rfl⟩ := Option.map_eq_some_iff.1 hcondition
      obtain ⟨info', hinfo', heq⟩ := Option.map_eq_some_iff.1 hread
      obtain ⟨hid, hmask⟩ := InputFilter.Condition.keystroke.inj heq
      refine ⟨info, hinfo, hinfo'.trans (congrArg some ?_)⟩
      rw [KeySequence.parseKeystroke_eq hinfo', hid, hmask]
    · rintro ⟨info, hinfo, hread⟩
      exact ⟨_, Option.map_eq_some_iff.2 ⟨info, hinfo, rfl⟩, by rw [hread]; rfl⟩

/-! ### Effects of the actions -/

variable {a : Gui.Action} {e : Effect} {es es' : List Effect} {rule : Rule}

/-- The actions stand for the effects. -/
def Meant (toLower : ℕ → ℕ) (cfg : Config) (as : List Gui.Action) (es : List Effect) : Prop :=
  List.Forall₂ (fun a e => a.effect toLower cfg = some e) as es

theorem release_of_meant (h : Meant toLower cfg as es) :
    es.map Effect.release = as.map Gui.Action.releases := by
  induction h with
  | nil => rfl
  | cons he _ ih => rw [List.map_cons, List.map_cons, ih, Gui.Action.release_of_effect he]

theorem release_of_reads (hcs : Calls toLower as cs) (h : List.Forall₂ (Reads cfg) cs es) :
    es.map Effect.release = as.map Gui.Action.releases := by
  induction hcs generalizing es with
  | nil =>
    cases h
    rfl
  | cons hc _ ih =>
    cases h with
    | cons hread h =>
      rw [List.map_cons, List.map_cons, ih h, hread.release_eq, Gui.Action.releases_call hc]

/-- Actions that are not active on release add their effects as the server does. -/
theorem foldlM_unmarked (has : ∀ a ∈ as, a.activeOnRelease = false) (r : Rule) :
    as.foldlM (fun rule a => (a.effect toLower cfg).map (addEffect a.activeOnRelease rule)) rule =
        some r ↔
      ∃ es, Meant toLower cfg as es ∧ r = es.foldl (fun rule e => adopt rule e true) rule := by
  induction as generalizing rule with
  | nil =>
    constructor
    · intro h
      cases h
      exact ⟨[], .nil, rfl⟩
    · rintro ⟨es, hes, rfl⟩
      cases hes
      rfl
  | cons a as ih =>
    obtain ⟨ha, has⟩ := List.forall_mem_cons.1 has
    rw [List.foldlM_cons, Option.bind_eq_bind, Option.bind_eq_some_iff]
    constructor
    · rintro ⟨rule', hrule, h⟩
      obtain ⟨e, he, rfl⟩ := Option.map_eq_some_iff.1 hrule
      obtain ⟨es, hes, rfl⟩ := (ih has).1 h
      refine ⟨e :: es, .cons he hes, ?_⟩
      rw [ha]
      rfl
    · rintro ⟨es, hes, rfl⟩
      cases hes with
      | cons he hes =>
        refine ⟨_, Option.map_eq_some_iff.2 ⟨_, he, rfl⟩, (ih has).2 ⟨_, hes, ?_⟩⟩
        rw [ha]
        rfl

/-- Effects are the same if they do the same on activation and release alike. -/
theorem effects_eq (haction : es.map Effect.action = es'.map Effect.action)
    (hrelease : es.map Effect.release = es'.map Effect.release) : es = es' := by
  induction es generalizing es' with
  | nil => exact (List.map_eq_nil_iff.1 haction.symm).symm
  | cons e es ih =>
    cases es' with
    | nil => cases haction
    | cons e' es' =>
      obtain ⟨ha, has⟩ := List.cons.inj haction
      obtain ⟨hr, hrs⟩ := List.cons.inj hrelease
      obtain ⟨action, release⟩ := e
      obtain ⟨action', release'⟩ := e'
      cases ha
      cases hr
      rw [ih has hrs]

/-- What is pressed first is not a release. -/
theorem released_ne (he : a.effect toLower cfg = some e) (hrelease : e.release = true)
    (action : InputFilter.Action) : released action ≠ e.action := by
  have htype : a.type = .keystroke := by
    rw [Gui.Action.release_of_effect he, Gui.Action.releases, decide_eq_true_eq] at hrelease
    exact hrelease
  have hpress : a.presses = true := by
    rw [Gui.Action.presses, htype]
    rfl
  rw [Gui.Action.effect_types (.inr (.inr htype)), hpress] at he
  split_ifs at he
  · obtain ⟨info, -, rfl⟩ := Option.map_eq_some_iff.1 he
    cases action <;> simp [released]
  · obtain ⟨info, -, he⟩ := Option.bind_eq_some_iff.1 he
    obtain ⟨screens, -, rfl⟩ := Option.map_eq_some_iff.1 he
    cases action <;> simp [released]

/-- Effects that are added for activation can be told from the rule. -/
theorem effects_eq_of_unmarked
    (heq : es.foldl (fun rule e => adopt rule e true) rule =
      es'.foldl (fun rule e => adopt rule e true) rule)
    (hrelease : es.map Effect.release = es'.map Effect.release) : es = es' := by
  have hactions := congrArg Rule.activateActions heq
  rw [RuleText.foldl_adopt_activate.1, RuleText.foldl_adopt_activate.1] at hactions
  exact effects_eq (List.append_cancel_left hactions) hrelease

/-- Effects that are added for deactivation are those that are meant only if the first one does not
release what it presses, and the others do. -/
theorem effects_eq_of_marked {e' : Effect} (hnil : rule.activateActions = [])
    (hnil' : rule.deactivateActions = [])
    (hfirst : e'.release = true → ∀ action, released action ≠ e'.action)
    (heq : (e :: es).foldl (fun rule e => adopt rule e false) rule =
      es'.foldl (fun rule e => adopt rule e true) (addEffect true rule e'))
    (hrelease : (e :: es).map Effect.release = (e' :: es').map Effect.release) :
    e.release = false ∧ (∀ x ∈ es, x.release = true) ∧ e :: es = e' :: es' := by
  obtain ⟨hr, hrs⟩ := List.cons.inj hrelease
  have hact := congrArg Rule.activateActions heq
  have hdeact := congrArg (List.head? ∘ Rule.deactivateActions) heq
  rw [RuleText.foldl_adopt_deactivate.1, RuleText.foldl_adopt_activate.1] at hact
  simp only [Function.comp_apply] at hdeact
  rw [RuleText.foldl_adopt_deactivate.2, RuleText.foldl_adopt_activate.2] at hdeact
  -- The first thing that is done on deactivation.
  have hhead : (if e.release then released e.action else e.action) = e'.action := by
    rw [addEffect, if_pos rfl] at hdeact
    dsimp only at hdeact
    rw [hnil', List.nil_append, List.nil_append, List.map_cons, List.head?_cons] at hdeact
    cases hr' : e'.release <;> rw [hr'] at hdeact <;> exact Option.some.inj hdeact
  have hfalse : e.release = false := by
    by_contra htrue
    rw [Bool.not_eq_false] at htrue
    rw [if_pos htrue] at hhead
    exact hfirst (hr.symm.trans htrue) _ hhead
  rw [hfalse, if_neg Bool.false_ne_true] at hhead
  -- As many others release as there are others.
  have hactions : (es.filter Effect.release).map Effect.action = es'.map Effect.action := by
    rw [addEffect, if_pos rfl] at hact
    dsimp only at hact
    rw [hnil, List.nil_append, List.nil_append, List.filter_cons_of_neg (by rw [hfalse]; decide)]
      at hact
    exact hact
  have hlength : (es.filter Effect.release).length = es.length := by
    have h₁ := congrArg List.length hactions
    have h₂ := congrArg List.length hrs
    simp only [List.length_map] at h₁ h₂
    rw [h₁, h₂]
  have hall : es.filter Effect.release = es := List.filter_sublist.eq_of_length hlength
  rw [hall] at hactions
  refine ⟨hfalse, List.filter_eq_self.1 hall, ?_⟩
  obtain ⟨action, release⟩ := e
  obtain ⟨action', release'⟩ := e'
  cases hhead
  cases hr
  rw [effects_eq hactions hrs]

/-- The rules agree if the first action is active on release, does not release what it presses, and
the others do. -/
theorem foldl_marked (he : e.release = false) (hes : ∀ x ∈ es, x.release = true) :
    (e :: es).foldl (fun rule e => adopt rule e false) rule =
      es.foldl (fun rule e => adopt rule e true) (addEffect true rule e) := by
  have hfirst : adopt rule e false = addEffect true rule e := by
    rw [adopt, addEffect, he]
    rfl
  rw [List.foldl_cons, hfirst]
  generalize addEffect true rule e = rule
  induction es generalizing rule with
  | nil => rfl
  | cons x es ih =>
    obtain ⟨hx, hes⟩ := List.forall_mem_cons.1 hes
    have hadopt : adopt rule x false = adopt rule x true := by
      rw [adopt, adopt, if_pos hx, if_pos hx]
    rw [List.foldl_cons, List.foldl_cons, hadopt]
    exact ih hes _

/-- Actions that are read as they are meant are portable. -/
theorem portable_of_effects (hlower : LowersCode toLower) (hmade : ∀ a ∈ as, a.Made toLower)
    (hcs : Calls toLower as cs)
    (henclosed : ∀ c ∈ cs, ∀ args ∈ c.args, Enclosed args ∧ ¬ BlankLast args)
    (hmeant : Meant toLower cfg as es) (hreads : List.Forall₂ (Reads cfg) cs es) :
    ∀ a ∈ as, a.Portable cfg := by
  induction hcs generalizing es with
  | nil => exact fun a ha => by cases ha
  | cons hc _ ih =>
    cases hmeant with
    | cons he hmeant =>
      cases hreads with
      | cons hread hreads =>
        obtain ⟨ha, hmade⟩ := List.forall_mem_cons.1 hmade
        obtain ⟨hargs, henclosed⟩ := List.forall_mem_cons.1 henclosed
        exact List.forall_mem_cons.2
          ⟨(Gui.Action.readAsMeant_iff_portable hlower ha hc).1 ⟨hargs, _, he, hread⟩,
            ih hmade henclosed hmeant hreads⟩

/-- Portable actions are read as they are meant. -/
theorem effects_of_portable (hlower : LowersCode toLower) (hmade : ∀ a ∈ as, a.Made toLower)
    (hportable : ∀ a ∈ as, a.Portable cfg) (hcs : Calls toLower as cs) :
    (∀ c ∈ cs, ∀ args ∈ c.args, Enclosed args ∧ ¬ BlankLast args) ∧
      ∃ es, Meant toLower cfg as es ∧ List.Forall₂ (Reads cfg) cs es := by
  induction hcs with
  | nil => exact ⟨fun c hc => (by cases hc), [], .nil, .nil⟩
  | cons hc _ ih =>
    obtain ⟨ha, hmade⟩ := List.forall_mem_cons.1 hmade
    obtain ⟨hp, hportable⟩ := List.forall_mem_cons.1 hportable
    obtain ⟨henclosed, es, hmeant, hreads⟩ := ih hmade hportable
    obtain ⟨hargs, e, he, hread⟩ := (Gui.Action.readAsMeant_iff_portable hlower ha hc).2 hp
    exact ⟨List.forall_mem_cons.2 ⟨hargs, henclosed⟩, e :: es, .cons he hmeant, .cons hread hreads⟩

/-! ### Hotkeys -/

theorem Calls.exists_of_mem (hcs : Calls toLower as cs) (hc : c ∈ cs) :
    ∃ a ∈ as, a.call toLower = some c := by
  induction hcs with
  | nil => cases hc
  | cons hcall _ ih =>
    rcases List.mem_cons.1 hc with rfl | hc
    · exact ⟨_, List.mem_cons_self, hcall⟩
    · obtain ⟨a, ha, hcall⟩ := ih hc
      exact ⟨a, List.mem_cons_of_mem _ ha, hcall⟩

/-- The marks of the calls are those of the actions. -/
theorem Calls.marked (hcs : Calls toLower as cs) (h : ∀ c ∈ cs, c.marked = false) :
    ∀ a ∈ as, a.activeOnRelease = false := by
  induction hcs with
  | nil => exact fun a ha => by cases ha
  | cons hc _ ih =>
    obtain ⟨hmarked, h⟩ := List.forall_mem_cons.1 h
    rw [(Gui.Action.named_of_call hc).2] at hmarked
    exact List.forall_mem_cons.2 ⟨hmarked, ih h⟩

variable (hlower : LowersCode toLower) (hmade : h.Made toLower)
  (hs : Shaped toLower h.keySequence mods key) (hactions : h.actions = a :: as)
  (hcs : Calls toLower (a :: as) (c :: cs))

include hcs in
/-- The names on the line are made of letters. -/
theorem named_line : ∀ c' ∈ h.call toLower :: c :: cs, c'.Named := by
  intro c' hc'
  rcases List.mem_cons.1 hc' with rfl | hc'
  · exact named_call toLower h
  · obtain ⟨a', -, hcall⟩ := hcs.exists_of_mem hc'
    exact (Gui.Action.named_of_call hcall).1

include hlower hmade hactions hcs in
/-- The actions on the line are closed or broken. -/
theorem readable_line : RuleText.Readable (c :: cs) := by
  intro c' hc'
  obtain ⟨a', ha', hcall⟩ := hcs.exists_of_mem hc'
  rw [← hactions] at ha'
  exact ⟨(Gui.Action.named_of_call hcall).1,
    Gui.Action.closed_or_broken hlower (hmade.actions a' ha') hcall⟩

include hlower hmade hs hactions hcs in
/-- The line is one line. -/
theorem newline_line : '\n' ∉ ruleLine (h.call toLower) c cs := by
  suffices hline : ∀ x ∈ ruleLine (h.call toLower) c cs, x ≠ '\n' from
    fun hmem => hline _ hmem rfl
  refine (RuleText.forall_ruleLine (P := (· ≠ '\n')) (by decide) fun c' hc' x hx => ?_).2 ?_
  · rintro rfl
    exact absurd ((named_line hcs c' hc').2 _ hx) (by decide)
  · intro c' hc' args hargs x hx
    rintro rfl
    rcases List.mem_cons.1 hc' with rfl | hc'
    · cases hargs
      exact KeySequence.newline_toString hlower hs hx
    · obtain ⟨a', ha', hcall⟩ := hcs.exists_of_mem hc'
      rw [← hactions] at ha'
      exact Gui.Action.newline_args hlower (hmade.actions a' ha') hcall args hargs hx

include hcs in
/-- The characters of a line of closed calls are valid exactly if the arguments are enclosed. -/
theorem valid_line (hclosed : ∀ c' ∈ h.call toLower :: c :: cs, c'.Closed) :
    (strip (ruleLine (h.call toLower) c cs)).all ConfigReadContext.isValid = true ↔
      ∀ c' ∈ h.call toLower :: c :: cs, ∀ args ∈ c'.args, Enclosed args := by
  have hnamed := named_line (h := h) hcs
  obtain ⟨hcond, hclosed'⟩ := List.forall_mem_cons.1 hclosed
  obtain ⟨hncond, hnamed'⟩ := List.forall_mem_cons.1 hnamed
  rw [RuleText.strip_ruleLine ⟨hncond, hcond⟩ fun c' hc' => ⟨hnamed' c' hc', hclosed' c' hc'⟩,
    List.all_eq_true,
    RuleText.forall_ruleLine (P := (ConfigReadContext.isValid · = true)) (by decide)]
  · constructor
    · intro hvalid c' hc' args hargs x hx
      obtain ⟨hcomment, hclose, -⟩ := hclosed c' hc' args hargs
      refine ⟨hvalid c' hc' args hargs x hx, ?_, ?_⟩
      · rintro rfl
        exact hcomment hx
      · rintro rfl
        exact hclose hx
    · exact fun henclosed c' hc' args hargs x hx => (henclosed c' hc' args hargs x hx).1
  · intro c' hc' x hx
    have hname : Gui.Action.isNameChar x = true := by
      simp [Gui.Action.isNameChar, Char.isAlphanum, (hnamed c' hc').2 x hx]
    exact (Gui.Action.isScreenChar_spec (Gui.Action.screenChar_of_name hname)).2.2

theorem addEffect_condition {b : Bool} : (addEffect b rule e).condition = rule.condition := by
  unfold addEffect
  split_ifs
  · rfl
  · rfl
  · exact RuleText.adopt_condition

include hlower hmade hs hactions hcs in
/-- A hotkey whose line is read as the rule that it stands for is portable. -/
theorem portable_of_read (hrule : h.rule toLower cfg = some rule)
    (hread : cfg.readSectionOptions (Text.splitOn '\n'
      ('\t' :: ruleLine (h.call toLower) c cs ++ ['\n'] ++ "end\n".toList)) = some [.rule rule]) :
    h.Portable cfg := by
  rw [readSectionOptions_ruleLine (newline_line hlower hmade hs hactions hcs)] at hread
  split_ifs at hread with hvalid
  obtain ⟨o, hoption, ho⟩ := Option.map_eq_some_iff.1 hread
  cases ho
  -- The line was read, so all calls on it are closed, and only the first one is marked.
  have hcond := named_call toLower h
  have hreadable := readable_line hlower hmade hactions hcs
  obtain ⟨hclosed, hc, hrest⟩ := RuleText.readOption_some cfg hcond (fun h => (by cases h))
    (call_not_setting toLower h) (closed_or_broken hlower hs) hreadable hoption
  have hclosed' : ∀ c' ∈ h.call toLower :: c :: cs, c'.Closed :=
    List.forall_mem_cons.2 ⟨hclosed, List.forall_mem_cons.2 ⟨hc, fun c' hc' => (hrest c' hc').1⟩⟩
  obtain ⟨hkeys, hargs⟩ := List.forall_mem_cons.1 ((valid_line hcs hclosed').1 hvalid)
  have henclosed : ∀ c' ∈ c :: cs, ∀ args ∈ c'.args, Enclosed args ∧ ¬ BlankLast args :=
    fun c' hc' args hmem => ⟨hargs c' hc' args hmem,
      (hclosed' c' (List.mem_cons_of_mem _ hc') args hmem).2.2⟩
  have hnamed : ∀ c' ∈ c :: cs, c'.Named := fun c' hc' => (hreadable c' hc').1
  obtain ⟨hcnamed, hcsnamed⟩ := List.forall_mem_cons.1 hnamed
  rw [RuleText.readOption_eq cfg hcond (fun h => (by cases h)) (call_not_setting toLower h) hclosed
    ⟨hcnamed, hc⟩ fun c' hc' => ⟨hcsnamed c' hc', hrest c' hc'⟩] at hoption
  obtain ⟨rule', hrule', heq⟩ := Option.map_eq_some_iff.1 hoption
  cases heq
  obtain ⟨condition, hcondition, hfold⟩ := Option.bind_eq_some_iff.1 hrule'
  obtain ⟨es, hreads, hes⟩ := RuleText.reads_of_foldlM hfold
  -- It was read as what the hotkey stands for.
  obtain ⟨condition', hcondition', hmeant⟩ := Option.bind_eq_some_iff.1 hrule
  have hactions' := hmade.actions
  rw [hactions] at hmeant hactions'
  have hkeySequence (heq : condition = condition') : h.keySequence.Portable :=
    (condition_iff hlower hs).1 ⟨hkeys _ rfl, condition', hcondition', heq ▸ hcondition⟩
  have hcondition_eq : rule.condition = some condition := by
    rw [hes, RuleText.foldl_adopt_condition]
  have hrelease := release_of_reads hcs hreads
  cases hmarked : c.marked with
  | false =>
    rw [hmarked] at hes
    have hunmarked :=
      Calls.marked hcs (List.forall_mem_cons.2 ⟨hmarked, fun c' hc' => (hrest c' hc').2⟩)
    obtain ⟨es', hes'm, hes'⟩ := (foldlM_unmarked hunmarked rule).1 hmeant
    have hcondition_eq' : rule.condition = some condition' := by
      rw [hes', RuleText.foldl_adopt_condition]
    obtain rfl := Option.some.inj (hcondition_eq.symm.trans hcondition_eq')
    rw [← release_of_meant hes'm] at hrelease
    obtain rfl := effects_eq_of_unmarked (hes.symm.trans hes') hrelease
    refine ⟨hkeySequence rfl, ?_, .inl ?_⟩
    · rw [hactions]
      exact portable_of_effects hlower hactions' hcs henclosed hes'm hreads
    · rw [hactions]
      exact hunmarked
  | true =>
    rw [hmarked] at hes
    cases hcs with
    | cons hcall hcs' =>
      have ha : a.activeOnRelease = true := (Gui.Action.named_of_call hcall).2 ▸ hmarked
      have hunmarked := Calls.marked hcs' fun c' hc' => (hrest c' hc').2
      rw [List.foldlM_cons, ha] at hmeant
      obtain ⟨rule₁, hrule₁, hmeant⟩ := Option.bind_eq_some_iff.1 hmeant
      obtain ⟨e', he', rfl⟩ := Option.map_eq_some_iff.1 hrule₁
      obtain ⟨es', hes'm, hes'⟩ := (foldlM_unmarked hunmarked rule).1 hmeant
      have hcondition_eq' : rule.condition = some condition' := by
        rw [hes', RuleText.foldl_adopt_condition, addEffect_condition]
      obtain rfl := Option.some.inj (hcondition_eq.symm.trans hcondition_eq')
      have hall : Meant toLower cfg (a :: as) (e' :: es') := .cons he' hes'm
      rw [← release_of_meant hall] at hrelease
      cases hreads with
      | @cons _ e _ es hread hreads =>
        obtain ⟨hfalse, htrue, heq⟩ := effects_eq_of_marked rfl rfl
          (fun h => released_ne he' h) (hes.symm.trans hes') hrelease
        have htypes := release_of_meant hall
        rw [← heq, List.map_cons, List.map_cons] at htypes
        obtain ⟨hfirst, hothers⟩ := List.cons.inj htypes
        rw [← heq] at hall
        refine ⟨hkeySequence rfl, ?_, .inr ⟨a, as, hactions, ha, ?_, fun b hb => ?_⟩⟩
        · rw [hactions]
          exact portable_of_effects hlower hactions' (.cons hcall hcs') henclosed hall
            (.cons hread hreads)
        · rw [hfalse, Gui.Action.releases] at hfirst
          exact of_decide_eq_false hfirst.symm
        · refine ⟨hunmarked b hb, ?_⟩
          have hb' : b.releases ∈ es.map Effect.release := hothers ▸ List.mem_map_of_mem hb
          obtain ⟨x, hx, hxb⟩ := List.mem_map.1 hb'
          rw [htrue x hx] at hxb
          exact of_decide_eq_true hxb.symm

variable (toLower) in
theorem calls_of_portable (hportable : ∀ a ∈ as, a.Portable cfg) : ∃ cs, Calls toLower as cs := by
  induction as with
  | nil => exact ⟨[], .nil⟩
  | cons a as ih =>
    obtain ⟨ha, has⟩ := List.forall_mem_cons.1 hportable
    obtain ⟨c, hc⟩ := Gui.Action.call_of_portable toLower ha
    obtain ⟨cs, hcs⟩ := ih has
    exact ⟨c :: cs, .cons hc hcs⟩

theorem Calls.unmarked (hcs : Calls toLower as cs) (h : ∀ a ∈ as, a.activeOnRelease = false) :
    ∀ c ∈ cs, c.marked = false := by
  intro c hc
  obtain ⟨a, ha, hcall⟩ := hcs.exists_of_mem hc
  exact (Gui.Action.named_of_call hcall).2.trans (h a ha)

/-- Only the first action of an ordered hotkey is active on release. -/
theorem Ordered.rest (horder : h.Ordered) (hactions : h.actions = a :: as) :
    ∀ b ∈ as, b.activeOnRelease = false := by
  rcases horder with hall | ⟨a', as', heq, -, -, hrest⟩
  · rw [hactions] at hall
    exact (List.forall_mem_cons.1 hall).2
  · rw [hactions] at heq
    cases heq
    exact fun b hb => (hrest b hb).1

/-- The effects of an ordered hotkey make the rule that it stands for. -/
theorem rule_of_ordered (horder : h.Ordered) (hactions : h.actions = a :: as)
    (hmeant : Meant toLower cfg (a :: as) es) {condition : InputFilter.Condition}
    (hcondition : h.condition toLower = some condition) :
    h.rule toLower cfg = some (es.foldl (fun rule e => adopt rule e (!a.activeOnRelease))
      { condition := some condition }) := by
  rw [Hotkey.rule, hcondition, Option.bind_some, hactions]
  have hrest := horder.rest hactions
  cases ha : a.activeOnRelease with
  | false => exact (foldlM_unmarked (List.forall_mem_cons.2 ⟨ha, hrest⟩) _).2 ⟨es, hmeant, rfl⟩
  | true =>
    -- The first action does not release what it presses, and the others do.
    have htypes : a.type ≠ .keystroke ∧ ∀ b ∈ as, b.type = .keystroke := by
      rcases horder with hall | ⟨a', as', heq, -, hne, hothers⟩
      · rw [hactions] at hall
        have hfalse := (List.forall_mem_cons.1 hall).1
        rw [ha] at hfalse
        cases hfalse
      · rw [hactions] at heq
        cases heq
        exact ⟨hne, fun b hb => (hothers b hb).2⟩
    have hrelease := release_of_meant hmeant
    cases hmeant with
    | @cons _ e _ es he hmeant =>
      obtain ⟨hfirst, hothers⟩ := List.cons.inj hrelease
      have hfalse : e.release = false := hfirst.trans (decide_eq_false htypes.1)
      have htrue : ∀ x ∈ es, x.release = true := by
        intro x hx
        have hx' : x.release ∈ as.map Gui.Action.releases := hothers ▸ List.mem_map_of_mem hx
        obtain ⟨b, hb, heq⟩ := List.mem_map.1 hx'
        rw [← heq]
        exact decide_eq_true (htypes.2 b hb)
      rw [List.foldlM_cons, ha, he]
      refine (foldlM_unmarked hrest _).2 ⟨es, hmeant, ?_⟩
      exact foldl_marked hfalse htrue

include hlower hmade hs hactions in
/-- The line of a portable hotkey is read as the rule that it stands for. -/
theorem read_of_portable (hportable : h.Portable cfg) :
    ∃ c cs, Calls toLower (a :: as) (c :: cs) ∧ ∃ rule ∈ h.rule toLower cfg,
      cfg.readSectionOptions (Text.splitOn '\n'
        ('\t' :: ruleLine (h.call toLower) c cs ++ ['\n'] ++ "end\n".toList)) =
      some [.rule rule] := by
  obtain ⟨hkeySequence, hpactions, horder⟩ := hportable
  have hmactions := hmade.actions
  rw [hactions] at hpactions hmactions
  obtain ⟨hkeys, condition, hcondition, hparse⟩ := (condition_iff hlower hs).2 hkeySequence
  obtain ⟨cs, hcs⟩ := calls_of_portable toLower hpactions
  obtain ⟨henclosed, es, hmeant, hreads⟩ := effects_of_portable hlower hmactions hpactions hcs
  cases cs with
  | nil => cases hcs
  | cons c cs =>
    refine ⟨c, cs, hcs, _, rule_of_ordered horder hactions hmeant hcondition, ?_⟩
    have hcond : Enclosed (h.keySequence.toString toLower) ∧
        ¬ BlankLast (h.keySequence.toString toLower) :=
      ⟨hkeys, Gui.Action.not_blankLast_tame (KeySequence.toString_ne_nil hs)
        (Gui.Action.tame_of_enclosed hlower hs hkeys)⟩
    have hall : ∀ c' ∈ h.call toLower :: c :: cs, ∀ args ∈ c'.args,
        Enclosed args ∧ ¬ BlankLast args :=
      List.forall_mem_cons.2 ⟨fun args hargs => (by cases hargs; exact hcond), henclosed⟩
    have hclosed : ∀ c' ∈ h.call toLower :: c :: cs, c'.Closed := fun c' hc' args hargs =>
      ⟨fun hx => ((hall c' hc' args hargs).1 _ hx).2.1 rfl,
        fun hx => ((hall c' hc' args hargs).1 _ hx).2.2 rfl, (hall c' hc' args hargs).2⟩
    have hnamed := named_line (h := h) hcs
    obtain ⟨hclosedcond, hclosedc, hclosedcs⟩ :=
      (List.forall_mem_cons.1 hclosed).imp_right List.forall_mem_cons.1
    obtain ⟨hnamedcond, hnamedc, hnamedcs⟩ :=
      (List.forall_mem_cons.1 hnamed).imp_right List.forall_mem_cons.1
    cases hcs with
    | cons hcall hcs' =>
      have hunmarked := Calls.unmarked hcs' (horder.rest hactions)
      rw [readSectionOptions_ruleLine (newline_line hlower hmade hs hactions (.cons hcall hcs')),
        if_pos ((valid_line (.cons hcall hcs') hclosed).2
          fun c' hc' args hargs => (hall c' hc' args hargs).1),
        RuleText.readOption_eq cfg hnamedcond (fun h => (by cases h)) (call_not_setting toLower h)
          hclosedcond ⟨hnamedc, hclosedc⟩
          (fun c' hc' => ⟨hnamedcs c' hc', hclosedcs c' hc', hunmarked c' hc'⟩),
        hparse, Option.bind_some, RuleText.foldlM_of_reads hreads,
        (Gui.Action.named_of_call hcall).2]
      rfl

/-- **A hotkey is read as it is written** exactly if it is portable. -/
theorem readAsWritten_iff_portable (hlower : LowersCode toLower) (hmade : h.Made toLower) :
    h.ReadAsWritten toLower cfg ↔ h.Portable cfg := by
  obtain ⟨mods, key, hs⟩ := KeySequence.shaped_of_recorded hmade.keySequence
  obtain ⟨a, as, hactions⟩ := List.exists_cons_of_ne_nil hmade.nonempty
  constructor
  · rintro ⟨rule, hrule, text, htext, hread⟩
    have hwrite := htext
    rw [Option.mem_def, write, hactions, if_neg (List.cons_ne_nil _ _)] at htext
    obtain ⟨texts, htexts, -⟩ := Option.map_eq_some_iff.1 htext
    obtain ⟨cs, hcs⟩ := calls_of_mapM htexts
    cases cs with
    | nil => cases hcs
    | cons c cs =>
      rw [Option.mem_def, write_eq hactions hcs] at hwrite
      cases hwrite
      exact portable_of_read hlower hmade hs hactions hcs hrule hread
  · intro hportable
    obtain ⟨c, cs, hcs, rule, hrule, hread⟩ := read_of_portable hlower hmade hs hactions hportable
    exact ⟨rule, hrule, _, write_eq hactions hcs, hread⟩

/-! ### Examples -/

/-- The key F1. -/
def functionKey : KeySequence := ⟨[keyF1], 0, true⟩

/-- An action that toggles the screen. -/
def toggle (activeOnRelease : Bool) : Gui.Action :=
  ⟨{}, .toggleScreen, [], "", .left, .toggle, activeOnRelease, false⟩

theorem lowersCode_id : LowersCode id := fun _ hlow hhigh => ⟨by rw [id]; omega, hhigh⟩

theorem recorded_functionKey : functionKey.Recorded id := by
  refine ⟨[.key keyF1 0], ?_, by decide +kernel⟩
  intro p hp
  obtain rfl := List.mem_singleton.1 hp
  refine ⟨by decide, by decide, fun n hn => ?_⟩
  rw [Nat.zero_testBit] at hn
  cases hn

theorem made_toggle (b : Bool) : (toggle b).Made id :=
  ⟨fun h => absurd h (by rcases b with _ | _ <;> decide), nofun, nofun⟩

/-- A key that toggles the screen is read as it is written. -/
theorem toggle_readAsWritten : Hotkey.ReadAsWritten id {} ⟨functionKey, [toggle false]⟩ := by
  refine (readAsWritten_iff_portable lowersCode_id ⟨recorded_functionKey, by simp, ?_⟩).2 ?_
  · exact List.forall_mem_singleton.2 (made_toggle false)
  · exact ⟨by decide, List.forall_mem_singleton.2 (by decide +kernel),
      .inl (List.forall_mem_singleton.2 rfl)⟩

/-- One that toggles it again on release is not. -/
theorem toggle_release_not_readAsWritten :
    Hotkey.Made id ⟨functionKey, [toggle false, toggle true]⟩ ∧
      ¬ Hotkey.ReadAsWritten id {} ⟨functionKey, [toggle false, toggle true]⟩ := by
  refine ⟨⟨recorded_functionKey, by simp, ?_⟩, ?_⟩
  · exact List.forall_mem_cons.2 ⟨made_toggle false, List.forall_mem_singleton.2 (made_toggle true)⟩
  · rintro ⟨rule, -, text, htext, hread⟩
    have hwrite : Hotkey.write id ⟨functionKey, [toggle false, toggle true]⟩ =
        some "\tkeystroke(F1) = toggleScreen, ;toggleScreen\n".toList := by
      decide +kernel
    rw [Option.mem_def, hwrite] at htext
    cases htext
    have hnone : Config.readSectionOptions {} (Text.splitOn '\n'
        ("\tkeystroke(F1) = toggleScreen, ;toggleScreen\n".toList ++ "end\n".toList)) = none := by
      decide +kernel
    rw [hnone] at hread
    cases hread

end Hotkey

end Gui

end InputLeap
