import InputLeap.Server.InputFilter

/-!
# Who owns a key combination

What the ids of hot keys are for: a combination of keys belongs to the rule that grabbed it last,
and the rule performs its actions when the combination is pressed, however late the event comes.
Ids, their reuse and the array of rules do not show, but for one thing: a rule that the array
copied when it grew does not know its combinations any more.

## Main definitions

* `KeyOwners` : for each combination whether it is a hot key, and of which rule.
* `KeyOwners.lts` : its steps.
* `FilterRun.Related` : the filter's state and this one.

## Main results

* `FilterRun.refines_keyOwners` : in every run the filter takes the same key events for hot keys and
  performs the same actions.
* `FilterRun.mem_hotKeys_disable` : which hot keys the screen keeps in the end.
-/

namespace InputLeap

open InputFilter

namespace InputFilter

/-- The combinations of a rule. -/
def Rule.grabs (kb : XKeyboard) (errorAt : Option ℕ) (r : Rule) :
    Option (List HotKeyItem × Bool) :=
  match r.condition with
  | some (.keystroke key mask) => XWindowsScreen.grabs kb errorAt key mask
  | _ => none

/-- What a rule posts when its keys go down, or up. -/
def Rule.onHotKey (r : Rule) (down : Bool) : List Posted :=
  (if down then r.activateActions else r.deactivateActions).flatMap (·.perform (.hotKey down 0))

end InputFilter

/-- The rules and who owns which combination. -/
structure KeyOwners where
  rules : List Rule := []
  /-- The number of rules when the filter was enabled. -/
  enabledAt : Option ℕ := none
  /-- The owner of a hot key is a rule of the filter, by its number, or none of them. -/
  owner : HotKeyItem → Option (Option ℕ)
  posted : List (Bool × Option ℕ) := []
  taken : List Bool := []
  done : List (Option (List Posted)) := []

namespace KeyOwners

variable (grow : ℕ → ℕ) (s : KeyOwners)

/-- The rule `n` takes the combinations; if it fails they belong to nobody. -/
def grab (n : ℕ) (grabbed : Option (List HotKeyItem × Bool))
    (owner : HotKeyItem → Option (Option ℕ)) : HotKeyItem → Option (Option ℕ) :=
  match grabbed with
  | none => owner
  | some (items, true) => fun item => if items.contains item then none else owner item
  | some (items, false) => fun item => if items.contains item then some (some n) else owner item

/-- The rules from the number `n` on take their combinations, one after the other. -/
def grabAll (kb : XKeyboard) (errors : ℕ → Option ℕ) : ℕ → List Rule →
    (HotKeyItem → Option (Option ℕ)) → HotKeyItem → Option (Option ℕ)
  | _, [], owner => owner
  | n, r :: rs, owner => grabAll kb errors (n + 1) rs (grab n (r.grabs kb (errors n)) owner)

/-- What is done with a hot key event.  A rule that was lost in the meantime does nothing. -/
def onHotKey (since : ℕ) (down : Bool) (i : Option ℕ) : Option (List Posted) :=
  i.bind fun i =>
    if Growing.Lost grow since i s.rules.length then none else s.rules[i]?.map (·.onHotKey down)

/-- An event is handled once the filter is enabled; `since` is the number of rules then. -/
def handled (v : ℕ → Option (List Posted)) : KeyOwners :=
  match s.enabledAt with
  | none => s
  | some since => { s with done := s.done ++ [v since] }

/-- One step. -/
def step : FilterRun.Act → Option KeyOwners
  | .addFilterRule rule kb errorAt =>
    match s.enabledAt with
    | none => some { s with rules := s.rules ++ [rule] }
    | some _ =>
      some { s with
        rules := s.rules ++ [rule]
        owner := grab s.rules.length (rule.grabs kb errorAt) s.owner }
  | .enable kb errors =>
    match s.enabledAt with
    | none =>
      some { s with
        enabledAt := some s.rules.length
        owner := grabAll kb errors 0 s.rules s.owner }
    | some _ => some s
  | .key e isRepeat =>
    match s.owner (e.keycode, e.state &&& HotKeys.excludeMask), e.down? with
    | some i, some down =>
      some { s with
        posted := s.posted ++ if isRepeat then [] else [(down, i)]
        taken := s.taken ++ [true] }
    | _, _ => some { s with taken := s.taken ++ [false] }
  | .deliver =>
    match s.posted with
    | [] => none
    | (down, i) :: posted =>
      some ({ s with posted }.handled fun since => s.onHotKey grow since down i)
  | .input e =>
    match e with
    | .hotKey _ _ => none
    | e => some (s.handled fun _ => s.rules.findSome? fun r => Armed.handleEvent e ⟨r, 0⟩)

/-- The hot keys that the screen has at first belong to no rule. -/
def start (screen : HotKeys) : KeyOwners where
  owner item := (screen.hotKeyToIDMap item).map fun _ => none

def lts (screen : HotKeys) : LTS KeyOwners FilterRun.Act where
  init s := s = start screen
  step := step grow

end KeyOwners

namespace FilterRun

open KeyOwners (grab grabAll)

/-- The number of the rule with this id. -/
def indexOf (armed : List Armed) (id : ℕ) : Option ℕ := armed.findIdx? (·.id == id)

/-- The ids tell the rules with hot keys apart, and lead from a combination to its owner. -/
structure Linked (screen : HotKeys) (armed : List Armed)
    (owner : HotKeyItem → Option (Option ℕ)) : Prop where
  inv : screen.Inv
  mem : ∀ r ∈ armed, r.id ≠ 0 → r.id ∈ screen.hotKeys ∧
    ∃ key mask, r.rule.condition = some (.keystroke key mask)
  distinct : armed.Pairwise fun r r' => r.id ≠ 0 → r.id ≠ r'.id
  owner : ∀ item, owner item = (screen.hotKeyToIDMap item).map (indexOf armed)

variable {screen : HotKeys} {armed : List Armed} {owner : HotKeyItem → Option (Option ℕ)}
  {id : ℕ} {r : Armed}

/-! ### Enabling rules -/

theorem indexOf_concat (armed : List Armed) (r : Armed) (id : ℕ) :
    indexOf (armed ++ [r]) id =
      (indexOf armed id).or (if r.id = id then some armed.length else none) := by
  rw [indexOf, List.findIdx?_append]
  by_cases hid : r.id = id <;> simp [indexOf, hid]

theorem indexOf_concat_of_ne (armed : List Armed) (h : r.id ≠ id) :
    indexOf (armed ++ [r]) id = indexOf armed id := by
  rw [indexOf_concat, if_neg h, Option.or_none]

theorem Linked.ne_zero (h : Linked screen armed owner) (hid : id ∈ screen.hotKeys) : id ≠ 0 := by
  rintro rfl
  exact h.inv.not_zero hid

theorem Linked.mem_of_noted (h : Linked screen armed owner) {item : HotKeyItem}
    (hitem : screen.hotKeyToIDMap item = some id) : id ∈ screen.hotKeys := by
  obtain ⟨items, hitems, -⟩ := h.inv.noted item id hitem
  exact Std.TreeMap.mem_iff_isSome_getElem?.2 (by rw [hitems]; rfl)

/-- An id that is not in use belongs to no rule. -/
theorem Linked.indexOf_fresh (h : Linked screen armed owner) (hzero : id ≠ 0)
    (hid : id ∉ screen.hotKeys) : indexOf armed id = none := by
  refine List.findIdx?_eq_none_iff.2 fun r hr => ?_
  rw [beq_eq_false_iff_ne]
  rintro rfl
  exact hid (h.mem r hr hzero).1

/-- A rule without a hot key is added. -/
theorem Linked.concat_zero {screen' : HotKeys} {owner' : HotKeyItem → Option (Option ℕ)}
    (h : Linked screen armed owner) (hinv : screen'.Inv)
    (hsame : ∀ id : ℕ, screen'.hotKeys[id]? = screen.hotKeys[id]?) (hr : r.id = 0)
    (howner : ∀ item, owner' item = (screen'.hotKeyToIDMap item).map (indexOf armed)) :
    Linked screen' (armed ++ [r]) owner' := by
  have hmem (id : ℕ) : id ∈ screen'.hotKeys ↔ id ∈ screen.hotKeys := by
    rw [Std.TreeMap.mem_iff_isSome_getElem?, hsame, ← Std.TreeMap.mem_iff_isSome_getElem?]
  refine ⟨hinv, fun r' hr' hzero => ?_, ?_, fun item => ?_⟩
  · rcases List.mem_append.1 hr' with hin | hin
    · rw [hmem]
      exact h.mem r' hin hzero
    · obtain rfl := List.mem_singleton.1 hin
      exact absurd hr hzero
  · refine List.pairwise_append.2 ⟨h.distinct, List.pairwise_singleton _ _, ?_⟩
    rintro r₁ - r₂ hr₂ hzero
    obtain rfl := List.mem_singleton.1 hr₂
    rwa [hr]
  · rw [howner]
    refine Option.map_congr fun id hid => (indexOf_concat_of_ne armed ?_).symm
    rw [hr]
    rintro rfl
    obtain ⟨items, hitems, -⟩ := hinv.noted item 0 hid
    exact hinv.not_zero (Std.TreeMap.mem_iff_isSome_getElem?.2 (by rw [hitems]; rfl))

/-- A rule becomes a hot key. -/
theorem Linked.concat_id {screen' : HotKeys} {items : List HotKeyItem}
    (h : Linked screen armed owner) (hinv : screen'.Inv) (hzero : id ≠ 0)
    (hfresh : id ∉ screen.hotKeys)
    (hkeys : ∀ i : ℕ, screen'.hotKeys[i]? = if i = id then some items else screen.hotKeys[i]?)
    (hnoted : screen'.hotKeyToIDMap = screen.note id items) (hr : r.id = id)
    (hcondition : ∃ key mask, r.rule.condition = some (.keystroke key mask)) :
    Linked screen' (armed ++ [r]) (grab armed.length (some (items, false)) owner) := by
  have hmem (i : ℕ) : i ∈ screen'.hotKeys ↔ i = id ∨ i ∈ screen.hotKeys := by
    rw [Std.TreeMap.mem_iff_isSome_getElem?, hkeys]
    split_ifs with hi
    · simp [hi]
    · rw [← Std.TreeMap.mem_iff_isSome_getElem?]
      simp [hi]
  refine ⟨hinv, fun r' hr' hne => ?_, ?_, fun item => ?_⟩
  · rw [hmem]
    rcases List.mem_append.1 hr' with hin | hin
    · exact ⟨.inr (h.mem r' hin hne).1, (h.mem r' hin hne).2⟩
    · obtain rfl := List.mem_singleton.1 hin
      exact ⟨.inl hr, hcondition⟩
  · refine List.pairwise_append.2 ⟨h.distinct, List.pairwise_singleton _ _, ?_⟩
    rintro r₁ hr₁ r₂ hr₂ hne heq
    obtain rfl := List.mem_singleton.1 hr₂
    exact hfresh (hr ▸ heq ▸ (h.mem r₁ hr₁ hne).1)
  · rw [hnoted]
    unfold grab HotKeys.note
    simp only [List.contains_iff_mem]
    split_ifs with hin
    · rw [Option.map_some, indexOf_concat, h.indexOf_fresh hzero hfresh, if_pos hr, Option.none_or]
    · rw [h.owner]
      refine Option.map_congr fun i hi => (indexOf_concat_of_ne armed ?_).symm
      rw [hr]
      rintro rfl
      exact hfresh (h.mem_of_noted hi)

/-- A rule is enabled that was not before. -/
theorem Linked.enable (h : Linked screen armed owner) (kb : XKeyboard) (errorAt : Option ℕ)
    (hid : screen.HasId) (hr : r.id = 0) :
    Linked (r.enable kb errorAt screen).1 (armed ++ [(r.enable kb errorAt screen).2])
      (grab armed.length (r.rule.grabs kb errorAt) owner) := by
  have hplain (r' : Armed) (hr' : r'.id = 0) : Linked screen (armed ++ [r']) owner :=
    h.concat_zero h.inv (fun _ => rfl) hr' h.owner
  rcases hcondition : r.rule.condition with _ | ⟨key, mask⟩ | _ | _
  · simpa only [Armed.enable, Rule.grabs, hcondition, grab] using hplain r hr
  · obtain ⟨hregisters, hinv⟩ : HotKeys.Registers screen
        (XWindowsScreen.grabs kb errorAt key mask) (screen.registerHotKey kb errorAt key mask) ∧
        (screen.registerHotKey kb errorAt key mask).1.Inv := HotKeys.register_spec h.inv hid
    simp only [Armed.enable, Rule.grabs, hcondition]
    generalize screen.registerHotKey kb errorAt key mask = registered at hregisters hinv ⊢
    generalize XWindowsScreen.grabs kb errorAt key mask = grabbed at hregisters ⊢
    cases hregisters with
    | refused => exact hplain _ rfl
    | @failed screen' items hotKeys noted =>
      refine h.concat_zero hinv hotKeys rfl fun item => ?_
      rw [noted]
      unfold grab HotKeys.forget
      simp only [List.contains_iff_mem]
      split_ifs
      · rfl
      · exact h.owner item
    | @registered screen' items id zero fresh hotKeys noted =>
      exact h.concat_id hinv zero fresh hotKeys noted rfl ⟨key, mask, hcondition⟩
  · simpa only [Armed.enable, Rule.grabs, hcondition, grab] using hplain r hr
  · simpa only [Armed.enable, Rule.grabs, hcondition, grab] using hplain r hr

/-- What enabling a rule does to the ids. -/
theorem enable_spec (hinv : screen.Inv) (kb : XKeyboard) (errorAt : Option ℕ)
    (hid : screen.HasId) (hr : r.id = 0) :
    (r.enable kb errorAt screen).2.rule = r.rule ∧
    (r.enable kb errorAt screen).2.id ∉ screen.hotKeys ∧
    (∀ id, id ∈ (r.enable kb errorAt screen).1.hotKeys ↔
      id ∈ screen.hotKeys ∨ id = (r.enable kb errorAt screen).2.id ∧ id ≠ 0) ∧
    (r.enable kb errorAt screen).1.hotKeys.size ≤ screen.hotKeys.size + 1 := by
  have hplain (r' : Armed) (hr' : r'.id = 0) : r'.id ∉ screen.hotKeys ∧
      ∀ id, id ∈ screen.hotKeys ↔ id ∈ screen.hotKeys ∨ id = r'.id ∧ id ≠ 0 := by
    rw [hr']
    exact ⟨hinv.not_zero, fun id => (or_iff_left fun h => h.2 h.1).symm⟩
  rcases hcondition : r.rule.condition with _ | ⟨key, mask⟩ | _ | _
  · simp only [Armed.enable, hcondition]
    exact ⟨trivial, (hplain r hr).1, (hplain r hr).2, Nat.le_succ _⟩
  · have hregisters : HotKeys.Registers screen (XWindowsScreen.grabs kb errorAt key mask)
        (screen.registerHotKey kb errorAt key mask) := (HotKeys.register_spec hinv hid).1
    have hsize : (screen.registerHotKey kb errorAt key mask).1.hotKeys.size ≤ _ :=
      HotKeys.size_registerHotKey_le screen
    simp only [Armed.enable, hcondition]
    generalize screen.registerHotKey kb errorAt key mask = registered at hregisters hsize ⊢
    generalize XWindowsScreen.grabs kb errorAt key mask = grabbed at hregisters ⊢
    cases hregisters with
    | refused =>
      obtain ⟨hids, hnone⟩ := hplain { r with id := 0 } rfl
      exact ⟨trivial, hids, hnone, hsize⟩
    | failed hotKeys =>
      refine ⟨trivial, hinv.not_zero, fun id => ?_, hsize⟩
      rw [Std.TreeMap.mem_iff_isSome_getElem?, hotKeys, ← Std.TreeMap.mem_iff_isSome_getElem?]
      exact (or_iff_left fun h => h.2 h.1).symm
    | registered zero fresh hotKeys =>
      refine ⟨trivial, fresh, fun i => ?_, hsize⟩
      rw [Std.TreeMap.mem_iff_isSome_getElem?, hotKeys]
      split_ifs with hi
      · exact iff_of_true rfl (.inr ⟨hi, hi ▸ zero⟩)
      · rw [← Std.TreeMap.mem_iff_isSome_getElem?]
        exact (or_iff_left fun h => hi h.1).symm
  · simp only [Armed.enable, hcondition]
    exact ⟨trivial, (hplain r hr).1, (hplain r hr).2, Nat.le_succ _⟩
  · simp only [Armed.enable, hcondition]
    exact ⟨trivial, (hplain r hr).1, (hplain r hr).2, Nat.le_succ _⟩

/-- Enabling one rule after the other, behind those that are enabled. -/
theorem Linked.enableAll {rs : List Armed} (h : Linked screen armed owner) (kb : XKeyboard)
    (errors : ℕ → Option ℕ) (hzero : ∀ r ∈ rs, r.id = 0)
    (hsize : screen.hotKeys.size + rs.length < 2 ^ 32) :
    Linked (enableAll kb errors armed.length screen rs).1
        (armed ++ (enableAll kb errors armed.length screen rs).2)
        (grabAll kb errors armed.length (rs.map (·.rule)) owner) ∧
      (enableAll kb errors armed.length screen rs).2.map (·.rule) = rs.map (·.rule) ∧
      (∀ r ∈ (enableAll kb errors armed.length screen rs).2, r.id ∉ screen.hotKeys) ∧
      ∀ id, id ∈ (enableAll kb errors armed.length screen rs).1.hotKeys ↔ id ∈ screen.hotKeys ∨
        id ∈ (enableAll kb errors armed.length screen rs).2.map (·.id) ∧ id ≠ 0 := by
  induction rs generalizing screen armed owner with
  | nil =>
    refine ⟨?_, rfl, fun r hr => absurd hr List.not_mem_nil, fun id => ?_⟩
    · rw [InputFilter.enableAll, List.append_nil]
      exact h
    · exact (or_iff_left fun hid => absurd hid.1 List.not_mem_nil).symm
  | cons r rs ih =>
    obtain ⟨hr, hrs⟩ := List.forall_mem_cons.1 hzero
    rw [List.length_cons] at hsize
    have hid : screen.HasId := .inr (by omega)
    obtain ⟨hrule, hfresh, hkeys, hle⟩ :=
      enable_spec h.inv kb (errors armed.length) hid hr
    have hlinked := h.enable kb (errors armed.length) hid hr
    obtain ⟨hall, hrules, hnew, hids⟩ := ih hlinked hrs (by omega)
    rw [List.length_append, List.length_singleton] at hall hrules hnew hids
    refine ⟨?_, ?_, ?_, fun id => ?_⟩
    · rw [List.append_assoc] at hall
      exact hall
    · show (r.enable kb (errors armed.length) screen).2.rule :: _ = _
      rw [hrule, List.map_cons]
      exact congrArg _ hrules
    · refine List.forall_mem_cons.2 ⟨hfresh, fun r' hr' hin => hnew r' hr' ?_⟩
      exact (hkeys _).2 (.inl hin)
    · refine (hids id).trans ?_
      rw [hkeys]
      simp only [InputFilter.enableAll, List.map_cons, List.mem_cons]
      tauto

/-! ### Hot key events -/

theorem handleEvent_of_ne {down : Bool} (h : r.id ≠ id) :
    r.handleEvent (.hotKey down id) = none := by
  unfold Armed.handleEvent
  rcases r.rule.condition with _ | ⟨key, mask⟩ | _ | _
  · rfl
  · have hno : (Condition.keystroke key mask).match? r.id (.hotKey down id) = .noMatch :=
      if_pos h.symm
    dsimp only
    rw [hno]
    rfl
  · rfl
  · rfl

theorem handleEvent_of_eq {down : Bool} {key mask : ℕ}
    (hcondition : r.rule.condition = some (.keystroke key mask)) (h : r.id = id) :
    r.handleEvent (.hotKey down id) = some (r.rule.onHotKey down) := by
  have hperform (a : Action) : a.perform (.hotKey down id) = a.perform (.hotKey down 0) := by
    cases a <;> rfl
  have hyes : (Condition.keystroke key mask).match? r.id (.hotKey down id) = .of down :=
    if_neg (not_not.2 h.symm)
  unfold Armed.handleEvent
  rw [hcondition]
  dsimp only
  rw [hyes]
  cases down <;> simp only [FilterStatus.of, Rule.perform, Rule.onHotKey, hperform] <;> rfl

/-- If only one element has a result, it is the result. -/
theorem findSome?_of_unique {α β : Type*} {f : α → Option β} {l : List α} {i : ℕ} {a : α}
    (ha : l[i]? = some a) (hother : ∀ j b, l[j]? = some b → j ≠ i → f b = none) :
    l.findSome? f = f a := by
  induction l generalizing i with
  | nil => cases ha
  | cons b l ih =>
    cases i with
    | zero =>
      obtain rfl := Option.some.inj ha
      rw [List.findSome?_cons]
      cases hb : f b with
      | some v => rfl
      | none =>
        refine List.findSome?_eq_none_iff.2 fun d hd => ?_
        obtain ⟨j, hj⟩ := List.getElem?_of_mem hd
        exact hother (j + 1) d hj (Nat.succ_ne_zero j)
    | succ i =>
      rw [List.findSome?_cons, hother 0 b rfl (Nat.succ_ne_zero i).symm]
      exact ih ha fun j d hj hne => hother (j + 1) d hj fun h => hne (Nat.succ.inj h)

/-- Rules with the same id are the same. -/
theorem Linked.index_unique (h : Linked screen armed owner) {i j : ℕ} {a b : Armed}
    (hi : armed[i]? = some a) (hj : armed[j]? = some b) (hzero : a.id ≠ 0) (hab : a.id = b.id) :
    i = j := by
  obtain ⟨hlti, rfl⟩ := List.getElem?_eq_some_iff.1 hi
  obtain ⟨hltj, rfl⟩ := List.getElem?_eq_some_iff.1 hj
  have hpairs := List.pairwise_iff_getElem.1 h.distinct
  rcases Nat.lt_trichotomy i j with hlt | heq | hlt
  · exact absurd hab (hpairs i j hlti hltj hlt hzero)
  · exact heq
  · exact absurd hab.symm (hpairs j i hltj hlti hlt (hab ▸ hzero))

/-- What the rules of the filter, some of them copies, do with a hot key event. -/
theorem Linked.handleEvent (h : Linked screen armed owner) (hid : id ∈ screen.hotKeys)
    {grow : ℕ → ℕ} {since : ℕ} {elems : List Armed} {down : Bool}
    (hcopied : Growing.Copied grow Armed.clone since armed elems) :
    InputFilter.handleEvent elems (.hotKey down id) = (indexOf armed id).bind fun i =>
      if Growing.Lost grow since i armed.length then none
      else (armed.map (·.rule))[i]?.map (·.onHotKey down) := by
  have hzero := h.ne_zero hid
  -- an element does nothing unless it is a rule with this id
  have hnone (j : ℕ) (e : Armed) (he : elems[j]? = some e)
      (hne : ∀ a, armed[j]? = some a → a.id ≠ id) : e.handleEvent (.hotKey down id) = none := by
    rw [hcopied.2] at he
    obtain ⟨a, ha, rfl⟩ := Option.map_eq_some_iff.1 he
    refine handleEvent_of_ne ?_
    split_ifs
    · exact hzero.symm
    · exact hne a ha
  cases hindex : indexOf armed id with
  | none =>
    have hne := List.findIdx?_eq_none_iff.1 hindex
    refine List.findSome?_eq_none_iff.2 fun e he => ?_
    obtain ⟨j, hj⟩ := List.getElem?_of_mem he
    exact hnone j e hj fun a ha => beq_eq_false_iff_ne.1 (hne a (List.mem_of_getElem? ha))
  | some i =>
    obtain ⟨hi, hmatch, -⟩ := List.findIdx?_eq_some_iff_getElem.1 hindex
    have hmatch : armed[i].id = id := eq_of_beq hmatch
    have hget : armed[i]? = some armed[i] := List.getElem?_eq_getElem hi
    have hother (j : ℕ) (a : Armed) (ha : armed[j]? = some a) (hne : j ≠ i) : a.id ≠ id :=
      fun heq => hne (h.index_unique ha hget (heq.trans_ne hzero) (heq.trans hmatch.symm))
    obtain ⟨-, key, mask, hcondition⟩ :=
      h.mem armed[i] (List.getElem_mem hi) (hmatch.trans_ne hzero)
    have helem := hcopied.2 i
    rw [hget, Option.map_some] at helem
    refine (findSome?_of_unique helem fun j e he hne => hnone j e he fun a ha =>
      hother j a ha hne).trans ?_
    rw [Option.bind_some]
    split_ifs
    · exact handleEvent_of_ne hzero.symm
    · rw [List.getElem?_map, hget]
      exact handleEvent_of_eq hcondition hmatch

/-! ### Runs -/

/-- The filter's state and the owners' state, where `armed` are the rules with the ids that they
got.  The screen had the hot keys of `screen` at first. -/
structure Related (grow : ℕ → ℕ) (screen : HotKeys) (s : FilterRun) (t : KeyOwners)
    (armed : List Armed) : Prop where
  linked : Linked s.screen armed t.owner
  rules : armed.map (·.rule) = t.rules
  given : armed.map (·.id) = s.given
  sized : Growing.Sized grow s.ruleList
  enabledAt : t.enabledAt = if s.primary then some s.since else none
  /-- Before the filter is enabled no rule has an id. -/
  plain : s.primary = false → s.ruleList.elems = armed ∧ ∀ r ∈ armed, r.id = 0
  copied : s.primary = true → s.since ≤ armed.length ∧
    Growing.Copied grow Armed.clone s.since armed s.ruleList.elems
  /-- The ids in use are those at first and those of the rules. -/
  ids : ∀ id, id ∈ s.screen.hotKeys ↔ id ∈ screen.hotKeys ∨ id ∈ armed.map (·.id) ∧ id ≠ 0
  own : ∀ r ∈ armed, r.id ∉ screen.hotKeys
  waiting : ∀ p ∈ s.posted, p.2 ∈ s.screen.hotKeys
  posted : t.posted = s.posted.map fun p => (p.1, indexOf armed p.2)
  taken : s.taken = t.taken
  done : s.done = t.done

variable {grow : ℕ → ℕ} {s s' : FilterRun} {t : KeyOwners}

theorem clone_clone (r : Armed) : r.clone.clone = r.clone := rfl

theorem related_start (hinv : screen.Inv) :
    Related grow screen { screen } (KeyOwners.start screen) [] where
  linked := ⟨hinv, fun _ h => absurd h List.not_mem_nil, .nil, fun _ => rfl⟩
  rules := rfl
  given := rfl
  sized := Growing.sized_empty
  enabledAt := rfl
  plain _ := ⟨rfl, fun _ h => absurd h List.not_mem_nil⟩
  copied h := by cases h
  ids id := (or_iff_left fun h => absurd h.1 List.not_mem_nil).symm
  own _ h := absurd h List.not_mem_nil
  waiting _ h := absurd h List.not_mem_nil
  posted := rfl
  taken := rfl
  done := rfl

/-- Without ids the rules own nothing. -/
theorem indexOf_of_zero (hzero : ∀ r ∈ armed, r.id = 0) (hid : id ≠ 0) :
    indexOf armed id = none := by
  refine List.findIdx?_eq_none_iff.2 fun r hr => ?_
  rw [beq_eq_false_iff_ne, hzero r hr]
  exact hid.symm

/-- A rule is added; it has an id that was not in use, or none. -/
theorem Related.concat (h : Related grow screen s t armed) (hgrow : ∀ n, n < grow n)
    {screen' : HotKeys} {owner' : HotKeyItem → Option (Option ℕ)}
    (hlinked : Linked screen' (armed ++ [r]) owner') (hfresh : r.id ∉ s.screen.hotKeys)
    (hids : ∀ id, id ∈ screen'.hotKeys ↔ id ∈ s.screen.hotKeys ∨ id = r.id ∧ id ≠ 0)
    (hplain : s.primary = false → r.id = 0) :
    Related grow screen
      { s with
        screen := screen'
        ruleList := s.ruleList.push grow Armed.clone r
        given := s.given ++ [r.id] }
      { t with rules := t.rules ++ [r.rule], owner := owner' } (armed ++ [r]) where
  linked := hlinked
  rules := by rw [List.map_append, h.rules, List.map_singleton]
  given := by rw [List.map_append, h.given, List.map_singleton]
  sized := h.sized.push hgrow r
  enabledAt := h.enabledAt
  plain hprimary := by
    obtain ⟨helems, hzero⟩ := h.plain hprimary
    have hclone : armed.map Armed.clone = armed := by
      refine (List.map_congr_left fun r hr => ?_).trans (List.map_id' armed)
      rw [Armed.clone, ← hzero r hr]
    refine ⟨?_, List.forall_mem_append.2 ⟨hzero, List.forall_mem_singleton.2 (hplain hprimary)⟩⟩
    show (s.ruleList.push grow Armed.clone r).elems = armed ++ [r]
    unfold Growing.push
    split_ifs
    · rw [helems, hclone]
    · rw [helems]
  copied hprimary := by
    obtain ⟨hsince, hcopied⟩ := h.copied hprimary
    refine ⟨?_, hcopied.push hgrow clone_clone h.sized hsince r⟩
    rw [List.length_append]
    exact Nat.le_add_right_of_le hsince
  ids id := by
    rw [hids, h.ids, List.map_append, List.mem_append, List.map_singleton, List.mem_singleton]
    tauto
  own := by
    refine List.forall_mem_append.2 ⟨h.own, List.forall_mem_singleton.2 fun hin => ?_⟩
    exact hfresh ((h.ids _).2 (.inl hin))
  waiting p hp := (hids _).2 (.inl (h.waiting p hp))
  posted := by
    show t.posted = _
    rw [h.posted]
    refine List.map_congr_left fun p hp => ?_
    have hne : r.id ≠ p.2 := fun heq => hfresh (heq ▸ h.waiting p hp)
    rw [indexOf_concat_of_ne armed hne]
  taken := h.taken
  done := h.done

theorem Related.addFilterRule (h : Related grow screen s t armed) (hgrow : ∀ n, n < grow n)
    (rule : Rule) (kb : XKeyboard) (errorAt : Option ℕ)
    (hsize : s.screen.hotKeys.size + 1 < 2 ^ 32) :
    ∃ t' armed', t.step grow (.addFilterRule rule kb errorAt) = some t' ∧
      Related grow screen (s.addFilterRule grow rule kb errorAt) t' armed' := by
  have henabled := h.enabledAt
  have hinv := h.linked.inv
  let r : Armed := { rule }
  unfold FilterRun.addFilterRule KeyOwners.step
  rcases Bool.eq_false_or_eq_true s.primary with hprimary | hprimary
  · rw [if_pos hprimary] at henabled ⊢
    have hid : s.screen.HasId := .inr hsize
    obtain ⟨hrule, hfresh, hids, -⟩ := enable_spec (r := r) hinv kb errorAt hid rfl
    have hrelated := h.concat hgrow (h.linked.enable (r := r) kb errorAt hid rfl) hfresh hids
      fun hfalse => absurd (hprimary.symm.trans hfalse) Bool.noConfusion
    refine ⟨_, _, ?_, hrelated⟩
    rw [henabled, hrule, ← h.rules, List.length_map]
  · have hnot : ¬s.primary = true := fun htrue => Bool.noConfusion (htrue.symm.trans hprimary)
    rw [if_neg hnot] at henabled ⊢
    have hrelated := h.concat hgrow (r := r)
      (h.linked.concat_zero hinv (fun _ => rfl) rfl h.linked.owner) hinv.not_zero
      (fun id => (or_iff_left fun hid => hid.2 hid.1).symm) fun _ => rfl
    refine ⟨_, _, ?_, hrelated⟩
    rw [henabled]

theorem Related.enable (h : Related grow screen s t armed) (kb : XKeyboard)
    (errors : ℕ → Option ℕ)
    (hsize : s.screen.hotKeys.size + s.ruleList.elems.length < 2 ^ 32) :
    ∃ t' armed', t.step grow (.enable kb errors) = some t' ∧
      Related grow screen (s.enable kb errors) t' armed' := by
  have henabled := h.enabledAt
  unfold FilterRun.enable KeyOwners.step
  rcases Bool.eq_false_or_eq_true s.primary with hprimary | hprimary
  · rw [if_pos hprimary] at henabled ⊢
    refine ⟨t, armed, ?_, h⟩
    rw [henabled]
  · have hnot : ¬s.primary = true := fun htrue => Bool.noConfusion (htrue.symm.trans hprimary)
    rw [if_neg hnot] at henabled ⊢
    obtain ⟨helems, hzero⟩ := h.plain hprimary
    have hempty : Linked s.screen [] t.owner := by
      refine ⟨h.linked.inv, fun _ hr => absurd hr List.not_mem_nil, .nil, fun item => ?_⟩
      rw [h.linked.owner]
      refine Option.map_congr fun id hid => ?_
      exact indexOf_of_zero hzero (h.linked.ne_zero (h.linked.mem_of_noted hid))
    rw [helems] at hsize
    obtain ⟨hlinked, hrules, hfresh, hids⟩ := hempty.enableAll kb errors hzero hsize
    rw [List.nil_append, List.length_nil, h.rules] at hlinked
    rw [List.length_nil] at hrules hfresh hids
    have hlength : (enableAll kb errors 0 s.screen armed).2.length = armed.length := by
      rw [← List.length_map (f := (·.rule)), hrules, List.length_map]
    refine ⟨_, (enableAll kb errors 0 s.screen armed).2, by rw [henabled], ?_⟩
    rw [helems]
    exact {
      linked := hlinked
      rules := hrules.trans h.rules
      given := rfl
      sized := by
        obtain ⟨m, hcap, hle, hlast⟩ := h.sized
        rw [helems, ← hlength] at hle hlast
        exact ⟨m, hcap, hle, hlast⟩
      enabledAt := by
        show some t.rules.length = some (enableAll kb errors 0 s.screen armed).2.length
        rw [hlength, ← h.rules, List.length_map]
      plain := fun hfalse => absurd hfalse (by simp)
      copied := fun _ => ⟨le_rfl, Growing.copied_self _⟩
      ids := fun id => by
        have hnone : ¬(id ∈ armed.map (·.id) ∧ id ≠ 0) := by
          rintro ⟨hin, hne⟩
          obtain ⟨r, hr, rfl⟩ := List.mem_map.1 hin
          exact hne (hzero r hr)
        refine (hids id).trans ?_
        rw [h.ids, or_iff_left hnone]
      own := fun r hr hin => hfresh r hr ((h.ids _).2 (.inl hin))
      waiting := fun p hp => (hids _).2 (.inl (h.waiting p hp))
      posted := by
        show t.posted = _
        rw [h.posted]
        refine List.map_congr_left fun p hp => ?_
        have hin := h.waiting p hp
        rw [indexOf_of_zero hzero (h.linked.ne_zero hin)]
        have hnone : indexOf (enableAll kb errors 0 s.screen armed).2 p.2 = none := by
          refine List.findIdx?_eq_none_iff.2 fun r hr => ?_
          rw [beq_eq_false_iff_ne]
          rintro heq
          exact hfresh r hr (heq ▸ hin)
        rw [hnone]
      taken := h.taken
      done := h.done }

theorem Related.key (h : Related grow screen s t armed) (e : XKeyEvent) (isRepeat : Bool) :
    ∃ t', t.step grow (.key e isRepeat) = some t' ∧
      Related grow screen (s.key e isRepeat) t' armed := by
  unfold FilterRun.key KeyOwners.step HotKeys.onHotKey HotKeys.idOf
  dsimp only
  rw [h.linked.owner]
  have hnot : Related grow screen { s with taken := s.taken ++ [false] }
      { t with taken := t.taken ++ [false] } armed :=
    { h with taken := congrArg (· ++ [false]) h.taken }
  cases hid : s.screen.hotKeyToIDMap (e.keycode, e.state &&& HotKeys.excludeMask) with
  | none => exact ⟨_, rfl, hnot⟩
  | some id =>
    cases e.down? with
    | none => exact ⟨_, rfl, hnot⟩
    | some down =>
      refine ⟨_, rfl, { h with
        waiting := fun p hp => ?_
        posted := ?_
        taken := congrArg (· ++ [true]) h.taken }⟩
      · rcases List.mem_append.1 hp with hp | hp
        · exact h.waiting p hp
        · cases isRepeat with
          | true => exact absurd hp List.not_mem_nil
          | false =>
            obtain rfl := List.mem_singleton.1 hp
            exact h.linked.mem_of_noted hid
      · rw [List.map_append, ← h.posted]
        cases isRepeat <;> rfl

theorem handled_of_some {v : ℕ → Option (List Posted)} {since : ℕ}
    (h : t.enabledAt = some since) : t.handled v = { t with done := t.done ++ [v since] } := by
  unfold KeyOwners.handled
  split
  · rename_i hnone
    cases hnone.symm.trans h
  · rename_i hsome
    rw [Option.some.inj (hsome.symm.trans h)]

theorem handled_of_none {v : ℕ → Option (List Posted)} (h : t.enabledAt = none) :
    t.handled v = t := by
  unfold KeyOwners.handled
  split
  · rfl
  · rename_i hsome
    cases hsome.symm.trans h

/-- An event that comes to the filter. -/
theorem Related.handled (h : Related grow screen s t armed) (e : Input)
    {v : ℕ → Option (List Posted)}
    (hv : s.primary = true → InputFilter.handleEvent s.ruleList.elems e = v s.since) :
    Related grow screen (s.handled e) (t.handled v) armed := by
  have henabled := h.enabledAt
  unfold FilterRun.handled
  rcases Bool.eq_false_or_eq_true s.primary with hprimary | hprimary
  · rw [if_pos hprimary] at henabled ⊢
    rw [handled_of_some henabled, hv hprimary]
    exact { h with done := congrArg (· ++ [v s.since]) h.done }
  · have hnot : ¬s.primary = true := fun htrue => Bool.noConfusion (htrue.symm.trans hprimary)
    rw [if_neg hnot] at henabled ⊢
    rw [handled_of_none henabled]
    exact h

theorem Related.deliver (h : Related grow screen s t armed)
    (hst : s.step grow .deliver = some s') :
    ∃ t', t.step grow .deliver = some t' ∧ Related grow screen s' t' armed := by
  simp only [FilterRun.step] at hst
  cases hposted : s.posted with
  | nil =>
    rw [hposted] at hst
    cases hst
  | cons p posted =>
    obtain ⟨down, id⟩ := p
    rw [hposted] at hst
    obtain rfl := Option.some.inj hst
    have hwaiting := h.posted
    rw [hposted, List.map_cons] at hwaiting
    have hrest : Related grow screen { s with posted } { t with
        posted := posted.map fun p => (p.1, indexOf armed p.2) } armed :=
      { h with
        waiting := fun p hp => h.waiting p (hposted ▸ List.mem_cons_of_mem _ hp)
        posted := rfl }
    have hid : id ∈ s.screen.hotKeys := h.waiting (down, id) (hposted ▸ List.mem_cons_self)
    have hlength : armed.length = t.rules.length := by rw [← h.rules, List.length_map]
    have hv (hprimary : s.primary = true) : InputFilter.handleEvent s.ruleList.elems
        (.hotKey down id) = t.onHotKey grow s.since down (indexOf armed id) := by
      rw [h.linked.handleEvent hid (h.copied hprimary).2, hlength, h.rules]
      rfl
    have hdone := hrest.handled (.hotKey down id)
      (v := fun since => t.onHotKey grow since down (indexOf armed id)) hv
    refine ⟨_, ?_, hdone⟩
    simp only [KeyOwners.step, hwaiting]

/-- The ids do not matter for other events. -/
theorem handleEvent_congr {r' : Armed} {e : Input} (hrule : r.rule = r'.rule)
    (he : ∀ down id, e ≠ .hotKey down id) : r.handleEvent e = r'.handleEvent e := by
  unfold Armed.handleEvent
  rw [hrule]
  rcases r'.rule.condition with _ | ⟨key, mask⟩ | _ | _
  · rfl
  · cases e with
    | hotKey down id => exact absurd rfl (he down id)
    | _ => rfl
  · cases e <;> rfl
  · cases e <;> rfl

theorem findSome?_handleEvent {rules : List Armed} {e : Input}
    (he : ∀ down id, e ≠ .hotKey down id) :
    InputFilter.handleEvent rules e =
      (rules.map (·.rule)).findSome? fun r => Armed.handleEvent e ⟨r, 0⟩ := by
  rw [List.findSome?_map]
  exact congrArg (List.findSome? · rules) (funext fun r => handleEvent_congr rfl he)

/-- Copied rules are the same rules. -/
theorem Related.map_rule (h : Related grow screen s t armed) :
    s.ruleList.elems.map (·.rule) = t.rules := by
  rw [← h.rules]
  rcases Bool.eq_false_or_eq_true s.primary with hprimary | hprimary
  · refine List.ext_getElem? fun i => ?_
    rw [List.getElem?_map, List.getElem?_map, (h.copied hprimary).2.2, Option.map_map]
    refine Option.map_congr fun r _ => ?_
    dsimp only [Function.comp]
    split_ifs <;> rfl
  · rw [(h.plain hprimary).1]

theorem Related.step (h : Related grow screen s t armed) (hgrow : ∀ n, n < grow n) {a : Act}
    (hadm : Admits s a) (hst : s.step grow a = some s') :
    ∃ t' armed', t.step grow a = some t' ∧ Related grow screen s' t' armed' := by
  cases a with
  | addFilterRule rule kb errorAt =>
    obtain rfl := Option.some.inj hst
    exact h.addFilterRule hgrow rule kb errorAt hadm
  | enable kb errors =>
    obtain rfl := Option.some.inj hst
    exact h.enable kb errors hadm
  | key e isRepeat =>
    obtain rfl := Option.some.inj hst
    obtain ⟨t', ht', hrelated⟩ := h.key e isRepeat
    exact ⟨t', armed, ht', hrelated⟩
  | deliver =>
    obtain ⟨t', ht', hrelated⟩ := h.deliver hst
    exact ⟨t', armed, ht', hrelated⟩
  | input e =>
    have hv (he : ∀ down id, e ≠ .hotKey down id) : InputFilter.handleEvent s.ruleList.elems e =
        t.rules.findSome? fun r => Armed.handleEvent e ⟨r, 0⟩ := by
      rw [findSome?_handleEvent he, h.map_rule]
    cases e with
    | hotKey down id => cases hst
    | _ =>
      obtain rfl := Option.some.inj hst
      refine ⟨_, armed, rfl, h.handled _ fun _ => hv fun _ _ => ?_⟩
      exact Input.noConfusion

/-- **The ids do their work.**  In every run the filter takes the same key events for hot keys and
performs the same actions as the owners of the combinations do. -/
theorem refines_keyOwners (hgrow : ∀ n, n < grow n)
    (hscreen : HotKeys.lts.ReachableVia HotKeys.Admits screen) {acts : List Act}
    (hadm : (lts grow screen).Admits Admits { screen } acts)
    (he : (lts grow screen).exec { screen } acts = some s) :
    ∃ t, (KeyOwners.lts grow screen).exec (KeyOwners.start screen) acts = some t ∧
      s.taken = t.taken ∧ s.done = t.done := by
  have hstart : ∃ armed, Related grow screen { screen } (KeyOwners.start screen) armed :=
    ⟨[], related_start (HotKeys.inv_of_reachable hscreen)⟩
  obtain ⟨t, ht, armed, hrelated⟩ := LTS.exec_simulate (B := KeyOwners.lts grow screen)
    (R := fun s t => ∃ armed, Related grow screen s t armed) (f := id) hstart hadm he
    fun s a s' t hrelated hadm hst => by
      obtain ⟨armed, h⟩ := hrelated
      obtain ⟨t', armed', ht', hrelated⟩ := h.step hgrow hadm hst
      exact ⟨t', ht', armed', hrelated⟩
  rw [List.map_id] at ht
  exact ⟨t, ht, hrelated.taken, hrelated.done⟩

/-- How the room of an array is doubled. -/
def doubled (n : ℕ) : ℕ := max 1 (2 * n)

theorem lt_doubled (n : ℕ) : n < doubled n := by
  unfold doubled
  omega

/-- A keyboard with two keys and a Num Lock modifier. -/
def twoKeys : XKeyboard where
  modifierToX mask := if mask = 0x2000 then some 16 else none
  keyCodeFromKey key := if key = 0xEFBE then [67] else if key = 0xEF14 then [78] else []
  modifierMap _ := []

/-- Function key one switches to the left. -/
def switchLeft : Rule where
  condition := some (.keystroke 0xEFBE 0)
  activateActions := [.switchInDirection .left]

/-- The rule of the configuration is enabled and its key pressed; the configuration is read again
before the event comes to the filter, and Scroll Lock becomes a hot key; both keys are pressed. -/
def reloadedRun : List Act :=
  [.addFilterRule switchLeft twoKeys none, .enable twoKeys fun _ => none,
    .key ⟨67, 16, some true⟩ false, .deliver, .key ⟨67, 0, some true⟩ false,
    .addFilterRule .scrollLock twoKeys none, .deliver, .key ⟨67, 0, some true⟩ false,
    .key ⟨78, 0, some true⟩ false, .key ⟨79, 0, some true⟩ false, .deliver, .deliver]

theorem refines_keyOwners_reloaded : ∃ s t,
    (lts doubled {}).exec { screen := {} } reloadedRun = some s ∧
    (KeyOwners.lts doubled {}).exec (KeyOwners.start {}) reloadedRun = some t ∧
    s.taken = t.taken ∧ s.done = t.done ∧ t.taken = [true, true, true, true, false] ∧
    t.done = [some [.switchInDirection .left], none, none, some [.lockCursorToScreen .toggle]] := by
  have hrun : ((lts doubled {}).exec { screen := {} } reloadedRun).map
      (fun s => (s.taken, s.done)) = some ([true, true, true, true, false],
        [some [.switchInDirection .left], none, none, some [.lockCursorToScreen .toggle]]) := by
    decide +kernel
  obtain ⟨s, hs, hdone⟩ := Option.map_eq_some_iff.1 hrun
  have hadm : (lts doubled {}).Admits Admits { screen := {} } reloadedRun := by decide +kernel
  obtain ⟨t, ht, htaken, hsame⟩ := refines_keyOwners lt_doubled (.init rfl) hadm hs
  refine ⟨s, t, hs, ht, htaken, hsame, ?_, ?_⟩
  · exact htaken.symm.trans (congrArg Prod.fst hdone)
  · exact hsame.symm.trans (congrArg Prod.snd hdone)

/-! ### What stays behind -/

/-- Disabling rules gives back the hot keys that they know. -/
theorem disableAll_spec {rs : List Armed} (hinv : screen.Inv)
    (hplain : ∀ r ∈ rs, r.id ≠ 0 → ∃ key mask, r.rule.condition = some (.keystroke key mask))
    (hid : id ≠ 0) :
    id ∈ (disableAll screen rs).1.hotKeys ↔ id ∈ screen.hotKeys ∧ ∀ r ∈ rs, r.id ≠ id := by
  induction rs generalizing screen with
  | nil => exact (and_iff_left fun r hr => absurd hr List.not_mem_nil).symm
  | cons r rs ih =>
    obtain ⟨hr, hrs⟩ := List.forall_mem_cons.1 hplain
    have hone : (r.disable screen).1.Inv ∧
        (id ∈ (r.disable screen).1.hotKeys ↔ id ∈ screen.hotKeys ∧ r.id ≠ id) := by
      have hstays (hcondition : ¬∃ key mask, r.rule.condition = some (.keystroke key mask)) :
          screen.Inv ∧ (id ∈ screen.hotKeys ↔ id ∈ screen.hotKeys ∧ r.id ≠ id) := by
        have hzero : r.id = 0 := by_contra fun hne => hcondition (hr hne)
        exact ⟨hinv, (and_iff_left (hzero ▸ hid.symm)).symm⟩
      unfold Armed.disable
      rcases hcondition : r.rule.condition with _ | ⟨key, mask⟩ | _ | _
      · exact hstays (by simp [hcondition])
      · obtain ⟨hunregistered, hkeys⟩ := @HotKeys.unregister_spec _ r.id hinv
        refine ⟨hunregistered, ?_⟩
        show id ∈ (screen.unregisterHotKey r.id).hotKeys ↔ _
        rw [Std.TreeMap.mem_iff_isSome_getElem?, hkeys]
        split_ifs with heq
        · exact iff_of_false Bool.false_ne_true fun h => h.2 heq.symm
        · rw [← Std.TreeMap.mem_iff_isSome_getElem?]
          exact (and_iff_left (Ne.symm heq)).symm
      · exact hstays (by simp [hcondition])
      · exact hstays (by simp [hcondition])
    show id ∈ (disableAll (r.disable screen).1 rs).1.hotKeys ↔ _
    rw [ih hone.1 hrs, hone.2, List.forall_mem_cons, and_assoc]

theorem exists_related (hgrow : ∀ n, n < grow n)
    (hscreen : HotKeys.lts.ReachableVia HotKeys.Admits screen)
    (hs : (lts grow screen).ReachableVia Admits s) :
    ∃ t armed, Related grow screen s t armed := by
  refine hs.invariant (I := fun s => ∃ t armed, Related grow screen s t armed) ?_ ?_
  · rintro _ rfl
    exact ⟨_, [], related_start (HotKeys.inv_of_reachable hscreen)⟩
  · rintro s a s' ⟨t, armed, h⟩ hadm hst
    obtain ⟨t', armed', -, hrelated⟩ := h.step hgrow hadm hst
    exact ⟨t', armed', hrelated⟩

theorem inv_disableAll (rs : List Armed) (hinv : screen.Inv) :
    (disableAll screen rs).1.Inv := by
  induction rs generalizing screen with
  | nil => exact hinv
  | cons r rs ih =>
    refine ih ?_
    show (r.disable screen).1.Inv
    unfold Armed.disable
    rcases r.rule.condition with _ | ⟨key, mask⟩ | _ | _
    · exact hinv
    · exact (HotKeys.unregister_spec hinv).1
    · exact hinv
    · exact hinv

/-- **Lost hot keys are never given back.**  When the filter is disabled the screen keeps, besides
the hot keys that it had at first, those of the rules that were lost. -/
theorem mem_hotKeys_disable (hgrow : ∀ n, n < grow n)
    (hscreen : HotKeys.lts.ReachableVia HotKeys.Admits screen)
    (hs : (lts grow screen).ReachableVia Admits s) (hprimary : s.primary = true) (id : ℕ) :
    id ∈ s.disable.screen.hotKeys ↔ id ∈ screen.hotKeys ∨
      ∃ i, Growing.Lost grow s.since i s.given.length ∧ s.given[i]? = some id ∧ id ≠ 0 := by
  obtain ⟨t, armed, h⟩ := exists_related hgrow hscreen hs
  obtain ⟨-, hlength, helems⟩ := h.copied hprimary
  have hgiven : s.given.length = armed.length := by rw [← h.given, List.length_map]
  have helem (r : Armed) (hr : r ∈ s.ruleList.elems) (hne : r.id ≠ 0) : ∃ i,
      ¬Growing.Lost grow s.since i armed.length ∧ armed[i]? = some r := by
    obtain ⟨i, hi⟩ := List.getElem?_of_mem hr
    rw [helems] at hi
    obtain ⟨a, ha, rfl⟩ := Option.map_eq_some_iff.1 hi
    refine ⟨i, fun hlost => hne (by rw [if_pos hlost]; rfl), ?_⟩
    rw [if_neg fun hlost => hne (by rw [if_pos hlost]; rfl), ha]
  have hdisable : s.disable.screen = (disableAll s.screen s.ruleList.elems).1 := by
    unfold FilterRun.disable
    rw [if_pos hprimary]
  rw [hdisable, hgiven]
  rcases eq_or_ne id 0 with rfl | hid
  · refine iff_of_false (inv_disableAll _ h.linked.inv).not_zero ?_
    rintro (hin | ⟨i, -, -, hne⟩)
    · exact (HotKeys.inv_of_reachable hscreen).not_zero hin
    · exact hne rfl
  have hplain (r : Armed) (hr : r ∈ s.ruleList.elems) (hne : r.id ≠ 0) :
      ∃ key mask, r.rule.condition = some (.keystroke key mask) := by
    obtain ⟨i, -, hi⟩ := helem r hr hne
    exact (h.linked.mem r (List.mem_of_getElem? hi) hne).2
  rw [disableAll_spec h.linked.inv hplain hid, h.ids]
  constructor
  · rintro ⟨hin | ⟨hin, -⟩, hunknown⟩
    · exact .inl hin
    · obtain ⟨r, hr, rfl⟩ := List.mem_map.1 hin
      obtain ⟨i, hi⟩ := List.getElem?_of_mem hr
      refine .inr ⟨i, by_contra fun hkept => ?_, by rw [← h.given, List.getElem?_map, hi]; rfl, hid⟩
      have he := helems i
      rw [hi, Option.map_some, if_neg hkept] at he
      exact hunknown r (List.mem_of_getElem? he) rfl
  · rintro (hin | ⟨i, hlost, hi, -⟩)
    · refine ⟨.inl hin, fun r hr heq => ?_⟩
      obtain ⟨j, -, hj⟩ := helem r hr (heq.trans_ne hid)
      exact h.own r (List.mem_of_getElem? hj) (heq ▸ hin)
    · refine ⟨.inr ⟨by rw [h.given]; exact List.mem_of_getElem? hi, hid⟩, fun r hr heq => ?_⟩
      obtain ⟨j, hkept, hj⟩ := helem r hr (heq.trans_ne hid)
      rw [← h.given, List.getElem?_map] at hi
      obtain ⟨a, ha, haid⟩ := Option.map_eq_some_iff.1 hi
      have hij := h.linked.index_unique ha hj (haid.trans_ne hid) (haid.trans heq.symm)
      exact hkept (hij ▸ hlost)

theorem mem_hotKeys_disable_reloaded : ∃ s,
    (lts doubled {}).exec { screen := {} } reloadedRun = some s ∧
    1 ∈ s.disable.screen.hotKeys ∧ 2 ∉ s.disable.screen.hotKeys := by
  have hrun : ((lts doubled {}).exec { screen := {} } reloadedRun).map
      (fun s => (s.primary, s.since, s.given)) = some (true, 1, [1, 2]) := by
    decide +kernel
  obtain ⟨s, hs, hfields⟩ := Option.map_eq_some_iff.1 hrun
  have hprimary : s.primary = true := congrArg Prod.fst hfields
  have hsince : s.since = 1 := congrArg (·.2.1) hfields
  have hgiven : s.given = [1, 2] := congrArg (·.2.2) hfields
  have hadm : (lts doubled {}).Admits Admits { screen := {} } reloadedRun := by decide +kernel
  have hreach : (lts doubled {}).ReachableVia Admits s :=
    LTS.ReachableVia.of_exec (.init rfl) hadm hs
  have hkept (id : ℕ) := mem_hotKeys_disable lt_doubled (.init rfl) hreach hprimary id
  rw [hsince, hgiven] at hkept
  refine ⟨s, hs, (hkept 1).2 (.inr ⟨0, by decide, rfl, by decide⟩), fun hin => ?_⟩
  rcases (hkept 2).1 hin with hin | ⟨i, hlost, hi, -⟩
  · exact Std.TreeMap.not_mem_emptyc hin
  · rcases i with _ | _ | i
    · cases hi
    · revert hlost
      decide
    · cases hi

end FilterRun

end InputLeap
