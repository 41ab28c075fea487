import InputLeap.Server.Delivery
import InputLeap.Server.Focus

/-!
# Reloading the configuration

A reload applies the global options over the values that earlier ones left and adds to the rules
that are active already, so it is like a restart only if the earlier configurations left nothing
behind.

## Main definitions

* `SwitchOptions.applyAll` : the options after several configurations were applied.
* `SwitchOptions.NothingLeft` : what the earlier options set, the last ones set too, or it was the
  default.
* `Server.applied` : the configurations that the reloads of a run applied.

## Main results

* `SwitchOptions.applyAll_eq_iff` : when the last options decide alone.
* `Server.run_settings` : the options and the active rules after a run.
* `Server.reload_eq_restart_iff` : when they are those of a server constructed from the last
  configuration.
-/

namespace InputLeap

/-- The options in the order of `option_types.h`. -/
def OptionID.all : List OptionID :=
  [.halfDuplexCapsLock, .halfDuplexNumLock, .halfDuplexScrollLock, .modifierMapForShift,
    .modifierMapForControl, .modifierMapForAlt, .modifierMapForAltGr, .modifierMapForMeta,
    .modifierMapForSuper, .heartbeat, .screenSwitchCorners, .screenSwitchCornerSize,
    .screenSwitchDelay, .screenSwitchTwoTap, .screenSwitchNeedsShift, .screenSwitchNeedsControl,
    .screenSwitchNeedsAlt, .screenSaverSync, .xTestXineramaUnaware, .screenPreserveFocus,
    .relativeMouseMoves, .win32KeepForeground, .clipboardSharing, .clipboardSharingSize]

theorem OptionID.mem_all (id : OptionID) : id ∈ all := by cases id <;> decide

theorem OptionID.code_injective : Function.Injective OptionID.code := by
  have hall : ∀ a ∈ all, ∀ b ∈ all, a.code = b.code → a = b := by decide +kernel
  exact fun a b => hall a (mem_all a) b (mem_all b)

instance : Std.LawfulEqCmp (compareOn OptionID.code) where
  eq_of_compare h := OptionID.code_injective (Std.LawfulEqCmp.eq_of_compare h)

namespace SwitchOptions

/-! ### One option -/

/-- The options before those of a configuration are applied. -/
def cleared (o : SwitchOptions) : SwitchOptions :=
  { o with needsShift := false, needsControl := false, needsAlt := false }

section

variable {β : Type*} {f : SwitchOptions → β} {id : OptionID} {g : ℤ → β}

/-- The field `f` is decided by the option `id` alone, from whose value `g` computes it. -/
structure DecidedBy (f : SwitchOptions → β) (id : OptionID) (g : ℤ → β) : Prop where
  set : ∀ o value, f (process o (id, value)) = g value
  other : ∀ o id' value, id' ≠ id → f (process o (id', value)) = f o

theorem DecidedBy.foldl_process (h : DecidedBy f id g) (l : List (OptionID × ℤ))
    (hl : l.Pairwise fun a b => a.1 ≠ b.1) (o : SwitchOptions) :
    (∀ value, (id, value) ∈ l → f (l.foldl process o) = g value) ∧
      ((∀ value, (id, value) ∉ l) → f (l.foldl process o) = f o) := by
  induction l generalizing o with
  | nil => exact ⟨fun _ hmem => (List.not_mem_nil hmem).elim, fun _ => rfl⟩
  | cons e l ih =>
    obtain ⟨id', value'⟩ := e
    obtain ⟨hne, hrest⟩ := List.pairwise_cons.1 hl
    obtain ⟨hset, hkeep⟩ := ih hrest (process o (id', value'))
    refine ⟨fun value hmem => ?_, fun hnone => ?_⟩
    · obtain heq | hmem := List.mem_cons.1 hmem
      · -- The option is not set again.
        obtain ⟨rfl, rfl⟩ := Prod.mk.inj heq
        rw [List.foldl_cons, hkeep fun value hin => hne _ hin rfl]
        exact h.set o value
      · exact hset value hmem
    · rw [List.foldl_cons, hkeep fun value hin => hnone value (List.mem_cons_of_mem _ hin)]
      refine h.other o id' value' fun hid => hnone value' ?_
      rw [hid]
      exact List.mem_cons_self ..

/-- A field after options were applied: the option decides, or the field starts out. -/
theorem DecidedBy.processAll (h : DecidedBy f id g) (o : SwitchOptions) (options : ScreenOptions) :
    f (o.processAll options) = (options[id]?.map g).getD (f o.cleared) := by
  have hdistinct : options.toList.Pairwise fun a b => a.1 ≠ b.1 :=
    Std.TreeMap.distinct_keys_toList.imp fun hab heq =>
      hab (Std.LawfulEqCmp.compare_eq_iff_eq.2 heq)
  obtain ⟨hset, hkeep⟩ := h.foldl_process options.toList hdistinct o.cleared
  cases hget : options[id]? with
  | some value => exact hset value (Std.TreeMap.mem_toList_iff_getElem?_eq_some.2 hget)
  | none =>
    refine hkeep fun value hmem => ?_
    rw [Std.TreeMap.mem_toList_iff_getElem?_eq_some.1 hmem] at hget
    cases hget

end

theorem waitDelay_decidedBy : DecidedBy waitDelay .screenSwitchDelay delay :=
  ⟨fun _ _ => rfl, fun _ id' _ hid => by cases id' <;> first | rfl | exact absurd rfl hid⟩

theorem twoTapDelay_decidedBy : DecidedBy twoTapDelay .screenSwitchTwoTap delay :=
  ⟨fun _ _ => rfl, fun _ id' _ hid => by cases id' <;> first | rfl | exact absurd rfl hid⟩

theorem needsShift_decidedBy : DecidedBy needsShift .screenSwitchNeedsShift (· != 0) :=
  ⟨fun _ _ => rfl, fun _ id' _ hid => by cases id' <;> first | rfl | exact absurd rfl hid⟩

theorem needsControl_decidedBy : DecidedBy needsControl .screenSwitchNeedsControl (· != 0) :=
  ⟨fun _ _ => rfl, fun _ id' _ hid => by cases id' <;> first | rfl | exact absurd rfl hid⟩

theorem needsAlt_decidedBy : DecidedBy needsAlt .screenSwitchNeedsAlt (· != 0) :=
  ⟨fun _ _ => rfl, fun _ id' _ hid => by cases id' <;> first | rfl | exact absurd rfl hid⟩

theorem relativeMoves_decidedBy : DecidedBy relativeMoves .relativeMouseMoves (· != 0) :=
  ⟨fun _ _ => rfl, fun _ id' _ hid => by cases id' <;> first | rfl | exact absurd rfl hid⟩

theorem enableClipboard_decidedBy : DecidedBy enableClipboard .clipboardSharing (· != 0) :=
  ⟨fun _ _ => rfl, fun _ id' _ hid => by cases id' <;> first | rfl | exact absurd rfl hid⟩

theorem maximumClipboardSize_decidedBy :
    DecidedBy maximumClipboardSize .clipboardSharingSize Int.toNat :=
  ⟨fun _ _ => rfl, fun _ id' _ hid => by cases id' <;> first | rfl | exact absurd rfl hid⟩

/-! ### Several configurations -/

/-- The options after those of several configurations were applied in order. -/
def applyAll (cfgs : List ScreenOptions) : SwitchOptions := cfgs.foldl processAll initial

/-- The value that the last of the configurations to set the option gave it. -/
def lastSet (id : OptionID) (cfgs : List ScreenOptions) : Option ℤ :=
  cfgs.foldl (fun value options => options[id]?.or value) none

section

variable {β : Type*} {f : SwitchOptions → β} {id : OptionID} {g : ℤ → β}

/-- A field that starts out as it was has the value that was set last. -/
theorem DecidedBy.applyAll (h : DecidedBy f id g) (hsticky : ∀ o : SwitchOptions, f o.cleared = f o)
    (cfgs : List ScreenOptions) :
    f (SwitchOptions.applyAll cfgs) = ((lastSet id cfgs).map g).getD (f initial) := by
  have hfold (cfgs : List ScreenOptions) (o : SwitchOptions) (value : Option ℤ)
      (ho : f o = (value.map g).getD (f initial)) : f (cfgs.foldl SwitchOptions.processAll o) =
        ((cfgs.foldl (fun value options => options[id]?.or value) value).map g).getD
          (f initial) := by
    induction cfgs generalizing o value with
    | nil => exact ho
    | cons options cfgs ih =>
      refine ih _ _ ?_
      rw [h.processAll, hsticky, ho]
      cases hget : options[id]? <;> simp [hget]
  exact hfold cfgs initial none rfl

/-- The last configuration sets the option, or the earlier ones left the default. -/
theorem DecidedBy.applyAll_eq_iff (h : DecidedBy f id g)
    (hsticky : ∀ o : SwitchOptions, f o.cleared = f o) (cfgs : List ScreenOptions)
    (options : ScreenOptions) :
    f ((SwitchOptions.applyAll cfgs).processAll options) = f (initial.processAll options) ↔
      (options[id]? = none → ∀ value ∈ lastSet id cfgs, g value = f initial) := by
  rw [h.processAll, h.processAll, hsticky, hsticky, h.applyAll hsticky]
  cases options[id]? with
  | some value => simp
  | none => cases lastSet id cfgs <;> simp

end

/-- For each option but the required modifiers: the last configuration sets it, or the value that
the earlier ones set last is the default. -/
structure NothingLeft (cfgs : List ScreenOptions) (options : ScreenOptions) : Prop where
  delay : options[OptionID.screenSwitchDelay]? = none →
    ∀ value ∈ lastSet .screenSwitchDelay cfgs, value ≤ 0
  twoTap : options[OptionID.screenSwitchTwoTap]? = none →
    ∀ value ∈ lastSet .screenSwitchTwoTap cfgs, value ≤ 0
  relativeMoves : options[OptionID.relativeMouseMoves]? = none →
    ∀ value ∈ lastSet .relativeMouseMoves cfgs, value = 0
  sharing : options[OptionID.clipboardSharing]? = none →
    ∀ value ∈ lastSet .clipboardSharing cfgs, value ≠ 0
  sharingSize : options[OptionID.clipboardSharingSize]? = none →
    ∀ value ∈ lastSet .clipboardSharingSize cfgs, value = 2147483647

theorem delay_eq_zero_iff (value : ℤ) : SwitchOptions.delay value = 0 ↔ value ≤ 0 := by
  unfold SwitchOptions.delay
  split_ifs with h
  · simpa using h.le
  · have hdiv : (value : ℚ) / 1000 = 0 ↔ value = 0 := by simp
    rw [hdiv]
    omega

/-- **When the last options decide alone.** -/
theorem applyAll_eq_iff (cfgs : List ScreenOptions) (options : ScreenOptions) :
    applyAll (cfgs ++ [options]) = applyAll [options] ↔ NothingLeft cfgs options := by
  have hall : applyAll (cfgs ++ [options]) = (applyAll cfgs).processAll options := by
    simp only [applyAll, List.foldl_append, List.foldl_cons, List.foldl_nil]
  have hone : applyAll [options] = initial.processAll options := rfl
  have hdelay₀ (value : ℤ) : delay value = initial.waitDelay ↔ value ≤ 0 :=
    delay_eq_zero_iff value
  have htwoTap₀ (value : ℤ) : delay value = initial.twoTapDelay ↔ value ≤ 0 :=
    delay_eq_zero_iff value
  have hrelative₀ (value : ℤ) : (value != 0) = initial.relativeMoves ↔ value = 0 :=
    bne_eq_false_iff_eq
  have hsharing₀ (value : ℤ) : (value != 0) = initial.enableClipboard ↔ value ≠ 0 := bne_iff_ne
  have hsize₀ (value : ℤ) : value.toNat = initial.maximumClipboardSize ↔ value = 2147483647 := by
    show value.toNat = 2147483647 ↔ _
    omega
  have hdelay := waitDelay_decidedBy.applyAll_eq_iff (fun _ => rfl) cfgs options
  have htwoTap := twoTapDelay_decidedBy.applyAll_eq_iff (fun _ => rfl) cfgs options
  have hrelative := relativeMoves_decidedBy.applyAll_eq_iff (fun _ => rfl) cfgs options
  have hsharing := enableClipboard_decidedBy.applyAll_eq_iff (fun _ => rfl) cfgs options
  have hsize := maximumClipboardSize_decidedBy.applyAll_eq_iff (fun _ => rfl) cfgs options
  simp only [hdelay₀, htwoTap₀, hrelative₀, hsharing₀, hsize₀]
    at hdelay htwoTap hrelative hsharing hsize
  rw [hall, hone]
  constructor
  · intro heq
    exact ⟨hdelay.1 (congrArg waitDelay heq), htwoTap.1 (congrArg twoTapDelay heq),
      hrelative.1 (congrArg relativeMoves heq), hsharing.1 (congrArg enableClipboard heq),
      hsize.1 (congrArg maximumClipboardSize heq)⟩
  · rintro ⟨h₁, h₂, h₃, h₄, h₅⟩
    -- The modifiers start out as not required in any case.
    have hshift : ((applyAll cfgs).processAll options).needsShift =
        (initial.processAll options).needsShift := by
      rw [needsShift_decidedBy.processAll, needsShift_decidedBy.processAll]
      rfl
    have hcontrol : ((applyAll cfgs).processAll options).needsControl =
        (initial.processAll options).needsControl := by
      rw [needsControl_decidedBy.processAll, needsControl_decidedBy.processAll]
      rfl
    have halt : ((applyAll cfgs).processAll options).needsAlt =
        (initial.processAll options).needsAlt := by
      rw [needsAlt_decidedBy.processAll, needsAlt_decidedBy.processAll]
      rfl
    have heq (o o' : SwitchOptions) (h : o.waitDelay = o'.waitDelay ∧
        o.twoTapDelay = o'.twoTapDelay ∧ o.needsShift = o'.needsShift ∧
        o.needsControl = o'.needsControl ∧ o.needsAlt = o'.needsAlt ∧
        o.relativeMoves = o'.relativeMoves ∧ o.enableClipboard = o'.enableClipboard ∧
        o.maximumClipboardSize = o'.maximumClipboardSize) : o = o' := by
      cases o
      cases o'
      simpa using h
    exact heq _ _ ⟨hdelay.2 h₁, htwoTap.2 h₂, hshift, hcontrol, halt, hrelative.2 h₃,
      hsharing.2 h₄, hsize.2 h₅⟩

end SwitchOptions

namespace Server

variable {s s' : Server} {env : Env}

/-! ### Steps -/

/-- The members that only reloads change. -/
structure SettingsKept (s s' : Server) : Prop where
  config : s'.config = s.config
  options : s'.options = s.options
  filterRules : s'.filterRules = s.filterRules
  primary : s'.registry.ident primaryClient = s.registry.ident primaryClient
  next : s.registry.next ≤ s'.registry.next

theorem ClipsKept.settingsKept (h : ClipsKept s s') : SettingsKept s s' :=
  ⟨h.config, h.options, h.filterRules, by rw [h.ident], h.next.ge⟩

theorem Keeps.settingsKept (h : Keeps s s') : SettingsKept s s' :=
  ⟨h.config, h.options, h.filterRules, by rw [h.registry], by rw [h.registry]⟩

theorem SettingsKept.trans {s'' : Server} (h : SettingsKept s s') (h' : SettingsKept s' s'') :
    SettingsKept s s'' :=
  ⟨h'.config.trans h.config, h'.options.trans h.options, h'.filterRules.trans h.filterRules,
    h'.primary.trans h.primary, h.next.trans h'.next⟩

theorem settingsKept_adoptClient (s : Server) (env : Env) (c : ClientID) :
    SettingsKept s (s.adoptClient env c) := by
  have hdequeue := (vacated_dequeue s c).clips.settingsKept
  obtain ⟨msg, hclose⟩ | ⟨s₂, hadd, -, -, hclips⟩ := adoptClient_cases s env c
  · rw [hclose]
    exact hdequeue.trans (vacated_closeClient _ env c msg).clips.settingsKept
  · obtain ⟨-, -, -, hadded⟩ := addClient_spec hadd
    have hjoin : SettingsKept (s.dequeue c) ((s.dequeue c).withClient c) :=
      ⟨rfl, rfl, rfl, rfl, le_rfl⟩
    exact (hdequeue.trans hjoin).trans (hadded.trans hclips).settingsKept

/-- **What any event but a reload does to the settings**: nothing. -/
theorem settingsKept_of_step {e : Event} (he : e.reloads = false) (hnext : 0 < s.registry.next)
    (hst : s.step env e = some s') : SettingsKept s s' := by
  cases hreg : e.changesRegistry with
  | false =>
    cases hlock : e.locksOrPastes with
    | false => exact (keeps_of_step hreg hlock hst).settingsKept
    | true =>
      cases e with
      | lockCursorToScreen mode =>
        cases hst
        exact (clipsKept_handleLockCursorToScreenEvent s mode).settingsKept
      | filePasteRequested c request =>
        simp only [Server.step] at hst
        split_ifs at hst
        cases hst
        exact (clipsKept_filePasteRequested s c request).settingsKept
      | filePasteStatus c status =>
        simp only [Server.step] at hst
        split_ifs at hst
        cases hst
        exact (clipsKept_filePasteStatus s c status).settingsKept
      | _ => cases hlock
  | true =>
    cases e with
    | clientConnected ident info =>
      cases hst
      -- The new proxy is not that of the primary screen.
      have hne : primaryClient ≠ s.registry.next := hnext.ne
      exact ⟨rfl, rfl, rfl, Function.update_of_ne hne _ _, Nat.le_succ _⟩
    | adoptClient c =>
      simp only [Server.step] at hst
      split_ifs at hst
      cases hst
      exact settingsKept_adoptClient s env c
    | clientDisconnected c =>
      simp only [Server.step] at hst
      split_ifs at hst
      · cases hst
        exact (vacated_dequeue s c).clips.settingsKept
      · cases hst
        exact (vacated_handleClientDisconnected s env c).clips.settingsKept
    | clientCloseTimeout c =>
      simp only [Server.step] at hst
      split_ifs at hst
      cases hst
      exact (vacated_removeOldClient s c).clips.settingsKept
    | disconnect =>
      cases hst
      exact (vacated_disconnect s env).clips.settingsKept
    | reloadConfig => cases he
    | _ => cases hreg

/-- The rule that `setConfig` adds for a configuration. -/
def scrollLockRules (cfg : Config) : List InputFilter.Rule :=
  if cfg.hasLockToScreenAction then [] else [.scrollLock]

/-- Applying a configuration that has the primary screen. -/
theorem setConfig_settings (h : s.setConfig env = some s') :
    s'.options = s.options.processAll s.config.globalOptions ∧
      s'.filterRules = s.filterRules ++ scrollLockRules s.config ∧
      s'.config = { s.config with
        inputFilterRules := s.config.inputFilterRules ++ scrollLockRules s.config } ∧
      s'.registry.ident primaryClient = s.registry.ident primaryClient ∧
      s'.registry.next = s.registry.next := by
  obtain ⟨-, haimed⟩ := setConfig_spec h
  obtain ⟨s₁, s₂, s₃, hclosed, rfl, rfl, rfl⟩ := setConfig_stages h
  have hclose : ClipsKept s s₁ :=
    hclosed ▸ ClipsKept.foldl (fun s c => (vacated_closeClient s env c _).clips) _ s
  rw [← hclosed] at haimed
  have hsend (s : Server) : ClipsKept s (s.clientList.foldl sendOptions s) :=
    ClipsKept.foldl (fun s c => clipsKept_sendOptions s c) _ s
  have hoptions (s : Server) : s.processOptions.options =
        s.options.processAll s.config.globalOptions ∧
      s.processOptions.filterRules = s.filterRules ∧ s.processOptions.config = s.config := by
    have hget : s.config.getOptions "" = some s.config.globalOptions := if_pos rfl
    simp only [processOptions, hget, stopRelativeMoves]
    split_ifs <;> exact ⟨trivial, rfl, rfl⟩
  have hrule (s : Server) : s.addScrollLockRule.options = s.options ∧
      s.addScrollLockRule.filterRules = s.filterRules ++ scrollLockRules s.config ∧
      s.addScrollLockRule.config = { s.config with
        inputFilterRules := s.config.inputFilterRules ++ scrollLockRules s.config } := by
    unfold addScrollLockRule scrollLockRules
    split_ifs
    · exact ⟨rfl, (List.append_nil _).symm, by rw [List.append_nil]⟩
    · exact ⟨rfl, rfl, rfl⟩
  obtain ⟨hprocessed, hrules, hconfig⟩ := hoptions s₁
  obtain ⟨hkeep, hadd, hobject⟩ := hrule s₁.processOptions
  refine ⟨?_, ?_, ?_, ?_, ?_⟩
  · rw [(hsend _).options]
    exact hkeep.trans (by rw [hprocessed, hclose.options, hclose.config])
  · rw [(hsend _).filterRules]
    exact hadd.trans (by rw [hrules, hclose.filterRules, hconfig, hclose.config])
  · rw [(hsend _).config]
    exact hobject.trans (by rw [hconfig, hclose.config])
  · rw [haimed.registry, hclose.ident]
  · rw [haimed.registry, hclose.next]

/-! ### Runs -/

/-- The configurations that the reloads apply: those that have the primary screen. -/
def applied (name : String) (events : List (Env × Event)) : List Config :=
  events.filterMap fun l =>
    match l.2 with
    | .reloadConfig cfg => if cfg.isScreen name then some cfg else none
    | _ => none

/-- The settings of a server: the options and rules of the configurations that were applied. -/
structure SettingsOf (s : Server) (name : String) (cfgs : List Config)
    (rules : List InputFilter.Rule) : Prop where
  options : s.options = SwitchOptions.applyAll (cfgs.map Config.globalOptions)
  filterRules : s.filterRules = rules ++ cfgs.flatMap scrollLockRules
  primary : (s.registry.ident primaryClient).name = name
  next : 0 < s.registry.next

theorem SettingsOf.kept {name : String} {cfgs : List Config} {rules : List InputFilter.Rule}
    (h : SettingsOf s name cfgs rules) (hs : SettingsKept s s') : SettingsOf s' name cfgs rules :=
  ⟨hs.options.trans h.options, hs.filterRules.trans h.filterRules,
    (congrArg Ident.name hs.primary).trans h.primary, h.next.trans_le hs.next⟩

theorem SettingsOf.setConfig {name : String} {cfgs : List Config} {rules : List InputFilter.Rule}
    (h : SettingsOf s name cfgs rules) (hset : s.setConfig env = some s') :
    SettingsOf s' name (cfgs ++ [s.config]) rules := by
  obtain ⟨hoptions, hrules, -, hident, hnext⟩ := setConfig_settings hset
  refine ⟨?_, ?_, ?_, ?_⟩
  · rw [hoptions, h.options]
    simp only [SwitchOptions.applyAll, List.map_append, List.foldl_append, List.map_cons,
      List.map_nil, List.foldl_cons, List.foldl_nil]
  · rw [hrules, h.filterRules]
    simp only [List.flatMap_append, List.flatMap_cons, List.flatMap_nil, List.append_nil,
      List.append_assoc]
  · rw [hident, h.primary]
  · rw [hnext]
    exact h.next

theorem SettingsOf.step {name : String} {cfgs : List Config} {rules : List InputFilter.Rule}
    {l : Env × Event} (h : SettingsOf s name cfgs rules) (hst : s.step l.1 l.2 = some s') :
    SettingsOf s' name (cfgs ++ applied name [l]) rules := by
  obtain ⟨env, e⟩ := l
  cases he : e.reloads with
  | false =>
    have hnone : applied name [(env, e)] = [] := by cases e <;> first | rfl | cases he
    rw [hnone, List.append_nil]
    exact h.kept (settingsKept_of_step he h.next hst)
  | true =>
    cases e with
    | reloadConfig cfg =>
      cases hst
      have hcfg : SettingsOf { s with config := cfg } name cfgs rules :=
        ⟨h.options, h.filterRules, h.primary, h.next⟩
      simp only [Server.reloadConfig]
      cases hset : Server.setConfig { s with config := cfg } env with
      | none =>
        -- The configuration is refused.
        have hscreen : cfg.isScreen name = false := by
          by_contra hscreen
          simp [Server.setConfig, h.primary, hscreen] at hset
        simpa [applied, hscreen] using hcfg
      | some s₁ =>
        have hscreen : cfg.isScreen name = true := h.primary ▸ (setConfig_spec hset).1
        simpa [applied, hscreen] using hcfg.setConfig hset
    | _ => cases he

theorem SettingsOf.exec {name : String} {cfgs : List Config} {rules : List InputFilter.Rule}
    {events : List (Env × Event)} (h : SettingsOf s name cfgs rules)
    (hexec : lts.exec s events = some s') :
    SettingsOf s' name (cfgs ++ applied name events) rules := by
  induction events generalizing s cfgs with
  | nil =>
    cases hexec
    simpa [applied] using h
  | cons l events ih =>
    obtain ⟨s₁, hst, hexec⟩ := Option.bind_eq_some_iff.1 hexec
    have hrest := ih (h.step hst) hexec
    have happend : applied name (l :: events) = applied name [l] ++ applied name events := by
      rw [applied, ← List.singleton_append, List.filterMap_append]
      rfl
    rw [happend, ← List.append_assoc]
    exact hrest

section run

variable {cfg : Config} {primary : Ident} {info : ScreenInfo} {enableDragDrop : Bool}

theorem settingsOf_create (h : create env cfg primary info enableDragDrop = some s) :
    SettingsOf s primary.name [cfg] cfg.inputFilterRules := by
  obtain ⟨s₁, s₂, hadd, hset, rfl⟩ := create_spec h
  obtain ⟨-, -, -, hclips⟩ := addClient_spec hadd
  have h₀ : SettingsOf ((unregistered cfg primary info enableDragDrop).withClient primaryClient)
      primary.name [] cfg.inputFilterRules :=
    ⟨rfl, (List.append_nil _).symm, rfl, Nat.one_pos⟩
  have hconfig : s₁.config = cfg := hclips.config
  have h₂ := (h₀.kept hclips.settingsKept).setConfig hset
  rw [hconfig] at h₂
  exact ⟨h₂.options, h₂.filterRules, h₂.primary, h₂.next⟩

/-- **The settings after a run**: those of the configurations that were applied, in order. -/
theorem run_settings {events : List (Env × Event)}
    (h : run env cfg primary info enableDragDrop events = some s) :
    SettingsOf s primary.name (cfg :: applied primary.name events) cfg.inputFilterRules := by
  obtain ⟨s₀, hcreate, hexec⟩ := Option.bind_eq_some_iff.1 h
  exact (settingsOf_create hcreate).exec hexec

/-- **A reload is like a restart** exactly if the earlier configurations left no option behind
that the last one does not set, and its rules are the first one's with those that were added for
Scroll Lock. -/
theorem reload_eq_restart_iff {events : List (Env × Event)} {cfgs : List Config} {last : Config}
    {env' : Env} {info' : ScreenInfo} {enableDragDrop' : Bool}
    (h : run env cfg primary info enableDragDrop events = some s)
    (hlast : applied primary.name events = cfgs ++ [last])
    (hrestart : create env' last primary info' enableDragDrop' = some s') :
    (s.options = s'.options ∧ s.filterRules = s'.filterRules) ↔
      SwitchOptions.NothingLeft ((cfg :: cfgs).map Config.globalOptions) last.globalOptions ∧
        cfg.inputFilterRules ++ (cfg :: cfgs).flatMap scrollLockRules =
          last.inputFilterRules := by
  have hs := run_settings h
  have hs' := settingsOf_create hrestart
  rw [hlast, ← List.cons_append] at hs
  rw [hs.options, hs'.options, hs.filterRules, hs'.filterRules, List.map_append,
    List.flatMap_append, ← List.append_assoc, List.append_left_inj]
  exact and_congr_left' (SwitchOptions.applyAll_eq_iff _ _)

end run

/-- Both screens, and a rule of its own for locking the cursor. -/
def lockedScreens : Config :=
  { twoScreens with inputFilterRules := [.scrollLock], hasLockToScreenAction := true }

/-- The same with a delay for switches. -/
def delayedScreens : Config := lockedScreens.addGlobalOption .screenSwitchDelay 250

/-- A reload that sets the delay is like a restart. -/
theorem reload_eq_restart_iff_delayedScreens :
    ∃ s s' : Server,
      run {} lockedScreens ⟨"p", true⟩ ⟨0, 0, 100, 100, 50, 50⟩ false
        [({}, .reloadConfig delayedScreens)] = some s ∧
      create {} delayedScreens ⟨"p", true⟩ ⟨0, 0, 100, 100, 50, 50⟩ false = some s' ∧
      s.options = s'.options ∧ s.filterRules = s'.filterRules := by
  have hrun : (run {} lockedScreens ⟨"p", true⟩ ⟨0, 0, 100, 100, 50, 50⟩ false
      [({}, .reloadConfig delayedScreens)]).isSome := by decide +kernel
  have hcreate : (create {} delayedScreens ⟨"p", true⟩ ⟨0, 0, 100, 100, 50, 50⟩ false).isSome := by
    decide +kernel
  obtain ⟨s, hs⟩ := Option.isSome_iff_exists.1 hrun
  obtain ⟨s', hs'⟩ := Option.isSome_iff_exists.1 hcreate
  have hlast : applied "p" [({}, .reloadConfig delayedScreens)] = [] ++ [delayedScreens] := by
    have hscreen : delayedScreens.isScreen "p" = true := by decide +kernel
    simp [applied, hscreen]
  refine ⟨s, s', hs, hs', (reload_eq_restart_iff hs hlast hs').2 ⟨?_, rfl⟩⟩
  exact ⟨by decide +kernel, by decide +kernel, by decide +kernel, by decide +kernel,
    by decide +kernel⟩

/-- A reload that no longer sets the delay is not: the delay stays. -/
theorem not_reload_eq_restart :
    ¬∀ (env env' : Env) (cfg last : Config) (cfgs : List Config) (primary : Ident)
      (info info' : ScreenInfo) (enableDragDrop enableDragDrop' : Bool)
      (events : List (Env × Event)) (s s' : Server),
      run env cfg primary info enableDragDrop events = some s →
      applied primary.name events = cfgs ++ [last] →
      create env' last primary info' enableDragDrop' = some s' →
      s.options = s'.options ∧ s.filterRules = s'.filterRules := by
  intro h
  have hrun : (run {} delayedScreens ⟨"p", true⟩ ⟨0, 0, 100, 100, 50, 50⟩ false
      [({}, .reloadConfig lockedScreens)]).map (fun s => s.options.waitDelay) = some (1 / 4) := by
    decide +kernel
  have hcreate : (create {} lockedScreens ⟨"p", true⟩ ⟨0, 0, 100, 100, 50, 50⟩ false).map
      (fun s => s.options.waitDelay) = some 0 := by
    decide +kernel
  obtain ⟨s, hs, hdelay⟩ := Option.map_eq_some_iff.1 hrun
  obtain ⟨s', hs', hdelay'⟩ := Option.map_eq_some_iff.1 hcreate
  have hlast : applied "p" [({}, .reloadConfig lockedScreens)] = [] ++ [lockedScreens] := by
    have hscreen : lockedScreens.isScreen "p" = true := by decide +kernel
    simp [applied, hscreen]
  have hsame := (h {} {} delayedScreens lockedScreens [] ⟨"p", true⟩ ⟨0, 0, 100, 100, 50, 50⟩
    ⟨0, 0, 100, 100, 50, 50⟩ false false _ s s' hs hlast hs').1
  rw [hsame, hdelay'] at hdelay
  exact absurd hdelay (by decide +kernel)

end Server

end InputLeap
