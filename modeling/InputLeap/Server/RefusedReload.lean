import InputLeap.Server.NameRegistry
import InputLeap.Server.Reload

/-!
# Refused reloads

`ServerApp` reads the file into the configuration object that the server uses and only then asks
the server to accept it.  A file that cannot be read leaves the object alone; a configuration
without the primary screen is refused but stays in the object.

## Main definitions

* `loadConfig`, `Server.reload_config` : the reload of `ServerApp`.
* `Server.SameDecisions` : the configuration answers all queries alike.

## Main results

* `Server.reload_config_some` : a file that was read is the event `reloadConfig`.
* `Server.refused_reload_iff` : a refused reload changes nothing exactly if the file was not read.
-/

namespace InputLeap

/-- Reads a text into the configuration object: the sections are read into a new one, which
replaces it.  `readSections` is what they make of an empty configuration, or `none` if they are
in error. -/
def Config.read (readSections : String → Option Config) (cfg : Config) (text : String) :
    Config × Bool :=
  match readSections text with
  | none => (cfg, false)
  | some tmp => (tmp, true)

/-- Loads the configuration file into the object, and whether that worked; `none` is a file that
cannot be opened. -/
def loadConfig (readSections : String → Option Config) (cfg : Config) (file : Option String) :
    Config × Bool :=
  match file with
  | none => (cfg, false)
  | some text => cfg.read readSections text

namespace Server

variable {s s' : Server} {env : Env} {readSections : String → Option Config} {file : Option String}

/-- Loads the file and asks the server to apply it, and whether it was accepted. -/
def reload_config (readSections : String → Option Config) (s : Server) (env : Env)
    (file : Option String) : Server × Bool :=
  let (cfg, loaded) := loadConfig readSections s.config file
  let s := { s with config := cfg }
  if loaded then
    match s.setConfig env with
    | none => (s, false)
    | some s => (s, true)
  else (s, false)

/-- A file that was read is the event that the server handles. -/
theorem reload_config_some {text : String} {cfg : Config} (h : readSections text = some cfg) :
    s.step env (.reloadConfig cfg) = some (s.reload_config readSections env (some text)).1 := by
  simp only [Server.step, reloadConfig, reload_config, loadConfig, Config.read, h, if_true]
  cases Server.setConfig { s with config := cfg } env <;> rfl

/-- A file that cannot be opened or read leaves the server alone. -/
theorem reload_config_none (h : ∀ text, file = some text → readSections text = none) :
    s.reload_config readSections env file = (s, false) := by
  cases file with
  | none => rfl
  | some text => simp [reload_config, loadConfig, Config.read, h text rfl]

/-- Names, neighbours, options and which screens are adopted are decided alike. -/
structure SameDecisions (s s' : Server) : Prop where
  canonical : ∀ name, s'.config.getCanonicalName name = s.config.getCanonicalName name
  screens : ∀ name, s'.config.isScreen name = s.config.isScreen name
  neighbors : ∀ name side position,
    s'.config.getNeighbor name side position = s.config.getNeighbor name side position
  edges : ∀ name side, s'.config.hasNeighbor name side = s.config.hasNeighbor name side
  options : ∀ name, s'.config.getOptions name = s.config.getOptions name

/-- The event brings no configuration without the primary screen. -/
def Accepted (s : Server) (l : Env × Event) : Prop :=
  ∀ cfg ∈ l.2.reloaded, cfg.isScreen (s.registry.ident primaryClient).name = true

instance (s : Server) (l : Env × Event) : Decidable (s.Accepted l) :=
  inferInstanceAs (Decidable (∀ _ ∈ Event.reloaded _, _))

theorem isScreen_setConfig {name : String} (h : s.setConfig env = some s') :
    s'.config.isScreen name = s.config.isScreen name := by
  obtain ⟨-, -, hconfig, -⟩ := setConfig_settings h
  rw [hconfig]
  rfl

/-- In runs without refused configurations the primary screen is in the configuration. -/
theorem isScreen_of_reachable (hs : lts.ReachableVia Accepted s) :
    s.config.isScreen (s.registry.ident primaryClient).name = true ∧ 0 < s.registry.next := by
  refine hs.invariant (I := fun s =>
    s.config.isScreen (s.registry.ident primaryClient).name = true ∧ 0 < s.registry.next) ?_ ?_
  · rintro s ⟨env, cfg, primary, info, enableDragDrop, hcreate⟩
    have hnext := (settingsOf_create hcreate).next
    obtain ⟨s₁, s₂, -, hset, rfl⟩ := create_spec hcreate
    obtain ⟨-, -, -, hident, -⟩ := setConfig_settings hset
    refine ⟨?_, hnext⟩
    have hscreen := (setConfig_spec hset).1
    rw [← isScreen_setConfig hset, ← hident] at hscreen
    exact hscreen
  · rintro s ⟨env, e⟩ s' ⟨hscreen, hnext⟩ haccepted hst
    cases he : e.reloads with
    | false =>
      have hkept := settingsKept_of_step he hnext hst
      rw [hkept.config, hkept.primary]
      exact ⟨hscreen, hnext.trans_le hkept.next⟩
    | true =>
      cases e with
      | reloadConfig cfg =>
        cases hst
        have hcfg : cfg.isScreen (s.registry.ident primaryClient).name = true := haccepted cfg rfl
        simp only [Server.reloadConfig]
        cases hset : Server.setConfig { s with config := cfg } env with
        | none => exact ⟨hcfg, hnext⟩
        | some s₁ =>
          obtain ⟨-, -, -, hident, hnext₁⟩ := setConfig_settings hset
          rw [Option.getD_some, isScreen_setConfig hset, hident, hnext₁]
          exact ⟨hcfg, hnext⟩
      | _ => cases he

/-- **A refused reload changes nothing exactly if the file was not read**, in runs in which no
other configuration was refused. -/
theorem refused_reload_iff (hs : lts.ReachableVia Accepted s)
    (hrefused : (s.reload_config readSections env file).2 = false) :
    SameDecisions s (s.reload_config readSections env file).1 ↔
      ∀ text, file = some text → readSections text = none := by
  refine ⟨fun hsame text hfile => ?_, fun hunread => ?_⟩
  · by_contra hread
    obtain ⟨cfg, hcfg⟩ := Option.ne_none_iff_exists'.1 hread
    subst hfile
    -- The object has the new content, which lacks the primary screen.
    cases hset : Server.setConfig { s with config := cfg } env with
    | some s₁ => simp [reload_config, loadConfig, Config.read, hcfg, hset] at hrefused
    | none =>
      have hprimary := (isScreen_of_reachable hs).1
      have hobject : (s.reload_config readSections env (some text)).1.config = cfg := by
        simp [reload_config, loadConfig, Config.read, hcfg, hset]
      have hlacks : cfg.isScreen (s.registry.ident primaryClient).name = false := by
        by_contra hscreen
        simp [Server.setConfig, hscreen] at hset
      rw [← hsame.screens, hobject, hlacks] at hprimary
      cases hprimary
  · rw [reload_config_none hunread]
    exact ⟨fun _ => rfl, fun _ => rfl, fun _ _ _ => rfl, fun _ _ => rfl, fun _ => rfl⟩

/-- A file with one screen, `q`. -/
def onlyQ : String := "section: screens\n\tq:\nend\n"

/-- What is read from that file. -/
def readOnlyQ (text : String) : Option Config :=
  if text = onlyQ then ({} : Config).addScreen "q" else none

/-- A file that is cut off is refused and changes nothing. -/
theorem refused_reload_iff_truncated :
    ∃ s : Server, SameDecisions s (s.reload_config readOnlyQ {} (some "section: screens\n")).1 := by
  have hrun : (run {} twoScreens ⟨"p", true⟩ ⟨0, 0, 100, 100, 50, 50⟩ false []).map
      (fun s => (s.reload_config readOnlyQ {} (some "section: screens\n")).2) = some false := by
    decide +kernel
  obtain ⟨s, hs, hrefused⟩ := Option.map_eq_some_iff.1 hrun
  refine ⟨s, (refused_reload_iff (reachableVia_of_run hs (by decide +kernel)) hrefused).2 ?_⟩
  intro text htext
  obtain rfl := Option.some.inj htext
  decide +kernel

/-- The file without the primary screen `p` is refused, but afterwards `p` is unknown. -/
theorem not_sameDecisions_of_refused :
    ¬∀ (readSections : String → Option Config) (s : Server) (env : Env) (file : Option String),
      lts.Reachable s → (s.reload_config readSections env file).2 = false →
      SameDecisions s (s.reload_config readSections env file).1 := by
  intro h
  have hrun : (run {} twoScreens ⟨"p", true⟩ ⟨0, 0, 100, 100, 50, 50⟩ false []).map
      (fun s => ((s.reload_config readOnlyQ {} (some onlyQ)).2, s.config.isScreen "p",
        (s.reload_config readOnlyQ {} (some onlyQ)).1.config.isScreen "p")) =
      some (false, true, false) := by decide +kernel
  obtain ⟨s, hs, hscreens⟩ := Option.map_eq_some_iff.1 hrun
  simp only [Prod.mk.injEq] at hscreens
  obtain ⟨hrefused, hbefore, hafter⟩ := hscreens
  have hsame := (h readOnlyQ s {} (some onlyQ) (reachable_of_run hs) hrefused).screens "p"
  rw [hbefore, hafter] at hsame
  cases hsame

end Server

end InputLeap
