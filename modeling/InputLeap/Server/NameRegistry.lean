import InputLeap.Server.FilePaste
import InputLeap.Server.Focus

/-!
# The register of names

`m_clients` has each connected screen under its name, as long as no reload changes the name of a
screen while it is connected: names are looked up in the configuration when a screen is
registered and again when it is removed.

## Main definitions

* `Server.KeepsNames` : a configuration that the event brings gives every connected screen the
  name it has.

## Main results

* `registry_of_reachable` : the register is exact throughout runs that keep names.
* `not_registry_of_reachable` : not in all runs.
-/

namespace InputLeap

namespace Server

variable {s s' : Server} {env : Env} {c : ClientID}

/-- The configuration that the event brings. -/
def Event.reloaded : Event → Option Config
  | .reloadConfig cfg => some cfg
  | _ => none

/-- A configuration that the event brings gives every connected screen the name it has. -/
def KeepsNames (s : Server) (l : Env × Event) : Prop :=
  ∀ cfg ∈ l.2.reloaded, ∀ c ∈ s.registry.clientSet.toList,
    getName { s with config := cfg } c = s.getName c

instance (s : Server) (l : Env × Event) : Decidable (s.KeepsNames l) :=
  inferInstanceAs (Decidable (∀ _ ∈ Event.reloaded _, ∀ _ ∈ _, _))

/-- A configuration that keeps the names can take the place of the one in use. -/
theorem PasteInv.withConfig (h : PasteInv s) {cfg : Config}
    (hnames : ∀ c ∈ s.registry.clientSet, getName { s with config := cfg } c = s.getName c) :
    PasteInv { s with config := cfg } := by
  refine ⟨⟨fun hc => ?_, fun hc => ?_, h.named.waiting, h.named.fresh⟩, h.pastes.ends,
    h.pastes.answers⟩
  · obtain ⟨hmem, hname⟩ := h.named.names hc
    exact ⟨hmem, hname.trans (hnames _ hmem).symm⟩
  · rw [hnames _ hc]
    exact h.named.clients hc

theorem PasteInv.reloadConfig (h : PasteInv s) {cfg : Config}
    (hnames : ∀ c ∈ s.registry.clientSet, getName { s with config := cfg } c = s.getName c) :
    PasteInv (s.reloadConfig env cfg) := by
  have hcfg := h.withConfig hnames
  simp only [Server.reloadConfig]
  cases hset : Server.setConfig { s with config := cfg } env with
  | none => exact hcfg
  | some s' => exact hcfg.setConfig hset

theorem PasteInv.step_keepsNames {e : Event} (h : PasteInv s) (hkeeps : s.KeepsNames (env, e))
    (hst : s.step env e = some s') : PasteInv s' := by
  cases he : e.reloads with
  | false => exact h.step he hst
  | true =>
    cases e with
    | reloadConfig cfg =>
      cases hst
      exact h.reloadConfig fun c hc => hkeeps cfg rfl c (Std.TreeSet.mem_toList.2 hc)
    | _ => cases he

/-- **The register of names is exact** throughout every run whose reloads keep the names of the
connected screens: it maps the name of each connected screen to the screen, and nothing else. -/
theorem registry_of_reachable (hs : lts.ReachableVia KeepsNames s) :
    (∀ (name : String) (c : ClientID),
      s.registry.clients[name]? = some c ↔ c ∈ s.registry.clientSet ∧ name = s.getName c) ∧
    ∀ c, c ∉ s.registry.clientSet → ∀ name : String, s.registry.clients[name]? ≠ some c := by
  have h : PasteInv s := by
    refine hs.invariant (I := PasteInv) ?_ ?_
    · rintro s ⟨env, cfg, primary, info, enableDragDrop, hcreate⟩
      exact pasteInv_create hcreate
    · rintro s ⟨env, e⟩ s' h hkeeps hst
      exact h.step_keepsNames hkeeps hst
  exact ⟨fun name c => h.named.clients_iff, fun c hc name hname => hc (h.named.names hname).1⟩

/-- The same screens, with `bb` as another name of `b`. -/
def withAlias : Config := (twoScreens.addAlias "b" "bb").getD {}

/-- The client `b` connects under its other name. -/
def connectAsAlias : List (Env × Event) :=
  [({}, .clientConnected ⟨"bb", true⟩ ⟨0, 0, 100, 100, 50, 50⟩), ({}, .adoptClient 1)]

/-- A reload that adds a screen keeps the names. -/
theorem registry_of_reachable_connectAsAlias :
    ∃ s : Server, 1 ∈ s.registry.clientSet ∧
      (∀ (name : String) (c : ClientID),
        s.registry.clients[name]? = some c ↔ c ∈ s.registry.clientSet ∧ name = s.getName c) ∧
      ∀ c, c ∉ s.registry.clientSet → ∀ name : String, s.registry.clients[name]? ≠ some c := by
  have hrun : (run {} withAlias ⟨"p", true⟩ ⟨0, 0, 100, 100, 50, 50⟩ false
      (connectAsAlias ++ [(({} : Env), Event.reloadConfig
        ((withAlias.addScreen "c").getD {}))])).map
      (fun s => decide (1 ∈ s.registry.clientSet)) = some true := by decide +kernel
  obtain ⟨s, hs, hmem⟩ := Option.map_eq_some_iff.1 hrun
  exact ⟨s, of_decide_eq_true hmem,
    registry_of_reachable (reachableVia_of_run hs (by decide +kernel))⟩

/-- A reload that drops `b` closes the client, but its entry stays: the name that is looked up to
erase it is `bb` then. -/
theorem not_registry_of_reachable :
    ¬∀ s : Server, lts.Reachable s →
      (∀ (name : String) (c : ClientID),
        s.registry.clients[name]? = some c ↔ c ∈ s.registry.clientSet ∧ name = s.getName c) ∧
      ∀ c, c ∉ s.registry.clientSet → ∀ name : String, s.registry.clients[name]? ≠ some c := by
  intro h
  have hrun : (run {} withAlias ⟨"p", true⟩ ⟨0, 0, 100, 100, 50, 50⟩ false
      (connectAsAlias ++ [(({} : Env), Event.reloadConfig
        ((({} : Config).addScreen "p").getD {}))])).map
      (fun s => (decide (1 ∈ s.registry.clientSet), s.registry.clients["b"]?)) =
      some (false, some 1) := by decide +kernel
  obtain ⟨s, hs, hgone⟩ := Option.map_eq_some_iff.1 hrun
  obtain ⟨hmem, hentry⟩ := Prod.mk.inj hgone
  exact (h s (reachable_of_run hs)).2 1 (of_decide_eq_false hmem) "b" hentry

end Server

end InputLeap
