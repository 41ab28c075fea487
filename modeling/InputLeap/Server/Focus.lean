import InputLeap.Server.Connected

/-!
# One screen has the cursor

At any time one connected screen is entered, the active one, and while the screen saver runs the
screen that it took the cursor from is remembered.  This fails when a client is removed that is
active while another screen is remembered, or that is remembered while another client is active:
`forceLeaveClient` then looks at one of the two screens only.

## Main definitions

* `Server.FocusOk` : the active screen is connected, a remembered screen is connected, and of
  the connected screens the active one is entered.
* `Server.Leavable` : removing the client does not lose the cursor.

## Main results

* `FocusOk.step` : every event that removes only leavable clients keeps `FocusOk`.
* `focus_of_reachable` : so it holds throughout such runs.
* `not_focus_of_reachable` : it does not hold throughout all runs.
-/

namespace InputLeap

namespace Server

/-- One connected screen is entered, the active one. -/
structure FocusOk (s : Server) : Prop where
  active : s.focus.active ∈ s.registry.clientSet
  saver : ∀ {c}, s.focus.activeSaver = some c → c ∈ s.registry.clientSet
  entered : ∀ {c}, c ∈ s.registry.clientSet → (s.Entered c ↔ c = s.focus.active)
  /-- A client that is not adopted yet was not entered. -/
  fresh : ∀ {c}, c ∈ s.registry.waiting ∨ s.registry.next ≤ c → ¬s.Entered c

/-- The client is removable, is not active while a screen is remembered, and is remembered only
while the primary screen is active. -/
def Leavable (s : Server) (c : ClientID) : Prop :=
  s.Removable c ∧ (c = s.focus.active → s.focus.activeSaver = none) ∧
    (s.focus.activeSaver = some c → s.focus.active = primaryClient)

instance (s : Server) (c : ClientID) : Decidable (s.Leavable c) :=
  inferInstanceAs (Decidable (_ ∧ _ ∧ _))

variable {s s' : Server} {env : Env} {c d : ClientID}

/-- The cursor goes to connected screens only. -/
theorem Connected.mem_of_target (h : Connected s) (hf : FocusOk s) (hc : s.Target c) :
    c ∈ s.registry.clientSet := by
  obtain hreg | hpending | hsaver | rfl := hc
  · exact h.mem_of_registered hreg
  · exact h.pending hpending
  · exact hf.saver hsaver
  · exact h.primary

/-! ### Moving the cursor -/

theorem FocusOk.moved (hf : FocusOk s) (h : Connected s) (hm : Moved s s') : FocusOk s' := by
  have hsaver {c : ClientID} (hc : s'.focus.activeSaver = some c) :
      c ∈ s'.registry.clientSet := by
    rw [hm.registry]
    obtain rfl | hold := hm.saver c hc
    · exact hf.active
    · exact hf.saver hold
  obtain ⟨hactive, hentered⟩ | ⟨dst, hdst, hactive, hentered⟩ := hm.cursor
  · refine ⟨?_, hsaver, fun hc => ?_, fun hc => ?_⟩
    · rw [hactive, hm.registry]
      exact hf.active
    · rw [hentered, hactive]
      exact hf.entered (hm.registry ▸ hc)
    · rw [hentered]
      exact hf.fresh (hm.registry ▸ hc)
  · have hmem := h.mem_of_target hf hdst
    refine ⟨?_, hsaver, fun {c} hc => ?_, fun {c} hc => ?_⟩
    · rw [hactive, hm.registry]
      exact hmem
    · -- The screen that was active is left, no other one was entered.
      rw [hentered, hactive, hf.entered (hm.registry ▸ hc)]
      simp
    · rw [hm.registry] at hc
      rw [hentered]
      rintro (rfl | ⟨-, hold⟩)
      · obtain hc | hc := hc
        · exact (h.waiting hc).1 hmem
        · exact absurd (h.fresh hmem) (not_lt.2 hc)
      · exact hf.fresh hc hold

theorem FocusOk.still (hf : FocusOk s) (hs : Still s s') : FocusOk s' := by
  refine ⟨?_, fun hd => ?_, fun hd => ?_, fun hd => ?_⟩
  · rw [hs.focus, hs.registry]
    exact hf.active
  · rw [hs.registry]
    exact hf.saver (hs.focus ▸ hd)
  · rw [hs.entered, hs.focus]
    exact hf.entered (hs.registry ▸ hd)
  · rw [hs.entered]
    exact hf.fresh (hs.registry ▸ hd)

/-! ### Adopting and removing clients -/

theorem FocusOk.addClient (hf : FocusOk s) (hadd : s.addClient c = some s')
    (hc : c ∉ s.registry.clientSet) (hentered : ¬s.Entered c) : FocusOk s' := by
  obtain ⟨-, hstill, -⟩ := addClient_spec hadd
  have hmem {d : ClientID} : d ∈ s'.registry.clientSet ↔ c = d ∨ d ∈ s.registry.clientSet := by
    rw [hstill.registry]
    exact mem_withClient
  have hfocus : s'.focus = s.focus := hstill.focus
  refine ⟨?_, fun hd => ?_, fun {d} hd => ?_, fun hd => ?_⟩
  · rw [hfocus]
    exact hmem.2 (.inr hf.active)
  · rw [hfocus] at hd
    exact hmem.2 (.inr (hf.saver hd))
  · rw [hstill.entered, hfocus]
    obtain rfl | hd := hmem.1 hd
    · exact ⟨fun h => absurd h hentered, fun h => absurd (h ▸ hf.active) hc⟩
    · exact hf.entered hd
  · rw [hstill.entered]
    rw [hstill.registry] at hd
    exact hf.fresh hd

theorem ForcedOut.focusOk {o : Std.TreeSet ClientID} (hforced : ForcedOut (s.without c o) s' c)
    (hf : FocusOk s) (h : Connected s) (hne : c ≠ primaryClient)
    (hleave : c ∈ s.registry.clientSet → s.Leavable c) : FocusOk s' := by
  have hwaiting : s'.registry.waiting = s.registry.waiting ∧
      s'.registry.next = s.registry.next := by
    rw [hforced.registry]
    exact ⟨waiting_without.1, waiting_without.2.1⟩
  have hfresh {d : ClientID} (hd : d ∈ s'.registry.waiting ∨ s'.registry.next ≤ d) :
      d ≠ primaryClient ∧ ¬s.Entered d := by
    rw [hwaiting.1, hwaiting.2] at hd
    refine ⟨?_, hf.fresh hd⟩
    rintro rfl
    obtain hd | hd := hd
    · exact (h.waiting hd).1 h.primary
    · exact absurd (h.fresh h.primary) (not_lt.2 hd)
  obtain ⟨hfocus, hsame, -, hentered⟩ | ⟨hfocus, hsame, -, hentered⟩ := hforced.cursor
  · have hsame : s'.focus = s.focus := hsame
    have hentered (d : ClientID) : s'.Entered d ↔ s.Entered d := hentered d
    refine ⟨?_, fun hd => ?_, fun hd => ?_, fun hd => ?_⟩
    · rw [hsame]
      refine hforced.mem_clientSet.2 ⟨hf.active, fun hc => ?_⟩
      -- An active screen that does not count as active is one too many.
      have hnone := (hleave (hc ▸ hf.active)).2.1 hc.symm
      exact hfocus (by simp [focusClient, without, hnone, hc])
    · rw [hsame] at hd
      refine hforced.mem_clientSet.2 ⟨hf.saver hd, ?_⟩
      rintro rfl
      exact hfocus (by simp [focusClient, without, hd])
    · rw [hentered, hsame]
      exact hf.entered (hforced.mem_clientSet.1 hd).1
    · rw [hentered]
      exact (hfresh hd).2
  · have hfocus : s.focusClient = c := hfocus
    have hsame : s'.focus = { s.focus with active := primaryClient, activeSaver := none } := hsame
    have hentered (d : ClientID) :
        s'.Entered d ↔ d = primaryClient ∧ s.focus.activeSaver = none ∨ s.Entered d := hentered d
    refine ⟨?_, fun hd => ?_, fun {d} hd => ?_, fun hd => ?_⟩
    · rw [hsame]
      exact hforced.mem_clientSet.2 ⟨h.primary, hne.symm⟩
    · rw [hsame] at hd
      cases hd
    · obtain ⟨hd, hdc⟩ := hforced.mem_clientSet.1 hd
      rw [hentered, hsame, hf.entered hd]
      cases hsaver : s.focus.activeSaver with
      | none =>
        -- The active screen is gone, so only the primary screen is entered now.
        have hactive : s.focus.active = c := by simpa [focusClient, hsaver] using hfocus
        simp [hactive, hdc]
      | some c' =>
        -- The remembered screen is gone, and the primary screen was entered all along.
        obtain rfl : c' = c := by simpa [focusClient, hsaver] using hfocus
        simp [(hleave (hf.saver hsaver)).2.2 hsaver]
    · obtain ⟨hdp, hold⟩ := hfresh hd
      rw [hentered]
      rintro (⟨hd, -⟩ | hd)
      · exact hdp hd
      · exact hold hd

/-- The clients that could be removed before still can be. -/
theorem ForcedOut.leavable {o : Std.TreeSet ClientID} (hforced : ForcedOut (s.without c o) s' c)
    (hc : c ∈ s.registry.clientSet → s.Leavable c)
    (hd : d ∈ s.registry.clientSet → s.Leavable d) (hmem : d ∈ s'.registry.clientSet) :
    s'.Leavable d := by
  refine ⟨hforced.removable (fun h => (hc h).1) (fun h => (hd h).1) hmem, ?_⟩
  obtain ⟨-, hsame, -⟩ | ⟨-, hsame, -⟩ := hforced.cursor
  · rw [hsame]
    exact (hd (hforced.mem_clientSet.1 hmem).1).2
  · rw [hsame]
    exact ⟨fun _ => rfl, fun h => by cases h⟩

theorem FocusOk.closeClients (hf : FocusOk s) (h : Connected s) {cfg : Config}
    (hl : ∀ c ∈ s.droppedClients cfg, s.Leavable c) : FocusOk (s.closeClients env cfg) := by
  refine (closeClients_induction (I := fun s => Connected s ∧ FocusOk s) (P := Leavable)
    (fun s c hc hs hP => ?_) _ s (fun c hc => ?_) ⟨h, hf⟩).2
  · have hforced := forcedOut_closeClient s env c "CBYE"
    have hremove (hm : c ∈ s.registry.clientSet) := (hP hm).1
    exact ⟨⟨hforced.connected hs.1 hc hremove, hforced.focusOk hs.2 hs.1 hc hP⟩,
      fun d _ hd => hforced.leavable hP hd⟩
  · exact ⟨ne_primary_of_mem_droppedClients hc, fun _ => hl c hc⟩

theorem FocusOk.dequeue (hf : FocusOk s) (c : ClientID) : FocusOk (s.dequeue c) :=
  ⟨hf.active, hf.saver, hf.entered, fun hd => hf.fresh (hd.imp_left
    Std.TreeSet.mem_of_mem_erase)⟩

theorem FocusOk.adoptClient (hf : FocusOk s) (h : Connected s) (hc : c ∈ s.registry.waiting) :
    FocusOk (s.adoptClient env c) := by
  have hmem := (h.waiting hc).1
  have hne : c ≠ primaryClient := fun hp => hmem (hp ▸ h.primary)
  obtain ⟨msg, hclose⟩ | ⟨s₂, hadd, hstill, -⟩ := adoptClient_cases s env c
  · rw [hclose]
    exact (forcedOut_closeClient _ env c msg).focusOk (hf.dequeue c) (h.dequeue c) hne
      fun hm => absurd hm hmem
  · exact ((hf.dequeue c).addClient hadd hmem (hf.fresh (.inl hc))).still hstill

theorem FocusOk.removeOldClient (hf : FocusOk s) (c : ClientID) :
    FocusOk (s.removeOldClient c) := by
  have herase : FocusOk { s with registry :=
      { s.registry with oldClients := s.registry.oldClients.erase c } } :=
    ⟨hf.active, hf.saver, hf.entered, hf.fresh⟩
  simp only [Server.removeOldClient]
  split_ifs
  · exact hf
  · exact herase.still (still_notice _ _)
  · exact herase

theorem FocusOk.handleClientDisconnected (hf : FocusOk s) (h : Connected s)
    (hne : c ≠ primaryClient) (hc : c ∈ s.registry.clientSet → s.Leavable c) :
    FocusOk (s.handleClientDisconnected env c) := by
  refine FocusOk.removeOldClient ?_ c
  by_cases hmem : c ∈ s.registry.clientSet
  · exact (forcedOut_removeActiveClient s env hmem).focusOk hf h hne hc
  · have hcontains : s.registry.clientSet.contains c = false := Bool.eq_false_iff.2 hmem
    simp only [removeActiveClient, hcontains, Bool.not_false, if_true]
    exact hf

theorem FocusOk.reloadConfig (hf : FocusOk s) (h : Connected s) {cfg : Config}
    (hg : s.Removes Leavable (.reloadConfig cfg)) : FocusOk (s.reloadConfig env cfg) := by
  have hcfg : Connected { s with config := cfg } :=
    ⟨h.primary, h.names, h.inj, h.waiting, h.fresh, h.pending⟩
  have hfcfg : FocusOk { s with config := cfg } := ⟨hf.active, hf.saver, hf.entered, hf.fresh⟩
  simp only [Server.reloadConfig]
  cases hset : Server.setConfig { s with config := cfg } env with
  | none => exact hfcfg
  | some s' =>
    obtain ⟨hscreen, haimed⟩ := setConfig_spec hset
    have hclosed : Connected (Server.closeClients { s with config := cfg } env cfg) :=
      hcfg.closeClients fun c hc => (hg hscreen c hc).1
    exact (hfcfg.closeClients hcfg (hg hscreen)).moved hclosed haimed.moved

theorem FocusOk.disconnect (hf : FocusOk s) (h : Connected s)
    (hg : s.Removes Leavable .disconnect) : FocusOk (s.disconnect env) := by
  unfold Server.disconnect
  split_ifs with hmany
  · exact hf.closeClients h (hg hmany)
  · exact hf.still (still_notice _ _)

/-- **The cursor stays on a connected screen** when an event removes only leavable clients. -/
theorem FocusOk.step {e : Event} (hf : FocusOk s) (h : Connected s) (hg : s.Removes Leavable e)
    (hst : s.step env e = some s') : FocusOk s' := by
  cases he : e.changesRegistry with
  | false => exact hf.moved h (moved_of_step he hst)
  | true =>
    cases e with
    | clientConnected ident info =>
      cases hst
      refine ⟨hf.active, hf.saver, hf.entered, fun {c} hc => hf.fresh ?_⟩
      -- The new proxy has the number that was the next one.
      simp only [Server.clientConnected, Std.TreeSet.mem_insert,
        Std.LawfulEqCmp.compare_eq_iff_eq] at hc
      obtain (rfl | hc) | hc := hc
      · exact .inr le_rfl
      · exact .inl hc
      · exact .inr (Nat.le_of_succ_le hc)
    | adoptClient c =>
      simp only [Server.step] at hst
      split_ifs at hst with hc
      cases hst
      exact hf.adoptClient h hc
    | clientDisconnected c =>
      simp only [Server.step] at hst
      split_ifs at hst with hc hne
      · cases hst
        exact hf.dequeue c
      · cases hst
        exact hf.handleClientDisconnected h hne.1 hg
    | clientCloseTimeout c =>
      simp only [Server.step] at hst
      split_ifs at hst
      cases hst
      exact hf.removeOldClient c
    | reloadConfig cfg =>
      cases hst
      exact hf.reloadConfig h hg
    | disconnect =>
      cases hst
      exact hf.disconnect h hg
    | _ => cases he

theorem focusOk_create {cfg : Config} {primary : Ident} {info : ScreenInfo}
    {enableDragDrop : Bool} (h : create env cfg primary info enableDragDrop = some s) :
    FocusOk s := by
  obtain ⟨hconnected, hfocus, hentered⟩ := create_connected h
  refine ⟨?_, fun hc => ?_, fun {c} _ => ?_, fun {c} hc => ?_⟩
  · rw [hfocus]
    exact hconnected.primary
  · rw [hfocus] at hc
    cases hc
  · rw [hentered, hfocus]
  · rw [hentered]
    rintro rfl
    obtain hc | hc := hc
    · exact (hconnected.waiting hc).1 hconnected.primary
    · exact absurd (hconnected.fresh hconnected.primary) (not_lt.2 hc)

/-- **One screen has the cursor** throughout every run in which only leavable clients are
removed. -/
theorem focus_of_reachable (hs : lts.ReachableVia (fun s l => s.Removes Leavable l.2) s) :
    s.focus.active ∈ s.registry.clientSet ∧
      (∀ c, s.focus.activeSaver = some c → c ∈ s.registry.clientSet) ∧
      (∀ c ∈ s.registry.clientSet, s.Entered c ↔ c = s.focus.active) ∧
      (s.Entered primaryClient ↔ s.focus.active = primaryClient) := by
  obtain ⟨h, hf⟩ : Connected s ∧ FocusOk s := by
    refine hs.invariant (I := fun s => Connected s ∧ FocusOk s) ?_ ?_
    · rintro s ⟨env, cfg, primary, info, enableDragDrop, hcreate⟩
      exact ⟨(create_connected hcreate).1, focusOk_create hcreate⟩
    · rintro s l s' ⟨h, hf⟩ hg hst
      exact ⟨h.step (hg.mono fun _ _ hc => hc.1) hst, hf.step h hg hst⟩
  refine ⟨hf.active, fun c hc => hf.saver hc, fun c hc => hf.entered hc, ?_⟩
  rw [hf.entered h.primary, eq_comm]

/-- The screens `p` (the primary screen) and `b`. -/
def twoScreens : Config :=
  (({} : Config).addScreen "p" |>.bind (·.addScreen "b")).getD {}

/-- The client `b` connects, and a hotkey makes it active while the screen saver runs. -/
def hotkeyDuringSaver : List (Env × Event) :=
  [({}, .clientConnected ⟨"b", true⟩ ⟨0, 0, 100, 100, 50, 50⟩), ({}, .adoptClient 1),
    ({}, .screensaver true), ({}, .switchToScreen "b")]

/-- The condition admits that run: `b` is active, and the primary screen is remembered. -/
theorem focus_of_reachable_hotkeyDuringSaver :
    ∃ s : Server, (s.focus.active = 1 ∧ s.focus.activeSaver = some primaryClient) ∧
      s.focus.active ∈ s.registry.clientSet ∧
      (∀ c, s.focus.activeSaver = some c → c ∈ s.registry.clientSet) ∧
      (∀ c ∈ s.registry.clientSet, s.Entered c ↔ c = s.focus.active) ∧
      (s.Entered primaryClient ↔ s.focus.active = primaryClient) := by
  have hrun : (run {} twoScreens ⟨"p", true⟩ ⟨0, 0, 100, 100, 50, 50⟩ false
      hotkeyDuringSaver).map (fun s => (s.focus.active, s.focus.activeSaver)) =
      some (1, some primaryClient) := by decide +kernel
  obtain ⟨s, hs, hfocus⟩ := Option.map_eq_some_iff.1 hrun
  obtain ⟨hactive, hsaver⟩ := Prod.mk.inj hfocus
  exact ⟨s, ⟨hactive, hsaver⟩, focus_of_reachable (reachableVia_of_run hs (by decide +kernel))⟩

/-- When `b` disconnects then, it stays active: the screen that `forceLeaveClient` looks at is the
remembered one. -/
theorem not_focus_of_reachable :
    ¬∀ s : Server, lts.Reachable s →
      s.focus.active ∈ s.registry.clientSet ∧
      (∀ c, s.focus.activeSaver = some c → c ∈ s.registry.clientSet) ∧
      (∀ c ∈ s.registry.clientSet, s.Entered c ↔ c = s.focus.active) ∧
      (s.Entered primaryClient ↔ s.focus.active = primaryClient) := by
  intro h
  have hrun : (run {} twoScreens ⟨"p", true⟩ ⟨0, 0, 100, 100, 50, 50⟩ false
      (hotkeyDuringSaver ++ [(({} : Env), Event.clientDisconnected 1)])).map
      (fun s => decide (s.focus.active ∈ s.registry.clientSet)) = some false := by decide +kernel
  obtain ⟨s, hs, hactive⟩ := Option.map_eq_some_iff.1 hrun
  exact of_decide_eq_false hactive (h s (reachable_of_run hs)).1

end Server

end InputLeap
