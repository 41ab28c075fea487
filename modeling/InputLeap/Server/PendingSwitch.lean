import InputLeap.Server.Connected

/-!
# A pending switch

While the wait timer runs, a switch to a connected screen is pending, and the position that the
timer will switch to is one that `mapToNeighbor` found on that screen.  The second part fails
when the cursor comes back to an edge where another screen is: `isSwitchOkay` keeps the pending
screen because the direction is the same, but starts the timer with the position on the other
screen.

## Main definitions

* `Server.WaitOk` : what a running timer switches to was found by `mapToNeighbor`.
* `Server.Calmer s s'` : from `s` to `s'` no wait is started.
* `Server.Strays` : a motion across an edge starts the wait with a position on the wrong screen.
* `Server.attempt` : where an event looks for a neighbour first.

## Main results

* `WaitOk.step` : every event that does not stray keeps `WaitOk`.
* `pending_of_reachable` : the pending switch throughout runs that remove removable clients only
  and do not stray.
* `not_pending_of_reachable` : it does not hold throughout all runs.
-/

namespace InputLeap

namespace Server

/-- While the timer runs a switch is pending, its position was found on its screen, and switches
are delayed. -/
def WaitOk (s : Server) : Prop :=
  s.pending.waitTimer = true →
    0 < s.options.waitDelay ∧ ∃ c, s.pending.switchScreen = some c ∧
      (c, s.pending.waitX, s.pending.waitY) ∈ s.log.mapped

/-- The timer was not started: if it runs, it ran before, for the same switch. -/
structure Calmer (s s' : Server) : Prop where
  mapped : ∀ m ∈ s.log.mapped, m ∈ s'.log.mapped
  waits : s'.pending.waitTimer = true →
    s.pending.waitTimer = true ∧ s'.options.waitDelay = s.options.waitDelay ∧
      s'.pending.switchScreen = s.pending.switchScreen ∧ s'.pending.waitX = s.pending.waitX ∧
      s'.pending.waitY = s.pending.waitY

variable {s s' s'' : Server} {env : Env}

theorem WaitOk.calmer (hw : WaitOk s) (h : Calmer s s') : WaitOk s' := by
  intro htimer
  obtain ⟨hold, hdelay, hscreen, hx, hy⟩ := h.waits htimer
  obtain ⟨hpos, c, hc, hmem⟩ := hw hold
  rw [hdelay, hscreen, hx, hy]
  exact ⟨hpos, c, hc, h.mapped _ hmem⟩

namespace Calmer

theorem refl (s : Server) : Calmer s s := ⟨fun _ h => h, fun h => ⟨h, rfl, rfl, rfl, rfl⟩⟩

theorem trans (h : Calmer s s') (h' : Calmer s' s'') : Calmer s s'' where
  mapped m hm := h'.mapped m (h.mapped m hm)
  waits htimer := by
    obtain ⟨ht, hd, hs, hx, hy⟩ := h'.waits htimer
    obtain ⟨ht, hd', hs', hx', hy'⟩ := h.waits ht
    exact ⟨ht, hd.trans hd', hs.trans hs', hx.trans hx', hy.trans hy'⟩

theorem foldl {α : Type*} {f : Server → α → Server} (hf : ∀ s a, Calmer s (f s a)) (l : List α)
    (s : Server) : Calmer s (l.foldl f s) := by
  induction l generalizing s with
  | nil => exact refl s
  | cons a l ih => exact (hf s a).trans (ih _)

/-- The pending switch is as before or given up. -/
theorem of_pending (hmapped : s'.log.mapped = s.log.mapped) (hoptions : s'.options = s.options)
    (hpending : s'.pending = s.pending ∨ s'.pending = s.pending.stopSwitch) : Calmer s s' := by
  refine ⟨fun m hm => hmapped ▸ hm, fun htimer => ?_⟩
  obtain hp | hp := hpending
  · rw [hp] at htimer ⊢
    exact ⟨htimer, by rw [hoptions], rfl, rfl, rfl⟩
  · rw [hp] at htimer ⊢
    unfold Pending.stopSwitch at htimer ⊢
    split_ifs at htimer ⊢
    · exact ⟨htimer, by rw [hoptions], rfl, rfl, rfl⟩
    · cases htimer

end Calmer

theorem Still.calmer (h : Still s s') : Calmer s s' :=
  .of_pending h.mapped h.options (.inl h.pending)

theorem Switched.calmer {dst : ClientID} (h : Switched s s' dst) : Calmer s s' :=
  .of_pending h.mapped h.options (.inr h.pending)

theorem ForcedOut.calmer {c : ClientID} (h : ForcedOut s s' c) : Calmer s s' := by
  refine .of_pending h.mapped h.options ?_
  obtain ⟨-, -, hpending, -⟩ | ⟨-, -, hpending, -⟩ := h.cursor
  · exact .inl hpending
  · rw [hpending]
    split_ifs
    · exact .inr rfl
    · exact .inl rfl

theorem calmer_setFocus (s : Server) (f : Focus) : Calmer s (s.setFocus f) :=
  .of_pending rfl rfl (.inl rfl)

theorem calmer_stopSwitch (s : Server) : Calmer s s.stopSwitch := .of_pending rfl rfl (.inr rfl)

/-! ### Events that start no wait -/

theorem calmer_enterSaver (s : Server) (env : Env) : Calmer s (s.enterSaver env) := by
  simp only [enterSaver]
  split_ifs
  · exact (calmer_setFocus s _).trans (switched_switchScreen _ env _ _ _ _).calmer
  · exact calmer_setFocus s _

theorem calmer_leaveSaver (s : Server) (env : Env) : Calmer s (s.leaveSaver env) := by
  unfold leaveSaver
  split
  · exact .refl s
  · split_ifs
    · exact .refl s
    · exact (calmer_setFocus s _).trans (switched_switchScreen _ env _ _ _ _).calmer

theorem calmer_onScreensaver (s : Server) (env : Env) (activated : Bool) :
    Calmer s (s.onScreensaver env activated) := by
  simp only [onScreensaver]
  refine Calmer.trans ?_ (Still.foldl (fun s c => still_notice s _) _ _).calmer
  split_ifs
  · exact calmer_enterSaver s env
  · exact (calmer_leaveSaver s env).trans (calmer_setFocus _ _)

theorem calmer_handleToggleScreenEvent (s : Server) (env : Env) :
    Calmer s (s.handleToggleScreenEvent env) := by
  simp only [handleToggleScreenEvent]
  split_ifs
  · split
    · exact .refl s
    · exact (switched_jumpToScreen s env _).calmer
  · exact .refl s

theorem calmer_handleSwitchWaitEvent (h : s.handleSwitchWaitEvent env = some s') :
    Calmer s s' := by
  simp only [handleSwitchWaitEvent] at h
  split_ifs at h
  · cases h
    exact calmer_stopSwitch s
  · obtain ⟨c, -, rfl⟩ := Option.map_eq_some_iff.1 h
    exact (switched_switchScreen s env c _ _ false).calmer

theorem calmer_without (s : Server) (c : ClientID) (o : Std.TreeSet ClientID) :
    Calmer s (s.without c o) := .of_pending rfl rfl (.inl rfl)

theorem calmer_closeClient (s : Server) (env : Env) (c : ClientID) (msg : String) :
    Calmer s (s.closeClient env c msg) :=
  (calmer_without s c _).trans (forcedOut_closeClient s env c msg).calmer

theorem calmer_adoptClient (s : Server) (env : Env) (c : ClientID) :
    Calmer s (s.adoptClient env c) := by
  have hdequeue : Calmer s (s.dequeue c) := .of_pending rfl rfl (.inl rfl)
  obtain ⟨msg, hclose⟩ | ⟨s₂, hadd, hstill, -⟩ := adoptClient_cases s env c
  · rw [hclose]
    exact hdequeue.trans (calmer_closeClient _ env c msg)
  · obtain ⟨-, hadded, -⟩ := addClient_spec hadd
    have hregister : Calmer (s.dequeue c) ((s.dequeue c).withClient c) :=
      .of_pending rfl rfl (.inl rfl)
    exact ((hdequeue.trans hregister).trans hadded.calmer).trans hstill.calmer

theorem calmer_removeOldClient (s : Server) (c : ClientID) : Calmer s (s.removeOldClient c) := by
  simp only [removeOldClient]
  split_ifs
  · exact .refl s
  · exact .of_pending rfl rfl (.inl rfl)
  · exact .of_pending rfl rfl (.inl rfl)

theorem calmer_handleClientDisconnected (s : Server) (env : Env) (c : ClientID) :
    Calmer s (s.handleClientDisconnected env c) := by
  refine Calmer.trans ?_ (calmer_removeOldClient _ c)
  by_cases hmem : c ∈ s.registry.clientSet
  · exact (calmer_without s c _).trans (forcedOut_removeActiveClient s env hmem).calmer
  · have hcontains : s.registry.clientSet.contains c = false := Bool.eq_false_iff.2 hmem
    simp only [removeActiveClient, hcontains, Bool.not_false, if_true]
    exact .refl s

/-- Options that are set stop the timer before they change the delay. -/
theorem process_waits (p : Pending) (o : SwitchOptions) (options : List (OptionID × ℤ))
    (htimer : (options.foldl Pending.process p).waitTimer = true) :
    p.waitTimer = true ∧ (options.foldl SwitchOptions.process o).waitDelay = o.waitDelay ∧
      (options.foldl Pending.process p).switchScreen = p.switchScreen ∧
      (options.foldl Pending.process p).waitX = p.waitX ∧
      (options.foldl Pending.process p).waitY = p.waitY := by
  induction options generalizing p o with
  | nil => exact ⟨htimer, rfl, rfl, rfl, rfl⟩
  | cons option options ih =>
    obtain ⟨id, value⟩ := option
    obtain ⟨ht, hd, hs, hx, hy⟩ := ih (p.process (id, value)) (o.process (id, value)) htimer
    simp only [List.foldl_cons, hd, hs, hx, hy]
    cases id with
    | screenSwitchDelay => cases ht
    | _ => exact ⟨ht, rfl, rfl, rfl, rfl⟩

theorem calmer_processOptions (s : Server) : Calmer s s.processOptions := by
  simp only [processOptions]
  split
  · exact .refl s
  · rename_i options _
    have hwaits := process_waits s.pending
      { s.options with needsShift := false, needsControl := false, needsAlt := false }
      options.toList
    have hset (s' : Server) (hs' : Still (s.setPending
        (options.toList.foldl Pending.process s.pending)) s') :
        Calmer s { s' with options := s.options.processAll options } := by
      refine ⟨fun m hm => ?_, fun htimer => ?_⟩
      · have hmapped : s'.log.mapped = s.log.mapped := hs'.mapped
        exact hmapped ▸ hm
      · have hpending : s'.pending = options.toList.foldl Pending.process s.pending := hs'.pending
        simp only [hpending] at htimer ⊢
        exact hwaits htimer
    split_ifs
    · exact hset _ (still_stopRelativeMoves _)
    · exact hset _ (.refl _)

theorem calmer_setConfig (h : s.setConfig env = some s') : Calmer s s' := by
  obtain ⟨s₁, s₂, s₃, hclose, hprocess, hrule, rfl⟩ := setConfig_stages h
  have hclosed : Calmer s s₁ := by
    rw [hclose]
    exact Calmer.foldl (fun s c => calmer_closeClient s env c "CBYE") _ s
  have hprocessed : Calmer s₁ s₂ := by
    rw [hprocess]
    exact calmer_processOptions s₁
  have hruled : Calmer s₂ s₃ := by
    rw [hrule, addScrollLockRule]
    split_ifs
    · exact .refl _
    · exact .of_pending rfl rfl (.inl rfl)
  have hsent := (Still.foldl (fun s c => still_sendOptions s c) s₃.reconfigure.clientList
    s₃.reconfigure).calmer
  have hreconfigured : Calmer s₃ s₃.reconfigure :=
    (still_notice s₃ (.reconfigure s₃.getActivePrimarySides)).calmer
  exact (((hclosed.trans hprocessed).trans hruled).trans hreconfigured).trans hsent

theorem calmer_reloadConfig (s : Server) (env : Env) (cfg : Config) :
    Calmer s (s.reloadConfig env cfg) := by
  have hcfg : Calmer s { s with config := cfg } := .of_pending rfl rfl (.inl rfl)
  simp only [reloadConfig]
  cases hset : setConfig { s with config := cfg } env with
  | none => exact hcfg
  | some s' => exact hcfg.trans (calmer_setConfig hset)

theorem calmer_disconnect (s : Server) (env : Env) : Calmer s (s.disconnect env) := by
  unfold disconnect
  split_ifs
  · exact Calmer.foldl (fun s c => calmer_closeClient s env c "CBYE") _ s
  · exact (still_notice s _).calmer

theorem calmer_noSwitch (s : Server) (env : Env) (x y : ℤ) : Calmer s (s.noSwitch env x y) := by
  refine ⟨fun m hm => ?_, fun htimer => by cases htimer⟩
  simp only [noSwitch, armSwitchTwoTap]
  split_ifs <;> exact hm

theorem calmer_leaveBorder (s : Server) (env : Env) (i : ScreenInfo) (x y : ℤ) :
    Calmer s (s.leaveBorder env i x y) := by
  unfold leaveBorder
  split_ifs
  · exact calmer_noSwitch s env x y
  · exact .refl s

/-! ### Motions across an edge -/

/-- A motion across the edge starts to wait for the pending screen with a position on another
screen: the pending switch is in the same direction and its timer was stopped. -/
def strays (s : Server) (env : Env) (dir : Direction) (p : ℤ × ℤ) : Bool :=
  match s.mapToNeighbor env s.focus.active dir p, s.pending.switchScreen with
  | some (some (c, _)), some b =>
    b != c && s.pending.switchDir == some dir && !s.pending.waitTimer &&
      0 < s.options.waitDelay && !s.allowSwitch env dir
  | _, _ => false

/-- Starting to wait for a screen that is not the pending one strays. -/
theorem allowSwitch_of_not_strays {dir : Direction} {p q : ℤ × ℤ} {b c : ClientID}
    (hmapped : s.mapToNeighbor env s.focus.active dir p = some (some (c, q)))
    (hstray : s.strays env dir p = false) (hb : s.pending.switchScreen = some b) (hbc : b ≠ c)
    (hdir : s.pending.switchDir = some dir) (ht : s.pending.waitTimer = false)
    (hdelay : 0 < s.options.waitDelay) : s.allowSwitch env dir = true := by
  simpa [strays, hmapped, hb, hbc, hdir, ht, hdelay] using hstray

theorem aim_waits (p : Pending) (dir : Direction) (c : ClientID) :
    (p.aim dir c).waitTimer = p.waitTimer ∧ (p.aim dir c).waitX = p.waitX ∧
      (p.aim dir c).waitY = p.waitY := by
  unfold Pending.aim
  split_ifs <;> exact ⟨rfl, rfl, rfl⟩

/-- When the timer is started, and what it is started with. -/
theorem prepareSwitch_waits (s : Server) (env : Env) (c : ClientID) (dir : Direction) (x y : ℤ) :
    let p' := s.prepareSwitch env c dir x y
    let starts := s.allowSwitch env dir = false ∧ 0 < s.options.waitDelay ∧
      (s.pending.switchDir ≠ some dir ∨ s.pending.waitTimer = false)
    starts ∧ p'.waitTimer = true ∧ p'.waitX = x ∧ p'.waitY = y ∨
    ¬starts ∧ p'.waitTimer = s.pending.waitTimer ∧ p'.waitX = s.pending.waitX ∧
      p'.waitY = s.pending.waitY := by
  intro p' starts
  obtain ⟨ht, hx, hy⟩ := aim_waits s.pending dir c
  simp only [p', prepareSwitch]
  -- A first tap does not touch the timer.
  set p := if 0 < s.options.twoTapDelay ∧ (!s.allowSwitch env dir) = true then
    (s.pending.aim dir c).startSwitchTwoTap env else s.pending.aim dir c with hp
  have hpw : p.waitTimer = s.pending.waitTimer ∧ p.waitX = s.pending.waitX ∧
      p.waitY = s.pending.waitY := by
    rw [hp]
    split_ifs <;> exact ⟨ht, hx, hy⟩
  have hstarts : ((!s.allowSwitch env dir) = true ∧ 0 < s.options.waitDelay ∧
      ((s.pending.switchDir != some dir) = true ∨ (!p.waitTimer) = true)) ↔ starts := by
    simp [starts, hpw.1]
  by_cases h : starts
  · rw [if_pos (hstarts.2 h)]
    exact .inl ⟨h, rfl, rfl, rfl⟩
  · rw [if_neg fun hs => h (hstarts.1 hs)]
    exact .inr ⟨h, hpw⟩

/-- A wait that runs after a motion across an edge ran before, for the same switch, or goes to the
position found, if the motion does not stray. -/
theorem prepareSwitch_starts {c : ClientID} {dir : Direction} {x y : ℤ}
    (hwaits : s.pending.waitTimer = true →
      0 < s.options.waitDelay ∧ s.pending.switchScreen ≠ none)
    (hstray : ∀ b, s.pending.switchScreen = some b → b ≠ c → s.pending.switchDir = some dir →
      s.pending.waitTimer = false → 0 < s.options.waitDelay → s.allowSwitch env dir = true)
    (htimer : (s.prepareSwitch env c dir x y).waitTimer = true) :
    (s.pending.waitTimer = true ∧
      (s.prepareSwitch env c dir x y).switchScreen = s.pending.switchScreen ∧
      (s.prepareSwitch env c dir x y).waitX = s.pending.waitX ∧
      (s.prepareSwitch env c dir x y).waitY = s.pending.waitY) ∨
    (0 < s.options.waitDelay ∧ (s.prepareSwitch env c dir x y).switchScreen = some c ∧
      (s.prepareSwitch env c dir x y).waitX = x ∧ (s.prepareSwitch env c dir x y).waitY = y) := by
  rw [switchScreen_prepareSwitch]
  obtain ⟨⟨hallow, hdelay, hnew⟩, -, hx, hy⟩ | ⟨hno, ht, hx, hy⟩ :=
    prepareSwitch_waits s env c dir x y
  · -- The timer starts: the position is on `c`, and a switch to `c` is pending.
    refine .inr ⟨hdelay, ?_, hx, hy⟩
    unfold Pending.aim
    split_ifs with haim
    · rfl
    · simp only [not_or, not_not, ← ne_eq] at haim
      obtain ⟨hdir, hpending⟩ := haim
      obtain ⟨b, hb⟩ := Option.ne_none_iff_exists'.1 hpending
      have htimer := hnew.resolve_left (not_not.2 hdir)
      by_contra hbc
      have hne : b ≠ c := fun h => hbc (h ▸ hb)
      have := hstray b hb hne hdir htimer hdelay
      simp [hallow] at this
  · -- The timer was running, so the direction is not new and the pending screen stays.
    rw [ht] at htimer
    refine .inl ⟨htimer, ?_, hx, hy⟩
    unfold Pending.aim
    split_ifs with haim
    · obtain ⟨hdelay, hpending⟩ := hwaits htimer
      have hdir : s.pending.switchDir ≠ some dir := haim.resolve_right hpending
      refine absurd ⟨?_, hdelay, .inl hdir⟩ hno
      simp [allowSwitch, hdir]
    · rfl

theorem waitOk_prepareSwitch {c : ClientID} {dir : Direction} {x y : ℤ} (hw : WaitOk s)
    (hmem : (c, x, y) ∈ s.log.mapped)
    (hstray : ∀ b, s.pending.switchScreen = some b → b ≠ c → s.pending.switchDir = some dir →
      s.pending.waitTimer = false → 0 < s.options.waitDelay → s.allowSwitch env dir = true) :
    WaitOk (s.setPending (s.prepareSwitch env c dir x y)) := by
  intro htimer
  have hwaits (ht : s.pending.waitTimer = true) :
      0 < s.options.waitDelay ∧ s.pending.switchScreen ≠ none := by
    obtain ⟨hdelay, b, hb, -⟩ := hw ht
    exact ⟨hdelay, by simp [hb]⟩
  obtain ⟨ht, hs, hx, hy⟩ | ⟨hdelay, hs, hx, hy⟩ := prepareSwitch_starts hwaits hstray htimer
  · obtain ⟨hdelay, b, hb, hmem⟩ := hw ht
    exact ⟨hdelay, b, hs.trans hb, by rw [setPending, hx, hy]; exact hmem⟩
  · exact ⟨hdelay, c, hs, by rw [setPending, hx, hy]; exact hmem⟩

theorem switchDir_prepareSwitch (s : Server) (env : Env) (c : ClientID) (dir : Direction)
    (x y : ℤ) : (s.prepareSwitch env c dir x y).switchDir = some dir := by
  have haim : (s.pending.aim dir c).switchDir = some dir := by
    unfold Pending.aim
    split_ifs with h
    · rfl
    · exact not_not.1 (not_or.1 h).1
  simp only [prepareSwitch, Pending.startSwitchTwoTap, Pending.startSwitchWait]
  split_ifs <;> exact haim

/-- The pending switch after a motion across an edge is in that direction. -/
def Settled (s : Server) (dir : Direction) : Prop :=
  s.pending.switchScreen = none ∨ s.pending.switchDir = some dir

theorem strays_eq_false_of_settled {dir dir' : Direction} (h : s.Settled dir) (hne : dir' ≠ dir)
    (p : ℤ × ℤ) : s.strays env dir' p = false := by
  unfold strays
  split
  · rename_i c q b _ hb
    have hdir : s.pending.switchDir = some dir := h.resolve_left (by simp [hb])
    simp [hdir, hne.symm]
  · rfl

theorem settled_stopSwitch (s : Server) (dir : Direction) : Settled s.stopSwitch dir :=
  .inl (Pending.stopSwitch_switchScreen s.pending)

theorem settled_isSwitchOkay (s : Server) (env : Env) (newScreen : Option ClientID)
    (dir : Direction) (x y xActive yActive : ℤ) :
    Settled (s.isSwitchOkay env newScreen dir x y xActive yActive).1 dir := by
  cases newScreen with
  | none => exact settled_stopSwitch s dir
  | some c =>
    have hprepare : Settled (s.setPending (s.prepareSwitch env c dir x y)) dir :=
      .inr (switchDir_prepareSwitch s env c dir x y)
    exact isSwitchOkay_induction (P := (Settled · dir)) hprepare fun s' _ =>
      settled_stopSwitch s' dir

theorem settled_tryEdge {dir : Direction} {p : ℤ × ℤ} {xActive yActive : ℤ}
    {t : Option (ClientID × ℤ × ℤ)} (h : s.tryEdge env dir p xActive yActive = some (s', t)) :
    Settled s' dir := by
  obtain ⟨r, -, h⟩ := Option.map_eq_some_iff.1 h
  obtain ⟨rfl, -⟩ := Prod.mk.inj h
  exact settled_isSwitchOkay _ env _ dir _ _ _ _

theorem waitOk_isSwitchOkay (env : Env) (newScreen : Option ClientID) (dir : Direction)
    (x y xActive yActive : ℤ) (hw : WaitOk s)
    (hmem : ∀ c, newScreen = some c → (c, x, y) ∈ s.log.mapped)
    (hstray : ∀ c b, newScreen = some c → s.pending.switchScreen = some b → b ≠ c →
      s.pending.switchDir = some dir → s.pending.waitTimer = false → 0 < s.options.waitDelay →
      s.allowSwitch env dir = true) :
    WaitOk (s.isSwitchOkay env newScreen dir x y xActive yActive).1 := by
  cases newScreen with
  | none => exact hw.calmer (calmer_stopSwitch s)
  | some c =>
    have hprepare : WaitOk (s.setPending (s.prepareSwitch env c dir x y)) :=
      waitOk_prepareSwitch hw (hmem c rfl) fun b => hstray c b rfl
    exact isSwitchOkay_induction hprepare fun s' hs => hs.calmer (calmer_stopSwitch s')

theorem waitOk_tryEdge {dir : Direction} {p : ℤ × ℤ} {xActive yActive : ℤ}
    {t : Option (ClientID × ℤ × ℤ)} (hw : WaitOk s) (hstray : s.strays env dir p = false)
    (h : s.tryEdge env dir p xActive yActive = some (s', t)) : WaitOk s' := by
  obtain ⟨r, hr, h⟩ := Option.map_eq_some_iff.1 h
  obtain ⟨rfl, -⟩ := Prod.mk.inj h
  have hnote : Calmer s (s.noteMapped r) := by
    cases r with
    | none => exact .refl s
    | some m => exact ⟨fun _ hm => List.mem_cons_of_mem _ hm, fun h => ⟨h, rfl, rfl, rfl, rfl⟩⟩
  cases r with
  | none => exact (hw.calmer hnote).calmer (calmer_stopSwitch _)
  | some m =>
    obtain ⟨c, q⟩ := m
    refine waitOk_isSwitchOkay env (some c) dir q.1 q.2 xActive yActive (hw.calmer hnote)
      (fun d hd => ?_) (fun d b hd hb hbd hdir ht hdelay => ?_)
    · cases hd
      exact List.mem_cons_self ..
    · cases hd
      change s.allowSwitch env dir = true
      exact allowSwitch_of_not_strays hr hstray hb hbd hdir ht hdelay

theorem waitOk_tryEdges {xc yc : ℤ} {edges : List (Direction × ℤ × ℤ)} (hw : WaitOk s)
    (hdirs : edges.Pairwise fun e e' => e.1 ≠ e'.1)
    (hstray : ∀ e ∈ edges.head?, s.strays env e.1 e.2 = false)
    (h : tryEdges env xc yc s edges = some s') : WaitOk s' := by
  induction edges generalizing s with
  | nil =>
    cases h
    exact hw
  | cons e rest ih =>
    obtain ⟨dir, p⟩ := e
    have hfirst : s.strays env dir p = false := hstray (dir, p) rfl
    simp only [tryEdges] at h
    split at h
    · cases h
    · rename_i s₁ c x y htry
      cases h
      have hw₁ := waitOk_tryEdge hw hfirst htry
      obtain hstill | hswitched := switched_switchAcross s₁ env c x y
      · exact hw₁.calmer hstill.calmer
      · exact hw₁.calmer hswitched.calmer
    · rename_i s₁ htry
      have hw₁ := waitOk_tryEdge hw hfirst htry
      obtain ⟨hdir, hrest⟩ := List.pairwise_cons.1 hdirs
      refine ih hw₁ hrest (fun e he => ?_) h
      exact strays_eq_false_of_settled (settled_tryEdge htry)
        (hdir e (List.mem_of_mem_head? he)).symm e.2

theorem pairwise_touchedEdges (i : ScreenInfo) (zone x y : ℤ) :
    (touchedEdges i zone x y).Pairwise fun e e' => e.1 ≠ e'.1 := by
  unfold touchedEdges
  split_ifs <;> simp

/-- Where a motion on the primary screen looks for a neighbour first. -/
def attemptPrimary (s : Server) (env : Env) (x y : ℤ) : Option (Server × Direction × ℤ × ℤ) :=
  if s.focus.active ≠ primaryClient then none
  else
    (touchedEdges (s.info s.focus.active) (getJumpZoneSize env s.focus.active) x y).head?.map
      fun e => (s.moveMouse x y (x - s.mouse.x) (y - s.mouse.y), e)

/-- Where a motion on a secondary screen looks for a neighbour. -/
def attemptSecondary (s : Server) (dx dy : ℤ) : Option (Server × Direction × ℤ × ℤ) :=
  if s.focus.active = primaryClient ∨ s.options.relativeMoves ∧ s.lockedToScreen then none
  else
    let x := s.mouse.x + dx
    let y := s.mouse.y + dy
    (exitSide (s.info s.focus.active) x y).map fun dir => (s.moveMouse x y dx dy, dir, x, y)

/-- Where an event looks for a neighbour first, and in which state. -/
def attempt (s : Server) (env : Env) : Event → Option (Server × Direction × ℤ × ℤ)
  | .motionPrimary x y => s.attemptPrimary env x y
  | .motionSecondary dx dy => s.attemptSecondary dx dy
  | .shapeChanged c =>
    if c ≠ primaryClient then none
    else
      let i := s.info c
      let s := s.setProxy c { s.proxies c with jumpCursorPos := (i.mx, i.my) }
      if c = s.focus.active then
        { s with mouse := { s.mouse with x := i.mx, y := i.my } }.attemptPrimary env i.mx i.my
      else s.attemptSecondary 0 0
  | _ => none

theorem waitOk_onMouseMovePrimary {x y : ℤ} (hw : WaitOk s)
    (hstray : ∀ a ∈ s.attemptPrimary env x y, a.1.strays env a.2.1 a.2.2 = false)
    (h : s.onMouseMovePrimary env x y = some s') : WaitOk s' := by
  simp only [onMouseMovePrimary] at h
  split_ifs at h with hactive
  · cases h
    exact hw
  · have hmove := hw.calmer (still_moveMouse s x y (x - s.mouse.x) (y - s.mouse.y)).calmer
    split at h
    · cases h
      exact hmove.calmer (calmer_noSwitch _ env x y)
    · refine waitOk_tryEdges hmove (pairwise_touchedEdges ..) (fun e he => ?_) h
      refine hstray (s.moveMouse x y (x - s.mouse.x) (y - s.mouse.y), e) ?_
      simp only [attemptPrimary, if_neg hactive]
      exact Option.mem_map.2 ⟨e, he, rfl⟩

theorem waitOk_onMouseMoveSecondary {dx dy : ℤ} (hw : WaitOk s)
    (hstray : ∀ a ∈ s.attemptSecondary dx dy, a.1.strays env a.2.1 a.2.2 = false)
    (h : s.onMouseMoveSecondary env dx dy = some s') : WaitOk s' := by
  simp only [onMouseMoveSecondary] at h
  split_ifs at h with hactive hrelative
  · cases h
    exact hw
  · cases h
    exact hw.calmer (still_notice s _).calmer
  · have hmove := hw.calmer (still_moveMouse s (s.mouse.x + dx) (s.mouse.y + dy) dx dy).calmer
    split at h
    · cases h
      have hborder := hmove.calmer (calmer_leaveBorder _ env (s.info s.focus.active)
        (s.mouse.x + dx) (s.mouse.y + dy))
      exact hborder.calmer (still_stayOnScreen _ _ _ _ _).calmer
    · rename_i dir hexit
      have hfirst := hstray (s.moveMouse (s.mouse.x + dx) (s.mouse.y + dy) dx dy, dir,
        s.mouse.x + dx, s.mouse.y + dy) (by simp [attemptSecondary, hactive, hrelative, hexit])
      split at h
      · cases h
      · rename_i s₁ c x y htry
        cases h
        exact (waitOk_tryEdge hmove hfirst htry).calmer
          (switched_switchScreen _ env c x y false).calmer
      · rename_i s₁ htry
        cases h
        exact (waitOk_tryEdge hmove hfirst htry).calmer (still_stayOnScreen _ _ _ _ _).calmer

theorem waitOk_handleShapeChanged {c : ClientID} (hw : WaitOk s)
    (hstray : ∀ a ∈ s.attempt env (.shapeChanged c), a.1.strays env a.2.1 a.2.2 = false)
    (h : s.handleShapeChanged env c = some s') : WaitOk s' := by
  have hjump := hw.calmer (still_setProxy s c
    { s.proxies c with jumpCursorPos := ((s.info c).mx, (s.info c).my) }).calmer
  have hmouse (s : Server) (m : Mouse) : Calmer s { s with mouse := m } :=
    .of_pending rfl rfl (.inl rfl)
  simp only [handleShapeChanged] at h
  split_ifs at h with hconnected hprimary hactive hactive
  · cases h
    exact hw
  · refine waitOk_onMouseMovePrimary (hjump.calmer (hmouse _ _)) (fun a ha => hstray a ?_) h
    simp only [attempt, if_neg (not_not.2 hprimary)]
    rw [if_pos hactive]
    exact ha
  · refine waitOk_onMouseMoveSecondary hjump (fun a ha => hstray a ?_) h
    simp only [attempt, if_neg (not_not.2 hprimary)]
    rw [if_neg hactive]
    exact ha
  · cases h
    exact hjump.calmer (hmouse _ _)
  · cases h
    exact hjump

/-! ### Runs -/

/-- **What a running timer switches to stays what `mapToNeighbor` found** after every event that
does not stray. -/
theorem WaitOk.step {e : Event} (hw : WaitOk s)
    (hstray : ∀ a ∈ s.attempt env e, a.1.strays env a.2.1 a.2.2 = false)
    (hst : s.step env e = some s') : WaitOk s' := by
  have hcalm (h : Calmer s s') : WaitOk s' := hw.calmer h
  cases e with
  | clientConnected ident info =>
    cases hst
    exact hcalm (.of_pending rfl rfl (.inl rfl))
  | adoptClient c =>
    simp only [Server.step] at hst
    split_ifs at hst
    cases hst
    exact hcalm (calmer_adoptClient s env c)
  | clientDisconnected c =>
    simp only [Server.step] at hst
    split_ifs at hst
    · cases hst
      exact hcalm (.of_pending rfl rfl (.inl rfl))
    · cases hst
      exact hcalm (calmer_handleClientDisconnected s env c)
  | clientCloseTimeout c =>
    simp only [Server.step] at hst
    split_ifs at hst
    cases hst
    exact hcalm (calmer_removeOldClient s c)
  | reloadConfig cfg =>
    cases hst
    exact hcalm (calmer_reloadConfig s env cfg)
  | disconnect =>
    cases hst
    exact hcalm (calmer_disconnect s env)
  | screensaver activated =>
    cases hst
    exact hcalm (calmer_onScreensaver s env activated)
  | switchToScreen screen =>
    cases hst
    refine hcalm ?_
    unfold handleSwitchToScreenEvent
    split
    · exact .refl s
    · exact (switched_jumpToScreen s env _).calmer
  | toggleScreen =>
    cases hst
    exact hcalm (calmer_handleToggleScreenEvent s env)
  | switchInDirection dir =>
    obtain ⟨r, -, rfl⟩ := Option.map_eq_some_iff.1 hst
    cases r with
    | none => exact hw
    | some m => exact hcalm (switched_jumpToScreen s env m.1).calmer
  | lockCursorToScreen mode =>
    cases hst
    exact hcalm (still_handleLockCursorToScreenEvent s mode).calmer
  | motionPrimary x y => exact waitOk_onMouseMovePrimary hw hstray hst
  | motionSecondary dx dy => exact waitOk_onMouseMoveSecondary hw hstray hst
  | switchWait =>
    simp only [Server.step] at hst
    split_ifs at hst
    exact hcalm (calmer_handleSwitchWaitEvent hst)
  | info c info =>
    cases hst
    exact hcalm (still_setProxy s c _).calmer
  | shapeChanged c => exact waitOk_handleShapeChanged hw hstray hst
  | clipboardGrabbed c id seqNum =>
    cases hst
    exact hcalm (still_handleClipboardGrabbed s c id seqNum).calmer
  | clipboardReceived c id seqNum data =>
    simp only [Server.step] at hst
    split_ifs at hst
    obtain ⟨clipboard, -, rfl⟩ := Option.map_eq_some_iff.1 hst
    exact hcalm (still_setProxy s c _).calmer
  | clipboardChanged c id seqNum =>
    cases hst
    exact hcalm (still_handleClipboardChanged s env c id seqNum).calmer
  | filePasteRequested c request =>
    simp only [Server.step] at hst
    split_ifs at hst
    cases hst
    exact hcalm (still_filePasteRequested s c request).calmer
  | filePasteStatus c status =>
    simp only [Server.step] at hst
    split_ifs at hst
    cases hst
    exact hcalm (still_filePasteStatus s c status).calmer
  | mouseDown =>
    cases hst
    exact hcalm (.of_pending rfl rfl (.inl rfl))
  | dragInfoSent =>
    cases hst
    exact hcalm (.of_pending rfl rfl (.inl rfl))

theorem waitOk_create {cfg : Config} {primary : Ident} {info : ScreenInfo}
    {enableDragDrop : Bool} (h : create env cfg primary info enableDragDrop = some s) :
    WaitOk s := by
  obtain ⟨s₁, s₂, hadd, hset, rfl⟩ := create_spec h
  obtain ⟨-, hstill, -⟩ := addClient_spec hadd
  have hblank : WaitOk ((unregistered cfg primary info enableDragDrop).withClient
      primaryClient) := fun htimer => by cases htimer
  have hw₂ := (hblank.calmer hstill.calmer).calmer (calmer_setConfig hset)
  exact hw₂.calmer (.of_pending rfl rfl (.inl rfl))

/-- The events of a run remove removable clients only and do not stray. -/
def Orderly (s : Server) (l : Env × Event) : Prop :=
  s.Removes Removable l.2 ∧ ∀ a ∈ s.attempt l.1 l.2, a.1.strays l.1 a.2.1 a.2.2 = false

instance (s : Server) (l : Env × Event) : Decidable (s.Orderly l) :=
  inferInstanceAs (Decidable (_ ∧ ∀ _ ∈ Server.attempt _ _ _, _))

/-- **The pending switch** throughout orderly runs: it goes to a connected screen, the timer runs
only while there is one, and when the timer fires it switches to that screen at a position that
`mapToNeighbor` found there, or is given up because the cursor is locked. -/
theorem pending_of_reachable (hs : lts.ReachableVia Orderly s) :
    (∀ c, s.pending.switchScreen = some c → c ∈ s.registry.clientSet) ∧
      (s.pending.waitTimer = true → s.pending.switchScreen ≠ none) ∧
      ∀ env, s.pending.waitTimer = true →
        (s.isLockedToScreen env = true → s.step env .switchWait = some s.stopSwitch) ∧
        (s.isLockedToScreen env = false →
          ∃ c x y, s.step env .switchWait = some (s.switchScreen env c x y false) ∧
            c ∈ s.registry.clientSet ∧ (c, x, y) ∈ s.log.mapped) := by
  obtain ⟨h, hw⟩ : Connected s ∧ WaitOk s := by
    refine hs.invariant (I := fun s => Connected s ∧ WaitOk s) ?_ ?_
    · rintro s ⟨env, cfg, primary, info, enableDragDrop, hcreate⟩
      exact ⟨(create_connected hcreate).1, waitOk_create hcreate⟩
    · rintro s l s' ⟨h, hw⟩ hg hst
      exact ⟨h.step hg.1 hst, hw.step hg.2 hst⟩
  refine ⟨fun c hc => h.pending hc, fun htimer => ?_, fun env htimer => ⟨fun hlock => ?_,
    fun hlock => ?_⟩⟩
  · obtain ⟨-, c, hc, -⟩ := hw htimer
    simp [hc]
  · simp only [Server.step, handleSwitchWaitEvent, htimer, hlock, if_true]
  · obtain ⟨-, c, hc, hmem⟩ := hw htimer
    refine ⟨c, s.pending.waitX, s.pending.waitY, ?_, h.pending hc, hmem⟩
    simp only [Server.step, handleSwitchWaitEvent, htimer, hlock, hc, if_true, Bool.false_eq_true,
      if_false, Option.map_some]

/-- The left side of the primary screen `p` leads to `b` in its upper half and to `c` in its lower
half; switches are delayed. -/
def splitEdge : Config :=
  ((({} : Config).addScreen "p").bind (·.addScreen "b") |>.bind (·.addScreen "c") |>.bind
    (·.connect "p" .left (0, 1 / 2) "b" (0, 1)) |>.bind
    (·.connect "p" .left (1 / 2, 1) "c" (0, 1))).getD {} |>.addGlobalOption .screenSwitchDelay 250

def edgeEnv : Env := { jumpZoneSize := 1, fuel := 4 }

/-- Both clients connect, and the cursor moves to the upper half of the left side. -/
def aimAtB : List (Env × Event) :=
  [({}, .clientConnected ⟨"b", true⟩ ⟨0, 0, 100, 100, 50, 50⟩), ({}, .adoptClient 1),
    ({}, .clientConnected ⟨"c", true⟩ ⟨0, 0, 100, 100, 50, 50⟩), ({}, .adoptClient 2),
    (edgeEnv, .motionPrimary 0 25)]

/-- The condition admits that run, at the end of which the timer runs for a switch to `b`. -/
theorem pending_of_reachable_aimAtB :
    ∃ s : Server, (s.pending.switchScreen = some 1 ∧ s.pending.waitTimer = true) ∧
      (∀ c, s.pending.switchScreen = some c → c ∈ s.registry.clientSet) ∧
      (s.pending.waitTimer = true → s.pending.switchScreen ≠ none) ∧
      ∀ env, s.pending.waitTimer = true →
        (s.isLockedToScreen env = true → s.step env .switchWait = some s.stopSwitch) ∧
        (s.isLockedToScreen env = false →
          ∃ c x y, s.step env .switchWait = some (s.switchScreen env c x y false) ∧
            c ∈ s.registry.clientSet ∧ (c, x, y) ∈ s.log.mapped) := by
  have hrun : (run {} splitEdge ⟨"p", true⟩ ⟨0, 0, 100, 100, 50, 50⟩ false aimAtB).map
      (fun s => (s.pending.switchScreen, s.pending.waitTimer)) = some (some 1, true) := by
    decide +kernel
  obtain ⟨s, hs, hpending⟩ := Option.map_eq_some_iff.1 hrun
  obtain ⟨hscreen, htimer⟩ := Prod.mk.inj hpending
  exact ⟨s, ⟨hscreen, htimer⟩, pending_of_reachable (reachableVia_of_run hs (by decide +kernel))⟩

/-- When `b` disconnects then, the switch to it stays pending: `forceLeaveClient` gives it up only
if `b` counts as the active screen. -/
theorem not_pending_of_reachable :
    ¬∀ s : Server, lts.Reachable s →
      (∀ c, s.pending.switchScreen = some c → c ∈ s.registry.clientSet) ∧
      (s.pending.waitTimer = true → s.pending.switchScreen ≠ none) ∧
      ∀ env, s.pending.waitTimer = true →
        (s.isLockedToScreen env = true → s.step env .switchWait = some s.stopSwitch) ∧
        (s.isLockedToScreen env = false →
          ∃ c x y, s.step env .switchWait = some (s.switchScreen env c x y false) ∧
            c ∈ s.registry.clientSet ∧ (c, x, y) ∈ s.log.mapped) := by
  intro h
  have hrun : (run {} splitEdge ⟨"p", true⟩ ⟨0, 0, 100, 100, 50, 50⟩ false
      (aimAtB ++ [(edgeEnv, Event.clientDisconnected 1)])).map
      (fun s => (s.pending.switchScreen, decide (1 ∈ s.registry.clientSet))) =
      some (some 1, false) := by decide +kernel
  obtain ⟨s, hs, hpending⟩ := Option.map_eq_some_iff.1 hrun
  obtain ⟨hscreen, hmem⟩ := Prod.mk.inj hpending
  exact of_decide_eq_false hmem ((h s (reachable_of_run hs)).1 1 hscreen)

/-- When the cursor moves inwards instead and then to the lower half of the side, the timer runs
for a switch to `b` at the position that was found on `c`. -/
theorem exists_reachable_strayed :
    ∃ s : Server, lts.Reachable s ∧ s.pending.waitTimer = true ∧
      s.pending.switchScreen = some 1 ∧ (2, s.pending.waitX, s.pending.waitY) ∈ s.log.mapped ∧
      (1, s.pending.waitX, s.pending.waitY) ∉ s.log.mapped := by
  have hrun : (run {} splitEdge ⟨"p", true⟩ ⟨0, 0, 100, 100, 50, 50⟩ false
      (aimAtB ++ [(edgeEnv, Event.motionPrimary 50 50), (edgeEnv, Event.motionPrimary 0 80)])).map
      (fun s => (s.pending, s.log.mapped)) =
      some (⟨some 1, some .left, 99, 61, true, false, false, 0⟩, [(2, 99, 61), (1, 99, 51)]) := by
    decide +kernel
  obtain ⟨s, hs, hpending⟩ := Option.map_eq_some_iff.1 hrun
  obtain ⟨hp, hmapped⟩ := Prod.mk.inj hpending
  refine ⟨s, reachable_of_run hs, ?_⟩
  rw [hp, hmapped]
  decide

end Server

end InputLeap
