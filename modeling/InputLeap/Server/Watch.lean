import InputLeap.Server.Recollects

/-!
# Remembered positions are on their screens

Along runs in which screens report sound shapes, the positions that the server remembers lie on
the screens that it switches to, as long as it does not come back to a position that a report cut
off and that was not refreshed since.

## Main definitions

* `Watch` : a server, the screens with a position that a report cut off, and whether the position
  of a wait was cut off.
* `Watch.Reports` : what the surroundings are trusted with.
* `Watch.Careful` : the steps on which the code depends.
* `Server.RecallsOnScreen` : what the event recalls is on the screen it switches to.

## Main results

* `Watch.Sound.step` : every careful step keeps the positions that were not cut off on screen.
* `Watch.recallsOnScreen_of_reachable` : throughout careful runs.
* `Watch.not_recallsOnScreen_of_reachable` : not throughout all runs.
-/

namespace InputLeap

/-- A server with notes of what reports of shapes cut off. -/
structure Watch where
  server : Server
  /-- A position that is remembered for the screen was not on the shape that it reported, and the
  report was not handled yet. -/
  cut : ClientID → Bool
  /-- The position of the wait that runs was not on the shape that its screen reported. -/
  cutWait : Bool

namespace Server

/-- What the event recalls is on the screen that it switches to. -/
def RecallsOnScreen (s : Server) (l : Env × Event) : Prop :=
  ∀ c x y, s.recalls l.1 l.2 = some (c, x, y) → (s.info c).Contains x y

/-- The report cuts a position off that is remembered for the screen: where its cursor was, or
where it is if the screen is active. -/
def cutsOff (s : Server) (c : ClientID) (i : ScreenInfo) : Bool :=
  c ∈ s.clientList ∧ ¬i.Contains (s.jumpCursorPos c).1 (s.jumpCursorPos c).2 ∨
    c = s.focus.active ∧ ¬i.Contains s.position.1 s.position.2

/-- The report cuts off the position of a wait that runs. -/
def cutsOffWait (s : Server) (c : ClientID) (i : ScreenInfo) : Bool :=
  s.pending.waitTimer ∧ s.pending.switchScreen = some c ∧
    ¬i.Contains s.pending.waitX s.pending.waitY

/-- The wait that ran goes on. -/
def sameWait (s s' : Server) : Bool :=
  s'.pending.waitTimer ∧ s'.pending.switchScreen = s.pending.switchScreen ∧
    s'.pending.waitX = s.pending.waitX ∧ s'.pending.waitY = s.pending.waitY

/-- What the surroundings are trusted with: cursors are on their screens, the primary screen
contains the origin and its centre, the jump zone has a size, and new links lead to intervals. -/
def Trusted (s : Server) (l : Env × Event) : Prop :=
  0 ≤ l.1.jumpZoneSize ∧ s.OnScreen primaryClient l.1.cursorCenter ∧
    match l.2 with
    | .info c i => i.Contains i.mx i.my ∧ (c = primaryClient → i.Contains 0 0)
    | .clientConnected _ i => i.Contains i.mx i.my
    | .motionPrimary x y => s.OnScreen primaryClient (x, y)
    | .reloadConfig cfg => cfg.WellLinked
    | _ => True

instance (s : Server) (l : Env × Event) : Decidable (s.Trusted l) := by
  obtain ⟨env, e⟩ := l
  unfold Trusted
  cases e <;> infer_instance

/-- The wait timer fires and the cursor is not locked to the screen. -/
def fires (s : Server) (env : Env) : Event → Bool
  | .switchWait => !s.isLockedToScreen env
  | _ => false

/-! ### Reports -/

theorem info_setInfo (s : Server) (c : ClientID) (i : ScreenInfo) :
    (s.setProxy c { s.proxies c with info := i }).info = Function.update s.info c i := by
  funext d
  unfold Server.info setProxy
  by_cases hd : d = c
  · subst hd
    simp only [Function.update_self]
  · simp only [Function.update_of_ne hd]

theorem onScreen_setInfo (s : Server) (c d : ClientID) (i : ScreenInfo) (p : ℤ × ℤ) :
    (s.setProxy c { s.proxies c with info := i }).OnScreen d p ↔
      if d = c then i.Contains p.1 p.2 else s.OnScreen d p := by
  unfold OnScreen
  rw [info_setInfo]
  by_cases hd : d = c
  · subst hd
    rw [Function.update_self, if_pos rfl]
  · rw [Function.update_of_ne hd, if_neg hd]

theorem jump_setInfo (s : Server) (c : ClientID) (i : ScreenInfo) :
    (s.setProxy c { s.proxies c with info := i }).jumpCursorPos = s.jumpCursorPos := by
  rw [jumpCursorPos_setProxy]
  exact Function.update_eq_self c s.jumpCursorPos

theorem mem_clientList (s : Server) (c : ClientID) :
    c ∈ s.clientList ↔ s.registry.Registered c := by
  unfold clientList Registry.Registered
  rw [List.mem_map]
  constructor
  · rintro ⟨⟨name, c'⟩, hmem, rfl⟩
    exact ⟨name, Std.TreeMap.mem_toList_iff_getElem?_eq_some.1 hmem⟩
  · rintro ⟨name, hname⟩
    exact ⟨(name, c), Std.TreeMap.mem_toList_iff_getElem?_eq_some.2 hname, rfl⟩

/-- Remembers where the cursor of the screen is (`setJumpCursorPos`). -/
def noteShape (s : Server) (c : ClientID) : Server :=
  s.setProxy c { s.proxies c with jumpCursorPos := ((s.info c).mx, (s.info c).my) }

/-- The state with the positions that are remembered for the screen where its cursor is. -/
def refreshed (s : Server) (c : ClientID) : Server :=
  if c = s.focus.active then
    { s.noteShape c with mouse := { s.mouse with x := (s.info c).mx, y := (s.info c).my } }
  else s.noteShape c

theorem refreshed_spec (s : Server) (c : ClientID) :
    (s.refreshed c).info = s.info ∧ (s.refreshed c).config = s.config ∧
      (s.refreshed c).registry = s.registry ∧ (s.refreshed c).options = s.options ∧
      (s.refreshed c).focus = s.focus ∧ (s.refreshed c).pending = s.pending ∧
      (s.refreshed c).jumpCursorPos =
        Function.update s.jumpCursorPos c ((s.info c).mx, (s.info c).my) ∧
      (s.refreshed c).position =
        if c = s.focus.active then ((s.info c).mx, (s.info c).my) else s.position := by
  have hinfo : (s.noteShape c).info = s.info := info_setProxy rfl
  have hjump := jumpCursorPos_setProxy s c
    { s.proxies c with jumpCursorPos := ((s.info c).mx, (s.info c).my) }
  unfold refreshed
  by_cases hc : c = s.focus.active
  · rw [if_pos hc, if_pos hc]
    exact ⟨hinfo, rfl, rfl, rfl, rfl, rfl, hjump, rfl⟩
  · rw [if_neg hc, if_neg hc]
    exact ⟨hinfo, rfl, rfl, rfl, rfl, rfl, hjump, rfl⟩

theorem attempt_shapeChanged {s : Server} (env : Env) {c : ClientID} (hc : c = primaryClient) :
    s.attempt env (.shapeChanged c) =
      if c = s.focus.active then
        (s.refreshed c).attemptPrimary env (s.info c).mx (s.info c).my
      else (s.refreshed c).attemptSecondary 0 0 := by
  unfold attempt refreshed noteShape
  simp only [ne_eq, eq_true hc, not_true_eq_false, if_false]
  by_cases hactive : c = s.focus.active
  · simp only [setProxy, eq_true hactive, if_true]
  · simp only [setProxy, eq_false hactive, if_false]

theorem handleShapeChanged_eq {s : Server} (env : Env) {c : ClientID}
    (hc : s.registry.clientSet.contains c = true) :
    s.handleShapeChanged env c =
      if c = primaryClient then
        if c = s.focus.active then
          (s.refreshed c).onMouseMovePrimary env (s.info c).mx (s.info c).my
        else (s.refreshed c).onMouseMoveSecondary env 0 0
      else some (s.refreshed c) := by
  unfold handleShapeChanged refreshed noteShape
  simp only [hc, Bool.not_true, Bool.false_eq_true, if_false]
  by_cases hactive : c = s.focus.active
  · simp only [setProxy, eq_true hactive, if_true]
  · simp only [setProxy, eq_false hactive, if_false]

end Server

namespace Watch

variable (w : Watch)

/-- The notes on screens after an event: handling a report refreshes the positions. -/
def cutAfter : Server.Event → ClientID → Bool
  | .info c i => Function.update w.cut c (w.server.cutsOff c i)
  | .shapeChanged c =>
    if w.server.registry.clientSet.contains c then Function.update w.cut c false else w.cut
  | _ => w.cut

/-- The note on the wait after an event that leads to `s'`: it goes with the wait. -/
def cutWaitAfter (e : Server.Event) (s' : Server) : Bool :=
  match e with
  | .info c i =>
    if w.server.pending.switchScreen = some c then w.server.cutsOffWait c i else w.cutWait
  | _ => w.cutWait && w.server.sameWait s'

/-- The runs of a server, on links that lead to intervals and a primary screen whose shape contains
its cursor, its centre and the origin. -/
def lts : LTS Watch (Env × Server.Event) where
  init w := ∃ env cfg primary info enableDragDrop,
    Server.create env cfg primary info enableDragDrop = some w.server ∧ w.cut = (fun _ => false) ∧
      w.cutWait = false ∧ cfg.WellLinked ∧ info.Contains info.mx info.my ∧ info.Contains 0 0 ∧
      info.Contains env.cursorCenter.1 env.cursorCenter.2
  step w l := (w.server.step l.1 l.2).map fun s' =>
    ⟨s', w.cutAfter l.2, w.cutWaitAfter l.2 s'⟩

/-- The step does not depend on what goes wrong: the primary screen lets the cursor go, a motion
does not stray and arrives, and a position that was cut off is not recalled. -/
def Careful (l : Env × Server.Event) : Prop :=
  (w.server.focus.active = primaryClient → l.1.canLeave = true) ∧
    (∀ a ∈ w.server.attempt l.1 l.2, a.1.strays l.1 a.2.1 a.2.2 = false) ∧
    (∀ e ∈ w.server.crossings l.1 l.2, w.server.arrives l.1 e.1 e.2 = true) ∧
    (∀ c ∈ w.server.jumpsTo l.1 l.2, w.cut c = false) ∧
    (w.server.fires l.1 l.2 = true → w.cutWait = false)

instance (l : Env × Server.Event) : Decidable (w.Careful l) :=
  inferInstanceAs (Decidable (_ ∧ (∀ _ ∈ Server.attempt _ _ _, _) ∧
    (∀ _ ∈ Server.crossings _ _ _, _) ∧ (∀ _ ∈ Server.jumpsTo _ _ _, _) ∧ _))

/-- The positions that were not cut off are on their screens. -/
structure Sound : Prop where
  shapes : ∀ c, w.server.OnScreen c ((w.server.info c).mx, (w.server.info c).my)
  origin : w.server.OnScreen primaryClient (0, 0)
  links : w.server.config.WellLinked
  known : ∀ c, w.server.Known c → c < w.server.registry.next
  jump : ∀ c, w.server.registry.Registered c → w.cut c = false →
    w.server.OnScreen c (w.server.jumpCursorPos c)
  position : w.cut w.server.focus.active = false →
    w.server.OnScreen w.server.focus.active w.server.position
  waits : Server.Waits w.server
  wait : w.server.pending.waitTimer = true → w.cutWait = false →
    ∀ c, w.server.pending.switchScreen = some c →
      w.server.OnScreen c (w.server.pending.waitX, w.server.pending.waitY)

variable {w} {s' : Server} {env : Env} {c : ClientID}

namespace Sound

open Server

theorem sized (h : Sound w) : Sized w.server := fun c => (h.shapes c).size_pos

/-- What recollects keeps the positions on their screens. -/
theorem recollects (h : Sound w) (hr : Recollects w.server s') :
    Sound ⟨s', w.cut, w.cutWait && w.server.sameWait s'⟩ where
  shapes c := by
    refine (onScreen_iff hr.info _ _).2 ?_
    change w.server.OnScreen c ((s'.info c).mx, (s'.info c).my)
    rw [hr.info]
    exact h.shapes c
  origin := (onScreen_iff hr.info _ _).2 h.origin
  links := hr.links h.links
  known c hc := by
    change c < s'.registry.next
    rw [hr.next]
    exact h.known c (hr.known c hc)
  jump c hc hcut := by
    refine (onScreen_iff hr.info _ _).2 ?_
    obtain ⟨hreg, hsame⟩ | ⟨hactive, hnoted⟩ | hon := hr.jump c hc
    · rw [hsame]
      exact h.jump c hreg hcut
    · rw [hnoted]
      subst hactive
      exact h.position hcut
    · exact hon
  position hcut := by
    refine (onScreen_iff hr.info _ _).2 ?_
    obtain ⟨hactive, hsame⟩ | hon := hr.position
    · have hcut : w.cut s'.focus.active = false := hcut
      rw [hactive] at hcut
      rw [hactive, hsame]
      exact h.position hcut
    · exact hon
  waits := hr.wait.waits h.waits
  wait htimer hcut c hc := by
    refine (onScreen_iff hr.info _ _).2 ?_
    obtain ⟨ht, -, hs, hx, hy⟩ | ⟨-, d, hd, hon⟩ := hr.wait htimer
    · -- The wait is the same one, so its position was not cut off before.
      have hsame : w.server.sameWait s' = true :=
        decide_eq_true ⟨htimer, hs, hx, hy⟩
      have hcut : (w.cutWait && w.server.sameWait s') = false := hcut
      rw [hsame, Bool.and_true] at hcut
      have hc : s'.pending.switchScreen = some c := hc
      rw [hs] at hc
      change w.server.OnScreen c (s'.pending.waitX, s'.pending.waitY)
      rw [hx, hy]
      exact h.wait ht hcut c hc
    · obtain rfl : d = c := Option.some.inj (hd.symm.trans hc)
      exact hon

/-- A report leaves the positions that it does not cut off on their screens. -/
theorem report (h : Sound w) (i : ScreenInfo) (hi : i.Contains i.mx i.my)
    (horigin : c = primaryClient → i.Contains 0 0) :
    Sound ⟨w.server.setProxy c { w.server.proxies c with info := i },
      w.cutAfter (.info c i), w.cutWaitAfter (.info c i) s'⟩ where
  shapes d := by
    refine (onScreen_setInfo _ _ _ _ _).2 ?_
    change if d = c then i.Contains ((w.server.setProxy c
      { w.server.proxies c with info := i }).info d).mx ((w.server.setProxy c
      { w.server.proxies c with info := i }).info d).my else _
    rw [info_setInfo]
    by_cases hd : d = c
    · subst hd
      rw [if_pos rfl, Function.update_self]
      exact hi
    · rw [if_neg hd, Function.update_of_ne hd]
      exact h.shapes d
  origin := by
    refine (onScreen_setInfo _ _ _ _ _).2 ?_
    split_ifs with hc
    · exact horigin hc.symm
    · exact h.origin
  links := h.links
  known := h.known
  jump d hd hcut := by
    refine (onScreen_setInfo _ _ _ _ _).2 ?_
    have hcut : Function.update w.cut c (w.server.cutsOff c i) d = false := hcut
    change if d = c then i.Contains ((w.server.setProxy c
      { w.server.proxies c with info := i }).jumpCursorPos d).1 ((w.server.setProxy c
      { w.server.proxies c with info := i }).jumpCursorPos d).2 else w.server.OnScreen d
      ((w.server.setProxy c { w.server.proxies c with info := i }).jumpCursorPos d)
    rw [jump_setInfo]
    by_cases hdc : d = c
    · subst hdc
      rw [Function.update_self, cutsOff, decide_eq_false_iff_not, not_or] at hcut
      rw [if_pos rfl]
      by_contra hout
      exact hcut.1 ⟨(mem_clientList _ _).2 hd, hout⟩
    · rw [Function.update_of_ne hdc] at hcut
      rw [if_neg hdc]
      exact h.jump d hd hcut
  position hcut := by
    refine (onScreen_setInfo _ _ _ _ _).2 ?_
    have hcut : Function.update w.cut c (w.server.cutsOff c i) w.server.focus.active = false := hcut
    change if w.server.focus.active = c then i.Contains w.server.position.1 w.server.position.2
      else w.server.OnScreen w.server.focus.active w.server.position
    by_cases hc : w.server.focus.active = c
    · rw [hc, Function.update_self, cutsOff, decide_eq_false_iff_not, not_or] at hcut
      rw [if_pos hc]
      by_contra hout
      exact hcut.2 ⟨hc.symm, hout⟩
    · rw [Function.update_of_ne hc] at hcut
      rw [if_neg hc]
      exact h.position hcut
  waits := h.waits
  wait hruns hcut d hdst := by
    have htimer : w.server.pending.waitTimer = true := hruns
    have hd : w.server.pending.switchScreen = some d := hdst
    refine (onScreen_setInfo _ _ _ _ _).2 ?_
    simp only [cutWaitAfter] at hcut
    by_cases hdc : d = c
    · subst hdc
      rw [if_pos hd, cutsOffWait, decide_eq_false_iff_not] at hcut
      rw [if_pos rfl]
      by_contra hout
      exact hcut ⟨htimer, hd, hout⟩
    · rw [if_neg fun hc => hdc (Option.some.inj (hd.symm.trans hc))] at hcut
      rw [if_neg hdc]
      exact h.wait htimer hcut d hd

/-- A proxy that nothing refers to is created. -/
theorem connect (h : Sound w) (ident : Ident) (i : ScreenInfo) (hi : i.Contains i.mx i.my) :
    Sound ⟨w.server.clientConnected ident i, w.cut,
      w.cutWait && w.server.sameWait (w.server.clientConnected ident i)⟩ := by
  set s₁ := w.server.clientConnected ident i with hs₁
  have hinfo (d : ClientID) : s₁.info d = if d = w.server.registry.next then i
      else w.server.info d := by
    unfold Server.info
    simp only [hs₁, clientConnected, Function.update_apply, newProxy]
    split_ifs <;> rfl
  have hold {d : ClientID} (hd : d < w.server.registry.next) (p : ℤ × ℤ) :
      s₁.OnScreen d p ↔ w.server.OnScreen d p := by
    unfold OnScreen
    rw [hinfo, if_neg hd.ne]
  have hknown {d : ClientID} (hd : s₁.Known d) : w.server.Known d ∨ d = w.server.registry.next := by
    obtain htarget | hactive | hwaiting := hd
    · exact .inl (.inl htarget)
    · exact .inl (.inr (.inl hactive))
    · obtain hnew | hwaiting := Std.TreeSet.mem_insert.1 hwaiting
      · exact .inr (Std.LawfulEqCmp.compare_eq_iff_eq.1 hnew).symm
      · exact .inl (.inr (.inr hwaiting))
  refine ⟨fun d => ?_, ?_, h.links, fun d hd => ?_, fun d hd hcut => ?_, fun hcut => ?_, h.waits,
    fun htimer hcut d hd => ?_⟩
  · unfold OnScreen
    rw [hinfo]
    split_ifs
    · exact hi
    · exact h.shapes d
  · exact (hold (h.known _ (.inl (.inr (.inr (.inr rfl))))) _).2 h.origin
  · obtain hd | rfl := hknown hd
    · exact (h.known d hd).trans (Nat.lt_succ_self _)
    · exact Nat.lt_succ_self _
  · have hlt : d < w.server.registry.next := h.known d (.inl (.inl hd))
    refine (hold hlt _).2 ?_
    have hjump : s₁.jumpCursorPos d = w.server.jumpCursorPos d := by
      unfold jumpCursorPos
      simp only [hs₁, clientConnected, Function.update_of_ne hlt.ne]
    rw [hjump]
    exact h.jump d hd hcut
  · exact (hold (h.known _ (.inr (.inl rfl))) _).2 (h.position hcut)
  · have hsame : w.server.sameWait s₁ = true := decide_eq_true ⟨htimer, rfl, rfl, rfl⟩
    have hcut : (w.cutWait && w.server.sameWait s₁) = false := hcut
    rw [hsame, Bool.and_true] at hcut
    exact (hold (h.known d (.inl (.inr (.inl hd)))) _).2 (h.wait htimer hcut d hd)

/-- Handling a report puts what was cut off for the screen back on it. -/
theorem refresh (h : Sound w) (c : ClientID) :
    Sound ⟨w.server.refreshed c, Function.update w.cut c false, w.cutWait⟩ := by
  obtain ⟨hinfo, hconfig, hregistry, hoptions, hfocus, hpending, hjump, hposition⟩ :=
    refreshed_spec w.server c
  have hon (d : ClientID) (p : ℤ × ℤ) : (w.server.refreshed c).OnScreen d p ↔
      w.server.OnScreen d p := onScreen_iff hinfo d p
  refine ⟨fun d => (hon _ _).2 ?_, (hon _ _).2 h.origin, ?_, fun d hd => ?_,
    fun d hd hcut => (hon _ _).2 ?_, fun hcut => (hon _ _).2 ?_, fun htimer => ?_,
    fun htimer hcut d hd => (hon _ _).2 ?_⟩
  · change w.server.OnScreen d (((w.server.refreshed c).info d).mx,
      ((w.server.refreshed c).info d).my)
    rw [hinfo]
    exact h.shapes d
  · change (w.server.refreshed c).config.WellLinked
    rw [hconfig]
    exact h.links
  · change d < (w.server.refreshed c).registry.next
    have hd : (w.server.refreshed c).Known d := hd
    unfold Known Target at hd
    rw [hregistry, hfocus, hpending] at hd
    rw [hregistry]
    exact h.known d hd
  · change w.server.OnScreen d ((w.server.refreshed c).jumpCursorPos d)
    have hd : (w.server.refreshed c).registry.Registered d := hd
    have hcut : Function.update w.cut c false d = false := hcut
    rw [hjump]
    by_cases hdc : d = c
    · subst hdc
      rw [Function.update_self]
      exact h.shapes d
    · rw [hregistry] at hd
      rw [Function.update_of_ne hdc] at hcut ⊢
      exact h.jump d hd hcut
  · change w.server.OnScreen (w.server.refreshed c).focus.active (w.server.refreshed c).position
    have hcut : Function.update w.cut c false (w.server.refreshed c).focus.active = false := hcut
    rw [hfocus] at hcut ⊢
    rw [hposition]
    by_cases hc : c = w.server.focus.active
    · rw [if_pos hc, ← hc]
      exact h.shapes c
    · rw [Function.update_of_ne (Ne.symm hc)] at hcut
      rw [if_neg hc]
      exact h.position hcut
  · change 0 < (w.server.refreshed c).options.waitDelay ∧
      (w.server.refreshed c).pending.switchScreen ≠ none
    have htimer : (w.server.refreshed c).pending.waitTimer = true := htimer
    rw [hpending] at htimer ⊢
    rw [hoptions]
    exact h.waits htimer
  · have htimer : (w.server.refreshed c).pending.waitTimer = true := htimer
    have hd : (w.server.refreshed c).pending.switchScreen = some d := hd
    change w.server.OnScreen d ((w.server.refreshed c).pending.waitX,
      (w.server.refreshed c).pending.waitY)
    rw [hpending] at htimer hd ⊢
    exact h.wait htimer hcut d hd

theorem shapeChanged (h : Sound w) (hn : Navigable w.server env)
    (hleave : canLeave env w.server.focus.active = true)
    (hstray : ∀ a ∈ w.server.attempt env (.shapeChanged c), a.1.strays env a.2.1 a.2.2 = false)
    (harrives : ∀ e ∈ w.server.crossings env (.shapeChanged c),
      w.server.arrives env e.1 e.2 = true)
    (hst : w.server.handleShapeChanged env c = some s') :
    Sound ⟨s', w.cutAfter (.shapeChanged c), w.cutWaitAfter (.shapeChanged c) s'⟩ := by
  simp only [cutAfter, cutWaitAfter]
  by_cases hc : w.server.registry.clientSet.contains c = true
  · rw [handleShapeChanged_eq env hc] at hst
    rw [if_pos hc]
    obtain ⟨hinfo, hconfig, hregistry, hoptions, hfocus, hpending, -, hposition⟩ :=
      refreshed_spec w.server c
    have hsame : SameScreens w.server (w.server.refreshed c) := ⟨hconfig, hregistry, hinfo⟩
    have hn₁ := hn.sameScreens hsame
    have hsound := h.refresh c
    have harrive {e : Direction × ℤ × ℤ} (he : w.server.arrives env e.1 e.2 = true) :
        (w.server.refreshed c).arrives env e.1 e.2 = true := by
      rw [hsame.arrives (by rw [hfocus])]
      exact he
    -- The wait is compared with the one before the report was handled.
    have hend {s' : Server} (hr : Recollects (w.server.refreshed c) s') :
        Sound ⟨s', Function.update w.cut c false, w.cutWait && w.server.sameWait s'⟩ := by
      have hsame : (w.server.refreshed c).sameWait s' = w.server.sameWait s' := by
        unfold sameWait
        rw [hpending]
      rw [← hsame]
      exact hsound.recollects hr
    split_ifs at hst with hprimary hactive
    · refine hend (recollects_onMouseMovePrimary hn₁ hsound.waits ?_ ?_ ?_ ?_ hst)
      · rw [hfocus]
        exact hleave
      · refine (onScreen_iff hinfo _ _).2 ?_
        rw [← hprimary]
        exact h.shapes c
      · intro e he
        refine harrive (harrives e ?_)
        simp only [crossings, if_neg (not_not.2 hprimary), if_pos hactive]
        unfold crossingsPrimary at he ⊢
        rwa [hfocus, hinfo] at he
      · intro a ha
        refine hstray a ?_
        rw [attempt_shapeChanged env hprimary, if_pos hactive]
        exact ha
    · refine hend (recollects_onMouseMoveSecondary hn₁ hsound.waits ?_ ?_ hst)
      · intro e he
        refine harrive (harrives e ?_)
        simp only [crossings, if_neg (not_not.2 hprimary), if_neg hactive]
        rw [refreshed, if_neg hactive] at he
        have hshape : (w.server.noteShape c).info = w.server.info := info_setProxy rfl
        unfold crossingsSecondary at he ⊢
        rw [hshape] at he
        exact he
      · intro a ha
        refine hstray a ?_
        rw [attempt_shapeChanged env hprimary, if_neg hactive]
        exact ha
    · cases hst
      exact hend (.refl _)
  · unfold handleShapeChanged at hst
    rw [if_pos (by rw [Bool.not_eq_true] at hc; rw [hc]; rfl)] at hst
    cases hst
    rw [if_neg hc]
    exact h.recollects (.refl _)

/-- What a hotkey recalls is on the screen if it was not cut off. -/
theorem jumpPosition (h : Sound w) (hc : w.server.registry.Registered c)
    (hcut : w.cut c = false) : w.server.OnScreen c (w.server.jumpPosition c) := by
  unfold Server.jumpPosition
  split_ifs with hactive
  · subst hactive
    exact h.position hcut
  · exact h.jump c hc hcut

/-- **Every careful step keeps the positions that were not cut off on their screens.** -/
theorem step {l : Env × Event} {w' : Watch} (h : Sound w) (ht : w.server.Trusted l)
    (hc : w.Careful l) (hst : Watch.lts.step w l = some w') : Sound w' := by
  obtain ⟨env, e⟩ := l
  obtain ⟨s', hs', rfl⟩ := Option.map_eq_some_iff.1 hst
  obtain ⟨hzone, hcenter, hreport⟩ := ht
  obtain ⟨hcan, hstray, harrives, hjump, hwait⟩ := hc
  have hleave : canLeave env w.server.focus.active = true := by
    unfold canLeave
    split_ifs with hprimary
    · exact hcan hprimary
    · rfl
  have hn : Navigable w.server env := ⟨h.links, h.sized, hzone⟩
  have hkeep {s' : Server} (hr : Recollects w.server s') := h.recollects hr
  have hrecall (c : ClientID) (hc : w.server.jumpsTo env e = some c) :
      w.server.OnScreen c (w.server.jumpPosition c) :=
    h.jumpPosition (registered_of_jumpsTo hc) (hjump c hc)
  cases e with
  | clientConnected ident i =>
    cases hs'
    exact h.connect ident i hreport
  | adoptClient c =>
    simp only [Server.step] at hs'
    split_ifs at hs' with hwaiting
    cases hs'
    exact hkeep (recollects_adoptClient hcenter hwaiting (h.shapes c))
  | clientDisconnected c =>
    simp only [Server.step] at hs'
    split_ifs at hs'
    · cases hs'
      exact hkeep (recollects_dequeue w.server c)
    · cases hs'
      exact hkeep (recollects_handleClientDisconnected hcenter c)
  | clientCloseTimeout c =>
    simp only [Server.step] at hs'
    split_ifs at hs'
    cases hs'
    exact hkeep (recollects_removeOldClient w.server c)
  | reloadConfig cfg =>
    cases hs'
    exact hkeep (recollects_reloadConfig hcenter h.sized hreport)
  | disconnect =>
    cases hs'
    exact hkeep (recollects_disconnect hcenter)
  | screensaver activated =>
    cases hs'
    exact hkeep (recollects_onScreensaver h.sized hleave h.origin activated)
  | switchToScreen screen => exact hkeep (recollects_hotkey rfl hleave hrecall hs')
  | toggleScreen => exact hkeep (recollects_hotkey rfl hleave hrecall hs')
  | switchInDirection dir => exact hkeep (recollects_hotkey rfl hleave hrecall hs')
  | lockCursorToScreen mode =>
    cases hs'
    exact hkeep (recollects_handleLockCursorToScreenEvent h.sized mode)
  | motionPrimary x y =>
    exact hkeep (recollects_onMouseMovePrimary hn h.waits hleave hreport harrives hstray hs')
  | motionSecondary dx dy =>
    exact hkeep (recollects_onMouseMoveSecondary hn h.waits harrives hstray hs')
  | switchWait =>
    simp only [Server.step] at hs'
    split_ifs at hs' with htimer
    refine hkeep (recollects_handleSwitchWaitEvent hleave (fun hlocked c hc => ?_) hs')
    exact h.wait htimer (hwait (by simp [fires, hlocked])) c hc
  | info c i =>
    cases hs'
    exact h.report i hreport.1 hreport.2
  | shapeChanged c => exact h.shapeChanged hn hleave hstray harrives hs'
  | clipboardGrabbed c id seqNum =>
    cases hs'
    exact hkeep (.of_fixed (still_handleClipboardGrabbed _ c id seqNum)
      (fixed_handleClipboardGrabbed _ c id seqNum))
  | clipboardReceived c id seqNum data =>
    simp only [Server.step] at hs'
    split_ifs at hs'
    obtain ⟨clipboard, -, rfl⟩ := Option.map_eq_some_iff.1 hs'
    exact hkeep (.of_fixed (still_setProxy _ c _) (fixed_setClientClipboard _ c id _))
  | clipboardChanged c id seqNum =>
    cases hs'
    exact hkeep (.of_fixed (still_handleClipboardChanged _ env c id seqNum)
      (fixed_handleClipboardChanged _ env c id seqNum))
  | filePasteRequested c request =>
    simp only [Server.step] at hs'
    split_ifs at hs'
    cases hs'
    exact hkeep (.of_fixed (still_filePasteRequested _ c request)
      (fixed_filePasteRequested _ c request))
  | filePasteStatus c status =>
    simp only [Server.step] at hs'
    split_ifs at hs'
    cases hs'
    exact hkeep (.of_fixed (still_filePasteStatus _ c status) (fixed_filePasteStatus _ c status))
  | mouseDown =>
    cases hs'
    exact hkeep (.of_fixed ⟨rfl, rfl, rfl, rfl, rfl, rfl, fun _ => Iff.rfl⟩ ⟨rfl, rfl, rfl⟩)
  | dragInfoSent =>
    cases hs'
    exact hkeep (.of_fixed ⟨rfl, rfl, rfl, rfl, rfl, rfl, fun _ => Iff.rfl⟩ ⟨rfl, rfl, rfl⟩)

end Sound

/-- The constructor leaves every position on the primary screen. -/
theorem sound_create {cfg : Config} {primary : Ident} {info : ScreenInfo} {enableDragDrop : Bool}
    {s : Server} (h : Server.create env cfg primary info enableDragDrop = some s)
    (hlinks : cfg.WellLinked) (hcursor : info.Contains info.mx info.my)
    (horigin : info.Contains 0 0)
    (hcenter : info.Contains env.cursorCenter.1 env.cursorCenter.2) :
    Sound ⟨s, fun _ => false, false⟩ := by
  obtain ⟨s₁, s₂, hadd, hset, rfl⟩ := Server.create_spec h
  set s₀ := Server.unregistered cfg primary info enableDragDrop with hs₀
  have hblank : Sound ⟨s₀, fun _ => false, false⟩ := by
    refine ⟨fun c => hcursor, horigin, hlinks, fun c hc => ?_, fun c hc _ => ?_, fun _ => horigin,
      fun htimer => ?_, fun htimer => ?_⟩
    · have hzero : c = primaryClient := by
        obtain (⟨name, hname⟩ | hdst | hsaver | rfl) | rfl | hwaiting := hc
        · simp [hs₀, Server.unregistered, Server.blank] at hname
        · cases hdst
        · cases hsaver
        · rfl
        · rfl
        · exact absurd hwaiting Std.TreeSet.not_mem_emptyc
      subst hzero
      exact Nat.zero_lt_one
    · obtain ⟨name, hname⟩ := hc
      simp [hs₀, Server.unregistered, Server.blank] at hname
    · cases htimer
    · cases htimer
  have hadded := Server.recollects_addClient (.refl s₀) (.inl (.inr (.inr (.inr rfl))))
    (hblank.shapes primaryClient) hadd
  have hsound := hblank.recollects hadded
  have hcenter₁ : s₁.OnScreen primaryClient env.cursorCenter :=
    (Server.onScreen_iff hadded.info _ _).2 hcenter
  have hset := Server.recollects_setConfig hcenter₁ hsound.sized hset
  have hlocked (b : Bool) : Server.Recollects s₂ { s₂ with lockedToScreen := b } :=
    .of_fixed ⟨rfl, rfl, rfl, rfl, rfl, rfl, fun _ => Iff.rfl⟩ ⟨rfl, rfl, rfl⟩
  exact hsound.recollects (hset.trans (hlocked _))

/-- The state after a run from the server that the constructor makes. -/
def run (env : Env) (cfg : Config) (primary : Ident) (info : ScreenInfo) (enableDragDrop : Bool)
    (events : List (Env × Server.Event)) : Option Watch :=
  (Server.create env cfg primary info enableDragDrop).bind fun s =>
    lts.exec ⟨s, fun _ => false, false⟩ events

theorem reachableVia_of_run {cfg : Config} {primary : Ident} {info : ScreenInfo}
    {enableDragDrop : Bool} {events : List (Env × Server.Event)}
    {G : Watch → Env × Server.Event → Prop}
    (h : run env cfg primary info enableDragDrop events = some w) (hlinks : cfg.WellLinked)
    (hcursor : info.Contains info.mx info.my) (horigin : info.Contains 0 0)
    (hcenter : info.Contains env.cursorCenter.1 env.cursorCenter.2)
    (hG : ∀ s ∈ Server.create env cfg primary info enableDragDrop,
      lts.Admits G ⟨s, fun _ => false, false⟩ events) :
    lts.ReachableVia G w := by
  obtain ⟨s, hcreate, hexec⟩ := Option.bind_eq_some_iff.1 h
  exact .of_exec (.init ⟨env, cfg, primary, info, enableDragDrop, hcreate, rfl, rfl, hlinks,
    hcursor, horigin, hcenter⟩) (hG s hcreate) hexec

end Watch

end InputLeap
