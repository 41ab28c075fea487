import InputLeap.Server.Remembered

/-!
# What events do to remembered positions

Every event but those that report a shape leaves the server with positions that it remembered
before or that lie on their screens.

## Main definitions

* `Server.Navigable` : what finding a position on a screen depends on.
* `Server.crossings` : the edges that an event may look across.

## Main results

* `recollects_tryEdge`, `recollects_onMouseMovePrimary`, ... : motions that arrive and do not stray.
* `recollects_onScreensaver`, `recollects_hotkey`, `recollects_handleSwitchWaitEvent` : switching
  to a remembered position that is on its screen.
* `recollects_adoptClient`, `recollects_reloadConfig`, ... : connecting and removing screens.
-/

namespace InputLeap

namespace Server

variable {s s' s'' : Server} {env : Env} {c d dst : ClientID} {x y : ℤ}

/-! ### Motions -/

/-- Links lead to intervals, screens have a size, and so has the jump zone. -/
structure Navigable (s : Server) (env : Env) : Prop where
  links : s.config.WellLinked
  sized : Sized s
  zone : 0 ≤ env.jumpZoneSize

theorem Navigable.sameScreens (h : Navigable s env) (hs : SameScreens s s') : Navigable s' env where
  links := by rw [hs.config]; exact h.links
  sized c := by rw [hs.info]; exact h.sized c
  zone := h.zone

theorem waitKept_stopSwitch (s : Server) : WaitKept s s.stopSwitch :=
  (calmer_stopSwitch s).waitKept

theorem waitKept_isSwitchOkay {dir : Direction} {xActive yActive : ℤ} (hw : Waits s)
    (hon : s.OnScreen c (x, y))
    (hstray : ∀ b, s.pending.switchScreen = some b → b ≠ c → s.pending.switchDir = some dir →
      s.pending.waitTimer = false → 0 < s.options.waitDelay → s.allowSwitch env dir = true) :
    WaitKept s (s.isSwitchOkay env (some c) dir x y xActive yActive).1 := by
  have hprepare : WaitKept s (s.setPending (s.prepareSwitch env c dir x y)) := by
    intro htimer
    obtain ⟨ht, hs, hx, hy⟩ | ⟨hdelay, hs, hx, hy⟩ := prepareSwitch_starts hw hstray htimer
    · exact .inl ⟨ht, rfl, hs, hx, hy⟩
    · refine .inr ⟨hdelay, c, hs, ?_⟩
      rw [setPending, hx, hy]
      exact hon
  -- The screens are the same throughout.
  refine And.right (isSwitchOkay_induction (P := fun s' => s'.info = s.info ∧ WaitKept s s')
    ⟨rfl, hprepare⟩ fun s' hs' => ?_)
  obtain ⟨hinfo, h⟩ := hs'
  exact ⟨hinfo, h.trans hinfo (waitKept_stopSwitch s')⟩

/-- Looking across an edge starts a wait for a position on its screen only, and finds one to
switch to on its screen only. -/
theorem recollects_tryEdge {dir : Direction} {p : ℤ × ℤ} {xActive yActive : ℤ}
    {t : Option (ClientID × ℤ × ℤ)} (hn : Navigable s env) (hw : Waits s)
    (hbeyond : dir.Beyond (s.info s.focus.active) p) (harrives : s.arrives env dir p = true)
    (hstray : s.strays env dir p = false)
    (h : s.tryEdge env dir p xActive yActive = some (s', t)) :
    Recollects s s' ∧ ∀ c x y, t = some (c, x, y) → s.OnScreen c (x, y) := by
  have hfixed := fixed_tryEdge h
  have haimed := (aimed_tryEdge h).1
  have hkeeps := keeps_tryEdge h
  obtain ⟨r, hr, h⟩ := Option.map_eq_some_iff.1 h
  have hon : ∀ m, r = some m → s.OnScreen m.1 m.2 := by
    rintro ⟨c, q⟩ rfl
    exact contains_of_mapToNeighbor hn.links hn.sized hn.zone hbeyond harrives hr
  obtain ⟨hs', ht⟩ := Prod.mk.inj h
  refine ⟨.of_moved hkeeps.config haimed.moved hfixed.info (fun c => .inl (congrFun hfixed.jump c))
    (.inl ⟨by rw [haimed.focus], hfixed.position⟩) ?_, ?_⟩
  · subst hs'
    cases r with
    | none => exact (calmer_stopSwitch s).waitKept
    | some m =>
      obtain ⟨c, q⟩ := m
      have hnote : WaitKept s (s.noteMapped (some (c, q))) := fun ht =>
        .inl ⟨ht, rfl, rfl, rfl, rfl⟩
      refine hnote.trans rfl (waitKept_isSwitchOkay hw (hon _ rfl) ?_)
      intro b hb hbc hdir htimer hdelay
      change s.allowSwitch env dir = true
      exact allowSwitch_of_not_strays hr hstray hb hbc hdir htimer hdelay
  · intro c x y hc
    subst ht
    split_ifs at hc
    exact hon _ hc

theorem active_switchScreen (hleave : canLeave env s.focus.active = true) (dst : ClientID)
    (x y : ℤ) (forScreensaver : Bool) :
    (s.switchScreen env dst x y forScreensaver).focus.active = dst := by
  have hactive : (s.stopSwitch.warp x y).focus.active = s.focus.active := rfl
  simp only [switchScreen, hactive]
  split_ifs with hsame hrefused
  · exact hsame
  · simp [hleave] at hrefused
  · rw [focus_enterScreen]
  · rw [focus_enterScreen]

/-- A switch to a position on the screen. -/
theorem recollects_switchScreen (hleave : canLeave env s.focus.active = true)
    (hdst : s.Target dst) (hon : s.OnScreen dst (x, y)) (forScreensaver : Bool) :
    Recollects s (s.switchScreen env dst x y forScreensaver) := by
  have hswitched := switched_switchScreen s env dst x y forScreensaver
  have hfixed := fixed_switchScreen s env dst x y forScreensaver
  refine .of_moved hswitched.config (moved_switched hswitched hdst) hfixed.info
    (fun c => .inl (congrFun hfixed.jump c)) (.inr ?_) hswitched.calmer.waitKept
  rw [active_switchScreen hleave, hfixed.position]
  exact hon

theorem recollects_switchAcross (hleave : canLeave env s.focus.active = true)
    (hdst : s.Target dst) (hon : s.OnScreen dst (x, y)) :
    Recollects s (s.switchAcross env dst x y) := by
  have hdrag (s : Server) (d : Drag) : Recollects s { s with drag := d } :=
    .of_fixed ⟨rfl, rfl, rfl, rfl, rfl, rfl, fun _ => Iff.rfl⟩ ⟨rfl, rfl, rfl⟩
  simp only [switchAcross]
  split_ifs
  · exact hdrag s _
  · exact (recollects_switchScreen hleave hdst hon false).trans (hdrag _ _)

theorem recollects_tryEdges {xc yc : ℤ} {edges : List (Direction × ℤ × ℤ)}
    (hn : Navigable s env) (hw : Waits s) (hleave : canLeave env s.focus.active = true)
    (hbeyond : ∀ e ∈ edges, e.1.Beyond (s.info s.focus.active) e.2)
    (harrives : ∀ e ∈ edges, s.arrives env e.1 e.2 = true)
    (hdirs : edges.Pairwise fun e e' => e.1 ≠ e'.1)
    (hstray : ∀ e ∈ edges.head?, s.strays env e.1 e.2 = false)
    (h : tryEdges env xc yc s edges = some s') : Recollects s s' := by
  induction edges generalizing s with
  | nil =>
    cases h
    exact .refl _
  | cons e rest ih =>
    obtain ⟨dir, p⟩ := e
    have hfirst : s.strays env dir p = false := hstray (dir, p) rfl
    obtain ⟨hbeyond₁, hbeyond⟩ := List.forall_mem_cons.1 hbeyond
    obtain ⟨harrives₁, harrives⟩ := List.forall_mem_cons.1 harrives
    obtain ⟨hdir, hdirs⟩ := List.pairwise_cons.1 hdirs
    simp only [tryEdges] at h
    split at h
    · cases h
    · rename_i s₁ c x y htry
      cases h
      obtain ⟨hrec, hon⟩ := recollects_tryEdge hn hw hbeyond₁ harrives₁ hfirst htry
      obtain ⟨haimed, hreg⟩ := aimed_tryEdge htry
      refine hrec.trans (recollects_switchAcross ?_ (.inl ?_) ?_)
      · rw [haimed.focus]
        exact hleave
      · rw [haimed.registry]
        exact hreg c x y rfl
      · exact (onScreen_iff hrec.info _ _).2 (hon c x y rfl)
    · rename_i s₁ htry
      obtain ⟨hrec, -⟩ := recollects_tryEdge hn hw hbeyond₁ harrives₁ hfirst htry
      have hfocus := (aimed_tryEdge htry).1.focus
      have hkeeps := keeps_tryEdge htry
      have hsame : SameScreens s s₁ := ⟨hkeeps.config, hkeeps.registry, hrec.info⟩
      refine hrec.trans (ih (hn.sameScreens hsame) (hrec.wait.waits hw) ?_ ?_ ?_ hdirs ?_ h)
      · rw [hfocus]
        exact hleave
      · intro e he
        rw [hrec.info, hfocus]
        exact hbeyond e he
      · intro e he
        rw [hsame.arrives (by rw [hfocus])]
        exact harrives e he
      · intro e he
        exact strays_eq_false_of_settled (settled_tryEdge htry)
          (hdir e (List.mem_of_mem_head? he)).symm e.2

/-- The edges that a motion on the primary screen may look across. -/
def crossingsPrimary (s : Server) (env : Env) (x y : ℤ) : List (Direction × ℤ × ℤ) :=
  if s.focus.active ≠ primaryClient then []
  else touchedEdges (s.info s.focus.active) (getJumpZoneSize env s.focus.active) x y

/-- The edge that a motion on a secondary screen looks across. -/
def crossingsSecondary (s : Server) (dx dy : ℤ) : List (Direction × ℤ × ℤ) :=
  if s.focus.active = primaryClient ∨ s.options.relativeMoves ∧ s.lockedToScreen then []
  else
    let x := s.mouse.x + dx
    let y := s.mouse.y + dy
    ((exitSide (s.info s.focus.active) x y).map fun dir => (dir, x, y)).toList

/-- The edges that an event may look across. -/
def crossings (s : Server) (env : Env) : Event → List (Direction × ℤ × ℤ)
  | .motionPrimary x y => s.crossingsPrimary env x y
  | .motionSecondary dx dy => s.crossingsSecondary dx dy
  | .shapeChanged c =>
    let i := s.info c
    if c ≠ primaryClient then []
    else if c = s.focus.active then s.crossingsPrimary env i.mx i.my
    else s.crossingsSecondary 0 0
  | _ => []

theorem recollects_onMouseMovePrimary (hn : Navigable s env) (hw : Waits s)
    (hleave : canLeave env s.focus.active = true) (hon : s.OnScreen primaryClient (x, y))
    (harrives : ∀ e ∈ s.crossingsPrimary env x y, s.arrives env e.1 e.2 = true)
    (hstray : ∀ a ∈ s.attemptPrimary env x y, a.1.strays env a.2.1 a.2.2 = false)
    (h : s.onMouseMovePrimary env x y = some s') : Recollects s s' := by
  simp only [onMouseMovePrimary] at h
  split_ifs at h with hactive
  · cases h
    exact .refl s
  · simp only [crossingsPrimary, if_neg hactive] at harrives
    set s₁ := s.moveMouse x y (x - s.mouse.x) (y - s.mouse.y)
    have hstill : Still s s₁ := still_moveMouse s x y _ _
    have hmove : Recollects s s₁ := by
      refine .of_moved rfl hstill.aimed.moved rfl (fun c => .inl rfl) (.inr ?_)
        hstill.calmer.waitKept
      have hprimary : s₁.focus.active = primaryClient := not_not.1 hactive
      rw [hprimary]
      exact hon
    refine hmove.trans ?_
    split at h
    · cases h
      have hfixed := fixed_noSwitch s₁ env x y
      have haimed := aimed_noSwitch s₁ env x y
      exact .of_moved (keeps_noSwitch s₁ env x y).config haimed.moved hfixed.info
        (fun c => .inl (congrFun hfixed.jump c)) (.inl ⟨by rw [haimed.focus], hfixed.position⟩)
        (calmer_noSwitch s₁ env x y).waitKept
    · have hsame : SameScreens s s₁ := ⟨rfl, rfl, rfl⟩
      refine recollects_tryEdges (hn.sameScreens hsame) hw hleave
        (fun e he => beyond_of_touchedEdges he) (fun e he => ?_) (pairwise_touchedEdges ..)
        (fun e he => ?_) h
      · rw [hsame.arrives rfl]
        exact harrives e he
      · refine hstray (s₁, e) ?_
        simp only [attemptPrimary, if_neg hactive]
        exact Option.mem_map.2 ⟨e, he, rfl⟩

theorem clampTo_mem (v first : ℤ) {size : ℤ} (h : 0 < size) :
    first ≤ clampTo v first size ∧ clampTo v first size < first + size := by
  unfold clampTo
  split_ifs <;> omega

/-- Staying on the screen puts the cursor inside it. -/
theorem onScreen_stayOnScreen (hs : Sized s) (xOld yOld dx dy : ℤ) :
    s.OnScreen s.focus.active (s.stayOnScreen xOld yOld dx dy).position ∧
      Fixed (s.warp (s.stayOnScreen xOld yOld dx dy).mouse.x
        (s.stayOnScreen xOld yOld dx dy).mouse.y) (s.stayOnScreen xOld yOld dx dy) := by
  obtain ⟨hw, hh⟩ := hs s.focus.active
  have hx := clampTo_mem (xOld + dx) (s.info s.focus.active).x hw
  have hy := clampTo_mem (yOld + dy) (s.info s.focus.active).y hh
  simp only [stayOnScreen]
  split_ifs
  · exact ⟨⟨hx.1, hy.1, hx.2, hy.2⟩, rfl, rfl, rfl⟩
  · exact ⟨⟨hx.1, hy.1, hx.2, hy.2⟩, rfl, rfl, rfl⟩

theorem recollects_onMouseMoveSecondary {dx dy : ℤ} (hn : Navigable s env) (hw : Waits s)
    (harrives : ∀ e ∈ s.crossingsSecondary dx dy, s.arrives env e.1 e.2 = true)
    (hstray : ∀ a ∈ s.attemptSecondary dx dy, a.1.strays env a.2.1 a.2.2 = false)
    (h : s.onMouseMoveSecondary env dx dy = some s') : Recollects s s' := by
  have hmoved := moved_onMouseMoveSecondary h
  have hkeeps := keeps_onMouseMoveSecondary h
  simp only [onMouseMoveSecondary] at h
  split_ifs at h with hactive hrelative
  · cases h
    exact .refl s
  · cases h
    exact recollects_notice s _
  · have hnone : ¬(s.focus.active = primaryClient ∨ s.options.relativeMoves = true ∧
      s.lockedToScreen = true) := not_or.2 ⟨hactive, hrelative⟩
    set s₁ := s.moveMouse (s.mouse.x + dx) (s.mouse.y + dy) dx dy
    have hsame : SameScreens s s₁ := ⟨rfl, rfl, rfl⟩
    have hn₁ := hn.sameScreens hsame
    -- What the motion does to the position in between is made up for at its end.
    have hfinish {s₂ : Server} (hfixed : Fixed s₁ s₂) (hwait : WaitKept s₁ s₂)
        (hend : ∃ x y, Fixed (s₂.warp x y) s' ∧ s.OnScreen s'.focus.active s'.position)
        (hcalm : Calmer s₂ s') : Recollects s s' := by
      obtain ⟨x, y, hfixed', hon⟩ := hend
      refine .of_moved hkeeps.config hmoved (hfixed'.info.trans hfixed.info) (fun c => .inl ?_)
        (.inr hon) ?_
      · exact congrFun (hfixed'.jump.trans hfixed.jump) c
      · exact WaitKept.trans hwait hfixed.info hcalm.waitKept
    split at h
    · cases h
      have hfixed : Fixed s₁ (s₁.leaveBorder env (s.info s.focus.active) (s.mouse.x + dx)
          (s.mouse.y + dy)) := by
        unfold leaveBorder
        split_ifs
        · exact fixed_noSwitch s₁ env _ _
        · exact .refl s₁
      have haimed := aimed_leaveBorder s₁ env (s.info s.focus.active) (s.mouse.x + dx)
        (s.mouse.y + dy)
      obtain ⟨hon, hend⟩ := onScreen_stayOnScreen (s := s₁.leaveBorder env (s.info s.focus.active)
        (s.mouse.x + dx) (s.mouse.y + dy)) (by
          intro c
          rw [hfixed.info]
          exact hn₁.sized c) s.mouse.x s.mouse.y dx dy
      refine hfinish hfixed (calmer_leaveBorder s₁ env _ _ _).waitKept ⟨_, _, hend, ?_⟩
        (still_stayOnScreen _ _ _ _ _).calmer
      rw [(still_stayOnScreen _ _ _ _ _).focus]
      exact (onScreen_iff hfixed.info _ _).1 hon
    · rename_i dir hexit
      have hbeyond := beyond_of_exitSide hexit
      have harrives : s₁.arrives env dir (s.mouse.x + dx, s.mouse.y + dy) = true := by
        rw [hsame.arrives rfl]
        exact harrives (dir, s.mouse.x + dx, s.mouse.y + dy)
          (by simp [crossingsSecondary, hnone, hexit])
      have hfirst : s₁.strays env dir (s.mouse.x + dx, s.mouse.y + dy) = false :=
        hstray (s₁, dir, s.mouse.x + dx, s.mouse.y + dy)
          (by simp [attemptSecondary, hnone, hexit, s₁])
      split at h
      · cases h
      · rename_i s₂ c x y htry
        cases h
        obtain ⟨hrec, hon⟩ := recollects_tryEdge hn₁ hw hbeyond harrives hfirst htry
        have hfocus := (aimed_tryEdge htry).1.focus
        have hleave : canLeave env s₂.focus.active = true := by
          rw [hfocus]
          exact if_neg hactive
        have hswitch := fixed_switchScreen s₂ env c x y false
        refine hfinish (fixed_tryEdge htry) hrec.wait ⟨x, y, hswitch, ?_⟩
          (switched_switchScreen s₂ env c x y false).calmer
        rw [active_switchScreen hleave, hswitch.position]
        exact hon c x y rfl
      · rename_i s₂ htry
        cases h
        obtain ⟨hrec, -⟩ := recollects_tryEdge hn₁ hw hbeyond harrives hfirst htry
        obtain ⟨hon, hend⟩ := onScreen_stayOnScreen (s := s₂) (by
          intro c
          rw [hrec.info]
          exact hn₁.sized c) s.mouse.x s.mouse.y dx dy
        refine hfinish (fixed_tryEdge htry) hrec.wait ⟨_, _, hend, ?_⟩
          (still_stayOnScreen _ _ _ _ _).calmer
        rw [(still_stayOnScreen _ _ _ _ _).focus]
        exact (onScreen_iff hrec.info _ _).1 hon

/-! ### The screen saver, hotkeys and the wait timer -/

theorem clampSaver_mem (v first : ℤ) {size : ℤ} (h : 0 < size) :
    first ≤ clampSaver v first size 0 ∧ clampSaver v first size 0 < first + size := by
  unfold clampSaver
  split_ifs <;> omega

/-- The position that the screen saver goes back to is adjusted to the screen. -/
theorem onScreen_saverPosition (hs : Sized s) (env : Env) (hc : c ≠ primaryClient) :
    s.OnScreen c (s.saverPosition env c) := by
  have hzone : getJumpZoneSize env c = 0 := if_neg hc
  have hx := clampSaver_mem s.focus.xSaver (s.info c).x (hs c).1
  have hy := clampSaver_mem s.focus.ySaver (s.info c).y (hs c).2
  unfold OnScreen saverPosition
  simp only [hzone]
  exact ⟨hx.1, hy.1, hx.2, hy.2⟩

theorem placed_enterSaver (horigin : s.OnScreen primaryClient (0, 0)) (env : Env) :
    Placed s (s.enterSaver env) := by
  simp only [enterSaver]
  split_ifs with hactive
  · set s₁ := s.setFocus ⟨s.focus.active, some s.focus.active, s.mouse.x, s.mouse.y⟩
    obtain ⟨hinfo, hjump, hposition⟩ := fixed_switchScreen s₁ env primaryClient 0 0 true
    refine .inr ⟨(0, 0), ⟨hinfo, hjump, hposition⟩, ?_⟩
    rw [active_switchScreen (s := s₁) (if_neg hactive)]
    exact horigin
  · exact .inl ⟨rfl, rfl, rfl, rfl⟩

theorem placed_leaveSaver (hs : Sized s) (hleave : canLeave env s.focus.active = true) :
    Placed s (s.leaveSaver env) := by
  have hstays (h : s.leaveSaver env = s) : Placed s (s.leaveSaver env) := by
    rw [h]
    exact .inl ⟨rfl, .refl s⟩
  cases hsaver : s.focus.activeSaver with
  | none =>
    refine hstays ?_
    unfold leaveSaver
    rw [hsaver]
  | some c =>
    by_cases hc : c = primaryClient
    · refine hstays ?_
      unfold leaveSaver
      rw [hsaver]
      exact if_pos hc
    · rw [leaveSaver_eq env hsaver hc]
      obtain ⟨hinfo, hjump, hposition⟩ := fixed_switchScreen (s.noteSaver env c) env c
        (s.saverPosition env c).1 (s.saverPosition env c).2 false
      refine .inr ⟨s.saverPosition env c, ⟨hinfo, hjump, hposition⟩, ?_⟩
      rw [active_switchScreen (s := s.noteSaver env c) hleave]
      exact onScreen_saverPosition hs env hc

theorem recollects_onScreensaver (hs : Sized s) (hleave : canLeave env s.focus.active = true)
    (horigin : s.OnScreen primaryClient (0, 0)) (activated : Bool) :
    Recollects s (s.onScreensaver env activated) := by
  refine .of_placed (keeps_onScreensaver env activated).config
    (moved_onScreensaver s env activated) ?_ (calmer_onScreensaver s env activated).waitKept
  have hfixed (s : Server) := Fixed.foldl
    (fun s c => (⟨rfl, rfl, rfl⟩ : Fixed s (s.notice (.screensaver c activated)))) s.clientList s
  have hstill (s : Server) := Still.foldl
    (fun s c => still_notice s (.screensaver c activated)) s.clientList s
  simp only [onScreensaver]
  refine Placed.trans_fixed ?_ (hfixed _) (congrArg Focus.active (hstill _).focus)
  split_ifs
  · exact placed_enterSaver horigin env
  · exact (placed_leaveSaver hs hleave).trans_fixed ⟨rfl, rfl, rfl⟩ rfl

theorem recollects_jumpToScreen (hleave : canLeave env s.focus.active = true)
    (hdst : s.Target dst) (hon : s.OnScreen dst (s.jumpPosition dst)) :
    Recollects s (s.jumpToScreen env dst) := by
  have hswitched := switched_jumpToScreen s env dst
  have hconfig := (keeps_jumpToScreen s env dst).config
  have hmoved := moved_switched hswitched hdst
  have hcalm := hswitched.calmer
  rw [jumpToScreen_eq] at hconfig hmoved hcalm ⊢
  have hfixed := fixed_switchScreen s.noteCursor env dst (s.jumpPosition dst).1
    (s.jumpPosition dst).2 false
  refine .of_moved hconfig hmoved (hfixed.info.trans (info_setProxy rfl)) (fun c => ?_) (.inr ?_)
    hcalm.waitKept
  · have hnoted : s.noteCursor.jumpCursorPos =
        Function.update s.jumpCursorPos s.focus.active s.position := jumpCursorPos_setProxy ..
    have hjump := (congrFun hfixed.jump c).trans (congrFun hnoted c)
    by_cases hc : c = s.focus.active
    · subst hc
      rw [Function.update_self] at hjump
      exact .inr ⟨rfl, hjump⟩
    · rw [Function.update_of_ne hc] at hjump
      exact .inl hjump
  · rw [active_switchScreen (s := s.noteCursor) hleave, hfixed.position]
    exact hon

theorem registered_of_jumpsTo {e : Event} (h : s.jumpsTo env e = some c) :
    s.registry.Registered c := by
  cases e with
  | switchToScreen screen => exact ⟨screen, h⟩
  | toggleScreen =>
    simp only [jumpsTo] at h
    split_ifs at h
    obtain ⟨⟨name, c'⟩, hfound, rfl⟩ := Option.map_eq_some_iff.1 h
    refine ⟨name, ?_⟩
    rw [← Std.TreeMap.mem_toList_iff_getElem?_eq_some]
    obtain hnext | ⟨-, hfirst⟩ := Option.or_eq_some_iff.1 hfound
    · exact List.mem_of_find?_eq_some hnext
    · exact List.mem_of_mem_head? hfirst
  | switchInDirection dir =>
    obtain ⟨⟨c', q⟩, hfound, rfl⟩ := Option.map_eq_some_iff.1 h
    exact mem_of_getNeighbor (Option.join_eq_some_iff.1 hfound)
  | _ => cases h

/-- The event is a hotkey that switches screens. -/
def Event.hotkey : Event → Bool
  | .switchToScreen _ | .toggleScreen | .switchInDirection _ => true
  | _ => false

/-- A hotkey with nowhere to go does nothing. -/
theorem eq_of_jumpsTo_eq_none {e : Event} (he : e.hotkey = true) (h : s.jumpsTo env e = none)
    (hst : s.step env e = some s') : s' = s := by
  cases e with
  | switchToScreen screen =>
    have hc : s.registry.clients[screen]? = none := h
    simp only [step, handleSwitchToScreenEvent, hc] at hst
    exact (Option.some.inj hst).symm
  | toggleScreen =>
    simp only [jumpsTo] at h
    simp only [step, handleToggleScreenEvent] at hst
    split_ifs at h hst
    · rw [Option.map_eq_none_iff.1 h] at hst
      exact (Option.some.inj hst).symm
    · exact (Option.some.inj hst).symm
  | switchInDirection dir =>
    obtain ⟨r, hr, heq⟩ := Option.map_eq_some_iff.1 hst
    cases r with
    | none => exact heq.symm
    | some m =>
      have hnext : s.getNeighbor env.fuel s.focus.active dir s.position = some (some m) := hr
      simp only [jumpsTo, hnext, Option.join_some, Option.map_some] at h
      cases h
  | _ => cases he

theorem recollects_hotkey {e : Event} (he : e.hotkey = true)
    (hleave : canLeave env s.focus.active = true)
    (hon : ∀ c, s.jumpsTo env e = some c → s.OnScreen c (s.jumpPosition c))
    (hst : s.step env e = some s') : Recollects s s' := by
  cases hjump : s.jumpsTo env e with
  | none =>
    rw [eq_of_jumpsTo_eq_none he hjump hst]
    exact .refl s
  | some c =>
    rw [step_of_jumpsTo hjump] at hst
    cases hst
    exact recollects_jumpToScreen hleave (.inl (registered_of_jumpsTo hjump)) (hon c hjump)

theorem recollects_handleSwitchWaitEvent (hleave : canLeave env s.focus.active = true)
    (hon : s.isLockedToScreen env = false → ∀ c, s.pending.switchScreen = some c →
      s.OnScreen c (s.pending.waitX, s.pending.waitY))
    (h : s.handleSwitchWaitEvent env = some s') : Recollects s s' := by
  simp only [handleSwitchWaitEvent] at h
  split_ifs at h with hlocked
  · cases h
    exact .of_placed rfl (aimed_stopSwitch s).moved (.inl ⟨rfl, rfl, rfl, rfl⟩)
      (calmer_stopSwitch s).waitKept
  · obtain ⟨c, hc, rfl⟩ := Option.map_eq_some_iff.1 h
    exact recollects_switchScreen hleave (.inr (.inl hc))
      (hon (by simpa using hlocked) c hc) false

/-! ### Options -/

/-- Stopping relative moves puts the cursor in the middle of the screen. -/
theorem placed_stopRelativeMoves (hs : Sized s) : Placed s s.stopRelativeMoves := by
  simp only [stopRelativeMoves]
  split_ifs
  · obtain ⟨hw, hh⟩ := hs s.focus.active
    refine .inr ⟨((s.info s.focus.active).x + (s.info s.focus.active).w / 2,
      (s.info s.focus.active).y + (s.info s.focus.active).h / 2), ⟨rfl, rfl, rfl⟩, ?_⟩
    refine ⟨?_, ?_, ?_, ?_⟩ <;> dsimp only [notice, warp] <;> omega
  · exact .inl ⟨rfl, .refl s⟩

theorem recollects_handleLockCursorToScreenEvent (hs : Sized s) (mode : InputFilter.Mode) :
    Recollects s (s.handleLockCursorToScreenEvent mode) := by
  have hstill := still_handleLockCursorToScreenEvent s mode
  refine .of_placed hstill.config hstill.aimed.moved ?_ hstill.calmer.waitKept
  simp only [handleLockCursorToScreenEvent]
  split_ifs
  · exact .inl ⟨rfl, .refl s⟩
  · exact .inl ⟨rfl, rfl, rfl, rfl⟩
  · have hfixed (b : Bool) (k : Notice) :
        Fixed s ({ s with lockedToScreen := b }.notice k) := ⟨rfl, rfl, rfl⟩
    exact (hfixed _ _).trans_placed rfl (placed_stopRelativeMoves hs)

theorem recollects_processOptions (hs : Sized s) : Recollects s s.processOptions := by
  have hplaced : Placed s s.processOptions ∧ s.processOptions.config = s.config := by
    simp only [processOptions]
    split
    · exact ⟨.inl ⟨rfl, .refl s⟩, rfl⟩
    · rename_i options _
      set s₁ := s.setPending (options.toList.foldl Pending.process s.pending)
      have hfixed : Fixed s s₁ := ⟨rfl, rfl, rfl⟩
      have hstop := hfixed.trans_placed rfl (placed_stopRelativeMoves (s := s₁) hs)
      split_ifs
      · exact ⟨hstop.trans_fixed ⟨rfl, rfl, rfl⟩ rfl, (still_stopRelativeMoves s₁).config⟩
      · exact ⟨.inl ⟨rfl, rfl, rfl, rfl⟩, rfl⟩
  exact .of_placed hplaced.2 (aimed_processOptions s).moved hplaced.1
    (calmer_processOptions s).waitKept

/-! ### Connecting and removing screens -/

theorem Vacated.known (hv : Vacated s s')
    (hreg : ∀ c, s'.registry.Registered c → s.registry.Registered c) (hc : s'.Known c) :
    s.Known c := by
  obtain (hr | hpending | hsaver | rfl) | hactive | hwaiting := hc
  · exact .inl (.inl (hreg c hr))
  · exact .inl (.inr (.inl (hv.pending c hpending)))
  · exact .inl (.inr (.inr (.inl (hv.saver c hsaver))))
  · exact .inl (.inr (.inr (.inr rfl)))
  · obtain hsame | hprimary := hv.active
    · exact .inr (.inl (hsame.symm.trans hactive))
    · exact .inl (.inr (.inr (.inr (hactive.symm.trans hprimary))))
  · exact .inr (.inr (hv.clips.waiting c hwaiting))

/-- Screens are removed, or nothing happens to them. -/
theorem Recollects.of_vacated (hv : Vacated s s')
    (hreg : ∀ c, s'.registry.Registered c → s.registry.Registered c) (hp : Placed s s')
    (hwait : WaitKept s s') : Recollects s s' := by
  have hjump (hf : s'.jumpCursorPos = s.jumpCursorPos) (c : ClientID)
      (hc : s'.registry.Registered c) := (⟨hreg c hc, congrFun hf c⟩ :
        s.registry.Registered c ∧ s'.jumpCursorPos c = s.jumpCursorPos c)
  have hlinks (h : s.config.WellLinked) : s'.config.WellLinked := by
    rw [hv.clips.config]
    exact h
  obtain ⟨hsame, hfixed⟩ | ⟨p, hfixed, hon⟩ := hp
  · exact ⟨hfixed.info, hv.clips.next, hlinks, fun c => hv.known hreg,
      fun c hc => .inl (hjump hfixed.jump c hc), .inl ⟨hsame, hfixed.position⟩, hwait⟩
  · refine ⟨hfixed.info, hv.clips.next, hlinks, fun c => hv.known hreg,
      fun c hc => .inl (hjump hfixed.jump c hc), .inr ?_, hwait⟩
    rw [hfixed.position]
    exact hon

theorem placed_forceLeaveClient (hcenter : s.OnScreen primaryClient env.cursorCenter)
    (c : ClientID) : Placed s (s.forceLeaveClient env c) := by
  have hjump : Placed s (s.jumpToPrimary env c) := by
    refine .inr ⟨env.cursorCenter, ?_, ?_⟩
    · simp only [jumpToPrimary]
      split_ifs <;> exact ⟨rfl, rfl, rfl⟩
    · rw [(jumpToPrimary_spec s env c).2.2.2.2.1]
      exact hcenter
  simp only [forceLeaveClient]
  split_ifs
  · exact hjump.trans_fixed ⟨rfl, rfl, rfl⟩ rfl
  · exact hjump.trans_fixed ⟨rfl, rfl, rfl⟩ rfl
  · exact .inl ⟨rfl, rfl, rfl, rfl⟩
  · exact .inl ⟨rfl, rfl, rfl, rfl⟩

theorem ForcedOut.registered {o : Std.TreeSet ClientID} (h : ForcedOut (s.without c o) s' c)
    (d : ClientID) (hd : s'.registry.Registered d) : s.registry.Registered d := by
  obtain ⟨name, hname⟩ := hd
  rw [h.registry] at hname
  exact ⟨name, clients_without hname⟩

theorem recollects_closeClient (hcenter : s.OnScreen primaryClient env.cursorCenter)
    (c : ClientID) (msg : String) : Recollects s (s.closeClient env c msg) := by
  have hforced := forcedOut_closeClient s env c msg
  refine .of_vacated (vacated_closeClient s env c msg) hforced.registered ?_
    (calmer_closeClient s env c msg).waitKept
  simp only [closeClient]
  have hremove := fixed_removeClient (s.notice (.close c msg)) c
  have hstill := still_removeClient (s.notice (.close c msg)) c
  have hfixed : Fixed s { ((s.notice (.close c msg)).removeClient c) with
      registry := { ((s.notice (.close c msg)).removeClient c).registry with
        oldClients := ((s.notice (.close c msg)).removeClient c).registry.oldClients.insert c } } :=
    ⟨hremove.info, hremove.jump, hremove.position⟩
  refine hfixed.trans_placed (congrArg Focus.active hstill.focus) (placed_forceLeaveClient ?_ c)
  exact (onScreen_iff hfixed.info _ _).2 hcenter

theorem recollects_dequeue (s : Server) (c : ClientID) : Recollects s (s.dequeue c) :=
  .of_vacated (vacated_dequeue s c) (fun _ h => h) (.inl ⟨rfl, rfl, rfl, rfl⟩)
    (Calmer.of_pending rfl rfl (.inl rfl)).waitKept

theorem recollects_removeOldClient (s : Server) (c : ClientID) :
    Recollects s (s.removeOldClient c) := by
  have hsame : (s.removeOldClient c).registry.clients = s.registry.clients ∧
      Placed s (s.removeOldClient c) := by
    simp only [removeOldClient]
    split_ifs
    · exact ⟨rfl, .inl ⟨rfl, .refl s⟩⟩
    · exact ⟨rfl, .inl ⟨rfl, rfl, rfl, rfl⟩⟩
    · exact ⟨rfl, .inl ⟨rfl, rfl, rfl, rfl⟩⟩
  refine .of_vacated (vacated_removeOldClient s c) (fun d hd => ?_) hsame.2
    (calmer_removeOldClient s c).waitKept
  obtain ⟨name, hname⟩ := hd
  rw [hsame.1] at hname
  exact ⟨name, hname⟩

theorem recollects_removeActiveClient (hcenter : s.OnScreen primaryClient env.cursorCenter)
    (c : ClientID) : Recollects s (s.removeActiveClient env c) := by
  by_cases hc : c ∈ s.registry.clientSet
  · have hforced := forcedOut_removeActiveClient s env hc
    have hremove := fixed_removeClient s c
    have hstill := still_removeClient s c
    have hforce : Placed s ((s.removeClient c).forceLeaveClient env c) :=
      hremove.trans_placed (congrArg Focus.active hstill.focus)
        (placed_forceLeaveClient ((onScreen_iff hremove.info _ _).2 hcenter) c)
    have hclips := (clipsKept_removeClient s c).trans (clipsKept_forceLeaveClient _ env c)
    have hcontains : s.registry.clientSet.contains c = true := hc
    have hcalm := (calmer_without s c s.registry.oldClients).trans hforced.calmer
    simp only [removeActiveClient, hcontains, Bool.not_true, Bool.false_eq_true, if_false]
      at hforced hcalm ⊢
    split_ifs at hforced hcalm ⊢
    · exact .of_vacated (hforced.vacated (hclips.trans (clipsKept_notice _ _)))
        hforced.registered (hforce.trans_fixed ⟨rfl, rfl, rfl⟩ rfl) hcalm.waitKept
    · exact .of_vacated (hforced.vacated hclips) hforced.registered hforce hcalm.waitKept
  · have hcontains : s.registry.clientSet.contains c = false := Bool.eq_false_iff.2 hc
    simp only [removeActiveClient, hcontains, Bool.not_false, if_true]
    exact .refl s

theorem recollects_handleClientDisconnected
    (hcenter : s.OnScreen primaryClient env.cursorCenter) (c : ClientID) :
    Recollects s (s.handleClientDisconnected env c) :=
  (recollects_removeActiveClient hcenter c).trans (recollects_removeOldClient _ c)

/-- A screen that is taken in is where its cursor is. -/
theorem recollects_addClient {t : Server} (hr : Recollects s t) (hc : s.Known c)
    (hcursor : s.OnScreen c ((s.info c).mx, (s.info c).my)) (hadd : t.addClient c = some s') :
    Recollects s s' := by
  obtain ⟨-, hstill, -, hclips⟩ := addClient_spec hadd
  have hproxies : s'.info = t.info ∧ s'.jumpCursorPos =
      Function.update t.jumpCursorPos c ((t.info c).mx, (t.info c).my) ∧
      s'.position = t.position := by
    simp only [addClient] at hadd
    split_ifs at hadd
    cases hadd
    have hset := jumpCursorPos_setProxy (t.withClient c) c
      { t.proxies c with jumpCursorPos := ((t.info c).mx, (t.info c).my) }
    exact ⟨info_setProxy rfl, hset, rfl⟩
  obtain ⟨hinfo, hjump, hposition⟩ := hproxies
  have hreg (d : ClientID) (hd : s'.registry.Registered d) :
      d = c ∨ t.registry.Registered d := by
    obtain ⟨name, hname⟩ := hd
    rw [hstill.registry] at hname
    obtain ⟨-, rfl⟩ | hold := clients_withClient hname
    · exact .inl rfl
    · exact .inr ⟨name, hold⟩
  have hfocus : s'.focus = t.focus := hstill.focus
  have hpending : s'.pending = t.pending := hstill.pending
  refine ⟨hinfo.trans hr.info, hclips.next.trans hr.next, fun h => ?_, fun d hd => ?_,
    fun d hd => ?_, ?_, ?_⟩
  · rw [hclips.config]
    exact hr.links h
  · obtain (hreg' | hdst | hsaver | rfl) | hactive | hwaiting := hd
    · obtain rfl | hold := hreg d hreg'
      · exact hc
      · exact hr.known d (.inl (.inl hold))
    · rw [hpending] at hdst
      exact hr.known d (.inl (.inr (.inl hdst)))
    · rw [hfocus] at hsaver
      exact hr.known d (.inl (.inr (.inr (.inl hsaver))))
    · exact .inl (.inr (.inr (.inr rfl)))
    · rw [hfocus] at hactive
      exact hr.known d (.inr (.inl hactive))
    · exact hr.known d (.inr (.inr (hclips.waiting d hwaiting)))
  · have hd' := congrFun hjump d
    by_cases hdc : d = c
    · subst hdc
      rw [Function.update_self, hr.info] at hd'
      rw [hd']
      exact .inr (.inr hcursor)
    · rw [Function.update_of_ne hdc] at hd'
      rw [hd']
      exact hr.jump d ((hreg d hd).resolve_left hdc)
  · rw [hfocus, hposition]
    exact hr.position
  · exact hr.wait.trans hr.info (WaitKept.trans (Calmer.of_pending rfl rfl (.inl rfl)).waitKept rfl
      hstill.calmer.waitKept)

theorem recollects_adoptClient (hcenter : s.OnScreen primaryClient env.cursorCenter)
    (hc : c ∈ s.registry.waiting) (hcursor : s.OnScreen c ((s.info c).mx, (s.info c).my)) :
    Recollects s (s.adoptClient env c) := by
  have hclose (msg : String) : Recollects s ((s.dequeue c).closeClient env c msg) :=
    (recollects_dequeue s c).trans (recollects_closeClient (s := s.dequeue c) hcenter c msg)
  obtain ⟨msg, hadopt⟩ | ⟨s₂, s₃, hadd, hs₃, hadopt⟩ := adoptClient_stages s env c
  · exact hadopt ▸ hclose msg
  · have hadded := recollects_addClient (recollects_dequeue s c) (.inr (.inr hc)) hcursor hadd
    have hoptions := hadded.trans (recollects_sendOptions s₂ c)
    rw [hadopt]
    refine Recollects.trans ?_ (recollects_notice _ _)
    rcases hs₃ with rfl | rfl
    · exact hoptions
    · exact hoptions.trans (recollects_notice _ _)

theorem recollects_closeClients (hcenter : s.OnScreen primaryClient env.cursorCenter)
    (cfg : Config) : Recollects s (s.closeClients env cfg) :=
  Recollects.foldl (P := fun s => s.OnScreen primaryClient env.cursorCenter)
    (fun _ _ hrec h => (onScreen_iff hrec.info _ _).2 h)
    (fun _ c h => recollects_closeClient h c "CBYE") _ hcenter

theorem recollects_disconnect (hcenter : s.OnScreen primaryClient env.cursorCenter) :
    Recollects s (s.disconnect env) := by
  unfold disconnect
  split_ifs
  · exact recollects_closeClients hcenter {}
  · exact recollects_notice s _

theorem recollects_addScrollLockRule (s : Server) : Recollects s s.addScrollLockRule := by
  unfold addScrollLockRule
  split_ifs
  · exact .refl _
  · exact ⟨rfl, rfl, fun h => h, fun _ h => h, fun _ h => .inl ⟨h, rfl⟩, .inl ⟨rfl, rfl⟩,
      (Calmer.of_pending rfl rfl (.inl rfl)).waitKept⟩

theorem recollects_setConfig (hcenter : s.OnScreen primaryClient env.cursorCenter) (hs : Sized s)
    (h : s.setConfig env = some s') : Recollects s s' := by
  obtain ⟨s₁, s₂, s₃, hclosed, hprocessed, hruled, rfl⟩ := setConfig_stages h
  have hclose : Recollects s s₁ := hclosed ▸ recollects_closeClients hcenter s.config
  have hs₁ : Sized s₁ := by
    intro c
    rw [hclose.info]
    exact hs c
  have hprocess : Recollects s₁ s₂ := hprocessed ▸ recollects_processOptions hs₁
  have hrule : Recollects s₂ s₃ := hruled ▸ recollects_addScrollLockRule s₂
  have hreconfigure : Recollects s₃ s₃.reconfigure := recollects_notice _ _
  refine (((hclose.trans hprocess).trans hrule).trans hreconfigure).trans ?_
  exact Recollects.foldl (P := fun _ => True) (fun _ _ _ h => h)
    (fun s c _ => recollects_sendOptions s c) _ trivial

theorem recollects_reloadConfig (hcenter : s.OnScreen primaryClient env.cursorCenter)
    (hs : Sized s) {cfg : Config} (hlinks : cfg.WellLinked) :
    Recollects s (s.reloadConfig env cfg) := by
  have hcfg : Recollects s { s with config := cfg } :=
    ⟨rfl, rfl, fun _ => hlinks, fun _ h => h, fun _ h => .inl ⟨h, rfl⟩, .inl ⟨rfl, rfl⟩,
      (Calmer.of_pending rfl rfl (.inl rfl)).waitKept⟩
  simp only [reloadConfig]
  cases hset : setConfig { s with config := cfg } env with
  | none => exact hcfg
  | some s' => exact hcfg.trans (recollects_setConfig hcenter hs hset)

end Server

end InputLeap
