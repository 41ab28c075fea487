import InputLeap.Server.Basic

/-!
# Motions on a reflected screen

A motion that stays inside of a secondary screen gives up a pending switch when the cursor is away
from the edge it waits at.  The same motion on the reflected screen is to do the same.

## Main definitions

* `Axis` : the two ways to reflect a screen.
* `Server.mirror` : the server with the active screen, the cursor and the pending switch reflected.
* `Server.DecisionCommutes` : the motion decides about the pending switch as it does on the
  reflected screen.
* `Server.AwayFromPending` : the cursor is outside of the jump zone at the top or bottom edge that
  the pending switch is across.

## Main results

* `Server.pending_noSwitch_mirror` : giving the switch up is the same in the mirror.
* `Server.clearWait_mirror`, `Server.clearWait_mirror_iff` : the decision is, or is not.
* `Server.onMouseMoveSecondary_mirror` : left to right always, top to bottom exactly away from the
  pending edge.
-/

namespace InputLeap

/-- The two ways to reflect a screen. -/
inductive Axis
  | leftRight
  | topBottom
  deriving DecidableEq

/-- The direction in the mirror. -/
def Direction.mirror : Axis → Direction → Direction
  | .leftRight, .left => .right
  | .leftRight, .right => .left
  | .topBottom, .top => .bottom
  | .topBottom, .bottom => .top
  | _, dir => dir

/-- The shape in a mirror where `v` becomes `c - v`. -/
def ScreenInfo.mirror (axis : Axis) (c : ℤ) (i : ScreenInfo) : ScreenInfo :=
  match axis with
  | .leftRight => { i with x := c - (i.x + i.w - 1), mx := c - i.mx }
  | .topBottom => { i with y := c - (i.y + i.h - 1), my := c - i.my }

/-- The cursor in the mirror. -/
def Mouse.mirror (axis : Axis) (c : ℤ) (m : Mouse) : Mouse :=
  match axis with
  | .leftRight => { m with x := c - m.x, xDelta := -m.xDelta, xDelta2 := -m.xDelta2 }
  | .topBottom => { m with y := c - m.y, yDelta := -m.yDelta, yDelta2 := -m.yDelta2 }

/-- The pending switch in the mirror. -/
def Pending.mirror (axis : Axis) (p : Pending) : Pending :=
  { p with switchDir := p.switchDir.map (Direction.mirror axis) }

/-- The position in the mirror. -/
def Axis.position (axis : Axis) (c : ℤ) (p : ℤ × ℤ) : ℤ × ℤ :=
  match axis with
  | .leftRight => (c - p.1, p.2)
  | .topBottom => (p.1, c - p.2)

/-- The motion in the mirror. -/
def Axis.motion (axis : Axis) (d : ℤ × ℤ) : ℤ × ℤ :=
  match axis with
  | .leftRight => (-d.1, d.2)
  | .topBottom => (d.1, -d.2)

namespace Server

/-- The server in the mirror. -/
def mirror (axis : Axis) (c : ℤ) (s : Server) : Server :=
  let a := s.focus.active
  { s.setProxy a { s.proxies a with info := (s.info a).mirror axis c } with
    mouse := s.mouse.mirror axis c
    pending := s.pending.mirror axis }

/-- Where a motion ends. -/
def target (s : Server) (d : ℤ × ℤ) : ℤ × ℤ := (s.mouse.x + d.1, s.mouse.y + d.2)

/-- The server with the cursor where the motion ends. -/
def moved (s : Server) (d : ℤ × ℤ) : Server :=
  s.moveMouse (s.target d).1 (s.target d).2 d.1 d.2

/-- Motions are passed on as such. -/
def Relays (s : Server) : Prop := s.options.relativeMoves = true ∧ s.lockedToScreen = true

instance (s : Server) : Decidable s.Relays := inferInstanceAs (Decidable (_ ∧ _))

/-- After the motion the pending switch is the one after the motion in the mirror. -/
def Commutes (axis : Axis) (c : ℤ) (s : Server) (env : Env) (d : ℤ × ℤ) : Prop :=
  ((s.mirror axis c).onMouseMoveSecondary env (axis.motion d).1 (axis.motion d).2).map
      Server.pending =
    (s.onMouseMoveSecondary env d.1 d.2).map fun s' => s'.pending.mirror axis

/-- The motion decides about a pending switch to the screen and in the direction of `s`, whatever
its timers are, as the motion in the mirror does. -/
def DecisionCommutes (axis : Axis) (c : ℤ) (s : Server) (env : Env) (d : ℤ × ℤ) : Prop :=
  ∀ p : Pending, p.switchScreen = s.pending.switchScreen → p.switchDir = s.pending.switchDir →
    (s.setPending p).Commutes axis c env d

/-- The motion is passed on as such, there is no pending switch, or the cursor ends outside of the
jump zone at the top or bottom edge that the switch is across. -/
def AwayFromPending (s : Server) (env : Env) (d : ℤ × ℤ) : Prop :=
  let i := s.info s.focus.active
  s.Relays ∨ s.pending.switchScreen = none ∨
    match s.pending.switchDir with
    | some .top => (env.jumpZoneSize.natAbs : ℤ) ≤ (s.target d).2 - i.y
    | some .bottom => (env.jumpZoneSize.natAbs : ℤ) ≤ i.y + i.h - 1 - (s.target d).2
    | _ => True

variable {s : Server} {env : Env} {axis : Axis} {c x y : ℤ} {i : ScreenInfo}

@[simp] theorem info_mirror (s : Server) :
    (s.mirror axis c).info (s.mirror axis c).focus.active =
      (s.info s.focus.active).mirror axis c := by
  change (Function.update s.proxies s.focus.active _ s.focus.active).info = _
  rw [Function.update_self]

/-! ### Giving the switch up -/

/-- The cursor left the tap zone in the mirror as well. -/
theorem leftTapZone_mirror (s : Server) :
    (s.mirror axis c).leftTapZone (s.mirror axis c).pending.switchDir =
      s.leftTapZone s.pending.switchDir := by
  have hdir : (s.mirror axis c).pending.switchDir =
      s.pending.switchDir.map (Direction.mirror axis) := rfl
  rw [hdir]
  cases s.pending.switchDir with
  | none => rfl
  | some dir =>
    cases axis <;> cases dir
    all_goals first
      | rfl
      | simp only [Option.map_some, Direction.mirror, leftTapZone, mirror, Mouse.mirror,
          Int.neg_pos, Int.neg_neg_iff_pos]

/-- A position is as far from the edges as in the mirror. -/
theorem inside_mirror_iff (axis : Axis) (c zone : ℤ) (i : ScreenInfo) (p : ℤ × ℤ) :
    ((i.mirror axis c).x + zone ≤ (axis.position c p).1 ∧
      (axis.position c p).1 < (i.mirror axis c).x + (i.mirror axis c).w - zone ∧
      (i.mirror axis c).y + zone ≤ (axis.position c p).2 ∧
      (axis.position c p).2 < (i.mirror axis c).y + (i.mirror axis c).h - zone) ↔
    (i.x + zone ≤ p.1 ∧ p.1 < i.x + i.w - zone ∧ i.y + zone ≤ p.2 ∧ p.2 < i.y + i.h - zone) := by
  cases axis
  · simp only [ScreenInfo.mirror, Axis.position]
    omega
  · simp only [ScreenInfo.mirror, Axis.position]
    omega

/-- The double tap is armed or given up as in the mirror. -/
theorem pending_armSwitchTwoTap_mirror (s : Server) (p : ℤ × ℤ) :
    ((s.mirror axis c).armSwitchTwoTap env (axis.position c p).1 (axis.position c p).2).pending =
      (s.armSwitchTwoTap env p.1 p.2).pending.mirror axis := by
  have hengaged : (s.mirror axis c).pending.twoTapEngaged = s.pending.twoTapEngaged := rfl
  have harmed : (s.mirror axis c).pending.twoTapArmed = s.pending.twoTapArmed := rfl
  have htime : (s.mirror axis c).pending.twoTapTime env = s.pending.twoTapTime env := rfl
  have hdelay : (s.mirror axis c).options.twoTapDelay = s.options.twoTapDelay := rfl
  simp only [armSwitchTwoTap, hengaged, harmed, htime, hdelay, leftTapZone_mirror, info_mirror,
    inside_mirror_iff]
  split_ifs
  all_goals rfl

/-- The switch is given up as in the mirror. -/
theorem pending_noSwitch_mirror (s : Server) (p : ℤ × ℤ) :
    ((s.mirror axis c).noSwitch env (axis.position c p).1 (axis.position c p).2).pending =
      (s.noSwitch env p.1 p.2).pending.mirror axis :=
  congrArg Pending.stopSwitchWait (pending_armSwitchTwoTap_mirror s p)

/-! ### The decision -/

/-- To the left and right the edge of the pending switch is as far away in the mirror. -/
theorem clearWait_mirror (s : Server) (p : ℤ × ℤ) :
    (s.mirror .leftRight c).clearWait env (i.mirror .leftRight c)
        (Axis.position .leftRight c p).1 (Axis.position .leftRight c p).2 =
      s.clearWait env i p.1 p.2 := by
  have hdir : (s.mirror .leftRight c).pending.switchDir =
      s.pending.switchDir.map (Direction.mirror .leftRight) := rfl
  simp only [clearWait, hdir]
  cases s.pending.switchDir with
  | none => rfl
  | some dir =>
    cases dir with
    | top | bottom => rfl
    | left | right =>
      simp only [Option.map_some, Direction.mirror]
      rw [Bool.eq_iff_iff, decide_eq_true_iff, decide_eq_true_iff]
      simp only [ScreenInfo.mirror, Axis.position]
      omega

/-- To the top and bottom it is not in the jump zone there. -/
theorem clearWait_mirror_iff (s : Server) (p : ℤ × ℤ)
    (hinside : i.y ≤ p.2 ∧ p.2 ≤ i.y + i.h - 1) :
    (s.mirror .topBottom c).clearWait env (i.mirror .topBottom c)
        (Axis.position .topBottom c p).1 (Axis.position .topBottom c p).2 =
      s.clearWait env i p.1 p.2 ↔
    match s.pending.switchDir with
    | some .top => (env.jumpZoneSize.natAbs : ℤ) ≤ p.2 - i.y
    | some .bottom => (env.jumpZoneSize.natAbs : ℤ) ≤ i.y + i.h - 1 - p.2
    | _ => True := by
  have hdir : (s.mirror .topBottom c).pending.switchDir =
      s.pending.switchDir.map (Direction.mirror .topBottom) := rfl
  simp only [clearWait, hdir]
  cases s.pending.switchDir with
  | none => exact iff_of_true rfl trivial
  | some dir =>
    cases dir with
    | left | right => exact iff_of_true rfl trivial
    | top | bottom =>
      simp only [Option.map_some, Direction.mirror]
      rw [Bool.eq_iff_iff, decide_eq_true_iff, decide_eq_true_iff]
      simp only [ScreenInfo.mirror, Axis.position]
      omega

/-! ### Motions -/

theorem exitSide_eq_none_iff :
    exitSide i x y = none ↔ i.x ≤ x ∧ x ≤ i.x + i.w - 1 ∧ i.y ≤ y ∧ y ≤ i.y + i.h - 1 := by
  unfold exitSide
  split_ifs
  all_goals
    simp only [true_iff, false_iff]
    omega

/-- The position is on the screen in the mirror as well. -/
theorem exitSide_mirror {p : ℤ × ℤ} (h : exitSide i p.1 p.2 = none) :
    exitSide (i.mirror axis c) (axis.position c p).1 (axis.position c p).2 = none := by
  rw [exitSide_eq_none_iff] at h ⊢
  cases axis
  · simp only [ScreenInfo.mirror, Axis.position]
    omega
  · simp only [ScreenInfo.mirror, Axis.position]
    omega

variable {d : ℤ × ℤ}

/-- The pending switch after a motion that stays inside of a secondary screen. -/
theorem pending_onMouseMoveSecondary (env : Env) (hsecondary : s.focus.active ≠ primaryClient)
    (hinside : exitSide (s.info s.focus.active) (s.target d).1 (s.target d).2 = none) :
    (s.onMouseMoveSecondary env d.1 d.2).map Server.pending =
      some (if s.Relays then s.pending
        else ((s.moved d).leaveBorder env (s.info s.focus.active) (s.target d).1
          (s.target d).2).pending) := by
  have hstay : ∀ (s : Server) (x y dx dy : ℤ),
      (s.stayOnScreen x y dx dy).pending = s.pending := by
    intro s x y dx dy
    simp only [stayOnScreen]
    split_ifs
    · rfl
    · rfl
  have hin : exitSide (s.info s.focus.active) (s.mouse.x + d.1) (s.mouse.y + d.2) = none := hinside
  simp only [onMouseMoveSecondary, if_neg hsecondary, hin]
  by_cases hrelays : s.options.relativeMoves = true ∧ s.lockedToScreen = true
  · rw [if_pos hrelays, if_pos (show s.Relays from hrelays)]
    rfl
  · rw [if_neg hrelays, if_neg (show ¬s.Relays from hrelays), Option.map_some, hstay]
    rfl

/-- The motion in the mirror ends at the position in the mirror. -/
theorem target_mirror (s : Server) :
    (s.mirror axis c).target (axis.motion d) = axis.position c (s.target d) := by
  cases axis
  · refine Prod.ext ?_ rfl
    change c - s.mouse.x + -d.1 = c - (s.mouse.x + d.1)
    omega
  · refine Prod.ext rfl ?_
    change c - s.mouse.y + -d.2 = c - (s.mouse.y + d.2)
    omega

/-- Moving the cursor in the mirror is the mirror of moving it. -/
theorem moved_mirror (s : Server) :
    (s.mirror axis c).moved (axis.motion d) = (s.moved d).mirror axis c := by
  rw [moved, target_mirror]
  cases axis <;> rfl

/-- A decision that is the same in the mirror has the same effect. -/
theorem pending_leaveBorder_mirror (t : Server) (p : ℤ × ℤ)
    (h : t.pending.switchScreen ≠ none →
      (t.mirror axis c).clearWait env (i.mirror axis c) (axis.position c p).1
        (axis.position c p).2 = t.clearWait env i p.1 p.2) :
    ((t.mirror axis c).leaveBorder env (i.mirror axis c) (axis.position c p).1
      (axis.position c p).2).pending = (t.leaveBorder env i p.1 p.2).pending.mirror axis := by
  have hscreen : (t.mirror axis c).pending.switchScreen = t.pending.switchScreen := rfl
  rw [leaveBorder, leaveBorder, hscreen]
  by_cases hnone : t.pending.switchScreen = none
  · rw [if_neg fun hand => hand.1 hnone, if_neg fun hand => hand.1 hnone]
    rfl
  · rw [h hnone]
    split_ifs
    · exact pending_noSwitch_mirror t p
    · rfl

/-- The wait timer is stopped by the decision only. -/
theorem waitTimer_leaveBorder (t : Server) :
    (t.leaveBorder env i x y).pending.waitTimer =
      if t.pending.switchScreen ≠ none ∧ t.clearWait env i x y then false
      else t.pending.waitTimer := by
  rw [leaveBorder]
  split_ifs
  · rfl
  · rfl

/-- A running timer shows the decision about a pending switch. -/
theorem clearWait_eq_of_waitTimer {t t' : Server} {i' : ScreenInfo} {p p' : ℤ × ℤ}
    (hscreen : t.pending.switchScreen ≠ none) (hscreen' : t'.pending.switchScreen ≠ none)
    (htimer : t.pending.waitTimer = true) (htimer' : t'.pending.waitTimer = true)
    (h : (t'.leaveBorder env i' p'.1 p'.2).pending.waitTimer =
      (t.leaveBorder env i p.1 p.2).pending.waitTimer) :
    t'.clearWait env i' p'.1 p'.2 = t.clearWait env i p.1 p.2 := by
  rw [waitTimer_leaveBorder, waitTimer_leaveBorder, htimer, htimer'] at h
  simp only [hscreen, hscreen', ne_eq, not_false_eq_true, true_and] at h
  cases hmirror : t'.clearWait env i' p'.1 p'.2 <;> cases hplain : t.clearWait env i p.1 p.2
  · rfl
  · rw [hmirror, hplain] at h
    cases h
  · rw [hmirror, hplain] at h
    cases h
  · rfl

/-- What it takes that the motion commutes with the reflection. -/
theorem commutes_iff (hsecondary : s.focus.active ≠ primaryClient)
    (hinside : exitSide (s.info s.focus.active) (s.target d).1 (s.target d).2 = none) :
    Commutes axis c s env d ↔
      (s.Relays ∨
        (((s.moved d).mirror axis c).leaveBorder env ((s.info s.focus.active).mirror axis c)
          (axis.position c (s.target d)).1 (axis.position c (s.target d)).2).pending =
        ((s.moved d).leaveBorder env (s.info s.focus.active) (s.target d).1
          (s.target d).2).pending.mirror axis) := by
  have hsecondary' : (s.mirror axis c).focus.active ≠ primaryClient := hsecondary
  have hinside' : exitSide ((s.mirror axis c).info (s.mirror axis c).focus.active)
      ((s.mirror axis c).target (axis.motion d)).1
      ((s.mirror axis c).target (axis.motion d)).2 = none := by
    rw [target_mirror, info_mirror]
    exact exitSide_mirror hinside
  have hplain := congrArg (Option.map (Pending.mirror axis))
    (pending_onMouseMoveSecondary env hsecondary hinside)
  rw [Option.map_map] at hplain
  have hmirror := pending_onMouseMoveSecondary env hsecondary' hinside'
  rw [target_mirror, info_mirror, moved_mirror] at hmirror
  rw [Commutes, hmirror]
  refine (Eq.congr_right hplain).trans ?_
  have hrelays : (s.mirror axis c).Relays ↔ s.Relays := Iff.rfl
  rw [Option.map_some, Option.some.injEq]
  by_cases h : s.Relays
  · rw [if_pos h, if_pos (hrelays.2 h)]
    exact iff_of_true rfl (Or.inl h)
  · rw [if_neg h, if_neg (mt hrelays.1 h), or_iff_right h]

/-- A motion that stays inside of a secondary screen decides about the pending switch as the
motion in the mirror from left to right does.  From top to bottom this is so exactly when the
cursor is away from the edge of the pending switch, on either side of the mirror. -/
theorem onMouseMoveSecondary_mirror (s : Server) (env : Env) (c : ℤ) (d : ℤ × ℤ)
    (hsecondary : s.focus.active ≠ primaryClient)
    (hinside : exitSide (s.info s.focus.active) (s.target d).1 (s.target d).2 = none) :
    DecisionCommutes .leftRight c s env d ∧
      (DecisionCommutes .topBottom c s env d ↔ s.AwayFromPending env d) := by
  have hcommutes : ∀ (axis : Axis) (p : Pending),
      (s.setPending p).Commutes axis c env d ↔ _ := fun axis p =>
    commutes_iff (s := s.setPending p) hsecondary hinside
  have hrows := exitSide_eq_none_iff.1 hinside
  refine ⟨fun p _ _ => (hcommutes _ p).2 (Or.inr ?_), fun h => ?_, fun haway p hscreen hdir =>
    (hcommutes _ p).2 ?_⟩
  · exact pending_leaveBorder_mirror _ _ fun _ => clearWait_mirror _ _
  · -- With the timer running, the pending switch shows the decision.
    by_contra hnot
    rw [AwayFromPending, not_or, not_or] at hnot
    obtain ⟨hrelays, hscreen, hnear⟩ := hnot
    have hpending := (hcommutes _ { s.pending with waitTimer := true }).1 (h _ rfl rfl)
    have htimer := congrArg Pending.waitTimer (hpending.resolve_left hrelays)
    exact hnear ((clearWait_mirror_iff (c := c)
      ((s.setPending { s.pending with waitTimer := true }).moved d) (s.target d)
      ⟨hrows.2.2.1, hrows.2.2.2⟩).1
        (clearWait_eq_of_waitTimer hscreen hscreen rfl rfl htimer))
  · rcases haway with hrelays | hnone | hfar
    · exact Or.inl hrelays
    · exact Or.inr (pending_leaveBorder_mirror _ _ fun hne => absurd (hscreen.trans hnone) hne)
    · refine Or.inr (pending_leaveBorder_mirror _ _ fun _ =>
        (clearWait_mirror_iff ((s.setPending p).moved d) (s.target d)
          ⟨hrows.2.2.1, hrows.2.2.2⟩).2 ?_)
      rw [← hdir] at hfar
      exact hfar

/-- A server that waits to switch across the bottom of a screen, with the cursor in the jump zone
there. -/
def atBottom : Server :=
  { blank {} ⟨"p", true⟩ ⟨0, 0, 100, 100, 50, 50⟩ false with
    focus := ⟨1, none, 0, 0⟩
    pending := { noPending with
      switchScreen := some 0, switchDir := some .bottom, waitTimer := true }
    mouse := ⟨50, 94, 0, 0, 0, 0⟩ }

theorem onMouseMoveSecondary_mirror_atBottom :
    DecisionCommutes .leftRight 99 atBottom { jumpZoneSize := 10 } (0, 1) ∧
      (DecisionCommutes .topBottom 99 atBottom { jumpZoneSize := 10 } (0, 1) ↔
        atBottom.AwayFromPending { jumpZoneSize := 10 } (0, 1)) :=
  onMouseMoveSecondary_mirror atBottom { jumpZoneSize := 10 } 99 (0, 1) (by decide) (by decide)

/-- At the bottom the switch is given up, and in the mirror at the top it is not. -/
theorem not_commutes_atBottom :
    (atBottom.onMouseMoveSecondary { jumpZoneSize := 10 } 0 1).map (fun s => s.pending.waitTimer) =
        some false ∧
      ((atBottom.mirror .topBottom 99).onMouseMoveSecondary { jumpZoneSize := 10 } 0 (-1)).map
        (fun s => s.pending.waitTimer) = some true ∧
      ¬Commutes .topBottom 99 atBottom { jumpZoneSize := 10 } (0, 1) := by
  have hplain : (atBottom.onMouseMoveSecondary { jumpZoneSize := 10 } 0 1).map
      (fun s => s.pending.waitTimer) = some false := by decide
  have hmirror : ((atBottom.mirror .topBottom 99).onMouseMoveSecondary { jumpZoneSize := 10 } 0
      (-1)).map (fun s => s.pending.waitTimer) = some true := by decide
  refine ⟨hplain, hmirror, fun h => ?_⟩
  have htimer := congrArg (Option.map Pending.waitTimer) h
  rw [Option.map_map, Option.map_map] at htimer
  exact absurd ((hmirror.symm.trans htimer).trans hplain) (by decide)

end Server

end InputLeap
