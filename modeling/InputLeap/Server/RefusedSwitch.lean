import InputLeap.Server.Focus
import InputLeap.Server.Remembered

/-!
# A switch that the primary screen refuses

`switchScreen` moves the position, forgets the motions and the pending switch, and only then
leaves the active screen.  When that fails it returns with these changes.

## Main definitions

* `Server.Untouched` : the active screen, the position, the motions and the pending switch stay.

## Main results

* `untouched_switchScreen_iff` : a refused switch changes nothing exactly if the cursor rests at
  the position asked for and no switch is pending.
* `not_untouched_switchScreen` : it can change something.
-/

namespace InputLeap

theorem Pending.stopSwitch_eq_self_iff {p : Pending} :
    p.stopSwitch = p ↔ p.switchScreen = none := by
  constructor
  · intro h
    rw [← h]
    exact p.stopSwitch_switchScreen
  · intro h
    exact if_pos h

namespace Server

/-- The active screen, the position, the motions and the pending switch are as before, and so the
cursor is still on the active screen. -/
structure Untouched (s s' : Server) : Prop where
  active : s'.focus.active = s.focus.active
  mouse : s'.mouse = s.mouse
  pending : s'.pending = s.pending
  onScreen : s.OnScreen s.focus.active s.position → s'.OnScreen s'.focus.active s'.position

variable {s : Server} {env : Env} {dst : ClientID} {x y : ℤ} {forScreensaver : Bool}

/-- What is left of a switch that is refused. -/
theorem switchScreen_of_refused (hdst : s.focus.active ≠ dst)
    (hrefused : canLeave env s.focus.active = false) :
    s.switchScreen env dst x y forScreensaver =
      (s.stopSwitch.warp x y).leaveClient env s.focus.active := by
  have hfocus : (s.stopSwitch.warp x y).focus.active = s.focus.active := rfl
  simp only [switchScreen, hfocus, if_neg hdst, hrefused, Bool.not_false, if_true]

/-- **A refused switch changes nothing** exactly if the cursor rests at the position that is asked
for and no switch is pending. -/
theorem untouched_switchScreen_iff (hdst : s.focus.active ≠ dst)
    (hrefused : canLeave env s.focus.active = false) :
    Untouched s (s.switchScreen env dst x y forScreensaver) ↔
      s.mouse = ⟨x, y, 0, 0, 0, 0⟩ ∧ s.pending.switchScreen = none := by
  rw [switchScreen_of_refused hdst hrefused]
  constructor
  · intro h
    have hmouse : (⟨x, y, 0, 0, 0, 0⟩ : Mouse) = s.mouse := h.mouse
    have hpending : s.pending.stopSwitch = s.pending := h.pending
    exact ⟨hmouse.symm, Pending.stopSwitch_eq_self_iff.1 hpending⟩
  · rintro ⟨hmouse, hpending⟩
    have hposition : s.mouse.x = x ∧ s.mouse.y = y := by
      rw [hmouse]
      exact ⟨rfl, rfl⟩
    refine ⟨rfl, hmouse.symm, Pending.stopSwitch_eq_self_iff.2 hpending, fun hon => ?_⟩
    obtain ⟨rfl, rfl⟩ := hposition
    exact hon

/-- The client `b` connects. -/
def secondConnects : List (Env × Event) :=
  [({}, .clientConnected ⟨"b", true⟩ ⟨0, 0, 100, 100, 50, 50⟩), ({}, .adoptClient 1)]

/-- A hotkey asks for `b` while the primary screen cannot be left, and the cursor moves to `b`'s
position: it had not been there. -/
theorem untouched_switchScreen_iff_secondConnects :
    ∃ s : Server, lts.Reachable s ∧
      ¬Untouched s (s.switchScreen { canLeave := false } 1 10 20 false) := by
  have hrun : (run {} twoScreens ⟨"p", true⟩ ⟨0, 0, 100, 100, 50, 50⟩ false secondConnects).map
      (fun s => decide (s.focus.active = primaryClient ∧ s.mouse.x = 0)) = some true := by
    decide +kernel
  obtain ⟨s, hs, hmouse⟩ := Option.map_eq_some_iff.1 hrun
  obtain ⟨hactive, hx⟩ := of_decide_eq_true hmouse
  refine ⟨s, reachable_of_run hs, fun h => ?_⟩
  have hdst : s.focus.active ≠ 1 := by
    rw [hactive]
    decide
  have hrefused : canLeave { canLeave := false } s.focus.active = false := by
    rw [hactive]
    rfl
  have hposition := congrArg Mouse.x ((untouched_switchScreen_iff hdst hrefused).1 h).1
  rw [hx] at hposition
  cases hposition

/-- The position changes in that switch. -/
theorem not_untouched_switchScreen :
    ¬∀ (s : Server) (env : Env) (dst : ClientID) (x y : ℤ) (forScreensaver : Bool),
      lts.Reachable s → s.focus.active ≠ dst → canLeave env s.focus.active = false →
      Untouched s (s.switchScreen env dst x y forScreensaver) := by
  intro h
  have hrun : (run {} twoScreens ⟨"p", true⟩ ⟨0, 0, 100, 100, 50, 50⟩ false secondConnects).map
      (fun s => decide (s.focus.active = primaryClient ∧ s.mouse.x = 0 ∧
        (s.switchScreen { canLeave := false } 1 10 20 false).mouse.x = 10)) = some true := by
    decide +kernel
  obtain ⟨s, hs, hmouse⟩ := Option.map_eq_some_iff.1 hrun
  obtain ⟨hactive, hbefore, hafter⟩ := of_decide_eq_true hmouse
  have hdst : s.focus.active ≠ 1 := by
    rw [hactive]
    decide
  have hrefused : canLeave { canLeave := false } s.focus.active = false := by
    rw [hactive]
    rfl
  have hmouse := (h s { canLeave := false } 1 10 20 false (reachable_of_run hs) hdst hrefused).mouse
  rw [hmouse, hbefore] at hafter
  cases hafter

end Server

end InputLeap
