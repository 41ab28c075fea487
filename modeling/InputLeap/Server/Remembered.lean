import InputLeap.Server.Crossing
import InputLeap.Server.Delivery
import InputLeap.Server.PendingSwitch

/-!
# Remembered positions

The positions that the server remembers for later: where the cursor was on each screen, where it
was when the screen saver started, and where a switch that waits goes to.  They outlive the shapes
that they were on.

## Main definitions

* `Server.recalls` : the remembered position that an event passes to `switchScreen`.
* `Server.Fixed s s'`, `Server.Placed s s'` : from `s` to `s'` no position changes, or the cursor
  goes to a position on a screen.
* `Server.Recollects s s'` : the positions remembered in `s'` were remembered in `s` or lie on
  their screens.

## Main results

* `switchScreen_of_recalls` : the event does switch to that position.
* `Recollects.of_placed` : an operation recollects if it places the cursor on a screen.
-/

namespace InputLeap

namespace Server

/-- Where the cursor is. -/
def position (s : Server) : ℤ × ℤ := (s.mouse.x, s.mouse.y)

/-- Where the cursor was on the screen (`getJumpCursorPos`). -/
def jumpCursorPos (s : Server) (c : ClientID) : ℤ × ℤ := (s.proxies c).jumpCursorPos

/-- The position is on the screen. -/
def OnScreen (s : Server) (c : ClientID) (p : ℤ × ℤ) : Prop := (s.info c).Contains p.1 p.2

instance (s : Server) (c : ClientID) (p : ℤ × ℤ) : Decidable (s.OnScreen c p) :=
  inferInstanceAs (Decidable (ScreenInfo.Contains _ _ _))

/-! ### What is recalled -/

/-- The screen that a hotkey switches to. -/
def jumpsTo (s : Server) (env : Env) : Event → Option ClientID
  | .switchToScreen screen => s.registry.clients[screen]?
  | .toggleScreen =>
    let current := s.getName s.focus.active
    let screens := s.registry.clients.toList
    if s.registry.clients.contains current then
      ((screens.find? fun e => current < e.1).or screens.head?).map Prod.snd
    else none
  | .switchInDirection dir =>
    (s.getNeighbor env.fuel s.focus.active dir s.position).join.map Prod.fst
  | _ => none

/-- The position that `jumpToScreen` recalls. -/
def jumpPosition (s : Server) (c : ClientID) : ℤ × ℤ :=
  if c = s.focus.active then s.position else s.jumpCursorPos c

/-- The position that the screen saver goes back to on the screen. -/
def saverPosition (s : Server) (env : Env) (c : ClientID) : ℤ × ℤ :=
  let i := s.info c
  let zone := getJumpZoneSize env c
  (clampSaver s.focus.xSaver i.x i.w zone, clampSaver s.focus.ySaver i.y i.h zone)

/-- The remembered position that an event passes to `switchScreen`, and the screen. -/
def recalls (s : Server) (env : Env) : Event → Option (ClientID × ℤ × ℤ)
  | .switchWait =>
    if s.pending.waitTimer ∧ !s.isLockedToScreen env then
      s.pending.switchScreen.map fun c => (c, s.pending.waitX, s.pending.waitY)
    else none
  | .screensaver activated =>
    if activated then none
    else
      (s.focus.activeSaver.filter fun c => c != primaryClient).map fun c =>
        (c, s.saverPosition env c)
  | e => (s.jumpsTo env e).map fun c => (c, s.jumpPosition c)

variable {s s' s'' : Server} {env : Env} {c d dst : ClientID} {x y : ℤ}

/-- Remembers where the cursor is on the active screen. -/
def noteCursor (s : Server) : Server :=
  s.setProxy s.focus.active { s.proxies s.focus.active with jumpCursorPos := s.position }

theorem info_setProxy {p : Proxy} (hp : p.info = s.info c) : (s.setProxy c p).info = s.info := by
  funext d
  unfold info setProxy
  by_cases hd : d = c
  · subst hd
    simp only [Function.update_self]
    exact hp
  · simp only [Function.update_of_ne hd]

theorem jumpCursorPos_setProxy (s : Server) (c : ClientID) (p : Proxy) :
    (s.setProxy c p).jumpCursorPos = Function.update s.jumpCursorPos c p.jumpCursorPos := by
  funext d
  unfold jumpCursorPos setProxy
  by_cases hd : d = c
  · subst hd
    simp
  · simp only [Function.update_of_ne hd]

theorem jumpToScreen_eq (s : Server) (env : Env) (c : ClientID) :
    s.jumpToScreen env c =
      s.noteCursor.switchScreen env c (s.jumpPosition c).1 (s.jumpPosition c).2 false := by
  have hposition : s.noteCursor.jumpCursorPos c = s.jumpPosition c := by
    unfold noteCursor jumpPosition
    rw [jumpCursorPos_setProxy]
    by_cases hc : c = s.focus.active
    · subst hc
      simp
    · rw [Function.update_of_ne hc, if_neg hc]
  rw [← hposition]
  rfl

theorem step_of_jumpsTo {e : Event} (h : s.jumpsTo env e = some c) :
    s.step env e = some (s.jumpToScreen env c) := by
  cases e with
  | switchToScreen screen =>
    have hc : s.registry.clients[screen]? = some c := h
    simp only [step, handleSwitchToScreenEvent, hc]
  | toggleScreen =>
    simp only [jumpsTo] at h
    split_ifs at h with hcontains
    obtain ⟨⟨name, c'⟩, hfound, rfl⟩ := Option.map_eq_some_iff.1 h
    simp only [step, handleToggleScreenEvent, hcontains, if_true, hfound]
  | switchInDirection dir =>
    obtain ⟨⟨c', q⟩, hfound, rfl⟩ := Option.map_eq_some_iff.1 h
    have hnext := Option.join_eq_some_iff.1 hfound
    have hposition : s.getNeighbor env.fuel s.focus.active dir (s.mouse.x, s.mouse.y) =
        some (some (c', q)) := hnext
    simp only [step, handleSwitchInDirectionEvent, hposition, Option.map_some]
  | _ => cases h

/-- Remembers the position that the screen saver goes back to. -/
def noteSaver (s : Server) (env : Env) (c : ClientID) : Server :=
  s.setFocus { s.focus with
    xSaver := (s.saverPosition env c).1
    ySaver := (s.saverPosition env c).2 }

theorem leaveSaver_eq (env : Env) (hsaver : s.focus.activeSaver = some c)
    (hc : c ≠ primaryClient) :
    s.leaveSaver env = (s.noteSaver env c).switchScreen env c (s.saverPosition env c).1
      (s.saverPosition env c).2 false := by
  unfold leaveSaver
  split
  · rename_i hnone
    rw [hsaver] at hnone
    cases hnone
  · rename_i screen hscreen
    obtain rfl : c = screen := Option.some.inj (hsaver.symm.trans hscreen)
    rw [if_neg hc]
    rfl

theorem screens_foldl_notice (k : ClientID → Notice) (l : List ClientID) (s : Server) :
    (l.foldl (fun s c => s.notice (k c)) s).log.screens = s.log.screens := by
  induction l generalizing s with
  | nil => rfl
  | cons c l ih => exact ih _

/-- **The event switches to the position that it recalls**, from a state with the same shapes. -/
theorem switchScreen_of_recalls {e : Event} (h : s.recalls env e = some (c, x, y)) :
    ∃ s₁ s' : Server, s₁.info = s.info ∧ s.step env e = some s' ∧
      s'.log.screens = (s₁.switchScreen env c x y false).log.screens ∧
      s'.focus.active = (s₁.switchScreen env c x y false).focus.active := by
  have hjump (hj : (s.jumpsTo env e).map (fun c => (c, s.jumpPosition c)) = some (c, x, y)) :
      ∃ s₁ s' : Server, s₁.info = s.info ∧ s.step env e = some s' ∧
        s'.log.screens = (s₁.switchScreen env c x y false).log.screens ∧
        s'.focus.active = (s₁.switchScreen env c x y false).focus.active := by
    obtain ⟨c', hc, heq⟩ := Option.map_eq_some_iff.1 hj
    obtain ⟨rfl, hp⟩ := Prod.mk.inj heq
    have hstep : s.step env e = some (s.noteCursor.switchScreen env c' x y false) := by
      rw [step_of_jumpsTo hc, jumpToScreen_eq, hp]
    exact ⟨s.noteCursor, _, info_setProxy rfl, hstep, rfl, rfl⟩
  cases e with
  | switchWait =>
    simp only [recalls] at h
    split_ifs at h with hfires
    obtain ⟨htimer, hlocked⟩ := hfires
    obtain ⟨c', hc, heq⟩ := Option.map_eq_some_iff.1 h
    cases heq
    have hstep : s.step env .switchWait =
        some (s.switchScreen env c s.pending.waitX s.pending.waitY false) := by
      simp only [step, handleSwitchWaitEvent, htimer, if_true]
      rw [if_neg (by simpa using hlocked), hc]
      rfl
    exact ⟨s, _, rfl, hstep, rfl, rfl⟩
  | screensaver activated =>
    simp only [recalls] at h
    split_ifs at h with hon
    obtain ⟨c', hc, heq⟩ := Option.map_eq_some_iff.1 h
    obtain ⟨rfl, hp⟩ := Prod.mk.inj heq
    obtain ⟨hsaver, hne⟩ := Option.filter_eq_some_iff.1 hc
    have hleave := leaveSaver_eq env hsaver (by simpa using hne)
    rw [hp] at hleave
    refine ⟨s.noteSaver env c', _, rfl, rfl, ?_, ?_⟩
    · simp only [onScreensaver, if_neg hon]
      rw [screens_foldl_notice, hleave]
      rfl
    · simp only [onScreensaver, if_neg hon]
      rw [(Still.foldl (fun s c => still_notice s _) _ _).focus, hleave]
      rfl
  | _ => exact hjump h

/-! ### Operations that touch no position -/

/-- The shapes, the cursor and where it was on each screen are as before. -/
structure Fixed (s s' : Server) : Prop where
  info : s'.info = s.info
  jump : s'.jumpCursorPos = s.jumpCursorPos
  position : s'.position = s.position

namespace Fixed

theorem refl (s : Server) : Fixed s s := ⟨rfl, rfl, rfl⟩

theorem trans (h : Fixed s s') (h' : Fixed s' s'') : Fixed s s'' :=
  ⟨h'.info.trans h.info, h'.jump.trans h.jump, h'.position.trans h.position⟩

theorem foldl {α : Type*} {f : Server → α → Server} (hf : ∀ s a, Fixed s (f s a)) (l : List α)
    (s : Server) : Fixed s (l.foldl f s) := by
  induction l generalizing s with
  | nil => exact refl s
  | cons a l ih => exact (hf s a).trans (ih _)

end Fixed

theorem onScreen_iff (h : s'.info = s.info) (c : ClientID) (p : ℤ × ℤ) :
    s'.OnScreen c p ↔ s.OnScreen c p := by
  unfold OnScreen
  rw [h]

/-- The cursor stays, or goes to a position on a screen. -/
def Placed (s s' : Server) : Prop :=
  s'.focus.active = s.focus.active ∧ Fixed s s' ∨
    ∃ p : ℤ × ℤ, Fixed (s.warp p.1 p.2) s' ∧ s.OnScreen s'.focus.active p

theorem Placed.trans_fixed (h : Placed s s') (hf : Fixed s' s'')
    (hactive : s''.focus.active = s'.focus.active) : Placed s s'' := by
  obtain ⟨hsame, hfixed⟩ | ⟨p, hfixed, hon⟩ := h
  · exact .inl ⟨hactive.trans hsame, hfixed.trans hf⟩
  · refine .inr ⟨p, hfixed.trans hf, ?_⟩
    rw [hactive]
    exact hon

theorem Fixed.trans_placed (hf : Fixed s s') (hactive : s'.focus.active = s.focus.active)
    (h : Placed s' s'') : Placed s s'' := by
  obtain ⟨hsame, hfixed⟩ | ⟨p, hfixed, hon⟩ := h
  · exact .inl ⟨hsame.trans hactive, hf.trans hfixed⟩
  · have hwarp : Fixed (s.warp p.1 p.2) (s'.warp p.1 p.2) := ⟨hf.info, hf.jump, rfl⟩
    exact .inr ⟨p, hwarp.trans hfixed, (onScreen_iff hf.info _ _).1 hon⟩

theorem fixed_setClientClipboard (s : Server) (c : ClientID) (id : ClipboardID)
    (cc : ClientClipboard) : Fixed s (s.setClientClipboard c id cc) := by
  refine ⟨info_setProxy rfl, ?_, rfl⟩
  rw [setClientClipboard, jumpCursorPos_setProxy]
  exact Function.update_eq_self c s.jumpCursorPos

theorem fixed_setClipboardDirty (s : Server) (c : ClientID) (id : ClipboardID) (dirty : Bool) :
    Fixed s (s.setClipboardDirty c id dirty) := fixed_setClientClipboard s c id _

theorem fixed_grabClipboard (s : Server) (c : ClientID) (id : ClipboardID) :
    Fixed s (s.grabClipboard c id) := by
  have hcall : Fixed s (s.callScreen (.grabClipboard c id)) := ⟨rfl, rfl, rfl⟩
  exact hcall.trans (fixed_setClientClipboard _ c id _)

theorem fixed_setClipboard (s : Server) (c : ClientID) (id : ClipboardID) (clipboard : Clipboard) :
    Fixed s (s.setClipboard c id clipboard) := by
  simp only [setClipboard]
  split_ifs
  · exact (fixed_setClientClipboard s c id _).trans ⟨rfl, rfl, rfl⟩
  · exact .refl s

theorem fixed_onClipboardChanged (s : Server) (env : Env) (sender : ClientID) (id : ClipboardID)
    (seqNum : ℕ) : Fixed s (s.onClipboardChanged env sender id seqNum) := by
  simp only [onClipboardChanged]
  split_ifs
  · exact .refl s
  · split
    · exact .refl s
    · split_ifs
      · exact ⟨rfl, rfl, rfl⟩
      · exact ⟨rfl, rfl, rfl⟩
      · refine Fixed.trans ?_ (fixed_setClipboard _ _ _ _)
        refine Fixed.trans ?_ (Fixed.foldl (fun s c => fixed_setClipboardDirty s c _ _) _ _)
        exact ⟨rfl, rfl, rfl⟩

theorem fixed_sendPrimaryClipboards (s : Server) (env : Env) :
    Fixed s (s.sendPrimaryClipboards env) := by
  refine Fixed.foldl (fun s id => ?_) _ s
  split_ifs
  · exact fixed_onClipboardChanged s env _ _ _
  · exact .refl s

theorem fixed_sendClipboards (s : Server) : Fixed s s.sendClipboards := by
  refine Fixed.foldl (fun s id => ?_) _ s
  split_ifs
  · exact .refl s
  · exact fixed_setClipboard s _ _ _

theorem fixed_enterScreen (s : Server) (env : Env) (dst : ClientID) (x y : ℤ)
    (forScreensaver : Bool) : Fixed s (s.enterScreen env dst x y forScreensaver) := by
  have hnotice (s : Server) (k : Notice) : Fixed s (s.notice k) := ⟨rfl, rfl, rfl⟩
  simp only [enterScreen]
  refine Fixed.trans ?_ (hnotice _ _)
  split_ifs
  · refine Fixed.trans ?_ (fixed_sendClipboards _)
    exact ⟨rfl, rfl, rfl⟩
  · exact ⟨rfl, rfl, rfl⟩

/-- A switch moves the cursor and nothing else that is remembered. -/
theorem fixed_switchScreen (s : Server) (env : Env) (dst : ClientID) (x y : ℤ)
    (forScreensaver : Bool) :
    Fixed (s.warp x y) (s.switchScreen env dst x y forScreensaver) := by
  simp only [switchScreen]
  split_ifs
  · exact ⟨rfl, rfl, rfl⟩
  · exact ⟨rfl, rfl, rfl⟩
  · refine Fixed.trans ?_ (fixed_enterScreen _ env dst x y forScreensaver)
    refine Fixed.trans ?_ (fixed_sendPrimaryClipboards _ env)
    exact ⟨rfl, rfl, rfl⟩
  · refine Fixed.trans ?_ (fixed_enterScreen _ env dst x y forScreensaver)
    exact ⟨rfl, rfl, rfl⟩

theorem fixed_handleClipboardGrabbed (s : Server) (grabber : ClientID) (id : ClipboardID)
    (seqNum : ℕ) : Fixed s (s.handleClipboardGrabbed grabber id seqNum) := by
  simp only [handleClipboardGrabbed]
  split_ifs
  · exact .refl s
  · exact .refl s
  · exact .refl s
  · have hset (info : ClipboardID → ClipboardInfo) : Fixed s { s with clipboards := info } :=
      ⟨rfl, rfl, rfl⟩
    refine (hset _).trans (Fixed.foldl (fun s c => ?_) _ _)
    split_ifs
    · exact fixed_setClipboardDirty s c _ _
    · exact fixed_grabClipboard s c _

theorem fixed_handleClipboardChanged (s : Server) (env : Env) (c : ClientID) (id : ClipboardID)
    (seqNum : ℕ) : Fixed s (s.handleClipboardChanged env c id seqNum) := by
  simp only [handleClipboardChanged]
  split_ifs
  · exact .refl s
  · exact fixed_onClipboardChanged s env c id seqNum

theorem fixed_endFilePaste (s : Server) (name : String) (paste : String × FilePaste) :
    Fixed s (s.endFilePaste name paste) := by
  simp only [endFilePaste]
  split_ifs
  · split <;> exact ⟨rfl, rfl, rfl⟩
  · exact ⟨rfl, rfl, rfl⟩
  · exact .refl s

theorem fixed_filePasteRequested (s : Server) (c : ClientID) (request : FilePasteRequest) :
    Fixed s (s.filePasteRequested c request) := by
  simp only [filePasteRequested]
  split <;> exact ⟨rfl, rfl, rfl⟩

theorem fixed_filePasteStatus (s : Server) (c : ClientID) (status : FilePasteStatus) :
    Fixed s (s.filePasteStatus c status) := by
  simp only [filePasteStatus]
  split
  · exact .refl s
  · split_ifs
    · exact .refl s
    all_goals
      split <;> exact ⟨rfl, rfl, rfl⟩

theorem fixed_removeClient (s : Server) (c : ClientID) : Fixed s (s.removeClient c) := by
  simp only [removeClient]
  split_ifs
  · exact .refl s
  · refine Fixed.trans ?_ (Fixed.foldl (fun s p => fixed_endFilePaste s _ p) _ _)
    exact ⟨rfl, rfl, rfl⟩

theorem fixed_noSwitch (s : Server) (env : Env) (x y : ℤ) : Fixed s (s.noSwitch env x y) := by
  simp only [noSwitch, armSwitchTwoTap]
  split_ifs <;> exact ⟨rfl, rfl, rfl⟩

theorem fixed_isSwitchOkay (s : Server) (env : Env) (newScreen : Option ClientID)
    (dir : Direction) (x y xActive yActive : ℤ) :
    Fixed s (s.isSwitchOkay env newScreen dir x y xActive yActive).1 := by
  cases newScreen with
  | none => exact ⟨rfl, rfl, rfl⟩
  | some c =>
    have hprepare : Fixed s (s.setPending (s.prepareSwitch env c dir x y)) := ⟨rfl, rfl, rfl⟩
    refine isSwitchOkay_induction hprepare fun s' h => ?_
    exact h.trans ⟨rfl, rfl, rfl⟩

theorem fixed_tryEdge {dir : Direction} {p : ℤ × ℤ} {xActive yActive : ℤ}
    {t : Option (ClientID × ℤ × ℤ)} (h : s.tryEdge env dir p xActive yActive = some (s', t)) :
    Fixed s s' := by
  obtain ⟨r, -, h⟩ := Option.map_eq_some_iff.1 h
  obtain ⟨rfl, -⟩ := Prod.mk.inj h
  have hnote : Fixed s (s.noteMapped r) := by
    cases r <;> exact ⟨rfl, rfl, rfl⟩
  exact hnote.trans (fixed_isSwitchOkay _ env _ _ _ _ _ _)

/-! ### What is remembered after an operation -/

/-- The screens that the server can come to refer to. -/
def Known (s : Server) (c : ClientID) : Prop :=
  s.Target c ∨ s.focus.active = c ∨ c ∈ s.registry.waiting

/-- A wait that runs is one that ran before, or goes to a position on its screen. -/
def WaitKept (s s' : Server) : Prop :=
  s'.pending.waitTimer = true →
    (s.pending.waitTimer = true ∧ s'.options.waitDelay = s.options.waitDelay ∧
      s'.pending.switchScreen = s.pending.switchScreen ∧
      s'.pending.waitX = s.pending.waitX ∧ s'.pending.waitY = s.pending.waitY) ∨
    0 < s'.options.waitDelay ∧ ∃ c, s'.pending.switchScreen = some c ∧
      s.OnScreen c (s'.pending.waitX, s'.pending.waitY)

/-- A wait that runs has a screen to go to, and switches are delayed. -/
def Waits (s : Server) : Prop :=
  s.pending.waitTimer = true → 0 < s.options.waitDelay ∧ s.pending.switchScreen ≠ none

/-- The positions that are remembered afterwards were remembered before or lie on their screens,
the shapes of which are as before. -/
structure Recollects (s s' : Server) : Prop where
  info : s'.info = s.info
  next : s'.registry.next = s.registry.next
  links : s.config.WellLinked → s'.config.WellLinked
  known : ∀ c, s'.Known c → s.Known c
  jump : ∀ c, s'.registry.Registered c →
    (s.registry.Registered c ∧ s'.jumpCursorPos c = s.jumpCursorPos c) ∨
    (c = s.focus.active ∧ s'.jumpCursorPos c = s.position) ∨ s.OnScreen c (s'.jumpCursorPos c)
  position : (s'.focus.active = s.focus.active ∧ s'.position = s.position) ∨
    s.OnScreen s'.focus.active s'.position
  wait : WaitKept s s'

theorem Calmer.waitKept (h : Calmer s s') : WaitKept s s' := fun htimer => .inl (h.waits htimer)

theorem WaitKept.waits (h : WaitKept s s') (hw : Waits s) : Waits s' := by
  intro htimer
  obtain ⟨ht, hd, hs, -⟩ | ⟨hd, c, hc, -⟩ := h htimer
  · rw [hd, hs]
    exact hw ht
  · exact ⟨hd, by simp [hc]⟩

theorem WaitKept.trans (h : WaitKept s s') (hinfo : s'.info = s.info) (h' : WaitKept s' s'') :
    WaitKept s s'' := by
  intro htimer
  obtain ⟨ht, hd, hs, hx, hy⟩ | ⟨hd, c, hc, hp⟩ := h' htimer
  · obtain ⟨ht', hd', hs', hx', hy'⟩ | ⟨hd', c, hc, hp⟩ := h ht
    · exact .inl ⟨ht', hd.trans hd', hs.trans hs', hx.trans hx', hy.trans hy'⟩
    · refine .inr ⟨hd.symm ▸ hd', c, hs.trans hc, ?_⟩
      rw [hx, hy]
      exact hp
  · exact .inr ⟨hd, c, hc, (onScreen_iff hinfo c _).1 hp⟩

namespace Recollects

theorem refl (s : Server) : Recollects s s :=
  ⟨rfl, rfl, fun h => h, fun _ h => h, fun _ h => .inl ⟨h, rfl⟩, .inl ⟨rfl, rfl⟩,
    (Calmer.refl s).waitKept⟩

theorem trans (h : Recollects s s') (h' : Recollects s' s'') : Recollects s s'' where
  info := h'.info.trans h.info
  next := h'.next.trans h.next
  links hlinks := h'.links (h.links hlinks)
  known c hc := h.known c (h'.known c hc)
  jump c hc := by
    obtain ⟨hreg, hsame⟩ | ⟨hactive, hposition⟩ | hon := h'.jump c hc
    · rw [hsame]
      exact h.jump c hreg
    · obtain ⟨hfocus, hsame⟩ | hon := h.position
      · exact .inr (.inl ⟨hactive.trans hfocus, hposition.trans hsame⟩)
      · refine .inr (.inr ?_)
        rw [hposition, hactive]
        exact hon
    · exact .inr (.inr ((onScreen_iff h.info c _).1 hon))
  position := by
    obtain ⟨hfocus, hsame⟩ | hon := h'.position
    · rw [hfocus, hsame]
      exact h.position
    · exact .inr ((onScreen_iff h.info _ _).1 hon)
  wait := h.wait.trans h.info h'.wait

/-- A list of operations that may depend on what they leave as it is. -/
theorem foldl {α : Type*} {P : Server → Prop} {f : Server → α → Server}
    (hP : ∀ s s', Recollects s s' → P s → P s') (hf : ∀ s a, P s → Recollects s (f s a))
    (l : List α) {s : Server} (hs : P s) : Recollects s (l.foldl f s) := by
  induction l generalizing s with
  | nil => exact refl s
  | cons a l ih => exact (hf s a hs).trans (ih (hP _ _ (hf s a hs) hs))

/-- Handling a motion, a hotkey or the screen saver. -/
theorem of_moved (hconfig : s'.config = s.config) (hm : Moved s s') (hinfo : s'.info = s.info)
    (hjump : ∀ c, s'.jumpCursorPos c = s.jumpCursorPos c ∨
      c = s.focus.active ∧ s'.jumpCursorPos c = s.position)
    (hposition : (s'.focus.active = s.focus.active ∧ s'.position = s.position) ∨
      s.OnScreen s'.focus.active s'.position)
    (hwait : WaitKept s s') : Recollects s s' where
  info := hinfo
  next := by rw [hm.registry]
  links hlinks := by rwa [hconfig]
  known c hc := by
    obtain (hreg | hpending | hsaver | rfl) | hactive | hwaiting := hc
    · rw [hm.registry] at hreg
      exact .inl (.inl hreg)
    · obtain hreg | hold := hm.pending c hpending
      · exact .inl (.inl hreg)
      · exact .inl (.inr (.inl hold))
    · obtain rfl | hold := hm.saver c hsaver
      · exact .inr (.inl rfl)
      · exact .inl (.inr (.inr (.inl hold)))
    · exact .inl (.inr (.inr (.inr rfl)))
    · obtain ⟨hf, -⟩ | ⟨dst, hdst, hf, -⟩ := hm.cursor
      · exact .inr (.inl (hf.symm.trans hactive))
      · obtain rfl : dst = c := hf.symm.trans hactive
        exact .inl hdst
    · rw [hm.registry] at hwaiting
      exact .inr (.inr hwaiting)
  jump c hc := by
    rw [hm.registry] at hc
    obtain hsame | hnoted := hjump c
    · exact .inl ⟨hc, hsame⟩
    · exact .inr (.inl hnoted)
  position := hposition
  wait := hwait

/-- The same, where nothing is noted about the screens. -/
theorem of_placed (hconfig : s'.config = s.config) (hm : Moved s s') (hp : Placed s s')
    (hwait : WaitKept s s') : Recollects s s' := by
  obtain ⟨hsame, hfixed⟩ | ⟨p, hfixed, hon⟩ := hp
  · exact of_moved hconfig hm hfixed.info (fun c => .inl (congrFun hfixed.jump c))
      (.inl ⟨hsame, hfixed.position⟩) hwait
  · refine of_moved hconfig hm hfixed.info (fun c => .inl (congrFun hfixed.jump c)) (.inr ?_) hwait
    rw [hfixed.position]
    exact hon

/-- Handling what concerns no position. -/
theorem of_fixed (hs : Still s s') (hf : Fixed s s') : Recollects s s' :=
  of_placed hs.config hs.aimed.moved (.inl ⟨by rw [hs.focus], hf⟩) hs.calmer.waitKept

end Recollects

theorem recollects_notice (s : Server) (k : Notice) : Recollects s (s.notice k) :=
  .of_fixed (still_notice s k) ⟨rfl, rfl, rfl⟩

theorem recollects_sendOptions (s : Server) (c : ClientID) : Recollects s (s.sendOptions c) :=
  (recollects_notice s _).trans (recollects_notice _ _)

end Server

end InputLeap
