import InputLeap.Server.Basic

/-!
# Which screen the cursor is on

What each operation of the server does to the active screen, to the pending switch and to the
screens that are entered.

## Main definitions

* `Server.Entered s c` : the last of `enter` and `leave` on `c` was `enter`.
* `Server.Still s s'` : from `s` to `s'` the cursor stays and nothing is aimed at.
* `Server.Switched s s' dst` : from `s` to `s'` the cursor goes to `dst`, or is refused to leave.

## Main results

* `switched_switchScreen` : `switchScreen` is all that moves the cursor between screens.
* `still_onClipboardChanged`, `still_endFilePastes`, ... : sharing clipboards and pasting files
  does not.
-/

namespace InputLeap

namespace Server

/-- The calls leave the screen entered.  The primary screen is entered at first, and a screen
that refuses to be left stays entered. -/
def enteredBy (c : ClientID) : List ScreenCall → Bool
  | [] => c == primaryClient
  | .enter d _ _ _ _ _ :: calls => c == d || enteredBy c calls
  | .leave d left :: calls => if c = d ∧ left then false else enteredBy c calls
  | .setClipboard _ _ _ :: calls => enteredBy c calls
  | .grabClipboard _ _ :: calls => enteredBy c calls

variable (s : Server)

/-- The screen is entered. -/
def Entered (c : ClientID) : Prop := enteredBy c s.log.screens = true

instance (c : ClientID) : Decidable (s.Entered c) := inferInstanceAs (Decidable (_ = true))

/-! ### Operations that do not move the cursor -/

/-- The cursor stays where it is, no switch is started or given up, and the same screens are
connected. -/
structure Still (s s' : Server) : Prop where
  config : s'.config = s.config
  options : s'.options = s.options
  registry : s'.registry = s.registry
  focus : s'.focus = s.focus
  pending : s'.pending = s.pending
  mapped : s'.log.mapped = s.log.mapped
  entered : ∀ c, s'.Entered c ↔ s.Entered c

namespace Still

variable {s} {s' s'' : Server}

theorem refl (s : Server) : Still s s := ⟨rfl, rfl, rfl, rfl, rfl, rfl, fun _ => Iff.rfl⟩

theorem trans (h : Still s s') (h' : Still s' s'') : Still s s'' :=
  ⟨h'.config.trans h.config, h'.options.trans h.options, h'.registry.trans h.registry,
    h'.focus.trans h.focus, h'.pending.trans h.pending, h'.mapped.trans h.mapped,
    fun c => (h'.entered c).trans (h.entered c)⟩

theorem foldl {α : Type*} {f : Server → α → Server} (hf : ∀ s a, Still s (f s a)) (l : List α)
    (s : Server) : Still s (l.foldl f s) := by
  induction l generalizing s with
  | nil => exact refl s
  | cons a l ih => exact (hf s a).trans (ih _)

theorem getName (h : Still s s') (c : ClientID) : s'.getName c = s.getName c := by
  simp only [Server.getName, h.config, h.registry]

theorem focusClient (h : Still s s') : s'.focusClient = s.focusClient := by
  simp only [Server.focusClient, h.focus]

end Still

theorem still_notice (k : Notice) : Still s (s.notice k) :=
  ⟨rfl, rfl, rfl, rfl, rfl, rfl, fun _ => Iff.rfl⟩

theorem still_callPaste (k : PasteCall) : Still s (s.callPaste k) :=
  ⟨rfl, rfl, rfl, rfl, rfl, rfl, fun _ => Iff.rfl⟩

theorem still_setProxy (c : ClientID) (p : Proxy) : Still s (s.setProxy c p) :=
  ⟨rfl, rfl, rfl, rfl, rfl, rfl, fun _ => Iff.rfl⟩

theorem still_setClipboardDirty (c : ClientID) (id : ClipboardID) (dirty : Bool) :
    Still s (s.setClipboardDirty c id dirty) := still_setProxy s _ _

theorem still_grabClipboard (c : ClientID) (id : ClipboardID) : Still s (s.grabClipboard c id) :=
  ⟨rfl, rfl, rfl, rfl, rfl, rfl, fun _ => Iff.rfl⟩

theorem still_setClipboard (c : ClientID) (id : ClipboardID) (clipboard : Clipboard) :
    Still s (s.setClipboard c id clipboard) := by
  simp only [setClipboard]
  split_ifs
  · exact ⟨rfl, rfl, rfl, rfl, rfl, rfl, fun _ => Iff.rfl⟩
  · exact .refl s

theorem still_clipboards (info : ClipboardID → ClipboardInfo) :
    Still s { s with clipboards := info } := ⟨rfl, rfl, rfl, rfl, rfl, rfl, fun _ => Iff.rfl⟩

theorem still_onClipboardChanged (env : Env) (sender : ClientID) (id : ClipboardID)
    (seqNum : ℕ) : Still s (s.onClipboardChanged env sender id seqNum) := by
  simp only [onClipboardChanged]
  split_ifs
  · exact .refl s
  · split
    · exact .refl s
    · split_ifs
      · exact still_clipboards s _
      · exact still_clipboards s _
      · refine Still.trans ?_ (still_setClipboard _ _ _ _)
        refine Still.trans ?_ (Still.foldl (fun s c => still_setClipboardDirty s c _ _) _ _)
        exact still_clipboards s _

theorem still_sendPrimaryClipboards (env : Env) : Still s (s.sendPrimaryClipboards env) := by
  refine Still.foldl (fun s id => ?_) _ s
  split_ifs
  · exact still_onClipboardChanged s env _ _ _
  · exact .refl s

theorem still_sendClipboards : Still s s.sendClipboards := by
  refine Still.foldl (fun s id => ?_) _ s
  split_ifs
  · exact .refl s
  · exact still_setClipboard s _ _ _

theorem still_handleClipboardGrabbed (grabber : ClientID) (id : ClipboardID) (seqNum : ℕ) :
    Still s (s.handleClipboardGrabbed grabber id seqNum) := by
  simp only [handleClipboardGrabbed]
  split_ifs
  · exact .refl s
  · exact .refl s
  · exact .refl s
  · refine (still_clipboards s _).trans (Still.foldl (fun s c => ?_) _ _)
    split_ifs
    · exact still_setClipboardDirty s c _ _
    · exact still_grabClipboard s c _

theorem still_handleClipboardChanged (env : Env) (c : ClientID) (id : ClipboardID)
    (seqNum : ℕ) : Still s (s.handleClipboardChanged env c id seqNum) := by
  simp only [handleClipboardChanged]
  split_ifs
  · exact .refl s
  · exact still_onClipboardChanged s env c id seqNum

theorem still_filePastes (pastes : Std.TreeMap String FilePaste) :
    Still s { s with filePastes := pastes } := ⟨rfl, rfl, rfl, rfl, rfl, rfl, fun _ => Iff.rfl⟩

theorem still_endFilePaste (name : String) (paste : String × FilePaste) :
    Still s (s.endFilePaste name paste) := by
  simp only [endFilePaste]
  split_ifs
  · split
    · exact still_filePastes s _
    · exact (still_filePastes s _).trans (still_callPaste _ _)
  · exact still_filePastes s _
  · exact .refl s

theorem still_endFilePastes (name : String) : Still s (s.endFilePastes name) :=
  Still.foldl (fun s paste => still_endFilePaste s name paste) _ s

theorem still_filePasteRequested (c : ClientID) (request : FilePasteRequest) :
    Still s (s.filePasteRequested c request) := by
  refine (still_callPaste s (.requested c request.request)).trans ?_
  simp only [filePasteRequested]
  split
  · exact still_callPaste _ _
  · exact (still_filePastes _ _).trans (still_callPaste _ _)

theorem still_filePasteStatus (c : ClientID) (status : FilePasteStatus) :
    Still s (s.filePasteStatus c status) := by
  simp only [filePasteStatus]
  split
  · exact .refl s
  · split_ifs
    · exact .refl s
    · split
      · exact still_filePastes s _
      · exact (still_filePastes s _).trans (still_callPaste _ _)
    · split
      · exact .refl s
      · exact still_callPaste s _

theorem still_stopRelativeMoves : Still s s.stopRelativeMoves := by
  simp only [stopRelativeMoves]
  split_ifs
  · exact ⟨rfl, rfl, rfl, rfl, rfl, rfl, fun _ => Iff.rfl⟩
  · exact .refl s

theorem still_handleLockCursorToScreenEvent (mode : InputFilter.Mode) :
    Still s (s.handleLockCursorToScreenEvent mode) := by
  simp only [handleLockCursorToScreenEvent]
  have hlock (b : Bool) : Still s { s with lockedToScreen := b } :=
    ⟨rfl, rfl, rfl, rfl, rfl, rfl, fun _ => Iff.rfl⟩
  split_ifs
  · exact .refl s
  · exact (hlock _).trans (still_notice _ _)
  · exact ((hlock _).trans (still_notice _ _)).trans (still_stopRelativeMoves _)

theorem still_sendOptions (c : ClientID) : Still s (s.sendOptions c) :=
  (still_notice s _).trans (still_notice _ _)

theorem still_moveMouse (x y dx dy : ℤ) : Still s (s.moveMouse x y dx dy) :=
  ⟨rfl, rfl, rfl, rfl, rfl, rfl, fun _ => Iff.rfl⟩

theorem still_stayOnScreen (xOld yOld dx dy : ℤ) :
    Still s (s.stayOnScreen xOld yOld dx dy) := by
  simp only [stayOnScreen]
  split_ifs <;> exact ⟨rfl, rfl, rfl, rfl, rfl, rfl, fun _ => Iff.rfl⟩

/-! ### Switching -/

/-- The cursor goes to the screen `dst`, unless it is there or may not leave the screen it is on.
Either way no switch is pending afterwards. -/
structure Switched (s s' : Server) (dst : ClientID) : Prop where
  config : s'.config = s.config
  options : s'.options = s.options
  registry : s'.registry = s.registry
  pending : s'.pending = s.pending.stopSwitch
  mapped : s'.log.mapped = s.log.mapped
  cursor :
    (s'.focus = s.focus ∧ ∀ c, s'.Entered c ↔ s.Entered c) ∨
    (s'.focus = { s.focus with active := dst } ∧
      ∀ c, s'.Entered c ↔ c = dst ∨ c ≠ s.focus.active ∧ s.Entered c)

namespace Switched

variable {s} {s' s'' : Server} {dst : ClientID}

theorem trans_still (h : Switched s s' dst) (h' : Still s' s'') : Switched s s'' dst where
  config := h'.config.trans h.config
  options := h'.options.trans h.options
  registry := h'.registry.trans h.registry
  pending := h'.pending.trans h.pending
  mapped := h'.mapped.trans h.mapped
  cursor := by
    obtain ⟨hfocus, hentered⟩ | ⟨hfocus, hentered⟩ := h.cursor
    · exact .inl ⟨h'.focus.trans hfocus, fun c => (h'.entered c).trans (hentered c)⟩
    · exact .inr ⟨h'.focus.trans hfocus, fun c => (h'.entered c).trans (hentered c)⟩

end Switched

theorem entered_leaveClient (env : Env) (c d : ClientID) :
    (s.leaveClient env d).Entered c ↔ ¬(c = d ∧ canLeave env d) ∧ s.Entered c := by
  simp only [Entered, leaveClient, callScreen, enteredBy]
  split_ifs with h <;> simp [h]

theorem entered_enterClient (env : Env) (c d : ClientID) (x y : ℤ) (forScreensaver : Bool) :
    (s.enterClient env d x y forScreensaver).Entered c ↔ c = d ∨ s.Entered c := by
  simp [Entered, enterClient, callScreen, enteredBy]

theorem entered_enterScreen (env : Env) (c dst : ClientID) (x y : ℤ) (forScreensaver : Bool) :
    (s.enterScreen env dst x y forScreensaver).Entered c ↔ c = dst ∨ s.Entered c := by
  simp only [enterScreen]
  rw [(still_notice _ _).entered]
  split_ifs
  · rw [(still_sendClipboards _).entered]
    exact entered_enterClient _ env c dst x y forScreensaver
  · exact entered_enterClient _ env c dst x y forScreensaver

theorem focus_enterScreen (env : Env) (dst : ClientID) (x y : ℤ) (forScreensaver : Bool) :
    (s.enterScreen env dst x y forScreensaver).focus = { s.focus with active := dst } := by
  simp only [enterScreen]
  rw [(still_notice _ _).focus]
  split_ifs
  · rw [(still_sendClipboards _).focus]
    rfl
  · rfl

theorem pending_enterScreen (env : Env) (dst : ClientID) (x y : ℤ) (forScreensaver : Bool) :
    (s.enterScreen env dst x y forScreensaver).pending = s.pending ∧
      (s.enterScreen env dst x y forScreensaver).log.mapped = s.log.mapped := by
  simp only [enterScreen]
  rw [(still_notice _ _).pending, (still_notice _ _).mapped]
  split_ifs
  · rw [(still_sendClipboards _).pending, (still_sendClipboards _).mapped]
    exact ⟨rfl, rfl⟩
  · exact ⟨rfl, rfl⟩

/-- The screen that was active is left, and `dst` is entered. -/
theorem switched_enterScreen {s₁ : Server} {env : Env} {x₀ y₀ : ℤ}
    (h : Still ((s.stopSwitch.warp x₀ y₀).leaveClient env s.focus.active) s₁)
    (hleave : canLeave env s.focus.active = true) (dst : ClientID) (x y : ℤ)
    (forScreensaver : Bool) : Switched s (s₁.enterScreen env dst x y forScreensaver) dst := by
  have hkeeps := keeps_enterScreen s₁ env dst x y forScreensaver
  obtain ⟨hpending, hmapped⟩ := pending_enterScreen s₁ env dst x y forScreensaver
  refine ⟨hkeeps.config.trans h.config, hkeeps.options.trans h.options,
    hkeeps.registry.trans h.registry, hpending.trans h.pending, hmapped.trans h.mapped,
    .inr ⟨?_, fun c => ?_⟩⟩
  · rw [focus_enterScreen, h.focus]
    rfl
  · rw [entered_enterScreen, h.entered, entered_leaveClient]
    simp only [hleave, and_true]
    exact Iff.rfl

/-- **`switchScreen` moves the cursor from the active screen to `dst`.** -/
theorem switched_switchScreen (env : Env) (dst : ClientID) (x y : ℤ) (forScreensaver : Bool) :
    Switched s (s.switchScreen env dst x y forScreensaver) dst := by
  have hstay : Switched s (s.stopSwitch.warp x y) dst :=
    ⟨rfl, rfl, rfl, rfl, rfl, .inl ⟨rfl, fun _ => Iff.rfl⟩⟩
  have hactive : (s.stopSwitch.warp x y).focus.active = s.focus.active := rfl
  simp only [switchScreen, hactive]
  split_ifs with hsame hrefused hshare
  · exact hstay.trans_still (still_notice _ _)
  · -- The screen refuses to be left: the call is made and changes nothing.
    refine ⟨rfl, rfl, rfl, rfl, rfl, .inl ⟨rfl, fun c => ?_⟩⟩
    rw [entered_leaveClient]
    simp only [Bool.not_eq_true'] at hrefused
    simp only [hrefused, Bool.false_eq_true, and_false, not_false_eq_true, true_and]
    exact Iff.rfl
  · have hleave : canLeave env s.focus.active = true := by simpa using hrefused
    exact switched_enterScreen s (still_sendPrimaryClipboards _ env) hleave dst x y forScreensaver
  · have hleave : canLeave env s.focus.active = true := by simpa using hrefused
    exact switched_enterScreen s (.refl _) hleave dst x y forScreensaver

theorem switched_jumpToScreen (env : Env) (c : ClientID) :
    Switched s (s.jumpToScreen env c) c := by
  simp only [jumpToScreen]
  obtain ⟨hconfig, hoptions, hregistry, hpending, hmapped, hcursor⟩ :=
    switched_switchScreen (s.setProxy s.focus.active
      { s.proxies s.focus.active with jumpCursorPos := (s.mouse.x, s.mouse.y) }) env c _ _ false
  exact ⟨hconfig, hoptions, hregistry, hpending, hmapped, hcursor⟩

/-! ### Motions -/

/-- The cursor stays, and a switch to a registered screen may be started or one given up. -/
structure Aimed (s s' : Server) : Prop where
  registry : s'.registry = s.registry
  focus : s'.focus = s.focus
  pending : ∀ c, s'.pending.switchScreen = some c →
    s.registry.Registered c ∨ s.pending.switchScreen = some c
  entered : ∀ c, s'.Entered c ↔ s.Entered c

/-- The cursor can go to the screen: it is registered, a switch to it is pending, it is remembered,
or it is the primary screen. -/
def Target (c : ClientID) : Prop :=
  s.registry.Registered c ∨ s.pending.switchScreen = some c ∨ s.focus.activeSaver = some c ∨
    c = primaryClient

/-- The same screens are connected, and the cursor stays or goes to one it can go to. -/
structure Moved (s s' : Server) : Prop where
  registry : s'.registry = s.registry
  saver : ∀ c, s'.focus.activeSaver = some c →
    c = s.focus.active ∨ s.focus.activeSaver = some c
  pending : ∀ c, s'.pending.switchScreen = some c →
    s.registry.Registered c ∨ s.pending.switchScreen = some c
  cursor :
    (s'.focus.active = s.focus.active ∧ ∀ c, s'.Entered c ↔ s.Entered c) ∨
    ∃ dst, s.Target dst ∧ s'.focus.active = dst ∧
      ∀ c, s'.Entered c ↔ c = dst ∨ c ≠ s.focus.active ∧ s.Entered c

variable {s} {s' s'' : Server}

theorem Still.aimed (h : Still s s') : Aimed s s' :=
  ⟨h.registry, h.focus, fun _ hc => .inr (h.pending ▸ hc), h.entered⟩

namespace Aimed

theorem trans (h : Aimed s s') (h' : Aimed s' s'') : Aimed s s'' where
  registry := h'.registry.trans h.registry
  focus := h'.focus.trans h.focus
  pending c hc := by
    obtain hr | hp := h'.pending c hc
    · exact .inl (h.registry ▸ hr)
    · exact h.pending c hp
  entered c := (h'.entered c).trans (h.entered c)

theorem moved (h : Aimed s s') : Moved s s' :=
  ⟨h.registry, fun _ hc => .inr (h.focus ▸ hc), h.pending, .inl ⟨by rw [h.focus], h.entered⟩⟩

/-- A switch after the cursor stayed. -/
theorem switched {dst : ClientID} (h : Aimed s s') (h' : Switched s' s'' dst)
    (hdst : s.Target dst) : Moved s s'' where
  registry := h'.registry.trans h.registry
  saver c hc := by
    obtain ⟨hf, -⟩ | ⟨hf, -⟩ := h'.cursor
    all_goals
      rw [hf, h.focus] at hc
      exact .inr hc
  pending c hc := by
    rw [h'.pending, Pending.stopSwitch_switchScreen] at hc
    cases hc
  cursor := by
    obtain ⟨hf, he⟩ | ⟨hf, he⟩ := h'.cursor
    · exact .inl ⟨by rw [hf, h.focus], fun c => (he c).trans (h.entered c)⟩
    · refine .inr ⟨dst, hdst, by rw [hf], fun c => ?_⟩
      rw [he, h.entered, h.focus]

end Aimed

/-- A step that starts where another one left the cursor alone. -/
theorem Still.moved (h : Still s s') (h' : Moved s' s'') : Moved s s'' where
  registry := h'.registry.trans h.registry
  saver c hc := by
    have := h'.saver c hc
    rwa [h.focus] at this
  pending c hc := by
    have := h'.pending c hc
    rwa [h.registry, h.pending] at this
  cursor := by
    obtain ⟨hf, he⟩ | ⟨dst, hdst, hf, he⟩ := h'.cursor
    · exact .inl ⟨by rw [hf, h.focus], fun c => (he c).trans (h.entered c)⟩
    · unfold Target at hdst
      rw [h.registry, h.pending, h.focus] at hdst
      refine .inr ⟨dst, hdst, hf, fun c => ?_⟩
      rw [he, h.entered, h.focus]

theorem Moved.trans_still (h : Moved s s') (h' : Still s' s'') : Moved s s'' where
  registry := h'.registry.trans h.registry
  saver c hc := h.saver c (h'.focus ▸ hc)
  pending c hc := h.pending c (h'.pending ▸ hc)
  cursor := by
    obtain ⟨hf, he⟩ | ⟨dst, hdst, hf, he⟩ := h.cursor
    · exact .inl ⟨by rw [h'.focus, hf], fun c => (h'.entered c).trans (he c)⟩
    · exact .inr ⟨dst, hdst, by rw [h'.focus, hf], fun c => (h'.entered c).trans (he c)⟩

theorem aimed_setPending {p : Pending}
    (hp : ∀ c, p.switchScreen = some c →
      s.registry.Registered c ∨ s.pending.switchScreen = some c) : Aimed s (s.setPending p) :=
  ⟨rfl, rfl, hp, fun _ => Iff.rfl⟩

theorem aimed_stopSwitch (s : Server) : Aimed s s.stopSwitch :=
  aimed_setPending fun c hc => by
    rw [Pending.stopSwitch_switchScreen] at hc
    cases hc

theorem aimed_noteMapped (s : Server) (r : Option (ClientID × ℤ × ℤ)) :
    Aimed s (s.noteMapped r) := by
  cases r with
  | none => exact (Still.refl s).aimed
  | some m => exact ⟨rfl, rfl, fun _ hc => .inr hc, fun _ => Iff.rfl⟩

theorem switchScreen_prepareSwitch (s : Server) (env : Env) (c : ClientID) (dir : Direction)
    (x y : ℤ) : (s.prepareSwitch env c dir x y).switchScreen = (s.pending.aim dir c).switchScreen
    := by
  simp only [prepareSwitch, Pending.startSwitchTwoTap, Pending.startSwitchWait]
  split_ifs <;> rfl

theorem aimed_isSwitchOkay (s : Server) (env : Env) (newScreen : Option ClientID)
    (hnew : ∀ c, newScreen = some c → s.registry.Registered c) (dir : Direction)
    (x y xActive yActive : ℤ) :
    Aimed s (s.isSwitchOkay env newScreen dir x y xActive yActive).1 := by
  cases newScreen with
  | none => exact aimed_stopSwitch s
  | some c =>
    have hprepare : Aimed s (s.setPending (s.prepareSwitch env c dir x y)) := by
      refine aimed_setPending fun d hd => ?_
      rw [switchScreen_prepareSwitch] at hd
      unfold Pending.aim at hd
      split_ifs at hd
      · cases hd
        exact .inl (hnew c rfl)
      · exact .inr hd
    -- Afterwards the pending switch can only be given up.
    exact isSwitchOkay_induction hprepare fun s' h => h.trans (aimed_stopSwitch s')

theorem aimed_tryEdge {env : Env} {dir : Direction} {p : ℤ × ℤ} {xActive yActive : ℤ}
    {t : Option (ClientID × ℤ × ℤ)} (h : s.tryEdge env dir p xActive yActive = some (s', t)) :
    Aimed s s' ∧ ∀ c x y, t = some (c, x, y) → s.registry.Registered c := by
  obtain ⟨r, hr, h⟩ := Option.map_eq_some_iff.1 h
  have hmapped : ∀ m, r = some m → s.registry.Registered m.1 := by
    rintro m rfl
    exact mem_of_mapToNeighbor hr
  have hnote := aimed_noteMapped s r
  obtain ⟨rfl, rfl⟩ := Prod.mk.inj h
  refine ⟨hnote.trans (aimed_isSwitchOkay _ env _ ?_ dir _ _ _ _), ?_⟩
  · intro c hc
    obtain ⟨m, hm, rfl⟩ := Option.map_eq_some_iff.1 hc
    rw [hnote.registry]
    exact hmapped m hm
  · intro c x y ht
    split_ifs at ht
    exact hmapped _ ht

theorem aimed_noSwitch (s : Server) (env : Env) (x y : ℤ) : Aimed s (s.noSwitch env x y) := by
  have harm : Aimed s (s.armSwitchTwoTap env x y) := by
    simp only [armSwitchTwoTap]
    split_ifs
    · exact (Still.refl s).aimed
    · exact aimed_setPending fun _ hc => .inr hc
    · exact (Still.refl s).aimed
    · exact aimed_setPending fun _ hc => .inr hc
    · exact (Still.refl s).aimed
  exact harm.trans (aimed_setPending fun _ hc => .inr hc)

theorem aimed_leaveBorder (s : Server) (env : Env) (i : ScreenInfo) (x y : ℤ) :
    Aimed s (s.leaveBorder env i x y) := by
  unfold leaveBorder
  split_ifs
  · exact aimed_noSwitch s env x y
  · exact (Still.refl s).aimed

theorem switched_switchAcross (s : Server) (env : Env) (c : ClientID) (x y : ℤ) :
    Still s (s.switchAcross env c x y) ∨ Switched s (s.switchAcross env c x y) c := by
  simp only [switchAcross]
  split_ifs
  · exact .inl ⟨rfl, rfl, rfl, rfl, rfl, rfl, fun _ => Iff.rfl⟩
  · refine .inr ((switched_switchScreen s env c x y false).trans_still ?_)
    exact ⟨rfl, rfl, rfl, rfl, rfl, rfl, fun _ => Iff.rfl⟩

theorem moved_tryEdges {s₀ : Server} {env : Env} {xc yc : ℤ}
    {edges : List (Direction × ℤ × ℤ)} (h₀ : Aimed s₀ s)
    (h : tryEdges env xc yc s edges = some s') : Moved s₀ s' := by
  induction edges generalizing s with
  | nil =>
    cases h
    exact h₀.moved
  | cons e rest ih =>
    simp only [tryEdges] at h
    split at h
    · cases h
    · rename_i s₁ c x y htry
      cases h
      obtain ⟨haimed, hreg⟩ := aimed_tryEdge htry
      have hc : s₀.registry.Registered c := h₀.registry ▸ hreg c x y rfl
      obtain hstill | hswitched := switched_switchAcross s₁ env c x y
      · exact ((h₀.trans haimed).trans hstill.aimed).moved
      · exact (h₀.trans haimed).switched hswitched (.inl hc)
    · rename_i s₁ htry
      exact ih (h₀.trans (aimed_tryEdge htry).1) h

theorem moved_onMouseMovePrimary {env : Env} {x y : ℤ}
    (h : s.onMouseMovePrimary env x y = some s') : Moved s s' := by
  simp only [onMouseMovePrimary] at h
  split_ifs at h with hactive
  · cases h
    exact (Still.refl s).aimed.moved
  · have hmove := (still_moveMouse s x y (x - s.mouse.x) (y - s.mouse.y)).aimed
    split at h
    · cases h
      exact (hmove.trans (aimed_noSwitch _ env x y)).moved
    · exact moved_tryEdges hmove h

theorem moved_onMouseMoveSecondary {env : Env} {dx dy : ℤ}
    (h : s.onMouseMoveSecondary env dx dy = some s') : Moved s s' := by
  simp only [onMouseMoveSecondary] at h
  split_ifs at h with hactive hrelative
  · cases h
    exact (Still.refl s).aimed.moved
  · cases h
    exact (still_notice s _).aimed.moved
  · have hmove := (still_moveMouse s (s.mouse.x + dx) (s.mouse.y + dy) dx dy).aimed
    split at h
    · cases h
      have hborder := aimed_leaveBorder (s.moveMouse (s.mouse.x + dx) (s.mouse.y + dy) dx dy) env
        (s.info s.focus.active) (s.mouse.x + dx) (s.mouse.y + dy)
      exact ((hmove.trans hborder).trans (still_stayOnScreen _ _ _ _ _).aimed).moved
    · split at h
      · cases h
      · rename_i s₁ c x y htry
        cases h
        obtain ⟨haimed, hreg⟩ := aimed_tryEdge htry
        exact (hmove.trans haimed).switched (switched_switchScreen _ env c x y false)
          (.inl (hreg c x y rfl))
      · rename_i s₁ htry
        cases h
        have htried := hmove.trans (aimed_tryEdge htry).1
        exact (htried.trans (still_stayOnScreen _ _ _ _ _).aimed).moved

/-! ### Hotkeys and the wait timer -/

theorem moved_switched {dst : ClientID} (h : Switched s s' dst)
    (hdst : s.Target dst) : Moved s s' :=
  (Still.refl s).aimed.switched h hdst

theorem moved_handleSwitchToScreenEvent (s : Server) (env : Env) (screen : String) :
    Moved s (s.handleSwitchToScreenEvent env screen) := by
  unfold handleSwitchToScreenEvent
  split
  · exact (Still.refl s).aimed.moved
  · rename_i c hc
    exact moved_switched (switched_jumpToScreen s env c) (.inl ⟨screen, hc⟩)

theorem handleToggleScreenEvent_cases (s : Server) (env : Env) :
    s.handleToggleScreenEvent env = s ∨ ∃ c, s.registry.Registered c ∧
      s.handleToggleScreenEvent env = s.jumpToScreen env c := by
  simp only [handleToggleScreenEvent]
  split_ifs
  · split
    · exact .inl rfl
    · rename_i name c hfound
      refine .inr ⟨c, ⟨name, ?_⟩, rfl⟩
      -- Both the next screen and the first one are listed.
      rw [← Std.TreeMap.mem_toList_iff_getElem?_eq_some]
      obtain hnext | ⟨-, hfirst⟩ := Option.or_eq_some_iff.1 hfound
      · exact List.mem_of_find?_eq_some hnext
      · exact List.mem_of_mem_head? hfirst
  · exact .inl rfl

theorem moved_handleToggleScreenEvent (s : Server) (env : Env) :
    Moved s (s.handleToggleScreenEvent env) := by
  obtain heq | ⟨c, hc, heq⟩ := handleToggleScreenEvent_cases s env
  · rw [heq]
    exact (Still.refl s).aimed.moved
  · rw [heq]
    exact moved_switched (switched_jumpToScreen s env c) (.inl hc)

theorem moved_handleSwitchInDirectionEvent {env : Env} {dir : Direction}
    (h : s.handleSwitchInDirectionEvent env dir = some s') : Moved s s' := by
  obtain ⟨r, hr, h⟩ := Option.map_eq_some_iff.1 h
  cases r with
  | none =>
    cases h
    exact (Still.refl s).aimed.moved
  | some m =>
    cases h
    exact moved_switched (switched_jumpToScreen s env m.1) (.inl (mem_of_getNeighbor hr))

theorem moved_handleSwitchWaitEvent {env : Env} (h : s.handleSwitchWaitEvent env = some s') :
    Moved s s' := by
  simp only [handleSwitchWaitEvent] at h
  split_ifs at h
  · cases h
    exact (aimed_stopSwitch s).moved
  · obtain ⟨c, hc, rfl⟩ := Option.map_eq_some_iff.1 h
    exact moved_switched (switched_switchScreen s env c _ _ false) (.inr (.inl hc))

theorem moved_handleShapeChanged {env : Env} {c : ClientID}
    (h : s.handleShapeChanged env c = some s') : Moved s s' := by
  simp only [handleShapeChanged] at h
  have hmouse (s : Server) (m : Mouse) : Still s { s with mouse := m } :=
    ⟨rfl, rfl, rfl, rfl, rfl, rfl, fun _ => Iff.rfl⟩
  have hjump := still_setProxy s c
    { s.proxies c with jumpCursorPos := ((s.info c).mx, (s.info c).my) }
  split_ifs at h
  · cases h
    exact (Still.refl s).aimed.moved
  · exact (hjump.trans (hmouse _ _)).moved (moved_onMouseMovePrimary h)
  · exact hjump.moved (moved_onMouseMoveSecondary h)
  · cases h
    exact (hjump.trans (hmouse _ _)).aimed.moved
  · cases h
    exact hjump.aimed.moved

/-! ### The screen saver -/

theorem moved_enterSaver (s : Server) (env : Env) : Moved s (s.enterSaver env) := by
  simp only [enterSaver]
  have hremembered (c : ClientID) (hc : some s.focus.active = some c) :
      c = s.focus.active ∨ s.focus.activeSaver = some c := .inl (Option.some.inj hc).symm
  split_ifs
  · obtain ⟨-, -, hregistry, hpending, -, hcursor⟩ := switched_switchScreen
      (s.setFocus ⟨s.focus.active, some s.focus.active, s.mouse.x, s.mouse.y⟩) env primaryClient
      0 0 true
    refine ⟨hregistry, fun c hc => hremembered c ?_, fun c hc => ?_, ?_⟩
    · obtain ⟨hf, -⟩ | ⟨hf, -⟩ := hcursor
      all_goals
        rw [hf] at hc
        exact hc
    · rw [hpending, Pending.stopSwitch_switchScreen] at hc
      cases hc
    · obtain ⟨hf, he⟩ | ⟨hf, he⟩ := hcursor
      · exact .inl ⟨by rw [hf]; rfl, he⟩
      · exact .inr ⟨primaryClient, .inr (.inr (.inr rfl)), by rw [hf], he⟩
  · exact ⟨rfl, hremembered, fun _ hc => .inr hc, .inl ⟨rfl, fun _ => Iff.rfl⟩⟩

theorem moved_leaveSaver (s : Server) (env : Env) : Moved s (s.leaveSaver env) := by
  unfold leaveSaver
  split
  · exact (Still.refl s).aimed.moved
  · rename_i screen hsaver
    split_ifs
    · exact (Still.refl s).aimed.moved
    · -- The remembered position is adjusted, which is no part of `Moved`.
      set f : Focus := { s.focus with
        xSaver := clampSaver s.focus.xSaver (s.info screen).x (s.info screen).w
          (getJumpZoneSize env screen)
        ySaver := clampSaver s.focus.ySaver (s.info screen).y (s.info screen).h
          (getJumpZoneSize env screen) }
      have hmoved := moved_switched (switched_switchScreen (s.setFocus f) env screen f.xSaver
        f.ySaver false) (.inr (.inr (.inl hsaver)))
      exact ⟨hmoved.registry, hmoved.saver, hmoved.pending, hmoved.cursor⟩

theorem moved_onScreensaver (s : Server) (env : Env) (activated : Bool) :
    Moved s (s.onScreensaver env activated) := by
  simp only [onScreensaver]
  refine Moved.trans_still ?_ (Still.foldl (fun s c => still_notice s _) _ _)
  split_ifs
  · exact moved_enterSaver s env
  · have hmoved := moved_leaveSaver s env
    exact ⟨hmoved.registry, (fun c hc => by cases hc), hmoved.pending, hmoved.cursor⟩

end Server

end InputLeap
