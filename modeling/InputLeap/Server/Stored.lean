import InputLeap.Server.Reload

/-!
# What is stored about a clipboard

The server keeps each clipboard as an object and in marshalled form.  New content goes into the
object before its size is looked at, so content over the limit leaves the marshalled form behind.

## Main definitions

* `ClipboardInfo.Agrees`, `Server.Agree` : the marshalled form is that of the object.
* `Server.Reads` : a step reads the primary screen's clipboards if it leaves the primary screen,
  and otherwise leaves the clipboards alone.
* `Server.Small` : the step stores no content over the limit.

## Main results

* `reads_of_step` : what an event that is neither a grab nor data does to the clipboards.
* `agree_of_reachable` : in runs that store no content over the limit, the two forms agree, and
  the next step keeps them in agreement exactly if it stores none either.
-/

namespace InputLeap

namespace ClipboardInfo

/-- The marshalled form is that of the object. -/
def Agrees (i : ClipboardInfo) : Prop := i.clipboard.marshall = i.data

/-- What new content makes of a clipboard: the marshalled form follows if it is within the
limit. -/
def store (i : ClipboardInfo) (limit : ℕ) (clipboard : Clipboard) : ClipboardInfo :=
  if limit < clipboard.marshall.length then { i with clipboard := clipboard }
  else { i with clipboard := clipboard, data := clipboard.marshall }

instance (i : ClipboardInfo) : Decidable i.Agrees := inferInstanceAs (Decidable (_ = _))

variable {i : ClipboardInfo} {limit : ℕ} {clipboard : Clipboard}

theorem store_agrees_iff : (i.store limit clipboard).Agrees ↔
    clipboard.marshall.length ≤ limit ∨ clipboard.marshall = i.data := by
  unfold store Agrees
  split_ifs with hlimit
  · exact ⟨fun h => .inr h, fun h => h.resolve_left (not_le.2 hlimit)⟩
  · exact iff_of_true rfl (.inl (not_lt.1 hlimit))

end ClipboardInfo

namespace Server

variable (s : Server)

/-- The object and the marshalled form of every clipboard agree. -/
def Agree : Prop := ∀ id, (s.clipboards id).Agrees

/-- What leaving the primary screen makes of a clipboard: its own clipboards are read. -/
def collected (env : Env) (id : ClipboardID) : ClipboardInfo :=
  if (s.clipboards id).owner = s.getName primaryClient then
    match env.clipboard id with
    | none => s.clipboards id
    | some clipboard => (s.clipboards id).store s.options.maximumClipboardSize clipboard
  else s.clipboards id

/-- The primary screen is left and clipboards are shared. -/
def LeavesPrimary (s s' : Server) : Prop :=
  s.focus.active = primaryClient ∧ s.options.enableClipboard = true ∧
    s'.focus.active ≠ primaryClient

instance (s s' : Server) : Decidable (LeavesPrimary s s') :=
  inferInstanceAs (Decidable (_ ∧ _ ∧ _))

/-- The clipboards stay as they are, unless the primary screen is left. -/
def Reads (env : Env) (s s' : Server) : Prop :=
  s'.clipboards = if LeavesPrimary s s' then s.collected env else s.clipboards

/-- The content is within the limit or is what is stored. -/
def Fits (id : ClipboardID) (clipboard : Clipboard) : Prop :=
  clipboard.marshall.length ≤ s.options.maximumClipboardSize ∨
    clipboard.marshall = (s.clipboards id).data

instance (id : ClipboardID) (clipboard : Clipboard) : Decidable (s.Fits id clipboard) :=
  inferInstanceAs (Decidable (_ ∨ _))

/-- Data that a connected screen sends, or the primary screen's own clipboards when it is left,
fit if they are accepted. -/
def Small (s : Server) (l : Env × Event) : Prop :=
  (∀ d ∈ l.2.data, d.1 ∈ s.registry.clientSet → (s.clipboards d.2.1).seqNum ≤ d.2.2 →
      ∀ clipboard ∈ s.getClipboard l.1 d.1 d.2.1, s.Fits d.2.1 clipboard) ∧
    ((∃ s' ∈ s.step l.1 l.2, LeavesPrimary s s') → ∀ id ∈ ClipboardID.all,
      (s.clipboards id).owner = s.getName primaryClient →
        ∀ clipboard ∈ l.1.clipboard id, s.Fits id clipboard)

instance (s : Server) (l : Env × Event) : Decidable (s.Small l) :=
  inferInstanceAs (Decidable ((∀ _ ∈ Event.data _, _) ∧ ((∃ _ ∈ s.step _ _, _) → _)))

variable {s} {s' s'' : Server} {env : Env} {c : ClientID} {id : ClipboardID}

/-! ### New content -/

/-- What accepted data makes of the clipboards. -/
theorem clipboards_onClipboardChanged (s : Server) (env : Env) (c : ClientID) (id : ClipboardID)
    (seqNum : ℕ) : (s.onClipboardChanged env c id seqNum).clipboards =
      if seqNum < (s.clipboards id).seqNum then s.clipboards
      else match s.getClipboard env c id with
        | none => s.clipboards
        | some clipboard => Function.update s.clipboards id
            ((s.clipboards id).store s.options.maximumClipboardSize clipboard) := by
  obtain ⟨hrefused, heq⟩ | ⟨clipboard, ⟨hseq, hget⟩, ⟨hstored, heq⟩ | ⟨⟨hlimit, -⟩, heq⟩⟩ :=
    onClipboardChanged_cases s env c id seqNum
  · rw [heq]
    split_ifs with hold
    · rfl
    · cases hget : s.getClipboard env c id with
      | none => rfl
      | some clipboard => exact absurd ⟨not_lt.1 hold, hget⟩ (hrefused clipboard)
  · have hstore : (s.clipboards id).store s.options.maximumClipboardSize clipboard =
        { s.clipboards id with clipboard := clipboard } := by
      unfold ClipboardInfo.store
      split_ifs with hlimit
      · rfl
      · rw [hstored.resolve_left hlimit]
    simp only [heq, hget, not_lt.2 hseq, if_false, hstore]
    rfl
  · have hstore : (s.clipboards id).store s.options.maximumClipboardSize clipboard =
        { s.clipboards id with clipboard := clipboard, data := clipboard.marshall } :=
      if_neg (not_lt.2 hlimit)
    have htold := ((tells_setClipboardDirty id c).foldl (s.withInfo id
      { s.clipboards id with clipboard := clipboard, data := clipboard.marshall }).clientList
      (s.withInfo id { s.clipboards id with
        clipboard := clipboard, data := clipboard.marshall })).2.2.1
    rw [heq, clipboards_setClipboard]
    simp only [hget, not_lt.2 hseq, if_false, hstore]
    exact htold

/-- What leaving the primary screen does to the clipboards. -/
theorem clipboards_sendPrimaryClipboards (s : Server) (env : Env) :
    (s.sendPrimaryClipboards env).clipboards = s.collected env := by
  set F : Server → ClipboardID → Server := fun s id =>
    if (s.clipboards id).owner = s.getName primaryClient then
      s.onClipboardChanged env primaryClient id (s.clipboards id).seqNum
    else s with hF
  have hkeeps (s : Server) (id : ClipboardID) : Keeps s (F s id) := by
    simp only [hF]
    split_ifs
    · exact keeps_onClipboardChanged s env primaryClient id _
    · exact .refl s
  have hone (s : Server) (id : ClipboardID) :
      (F s id).clipboards = Function.update s.clipboards id (s.collected env id) := by
    simp only [hF, collected]
    split_ifs with howner
    · rw [clipboards_onClipboardChanged, if_neg (lt_irrefl _), getClipboard, if_pos rfl]
      cases env.clipboard id with
      | none => exact (Function.update_eq_self id s.clipboards).symm
      | some clipboard => rfl
    · exact (Function.update_eq_self id s.clipboards).symm
  -- A clipboard is read once, and the others do not matter to it.
  have hfold (l : List ClipboardID) (hl : l.Nodup) (s : Server) (id : ClipboardID) :
      (l.foldl F s).clipboards id = if id ∈ l then s.collected env id else s.clipboards id := by
    induction l generalizing s with
    | nil => rfl
    | cons id' l ih =>
      obtain ⟨hout, hl⟩ := List.nodup_cons.1 hl
      rw [List.foldl_cons, ih hl, hone]
      by_cases hid : id = id'
      · subst hid
        rw [if_neg hout, if_pos List.mem_cons_self, Function.update_self]
      · have hsame : (F s id').clipboards id = s.clipboards id := by
          rw [hone, Function.update_of_ne hid]
        have hread : (F s id').collected env id = s.collected env id := by
          simp only [collected, hsame, (hkeeps s id').getName, (hkeeps s id').options]
        simp only [hread, List.mem_cons, hid, false_or, Function.update_of_ne hid]
  funext id
  exact (hfold ClipboardID.all (by decide) s id).trans (if_pos (ClipboardID.mem_all id))

/-! ### Leaving the primary screen -/

namespace Reads

theorem of_clipboards (hclipboards : s'.clipboards = s.clipboards)
    (hactive : s'.focus.active = s.focus.active ∨ s'.focus.active = primaryClient) :
    Reads env s s' := by
  unfold Reads
  rw [if_neg, hclipboards]
  rintro ⟨hprimary, -, hleft⟩
  obtain hsame | hback := hactive
  · exact hleft (hsame.trans hprimary)
  · exact hleft hback

theorem refl (s : Server) : Reads env s s := of_clipboards rfl (.inl rfl)

theorem of_kept (hk : ClipsKept s s') (hactive : s'.focus.active = s.focus.active) :
    Reads env s s' :=
  of_clipboards hk.clipboards (.inl hactive)

theorem of_vacated (hv : Vacated s s') : Reads env s s' :=
  of_clipboards hv.clips.clipboards hv.active

/-- Something happens before the screen is left. -/
theorem after (hk : ClipsKept s s') (hactive : s'.focus.active = s.focus.active)
    (h : Reads env s' s'') : Reads env s s'' := by
  have hleaves : LeavesPrimary s' s'' ↔ LeavesPrimary s s'' := by
    simp only [LeavesPrimary, hactive, hk.options]
  have hread : s'.collected env = s.collected env := by
    funext id
    simp only [collected, hk.clipboards, hk.getName, hk.options]
  unfold Reads at h ⊢
  simp only [h, hleaves, hread, hk.clipboards]

/-- Something happens after the screen is left. -/
theorem before (h : Reads env s s') (hclipboards : s''.clipboards = s'.clipboards)
    (hactive : s''.focus.active = s'.focus.active) : Reads env s s'' := by
  have hleaves : LeavesPrimary s s'' ↔ LeavesPrimary s s' := by
    simp only [LeavesPrimary, hactive]
  unfold Reads at h ⊢
  rw [hclipboards, h]
  simp only [hleaves]

end Reads

theorem clipboards_sendClipboards (s : Server) : s.sendClipboards.clipboards = s.clipboards := by
  refine List.foldlRecOn (motive := fun s' : Server => s'.clipboards = s.clipboards) _ _ rfl ?_
  rintro s' hs' id -
  split_ifs
  · exact hs'
  · exact (clipboards_setClipboard s' _ _ _).trans hs'

theorem clipboards_enterScreen (s : Server) (env : Env) (dst : ClientID) (x y : ℤ)
    (forScreensaver : Bool) :
    (s.enterScreen env dst x y forScreensaver).clipboards = s.clipboards := by
  simp only [enterScreen]
  split_ifs
  · exact clipboards_sendClipboards _
  · rfl

theorem reads_switchScreen (s : Server) (env : Env) (dst : ClientID) (x y : ℤ)
    (forScreensaver : Bool) : Reads env s (s.switchScreen env dst x y forScreensaver) := by
  have hwarp : ClipsKept s (s.stopSwitch.warp x y) :=
    (clipsKept_setPending s _).trans (clipsKept_mouse _ _)
  have hleave := hwarp.trans (clipsKept_leaveClient _ env s.focus.active)
  have hfocus : (s.stopSwitch.warp x y).focus.active = s.focus.active := rfl
  have hsharing :
      ((s.stopSwitch.warp x y).leaveClient env s.focus.active).options = s.options := rfl
  simp only [Server.switchScreen, hfocus, hsharing]
  split_ifs with hdst hstay hread
  · exact .of_kept (hwarp.trans (clipsKept_notice _ _)) rfl
  · exact .of_kept hleave rfl
  · obtain ⟨hprimary, henable⟩ := hread
    refine Reads.after hleave rfl ?_
    unfold Reads
    rw [clipboards_enterScreen, clipboards_sendPrimaryClipboards, if_pos]
    refine ⟨hprimary, henable, ?_⟩
    rw [focus_enterScreen]
    exact fun hback => hdst (hprimary.trans hback.symm)
  · refine Reads.after hleave rfl ?_
    unfold Reads
    rw [clipboards_enterScreen, if_neg]
    exact fun hleaves => hread ⟨hleaves.1, hleaves.2.1⟩

theorem reads_jumpToScreen (s : Server) (env : Env) (dst : ClientID) :
    Reads env s (s.jumpToScreen env dst) :=
  Reads.after (clipsKept_setProxy s s.focus.active
    { s.proxies s.focus.active with jumpCursorPos := (s.mouse.x, s.mouse.y) } fun _ => rfl) rfl
    (reads_switchScreen _ env dst _ _ false)

theorem reads_switchAcross (s : Server) (env : Env) (dst : ClientID) (x y : ℤ) :
    Reads env s (s.switchAcross env dst x y) := by
  simp only [Server.switchAcross]
  split_ifs
  · exact .of_kept (clipsKept_drag s _) rfl
  · exact (reads_switchScreen s env dst x y false).before rfl rfl

theorem reads_tryEdges {xc yc : ℤ} {edges : List (Direction × ℤ × ℤ)}
    (hst : Server.tryEdges env xc yc s edges = some s') : Reads env s s' := by
  induction edges generalizing s with
  | nil =>
    cases hst
    exact .refl _
  | cons e rest ih =>
    simp only [Server.tryEdges] at hst
    split at hst
    · cases hst
    · rename_i s₁ dst x y htry
      cases hst
      exact Reads.after (clipsKept_tryEdge htry) (by rw [(aimed_tryEdge htry).1.focus])
        (reads_switchAcross s₁ env dst x y)
    · rename_i s₁ htry
      exact Reads.after (clipsKept_tryEdge htry) (by rw [(aimed_tryEdge htry).1.focus]) (ih hst)

theorem reads_onMouseMovePrimary {x y : ℤ} (hst : s.onMouseMovePrimary env x y = some s') :
    Reads env s s' := by
  simp only [Server.onMouseMovePrimary] at hst
  split_ifs at hst
  · cases hst
    exact .refl s
  · have hmoved : Reads env (s.moveMouse x y (x - s.mouse.x) (y - s.mouse.y)) s' := by
      split at hst
      · cases hst
        exact .of_kept (clipsKept_noSwitch _ env x y) (by rw [(aimed_noSwitch _ env x y).focus])
      · exact reads_tryEdges hst
    exact Reads.after (clipsKept_mouse s _) rfl hmoved

theorem reads_onMouseMoveSecondary {dx dy : ℤ} (hst : s.onMouseMoveSecondary env dx dy = some s') :
    Reads env s s' := by
  simp only [Server.onMouseMoveSecondary] at hst
  split_ifs at hst
  · cases hst
    exact .refl s
  · cases hst
    exact .of_kept (clipsKept_notice s _) rfl
  · have hmoved : Reads env (s.moveMouse (s.mouse.x + dx) (s.mouse.y + dy) dx dy) s' := by
      split at hst
      · cases hst
        refine .of_kept
          ((clipsKept_leaveBorder _ env _ _ _).trans (clipsKept_stayOnScreen _ _ _ _ _)) ?_
        rw [(still_stayOnScreen _ _ _ _ _).focus, (aimed_leaveBorder _ env _ _ _).focus]
      · split at hst
        · cases hst
        · rename_i s₂ dst x y htry
          cases hst
          exact Reads.after (clipsKept_tryEdge htry) (by rw [(aimed_tryEdge htry).1.focus])
            (reads_switchScreen s₂ env dst x y false)
        · rename_i s₂ htry
          cases hst
          refine .of_kept ((clipsKept_tryEdge htry).trans (clipsKept_stayOnScreen _ _ _ _ _)) ?_
          rw [(still_stayOnScreen _ _ _ _ _).focus, (aimed_tryEdge htry).1.focus]
    exact Reads.after (clipsKept_mouse s _) rfl hmoved

theorem reads_setFocus (s : Server) (env : Env) {f : Focus} (hf : f.active = s.focus.active)
    (dst : ClientID) (x y : ℤ) (forScreensaver : Bool) :
    Reads env s ((s.setFocus f).switchScreen env dst x y forScreensaver) :=
  Reads.after (clipsKept_setFocus s f) hf (reads_switchScreen _ env dst x y forScreensaver)

theorem reads_enterSaver (s : Server) (env : Env) : Reads env s (s.enterSaver env) := by
  simp only [Server.enterSaver]
  split_ifs
  · exact reads_setFocus s env (f := ⟨s.focus.active, some s.focus.active, s.mouse.x, s.mouse.y⟩)
      rfl primaryClient 0 0 true
  · exact .of_kept (clipsKept_setFocus s _) rfl

theorem reads_leaveSaver (s : Server) (env : Env) : Reads env s (s.leaveSaver env) := by
  simp only [Server.leaveSaver]
  split
  · exact .refl s
  · rename_i screen hsaver
    split_ifs
    · exact .refl s
    · have hswitch (x y : ℤ) : Reads env s ((s.setFocus
          { s.focus with xSaver := x, ySaver := y }).switchScreen env screen x y false) :=
        reads_setFocus s env (f := { s.focus with xSaver := x, ySaver := y }) rfl screen x y false
      exact hswitch _ _

theorem reads_onScreensaver (s : Server) (env : Env) (activated : Bool) :
    Reads env s (s.onScreensaver env activated) := by
  simp only [Server.onScreensaver]
  -- The screens are told last.
  refine Reads.before ?_ (ClipsKept.foldl (fun s c => clipsKept_notice s _) _ _).clipboards
    (congrArg Focus.active (Still.foldl (fun s c => still_notice s _) _ _).focus)
  split_ifs
  · exact reads_enterSaver s env
  · exact (reads_leaveSaver s env).before rfl rfl

theorem reads_handleShapeChanged (hst : s.handleShapeChanged env c = some s') :
    Reads env s s' := by
  have hproxy (p : ℤ × ℤ) : ClipsKept s (s.setProxy c { s.proxies c with jumpCursorPos := p }) :=
    clipsKept_setProxy s c _ fun _ => rfl
  simp only [Server.handleShapeChanged] at hst
  split_ifs at hst
  · cases hst
    exact .refl s
  · exact Reads.after ((hproxy _).trans (clipsKept_mouse _ _)) rfl (reads_onMouseMovePrimary hst)
  · exact Reads.after (hproxy _) rfl (reads_onMouseMoveSecondary hst)
  · cases hst
    exact .of_kept ((hproxy _).trans (clipsKept_mouse _ _)) rfl
  · cases hst
    exact .of_kept (hproxy _) rfl

/-! ### Events -/

theorem reads_reloadConfig (s : Server) (env : Env) (cfg : Config) :
    Reads env s (s.reloadConfig env cfg) := by
  simp only [Server.reloadConfig]
  cases hset : Server.setConfig { s with config := cfg } env with
  | none => exact .of_clipboards rfl (.inl rfl)
  | some s₁ =>
    have haimed := (setConfig_spec hset).2
    have hclose : Vacated { s with config := cfg }
        (Server.closeClients { s with config := cfg } env cfg) :=
      .foldl (fun s c => vacated_closeClient s env c _) _ _
    have hactive := hclose.active
    rw [← haimed.focus] at hactive
    have hclipboards := clipboards_of_setConfig hset
    exact .of_clipboards hclipboards hactive

theorem reads_adoptClient (s : Server) (env : Env) (c : ClientID) :
    Reads env s (s.adoptClient env c) := by
  obtain ⟨msg, hclose⟩ | ⟨s₂, hadd, hstill, -, hclips⟩ := adoptClient_cases s env c
  · rw [hclose]
    exact .of_vacated ((vacated_dequeue s c).trans (vacated_closeClient _ env c msg))
  · obtain ⟨-, hstill', -, hclips'⟩ := addClient_spec hadd
    refine .of_clipboards (hclips.clipboards.trans hclips'.clipboards) (.inl ?_)
    rw [hstill.focus, hstill'.focus]
    rfl

/-- The event brings news about a clipboard. -/
def Event.aboutClipboard : Event → Bool
  | .clipboardGrabbed .. | .clipboardChanged .. => true
  | _ => false

/-- An event that brings no news about a clipboard leaves the clipboards alone, unless it leaves
the primary screen. -/
theorem reads_of_step {e : Event} (he : e.aboutClipboard = false) (hst : s.step env e = some s') :
    Reads env s s' := by
  have hstay {s' : Server} (hk : ClipsKept s s') (hstill : Still s s') : Reads env s s' :=
    .of_kept hk (by rw [hstill.focus])
  cases e with
  | clipboardGrabbed | clipboardChanged => cases he
  | clientConnected ident info =>
    cases hst
    exact .of_clipboards rfl (.inl rfl)
  | adoptClient c =>
    simp only [Server.step] at hst
    split_ifs at hst
    cases hst
    exact reads_adoptClient s env c
  | clientDisconnected c =>
    simp only [Server.step] at hst
    split_ifs at hst
    · cases hst
      exact .of_vacated (vacated_dequeue s c)
    · cases hst
      exact .of_vacated (vacated_handleClientDisconnected s env c)
  | clientCloseTimeout c =>
    simp only [Server.step] at hst
    split_ifs at hst
    cases hst
    exact .of_vacated (vacated_removeOldClient s c)
  | reloadConfig cfg =>
    cases hst
    exact reads_reloadConfig s env cfg
  | disconnect =>
    cases hst
    exact .of_vacated (vacated_disconnect s env)
  | screensaver activated =>
    cases hst
    exact reads_onScreensaver s env activated
  | switchToScreen screen =>
    cases hst
    simp only [handleSwitchToScreenEvent]
    split
    · exact .refl s
    · exact reads_jumpToScreen s env _
  | toggleScreen =>
    cases hst
    obtain heq | ⟨c, -, heq⟩ := handleToggleScreenEvent_cases s env
    · rw [heq]
      exact .refl s
    · rw [heq]
      exact reads_jumpToScreen s env c
  | switchInDirection dir =>
    obtain ⟨r, -, rfl⟩ := Option.map_eq_some_iff.1 hst
    split
    · exact .refl s
    · exact reads_jumpToScreen s env _
  | lockCursorToScreen mode =>
    cases hst
    exact hstay (clipsKept_handleLockCursorToScreenEvent s mode)
      (still_handleLockCursorToScreenEvent s mode)
  | motionPrimary x y => exact reads_onMouseMovePrimary hst
  | motionSecondary dx dy => exact reads_onMouseMoveSecondary hst
  | switchWait =>
    simp only [Server.step] at hst
    split_ifs at hst
    simp only [handleSwitchWaitEvent] at hst
    split_ifs at hst
    · cases hst
      exact .of_kept (clipsKept_setPending s _) rfl
    · obtain ⟨c, -, rfl⟩ := Option.map_eq_some_iff.1 hst
      exact reads_switchScreen s env c _ _ false
  | info c info =>
    cases hst
    exact hstay (clipsKept_setProxy s c _ fun _ => rfl) (still_setProxy s c _)
  | shapeChanged c => exact reads_handleShapeChanged hst
  | clipboardReceived c id seqNum data =>
    simp only [Server.step] at hst
    split_ifs at hst
    obtain ⟨clipboard, -, rfl⟩ := Option.map_eq_some_iff.1 hst
    exact hstay (clipsKept_setClientClipboard s rfl) (still_setProxy s c _)
  | filePasteRequested c request =>
    simp only [Server.step] at hst
    split_ifs at hst
    cases hst
    exact hstay (clipsKept_filePasteRequested s c request) (still_filePasteRequested s c request)
  | filePasteStatus c status =>
    simp only [Server.step] at hst
    split_ifs at hst
    cases hst
    exact hstay (clipsKept_filePasteStatus s c status) (still_filePasteStatus s c status)
  | mouseDown | dragInfoSent =>
    cases hst
    exact .of_kept (clipsKept_drag s _) rfl

/-! ### Agreement -/

theorem agree_handleClipboardGrabbed (h : Agree s) (c : ClientID) (id : ClipboardID)
    (seqNum : ℕ) : Agree (s.handleClipboardGrabbed c id seqNum) := by
  obtain ⟨-, heq⟩ | ⟨-, heq⟩ := handleClipboardGrabbed_cases s c id seqNum
  · rw [heq]
    exact h
  · intro id'
    have htold := ((tells_grab id c).foldl (s.withInfo id (s.grabbedInfo c seqNum)).clientList
      (s.withInfo id (s.grabbedInfo c seqNum))).2.2.1
    rw [heq, tellGrab, htold, clipboards_withInfo]
    split_ifs
    · rfl
    · exact h id'

theorem agree_update_iff {limit : ℕ} {clipboard : Clipboard} (h : Agree s) (hs' : s'.clipboards =
      Function.update s.clipboards id ((s.clipboards id).store limit clipboard)) :
    Agree s' ↔ ((s.clipboards id).store limit clipboard).Agrees := by
  refine ⟨fun h' => ?_, fun hid id' => ?_⟩
  · have hid := h' id
    rwa [hs', Function.update_self] at hid
  · rw [hs']
    by_cases hsame : id' = id
    · subst hsame
      rwa [Function.update_self]
    · rw [Function.update_of_ne hsame]
      exact h id'

theorem collected_agrees_iff (h : Agree s) : (s.collected env id).Agrees ↔
    ((s.clipboards id).owner = s.getName primaryClient →
      ∀ clipboard ∈ env.clipboard id, s.Fits id clipboard) := by
  unfold collected
  split_ifs with howner
  · cases hread : env.clipboard id with
    | none => exact iff_of_true (h id) fun _ _ hin => by cases hin
    | some clipboard =>
      refine ClipboardInfo.store_agrees_iff.trans
        ⟨fun hfits _ clipboard' hin => ?_, fun hfits => ?_⟩
      · obtain rfl := Option.some.inj hin
        exact hfits
      · exact hfits howner clipboard rfl
  · exact iff_of_true (h id) fun hmine => absurd hmine howner

/-- When the primary screen is left, the two forms still agree exactly if what was read fits. -/
theorem Reads.agree_iff (hr : Reads env s s') (h : Agree s) : Agree s' ↔
    (LeavesPrimary s s' → ∀ id ∈ ClipboardID.all,
      (s.clipboards id).owner = s.getName primaryClient →
        ∀ clipboard ∈ env.clipboard id, s.Fits id clipboard) := by
  unfold Reads at hr
  split_ifs at hr with hleaves
  · refine ⟨fun h' _ id _ => ?_, fun hfits id => ?_⟩
    · have hid := h' id
      rw [hr] at hid
      exact (collected_agrees_iff h).1 hid
    · rw [hr]
      exact (collected_agrees_iff h).2 (hfits hleaves id (ClipboardID.mem_all id))
  · refine iff_of_true (fun id => ?_) fun hleaves' => absurd hleaves' hleaves
    rw [hr]
    exact h id

theorem agree_onClipboardChanged_iff (h : Agree s) {seqNum : ℕ} :
    Agree (s.onClipboardChanged env c id seqNum) ↔ ((s.clipboards id).seqNum ≤ seqNum →
      ∀ clipboard ∈ s.getClipboard env c id, s.Fits id clipboard) := by
  have hclipboards := clipboards_onClipboardChanged s env c id seqNum
  split_ifs at hclipboards with hold
  · refine iff_of_true (fun id' => ?_) fun hnew => absurd hold (not_lt.2 hnew)
    rw [hclipboards]
    exact h id'
  · cases hget : s.getClipboard env c id with
    | none =>
      rw [hget] at hclipboards
      refine iff_of_true (fun id' => ?_) fun _ _ hin => by cases hin
      rw [hclipboards]
      exact h id'
    | some clipboard =>
      rw [hget] at hclipboards
      refine (agree_update_iff h hclipboards).trans (ClipboardInfo.store_agrees_iff.trans ?_)
      refine ⟨fun hfits _ clipboard' hin => ?_, fun hfits => hfits (not_lt.1 hold) clipboard rfl⟩
      obtain rfl := Option.some.inj hin
      exact hfits

/-- From a state in which the two forms agree, a step leads to another exactly if what it stores
fits. -/
theorem agree_step_iff (h : Agree s) {e : Event} (hst : s.step env e = some s') :
    Agree s' ↔ s.Small (env, e) := by
  have hleaves : (∃ s' ∈ s.step env e, LeavesPrimary s s') ↔ LeavesPrimary s s' := by
    refine ⟨?_, fun hleaves => ⟨s', hst, hleaves⟩⟩
    rintro ⟨s₁, hs₁, hleaves⟩
    obtain rfl := Option.some.inj (hst.symm.trans hs₁)
    exact hleaves
  have hstill (hfocus : s'.focus = s.focus) : ¬LeavesPrimary s s' := by
    rintro ⟨hprimary, -, hleft⟩
    rw [hfocus] at hleft
    exact hleft hprimary
  unfold Small
  rw [hleaves]
  cases he : e.aboutClipboard with
  | false =>
    have hdata : e.data = none := by
      cases e with
      | clipboardGrabbed | clipboardChanged => cases he
      | _ => rfl
    simp only [hdata, Option.not_mem_none, false_implies, implies_true, true_and]
    exact (reads_of_step he hst).agree_iff h
  | true =>
    cases e with
    | clipboardGrabbed c id seqNum =>
      cases hst
      refine iff_of_true (agree_handleClipboardGrabbed h c id seqNum)
        ⟨fun d hd => (by cases hd), ?_⟩
      exact fun hleaves =>
        absurd hleaves (hstill (still_handleClipboardGrabbed s c id seqNum).focus)
    | clipboardChanged c id seqNum =>
      cases hst
      have hstay := hstill (still_handleClipboardChanged s env c id seqNum).focus
      simp only [hstay, false_implies, and_true, Event.data, Option.mem_some_iff, forall_eq']
      by_cases hc : c ∈ s.registry.clientSet
      · have hcontains : s.registry.clientSet.contains c = true := hc
        simp only [handleClipboardChanged, hcontains, Bool.not_true, Bool.false_eq_true, if_false]
        exact (agree_onClipboardChanged_iff h).trans ⟨fun hfits _ => hfits, fun hfits => hfits hc⟩
      · have hcontains : s.registry.clientSet.contains c = false := Bool.eq_false_iff.2 hc
        simp only [handleClipboardChanged, hcontains, Bool.not_false, if_true]
        exact iff_of_true h fun hmem => absurd hmem hc
    | _ => cases he

theorem agree_create {cfg : Config} {primary : Ident} {info : ScreenInfo} {enableDragDrop : Bool}
    (h : create env cfg primary info enableDragDrop = some s) : Agree s := by
  obtain ⟨s₁, s₂, hadd, hset, rfl⟩ := create_spec h
  obtain ⟨-, -, -, hclips⟩ := addClient_spec hadd
  intro id
  have hinfo : s₂.clipboards id = s₁.clipboards id := by rw [clipboards_of_setConfig hset]
  change (s₂.clipboards id).Agrees
  rw [hinfo, hclips.clipboards]
  rfl

/-- **The marshalled form agrees with the object** in every run that stores no content over the
limit; and from there the next step keeps them in agreement exactly if it stores none either. -/
theorem agree_of_reachable (hs : lts.ReachableVia Small s) :
    Agree s ∧ ∀ env e s', s.step env e = some s' → (Agree s' ↔ s.Small (env, e)) := by
  have hagree : Agree s := by
    refine hs.invariant ?_ fun s l s' h hsmall hst => (agree_step_iff h hst).2 hsmall
    rintro s ⟨env, cfg, primary, info, enableDragDrop, hcreate⟩
    exact agree_create hcreate
  exact ⟨hagree, fun env e s' hst => agree_step_iff hagree hst⟩

/-- The text that `c` sends is within the limit. -/
theorem agree_of_reachable_sendText : ∃ s : Server,
    (s.clipboards .clipboard).data = textX.marshall ∧
      Agree s ∧ ∀ env e s', s.step env e = some s' → (Agree s' ↔ s.Small (env, e)) := by
  have hrun : (run {} threeScreens ⟨"p", true⟩ ⟨0, 0, 100, 100, 50, 50⟩ false
      (bothConnect ++ grabOnC ++ sendText 2)).map (fun s => (s.clipboards .clipboard).data) =
      some textX.marshall := by decide +kernel
  obtain ⟨s, hs, hdata⟩ := Option.map_eq_some_iff.1 hrun
  exact ⟨s, hdata, agree_of_reachable (reachableVia_of_run hs (by decide +kernel))⟩

/-- The screens with a limit of ten bytes. -/
def tenBytes : Config :=
  { threeScreens with
    globalOptions := (∅ : ScreenOptions).insert .clipboardSharingSize 10 }

/-- When `c` sends the text although the limit is ten bytes, the object holds the text but the
marshalled form is still that of the empty clipboard. -/
theorem not_agree_of_reachable : ¬∀ s, lts.Reachable s → Agree s := by
  intro h
  have hrun : (run {} tenBytes ⟨"p", true⟩ ⟨0, 0, 100, 100, 50, 50⟩ false
      (bothConnect ++ grabOnC ++ sendText 2)).map (fun s =>
        decide (s.clipboards .clipboard).Agrees) = some false := by decide +kernel
  obtain ⟨s, hs, hdisagree⟩ := Option.map_eq_some_iff.1 hrun
  exact of_decide_eq_false hdisagree (h s (reachable_of_run hs) .clipboard)

end Server

end InputLeap
