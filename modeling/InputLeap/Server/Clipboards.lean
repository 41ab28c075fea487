import InputLeap.Server.Cursor

/-!
# The clipboards of the server and of the screens

What grabs, data and switches do to the clipboards.

## Main definitions

* `Server.delivered` : the content that was sent to a screen last.
* `Server.dirty` : whether a screen's clipboard is to be sent when the screen is entered.
* `Server.ClipsKept` : the clipboards stay as they are.
* `Server.Tells` : a function that tells one screen about a clipboard.

## Main results

* `handleClipboardGrabbed_cases`, `onClipboardChanged_cases` : a grab or data is refused, or the
  clipboard changes and every screen is told.
-/

namespace InputLeap

namespace Server

/-- The content that the calls sent to a clipboard of the screen last. -/
def lastDelivered (c : ClientID) (id : ClipboardID) : List ScreenCall → Option Clipboard
  | [] => none
  | .setClipboard d id' clipboard :: calls =>
    if d = c ∧ id' = id then some clipboard else lastDelivered c id calls
  | .enter .. :: calls => lastDelivered c id calls
  | .leave .. :: calls => lastDelivered c id calls
  | .grabClipboard .. :: calls => lastDelivered c id calls

variable (s : Server)

/-- The content that was sent to a clipboard of the screen last. -/
def delivered (c : ClientID) (id : ClipboardID) : Option Clipboard :=
  lastDelivered c id s.log.screens

/-- The screen's clipboard is to be sent when the screen is entered. -/
def dirty (c : ClientID) (id : ClipboardID) : Bool := ((s.proxies c).clipboard id).dirty

variable {s} {s' s'' : Server} {env : Env} {c : ClientID} {id : ClipboardID}

/-! ### Clipboards of the screens -/

theorem dirty_setClientClipboard (s : Server) (c d : ClientID) (id id' : ClipboardID)
    (cc : ClientClipboard) : (s.setClientClipboard d id' cc).dirty c id =
      if c = d ∧ id = id' then cc.dirty else s.dirty c id := by
  simp only [dirty, setClientClipboard, setProxy]
  by_cases hc : c = d
  · subst hc
    by_cases hid : id = id'
    · subst hid
      simp
    · simp [hid]
  · simp [hc]

theorem dirty_setClipboard (s : Server) (c d : ClientID) (id id' : ClipboardID)
    (clipboard : Clipboard) : (s.setClipboard d id' clipboard).dirty c id =
      if c = d ∧ id = id' then false else s.dirty c id := by
  simp only [setClipboard]
  split_ifs with hdirty h h
  · exact (dirty_setClientClipboard s c d id id' _).trans (by rw [if_pos h])
  · exact (dirty_setClientClipboard s c d id id' _).trans (by rw [if_neg h])
  · obtain ⟨rfl, rfl⟩ := h
    exact Bool.eq_false_iff.2 hdirty
  · rfl

/-- After `setClipboard` the screen's clipboard holds the content, if it was dirty. -/
theorem delivered_setClipboard (s : Server) (c d : ClientID) (id id' : ClipboardID)
    (clipboard : Clipboard) : (s.setClipboard d id' clipboard).delivered c id =
      if c = d ∧ id = id' ∧ s.dirty c id = true then some clipboard.copy
      else s.delivered c id := by
  by_cases h : c = d ∧ id = id'
  · obtain ⟨rfl, rfl⟩ := h
    simp only [setClipboard, true_and]
    split_ifs with hdirty hdirty' hdirty'
    · simp [delivered, callScreen, lastDelivered]
    · exact absurd hdirty hdirty'
    · exact absurd hdirty' hdirty
    · rfl
  · have hne : ¬(d = c ∧ id' = id) := fun h' => h ⟨h'.1.symm, h'.2.symm⟩
    have hne' : ¬(c = d ∧ id = id' ∧ s.dirty c id = true) := fun h' => h ⟨h'.1, h'.2.1⟩
    simp only [setClipboard, hne', if_false]
    split_ifs
    · simp only [delivered, callScreen, lastDelivered, hne, if_false]
      rfl
    · rfl

theorem clipboards_setClipboard (s : Server) (c : ClientID) (id : ClipboardID)
    (clipboard : Clipboard) : (s.setClipboard c id clipboard).clipboards = s.clipboards := by
  simp only [setClipboard]
  split_ifs <;> rfl

/-! ### Frames -/

/-- The configuration stays, and so does what is stored, what was sent and what is to be sent, for
the screens that do. -/
structure ClipsKept (s s' : Server) : Prop where
  config : s'.config = s.config
  filterRules : s'.filterRules = s.filterRules
  ident : s'.registry.ident = s.registry.ident
  next : s'.registry.next = s.registry.next
  options : s'.options = s.options
  clipboards : s'.clipboards = s.clipboards
  dirty : ∀ c id, s'.dirty c id = s.dirty c id
  delivered : ∀ c id, s'.delivered c id = s.delivered c id
  connected : ∀ c ∈ s'.registry.clientSet, c ∈ s.registry.clientSet
  waiting : ∀ c ∈ s'.registry.waiting, c ∈ s.registry.waiting

namespace ClipsKept

theorem refl (s : Server) : ClipsKept s s :=
  ⟨rfl, rfl, rfl, rfl, rfl, rfl, fun _ _ => rfl, fun _ _ => rfl, fun _ hc => hc, fun _ hc => hc⟩

theorem trans (h : ClipsKept s s') (h' : ClipsKept s' s'') : ClipsKept s s'' :=
  ⟨h'.config.trans h.config, h'.filterRules.trans h.filterRules, h'.ident.trans h.ident,
    h'.next.trans h.next, h'.options.trans h.options, h'.clipboards.trans h.clipboards,
    fun c id => (h'.dirty c id).trans (h.dirty c id),
    fun c id => (h'.delivered c id).trans (h.delivered c id),
    fun c hc => h.connected c (h'.connected c hc), fun c hc => h.waiting c (h'.waiting c hc)⟩

theorem foldl {α : Type*} {f : Server → α → Server} (hf : ∀ s a, ClipsKept s (f s a))
    (l : List α) (s : Server) : ClipsKept s (l.foldl f s) := by
  induction l generalizing s with
  | nil => exact refl s
  | cons a l ih => exact (hf s a).trans (ih _)

theorem getName (h : ClipsKept s s') (c : ClientID) : s'.getName c = s.getName c := by
  simp only [Server.getName, h.config, h.ident]

end ClipsKept

theorem clipsKept_notice (s : Server) (k : Notice) : ClipsKept s (s.notice k) :=
  ⟨rfl, rfl, rfl, rfl, rfl, rfl, fun _ _ => rfl, fun _ _ => rfl, fun _ hc => hc, fun _ hc => hc⟩

theorem clipsKept_setPending (s : Server) (p : Pending) : ClipsKept s (s.setPending p) :=
  ⟨rfl, rfl, rfl, rfl, rfl, rfl, fun _ _ => rfl, fun _ _ => rfl, fun _ hc => hc, fun _ hc => hc⟩

theorem clipsKept_setFocus (s : Server) (f : Focus) : ClipsKept s (s.setFocus f) :=
  ⟨rfl, rfl, rfl, rfl, rfl, rfl, fun _ _ => rfl, fun _ _ => rfl, fun _ hc => hc, fun _ hc => hc⟩

theorem clipsKept_mouse (s : Server) (m : Mouse) : ClipsKept s { s with mouse := m } :=
  ⟨rfl, rfl, rfl, rfl, rfl, rfl, fun _ _ => rfl, fun _ _ => rfl, fun _ hc => hc, fun _ hc => hc⟩

theorem clipsKept_drag (s : Server) (d : Drag) : ClipsKept s { s with drag := d } :=
  ⟨rfl, rfl, rfl, rfl, rfl, rfl, fun _ _ => rfl, fun _ _ => rfl, fun _ hc => hc, fun _ hc => hc⟩

theorem clipsKept_noteMapped (s : Server) (r : Option (ClientID × ℤ × ℤ)) :
    ClipsKept s (s.noteMapped r) := by
  cases r with
  | none => exact .refl s
  | some m =>
    exact ⟨rfl, rfl, rfl, rfl, rfl, rfl, fun _ _ => rfl, fun _ _ => rfl, fun _ hc => hc,
      fun _ hc => hc⟩

/-- Anything about a proxy but its clipboards changes. -/
theorem clipsKept_setProxy (s : Server) (c : ClientID) (p : Proxy)
    (hp : ∀ id, (p.clipboard id).dirty = ((s.proxies c).clipboard id).dirty) :
    ClipsKept s (s.setProxy c p) := by
  refine ⟨rfl, rfl, rfl, rfl, rfl, rfl, fun d id => ?_, fun _ _ => rfl, fun _ hc => hc,
    fun _ hc => hc⟩
  simp only [dirty, setProxy]
  by_cases hd : d = c
  · subst hd
    rw [Function.update_self]
    exact hp id
  · rw [Function.update_of_ne hd]

/-- The content of a clipboard of a proxy changes, but not whether it is dirty. -/
theorem clipsKept_setClientClipboard (s : Server) {cc : ClientClipboard}
    (hcc : cc.dirty = s.dirty c id) : ClipsKept s (s.setClientClipboard c id cc) := by
  refine ⟨rfl, rfl, rfl, rfl, rfl, rfl, fun d id' => ?_, fun _ _ => rfl, fun _ hd => hd,
    fun _ hd => hd⟩
  rw [dirty_setClientClipboard]
  split_ifs with hsame
  · obtain ⟨rfl, rfl⟩ := hsame
    exact hcc
  · rfl

theorem clipsKept_noSwitch (s : Server) (env : Env) (x y : ℤ) :
    ClipsKept s (s.noSwitch env x y) := by
  refine ClipsKept.trans ?_ (clipsKept_setPending _ _)
  simp only [armSwitchTwoTap]
  split_ifs
  all_goals first | exact .refl s | exact clipsKept_setPending s _

theorem clipsKept_leaveBorder (s : Server) (env : Env) (i : ScreenInfo) (x y : ℤ) :
    ClipsKept s (s.leaveBorder env i x y) := by
  unfold leaveBorder
  split_ifs
  · exact clipsKept_noSwitch s env x y
  · exact .refl s

theorem clipsKept_stayOnScreen (s : Server) (xOld yOld dx dy : ℤ) :
    ClipsKept s (s.stayOnScreen xOld yOld dx dy) := by
  simp only [stayOnScreen]
  split_ifs
  · exact (clipsKept_mouse s _).trans (clipsKept_notice _ _)
  · exact clipsKept_mouse s _

theorem clipsKept_isSwitchOkay (s : Server) (env : Env) (newScreen : Option ClientID)
    (dir : Direction) (x y xActive yActive : ℤ) :
    ClipsKept s (s.isSwitchOkay env newScreen dir x y xActive yActive).1 := by
  cases newScreen with
  | none => exact clipsKept_setPending s _
  | some c =>
    refine isSwitchOkay_induction (clipsKept_setPending s _) fun s' h => ?_
    exact h.trans (clipsKept_setPending s' _)

theorem clipsKept_tryEdge {dir : Direction} {p : ℤ × ℤ} {xActive yActive : ℤ}
    {t : Option (ClientID × ℤ × ℤ)} (h : s.tryEdge env dir p xActive yActive = some (s', t)) :
    ClipsKept s s' := by
  obtain ⟨r, -, hr⟩ := Option.map_eq_some_iff.1 h
  obtain ⟨rfl, -⟩ := Prod.mk.inj hr
  exact (clipsKept_noteMapped s r).trans (clipsKept_isSwitchOkay _ env _ _ _ _ _ _)

theorem clipsKept_enterClient (s : Server) (env : Env) (c : ClientID) (x y : ℤ)
    (forScreensaver : Bool) : ClipsKept s (s.enterClient env c x y forScreensaver) :=
  ⟨rfl, rfl, rfl, rfl, rfl, rfl, fun _ _ => rfl, fun _ _ => rfl, fun _ hc => hc, fun _ hc => hc⟩

theorem clipsKept_leaveClient (s : Server) (env : Env) (c : ClientID) :
    ClipsKept s (s.leaveClient env c) :=
  ⟨rfl, rfl, rfl, rfl, rfl, rfl, fun _ _ => rfl, fun _ _ => rfl, fun _ hc => hc, fun _ hc => hc⟩

theorem clipsKept_callPaste (s : Server) (k : PasteCall) : ClipsKept s (s.callPaste k) :=
  ⟨rfl, rfl, rfl, rfl, rfl, rfl, fun _ _ => rfl, fun _ _ => rfl, fun _ hc => hc, fun _ hc => hc⟩

theorem clipsKept_filePastes (s : Server) (pastes : Std.TreeMap String FilePaste) :
    ClipsKept s { s with filePastes := pastes } :=
  ⟨rfl, rfl, rfl, rfl, rfl, rfl, fun _ _ => rfl, fun _ _ => rfl, fun _ hc => hc, fun _ hc => hc⟩

theorem clipsKept_endFilePaste (s : Server) (name : String) (paste : String × FilePaste) :
    ClipsKept s (s.endFilePaste name paste) := by
  simp only [endFilePaste]
  split_ifs
  · split
    · exact clipsKept_filePastes s _
    · exact (clipsKept_filePastes s _).trans (clipsKept_callPaste _ _)
  · exact clipsKept_filePastes s _
  · exact .refl s

theorem clipsKept_filePasteRequested (s : Server) (c : ClientID) (request : FilePasteRequest) :
    ClipsKept s (s.filePasteRequested c request) := by
  refine (clipsKept_callPaste s (.requested c request.request)).trans ?_
  simp only [filePasteRequested]
  split
  · exact clipsKept_callPaste _ _
  · exact (clipsKept_filePastes _ _).trans (clipsKept_callPaste _ _)

theorem clipsKept_filePasteStatus (s : Server) (c : ClientID) (status : FilePasteStatus) :
    ClipsKept s (s.filePasteStatus c status) := by
  simp only [filePasteStatus]
  split
  · exact .refl s
  · split_ifs
    · exact .refl s
    · split
      · exact clipsKept_filePastes s _
      · exact (clipsKept_filePastes s _).trans (clipsKept_callPaste _ _)
    · split
      · exact .refl s
      · exact clipsKept_callPaste s _

theorem clipsKept_handleLockCursorToScreenEvent (s : Server) (mode : InputFilter.Mode) :
    ClipsKept s (s.handleLockCursorToScreenEvent mode) := by
  have hlock (b : Bool) : ClipsKept s { s with lockedToScreen := b } :=
    ⟨rfl, rfl, rfl, rfl, rfl, rfl, fun _ _ => rfl, fun _ _ => rfl, fun _ hc => hc, fun _ hc => hc⟩
  have hstop (s : Server) : ClipsKept s s.stopRelativeMoves := by
    simp only [stopRelativeMoves]
    split_ifs
    · exact (clipsKept_mouse s _).trans (clipsKept_notice _ _)
    · exact .refl s
  simp only [handleLockCursorToScreenEvent]
  split_ifs
  · exact .refl s
  · exact (hlock _).trans (clipsKept_notice _ _)
  · exact ((hlock _).trans (clipsKept_notice _ _)).trans (hstop _)

/-! ### Telling the screens -/

theorem dirty_setClipboardDirty (s : Server) (c d : ClientID) (id id' : ClipboardID) (b : Bool) :
    (s.setClipboardDirty d id' b).dirty c id = if c = d ∧ id = id' then b else s.dirty c id :=
  dirty_setClientClipboard s c d id id' _

theorem dirty_grabClipboard (s : Server) (c d : ClientID) (id id' : ClipboardID) :
    (s.grabClipboard d id').dirty c id = if c = d ∧ id = id' then true else s.dirty c id :=
  dirty_setClientClipboard (s.callScreen (.grabClipboard d id')) c d id id' _

/-- A function of the server that tells one screen about a clipboard: it sets the dirty flag of
that screen and nothing else that matters here. -/
structure Tells (id : ClipboardID) (f : ClientID → Bool) (F : Server → ClientID → Server) :
    Prop where
  keeps : ∀ s d, Keeps s (F s d)
  focus : ∀ s d, (F s d).focus = s.focus
  clipboards : ∀ s d, (F s d).clipboards = s.clipboards
  delivered : ∀ s d c id', (F s d).delivered c id' = s.delivered c id'
  dirty : ∀ s d c id', (F s d).dirty c id' = if c = d ∧ id' = id then f d else s.dirty c id'

theorem Tells.foldl {f : ClientID → Bool} {F : Server → ClientID → Server} (hF : Tells id f F)
    (l : List ClientID) (s : Server) :
    Keeps s (l.foldl F s) ∧ (l.foldl F s).focus = s.focus ∧
      (l.foldl F s).clipboards = s.clipboards ∧
      (∀ c id', (l.foldl F s).delivered c id' = s.delivered c id') ∧
      ∀ c id', (l.foldl F s).dirty c id' =
        if c ∈ l ∧ id' = id then f c else s.dirty c id' := by
  induction l generalizing s with
  | nil => exact ⟨.refl s, rfl, rfl, fun _ _ => rfl, fun c id' => by simp⟩
  | cons d l ih =>
    obtain ⟨hk, hf, hcl, hdel, hdirty⟩ := ih (F s d)
    refine ⟨(hF.keeps s d).trans hk, hf.trans (hF.focus s d), hcl.trans (hF.clipboards s d),
      fun c id' => (hdel c id').trans (hF.delivered s d c id'), fun c id' => ?_⟩
    rw [List.foldl_cons, hdirty, hF.dirty]
    by_cases hl : c ∈ l <;> by_cases hid : id' = id <;> by_cases hcd : c = d <;>
      simp [hl, hid, hcd, List.mem_cons]

theorem tells_setClipboardDirty (id : ClipboardID) (g : ClientID) :
    Tells id (fun c => c != g) fun s c => s.setClipboardDirty c id (c != g) where
  keeps s d := keeps_setClipboardDirty s d id _
  focus _ _ := rfl
  clipboards _ _ := rfl
  delivered _ _ _ _ := rfl
  dirty s d c id' := dirty_setClipboardDirty s c d id' id _

theorem tells_grab (id : ClipboardID) (g : ClientID) :
    Tells id (fun c => c != g)
      fun s c => if c = g then s.setClipboardDirty c id false else s.grabClipboard c id where
  keeps s d := by
    split_ifs
    · exact keeps_setClipboardDirty s d id _
    · exact keeps_grabClipboard s d id
  focus s d := by split_ifs <;> rfl
  clipboards s d := by split_ifs <;> rfl
  delivered s d c id' := by split_ifs <;> rfl
  dirty s d c id' := by
    by_cases hd : d = g
    · subst hd
      simp only [if_true, bne_self_eq_false]
      exact dirty_setClipboardDirty s c d id' id false
    · have hb : (d != g) = true := by simpa using hd
      simp only [hd, if_false, hb]
      exact dirty_grabClipboard s c d id' id

/-- The state with new information about a clipboard. -/
def withInfo (s : Server) (id : ClipboardID) (info : ClipboardInfo) : Server :=
  { s with clipboards := Function.update s.clipboards id info }

theorem clipboards_withInfo (s : Server) (id id' : ClipboardID) (info : ClipboardInfo) :
    (s.withInfo id info).clipboards id' = if id' = id then info else s.clipboards id' := by
  by_cases hid : id' = id
  · subst hid
    simp [withInfo]
  · simp [withInfo, hid]

/-- The state after every screen but `g` is told that its clipboard is not up to date. -/
def tellDirty (s : Server) (id : ClipboardID) (g : ClientID) : Server :=
  s.clientList.foldl (fun s c => s.setClipboardDirty c id (c != g)) s

/-- The state after every screen is told that `g` grabbed the clipboard. -/
def tellGrab (s : Server) (id : ClipboardID) (g : ClientID) : Server :=
  s.clientList.foldl
    (fun s c => if c = g then s.setClipboardDirty c id false else s.grabClipboard c id) s

/-- What a grab makes of a clipboard: it is empty. -/
def grabbedInfo (s : Server) (g : ClientID) (seqNum : ℕ) : ClipboardInfo :=
  ⟨Clipboard.clear 0, (Clipboard.clear 0).marshall, s.getName g, seqNum⟩

/-- A grab is accepted. -/
def AcceptsGrab (s : Server) (g : ClientID) (id : ClipboardID) (seqNum : ℕ) : Prop :=
  s.options.enableClipboard = true ∧ s.options.maximumClipboardSize ≠ 0 ∧
    g ∈ s.registry.clientSet ∧ (g = primaryClient ∨ (s.clipboards id).seqNum ≤ seqNum)

theorem handleClipboardGrabbed_cases (s : Server) (g : ClientID) (id : ClipboardID)
    (seqNum : ℕ) :
    ¬s.AcceptsGrab g id seqNum ∧ s.handleClipboardGrabbed g id seqNum = s ∨
    s.AcceptsGrab g id seqNum ∧ s.handleClipboardGrabbed g id seqNum =
      (s.withInfo id (s.grabbedInfo g seqNum)).tellGrab id g := by
  by_cases haccept : s.AcceptsGrab g id seqNum
  · refine .inr ⟨haccept, ?_⟩
    obtain ⟨henable, hsize, hmem, hseq⟩ := haccept
    have hcontains : s.registry.clientSet.contains g = true := hmem
    have hstale : ¬(g ≠ primaryClient ∧ seqNum < (s.clipboards id).seqNum) := by
      rintro ⟨hne, hlt⟩
      exact absurd (hseq.resolve_left hne) (not_le.2 hlt)
    simp only [handleClipboardGrabbed, henable, hsize, hcontains, hstale, Bool.not_true,
      Bool.false_eq_true, or_self, if_false]
    rfl
  · refine .inl ⟨haccept, ?_⟩
    unfold handleClipboardGrabbed
    split_ifs with hoff hgone hstale
    · rfl
    · rfl
    · rfl
    · refine absurd ⟨?_, ?_, ?_, ?_⟩ haccept
      · by_contra henable
        exact hoff (.inl (by simpa using henable))
      · exact fun hsize => hoff (.inr hsize)
      · simpa using hgone
      · by_contra hseq
        obtain ⟨hne, hlt⟩ := not_or.1 hseq
        exact hstale ⟨hne, not_le.1 hlt⟩

instance (s : Server) (g : ClientID) (id : ClipboardID) (seqNum : ℕ) :
    Decidable (s.AcceptsGrab g id seqNum) := inferInstanceAs (Decidable (_ ∧ _ ∧ _ ∧ (_ ∨ _)))

/-- Data of the clipboard is accepted. -/
def AcceptsData (s : Server) (env : Env) (c : ClientID) (id : ClipboardID) (seqNum : ℕ)
    (clipboard : Clipboard) : Prop :=
  (s.clipboards id).seqNum ≤ seqNum ∧ s.getClipboard env c id = some clipboard

theorem onClipboardChanged_cases (s : Server) (env : Env) (c : ClientID) (id : ClipboardID)
    (seqNum : ℕ) :
    (∀ clipboard, ¬s.AcceptsData env c id seqNum clipboard) ∧
      s.onClipboardChanged env c id seqNum = s ∨
    ∃ clipboard, s.AcceptsData env c id seqNum clipboard ∧
      ((s.options.maximumClipboardSize < clipboard.marshall.length ∨
          clipboard.marshall = (s.clipboards id).data) ∧
        s.onClipboardChanged env c id seqNum =
          s.withInfo id { s.clipboards id with clipboard := clipboard } ∨
      (clipboard.marshall.length ≤ s.options.maximumClipboardSize ∧
          clipboard.marshall ≠ (s.clipboards id).data) ∧
        s.onClipboardChanged env c id seqNum =
          ((s.withInfo id { s.clipboards id with
            clipboard := clipboard, data := clipboard.marshall }).tellDirty id c).setClipboard
              s.focus.active id clipboard) := by
  unfold AcceptsData onClipboardChanged
  by_cases hseq : seqNum < (s.clipboards id).seqNum
  · exact .inl ⟨fun clipboard h => absurd h.1 (not_le.2 hseq), by simp only [hseq, if_true]⟩
  · cases hget : s.getClipboard env c id with
    | none => exact .inl ⟨fun clipboard h => by simp at h, by simp only [hseq, if_false]⟩
    | some clipboard =>
      refine .inr ⟨clipboard, ⟨not_lt.1 hseq, rfl⟩, ?_⟩
      simp only [hseq, if_false]
      by_cases hlimit : s.options.maximumClipboardSize < clipboard.marshall.length
      · exact .inl ⟨.inl hlimit, by rw [if_pos hlimit]; rfl⟩
      · by_cases hsame : clipboard.marshall = (s.clipboards id).data
        · exact .inl ⟨.inr hsame, by rw [if_neg hlimit, if_pos hsame]; rfl⟩
        · refine .inr ⟨⟨not_lt.1 hlimit, hsame⟩, ?_⟩
          rw [if_neg hlimit, if_neg hsame]
          simp only [Function.update_self, Function.update_idem]
          -- Telling the screens does not change which one is active.
          set info : ClipboardInfo :=
            ⟨clipboard, clipboard.marshall, (s.clipboards id).owner, (s.clipboards id).seqNum⟩
          have hfocus : ((s.withInfo id info).tellDirty id c).focus = s.focus :=
            (Still.foldl (fun s d => still_setClipboardDirty s d id _) _ _).focus
          exact congrArg (fun f : Focus =>
            ((s.withInfo id info).tellDirty id c).setClipboard f.active id clipboard) hfocus

end Server

end InputLeap
