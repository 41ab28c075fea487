import InputLeap.Server.Clipboards
import InputLeap.Server.FilePaste

/-!
# Clean clipboards hold what is stored

The server sends a screen the content of a clipboard only if the screen's clipboard is dirty.
A clean clipboard is one that the screen owns or that holds what the server stores, as long as
data comes from owners only: `onClipboardChanged` marks the sender's clipboard clean whoever owns
it.

## Main definitions

* `Server.FreshInv` : clean clipboards of screens that are not the owner hold what is stored.
* `Server.Spoils` : data that changes the stored content comes from a screen that does not own
  the clipboard.
* `Server.Sent` : the active screen has what is stored.

## Main results

* `FreshInv.handleClipboardGrabbed`, `FreshInv.onClipboardChanged` : grabs keep `FreshInv`, and
  so does data that does not spoil it.
* `FreshInv.switchScreen` : a switch keeps `FreshInv`, and the screen that it enters has what is
  stored.
-/

namespace InputLeap

namespace Server

variable (s : Server)

/-- The content of the clipboard is stored and small enough to be sent. -/
def WithinLimit (id : ClipboardID) : Prop :=
  (s.clipboards id).clipboard.marshall.length ≤ s.options.maximumClipboardSize

instance (id : ClipboardID) : Decidable (s.WithinLimit id) := inferInstanceAs (Decidable (_ ≤ _))

/-- A clean clipboard is one that the screen owns or that holds what is stored. -/
structure FreshInv : Prop where
  clean : ∀ {c id}, c ∈ s.registry.clientSet → s.dirty c id = false →
    s.getName c = (s.clipboards id).owner ∨
      ∃ d, s.delivered c id = some d ∧ d.marshall = (s.clipboards id).data
  /-- A client that is not adopted yet has nothing. -/
  waiting : ∀ {c id}, c ∈ s.registry.waiting → s.dirty c id = true
  stored : ∀ {id}, s.WithinLimit id →
    (s.clipboards id).clipboard.marshall = (s.clipboards id).data

/-- The data changes what is stored and comes from a screen that does not own the clipboard. -/
def Spoils (env : Env) (c : ClientID) (id : ClipboardID) (seqNum : ℕ) : Prop :=
  (s.clipboards id).seqNum ≤ seqNum ∧ (s.clipboards id).owner ≠ s.getName c ∧
    ∃ clipboard ∈ s.getClipboard env c id,
      clipboard.marshall.length ≤ s.options.maximumClipboardSize ∧
        clipboard.marshall ≠ (s.clipboards id).data

instance (env : Env) (c : ClientID) (id : ClipboardID) (seqNum : ℕ) :
    Decidable (s.Spoils env c id seqNum) := inferInstanceAs (Decidable (_ ∧ _ ∧ ∃ _ ∈ _, _ ∧ _))

variable {s} {s' s'' : Server} {env : Env} {c d : ClientID} {id : ClipboardID}

theorem ClipsKept.withinLimit (h : ClipsKept s s') : s'.WithinLimit id ↔ s.WithinLimit id := by
  simp only [WithinLimit, h.clipboards, h.options]

theorem FreshInv.kept (h : FreshInv s) (hk : ClipsKept s s') : FreshInv s' := by
  refine ⟨fun hc hclean => ?_, fun hc => ?_, fun hlimit => ?_⟩
  · rw [hk.getName, hk.clipboards, hk.delivered]
    rw [hk.dirty] at hclean
    exact h.clean (hk.connected _ hc) hclean
  · rw [hk.dirty]
    exact h.waiting (hk.waiting _ hc)
  · rw [hk.clipboards]
    exact h.stored (hk.withinLimit.1 hlimit)

/-- Sending a connected screen what is stored. -/
theorem FreshInv.setClipboard (h : FreshInv s) {c : ClientID} (hc : c ∉ s.registry.waiting)
    {id : ClipboardID} {clipboard : Clipboard}
    (hstored : clipboard.marshall = (s.clipboards id).data) :
    FreshInv (s.setClipboard c id clipboard) := by
  have hkeeps := keeps_setClipboard s c id clipboard
  have hclipboards := clipboards_setClipboard s c id clipboard
  refine ⟨fun {d id'} hd hclean => ?_, fun {d id'} hd => ?_, fun hlimit => ?_⟩
  · rw [hkeeps.registry] at hd
    rw [hkeeps.getName, hclipboards, delivered_setClipboard]
    rw [dirty_setClipboard] at hclean
    by_cases hsent : d = c ∧ id' = id ∧ s.dirty d id' = true
    · rw [if_pos hsent]
      obtain ⟨rfl, rfl, -⟩ := hsent
      exact .inr ⟨_, rfl, (Clipboard.marshall_copy clipboard).trans hstored⟩
    · rw [if_neg hsent]
      refine h.clean hd ?_
      -- It was clean before.
      split_ifs at hclean with hsame
      · exact Bool.eq_false_iff.2 fun hdirty => hsent ⟨hsame.1, hsame.2, hdirty⟩
      · exact hclean
  · rw [hkeeps.registry] at hd
    rw [dirty_setClipboard, if_neg fun hsame : d = c ∧ id' = id => hc (hsame.1 ▸ hd)]
    exact h.waiting hd
  · rw [hclipboards]
    refine h.stored ?_
    rwa [WithinLimit, hclipboards, hkeeps.options] at hlimit

/-! ### Grabs and data -/

theorem Named.mem_clientList (hn : Named s) : c ∈ s.clientList ↔ c ∈ s.registry.clientSet := by
  simp only [clientList, List.mem_map]
  constructor
  · rintro ⟨⟨name, c'⟩, hmem, rfl⟩
    exact (hn.names (Std.TreeMap.mem_toList_iff_getElem?_eq_some.1 hmem)).1
  · intro hc
    exact ⟨(s.getName c, c), Std.TreeMap.mem_toList_iff_getElem?_eq_some.2 (hn.clients hc), rfl⟩

/-- The screens are told about new content that its owner `g` has. -/
theorem FreshInv.announce (h : FreshInv s) (hn : Named s) {g : ClientID} {info : ClipboardInfo}
    (howner : info.owner = s.getName g) (hstored : info.clipboard.marshall = info.data)
    {F : Server → ClientID → Server} (hF : Tells id (fun c => c != g) F) :
    FreshInv ((s.withInfo id info).clientList.foldl F (s.withInfo id info)) := by
  obtain ⟨hkeeps, -, hclipboards, hdelivered, hdirty⟩ :=
    hF.foldl (s.withInfo id info).clientList (s.withInfo id info)
  have hlist (c : ClientID) : c ∈ (s.withInfo id info).clientList ↔ c ∈ s.registry.clientSet :=
    hn.mem_clientList
  have hinfo := clipboards_withInfo s id
  refine ⟨fun {c id'} hmem hclean => ?_, fun {c id'} hmem => ?_, fun {id'} hlimit => ?_⟩
  · rw [hkeeps.registry] at hmem
    have hc : c ∈ s.registry.clientSet := hmem
    rw [hkeeps.getName, hclipboards, hdelivered, hinfo]
    rw [hdirty] at hclean
    by_cases hid : id' = id
    · -- The one clean clipboard is the owner's.
      rw [if_pos ⟨(hlist c).2 hc, hid⟩] at hclean
      obtain rfl : c = g := by simpa using hclean
      rw [if_pos hid]
      exact .inl howner.symm
    · rw [if_neg fun hboth => hid hboth.2] at hclean
      rw [if_neg hid]
      exact h.clean hc hclean
  · rw [hkeeps.registry] at hmem
    have hc : c ∈ s.registry.waiting := hmem
    have hout : c ∉ (s.withInfo id info).clientList := fun hin =>
      (hn.waiting hc).1 ((hlist c).1 hin)
    rw [hdirty, if_neg fun hboth => hout hboth.1]
    exact h.waiting hc
  · rw [WithinLimit, hclipboards, hkeeps.options, hinfo] at hlimit
    rw [hclipboards, hinfo]
    by_cases hid : id' = id
    · rw [if_pos hid]
      exact hstored
    · rw [if_neg hid] at hlimit ⊢
      exact h.stored hlimit

theorem FreshInv.handleClipboardGrabbed (h : FreshInv s) (hn : Named s) (grabber : ClientID)
    (id : ClipboardID) (seqNum : ℕ) : FreshInv (s.handleClipboardGrabbed grabber id seqNum) := by
  obtain ⟨-, heq⟩ | ⟨-, heq⟩ := handleClipboardGrabbed_cases s grabber id seqNum
  · rw [heq]
    exact h
  · rw [heq]
    exact h.announce hn rfl rfl (tells_grab id grabber)

/-- The stored content changes, but not what counts as stored. -/
theorem FreshInv.setStored (h : FreshInv s) {clipboard : Clipboard}
    (hstored : s.options.maximumClipboardSize < clipboard.marshall.length ∨
      clipboard.marshall = (s.clipboards id).data) :
    FreshInv (s.withInfo id { s.clipboards id with clipboard := clipboard }) := by
  have hinfo := clipboards_withInfo s id
  refine ⟨fun {c id'} hc hclean => ?_, h.waiting, fun {id'} hlimit => ?_⟩
  · have hold := h.clean hc hclean
    rw [hinfo]
    by_cases hid : id' = id
    · subst hid
      rw [if_pos rfl]
      exact hold
    · rw [if_neg hid]
      exact hold
  · rw [WithinLimit, hinfo] at hlimit
    rw [hinfo]
    by_cases hid : id' = id
    · subst hid
      rw [if_pos rfl] at hlimit ⊢
      exact hstored.resolve_left (not_lt.2 hlimit)
    · rw [if_neg hid] at hlimit ⊢
      exact h.stored hlimit

theorem FreshInv.onClipboardChanged (h : FreshInv s) (hn : Named s) {seqNum : ℕ}
    (hactive : s.focus.active ∉ s.registry.waiting) (hspoil : ¬s.Spoils env c id seqNum) :
    FreshInv (s.onClipboardChanged env c id seqNum) := by
  obtain ⟨-, heq⟩ | ⟨clipboard, ⟨hseq, hget⟩, ⟨hstored, heq⟩ | ⟨⟨hlimit, hnew⟩, heq⟩⟩ :=
    onClipboardChanged_cases s env c id seqNum
  · rw [heq]
    exact h
  · rw [heq]
    exact h.setStored hstored
  · rw [heq]
    -- The content changes: its sender owns the clipboard.
    have howner : (s.clipboards id).owner = s.getName c := by
      by_contra hne
      exact hspoil ⟨hseq, hne, clipboard, hget, hlimit, hnew⟩
    set info : ClipboardInfo :=
      ⟨clipboard, clipboard.marshall, (s.clipboards id).owner, (s.clipboards id).seqNum⟩
    have hF := tells_setClipboardDirty id c
    have howner' : info.owner = s.getName c := howner
    have htold := h.announce hn howner' rfl hF
    obtain ⟨hkeeps, -, hclipboards, -⟩ :=
      hF.foldl (s.withInfo id info).clientList (s.withInfo id info)
    refine htold.setClipboard ?_ ?_
    · rw [hkeeps.registry]
      exact hactive
    · rw [hclipboards, clipboards_withInfo, if_pos rfl]

/-! ### Switching -/

/-- What is small enough was sent to the active screen, if clipboards are shared. -/
def Sent (s : Server) : Prop :=
  s.options.enableClipboard = true → ∀ id, s.WithinLimit id → s.dirty s.focus.active id = false

theorem Sent.kept (h : Sent s) (hk : ClipsKept s s')
    (hfocus : s'.focus.active = s.focus.active) : Sent s' := by
  intro henable id hlimit
  rw [hk.dirty, hfocus]
  exact h (hk.options ▸ henable) id (hk.withinLimit.1 hlimit)

theorem FreshInv.sendPrimaryClipboards (h : FreshInv s) (hn : Named s)
    (hactive : s.focus.active ∉ s.registry.waiting) (env : Env) :
    FreshInv (s.sendPrimaryClipboards env) := by
  set I : Server → Prop := fun s => FreshInv s ∧ Named s ∧ s.focus.active ∉ s.registry.waiting
  suffices hI : I (s.sendPrimaryClipboards env) from hI.1
  refine List.foldlRecOn (motive := I) _ _ ⟨h, hn, hactive⟩ ?_
  rintro s ⟨h, hn, hactive⟩ id -
  split_ifs with howner
  · have hkeeps := keeps_onClipboardChanged s env primaryClient id (s.clipboards id).seqNum
    have hstill := still_onClipboardChanged s env primaryClient id (s.clipboards id).seqNum
    refine ⟨h.onClipboardChanged hn hactive fun hspoil => hspoil.2.1 howner,
      hn.of_registry hkeeps.config hkeeps.registry, ?_⟩
    rw [hstill.focus, hstill.registry]
    exact hactive
  · exact ⟨h, hn, hactive⟩

/-- The active screen gets what is stored. -/
theorem FreshInv.sendClipboards (h : FreshInv s) (hactive : s.focus.active ∉ s.registry.waiting) :
    FreshInv s.sendClipboards ∧
      ∀ id, s.sendClipboards.WithinLimit id → s.sendClipboards.dirty s.focus.active id = false := by
  have hfold (l : List ClipboardID) (s : Server) (h : FreshInv s)
      (hactive : s.focus.active ∉ s.registry.waiting) :
      let s' := l.foldl (fun s id =>
        if s.options.maximumClipboardSize < (s.clipboards id).clipboard.marshall.length then s
        else s.setClipboard s.focus.active id (s.clipboards id).clipboard) s
      FreshInv s' ∧ (∀ id, s'.WithinLimit id ↔ s.WithinLimit id) ∧
        ∀ id, id ∈ l ∧ s.WithinLimit id ∨ s.dirty s.focus.active id = false →
          s'.dirty s.focus.active id = false := by
    induction l generalizing s with
    | nil => exact ⟨h, fun _ => Iff.rfl, fun id hid => hid.resolve_left fun hin => by
        cases hin.1⟩
    | cons id l ih =>
      simp only [List.foldl_cons]
      split_ifs with hlimit
      · obtain ⟨h', hw, hd⟩ := ih s h hactive
        refine ⟨h', hw, fun id' hid => hd id' ?_⟩
        -- A clipboard over the limit is none that has to be sent.
        refine hid.imp_left fun hin => ⟨?_, hin.2⟩
        obtain rfl | hl := List.mem_cons.1 hin.1
        · exact absurd hlimit (not_lt.2 hin.2)
        · exact hl
      · set s₁ := s.setClipboard s.focus.active id (s.clipboards id).clipboard with hs₁
        have hkeeps := keeps_setClipboard s s.focus.active id (s.clipboards id).clipboard
        have hstill := still_setClipboard s s.focus.active id (s.clipboards id).clipboard
        have hclipboards := clipboards_setClipboard s s.focus.active id (s.clipboards id).clipboard
        have hfocus : s₁.focus = s.focus := hstill.focus
        have hlimits (id' : ClipboardID) : s₁.WithinLimit id' ↔ s.WithinLimit id' := by
          simp only [WithinLimit, hs₁, hclipboards, hkeeps.options]
        obtain ⟨h', hw, hd⟩ := ih s₁ (h.setClipboard hactive (h.stored (not_lt.1 hlimit)))
          (by rw [hfocus, hkeeps.registry]; exact hactive)
        refine ⟨h', fun id' => (hw id').trans (hlimits id'), fun id' hid => ?_⟩
        rw [hfocus] at hd
        refine hd id' ?_
        rw [hlimits, hs₁, dirty_setClipboard]
        by_cases hsame : id' = id
        · exact .inr (if_pos ⟨rfl, hsame⟩)
        · rw [if_neg fun hboth => hsame hboth.2]
          exact hid.imp_left fun hin => ⟨(List.mem_cons.1 hin.1).resolve_left hsame, hin.2⟩
  obtain ⟨h', hw, hd⟩ := hfold ClipboardID.all s h hactive
  exact ⟨h', fun id hid => hd id (.inl ⟨ClipboardID.mem_all id, (hw id).1 hid⟩)⟩

theorem FreshInv.enterScreen (h : FreshInv s) {dst : ClientID} (hdst : dst ∉ s.registry.waiting)
    (env : Env) (x y : ℤ) (forScreensaver : Bool) :
    FreshInv (s.enterScreen env dst x y forScreensaver) ∧
      Sent (s.enterScreen env dst x y forScreensaver) := by
  set s₁ : Server := { s.setFocus { s.focus with active := dst } with
    seqNum := (s.seqNum + 1) % 2 ^ 32 } with hs₁
  have hseq : ClipsKept s s₁ :=
    ⟨rfl, rfl, rfl, rfl, rfl, rfl, fun _ _ => rfl, fun _ _ => rfl, fun _ hc => hc, fun _ hc => hc⟩
  have h₁ := h.kept (hseq.trans (clipsKept_enterClient s₁ env dst x y forScreensaver))
  simp only [Server.enterScreen]
  split_ifs with henable
  · obtain ⟨h₂, hsent⟩ := h₁.sendClipboards hdst
    have hfocus := (still_sendClipboards (s₁.enterClient env dst x y forScreensaver)).focus
    refine ⟨h₂.kept (clipsKept_notice _ _), Sent.kept ?_ (clipsKept_notice _ _) rfl⟩
    have hsent' : Sent (s₁.enterClient env dst x y forScreensaver).sendClipboards := by
      intro _ id hlimit
      rw [hfocus]
      exact hsent id hlimit
    exact hsent'
  · exact ⟨h₁.kept (clipsKept_notice _ _), fun henabled => absurd henabled henable⟩

theorem FreshInv.switchScreen (h : FreshInv s) (hn : Named s) {dst : ClientID}
    (hactive : s.focus.active ∉ s.registry.waiting) (hdst : dst ∉ s.registry.waiting)
    (env : Env) (x y : ℤ) (forScreensaver : Bool) :
    FreshInv (s.switchScreen env dst x y forScreensaver) ∧
      ((s.switchScreen env dst x y forScreensaver).focus.active = s.focus.active ∨
        Sent (s.switchScreen env dst x y forScreensaver)) := by
  have hwarp : ClipsKept s (s.stopSwitch.warp x y) :=
    (clipsKept_setPending s _).trans (clipsKept_mouse _ _)
  have hleave := hwarp.trans (clipsKept_leaveClient _ env s.focus.active)
  have hnleave : Named ((s.stopSwitch.warp x y).leaveClient env s.focus.active) :=
    hn.of_registry rfl rfl
  have hfocus : (s.stopSwitch.warp x y).focus.active = s.focus.active := rfl
  simp only [Server.switchScreen, hfocus]
  split_ifs
  · exact ⟨h.kept (hwarp.trans (clipsKept_notice _ _)), .inl rfl⟩
  · exact ⟨h.kept hleave, .inl rfl⟩
  · have hsend := (h.kept hleave).sendPrimaryClipboards hnleave hactive env
    have hregistry := (keeps_sendPrimaryClipboards
      ((s.stopSwitch.warp x y).leaveClient env s.focus.active) env).registry
    obtain ⟨h', hsent⟩ := hsend.enterScreen (hregistry ▸ hdst) env x y
      forScreensaver
    exact ⟨h', .inr hsent⟩
  · obtain ⟨h', hsent⟩ := FreshInv.enterScreen (h.kept hleave) hdst env x y forScreensaver
    exact ⟨h', .inr hsent⟩

end Server

end InputLeap
