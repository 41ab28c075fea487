import InputLeap.Server.Freshness

/-!
# Clipboard content reaches the screen that is entered

In every run without a reload in which no data spoils a clipboard, each switch leaves the entered
screen with the content that the server stores.  It fails once a screen that does not own a
clipboard changes what is stored: the screen's own clipboard then counts as clean.

## Main definitions

* `Server.Seated` : the cursor is only at, or on its way to, screens that were adopted.
* `Server.Ready` : what makes events keep clipboards fresh.
* `Server.Faithful` : the event is no reload and spoils no clipboard.

## Main results

* `Ready.step` : faithful events keep `Ready`.
* `delivered_of_reachable` : after a switch the entered screen has what is stored.
* `not_delivered_of_reachable` : not in all runs.
-/

namespace InputLeap

namespace Server

variable {s s' s'' : Server} {env : Env} {c : ClientID} {id : ClipboardID}

/-- The proxy was created and does not wait to be adopted. -/
def Adopted (s : Server) (c : ClientID) : Prop := c ∉ s.registry.waiting ∧ c < s.registry.next

/-- The cursor is at a screen that was adopted, and so are the remembered screen and the one that
a pending switch leads to. -/
structure Seated (s : Server) : Prop where
  primary : s.Adopted primaryClient
  active : s.Adopted s.focus.active
  saver : ∀ {c}, s.focus.activeSaver = some c → s.Adopted c
  pending : ∀ {c}, s.pending.switchScreen = some c → s.Adopted c

/-- Clean clipboards are right, the screens are registered under their names, and the cursor is
at a screen that was adopted. -/
structure Ready (s : Server) : Prop where
  fresh : FreshInv s
  named : Named s
  seated : Seated s

/-- If another screen is active, it has what is stored. -/
def FreshStep (s s' : Server) : Prop :=
  FreshInv s' ∧ (s'.focus.active = s.focus.active ∨ Sent s')

theorem FreshStep.trans_kept (h : FreshStep s s') (hk : ClipsKept s' s'')
    (hfocus : s''.focus.active = s'.focus.active) : FreshStep s s'' := by
  refine ⟨h.1.kept hk, ?_⟩
  obtain hsame | hsent := h.2
  · exact .inl (hfocus.trans hsame)
  · exact .inr (hsent.kept hk hfocus)

theorem FreshStep.of_active (h : FreshStep s' s'')
    (hfocus : s'.focus.active = s.focus.active) : FreshStep s s'' :=
  ⟨h.1, h.2.imp_left fun hsame => hsame.trans hfocus⟩

/-- A step that sends nothing. -/
theorem FreshInv.stays (h : FreshInv s) (hk : ClipsKept s s')
    (hfocus : s'.focus.active = s.focus.active) : FreshStep s s' :=
  ⟨h.kept hk, .inl hfocus⟩

/-! ### Where the cursor can be -/

theorem Named.adopted (h : Named s) (hc : c ∈ s.registry.clientSet) : s.Adopted c :=
  ⟨fun hwaiting => (h.waiting hwaiting).1 hc, h.fresh hc⟩

theorem Named.adopted_of_registered (h : Named s) (hc : s.registry.Registered c) : s.Adopted c := by
  obtain ⟨name, hname⟩ := hc
  exact h.adopted (h.names hname).1

theorem Seated.target (h : Seated s) (hn : Named s) (hc : s.Target c) : s.Adopted c := by
  obtain hreg | hpending | hsaver | rfl := hc
  · exact hn.adopted_of_registered hreg
  · exact h.pending hpending
  · exact h.saver hsaver
  · exact h.primary

theorem Seated.moved (h : Seated s) (hn : Named s) (hm : Moved s s') : Seated s' := by
  have hadopted {c : ClientID} (hc : s.Adopted c) : s'.Adopted c := by
    unfold Adopted
    rw [hm.registry]
    exact hc
  refine ⟨hadopted h.primary, ?_, fun {c} hc => ?_, fun {c} hc => ?_⟩
  · obtain ⟨hf, -⟩ | ⟨dst, hdst, hf, -⟩ := hm.cursor
    · rw [hf]
      exact hadopted h.active
    · rw [hf]
      exact hadopted (h.target hn hdst)
  · obtain rfl | hsaver := hm.saver c hc
    · exact hadopted h.active
    · exact hadopted (h.saver hsaver)
  · obtain hreg | hpending := hm.pending c hc
    · exact hadopted (hn.adopted_of_registered hreg)
    · exact hadopted (h.pending hpending)

/-- The cursor stays or gives way to the primary screen, nothing else is aimed at, and the
proxies that were adopted count as such. -/
structure Vacated (s s' : Server) : Prop where
  clips : ClipsKept s s'
  adopted : ∀ c, s.Adopted c → s'.Adopted c
  active : s'.focus.active = s.focus.active ∨ s'.focus.active = primaryClient
  saver : ∀ c, s'.focus.activeSaver = some c → s.focus.activeSaver = some c
  pending : ∀ c, s'.pending.switchScreen = some c → s.pending.switchScreen = some c

namespace Vacated

theorem refl (s : Server) : Vacated s s :=
  ⟨.refl s, fun _ hc => hc, .inl rfl, fun _ hc => hc, fun _ hc => hc⟩

theorem trans (h : Vacated s s') (h' : Vacated s' s'') : Vacated s s'' where
  clips := h.clips.trans h'.clips
  adopted c hc := h'.adopted c (h.adopted c hc)
  active := by
    obtain hsame | hprimary := h'.active
    · rw [hsame]
      exact h.active
    · exact .inr hprimary
  saver c hc := h.saver c (h'.saver c hc)
  pending c hc := h.pending c (h'.pending c hc)

theorem foldl {α : Type*} {f : Server → α → Server} (hf : ∀ s a, Vacated s (f s a))
    (l : List α) (s : Server) : Vacated s (l.foldl f s) := by
  induction l generalizing s with
  | nil => exact refl s
  | cons a l ih => exact (hf s a).trans (ih _)

theorem seated (h : Vacated s s') (hs : Seated s) : Seated s' := by
  refine ⟨h.adopted _ hs.primary, ?_, fun {c} hc => h.adopted c (hs.saver (h.saver c hc)),
    fun {c} hc => h.adopted c (hs.pending (h.pending c hc))⟩
  obtain hsame | hprimary := h.active
  · rw [hsame]
    exact h.adopted _ hs.active
  · rw [hprimary]
    exact h.adopted _ hs.primary

end Vacated

/-! ### Moving the cursor -/

namespace Ready

theorem active (h : Ready s) : s.focus.active ∉ s.registry.waiting := h.seated.active.1

/-- An intermediate state of a handler. -/
theorem kept (h : Ready s) (hk : ClipsKept s s') (hkeeps : Keeps s s')
    (hfocus : s'.focus = s.focus)
    (hpending : ∀ c, s'.pending.switchScreen = some c →
      s.registry.Registered c ∨ s.pending.switchScreen = some c) : Ready s' := by
  refine ⟨h.fresh.kept hk, h.named.of_registry hkeeps.config hkeeps.registry, ?_⟩
  have hadopted {c : ClientID} (hc : s.Adopted c) : s'.Adopted c := by
    unfold Adopted
    rw [hkeeps.registry]
    exact hc
  refine ⟨hadopted h.seated.primary, ?_, fun {c} hc => ?_, fun {c} hc => ?_⟩
  · rw [hfocus]
    exact hadopted h.seated.active
  · rw [hfocus] at hc
    exact hadopted (h.seated.saver hc)
  · obtain hreg | hold := hpending c hc
    · exact hadopted (h.named.adopted_of_registered hreg)
    · exact hadopted (h.seated.pending hold)

theorem aimed (h : Ready s) (hk : ClipsKept s s') (hkeeps : Keeps s s') (ha : Aimed s s') :
    Ready s' :=
  h.kept hk hkeeps ha.focus ha.pending

theorem switchScreen (h : Ready s) {dst : ClientID} (hdst : s.Adopted dst) (env : Env) (x y : ℤ)
    (forScreensaver : Bool) : FreshStep s (s.switchScreen env dst x y forScreensaver) :=
  h.fresh.switchScreen h.named h.active hdst.1 env x y forScreensaver

theorem jumpToScreen (h : Ready s) {dst : ClientID} (hdst : s.Adopted dst) (env : Env) :
    FreshStep s (s.jumpToScreen env dst) := by
  have hproxy := clipsKept_setProxy s s.focus.active
    { s.proxies s.focus.active with jumpCursorPos := (s.mouse.x, s.mouse.y) } fun _ => rfl
  have h' := h.kept hproxy ⟨rfl, rfl, rfl, rfl, rfl, rfl, rfl⟩ rfl fun _ hc => .inr hc
  exact h'.switchScreen hdst env _ _ false

theorem switchAcross (h : Ready s) {dst : ClientID} (hdst : s.Adopted dst) (env : Env)
    (x y : ℤ) : FreshStep s (s.switchAcross env dst x y) := by
  simp only [Server.switchAcross]
  split_ifs
  · exact h.fresh.stays (clipsKept_drag s _) rfl
  · exact (h.switchScreen hdst env x y false).trans_kept (clipsKept_drag _ _) rfl

theorem tryEdge (h : Ready s) {dir : Direction} {p : ℤ × ℤ} {xActive yActive : ℤ}
    {t : Option (ClientID × ℤ × ℤ)} (htry : s.tryEdge env dir p xActive yActive = some (s', t)) :
    Ready s' ∧ s'.focus.active = s.focus.active ∧
      ∀ dst x y, t = some (dst, x, y) → s'.Adopted dst := by
  obtain ⟨haimed, hreg⟩ := aimed_tryEdge htry
  have h' := h.aimed (clipsKept_tryEdge htry) (keeps_tryEdge htry) haimed
  refine ⟨h', by rw [haimed.focus], fun dst x y ht => h'.named.adopted_of_registered ?_⟩
  rw [haimed.registry]
  exact hreg dst x y ht

theorem tryEdges {xc yc : ℤ} {edges : List (Direction × ℤ × ℤ)} (h : Ready s)
    (hst : Server.tryEdges env xc yc s edges = some s') : FreshStep s s' := by
  induction edges generalizing s with
  | nil =>
    cases hst
    exact h.fresh.stays (.refl _) rfl
  | cons e rest ih =>
    simp only [Server.tryEdges] at hst
    split at hst
    · cases hst
    · rename_i s₁ dst x y htry
      cases hst
      obtain ⟨h₁, hfocus, hdst⟩ := h.tryEdge htry
      exact (h₁.switchAcross (hdst dst x y rfl) env x y).of_active hfocus
    · rename_i s₁ htry
      obtain ⟨h₁, hfocus, -⟩ := h.tryEdge htry
      exact (ih h₁ hst).of_active hfocus

theorem moveMouse (h : Ready s) (x y dx dy : ℤ) : Ready (s.moveMouse x y dx dy) :=
  h.kept (clipsKept_mouse s _) (keeps_moveMouse s x y dx dy) rfl fun _ hc => .inr hc

theorem onMouseMovePrimary {x y : ℤ} (h : Ready s)
    (hst : s.onMouseMovePrimary env x y = some s') : FreshStep s s' := by
  simp only [Server.onMouseMovePrimary] at hst
  split_ifs at hst
  · cases hst
    exact h.fresh.stays (.refl s) rfl
  · have h₁ := h.moveMouse x y (x - s.mouse.x) (y - s.mouse.y)
    split at hst
    · cases hst
      refine FreshStep.of_active (h₁.fresh.stays (clipsKept_noSwitch _ env x y) ?_) rfl
      rw [(aimed_noSwitch _ env x y).focus]
    · exact (h₁.tryEdges hst).of_active rfl

theorem onMouseMoveSecondary {dx dy : ℤ} (h : Ready s)
    (hst : s.onMouseMoveSecondary env dx dy = some s') : FreshStep s s' := by
  simp only [Server.onMouseMoveSecondary] at hst
  split_ifs at hst
  · cases hst
    exact h.fresh.stays (.refl s) rfl
  · cases hst
    exact h.fresh.stays (clipsKept_notice s _) rfl
  · have h₁ := h.moveMouse (s.mouse.x + dx) (s.mouse.y + dy) dx dy
    split at hst
    · cases hst
      refine FreshStep.of_active (h₁.fresh.stays ((clipsKept_leaveBorder _ env _ _ _).trans
        (clipsKept_stayOnScreen _ _ _ _ _)) ?_) rfl
      rw [(still_stayOnScreen _ _ _ _ _).focus, (aimed_leaveBorder _ env _ _ _).focus]
    · split at hst
      · cases hst
      · rename_i s₂ dst x y htry
        cases hst
        obtain ⟨h₂, hfocus, hdst⟩ := h₁.tryEdge htry
        exact (h₂.switchScreen (hdst dst x y rfl) env x y false).of_active hfocus
      · rename_i s₂ htry
        cases hst
        obtain ⟨h₂, hfocus, -⟩ := h₁.tryEdge htry
        refine FreshStep.of_active (h₂.fresh.stays (clipsKept_stayOnScreen _ _ _ _ _) ?_) hfocus
        rw [(still_stayOnScreen _ _ _ _ _).focus]

theorem enterSaver (h : Ready s) (env : Env) : FreshStep s (s.enterSaver env) := by
  have h' : Ready (s.setFocus ⟨s.focus.active, some s.focus.active, s.mouse.x, s.mouse.y⟩) := by
    refine ⟨h.fresh.kept (clipsKept_setFocus s _), h.named.of_registry rfl rfl, ?_⟩
    refine ⟨h.seated.primary, h.seated.active, fun {c} hc => ?_, h.seated.pending⟩
    -- The remembered screen is the active one.
    obtain rfl : s.focus.active = c := Option.some.inj hc
    exact h.seated.active
  simp only [Server.enterSaver]
  split_ifs
  · exact (h'.switchScreen h.seated.primary env 0 0 true).of_active rfl
  · exact h.fresh.stays (clipsKept_setFocus s _) rfl

theorem leaveSaver (h : Ready s) (env : Env) : FreshStep s (s.leaveSaver env) := by
  simp only [Server.leaveSaver]
  split
  · exact h.fresh.stays (.refl s) rfl
  · rename_i screen hsaver
    split_ifs
    · exact h.fresh.stays (.refl s) rfl
    · have hswitch (x y : ℤ) : FreshStep s ((s.setFocus
          { s.focus with xSaver := x, ySaver := y }).switchScreen env screen x y false) := by
        have h' : Ready (s.setFocus { s.focus with xSaver := x, ySaver := y }) :=
          ⟨h.fresh.kept (clipsKept_setFocus s _), h.named.of_registry rfl rfl,
            h.seated.primary, h.seated.active, h.seated.saver, h.seated.pending⟩
        exact (h'.switchScreen (h.seated.saver hsaver) env x y false).of_active rfl
      exact hswitch _ _

theorem onScreensaver (h : Ready s) (activated : Bool) :
    FreshStep s (s.onScreensaver env activated) := by
  simp only [Server.onScreensaver]
  refine FreshStep.trans_kept ?_ (ClipsKept.foldl (fun s c => clipsKept_notice s _) _ _)
    (congrArg Focus.active (Still.foldl (fun s c => still_notice s _) _ _).focus)
  split_ifs
  · exact h.enterSaver env
  · exact (h.leaveSaver env).trans_kept (clipsKept_setFocus _ _) rfl

theorem handleShapeChanged (h : Ready s) (hst : s.handleShapeChanged env c = some s') :
    FreshStep s s' := by
  have hproxy (p : ℤ × ℤ) : Ready (s.setProxy c { s.proxies c with jumpCursorPos := p }) :=
    h.kept (clipsKept_setProxy s c _ fun _ => rfl) ⟨rfl, rfl, rfl, rfl, rfl, rfl, rfl⟩ rfl
      fun _ hc => .inr hc
  have hmouse {s : Server} (h : Ready s) (m : Mouse) : Ready { s with mouse := m } :=
    h.kept (clipsKept_mouse s m) ⟨rfl, rfl, rfl, rfl, rfl, rfl, rfl⟩ rfl fun _ hc => .inr hc
  simp only [Server.handleShapeChanged] at hst
  split_ifs at hst
  · cases hst
    exact h.fresh.stays (.refl _) rfl
  · exact ((hmouse (hproxy _) _).onMouseMovePrimary hst).of_active rfl
  · exact ((hproxy _).onMouseMoveSecondary hst).of_active rfl
  · cases hst
    exact FreshStep.of_active ((hmouse (hproxy _) _).fresh.stays (.refl _) rfl) rfl
  · cases hst
    exact FreshStep.of_active ((hproxy _).fresh.stays (.refl _) rfl) rfl

end Ready

/-! ### Connecting and removing screens -/

theorem clipsKept_removeClient (s : Server) (c : ClientID) : ClipsKept s (s.removeClient c) := by
  simp only [removeClient]
  split_ifs
  · exact .refl s
  · refine ClipsKept.trans ?_ (ClipsKept.foldl (fun s p => clipsKept_endFilePaste s _ p) _ _)
    exact ⟨rfl, rfl, rfl, rfl, rfl, rfl, fun _ _ => rfl, fun _ _ => rfl,
      fun _ hc => Std.TreeSet.mem_of_mem_erase hc, fun _ hc => hc⟩

theorem clipsKept_forceLeaveClient (s : Server) (env : Env) (c : ClientID) :
    ClipsKept s (s.forceLeaveClient env c) := by
  have hjump (s : Server) : ClipsKept s (s.jumpToPrimary env c) := by
    simp only [jumpToPrimary]
    refine ClipsKept.trans ?_ (clipsKept_notice _ _)
    split_ifs
    all_goals exact ⟨rfl, rfl, rfl, rfl, rfl, rfl, fun _ _ => rfl, fun _ _ => rfl, fun _ hc => hc,
      fun _ hc => hc⟩
  simp only [forceLeaveClient]
  refine ClipsKept.trans ?_ (clipsKept_notice _ _)
  split_ifs
  · exact (hjump s).trans (clipsKept_setFocus _ _)
  · exact hjump s
  · exact clipsKept_setFocus s _
  · exact .refl s

theorem clipsKept_oldClients (s : Server) (o : Std.TreeSet ClientID) :
    ClipsKept s { s with registry := { s.registry with oldClients := o } } :=
  ⟨rfl, rfl, rfl, rfl, rfl, rfl, fun _ _ => rfl, fun _ _ => rfl, fun _ hc => hc, fun _ hc => hc⟩

theorem ForcedOut.vacated {o : Std.TreeSet ClientID} (h : ForcedOut (s.without c o) s' c)
    (hk : ClipsKept s s') : Vacated s s' := by
  obtain ⟨hwaiting, hnext, -⟩ := waiting_without (s := s) (c := c) (o := o)
  refine ⟨hk, fun d hd => ?_, ?_, fun d hd => ?_, fun d hd => ?_⟩
  · unfold Adopted
    rw [h.registry, hwaiting, hnext]
    exact hd
  · obtain ⟨-, hf, -⟩ | ⟨-, hf, -⟩ := h.cursor
    · exact .inl (by rw [hf]; rfl)
    · exact .inr (by rw [hf])
  · obtain ⟨-, hf, -⟩ | ⟨-, hf, -⟩ := h.cursor
    · rw [hf] at hd
      exact hd
    · rw [hf] at hd
      cases hd
  · obtain ⟨-, -, hp, -⟩ | ⟨-, -, hp, -⟩ := h.cursor
    · rw [hp] at hd
      exact hd
    · rw [hp] at hd
      split_ifs at hd
      · rw [Pending.stopSwitch_switchScreen] at hd
        cases hd
      · exact hd

theorem Still.vacated (h : Still s s') (hk : ClipsKept s s') : Vacated s s' := by
  refine ⟨hk, fun d hd => ?_, .inl (by rw [h.focus]), fun d hd => ?_, fun d hd => ?_⟩
  · unfold Adopted
    rw [h.registry]
    exact hd
  · rwa [h.focus] at hd
  · rwa [h.pending] at hd

theorem vacated_closeClient (s : Server) (env : Env) (c : ClientID) (msg : String) :
    Vacated s (s.closeClient env c msg) :=
  (forcedOut_closeClient s env c msg).vacated
    ((((clipsKept_notice s _).trans (clipsKept_removeClient _ c)).trans
      (clipsKept_oldClients _ _)).trans (clipsKept_forceLeaveClient _ env c))

theorem vacated_notice (s : Server) (k : Notice) : Vacated s (s.notice k) :=
  ⟨clipsKept_notice s k, fun _ hc => hc, .inl rfl, fun _ hc => hc, fun _ hc => hc⟩

theorem vacated_removeOldClient (s : Server) (c : ClientID) : Vacated s (s.removeOldClient c) := by
  have hold : Vacated s { s with registry :=
      { s.registry with oldClients := s.registry.oldClients.erase c } } :=
    ⟨clipsKept_oldClients s _, fun _ hc => hc, .inl rfl, fun _ hc => hc, fun _ hc => hc⟩
  simp only [removeOldClient]
  split_ifs
  · exact .refl s
  · exact hold.trans (vacated_notice _ _)
  · exact hold

theorem vacated_handleClientDisconnected (s : Server) (env : Env) (c : ClientID) :
    Vacated s (s.handleClientDisconnected env c) := by
  refine Vacated.trans ?_ (vacated_removeOldClient _ c)
  by_cases hc : c ∈ s.registry.clientSet
  · refine (forcedOut_removeActiveClient s env hc).vacated ?_
    have hforce := (clipsKept_removeClient s c).trans (clipsKept_forceLeaveClient _ env c)
    simp only [removeActiveClient]
    split_ifs
    · exact .refl s
    · exact hforce.trans (clipsKept_notice _ _)
    · exact hforce
  · have hcontains : s.registry.clientSet.contains c = false := Bool.eq_false_iff.2 hc
    simp only [removeActiveClient, hcontains, Bool.not_false, if_true]
    exact .refl s

theorem vacated_disconnect (s : Server) (env : Env) : Vacated s (s.disconnect env) := by
  unfold disconnect
  split_ifs
  · exact .foldl (fun s c => vacated_closeClient s env c _) _ s
  · exact vacated_notice s _

theorem vacated_dequeue (s : Server) (c : ClientID) : Vacated s (s.dequeue c) :=
  ⟨⟨rfl, rfl, rfl, rfl, rfl, rfl, fun _ _ => rfl, fun _ _ => rfl, fun _ hd => hd,
    fun _ hd => Std.TreeSet.mem_of_mem_erase hd⟩,
    fun _ hd => ⟨fun hw => hd.1 (Std.TreeSet.mem_of_mem_erase hw), hd.2⟩, .inl rfl,
    fun _ hd => hd, fun _ hd => hd⟩

/-- A screen that joins with nothing that counts as clean. -/
theorem FreshInv.withClient (h : FreshInv s) (hdirty : ∀ id, s.dirty c id = true) :
    FreshInv (s.withClient c) := by
  refine ⟨fun {d id} hd hclean => ?_, h.waiting, h.stored⟩
  obtain rfl | hd := mem_withClient.1 hd
  · have hc : s.dirty c id = false := hclean
    rw [hdirty] at hc
    cases hc
  · exact h.clean hd hclean

/-- A new proxy has nothing. -/
theorem Ready.clientConnected (h : Ready s) (ident : Ident) (info : ScreenInfo) :
    FreshInv (s.clientConnected ident info) ∧ Seated (s.clientConnected ident info) := by
  have hmem {d : ClientID} : d ∈ (s.clientConnected ident info).registry.waiting ↔
      s.registry.next = d ∨ d ∈ s.registry.waiting := by
    simp only [Server.clientConnected, Std.TreeSet.mem_insert, Std.LawfulEqCmp.compare_eq_iff_eq]
  have hdirty {d : ClientID} (hd : d ≠ s.registry.next) (id : ClipboardID) :
      (s.clientConnected ident info).dirty d id = s.dirty d id := by
    simp only [dirty, Server.clientConnected, Function.update_of_ne hd]
  have hname {d : ClientID} (hd : d ≠ s.registry.next) :
      (s.clientConnected ident info).getName d = s.getName d := by
    simp only [getName, Server.clientConnected, Function.update_of_ne hd]
  refine ⟨⟨fun {d id} hd hclean => ?_, fun {d id} hd => ?_, h.fresh.stored⟩, ?_⟩
  · have hd' : d ∈ s.registry.clientSet := hd
    have hne : d ≠ s.registry.next := (h.named.fresh hd').ne
    rw [hdirty hne] at hclean
    rw [hname hne]
    exact h.fresh.clean hd' hclean
  · by_cases hne : d = s.registry.next
    · subst hne
      simp only [dirty, Server.clientConnected, Function.update_self, newProxy]
    · rw [hdirty hne]
      exact h.fresh.waiting ((hmem.1 hd).resolve_left (Ne.symm hne))
  · have hadopted {d : ClientID} (hd : s.Adopted d) :
        (s.clientConnected ident info).Adopted d := by
      refine ⟨fun hw => ?_, hd.2.trans (Nat.lt_succ_self _)⟩
      obtain rfl | hw := hmem.1 hw
      · exact lt_irrefl _ hd.2
      · exact hd.1 hw
    exact ⟨hadopted h.seated.primary, hadopted h.seated.active,
      fun hd => hadopted (h.seated.saver hd), fun hd => hadopted (h.seated.pending hd)⟩

theorem Ready.adoptClient (h : Ready s) (hc : c ∈ s.registry.waiting) :
    FreshInv (s.adoptClient env c) ∧ Seated (s.adoptClient env c) := by
  have hdequeue := vacated_dequeue s c
  have hfresh := h.fresh.kept hdequeue.clips
  have hseated := hdequeue.seated h.seated
  obtain ⟨msg, hclose⟩ | ⟨s₂, hadd, hstill, -, hclips⟩ := adoptClient_cases s env c
  · have hv := vacated_closeClient (s.dequeue c) env c msg
    rw [hclose]
    exact ⟨hfresh.kept hv.clips, hv.seated hseated⟩
  · obtain ⟨-, hstill', -, hclips'⟩ := addClient_spec hadd
    have hjoined : FreshInv ((s.dequeue c).withClient c) :=
      hfresh.withClient fun id => h.fresh.waiting hc
    have hsit : Seated ((s.dequeue c).withClient c) :=
      ⟨hseated.primary, hseated.active, hseated.saver, hseated.pending⟩
    have hv := (hstill'.trans hstill).vacated (hclips'.trans hclips)
    exact ⟨hjoined.kept hv.clips, hv.seated hsit⟩

/-! ### Events -/

/-- The clipboard that the event brings data of, with the sender and the number. -/
def Event.data : Event → Option (ClientID × ClipboardID × ℕ)
  | .clipboardChanged c id seqNum => some (c, id, seqNum)
  | _ => none

/-- The event is no reload, and if it brings data of a connected screen the data spoils no
clipboard. -/
def Faithful (s : Server) (l : Env × Event) : Prop :=
  l.2.reloads = false ∧
    ∀ d ∈ l.2.data, d.1 ∈ s.registry.clientSet → ¬s.Spoils l.1 d.1 d.2.1 d.2.2

instance (s : Server) (l : Env × Event) : Decidable (s.Faithful l) :=
  inferInstanceAs (Decidable (_ ∧ ∀ _ ∈ Event.data _, _))

namespace Ready

/-- What an event that connects and removes no screen does to the clipboards. -/
theorem freshStep {e : Event} (h : Ready s) (he : e.changesRegistry = false)
    (hfaithful : s.Faithful (env, e)) (hst : s.step env e = some s') : FreshStep s s' := by
  have hstay {s' : Server} (hk : ClipsKept s s') (hstill : Still s s') : FreshStep s s' :=
    h.fresh.stays hk (by rw [hstill.focus])
  cases e with
  | clientConnected | adoptClient | clientDisconnected | clientCloseTimeout | reloadConfig
  | disconnect => cases he
  | screensaver activated =>
    cases hst
    exact h.onScreensaver activated
  | switchToScreen screen =>
    cases hst
    simp only [handleSwitchToScreenEvent]
    split
    · exact h.fresh.stays (.refl s) rfl
    · rename_i c hc
      exact h.jumpToScreen (h.named.adopted_of_registered ⟨screen, hc⟩) env
  | toggleScreen =>
    cases hst
    obtain heq | ⟨c, hc, heq⟩ := handleToggleScreenEvent_cases s env
    · rw [heq]
      exact h.fresh.stays (.refl s) rfl
    · rw [heq]
      exact h.jumpToScreen (h.named.adopted_of_registered hc) env
  | switchInDirection dir =>
    obtain ⟨r, hr, rfl⟩ := Option.map_eq_some_iff.1 hst
    split
    · exact h.fresh.stays (.refl s) rfl
    · exact h.jumpToScreen (h.named.adopted_of_registered (mem_of_getNeighbor hr)) env
  | lockCursorToScreen mode =>
    cases hst
    exact hstay (clipsKept_handleLockCursorToScreenEvent s mode)
      (still_handleLockCursorToScreenEvent s mode)
  | motionPrimary x y => exact h.onMouseMovePrimary hst
  | motionSecondary dx dy => exact h.onMouseMoveSecondary hst
  | switchWait =>
    simp only [Server.step] at hst
    split_ifs at hst
    simp only [handleSwitchWaitEvent] at hst
    split_ifs at hst
    · cases hst
      exact h.fresh.stays (clipsKept_setPending s _) rfl
    · obtain ⟨c, hc, rfl⟩ := Option.map_eq_some_iff.1 hst
      exact h.switchScreen (h.seated.pending hc) env _ _ false
  | info c info =>
    cases hst
    exact hstay (clipsKept_setProxy s c _ fun _ => rfl) (still_setProxy s c _)
  | shapeChanged c => exact h.handleShapeChanged hst
  | clipboardGrabbed c id seqNum =>
    cases hst
    refine ⟨h.fresh.handleClipboardGrabbed h.named c id seqNum, .inl ?_⟩
    rw [(still_handleClipboardGrabbed s c id seqNum).focus]
  | clipboardReceived c id seqNum data =>
    simp only [Server.step] at hst
    split_ifs at hst
    obtain ⟨clipboard, -, rfl⟩ := Option.map_eq_some_iff.1 hst
    exact hstay (clipsKept_setClientClipboard s rfl) (still_setProxy s c _)
  | clipboardChanged c id seqNum =>
    cases hst
    simp only [handleClipboardChanged]
    split_ifs with hc
    · exact h.fresh.stays (.refl s) rfl
    · have hmem : c ∈ s.registry.clientSet := by simpa using hc
      refine ⟨h.fresh.onClipboardChanged h.named h.active (hfaithful.2 (c, id, seqNum) rfl hmem),
        .inl ?_⟩
      rw [(still_onClipboardChanged s env c id seqNum).focus]
  | filePasteRequested c request =>
    simp only [Server.step] at hst
    split_ifs at hst
    cases hst
    exact hstay (clipsKept_filePasteRequested s c request) (still_filePasteRequested s c request)
  | filePasteStatus c status =>
    simp only [Server.step] at hst
    split_ifs at hst
    cases hst
    exact hstay (clipsKept_filePasteStatus s c status) (still_filePasteStatus s c status)
  | mouseDown | dragInfoSent =>
    cases hst
    exact h.fresh.stays (clipsKept_drag s _) rfl

end Ready

/-- What an event that connects or removes screens does to the clipboards, and where it leaves the
cursor. -/
theorem Ready.registry {e : Event} (h : Ready s) (he : e.changesRegistry = true)
    (hreload : e.reloads = false) (hst : s.step env e = some s') : FreshInv s' ∧ Seated s' := by
  have hvacated {s' : Server} (hv : Vacated s s') : FreshInv s' ∧ Seated s' :=
    ⟨h.fresh.kept hv.clips, hv.seated h.seated⟩
  cases e with
  | clientConnected ident info =>
    cases hst
    exact h.clientConnected ident info
  | adoptClient c =>
    simp only [Server.step] at hst
    split_ifs at hst with hc
    cases hst
    exact h.adoptClient hc
  | clientDisconnected c =>
    simp only [Server.step] at hst
    split_ifs at hst
    · cases hst
      exact hvacated (vacated_dequeue s c)
    · cases hst
      exact hvacated (vacated_handleClientDisconnected s env c)
  | clientCloseTimeout c =>
    simp only [Server.step] at hst
    split_ifs at hst
    cases hst
    exact hvacated (vacated_removeOldClient s c)
  | disconnect =>
    cases hst
    exact hvacated (vacated_disconnect s env)
  | reloadConfig cfg => cases hreload
  | _ => cases he

/-! ### Runs -/

/-- Applying the configuration leaves the clipboards alone. -/
theorem clipboards_of_setConfig (h : s.setConfig env = some s') :
    s'.clipboards = s.clipboards := by
  obtain ⟨s₁, s₂, s₃, hclose, hprocess, hrule, rfl⟩ := setConfig_stages h
  have hclosed : s₁.clipboards = s.clipboards := by
    rw [hclose]
    exact (ClipsKept.foldl (fun s c => (vacated_closeClient s env c _).clips) _ s).clipboards
  have hprocessed : s₂.clipboards = s₁.clipboards := by
    rw [hprocess]
    simp only [processOptions, stopRelativeMoves]
    split
    · rfl
    · split_ifs <;> rfl
  have hruled : s₃.clipboards = s₂.clipboards := by
    rw [hrule, addScrollLockRule]
    split_ifs <;> rfl
  have hsent := (ClipsKept.foldl (fun s c => clipsKept_sendOptions s c) s₃.reconfigure.clientList
    s₃.reconfigure).clipboards
  exact hsent.trans (hruled.trans (hprocessed.trans hclosed))

/-- Applying the configuration to a server with only the primary screen leaves the clipboards and
the names alone. -/
theorem clipboards_setConfig (h : s.setConfig env = some s')
    (hprimary : ∀ c, s.registry.Registered c → c = primaryClient) :
    s'.clipboards = s.clipboards ∧ s'.registry = s.registry ∧ ∀ c, s'.getName c = s.getName c := by
  have hclipboards := clipboards_of_setConfig h
  obtain ⟨-, haimed⟩ := setConfig_spec h
  rw [closeClients_of_forall env s.config hprimary] at haimed
  obtain ⟨s₁, s₂, s₃, hclose, hprocess, hrule, rfl⟩ := setConfig_stages h
  rw [closeClients_of_forall env s.config hprimary] at hclose
  have hprocessed : s₂.config = s.config := by
    rw [hprocess, hclose]
    simp only [processOptions, stopRelativeMoves]
    split
    · rfl
    · split_ifs <;> rfl
  have hruled : s₃.config.nameToCanonicalName = s₂.config.nameToCanonicalName := by
    rw [hrule, addScrollLockRule]
    split_ifs <;> rfl
  have hsent := (ClipsKept.foldl (fun s c => clipsKept_sendOptions s c) s₃.reconfigure.clientList
    s₃.reconfigure).config
  refine ⟨hclipboards, haimed.registry, fun c => ?_⟩
  have hnames : s₃.reconfigure.config.nameToCanonicalName = s.config.nameToCanonicalName := by
    rw [← hprocessed]
    exact hruled
  unfold getName Config.getCanonicalName
  rw [haimed.registry, hsent, hnames]

theorem ready_create {cfg : Config} {primary : Ident} {info : ScreenInfo}
    {enableDragDrop : Bool} (h : create env cfg primary info enableDragDrop = some s) :
    FreshInv s ∧ Seated s := by
  obtain ⟨hconnected, hfocus, -⟩ := create_connected h
  have hnamed := (pasteInv_create h).named
  obtain ⟨s₁, s₂, hadd, hset, rfl⟩ := create_spec h
  obtain ⟨hconnected₁, hprimary⟩ := connected_addClient_unregistered hadd
  obtain ⟨-, hstill, -, hclips⟩ := addClient_spec hadd
  obtain ⟨hclipboards, hregistry, hname⟩ := clipboards_setConfig hset
    fun c hc => hprimary c (hconnected₁.mem_of_registered hc)
  -- The primary screen owns the clipboards, which are empty.
  have hinfo (id : ClipboardID) : s₂.clipboards id =
      ⟨Clipboard.clear 0, (Clipboard.clear 0).marshall, s₂.getName primaryClient, 0⟩ := by
    rw [hclipboards, hclips.clipboards, hname, hclips.getName]
    rfl
  refine ⟨⟨fun {c id} hc _ => .inl ?_, fun {c id} hc => ?_, fun {id} _ => ?_⟩, ?_⟩
  · have hc₁ : c ∈ s₁.registry.clientSet := hregistry ▸ hc
    obtain rfl := hprimary c hc₁
    change s₂.getName primaryClient = (s₂.clipboards id).owner
    rw [hinfo]
  · have hc' : c ∈ s₂.registry.waiting := hc
    rw [hregistry, hstill.registry] at hc'
    exact absurd hc' Std.TreeSet.not_mem_emptyc
  · change (s₂.clipboards id).clipboard.marshall = (s₂.clipboards id).data
    rw [hinfo]
  · have hadopted := hnamed.adopted hconnected.primary
    refine ⟨hadopted, ?_, fun {c} hc => ?_, fun {c} hc => hnamed.adopted (hconnected.pending hc)⟩
    · rw [hfocus]
      exact hadopted
    · rw [hfocus] at hc
      cases hc

theorem ready_of_reachable (hs : lts.ReachableVia Faithful s) : Ready s := by
  have hnamed {s : Server} (hs : lts.ReachableVia Faithful s) : Named s :=
    (pasteInv_of_reachable (hs.mono fun _ _ hl => hl.1)).named
  induction hs with
  | init h =>
    obtain ⟨env, cfg, primary, info, enableDragDrop, hcreate⟩ := h
    obtain ⟨hfresh, hseated⟩ := ready_create hcreate
    exact ⟨hfresh, (pasteInv_create hcreate).named, hseated⟩
  | step hs hl hst ih =>
    rename_i s s' l
    obtain ⟨env, e⟩ := l
    have hn := hnamed (hs.step hl hst)
    cases he : e.changesRegistry with
    | false =>
    exact ⟨(ih.freshStep he hl hst).1, hn, ih.seated.moved ih.named (moved_of_step he hst)⟩
    | true =>
      obtain ⟨hfresh, hseated⟩ := ih.registry he hl.1 hst
      exact ⟨hfresh, hn, hseated⟩

/-- A switch led to a connected screen that does not own the clipboard, sharing is on, and the
content is within the limit. -/
def Awaits (s s' : Server) (id : ClipboardID) : Prop :=
  s'.focus.active ≠ s.focus.active ∧ s'.focus.active ∈ s'.registry.clientSet ∧
    s'.options.enableClipboard = true ∧ s'.WithinLimit id ∧
    (s'.clipboards id).owner ≠ s'.getName s'.focus.active

instance (s s' : Server) (id : ClipboardID) : Decidable (s.Awaits s' id) :=
  inferInstanceAs (Decidable (_ ∧ _ ∧ _ ∧ _ ∧ _))

/-- **What is stored reaches the screen that is entered**, in every run without a reload in which
no data spoils a clipboard: after a switch the active screen was sent, for each clipboard that it
does not own and whose content is within the limit, what the server stores. -/
theorem delivered_of_reachable (hs : lts.ReachableVia Faithful s) {e : Event}
    (hfaithful : s.Faithful (env, e)) (hst : s.step env e = some s')
    (he : e.changesRegistry = false) (hawaits : s.Awaits s' id) :
    ∃ clipboard, s'.delivered s'.focus.active id = some clipboard ∧
      clipboard.marshall = (s'.clipboards id).clipboard.marshall := by
  obtain ⟨hswitch, hmem, henable, hlimit, howner⟩ := hawaits
  obtain ⟨hfresh, hsent⟩ := (ready_of_reachable hs).freshStep he hfaithful hst
  have hclean := hsent.resolve_left hswitch henable id hlimit
  obtain hown | ⟨clipboard, hdelivered, hdata⟩ := hfresh.clean hmem hclean
  · exact absurd hown.symm howner
  · exact ⟨clipboard, hdelivered, hdata.trans (hfresh.stored hlimit).symm⟩

/-- The screens `p` (the primary screen), `b` and `c`. -/
def threeScreens : Config :=
  ((({} : Config).addScreen "p").bind (·.addScreen "b") |>.bind (·.addScreen "c")).getD {}

/-- The clients `b` and `c` connect. -/
def bothConnect : List (Env × Event) :=
  [({}, .clientConnected ⟨"b", true⟩ ⟨0, 0, 100, 100, 50, 50⟩), ({}, .adoptClient 1),
    ({}, .clientConnected ⟨"c", true⟩ ⟨0, 0, 100, 100, 50, 50⟩), ({}, .adoptClient 2)]

/-- The client `c` grabs the clipboard. -/
def grabOnC : List (Env × Event) := [({}, .clipboardGrabbed 2 .clipboard 0)]

/-- The text `x`. -/
def textX : Clipboard := (Clipboard.clear 0).add .text [120]

/-- The client sends the text. -/
def sendText (c : ClientID) : List (Env × Event) :=
  [({}, .clipboardReceived c .clipboard 0 textX.marshall), ({}, .clipboardChanged c .clipboard 0)]

/-- When `c` sends what it grabbed, and the cursor goes to `b`, then `b` is sent the text. -/
theorem delivered_of_reachable_sendText :
    ∃ s s' : Server, (s.step {} (.switchToScreen "b") = some s' ∧ s.Awaits s' .clipboard) ∧
      ∃ clipboard, s'.delivered s'.focus.active .clipboard = some clipboard ∧
        clipboard.marshall = (s'.clipboards .clipboard).clipboard.marshall := by
  have hrun : (run {} threeScreens ⟨"p", true⟩ ⟨0, 0, 100, 100, 50, 50⟩ false
      (bothConnect ++ grabOnC ++ sendText 2)).map (fun s =>
        (s.step {} (.switchToScreen "b")).map fun s' => decide (s.Awaits s' .clipboard)) =
      some (some true) := by decide +kernel
  obtain ⟨s, hs, hstep⟩ := Option.map_eq_some_iff.1 hrun
  obtain ⟨s', hst, hawaits⟩ := Option.map_eq_some_iff.1 hstep
  have hawaits := of_decide_eq_true hawaits
  exact ⟨s, s', ⟨hst, hawaits⟩,
    delivered_of_reachable (reachableVia_of_run hs (by decide +kernel))
      ⟨rfl, fun d hd => by cases hd⟩ hst rfl hawaits⟩

/-- When `b` sends the text instead, after `c` grabbed the clipboard, the text is stored for `c`
and `b` counts as up to date: the switch to `b` sends it nothing. -/
theorem not_delivered_of_reachable :
    ¬∀ (s s' : Server) (env : Env) (e : Event) (id : ClipboardID), lts.Reachable s →
      s.step env e = some s' → e.changesRegistry = false → s.Awaits s' id →
      ∃ clipboard, s'.delivered s'.focus.active id = some clipboard ∧
        clipboard.marshall = (s'.clipboards id).clipboard.marshall := by
  intro h
  have hrun : (run {} threeScreens ⟨"p", true⟩ ⟨0, 0, 100, 100, 50, 50⟩ false
      (bothConnect ++ grabOnC ++ sendText 1)).map (fun s =>
        (s.step {} (.switchToScreen "b")).map fun s' =>
          (decide (s.Awaits s' .clipboard), (s'.delivered s'.focus.active .clipboard).isSome)) =
      some (some (true, false)) := by decide +kernel
  obtain ⟨s, hs, hstep⟩ := Option.map_eq_some_iff.1 hrun
  obtain ⟨s', hst, hswitched⟩ := Option.map_eq_some_iff.1 hstep
  obtain ⟨hawaits, hnone⟩ := Prod.mk.inj hswitched
  obtain ⟨clipboard, hdelivered, -⟩ := h s s' {} (.switchToScreen "b") .clipboard
    (reachable_of_run hs) hst rfl (of_decide_eq_true hawaits)
  rw [hdelivered] at hnone
  cases hnone

end Server

end InputLeap
