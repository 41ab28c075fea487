import InputLeap.Server.Clipboards

/-!
# The screens that are connected

Screens are registered under their names and, apart from that, in a set.  Both registers change
when a client is adopted and when a connected client is removed: by its disconnection, by a
configuration that does not have its name, or by the request to disconnect all.

## Main definitions

* `Server.Connected` : the registers agree as far as lookups need it, and a pending switch goes
  to a connected screen.
* `Server.Removes P e` : every connected client that the event `e` removes satisfies `P`.
* `Server.Removable` : the client is found under its name, and a switch to it is pending only
  while it counts as the active screen.
* `Server.ForcedOut` : what `forceLeaveClient` does.

## Main results

* `forcedOut_closeClient`, `forcedOut_removeActiveClient` : what removing a client does.
* `Connected.closeClients` : removing removable clients one after the other.
-/

namespace InputLeap

/-- The registry without the client `c`, whose name is `name`, if it is connected. -/
def Registry.without (r : Registry) (name : String) (c : ClientID) : Registry :=
  if c ∈ r.clientSet then
    { r with clients := r.clients.erase name, clientSet := r.clientSet.erase c }
  else r

namespace Server

/-- Lookups of names and the pending switch lead to connected screens. -/
structure Connected (s : Server) : Prop where
  primary : primaryClient ∈ s.registry.clientSet
  names : ∀ {name : String} {c : ClientID}, s.registry.clients[name]? = some c →
    c ∈ s.registry.clientSet
  inj : ∀ {name name' : String} {c : ClientID}, s.registry.clients[name]? = some c →
    s.registry.clients[name']? = some c → name = name'
  waiting : ∀ {c}, c ∈ s.registry.waiting → c ∉ s.registry.clientSet ∧ c < s.registry.next
  fresh : ∀ {c}, c ∈ s.registry.clientSet → c < s.registry.next
  pending : ∀ {c}, s.pending.switchScreen = some c → c ∈ s.registry.clientSet

variable (s : Server)

/-- Removing the client takes it out of both registers, and a switch to it does not stay
pending. -/
def Removable (c : ClientID) : Prop :=
  s.registry.clients[s.getName c]? = some c ∧
    (s.pending.switchScreen = some c → c = s.focusClient)

instance (c : ClientID) : Decidable (s.Removable c) := inferInstanceAs (Decidable (_ ∧ _))

/-- Every connected client that the event removes satisfies `P`, in the state before it is
handled (with the new configuration, if the event brings one). -/
def Removes (P : Server → ClientID → Prop) : Event → Prop
  | .clientDisconnected c => c ∈ s.registry.clientSet → P s c
  | .reloadConfig cfg =>
    cfg.isScreen (s.registry.ident primaryClient).name = true →
      ∀ c ∈ droppedClients { s with config := cfg } cfg, P { s with config := cfg } c
  | .disconnect =>
    (1 < s.registry.clients.size ∨ !s.registry.oldClients.isEmpty) →
      ∀ c ∈ s.droppedClients {}, P s c
  | _ => True

instance (P : Server → ClientID → Prop) [∀ s c, Decidable (P s c)] :
    ∀ e, Decidable (s.Removes P e)
  | .clientDisconnected _ => inferInstanceAs (Decidable (_ → _))
  | .reloadConfig _ => inferInstanceAs (Decidable (_ → ∀ _ ∈ _, _))
  | .disconnect => inferInstanceAs (Decidable (_ → ∀ _ ∈ _, _))
  | .clientConnected .. | .adoptClient _ | .clientCloseTimeout _ | .screensaver _
  | .switchToScreen _ | .toggleScreen | .switchInDirection _ | .lockCursorToScreen _
  | .motionPrimary .. | .motionSecondary .. | .switchWait | .info .. | .shapeChanged _
  | .clipboardGrabbed .. | .clipboardReceived .. | .clipboardChanged .. | .filePasteRequested ..
  | .filePasteStatus .. | .mouseDown | .dragInfoSent => .isTrue trivial

variable {s}

theorem Removes.mono {P Q : Server → ClientID → Prop} {e : Event} (h : s.Removes P e)
    (hPQ : ∀ s c, P s c → Q s c) : s.Removes Q e := by
  cases e <;> first
    | exact fun hc => hPQ _ _ (h hc)
    | exact fun hd c hc => hPQ _ _ (h hd c hc)
    | trivial

/-- The client `c` that counted as active gives way to the primary screen, which is entered
unless the screen saver runs; nothing happens if another screen counted as active. -/
structure ForcedOut (s s' : Server) (c : ClientID) : Prop where
  config : s'.config = s.config
  options : s'.options = s.options
  registry : s'.registry = s.registry
  mapped : s'.log.mapped = s.log.mapped
  cursor :
    (s.focusClient ≠ c ∧ s'.focus = s.focus ∧ s'.pending = s.pending ∧
      ∀ d, s'.Entered d ↔ s.Entered d) ∨
    (s.focusClient = c ∧
      s'.focus = { s.focus with active := primaryClient, activeSaver := none } ∧
      s'.pending = (if s.pending.switchScreen = some c then s.pending.stopSwitch
        else s.pending) ∧
      ∀ d, s'.Entered d ↔ d = primaryClient ∧ s.focus.activeSaver = none ∨ s.Entered d)

namespace ForcedOut

variable {s' s'' : Server} {c d : ClientID}

theorem getName (h : ForcedOut s s' c) : s'.getName d = s.getName d := by
  simp only [Server.getName, h.config, h.registry]

theorem trans_still (h : ForcedOut s s' c) (h' : Still s' s'') : ForcedOut s s'' c where
  config := h'.config.trans h.config
  options := h'.options.trans h.options
  registry := h'.registry.trans h.registry
  mapped := h'.mapped.trans h.mapped
  cursor := by
    obtain ⟨hc, hf, hp, he⟩ | ⟨hc, hf, hp, he⟩ := h.cursor
    · exact .inl ⟨hc, h'.focus.trans hf, h'.pending.trans hp,
        fun d => (h'.entered d).trans (he d)⟩
    · exact .inr ⟨hc, h'.focus.trans hf, h'.pending.trans hp,
        fun d => (h'.entered d).trans (he d)⟩

theorem of_still (h : Still s s') (h' : ForcedOut s' s'' c) : ForcedOut s s'' c where
  config := h'.config.trans h.config
  options := h'.options.trans h.options
  registry := h'.registry.trans h.registry
  mapped := h'.mapped.trans h.mapped
  cursor := by
    obtain ⟨hc, hf, hp, he⟩ | ⟨hc, hf, hp, he⟩ := h'.cursor
    · exact .inl ⟨h.focusClient ▸ hc, hf.trans h.focus, hp.trans h.pending,
        fun d => (he d).trans (h.entered d)⟩
    · refine .inr ⟨h.focusClient ▸ hc, ?_, ?_, fun d => ?_⟩
      · rw [hf, h.focus]
      · rw [hp, h.pending]
      · rw [he, h.focus, h.entered]

end ForcedOut

theorem jumpToPrimary_spec (s : Server) (env : Env) (c : ClientID) :
    (s.jumpToPrimary env c).config = s.config ∧ (s.jumpToPrimary env c).options = s.options ∧
    (s.jumpToPrimary env c).registry = s.registry ∧
    (s.jumpToPrimary env c).log.mapped = s.log.mapped ∧
    (s.jumpToPrimary env c).focus = { s.focus with active := primaryClient } ∧
    (s.jumpToPrimary env c).pending = (if s.pending.switchScreen = some c then
      s.pending.stopSwitch else s.pending) ∧
    ∀ d, (s.jumpToPrimary env c).Entered d ↔
      d = primaryClient ∧ s.focus.activeSaver = none ∨ s.Entered d := by
  unfold jumpToPrimary
  by_cases hp : s.pending.switchScreen = some c <;> by_cases hs : s.focus.activeSaver = none
  all_goals
    simp only [hp, hs, if_true, if_false, stopSwitch, setPending, setFocus]
    refine ⟨rfl, rfl, rfl, rfl, rfl, rfl, fun d => ?_⟩
    rw [(still_notice _ _).entered]
    simp only [and_true, and_false, false_or]
  · exact entered_enterClient _ env d primaryClient _ _ false
  · exact Iff.rfl
  · exact entered_enterClient _ env d primaryClient _ _ false
  · exact Iff.rfl

theorem forcedOut_forceLeaveClient (s : Server) (env : Env) (c : ClientID) :
    ForcedOut s (s.forceLeaveClient env c) c := by
  simp only [forceLeaveClient]
  refine ForcedOut.trans_still ?_ (still_notice _ _)
  by_cases hc : s.focusClient = c
  · obtain ⟨hconfig, hoptions, hregistry, hmapped, hfocus, hpending, hentered⟩ :=
      jumpToPrimary_spec s env c
    simp only [if_pos hc]
    by_cases hs : s.focus.activeSaver = some c
    · rw [if_pos (by rw [hfocus]; exact hs)]
      refine ⟨hconfig, hoptions, hregistry, hmapped, .inr ⟨hc, ?_, hpending, hentered⟩⟩
      simp only [setFocus, hfocus]
    · rw [if_neg (by rw [hfocus]; exact hs)]
      refine ⟨hconfig, hoptions, hregistry, hmapped, .inr ⟨hc, ?_, hpending, hentered⟩⟩
      -- No screen is remembered: it would be the one that counts as active.
      cases hsaver : s.focus.activeSaver with
      | none => rw [hfocus, ← hsaver]
      | some d =>
        simp only [focusClient, hsaver, Option.getD_some] at hc
        exact absurd (hc ▸ hsaver) hs
  · have hsaver : s.focus.activeSaver ≠ some c := by
      intro h
      simp [focusClient, h] at hc
    simp only [if_neg hc, if_neg hsaver]
    exact ⟨rfl, rfl, rfl, rfl, .inl ⟨hc, rfl, rfl, fun _ => Iff.rfl⟩⟩

/-! ### Removing a client -/

theorem still_removeClient (s : Server) (c : ClientID) :
    Still { s with registry := s.registry.without (s.getName c) c } (s.removeClient c) := by
  unfold removeClient Registry.without
  by_cases hc : c ∈ s.registry.clientSet
  · have hcontains : s.registry.clientSet.contains c = true := hc
    simp only [hcontains, Bool.not_true, Bool.false_eq_true, if_false, if_pos hc]
    exact still_endFilePastes _ _
  · have hcontains : s.registry.clientSet.contains c = false := Bool.eq_false_iff.2 hc
    simp only [hcontains, Bool.not_false, if_true, if_neg hc]
    exact .refl s

/-- The state with the client `c` out of the registers, before the cursor is seen to. -/
def without (s : Server) (c : ClientID) (oldClients : Std.TreeSet ClientID) : Server :=
  { s with registry := { s.registry.without (s.getName c) c with oldClients := oldClients } }

theorem forcedOut_closeClient (s : Server) (env : Env) (c : ClientID) (msg : String) :
    ForcedOut (s.without c (s.registry.oldClients.insert c)) (s.closeClient env c msg) c := by
  simp only [closeClient]
  refine ForcedOut.of_still ?_ (forcedOut_forceLeaveClient _ env c)
  have h := still_removeClient (s.notice (.close c msg)) c
  have hr : ((s.notice (.close c msg)).removeClient c).registry =
      s.registry.without (s.getName c) c := h.registry
  refine ⟨h.config, h.options, ?_, h.focus, h.pending, h.mapped, h.entered⟩
  simp only [without, hr]
  unfold Registry.without
  split_ifs <;> rfl

theorem forcedOut_removeActiveClient (s : Server) (env : Env) {c : ClientID}
    (hc : c ∈ s.registry.clientSet) :
    ForcedOut (s.without c s.registry.oldClients) (s.removeActiveClient env c) c := by
  have hcontains : s.registry.clientSet.contains c = true := hc
  simp only [removeActiveClient, hcontains, Bool.not_true, Bool.false_eq_true, if_false]
  have h := still_removeClient s c
  have hwithout : s.without c s.registry.oldClients =
      { s with registry := s.registry.without (s.getName c) c } := by
    unfold without Registry.without
    rw [if_pos hc]
  rw [hwithout]
  have hforce := (forcedOut_forceLeaveClient _ env c).of_still h
  split_ifs
  · exact hforce.trans_still (still_notice _ _)
  · exact hforce

section without

variable {s : Server} {c d : ClientID} {o : Std.TreeSet ClientID}

theorem mem_without : d ∈ (s.without c o).registry.clientSet ↔
    d ∈ s.registry.clientSet ∧ d ≠ c := by
  unfold without Registry.without
  split_ifs with hc
  · simp only [Std.TreeSet.mem_erase, ne_eq, Std.LawfulEqCmp.compare_eq_iff_eq]
    rw [and_comm, eq_comm]
  · have : d ∈ s.registry.clientSet → d ≠ c := fun hd hdc => hc (hdc ▸ hd)
    simpa using this

theorem clients_without {name : String} (h : (s.without c o).registry.clients[name]? = some d) :
    s.registry.clients[name]? = some d := by
  unfold without Registry.without at h
  split_ifs at h with hc
  · simp only [Std.TreeMap.getElem?_erase] at h
    split_ifs at h
    exact h
  · exact h

/-- Another client stays registered under its name. -/
theorem clients_without_of_ne (hd : s.registry.clients[s.getName d]? = some d)
    (hc : c ∈ s.registry.clientSet → s.registry.clients[s.getName c]? = some c) (hdc : d ≠ c) :
    (s.without c o).registry.clients[s.getName d]? = some d := by
  unfold without Registry.without
  split_ifs with hmem
  · have hname : s.getName c ≠ s.getName d := by
      intro h
      have hc := hc hmem
      rw [h, hd] at hc
      exact hdc (Option.some.inj hc)
    simp only [Std.TreeMap.getElem?_erase, Std.LawfulEqCmp.compare_eq_iff_eq, if_neg hname]
    exact hd
  · exact hd

theorem waiting_without : (s.without c o).registry.waiting = s.registry.waiting ∧
    (s.without c o).registry.next = s.registry.next ∧
    (s.without c o).registry.ident = s.registry.ident := by
  unfold without Registry.without
  split_ifs <;> exact ⟨rfl, rfl, rfl⟩

theorem getName_without : (s.without c o).getName d = s.getName d := by
  simp only [getName, waiting_without]
  rfl

end without

namespace ForcedOut

variable {s s' : Server} {c d : ClientID} {o : Std.TreeSet ClientID}

theorem mem_clientSet (h : ForcedOut (s.without c o) s' c) :
    d ∈ s'.registry.clientSet ↔ d ∈ s.registry.clientSet ∧ d ≠ c := by
  rw [h.registry, mem_without]

/-- Removing a removable client keeps lookups and the pending switch on connected screens. -/
theorem connected (h : ForcedOut (s.without c o) s' c) (hs : Connected s)
    (hc : c ≠ primaryClient) (hremove : c ∈ s.registry.clientSet → s.Removable c) :
    Connected s' where
  primary := h.mem_clientSet.2 ⟨hs.primary, hc.symm⟩
  names := by
    intro name d hd
    rw [h.registry] at hd
    refine h.mem_clientSet.2 ⟨hs.names (clients_without hd), ?_⟩
    -- The one name that leads to `c` is its own, which is erased.
    rintro rfl
    have hmem := hs.names (clients_without hd)
    have hname := hs.inj (clients_without hd) (hremove hmem).1
    subst hname
    simp only [without, Registry.without, if_pos hmem, Std.TreeMap.getElem?_erase,
      Std.ReflCmp.compare_self, if_true, reduceCtorEq] at hd
  inj := by
    intro name name' d hd hd'
    rw [h.registry] at hd hd'
    exact hs.inj (clients_without hd) (clients_without hd')
  waiting := by
    intro d hd
    rw [h.registry, waiting_without.1] at hd
    obtain ⟨hmem, hlt⟩ := hs.waiting hd
    refine ⟨fun hd' => hmem (h.mem_clientSet.1 hd').1, ?_⟩
    rw [h.registry, waiting_without.2.1]
    exact hlt
  fresh := by
    intro d hd
    rw [h.registry, waiting_without.2.1]
    exact hs.fresh (h.mem_clientSet.1 hd).1
  pending := by
    intro d hd
    refine h.mem_clientSet.2 ?_
    obtain ⟨hfocus, -, hpending, -⟩ | ⟨-, -, hpending, -⟩ := h.cursor
    · rw [hpending] at hd
      refine ⟨hs.pending hd, ?_⟩
      rintro rfl
      exact hfocus ((hremove (hs.pending hd)).2 hd).symm
    · rw [hpending] at hd
      split_ifs at hd with hpc
      · rw [Pending.stopSwitch_switchScreen] at hd
        cases hd
      · refine ⟨hs.pending hd, ?_⟩
        rintro rfl
        exact hpc hd

/-- The clients that could be removed before still can be. -/
theorem removable (h : ForcedOut (s.without c o) s' c)
    (hc : c ∈ s.registry.clientSet → s.Removable c)
    (hd : d ∈ s.registry.clientSet → s.Removable d) (hmem : d ∈ s'.registry.clientSet) :
    s'.Removable d := by
  obtain ⟨hmem, hdc⟩ := h.mem_clientSet.1 hmem
  obtain ⟨hname, hpd⟩ := hd hmem
  have hgetName : s'.getName d = s.getName d := h.getName.trans getName_without
  refine ⟨?_, fun hp => ?_⟩
  · rw [hgetName, h.registry]
    exact clients_without_of_ne hname (fun hmem => (hc hmem).1) hdc
  · obtain ⟨hfocus, hf, hpending, -⟩ | ⟨hfocus, hf, hpending, -⟩ := h.cursor
    · rw [hpending] at hp
      simp only [focusClient, hf]
      exact hpd hp
    · rw [hpending] at hp
      split_ifs at hp
      · rw [Pending.stopSwitch_switchScreen] at hp
        cases hp
      · exact absurd ((hpd hp).trans hfocus) hdc

end ForcedOut

/-! ### Removing several clients -/

/-- Closing clients one after the other keeps `I` if closing one keeps it when the client
satisfies `P`, and keeps `P` for the others. -/
theorem closeClients_induction {I : Server → Prop} {P : Server → ClientID → Prop} {env : Env}
    {msg : String} (hstep : ∀ s c, c ≠ primaryClient → I s →
      (c ∈ s.registry.clientSet → P s c) → I (s.closeClient env c msg) ∧
        ∀ d, d ≠ primaryClient → (d ∈ s.registry.clientSet → P s d) →
          d ∈ (s.closeClient env c msg).registry.clientSet → P (s.closeClient env c msg) d)
    (l : List ClientID) (s : Server)
    (hl : ∀ c ∈ l, c ≠ primaryClient ∧ (c ∈ s.registry.clientSet → P s c)) (hs : I s) :
    I (l.foldl (fun s c => s.closeClient env c msg) s) := by
  induction l generalizing s with
  | nil => exact hs
  | cons c l ih =>
    obtain ⟨hc, hP⟩ := hl c (List.mem_cons_self ..)
    obtain ⟨hI, hrest⟩ := hstep s c hc hs hP
    refine ih _ (fun d hd => ?_) hI
    obtain ⟨hd', hPd⟩ := hl d (List.mem_cons_of_mem _ hd)
    exact ⟨hd', hrest d hd' hPd⟩

theorem ne_primary_of_mem_droppedClients {s : Server} {cfg : Config} {c : ClientID}
    (h : c ∈ s.droppedClients cfg) : c ≠ primaryClient := by
  simp only [droppedClients, Std.TreeSet.mem_toList, Std.TreeSet.mem_erase, ne_eq,
    Std.LawfulEqCmp.compare_eq_iff_eq] at h
  exact fun hc => h.1 hc.symm

theorem registered_of_mem_droppedClients {s : Server} {cfg : Config} {c : ClientID}
    (h : c ∈ s.droppedClients cfg) : s.registry.Registered c := by
  simp only [droppedClients, Std.TreeSet.mem_toList, Std.TreeSet.mem_erase, Std.TreeSet.mem_ofList,
    List.contains_iff_mem, List.mem_map, List.mem_filter] at h
  obtain ⟨-, ⟨name, c'⟩, ⟨hmem, -⟩, rfl⟩ := h
  exact ⟨name, Std.TreeMap.mem_toList_iff_getElem?_eq_some.1 hmem⟩

/-- The state in which the client `c` no longer waits. -/
def dequeue (s : Server) (c : ClientID) : Server :=
  { s with registry := { s.registry with waiting := s.registry.waiting.erase c } }

namespace Connected

variable {s s' : Server} {env : Env} {c : ClientID}

theorem of_pending (h : Connected s) (hr : s'.registry = s.registry)
    (hp : ∀ c, s'.pending.switchScreen = some c →
      s.registry.Registered c ∨ s.pending.switchScreen = some c) : Connected s' := by
  obtain ⟨hprimary, hnames, hinj, hwaiting, hfresh, hpending⟩ := h
  refine ⟨?_, ?_, ?_, ?_, ?_, ?_⟩
  all_goals rw [hr]
  · exact hprimary
  · exact hnames
  · exact hinj
  · exact hwaiting
  · exact hfresh
  · intro c hc
    obtain ⟨name, hname⟩ | hold := hp c hc
    · exact hnames hname
    · exact hpending hold

theorem moved (h : Connected s) (hm : Moved s s') : Connected s' :=
  h.of_pending hm.registry hm.pending

theorem aimed (h : Connected s) (ha : Aimed s s') : Connected s' :=
  h.of_pending ha.registry ha.pending

theorem still (h : Connected s) (hs : Still s s') : Connected s' := h.aimed hs.aimed

theorem mem_of_registered (h : Connected s) (hc : s.registry.Registered c) :
    c ∈ s.registry.clientSet := by
  obtain ⟨name, hname⟩ := hc
  exact h.names hname

theorem clientConnected (h : Connected s) (ident : Ident) (info : ScreenInfo) :
    Connected (s.clientConnected ident info) where
  primary := h.primary
  names := h.names
  inj := h.inj
  waiting := by
    intro c hc
    simp only [Server.clientConnected, Std.TreeSet.mem_insert,
      Std.LawfulEqCmp.compare_eq_iff_eq] at hc
    obtain rfl | hc := hc
    · exact ⟨fun hmem => lt_irrefl _ (h.fresh hmem), Nat.lt_succ_self _⟩
    · obtain ⟨hmem, hlt⟩ := h.waiting hc
      exact ⟨hmem, hlt.trans (Nat.lt_succ_self _)⟩
  fresh := fun hc => (h.fresh hc).trans (Nat.lt_succ_self _)
  pending := h.pending

theorem dequeue (h : Connected s) (c : ClientID) : Connected (s.dequeue c) :=
  ⟨h.primary, h.names, h.inj, fun hd => h.waiting (Std.TreeSet.mem_of_mem_erase hd), h.fresh,
    h.pending⟩

end Connected

theorem keeps_sendOptions (s : Server) (c : ClientID) : Keeps s (s.sendOptions c) :=
  (keeps_notice s _).trans (keeps_notice _ _)

theorem clipsKept_sendOptions (s : Server) (c : ClientID) : ClipsKept s (s.sendOptions c) :=
  (clipsKept_notice s _).trans (clipsKept_notice _ _)

/-- What `adoptClient` does, one state after the other. -/
theorem adoptClient_stages (s : Server) (env : Env) (c : ClientID) :
    (∃ msg, s.adoptClient env c = (s.dequeue c).closeClient env c msg) ∨
    ∃ s₂ s₃ : Server, (s.dequeue c).addClient c = some s₂ ∧
      (s₃ = s₂.sendOptions c ∨ s₃ = (s₂.sendOptions c).notice (.screensaver c true)) ∧
      s.adoptClient env c = s₃.notice (.serverConnected (s₃.getName c)) := by
  unfold adoptClient
  dsimp only
  split_ifs
  · exact .inl ⟨"EUNK", rfl⟩
  · split
    · exact .inl ⟨"EBSY", rfl⟩
    · rename_i s₂ hadd
      refine .inr ⟨s₂, if (s₂.sendOptions c).focus.activeSaver ≠ none then
        (s₂.sendOptions c).notice (.screensaver c true) else s₂.sendOptions c, hadd, ?_, rfl⟩
      split_ifs
      · exact .inr rfl
      · exact .inl rfl

theorem adoptClient_cases (s : Server) (env : Env) (c : ClientID) :
    (∃ msg, s.adoptClient env c = (s.dequeue c).closeClient env c msg) ∨
    ∃ s₂, (s.dequeue c).addClient c = some s₂ ∧ Still s₂ (s.adoptClient env c) ∧
      Keeps s₂ (s.adoptClient env c) ∧ ClipsKept s₂ (s.adoptClient env c) := by
  obtain ⟨msg, hclose⟩ | ⟨s₂, s₃, hadd, hs₃, hadopt⟩ := adoptClient_stages s env c
  · exact .inl ⟨msg, hclose⟩
  · have hstill := still_sendOptions s₂ c
    have hkeeps := keeps_sendOptions s₂ c
    have hclips := clipsKept_sendOptions s₂ c
    rw [hadopt]
    rcases hs₃ with rfl | rfl
    · exact .inr ⟨s₂, hadd, hstill.trans (still_notice _ _), hkeeps.trans (keeps_notice _ _),
        hclips.trans (clipsKept_notice _ _)⟩
    · exact .inr ⟨s₂, hadd, (hstill.trans (still_notice _ _)).trans (still_notice _ _),
        (hkeeps.trans (keeps_notice _ _)).trans (keeps_notice _ _),
        (hclips.trans (clipsKept_notice _ _)).trans (clipsKept_notice _ _)⟩

/-- The state with the screen `c` in both registers. -/
def withClient (s : Server) (c : ClientID) : Server :=
  { s with
    registry := { s.registry with
      clientSet := s.registry.clientSet.insert c
      clients := s.registry.clients.insert (s.getName c) c } }

/-- What `addClient` does: the screen is in both registers, and its name was free. -/
theorem addClient_spec {s s' : Server} {c : ClientID} (h : s.addClient c = some s') :
    s.registry.clients[s.getName c]? = none ∧ Still (s.withClient c) s' ∧
      Keeps (s.withClient c) s' ∧ ClipsKept (s.withClient c) s' := by
  simp only [addClient] at h
  split_ifs at h with hname
  cases h
  exact ⟨Std.TreeMap.getElem?_eq_none hname,
    (still_setProxy _ _ _).trans (still_notice _ _), ⟨rfl, rfl, rfl, rfl, rfl, rfl, rfl⟩,
    (clipsKept_setProxy (s.withClient c) c { s.proxies c with
      jumpCursorPos := ((s.info c).mx, (s.info c).my) } fun _ => rfl).trans (clipsKept_notice _ _)⟩

theorem mem_withClient {s : Server} {c d : ClientID} :
    d ∈ (s.withClient c).registry.clientSet ↔ c = d ∨ d ∈ s.registry.clientSet := by
  simp only [withClient, Std.TreeSet.mem_insert, Std.LawfulEqCmp.compare_eq_iff_eq]

theorem clients_withClient {s : Server} {c d : ClientID} {name : String}
    (h : (s.withClient c).registry.clients[name]? = some d) :
    s.getName c = name ∧ c = d ∨ s.registry.clients[name]? = some d := by
  simp only [withClient, Std.TreeMap.getElem?_insert] at h
  split_ifs at h with hname
  · exact .inl ⟨Std.LawfulEqCmp.compare_eq_iff_eq.1 hname, Option.some.inj h⟩
  · exact .inr h

namespace Connected

variable {s s' : Server} {env : Env} {c : ClientID}

theorem addClient (h : Connected s) (hadd : s.addClient c = some s')
    (hc : c ∉ s.registry.clientSet) (hwaiting : c ∉ s.registry.waiting)
    (hlt : c < s.registry.next) : Connected s' := by
  obtain ⟨-, hstill, -⟩ := addClient_spec hadd
  refine Connected.still ?_ hstill
  refine ⟨mem_withClient.2 (.inr h.primary), ?_, ?_, ?_, ?_,
    fun hp => mem_withClient.2 (.inr (h.pending hp))⟩
  · intro name d hd
    obtain ⟨-, rfl⟩ | hd := clients_withClient hd
    · exact mem_withClient.2 (.inl rfl)
    · exact mem_withClient.2 (.inr (h.names hd))
  · intro name name' d hd hd'
    -- A connected screen has a name already, the new one has only the name it gets now.
    obtain ⟨rfl, rfl⟩ | hd := clients_withClient hd <;>
      obtain ⟨rfl, hcd⟩ | hd' := clients_withClient hd'
    · rfl
    · exact absurd (h.names hd') hc
    · exact absurd (h.names (hcd ▸ hd)) hc
    · exact h.inj hd hd'
  · intro d hd
    refine ⟨fun hd' => ?_, (h.waiting hd).2⟩
    obtain rfl | hd' := mem_withClient.1 hd'
    · exact hwaiting hd
    · exact (h.waiting hd).1 hd'
  · intro d hd
    obtain rfl | hd := mem_withClient.1 hd
    · exact hlt
    · exact h.fresh hd

theorem adoptClient (h : Connected s) (hc : c ∈ s.registry.waiting) :
    Connected (s.adoptClient env c) := by
  obtain ⟨hmem, hlt⟩ := h.waiting hc
  have hne : c ≠ primaryClient := fun hp => hmem (hp ▸ h.primary)
  have h₁ : Connected (s.dequeue c) := h.dequeue c
  have hwaiting : c ∉ (s.dequeue c).registry.waiting := by simp [Server.dequeue]
  obtain ⟨msg, hclose⟩ | ⟨s₂, hadd, hstill, -⟩ := adoptClient_cases s env c
  · rw [hclose]
    exact (forcedOut_closeClient _ env c msg).connected h₁ hne fun hm => absurd hm hmem
  · exact (h₁.addClient hadd hmem hwaiting hlt).still hstill

theorem removeOldClient (h : Connected s) (c : ClientID) : Connected (s.removeOldClient c) := by
  have herase : Connected { s with registry :=
      { s.registry with oldClients := s.registry.oldClients.erase c } } :=
    ⟨h.primary, h.names, h.inj, h.waiting, h.fresh, h.pending⟩
  simp only [Server.removeOldClient]
  split_ifs
  · exact h
  · exact herase.still (still_notice _ _)
  · exact herase

theorem handleClientDisconnected (h : Connected s) (hne : c ≠ primaryClient)
    (hc : c ∈ s.registry.clientSet → s.Removable c) :
    Connected (s.handleClientDisconnected env c) := by
  refine Connected.removeOldClient ?_ c
  by_cases hmem : c ∈ s.registry.clientSet
  · exact (forcedOut_removeActiveClient s env hmem).connected h hne hc
  · have hcontains : s.registry.clientSet.contains c = false := Bool.eq_false_iff.2 hmem
    simp only [removeActiveClient, hcontains, Bool.not_false, if_true]
    exact h

/-- Closing clients that are removable. -/
theorem closeClients (h : Connected s) {cfg : Config}
    (hl : ∀ c ∈ s.droppedClients cfg, s.Removable c) : Connected (s.closeClients env cfg) := by
  refine closeClients_induction (P := Removable) (fun s c hc hs hP => ?_) _ s ?_ h
  · have hforced := forcedOut_closeClient s env c "CBYE"
    exact ⟨hforced.connected hs hc hP, fun d _ hd => hforced.removable hP hd⟩
  · exact fun c hc => ⟨ne_primary_of_mem_droppedClients hc, fun _ => hl c hc⟩

end Connected

/-! ### Applying a configuration -/

theorem switchScreen_process (p : Pending) (options : List (OptionID × ℤ)) :
    (options.foldl Pending.process p).switchScreen = p.switchScreen := by
  induction options generalizing p with
  | nil => rfl
  | cons option options ih =>
    rw [List.foldl_cons, ih]
    unfold Pending.process
    split <;> rfl

theorem aimed_processOptions (s : Server) : Aimed s s.processOptions := by
  simp only [processOptions]
  split
  · exact (Still.refl s).aimed
  · rename_i options _
    have hpending : Aimed s (s.setPending (options.toList.foldl Pending.process s.pending)) :=
      aimed_setPending fun c hc => .inr (by rwa [switchScreen_process] at hc)
    have hoptions (s' : Server) (o : SwitchOptions) : Aimed s' { s' with options := o } :=
      ⟨rfl, rfl, fun _ hc => .inr hc, fun _ => Iff.rfl⟩
    refine Aimed.trans ?_ (hoptions _ _)
    split_ifs
    · exact hpending.trans (still_stopRelativeMoves _).aimed
    · exact hpending

theorem aimed_addScrollLockRule (s : Server) : Aimed s s.addScrollLockRule := by
  unfold addScrollLockRule
  split_ifs
  · exact (Still.refl _).aimed
  · exact ⟨rfl, rfl, fun _ hc => .inr hc, fun _ => Iff.rfl⟩

/-- What `setConfig` does when it accepts the configuration: clients are dropped, and nothing
else changes about the screens. -/
theorem setConfig_spec {s s' : Server} {env : Env} (h : s.setConfig env = some s') :
    s.config.isScreen (s.registry.ident primaryClient).name = true ∧
      Aimed (s.closeClients env s.config) s' := by
  have hscreen : s.config.isScreen (s.registry.ident primaryClient).name = true := by
    unfold setConfig at h
    split_ifs at h with hscreen
    simpa using hscreen
  obtain ⟨s₁, s₂, s₃, rfl, hprocess, hrule, rfl⟩ := setConfig_stages h
  have hprocessed := aimed_processOptions (s.closeClients env s.config)
  have hruled := aimed_addScrollLockRule s₂
  rw [← hprocess] at hprocessed
  rw [← hrule] at hruled
  have hreconfigured : Aimed s₃ s₃.reconfigure :=
    (still_notice s₃ (.reconfigure s₃.getActivePrimarySides)).aimed
  refine ⟨hscreen, ((hprocessed.trans hruled).trans hreconfigured).trans ?_⟩
  exact (Still.foldl (fun s c => still_sendOptions s c) _ _).aimed

theorem Connected.reloadConfig {s : Server} {env : Env} (h : Connected s) {cfg : Config}
    (hg : s.Removes Removable (.reloadConfig cfg)) : Connected (s.reloadConfig env cfg) := by
  have hcfg : Connected { s with config := cfg } :=
    ⟨h.primary, h.names, h.inj, h.waiting, h.fresh, h.pending⟩
  simp only [Server.reloadConfig]
  cases hset : Server.setConfig { s with config := cfg } env with
  | none => exact hcfg
  | some s' =>
    obtain ⟨hscreen, haimed⟩ := setConfig_spec hset
    exact (hcfg.closeClients (hg hscreen)).aimed haimed

/-- The event is about which screens are connected. -/
def Event.changesRegistry : Event → Bool
  | .clientConnected .. | .adoptClient _ | .clientDisconnected _ | .clientCloseTimeout _
  | .reloadConfig _ | .disconnect => true
  | _ => false

/-- The event is the hotkey that locks the cursor or is about file pastes. -/
def Event.locksOrPastes : Event → Bool
  | .lockCursorToScreen _ | .filePasteRequested .. | .filePasteStatus .. => true
  | _ => false

/-- Any other event that connects and removes no screen only moves the cursor and shares
clipboards. -/
theorem keeps_of_step {s s' : Server} {env : Env} {e : Event} (he : e.changesRegistry = false)
    (hlock : e.locksOrPastes = false) (hst : s.step env e = some s') : Keeps s s' := by
  cases e with
  | clientConnected | adoptClient | clientDisconnected | clientCloseTimeout | reloadConfig
  | disconnect => cases he
  | lockCursorToScreen | filePasteRequested | filePasteStatus => cases hlock
  | screensaver activated =>
    cases hst
    exact keeps_onScreensaver env activated
  | switchToScreen screen =>
    cases hst
    exact keeps_handleSwitchToScreenEvent env screen
  | toggleScreen =>
    cases hst
    exact keeps_handleToggleScreenEvent env
  | switchInDirection dir => exact keeps_handleSwitchInDirectionEvent hst
  | motionPrimary x y => exact keeps_onMouseMovePrimary hst
  | motionSecondary dx dy => exact keeps_onMouseMoveSecondary hst
  | switchWait =>
    simp only [Server.step] at hst
    split_ifs at hst
    exact keeps_handleSwitchWaitEvent hst
  | shapeChanged c => exact keeps_handleShapeChanged hst
  | clipboardGrabbed c id seqNum =>
    cases hst
    exact keeps_handleClipboardGrabbed s c id seqNum
  | clipboardReceived c id seqNum data =>
    simp only [Server.step] at hst
    split_ifs at hst
    obtain ⟨clipboard, -, rfl⟩ := Option.map_eq_some_iff.1 hst
    exact ⟨rfl, rfl, rfl, rfl, rfl, rfl, rfl⟩
  | clipboardChanged c id seqNum =>
    cases hst
    exact keeps_handleClipboardChanged s env c id seqNum
  | info | mouseDown | dragInfoSent =>
    cases hst
    exact ⟨rfl, rfl, rfl, rfl, rfl, rfl, rfl⟩

/-- An event that connects and removes no screen moves the cursor to a screen it can go to, or not
at all. -/
theorem moved_of_step {s s' : Server} {env : Env} {e : Event} (he : e.changesRegistry = false)
    (hst : s.step env e = some s') : Moved s s' := by
  have hstill {s s' : Server} (h : Still s s') : Moved s s' := h.aimed.moved
  cases e with
  | clientConnected | adoptClient | clientDisconnected | clientCloseTimeout | reloadConfig
  | disconnect => cases he
  | screensaver activated =>
    cases hst
    exact moved_onScreensaver s env activated
  | switchToScreen screen =>
    cases hst
    exact moved_handleSwitchToScreenEvent s env screen
  | toggleScreen =>
    cases hst
    exact moved_handleToggleScreenEvent s env
  | switchInDirection dir => exact moved_handleSwitchInDirectionEvent hst
  | lockCursorToScreen mode =>
    cases hst
    exact hstill (still_handleLockCursorToScreenEvent s mode)
  | motionPrimary x y => exact moved_onMouseMovePrimary hst
  | motionSecondary dx dy => exact moved_onMouseMoveSecondary hst
  | switchWait =>
    simp only [Server.step] at hst
    split_ifs at hst
    exact moved_handleSwitchWaitEvent hst
  | info c info =>
    cases hst
    exact hstill (still_setProxy s c _)
  | shapeChanged c => exact moved_handleShapeChanged hst
  | clipboardGrabbed c id seqNum =>
    cases hst
    exact hstill (still_handleClipboardGrabbed s c id seqNum)
  | clipboardReceived c id seqNum data =>
    simp only [Server.step] at hst
    split_ifs at hst
    obtain ⟨clipboard, -, rfl⟩ := Option.map_eq_some_iff.1 hst
    exact hstill (still_setProxy s c _)
  | clipboardChanged c id seqNum =>
    cases hst
    exact hstill (still_handleClipboardChanged s env c id seqNum)
  | filePasteRequested c request =>
    simp only [Server.step] at hst
    split_ifs at hst
    cases hst
    exact hstill (still_filePasteRequested s c request)
  | filePasteStatus c status =>
    simp only [Server.step] at hst
    split_ifs at hst
    cases hst
    exact hstill (still_filePasteStatus s c status)
  | mouseDown =>
    cases hst
    exact hstill ⟨rfl, rfl, rfl, rfl, rfl, rfl, fun _ => Iff.rfl⟩
  | dragInfoSent =>
    cases hst
    exact hstill ⟨rfl, rfl, rfl, rfl, rfl, rfl, fun _ => Iff.rfl⟩

theorem Connected.disconnect {s : Server} {env : Env} (h : Connected s)
    (hg : s.Removes Removable .disconnect) : Connected (s.disconnect env) := by
  unfold Server.disconnect
  split_ifs with hmany
  · exact h.closeClients (hg hmany)
  · exact h.still (still_notice _ _)

/-- **Lookups lead to connected screens** after every event that removes only removable
clients. -/
theorem Connected.step {s s' : Server} {env : Env} {e : Event} (h : Connected s)
    (hg : s.Removes Removable e) (hst : s.step env e = some s') : Connected s' := by
  cases he : e.changesRegistry with
  | false => exact h.moved (moved_of_step he hst)
  | true =>
    cases e with
    | clientConnected ident info =>
      cases hst
      exact h.clientConnected ident info
    | adoptClient c =>
      simp only [Server.step] at hst
      split_ifs at hst with hc
      cases hst
      exact h.adoptClient hc
    | clientDisconnected c =>
      simp only [Server.step] at hst
      split_ifs at hst with hc hne
      · cases hst
        exact h.dequeue c
      · cases hst
        exact h.handleClientDisconnected hne.1 hg
    | clientCloseTimeout c =>
      simp only [Server.step] at hst
      split_ifs at hst
      cases hst
      exact h.removeOldClient c
    | reloadConfig cfg =>
      cases hst
      exact h.reloadConfig hg
    | disconnect =>
      cases hst
      exact h.disconnect hg
    | _ => cases he

/-! ### The initial state -/

theorem closeClients_of_forall {s : Server} (env : Env) (cfg : Config)
    (h : ∀ c, s.registry.Registered c → c = primaryClient) : s.closeClients env cfg = s := by
  have hnil : s.droppedClients cfg = [] := by
    refine List.eq_nil_iff_forall_not_mem.2 fun c hc => ?_
    exact ne_primary_of_mem_droppedClients hc (h c (registered_of_mem_droppedClients hc))
  simp only [closeClients, hnil, List.foldl_nil]

section create

variable {env : Env} {cfg : Config} {primary : Ident} {info : ScreenInfo} {enableDragDrop : Bool}
  {s : Server}

theorem create_spec (h : create env cfg primary info enableDragDrop = some s) :
    ∃ s₁ s₂, (unregistered cfg primary info enableDragDrop).addClient primaryClient = some s₁ ∧
      s₁.setConfig env = some s₂ ∧
      s = { s₂ with lockedToScreen := env.toggleMask &&& keyModifierScrollLock != 0 } := by
  obtain ⟨s₁, hadd, h⟩ := Option.bind_eq_some_iff.1 h
  obtain ⟨s₂, hset, rfl⟩ := Option.map_eq_some_iff.1 h
  exact ⟨s₁, s₂, hadd, hset, rfl⟩

/-- The primary screen is the first one to be registered. -/
theorem connected_addClient_unregistered
    (h : (unregistered cfg primary info enableDragDrop).addClient primaryClient = some s) :
    Connected s ∧ ∀ c ∈ s.registry.clientSet, c = primaryClient := by
  obtain ⟨-, hstill, -⟩ := addClient_spec h
  set s₀ := (unregistered cfg primary info enableDragDrop).withClient primaryClient
  have hmem : ∀ c ∈ s₀.registry.clientSet, c = primaryClient := by
    intro c hc
    obtain rfl | hc := mem_withClient.1 hc
    · rfl
    · exact absurd hc Std.TreeSet.not_mem_emptyc
  have hnames {name : String} {c : ClientID} (hc : s₀.registry.clients[name]? = some c) :
      (unregistered cfg primary info enableDragDrop).getName primaryClient = name ∧
        primaryClient = c := by
    obtain hc | hc := clients_withClient hc
    · exact hc
    · simp [unregistered, blank] at hc
  refine ⟨Connected.still ?_ hstill, by rwa [hstill.registry]⟩
  refine ⟨mem_withClient.2 (.inl rfl), ?_, ?_, ?_, ?_, ?_⟩
  · intro name c hc
    exact mem_withClient.2 (.inl (hnames hc).2)
  · intro name name' c hc hc'
    exact (hnames hc).1.symm.trans (hnames hc').1
  · intro c hc
    exact absurd hc Std.TreeSet.not_mem_emptyc
  · intro c hc
    rw [hmem c hc]
    exact Nat.one_pos
  · intro c hc
    cases hc

/-- What the constructor makes: only the primary screen is connected, and the cursor is there. -/
theorem create_connected (h : create env cfg primary info enableDragDrop = some s) :
    Connected s ∧ s.focus = ⟨primaryClient, none, 0, 0⟩ ∧
      ∀ c, s.Entered c ↔ c = primaryClient := by
  obtain ⟨s₁, s₂, hadd, hset, rfl⟩ := create_spec h
  obtain ⟨h₁, hprimary⟩ := connected_addClient_unregistered hadd
  obtain ⟨-, hstill, -⟩ := addClient_spec hadd
  have hclose := closeClients_of_forall (s := s₁) env s₁.config
    fun c hc => hprimary c (h₁.mem_of_registered hc)
  obtain ⟨-, haimed⟩ := setConfig_spec hset
  rw [hclose] at haimed
  refine ⟨?_, haimed.focus.trans hstill.focus, fun c => ?_⟩
  · obtain ⟨hp, hn, hi, hw, hf, hpending⟩ := h₁.aimed haimed
    exact ⟨hp, hn, hi, hw, hf, hpending⟩
  · have hentered : s₂.Entered c ↔ c = primaryClient := by
      rw [haimed.entered, hstill.entered]
      exact beq_iff_eq
    exact hentered

end create

end Server

end InputLeap
