import InputLeap.Server.Delivery
import InputLeap.Server.NameRegistry

/-!
# Calls on proxies

Which proxies the functions that connect and remove screens make calls on, how often they
announce the end of a shutdown, and how closing moves proxies from one register to another.

## Main definitions

* `Server.Called P` : the calls made since then are made on proxies that satisfy `P`.
* `Server.disconnects` : how often the end of a shutdown was announced.
* `Server.Closed r` : the proxies that satisfy `r` are no longer connected but closing.
* `Server.Alone` : only the primary screen is left.

## Main results

* `called_adoptClient`, `called_setConfig`, ... : calls are made on the client itself, the primary
  screen, the active screen and the registered ones.
* `closed_closeClients` : closing several clients.
* `onlyPrimary_iff` : the sizes of the registers tell whether only the primary screen is left.
-/

namespace InputLeap

/-- The proxy that the call is made on. -/
def ScreenCall.target : ScreenCall → ClientID
  | .enter c .. | .leave c _ | .setClipboard c .. | .grabClipboard c _ => c

/-- The proxy that the call is made on. -/
def PasteCall.target : PasteCall → ClientID
  | .requested c _ | .sendFiles c _ | .status c _ => c

/-- The proxy that the call is made on; the rest are events. -/
def Notice.target : Notice → Option ClientID
  | .mouseMove c .. | .mouseRelativeMove c .. | .screensaver c _ | .resetOptions c
  | .setOptions c _ | .close c _ => some c
  | .reconfigure _ => some primaryClient
  | .serverConnected _ | .serverDisconnected | .serverScreenSwitched _ => none

namespace Server

variable {s s' s'' : Server} {env : Env} {c d : ClientID} {P : ClientID → Prop}

/-! ### Calls -/

/-- The calls made in between are made on proxies that satisfy `P`. -/
structure Called (P : ClientID → Prop) (s s' : Server) : Prop where
  screens : ∃ l, s'.log.screens = l ++ s.log.screens ∧ ∀ k ∈ l, P k.target
  pastes : ∃ l, s'.log.pastes = l ++ s.log.pastes ∧ ∀ k ∈ l, P k.target
  notices : ∃ l, s'.log.notices = l ++ s.log.notices ∧ ∀ k ∈ l, ∀ c ∈ k.target, P c

namespace Called

theorem of_log (h : s'.log = s.log) : Called P s s' :=
  ⟨⟨[], by rw [h]; rfl, fun _ hk => by cases hk⟩, ⟨[], by rw [h]; rfl, fun _ hk => by cases hk⟩,
    ⟨[], by rw [h]; rfl, fun _ hk => by cases hk⟩⟩

theorem refl (P : ClientID → Prop) (s : Server) : Called P s s := of_log rfl

theorem trans (h : Called P s s') (h' : Called P s' s'') : Called P s s'' := by
  obtain ⟨⟨ls, hs, hPs⟩, ⟨lp, hp, hPp⟩, ⟨ln, hn, hPn⟩⟩ := h
  obtain ⟨⟨ls', hs', hPs'⟩, ⟨lp', hp', hPp'⟩, ⟨ln', hn', hPn'⟩⟩ := h'
  refine ⟨⟨ls' ++ ls, ?_, ?_⟩, ⟨lp' ++ lp, ?_, ?_⟩, ⟨ln' ++ ln, ?_, ?_⟩⟩
  · rw [hs', hs, List.append_assoc]
  · exact fun k hk => (List.mem_append.1 hk).elim (hPs' k) (hPs k)
  · rw [hp', hp, List.append_assoc]
  · exact fun k hk => (List.mem_append.1 hk).elim (hPp' k) (hPp k)
  · rw [hn', hn, List.append_assoc]
  · exact fun k hk => (List.mem_append.1 hk).elim (hPn' k) (hPn k)

theorem mono {Q : ClientID → Prop} (h : Called P s s') (hPQ : ∀ c, P c → Q c) : Called Q s s' := by
  obtain ⟨⟨ls, hs, hPs⟩, ⟨lp, hp, hPp⟩, ⟨ln, hn, hPn⟩⟩ := h
  exact ⟨⟨ls, hs, fun k hk => hPQ _ (hPs k hk)⟩, ⟨lp, hp, fun k hk => hPQ _ (hPp k hk)⟩,
    ⟨ln, hn, fun k hk c hc => hPQ _ (hPn k hk c hc)⟩⟩

/-- Folding a function that keeps `I` and makes calls on good proxies while `I` holds. -/
theorem foldl {α : Type*} {f : Server → α → Server} {I : Server → Prop} (l : List α)
    (hf : ∀ s, I s → ∀ a ∈ l, I (f s a) ∧ Called P s (f s a)) (s : Server) (hs : I s) :
    I (l.foldl f s) ∧ Called P s (l.foldl f s) := by
  induction l generalizing s with
  | nil => exact ⟨hs, refl P s⟩
  | cons a l ih =>
    obtain ⟨h₁, hc₁⟩ := hf s hs a (List.mem_cons_self ..)
    obtain ⟨h₂, hc₂⟩ := ih (fun s hs b hb => hf s hs b (List.mem_cons_of_mem _ hb)) _ h₁
    exact ⟨h₂, hc₁.trans hc₂⟩

end Called

theorem called_notice (s : Server) {k : Notice} (hk : ∀ c ∈ k.target, P c) :
    Called P s (s.notice k) := by
  refine ⟨⟨[], rfl, fun _ hk => by cases hk⟩, ⟨[], rfl, fun _ hk => by cases hk⟩, ⟨[k], rfl, ?_⟩⟩
  intro k' hk'
  obtain rfl := List.mem_singleton.1 hk'
  exact hk

theorem called_notice_on (s : Server) {k : Notice} (hk : k.target = some c) (hc : P c) :
    Called P s (s.notice k) := by
  refine called_notice s fun d hd => ?_
  rw [hk] at hd
  exact Option.some.inj hd ▸ hc

theorem Called.of_screen {k : ScreenCall}
    (h : s'.log = { s.log with screens := k :: s.log.screens }) (hk : P k.target) :
    Called P s s' := by
  refine ⟨⟨[k], by rw [h]; rfl, ?_⟩, ⟨[], by rw [h]; rfl, fun _ hk => by cases hk⟩,
    ⟨[], by rw [h]; rfl, fun _ hk => by cases hk⟩⟩
  intro k' hk'
  obtain rfl := List.mem_singleton.1 hk'
  exact hk

theorem Called.of_notice {k : Notice}
    (h : s'.log = { s.log with notices := k :: s.log.notices }) (hk : k.target = some c)
    (hc : P c) : Called P s s' := by
  have hlog : Called P (s.notice k) s' := .of_log h
  exact (called_notice_on s hk hc).trans hlog

theorem called_callPaste (s : Server) {k : PasteCall} (hk : P k.target) :
    Called P s (s.callPaste k) := by
  refine ⟨⟨[], rfl, fun _ hk => by cases hk⟩, ⟨[k], rfl, ?_⟩, ⟨[], rfl, fun _ hk => by cases hk⟩⟩
  intro k' hk'
  obtain rfl := List.mem_singleton.1 hk'
  exact hk

theorem called_endFilePaste (s : Server) (name : String) (paste : String × FilePaste)
    (hP : ∀ c, s.registry.Registered c → P c) : Called P s (s.endFilePaste name paste) := by
  have hpastes : Called P s { s with filePastes := s.filePastes.erase paste.1 } := .of_log rfl
  simp only [endFilePaste]
  split_ifs
  · split
    · exact hpastes
    · rename_i c hc
      exact hpastes.trans (called_callPaste _ (hP c ⟨_, hc⟩))
  · exact hpastes
  · exact .refl P s

theorem called_removeClient (s : Server) (c : ClientID)
    (hP : ∀ d, s.registry.Registered d → P d) : Called P s (s.removeClient c) := by
  by_cases hc : c ∈ s.registry.clientSet
  · rw [removeClient_of_mem hc]
    set s₁ := s.without c s.registry.oldClients
    have hregistered (d : ClientID) (hd : s₁.registry.Registered d) : P d := by
      obtain ⟨name, hname⟩ := hd
      exact hP d ⟨name, clients_without hname⟩
    have hlog : Called P s s₁ := .of_log rfl
    -- Ending a paste leaves the registers alone.
    refine hlog.trans (Called.foldl (I := fun s => s.registry = s₁.registry) _ ?_ _ rfl).2
    intro s hs paste _
    refine ⟨(registry_endFilePaste s _ paste).trans hs, called_endFilePaste s _ paste ?_⟩
    intro d hd
    rw [hs] at hd
    exact hregistered d hd
  · rw [removeClient_of_notMem hc]
    exact .refl P s

theorem called_forceLeaveClient (s : Server) (env : Env) (c : ClientID) (hP : P primaryClient) :
    Called P s (s.forceLeaveClient env c) := by
  have hreconfigure (s : Server) : Called P s s.reconfigure :=
    called_notice_on s rfl hP
  have hswitched (s : Server) (name : String) :
      Called P s (s.notice (.serverScreenSwitched name)) :=
    called_notice s fun d hd => by cases hd
  have hjump (s : Server) : Called P s (s.jumpToPrimary env c) := by
    simp only [jumpToPrimary]
    refine Called.trans ?_ (hswitched _ _)
    split_ifs
    · exact .of_screen rfl hP
    · exact .of_log rfl
    · exact .of_screen rfl hP
    · exact .of_log rfl
  have hset (s : Server) (f : Focus) : Called P s (s.setFocus f) := .of_log rfl
  simp only [forceLeaveClient]
  refine Called.trans ?_ (hreconfigure _)
  split_ifs
  · exact (hjump s).trans (hset _ _)
  · exact hjump s
  · exact hset s _
  · exact .refl P s

theorem called_closeClient (s : Server) (env : Env) (c : ClientID) (msg : String) (hc : P c)
    (hprimary : P primaryClient) (hP : ∀ d, s.registry.Registered d → P d) :
    Called P s (s.closeClient env c msg) := by
  have hclose : Called P s (s.notice (.close c msg)) := called_notice_on s rfl hc
  have hold (s : Server) (o : Std.TreeSet ClientID) :
      Called P s { s with registry := { s.registry with oldClients := o } } := .of_log rfl
  exact ((hclose.trans (called_removeClient _ c hP)).trans (hold _ _)).trans
    (called_forceLeaveClient _ env c hprimary)

/-! ### Announcements -/

/-- How often the end of a shutdown was announced. -/
def disconnects (s : Server) : ℕ :=
  s.log.notices.countP fun k =>
    match k with
    | .serverDisconnected => true
    | _ => false

theorem disconnects_endFilePastes (s : Server) (name : String) :
    (s.endFilePastes name).log.notices = s.log.notices := by
  refine List.foldlRecOn (motive := fun s₁ : Server => s₁.log.notices = s.log.notices) _ _ rfl ?_
  intro s' hs' paste _
  refine Eq.trans ?_ hs'
  simp only [endFilePaste]
  split_ifs
  · split <;> rfl
  · rfl
  · rfl

theorem disconnects_removeClient (s : Server) (c : ClientID) :
    (s.removeClient c).disconnects = s.disconnects := by
  simp only [disconnects, removeClient]
  split_ifs
  · rfl
  · rw [disconnects_endFilePastes]

theorem disconnects_forceLeaveClient (s : Server) (env : Env) (c : ClientID) :
    (s.forceLeaveClient env c).disconnects = s.disconnects := by
  have hjump (s : Server) : (s.jumpToPrimary env c).disconnects = s.disconnects := by
    simp only [jumpToPrimary]
    split_ifs <;> rfl
  simp only [forceLeaveClient]
  split_ifs
  · exact hjump s
  · exact hjump s
  · rfl
  · rfl

theorem disconnects_closeClient (s : Server) (env : Env) (c : ClientID) (msg : String) :
    (s.closeClient env c msg).disconnects = s.disconnects :=
  (disconnects_forceLeaveClient _ env c).trans
    (disconnects_removeClient (s.notice (.close c msg)) c)

/-! ### Closing clients -/

/-- The proxies that satisfy `r` are no longer connected but closing. -/
structure Closed (r : ClientID → Prop) (s s' : Server) : Prop where
  clientSet : ∀ d, d ∈ s'.registry.clientSet ↔ d ∈ s.registry.clientSet ∧ ¬r d
  oldClients : ∀ d, d ∈ s'.registry.oldClients ↔ d ∈ s.registry.oldClients ∨ r d
  waiting : s'.registry.waiting = s.registry.waiting
  next : s'.registry.next = s.registry.next

theorem Closed.of_registry {r : ClientID → Prop} (h : Closed r s s')
    (hr : s''.registry = s'.registry) : Closed r s s'' := by
  refine ⟨?_, ?_, ?_, ?_⟩
  all_goals rw [hr]
  · exact h.clientSet
  · exact h.oldClients
  · exact h.waiting
  · exact h.next

theorem closed_closeClient (s : Server) (env : Env) (c : ClientID) (msg : String) :
    Closed (· = c) s (s.closeClient env c msg) := by
  have hforced := forcedOut_closeClient s env c msg
  obtain ⟨hwaiting, hnext, -⟩ :=
    waiting_without (s := s) (c := c) (o := s.registry.oldClients.insert c)
  refine ⟨fun d => ?_, fun d => ?_, ?_, ?_⟩
  all_goals rw [hforced.registry]
  · exact mem_without
  · change d ∈ s.registry.oldClients.insert c ↔ _
    rw [Std.TreeSet.mem_insert, Std.LawfulEqCmp.compare_eq_iff_eq, or_comm, eq_comm]
  · exact hwaiting
  · exact hnext

theorem registered_closeClient {msg : String}
    (h : (s.closeClient env c msg).registry.Registered d) : s.registry.Registered d := by
  obtain ⟨name, hname⟩ := h
  rw [(forcedOut_closeClient s env c msg).registry] at hname
  exact ⟨name, clients_without hname⟩

/-- Closing several clients. -/
theorem closed_foldl (l : List ClientID) (s : Server) (env : Env) (msg : String) :
    Closed (· ∈ l) s (l.foldl (fun s c => s.closeClient env c msg) s) := by
  induction l generalizing s with
  | nil => exact ⟨fun d => by simp, fun d => by simp, rfl, rfl⟩
  | cons c l ih =>
    have h₁ := closed_closeClient s env c msg
    have h₂ := ih (s.closeClient env c msg)
    refine ⟨fun d => ?_, fun d => ?_, h₂.waiting.trans h₁.waiting, h₂.next.trans h₁.next⟩
    · rw [List.foldl_cons, h₂.clientSet, h₁.clientSet, List.mem_cons, not_or, and_assoc]
    · rw [List.foldl_cons, h₂.oldClients, h₁.oldClients, List.mem_cons, or_assoc]

theorem closed_closeClients (s : Server) (env : Env) (cfg : Config) :
    Closed (· ∈ s.droppedClients cfg) s (s.closeClients env cfg) :=
  closed_foldl _ s env "CBYE"

theorem called_closeClients (s : Server) (env : Env) (cfg : Config) (hprimary : P primaryClient)
    (hP : ∀ d, s.registry.Registered d → P d) :
    Called P s (s.closeClients env cfg) ∧
      ∀ d, (s.closeClients env cfg).registry.Registered d → P d := by
  have hfold := Called.foldl (P := P) (I := fun s => ∀ d, s.registry.Registered d → P d)
    (f := fun s c => s.closeClient env c "CBYE") (s.droppedClients cfg) ?_ s hP
  · exact ⟨hfold.2, hfold.1⟩
  · intro s' hs' c hc
    exact ⟨fun d hd => hs' d (registered_closeClient hd),
      called_closeClient s' env c _ (hP c (registered_of_mem_droppedClients hc)) hprimary hs'⟩

theorem disconnects_closeClients (s : Server) (env : Env) (cfg : Config) :
    (s.closeClients env cfg).disconnects = s.disconnects := by
  refine List.foldlRecOn (motive := fun s₁ : Server => s₁.disconnects = s.disconnects) _ _ rfl ?_
  intro s₁ hs₁ c _
  exact (disconnects_closeClient s₁ env c _).trans hs₁

theorem registered_of_mem_clientList (h : c ∈ s.clientList) : s.registry.Registered c := by
  obtain ⟨⟨name, c⟩, hmem, rfl⟩ := List.mem_map.1 h
  exact ⟨name, Std.TreeMap.mem_toList_iff_getElem?_eq_some.1 hmem⟩

theorem called_sendOptions (s : Server) (hc : P c) : Called P s (s.sendOptions c) :=
  (called_notice_on s rfl hc).trans (called_notice_on _ rfl hc)

/-- Applying the options moves the cursor at most. -/
theorem log_processOptions (s : Server) : s.processOptions.registry = s.registry ∧
    (s.processOptions.log = s.log ∨ ∃ x y, s.processOptions.log =
      { s.log with notices := .mouseMove s.focus.active x y :: s.log.notices }) := by
  simp only [processOptions, stopRelativeMoves]
  split
  · exact ⟨rfl, .inl rfl⟩
  · split_ifs
    · exact ⟨rfl, .inr ⟨_, _, rfl⟩⟩
    · exact ⟨rfl, .inl rfl⟩
    · exact ⟨rfl, .inl rfl⟩

theorem called_processOptions (s : Server) (hactive : P s.focus.active) :
    Called P s s.processOptions ∧ s.processOptions.registry = s.registry ∧
      s.processOptions.disconnects = s.disconnects := by
  obtain ⟨hregistry, hsame | ⟨x, y, hmove⟩⟩ := log_processOptions s
  · exact ⟨.of_log hsame, hregistry, by simp only [disconnects, hsame]⟩
  · have hcalled := called_notice_on s (k := .mouseMove s.focus.active x y) rfl hactive
    have hlog : Called P (s.notice (.mouseMove s.focus.active x y)) s.processOptions :=
      .of_log hmove
    refine ⟨hcalled.trans hlog, hregistry, ?_⟩
    simp only [disconnects, hmove, List.countP_cons]
    rfl

/-- Applying a configuration: the dropped clients are closed, and calls are made on the active
screen, the primary screen and the registered ones. -/
theorem called_setConfig (h : s.setConfig env = some s') (hprimary : P primaryClient)
    (hactive : P s.focus.active) (hP : ∀ d, s.registry.Registered d → P d) :
    Called P s s' ∧ s'.disconnects = s.disconnects := by
  obtain ⟨s₁, s₂, s₃, hs₁, rfl, hs₃, rfl⟩ := setConfig_stages h
  obtain ⟨hclose, hclosed⟩ := called_closeClients s env s.config hprimary hP
  have hcount₁ := disconnects_closeClients s env s.config
  have hvacated : Vacated s s₁ :=
    hs₁ ▸ Vacated.foldl (fun s c => vacated_closeClient s env c _) _ s
  rw [← hs₁] at hclose hclosed hcount₁
  have hactive₁ : P s₁.focus.active := by
    obtain hsame | hprim := hvacated.active
    · exact hsame ▸ hactive
    · exact hprim ▸ hprimary
  obtain ⟨hcalled₂, hregistry₂, hcount₂⟩ := called_processOptions s₁ hactive₁
  have hrule (s : Server) : s.addScrollLockRule.log = s.log ∧
      s.addScrollLockRule.registry = s.registry := by
    unfold addScrollLockRule
    split_ifs <;> exact ⟨rfl, rfl⟩
  obtain ⟨hlog₃, hregistry₃⟩ := hrule s₁.processOptions
  rw [← hs₃] at hlog₃ hregistry₃
  have hreconfigure : Called P s₃ s₃.reconfigure := called_notice_on _ rfl hprimary
  have hcount₃ : s₃.disconnects = s₁.processOptions.disconnects := by
    simp only [disconnects, hlog₃]
  have hcount₄ : s₃.reconfigure.disconnects = s₃.disconnects := rfl
  have hregistry₄ : s₃.reconfigure.registry = s₁.registry := hregistry₃.trans hregistry₂
  generalize s₃.reconfigure = s₄ at hreconfigure hcount₄ hregistry₄ ⊢
  have hsend := Called.foldl (P := P) (I := fun s : Server => s.disconnects = s₄.disconnects)
    (f := sendOptions) s₄.clientList ?_ s₄ rfl
  · refine ⟨(((hclose.trans hcalled₂).trans (.of_log hlog₃)).trans hreconfigure).trans hsend.2, ?_⟩
    exact hsend.1.trans (hcount₄.trans (hcount₃.trans (hcount₂.trans hcount₁)))
  · intro s' hs' c hc
    refine ⟨hs', called_sendOptions s' (hclosed c ?_)⟩
    obtain ⟨name, hname⟩ := registered_of_mem_clientList hc
    exact ⟨name, hregistry₄ ▸ hname⟩

/-! ### Removing clients -/

theorem called_removeActiveClient (s : Server) (env : Env) (c : ClientID)
    (hprimary : P primaryClient) (hP : ∀ d, s.registry.Registered d → P d) :
    Called P s (s.removeActiveClient env c) := by
  have hforce := (called_removeClient s c hP).trans (called_forceLeaveClient _ env c hprimary)
  simp only [removeActiveClient]
  split_ifs
  · exact .refl P s
  · exact hforce.trans (called_notice _ fun d hd => by cases hd)
  · exact hforce

theorem called_removeOldClient (s : Server) (c : ClientID) : Called P s (s.removeOldClient c) := by
  have hold : Called P s { s with registry :=
      { s.registry with oldClients := s.registry.oldClients.erase c } } := .of_log rfl
  simp only [removeOldClient]
  split_ifs
  · exact .refl P s
  · exact hold.trans (called_notice _ fun d hd => by cases hd)
  · exact hold

theorem called_adoptClient (s : Server) (env : Env) (hc : P c) (hprimary : P primaryClient)
    (hP : ∀ d, s.registry.Registered d → P d) : Called P s (s.adoptClient env c) := by
  have hclose (msg : String) : Called P s ((s.dequeue c).closeClient env c msg) :=
    (Called.of_log rfl : Called P s (s.dequeue c)).trans
      (called_closeClient _ env c msg hc hprimary hP)
  obtain ⟨msg, hadopt⟩ | ⟨s₂, s₃, hadd, hs₃, hadopt⟩ := adoptClient_stages s env c
  · exact hadopt ▸ hclose msg
  · have hadded : Called P s s₂ := by
      simp only [addClient] at hadd
      split_ifs at hadd
      cases hadd
      exact .of_notice rfl rfl hprimary
    have hoptions := hadded.trans (called_sendOptions s₂ hc)
    rw [hadopt]
    refine Called.trans ?_ (called_notice _ fun d hd => by cases hd)
    rcases hs₃ with rfl | rfl
    · exact hoptions
    · exact hoptions.trans (called_notice_on _ rfl hc)

/-- Only the primary screen is left. -/
def Alone (s : Server) : Prop :=
  (∀ c ∈ s.registry.clientSet, c = primaryClient) ∧ ∀ c, c ∉ s.registry.oldClients

theorem onlyPrimary_iff (hn : Named s) (hprimary : primaryClient ∈ s.registry.clientSet) :
    s.onlyPrimary = true ↔ s.Alone := by
  have hentry {e : String × ClientID} (he : e ∈ s.registry.clients.toList) :
      e.2 ∈ s.registry.clientSet ∧ e.1 = s.getName e.2 :=
    hn.names (Std.TreeMap.mem_toList_iff_getElem?_eq_some.1 he)
  have hmem {c : ClientID} (hc : c ∈ s.registry.clientSet) :
      (s.getName c, c) ∈ s.registry.clients.toList :=
    Std.TreeMap.mem_toList_iff_getElem?_eq_some.2 (hn.clients hc)
  have hold : s.registry.oldClients.isEmpty = true ↔ ∀ c, c ∉ s.registry.oldClients :=
    Std.TreeSet.isEmpty_iff_forall_not_mem
  simp only [onlyPrimary, Bool.and_eq_true, beq_iff_eq, hold, Alone]
  refine and_congr_left fun _ => ?_
  rw [← Std.TreeMap.length_toList, List.length_eq_one_iff]
  constructor
  · rintro ⟨e, he⟩ c hc
    have hc' := hmem hc
    have hp' := hmem hprimary
    rw [he, List.mem_singleton] at hc' hp'
    exact congrArg Prod.snd (hc'.trans hp'.symm)
  · intro hall
    -- All entries have the primary screen's name.
    have hkeys : s.registry.clients.toList.Pairwise fun a b => ¬compare a.1 b.1 = .eq :=
      Std.TreeMap.distinct_keys_toList
    have hp' := hmem hprimary
    obtain ⟨e, rest, hlist⟩ := List.exists_cons_of_ne_nil (List.ne_nil_of_mem hp')
    refine ⟨e, ?_⟩
    rw [hlist] at hkeys ⊢
    cases rest with
    | nil => rfl
    | cons e' rest =>
      have hname {e : String × ClientID} (he : e ∈ s.registry.clients.toList) :
          e.1 = s.getName primaryClient := by
        obtain ⟨hin, hname⟩ := hentry he
        rw [hname, hall _ hin]
      have he := hname (e := e) (by rw [hlist]; exact List.mem_cons_self ..)
      have he' := hname (e := e') (by
        rw [hlist]
        exact List.mem_cons_of_mem _ (List.mem_cons_self ..))
      refine absurd ?_ ((List.pairwise_cons.1 hkeys).1 e' (List.mem_cons_self ..))
      rw [he, he']
      exact Std.LawfulEqCmp.compare_eq_iff_eq.2 rfl

end Server

end InputLeap
