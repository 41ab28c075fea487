import InputLeap.Server.Connected

/-!
# Pasting files between screens

While the configuration stays, a paste in progress is between two connected screens, and it ends
with one terminal status to its target or with the disconnection of one of the two.  The source is
known by its name only, so that another client that was turned away for having the same name can
report on the paste, too.

## Main definitions

* `Server.Named` : the connected screens are registered under their names.
* `Server.requests`, `Server.terminals` : how often a screen asked for the paste with an id, and
  how often it was told that the paste ended.
* `Server.PastesOk` : the ends of the pastes in progress are connected, and no screen was told
  more often than it asked.

## Main results

* `PastesOk.step` : every event but a reload keeps `PastesOk`.
* `filePastes_of_reachable` : the pastes throughout runs without a reload, and when a status comes
  from the source of its paste.
* `not_fromSource_secondB` : it need not.
-/

namespace InputLeap

namespace Server

/-! ### Names -/

/-- The connected screens are registered under their names, and nothing else is. -/
structure Named (s : Server) : Prop where
  names : ∀ {name : String} {c : ClientID}, s.registry.clients[name]? = some c →
    c ∈ s.registry.clientSet ∧ name = s.getName c
  clients : ∀ {c}, c ∈ s.registry.clientSet → s.registry.clients[s.getName c]? = some c
  waiting : ∀ {c}, c ∈ s.registry.waiting → c ∉ s.registry.clientSet ∧ c < s.registry.next
  fresh : ∀ {c}, c ∈ s.registry.clientSet → c < s.registry.next

/-- The screens and the pastes in progress are as before, and nobody was told about a paste. -/
structure PastesKept (s s' : Server) : Prop where
  config : s'.config = s.config
  registry : s'.registry = s.registry
  filePastes : s'.filePastes = s.filePastes
  pastes : s'.log.pastes = s.log.pastes

variable {s s' s'' : Server} {env : Env} {c d : ClientID}

theorem Keeps.pastesKept (h : Keeps s s') : PastesKept s s' :=
  ⟨h.config, h.registry, h.filePastes, h.pastes⟩

namespace PastesKept

theorem trans (h : PastesKept s s') (h' : PastesKept s' s'') : PastesKept s s'' :=
  ⟨h'.config.trans h.config, h'.registry.trans h.registry, h'.filePastes.trans h.filePastes,
    h'.pastes.trans h.pastes⟩

theorem getName (h : PastesKept s s') : s'.getName c = s.getName c := by
  simp only [Server.getName, h.config, h.registry]

end PastesKept

namespace Named

theorem of_registry (h : Named s) (hconfig : s'.config = s.config)
    (hregistry : s'.registry = s.registry) : Named s' := by
  have hname (c : ClientID) : s'.getName c = s.getName c := by
    simp only [getName, hconfig, hregistry]
  obtain ⟨hnames, hclients, hwaiting, hfresh⟩ := h
  refine ⟨fun hc => ?_, fun hc => ?_, ?_, ?_⟩
  · rw [hregistry] at hc ⊢
    rw [hname]
    exact hnames hc
  · rw [hregistry] at hc ⊢
    rw [hname]
    exact hclients hc
  · rw [hregistry]
    exact hwaiting
  · rw [hregistry]
    exact hfresh

theorem kept (h : Named s) (hk : PastesKept s s') : Named s' := h.of_registry hk.config hk.registry

/-- The screen that a name leads to. -/
theorem clients_iff (h : Named s) {name : String} : s.registry.clients[name]? = some c ↔
    c ∈ s.registry.clientSet ∧ name = s.getName c := by
  refine ⟨h.names, ?_⟩
  rintro ⟨hmem, rfl⟩
  exact h.clients hmem

theorem withClient (h : Named s) (hfree : s.registry.clients[s.getName c]? = none)
    (hwaiting : c ∉ s.registry.waiting) (hlt : c < s.registry.next) : Named (s.withClient c) := by
  refine ⟨fun {name d} hd => ?_, fun {d} hd => ?_, fun {d} hd => ⟨fun hmem => ?_, ?_⟩, fun hd => ?_⟩
  · obtain ⟨rfl, rfl⟩ | hd := clients_withClient hd
    · exact ⟨mem_withClient.2 (.inl rfl), rfl⟩
    · exact ⟨mem_withClient.2 (.inr (h.names hd).1), (h.names hd).2⟩
  · change (s.registry.clients.insert (s.getName c) c)[s.getName d]? = some d
    rw [Std.TreeMap.getElem?_insert]
    obtain rfl | hd := mem_withClient.1 hd
    · simp
    · have hne : s.getName c ≠ s.getName d := by
        intro heq
        rw [heq, h.clients hd] at hfree
        cases hfree
      rw [if_neg (mt Std.LawfulEqCmp.compare_eq_iff_eq.1 hne)]
      exact h.clients hd
  · obtain rfl | hmem := mem_withClient.1 hmem
    · exact hwaiting hd
    · exact (h.waiting hd).1 hmem
  · exact (h.waiting hd).2
  · obtain rfl | hd := mem_withClient.1 hd
    · exact hlt
    · exact h.fresh hd

theorem without (h : Named s) (c : ClientID) (o : Std.TreeSet ClientID) :
    Named (s.without c o) := by
  refine ⟨fun {name d} hd => ?_, fun {d} hd => ?_, fun {d} hd => ?_, fun {d} hd => ?_⟩
  · obtain ⟨hmem, hname⟩ := h.names (clients_without hd)
    refine ⟨mem_without.2 ⟨hmem, ?_⟩, by rw [getName_without, hname]⟩
    rintro rfl
    subst hname
    simp [Server.without, Registry.without, hmem] at hd
  · obtain ⟨hmem, hdc⟩ := mem_without.1 hd
    rw [getName_without]
    exact clients_without_of_ne (h.clients hmem) h.clients hdc
  · rw [waiting_without.1] at hd
    refine ⟨fun hmem => (h.waiting hd).1 (mem_without.1 hmem).1, ?_⟩
    rw [waiting_without.2.1]
    exact (h.waiting hd).2
  · rw [waiting_without.2.1]
    exact h.fresh (mem_without.1 hd).1

theorem dequeue (h : Named s) (c : ClientID) : Named (s.dequeue c) :=
  ⟨h.names, h.clients, fun hd => h.waiting (Std.TreeSet.mem_of_mem_erase hd), h.fresh⟩

theorem clientConnected (h : Named s) (ident : Ident) (info : ScreenInfo) :
    Named (s.clientConnected ident info) := by
  have hname (d : ClientID) (hd : d ∈ s.registry.clientSet) :
      (s.clientConnected ident info).getName d = s.getName d := by
    have hne : d ≠ s.registry.next := fun heq => lt_irrefl _ (heq ▸ h.fresh hd)
    simp only [getName, Server.clientConnected, Function.update_of_ne hne]
  refine ⟨fun hd => ?_, fun hd => ?_, fun {d} hd => ?_, fun hd => ?_⟩
  · obtain ⟨hmem, rfl⟩ := h.names hd
    exact ⟨hmem, (hname _ hmem).symm⟩
  · rw [hname _ hd]
    exact h.clients hd
  · simp only [Server.clientConnected, Std.TreeSet.mem_insert,
      Std.LawfulEqCmp.compare_eq_iff_eq] at hd
    obtain rfl | hd := hd
    · exact ⟨fun hmem => lt_irrefl _ (h.fresh hmem), Nat.lt_succ_self _⟩
    · exact ⟨(h.waiting hd).1, (h.waiting hd).2.trans (Nat.lt_succ_self _)⟩
  · exact (h.fresh hd).trans (Nat.lt_succ_self _)

end Named

/-! ### Requests and answers -/

/-- How often the screen asked for the paste `request`. -/
def requests (s : Server) (c : ClientID) (request : String) : ℕ :=
  s.log.pastes.countP fun k => k = .requested c request

/-- How often the screen was told that the paste `request` ended. -/
def terminals (s : Server) (c : ClientID) (request : String) : ℕ :=
  s.log.pastes.countP fun k =>
    match k with
    | .status d st => d = c && st.request = request && st.state.terminal
    | _ => false

/-- The paste `request` is in progress for the screen, so that it is still to be told how that
ends. -/
def owed (s : Server) (c : ClientID) (request : String) : ℕ :=
  match s.filePastes[request]? with
  | none => 0
  | some paste => if s.registry.clients[paste.target]? = some c then 1 else 0

/-- Every terminal status, given or owed, answers a request. -/
def AnswersOk (s : Server) : Prop :=
  ∀ c request, s.terminals c request + s.owed c request ≤ s.requests c request

/-- The ends of the pastes in progress are connected, and no screen is told more often than it
asked. -/
structure PastesOk (s : Server) : Prop where
  ends : ∀ {request : String} {paste : FilePaste}, s.filePastes[request]? = some paste →
    (∃ c, s.registry.clients[paste.target]? = some c) ∧
      ∃ c, s.registry.clients[paste.source]? = some c
  answers : AnswersOk s

theorem AnswersOk.of_le (h : AnswersOk s)
    (howed : ∀ c request, s'.owed c request ≤ s.owed c request)
    (hpastes : s'.log.pastes = s.log.pastes) : AnswersOk s' := by
  intro c request
  have h := h c request
  have ho := howed c request
  simp only [terminals, requests, hpastes] at h ⊢
  omega

theorem PastesKept.owed (h : PastesKept s s') (c : ClientID) (request : String) :
    s'.owed c request = s.owed c request := by
  simp only [Server.owed, h.filePastes, h.registry]

theorem PastesOk.kept (h : PastesOk s) (hk : PastesKept s s') : PastesOk s' := by
  refine ⟨fun hp => ?_, h.answers.of_le (fun c request => (hk.owed c request).le) hk.pastes⟩
  rw [hk.filePastes] at hp
  rw [hk.registry]
  exact h.ends hp

/-! ### Ending a paste -/

theorem terminals_status (s : Server) (c d : ClientID) (status : FilePasteStatus)
    (request : String) : (s.callPaste (.status d status)).terminals c request =
      s.terminals c request +
        if d = c ∧ status.request = request ∧ status.state.terminal = true then 1 else 0 := by
  simp [terminals, callPaste, List.countP_cons, and_assoc]

theorem requests_status (s : Server) (c d : ClientID) (status : FilePasteStatus)
    (request : String) :
    (s.callPaste (.status d status)).requests c request = s.requests c request := by
  simp [requests, callPaste]

/-- The state without the paste `request`. -/
def dropPaste (s : Server) (request : String) : Server :=
  { s with filePastes := s.filePastes.erase request }

theorem owed_dropPaste (s : Server) (c : ClientID) (request request' : String) :
    (s.dropPaste request').owed c request =
      if request' = request then 0 else s.owed c request := by
  simp only [owed, dropPaste, Std.TreeMap.getElem?_erase, Std.LawfulEqCmp.compare_eq_iff_eq]
  split_ifs <;> rfl

theorem AnswersOk.dropPaste (h : AnswersOk s) (request : String) :
    AnswersOk (s.dropPaste request) := by
  refine h.of_le (fun c r => ?_) rfl
  rw [owed_dropPaste]
  split_ifs
  · exact Nat.zero_le _
  · exact le_rfl

/-- A paste in progress ends with a terminal status to its target. -/
theorem AnswersOk.settle (h : AnswersOk s) {paste : FilePaste} {status : FilePasteStatus}
    (hp : s.filePastes[status.request]? = some paste)
    (hc : s.registry.clients[paste.target]? = some c) :
    AnswersOk ((s.dropPaste status.request).callPaste (.status c status)) := by
  intro d request
  have hanswers := h d request
  rw [terminals_status, requests_status]
  have howed : ((s.dropPaste status.request).callPaste (.status c status)).owed d request =
      if status.request = request then 0 else s.owed d request := owed_dropPaste s d _ _
  have hsame : (s.dropPaste status.request).terminals d request = s.terminals d request ∧
      (s.dropPaste status.request).requests d request = s.requests d request := ⟨rfl, rfl⟩
  rw [howed, hsame.1, hsame.2]
  by_cases hr : status.request = request
  · subst hr
    by_cases hcd : c = d
    · -- The target gets the answer that it was owed.
      subst hcd
      have howed : s.owed c status.request = 1 := by simp [owed, hp, hc]
      rw [howed] at hanswers
      simp only [true_and, if_true]
      split_ifs <;> omega
    · simp only [hcd, false_and, if_false, if_true]
      omega
  · simp only [hr, false_and, and_false, if_false]
    omega

theorem filePastes_endFilePaste (s : Server) (name : String) (paste : String × FilePaste) :
    (s.endFilePaste name paste).filePastes =
      if paste.2.source = name ∨ paste.2.target = name then s.filePastes.erase paste.1
      else s.filePastes := by
  unfold endFilePaste
  by_cases hsource : paste.2.source = name
  · simp only [hsource, true_or, if_true]
    split <;> rfl
  · by_cases htarget : paste.2.target = name
    · simp only [hsource, htarget, or_true, if_true, if_false]
    · simp only [hsource, htarget, or_self, if_false]

theorem registry_endFilePaste (s : Server) (name : String) (paste : String × FilePaste) :
    (s.endFilePaste name paste).registry = s.registry :=
  (still_endFilePaste s name paste).registry

theorem AnswersOk.endFilePaste (h : AnswersOk s) (name : String) {paste : String × FilePaste}
    (hp : s.filePastes[paste.1]? = some paste.2) : AnswersOk (s.endFilePaste name paste) := by
  simp only [Server.endFilePaste]
  split_ifs
  · split
    · exact h.dropPaste paste.1
    · rename_i c hc
      let status : FilePasteStatus :=
        ⟨paste.1, .failed, "the screen that copied the files disconnected"⟩
      have hp : s.filePastes[status.request]? = some paste.2 := hp
      exact h.settle hp hc
  · exact h.dropPaste paste.1
  · exact h

theorem getElem?_endFilePaste {name : String} {e : String × FilePaste}
    (he : s.filePastes[e.1]? = some e.2) {request : String} {paste : FilePaste} :
    (s.endFilePaste name e).filePastes[request]? = some paste ↔
      s.filePastes[request]? = some paste ∧
        ¬((request, paste) = e ∧ (paste.source = name ∨ paste.target = name)) := by
  obtain ⟨r, p⟩ := e
  rw [filePastes_endFilePaste]
  by_cases hr : r = request
  · subst hr
    -- What is registered under the id is this paste.
    have hsame : s.filePastes[r]? = some paste → p = paste := fun h => by
      rw [he] at h
      exact Option.some.inj h
    split_ifs with hends
    · simp only [Std.TreeMap.getElem?_erase, Std.ReflCmp.compare_self, if_true, reduceCtorEq,
        false_iff]
      rintro ⟨h, hkeep⟩
      obtain rfl := hsame h
      exact hkeep ⟨rfl, hends⟩
    · refine ⟨fun h => ⟨h, ?_⟩, fun h => h.1⟩
      rintro ⟨heq, hp⟩
      obtain ⟨-, rfl⟩ := Prod.mk.inj heq
      exact hends hp
  · have hne : ¬((request, paste) = (r, p) ∧ (paste.source = name ∨ paste.target = name)) :=
      fun h => hr (Prod.mk.inj h.1).1.symm
    simp only [hne, not_false_eq_true, and_true]
    split_ifs
    · rw [Std.TreeMap.getElem?_erase, if_neg (mt Std.LawfulEqCmp.compare_eq_iff_eq.1 hr)]
    · rfl

theorem foldl_endFilePaste (name : String) (l : List (String × FilePaste))
    (hl : ∀ e ∈ l, s.filePastes[e.1]? = some e.2) (hdistinct : l.Pairwise fun e e' => e.1 ≠ e'.1)
    (h : AnswersOk s) :
    AnswersOk (l.foldl (endFilePaste · name ·) s) ∧
      ∀ (request : String) (paste : FilePaste),
        (l.foldl (endFilePaste · name ·) s).filePastes[request]? = some paste ↔
        s.filePastes[request]? = some paste ∧
          ¬((request, paste) ∈ l ∧ (paste.source = name ∨ paste.target = name)) := by
  induction l generalizing s with
  | nil => exact ⟨h, fun request paste => by simp⟩
  | cons e l ih =>
    obtain ⟨hfirst, hrest⟩ := List.pairwise_cons.1 hdistinct
    have he := hl e (List.mem_cons_self ..)
    -- The pastes after this one have other ids and are still there.
    have hl' : ∀ e' ∈ l, (s.endFilePaste name e).filePastes[e'.1]? = some e'.2 := by
      intro e' he'
      refine (getElem?_endFilePaste he).2 ⟨hl e' (List.mem_cons_of_mem _ he'), ?_⟩
      rintro ⟨rfl, -⟩
      exact hfirst _ he' rfl
    obtain ⟨hanswers, hget⟩ := ih hl' hrest (h.endFilePaste name he)
    refine ⟨hanswers, fun request paste => ?_⟩
    rw [List.foldl_cons, hget, getElem?_endFilePaste he, List.mem_cons]
    tauto

/-- The pastes that a screen takes part in end with it. -/
theorem endFilePastes_spec (h : AnswersOk s) (name : String) :
    AnswersOk (s.endFilePastes name) ∧
      ∀ (request : String) (paste : FilePaste),
        (s.endFilePastes name).filePastes[request]? = some paste ↔
        s.filePastes[request]? = some paste ∧ paste.source ≠ name ∧ paste.target ≠ name := by
  have hmem {request : String} {paste : FilePaste} : (request, paste) ∈ s.filePastes.toList ↔
      s.filePastes[request]? = some paste := Std.TreeMap.mem_toList_iff_getElem?_eq_some
  have hdistinct : s.filePastes.toList.Pairwise fun e e' => e.1 ≠ e'.1 :=
    Std.TreeMap.distinct_keys_toList.imp fun h => mt Std.LawfulEqCmp.compare_eq_iff_eq.2 h
  obtain ⟨hanswers, hget⟩ := foldl_endFilePaste name _ (fun e he => hmem.1 he) hdistinct h
  refine ⟨hanswers, fun request paste => ?_⟩
  rw [endFilePastes, hget, hmem]
  tauto

/-! ### Removing clients -/

/-- The registers are right and so are the pastes. -/
structure PasteInv (s : Server) : Prop where
  named : Named s
  pastes : PastesOk s

theorem PasteInv.kept (h : PasteInv s) (hk : PastesKept s s') : PasteInv s' :=
  ⟨h.named.kept hk, h.pastes.kept hk⟩

/-- Some screens are no longer connected, and the pastes that they took part in are over. -/
structure Trimmed (s s' : Server) : Prop where
  getName : ∀ c, s'.getName c = s.getName c
  subset : ∀ c ∈ s'.registry.clientSet, c ∈ s.registry.clientSet
  filePastes : ∀ (request : String) (paste : FilePaste),
    s'.filePastes[request]? = some paste ↔ s.filePastes[request]? = some paste ∧
      ∀ c ∈ s.registry.clientSet, paste.target = s.getName c ∨ paste.source = s.getName c →
        c ∈ s'.registry.clientSet

namespace Trimmed

theorem trans (h : Trimmed s s') (h' : Trimmed s' s'') : Trimmed s s'' := by
  refine ⟨fun c => (h'.getName c).trans (h.getName c), fun c hc => h.subset c (h'.subset c hc),
    fun request paste => ?_⟩
  rw [h'.filePastes, h.filePastes]
  constructor
  · rintro ⟨⟨hp, hin⟩, hin'⟩
    refine ⟨hp, fun c hc hend => hin' c (hin c hc hend) ?_⟩
    rwa [h.getName]
  · rintro ⟨hp, hin⟩
    refine ⟨⟨hp, fun c hc hend => h'.subset c (hin c hc hend)⟩, fun c hc hend => ?_⟩
    rw [h.getName] at hend
    exact hin c (h.subset c hc) hend

theorem of_kept (h : PastesKept s s') : Trimmed s s' := by
  refine ⟨fun c => h.getName, fun c hc => h.registry ▸ hc, fun request paste => ?_⟩
  rw [h.filePastes, h.registry]
  exact ⟨fun hp => ⟨hp, fun _ hc _ => hc⟩, fun hp => hp.1⟩

end Trimmed

theorem removeClient_of_mem (hc : c ∈ s.registry.clientSet) :
    s.removeClient c = (s.without c s.registry.oldClients).endFilePastes (s.getName c) := by
  have hcontains : s.registry.clientSet.contains c = true := hc
  simp only [removeClient, hcontains, Bool.not_true, Bool.false_eq_true, if_false, without,
    Registry.without, if_pos hc]

theorem removeClient_of_notMem (hc : c ∉ s.registry.clientSet) : s.removeClient c = s := by
  have hcontains : s.registry.clientSet.contains c = false := Bool.eq_false_iff.2 hc
  simp only [removeClient, hcontains, Bool.not_false, if_true]

/-- Removing a client ends its pastes and no others. -/
theorem PasteInv.removeClient (h : PasteInv s) (c : ClientID) :
    PasteInv (s.removeClient c) ∧ Trimmed s (s.removeClient c) := by
  by_cases hc : c ∈ s.registry.clientSet
  · rw [removeClient_of_mem hc]
    set s₁ := s.without c s.registry.oldClients
    have hstill := still_endFilePastes s₁ (s.getName c)
    have hanswers : AnswersOk s₁ := by
      refine h.pastes.answers.of_le (fun d request => ?_) rfl
      simp only [owed]
      have hsame : s₁.filePastes = s.filePastes := rfl
      rw [hsame]
      split
      · exact le_rfl
      · split_ifs with hnew hold
        · exact le_rfl
        · exact absurd (clients_without hnew) hold
        · exact Nat.zero_le _
        · exact le_rfl
    obtain ⟨hanswers, hget⟩ := endFilePastes_spec hanswers (s.getName c)
    have hnamed : Named (s₁.endFilePastes (s.getName c)) :=
      (h.named.without c _).of_registry hstill.config hstill.registry
    refine ⟨⟨hnamed, ⟨fun {request paste} hp => ?_, hanswers⟩⟩, ⟨fun d => ?_, fun d hd => ?_,
      fun request paste => ?_⟩⟩
    · -- The ends of a paste that is left have other names.
      obtain ⟨hp, hsource, htarget⟩ := (hget request paste).1 hp
      obtain ⟨⟨t, ht⟩, u, hu⟩ := h.pastes.ends hp
      obtain ⟨htmem, htname⟩ := h.named.names ht
      obtain ⟨humem, huname⟩ := h.named.names hu
      rw [hstill.registry]
      refine ⟨⟨t, ?_⟩, u, ?_⟩
      · rw [htname] at htarget ⊢
        exact clients_without_of_ne (h.named.clients htmem) h.named.clients
          fun heq => htarget (heq ▸ rfl)
      · rw [huname] at hsource ⊢
        exact clients_without_of_ne (h.named.clients humem) h.named.clients
          fun heq => hsource (heq ▸ rfl)
    · rw [hstill.getName]
      exact getName_without
    · rw [hstill.registry] at hd
      exact (mem_without.1 hd).1
    · rw [hget, hstill.registry]
      refine and_congr_right fun hp =>
        ⟨fun hends d hd hend => mem_without.2 ⟨hd, ?_⟩, fun hin => ?_⟩
      · rintro rfl
        obtain hend | hend := hend
        · exact hends.2 hend
        · exact hends.1 hend
      · exact ⟨fun hs => (mem_without.1 (hin c hc (.inr hs))).2 rfl,
          fun ht => (mem_without.1 (hin c hc (.inl ht))).2 rfl⟩
  · rw [removeClient_of_notMem hc]
    exact ⟨h, .of_kept ⟨rfl, rfl, rfl, rfl⟩⟩

theorem keeps_forceLeaveClient (s : Server) (env : Env) (c : ClientID) :
    Keeps s (s.forceLeaveClient env c) := by
  have hjump (s : Server) : Keeps s (s.jumpToPrimary env c) := by
    simp only [jumpToPrimary]
    refine Keeps.trans ?_ (keeps_notice _ _)
    split_ifs <;> exact ⟨rfl, rfl, rfl, rfl, rfl, rfl, rfl⟩
  simp only [forceLeaveClient]
  refine Keeps.trans ?_ (keeps_notice _ _)
  split_ifs
  · exact (hjump s).trans (keeps_setFocus _ _)
  · exact hjump s
  · exact keeps_setFocus s _
  · exact .refl s

namespace PasteInv

theorem oldClients (h : PasteInv s) (o : Std.TreeSet ClientID) :
    PasteInv { s with registry := { s.registry with oldClients := o } } ∧
      Trimmed s { s with registry := { s.registry with oldClients := o } } := by
  refine ⟨⟨⟨h.named.names, h.named.clients, h.named.waiting, h.named.fresh⟩,
    ⟨h.pastes.ends, h.pastes.answers⟩⟩, ⟨fun _ => rfl, fun _ hc => hc, fun request paste => ?_⟩⟩
  exact ⟨fun hp => ⟨hp, fun _ hc _ => hc⟩, fun hp => hp.1⟩

theorem closeClient (h : PasteInv s) (env : Env) (c : ClientID) (msg : String) :
    PasteInv (s.closeClient env c msg) ∧ Trimmed s (s.closeClient env c msg) := by
  have hnotice := (keeps_notice s (.close c msg)).pastesKept
  obtain ⟨h₁, ht₁⟩ := (h.kept hnotice).removeClient c
  obtain ⟨h₂, ht₂⟩ := h₁.oldClients
    (((s.notice (.close c msg)).removeClient c).registry.oldClients.insert c)
  have hforce := (keeps_forceLeaveClient { ((s.notice (.close c msg)).removeClient c) with
    registry := { ((s.notice (.close c msg)).removeClient c).registry with
      oldClients := ((s.notice (.close c msg)).removeClient c).registry.oldClients.insert c } }
    env c).pastesKept
  exact ⟨h₂.kept hforce, (((Trimmed.of_kept hnotice).trans ht₁).trans ht₂).trans (.of_kept hforce)⟩

theorem closeClients (h : PasteInv s) (env : Env) (cfg : Config) :
    PasteInv (s.closeClients env cfg) ∧ Trimmed s (s.closeClients env cfg) := by
  unfold Server.closeClients
  generalize s.droppedClients cfg = l
  induction l generalizing s with
  | nil => exact ⟨h, .of_kept ⟨rfl, rfl, rfl, rfl⟩⟩
  | cons c l ih =>
    obtain ⟨h₁, ht₁⟩ := h.closeClient env c "CBYE"
    obtain ⟨h₂, ht₂⟩ := ih h₁
    exact ⟨h₂, ht₁.trans ht₂⟩

theorem disconnect (h : PasteInv s) (env : Env) :
    PasteInv (s.disconnect env) ∧ Trimmed s (s.disconnect env) := by
  unfold Server.disconnect
  split_ifs
  · exact h.closeClients env _
  · have hnotice := (keeps_notice s .serverDisconnected).pastesKept
    exact ⟨h.kept hnotice, .of_kept hnotice⟩

theorem removeOldClient (h : PasteInv s) (c : ClientID) :
    PasteInv (s.removeOldClient c) ∧ Trimmed s (s.removeOldClient c) := by
  obtain ⟨h₁, ht₁⟩ := h.oldClients (s.registry.oldClients.erase c)
  simp only [Server.removeOldClient]
  split_ifs
  · exact ⟨h, .of_kept ⟨rfl, rfl, rfl, rfl⟩⟩
  · have hnotice := (keeps_notice { s with registry :=
      { s.registry with oldClients := s.registry.oldClients.erase c } }
      .serverDisconnected).pastesKept
    exact ⟨h₁.kept hnotice, ht₁.trans (.of_kept hnotice)⟩
  · exact ⟨h₁, ht₁⟩

theorem handleClientDisconnected (h : PasteInv s) (env : Env) (c : ClientID) :
    PasteInv (s.handleClientDisconnected env c) ∧
      Trimmed s (s.handleClientDisconnected env c) := by
  have hactive : PasteInv (s.removeActiveClient env c) ∧
      Trimmed s (s.removeActiveClient env c) := by
    obtain ⟨h₁, ht₁⟩ := h.removeClient c
    have hforce := (keeps_forceLeaveClient (s.removeClient c) env c).pastesKept
    have hnotice := hforce.trans
      (keeps_notice ((s.removeClient c).forceLeaveClient env c) .serverDisconnected).pastesKept
    simp only [removeActiveClient]
    split_ifs
    · exact ⟨h, .of_kept ⟨rfl, rfl, rfl, rfl⟩⟩
    · exact ⟨h₁.kept hnotice, ht₁.trans (.of_kept hnotice)⟩
    · exact ⟨h₁.kept hforce, ht₁.trans (.of_kept hforce)⟩
  obtain ⟨h₂, ht₂⟩ := hactive.1.removeOldClient c
  exact ⟨h₂, hactive.2.trans ht₂⟩

end PasteInv

/-! ### Adopting clients -/

/-- Screens may be added, and the pastes go on. -/
structure Joined (s s' : Server) : Prop where
  subset : ∀ c ∈ s.registry.clientSet, c ∈ s'.registry.clientSet
  filePastes : ∀ (request : String) (paste : FilePaste),
    s.filePastes[request]? = some paste → s'.filePastes[request]? = some paste

theorem Joined.trans (h : Joined s s') (h' : Joined s' s'') : Joined s s'' :=
  ⟨fun c hc => h'.subset c (h.subset c hc),
    fun request paste hp => h'.filePastes request paste (h.filePastes request paste hp)⟩

theorem PastesKept.joined (h : PastesKept s s') : Joined s s' :=
  ⟨fun _ hc => h.registry ▸ hc, fun _ _ hp => h.filePastes ▸ hp⟩

namespace PasteInv

theorem clientConnected (h : PasteInv s) (ident : Ident) (info : ScreenInfo) :
    PasteInv (s.clientConnected ident info) ∧ Joined s (s.clientConnected ident info) :=
  ⟨⟨h.named.clientConnected ident info, h.pastes.ends, h.pastes.answers⟩, fun _ hc => hc,
    fun _ _ hp => hp⟩

theorem dequeue (h : PasteInv s) (c : ClientID) :
    PasteInv (s.dequeue c) ∧ Joined s (s.dequeue c) :=
  ⟨⟨h.named.dequeue c, h.pastes.ends, h.pastes.answers⟩, fun _ hc => hc, fun _ _ hp => hp⟩

theorem withClient (h : PasteInv s) (hfree : s.registry.clients[s.getName c]? = none)
    (hwaiting : c ∉ s.registry.waiting) (hlt : c < s.registry.next) :
    PasteInv (s.withClient c) ∧ Joined s (s.withClient c) := by
  -- The ends of a paste have other names than the new screen.
  have hget {name : String} (hname : ∃ d, s.registry.clients[name]? = some d) :
      (s.withClient c).registry.clients[name]? = s.registry.clients[name]? := by
    obtain ⟨d, hd⟩ := hname
    have hne : s.getName c ≠ name := by
      rintro rfl
      rw [hd] at hfree
      cases hfree
    simp only [Server.withClient, Std.TreeMap.getElem?_insert,
      Std.LawfulEqCmp.compare_eq_iff_eq, if_neg hne]
  refine ⟨⟨h.named.withClient hfree hwaiting hlt, ⟨fun hp => ?_, ?_⟩⟩,
    fun d hd => mem_withClient.2 (.inr hd), fun _ _ hp => hp⟩
  · obtain ⟨htarget, hsource⟩ := h.pastes.ends hp
    rw [hget htarget, hget hsource]
    exact ⟨htarget, hsource⟩
  · refine h.pastes.answers.of_le (fun d request => ?_) rfl
    have hsame : (s.withClient c).filePastes = s.filePastes := rfl
    simp only [owed, hsame]
    split
    · exact le_rfl
    · rename_i paste hp
      rw [hget (h.pastes.ends hp).1]

theorem adoptClient (h : PasteInv s) (env : Env) (hc : c ∈ s.registry.waiting) :
    PasteInv (s.adoptClient env c) ∧ Joined s (s.adoptClient env c) := by
  obtain ⟨hmem, hlt⟩ := h.named.waiting hc
  obtain ⟨h₁, hj₁⟩ := h.dequeue c
  obtain ⟨msg, hclose⟩ | ⟨s₂, hadd, -, hkeeps, -⟩ := adoptClient_cases s env c
  · -- The client is told to disconnect; it takes part in no paste.
    rw [hclose]
    obtain ⟨h₂, ht₂⟩ := h₁.closeClient env c msg
    have hsubset : ∀ d ∈ s.registry.clientSet,
        d ∈ ((s.dequeue c).closeClient env c msg).registry.clientSet := fun d hd =>
      (forcedOut_closeClient (s.dequeue c) env c msg).mem_clientSet.2
        ⟨hd, fun heq => hmem (heq ▸ hd)⟩
    exact ⟨h₂, hsubset, fun request paste hp =>
      (ht₂.filePastes request paste).2 ⟨hp, fun d hd _ => hsubset d hd⟩⟩
  · obtain ⟨hfree, -, hadded, -⟩ := addClient_spec hadd
    have hwaiting : c ∉ (s.dequeue c).registry.waiting := by simp [Server.dequeue]
    obtain ⟨h₂, hj₂⟩ := h₁.withClient hfree hwaiting hlt
    have hkept := (hadded.trans hkeeps).pastesKept
    exact ⟨h₂.kept hkept, (hj₁.trans hj₂).trans hkept.joined⟩

end PasteInv

/-! ### Requests and statuses -/

theorem terminals_requested (s : Server) (c d : ClientID) (request request' : String) :
    (s.callPaste (.requested d request')).terminals c request = s.terminals c request := by
  simp [terminals, callPaste]

theorem requests_requested (s : Server) (c d : ClientID) (request request' : String) :
    (s.callPaste (.requested d request')).requests c request =
      s.requests c request + if d = c ∧ request' = request then 1 else 0 := by
  simp [requests, callPaste, List.countP_cons]

theorem counts_sendFiles (s : Server) (c d : ClientID) (request : String)
    (request' : FilePasteRequest) :
    (s.callPaste (.sendFiles d request')).terminals c request = s.terminals c request ∧
      (s.callPaste (.sendFiles d request')).requests c request = s.requests c request := by
  simp [terminals, requests, callPaste]

/-- A request is passed on to a connected screen, for a connected screen, under a new id. -/
theorem pasteSource_ok {request : FilePasteRequest} {source : ClientID}
    (h : s.pasteSource c request = .ok source) :
    c ∈ s.registry.clientSet ∧ s.filePastes[request.request]? = none ∧
      s.registry.Registered source := by
  simp only [pasteSource] at h
  split_ifs at h with hconnected hvalid hused hgone
  split at h
  · cases h
  · rename_i owner howner
    split_ifs at h with hself hversion
    cases h
    refine ⟨?_, Std.TreeMap.getElem?_eq_none hused, ⟨_, howner⟩⟩
    simpa using hconnected

/-- The state with the paste `request` in progress. -/
def withPaste (s : Server) (request : String) (paste : FilePaste) : Server :=
  { s with filePastes := s.filePastes.insert request paste }

theorem PasteInv.filePasteRequested (h : PasteInv s) (c : ClientID) (request : FilePasteRequest) :
    PasteInv (s.filePasteRequested c request) ∧
      Joined s (s.filePasteRequested c request) := by
  unfold Server.filePasteRequested
  set s₁ := s.callPaste (.requested c request.request) with hs₁
  have hnamed : Named s₁ := h.named.of_registry rfl rfl
  simp only
  split
  · -- The refusal is the answer.
    rename_i reason _
    refine ⟨⟨hnamed.of_registry rfl rfl, ⟨h.pastes.ends, fun d r => ?_⟩⟩, fun _ hc => hc,
      fun _ _ hp => hp⟩
    have hanswers := h.pastes.answers d r
    rw [sendStatus, terminals_status, requests_status, hs₁, terminals_requested,
      requests_requested]
    change s.terminals d r + _ + s.owed d r ≤ s.requests d r + _
    simp only [FilePasteState.terminal, and_true]
    split_ifs <;> omega
  · -- The request is passed on to the source.
    rename_i source hsource
    obtain ⟨hmem, hfree, name, hname⟩ := pasteSource_ok hsource
    obtain ⟨hsourceMem, -⟩ := hnamed.names hname
    set paste : FilePaste := ⟨s₁.getName c, s₁.getName source⟩ with hpaste
    have hget (r : String) : (s₁.withPaste request.request paste).filePastes[r]? =
        if request.request = r then some paste else s.filePastes[r]? := by
      simp only [withPaste, Std.TreeMap.getElem?_insert, Std.LawfulEqCmp.compare_eq_iff_eq]
      rfl
    have howed (d : ClientID) (r : String) : (s₁.withPaste request.request paste).owed d r =
        if request.request = r then (if c = d then 1 else 0) else s.owed d r := by
      have hclients : s₁.registry.clients[paste.target]? = some c := hnamed.clients hmem
      simp only [owed, hget]
      split_ifs with hr hcd
      · simp only [withPaste, hclients, hcd, if_true]
      · simp only [withPaste, hclients, Option.some.injEq, hcd, if_false]
      · rfl
    refine ⟨⟨hnamed.of_registry rfl rfl, ⟨fun {r p} hp => ?_, fun d r => ?_⟩⟩, fun _ hc => hc,
      fun r p hp => ?_⟩
    · obtain hp : (if request.request = r then some paste else s.filePastes[r]?) = some p :=
        (hget r).symm.trans hp
      split_ifs at hp
      · cases hp
        exact ⟨⟨c, hnamed.clients hmem⟩, source, hnamed.clients hsourceMem⟩
      · exact h.pastes.ends hp
    · have hanswers := h.pastes.answers d r
      have hterminals : (s₁.withPaste request.request paste).terminals d r = s.terminals d r :=
        terminals_requested s d c r request.request
      have hrequests : (s₁.withPaste request.request paste).requests d r =
          s.requests d r + if c = d ∧ request.request = r then 1 else 0 :=
        requests_requested s d c r request.request
      obtain ⟨ht, hr⟩ := counts_sendFiles (s₁.withPaste request.request paste) d source r request
      have ho : ((s₁.withPaste request.request paste).callPaste (.sendFiles source request)).owed
          d r = (s₁.withPaste request.request paste).owed d r := rfl
      change _ + Server.owed ((s₁.withPaste request.request paste).callPaste _) d r ≤ _
      rw [ho, howed]
      refine (congrArg (· + _) (ht.trans hterminals)).trans_le (le_of_le_of_eq ?_
        (hr.trans hrequests).symm)
      -- The request that was made is owed an answer now; before, the id was not in use.
      have hold : request.request = r → s.owed d r = 0 := by
        rintro rfl
        have hfree : s.filePastes[request.request]? = none := hfree
        simp only [owed, hfree]
      by_cases hr : request.request = r
      · have hold := hold hr
        simp only [hr, if_true, and_true]
        omega
      · simp only [hr, if_false, and_false]
        omega
    · refine (hget r).trans ?_
      rw [if_neg]
      · exact hp
      · rintro rfl
        rw [show s.filePastes[request.request]? = none from hfree] at hp
        cases hp

/-- What `filePasteStatus` does: nothing, unless the status comes from the source of the paste;
then it is passed on to the target, and the paste is over if the status is terminal. -/
theorem filePasteStatus_cases (h : PasteInv s) (sender : ClientID) (status : FilePasteStatus) :
    s.filePasteStatus sender status = s ∧
      (∀ paste, s.filePastes[status.request]? = some paste → paste.source ≠ s.getName sender) ∨
    ∃ paste c, s.filePastes[status.request]? = some paste ∧ paste.source = s.getName sender ∧
      s.registry.clients[paste.target]? = some c ∧
      s.filePasteStatus sender status =
        (if status.state.terminal then s.dropPaste status.request else s).callPaste
          (.status c status) := by
  unfold filePasteStatus
  split
  · rename_i hnone
    exact .inl ⟨rfl, fun paste hp => by rw [hnone] at hp; cases hp⟩
  · rename_i paste hp
    by_cases hsource : paste.source = s.getName sender
    · obtain ⟨c, hc⟩ := (h.pastes.ends hp).1
      refine .inr ⟨paste, c, hp, hsource, hc, ?_⟩
      simp only [hsource, ne_eq, not_true_eq_false, if_false]
      split_ifs
      · rw [show ({ s with filePastes := s.filePastes.erase status.request } : Server) =
          s.dropPaste status.request from rfl]
        simp only [dropPaste, hc]
      · simp only [hc]
    · simp only [hsource, ne_eq, not_false_eq_true, if_true]
      refine .inl ⟨trivial, fun paste' hp' => ?_⟩
      rw [hp] at hp'
      cases hp'
      exact hsource

theorem PasteInv.filePasteStatus (h : PasteInv s) (sender : ClientID)
    (status : FilePasteStatus) : PasteInv (s.filePasteStatus sender status) := by
  obtain ⟨hsame, -⟩ | ⟨paste, c, hp, hsource, hc, heq⟩ := filePasteStatus_cases h sender status
  · rw [hsame]
    exact h
  · rw [heq]
    cases hterminal : status.state.terminal with
    | false =>
      refine ⟨h.named.of_registry rfl rfl, ⟨h.pastes.ends, fun d r => ?_⟩⟩
      simp only [Bool.false_eq_true, if_false]
      rw [terminals_status, requests_status, hterminal]
      simp only [Bool.false_eq_true, and_false, if_false, add_zero]
      exact h.pastes.answers d r
    | true =>
      refine ⟨h.named.of_registry rfl rfl, ⟨fun hq => ?_, h.pastes.answers.settle hp hc⟩⟩
      simp only [if_true] at hq
      change (s.filePastes.erase status.request)[_]? = some _ at hq
      rw [Std.TreeMap.getElem?_erase] at hq
      split_ifs at hq
      exact h.pastes.ends hq

/-! ### Runs -/

/-- The event gives the server a new configuration. -/
def Event.reloads : Event → Bool
  | .reloadConfig _ => true
  | _ => false

/-- The hotkey that locks the cursor leaves the pastes alone. -/
theorem pastesKept_handleLockCursorToScreenEvent (s : Server) (mode : InputFilter.Mode) :
    PastesKept s (s.handleLockCursorToScreenEvent mode) := by
  simp only [handleLockCursorToScreenEvent]
  have hlock (b : Bool) : PastesKept s { s with lockedToScreen := b } := ⟨rfl, rfl, rfl, rfl⟩
  split_ifs
  · exact (Keeps.refl s).pastesKept
  · exact (hlock _).trans (keeps_notice _ _).pastesKept
  · exact ((hlock _).trans (keeps_notice _ _).pastesKept).trans
      (keeps_stopRelativeMoves _).pastesKept

/-- Events that connect or remove no screen and are not about pastes leave the pastes alone. -/
theorem pastesKept_of_step {e : Event} (he : e.changesRegistry = false)
    (hrequest : ∀ c r, e ≠ .filePasteRequested c r) (hstatus : ∀ c st, e ≠ .filePasteStatus c st)
    (hst : s.step env e = some s') : PastesKept s s' := by
  cases hlock : e.locksOrPastes with
  | false => exact (keeps_of_step he hlock hst).pastesKept
  | true =>
    cases e with
    | lockCursorToScreen mode =>
      cases hst
      exact pastesKept_handleLockCursorToScreenEvent s mode
    | filePasteRequested c r => exact absurd rfl (hrequest c r)
    | filePasteStatus c st => exact absurd rfl (hstatus c st)
    | _ => cases hlock

/-- An event that is not a status leaves a paste in progress as long as both its screens stay
connected. -/
def Stays (s s' : Server) : Prop :=
  ∀ (request : String) (paste : FilePaste), s.filePastes[request]? = some paste →
    (s'.filePastes[request]? = some paste ∨ s'.filePastes[request]? = none) ∧
    (s'.filePastes[request]? = none ↔ ∃ c ∈ s.registry.clientSet,
      (paste.target = s.getName c ∨ paste.source = s.getName c) ∧ c ∉ s'.registry.clientSet)

theorem Trimmed.stays (h : Trimmed s s') : Stays s s' := by
  intro request paste hp
  have hget := h.filePastes request
  have hsome : s'.filePastes[request]? = some paste ∨ s'.filePastes[request]? = none := by
    cases hp' : s'.filePastes[request]? with
    | none => exact .inr rfl
    | some paste' =>
      have hsame := ((hget paste').1 hp').1
      rw [hp] at hsame
      exact .inl hsame.symm
  refine ⟨hsome, ⟨fun hnone => ?_, ?_⟩⟩
  · by_contra hall
    have hkept := (hget paste).2 ⟨hp, fun c hc hend => by_contra fun hgone =>
      hall ⟨c, hc, hend, hgone⟩⟩
    rw [hnone] at hkept
    cases hkept
  · rintro ⟨c, hc, hend, hgone⟩
    refine hsome.resolve_left fun hkept => hgone ?_
    exact ((hget paste).1 hkept).2 c hc hend

theorem Joined.stays (h : Joined s s') : Stays s s' := by
  intro request paste hp
  have hkept := h.filePastes request paste hp
  refine ⟨.inl hkept, ⟨fun hnone => ?_, ?_⟩⟩
  · rw [hnone] at hkept
    cases hkept
  · rintro ⟨c, hc, -, hgone⟩
    exact absurd (h.subset c hc) hgone

/-- **What one event does to the pastes**, unless it is a reload or a status. -/
theorem PasteInv.step_stays {e : Event} (h : PasteInv s) (he : e.reloads = false)
    (hstatus : ∀ c st, e ≠ .filePasteStatus c st) (hst : s.step env e = some s') :
    PasteInv s' ∧ Stays s s' := by
  have htrim (s' : Server) (h' : PasteInv s' ∧ Trimmed s s') : PasteInv s' ∧ Stays s s' :=
    ⟨h'.1, h'.2.stays⟩
  have hjoin (s' : Server) (h' : PasteInv s' ∧ Joined s s') : PasteInv s' ∧ Stays s s' :=
    ⟨h'.1, h'.2.stays⟩
  by_cases hreg : e.changesRegistry = true
  · cases e with
    | clientConnected ident info =>
      cases hst
      exact hjoin _ (h.clientConnected ident info)
    | adoptClient c =>
      simp only [Server.step] at hst
      split_ifs at hst with hc
      cases hst
      exact hjoin _ (h.adoptClient env hc)
    | clientDisconnected c =>
      simp only [Server.step] at hst
      split_ifs at hst
      · cases hst
        exact hjoin _ (h.dequeue c)
      · cases hst
        exact htrim _ (h.handleClientDisconnected env c)
    | clientCloseTimeout c =>
      simp only [Server.step] at hst
      split_ifs at hst
      cases hst
      exact htrim _ (h.removeOldClient c)
    | disconnect =>
      cases hst
      exact htrim _ (h.disconnect env)
    | reloadConfig => cases he
    | _ => cases hreg
  · by_cases hrequest : ∃ c r, e = .filePasteRequested c r
    · obtain ⟨c, r, rfl⟩ := hrequest
      simp only [Server.step] at hst
      split_ifs at hst
      cases hst
      exact hjoin _ (h.filePasteRequested c r)
    · have hkept := pastesKept_of_step (Bool.eq_false_iff.2 hreg)
        (fun c r heq => hrequest ⟨c, r, heq⟩) hstatus hst
      exact ⟨h.kept hkept, (Trimmed.of_kept hkept).stays⟩

theorem PasteInv.step {e : Event} (h : PasteInv s) (he : e.reloads = false)
    (hst : s.step env e = some s') : PasteInv s' := by
  by_cases hstatus : ∃ c st, e = .filePasteStatus c st
  · obtain ⟨c, st, rfl⟩ := hstatus
    simp only [Server.step] at hst
    split_ifs at hst
    cases hst
    exact h.filePasteStatus c st
  · exact (h.step_stays he (fun c st heq => hstatus ⟨c, st, heq⟩) hst).1

/-- The rule that is added changes no name. -/
theorem PasteInv.addScrollLockRule (h : PasteInv s) : PasteInv s.addScrollLockRule := by
  unfold Server.addScrollLockRule
  split_ifs
  · exact h
  · obtain ⟨⟨hn, hc, hw, hf⟩, he, ha⟩ := h
    exact ⟨⟨hn, hc, hw, hf⟩, he, ha⟩

/-- Applying the configuration closes clients and changes nothing else that matters here. -/
theorem PasteInv.setConfig (h : PasteInv s) (hset : s.setConfig env = some s') : PasteInv s' := by
  obtain ⟨s₁, s₂, s₃, hclose, hprocess, hrule, rfl⟩ := setConfig_stages hset
  refine PasteInv.kept ?_ (Keeps.foldl (fun s c => keeps_sendOptions s c) _ _).pastesKept
  refine PasteInv.kept ?_ (keeps_notice _ _).pastesKept
  have hoptions (s : Server) : PastesKept s s.processOptions := by
    have hset (s : Server) (o : SwitchOptions) : PastesKept s { s with options := o } :=
      ⟨rfl, rfl, rfl, rfl⟩
    simp only [processOptions]
    split
    · exact (Keeps.refl s).pastesKept
    · refine PastesKept.trans ?_ (hset _ _)
      split_ifs
      · exact ((keeps_setPending s _).trans (keeps_stopRelativeMoves _)).pastesKept
      · exact (keeps_setPending s _).pastesKept
  have hclosed : PasteInv s₁ := hclose ▸ (h.closeClients env s.config).1
  have hprocessed : PasteInv s₂ := hprocess ▸ hclosed.kept (hoptions s₁)
  exact hrule ▸ hprocessed.addScrollLockRule

theorem pasteInv_create {cfg : Config} {primary : Ident} {info : ScreenInfo}
    {enableDragDrop : Bool} (h : create env cfg primary info enableDragDrop = some s) :
    PasteInv s := by
  obtain ⟨s₁, s₂, hadd, hset, rfl⟩ := create_spec h
  obtain ⟨hfree, -, hadded, -⟩ := addClient_spec hadd
  have hnames : Named (unregistered cfg primary info enableDragDrop) :=
    ⟨fun hc => by simp [unregistered, blank] at hc, fun hc => absurd hc Std.TreeSet.not_mem_emptyc,
      fun hc => absurd hc Std.TreeSet.not_mem_emptyc,
      fun hc => absurd hc Std.TreeSet.not_mem_emptyc⟩
  have hpastes : PastesOk (unregistered cfg primary info enableDragDrop) :=
    ⟨fun hp => by simp [unregistered, blank] at hp, fun c r => by
      simp [terminals, owed, requests, unregistered, blank]⟩
  have h₁ : PasteInv s₁ := by
    have hjoined := PasteInv.withClient ⟨hnames, hpastes⟩ hfree Std.TreeSet.not_mem_emptyc
      Nat.one_pos
    exact hjoined.1.kept hadded.pastesKept
  have hlocked (s : Server) (b : Bool) : PastesKept s { s with lockedToScreen := b } :=
    ⟨rfl, rfl, rfl, rfl⟩
  exact (h₁.setConfig hset).kept (hlocked _ _)

theorem pasteInv_of_reachable (hs : lts.ReachableVia (fun _ l => l.2.reloads = false) s) :
    PasteInv s := by
  refine hs.invariant (I := PasteInv) ?_ ?_
  · rintro s ⟨env, cfg, primary, info, enableDragDrop, hcreate⟩
    exact pasteInv_create hcreate
  · rintro s l s' h he hst
    exact h.step he hst

/-- A status ends a paste exactly when it is terminal and passed on. -/
theorem removed_filePasteStatus (h : PasteInv s) (sender : ClientID) (status : FilePasteStatus)
    {request : String} {paste : FilePaste} (hp : s.filePastes[request]? = some paste) :
    let s' := s.filePasteStatus sender status
    (s'.filePastes[request]? = some paste ∨ s'.filePastes[request]? = none) ∧
    (s'.filePastes[request]? = none ↔
      ∃ sender' status' c, Event.filePasteStatus sender status = .filePasteStatus sender' status' ∧
        status'.request = request ∧ status'.state.terminal = true ∧
        s.registry.clients[paste.target]? = some c ∧
        s'.log.pastes = .status c status' :: s.log.pastes) := by
  intro s'
  -- While the entry stays, no terminal status for it can have been passed on.
  have hkept (hsome : s'.filePastes[request]? = some paste)
      (hno : ∀ c, status.request = request → status.state.terminal = true →
        s'.log.pastes ≠ .status c status :: s.log.pastes) :
      (s'.filePastes[request]? = some paste ∨ s'.filePastes[request]? = none) ∧
      (s'.filePastes[request]? = none ↔
        ∃ sender' status' c,
          Event.filePasteStatus sender status = .filePasteStatus sender' status' ∧
          status'.request = request ∧ status'.state.terminal = true ∧
          s.registry.clients[paste.target]? = some c ∧
          s'.log.pastes = .status c status' :: s.log.pastes) := by
    refine ⟨.inl hsome, ⟨fun hnone => ?_, ?_⟩⟩
    · rw [hsome] at hnone
      cases hnone
    · rintro ⟨sender', status', c, heq, hr, ht, -, hlog⟩
      cases heq
      exact absurd hlog (hno c hr ht)
  obtain ⟨hsame, -⟩ | ⟨paste', c, hp', -, hc, heq⟩ := filePasteStatus_cases h sender status
  · refine hkept ?_ fun c _ _ hlog => ?_
    · simp only [s', hsame]
      exact hp
    · -- Nothing was passed on.
      simp only [s', hsame] at hlog
      exact List.cons_ne_self _ _ hlog.symm
  · cases hterminal : status.state.terminal with
    | false =>
      refine hkept ?_ fun c _ ht => by rw [hterminal] at ht; cases ht
      simp only [s', heq, hterminal, Bool.false_eq_true, if_false]
      exact hp
    | true =>
      have hlog : s'.log.pastes = .status c status :: s.log.pastes := by
        simp only [s', heq, hterminal, if_true]
        rfl
      have hget : s'.filePastes[request]? =
          if status.request = request then none else s.filePastes[request]? := by
        simp only [s', heq, hterminal, if_true]
        change (s.filePastes.erase status.request)[request]? = _
        rw [Std.TreeMap.getElem?_erase]
        simp only [Std.LawfulEqCmp.compare_eq_iff_eq]
      by_cases hr : status.request = request
      · subst hr
        obtain rfl : paste' = paste := Option.some.inj (hp'.symm.trans hp)
        rw [if_pos rfl] at hget
        exact ⟨.inr hget, fun _ => ⟨sender, status, c, rfl, rfl, hterminal, hc, hlog⟩,
          fun _ => hget⟩
      · rw [if_neg hr] at hget
        exact hkept (hget.trans hp) fun c hr' => absurd hr' hr

/-- If the event is a status that is passed on, it comes from the screen that is connected as the
source of its paste. -/
def FromSource (s s' : Server) : Event → Prop
  | .filePasteStatus sender status =>
    s'.log.pastes = s.log.pastes ∨ ∃ paste, s.filePastes[status.request]? = some paste ∧
      s.registry.clients[paste.source]? = some sender
  | _ => True

/-- If the event is a status for a paste in progress from a client with the name of its source, the
client is connected, and not turned away for its name and still there. -/
def FromConnected (s : Server) : Event → Prop
  | .filePasteStatus sender status => ∀ paste ∈ s.filePastes[status.request]?,
      paste.source = s.getName sender → sender ∈ s.registry.clientSet
  | _ => True

/-- A status is passed on to the target of its paste, and to nobody else. -/
theorem relayed_filePasteStatus (h : PasteInv s) (sender : ClientID) (status : FilePasteStatus) :
    (s.filePasteStatus sender status).log.pastes = s.log.pastes ∨
      ∃ paste c, s.filePastes[status.request]? = some paste ∧ paste.source = s.getName sender ∧
        s.registry.clients[paste.target]? = some c ∧
        (s.filePasteStatus sender status).log.pastes = .status c status :: s.log.pastes := by
  obtain ⟨hsame, -⟩ | ⟨paste, c, hp, hsource, hc, heq⟩ := filePasteStatus_cases h sender status
  · exact .inl (by rw [hsame])
  · refine .inr ⟨paste, c, hp, hsource, hc, ?_⟩
    rw [heq]
    split_ifs <;> rfl

/-- **A status comes from the source** of its paste exactly if it does not come from another client
with the same name. -/
theorem fromSource_filePasteStatus (h : PasteInv s) (sender : ClientID)
    (status : FilePasteStatus) :
    FromSource s (s.filePasteStatus sender status) (.filePasteStatus sender status) ↔
      FromConnected s (.filePasteStatus sender status) := by
  constructor
  · rintro hfrom paste hp hsource
    obtain ⟨-, hother⟩ | ⟨paste', c, -, -, -, heq⟩ := filePasteStatus_cases h sender status
    · exact absurd hsource (hother paste hp)
    · obtain hsame | ⟨paste', hp', hsender⟩ := hfrom
      · -- the status is passed on, so that the log is not what it was
        rw [heq] at hsame
        split_ifs at hsame <;> exact absurd hsame.symm (List.cons_ne_self _ _).symm
      · exact (h.named.names hsender).1
  · intro hconnected
    obtain hsame | ⟨paste, c, hp, hsource, -, -⟩ := relayed_filePasteStatus h sender status
    · exact .inl hsame
    · refine .inr ⟨paste, hp, ?_⟩
      rw [hsource]
      exact h.named.clients (hconnected paste hp hsource)

/-- **Pasting files**, in every run without a reload.  The ends of every paste in progress are
connected; no screen is told more often that a paste ended than it asked for it; a status is
passed on only to the target of its paste, and a paste is over exactly when a terminal status is
passed on or one of its ends is removed.  A status is passed on only from the source of the paste
exactly if no other client with the name of the source sends it. -/
theorem filePastes_of_reachable (hs : lts.ReachableVia (fun _ l => l.2.reloads = false) s) :
    (∀ (request : String) (paste : FilePaste), s.filePastes[request]? = some paste →
      (∃ c ∈ s.registry.clientSet, s.registry.clients[paste.target]? = some c) ∧
        ∃ c ∈ s.registry.clientSet, s.registry.clients[paste.source]? = some c) ∧
    (∀ c request, s.terminals c request ≤ s.requests c request) ∧
    ∀ env e s', e.reloads = false → s.step env e = some s' →
      (FromSource s s' e ↔ FromConnected s e) ∧
      (∀ sender status, e = .filePasteStatus sender status →
        s'.log.pastes = s.log.pastes ∨
        ∃ paste c, s.filePastes[status.request]? = some paste ∧
          paste.source = s.getName sender ∧ s.registry.clients[paste.target]? = some c ∧
          s'.log.pastes = .status c status :: s.log.pastes) ∧
      ∀ (request : String) (paste : FilePaste), s.filePastes[request]? = some paste →
        (s'.filePastes[request]? = some paste ∨ s'.filePastes[request]? = none) ∧
        (s'.filePastes[request]? = none ↔
          (∃ sender status c, e = .filePasteStatus sender status ∧ status.request = request ∧
            status.state.terminal = true ∧ s.registry.clients[paste.target]? = some c ∧
            s'.log.pastes = .status c status :: s.log.pastes) ∨
          ∃ c ∈ s.registry.clientSet, (paste.target = s.getName c ∨ paste.source = s.getName c) ∧
            c ∉ s'.registry.clientSet) := by
  have h := pasteInv_of_reachable hs
  refine ⟨fun request paste hp => ?_, fun c request => ?_, fun env e s' he hst => ⟨?_, ?_, ?_⟩⟩
  · obtain ⟨⟨t, ht⟩, u, hu⟩ := h.pastes.ends hp
    exact ⟨⟨t, (h.named.names ht).1, ht⟩, u, (h.named.names hu).1, hu⟩
  · exact (Nat.le_add_right _ _).trans (h.pastes.answers c request)
  · by_cases hstatus : ∃ c st, e = .filePasteStatus c st
    · obtain ⟨sender, status, rfl⟩ := hstatus
      simp only [Server.step] at hst
      split_ifs at hst
      cases hst
      exact fromSource_filePasteStatus h sender status
    · cases e with
      | filePasteStatus sender status => exact absurd ⟨sender, status, rfl⟩ hstatus
      | _ => exact Iff.rfl
  · rintro sender status rfl
    simp only [Server.step] at hst
    split_ifs at hst
    cases hst
    exact relayed_filePasteStatus h sender status
  · intro request paste hp
    by_cases hstatus : ∃ c st, e = .filePasteStatus c st
    · obtain ⟨sender, status, rfl⟩ := hstatus
      simp only [Server.step] at hst
      split_ifs at hst
      cases hst
      have hregistry := (still_filePasteStatus s sender status).registry
      -- A status removes no screen.
      have hgone : ¬∃ c ∈ s.registry.clientSet,
          (paste.target = s.getName c ∨ paste.source = s.getName c) ∧
            c ∉ (s.filePasteStatus sender status).registry.clientSet := by
        rintro ⟨c, hc, -, hgone⟩
        exact hgone (hregistry ▸ hc)
      simp only [hgone, or_false]
      exact removed_filePasteStatus h sender status hp
    · -- Any other event ends a paste only by removing a screen.
      obtain ⟨-, hstays⟩ := h.step_stays he (fun c st heq => hstatus ⟨c, st, heq⟩) hst
      obtain ⟨hsome, hnone⟩ := hstays request paste hp
      refine ⟨hsome, hnone.trans ⟨.inr, ?_⟩⟩
      rintro (⟨sender, status, -, heq, -⟩ | hend)
      · exact absurd ⟨sender, status, heq⟩ hstatus
      · exact hend

/-- Both screens are in the configuration. -/
def pasteConfig : Config := (({} : Config).addScreen "p" |>.bind (·.addScreen "b")).getD {}

/-- The data of a clip with the id `1` and a file `f`. -/
def clipData : Bytes :=
  FileClip.magic ++ [0, 0, 0, 1, 49] ++ [0, 0, 0, 1] ++ [0, 0, 0, 1, 102] ++
    List.replicate 16 0

/-- A file is copied on the client `b` and pasted on the primary screen. -/
def pasteFromB : List (Env × Event) :=
  [({}, .clientConnected ⟨"b", true⟩ ⟨0, 0, 100, 100, 50, 50⟩), ({}, .adoptClient 1),
    ({}, .clipboardGrabbed 1 .clipboard 0),
    ({}, .clipboardReceived 1 .clipboard 0 ((Clipboard.clear 0).add .files clipData).marshall),
    ({}, .clipboardChanged 1 .clipboard 0),
    ({}, .filePasteRequested primaryClient ⟨"0123abcd", [49], "10.0.0.1:24800"⟩)]

/-- The run has no reload, and at its end the paste is in progress; the source reports that it sent
the files. -/
theorem filePastes_of_reachable_pasteFromB :
    ∃ s : Server, s.filePastes["0123abcd"]? = some ⟨"p", "b"⟩ ∧
      (∀ (request : String) (paste : FilePaste), s.filePastes[request]? = some paste →
        (∃ c ∈ s.registry.clientSet, s.registry.clients[paste.target]? = some c) ∧
          ∃ c ∈ s.registry.clientSet, s.registry.clients[paste.source]? = some c) ∧
      (∀ c request, s.terminals c request ≤ s.requests c request) ∧
      ∀ s', s.step {} (.filePasteStatus 1 ⟨"0123abcd", .sent, ""⟩) = some s' →
        FromSource s s' (.filePasteStatus 1 ⟨"0123abcd", .sent, ""⟩) ∧
        (s'.filePastes["0123abcd"]? = some ⟨"p", "b"⟩ ∨ s'.filePastes["0123abcd"]? = none) := by
  have hrun : (run {} pasteConfig ⟨"p", true⟩ ⟨0, 0, 100, 100, 50, 50⟩ false pasteFromB).map
      (fun s => (s.filePastes["0123abcd"]?, decide (1 ∈ s.registry.clientSet))) =
        some (some ⟨"p", "b"⟩, true) := by decide +kernel
  obtain ⟨s, hs, heq⟩ := Option.map_eq_some_iff.1 hrun
  obtain ⟨hpaste, hmem⟩ := Prod.mk.inj heq
  obtain ⟨hends, hcounts, hsteps⟩ :=
    filePastes_of_reachable (reachableVia_of_run hs (by decide +kernel))
  refine ⟨s, hpaste, hends, hcounts, fun s' hst => ?_⟩
  obtain ⟨hfrom, -, hstays⟩ := hsteps {} _ s' rfl hst
  exact ⟨hfrom.2 fun _ _ _ => of_decide_eq_true hmem, (hstays "0123abcd" _ hpaste).1⟩

/-- A second client that calls itself `b` is turned away, and is not gone yet. -/
def secondB : List (Env × Event) :=
  [({}, .clientConnected ⟨"b", true⟩ ⟨0, 0, 100, 100, 50, 50⟩), ({}, .adoptClient 2)]

/-- **Its report that it sent the files is passed on**, and ends the paste. -/
theorem not_fromSource_secondB :
    ¬ ∀ s : Server, lts.ReachableVia (fun _ l => l.2.reloads = false) s →
      ∀ env e s', e.reloads = false → s.step env e = some s' → FromSource s s' e := by
  intro h
  have hrun : (run {} pasteConfig ⟨"p", true⟩ ⟨0, 0, 100, 100, 50, 50⟩ false
      (pasteFromB ++ secondB)).bind
      (fun s => (s.step {} (.filePasteStatus 2 ⟨"0123abcd", .sent, ""⟩)).map fun s' =>
        (s.filePastes["0123abcd"]?, s.registry.clients["b"]?,
          decide (s'.log.pastes.length = s.log.pastes.length), s'.filePastes["0123abcd"]?)) =
        some (some ⟨"p", "b"⟩, some 1, false, none) := by decide +kernel
  obtain ⟨s, hs, heq⟩ := Option.bind_eq_some_iff.1 hrun
  obtain ⟨s', hst, heq⟩ := Option.map_eq_some_iff.1 heq
  obtain ⟨hpaste, hclient, hlog, -⟩ : s.filePastes["0123abcd"]? = some ⟨"p", "b"⟩ ∧
      s.registry.clients["b"]? = some 1 ∧
      decide (s'.log.pastes.length = s.log.pastes.length) = false ∧
      s'.filePastes["0123abcd"]? = none := by
    simpa only [Prod.mk.injEq] using heq
  have hreach := reachableVia_of_run hs (G := fun _ l => l.2.reloads = false) (by decide +kernel)
  obtain hsame | ⟨paste, hp, hsender⟩ := h s hreach {} _ s' rfl hst
  · rw [hsame] at hlog
    exact absurd rfl (of_decide_eq_false hlog)
  · obtain rfl := Option.some.inj (hpaste.symm.trans hp)
    exact absurd (Option.some.inj (hclient.symm.trans hsender)) (by decide)

end Server

end InputLeap
