import InputLeap.Server.Calls
import InputLeap.Server.Delivery
import InputLeap.Server.NameRegistry

/-!
# The lifetime of proxies

A proxy is created when its client completed the handshake, adopted, possibly told to disconnect,
and deleted when the client disconnected or did not do so in time.  Runs here are those of the
events that connect and remove screens.

## Main definitions

* `Lifetime` : a server with the proxies that were adopted and those that were deleted.
* `Server.Refers` : some member still refers to the proxy.
* `Lifetime.Sound` : proxies are deleted once and not used afterwards, and the end of a shutdown
  is announced.

## Main results

* `Lifetime.sound_of_reachable` : soundness throughout runs whose reloads keep names.
* `Lifetime.not_sound_of_reachable` : not in all runs.
-/

namespace InputLeap

namespace Server

/-- The proxy that the event takes in. -/
def Event.adopts : Event → Option ClientID
  | .adoptClient c => some c
  | _ => none

/-- The proxy that is deleted once the event was handled. -/
def Event.deletes : Event → Option ClientID
  | .clientDisconnected c | .clientCloseTimeout c => some c
  | _ => none

/-- Some member refers to the proxy. -/
def Refers (s : Server) (c : ClientID) : Prop :=
  s.registry.Registered c ∨ s.Alive c ∨ s.focus.active = c ∨ s.focus.activeSaver = some c ∨
    s.pending.switchScreen = some c

/-- What the destructor does before it deletes proxies. -/
def shutDown (s : Server) (env : Env) : Server := s.stopSwitch.disconnect env

/-- The proxies that the destructor deletes. -/
def destroyed (s : Server) (env : Env) : List ClientID :=
  (s.shutDown env).registry.oldClients.toList

/-- The cursor is on the primary screen and stays there. -/
structure Idle (s : Server) : Prop where
  active : s.focus.active = primaryClient
  saver : s.focus.activeSaver = none
  pending : s.pending.switchScreen = none

variable {s s' : Server} {env : Env} {c d : ClientID}

theorem Idle.vacated (h : Idle s) (hv : Vacated s s') : Idle s' := by
  refine ⟨?_, ?_, ?_⟩
  · obtain hsame | hprimary := hv.active
    · exact hsame.trans h.active
    · exact hprimary
  · refine Option.eq_none_iff_forall_ne_some.2 fun c hc => ?_
    have hsaver := hv.saver c hc
    rw [h.saver] at hsaver
    cases hsaver
  · refine Option.eq_none_iff_forall_ne_some.2 fun c hc => ?_
    have hpending := hv.pending c hc
    rw [h.pending] at hpending
    cases hpending

/-- Applying a configuration does not aim at another screen. -/
theorem switchScreen_setConfig (h : s.setConfig env = some s') :
    s'.pending.switchScreen = (s.closeClients env s.config).pending.switchScreen := by
  obtain ⟨s₁, s₂, s₃, hclose, hprocess, hrule, rfl⟩ := setConfig_stages h
  have hoptions : s₂.pending.switchScreen = s₁.pending.switchScreen := by
    rw [hprocess]
    simp only [processOptions]
    split
    · rfl
    · split_ifs
      · exact (congrArg Pending.switchScreen (still_stopRelativeMoves _).pending).trans
          (switchScreen_process _ _)
      · exact switchScreen_process _ _
  have hruled : s₃.pending = s₂.pending := by
    rw [hrule, addScrollLockRule]
    split_ifs <;> rfl
  have hsent := (Still.foldl (fun s c => still_sendOptions s c) s₃.reconfigure.clientList
    s₃.reconfigure).pending
  have hreconfigured : s₃.reconfigure.pending = s₃.pending := (still_notice s₃ _).pending
  rw [hsent, hreconfigured, hruled, hoptions, hclose]

theorem Idle.setConfig (h : Idle s) (hset : s.setConfig env = some s') : Idle s' := by
  have hclosed := h.vacated (Vacated.foldl (fun s c => vacated_closeClient s env c "CBYE")
    (s.droppedClients s.config) s)
  have hfocus := (setConfig_spec hset).2.focus
  refine ⟨?_, ?_, ?_⟩
  · rw [hfocus]
    exact hclosed.active
  · rw [hfocus]
    exact hclosed.saver
  · rw [switchScreen_setConfig hset]
    exact hclosed.pending

theorem Idle.reloadConfig (h : Idle s) (env : Env) (cfg : Config) :
    Idle (s.reloadConfig env cfg) := by
  have hcfg : Idle { s with config := cfg } := ⟨h.active, h.saver, h.pending⟩
  simp only [Server.reloadConfig]
  cases hset : Server.setConfig { s with config := cfg } env with
  | none => exact hcfg
  | some s' => exact hcfg.setConfig hset

theorem Idle.adoptClient (h : Idle s) (env : Env) (c : ClientID) : Idle (s.adoptClient env c) := by
  obtain ⟨msg, hclose⟩ | ⟨s₂, hadd, hstill, -, -⟩ := adoptClient_cases s env c
  · rw [hclose]
    exact h.vacated ((vacated_dequeue s c).trans (vacated_closeClient _ env c msg))
  · obtain ⟨-, hadded, -⟩ := addClient_spec hadd
    have hall := hadded.trans hstill
    refine ⟨?_, ?_, ?_⟩
    · rw [hall.focus]
      exact h.active
    · rw [hall.focus]
      exact h.saver
    · rw [hall.pending]
      exact h.pending

/-! ### Proxies that are deleted -/

theorem registry_removeOldClient (s : Server) (c : ClientID) :
    (∀ d, d ∈ (s.removeOldClient c).registry.oldClients ↔ d ∈ s.registry.oldClients ∧ d ≠ c) ∧
      (s.removeOldClient c).registry.clientSet = s.registry.clientSet ∧
      (s.removeOldClient c).registry.waiting = s.registry.waiting ∧
      (s.removeOldClient c).registry.next = s.registry.next := by
  have herased (d : ClientID) : d ∈ s.registry.oldClients.erase c ↔
      d ∈ s.registry.oldClients ∧ d ≠ c := by
    rw [Std.TreeSet.mem_erase, ne_eq, Std.LawfulEqCmp.compare_eq_iff_eq, and_comm, eq_comm]
  simp only [removeOldClient]
  split_ifs with hc
  · refine ⟨fun d => ⟨fun hd => ⟨hd, ?_⟩, And.left⟩, rfl, rfl, rfl⟩
    rintro rfl
    have hcontains : s.registry.oldClients.contains d = true := hd
    simp [hcontains] at hc
  · exact ⟨herased, rfl, rfl, rfl⟩
  · exact ⟨herased, rfl, rfl, rfl⟩

theorem registry_removeActiveClient (s : Server) (env : Env) (c : ClientID) :
    (∀ d, d ∈ (s.removeActiveClient env c).registry.clientSet ↔
        d ∈ s.registry.clientSet ∧ d ≠ c) ∧
      (s.removeActiveClient env c).registry.oldClients = s.registry.oldClients ∧
      (s.removeActiveClient env c).registry.waiting = s.registry.waiting ∧
      (s.removeActiveClient env c).registry.next = s.registry.next := by
  by_cases hc : c ∈ s.registry.clientSet
  · obtain ⟨hwaiting, hnext, -⟩ := waiting_without (s := s) (c := c) (o := s.registry.oldClients)
    rw [(forcedOut_removeActiveClient s env hc).registry]
    exact ⟨fun d => mem_without, rfl, hwaiting, hnext⟩
  · have hcontains : s.registry.clientSet.contains c = false := Bool.eq_false_iff.2 hc
    simp only [removeActiveClient, hcontains, Bool.not_false, if_true]
    exact ⟨fun d => ⟨fun hd => ⟨hd, fun heq => hc (heq ▸ hd)⟩, And.left⟩, trivial, trivial,
      trivial⟩

/-! ### Proxies that are closed -/

theorem closed_refl (s : Server) : Closed (fun _ => False) s s :=
  ⟨fun _ => by simp, fun _ => by simp, rfl, rfl⟩

theorem closed_reloadConfig (s : Server) (env : Env) (cfg : Config) :
    ∃ r, Closed r s (s.reloadConfig env cfg) ∧
      ∀ c, r c → c ≠ primaryClient ∧ s.registry.Registered c := by
  simp only [Server.reloadConfig]
  cases hset : Server.setConfig { s with config := cfg } env with
  | none => exact ⟨_, (closed_refl s).of_registry rfl, fun _ hc => hc.elim⟩
  | some s' =>
    have hclosed := closed_closeClients { s with config := cfg } env cfg
    have hs : Closed (· ∈ droppedClients { s with config := cfg } cfg) s
        (closeClients { s with config := cfg } env cfg) :=
      ⟨hclosed.clientSet, hclosed.oldClients, hclosed.waiting, hclosed.next⟩
    exact ⟨_, hs.of_registry (setConfig_spec hset).2.registry, fun c hc =>
      ⟨ne_primary_of_mem_droppedClients hc, registered_of_mem_droppedClients hc⟩⟩

theorem closed_disconnect (s : Server) (env : Env) :
    ∃ r, Closed r s (s.disconnect env) ∧
      ∀ c, r c → c ≠ primaryClient ∧ s.registry.Registered c := by
  unfold Server.disconnect
  split_ifs
  · exact ⟨_, closed_closeClients s env {}, fun c hc =>
      ⟨ne_primary_of_mem_droppedClients hc, registered_of_mem_droppedClients hc⟩⟩
  · exact ⟨_, (closed_refl s).of_registry rfl, fun _ hc => hc.elim⟩

theorem isCanonicalName_empty (name : String) : ({} : Config).isCanonicalName name = false := by
  have hnone : ({} : Config).getCanonicalName name = "" := by
    simp [Config.getCanonicalName]
  simp only [Config.isCanonicalName, hnone, Bool.and_eq_false_iff, bne_eq_false_iff_eq]
  by_cases hname : name = ""
  · exact .inl hname
  · refine .inr (Bool.eq_false_iff.2 fun heq => hname ?_)
    have hkey : CaselessCmp.key "" = CaselessCmp.key name := beq_iff_eq.1 heq
    have htoList : name.toList = [] := List.map_eq_nil_iff.1 hkey.symm
    exact String.toList_eq_nil_iff.1 htoList

/-- A configuration without screens drops every client. -/
theorem mem_droppedClients_empty (hn : Named s) :
    c ∈ s.droppedClients {} ↔ c ∈ s.registry.clientSet ∧ c ≠ primaryClient := by
  constructor
  · intro hc
    obtain ⟨name, hname⟩ := registered_of_mem_droppedClients hc
    exact ⟨(hn.names hname).1, ne_primary_of_mem_droppedClients hc⟩
  · rintro ⟨hc, hne⟩
    have hmem : (s.getName c, c) ∈ s.registry.clients.toList :=
      Std.TreeMap.mem_toList_iff_getElem?_eq_some.2 (hn.clients hc)
    simp only [droppedClients, Std.TreeSet.mem_toList, Std.TreeSet.mem_erase,
      Std.TreeSet.mem_ofList, List.contains_iff_mem, List.mem_map, List.mem_filter, ne_eq,
      Std.LawfulEqCmp.compare_eq_iff_eq, isCanonicalName_empty]
    exact ⟨fun heq => hne heq.symm, _, ⟨hmem, rfl⟩, rfl⟩

/-! ### The end of a shutdown -/

/-- The end of a shutdown is announced if only the primary screen is left. -/
def Announced (s s' : Server) : Prop :=
  (s'.Alone ∧ s'.disconnects = s.disconnects + 1) ∨ (¬s'.Alone ∧ s'.disconnects = s.disconnects)

theorem disconnects_serverDisconnected (s : Server) :
    (s.notice .serverDisconnected).disconnects = s.disconnects + 1 := by
  simp only [disconnects, notice, List.countP_cons]
  rfl

theorem announced_removeOldClient (hn : Named s)
    (hprimary : primaryClient ∈ s.registry.clientSet) (hc : c ∈ s.registry.oldClients) :
    Announced s (s.removeOldClient c) := by
  have hcontains : s.registry.oldClients.contains c = true := hc
  simp only [removeOldClient, hcontains, Bool.not_true, Bool.false_eq_true, if_false]
  set s₁ : Server := { s with registry :=
    { s.registry with oldClients := s.registry.oldClients.erase c } }
  have hn₁ : Named s₁ := ⟨hn.names, hn.clients, hn.waiting, hn.fresh⟩
  have hiff := onlyPrimary_iff hn₁ hprimary
  split_ifs with honly
  · exact .inl ⟨hiff.1 honly, disconnects_serverDisconnected s₁⟩
  · exact .inr ⟨fun halone => honly (hiff.2 halone), rfl⟩

theorem announced_disconnect (hn : Named s)
    (hprimary : primaryClient ∈ s.registry.clientSet) : Announced s (s.disconnect env) := by
  have hiff := onlyPrimary_iff hn hprimary
  have hsize : s.registry.clients.size ≠ 0 := by
    intro hzero
    have hmem := Std.TreeMap.mem_toList_iff_getElem?_eq_some.2 (hn.clients hprimary)
    rw [← Std.TreeMap.length_toList, List.length_eq_zero_iff] at hzero
    rw [hzero] at hmem
    cases hmem
  have honly : s.onlyPrimary = true ↔
      ¬(1 < s.registry.clients.size ∨ (!s.registry.oldClients.isEmpty) = true) := by
    simp only [onlyPrimary, Bool.and_eq_true, beq_iff_eq, not_or, Bool.not_eq_true',
      Bool.not_eq_false, not_lt]
    refine and_congr_left fun _ => ⟨Nat.le_of_eq, fun hle => ?_⟩
    omega
  have hclosed := closed_closeClients s env {}
  unfold Server.disconnect
  split_ifs with hmany
  · -- Some client is or was connected, so that it is closing now.
    refine .inr ⟨fun halone => ?_, disconnects_closeClients s env {}⟩
    refine absurd (hiff.2 ⟨fun c hc => ?_, fun c hc => ?_⟩) (fun ho => honly.1 ho hmany)
    · by_contra hne
      exact halone.2 c ((hclosed.oldClients c).2
        (.inr ((mem_droppedClients_empty hn).2 ⟨hc, hne⟩)))
    · exact halone.2 c ((hclosed.oldClients c).2 (.inl hc))
  · exact .inl ⟨hiff.1 (honly.2 hmany), disconnects_serverDisconnected s⟩

/-- No client is connected after a request to disconnect all. -/
theorem mem_clientSet_disconnect (hn : Named s)
    (hprimary : primaryClient ∈ s.registry.clientSet)
    (hc : c ∈ (s.disconnect env).registry.clientSet) : c = primaryClient := by
  by_contra hne
  have hannounced := @announced_disconnect s env hn hprimary
  have hclosed := closed_closeClients s env {}
  unfold Server.disconnect at hc hannounced
  split_ifs at hc hannounced
  · obtain ⟨hc, hdropped⟩ := (hclosed.clientSet c).1 hc
    exact hdropped ((mem_droppedClients_empty hn).2 ⟨hc, hne⟩)
  · obtain ⟨halone, -⟩ | ⟨-, hcount⟩ := hannounced
    · exact hne (halone.1 c hc)
    · rw [disconnects_serverDisconnected] at hcount
      omega

theorem Closed.alone {r : ClientID → Prop} (h : Closed r s s')
    (hr : ∀ c, r c → c ≠ primaryClient ∧ c ∈ s.registry.clientSet) (halone : s.Alone) :
    s'.Alone := by
  have hnone (c : ClientID) : ¬r c := fun hc => (hr c hc).1 (halone.1 c (hr c hc).2)
  refine ⟨fun c hc => halone.1 c ((h.clientSet c).1 hc).1, fun c hc => ?_⟩
  obtain hold | hc := (h.oldClients c).1 hc
  · exact halone.2 c hold
  · exact hnone c hc

end Server

/-- A server with the proxies that it adopted and those that were deleted, newest first. -/
structure Lifetime where
  server : Server
  adopted : List ClientID
  deleted : List ClientID

namespace Lifetime

open Server (KeepsNames)

/-- Handles an event that connects or removes screens. -/
def step (l : Lifetime) (e : Env × Server.Event) : Option Lifetime :=
  if e.2.changesRegistry then
    (l.server.step e.1 e.2).map fun s =>
      ⟨s, e.2.adopts.toList ++ l.adopted, e.2.deletes.toList ++ l.deleted⟩
  else none

/-- The runs of the events that connect and remove screens. -/
def lts : LTS Lifetime (Env × Server.Event) where
  init l := Server.lts.init l.server ∧ l.adopted = [] ∧ l.deleted = []
  step := step

/-- Proxies are deleted once and not used afterwards, and the end of a shutdown is announced; `G`
is the condition that the events satisfy. -/
structure Sound (G : Server → Env × Server.Event → Prop) (l : Lifetime) : Prop where
  /-- An adopted proxy is either connected or closing until it is deleted. -/
  partition : ∀ c ∈ l.adopted, c ∉ l.deleted →
    (c ∈ l.server.registry.clientSet ↔ c ∉ l.server.registry.oldClients)
  once : l.deleted.Nodup
  unreferenced : ∀ c ∈ l.deleted, ¬l.server.Refers c
  /-- The next event is handled without calls on deleted proxies. -/
  calls : ∀ e l', G l.server e → l.step e = some l' →
    Server.Called (· ∉ l.deleted) l.server l'.server
  /-- The destructor deletes what is left. -/
  destroyed : ∀ env, (l.server.destroyed env ++ l.deleted).Nodup ∧
    (∀ c ∈ l.adopted, c ∈ l.server.destroyed env ++ l.deleted) ∧
    Server.Called (· ∉ l.deleted) l.server (l.server.shutDown env)
  /-- After a request to disconnect all, as long as no client is adopted. -/
  notice : ∀ env l₀ events l', l.step (env, .disconnect) = some l₀ →
    lts.Admits (fun l e => G l.server e ∧ e.2.adopts = none) l₀ events →
    lts.exec l₀ events = some l' →
      (l.server.disconnects < l'.server.disconnects ↔ l'.server.Alone)

/-! ### The registers -/

/-- Where a proxy is in the course of its life. -/
structure Books (l : Lifetime) : Prop where
  primary : primaryClient ∈ l.server.registry.clientSet
  waiting : ∀ c, c ∈ l.server.registry.waiting → c < l.server.registry.next ∧
    c ∉ l.server.registry.clientSet ∧ c ∉ l.server.registry.oldClients ∧ c ∉ l.deleted
  connected : ∀ c, c ∈ l.server.registry.clientSet →
    (c = primaryClient ∨ c ∈ l.adopted) ∧ c ∉ l.server.registry.oldClients ∧ c ∉ l.deleted
  closing : ∀ c, c ∈ l.server.registry.oldClients → c ∈ l.adopted ∧ c ∉ l.deleted
  adopted : ∀ c ∈ l.adopted, c ≠ primaryClient ∧ c < l.server.registry.next ∧
    c ∉ l.server.registry.waiting ∧ (c ∉ l.deleted →
      c ∈ l.server.registry.clientSet ∨ c ∈ l.server.registry.oldClients)
  deleted : ∀ c ∈ l.deleted, c < l.server.registry.next
  once : l.deleted.Nodup

namespace Books

variable {l : Lifetime} {s' : Server} {c : ClientID}

/-- Some proxies move from the connected to the closing ones. -/
theorem closed {r : ClientID → Prop} (h : Books l) (hc : Server.Closed r l.server s')
    (hr : ∀ c, r c → c ≠ primaryClient ∧ c ∈ l.server.registry.clientSet) :
    Books { l with server := s' } := by
  obtain ⟨hset, hold, hwaiting, hnext⟩ := hc
  obtain ⟨hprimary, hw, hconn, hclosing, hadopted, hdeleted, honce⟩ := h
  constructor <;> simp only [hset, hold, hwaiting, hnext] <;> grind

/-- A client completes the handshake. -/
theorem clientConnected (h : Books l) (ident : Ident) (info : ScreenInfo)
    (hfresh : ∀ {c}, c ∈ l.server.registry.clientSet → c < l.server.registry.next) :
    Books { l with server := l.server.clientConnected ident info } := by
  obtain ⟨hprimary, hw, hconn, hclosing, hadopted, hdeleted, honce⟩ := h
  constructor <;> simp only [Server.clientConnected, Std.TreeSet.mem_insert,
    Std.LawfulEqCmp.compare_eq_iff_eq] <;> grind

/-- An adopted client is connected. -/
theorem connect (h : Books l) (hc : c ∈ l.server.registry.waiting)
    (hset : ∀ d, d ∈ s'.registry.clientSet ↔ c = d ∨ d ∈ l.server.registry.clientSet)
    (hold : s'.registry.oldClients = l.server.registry.oldClients)
    (hwaiting : s'.registry.waiting = l.server.registry.waiting.erase c)
    (hnext : s'.registry.next = l.server.registry.next) :
    Books ⟨s', c :: l.adopted, l.deleted⟩ := by
  obtain ⟨hprimary, hw, hconn, hclosing, hadopted, hdeleted, honce⟩ := h
  constructor <;> simp only [hset, hold, hwaiting, hnext, Std.TreeSet.mem_erase, ne_eq,
    Std.LawfulEqCmp.compare_eq_iff_eq] <;> grind

/-- An adopted client is told to disconnect. -/
theorem reject (h : Books l) (hc : c ∈ l.server.registry.waiting)
    (hclosed : Server.Closed (· = c) (l.server.dequeue c) s') :
    Books ⟨s', c :: l.adopted, l.deleted⟩ := by
  obtain ⟨hset, hold, hwaiting, hnext⟩ := hclosed
  obtain ⟨hprimary, hw, hconn, hclosing, hadopted, hdeleted, honce⟩ := h
  constructor <;> simp only [hset, hold, hwaiting, hnext, Server.dequeue, Std.TreeSet.mem_erase,
    ne_eq, Std.LawfulEqCmp.compare_eq_iff_eq] <;> grind

/-- A proxy is deleted. -/
theorem delete (h : Books l) (hne : c ≠ primaryClient) (hlive : l.server.Alive c)
    (hset : ∀ d, d ∈ s'.registry.clientSet ↔ d ∈ l.server.registry.clientSet ∧ d ≠ c)
    (hold : ∀ d, d ∈ s'.registry.oldClients ↔ d ∈ l.server.registry.oldClients ∧ d ≠ c)
    (hwaiting : ∀ d, d ∈ s'.registry.waiting ↔ d ∈ l.server.registry.waiting ∧ d ≠ c)
    (hnext : s'.registry.next = l.server.registry.next) :
    Books ⟨s', l.adopted, c :: l.deleted⟩ := by
  obtain ⟨hprimary, hw, hconn, hclosing, hadopted, hdeleted, honce⟩ := h
  simp only [Server.Alive] at hlive
  constructor <;> simp only [hset, hold, hwaiting, hnext] <;> grind

end Books

/-! ### Runs -/

/-- The registers, the names and the cursor are in order. -/
structure Inv (l : Lifetime) : Prop where
  names : Server.PasteInv l.server
  idle : Server.Idle l.server
  books : Books l

variable {l l' : Lifetime} {e : Env × Server.Event}

theorem Inv.step (h : Inv l) (hkeeps : KeepsNames l.server e) (hst : l.step e = some l') :
    Inv l' := by
  obtain ⟨env, e⟩ := e
  simp only [Lifetime.step] at hst
  split_ifs at hst with he
  obtain ⟨s', hstep, rfl⟩ := Option.map_eq_some_iff.1 hst
  suffices hrest : Server.Idle s' ∧
      Books ⟨s', e.adopts.toList ++ l.adopted, e.deletes.toList ++ l.deleted⟩ from
    ⟨h.names.step_keepsNames hkeeps hstep, hrest.1, hrest.2⟩
  have hbooks := h.books
  have hregistered (c : ClientID) (hc : l.server.registry.Registered c) :
      c ∈ l.server.registry.clientSet := by
    obtain ⟨name, hname⟩ := hc
    exact (h.names.named.names hname).1
  clear hst
  cases e with
  | clientConnected ident info =>
    cases hstep
    exact ⟨⟨h.idle.active, h.idle.saver, h.idle.pending⟩,
      hbooks.clientConnected ident info h.names.named.fresh⟩
  | adoptClient c =>
    simp only [Server.step] at hstep
    split_ifs at hstep with hc
    cases hstep
    refine ⟨h.idle.adoptClient env c, ?_⟩
    obtain ⟨msg, hclose⟩ | ⟨s₂, hadd, hstill, -, -⟩ := Server.adoptClient_cases l.server env c
    · refine hbooks.reject hc ?_
      rw [hclose]
      exact Server.closed_closeClient _ env c msg
    · obtain ⟨-, hadded, -⟩ := Server.addClient_spec hadd
      have hregistry := (hadded.trans hstill).registry
      refine hbooks.connect hc (fun d => ?_) ?_ ?_ ?_
      all_goals rw [hregistry]
      · exact Server.mem_withClient
      · rfl
      · rfl
      · rfl
  | clientDisconnected c =>
    simp only [Server.step] at hstep
    split_ifs at hstep with hc hlive
    · -- A client that is not adopted yet.
      cases hstep
      have hne : c ≠ primaryClient := fun heq => (hbooks.waiting c hc).2.1 (heq ▸ hbooks.primary)
      refine ⟨⟨h.idle.active, h.idle.saver, h.idle.pending⟩, ?_⟩
      show Books ⟨l.server.dequeue c, l.adopted, c :: l.deleted⟩
      refine hbooks.delete hne (.inr (.inr hc)) (fun d => ?_) (fun d => ?_) (fun d => ?_) rfl
      · exact ⟨fun hd => ⟨hd, fun heq => (hbooks.waiting c hc).2.1 (heq ▸ hd)⟩, And.left⟩
      · exact ⟨fun hd => ⟨hd, fun heq => (hbooks.waiting c hc).2.2.1 (heq ▸ hd)⟩, And.left⟩
      · change d ∈ l.server.registry.waiting.erase c ↔ _
        rw [Std.TreeSet.mem_erase, ne_eq, Std.LawfulEqCmp.compare_eq_iff_eq, and_comm, eq_comm]
    · cases hstep
      obtain ⟨hset, hold, hwaiting, hnext⟩ := Server.registry_removeActiveClient l.server env c
      obtain ⟨hold', hset', hwaiting', hnext'⟩ :=
        Server.registry_removeOldClient (l.server.removeActiveClient env c) c
      refine ⟨h.idle.vacated (Server.vacated_handleClientDisconnected l.server env c),
        hbooks.delete hlive.1 hlive.2 (fun d => ?_) (fun d => ?_) (fun d => ?_) ?_⟩
      · exact hset' ▸ hset d
      · exact hold ▸ hold' d
      · have hsame : (l.server.handleClientDisconnected env c).registry.waiting =
            l.server.registry.waiting := hwaiting'.trans hwaiting
        rw [hsame]
        exact ⟨fun hd => ⟨hd, fun heq => hc (heq ▸ hd)⟩, And.left⟩
      · exact hnext'.trans hnext
  | clientCloseTimeout c =>
    simp only [Server.step] at hstep
    split_ifs at hstep with hc
    cases hstep
    obtain ⟨hold, hset, hwaiting, hnext⟩ := Server.registry_removeOldClient l.server c
    refine ⟨h.idle.vacated (Server.vacated_removeOldClient l.server c),
      hbooks.delete ?_ (.inr (.inl hc)) (fun d => ?_) hold (fun d => ?_) hnext⟩
    · exact (hbooks.adopted c (hbooks.closing c hc).1).1
    · rw [hset]
      exact ⟨fun hd => ⟨hd, fun heq => (hbooks.connected d hd).2.1 (heq ▸ hc)⟩, And.left⟩
    · rw [hwaiting]
      exact ⟨fun hd => ⟨hd, fun heq => (hbooks.waiting d hd).2.2.1 (heq ▸ hc)⟩, And.left⟩
  | reloadConfig cfg =>
    cases hstep
    obtain ⟨r, hclosed, hr⟩ := Server.closed_reloadConfig l.server env cfg
    exact ⟨h.idle.reloadConfig env cfg,
      hbooks.closed hclosed fun c hc => ⟨(hr c hc).1, hregistered c (hr c hc).2⟩⟩
  | disconnect =>
    cases hstep
    obtain ⟨r, hclosed, hr⟩ := Server.closed_disconnect l.server env
    exact ⟨h.idle.vacated (Server.vacated_disconnect l.server env),
      hbooks.closed hclosed fun c hc => ⟨(hr c hc).1, hregistered c (hr c hc).2⟩⟩
  | _ => cases he

namespace Inv

theorem mem_of_registered (h : Inv l) {c : ClientID} (hc : l.server.registry.Registered c) :
    c ∈ l.server.registry.clientSet := by
  obtain ⟨name, hname⟩ := hc
  exact (h.names.named.names hname).1

theorem not_deleted (h : Inv l) {c : ClientID} (hc : c ∈ l.server.registry.clientSet) :
    c ∉ l.deleted := (h.books.connected c hc).2.2

theorem create {s : Server} (hs : Server.lts.init s) : Inv ⟨s, [], []⟩ := by
  obtain ⟨env, cfg, primary, info, enableDragDrop, hcreate⟩ := hs
  have hnames := Server.pasteInv_create hcreate
  obtain ⟨-, hfocus, -⟩ := Server.create_connected hcreate
  obtain ⟨s₁, s₂, hadd, hset, rfl⟩ := Server.create_spec hcreate
  obtain ⟨hconnected, honly⟩ := Server.connected_addClient_unregistered hadd
  obtain ⟨-, hadded, -⟩ := Server.addClient_spec hadd
  have hclose := Server.closeClients_of_forall (s := s₁) env s₁.config
    fun c hc => honly c (hconnected.mem_of_registered hc)
  have hregistry := (Server.setConfig_spec hset).2.registry
  have hpending := Server.switchScreen_setConfig hset
  rw [hclose] at hregistry hpending
  have hwaiting : ∀ c, c ∉ s₁.registry.waiting := by
    intro c
    rw [hadded.registry]
    exact Std.TreeSet.not_mem_emptyc
  have hold : ∀ c, c ∉ s₁.registry.oldClients := by
    intro c
    rw [hadded.registry]
    exact Std.TreeSet.not_mem_emptyc
  refine ⟨hnames, ⟨congrArg Focus.active hfocus, congrArg Focus.activeSaver hfocus, ?_⟩, ?_⟩
  · rw [hpending, hadded.pending]
    rfl
  · have hprimary := hconnected.primary
    constructor <;> simp only [hregistry] <;> grind

/-- Events are handled without calls on deleted proxies. -/
theorem called (h : Inv l) (hkeeps : KeepsNames l.server e) (hst : l.step e = some l') :
    Server.Called (· ∉ l.deleted) l.server l'.server := by
  obtain ⟨env, e⟩ := e
  simp only [Lifetime.step] at hst
  split_ifs at hst with he
  obtain ⟨s', hstep, rfl⟩ := Option.map_eq_some_iff.1 hst
  have hprimary : primaryClient ∉ l.deleted := h.not_deleted h.books.primary
  have hregistered (c : ClientID) (hc : l.server.registry.Registered c) : c ∉ l.deleted :=
    h.not_deleted (h.mem_of_registered hc)
  cases e with
  | clientConnected ident info =>
    cases hstep
    exact .of_log rfl
  | adoptClient c =>
    simp only [Server.step] at hstep
    split_ifs at hstep with hc
    cases hstep
    exact Server.called_adoptClient _ env (h.books.waiting c hc).2.2.2 hprimary hregistered
  | clientDisconnected c =>
    simp only [Server.step] at hstep
    split_ifs at hstep with hc hlive
    · cases hstep
      exact .of_log rfl
    · cases hstep
      exact (Server.called_removeActiveClient _ env c hprimary hregistered).trans
        (Server.called_removeOldClient _ c)
  | clientCloseTimeout c =>
    simp only [Server.step] at hstep
    split_ifs at hstep with hc
    cases hstep
    exact Server.called_removeOldClient _ c
  | reloadConfig cfg =>
    cases hstep
    have hcfg : Server.Called (· ∉ l.deleted) l.server { l.server with config := cfg } :=
      .of_log rfl
    refine hcfg.trans ?_
    simp only [Server.reloadConfig]
    cases hset : Server.setConfig { l.server with config := cfg } env with
    | none => exact .refl _ _
    | some s' =>
      exact (Server.called_setConfig hset hprimary (h.idle.active ▸ hprimary) hregistered).1
  | disconnect =>
    cases hstep
    unfold Server.disconnect
    split_ifs
    · exact (Server.called_closeClients _ env {} hprimary hregistered).1
    · exact Server.called_notice _ fun d hd => by cases hd
  | _ => cases he

theorem partition (h : Inv l) {c : ClientID} (hc : c ∈ l.adopted) (hlive : c ∉ l.deleted) :
    c ∈ l.server.registry.clientSet ↔ c ∉ l.server.registry.oldClients := by
  constructor
  · exact fun hset => (h.books.connected c hset).2.1
  · exact fun hold => ((h.books.adopted c hc).2.2.2 hlive).resolve_right hold

theorem unreferenced (h : Inv l) {c : ClientID} (hc : c ∈ l.deleted) : ¬l.server.Refers c := by
  have hset : c ∉ l.server.registry.clientSet := fun hset => h.not_deleted hset hc
  rintro (hreg | (hset' | hold | hwait) | hactive | hsaver | hpending)
  · exact hset (h.mem_of_registered hreg)
  · exact hset hset'
  · exact (h.books.closing c hold).2 hc
  · exact (h.books.waiting c hwait).2.2.2 hc
  · rw [h.idle.active] at hactive
    exact hset (hactive ▸ h.books.primary)
  · rw [h.idle.saver] at hsaver
    cases hsaver
  · rw [h.idle.pending] at hpending
    cases hpending

end Inv

/-- After a request to disconnect all, made when the end of a shutdown had been announced `n`
times: as long as no client is adopted, the end has been announced since if it was reached. -/
structure Ended (n : ℕ) (l : Lifetime) : Prop where
  connected : ∀ c ∈ l.server.registry.clientSet, c = primaryClient
  announced : n ≤ l.server.disconnects ∧ (n < l.server.disconnects ↔ l.server.Alone)

theorem Ended.of_announced {n : ℕ} {s : Server}
    (hconnected : ∀ c ∈ l'.server.registry.clientSet, c = primaryClient)
    (hn : n ≤ s.disconnects) (hs : n < s.disconnects → l'.server.Alone)
    (h : Server.Announced s l'.server) : Ended n l' := by
  obtain ⟨halone, hcount⟩ | ⟨halone, hcount⟩ := h
  · exact ⟨hconnected, by omega, fun _ => halone, fun _ => by omega⟩
  · exact ⟨hconnected, by omega, fun hlt => hs (hcount ▸ hlt), fun ha => absurd ha halone⟩

theorem Ended.step {n : ℕ} (h : Ended n l) (hinv : Inv l) (hadopts : e.2.adopts = none)
    (hst : l.step e = some l') : Ended n l' := by
  obtain ⟨env, e⟩ := e
  simp only [Lifetime.step] at hst
  split_ifs at hst with he
  obtain ⟨s', hstep, rfl⟩ := Option.map_eq_some_iff.1 hst
  obtain ⟨hconnected, hle, hiff⟩ := h
  have hnamed := hinv.names.named
  have hprimary := hinv.books.primary
  cases e with
  | clientConnected ident info =>
    cases hstep
    exact ⟨hconnected, hle, hiff⟩
  | adoptClient c => cases hadopts
  | clientDisconnected c =>
    simp only [Server.step] at hstep
    split_ifs at hstep with hc hlive
    · cases hstep
      exact ⟨hconnected, hle, hiff⟩
    · cases hstep
      -- The client is a closing one.
      have hset : c ∉ l.server.registry.clientSet := fun hset => hlive.1 (hconnected c hset)
      have hold : c ∈ l.server.registry.oldClients :=
        (hlive.2.resolve_left hset).resolve_right hc
      have hactive : l.server.removeActiveClient env c = l.server := by
        have hcontains : l.server.registry.clientSet.contains c = false := Bool.eq_false_iff.2 hset
        simp only [Server.removeActiveClient, hcontains, Bool.not_false, if_true]
      have hgone : l.server.handleClientDisconnected env c = l.server.removeOldClient c :=
        congrArg (fun s : Server => s.removeOldClient c) hactive
      rw [hgone]
      refine Ended.of_announced (fun d hd => ?_) hle
        (fun hlt => absurd hold ((hiff.1 hlt).2 c))
        (Server.announced_removeOldClient hnamed hprimary hold)
      rw [(Server.registry_removeOldClient l.server c).2.1] at hd
      exact hconnected d hd
  | clientCloseTimeout c =>
    simp only [Server.step] at hstep
    split_ifs at hstep with hc
    cases hstep
    refine Ended.of_announced (fun d hd => ?_) hle
      (fun hlt => absurd hc ((hiff.1 hlt).2 c))
      (Server.announced_removeOldClient hnamed hprimary hc)
    rw [(Server.registry_removeOldClient l.server c).2.1] at hd
    exact hconnected d hd
  | reloadConfig cfg =>
    cases hstep
    obtain ⟨r, hclosed, hr⟩ := Server.closed_reloadConfig l.server env cfg
    -- There is nobody to close.
    have hnone (c : ClientID) : ¬r c := fun hc =>
      (hr c hc).1 (hconnected c (hinv.mem_of_registered (hr c hc).2))
    have hcount : (l.server.reloadConfig env cfg).disconnects = l.server.disconnects := by
      simp only [Server.reloadConfig]
      cases hset : Server.setConfig { l.server with config := cfg } env with
      | none => rfl
      | some s' =>
        exact (Server.called_setConfig (P := fun _ => True) hset trivial trivial
          fun _ _ => trivial).2
    refine ⟨fun c hc => hconnected c ((hclosed.clientSet c).1 hc).1, ?_⟩
    simp only [hcount]
    refine ⟨hle, hiff.trans ⟨fun ha => ?_, fun ha => ⟨hconnected, fun c hc => ?_⟩⟩⟩
    · exact hclosed.alone (fun c hc => absurd hc (hnone c)) ha
    · exact ha.2 c ((hclosed.oldClients c).2 (.inl hc))
  | disconnect =>
    cases hstep
    obtain ⟨r, hclosed, hr⟩ := Server.closed_disconnect l.server env
    refine Ended.of_announced (fun d hd => ?_) hle (fun hlt => ?_)
      (Server.announced_disconnect hnamed hprimary)
    · exact Server.mem_clientSet_disconnect hnamed hprimary hd
    · exact hclosed.alone (fun c hc => ⟨(hr c hc).1, hinv.mem_of_registered (hr c hc).2⟩)
        (hiff.1 hlt)
  | _ => cases he

theorem Ended.exec {n : ℕ} (h : Ended n l) (hinv : Inv l) {events : List (Env × Server.Event)}
    (hadm : lts.Admits (fun l e => KeepsNames l.server e ∧ e.2.adopts = none) l events)
    (hexec : lts.exec l events = some l') : Ended n l' := by
  induction events generalizing l with
  | nil =>
    cases hexec
    exact h
  | cons e events ih =>
    obtain ⟨⟨hkeeps, hadopts⟩, hrest⟩ := hadm
    obtain ⟨l₁, hst, hexec⟩ := Option.bind_eq_some_iff.1 hexec
    rw [hst] at hrest
    exact ih (h.step hinv hadopts hst) (hinv.step hkeeps hst) hrest hexec

namespace Inv

theorem notice (h : Inv l) {env : Env} {l₀ : Lifetime} {events : List (Env × Server.Event)}
    (hst : l.step (env, .disconnect) = some l₀)
    (hadm : lts.Admits (fun l e => KeepsNames l.server e ∧ e.2.adopts = none) l₀ events)
    (hexec : lts.exec l₀ events = some l') :
    l.server.disconnects < l'.server.disconnects ↔ l'.server.Alone := by
  have hinv := h.step (fun cfg hcfg => by cases hcfg) hst
  cases hst
  have hended : Ended l.server.disconnects ⟨l.server.disconnect env, [] ++ l.adopted,
      [] ++ l.deleted⟩ :=
    Ended.of_announced
      (fun c hc => Server.mem_clientSet_disconnect h.names.named h.books.primary hc) le_rfl
      (fun hlt => absurd hlt (lt_irrefl _))
      (Server.announced_disconnect h.names.named h.books.primary)
  exact (hended.exec hinv hadm hexec).announced.2

/-- The destructor. -/
theorem destroyed (h : Inv l) (env : Env) :
    (l.server.destroyed env ++ l.deleted).Nodup ∧
      (∀ c ∈ l.adopted, c ∈ l.server.destroyed env ++ l.deleted) ∧
      Server.Called (· ∉ l.deleted) l.server (l.server.shutDown env) := by
  have hstopped : Inv { l with server := l.server.stopSwitch } :=
    ⟨h.names.kept ⟨rfl, rfl, rfl, rfl⟩,
      ⟨h.idle.active, h.idle.saver, Pending.stopSwitch_switchScreen _⟩,
      ⟨h.books.primary, h.books.waiting, h.books.connected, h.books.closing, h.books.adopted,
        h.books.deleted, h.books.once⟩⟩
  have hdisconnect : Lifetime.step { l with server := l.server.stopSwitch } (env, .disconnect) =
      some ⟨l.server.shutDown env, l.adopted, l.deleted⟩ := rfl
  have hkeeps : KeepsNames l.server.stopSwitch (env, .disconnect) := fun cfg hcfg => by cases hcfg
  have hshut := hstopped.step hkeeps hdisconnect
  have hcalled := hstopped.called hkeeps hdisconnect
  have hset (c : ClientID) (hc : c ∈ (l.server.shutDown env).registry.clientSet) :
      c = primaryClient :=
    Server.mem_clientSet_disconnect hstopped.names.named hstopped.books.primary hc
  refine ⟨List.nodup_append.2 ⟨?_, h.books.once, ?_⟩, fun c hc => ?_, ?_⟩
  · exact (Std.TreeSet.distinct_toList).imp fun hne heq =>
      hne (Std.LawfulEqCmp.compare_eq_iff_eq.2 heq)
  · rintro c hc d hd rfl
    exact (hshut.books.closing c (Std.TreeSet.mem_toList.1 hc)).2 hd
  · rw [List.mem_append]
    by_cases hdeleted : c ∈ l.deleted
    · exact .inr hdeleted
    · obtain ⟨hne, -, -, hlive⟩ := hshut.books.adopted c hc
      exact .inl (Std.TreeSet.mem_toList.2
        ((hlive hdeleted).resolve_left fun hin => hne (hset c hin)))
  · exact (Server.Called.of_log rfl : Server.Called _ l.server l.server.stopSwitch).trans hcalled

end Inv

/-- **Proxies are deleted once and not used afterwards, and the end of a shutdown is announced**
throughout every run whose reloads keep the names of the connected screens. -/
theorem sound_of_reachable (hl : lts.ReachableVia (fun l e => KeepsNames l.server e) l) :
    Sound KeepsNames l := by
  have h : Inv l := by
    refine hl.invariant (I := Inv) ?_ ?_
    · rintro ⟨s, adopted, deleted⟩ ⟨hs, rfl, rfl⟩
      exact .create hs
    · intro l e l' h hkeeps hst
      exact h.step hkeeps hst
  exact
    { partition := fun c hc hlive => h.partition hc hlive
      once := h.books.once
      unreferenced := fun c hc => h.unreferenced hc
      calls := fun e l' hkeeps hst => h.called hkeeps hst
      destroyed := h.destroyed
      notice := fun env l₀ events l' hst hadm hexec => h.notice hst hadm hexec }

/-- The state after a run from the server that the constructor makes. -/
def run (env : Env) (cfg : Config) (primary : Ident) (info : ScreenInfo)
    (events : List (Env × Server.Event)) : Option Lifetime :=
  (Server.create env cfg primary info false).bind fun s => lts.exec ⟨s, [], []⟩ events

theorem reachableVia_of_run {env : Env} {cfg : Config} {primary : Ident} {info : ScreenInfo}
    {events : List (Env × Server.Event)} {G : Lifetime → Env × Server.Event → Prop}
    (h : run env cfg primary info events = some l)
    (hG : ∀ s ∈ Server.create env cfg primary info false, lts.Admits G ⟨s, [], []⟩ events) :
    lts.ReachableVia G l := by
  obtain ⟨s₀, hcreate, hexec⟩ := Option.bind_eq_some_iff.1 h
  exact .of_exec (.init ⟨⟨env, cfg, primary, info, false, hcreate⟩, rfl, rfl⟩) (hG s₀ hcreate) hexec

/-- A client that does not disconnect in time when all are told to. -/
def slowClient : List (Env × Server.Event) :=
  Server.connectAsAlias ++ [(({} : Env), Server.Event.disconnect), ({}, .clientCloseTimeout 1)]

theorem sound_of_reachable_slowClient :
    ∃ l : Lifetime, l.deleted = [1] ∧ Sound KeepsNames l := by
  have hrun : (run {} Server.withAlias ⟨"p", true⟩ ⟨0, 0, 100, 100, 50, 50⟩
      slowClient).map (fun l => l.deleted) = some [1] := by decide +kernel
  obtain ⟨l, hl, hdeleted⟩ := Option.map_eq_some_iff.1 hrun
  exact ⟨l, hdeleted, sound_of_reachable (reachableVia_of_run hl (by decide +kernel))⟩

/-- A reload drops the client, which does not disconnect in time. -/
def droppedAlias : List (Env × Server.Event) :=
  Server.connectAsAlias ++
    [(({} : Env), Server.Event.reloadConfig ((({} : Config).addScreen "p").getD {})),
    ({}, .clientCloseTimeout 1), ({}, .disconnect), ({}, .clientCloseTimeout 1)]

/-- A reload that drops `b` while it is connected as `bb` closes the client and leaves its entry,
so that it is closed again after its deletion, and deleted again. -/
theorem not_sound_of_reachable :
    ¬∀ l : Lifetime, lts.Reachable l → Sound (fun _ _ => True) l := by
  intro h
  have hrun : (run {} Server.withAlias ⟨"p", true⟩ ⟨0, 0, 100, 100, 50, 50⟩
      droppedAlias).map (fun l => l.deleted) = some [1, 1] := by decide +kernel
  obtain ⟨l, hl, hdeleted⟩ := Option.map_eq_some_iff.1 hrun
  have honce := (h l (reachableVia_of_run hl fun s _ => LTS.admits_true _ _)).once
  rw [hdeleted] at honce
  exact absurd honce (by decide)

end Lifetime

end InputLeap
