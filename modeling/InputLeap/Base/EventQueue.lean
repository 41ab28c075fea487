import InputLeap.LTS.Basic
import InputLeap.Maps.FreeIds
import Std.Data.TreeMap.Lemmas
import Mathlib.Algebra.Group.Nat.Defs
import Mathlib.Tactic.SplitIfs

/-!
# Events that wait

The queue of events keeps the events that wait under ids and hands the ids to a buffer of the
platform, which gives them back one by one.  An id is free again when its event was taken out.

## Main definitions

* `EventQueue` : the events that wait and the free ids.
* `EventStorage` : a queue, the events whose ids came to the buffer, and those that were delivered.
* `EventStorage.lts` : events are added and taken out in any order; the buffer gives ids back in
  the order in which it took them.
* `EventStorage.Faithful` : events are delivered in the order in which their ids came to the
  buffer, each once, and no id that waits is free.
* `EventStorage.Fits` : there is an id for an event that is added.

## Main results

* `EventStorage.storage_faithful_of_reachable` : this holds in runs that do not run out of ids, and
  it ends with the first event for which there is none.
* `EventStorage.not_storage_faithful_of_reachable` : there are others.
-/

namespace InputLeap

/-- The types of events that the queue tells apart. -/
inductive EventType
  | unknown
  | quit
  | system
  | timer
  | other (n : ℕ)
  deriving DecidableEq

namespace EventQueue

/-- An event. -/
structure Event where
  type : EventType := .unknown
  target : Option ℕ := none
  data : Option ℕ := none
  flags : ℕ := 0
  deriving DecidableEq

/-- The flag `kDeliverImmediately`. -/
def deliverImmediately : ℕ := 1

end EventQueue

open EventQueue (Event)

/-- The queue of events.  The buffer is first-in first-out. -/
structure EventQueue where
  /-- The events by their ids. -/
  events : Std.TreeMap ℕ Event := ∅
  /-- The free ids; the last one is used next. -/
  oldEventIDs : List ℕ := []
  /-- The ids that the buffer has. -/
  buffer : List ℕ := []
  isReady : Bool := false
  /-- The events that were added before the queue was ready. -/
  pending : List Event := []

namespace EventQueue

variable (q : EventQueue)

/-- The id for the next event, of type `uint32_t`, and the ids that are free then. -/
def nextId : ℕ × List ℕ :=
  match q.oldEventIDs.getLast? with
  | some id => (id, q.oldEventIDs.dropLast)
  | none => (q.events.size % 2 ^ 32, [])

/-- Stores an event. -/
def saveEvent (event : Event) : EventQueue × ℕ :=
  ({ q with events := q.events.insert q.nextId.1 event, oldEventIDs := q.nextId.2 }, q.nextId.1)

/-- Takes an event out. -/
def removeEvent (eventID : ℕ) : EventQueue × Event :=
  match q.events[eventID]? with
  | none => (q, {})
  | some event =>
    ({ q with events := q.events.erase eventID, oldEventIDs := q.oldEventIDs ++ [eventID] }, event)

/-- Stores an event and hands its id to the buffer, which takes it or not. -/
def addEventToBuffer (event : Event) (taken : Bool) : EventQueue :=
  let (q, eventID) := q.saveEvent event
  if taken then { q with buffer := q.buffer ++ [eventID] } else (q.removeEvent eventID).1

/-- The event is one that comes to the buffer at once. -/
def saves (event : Event) : Bool :=
  match event.type with
  | .unknown | .system | .timer => false
  | _ => event.flags &&& deliverImmediately == 0 && q.isReady

/-- Adds an event.  One that is to be delivered immediately goes to its handlers, whose calls are
calls of their own. -/
def addEvent (event : Event) (taken : Bool) : EventQueue :=
  match event.type with
  | .unknown | .system | .timer => q
  | _ =>
    if event.flags &&& deliverImmediately ≠ 0 then q
    else if !q.isReady then { q with pending := q.pending ++ [event] }
    else q.addEventToBuffer event taken

end EventQueue

/-- What the buffer answers when it is asked for an event, or that a timer expired before. -/
inductive BufferAnswer
  | none
  | system
  | timer
  | user
  deriving DecidableEq

/-- A queue and its history. -/
structure EventStorage where
  queue : EventQueue := {}
  /-- The id that `getEvent` has from the buffer and whose event it is about to take out. -/
  taken : Option ℕ := none
  /-- The events whose ids came to the buffer, in this order. -/
  queued : List Event := []
  /-- The events that were taken out. -/
  delivered : List Event := []

namespace EventStorage

/-- What is done with the queue.  Other threads may add events between the two halves of
`getEvent`. -/
inductive Action
  | addEvent (event : Event) (taken : Bool)
  /-- The loop starts. -/
  | ready
  /-- It adds the first pending event. -/
  | addPending (taken : Bool)
  | getEvent (answer : BufferAnswer)
  | removeEvent

variable (s : EventStorage)

/-- Notes an event whose id the buffer took. -/
def note (event : Event) (noted : Bool) : List Event :=
  if noted then s.queued ++ [event] else s.queued

/-- One step. -/
def step : Action → Option EventStorage
  | .addEvent event taken =>
    some { s with
      queue := s.queue.addEvent event taken
      queued := s.note event (s.queue.saves event && taken) }
  | .ready => some { s with queue := { s.queue with isReady := true } }
  | .addPending taken =>
    match s.queue.isReady, s.queue.pending with
    | true, event :: rest =>
      some { s with
        queue := { s.queue.addEventToBuffer event taken with pending := rest }
        queued := s.note event taken }
    | _, _ => none
  | .getEvent answer =>
    match answer, s.taken, s.queue.buffer with
    | .user, none, id :: rest =>
      some { s with queue := { s.queue with buffer := rest }, taken := some id }
    | .user, _, _ => none
    | _, _, _ => some s
  | .removeEvent =>
    match s.taken with
    | none => none
    | some id =>
      some { s with
        queue := (s.queue.removeEvent id).1
        taken := none
        delivered := s.delivered ++ [(s.queue.removeEvent id).2] }

/-- The runs of a queue. -/
def lts : LTS EventStorage Action where
  init s := s = {}
  step := step

/-- The ids whose events wait. -/
def waiting : List ℕ := s.taken.toList ++ s.queue.buffer

/-- **The storage is faithful.** -/
structure Faithful : Prop where
  /-- No id that waits is free. -/
  disjoint : ∀ id ∈ s.waiting, id ∉ s.queue.oldEventIDs
  /-- No id waits twice. -/
  nodup : s.waiting.Nodup
  /-- What was delivered is what was queued first, and the ids that wait have the rest. -/
  order : ∃ rest, s.queued = s.delivered ++ rest ∧
    s.waiting.map (s.queue.events[·]?) = rest.map some

/-- There is an id that is not in use. -/
def HasId (q : EventQueue) : Prop := q.oldEventIDs ≠ [] ∨ q.events.size < 2 ^ 32

/-- There is an id for an event that is added. -/
def Fits : Action → Prop
  | .addEvent event _ => s.queue.saves event = true → HasId s.queue
  | .addPending _ => HasId s.queue
  | .ready | .getEvent _ | .removeEvent => True

instance (q : EventQueue) : Decidable (HasId q) := inferInstanceAs (Decidable (_ ∨ _))

instance : ∀ a, Decidable (s.Fits a)
  | .addEvent .. => inferInstanceAs (Decidable (_ → _))
  | .addPending _ => inferInstanceAs (Decidable (HasId _))
  | .ready | .getEvent _ | .removeEvent => .isTrue trivial

/-- The invariant. -/
structure Inv : Prop where
  numbered : FreeIds.Numbered s.waiting s.queue.oldEventIDs
  mem : ∀ id, id ∈ s.queue.events ↔ id ∈ s.waiting
  order : ∃ rest, s.queued = s.delivered ++ rest ∧
    s.waiting.map (s.queue.events[·]?) = rest.map some

variable {s s' : EventStorage} {q : EventQueue} {event : Event}

theorem inv_empty : Inv {} :=
  ⟨FreeIds.numbered_nil, fun _ => iff_of_false Std.TreeMap.not_mem_emptyc List.not_mem_nil,
    [], rfl, rfl⟩

theorem Inv.faithful (h : Inv s) : Faithful s :=
  ⟨fun _ => h.numbered.not_mem, h.numbered.nodup, h.order⟩

theorem Inv.size_eq (h : Inv s) : s.queue.events.size = s.waiting.length := by
  rw [← Std.TreeMap.length_keys]
  have hperm : s.queue.events.keys.Perm s.waiting := by
    refine (List.perm_ext_iff_of_nodup Std.TreeMap.nodup_keys h.numbered.nodup).2 fun id => ?_
    rw [Std.TreeMap.mem_keys, h.mem]
  exact hperm.length_eq

/-! ### Storing an event -/

/-- The next id is not in use, if there is one. -/
theorem nextId_spec {used : List ℕ} (h : FreeIds.Numbered used q.oldEventIDs)
    (hsize : q.events.size = used.length) (hid : HasId q) :
    q.nextId.1 ∉ used ∧ FreeIds.Numbered (used ++ [q.nextId.1]) q.nextId.2 := by
  unfold EventQueue.nextId
  cases hlast : q.oldEventIDs.getLast? with
  | none =>
    have hnil := List.getLast?_eq_none_iff.1 hlast
    have hlt := hid.resolve_left fun hne => hne hnil
    rw [hnil] at h
    dsimp only
    rw [Nat.mod_eq_of_lt hlt, hsize]
    exact h.new
  | some id =>
    obtain ⟨free, hfree⟩ := List.getLast?_eq_some_iff.1 hlast
    rw [hfree] at h
    dsimp only
    rw [hfree, List.dropLast_concat]
    exact h.reuse

/-- The next id is in use, if there is none that is not. -/
theorem nextId_mem {used : List ℕ} (h : FreeIds.Numbered used q.oldEventIDs)
    (hsize : q.events.size = used.length) (hid : ¬HasId q) : q.nextId.1 ∈ used := by
  obtain ⟨hnil, hle⟩ := not_or.1 hid
  rw [not_not] at hnil
  rw [hnil] at h
  unfold EventQueue.nextId
  rw [hnil]
  refine h.mem_iff.2 ?_
  rw [← hsize]
  exact Nat.lt_of_lt_of_le (Nat.mod_lt _ (by decide)) (Nat.not_lt.1 hle)

theorem addEventToBuffer_true (q : EventQueue) (event : Event) :
    q.addEventToBuffer event true = { q with
      events := q.events.insert q.nextId.1 event
      oldEventIDs := q.nextId.2
      buffer := q.buffer ++ [q.nextId.1] } := rfl

theorem addEventToBuffer_false (q : EventQueue) (event : Event) :
    q.addEventToBuffer event false = { q with
      events := (q.events.insert q.nextId.1 event).erase q.nextId.1
      oldEventIDs := q.nextId.2 ++ [q.nextId.1] } := by
  have hevent : (q.events.insert q.nextId.1 event)[q.nextId.1]? = some event :=
    Std.TreeMap.getElem?_insert_self
  simp only [EventQueue.addEventToBuffer, EventQueue.saveEvent, EventQueue.removeEvent, hevent,
    Bool.false_eq_true, if_false]

/-- The events of the other ids stay. -/
theorem map_insert {ids : List ℕ} {events : Std.TreeMap ℕ Event} {id : ℕ} (h : id ∉ ids) :
    ids.map ((events.insert id event)[·]?) = ids.map (events[·]?) := by
  refine List.map_congr_left fun i hi => ?_
  rw [Std.TreeMap.getElem?_insert, if_neg]
  rw [compare_eq_iff_eq]
  rintro rfl
  exact h hi

theorem map_erase {ids : List ℕ} {events : Std.TreeMap ℕ Event} {id : ℕ} (h : id ∉ ids) :
    ids.map ((events.erase id)[·]?) = ids.map (events[·]?) := by
  refine List.map_congr_left fun i hi => ?_
  rw [Std.TreeMap.getElem?_erase, if_neg]
  rw [compare_eq_iff_eq]
  rintro rfl
  exact h hi

/-- An event comes to the buffer, or the buffer does not take it. -/
theorem Inv.save (h : Inv s) (hid : HasId s.queue) (event : Event) (taken : Bool)
    (pending : List Event) :
    Inv { s with
      queue := { s.queue.addEventToBuffer event taken with pending := pending }
      queued := s.note event taken } := by
  obtain ⟨hfresh, hnumbered⟩ := nextId_spec h.numbered h.size_eq hid
  obtain ⟨rest, hqueued, hrest⟩ := h.order
  cases taken with
  | true =>
    rw [addEventToBuffer_true]
    have hwaiting : s.taken.toList ++ (s.queue.buffer ++ [s.queue.nextId.1]) =
        s.waiting ++ [s.queue.nextId.1] := (List.append_assoc ..).symm
    refine ⟨?_, fun id => ?_, rest ++ [event], ?_, ?_⟩
    · show FreeIds.Numbered (s.taken.toList ++ (s.queue.buffer ++ [s.queue.nextId.1])) _
      rw [hwaiting]
      exact hnumbered
    · show id ∈ s.queue.events.insert _ event ↔
        id ∈ s.taken.toList ++ (s.queue.buffer ++ [s.queue.nextId.1])
      rw [hwaiting, Std.TreeMap.mem_insert, compare_eq_iff_eq, h.mem, List.mem_append,
        List.mem_singleton, or_comm, eq_comm]
    · show s.queued ++ [event] = s.delivered ++ (rest ++ [event])
      rw [hqueued, List.append_assoc]
    · show (s.taken.toList ++ (s.queue.buffer ++ [s.queue.nextId.1])).map
        ((s.queue.events.insert s.queue.nextId.1 event)[·]?) = _
      rw [hwaiting, List.map_append, List.map_append, map_insert hfresh, hrest, List.map_singleton,
        List.map_singleton, Std.TreeMap.getElem?_insert_self]
  | false =>
    rw [addEventToBuffer_false]
    refine ⟨hnumbered.releaseLast, fun id => ?_, rest, hqueued, ?_⟩
    · show id ∈ (s.queue.events.insert _ event).erase _ ↔ id ∈ s.waiting
      rw [Std.TreeMap.mem_erase, Std.TreeMap.mem_insert, compare_eq_iff_eq, ← h.mem]
      constructor
      · rintro ⟨hne, heq | hmem⟩
        · exact absurd (compare_eq_iff_eq.2 heq) hne
        · exact hmem
      · intro hmem
        refine ⟨fun heq => ?_, .inr hmem⟩
        rw [compare_eq_iff_eq] at heq
        exact hfresh (heq ▸ (h.mem id).1 hmem)
    · show s.waiting.map (((s.queue.events.insert _ event).erase _)[·]?) = _
      rw [map_erase hfresh, map_insert hfresh, hrest]

/-- Without an id for it, an event takes the place of another one. -/
theorem Inv.not_faithful_save (h : Inv s) (hid : ¬HasId s.queue) (event : Event) (taken : Bool)
    (pending : List Event) :
    ¬Faithful { s with
      queue := { s.queue.addEventToBuffer event taken with pending := pending }
      queued := s.note event taken } := by
  intro hfaithful
  have hmem := nextId_mem h.numbered h.size_eq hid
  cases taken with
  | true =>
    rw [addEventToBuffer_true] at hfaithful
    have hnodup : (s.taken.toList ++ (s.queue.buffer ++ [s.queue.nextId.1])).Nodup :=
      hfaithful.nodup
    rw [← List.append_assoc] at hnodup
    exact (List.nodup_append.1 hnodup).2.2 _ hmem _ (List.mem_singleton_self _) rfl
  | false =>
    rw [addEventToBuffer_false] at hfaithful
    obtain ⟨rest, -, hrest⟩ := hfaithful.order
    have hnone : none ∈ rest.map some := by
      rw [← hrest]
      exact List.mem_map.2 ⟨_, hmem, Std.TreeMap.getElem?_erase_self⟩
    obtain ⟨e, -, he⟩ := List.mem_map.1 hnone
    cases he

/-! ### Adding an event -/

theorem addEvent_of_saves {taken : Bool} (h : q.saves event = true) :
    q.addEvent event taken = q.addEventToBuffer event taken := by
  unfold EventQueue.saves at h
  unfold EventQueue.addEvent
  cases htype : event.type with
  | unknown | system | timer =>
    rw [htype] at h
    cases h
  | quit | other =>
    rw [htype] at h
    simp only [Bool.and_eq_true, beq_iff_eq] at h
    simp [h]

theorem addEvent_of_not_saves (taken : Bool) (h : q.saves event = false) :
    ∃ pending, q.addEvent event taken = { q with pending := pending } := by
  unfold EventQueue.saves at h
  unfold EventQueue.addEvent
  cases htype : event.type with
  | unknown | system | timer => exact ⟨q.pending, rfl⟩
  | quit | other =>
    rw [htype] at h
    dsimp only at h ⊢
    split_ifs with hflag hready
    · exact ⟨q.pending, rfl⟩
    · exact ⟨_, rfl⟩
    · simp only [ne_eq, not_not] at hflag
      simp only [Bool.not_eq_true', Bool.not_eq_false] at hready
      simp [hflag, hready] at h

/-- A step that changes what is pending only. -/
theorem Inv.pending (h : Inv s) (pending : List Event) (isReady : Bool) :
    Inv { s with queue := { s.queue with pending := pending, isReady := isReady } } :=
  ⟨h.numbered, h.mem, h.order⟩

theorem addEvent_state (s : EventStorage) (event : Event) (taken : Bool) :
    (s.queue.saves event = true ∧
      ({ s with
        queue := s.queue.addEvent event taken
        queued := s.note event (s.queue.saves event && taken) } : EventStorage) =
        { s with
          queue := { s.queue.addEventToBuffer event taken with
            pending := (s.queue.addEventToBuffer event taken).pending }
          queued := s.note event taken }) ∨
    (s.queue.saves event = false ∧ ∃ pending,
      ({ s with
        queue := s.queue.addEvent event taken
        queued := s.note event (s.queue.saves event && taken) } : EventStorage) =
        { s with queue := { s.queue with pending := pending, isReady := s.queue.isReady } }) := by
  cases hsaves : s.queue.saves event with
  | true =>
    refine .inl ⟨rfl, ?_⟩
    rw [addEvent_of_saves hsaves, Bool.true_and]
  | false =>
    obtain ⟨pending, heq⟩ := addEvent_of_not_saves taken hsaves
    refine .inr ⟨rfl, pending, ?_⟩
    rw [heq, Bool.false_and]
    rfl

/-! ### Taking an event out -/

/-- The buffer gives back its first id. -/
theorem Inv.take {id : ℕ} {rest : List ℕ} (h : Inv s) (htaken : s.taken = none)
    (hbuffer : s.queue.buffer = id :: rest) :
    Inv { s with queue := { s.queue with buffer := rest }, taken := some id } := by
  have hwaiting : s.waiting = id :: rest := by
    rw [waiting, htaken, hbuffer]
    rfl
  obtain ⟨hnumbered, hmem, horder⟩ := h
  rw [hwaiting] at hnumbered horder
  exact ⟨hnumbered, fun i => by rw [hmem, hwaiting]; rfl, horder⟩

/-- The event of that id is taken out. -/
theorem Inv.remove {id : ℕ} (h : Inv s) (htaken : s.taken = some id) :
    Inv { s with
      queue := (s.queue.removeEvent id).1
      taken := none
      delivered := s.delivered ++ [(s.queue.removeEvent id).2] } := by
  have hwaiting : s.waiting = id :: s.queue.buffer := by
    rw [waiting, htaken]
    rfl
  obtain ⟨hnumbered, hmem, rest, hqueued, hrest⟩ := h
  rw [hwaiting] at hnumbered hrest
  have hfresh := (List.nodup_cons.1 hnumbered.nodup).1
  cases rest with
  | nil => cases hrest
  | cons event rest =>
    rw [List.map_cons, List.map_cons] at hrest
    obtain ⟨hevent, hrest⟩ := List.cons.inj hrest
    have hremove : s.queue.removeEvent id =
        ({ s.queue with
          events := s.queue.events.erase id, oldEventIDs := s.queue.oldEventIDs ++ [id] },
          event) := by
      rw [EventQueue.removeEvent, hevent]
    rw [hremove]
    refine ⟨hnumbered.release, fun i => ?_, rest, ?_, ?_⟩
    · show i ∈ s.queue.events.erase id ↔ i ∈ s.queue.buffer
      rw [Std.TreeMap.mem_erase, hmem, hwaiting, List.mem_cons, Ne, compare_eq_iff_eq]
      constructor
      · rintro ⟨hne, rfl | hi⟩
        · exact absurd rfl hne
        · exact hi
      · intro hi
        exact ⟨fun heq => hfresh (heq ▸ hi), .inr hi⟩
    · rw [hqueued, List.append_assoc]
      rfl
    · show s.queue.buffer.map ((s.queue.events.erase id)[·]?) = _
      rw [map_erase hfresh, hrest]

/-! ### Runs -/

/-- A step that has its id keeps the invariant, and one that has not ends the property. -/
theorem Inv.step {a : Action} (h : Inv s) (hst : s.step a = some s') :
    (s.Fits a → Inv s') ∧ (¬s.Fits a → ¬Faithful s') := by
  cases a with
  | addEvent event taken =>
    cases hst
    obtain ⟨hsaves, heq⟩ | ⟨hsaves, pending, heq⟩ := s.addEvent_state event taken
    · rw [heq]
      refine ⟨fun hfits => h.save (hfits hsaves) event taken _, fun hfits => ?_⟩
      exact h.not_faithful_save (fun hid => hfits fun _ => hid) event taken _
    · rw [heq]
      refine ⟨fun _ => h.pending pending _, fun hfits => ?_⟩
      refine absurd (fun hsaved => ?_) hfits
      rw [hsaves] at hsaved
      cases hsaved
  | ready =>
    cases hst
    exact ⟨fun _ => h.pending _ true, fun hfits => absurd trivial hfits⟩
  | addPending taken =>
    simp only [EventStorage.step] at hst
    split at hst
    · cases hst
      exact ⟨fun hfits => h.save hfits _ taken _, fun hfits => h.not_faithful_save hfits _ taken _⟩
    · cases hst
  | getEvent answer =>
    refine ⟨fun _ => ?_, fun hfits => absurd trivial hfits⟩
    cases answer with
    | none | system | timer =>
      cases hst
      exact h
    | user =>
      cases htaken : s.taken with
      | some id => simp [EventStorage.step, htaken] at hst
      | none =>
        cases hbuffer : s.queue.buffer with
        | nil => simp [EventStorage.step, htaken, hbuffer] at hst
        | cons id rest =>
          simp only [EventStorage.step, htaken, hbuffer] at hst
          cases hst
          exact h.take htaken hbuffer
  | removeEvent =>
    refine ⟨fun _ => ?_, fun hfits => absurd trivial hfits⟩
    simp only [EventStorage.step] at hst
    split at hst
    · cases hst
    · rename_i htaken
      cases hst
      exact h.remove htaken

theorem inv_of_reachable (hs : lts.ReachableVia Fits s) : Inv s := by
  refine hs.invariant (I := Inv) ?_ ?_
  · rintro s rfl
    exact inv_empty
  · intro s a s' h hfits hst
    exact (h.step hst).1 hfits

/-- **The storage is faithful** in any run that does not run out of ids, and after the next step it
is if and only if that has an id. -/
theorem storage_faithful_of_reachable (hs : lts.ReachableVia Fits s) :
    Faithful s ∧ ∀ a s', s.step a = some s' → (Faithful s' ↔ s.Fits a) := by
  have h := inv_of_reachable hs
  refine ⟨h.faithful, fun a s' hst => ⟨fun hfaithful => ?_, fun hfits => ?_⟩⟩
  · exact Decidable.of_not_not fun hfits => (h.step hst).2 hfits hfaithful
  · exact ((h.step hst).1 hfits).faithful

/-- An event is added while another one is taken out; its id is a new one. -/
def overlapping : List Action :=
  [.addEvent { type := .quit } true, .ready, .addPending true, .addEvent { type := .other 1 } true,
    .getEvent .user, .addEvent { type := .other 2 } true, .removeEvent,
    .addEvent { type := .other 3 } true]

theorem storage_faithful_of_reachable_overlapping : ∃ s : EventStorage, Faithful s ∧
    s.delivered = [{ type := .quit }] ∧ s.queue.buffer = [1, 2, 0] := by
  have hrun : (lts.exec {} overlapping).map (fun s => (s.delivered, s.queue.buffer)) =
      some ([{ type := .quit }], [1, 2, 0]) := by decide +kernel
  obtain ⟨s, hs, hend⟩ := Option.map_eq_some_iff.1 hrun
  obtain ⟨hdelivered, hbuffer⟩ := Prod.mk.inj hend
  exact ⟨s, (storage_faithful_of_reachable (.of_exec (.init rfl) (by decide +kernel) hs)).1,
    hdelivered, hbuffer⟩

/-- The queue is ready and every id that was made is in use. -/
structure Full (s : EventStorage) (n : ℕ) : Prop where
  reachable : lts.ReachableVia Fits s
  isReady : s.queue.isReady = true
  oldEventIDs : s.queue.oldEventIDs = []
  size : s.queue.events.size = n

theorem exists_full (n : ℕ) (hn : n ≤ 2 ^ 32) : ∃ s, Full s n := by
  induction n with
  | zero =>
    exact ⟨{ queue := { isReady := true } },
      .step (.init rfl) (l := .ready) trivial rfl, rfl, rfl, Std.TreeMap.size_emptyc⟩
  | succ n ih =>
    obtain ⟨s, hs⟩ := ih (by omega)
    have hid : HasId s.queue := .inr (by rw [hs.size]; omega)
    have hst : s.step (.addEvent { type := .quit } true) = some { s with
        queue := s.queue.addEventToBuffer { type := .quit } true
        queued := s.note { type := .quit } true } := by
      have hsaves : s.queue.saves { type := .quit } = true := by
        rw [EventQueue.saves, hs.isReady]
        rfl
      simp only [EventStorage.step, addEvent_of_saves hsaves, hsaves, Bool.and_self]
    have hfits : s.Fits (.addEvent { type := .quit } true) := fun _ => hid
    have hr := hs.reachable.step hfits hst
    refine ⟨_, hr, hs.isReady, ?_, ?_⟩
    · show s.queue.nextId.2 = []
      rw [EventQueue.nextId, hs.oldEventIDs]
      rfl
    · have hinv := inv_of_reachable hs.reachable
      rw [(inv_of_reachable hr).size_eq, ← hs.size, hinv.size_eq, addEventToBuffer_true, waiting,
        waiting, ← List.append_assoc, List.length_append]
      rfl

/-- After 2 ^ 32 events the next one takes the id of the first. -/
theorem not_storage_faithful_of_reachable : ¬∀ s : EventStorage, lts.Reachable s → Faithful s := by
  intro h
  obtain ⟨s, hs⟩ := exists_full (2 ^ 32) (Nat.le_refl _)
  have hid : ¬HasId s.queue := by
    rintro (hne | hlt)
    · exact hne hs.oldEventIDs
    · exact Nat.lt_irrefl _ (hs.size ▸ hlt)
  have hsaves : s.queue.saves { type := .quit } = true := by
    rw [EventQueue.saves, hs.isReady]
    rfl
  have hfits : ¬s.Fits (.addEvent { type := .quit } true) := fun hfits => hid (hfits hsaves)
  exact ((inv_of_reachable hs.reachable).step rfl).2 hfits
    (h _ (hs.reachable.reachable.step (l := .addEvent { type := .quit } true) trivial rfl))

end EventStorage

end InputLeap
