import InputLeap.LTS.Basic
import Mathlib.Data.List.Basic
import Mathlib.Tactic.SplitIfs

/-!
# Messages on a stream

A sender writes messages into a stream without frames around them.  The bytes arrive in pieces of
any size, and a receiver is called on what has arrived.  Some receivers wait in the middle of a
message for the rest of it; others take what is there for all of it.

## Main definitions

* `Channel` : the two ends of a stream, as functions.
* `Channel.lts` : messages are sent, bytes arrive and the receiver is called, in any order.
* `Channel.State.Agrees` : the reports of the receiver are the messages that it was given.
* `Channel.Conforms` : what the receiver makes of whole messages and of the beginning of one.
* `Channel.Delivers` : what is proved about a channel.

## Main results

* `Conforms.agrees`, `Conforms.drained` : in every run of a channel that conforms the two ends
  agree.
* `Conforms.agrees_iff` : a receiver that does not wait agrees exactly at the end of a message.
-/

namespace InputLeap

/-- What a receiver makes of the bytes that are there. -/
structure Received (M B : Type) where
  /-- What it reports, in order; `none` is a report without a message. -/
  reports : List (Option M) := []
  /-- The bytes that it goes on with when more have arrived. -/
  kept : List B := []
  /-- It can be called again. -/
  alive : Bool := true
  deriving DecidableEq

/-- The two ends of a stream of `B`s.  `R` is what the sender is asked for, and `J` what the
receiver finds in the variables that it has not set. -/
structure Channel (R M B J : Type) where
  /-- The message that is asked for. -/
  message : R → M
  /-- The bytes that are written; `none` if the call does not return. -/
  send : R → Option (List B)
  receive : J → List B → Received M B

namespace Channel

variable {R M B J : Type}

/-- A stream in use. -/
structure State (M B : Type) where
  /-- The messages that were written and the bytes of each, oldest first. -/
  sent : List (M × List B) := []
  /-- The bytes that have not arrived. -/
  wire : List B := []
  /-- The bytes that arrived after the receiver was called last. -/
  fresh : List B := []
  kept : List B := []
  /-- How many bytes the receiver was given. -/
  handled : ℕ := 0
  reports : List (Option M) := []
  alive : Bool := true
  deriving DecidableEq

/-- What happens on a stream. -/
inductive Event (R J : Type)
  | send (request : R)
  /-- So many bytes arrive. -/
  | arrive (n : ℕ)
  | handle (junk : J)

variable (c : Channel R M B J)

/-- A request for which nothing is written leaves the stream as it is. -/
def step [DecidableEq B] (s : State M B) : Event R J → Option (State M B)
  | .send request =>
    (c.send request).map fun bytes =>
      if bytes = [] then s
      else { s with sent := s.sent ++ [(c.message request, bytes)], wire := s.wire ++ bytes }
  | .arrive n => some { s with wire := s.wire.drop n, fresh := s.fresh ++ s.wire.take n }
  | .handle junk =>
    if s.alive ∧ s.fresh ≠ [] then
      let r := c.receive junk (s.kept ++ s.fresh)
      some { s with
        fresh := []
        kept := r.kept
        handled := s.handled + s.fresh.length
        reports := s.reports ++ r.reports
        alive := r.alive }
    else none

/-- The runs of a stream that was just opened. -/
def lts [DecidableEq B] : LTS (State M B) (Event R J) where
  init s := s = {}
  step := c.step

/-! ### Agreement -/

/-- The bytes of messages. -/
def bytes (ws : List (M × List B)) : List B := ws.flatMap Prod.snd

/-- The reports of messages. -/
def reported (ws : List (M × List B)) : List (Option M) := ws.map fun w => some w.1

/-- The messages that are whole in the first `n` bytes. -/
def complete : List (M × List B) → ℕ → List (M × List B)
  | [], _ => []
  | w :: ws, n => if n < w.2.length then [] else w :: complete ws (n - w.2.length)

/-- How many of the first `n` bytes are of a message that is not whole. -/
def cut : List (M × List B) → ℕ → ℕ
  | [], n => n
  | w :: ws, n => if n < w.2.length then n else cut ws (n - w.2.length)

/-- The reports are the messages that the receiver was given, each once and in order. -/
def State.Agrees (s : State M B) : Prop := s.reports = reported (complete s.sent s.handled)

/-- What was arrived ends with a message. -/
def State.Whole (s : State M B) : Prop := cut s.sent (s.handled + s.fresh.length) = 0

instance [DecidableEq M] (s : State M B) : Decidable s.Agrees :=
  inferInstanceAs (Decidable (_ = _))

instance (s : State M B) : Decidable s.Whole := inferInstanceAs (Decidable (_ = _))

/-- Only fit messages are asked for, and a receiver that does not wait is called at the end of a
message. -/
def Admits (fit : R → Prop) (waits : Prop) (s : State M B) : Event R J → Prop
  | .send request => fit request
  | .arrive _ => True
  | .handle _ => waits ∨ s.Whole

/-- The bytes are written for a fit message. -/
def Written (fit : R → Prop) (w : M × List B) : Prop :=
  ∃ request, fit request ∧ c.message request = w.1 ∧ c.send request = some w.2 ∧ w.2 ≠ []

/-- Nothing, or the beginning of the first of the messages. -/
def Begins (ws : List (M × List B)) (p : List B) : Prop :=
  p = [] ∨ ∃ w rest, ws = w :: rest ∧ p <+: w.2 ∧ p.length < w.2.length

/-- What the receiver makes of whole messages, and of these with the beginning of another. -/
structure Conforms (fit : R → Prop) (waits : Prop) : Prop where
  whole : ∀ junk ws, (∀ w ∈ ws, c.Written fit w) →
    c.receive junk (bytes ws) = ⟨reported ws, [], true⟩
  waiting : waits → ∀ junk ws later p, (∀ w ∈ ws ++ later, c.Written fit w) → Begins later p →
    c.receive junk (bytes ws ++ p) = ⟨reported ws, p, true⟩
  cut : ¬waits → ∀ junk ws later p, (∀ w ∈ ws ++ later, c.Written fit w) → Begins later p →
    p ≠ [] → ws.length < (c.receive junk (bytes ws ++ p)).reports.length

/-- The two ends agree in every run in which only fit messages are asked for and a receiver that
does not wait is called at the end of a message.  Both conditions are needed. -/
structure Delivers [DecidableEq B] (fit : R → Prop) (waits : Prop) : Prop where
  agrees : ∀ s, c.lts.ReachableVia (Admits fit waits) s → s.Agrees
  /-- When nothing is under way any more, all that was written is reported. -/
  drained : ∀ s, c.lts.ReachableVia (Admits fit waits) s → s.wire = [] → s.fresh = [] →
    s.reports = reported s.sent
  agrees_iff : ∀ s, c.lts.ReachableVia (Admits fit waits) s → ∀ junk s',
    c.step s (.handle junk) = some s' → (s'.Agrees ↔ waits ∨ s.Whole)
  /-- A message that arrives alone and whole is reported exactly if it is fit. -/
  fit_iff : ∀ request junk bytes, c.send request = some bytes → bytes ≠ [] →
    ((c.receive junk bytes).reports = [some (c.message request)] ↔ fit request)

variable {c} {ws now later : List (M × List B)} {p : List B}

/-! ### Messages and their bytes -/

@[simp] theorem bytes_nil : bytes ([] : List (M × List B)) = [] := rfl

@[simp] theorem bytes_cons (w : M × List B) (ws : List (M × List B)) :
    bytes (w :: ws) = w.2 ++ bytes ws := List.flatMap_cons

@[simp] theorem bytes_append (ws later : List (M × List B)) :
    bytes (ws ++ later) = bytes ws ++ bytes later := List.flatMap_append

@[simp] theorem reported_append (ws later : List (M × List B)) :
    reported (ws ++ later) = reported ws ++ reported later := List.map_append

theorem length_le_bytes (h : ∀ w ∈ ws, w.2 ≠ []) : ws.length ≤ (bytes ws).length := by
  induction ws with
  | nil => exact Nat.le_refl _
  | cons w ws ih =>
    obtain ⟨hw, hws⟩ := List.forall_mem_cons.1 h
    have hpos := List.length_pos_iff.2 hw
    have hrest := ih hws
    rw [bytes_cons, List.length_append, List.length_cons]
    omega

theorem complete_append (now later : List (M × List B)) (n : ℕ) :
    complete (now ++ later) ((bytes now).length + n) = now ++ complete later n := by
  induction now with
  | nil => simp
  | cons w now ih =>
    rw [List.cons_append, complete, bytes_cons, List.length_append, if_neg (by omega),
      show w.2.length + (bytes now).length + n - w.2.length = (bytes now).length + n by omega, ih,
      List.cons_append]

theorem cut_append (now later : List (M × List B)) (n : ℕ) :
    cut (now ++ later) ((bytes now).length + n) = cut later n := by
  induction now with
  | nil => simp
  | cons w now ih =>
    rw [List.cons_append, cut, bytes_cons, List.length_append, if_neg (by omega),
      show w.2.length + (bytes now).length + n - w.2.length = (bytes now).length + n by omega, ih]

theorem Begins.complete_eq (h : Begins later p) (hlater : ∀ w ∈ later, w.2 ≠ []) :
    complete later p.length = [] := by
  rcases h with rfl | ⟨w, rest, rfl, -, hlt⟩
  · cases later with
    | nil => rfl
    | cons w rest =>
      have hpos := List.length_pos_iff.2 (hlater w List.mem_cons_self)
      exact if_pos hpos
  · exact if_pos hlt

theorem Begins.cut_eq (h : Begins later p) (hlater : ∀ w ∈ later, w.2 ≠ []) :
    cut later p.length = p.length := by
  rcases h with rfl | ⟨w, rest, rfl, -, hlt⟩
  · cases later with
    | nil => rfl
    | cons w rest =>
      have hpos := List.length_pos_iff.2 (hlater w List.mem_cons_self)
      exact if_pos hpos
  · exact if_pos hlt

/-- The first bytes of messages are whole messages and the beginning of the next. -/
theorem exists_begins {data rest : List B} (h : data ++ rest = bytes ws) :
    ∃ now later p, ws = now ++ later ∧ data = bytes now ++ p ∧ Begins later p ∧
      p ++ rest = bytes later := by
  induction ws generalizing data with
  | nil => exact ⟨[], [], data, rfl, rfl, .inl (List.append_eq_nil_iff.1 h).1, h⟩
  | cons w ws ih =>
    rw [bytes_cons] at h
    by_cases hlt : data.length < w.2.length
    · -- the first message is not whole
      refine ⟨[], w :: ws, data, rfl, rfl, .inr ⟨w, ws, rfl, ?_, hlt⟩, h⟩
      exact List.prefix_of_prefix_length_le ⟨rest, h⟩ ⟨bytes ws, rfl⟩ (Nat.le_of_lt hlt)
    · obtain ⟨more, rfl⟩ : w.2 <+: data :=
        List.prefix_of_prefix_length_le ⟨bytes ws, rfl⟩ ⟨rest, h⟩ (Nat.not_lt.1 hlt)
      rw [List.append_assoc] at h
      obtain ⟨now, later, p, rfl, rfl, hbegins, hrest⟩ := ih (List.append_cancel_left h)
      exact ⟨w :: now, later, p, rfl, by rw [bytes_cons, List.append_assoc], hbegins, hrest⟩

/-! ### Runs -/

section Runs

variable [DecidableEq B] {fit : R → Prop} {waits : Prop} {s s' : State M B}

/-- The messages are those that were reported and those whose bytes are under way. -/
structure Inv (c : Channel R M B J) (fit : R → Prop) (waits : Prop) (s : State M B) : Prop where
  alive : s.alive = true
  written : ∀ w ∈ s.sent, c.Written fit w
  kept : ¬waits → s.kept = []
  split : ∃ done todo, s.sent = done ++ todo ∧ s.reports = reported done ∧
    s.handled = (bytes done).length + s.kept.length ∧ Begins todo s.kept ∧
    s.kept ++ (s.fresh ++ s.wire) = bytes todo

omit [DecidableEq B] in
theorem Written.ne_nil {w : M × List B} (h : c.Written fit w) : w.2 ≠ [] := by
  obtain ⟨-, -, -, -, hne⟩ := h
  exact hne

omit [DecidableEq B] in
theorem Inv.agrees (h : Inv c fit waits s) : s.Agrees := by
  obtain ⟨done, todo, hsent, hreports, hhandled, hbegins, -⟩ := h.split
  have hne : ∀ w ∈ todo, w.2 ≠ [] := fun w hw =>
    (h.written w (hsent ▸ List.mem_append_right _ hw)).ne_nil
  rw [State.Agrees, hreports, hsent, hhandled, complete_append, hbegins.complete_eq hne,
    List.append_nil]

omit [DecidableEq B] in
theorem Inv.drained (h : Inv c fit waits s) (hwire : s.wire = []) (hfresh : s.fresh = []) :
    s.reports = reported s.sent := by
  obtain ⟨done, todo, hsent, hreports, -, hbegins, hbytes⟩ := h.split
  rw [hwire, hfresh, List.append_nil, List.append_nil] at hbytes
  suffices htodo : todo = [] by rw [hreports, hsent, htodo, List.append_nil]
  cases todo with
  | nil => rfl
  | cons w rest =>
    have hne := (h.written w (hsent ▸ List.mem_append_right _ List.mem_cons_self)).ne_nil
    have hpos := List.length_pos_iff.2 hne
    have hlength := congrArg List.length hbytes
    rw [bytes_cons, List.length_append] at hlength
    rcases hbegins with hnil | ⟨w', rest', heq, -, hlt⟩
    · rw [hnil, List.length_nil] at hlength
      omega
    · obtain ⟨rfl, -⟩ := List.cons.inj heq
      omega

theorem Inv.send (h : Inv c fit waits s) {request : R} (hfit : fit request)
    (hst : c.step s (.send request) = some s') : Inv c fit waits s' := by
  obtain ⟨data, hdata, hs'⟩ := Option.map_eq_some_iff.1 hst
  split_ifs at hs' with hnil
  · exact hs' ▸ h
  · obtain ⟨done, todo, hsent, hreports, hhandled, hbegins, hbytes⟩ := h.split
    subst hs'
    refine ⟨h.alive, fun w hw => ?_, h.kept, done, todo ++ [(c.message request, data)], ?_,
      hreports, hhandled, ?_, ?_⟩
    · rcases List.mem_append.1 hw with hw | hw
      · exact h.written w hw
      · obtain rfl := List.mem_singleton.1 hw
        exact ⟨request, hfit, rfl, hdata, hnil⟩
    · rw [← List.append_assoc, ← hsent]
    · rcases hbegins with hkept | ⟨w, rest, rfl, hprefix, hlt⟩
      · exact .inl hkept
      · exact .inr ⟨w, rest ++ [(c.message request, data)], rfl, hprefix, hlt⟩
    · rw [bytes_append, ← hbytes]
      simp

theorem Inv.arrive (h : Inv c fit waits s) {n : ℕ} (hst : c.step s (.arrive n) = some s') :
    Inv c fit waits s' := by
  obtain ⟨done, todo, hsent, hreports, hhandled, hbegins, hbytes⟩ := h.split
  obtain rfl := Option.some.inj hst
  refine ⟨h.alive, h.written, h.kept, done, todo, hsent, hreports, hhandled, hbegins, ?_⟩
  rw [List.append_assoc, List.take_append_drop, hbytes]

/-- The receiver is called on whole messages and perhaps the beginning of another. -/
theorem Inv.handle (hc : c.Conforms fit waits) (h : Inv c fit waits s) {junk : J}
    (hst : c.step s (.handle junk) = some s') :
    (waits ∨ s.Whole → Inv c fit waits s') ∧ (¬(waits ∨ s.Whole) → ¬s'.Agrees) := by
  obtain ⟨done, todo, hsent, hreports, hhandled, hbegins, hbytes⟩ := h.split
  have hne : ∀ w ∈ todo, w.2 ≠ [] := fun w hw =>
    (h.written w (hsent ▸ List.mem_append_right _ hw)).ne_nil
  have htodo : ∀ w ∈ todo, c.Written fit w := fun w hw =>
    h.written w (hsent ▸ List.mem_append_right _ hw)
  rw [← List.append_assoc] at hbytes
  obtain ⟨now, later, p, rfl, hdata, hnext, hrest⟩ := exists_begins hbytes
  have hlater : ∀ w ∈ later, w.2 ≠ [] := fun w hw => hne w (List.mem_append_right _ hw)
  -- what was given to the receiver so far
  have hgiven : s.handled + s.fresh.length = (bytes (done ++ now)).length + p.length := by
    have hlength := congrArg List.length hdata
    rw [List.length_append, List.length_append] at hlength
    rw [hhandled, bytes_append, List.length_append]
    omega
  have hwhole : s.Whole ↔ p = [] := by
    rw [State.Whole, hgiven, hsent, ← List.append_assoc, cut_append, hnext.cut_eq hlater,
      List.length_eq_zero_iff]
  simp only [step] at hst
  split_ifs at hst with hcalled
  obtain rfl := Option.some.inj hst
  rw [hwhole, hdata]
  constructor
  · intro hor
    have hreceive : c.receive junk (bytes now ++ p) = ⟨reported now, p, true⟩ := by
      rcases hor with hwaits | rfl
      · exact hc.waiting hwaits junk now later p htodo hnext
      · rw [List.append_nil]
        exact hc.whole junk now fun w hw => htodo w (List.mem_append_left _ hw)
    rw [hreceive]
    refine ⟨rfl, h.written, fun hnot => hor.resolve_left hnot, done ++ now, later, ?_, ?_, hgiven,
      hnext, hrest⟩
    · rw [hsent, List.append_assoc]
    · rw [hreports, reported_append]
  · intro hnot hagrees
    obtain ⟨hwaits, hp⟩ := not_or.1 hnot
    -- there is a report for the message that is not whole
    have hmore := hc.cut hwaits junk now later p htodo hnext hp
    have hlength := congrArg List.length hagrees
    simp only [hgiven, hsent, ← List.append_assoc, complete_append, hnext.complete_eq hlater,
      hreports, reported, List.append_nil, List.length_append, List.length_map] at hlength
    omega

theorem Conforms.inv (hc : c.Conforms fit waits) (hs : c.lts.ReachableVia (Admits fit waits) s) :
    Inv c fit waits s := by
  refine hs.invariant ?_ ?_
  · rintro _ rfl
    exact ⟨rfl, nofun, fun _ => rfl, [], [], rfl, rfl, rfl, .inl rfl, rfl⟩
  · rintro s (request | n | junk) s' h hadm hst
    · exact h.send hadm hst
    · exact h.arrive hst
    · exact (h.handle hc hst).1 hadm

theorem Conforms.agrees (hc : c.Conforms fit waits)
    (hs : c.lts.ReachableVia (Admits fit waits) s) : s.Agrees := (hc.inv hs).agrees

theorem Conforms.drained (hc : c.Conforms fit waits)
    (hs : c.lts.ReachableVia (Admits fit waits) s) (hwire : s.wire = []) (hfresh : s.fresh = []) :
    s.reports = reported s.sent := (hc.inv hs).drained hwire hfresh

/-- **A receiver that does not wait agrees exactly at the end of a message.** -/
theorem Conforms.agrees_iff (hc : c.Conforms fit waits)
    (hs : c.lts.ReachableVia (Admits fit waits) s) {junk : J}
    (hst : c.step s (.handle junk) = some s') : s'.Agrees ↔ waits ∨ s.Whole := by
  obtain ⟨hinv, hnot⟩ := (hc.inv hs).handle hc hst
  exact ⟨fun h => by_contra fun hor => hnot hor h, fun hor => (hinv hor).agrees⟩

/-- What is to be shown of a channel. -/
theorem Conforms.delivers (hc : c.Conforms fit waits)
    (hfit : ∀ request junk bytes, c.send request = some bytes → bytes ≠ [] →
      ((c.receive junk bytes).reports = [some (c.message request)] ↔ fit request)) :
    c.Delivers fit waits :=
  ⟨fun _ => hc.agrees, fun _ => hc.drained, fun _ hs _ _ => hc.agrees_iff hs, hfit⟩

end Runs

end Channel

end InputLeap
