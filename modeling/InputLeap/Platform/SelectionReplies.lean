import InputLeap.LTS.Basic
import InputLeap.Platform.XWindowsClipboard
import Mathlib.Data.List.TakeWhile
import Mathlib.Tactic.SplitIfs

/-!
# Selection replies in order

A client reads the value of a property and deletes it, which asks for the next piece of a long
transfer.  A piece that is set before that takes the place of one that the client has not read.

## Main definitions

* `Selections.lts` : the clipboard under requests, deletions and the destruction of windows.
* `Intact` : no value takes the place of one that waits, what is delivered is the data, and the
  requestors are notified in order.
* `Selections.Careful` : replies behind one that ends are over as well, and all data can be counted
  and consists of whole elements in pieces of the size that is sent.

* `XWindowsClipboard.Inv` : what holds between the handlers.
* `XWindowsClipboard.Outcome` : what a handler can do.

## Main results

* `Reply.sendReply_first`, `Reply.sendReply_next` : the values that a reply sets.
* `XWindowsClipboard.outcome_addRequest`, `outcome_processRequest`, `outcome_destroyRequest` : each
  handler has one of the outcomes.
-/

namespace InputLeap

namespace XLog

/-- The values that a reply has set, oldest first. -/
def valuesOf (id : ℕ) : XLog → List PropertyValue
  | [] => []
  | .wrote id' _ _ value :: log => if id' = id then valuesOf id log ++ [value] else valuesOf id log
  | _ :: log => valuesOf id log

/-- A value of the property has not been deleted. -/
def Present (requestor : Window) (property : Atom) : XLog → Bool
  | [] => false
  | .wrote _ w p _ :: log => (w = requestor ∧ p = property) || Present requestor property log
  | .cleared _ w p :: log => !(w = requestor ∧ p = property) && Present requestor property log
  | .deleted w p :: log => !(w = requestor ∧ p = property) && Present requestor property log
  | .destroyed w :: log => w ≠ requestor && Present requestor property log
  | _ :: log => Present requestor property log

/-- The requests of a window, newest first. -/
def requestsOf (requestor : Window) : XLog → List ℕ
  | [] => []
  | .requested id w _ _ :: log =>
    if w = requestor then id :: requestsOf requestor log else requestsOf requestor log
  | _ :: log => requestsOf requestor log

/-- The replies of which a window was notified, newest first. -/
def noticesOf (requestor : Window) : XLog → List ℕ
  | [] => []
  | .notified id w _ _ _ _ :: log =>
    if w = requestor then id :: noticesOf requestor log else noticesOf requestor log
  | _ :: log => noticesOf requestor log

/-- Every value is the first of its reply, or the one before it was deleted. -/
def Waits : XLog → Prop
  | [] => True
  | .wrote id w p _ :: log => (valuesOf id log = [] ∨ Present w p log = false) ∧ Waits log
  | _ :: log => Waits log

instance decidableWaits : DecidablePred Waits
  | [] => .isTrue trivial
  | .wrote id w p _ :: log =>
    have : Decidable (Waits log) := decidableWaits log
    inferInstanceAs (Decidable ((valuesOf id log = [] ∨ Present w p log = false) ∧ Waits log))
  | .requested .. :: log => decidableWaits log
  | .notified .. :: log => decidableWaits log
  | .cleared .. :: log => decidableWaits log
  | .selected .. :: log => decidableWaits log
  | .deleted .. :: log => decidableWaits log
  | .destroyed .. :: log => decidableWaits log

end XLog

open XLog

namespace Conversion

variable (c : Conversion) (d : XDisplay) (values : List PropertyValue)

/-- The data is announced and the pieces are some of it. -/
def Begun : Prop :=
  ∃ (size : Bytes) (pieces : List Bytes) (rest : Bytes),
    values = ⟨some d.atomINCR, size⟩ :: pieces.map (⟨some c.type, ·⟩) ∧
      [] ∉ pieces ∧ pieces.flatten ++ rest = c.data

/-- The data is delivered, as one value or as pieces with one empty value at the end. -/
def Whole : Prop :=
  values = [⟨some c.type, c.data⟩] ∨
    ∃ (size : Bytes) (pieces : List Bytes), values =
        ⟨some d.atomINCR, size⟩ :: (pieces ++ [[]]).map (⟨some c.type, ·⟩) ∧
      [] ∉ pieces ∧ pieces.flatten = c.data

/-- The data can be counted and consists of whole elements, also when it is cut. -/
def Countable : Prop :=
  c.data.length < 2 ^ 32 ∧ c.format.datumSize ∣ c.data.length ∧
    (d.maxRequestSize < c.data.length → c.format.datumSize ∣ d.maxRequestSize)

instance : Decidable (c.Countable d) := inferInstanceAs (Decidable (_ ∧ _))

end Conversion

namespace XWindowsClipboard

/-- The replies to the requestor from the one with the property on. -/
def repliesFrom (s : XWindowsClipboard) (requestor : Window) (property : Atom) : List Reply :=
  (s.replies.getD requestor []).dropWhile fun r => !(r.replied && r.property == some property)

end XWindowsClipboard

/-- The data that is asked for is delivered. -/
structure Intact (d : XDisplay) (log : XLog) : Prop where
  /-- No value takes the place of one that waits. -/
  waits : Waits log
  /-- The values are the data, or the beginning of it.  A request gets no value only if its window
  is gone. -/
  delivered : ∀ id w p c, .requested id w p (some c) ∈ log → 
    valuesOf id log = [] ∧ .destroyed w ∈ log ∨
      c.Begun d (valuesOf id log) ∨ c.Whole d (valuesOf id log)
  /-- A request that cannot be answered gets no value. -/
  refused : ∀ id w p, .requested id w p none ∈ log → valuesOf id log = []
  /-- When a requestor has deleted all values, the data is complete. -/
  completed : ∀ id w p c, .requested id w p (some c) ∈ log → .destroyed w ∉ log →
    Present w p log = false → c.Whole d (valuesOf id log)
  /-- Each request gets one notice, in their order. -/
  notified : ∀ w, .destroyed w ∉ log → noticesOf w log = requestsOf w log

namespace Selections

/-- What happens to the clipboard. -/
inductive Action
  | addRequest (env : SelectionEnv) (req : SelectionRequest)
  | processRequest (env : SelectionEnv) (requestor : Window) (property : Atom)
  | destroyRequest (requestor : Window)

variable (d : XDisplay)

/-- The clipboard under requests with properties that are not in use, notices that a property was
deleted and notices that a window was destroyed; the server sets all properties. -/
def step (s : XWindowsClipboard) : Action → Option XWindowsClipboard
  | .addRequest env req =>
    if Present req.requestor (req.property.getD req.target) s.log = false ∧ env.refused = [] then
      some (s.addRequest d env req)
    else none
  | .processRequest env requestor property =>
    if env.refused = [] then some (s.processRequest d env requestor property).2 else none
  | .destroyRequest requestor => some (s.destroyRequest requestor).2

/-- Runs from a clipboard that was not asked yet. -/
def lts : LTS XWindowsClipboard Action where
  init s := s.replies = ∅ ∧ s.eventMasks = ∅ ∧ s.made = 0 ∧ s.log = []
  step := step d

/-- The replies behind one that ends here are over as well, and all data is countable. -/
def Careful (s : XWindowsClipboard) : Action → Prop
  | .addRequest env _ => ∀ c ∈ env.conversion, c.Countable d
  | .processRequest _ requestor property =>
    ∀ r ∈ (s.repliesFrom requestor property).head?, r.done = true →
      ∀ r' ∈ s.repliesFrom requestor property, r'.done = true
  | .destroyRequest _ => True

instance (s : XWindowsClipboard) : ∀ a, Decidable (Careful d s a)
  | .addRequest env _ => inferInstanceAs (Decidable (∀ c ∈ env.conversion, c.Countable d))
  | .processRequest _ requestor property =>
    inferInstanceAs (Decidable (∀ r ∈ (s.repliesFrom requestor property).head?, r.done = true →
      ∀ r' ∈ s.repliesFrom requestor property, r'.done = true))
  | .destroyRequest _ => .isTrue trivial

end Selections

/-! ### The log without the masks -/

namespace Happening

/-- Whether the requestor or the data has a part in it. -/
def isExchange : Happening → Bool
  | .selected .. => false
  | _ => true

end Happening

namespace XLog

/-- The log without the event masks. -/
def exchanges (log : XLog) : XLog := log.filter Happening.isExchange

variable {log : XLog} {id : ℕ} {w : Window} {p : Atom}

theorem mem_exchanges {e : Happening} (he : e.isExchange = true) :
    e ∈ log.exchanges ↔ e ∈ log := by
  simp [exchanges, he]

theorem valuesOf_exchanges : valuesOf id log.exchanges = valuesOf id log := by
  induction log with
  | nil => rfl
  | cons e log ih =>
    rw [exchanges] at ih
    cases e <;> simp [exchanges, List.filter_cons, Happening.isExchange, valuesOf, ih]

theorem present_exchanges : Present w p log.exchanges = Present w p log := by
  induction log with
  | nil => rfl
  | cons e log ih =>
    rw [exchanges] at ih
    cases e <;> simp [exchanges, List.filter_cons, Happening.isExchange, Present, ih]

theorem requestsOf_exchanges : requestsOf w log.exchanges = requestsOf w log := by
  induction log with
  | nil => rfl
  | cons e log ih =>
    rw [exchanges] at ih
    cases e <;> simp [exchanges, List.filter_cons, Happening.isExchange, requestsOf, ih]

theorem noticesOf_exchanges : noticesOf w log.exchanges = noticesOf w log := by
  induction log with
  | nil => rfl
  | cons e log ih =>
    rw [exchanges] at ih
    cases e <;> simp [exchanges, List.filter_cons, Happening.isExchange, noticesOf, ih]

theorem waits_exchanges : Waits log.exchanges ↔ Waits log := by
  induction log with
  | nil => rfl
  | cons e log ih =>
    have hvalues : ∀ id, valuesOf id (List.filter Happening.isExchange log) = valuesOf id log :=
      fun id => valuesOf_exchanges
    have hpresent : ∀ w p, Present w p (List.filter Happening.isExchange log) =
        Present w p log := fun w p => present_exchanges
    rw [exchanges] at ih
    cases e <;>
      simp [exchanges, List.filter_cons, Happening.isExchange, Waits, ih, hvalues, hpresent]

end XLog

theorem Intact.of_exchanges {d : XDisplay} {log : XLog} (h : Intact d log.exchanges) :
    Intact d log where
  waits := waits_exchanges.1 h.waits
  delivered id w p c hreq := by
    have hall := h.delivered id w p c ((mem_exchanges rfl).2 hreq)
    rwa [valuesOf_exchanges, mem_exchanges rfl] at hall
  refused id w p hreq := by
    have hall := h.refused id w p ((mem_exchanges rfl).2 hreq)
    rwa [valuesOf_exchanges] at hall
  completed id w p c hreq hlives hpresent := by
    have hall := h.completed id w p c ((mem_exchanges rfl).2 hreq)
      (fun hd => hlives ((mem_exchanges rfl).1 hd)) (by rwa [present_exchanges])
    rwa [valuesOf_exchanges] at hall
  notified w hlives := by
    have hall := h.notified w (fun hd => hlives ((mem_exchanges rfl).1 hd))
    rwa [noticesOf_exchanges, requestsOf_exchanges] at hall

/-! ### Sending a reply -/

namespace Reply

variable {d : XDisplay} {r : Reply} {c : Conversion} {p : Atom} {selection : Atom} {log : XLog}

/-- The reply carries the data to the property. -/
structure Carries (r : Reply) (p : Atom) (c : Conversion) : Prop where
  property : r.property = some p
  data : r.data = c.data
  type : r.type = some c.type
  format : r.format = c.format

/-- How far a reply is that has set these values. -/
def Sent (d : XDisplay) (c : Conversion) (r : Reply) (values : List PropertyValue) : Prop :=
  r.done = true ∧ c.Whole d values ∨
    r.done = false ∧ d.maxRequestSize < c.data.length ∧ r.ptr ≤ c.data.length ∧
      c.format.datumSize ∣ r.ptr ∧ ∃ (size : Bytes) (pieces : List Bytes),
        values = ⟨some d.atomINCR, size⟩ :: pieces.map (⟨some c.type, ·⟩) ∧ [] ∉ pieces ∧
          pieces.flatten = c.data.take r.ptr

theorem Sent.begun_or_whole {values : List PropertyValue} (h : r.Sent d c values) :
    c.Begun d values ∨ c.Whole d values := by
  rcases h with ⟨-, hwhole⟩ | ⟨-, -, -, -, size, pieces, hvalues, hnil, hflatten⟩
  · exact .inr hwhole
  · refine .inl ⟨size, pieces, c.data.drop r.ptr, hvalues, hnil, ?_⟩
    rw [hflatten, List.take_append_drop]

theorem Sent.whole_of_done {values : List PropertyValue} (h : r.Sent d c values)
    (hdone : r.done = true) : c.Whole d values := by
  rcases h with ⟨-, hwhole⟩ | ⟨hnot, -⟩
  · exact hwhole
  · rw [hdone] at hnot
    cases hnot

theorem sendReply_of_done (hdone : r.done = true) :
    r.sendReply d [] selection log = (true, r, log) := by
  rw [sendReply, if_pos hdone]

/-- A request that cannot be answered is over when its requestor is notified. -/
theorem sendReply_failed (hdone : r.done = false) (hreplied : r.replied = false)
    (hp : r.property = none) : r.sendReply d [] selection log =
      (true, { r with done := true }, r.sendNotify selection none :: log) := by
  simp [sendReply, fail, hdone, hreplied, hp]

/-- The first value of a reply, and its notice. -/
theorem sendReply_first (selection : Atom) (log : XLog) (hc : r.Carries p c)
    (hcount : c.Countable d) (hdone : r.done = false) (hreplied : r.replied = false)
    (hptr : r.ptr = 0) :
    ∃ done ptr value, r.sendReply d [] selection log =
        (false, { r with replied := true, done := done, ptr := ptr },
          r.sendNotify selection (some p) :: .wrote r.id r.requestor p value :: log) ∧
      ({ r with replied := true, done := done, ptr := ptr } : Reply).Sent d c [value] := by
  obtain ⟨hlength, hwhole, -⟩ := hcount
  by_cases hbig : d.maxRequestSize < c.data.length
  · refine ⟨false, 0, ⟨some d.atomINCR, d.setWindowProperty (sizeBytes c.data.length) .bits32⟩,
      ?_, ?_⟩
    · simp [sendReply, notify, sendNotify, hc.property, hc.data, hdone, hreplied, hptr, hbig]
    · exact .inr ⟨rfl, hbig, Nat.zero_le _, Nat.dvd_zero _, _, [], rfl, List.not_mem_nil, rfl⟩
  · have hle : c.data.length ≤ d.maxRequestSize := Nat.le_of_not_lt hbig
    refine ⟨true, c.data.length, ⟨some c.type, c.data⟩, ?_, .inl ⟨rfl, .inl rfl⟩⟩
    have hset : d.setWindowProperty c.data c.format = c.data :=
      XDisplay.setWindowProperty_of_dvd hle hwhole
    simp only [Nat.reducePow] at hlength
    simp [sendReply, notify, sendNotify, hc.property, hc.data, hc.type, hc.format, hdone,
      hreplied, hptr, hbig, hset, Nat.mod_eq_of_lt hlength, Nat.min_eq_left hle]

/-- The next piece of a long transfer. -/
theorem sendReply_next {values : List PropertyValue} (selection : Atom) (log : XLog)
    (hc : r.Carries p c)
    (hcount : c.Countable d) (hreplied : r.replied = true) (hdone : r.done = false)
    (hsent : r.Sent d c values) :
    ∃ done ptr value, r.sendReply d [] selection log =
        (false, { r with done := done, ptr := ptr }, .wrote r.id r.requestor p value :: log) ∧
      ({ r with done := done, ptr := ptr } : Reply).Sent d c (values ++ [value]) := by
  rcases hsent with ⟨hnot, -⟩ | ⟨-, hbig, hptr, hdvd, size, pieces, hvalues, hnil, hflatten⟩
  · rw [hdone] at hnot
    cases hnot
  obtain ⟨hlength, hwhole, hpieces⟩ := hcount
  have hmod : (c.data.length - r.ptr) % 2 ^ 32 = c.data.length - r.ptr :=
    Nat.mod_eq_of_lt (by omega)
  obtain ⟨n, hn⟩ : ∃ n, n = min (c.data.length - r.ptr) d.maxRequestSize := ⟨_, rfl⟩
  have hmod' : (r.ptr + n) % 2 ^ 32 = r.ptr + n := Nat.mod_eq_of_lt (by omega)
  obtain ⟨piece, hpiece⟩ : ∃ piece, piece = (c.data.drop r.ptr).take n := ⟨_, rfl⟩
  have hpiecelength : piece.length = n := by
    rw [hpiece, List.length_take, List.length_drop]
    omega
  have hndvd : c.format.datumSize ∣ n := by
    rcases Nat.le_total (c.data.length - r.ptr) d.maxRequestSize with h | h
    · rw [hn, Nat.min_eq_left h]
      exact Nat.dvd_sub hwhole hdvd
    · rw [hn, Nat.min_eq_right h]
      exact hpieces hbig
  have hset : d.setWindowProperty piece c.format = piece :=
    XDisplay.setWindowProperty_of_dvd (by omega) (by rwa [hpiecelength])
  refine ⟨decide (n = 0), r.ptr + n, ⟨some c.type, piece⟩, ?_, ?_⟩
  · simp only [Nat.reducePow] at hmod hmod'
    simp [sendReply, notify, hc.property, hc.data, hc.type, hc.format, hdone, hreplied, hbig,
      hmod, hmod', ← hn, ← hpiece, hset]
  · have hall : (pieces ++ [piece]).flatten = c.data.take (r.ptr + n) := by
      rw [List.flatten_append, List.flatten_singleton, hflatten, hpiece, List.take_add]
    by_cases hzero : n = 0
    · have hpos := XDisplay.maxRequestSize_pos (d := d)
      have hend : r.ptr = c.data.length := by omega
      have hempty : piece = [] := List.eq_nil_of_length_eq_zero (hpiecelength.trans hzero)
      refine .inl ⟨decide_eq_true hzero, .inr ⟨size, pieces, ?_, hnil, ?_⟩⟩
      · rw [hvalues, hempty, List.map_append]
        rfl
      · rw [hflatten, hend, List.take_length]
    · have hend : r.ptr + n ≤ c.data.length := by omega
      refine .inr ⟨decide_eq_false hzero, hbig, hend, Nat.dvd_add hdvd hndvd, size,
        pieces ++ [piece], ?_, ?_, hall⟩
      · rw [hvalues, List.map_append]
        rfl
      · rw [List.mem_append, List.mem_singleton]
        rintro (hmem | hempty)
        · exact hnil hmem
        · rw [← hempty] at hpiecelength
          exact hzero hpiecelength.symm

end Reply

/-! ### The replies of one requestor -/

namespace XWindowsClipboard

variable {d : XDisplay} {s : XWindowsClipboard} {env : SelectionEnv} {r : Reply} {w k : Window}

/-- The replies to the requestor that are not over. -/
def repliesTo (s : XWindowsClipboard) (w : Window) : List Reply := s.replies.getD w []

theorem repliesTo_of_getElem? {list : List Reply} (h : s.replies[w]? = some list) :
    s.repliesTo w = list := by
  rw [repliesTo, Std.TreeMap.getD_eq_getD_getElem?, h, Option.getD_some]

theorem repliesTo_of_getElem?_none (h : s.replies[w]? = none) : s.repliesTo w = [] := by
  rw [repliesTo, Std.TreeMap.getD_eq_getD_getElem?, h, Option.getD_none]

theorem getD_insert_nat {t : Std.TreeMap Window (List Reply)} {list : List Reply} :
    (t.insert w list).getD k [] = if k = w then list else t.getD k [] := by
  rw [Std.TreeMap.getD_insert]
  by_cases h : k = w
  · rw [if_pos h, if_pos (by rw [h, Std.LawfulEqCmp.compare_eq_iff_eq])]
  · rw [if_neg h, if_neg (by rw [Std.LawfulEqCmp.compare_eq_iff_eq]; exact fun hk => h hk.symm)]

theorem getD_erase_nat {t : Std.TreeMap Window (List Reply)} :
    (t.erase w).getD k [] = if k = w then [] else t.getD k [] := by
  rw [Std.TreeMap.getD_erase]
  by_cases h : k = w
  · rw [if_pos h, if_pos (by rw [h, Std.LawfulEqCmp.compare_eq_iff_eq])]
  · rw [if_neg h, if_neg (by rw [Std.LawfulEqCmp.compare_eq_iff_eq]; exact fun hk => h hk.symm)]

theorem pushRepliesFrom_repliesTo {front rest : List Reply} :
    (s.pushRepliesFrom d env w front rest).repliesTo k =
      if k = w then front ++ (s.sendReplies d env rest s.log).1 else s.repliesTo k := by
  unfold pushRepliesFrom
  by_cases hempty : front ++ (s.sendReplies d env rest s.log).1 = []
  · simp only [hempty, if_pos]
    exact getD_erase_nat
  · simp only [hempty, if_false]
    exact getD_insert_nat

theorem pushRepliesFrom_exchanges {front rest : List Reply} :
    (s.pushRepliesFrom d env w front rest).log.exchanges =
      (s.sendReplies d env rest s.log).2.exchanges := by
  unfold pushRepliesFrom
  by_cases hempty : front ++ (s.sendReplies d env rest s.log).1 = []
  · simp only [hempty, if_pos]
    rfl
  · simp only [hempty, if_false]

theorem pushRepliesFrom_made {front rest : List Reply} :
    (s.pushRepliesFrom d env w front rest).made = s.made := by
  unfold pushRepliesFrom
  by_cases hempty : front ++ (s.sendReplies d env rest s.log).1 = []
  · simp only [hempty, if_pos]
  · simp only [hempty, if_false]

/-- The requestor was notified of all its replies. -/
def Settled (s : XWindowsClipboard) (w : Window) : Prop :=
  ∀ r ∈ s.repliesTo w, r.replied = true

theorem pushRequestor_of_settled (h : s.Settled w) : s.pushRequestor d env w = s := by
  have hdrop : (s.replies.getD w []).dropWhile (·.replied) = [] :=
    List.dropWhile_eq_nil_iff.2 h
  simp only [pushRequestor, hdrop]

theorem pushRequestor_repliesTo_of_ne (hk : k ≠ w) :
    (s.pushRequestor d env w).repliesTo k = s.repliesTo k := by
  cases hdrop : (s.replies.getD w []).dropWhile (·.replied) with
  | nil => simp only [pushRequestor, hdrop]
  | cons r rest => simp only [pushRequestor, hdrop, pushRepliesFrom_repliesTo, if_neg hk]

theorem foldl_pushRequestor_of_settled {ws : List Window} (h : ∀ w ∈ ws, s.Settled w) :
    ws.foldl (fun s w => s.pushRequestor d env w) s = s := by
  induction ws with
  | nil => rfl
  | cons w ws ih =>
    obtain ⟨hw, hws⟩ := List.forall_mem_cons.1 h
    rw [List.foldl_cons, pushRequestor_of_settled hw, ih hws]

/-- If a single requestor has replies that were not sent, they are all that is sent. -/
theorem pushReplies_eq (hsettled : ∀ k, k ≠ w → s.Settled k)
    (hdone : (s.pushRequestor d env w).Settled w) :
    s.pushReplies d env = s.pushRequestor d env w := by
  rw [pushReplies]
  by_cases hmem : w ∈ s.replies.keys
  · obtain ⟨before, after, hkeys, hbefore⟩ := List.eq_append_cons_of_mem hmem
    have hfirst : ∀ k ∈ before, s.Settled k := by
      intro k hk
      refine hsettled k ?_
      rintro rfl
      exact hbefore hk
    have hlast : ∀ k ∈ after, (s.pushRequestor d env w).Settled k := by
      intro k _
      by_cases hk : k = w
      · rwa [hk]
      · rw [Settled, pushRequestor_repliesTo_of_ne hk]
        exact hsettled k hk
    rw [hkeys, List.foldl_append, List.foldl_cons, foldl_pushRequestor_of_settled hfirst,
      foldl_pushRequestor_of_settled hlast]
  · have hnone : s.replies[w]? = none := by
      rw [Std.TreeMap.mem_keys] at hmem
      exact Std.TreeMap.getElem?_eq_none hmem
    have hw : s.Settled w := by
      rw [Settled, repliesTo_of_getElem?_none hnone]
      exact fun r hr => absurd hr List.not_mem_nil
    have hall : ∀ k ∈ s.replies.keys, s.Settled k := by
      intro k _
      by_cases hk : k = w
      · rwa [hk]
      · exact hsettled k hk
    rw [pushRequestor_of_settled hw, foldl_pushRequestor_of_settled hall]

/-- The replies of a requestor when one more is sent. -/
theorem pushRequestor_append {old : List Reply} (hw : s.repliesTo w = old ++ [r])
    (hold : ∀ r ∈ old, r.replied = true) (hr : r.replied = false) :
    s.pushRequestor d env w = s.pushRepliesFrom d env w old [r] := by
  have hdrop : (s.replies.getD w []).dropWhile (·.replied) = [r] := by
    rw [← repliesTo, hw, List.dropWhile_append_of_pos hold]
    simp [hr]
  have htake : (s.replies.getD w []).takeWhile (·.replied) = old := by
    rw [← repliesTo, hw, List.takeWhile_append_of_pos hold]
    simp [hr]
  simp only [pushRequestor, hdrop, htake]

/-- The requestor can be watched, or is watched already. -/
theorem insertReply_spec (h : s.replies.contains r.requestor = true ∨ env.error = false) :
    (∀ k, (s.insertReply env r).repliesTo k =
      if k = r.requestor then s.repliesTo k ++ [r] else s.repliesTo k) ∧
      (s.insertReply env r).log.exchanges = s.log.exchanges ∧
      (s.insertReply env r).made = s.made + 1 ∧
      (s.insertReply env r).selection = s.selection := by
  have hget : ∀ k, (s.replies.insert r.requestor
      (s.replies.getD r.requestor [] ++ [r])).getD k [] =
        if k = r.requestor then s.repliesTo k ++ [r] else s.repliesTo k := by
    intro k
    rw [getD_insert_nat]
    by_cases hk : k = r.requestor
    · rw [if_pos hk, if_pos hk, hk, repliesTo]
    · rw [if_neg hk, if_neg hk, repliesTo]
  by_cases hnew : s.replies.contains r.requestor = true
  · simp only [insertReply, hnew]
    exact ⟨hget, rfl, rfl, rfl⟩
  · have herror : env.error = false := h.resolve_left hnew
    simp only [insertReply, hnew, herror]
    exact ⟨hget, rfl, rfl, rfl⟩

/-- The requestor does not exist any more. -/
theorem insertReply_gone (hnew : s.replies.contains r.requestor = false)
    (herror : env.error = true) :
    (∀ k, (s.insertReply env r).repliesTo k = s.repliesTo k) ∧
      (s.insertReply env r).log.exchanges = .destroyed r.requestor :: s.log.exchanges ∧
      (s.insertReply env r).made = s.made + 1 := by
  have hget : ∀ k, ((s.replies.insert r.requestor
      (s.replies.getD r.requestor [] ++ [r])).erase r.requestor).getD k [] = s.repliesTo k := by
    intro k
    rw [getD_erase_nat, getD_insert_nat]
    by_cases hk : k = r.requestor
    · have hnone : s.replies[r.requestor]? = none :=
        Std.TreeMap.getElem?_eq_none_of_contains_eq_false hnew
      rw [if_pos hk, hk, repliesTo_of_getElem?_none hnone]
    · rw [if_neg hk, if_neg hk, repliesTo]
  simp only [insertReply, hnew, herror]
  exact ⟨hget, rfl, rfl⟩

theorem pushReplies_of_settled (h : ∀ k, s.Settled k) : s.pushReplies d env = s :=
  foldl_pushRequestor_of_settled fun k _ => h k

/-- A new reply is sent at once. -/
theorem pushReplies_append {old : List Reply} (hw : s.repliesTo w = old ++ [r])
    (hold : ∀ r ∈ old, r.replied = true) (hr : r.replied = false)
    (hsettled : ∀ k, k ≠ w → s.Settled k)
    (hsent : ∀ r' ∈ (s.sendReplies d env [r] s.log).1, r'.replied = true) :
    s.pushReplies d env = s.pushRepliesFrom d env w old [r] := by
  have hpush : s.pushRequestor d env w = s.pushRepliesFrom d env w old [r] :=
    pushRequestor_append hw hold hr
  rw [← hpush]
  refine pushReplies_eq hsettled ?_
  intro r' hr'
  rw [hpush, pushRepliesFrom_repliesTo, if_pos rfl, List.mem_append] at hr'
  exact hr'.elim (hold r') (hsent r')

/-- The reply to a request. -/
def replyTo (s : XWindowsClipboard) (env : SelectionEnv) (req : SelectionRequest) : Reply :=
  match s.conversionFor env req with
  | some c =>
    { s.failedReply req with
      property := some (req.property.getD req.target), data := c.data, type := some c.type
      format := c.format }
  | none => s.failedReply req

/-- The request is noted. -/
def note (s : XWindowsClipboard) (env : SelectionEnv) (req : SelectionRequest) :
    XWindowsClipboard :=
  { s with
    log := .requested s.made req.requestor (req.property.getD req.target)
      (s.conversionFor env req) :: s.log }

theorem addRequest_eq (req : SelectionRequest) : s.addRequest d env req =
    ((s.note env req).insertReply env (s.replyTo env req)).pushReplies d env := by
  by_cases hsuccess : req.owner = s.window ∧ env.ownedAtTime = true
  · cases hc : env.conversion with
    | none =>
      simp only [addRequest, replyTo, conversionFor, if_pos hsuccess, addSimpleRequest, hc, note]
      rfl
    | some c =>
      simp only [addRequest, replyTo, conversionFor, if_pos hsuccess, addSimpleRequest, hc, note]
      rfl
  · simp only [addRequest, replyTo, conversionFor, if_neg hsuccess, note]
    rfl

/-- The reply with its request and its values. -/
structure Awaits (d : XDisplay) (log : XLog) (w : Window) (p : Atom) (c : Conversion)
    (r : Reply) : Prop where
  requestor : r.requestor = w
  replied : r.replied = true
  carries : r.Carries p c
  countable : c.Countable d
  asked : .requested r.id w p (some c) ∈ log
  present : Present w p log = true
  sent : r.Sent d c (valuesOf r.id log)

/-- What holds between the handlers. -/
structure Inv (d : XDisplay) (s : XWindowsClipboard) (log : XLog) : Prop where
  waits : Waits log
  fresh : ∀ id w p c, .requested id w p c ∈ log → id < s.made
  unanswered : ∀ id, s.made ≤ id → valuesOf id log = []
  unique : ∀ id w p c w' p' c', .requested id w p c ∈ log → .requested id w' p' c' ∈ log →
    w = w' ∧ p = p' ∧ c = c'
  distinct : ∀ w, (s.repliesTo w).Pairwise fun r r' => r.property ≠ r'.property
  awaits : ∀ w, ∀ r ∈ s.repliesTo w, ∃ p c, Awaits d log w p c r
  delivered : ∀ id w p c, .requested id w p (some c) ∈ log →
    valuesOf id log = [] ∧ .destroyed w ∈ log ∨
      c.Begun d (valuesOf id log) ∨ c.Whole d (valuesOf id log)
  refused : ∀ id w p, .requested id w p none ∈ log → valuesOf id log = []
  finishes : ∀ id w p c, .requested id w p (some c) ∈ log → .destroyed w ∉ log →
    c.Whole d (valuesOf id log) ∨ ∃ r ∈ s.repliesTo w, r.id = id
  notified : ∀ w, .destroyed w ∉ log → noticesOf w log = requestsOf w log

/-- What a handler can do. -/
inductive Outcome (d : XDisplay) (s s' : XWindowsClipboard) : Prop
  /-- The request is answered. -/
  | answered {w : Window} {p : Atom} {c : Conversion} {r : Reply} {value : PropertyValue}
      {selection target : Atom} {time : ℕ}
      (hmade : s'.made = s.made + 1) (hid : r.id = s.made) (hw : r.requestor = w)
      (hreplied : r.replied = true) (hc : r.Carries p c) (hcount : c.Countable d)
      (hfree : Present w p s.log.exchanges = false) (hsent : r.Sent d c [value])
      (hlog : s'.log.exchanges = .notified s.made w selection target (some p) time ::
        .wrote s.made w p value :: .requested s.made w p (some c) :: s.log.exchanges)
      (hreplies : ∀ k, s'.repliesTo k =
        if k = w then s.repliesTo k ++ [r] else s.repliesTo k)
  /-- The request cannot be answered. -/
  | refused {w : Window} {p selection target : Atom} {time : ℕ} (hmade : s'.made = s.made + 1)
      (hlog : s'.log.exchanges = .notified s.made w selection target none time ::
        .requested s.made w p none :: s.log.exchanges)
      (hreplies : ∀ k, s'.repliesTo k = s.repliesTo k)
  /-- The requestor of the request is gone. -/
  | gone {w : Window} {p : Atom} {c : Option Conversion} (hmade : s'.made = s.made + 1)
      (hlog : s'.log.exchanges =
        .destroyed w :: .requested s.made w p c :: s.log.exchanges)
      (hreplies : ∀ k, s'.repliesTo k = s.repliesTo k) (hnone : s.repliesTo w = [])
  /-- No reply has the property that was deleted. -/
  | unknown {w : Window} {p : Atom} (hmade : s'.made = s.made)
      (hlog : s'.log.exchanges = .deleted w p :: s.log.exchanges)
      (hreplies : ∀ k, s'.repliesTo k = s.repliesTo k)
      (hother : ∀ r ∈ s.repliesTo w, r.property ≠ some p)
  /-- The value that was deleted is the last one. -/
  | finished {w : Window} {p : Atom} {front rest : List Reply} {r : Reply}
      (hmade : s'.made = s.made) (hlog : s'.log.exchanges = .deleted w p :: s.log.exchanges)
      (hsplit : s.repliesTo w = front ++ r :: rest) (hp : r.property = some p)
      (hdone : ∀ r' ∈ r :: rest, r'.done = true)
      (hreplies : ∀ k, s'.repliesTo k = if k = w then front else s.repliesTo k)
  /-- The next value is set. -/
  | next {w : Window} {p : Atom} {c : Conversion} {front rest : List Reply} {r : Reply}
      {done : Bool} {ptr : ℕ} {value : PropertyValue} (hmade : s'.made = s.made)
      (hlog : s'.log.exchanges =
        .wrote r.id w p value :: .deleted w p :: s.log.exchanges)
      (hsplit : s.repliesTo w = front ++ r :: rest) (hawaits : Awaits d s.log.exchanges w p c r)
      (hsent : ({ r with done := done, ptr := ptr } : Reply).Sent d c
        (valuesOf r.id s.log.exchanges ++ [value]))
      (hreplies : ∀ k, s'.repliesTo k =
        if k = w then front ++ { r with done := done, ptr := ptr } :: rest else s.repliesTo k)
  /-- A requestor is destroyed. -/
  | destroyed {w : Window} (hmade : s'.made = s.made)
      (hlog : s'.log.exchanges = .destroyed w :: s.log.exchanges)
      (hreplies : ∀ k, s'.repliesTo k = if k = w then [] else s.repliesTo k)

theorem Inv.settled (h : Inv d s s.log.exchanges) (k : Window) : s.Settled k := by
  intro r hr
  obtain ⟨p, c, hawaits⟩ := h.awaits k r hr
  exact hawaits.replied

theorem sendReplies_cons_wait {r' : Reply} {rest : List Reply} {log log' : XLog}
    (h : r.sendReply d env.refused s.selection log = (false, r', log')) :
    s.sendReplies d env (r :: rest) log = (r' :: rest, log') := by
  rw [sendReplies, h]

theorem sendReplies_cons_over {r' : Reply} {rest : List Reply} {log log' : XLog}
    (h : r.sendReply d env.refused s.selection log = (true, r', log')) :
    s.sendReplies d env (r :: rest) log = s.sendReplies d env rest log' := by
  rw [sendReplies, h]

theorem sendReplies_of_done {rest : List Reply} (hset : env.refused = [])
    (h : ∀ r ∈ rest, r.done = true) (log : XLog) :
    s.sendReplies d env rest log = ([], log) := by
  induction rest with
  | nil => rfl
  | cons r rest ih =>
    obtain ⟨hr, hrest⟩ := List.forall_mem_cons.1 h
    have hsend : r.sendReply d env.refused s.selection log = (true, r, log) := by
      rw [hset, Reply.sendReply_of_done hr]
    rw [sendReplies_cons_over hsend, ih hrest]

/-- A request for data. -/
theorem outcome_answered {req : SelectionRequest} {c : Conversion}
    (h : Inv d s s.log.exchanges) (hc : s.conversionFor env req = some c)
    (hcount : c.Countable d) (hset : env.refused = [])
    (hfree : Present req.requestor (req.property.getD req.target) s.log = false)
    (hwatch : s.replies.contains req.requestor = true ∨ env.error = false) :
    Outcome d s (s.addRequest d env req) := by
  obtain ⟨r, hr⟩ : ∃ r, r = s.replyTo env req := ⟨_, rfl⟩
  have hreply : r = { s.failedReply req with
      property := some (req.property.getD req.target), data := c.data, type := some c.type
      format := c.format } := by
    rw [hr]
    simp only [replyTo, hc]
  have hw : r.requestor = req.requestor := by
    rw [hreply]
    rfl
  have hid : r.id = s.made := by
    rw [hreply]
    rfl
  have hreplied : r.replied = false := by
    rw [hreply]
    rfl
  have hcarries : r.Carries (req.property.getD req.target) c := by
    rw [hreply]
    exact ⟨rfl, rfl, rfl, rfl⟩
  have hwatched : (s.note env req).replies.contains r.requestor = true ∨ env.error = false := by
    rwa [hw]
  obtain ⟨hto, hlog, hmade, -⟩ := insertReply_spec hwatched
  obtain ⟨t, ht⟩ : ∃ t, t = (s.note env req).insertReply env r := ⟨_, rfl⟩
  rw [← ht] at hto hlog hmade
  obtain ⟨done, ptr, value, hsend, hsent⟩ := Reply.sendReply_first t.selection
    t.log hcarries hcount (by rw [hreply]; rfl) hreplied (by rw [hreply]; rfl)
  have hsends : t.sendReplies d env [r] t.log = _ :=
    sendReplies_cons_wait (by rw [hset]; exact hsend)
  have hold : t.repliesTo req.requestor = s.repliesTo req.requestor ++ [r] := by
    rw [hto, if_pos hw.symm]
    rfl
  have hpush : s.addRequest d env req =
      t.pushRepliesFrom d env req.requestor (s.repliesTo req.requestor) [r] := by
    rw [addRequest_eq, ← hr, ← ht]
    refine pushReplies_append hold (h.settled _) hreplied ?_ ?_
    · intro k hk
      rw [Settled, hto, if_neg (by rwa [hw])]
      exact h.settled k
    · rw [hsends]
      intro r' hr'
      rw [List.mem_singleton.1 hr']
  have hlogged : (s.addRequest d env req).log.exchanges =
      .notified s.made req.requestor t.selection r.target (some (req.property.getD req.target))
          r.time ::
        .wrote s.made req.requestor (req.property.getD req.target) value ::
        .requested s.made req.requestor (req.property.getD req.target) (some c) ::
        s.log.exchanges := by
    have hnoted : (s.note env req).log.exchanges = .requested s.made req.requestor
        (req.property.getD req.target) (some c) :: s.log.exchanges := by
      rw [← hc]
      rfl
    rw [hpush, pushRepliesFrom_exchanges, hsends, ← hnoted, ← hlog, ← hid, ← hw]
    rfl
  refine .answered (r := { r with replied := true, done := done, ptr := ptr })
    ?_ hid hw rfl ⟨hcarries.1, hcarries.2, hcarries.3, hcarries.4⟩ hcount
    (by rwa [present_exchanges]) hsent hlogged ?_
  · rw [hpush, pushRepliesFrom_made, hmade]
    rfl
  · intro k
    rw [hpush, pushRepliesFrom_repliesTo, hsends]
    by_cases hk : k = req.requestor
    · rw [if_pos hk, if_pos hk, hk]
    · rw [if_neg hk, if_neg hk, hto, if_neg (by rwa [hw])]
      rfl

/-- A request that cannot be answered. -/
theorem outcome_refused {req : SelectionRequest} (h : Inv d s s.log.exchanges)
    (hc : s.conversionFor env req = none) (hset : env.refused = [])
    (hwatch : s.replies.contains req.requestor = true ∨ env.error = false) :
    Outcome d s (s.addRequest d env req) := by
  have hreply : s.replyTo env req = s.failedReply req := by
    simp only [replyTo, hc]
  have hwatched : (s.note env req).replies.contains (s.failedReply req).requestor = true ∨
      env.error = false := hwatch
  obtain ⟨hto, hlog, hmade, -⟩ := insertReply_spec hwatched
  obtain ⟨t, ht⟩ : ∃ t, t = (s.note env req).insertReply env (s.failedReply req) := ⟨_, rfl⟩
  rw [← ht] at hto hlog hmade
  have hsends : t.sendReplies d env [s.failedReply req] t.log =
      ([], (s.failedReply req).sendNotify t.selection none :: t.log) := by
    rw [sendReplies_cons_over (by rw [hset]; exact Reply.sendReply_failed rfl rfl rfl)]
    rfl
  have hold : t.repliesTo req.requestor = s.repliesTo req.requestor ++ [s.failedReply req] :=
    (hto req.requestor).trans (if_pos rfl)
  have hpush : s.addRequest d env req =
      t.pushRepliesFrom d env req.requestor (s.repliesTo req.requestor) [s.failedReply req] := by
    rw [addRequest_eq, hreply, ← ht]
    refine pushReplies_append hold (h.settled _) rfl ?_ ?_
    · intro k hk
      have hk' : t.repliesTo k = s.repliesTo k := (hto k).trans (if_neg hk)
      rw [Settled, hk']
      exact h.settled k
    · rw [hsends]
      exact fun r hr => absurd hr List.not_mem_nil
  have hlogged : (s.addRequest d env req).log.exchanges =
      .notified s.made req.requestor t.selection req.target none req.time ::
        .requested s.made req.requestor (req.property.getD req.target) none ::
        s.log.exchanges := by
    have hnoted : (s.note env req).log.exchanges = .requested s.made req.requestor
        (req.property.getD req.target) none :: s.log.exchanges := by
      rw [← hc]
      rfl
    rw [hpush, pushRepliesFrom_exchanges, hsends, ← hnoted, ← hlog]
    rfl
  refine .refused ?_ hlogged ?_
  · rw [hpush, pushRepliesFrom_made, hmade]
    rfl
  · intro k
    rw [hpush, pushRepliesFrom_repliesTo, hsends]
    by_cases hk : k = req.requestor
    · rw [if_pos hk, hk, List.append_nil]
    · rw [if_neg hk]
      exact (hto k).trans (if_neg hk)

/-- A request from a window that is gone. -/
theorem outcome_gone {req : SelectionRequest} (h : Inv d s s.log.exchanges)
    (hnew : s.replies.contains req.requestor = false) (herror : env.error = true) :
    Outcome d s (s.addRequest d env req) := by
  have hw : (s.replyTo env req).requestor = req.requestor := by
    cases hc : s.conversionFor env req <;> simp only [replyTo, hc] <;> rfl
  have hnew' : (s.note env req).replies.contains (s.replyTo env req).requestor = false := by
    rwa [hw]
  obtain ⟨hto, hlog, hmade⟩ := insertReply_gone hnew' herror
  have hsame : ∀ k, ((s.note env req).insertReply env (s.replyTo env req)).repliesTo k =
      s.repliesTo k := hto
  have hpush : s.addRequest d env req =
      (s.note env req).insertReply env (s.replyTo env req) := by
    rw [addRequest_eq]
    refine pushReplies_of_settled ?_
    intro k
    rw [Settled, hsame]
    exact h.settled k
  rw [hw] at hlog
  refine .gone ?_ ?_ ?_ ?_ (w := req.requestor) (p := req.property.getD req.target)
    (c := s.conversionFor env req)
  · rw [hpush, hmade]
    rfl
  · rw [hpush, hlog]
    rfl
  · rw [hpush]
    exact hsame
  · exact repliesTo_of_getElem?_none (Std.TreeMap.getElem?_eq_none_of_contains_eq_false hnew)

/-- A request that the clipboard gets. -/
theorem outcome_addRequest {req : SelectionRequest} (h : Inv d s s.log.exchanges)
    (hcount : ∀ c ∈ env.conversion, c.Countable d) (hset : env.refused = [])
    (hfree : Present req.requestor (req.property.getD req.target) s.log = false) :
    Outcome d s (s.addRequest d env req) := by
  by_cases hwatch : s.replies.contains req.requestor = true ∨ env.error = false
  · cases hc : s.conversionFor env req with
    | none => exact outcome_refused h hc hset hwatch
    | some c =>
      refine outcome_answered h hc (hcount c ?_) hset hfree hwatch
      by_cases hsuccess : req.owner = s.window ∧ env.ownedAtTime = true
      · rwa [conversionFor, if_pos hsuccess] at hc
      · rw [conversionFor, if_neg hsuccess] at hc
        cases hc
  · obtain ⟨hnew, herror⟩ := not_or.1 hwatch
    exact outcome_gone h (Bool.eq_false_iff.2 hnew) (by simpa using herror)

/-- The notice that a property was deleted. -/
theorem outcome_processRequest {p : Atom} (h : Inv d s s.log.exchanges)
    (hset : env.refused = [])
    (hcareful : ∀ r ∈ (s.repliesFrom w p).head?, r.done = true →
      ∀ r' ∈ s.repliesFrom w p, r'.done = true) :
    Outcome d s (s.processRequest d env w p).2 := by
  obtain ⟨noted, hnoted⟩ : ∃ noted : XWindowsClipboard,
      noted = { s with log := .deleted w p :: s.log } := ⟨_, rfl⟩
  have hlog : noted.log.exchanges = .deleted w p :: s.log.exchanges := by
    rw [hnoted]
    rfl
  have hmade : noted.made = s.made := by rw [hnoted]
  have hto : ∀ k, noted.repliesTo k = s.repliesTo k := by
    intro k
    rw [hnoted]
    rfl
  cases hget : s.replies[w]? with
  | none =>
    have hresult : (s.processRequest d env w p).2 = noted := by
      simp only [processRequest, hget, hnoted]
    rw [hresult]
    refine .unknown hmade hlog hto ?_
    rw [repliesTo_of_getElem?_none hget]
    exact fun r hr => absurd hr List.not_mem_nil
  | some list =>
    have hlist : s.repliesTo w = list := repliesTo_of_getElem? hget
    obtain ⟨other, hother⟩ : ∃ other : Reply → Bool,
        other = fun r => !(r.replied && r.property == some p) := ⟨_, rfl⟩
    have hsplit : list = list.takeWhile other ++ list.dropWhile other :=
      List.takeWhile_append_dropWhile.symm
    cases hdrop : list.dropWhile other with
    | nil =>
      have hresult : (s.processRequest d env w p).2 = noted := by
        rw [hother] at hdrop
        simp only [processRequest, hget, hdrop, hnoted]
      rw [hresult]
      refine .unknown hmade hlog hto ?_
      intro r hr hp
      have hr' := List.dropWhile_eq_nil_iff.1 hdrop r (by rwa [← hlist])
      rw [hother] at hr'
      simp [h.settled w r hr, hp] at hr'
    | cons r rest =>
      obtain ⟨front, hfront⟩ : ∃ front, front = list.takeWhile other := ⟨_, rfl⟩
      have hresult : (s.processRequest d env w p).2 =
          noted.pushRepliesFrom d env w front (r :: rest) := by
        rw [hother] at hdrop hfront
        simp only [processRequest, hget, hdrop, hnoted, hfront]
      rw [← hfront, hdrop] at hsplit
      have hp : r.property = some p := by
        have hhead := List.head?_dropWhile_not other list
        rw [hdrop] at hhead
        simp only [List.head?_cons, hother, Bool.not_eq_false', Bool.and_eq_true,
          beq_iff_eq] at hhead
        exact hhead.2
      rw [hresult]
      have hsplit' : s.repliesTo w = front ++ r :: rest := hlist.trans hsplit
      by_cases hdone : r.done = true
      · have hfrom : s.repliesFrom w p = r :: rest := by
          rw [repliesFrom, ← repliesTo, hlist, ← hdrop, hother]
        have hall : ∀ r' ∈ r :: rest, r'.done = true := by
          rw [hfrom] at hcareful
          exact hcareful r rfl hdone
        have hsends := sendReplies_of_done (s := noted) (d := d) hset hall noted.log
        refine .finished ?_ ?_ hsplit' hp hall ?_
        · rw [pushRepliesFrom_made, hmade]
        · rw [pushRepliesFrom_exchanges, hsends, hlog]
        · intro k
          rw [pushRepliesFrom_repliesTo, hsends, List.append_nil, hto]
      · have hnot : r.done = false := Bool.eq_false_iff.2 hdone
        obtain ⟨p', c, hawaits⟩ := h.awaits w r (by
          rw [hsplit']
          exact List.mem_append_right _ List.mem_cons_self)
        have hpp : p' = p := Option.some.inj (hawaits.carries.property.symm.trans hp)
        rw [hpp] at hawaits
        obtain ⟨done, ptr, value, hsend, hsent⟩ := Reply.sendReply_next
          noted.selection noted.log hawaits.carries hawaits.countable
          hawaits.replied hnot hawaits.sent
        have hsends : noted.sendReplies d env (r :: rest) noted.log = _ :=
          sendReplies_cons_wait (by rw [hset]; exact hsend)
        refine .next ?_ ?_ hsplit' hawaits hsent ?_
        · rw [pushRepliesFrom_made, hmade]
        · rw [pushRepliesFrom_exchanges, hsends, ← hlog, hawaits.requestor]
          rfl
        · intro k
          rw [pushRepliesFrom_repliesTo, hsends, hto]

/-- The notice that a window was destroyed. -/
theorem outcome_destroyRequest : Outcome d s (s.destroyRequest w).2 := by
  cases hget : s.replies[w]? with
  | none =>
    simp only [destroyRequest, hget]
    refine .destroyed rfl rfl ?_
    intro k
    by_cases hk : k = w
    · rw [if_pos hk, hk]
      exact repliesTo_of_getElem?_none hget
    · rw [if_neg hk]
      rfl
  | some list =>
    simp only [destroyRequest, hget]
    refine .destroyed rfl rfl ?_
    intro k
    exact getD_erase_nat

end XWindowsClipboard

end InputLeap
