import InputLeap.Platform.XWindowsClipboard
import Mathlib.Data.List.Basic
import Mathlib.Data.Nat.ModEq

/-!
# Reading an X selection

A client that wants the clipboard asks its owner to store the data in a property of one of the
client's windows, and reads the property when a notice says that it is there.  Data that is too
large for one value is announced (`INCR`) and then comes in pieces, each of which is stored when the
one before has been deleted; an empty value ends the transfer.

Events that are not about the transfer come in between, and are left for others.

## Main definitions

* `XProperty`, `getWindowProperty` : a property and the reading of it.
* `XGetWindowProperty.Documented` : what the reading needs of the X library.
* `GetClipboard.processEvent` : what the client does with an event.
* `GetClipboard.Request.final`, `GetClipboard.Request.left` : the state after a run, and the events
  that are left.
* `GetClipboard.Conforming`, `GetClipboard.Faulty` : the values that an owner stores one after the
  other.

## Main results

* `XProperty.read_eq_data_iff` : what is read of a property, which is half of it for the largest
  items.
* `GetClipboard.Request.final_filter`, `GetClipboard.Request.left_of_filter` : events that are not
  about the transfer do not change it.
* `GetClipboard.receives` : how transfers end.
-/

namespace InputLeap

/-! ### Properties -/

namespace PropertyFormat

/-- How many bytes an item takes on the server. -/
def wireSize : PropertyFormat → ℕ
  | .bits8 => 1
  | .bits16 => 2
  | .bits32 => 4

/-- How far `numItems` items of a property are, in units of four bytes. -/
def advance : PropertyFormat → ℕ → ℕ
  | .bits8, numItems => numItems / 4
  | .bits16, numItems => numItems / 2
  | .bits32, numItems => numItems

theorem wireSize_pos (f : PropertyFormat) : 0 < f.wireSize := by
  cases f <;> decide

theorem wireSize_dvd (f : PropertyFormat) : f.wireSize ∣ 4 := by
  cases f <;> decide

theorem wireSize_le (f : PropertyFormat) : f.wireSize ≤ f.datumSize := by
  cases f <;> decide

theorem wireSize_of_ne {f : PropertyFormat} (h : f ≠ .bits32) : f.datumSize = f.wireSize := by
  cases f with
  | bits8 => rfl
  | bits16 => rfl
  | bits32 => exact absurd rfl h

theorem advance_div (f : PropertyFormat) (n : ℕ) : f.advance (n / f.wireSize) = n / 4 := by
  cases f with
  | bits8 => rw [advance, wireSize, Nat.div_one]
  | bits16 => exact Nat.div_div_eq_div_mul n 2 2
  | bits32 => rfl

end PropertyFormat

/-- A property of a window.  The data is the items as they lie in a client's memory. -/
structure XProperty where
  type : Atom
  format : PropertyFormat
  data : Bytes
  dvd : format.datumSize ∣ data.length

/-- The size of a property on the server. -/
def XProperty.size (p : XProperty) : ℕ := p.data.length / p.format.datumSize * p.format.wireSize

/-- What `XGetWindowProperty` returns: the type (`None` is `none`), the format (zero is `none`), the
items, how many there are, and how many bytes of the property are behind them. -/
structure PropertyReply where
  actualType : Option Atom
  actualFormat : Option PropertyFormat
  rawData : Bytes
  numItems : ℕ
  bytesLeft : ℕ

/-- `XGetWindowProperty`: from an offset on and at most a length, both in units of four bytes on the
server; `none` is an error. -/
abbrev XGetWindowProperty := Option XProperty → ℕ → ℕ → Option PropertyReply

/-- What is documented of `XGetWindowProperty`.  If there is no property, no type is returned.  An
offset that is not behind the end is no error.  Then the items are those at the offset, as they lie
in a client's memory, and as many as the length allows. -/
structure XGetWindowProperty.Documented (get : XGetWindowProperty) : Prop where
  absent {offset length : ℕ} {reply : PropertyReply} :
    get none offset length = some reply → reply.actualType = none
  success (p : XProperty) {offset : ℕ} (length : ℕ) :
    4 * offset ≤ p.size → (get (some p) offset length).isSome
  actualType {p : XProperty} {offset length : ℕ} {reply : PropertyReply} :
    get (some p) offset length = some reply → reply.actualType = some p.type
  actualFormat {p : XProperty} {offset length : ℕ} {reply : PropertyReply} :
    get (some p) offset length = some reply → reply.actualFormat = some p.format
  numItems {p : XProperty} {offset length : ℕ} {reply : PropertyReply} :
    get (some p) offset length = some reply →
      p.format.wireSize * reply.numItems = min (p.size - 4 * offset) (4 * length)
  bytesLeft {p : XProperty} {offset length : ℕ} {reply : PropertyReply} :
    get (some p) offset length = some reply →
      reply.bytesLeft = p.size - (4 * offset + p.format.wireSize * reply.numItems)
  rawData {p : XProperty} {offset length : ℕ} {reply : PropertyReply} :
    get (some p) offset length = some reply →
      reply.rawData.take (reply.numItems * p.format.datumSize) =
        (p.data.drop (4 * offset / p.format.wireSize * p.format.datumSize)).take
          (reply.numItems * p.format.datumSize)

/-- Reads the rest of a property behind what was read already, in at most `fuel` requests. -/
def readFrom (get : XGetWindowProperty) (property : Option XProperty) (length : ℕ) :
    ℕ → ℕ → Bytes → Option (Atom × Bytes)
  | 0, _, _ => none
  | fuel + 1, offset, data =>
    match get property offset length with
    | none => none
    | some reply =>
      match reply.actualType, reply.actualFormat with
      | some actualType, some actualFormat =>
        let numBytes := actualFormat.wireSize * reply.numItems
        let data := data ++ reply.rawData.take numBytes
        if reply.bytesLeft = 0 then some (actualType, data)
        else readFrom get property length fuel
          (offset + actualFormat.advance reply.numItems) data
      | _, _ => none

/-- The type and the data of a property, if there is one. -/
def getWindowProperty (get : XGetWindowProperty) (d : XDisplay) (property : Option XProperty) :
    Option (Atom × Bytes) :=
  readFrom get property d.xMaxRequestSize ((property.map XProperty.size).getD 0 + 1) 0 []

namespace XProperty

variable (p : XProperty) {get : XGetWindowProperty} {length offset : ℕ}

theorem wireSize_dvd_size : p.format.wireSize ∣ p.size := Nat.dvd_mul_left _ _

/-- The items take more memory than they do on the server where their format is the largest. -/
theorem length_data : p.data.length = p.size / p.format.wireSize * p.format.datumSize := by
  rw [size, Nat.mul_div_cancel _ p.format.wireSize_pos, Nat.div_mul_cancel p.dvd]

/-- Where the format is another one, the data has the size that it has on the server. -/
theorem length_data_of_ne (h : p.format ≠ .bits32) : p.data.length = p.size := by
  rw [p.length_data, PropertyFormat.wireSize_of_ne h, Nat.div_mul_cancel p.wireSize_dvd_size]

theorem length_data_of_bits32 (h : p.format = .bits32) : p.data.length = 2 * p.size := by
  have hdvd := p.wireSize_dvd_size
  rw [p.length_data]
  rw [h] at hdvd ⊢
  rw [PropertyFormat.wireSize] at hdvd
  simp only [PropertyFormat.wireSize, PropertyFormat.datumSize]
  omega

/-- One request reads `n` bytes of the server: as many as it may, or all. -/
theorem exists_get (hget : get.Documented) (hoffset : 4 * offset ≤ p.size) {n : ℕ}
    (hn : n = min (p.size - 4 * offset) (4 * length)) :
    ∃ reply, get (some p) offset length = some reply ∧ reply.actualType = some p.type ∧
      reply.actualFormat = some p.format ∧ p.format.wireSize * reply.numItems = n ∧
      p.format.advance reply.numItems = n / 4 ∧ reply.bytesLeft = p.size - (4 * offset + n) ∧
      n ≤ reply.rawData.length ∧
      (p.format ≠ .bits32 → reply.rawData.take n = (p.data.drop (4 * offset)).take n) := by
  have hpos := p.format.wireSize_pos
  have hfour : p.format.wireSize ∣ 4 * offset :=
    Nat.dvd_trans p.format.wireSize_dvd (Nat.dvd_mul_right 4 offset)
  obtain ⟨reply, hreply⟩ := Option.isSome_iff_exists.1 (hget.success p length hoffset)
  have hitems : p.format.wireSize * reply.numItems = n := (hget.numItems hreply).trans hn.symm
  have hnumItems : reply.numItems = n / p.format.wireSize := by
    rw [← hitems, Nat.mul_div_cancel_left _ hpos]
  have hraw := hget.rawData hreply
  have hleft := hget.bytesLeft hreply
  rw [hitems] at hleft
  refine ⟨reply, hreply, hget.actualType hreply, hget.actualFormat hreply, hitems, ?_, hleft, ?_,
    fun hformat => ?_⟩
  · rw [hnumItems, p.format.advance_div]
  · -- The items lie in the data, and each takes at least as much memory as on the server.
    have hwithin : (4 * offset + n) / p.format.wireSize ≤ p.size / p.format.wireSize :=
      Nat.div_le_div_right (by omega)
    rw [Nat.add_div_of_dvd_right hfour, ← hnumItems] at hwithin
    have hmemory := Nat.mul_le_mul_right p.format.datumSize hwithin
    rw [← p.length_data, Nat.add_mul] at hmemory
    have hcopied := Nat.mul_le_mul_left reply.numItems p.format.wireSize_le
    rw [Nat.mul_comm reply.numItems p.format.wireSize, hitems] at hcopied
    have hlength := congrArg List.length hraw
    rw [List.length_take, List.length_take, List.length_drop] at hlength
    omega
  · rwa [PropertyFormat.wireSize_of_ne hformat, Nat.mul_comm reply.numItems, hitems,
      Nat.div_mul_cancel hfour] at hraw

/-- The rest of the property is read: as many bytes as there are on the server. -/
theorem exists_readFrom (hget : get.Documented) (hlength : 0 < length) {fuel : ℕ}
    (hoffset : 4 * offset ≤ p.size) (hfuel : p.size - 4 * offset < fuel) (data : Bytes) :
    ∃ bytes, readFrom get (some p) length fuel offset data = some (p.type, data ++ bytes) ∧
      bytes.length = p.size - 4 * offset ∧
      (p.format ≠ .bits32 → bytes = p.data.drop (4 * offset)) := by
  induction fuel generalizing offset data with
  | zero => exact absurd hfuel (Nat.not_lt_zero _)
  | succ fuel ih =>
    obtain ⟨n, hn⟩ : ∃ n, n = min (p.size - 4 * offset) (4 * length) := ⟨_, rfl⟩
    obtain ⟨reply, hreply, htype, hformat', hnumBytes, hadvance, hleft, hraw, hsame⟩ :=
      p.exists_get hget hoffset hn
    have htake : (reply.rawData.take n).length = n := by
      rw [List.length_take, Nat.min_eq_left hraw]
    rw [readFrom, hreply]
    simp only [htype, hformat', hnumBytes, hadvance, hleft]
    split_ifs with hend
    · refine ⟨_, rfl, by omega, fun hformat => ?_⟩
      rw [hsame hformat, List.take_of_length_le]
      rw [List.length_drop, p.length_data_of_ne hformat]
      omega
    · -- something is left: the reply has all that was asked for, and the loop goes on behind it
      have hnext : n / 4 = length := by omega
      have hoffset' : 4 * (offset + n / 4) ≤ p.size := by omega
      have hfuel' : p.size - 4 * (offset + n / 4) < fuel := by omega
      obtain ⟨bytes, hread, hbytes, hrest⟩ := ih hoffset' hfuel' (data ++ reply.rawData.take n)
      refine ⟨reply.rawData.take n ++ bytes, ?_, ?_, fun hformat => ?_⟩
      · rw [hread, List.append_assoc]
      · rw [List.length_append, htake, hbytes]
        omega
      · have hfull : 4 * (offset + n / 4) = 4 * offset + n := by omega
        rw [hsame hformat, hrest hformat, hfull, ← List.drop_drop, List.take_append_drop]

/-- What is read of a property. -/
def read (get : XGetWindowProperty) (d : XDisplay) : Bytes :=
  ((getWindowProperty get d (some p)).map Prod.snd).getD []

variable (d : XDisplay)

theorem getWindowProperty_eq (hget : get.Documented) :
    getWindowProperty get d (some p) = some (p.type, p.read get d) ∧
      (p.read get d).length = p.size ∧ (p.format ≠ .bits32 → p.read get d = p.data) := by
  have hpos : 0 < d.xMaxRequestSize := Nat.lt_of_lt_of_le (by decide) d.le_xMaxRequestSize
  have hfuel : p.size - 4 * 0 < p.size + 1 := Nat.lt_succ_self _
  obtain ⟨bytes, hread, hlength, hsame⟩ := p.exists_readFrom hget hpos (Nat.zero_le _) hfuel []
  have hwindow : getWindowProperty get d (some p) = some (p.type, bytes) := hread
  rw [read, hwindow]
  exact ⟨rfl, hlength, hsame⟩

/-- **What is read of a property** is its data, but only as many bytes as it has on the server. -/
theorem read_eq_data_iff (hget : get.Documented) :
    p.read get d = p.data ↔ (p.format = .bits32 → p.data = []) := by
  obtain ⟨-, hlength, hsame⟩ := p.getWindowProperty_eq d hget
  constructor
  · intro hread hformat
    have hdouble := p.length_data_of_bits32 hformat
    rw [hread] at hlength
    exact List.eq_nil_of_length_eq_zero (by omega)
  · intro hempty
    by_cases hformat : p.format = .bits32
    · have hdouble := p.length_data_of_bits32 hformat
      rw [hempty hformat] at hdouble ⊢
      exact List.eq_nil_of_length_eq_zero (by rw [List.length_nil] at hdouble; omega)
    · exact hsame hformat

theorem length_read_le (hget : get.Documented) : (p.read get d).length ≤ p.data.length := by
  obtain ⟨-, hlength, hsame⟩ := p.getWindowProperty_eq d hget
  by_cases hformat : p.format = .bits32
  · have hdouble := p.length_data_of_bits32 hformat
    omega
  · rw [hsame hformat]

/-- Something is read of a property that is not empty. -/
theorem read_eq_nil_iff (hget : get.Documented) : p.read get d = [] ↔ p.data = [] := by
  obtain ⟨-, hlength, hsame⟩ := p.getWindowProperty_eq d hget
  by_cases hformat : p.format = .bits32
  · have hdouble := p.length_data_of_bits32 hformat
    rw [← List.length_eq_zero_iff, ← List.length_eq_zero_iff]
    omega
  · rw [hsame hformat]

end XProperty

/-! ### The client -/

/-- An event of the X server. -/
inductive XEvent
  | destroyNotify (window : Window)
  | selectionNotify (requestor : Window) (property : Option Atom)
  | propertyNotify (window : Window) (atom : Atom) (newValue : Bool)
  | other (type : ℕ)
  deriving DecidableEq

namespace GetClipboard

/-- What a transfer is about; atoms of different names differ. -/
structure Request where
  xGetWindowProperty : XGetWindowProperty
  d : XDisplay
  requestor : Window
  property : Atom
  atomNone : Atom
  property_ne : property ≠ atomNone

/-- The state of a transfer (`CICCCMGetClipboard`). -/
structure State where
  incr : Bool := false
  failed : Bool := false
  done : Bool := false
  reading : Bool := false
  data : Bytes := []
  actualTarget : Option Atom := none
  error : Bool := false
  deriving DecidableEq

/-- Reads the property, and finds out if it is an announcement, a piece, or all of the data. -/
def readData (q : Request) (s : State) (property : Option XProperty) : State :=
  match getWindowProperty q.xGetWindowProperty q.d property with
  | none => { s with failed := true }
  | some (target, bytes) =>
    let data := s.data ++ bytes
    if target = q.d.atomINCR then
      if s.incr = true then { s with data, failed := true, error := true }
      else if data.length = s.data.length then { s with data, failed := true, error := true }
      else { s with incr := true, data := [] }
    else if s.incr = true then
      let s' :=
        if s.data.length = 0 then { s with data, actualTarget := some target }
        else if some target ≠ s.actualTarget then { s with data, failed := true, error := true }
        else { s with data }
      -- Note if this is the final chunk.
      if data.length = s.data.length then { s' with done := true } else s'
    else { s with data, actualTarget := some target, done := true }

/-- Processes an event: the state, the property of the window, and whether the event was about the
transfer.  A property is deleted when it has been read. -/
def processEvent (q : Request) (s : State) (property : Option XProperty) :
    XEvent → State × Option XProperty × Bool
  | .destroyNotify window =>
    if window = q.requestor then ({ s with failed := true }, property, true)
    else (s, property, false)
  | .selectionNotify requestor atom =>
    if requestor = q.requestor then
      if atom = none ∨ atom = some q.atomNone then ({ s with done := true }, property, true)
      else if atom = some q.property then
        (readData q { s with reading := true } property, none, true)
      else (s, property, false)
    else (s, property, false)
  | .propertyNotify window atom newValue =>
    if window = q.requestor ∧ atom = q.property ∧ newValue = true then
      if s.reading = false then (s, property, true)
      else (readData q s property, none, true)
    else (s, property, false)
  | .other _ => (s, property, false)

/-! ### Runs -/

/-- The owner of the selection stores a value in the property, or the client takes an event. -/
inductive Step
  | put (value : XProperty)
  | event (e : XEvent)

namespace Request

variable (q : Request)

/-- The client takes events until the transfer is over. -/
def step (c : State × Option XProperty) : Step → State × Option XProperty
  | .put value => (c.1, some value)
  | .event e =>
    if c.1.done = true ∨ c.1.failed = true then c
    else ((processEvent q c.1 c.2 e).1, (processEvent q c.1 c.2 e).2.1)

/-- The state after a run, where the transfer has just been asked for. -/
def final (run : List Step) : State := (run.foldl q.step ({}, none)).1

/-- The events of a run that are left for others: they were not processed, or the transfer was over
before. -/
def leftFrom : State × Option XProperty → List Step → List XEvent
  | _, [] => []
  | c, .put value :: run => leftFrom (q.step c (.put value)) run
  | c, .event e :: run =>
    if ¬(c.1.done = true ∨ c.1.failed = true) ∧ (processEvent q c.1 c.2 e).2.2 = true then
      leftFrom (q.step c (.event e)) run
    else e :: leftFrom (q.step c (.event e)) run

def left (run : List Step) : List XEvent := q.leftFrom ({}, none) run

/-- The event is about the transfer. -/
def addressed : XEvent → Bool
  | .destroyNotify window => window == q.requestor
  | .selectionNotify requestor atom =>
    requestor == q.requestor &&
      (atom == none || atom == some q.atomNone || atom == some q.property)
  | .propertyNotify window atom newValue =>
    window == q.requestor && atom == q.property && newValue
  | .other _ => false

/-- The step is about the transfer. -/
def concerns : Step → Bool
  | .put _ => true
  | .event e => q.addressed e

/-- The events of a run that are not about the transfer. -/
def foreign : List Step → List XEvent
  | [] => []
  | .put _ :: run => foreign run
  | .event e :: run => if q.addressed e = true then foreign run else e :: foreign run

/-! ### Owners -/

/-- The notice that the property has a new value. -/
def notice : Step := .event (.propertyNotify q.requestor q.property true)

/-- Values that are stored one after the other. -/
def pieces (values : List XProperty) : List Step :=
  values.flatMap fun value => [.put value, q.notice]

/-- What is about a transfer: the first value and notices of it, the notice that it is complete, and
the other values. -/
def script (early : List Step) (notices : ℕ) (first : XProperty) (rest : List XProperty) :
    List Step :=
  early ++ (.put first :: (List.replicate notices q.notice ++
    (.event (.selectionNotify q.requestor (some q.property)) :: q.pieces rest)))

/-- Before it is complete, parts of the first value may be stored and noticed. -/
def Early (early : List Step) : Prop := ∀ a ∈ early, (∃ value, a = .put value) ∨ a = q.notice

end Request

/-- The values of an owner that keeps to the conventions, with the type of the data and the values
that it consists of: one value, or an announcement, pieces that are not empty and an empty one. -/
inductive Conforming (q : Request) : XProperty → List XProperty → Atom → List XProperty → Prop
  | single {value : XProperty} (htype : value.type ≠ q.d.atomINCR) :
    Conforming q value [] value.type [value]
  | incremental {announcement last : XProperty} {chunks : List XProperty}
    (hincr : announcement.type = q.d.atomINCR) (hsize : announcement.data ≠ [])
    (hchunks : ∀ c ∈ chunks, c.data ≠ [] ∧ c.type = last.type) (hlast : last.data = [])
    (htype : last.type ≠ q.d.atomINCR) :
    Conforming q announcement (chunks ++ [last]) last.type chunks

/-- The values of an owner that does not keep to the conventions: an empty announcement, another
announcement, or a piece of another type, with anything behind. -/
inductive Faulty (q : Request) : XProperty → List XProperty → Prop
  | emptyIncr {announcement : XProperty} {rest : List XProperty}
    (hincr : announcement.type = q.d.atomINCR) (hsize : announcement.data = []) :
    Faulty q announcement rest
  | secondIncr {announcement again : XProperty} {chunks rest : List XProperty} {type : Atom}
    (hincr : announcement.type = q.d.atomINCR) (hsize : announcement.data ≠ [])
    (hchunks : ∀ c ∈ chunks, c.data ≠ [] ∧ c.type = type) (htype : type ≠ q.d.atomINCR)
    (hagain : again.type = q.d.atomINCR) : Faulty q announcement (chunks ++ again :: rest)
  | change {announcement next : XProperty} {chunks rest : List XProperty} {type : Atom}
    (hincr : announcement.type = q.d.atomINCR) (hsize : announcement.data ≠ [])
    (hchunks : ∀ c ∈ chunks, c.data ≠ [] ∧ c.type = type) (htype : type ≠ q.d.atomINCR)
    (hne : chunks ≠ []) (hnext : next.type ≠ type) :
    Faulty q announcement (chunks ++ next :: rest)

/-- The transfer is done and has not failed, the type is that of the data, and the events that are
left are those that are not about it. -/
structure Over (q : Request) (run : List Step) (type : Atom) : Prop where
  done : (q.final run).done = true
  failed : (q.final run).failed = false
  actualTarget : (q.final run).actualTarget = some type
  left : q.left run = q.foreign run

/-! ### Events that are not about the transfer -/

namespace Request

variable {q : Request} {c c' c'' : State × Option XProperty} {run run' : List Step}

theorem processEvent_of_not_addressed {e : XEvent} (s : State) (property : Option XProperty)
    (h : q.addressed e = false) : processEvent q s property e = (s, property, false) := by
  cases e with
  | destroyNotify window =>
    rw [addressed, beq_eq_false_iff_ne] at h
    exact if_neg h
  | selectionNotify requestor atom =>
    rw [processEvent]
    split_ifs with hrequestor hnone hproperty
    · rcases hnone with rfl | rfl <;> simp [addressed, hrequestor] at h
    · simp [addressed, hrequestor, hproperty] at h
    · rfl
    · rfl
  | propertyNotify window atom newValue =>
    refine if_neg ?_
    rintro ⟨rfl, rfl, rfl⟩
    simp [addressed] at h
  | other type => rfl

theorem step_of_not_concerns {a : Step} (h : q.concerns a = false) : q.step c a = c := by
  cases a with
  | put value => cases h
  | event e =>
    rw [step, processEvent_of_not_addressed c.1 c.2 h]
    exact ite_self c

/-- **The state after a run** depends on what is about the transfer only. -/
theorem foldl_filter (c : State × Option XProperty) (run : List Step) :
    (run.filter q.concerns).foldl q.step c = run.foldl q.step c := by
  induction run generalizing c with
  | nil => rfl
  | cons a run ih =>
    rw [List.filter_cons]
    split_ifs with h
    · exact ih _
    · rw [List.foldl_cons, step_of_not_concerns (Bool.eq_false_iff.2 h)]
      exact ih c

/-- **What is left** is what is not about the transfer, if all of the rest is taken. -/
theorem leftFrom_of_filter (h : q.leftFrom c (run.filter q.concerns) = []) :
    q.leftFrom c run = q.foreign run := by
  induction run generalizing c with
  | nil => rfl
  | cons a run ih =>
    cases a with
    | put value => exact ih h
    | event e =>
      rw [List.filter_cons, concerns] at h
      split_ifs at h with haddressed
      · rw [leftFrom] at h ⊢
        split_ifs at h ⊢ with htaken
        rw [foreign, if_pos haddressed]
        exact ih h
      · have hnot : q.addressed e = false := Bool.eq_false_iff.2 haddressed
        have hstep : q.step c (.event e) = c := step_of_not_concerns hnot
        rw [leftFrom, processEvent_of_not_addressed c.1 c.2 hnot, hstep,
          if_neg (fun htaken => Bool.false_ne_true htaken.2), foreign, if_neg haddressed, ih h]

/-! ### Events that are taken -/

/-- The run leads from one state to the other, and all of its events are taken. -/
def Takes (q : Request) (c : State × Option XProperty) (run : List Step)
    (c' : State × Option XProperty) : Prop :=
  run.foldl q.step c = c' ∧ q.leftFrom c run = []

theorem Takes.nil (c : State × Option XProperty) : q.Takes c [] c := ⟨rfl, rfl⟩

theorem leftFrom_append (c : State × Option XProperty) (run run' : List Step) :
    q.leftFrom c (run ++ run') = q.leftFrom c run ++ q.leftFrom (run.foldl q.step c) run' := by
  induction run generalizing c with
  | nil => rfl
  | cons a run ih =>
    cases a with
    | put value => exact ih _
    | event e =>
      rw [List.cons_append, leftFrom, leftFrom]
      split_ifs
      · exact ih _
      · rw [ih, List.cons_append, List.foldl_cons]

theorem Takes.append (h : q.Takes c run c') (h' : q.Takes c' run' c'') :
    q.Takes c (run ++ run') c'' := by
  obtain ⟨rfl, hleft⟩ := h
  refine ⟨?_, ?_⟩
  · rw [List.foldl_append, h'.1]
  · rw [leftFrom_append, hleft, h'.2, List.nil_append]

theorem takes_put (c : State × Option XProperty) (value : XProperty) :
    q.Takes c [.put value] (c.1, some value) := ⟨rfl, rfl⟩

variable {s : State} {property : Option XProperty}

theorem takes_event {e : XEvent} {s' : State} {property' : Option XProperty}
    (hdone : s.done = false) (hfailed : s.failed = false)
    (h : processEvent q s property e = (s', property', true)) :
    q.Takes (s, property) [.event e] (s', property') := by
  have hnot : ¬(s.done = true ∨ s.failed = true) := by
    rw [hdone, hfailed]
    decide
  refine ⟨?_, ?_⟩
  · rw [List.foldl_cons, List.foldl_nil, step, if_neg hnot, h]
  · rw [leftFrom, if_pos ⟨hnot, by rw [h]⟩, leftFrom]

/-- A notice before the transfer is complete changes nothing. -/
theorem takes_notice_early (property : Option XProperty) :
    q.Takes ({}, property) [q.notice] ({}, property) :=
  takes_event rfl rfl (by rw [processEvent, if_pos ⟨rfl, rfl, rfl⟩, if_pos rfl])

theorem takes_notice (hdone : s.done = false) (hfailed : s.failed = false)
    (hreading : s.reading = true) :
    q.Takes (s, property) [q.notice] (readData q s property, none) := by
  refine takes_event hdone hfailed ?_
  rw [processEvent, if_pos ⟨rfl, rfl, rfl⟩, if_neg (by rw [hreading]; decide)]

theorem takes_selection (property : Option XProperty) :
    q.Takes ({}, property) [.event (.selectionNotify q.requestor (some q.property))]
      (readData q { reading := true } property, none) := by
  have hproperty : ¬(some q.property = none ∨ some q.property = some q.atomNone) := by
    rintro (hnone | hatom)
    · cases hnone
    · exact q.property_ne (Option.some_inj.1 hatom)
  refine takes_event rfl rfl ?_
  rw [processEvent, if_pos rfl, if_neg hproperty, if_pos rfl]

end Request

/-! ### Values that are read -/

section Reading

variable {q : Request} (hget : q.xGetWindowProperty.Documented) {s : State} {p : XProperty}

include hget

theorem readData_value (htype : p.type ≠ q.d.atomINCR) (hincr : s.incr = false) :
    readData q s (some p) =
      { s with
        data := s.data ++ p.read q.xGetWindowProperty q.d
        actualTarget := some p.type
        done := true } := by
  rw [readData, (p.getWindowProperty_eq q.d hget).1]
  dsimp only
  rw [if_neg htype, if_neg (by rw [hincr]; decide)]

theorem readData_announcement (htype : p.type = q.d.atomINCR) (hincr : s.incr = false)
    (hsize : p.data ≠ []) : readData q s (some p) = { s with incr := true, data := [] } := by
  have hread : (p.read q.xGetWindowProperty q.d).length ≠ 0 := by
    rw [Ne, List.length_eq_zero_iff, p.read_eq_nil_iff _ hget]
    exact hsize
  rw [readData, (p.getWindowProperty_eq q.d hget).1]
  dsimp only
  rw [if_pos htype, if_neg (by rw [hincr]; decide), if_neg (by rw [List.length_append]; omega)]

theorem failed_readData_empty (htype : p.type = q.d.atomINCR) (hsize : p.data = []) :
    (readData q s (some p)).failed = true := by
  have hread : p.read q.xGetWindowProperty q.d = [] := (p.read_eq_nil_iff q.d hget).2 hsize
  rw [readData, (p.getWindowProperty_eq q.d hget).1]
  dsimp only
  rw [if_pos htype, hread, List.append_nil]
  by_cases hincr : s.incr = true
  · rw [if_pos hincr]
  · rw [if_neg hincr, if_pos rfl]

theorem failed_readData_again (htype : p.type = q.d.atomINCR) (hincr : s.incr = true) :
    (readData q s (some p)).failed = true := by
  rw [readData, (p.getWindowProperty_eq q.d hget).1]
  dsimp only
  rw [if_pos htype, if_pos hincr]

/-- A piece of the type that the pieces before it have, if there is one. -/
theorem readData_piece (htype : p.type ≠ q.d.atomINCR) (hincr : s.incr = true)
    (hsame : s.data = [] ∨ s.actualTarget = some p.type) :
    readData q s (some p) = { s with
      data := s.data ++ p.read q.xGetWindowProperty q.d, actualTarget := some p.type,
      done := s.done || decide (p.data = []) } := by
  have hlength :
      (s.data ++ p.read q.xGetWindowProperty q.d).length = s.data.length ↔ p.data = [] := by
    rw [List.length_append, Nat.add_eq_left, List.length_eq_zero_iff, p.read_eq_nil_iff _ hget]
  have hstored : (if s.data.length = 0 then
      { s with data := s.data ++ p.read q.xGetWindowProperty q.d, actualTarget := some p.type }
    else if some p.type ≠ s.actualTarget then
      { s with data := s.data ++ p.read q.xGetWindowProperty q.d, failed := true, error := true }
    else { s with data := s.data ++ p.read q.xGetWindowProperty q.d }) =
      { s with
        data := s.data ++ p.read q.xGetWindowProperty q.d
        actualTarget := some p.type } := by
    split_ifs with hempty hchange
    · rfl
    · obtain hnil | htarget := hsame
      · exact absurd (List.length_eq_zero_iff.2 hnil) hempty
      · exact absurd htarget.symm hchange
    · rw [not_not.1 hchange]
  rw [readData, (p.getWindowProperty_eq q.d hget).1]
  dsimp only
  rw [if_neg htype, if_pos hincr, hstored]
  by_cases hdata : p.data = []
  · rw [if_pos (hlength.2 hdata), decide_eq_true hdata, Bool.or_true]
  · rw [if_neg (fun heq => hdata (hlength.1 heq)), decide_eq_false hdata, Bool.or_false]

theorem failed_readData_change (hincr : s.incr = true) (hne : s.data ≠ [])
    (hchange : s.actualTarget ≠ some p.type) : (readData q s (some p)).failed = true := by
  by_cases htype : p.type = q.d.atomINCR
  · exact failed_readData_again hget htype hincr
  · rw [readData, (p.getWindowProperty_eq q.d hget).1]
    dsimp only
    rw [if_neg htype, if_pos hincr, if_neg (fun hzero => hne (List.length_eq_zero_iff.1 hzero)),
      if_pos hchange.symm]
    split_ifs <;> rfl

end Reading

namespace Request

variable {q : Request}

/-- The transfer is complete: the first value is read. -/
theorem takes_first {early : List Step} (hearly : q.Early early) (notices : ℕ)
    (first : XProperty) : q.Takes ({}, none) (early ++ (.put first ::
      (List.replicate notices q.notice ++
        [.event (.selectionNotify q.requestor (some q.property))])))
      (readData q { reading := true } (some first), none) := by
  have hparts : ∀ property, ∃ property', q.Takes ({}, property) early ({}, property') := by
    induction early with
    | nil => exact fun property => ⟨property, Takes.nil _⟩
    | cons a early ih =>
      intro property
      obtain ⟨property', htakes⟩ : ∃ property', q.Takes ({}, property) [a] ({}, property') := by
        obtain ⟨value, rfl⟩ | rfl := hearly a List.mem_cons_self
        · exact ⟨_, takes_put _ value⟩
        · exact ⟨_, takes_notice_early property⟩
      obtain ⟨property'', hrest⟩ := ih (fun b hb => hearly b (List.mem_cons_of_mem _ hb)) property'
      exact ⟨property'', htakes.append hrest⟩
  have hnotices : ∀ property : Option XProperty,
      q.Takes ({}, property) (List.replicate notices q.notice) ({}, property) := by
    intro property
    induction notices with
    | zero => exact Takes.nil _
    | succ notices ih => exact (takes_notice_early property).append ih
  obtain ⟨property, hearlier⟩ := hparts none
  exact hearlier.append ((takes_put _ first).append ((hnotices _).append (takes_selection _)))

/-- The state between two pieces. -/
def receiving (data : Bytes) (target : Option Atom) : State :=
  { incr := true, reading := true, data, actualTarget := target }

/-- Pieces of one type that are not empty are added to the data. -/
theorem takes_pieces (hget : q.xGetWindowProperty.Documented) {type : Atom}
    (htype : type ≠ q.d.atomINCR) {chunks : List XProperty}
    (hchunks : ∀ c ∈ chunks, c.data ≠ [] ∧ c.type = type) {data : Bytes} {target : Option Atom}
    (hsame : data = [] ∨ target = some type) (property : Option XProperty) :
    ∃ target' property', q.Takes (receiving data target, property) (q.pieces chunks)
        (receiving (data ++ chunks.flatMap (·.read q.xGetWindowProperty q.d)) target', property') ∧
      (data ++ chunks.flatMap (·.read q.xGetWindowProperty q.d) = [] ∨ target' = some type) := by
  induction chunks generalizing data target property with
  | nil =>
    rw [List.flatMap_nil, List.append_nil]
    exact ⟨target, property, Takes.nil _, hsame⟩
  | cons c chunks ih =>
    obtain ⟨hdata, rfl⟩ := hchunks c List.mem_cons_self
    have hread : readData q (receiving data target) (some c) =
        receiving (data ++ c.read q.xGetWindowProperty q.d) (some c.type) := by
      rw [readData_piece hget htype rfl hsame, decide_eq_false hdata]
      rfl
    -- The owner stores a chunk; the notice of it makes the client read and delete it.
    have hpiece : q.Takes (receiving data target, property) [.put c, q.notice]
        (receiving (data ++ c.read q.xGetWindowProperty q.d) (some c.type), none) := by
      rw [← hread]
      exact (takes_put _ c).append (takes_notice rfl rfl rfl)
    obtain ⟨target', property', htakes, hsame'⟩ := ih
      (fun b hb => hchunks b (List.mem_cons_of_mem _ hb)) (.inr rfl) none
    rw [List.flatMap_cons, ← List.append_assoc]
    exact ⟨target', property', hpiece.append htakes, hsame'⟩

theorem script_eq (early : List Step) (notices : ℕ) (first : XProperty) (rest : List XProperty) :
    q.script early notices first rest = (early ++ (.put first :: (List.replicate notices q.notice ++
      [.event (.selectionNotify q.requestor (some q.property))]))) ++ q.pieces rest := by
  simp only [script, List.append_assoc, List.cons_append, List.nil_append]

theorem script_append (early : List Step) (notices : ℕ) (first : XProperty)
    (values : List XProperty) (value : XProperty) (rest : List XProperty) :
    q.script early notices first (values ++ value :: rest) =
      q.script early notices first values ++ ([.put value, q.notice] ++ q.pieces rest) := by
  have hpieces : q.pieces (values ++ value :: rest) =
      q.pieces values ++ ([.put value, q.notice] ++ q.pieces rest) := by
    rw [pieces, List.flatMap_append, List.flatMap_cons]
    rfl
  rw [script_eq, script_eq, hpieces]
  simp only [List.append_assoc]

/-- One more value that is stored and noticed. -/
theorem takes_piece {data : Bytes} {target : Option Atom} (property : Option XProperty)
    (value : XProperty) : q.Takes (receiving data target, property) [.put value, q.notice]
      (readData q (receiving data target) (some value), none) :=
  (takes_put _ value).append (takes_notice rfl rfl rfl)

/-- An announcement and pieces of one type. -/
theorem takes_announced (hget : q.xGetWindowProperty.Documented) {early : List Step}
    (hearly : q.Early early) (notices : ℕ)
    {announcement : XProperty} (hincr : announcement.type = q.d.atomINCR)
    (hsize : announcement.data ≠ []) {type : Atom} (htype : type ≠ q.d.atomINCR)
    {chunks : List XProperty} (hchunks : ∀ c ∈ chunks, c.data ≠ [] ∧ c.type = type) :
    ∃ target property, q.Takes ({}, none) (q.script early notices announcement chunks)
        (receiving (chunks.flatMap (·.read q.xGetWindowProperty q.d)) target, property) ∧
      (chunks.flatMap (·.read q.xGetWindowProperty q.d) = [] ∨ target = some type) := by
  have hfirst := takes_first hearly notices announcement
  rw [readData_announcement hget hincr rfl hsize] at hfirst
  have hnone : ([] : Bytes) = [] ∨ (none : Option Atom) = some type := .inl rfl
  obtain ⟨target, property, hpieces, hsame⟩ := takes_pieces hget htype hchunks hnone none
  rw [List.nil_append] at hpieces hsame
  refine ⟨target, property, ?_, hsame⟩
  rw [script_eq]
  exact hfirst.append hpieces

/-- The values of an owner that keeps to the conventions. -/
theorem takes_conforming (hget : q.xGetWindowProperty.Documented) {early : List Step}
    (hearly : q.Early early) (notices : ℕ)
    {first : XProperty} {rest : List XProperty} {type : Atom} {chunks : List XProperty}
    (h : Conforming q first rest type chunks) :
    ∃ s property, q.Takes ({}, none) (q.script early notices first rest) (s, property) ∧
      s.done = true ∧ s.failed = false ∧ s.actualTarget = some type ∧
        s.data = chunks.flatMap (·.read q.xGetWindowProperty q.d) := by
  cases h with
  | single htype =>
    refine ⟨readData q { reading := true } (some first), none, ?_, ?_⟩
    · rw [script_eq]
      exact (takes_first hearly notices first).append (Takes.nil _)
    · rw [readData_value hget htype rfl, List.flatMap_singleton, List.nil_append]
      exact ⟨rfl, rfl, rfl, rfl⟩
  | @incremental last chunks hincr hsize hchunks hlast htype =>
    obtain ⟨target, property, htakes, hsame⟩ :=
      takes_announced hget hearly notices hincr hsize htype hchunks
    refine ⟨readData q (receiving (chunks.flatMap (·.read q.xGetWindowProperty q.d)) target)
      (some last), none, ?_, ?_⟩
    · rw [script_append]
      exact htakes.append ((takes_piece property _).append (Takes.nil _))
    · rw [readData_piece hget htype rfl hsame, decide_eq_true hlast,
        (XProperty.read_eq_nil_iff _ q.d hget).2 hlast, List.append_nil]
      exact ⟨rfl, rfl, rfl, rfl⟩

/-- A transfer that has failed stays so. -/
theorem failed_foldl {c : State × Option XProperty} (h : c.1.failed = true) (run : List Step) :
    (run.foldl q.step c).1.failed = true := by
  induction run generalizing c with
  | nil => exact h
  | cons a run ih =>
    refine ih ?_
    cases a with
    | put value => exact h
    | event e =>
      rw [step, if_pos (.inr h)]
      exact h

/-- The values of an owner that does not. -/
theorem failed_of_faulty (hget : q.xGetWindowProperty.Documented) {early : List Step}
    (hearly : q.Early early) (notices : ℕ)
    {first : XProperty} {rest : List XProperty} (h : Faulty q first rest) :
    ((q.script early notices first rest).foldl q.step ({}, none)).1.failed = true := by
  cases h with
  | emptyIncr hincr hsize =>
    have hfirst := takes_first hearly notices first
    rw [script_eq, List.foldl_append, hfirst.1]
    exact failed_foldl (failed_readData_empty hget hincr hsize) _
  | secondIncr hincr hsize hchunks htype hagain =>
    obtain ⟨target, property, htakes, -⟩ :=
      takes_announced hget hearly notices hincr hsize htype hchunks
    rw [script_append, List.foldl_append, htakes.1, List.foldl_append, (takes_piece property _).1]
    exact failed_foldl (failed_readData_again hget hagain rfl) _
  | change hincr hsize hchunks htype hne hnext =>
    obtain ⟨target, property, htakes, hsame⟩ :=
      takes_announced hget hearly notices hincr hsize htype hchunks
    -- The pieces before are not empty, so that their type is known.
    obtain ⟨c, chunks, rfl⟩ := List.exists_cons_of_ne_nil hne
    have hdata : (c :: chunks).flatMap (·.read q.xGetWindowProperty q.d) ≠ [] := by
      rw [List.flatMap_cons]
      refine fun hnil => (hchunks c List.mem_cons_self).1 ?_
      exact (c.read_eq_nil_iff q.d hget).1 (List.append_eq_nil_iff.1 hnil).1
    have htarget := hsame.resolve_left hdata
    rw [script_append, List.foldl_append, htakes.1, List.foldl_append, (takes_piece property _).1]
    refine failed_foldl (failed_readData_change hget rfl hdata ?_) _
    rw [receiving, htarget]
    exact fun heq => hnext (Option.some_inj.1 heq).symm

end Request

/-- What is read of several values is their data only if it is for each of them. -/
theorem flatMap_read_eq_iff {get : XGetWindowProperty} (hget : get.Documented) (d : XDisplay)
    (chunks : List XProperty) : chunks.flatMap (·.read get d) = chunks.flatMap (·.data) ↔
      ∀ c ∈ chunks, c.read get d = c.data := by
  have hle : ∀ cs : List XProperty,
      (cs.flatMap (·.read get d)).length ≤ (cs.flatMap (·.data)).length := by
    intro cs
    induction cs with
    | nil => exact Nat.le_refl _
    | cons c cs ih =>
      have hread := c.length_read_le d hget
      rw [List.flatMap_cons, List.flatMap_cons, List.length_append, List.length_append]
      omega
  constructor
  · intro heq
    induction chunks with
    | nil => exact nofun
    | cons c chunks ih =>
      have hrest := hle chunks
      have hread := c.length_read_le d hget
      have hlength := congrArg List.length heq
      rw [List.flatMap_cons, List.flatMap_cons] at heq hlength
      rw [List.length_append, List.length_append] at hlength
      obtain ⟨hhead, htail⟩ := List.append_inj heq (by omega)
      exact List.forall_mem_cons.2 ⟨hhead, ih htail⟩
  · intro hall
    exact List.flatMap_congr hall

/-- **How transfers end**, for every run in which events that are not about the transfer come
anywhere between the others.  If the owner keeps to the conventions the transfer is done, and the
data is right if and only if none of its values has items of the largest format; otherwise it
fails. -/
theorem receives (q : Request) (hget : q.xGetWindowProperty.Documented) {early : List Step}
    (hearly : q.Early early) (notices : ℕ) {first : XProperty} {rest : List XProperty}
    {run : List Step} (hrun : run.filter q.concerns = q.script early notices first rest) :
    (∀ type chunks, Conforming q first rest type chunks → Over q run type ∧
      ((q.final run).data = chunks.flatMap (·.data) ↔
        ∀ c ∈ chunks, c.format = .bits32 → c.data = [])) ∧
    (Faulty q first rest → (q.final run).failed = true) := by
  refine ⟨fun type chunks hconforming => ?_, fun hfaulty => ?_⟩
  · obtain ⟨s, property, htakes, hdone, hfailed, htarget, hdata⟩ :=
      Request.takes_conforming hget hearly notices hconforming
    rw [← hrun] at htakes
    have hfinal : q.final run = s := by
      rw [Request.final, ← Request.foldl_filter, htakes.1]
    refine ⟨⟨?_, ?_, ?_, Request.leftFrom_of_filter htakes.2⟩, ?_⟩
    · rw [hfinal, hdone]
    · rw [hfinal, hfailed]
    · rw [hfinal, htarget]
    · rw [hfinal, hdata, flatMap_read_eq_iff hget]
      exact forall₂_congr fun c _ => c.read_eq_data_iff q.d hget
  · rw [Request.final, ← Request.foldl_filter, hrun]
    exact Request.failed_of_faulty hget hearly notices hfaulty

/-- `XGetWindowProperty` as its manual describes it: the items from the offset on, as many as the
length allows, and an error for an offset behind the end. -/
def manualGet : XGetWindowProperty
  | none, _, _ => some ⟨none, none, [], 0, 0⟩
  | some p, offset, length =>
    if p.size < 4 * offset then none
    else
      let numItems := min (p.size - 4 * offset) (4 * length) / p.format.wireSize
      some ⟨some p.type, some p.format,
        (p.data.drop (4 * offset / p.format.wireSize * p.format.datumSize)).take
          (numItems * p.format.datumSize),
        numItems, p.size - (4 * offset + p.format.wireSize * numItems)⟩

theorem manualGet_some {p : XProperty} {offset length : ℕ} {reply : PropertyReply}
    (h : manualGet (some p) offset length = some reply) :
    let numItems := min (p.size - 4 * offset) (4 * length) / p.format.wireSize
    reply = ⟨some p.type, some p.format,
      (p.data.drop (4 * offset / p.format.wireSize * p.format.datumSize)).take
        (numItems * p.format.datumSize),
      numItems, p.size - (4 * offset + p.format.wireSize * numItems)⟩ :=
  (Option.some.inj (Option.ite_none_left_eq_some.1 h).2).symm

theorem documented_manualGet : XGetWindowProperty.Documented manualGet where
  absent h := by
    cases h
    rfl
  success p _ length h := by
    rw [manualGet, if_neg (Nat.not_lt.2 h)]
    rfl
  actualType h := by rw [manualGet_some h]
  actualFormat h := by rw [manualGet_some h]
  numItems {p offset length reply} h := by
    -- what is copied consists of whole items
    have hfour (m : ℕ) : p.format.wireSize ∣ 4 * m :=
      Nat.dvd_trans p.format.wireSize_dvd (Nat.dvd_mul_right 4 m)
    have hdvd : p.format.wireSize ∣ min (p.size - 4 * offset) (4 * length) := by
      rcases Nat.le_total (p.size - 4 * offset) (4 * length) with hle | hle
      · rw [Nat.min_eq_left hle]
        exact Nat.dvd_sub p.wireSize_dvd_size (hfour offset)
      · rw [Nat.min_eq_right hle]
        exact hfour length
    rw [manualGet_some h]
    exact Nat.mul_div_cancel' hdvd
  bytesLeft h := by rw [manualGet_some h]
  rawData h := by rw [manualGet_some h, List.take_take, Nat.min_self]

/-- A request for a property of window 1. -/
def windowOne : Request where
  xGetWindowProperty := manualGet
  d := ⟨65535, by decide, 99⟩
  requestor := 1
  property := 50
  atomNone := 51
  property_ne := by decide

/-- The announcement of at least three bytes. -/
def announceThree : XProperty := ⟨99, .bits32, [3, 0, 0, 0, 0, 0, 0, 0], by decide⟩

/-- A piece of text. -/
def textPiece (data : Bytes) : XProperty := ⟨31, .bits8, data, Nat.one_dvd _⟩

/-- Two pieces are announced and sent.  An early notice comes first, and in between there are a key
event, a notice of another window and one of a deletion. -/
def incrementalRun : List Step :=
  [.put announceThree, windowOne.notice, .event (.other 2), .put announceThree, windowOne.notice,
    .event (.selectionNotify 1 (some 50)), .event (.propertyNotify 1 50 false),
    .put (textPiece [104, 105]), .event (.propertyNotify 7 50 true), windowOne.notice,
    .put (textPiece [33]), windowOne.notice, .put (textPiece []), windowOne.notice]

/-- The pieces are put together, and the other events are left. -/
theorem receives_incrementalRun :
    Over windowOne incrementalRun 31 ∧ (windowOne.final incrementalRun).data = [104, 105, 33] := by
  have hrun : incrementalRun.filter windowOne.concerns =
      windowOne.script [.put announceThree, windowOne.notice] 1 announceThree
        ([textPiece [104, 105], textPiece [33]] ++ [textPiece []]) := rfl
  have hconforming : Conforming windowOne announceThree
      ([textPiece [104, 105], textPiece [33]] ++ [textPiece []]) 31
      [textPiece [104, 105], textPiece [33]] :=
    .incremental rfl (by decide) (by decide) rfl (by decide)
  have hearly : windowOne.Early [.put announceThree, windowOne.notice] := by
    intro a ha
    rcases List.mem_pair.1 ha with rfl | rfl
    · exact .inl ⟨_, rfl⟩
    · exact .inr rfl
  obtain ⟨hover, hdata⟩ :=
    (receives windowOne documented_manualGet hearly 1 hrun).1 31 _ hconforming
  exact ⟨hover, hdata.2 (by decide)⟩

/-- Two atoms, as a list of targets has them. -/
def twoAtoms : XProperty :=
  ⟨4, .bits32, [1, 0, 0, 0, 0, 0, 0, 0, 2, 0, 0, 0, 0, 0, 0, 0], by decide⟩

/-- The owner keeps to the conventions, and the second atom is not read. -/
theorem not_receives_twoAtoms : Conforming windowOne twoAtoms [] 4 [twoAtoms] ∧
    (windowOne.final (windowOne.script [] 1 twoAtoms [])).data = [1, 0, 0, 0, 0, 0, 0, 0] ∧
      (windowOne.final (windowOne.script [] 1 twoAtoms [])).data ≠ twoAtoms.data :=
  ⟨.single (by decide), by decide, by decide⟩

end GetClipboard

end InputLeap
