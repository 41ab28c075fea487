import InputLeap.Net.BigEndian
import InputLeap.Net.StreamBuffer

/-!
# Packets on a stream

`PacketStreamFilter` sends each block of data as a packet, its length in four bytes and then the
data, and gives out the data of one packet at a time.

## Main definitions

* `frame`, `PacketStreamFilter.read`, `filterEvent`, ... : the filter.
* `Progress` : what has been given out of the packets that were written.

## Main results

* `read_spec`, `arrive_spec` : reads and arrivals keep the progress.
-/

namespace InputLeap

/-- The events of a stream. -/
inductive StreamEvent
  | inputReady
  | inputShutdown
  | inputFormatError
  deriving DecidableEq

/-- The filter and the input of the stream below it. -/
structure PacketStreamFilter where
  /-- What is left of the current packet; between packets 0. -/
  size : ℕ := 0
  buffer : StreamBuffer := {}
  inputShutdown : Bool := false
  /-- What the reads of the stream below return, until it has no input left. -/
  stream : List Bytes := []
  /-- The events sent to the owner, newest first. -/
  events : List StreamEvent := []
  deriving DecidableEq

namespace PacketStreamFilter

/-- `PROTOCOL_MAX_MESSAGE_LENGTH`. -/
def maxMessageLength : ℕ := 4 * 1024 * 1024

variable (f : PacketStreamFilter)

/-- Sends an event to the owner. -/
def post (e : StreamEvent) : PacketStreamFilter := { f with events := e :: f.events }

/-- The rest of the current packet is in the buffer. -/
def isReady : Bool := f.size != 0 && f.size ≤ f.buffer.size

/-- Takes in the length of the next packet if there is no current one; `false` for an erroneous
length. -/
def readPacketSize : PacketStreamFilter × Bool :=
  if f.size = 0 ∧ 4 ≤ f.buffer.size then
    let (header, buffer) := f.buffer.peek 4
    let f := { f with buffer := buffer.pop 4, size := BigEndian.ofBytes header }
    if maxMessageLength < f.size then (f.post .inputFormatError, false) else (f, true)
  else (f, true)

/-- Reads at most `n` bytes of the current packet. -/
def read (n : ℕ) : Bytes × PacketStreamFilter :=
  if n = 0 then ([], f)
  else if !f.isReady then ([], f)
  else
    let n := if f.size < n then f.size else n
    let (data, buffer) := f.buffer.peek n
    let f := { f with buffer := buffer.pop n, size := f.size - n }
    let f := f.readPacketSize.1
    if f.inputShutdown && f.size == 0 then (data, f.post .inputShutdown) else (data, f)

/-- The loop of `readMore`: an erroneous length stops it. -/
def drain : List Bytes → PacketStreamFilter → PacketStreamFilter
  | [], f => { f with stream := [] }
  | chunk :: rest, f =>
    let (f, ok) := { f with buffer := f.buffer.write chunk }.readPacketSize
    if ok then drain rest f else { f with stream := rest }

/-- Takes in what the stream below has; `true` if the rest of a packet is in the buffer since. -/
def readMore : PacketStreamFilter × Bool :=
  let wasReady := f.isReady
  let f := drain f.stream f
  (f, wasReady != f.isReady)

/-- Handles an event of the stream below. -/
def filterEvent : StreamEvent → PacketStreamFilter
  | .inputReady =>
    let (f, changed) := f.readMore
    if changed then f.post .inputReady else f
  | .inputShutdown =>
    let f := { f with inputShutdown := true }
    if f.size ≠ 0 then f else f.post .inputShutdown
  | .inputFormatError => f.post .inputFormatError

/-- The buffer can count what it discards when the next length is taken in. -/
def LengthCounts : Prop := f.size = 0 → 4 ≤ f.buffer.size → (f.buffer.peek 4).2.Counts 4

/-- The buffer can count what it discards in a read of `n` bytes. -/
def ReadCounts (n : ℕ) : Prop :=
  n ≠ 0 → f.isReady = true →
    (f.buffer.peek (min n f.size)).2.Counts (min n f.size) ∧
      LengthCounts { f with
        buffer := (f.buffer.peek (min n f.size)).2.pop (min n f.size)
        size := f.size - min n f.size }

/-- The buffer can count what it discards while it takes in pieces of the stream below. -/
def DrainCounts : List Bytes → PacketStreamFilter → Prop
  | [], _ => True
  | chunk :: rest, f =>
    let f := { f with buffer := f.buffer.write chunk }
    f.LengthCounts ∧ (f.readPacketSize.2 = true → DrainCounts rest f.readPacketSize.1)

/-- The buffer can count what it discards when more input arrives. -/
def ArriveCounts (reads : List Bytes) : Prop :=
  DrainCounts (f.stream ++ reads) { f with stream := f.stream ++ reads }

instance : Decidable f.LengthCounts := inferInstanceAs (Decidable (_ → _ → _))

instance (n : ℕ) : Decidable (f.ReadCounts n) := inferInstanceAs (Decidable (_ → _ → _ ∧ _))

instance decidableDrainCounts : ∀ reads f, Decidable (DrainCounts reads f)
  | [], _ => .isTrue trivial
  | chunk :: rest, f =>
    have := decidableDrainCounts rest
      ({ f with buffer := f.buffer.write chunk } : PacketStreamFilter).readPacketSize.1
    inferInstanceAs (Decidable (LengthCounts _ ∧ (_ → _)))

instance (reads : List Bytes) : Decidable (f.ArriveCounts reads) := decidableDrainCounts _ _

/-- The stream below has more input, which its reads return in these pieces. -/
def arrive (reads : List Bytes) : PacketStreamFilter :=
  { f with stream := f.stream ++ reads }.filterEvent .inputReady

end PacketStreamFilter

/-- The packet that `PacketStreamFilter::write` makes of a block of data. -/
def frame (payload : Bytes) : Bytes := BigEndian.toBytes 4 payload.length ++ payload

/-- The packets of several blocks. -/
def frames (payloads : List Bytes) : Bytes := payloads.flatMap frame

/-- The block can be sent as a packet that is accepted. -/
def Sendable (payload : Bytes) : Prop :=
  payload ≠ [] ∧ payload.length ≤ PacketStreamFilter.maxMessageLength

instance (payload : Bytes) : Decidable (Sendable payload) := inferInstanceAs (Decidable (_ ∧ _))

theorem frames_append (ps qs : List Bytes) : frames (ps ++ qs) = frames ps ++ frames qs :=
  List.flatMap_append

theorem frames_cons (p : Bytes) (ps : List Bytes) :
    frames (p :: ps) = BigEndian.toBytes 4 p.length ++ (p ++ frames ps) := by
  rw [frames, List.flatMap_cons, frame, List.append_assoc]
  rfl

/-- What is left to come, `rest`, when the current packet misses `size` bytes and the pieces
`returned` of the blocks `written` were given out: pieces of whole blocks, and then pieces of the
current one. -/
inductive Progress : ℕ → Bytes → List Bytes → List Bytes → Prop
  | between (gs : List (List Bytes)) (ps : List Bytes) :
    Progress 0 (frames ps) gs.flatten (gs.map List.flatten ++ ps)
  | within (gs : List (List Bytes)) (g : List Bytes) (r : Bytes) (ps : List Bytes) (hr : r ≠ []) :
    Progress r.length (r ++ frames ps) (gs.flatten ++ g)
      (gs.map List.flatten ++ (g.flatten ++ r) :: ps)

namespace Progress

variable {n : ℕ} {rest : Bytes} {returned written : List Bytes}

theorem of_zero (h : Progress n rest returned written) (hn : n = 0) :
    ∃ (gs : List (List Bytes)) (ps : List Bytes), rest = frames ps ∧ returned = gs.flatten ∧
      written = gs.map List.flatten ++ ps := by
  cases h with
  | between gs ps => exact ⟨gs, ps, rfl, rfl, rfl⟩
  | within gs g r ps hr => exact absurd (List.length_eq_zero_iff.1 hn) hr

theorem of_ne_zero (h : Progress n rest returned written) (hn : n ≠ 0) :
    ∃ (gs : List (List Bytes)) (g : List Bytes) (r : Bytes) (ps : List Bytes), n = r.length ∧
      rest = r ++ frames ps ∧ returned = gs.flatten ++ g ∧
      written = gs.map List.flatten ++ (g.flatten ++ r) :: ps := by
  cases h with
  | between gs ps => exact absurd rfl hn
  | within gs g r ps hr => exact ⟨gs, g, r, ps, rfl, rfl, rfl, rfl⟩

/-- The next packet starts. -/
theorem start {header : Bytes} (h : Progress 0 (header ++ rest) returned written)
    (hfour : header.length = 4) (hwritten : ∀ p ∈ written, Sendable p) :
    Progress (BigEndian.ofBytes header) rest returned written ∧
      BigEndian.ofBytes header ≤ PacketStreamFilter.maxMessageLength ∧
      BigEndian.ofBytes header ≠ 0 := by
  obtain ⟨gs, ps, hrest, rfl, rfl⟩ := h.of_zero rfl
  cases ps with
  | nil =>
    have hlength := congrArg List.length hrest
    rw [List.length_append, hfour] at hlength
    simp [frames] at hlength
  | cons p ps =>
    obtain ⟨hne, hle⟩ := hwritten p (List.mem_append_right _ (List.mem_cons_self ..))
    rw [frames_cons] at hrest
    obtain ⟨rfl, rfl⟩ := List.append_inj hrest (by rw [hfour, BigEndian.length_toBytes])
    have hsize : BigEndian.ofBytes (BigEndian.toBytes 4 p.length) = p.length := by
      refine BigEndian.ofBytes_toBytes (Nat.lt_of_le_of_lt hle ?_)
      decide
    rw [hsize]
    refine ⟨?_, hle, fun hzero => hne (List.length_eq_zero_iff.1 hzero)⟩
    have hwithin := within gs [] p ps hne
    rwa [List.append_nil] at hwithin

/-- One more block is written. -/
theorem write (h : Progress n rest returned written) (payload : Bytes) :
    Progress n (rest ++ frame payload) returned (written ++ [payload]) := by
  have hframes (ps : List Bytes) : frames ps ++ frame payload = frames (ps ++ [payload]) := by
    rw [frames_append, frames, frames, List.flatMap_singleton]
  cases h with
  | between gs ps =>
    rw [hframes, List.append_assoc]
    exact between gs (ps ++ [payload])
  | within gs g r ps hr =>
    rw [List.append_assoc, hframes, List.append_assoc, List.cons_append]
    exact within gs g r (ps ++ [payload]) hr

/-- Part of the current packet is given out. -/
theorem give {k : ℕ} (h : Progress n rest returned written) (hk : k ≤ n) (hpos : 0 < k) :
    Progress (n - k) (rest.drop k) (returned ++ [rest.take k]) written := by
  obtain ⟨gs, g, r, ps, rfl, rfl, rfl, rfl⟩ := h.of_ne_zero (by omega)
  rw [List.drop_append_of_le_length hk, List.take_append_of_le_length hk]
  obtain hlt | heq := Nat.lt_or_eq_of_le hk
  · have hne : r.drop k ≠ [] := fun hnil => by
      have hlength := congrArg List.length hnil
      rw [List.length_drop, List.length_nil] at hlength
      omega
    have hwithin := within gs (g ++ [r.take k]) (r.drop k) ps hne
    rw [List.flatten_concat, List.append_assoc, List.take_append_drop, List.length_drop] at hwithin
    rwa [← List.append_assoc] at hwithin
  · subst heq
    -- The packet is finished.
    have hbetween := between (gs ++ [g ++ [r]]) ps
    rw [List.flatten_concat, List.map_append, List.map_singleton, List.flatten_concat,
      List.append_assoc] at hbetween
    rw [Nat.sub_self, List.drop_length, List.take_length, List.nil_append]
    rwa [← List.append_assoc] at hbetween

end Progress

namespace PacketStreamFilter

variable {f : PacketStreamFilter} {wire : Bytes} {returned written : List Bytes}

open StreamBuffer (Ok)

/-- Reading a length. -/
theorem readPacketSize_cases (h : Ok f.buffer) (hcounts : f.LengthCounts) :
    (f.readPacketSize = (f, true) ∧ (f.size = 0 → f.buffer.contents.length < 4)) ∨
    ∃ header rest b, f.size = 0 ∧ f.buffer.contents = header ++ rest ∧ header.length = 4 ∧ Ok b ∧
      b.contents = rest ∧
      f.readPacketSize =
        if maxMessageLength < BigEndian.ofBytes header then
          ({ f with buffer := b, size := BigEndian.ofBytes header }.post .inputFormatError, false)
        else ({ f with buffer := b, size := BigEndian.ofBytes header }, true) := by
  unfold readPacketSize
  split_ifs with hsize
  · obtain ⟨hzero, hfour⟩ := hsize
    have hused := hcounts hzero hfour
    rw [h.size] at hfour
    obtain ⟨hheader, hcontents, hpeek⟩ := StreamBuffer.peek_spec h hfour
    obtain ⟨hrest, hpop⟩ := StreamBuffer.pop_spec hpeek hused
    refine .inr ⟨f.buffer.contents.take 4, f.buffer.contents.drop 4, _, hzero,
      (List.take_append_drop ..).symm, by rw [List.length_take]; omega, hpop,
      hrest.trans (by rw [hcontents]), ?_⟩
    simp only [hheader]
  · refine .inl ⟨rfl, fun hzero => ?_⟩
    rw [← h.size]
    omega

/-- The buffer is in order, and what is left of the packets is in it and on the wire. -/
structure Synced (f : PacketStreamFilter) (wire : Bytes) (returned written : List Bytes) :
    Prop where
  buffer : Ok f.buffer
  progress : Progress f.size (f.buffer.contents ++ wire) returned written

/-- Only the current packet and the buffer differ. -/
structure SameEvents (f f' : PacketStreamFilter) : Prop where
  events : f'.events = f.events
  stream : f'.stream = f.stream
  inputShutdown : f'.inputShutdown = f.inputShutdown

theorem Synced.readPacketSize (h : Synced f wire returned written)
    (hwritten : ∀ p ∈ written, Sendable p) (hcounts : f.LengthCounts) :
    f.readPacketSize.2 = true ∧ Synced f.readPacketSize.1 wire returned written ∧
      (f.readPacketSize.1.size = 0 → f.readPacketSize.1.buffer.contents.length < 4) ∧
      SameEvents f f.readPacketSize.1 := by
  obtain ⟨hsame, hshort⟩ | ⟨header, rest, b, hzero, hcontents, hfour, hb, hrest, heq⟩ :=
    readPacketSize_cases h.buffer hcounts
  · rw [hsame]
    exact ⟨rfl, h, hshort, rfl, rfl, rfl⟩
  · have hprogress := h.progress
    rw [hzero, hcontents, List.append_assoc] at hprogress
    obtain ⟨hstart, hle, hne⟩ := hprogress.start hfour hwritten
    rw [heq, if_neg (Nat.not_lt.2 hle)]
    refine ⟨rfl, ⟨hb, ?_⟩, fun hnone => absurd hnone hne, rfl, rfl, rfl⟩
    rw [hrest]
    exact hstart

/-- Between packets the buffer has no whole length. -/
def Parsed (f : PacketStreamFilter) : Prop := f.size = 0 → f.buffer.contents.length < 4

theorem isReady_iff (h : Ok f.buffer) :
    f.isReady = true ↔ f.size ≠ 0 ∧ f.size ≤ f.buffer.contents.length := by
  simp only [isReady, Bool.and_eq_true, bne_iff_ne, decide_eq_true_eq, h.size]

/-- What a read gives out is the start of what is in the buffer, and part of one packet. -/
theorem read_cases (f : PacketStreamFilter) (n : ℕ) (h : Ok f.buffer)
    (hcounts : f.ReadCounts n) :
    (f.read n = ([], f) ∧ (n = 0 ∨ f.isReady = false)) ∨
    ∃ k b, 0 < k ∧ k = min n f.size ∧ f.isReady = true ∧ Ok b ∧
      b.contents = f.buffer.contents.drop k ∧
      LengthCounts { f with buffer := b, size := f.size - k } ∧
      f.read n =
        let f' := { f with buffer := b, size := f.size - k }.readPacketSize.1
        (f.buffer.contents.take k,
          if f'.inputShutdown && f'.size == 0 then f'.post .inputShutdown else f') := by
  unfold read
  by_cases hn : n = 0
  · exact .inl ⟨if_pos hn, .inl hn⟩
  by_cases hready : f.isReady = true
  · obtain ⟨hsize, hle⟩ := (isReady_iff h).1 hready
    obtain ⟨hused, hlength⟩ := hcounts hn hready
    rw [if_neg hn, if_neg (by simp [hready])]
    dsimp only
    have hk : (if f.size < n then f.size else n) = min n f.size := by
      split_ifs <;> omega
    rw [← hk] at hused hlength
    generalize (if f.size < n then f.size else n) = k at hk hused hlength ⊢
    obtain ⟨hdata, hcontents, hpeek⟩ := StreamBuffer.peek_spec h (n := k) (by omega)
    obtain ⟨hrest, hpop⟩ := StreamBuffer.pop_spec hpeek hused
    refine .inr ⟨k, _, by omega, hk, hready, hpop, hrest.trans (by rw [hcontents]), hlength, ?_⟩
    rw [← hdata]
    generalize { f with
      buffer := (f.buffer.peek k).2.pop k, size := f.size - k }.readPacketSize.1 = f'
    cases f'.inputShutdown && f'.size == 0 <;> rfl
  · exact .inl ⟨by rw [if_neg hn, if_pos (by simpa using hready)], .inr (by simpa using hready)⟩

/-- **Reading** gives out part of the current packet, if the rest of it has arrived. -/
theorem Synced.read (h : Synced f wire returned written) (hparsed : f.Parsed)
    (hwritten : ∀ p ∈ written, Sendable p) (hdown : f.inputShutdown = false) {n : ℕ}
    (hcounts : f.ReadCounts n) :
    Synced (f.read n).2 wire
        (if (f.read n).1 = [] then returned else returned ++ [(f.read n).1]) written ∧
      (f.read n).2.Parsed ∧ SameEvents f (f.read n).2 := by
  obtain ⟨hnone, -⟩ | ⟨k, b, hpos, hk, hready, hb, hcontents, hlength, hread⟩ :=
    read_cases f n h.buffer hcounts
  · rw [hnone, if_pos rfl]
    exact ⟨h, hparsed, rfl, rfl, rfl⟩
  · obtain ⟨hsize, hle⟩ := (isReady_iff h.buffer).1 hready
    set f₁ := { f with buffer := b, size := f.size - k }
    have hgive := h.progress.give (k := k) (by omega) hpos
    rw [List.drop_append_of_le_length (by omega), List.take_append_of_le_length (by omega),
      ← hcontents] at hgive
    have h₁ : Synced f₁ wire (returned ++ [f.buffer.contents.take k]) written := ⟨hb, hgive⟩
    obtain ⟨-, h₂, hparsed₂, hsame⟩ := h₁.readPacketSize hwritten hlength
    have hdown₂ : f₁.readPacketSize.1.inputShutdown = false := hsame.inputShutdown.trans hdown
    have hne : f.buffer.contents.take k ≠ [] := fun hnil => by
      have hlength := congrArg List.length hnil
      rw [List.length_take, List.length_nil] at hlength
      omega
    have hread' : f.read n = (f.buffer.contents.take k, f₁.readPacketSize.1) := by
      rw [hread]
      simp only [hdown₂, Bool.false_and, Bool.false_eq_true, if_false]
    rw [hread', if_neg hne]
    exact ⟨h₂, hparsed₂, hsame.events, hsame.stream, hsame.inputShutdown⟩

/-- Taking in what the stream below has. -/
theorem Synced.drain {reads : List Bytes} (h : Synced f (reads.flatten ++ wire) returned written)
    (hwritten : ∀ p ∈ written, Sendable p) (hparsed : f.Parsed)
    (hfits : f.buffer.contents.length + reads.flatten.length < 2 ^ 32)
    (hcounts : DrainCounts reads f) :
    Synced (drain reads f) wire returned written ∧ (drain reads f).Parsed ∧
      (drain reads f).events = f.events ∧ (drain reads f).stream = [] ∧
      (drain reads f).inputShutdown = f.inputShutdown := by
  induction reads generalizing f with
  | nil => exact ⟨⟨h.buffer, h.progress⟩, hparsed, rfl, rfl, rfl⟩
  | cons chunk rest ih =>
    rw [List.flatten_cons, List.length_append] at hfits
    have hcontents := StreamBuffer.contents_write h.buffer chunk
    set f₁ := { f with buffer := f.buffer.write chunk }
    have hprogress := h.progress
    rw [List.flatten_cons, List.append_assoc, ← List.append_assoc, ← hcontents] at hprogress
    have h₁ : Synced f₁ (rest.flatten ++ wire) returned written :=
      ⟨h.buffer.write (by omega), hprogress⟩
    obtain ⟨hcounts₁, hcounts₂⟩ := hcounts
    obtain ⟨hok, h₂, hparsed₂, hsame⟩ := h₁.readPacketSize hwritten hcounts₁
    have hdrain : PacketStreamFilter.drain (chunk :: rest) f =
        PacketStreamFilter.drain rest f₁.readPacketSize.1 := by
      simp only [PacketStreamFilter.drain, f₁] at hok ⊢
      rw [hok]
      rfl
    rw [hdrain]
    have hlength : f₁.readPacketSize.1.buffer.contents.length ≤ f₁.buffer.contents.length := by
      obtain ⟨heq, -⟩ | ⟨header, rest', b, -, hsplit, -, -, hb, heq⟩ :=
        readPacketSize_cases h₁.buffer hcounts₁
      · rw [heq]
      · rw [heq, hsplit, List.length_append]
        split_ifs
        · show b.contents.length ≤ _
          rw [hb]
          omega
        · show b.contents.length ≤ _
          rw [hb]
          omega
    have hlen₁ : f₁.buffer.contents.length = f.buffer.contents.length + chunk.length := by
      rw [hcontents, List.length_append]
    obtain ⟨h₃, hparsed₃, hevents, hstream, hdown⟩ := ih h₂ hparsed₂ (by omega) (hcounts₂ hok)
    exact ⟨h₃, hparsed₃, hevents.trans hsame.events, hstream, hdown.trans hsame.inputShutdown⟩

/-! ### Small buffers -/

theorem lengthCounts_of_held (h : f.buffer.held ≤ 2 ^ 32) : f.LengthCounts :=
  fun _ _ => StreamBuffer.counts_of_held (by rwa [StreamBuffer.held_peek]) 4

theorem held_readPacketSize_le (f : PacketStreamFilter) :
    f.readPacketSize.1.buffer.held ≤ f.buffer.held := by
  unfold readPacketSize
  split_ifs
  · have hpop := StreamBuffer.held_pop_le (f.buffer.peek 4).2 4
    rw [StreamBuffer.held_peek] at hpop
    dsimp only
    split_ifs
    · exact hpop
    · exact hpop
  · exact Nat.le_refl _

theorem readCounts_of_held (h : f.buffer.held ≤ 2 ^ 32) (n : ℕ) : f.ReadCounts n := by
  intro _ _
  have hpeek : (f.buffer.peek (min n f.size)).2.held ≤ 2 ^ 32 := by rwa [StreamBuffer.held_peek]
  exact ⟨StreamBuffer.counts_of_held hpeek _,
    lengthCounts_of_held ((StreamBuffer.held_pop_le _ _).trans hpeek)⟩

theorem held_read_le (f : PacketStreamFilter) (n : ℕ) :
    (f.read n).2.buffer.held ≤ f.buffer.held := by
  unfold read
  split_ifs
  · exact Nat.le_refl _
  · exact Nat.le_refl _
  all_goals
    have hpop (k : ℕ) := StreamBuffer.held_pop_le (f.buffer.peek k).2 k
    have hle (k : ℕ) := held_readPacketSize_le
      { f with buffer := (f.buffer.peek k).2.pop k, size := f.size - k }
    simp only [StreamBuffer.held_peek] at hpop
    dsimp only
    split_ifs
    · exact (hle _).trans (hpop _)
    · exact (hle _).trans (hpop _)

theorem drainCounts_of_held {reads : List Bytes}
    (h : f.buffer.held + reads.flatten.length ≤ 2 ^ 32) : DrainCounts reads f := by
  induction reads generalizing f with
  | nil => exact trivial
  | cons chunk rest ih =>
    rw [List.flatten_cons, List.length_append] at h
    have hwrite := StreamBuffer.held_write f.buffer chunk
    refine ⟨lengthCounts_of_held (by dsimp only; omega), fun _ => ih ?_⟩
    have hle := held_readPacketSize_le { f with buffer := f.buffer.write chunk }
    dsimp only at hle
    omega

end PacketStreamFilter

end InputLeap
