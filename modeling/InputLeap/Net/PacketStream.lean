import InputLeap.LTS.Basic
import InputLeap.Net.PacketStreamFilter

/-!
# Segmentation

Blocks written as packets arrive in segments that have nothing to do with the packets, while
reads of any sizes are made.

## Main definitions

* `PacketStream.lts` : the writer, the bytes on their way and the reader.
* `PacketStream.Fits` : the buffer can count the bytes that arrive and those that it discards.
* `PacketStream.Faithful` : what the reader sees does not depend on the segments.

## Main results

* `PacketStream.faithful_of_reachable` : as long as the buffer can count its bytes.
* `PacketStream.not_faithful_of_reachable` : not in general.
-/

namespace InputLeap

/-- The two ends of a stream. -/
structure PacketStream where
  filter : PacketStreamFilter
  /-- The blocks that were written. -/
  written : List Bytes
  /-- The bytes that did not arrive yet. -/
  wire : Bytes
  /-- What the reads returned that returned something. -/
  returned : List Bytes

namespace PacketStream

/-- What happens at the ends of the stream. -/
inductive Event
  | write (payload : Bytes)
  /-- A segment arrives; the stream below gives it out in these pieces. -/
  | arrive (reads : List Bytes)
  | read (n : ℕ)

/-- The piece is one that the filter can read at once. -/
def Piece (bytes : Bytes) : Prop := bytes ≠ [] ∧ bytes.length ≤ 4096

instance (bytes : Bytes) : Decidable (Piece bytes) := inferInstanceAs (Decidable (_ ∧ _))

/-- One step. -/
def step (s : PacketStream) : Event → Option PacketStream
  | .write payload =>
    if Sendable payload then
      some { s with written := s.written ++ [payload], wire := s.wire ++ frame payload }
    else none
  | .arrive reads =>
    if (∀ bytes ∈ reads, Piece bytes) ∧ reads.flatten <+: s.wire then
      some { s with
        filter := s.filter.arrive reads
        wire := s.wire.drop reads.flatten.length }
    else none
  | .read n =>
    let (data, filter) := s.filter.read n
    some { s with
      filter := filter
      returned := if data = [] then s.returned else s.returned ++ [data] }

/-- The runs of a stream. -/
def lts : LTS PacketStream Event where
  init s := s = ⟨{}, [], [], []⟩
  step := step

/-- The buffer can count its bytes and those that it discards. -/
def Fits (s : PacketStream) : Event → Prop
  | .write _ => True
  | .arrive reads => s.filter.buffer.contents.length + reads.flatten.length < 2 ^ 32 ∧
    s.filter.ArriveCounts reads
  | .read n => s.filter.ReadCounts n

instance (s : PacketStream) : ∀ e, Decidable (s.Fits e)
  | .write _ => .isTrue trivial
  | .arrive _ => inferInstanceAs (Decidable (_ < _ ∧ _))
  | .read n => inferInstanceAs (Decidable (s.filter.ReadCounts n))

/-- The bytes that arrived. -/
def arrived (s : PacketStream) : ℕ := (frames s.written).length - s.wire.length

/-- The blocks whose packets are complete after `n` bytes. -/
def complete : List Bytes → ℕ → List Bytes
  | [], _ => []
  | p :: ps, n => if (frame p).length ≤ n then p :: complete ps (n - (frame p).length) else []

/-- What the reader sees does not depend on the segments; `G` is the condition that the events
satisfy. -/
structure Faithful (G : PacketStream → Event → Prop) (s : PacketStream) : Prop where
  /-- The reads give out pieces of the blocks in order, each a piece of one block. -/
  pieces : ∃ (gs : List (List Bytes)) (g : List Bytes) (rest : Bytes) (ps : List Bytes),
    s.returned = gs.flatten ++ g ∧ (s.written = gs.map List.flatten ++ ps ∧ g = [] ∨
      s.written = gs.map List.flatten ++ (g.flatten ++ rest) :: ps)
  starts : s.returned.flatten <+: s.written.flatten
  /-- Everything has arrived and there is nothing left to read. -/
  drained : s.wire = [] → s.filter.isReady = false → s.returned.flatten = s.written.flatten
  ready : s.filter.isReady = true ↔
    s.returned.flatten.length < (complete s.written s.arrived).flatten.length
  /-- An arrival that makes the filter ready is passed on, and no other one. -/
  notified : ∀ reads s', G s (.arrive reads) → s.step (.arrive reads) = some s' →
    s'.filter.events =
      if s.filter.isReady = false ∧ s'.filter.isReady = true then
        .inputReady :: s.filter.events
      else s.filter.events

/-! ### Runs -/

/-- The invariant. -/
structure Inv (s : PacketStream) : Prop where
  synced : s.filter.Synced s.wire s.returned s.written
  parsed : s.filter.Parsed
  stream : s.filter.stream = []
  inputShutdown : s.filter.inputShutdown = false
  sendable : ∀ p ∈ s.written, Sendable p

variable {s s' : PacketStream}

theorem Inv.init : Inv ⟨{}, [], [], []⟩ :=
  ⟨⟨StreamBuffer.ok_empty, .between [] []⟩, fun _ => by decide, rfl, rfl,
    fun _ hp => (by cases hp)⟩

theorem Inv.write (h : Inv s) {payload : Bytes} (hp : Sendable payload) :
    Inv { s with written := s.written ++ [payload], wire := s.wire ++ frame payload } := by
  refine ⟨⟨h.synced.buffer, ?_⟩, h.parsed, h.stream, h.inputShutdown, fun p hmem => ?_⟩
  · have hprogress := h.synced.progress.write payload
    rwa [List.append_assoc] at hprogress
  · obtain hmem | hmem := List.mem_append.1 hmem
    · exact h.sendable p hmem
    · exact List.mem_singleton.1 hmem ▸ hp

theorem Inv.read (h : Inv s) {n : ℕ} (hcounts : s.filter.ReadCounts n) :
    Inv { s with
      filter := (s.filter.read n).2
      returned := if (s.filter.read n).1 = [] then s.returned
        else s.returned ++ [(s.filter.read n).1] } := by
  obtain ⟨hsynced, hparsed, hsame⟩ := h.synced.read h.parsed h.sendable h.inputShutdown hcounts
  exact ⟨hsynced, hparsed, hsame.stream.trans h.stream,
    hsame.inputShutdown.trans h.inputShutdown, h.sendable⟩

theorem Inv.arrive (h : Inv s) {reads : List Bytes} (hwire : reads.flatten <+: s.wire)
    (hfits : s.filter.buffer.contents.length + reads.flatten.length < 2 ^ 32)
    (hcounts : s.filter.ArriveCounts reads) :
    Inv { s with
        filter := s.filter.arrive reads
        wire := s.wire.drop reads.flatten.length } ∧
      (s.filter.arrive reads).events =
        if s.filter.isReady ≠ (s.filter.arrive reads).isReady then
          .inputReady :: s.filter.events
        else s.filter.events := by
  obtain ⟨rest, hrest⟩ := hwire
  have hdrop : s.wire.drop reads.flatten.length = rest := by
    rw [← hrest, List.drop_left]
  have hsynced : s.filter.Synced (reads.flatten ++ rest) s.returned s.written := by
    rw [hrest]
    exact h.synced
  -- The event is handled with the segment in the stream below.
  set f₀ : PacketStreamFilter := { s.filter with stream := reads }
  have hsynced₀ : f₀.Synced (reads.flatten ++ rest) s.returned s.written :=
    ⟨hsynced.buffer, hsynced.progress⟩
  rw [PacketStreamFilter.ArriveCounts, h.stream, List.nil_append] at hcounts
  obtain ⟨h₁, hparsed₁, hevents, hstream, hdown⟩ :=
    hsynced₀.drain h.sendable h.parsed hfits hcounts
  set f₁ := PacketStreamFilter.drain reads f₀
  have harrive : s.filter.arrive reads =
      if s.filter.isReady != f₁.isReady then f₁.post .inputReady else f₁ := by
    have hf₀ :
        ({ s.filter with stream := s.filter.stream ++ reads } : PacketStreamFilter) = f₀ := by
      rw [h.stream]
      rfl
    simp only [PacketStreamFilter.arrive, PacketStreamFilter.filterEvent, hf₀]
    rfl
  rw [hdrop, harrive]
  cases hchanged : s.filter.isReady != f₁.isReady with
  | false =>
    have hsame : s.filter.isReady = f₁.isReady := by simpa using hchanged
    refine ⟨⟨h₁, hparsed₁, hstream, hdown.trans h.inputShutdown, h.sendable⟩, ?_⟩
    rw [if_neg (by simp), if_neg (by simp [hsame])]
    exact hevents
  | true =>
    have hne : s.filter.isReady ≠ f₁.isReady := by simpa using hchanged
    refine ⟨⟨⟨h₁.buffer, h₁.progress⟩, hparsed₁, hstream, hdown.trans h.inputShutdown,
      h.sendable⟩, ?_⟩
    have hready : (f₁.post .inputReady).isReady = f₁.isReady := rfl
    rw [if_pos rfl, hready, if_pos hne]
    exact congrArg _ hevents

theorem Inv.step {e : Event} (h : Inv s) (hfits : s.Fits e) (hst : s.step e = some s') :
    Inv s' := by
  cases e with
  | write payload =>
    simp only [PacketStream.step] at hst
    split_ifs at hst with hp
    cases hst
    exact h.write hp
  | arrive reads =>
    simp only [PacketStream.step] at hst
    split_ifs at hst with hreads
    cases hst
    exact (h.arrive hreads.2 hfits.1 hfits.2).1
  | read n =>
    cases hst
    exact h.read hfits

/-! ### What the reader sees -/

theorem complete_append (ps qs : List Bytes) (n : ℕ) :
    complete (ps ++ qs) ((frames ps).length + n) = ps ++ complete qs n := by
  induction ps with
  | nil => simp [frames]
  | cons p ps ih =>
    have hlength : (frames (p :: ps)).length + n = (frame p).length + ((frames ps).length + n) := by
      rw [frames, List.flatMap_cons, List.length_append, Nat.add_assoc]
      rfl
    rw [List.cons_append, complete, hlength, if_pos (Nat.le_add_right ..), Nat.add_sub_cancel_left,
      ih]
    rfl

theorem complete_of_lt {p : Bytes} {ps : List Bytes} {n : ℕ} (h : n < (frame p).length) :
    complete (p :: ps) n = [] := if_neg (Nat.not_le.2 h)

theorem length_frame (p : Bytes) : (frame p).length = 4 + p.length := by
  rw [frame, List.length_append, BigEndian.length_toBytes]

namespace Inv

theorem pieces (h : Inv s) : ∃ (gs : List (List Bytes)) (g : List Bytes) (rest : Bytes)
    (ps : List Bytes), s.returned = gs.flatten ++ g ∧
      (s.written = gs.map List.flatten ++ ps ∧ g = [] ∨
        s.written = gs.map List.flatten ++ (g.flatten ++ rest) :: ps) := by
  by_cases hsize : s.filter.size = 0
  · obtain ⟨gs, ps, -, hreturned, hwritten⟩ := h.synced.progress.of_zero hsize
    exact ⟨gs, [], [], ps, by rw [hreturned, List.append_nil], .inl ⟨hwritten, rfl⟩⟩
  · obtain ⟨gs, g, r, ps, -, -, hreturned, hwritten⟩ := h.synced.progress.of_ne_zero hsize
    exact ⟨gs, g, r, ps, hreturned, .inr hwritten⟩

theorem starts (h : Inv s) : s.returned.flatten <+: s.written.flatten := by
  obtain ⟨gs, g, rest, ps, hreturned, ⟨hwritten, rfl⟩ | hwritten⟩ := h.pieces
  · refine ⟨ps.flatten, ?_⟩
    rw [hreturned, hwritten, List.append_nil, List.flatten_append, List.flatten_flatten]
  · refine ⟨rest ++ ps.flatten, ?_⟩
    rw [hreturned, hwritten, List.flatten_append, List.flatten_append, List.flatten_cons,
      List.flatten_flatten, List.append_assoc, List.append_assoc]

theorem ready (h : Inv s) : s.filter.isReady = true ↔
    s.returned.flatten.length < (complete s.written s.arrived).flatten.length := by
  rw [PacketStreamFilter.isReady_iff h.synced.buffer]
  by_cases hsize : s.filter.size = 0
  · obtain ⟨gs, ps, hrest, hreturned, hwritten⟩ := h.synced.progress.of_zero hsize
    have hshort := h.parsed hsize
    have hlength := congrArg List.length hrest
    rw [List.length_append] at hlength
    have harrived : s.arrived =
        (frames (gs.map List.flatten)).length + s.filter.buffer.contents.length := by
      rw [arrived, hwritten, frames_append, List.length_append]
      omega
    have hnone : complete ps s.filter.buffer.contents.length = [] := by
      cases ps with
      | nil => rfl
      | cons p ps =>
        refine complete_of_lt ?_
        rw [length_frame]
        omega
    rw [harrived, hwritten, complete_append, hnone, List.append_nil, hreturned,
      List.flatten_flatten]
    exact iff_of_false (fun hready => hready.1 hsize) (lt_irrefl _)
  · obtain ⟨gs, g, r, ps, hr, hrest, hreturned, hwritten⟩ :=
      h.synced.progress.of_ne_zero hsize
    have hlength := congrArg List.length hrest
    rw [List.length_append, List.length_append] at hlength
    -- The length and what was given out of the current packet have arrived.
    have harrived : s.arrived = (frames (gs.map List.flatten)).length +
        (4 + g.flatten.length + s.filter.buffer.contents.length) := by
      rw [arrived, hwritten, frames_append, List.length_append, frames_cons, List.length_append,
        List.length_append, List.length_append, List.length_append, BigEndian.length_toBytes]
      omega
    rw [harrived, hwritten, complete_append, hreturned, List.flatten_append, List.flatten_append,
      List.length_append, List.length_append, List.flatten_flatten, Nat.add_lt_add_iff_left]
    by_cases hcomplete : s.filter.size ≤ s.filter.buffer.contents.length
    · have hle : (frame (g.flatten ++ r)).length ≤
          4 + g.flatten.length + s.filter.buffer.contents.length := by
        rw [length_frame, List.length_append]
        omega
      rw [complete, if_pos hle, List.flatten_cons, List.length_append, List.length_append]
      exact iff_of_true ⟨hsize, hcomplete⟩ (by omega)
    · rw [complete_of_lt (by rw [length_frame, List.length_append]; omega)]
      exact iff_of_false (fun hready => hcomplete hready.2) (Nat.not_lt_zero _)

theorem drained (h : Inv s) (hwire : s.wire = []) (hready : s.filter.isReady = false) :
    s.returned.flatten = s.written.flatten := by
  have hnot : ¬(s.filter.size ≠ 0 ∧ s.filter.size ≤ s.filter.buffer.contents.length) := by
    rw [← PacketStreamFilter.isReady_iff h.synced.buffer, hready]
    exact Bool.false_ne_true
  by_cases hsize : s.filter.size = 0
  · obtain ⟨gs, ps, hrest, hreturned, hwritten⟩ := h.synced.progress.of_zero hsize
    have hshort := h.parsed hsize
    rw [hwire, List.append_nil] at hrest
    cases ps with
    | nil => rw [hreturned, hwritten, List.append_nil, List.flatten_flatten]
    | cons p ps =>
      rw [hrest, frames_cons, List.length_append, BigEndian.length_toBytes] at hshort
      omega
  · obtain ⟨gs, g, r, ps, hr, hrest, -, -⟩ := h.synced.progress.of_ne_zero hsize
    refine absurd ⟨hsize, ?_⟩ hnot
    rw [hwire, List.append_nil] at hrest
    rw [hrest, hr, List.length_append]
    exact Nat.le_add_right ..

end Inv

theorem length_complete_mono (ps : List Bytes) {m n : ℕ} (h : m ≤ n) :
    (complete ps m).flatten.length ≤ (complete ps n).flatten.length := by
  induction ps generalizing m n with
  | nil => exact le_rfl
  | cons p ps ih =>
    simp only [complete]
    split_ifs with hm hn hn
    · have hrest := ih (Nat.sub_le_sub_right h (frame p).length)
      rw [List.flatten_cons, List.flatten_cons, List.length_append, List.length_append]
      omega
    · omega
    · exact Nat.zero_le _
    · exact le_rfl

theorem Inv.notified (h : Inv s) {reads : List Bytes} (hfits : s.Fits (.arrive reads))
    (hst : s.step (.arrive reads) = some s') :
    s'.filter.events =
      if s.filter.isReady = false ∧ s'.filter.isReady = true then .inputReady :: s.filter.events
      else s.filter.events := by
  have h' := h.step hfits hst
  simp only [PacketStream.step] at hst
  split_ifs at hst with hreads
  cases hst
  obtain ⟨-, hevents⟩ := h.arrive hreads.2 hfits.1 hfits.2
  -- What was ready stays so.
  have hmono : s.filter.isReady = true → (s.filter.arrive reads).isReady = true := by
    intro hready
    refine h'.ready.2 (Nat.lt_of_lt_of_le (h.ready.1 hready) (length_complete_mono _ ?_))
    simp only [arrived, List.length_drop]
    omega
  rw [hevents]
  cases hbefore : s.filter.isReady with
  | false =>
    cases hafter : (s.filter.arrive reads).isReady <;> simp
  | true => simp [hmono hbefore]

/-- **The reader does not see the segments** in any run in which the buffer can count the bytes
that arrive and those that it discards. -/
theorem faithful_of_reachable (hs : lts.ReachableVia Fits s) : Faithful Fits s := by
  have h : Inv s := by
    refine hs.invariant (I := Inv) ?_ ?_
    · rintro s rfl
      exact .init
    · intro s e s' h hfits hst
      exact h.step hfits hst
  exact
    { pieces := h.pieces
      starts := h.starts
      drained := h.drained
      ready := h.ready
      notified := fun reads s' hfits hst => h.notified hfits hst }

/-- Two blocks; the length of the first is split between segments, and the second segment ends in
the length of the second. -/
def splitLength : List Event :=
  [.write [67, 65, 76, 86], .write [1, 2], .arrive [[0, 0]], .read 4,
    .arrive [[0, 4, 67, 65], [76, 86, 0]], .read 3, .read 3, .arrive [[0, 0, 2, 1, 2]], .read 8]

theorem faithful_of_reachable_splitLength :
    ∃ s : PacketStream, s.returned = [[67, 65, 76], [86], [1, 2]] ∧ Faithful Fits s := by
  have hrun : (lts.exec ⟨{}, [], [], []⟩ splitLength).map (fun s => s.returned) =
      some [[67, 65, 76], [86], [1, 2]] := by decide +kernel
  obtain ⟨s, hs, hreturned⟩ := Option.map_eq_some_iff.1 hrun
  exact ⟨s, hreturned, faithful_of_reachable (.of_exec (.init rfl) (by decide +kernel) hs)⟩

/-! ### A buffer that cannot count its bytes -/

theorem reachable_written {p : Bytes} (hp : Sendable p) (n : ℕ) :
    lts.ReachableVia Fits ⟨{}, List.replicate n p, frames (List.replicate n p), []⟩ := by
  induction n with
  | zero => exact .init rfl
  | succ n ih =>
    refine .step ih (l := .write p) trivial ?_
    simp only [lts, PacketStream.step, if_pos hp, List.replicate_succ', frames_append]
    rw [frames, frames, List.flatMap_singleton]

/-- Any bytes can arrive one by one. -/
theorem reachable_arrived (hs : lts.ReachableVia Fits s) {bytes : Bytes} (hwire : bytes <+: s.wire)
    (hfits : s.filter.buffer.contents.length + bytes.length < 2 ^ 32)
    (hheld : s.filter.buffer.held + (s.filter.stream.flatten.length + bytes.length) ≤ 2 ^ 32) :
    ∃ f, lts.ReachableVia Fits ⟨f, s.written, s.wire.drop bytes.length, s.returned⟩ := by
  have hflatten : (bytes.map fun b => [b]).flatten = bytes := by
    rw [← List.flatMap_def, List.flatMap_singleton']
  refine ⟨s.filter.arrive (bytes.map fun b => [b]),
    .step hs (l := .arrive (bytes.map fun b => [b])) ?_ ?_⟩
  · refine ⟨by rwa [hflatten], PacketStreamFilter.drainCounts_of_held ?_⟩
    rwa [List.flatten_append, List.length_append, hflatten]
  · have hpieces : ∀ piece ∈ bytes.map fun b => [b], Piece piece := by
      intro piece hpiece
      obtain ⟨b, -, rfl⟩ := List.mem_map.1 hpiece
      exact ⟨List.cons_ne_nil _ _, by simp⟩
    simp only [lts, PacketStream.step, hflatten, if_pos (And.intro hpieces hwire)]

/-- Nothing was given out yet, and the length of the first packet has arrived. -/
theorem Inv.first (h : Inv s) (hreturned : s.returned = []) {p : Bytes} {ps : List Bytes}
    (hwritten : s.written = p :: ps) (hlong : s.wire.length + 4 ≤ (frames s.written).length) :
    s.filter.size = p.length ∧ s.filter.buffer.contents ++ s.wire = p ++ frames ps := by
  -- Every block that was written has bytes.
  have hnil {gs : List (List Bytes)} {ps' : List Bytes}
      (hwrit : s.written = gs.map List.flatten ++ ps') (hgs : gs.flatten = []) : gs = [] := by
    cases gs with
    | nil => rfl
    | cons g gs =>
      have hg : g = [] := List.flatten_eq_nil_iff.1 hgs g (List.mem_cons_self ..)
      refine absurd rfl (h.sendable [] ?_).1
      rw [hwrit, hg]
      exact List.mem_cons_self ..
  by_cases hsize : s.filter.size = 0
  · obtain ⟨gs, ps', hrest, hret, hwrit⟩ := h.synced.progress.of_zero hsize
    have hshort := h.parsed hsize
    rw [hnil hwrit (hret.symm.trans hreturned)] at hwrit
    have hlength := congrArg List.length hrest
    rw [hwrit] at hlong
    rw [List.length_append] at hlength
    simp only [List.map_nil, List.nil_append] at hlong
    omega
  · obtain ⟨gs, g, r, ps', hr, hrest, hret, hwrit⟩ := h.synced.progress.of_ne_zero hsize
    rw [hreturned] at hret
    obtain ⟨hgs, rfl⟩ := List.append_eq_nil_iff.1 hret.symm
    obtain rfl := hnil hwrit hgs
    rw [hwritten] at hwrit
    obtain ⟨rfl, rfl⟩ := List.cons.inj hwrit
    exact ⟨hr, hrest⟩

/-- The size of the buffer starts over. -/
theorem isReady_arrive_of_wrap {f : PacketStreamFilter} (h : StreamBuffer.Ok f.buffer)
    (hstream : f.stream = []) (hsize : f.size ≠ 0) {bytes : Bytes} (hbytes : bytes ≠ [])
    (hwrap : f.buffer.contents.length + bytes.length = 2 ^ 32) :
    (f.arrive [bytes]).isReady = false := by
  have hzero : (f.buffer.write bytes).size = 0 := by
    unfold StreamBuffer.write
    rw [if_neg fun hnone => hbytes (List.length_eq_zero_iff.1 hnone)]
    show (f.buffer.size + bytes.length) % 2 ^ 32 = 0
    rw [h.size, hwrap]
    exact Nat.mod_self _
  simp only [PacketStreamFilter.arrive, PacketStreamFilter.filterEvent, PacketStreamFilter.readMore,
    hstream, List.nil_append, PacketStreamFilter.drain, PacketStreamFilter.readPacketSize, hsize,
    false_and, if_false, if_true]
  have hnot : (f.size != 0 && decide (f.size ≤ 0)) = false := by
    simp [hsize]
  split_ifs
  · simp only [PacketStreamFilter.isReady, PacketStreamFilter.post, hzero]
    exact hnot
  · simp only [PacketStreamFilter.isReady, hzero]
    exact hnot

theorem length_frames_replicate (p : Bytes) (n : ℕ) :
    (frames (List.replicate n p)).length = n * (4 + p.length) := by
  rw [frames, List.length_flatMap, List.map_replicate, List.sum_replicate_nat, length_frame]

/-- After 2 ^ 32 bytes without a read the buffer counts none. -/
theorem not_faithful_of_reachable :
    ¬∀ s : PacketStream, lts.Reachable s → Faithful (fun _ _ => True) s := by
  intro h
  obtain ⟨p, hp⟩ : ∃ p : Bytes, p.length = 2 ^ 20 - 4 :=
    ⟨List.replicate (2 ^ 20 - 4) 0, List.length_replicate⟩
  have hsend : Sendable p := by
    refine ⟨fun hnil => ?_, ?_⟩
    · rw [hnil] at hp
      cases hp
    · rw [hp]
      decide
  have hs₀ := reachable_written hsend 4097
  set wire := frames (List.replicate 4097 p)
  have hwire : wire.length = 4097 * 2 ^ 20 := by
    rw [length_frames_replicate, hp]
    omega
  have htake : (wire.take (2 ^ 32 - 1)).length = 2 ^ 32 - 1 := by
    rw [List.length_take, hwire]
    rfl
  -- All but one byte of what the buffer can count, and then five more.
  obtain ⟨f, hs₁⟩ := reachable_arrived hs₀ (List.take_prefix (2 ^ 32 - 1) wire) (by
    rw [htake]
    show 0 + (2 ^ 32 - 1) < 2 ^ 32
    omega) (by
    rw [htake]
    show 0 + (0 + (2 ^ 32 - 1)) ≤ 2 ^ 32
    omega)
  rw [htake] at hs₁
  have hinv : Inv ⟨f, List.replicate 4097 p, wire.drop (2 ^ 32 - 1), []⟩ := by
    refine hs₁.invariant (I := Inv) ?_ ?_
    · rintro s rfl
      exact .init
    · intro s e s' h hfits hst
      exact h.step hfits hst
  have hdrop : (wire.drop (2 ^ 32 - 1)).length = 4097 * 2 ^ 20 - (2 ^ 32 - 1) := by
    rw [List.length_drop, hwire]
  obtain ⟨hsize, hcontents⟩ := hinv.first rfl (List.replicate_succ (n := 4096)) (by
    show (wire.drop (2 ^ 32 - 1)).length + 4 ≤ wire.length
    rw [hdrop, hwire]
    omega)
  have hlength : f.buffer.contents.length + (wire.drop (2 ^ 32 - 1)).length =
      p.length + (frames (List.replicate 4096 p)).length := by
    rw [← List.length_append, ← List.length_append]
    exact congrArg List.length hcontents
  rw [hdrop, length_frames_replicate, hp] at hlength
  set bytes := (wire.drop (2 ^ 32 - 1)).take 5
  have hbytes : bytes.length = 5 := by
    rw [List.length_take, hdrop]
    rfl
  have hpiece : Piece bytes := by
    refine ⟨fun hnil => ?_, ?_⟩
    · rw [hnil] at hbytes
      cases hbytes
    · rw [hbytes]
      decide
  have hpieces : ∀ piece ∈ [bytes], Piece piece :=
    fun piece hmem => List.mem_singleton.1 hmem ▸ hpiece
  have hprefix : [bytes].flatten <+: wire.drop (2 ^ 32 - 1) := by
    rw [List.flatten_singleton]
    exact List.take_prefix 5 _
  have hs₂ : lts.Reachable ⟨f.arrive [bytes], List.replicate 4097 p,
      (wire.drop (2 ^ 32 - 1)).drop [bytes].flatten.length, []⟩ := by
    refine .step hs₁.reachable (l := .arrive [bytes]) trivial ?_
    simp only [lts, PacketStream.step, if_pos (And.intro hpieces hprefix)]
  have hready := (h _ hs₂).ready
  have hfalse : (f.arrive [bytes]).isReady = false := by
    refine isReady_arrive_of_wrap hinv.synced.buffer hinv.stream ?_ hpiece.1 ?_
    · have hsize' : f.size = p.length := hsize
      omega
    · show f.buffer.contents.length + _ = _
      rw [hbytes]
      omega
  -- The first packet is complete.
  refine Bool.false_ne_true (hfalse.symm.trans (hready.2 ?_))
  have hle : (frame p).length ≤ arrived ⟨f.arrive [bytes], List.replicate 4097 p,
      (wire.drop (2 ^ 32 - 1)).drop [bytes].flatten.length, []⟩ := by
    show _ ≤ wire.length - ((wire.drop (2 ^ 32 - 1)).drop [bytes].flatten.length).length
    rw [List.length_drop, hdrop, hwire, length_frame, hp]
    omega
  have hcomplete (n : ℕ) (hn : (frame p).length ≤ n) :
      0 < (complete (List.replicate 4097 p) n).flatten.length := by
    rw [List.replicate_succ, complete, if_pos hn, List.flatten_cons, List.length_append]
    omega
  exact hcomplete _ hle

end PacketStream

end InputLeap
