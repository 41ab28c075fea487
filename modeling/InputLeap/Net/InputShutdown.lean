import InputLeap.LTS.Basic
import InputLeap.Net.PacketStreamFilter

/-!
# The end of the input

When the stream below has no more input, the filter keeps the event back while it has a packet,
and sends it once that was read.

## Main definitions

* `InputShutdown.lts` : segments with any bytes, reads and the end of the input, in any order.
* `InputShutdown.Whole` : the input does not end in the middle of a packet that has its length.

## Main results

* `InputShutdown.emitted_of_reachable` : the event is not swallowed in runs with whole packets.
* `InputShutdown.not_emitted_of_reachable` : it is in others.
-/

namespace InputLeap

namespace InputShutdown

open StreamBuffer (Ok)

/-- What happens at a filter. -/
inductive Event
  /-- A segment arrives; the stream below gives it out in these pieces. -/
  | arrive (reads : List Bytes)
  | read (n : ℕ)
  | shutdown

/-- One step. -/
def step (f : PacketStreamFilter) : Event → Option PacketStreamFilter
  | .arrive reads => some (f.arrive reads)
  | .read n => some (f.read n).2
  | .shutdown => some (f.filterEvent .inputShutdown)

/-- The runs of a filter. -/
def lts : LTS PacketStreamFilter Event where
  init f := f = {}
  step := step

/-- The bytes start with the length of a packet, which is not empty, and lack some of its data. -/
def Incomplete (bytes : Bytes) : Prop :=
  4 ≤ bytes.length ∧ BigEndian.ofBytes (bytes.take 4) ≠ 0 ∧
    bytes.length < 4 + BigEndian.ofBytes (bytes.take 4)

instance (bytes : Bytes) : Decidable (Incomplete bytes) := inferInstanceAs (Decidable (_ ∧ _))

/-- The buffer can count its bytes and those that it discards, and no packet is incomplete when the
input ends or, after that, when a packet was read. -/
def Whole (f : PacketStreamFilter) : Event → Prop
  | .arrive reads =>
    f.buffer.contents.length + (f.stream ++ reads).flatten.length < 2 ^ 32 ∧ f.ArriveCounts reads
  | .read n =>
    f.ReadCounts n ∧ (f.inputShutdown = true → StreamEvent.inputShutdown ∉ f.events →
      f.size ≤ n → ¬Incomplete (f.buffer.contents.drop f.size))
  | .shutdown => f.size = 0 ∨ f.isReady = true

instance (f : PacketStreamFilter) : ∀ e, Decidable (Whole f e)
  | .arrive _ => inferInstanceAs (Decidable (_ < _ ∧ _))
  | .read _ => inferInstanceAs (Decidable (_ ∧ (_ → _ → _ → _)))
  | .shutdown => inferInstanceAs (Decidable (_ ∨ _))

/-- The end of the input was passed on, or there is a packet to read first. -/
def Emitted (f : PacketStreamFilter) : Prop :=
  f.inputShutdown = true → f.isReady = true ∨ StreamEvent.inputShutdown ∈ f.events

/-- The invariant. -/
structure Inv (f : PacketStreamFilter) : Prop where
  buffer : Ok f.buffer
  emitted : Emitted f

variable {f f' : PacketStreamFilter}

/-! ### Arrivals -/

/-- What taking in bytes keeps. -/
structure Grown (f f' : PacketStreamFilter) : Prop where
  buffer : Ok f'.buffer
  inputShutdown : f'.inputShutdown = f.inputShutdown
  events : ∀ e ∈ f.events, e ∈ f'.events
  ready : f.isReady = true → f'.isReady = true

theorem Grown.emitted (h : Grown f f') (hf : Emitted f) : Emitted f' := by
  intro hdown
  rw [h.inputShutdown] at hdown
  obtain hready | hmem := hf hdown
  · exact .inl (h.ready hready)
  · exact .inr (h.events _ hmem)

theorem Grown.trans {f'' : PacketStreamFilter} (h : Grown f f') (h' : Grown f' f'') :
    Grown f f'' :=
  ⟨h'.buffer, h'.inputShutdown.trans h.inputShutdown, fun e he => h'.events e (h.events e he),
    fun hready => h'.ready (h.ready hready)⟩

theorem grown_readPacketSize (h : Ok f.buffer) (hcounts : f.LengthCounts) :
    Grown f f.readPacketSize.1 ∧
      f.readPacketSize.1.buffer.contents.length ≤ f.buffer.contents.length := by
  obtain ⟨heq, -⟩ | ⟨header, rest, b, hzero, hsplit, -, hb, hrest, heq⟩ :=
    PacketStreamFilter.readPacketSize_cases h hcounts
  · rw [heq]
    exact ⟨⟨h, rfl, fun _ he => he, fun hready => hready⟩, Nat.le_refl _⟩
  · have hnot : f.isReady ≠ true := fun hready =>
      ((PacketStreamFilter.isReady_iff h).1 hready).1 hzero
    have hle : b.contents.length ≤ f.buffer.contents.length := by
      rw [hrest, hsplit, List.length_append]
      exact Nat.le_add_left ..
    rw [heq]
    split_ifs
    · exact ⟨⟨hb, rfl, fun _ he => List.mem_cons_of_mem _ he, fun hready => absurd hready hnot⟩,
        hle⟩
    · exact ⟨⟨hb, rfl, fun _ he => he, fun hready => absurd hready hnot⟩, hle⟩

theorem grown_write (h : Ok f.buffer) {chunk : Bytes}
    (hfits : f.buffer.contents.length + chunk.length < 2 ^ 32) :
    Grown f { f with buffer := f.buffer.write chunk } := by
  have hok := h.write hfits
  refine ⟨hok, rfl, fun _ he => he, fun hready => ?_⟩
  obtain ⟨hsize, hle⟩ := (PacketStreamFilter.isReady_iff h).1 hready
  refine (PacketStreamFilter.isReady_iff hok).2 ⟨hsize, ?_⟩
  rw [StreamBuffer.contents_write h, List.length_append]
  exact Nat.le_add_right_of_le hle

theorem grown_drain {reads : List Bytes} (h : Ok f.buffer)
    (hfits : f.buffer.contents.length + reads.flatten.length < 2 ^ 32)
    (hcounts : PacketStreamFilter.DrainCounts reads f) :
    Grown f (PacketStreamFilter.drain reads f) := by
  induction reads generalizing f with
  | nil => exact ⟨h, rfl, fun _ he => he, fun hready => hready⟩
  | cons chunk rest ih =>
    rw [List.flatten_cons, List.length_append] at hfits
    have h₁ : Grown f { f with buffer := f.buffer.write chunk } := grown_write h (by omega)
    obtain ⟨hcounts₁, hcounts₂⟩ := hcounts
    obtain ⟨h₂, hle⟩ := grown_readPacketSize h₁.buffer hcounts₁
    have hlength := congrArg List.length (StreamBuffer.contents_write h chunk)
    rw [List.length_append] at hlength
    simp only [PacketStreamFilter.drain]
    split_ifs with hok
    · exact (h₁.trans h₂).trans (ih h₂.buffer (by
        have hle' := hle
        simp only at hle'
        omega) (hcounts₂ hok))
    · have h₃ := h₁.trans h₂
      exact ⟨h₃.buffer, h₃.inputShutdown, h₃.events, h₃.ready⟩

theorem grown_arrive {reads : List Bytes} (h : Ok f.buffer)
    (hfits : f.buffer.contents.length + (f.stream ++ reads).flatten.length < 2 ^ 32)
    (hcounts : f.ArriveCounts reads) : Grown f (f.arrive reads) := by
  set f₀ : PacketStreamFilter := { f with stream := f.stream ++ reads }
  have hdrain : Grown f₀ (PacketStreamFilter.drain (f.stream ++ reads) f₀) :=
    grown_drain h hfits hcounts
  have harrive : f.arrive reads =
      if f₀.isReady != (PacketStreamFilter.drain (f.stream ++ reads) f₀).isReady then
        (PacketStreamFilter.drain (f.stream ++ reads) f₀).post .inputReady
      else PacketStreamFilter.drain (f.stream ++ reads) f₀ := rfl
  rw [harrive]
  split_ifs
  · exact ⟨hdrain.buffer, hdrain.inputShutdown,
      fun e he => List.mem_cons_of_mem _ (hdrain.events e he), hdrain.ready⟩
  · exact ⟨hdrain.buffer, hdrain.inputShutdown, hdrain.events, hdrain.ready⟩

/-! ### Reads -/

theorem Inv.read (h : Inv f) {n : ℕ} (hwhole : Whole f (.read n)) : Inv (f.read n).2 := by
  obtain ⟨hcounts, hwhole⟩ := hwhole
  obtain ⟨hnone, -⟩ | ⟨k, b, hpos, hk, hready, hb, hcontents, hcounts₁, hread⟩ :=
    PacketStreamFilter.read_cases f n h.buffer hcounts
  · rw [hnone]
    exact h
  · obtain ⟨hsize, hle⟩ := (PacketStreamFilter.isReady_iff h.buffer).1 hready
    set f₁ : PacketStreamFilter := { f with buffer := b, size := f.size - k }
    obtain ⟨h₂, -⟩ := grown_readPacketSize (f := f₁) hb hcounts₁
    have hdown₂ : f₁.readPacketSize.1.inputShutdown = f.inputShutdown := h₂.inputShutdown
    rw [hread]
    dsimp only
    split_ifs with hend
    · exact ⟨h₂.buffer, fun _ => .inr (List.mem_cons_self ..)⟩
    · refine ⟨h₂.buffer, fun hdown => ?_⟩
      by_cases hmem : StreamEvent.inputShutdown ∈ f.events
      · exact .inr (h₂.events _ hmem)
      refine .inl ?_
      have hnext : f₁.readPacketSize.1.size ≠ 0 := fun hzero => hend (by simp [hdown, hzero])
      obtain ⟨heq, -⟩ | ⟨header, rest, b', hzero, hsplit, hfour, hb', hrest, heq⟩ :=
        PacketStreamFilter.readPacketSize_cases (f := f₁) hb hcounts₁
      · -- The packet goes on.
        rw [heq] at hnext ⊢
        refine (PacketStreamFilter.isReady_iff hb).2 ⟨hnext, ?_⟩
        show f.size - k ≤ b.contents.length
        rw [hcontents, List.length_drop]
        omega
      · -- The next packet has its length, hence its data.
        have hall : f.size = k := by
          have hzero' : f.size - k = 0 := hzero
          omega
        have hwhole' := hwhole (hdown₂ ▸ hdown) hmem (by omega)
        have hsplit' : f.buffer.contents.drop f.size = header ++ rest := by
          rw [hall, ← hcontents]
          exact hsplit
        have htake : (header ++ rest).take 4 = header := by
          rw [← hfour, List.take_left]
        rw [hsplit', Incomplete, htake, List.length_append, hfour] at hwhole'
        have hsize₂ : f₁.readPacketSize.1.size = BigEndian.ofBytes header := by
          rw [heq]
          split_ifs <;> rfl
        have hcontents₂ : f₁.readPacketSize.1.buffer.contents = rest := by
          rw [heq]
          split_ifs <;> exact hrest
        refine (PacketStreamFilter.isReady_iff h₂.buffer).2 ⟨hnext, ?_⟩
        rw [hsize₂] at hnext
        rw [hsize₂, hcontents₂]
        by_contra hlt
        exact hwhole' ⟨by omega, hnext, by omega⟩

/-! ### Runs -/

theorem Inv.step {e : Event} (h : Inv f) (hwhole : Whole f e) (hst : step f e = some f') :
    Inv f' := by
  cases e with
  | arrive reads =>
    cases hst
    have hgrown := grown_arrive h.buffer hwhole.1 hwhole.2
    exact ⟨hgrown.buffer, hgrown.emitted h.emitted⟩
  | read n =>
    cases hst
    exact h.read hwhole
  | shutdown =>
    cases hst
    simp only [PacketStreamFilter.filterEvent]
    split_ifs with hsize
    · exact ⟨h.buffer, fun _ => .inl (hwhole.resolve_left hsize)⟩
    · exact ⟨h.buffer, fun _ => .inr (List.mem_cons_self ..)⟩

/-- **The end of the input is not swallowed** in any run in which it does not come in the middle
of a packet. -/
theorem emitted_of_reachable (hf : lts.ReachableVia Whole f) :
    f.inputShutdown = true → f.isReady = false → StreamEvent.inputShutdown ∈ f.events := by
  have h : Inv f := by
    refine hf.invariant (I := Inv) ?_ ?_
    · rintro f rfl
      exact ⟨StreamBuffer.ok_empty, fun hdown => (by cases hdown)⟩
    · intro f e f' h hwhole hst
      exact h.step hwhole hst
  intro hdown hready
  refine (h.emitted hdown).resolve_left ?_
  rw [hready]
  exact Bool.false_ne_true

/-- The input ends while a packet waits, and after it comes part of a length. -/
def endsInLength : List Event := [.arrive [[0, 0, 0, 2, 7, 8, 0, 0]], .shutdown, .read 1, .read 4]

theorem emitted_of_reachable_endsInLength :
    ∃ f : PacketStreamFilter, f.isReady = false ∧ StreamEvent.inputShutdown ∈ f.events := by
  have hrun : (lts.exec {} endsInLength).map (fun f => (f.inputShutdown, f.isReady)) =
      some (true, false) := by decide +kernel
  obtain ⟨f, hf, hend⟩ := Option.map_eq_some_iff.1 hrun
  obtain ⟨hdown, hready⟩ := Prod.mk.inj hend
  exact ⟨f, hready,
    emitted_of_reachable (.of_exec (.init rfl) (by decide +kernel) hf) hdown hready⟩

/-- The input ends after two of the five bytes of a packet. -/
theorem not_emitted_of_reachable :
    ¬∀ f : PacketStreamFilter, lts.Reachable f → f.inputShutdown = true → f.isReady = false →
      StreamEvent.inputShutdown ∈ f.events := by
  intro h
  have hrun : (lts.exec {} [.arrive [[0, 0, 0, 5, 1, 2]], .shutdown]).map
      (fun f => (f.inputShutdown, f.isReady, f.events)) = some (true, false, []) := by
    decide +kernel
  obtain ⟨f, hf, hend⟩ := Option.map_eq_some_iff.1 hrun
  obtain ⟨hdown, hrest⟩ := Prod.mk.inj hend
  obtain ⟨hready, hevents⟩ := Prod.mk.inj hrest
  have hmem := h f (.of_exec rfl hf) hdown hready
  rw [hevents] at hmem
  cases hmem

end InputShutdown

end InputLeap
