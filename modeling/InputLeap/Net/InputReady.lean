import InputLeap.Net.SecureSocket

/-!
# Received data is announced before the end of the stream

A socket reads as much as there is in one call and tells afterwards that there is input.  When an
error comes in the same call as the first data, it is told before the data, or the data is not
told at all.

## Main definitions

* `SecureSocket.tcpDoRead`, `SecureSocket.tcpReadIf` : reading without TLS.
* `ReadStream` : a socket with a note of whether data in its input buffer is still to be announced.
* `ReadStream.Clean` : no error comes in the call that puts the first data into the buffer.

## Main results

* `ReadStream.announced_of_reachable` : in runs of clean calls the end of the stream is not told
  while data is still to be announced.
* `ReadStream.not_announced_of_reachable` : not in all runs.
-/

namespace InputLeap

/-- What an operation on a socket can throw: that the peer is gone, or another error of the
network. -/
inductive NetworkError
  | disconnected
  | other
  deriving DecidableEq

/-- What reading from a socket gives (`readSocket`).  No data means the end of the stream, or that
there is none at the moment. -/
inductive SocketRead
  | data (bytes : Bytes)
  | throws (error : NetworkError)

/-! ### Reading without TLS

A plain TCP socket has the members of the base class; those for TLS stay as they are. -/

namespace SecureSocket

variable (s : SecureSocket)

/-- Reads as much as there is, but not much more than the input buffer is to hold; or meets an
error. -/
def tcpReadLoop (s : SecureSocket) (bytes : Bytes) :
    List SocketRead → Option (SecureSocket × Option NetworkError)
  | [] => if maxInputBufferSize < (s.slurp bytes).inputBuffer.size then some (s.slurp bytes, none)
    else none
  | r :: reads =>
    let s := s.slurp bytes
    if maxInputBufferSize < s.inputBuffer.size then some (s, none)
    else
      match r with
      | .throws error => some (s, some error)
      | .data bytes => if bytes ≠ [] then tcpReadLoop s bytes reads else some (s, none)

/-- The peer hung up; what was read stays in the buffer. -/
def hangUp : SecureSocket :=
  let s := s.sendEvent .streamInputShutdown
  let s :=
    if !s.writable && s.inputBuffer.size = 0 then
      { s.sendEvent .socketDisconnected with connected := false }
    else s
  { s with readable := false }

/-- Reads what the peer sent, or throws; `none` if the socket is read more often than it gives
results. -/
def tcpDoRead : List SocketRead → Option (SecureSocket × Except NetworkError JobResult)
  | [] => none
  | .throws error :: _ => some (s, .error error)
  | .data bytes :: reads =>
    if bytes ≠ [] then
      let wasEmpty := s.inputBuffer.size = 0
      (s.tcpReadLoop bytes reads).map fun (s, thrown) =>
        match thrown with
        | some error => (s, .error error)
        | none => (if wasEmpty then s.sendEvent .streamInputReady else s, .ok .retry)
    else some (s.hangUp, .ok .new)

/-- Reads if the multiplexer and the socket say so, and handles errors. -/
def tcpReadIf (read : Bool) (reads : List SocketRead) : Option (SecureSocket × JobResult) :=
  if read ∧ s.readable then
    (s.tcpDoRead reads).map fun (s, result) =>
      match result with
      | .ok result => (s, result)
      | .error .disconnected => ((s.sendEvent .socketDisconnected).onDisconnected, .new)
      | .error .other => (s, .retry)
  else some (s, .retry)

/-- What becomes of the job of a plain socket after reading. -/
def tcpStatusOf (readResult : JobResult) : JobStatus :=
  match readResult with
  | .breakChain => .stopServicing
  | .new =>
    match s.tcpNewJob with
    | some job => .replace job
    | none => .stopServicing
  | .retry => .continueServicing

/-- The multiplexer runs the job of a plain socket when there is something to read. -/
def tcpServiceRead (reads : List SocketRead) : Option SecureSocket :=
  if s.job.map SocketJob.kind = some .serviceConnected then
    (s.tcpReadIf true reads).map fun (s, result) => s.applyStatus (s.tcpStatusOf result)
  else none

/-- The multiplexer runs the job of a secure socket when there is something to read. -/
def serviceRead (answers : List ReadAnswer) : Option SecureSocket :=
  if s.job.map SocketJob.kind = some .serviceConnected then
    s.service true false false { reads := answers }
  else none

/-! ### Calls that put the first data into the buffer -/

/-- The call puts data into an empty input buffer. -/
def fills : List ReadAnswer → Bool
  | [] => false
  | a :: _ =>
    s.readable && s.secureReady && s.ssl && !s.fatal && s.inputBuffer.size == 0 && a.bytes != []

/-- The call puts data into an empty input buffer. -/
def tcpFills : List SocketRead → Bool
  | .data bytes :: _ => s.readable && s.inputBuffer.size == 0 && bytes != []
  | _ => false

end SecureSocket

/-- More answers bring data, and the first that brings none tells that the connection is over; the
buffer has room until then. -/
def BreaksOff (buffer : StreamBuffer) : List ReadAnswer → Prop
  | [] => False
  | a :: answers =>
    buffer.size ≤ SecureSocket.maxInputBufferSize ∧
      if a.bytes ≠ [] then BreaksOff (buffer.write a.bytes) answers else a.error.isFatal = true

/-- More results bring data, and the first that brings none is an error; the buffer has room until
then. -/
def TcpBreaksOff (buffer : StreamBuffer) : List SocketRead → Prop
  | [] => False
  | .throws _ :: _ => buffer.size ≤ SecureSocket.maxInputBufferSize
  | .data bytes :: reads =>
    buffer.size ≤ SecureSocket.maxInputBufferSize ∧ bytes ≠ [] ∧
      TcpBreaksOff (buffer.write bytes) reads

instance decidableBreaksOff : ∀ buffer answers, Decidable (BreaksOff buffer answers)
  | _, [] => .isFalse id
  | buffer, a :: answers =>
    have : Decidable (BreaksOff (buffer.write a.bytes) answers) := decidableBreaksOff _ answers
    inferInstanceAs (Decidable (_ ∧ _))

instance decidableTcpBreaksOff : ∀ buffer reads, Decidable (TcpBreaksOff buffer reads)
  | _, [] => .isFalse id
  | _, .throws _ :: _ => inferInstanceAs (Decidable (_ ≤ _))
  | buffer, .data bytes :: reads =>
    have : Decidable (TcpBreaksOff (buffer.write bytes) reads) := decidableTcpBreaksOff _ reads
    inferInstanceAs (Decidable (_ ∧ _ ∧ _))

/-! ### Runs -/

/-- A socket of which data is read. -/
structure ReadStream where
  socket : SecureSocket
  /-- The input buffer became non-empty, and that is still to be announced. -/
  owed : Bool := false
  /-- The end of the stream was told while data was still to be announced. -/
  missed : Bool := false

namespace ReadStream

/-- What happens to the stream. -/
inductive Action
  /-- The multiplexer lets a secure socket read. -/
  | serviceRead (answers : List ReadAnswer)
  /-- The multiplexer lets a plain socket read. -/
  | tcpServiceRead (reads : List SocketRead)
  /-- The owner reads. -/
  | read (n : ℕ)

/-- An event of the socket is heard. -/
def hear (r : ReadStream) : SocketEvent → ReadStream
  | .streamInputReady => { r with owed := false }
  | .streamInputShutdown | .socketDisconnected => { r with missed := r.missed || r.owed }
  | _ => r

/-- The socket goes on as `s`, perhaps with its first data, and its new events are heard. -/
def goOn (r : ReadStream) (filled : Bool) (s : SecureSocket) : ReadStream :=
  (s.events.drop r.socket.events.length).foldl hear
    { r with socket := s, owed := r.owed || filled }

variable (r : ReadStream)

/-- One step of a stream with TLS or without. -/
def step (secure : Bool) : Action → Option ReadStream
  | .serviceRead answers =>
    if secure then (r.socket.serviceRead answers).map (r.goOn (r.socket.fills answers)) else none
  | .tcpServiceRead reads =>
    if secure then none else (r.socket.tcpServiceRead reads).map (r.goOn (r.socket.tcpFills reads))
  | .read n => some (r.goOn false (r.socket.read n))

/-- The runs of a stream: nothing is received at first. -/
def lts (secure : Bool) : LTS ReadStream Action where
  init r := ∃ s : SecureSocket, s.inputBuffer = {} ∧ r = { socket := s }
  step r := r.step secure

/-- No error comes in a call that puts data into an empty input buffer. -/
def Clean : Action → Prop
  | .serviceRead [] => True
  | .serviceRead (a :: answers) =>
    r.socket.fills (a :: answers) = true → ¬BreaksOff (r.socket.inputBuffer.write a.bytes) answers
  | .tcpServiceRead (.data bytes :: reads) =>
    r.socket.tcpFills (.data bytes :: reads) = true →
      ¬TcpBreaksOff (r.socket.inputBuffer.write bytes) reads
  | .tcpServiceRead _ => True
  | .read _ => True

instance : ∀ a, Decidable (r.Clean a)
  | .serviceRead [] => .isTrue trivial
  | .serviceRead (_ :: _) => inferInstanceAs (Decidable (_ → _))
  | .tcpServiceRead [] => .isTrue trivial
  | .tcpServiceRead (.throws _ :: _) => .isTrue trivial
  | .tcpServiceRead (.data _ :: _) => inferInstanceAs (Decidable (_ → _))
  | .read _ => .isTrue trivial

end ReadStream

/-! ### One call -/

namespace SecureSocket

variable {s s' : SecureSocket} {a : ReadAnswer} {bytes : Bytes}

theorem secureRead_none (hssl : s.ssl = true) (hfatal : s.fatal = false) (hnone : a.error = .none) :
    s.secureRead a =
      ({ s.call .read with secureReadRetry := 0 }, (a.bytes.length : ℤ), a.bytes) := by
  have hlives : ¬(s.call .read).fatal = true := by
    show ¬s.fatal = true
    rw [hfatal]
    exact Bool.false_ne_true
  unfold secureRead
  rw [if_pos hssl, hnone]
  simp only [checkResult, if_neg hlives, ne_eq, not_true_eq_false, if_false]

theorem secureRead_want (hssl : s.ssl = true) (hfatal : s.fatal = false)
    (hwant : a.error.isWant = true) :
    ∃ writable, s.secureRead a =
      ({ s.call .read with
        writable := writable, secureReadRetry := s.secureReadRetry + 1 }, 0, []) := by
  obtain ⟨writable, hcheck⟩ := checkResult_want (s := s.call .read) hfatal hwant s.secureReadRetry
  have hbytes : a.bytes = [] := by
    refine if_neg fun hnone => ?_
    rw [hnone] at hwant
    cases hwant
  refine ⟨writable, ?_⟩
  have hretry : (s.call .read).secureReadRetry = s.secureReadRetry := rfl
  unfold secureRead
  rw [if_pos hssl, hbytes]
  dsimp only
  rw [hretry, hcheck]
  exact if_pos (Nat.succ_ne_zero _)

theorem SslError.eq_none_or (error : SslError) :
    error = .none ∨ error.isWant = true ∨ error.isFatal = true := by
  cases error with
  | none => exact .inl rfl
  | wantRead | wantWrite | wantConnect | wantAccept => exact .inr (.inl rfl)
  | zeroReturn | syscall | ssl | other => exact .inr (.inr rfl)

/-- The loop ends without an event, unless it is broken off. -/
theorem readLoop_events {answers : List ReadAnswer} {broken : Bool} (hssl : s.ssl = true)
    (hfatal : s.fatal = false) (hclean : ¬BreaksOff (s.inputBuffer.write bytes) answers)
    (hloop : s.readLoop bytes answers = some (s', broken)) :
    broken = false ∧ s'.events = s.events := by
  induction answers generalizing s bytes with
  | nil =>
    unfold readLoop at hloop
    obtain ⟨-, hloop⟩ := Option.ite_none_right_eq_some.1 hloop
    cases hloop
    exact ⟨rfl, rfl⟩
  | cons a answers ih =>
    unfold readLoop at hloop
    dsimp only at hloop
    by_cases hfull : maxInputBufferSize < (s.slurp bytes).inputBuffer.size
    · rw [if_pos hfull] at hloop
      cases hloop
      exact ⟨rfl, rfl⟩
    rw [if_neg hfull] at hloop
    have hroom : (s.inputBuffer.write bytes).size ≤ maxInputBufferSize := Nat.not_lt.1 hfull
    obtain hnone | hwant | hover := SslError.eq_none_or a.error
    · rw [secureRead_none (s := s.slurp bytes) hssl hfatal hnone] at hloop
      dsimp only at hloop
      rw [if_neg (Int.not_lt.2 (Int.natCast_nonneg _))] at hloop
      split_ifs at hloop with hmore
      · have hbytes : a.bytes ≠ [] := by
          intro hnil
          rw [hnil] at hmore
          exact hmore.elim (fun hne => hne rfl) (fun hpos => absurd hpos (by decide))
        exact ih (s := { (s.slurp bytes).call .read with secureReadRetry := 0 }) hssl hfatal
          (fun hbreaks => hclean ⟨hroom, by rw [if_pos hbytes]; exact hbreaks⟩) hloop
      · cases hloop
        exact ⟨rfl, rfl⟩
    · obtain ⟨writable, heq⟩ := secureRead_want (s := s.slurp bytes) hssl hfatal hwant
      rw [heq] at hloop
      cases hloop
      exact ⟨rfl, rfl⟩
    · have hbytes : ¬a.bytes ≠ [] := by
        refine not_not_intro (if_neg fun hnone => ?_)
        rw [hnone] at hover
        cases hover
      exact absurd ⟨hroom, by rw [if_neg hbytes]; exact hover⟩ hclean

/-- The loop ends without an event, unless it is broken off. -/
theorem tcpReadLoop_events {reads : List SocketRead} {thrown : Option NetworkError}
    (hclean : ¬TcpBreaksOff (s.inputBuffer.write bytes) reads)
    (hloop : s.tcpReadLoop bytes reads = some (s', thrown)) :
    thrown = none ∧ s'.events = s.events := by
  induction reads generalizing s bytes with
  | nil =>
    unfold tcpReadLoop at hloop
    obtain ⟨-, hloop⟩ := Option.ite_none_right_eq_some.1 hloop
    cases hloop
    exact ⟨rfl, rfl⟩
  | cons r reads ih =>
    unfold tcpReadLoop at hloop
    dsimp only at hloop
    by_cases hfull : maxInputBufferSize < (s.slurp bytes).inputBuffer.size
    · rw [if_pos hfull] at hloop
      cases hloop
      exact ⟨rfl, rfl⟩
    rw [if_neg hfull] at hloop
    have hroom : (s.inputBuffer.write bytes).size ≤ maxInputBufferSize := Nat.not_lt.1 hfull
    cases r with
    | throws error => exact absurd hroom hclean
    | data more =>
      dsimp only at hloop
      split_ifs at hloop with hmore
      · exact ih (s := s.slurp bytes) (fun hbreaks => hclean ⟨hroom, hmore, hbreaks⟩) hloop
      · cases hloop
        exact ⟨rfl, rfl⟩

theorem secureRead_fatal (hssl : s.ssl = true) (hover : a.error.isFatal = true) :
    ∃ t : SecureSocket, s.secureRead a = (t, -1, []) ∧ t.events = s.disconnect.events := by
  have hbytes : a.bytes = [] := by
    refine if_neg fun hnone => ?_
    rw [hnone] at hover
    cases hover
  have hcheck : ∃ t : SecureSocket, (s.call .read).checkResult a.error s.secureReadRetry = (t, 0) ∧
      t.fatal = true ∧ t.events = s.disconnect.events := by
    cases herror : a.error with
    | zeroReturn | syscall | ssl | other =>
      exact ⟨({ s.call .read with fatal := true } : SecureSocket).disconnect, rfl, rfl, rfl⟩
    | none | wantRead | wantWrite | wantConnect | wantAccept =>
      rw [herror] at hover
      cases hover
  obtain ⟨t, hcheck, hfatal, hevents⟩ := hcheck
  refine ⟨{ t with secureReadRetry := 0 }, ?_, hevents⟩
  have hretry : (s.call .read).secureReadRetry = s.secureReadRetry := rfl
  unfold secureRead
  rw [if_pos hssl, hbytes]
  dsimp only
  rw [hretry, hcheck]
  exact (if_neg (not_not_intro rfl)).trans (if_pos hfatal)

/-- The loop is broken off: the end of the connection is told. -/
theorem readLoop_breaks {answers : List ReadAnswer} {broken : Bool} (hssl : s.ssl = true)
    (hfatal : s.fatal = false) (hbreaks : BreaksOff (s.inputBuffer.write bytes) answers)
    (hloop : s.readLoop bytes answers = some (s', broken)) :
    broken = true ∧ s'.events = s.disconnect.events := by
  induction answers generalizing s bytes with
  | nil => exact hbreaks.elim
  | cons a answers ih =>
    obtain ⟨hroom, hbreaks⟩ := hbreaks
    have hfull : ¬maxInputBufferSize < (s.slurp bytes).inputBuffer.size := Nat.not_lt.2 hroom
    unfold readLoop at hloop
    dsimp only at hloop
    rw [if_neg hfull] at hloop
    split_ifs at hbreaks with hbytes
    · have hnone : a.error = .none :=
        Decidable.byContradiction fun herror => hbytes (if_neg herror)
      rw [secureRead_none (s := s.slurp bytes) hssl hfatal hnone] at hloop
      dsimp only at hloop
      rw [if_neg (Int.not_lt.2 (Int.natCast_nonneg _)), if_pos (.inl hbytes)] at hloop
      exact ih (s := { (s.slurp bytes).call .read with secureReadRetry := 0 }) hssl hfatal hbreaks
        hloop
    · obtain ⟨t, heq, hevents⟩ := secureRead_fatal (s := s.slurp bytes) hssl hbreaks
      rw [heq] at hloop
      cases hloop
      exact ⟨rfl, hevents⟩

/-- The loop is broken off by an error. -/
theorem tcpReadLoop_breaks {reads : List SocketRead} {thrown : Option NetworkError}
    (hbreaks : TcpBreaksOff (s.inputBuffer.write bytes) reads)
    (hloop : s.tcpReadLoop bytes reads = some (s', thrown)) :
    (∃ error, thrown = some error) ∧ s'.events = s.events := by
  induction reads generalizing s bytes with
  | nil => exact hbreaks.elim
  | cons r reads ih =>
    unfold tcpReadLoop at hloop
    dsimp only at hloop
    cases r with
    | throws error =>
      have hfull : ¬maxInputBufferSize < (s.slurp bytes).inputBuffer.size := Nat.not_lt.2 hbreaks
      rw [if_neg hfull] at hloop
      cases hloop
      exact ⟨⟨error, rfl⟩, rfl⟩
    | data more =>
      obtain ⟨hroom, hmore, hbreaks⟩ := hbreaks
      have hfull : ¬maxInputBufferSize < (s.slurp bytes).inputBuffer.size := Nat.not_lt.2 hroom
      rw [if_neg hfull] at hloop
      dsimp only at hloop
      rw [if_pos hmore] at hloop
      exact ih (s := s.slurp bytes) hbreaks hloop

theorem events_disconnect (s : SecureSocket) : s.disconnect.events =
    s.events ++ [.socketStopRetry, .socketDisconnected, .streamInputShutdown] := by
  simp only [disconnect, sendEvent, List.append_assoc, List.cons_append, List.nil_append]

theorem events_applyStatus (s : SecureSocket) (status : JobStatus) :
    (s.applyStatus status).events = s.events := by
  cases status with
  | stopServicing | continueServicing | replace => rfl

/-- The job of a socket that reads is that of a connection. -/
theorem doRead_of_serviceRead {answers : List ReadAnswer} (hreadable : s.readable = true)
    (hst : s.serviceRead answers = some s') :
    ∃ t result, s.doRead answers = some (t, result) ∧ s'.events = t.events := by
  unfold serviceRead at hst
  obtain ⟨hkind, hst⟩ := Option.ite_none_right_eq_some.1 hst
  obtain ⟨job, hjob, hkind⟩ := Option.map_eq_some_iff.1 hkind
  unfold service at hst
  rw [hjob] at hst
  dsimp only at hst
  rw [hkind] at hst
  simp only [serviceConnected, readIf, hreadable, Bool.false_eq_true, if_false, and_self, if_true]
    at hst
  obtain ⟨⟨t, status⟩, hserve, rfl⟩ := Option.map_eq_some_iff.1 hst
  obtain ⟨⟨t', result⟩, hread, heq⟩ := Option.map_eq_some_iff.1 hserve
  cases heq
  exact ⟨t', result, hread, events_applyStatus ..⟩

/-- A call that brings the first data goes on with the loop. -/
theorem readLoop_of_serviceRead {answers : List ReadAnswer} (hfills : s.fills (a :: answers) = true)
    (hst : s.serviceRead (a :: answers) = some s') :
    ∃ (t u : SecureSocket) (broken : Bool), t.ssl = true ∧ t.fatal = false ∧
      t.inputBuffer = s.inputBuffer ∧ t.events = s.events ∧
      t.readLoop a.bytes answers = some (u, broken) ∧
      s'.events = if broken then u.events else u.events ++ [.streamInputReady] := by
  simp only [fills, Bool.and_eq_true, Bool.not_eq_true', beq_iff_eq, bne_iff_ne] at hfills
  obtain ⟨⟨⟨⟨⟨hreadable, hready⟩, hssl⟩, hfatal⟩, hempty⟩, hbytes⟩ := hfills
  have hnone : a.error = .none :=
    Decidable.byContradiction fun herror => hbytes (if_neg herror)
  have hpos := List.length_pos_iff.2 hbytes
  obtain ⟨t, result, hread, hevents⟩ := doRead_of_serviceRead hreadable hst
  unfold doRead at hread
  rw [if_neg (by rw [hready]; exact Bool.false_ne_true)] at hread
  dsimp only at hread
  rw [secureRead_none hssl hfatal hnone] at hread
  dsimp only at hread
  rw [if_neg (Int.not_lt.2 (Int.natCast_nonneg _)), if_neg (by omega), if_pos hbytes] at hread
  obtain ⟨⟨u, broken⟩, hloop, heq⟩ := Option.map_eq_some_iff.1 hread
  refine ⟨{ s.call .read with secureReadRetry := 0 }, u, broken, hssl, hfatal, rfl, rfl, hloop, ?_⟩
  have hempty' : (s.call .read).inputBuffer.size = 0 := hempty
  rw [hevents]
  cases broken with
  | true =>
    cases heq
    rfl
  | false =>
    cases heq
    rw [if_pos hempty']
    rfl

/-- The first data is announced, unless the call is broken off: then the end is told. -/
theorem serviceRead_events {answers : List ReadAnswer} (hfills : s.fills (a :: answers) = true)
    (hst : s.serviceRead (a :: answers) = some s') :
    s'.events = if BreaksOff (s.inputBuffer.write a.bytes) answers then s.disconnect.events
      else s.events ++ [.streamInputReady] := by
  obtain ⟨t, u, broken, hssl, hfatal, hbuffer, hevents, hloop, hs'⟩ :=
    readLoop_of_serviceRead hfills hst
  rw [← hbuffer]
  split_ifs with hbreaks
  · obtain ⟨rfl, hu⟩ := readLoop_breaks hssl hfatal hbreaks hloop
    rw [hs', if_pos rfl, hu, events_disconnect, events_disconnect, hevents]
  · obtain ⟨rfl, hu⟩ := readLoop_events hssl hfatal hbreaks hloop
    rw [hs', if_neg Bool.false_ne_true, hu, hevents]

/-- The first data is announced, unless the call is broken off: then the end is told at most. -/
theorem tcpServiceRead_events {reads : List SocketRead}
    (hfills : s.tcpFills (.data bytes :: reads) = true)
    (hst : s.tcpServiceRead (.data bytes :: reads) = some s') :
    if TcpBreaksOff (s.inputBuffer.write bytes) reads then
      s'.events = s.events ++ [.socketDisconnected] ∨ s'.events = s.events
    else s'.events = s.events ++ [.streamInputReady] := by
  simp only [tcpFills, Bool.and_eq_true, beq_iff_eq, bne_iff_ne] at hfills
  obtain ⟨⟨hreadable, hempty⟩, hbytes⟩ := hfills
  unfold tcpServiceRead at hst
  obtain ⟨-, hst⟩ := Option.ite_none_right_eq_some.1 hst
  obtain ⟨⟨t, result⟩, hserve, rfl⟩ := Option.map_eq_some_iff.1 hst
  unfold tcpReadIf at hserve
  rw [if_pos ⟨rfl, hreadable⟩] at hserve
  obtain ⟨⟨t', outcome⟩, hread, heq⟩ := Option.map_eq_some_iff.1 hserve
  unfold tcpDoRead at hread
  dsimp only at hread
  rw [if_pos hbytes] at hread
  obtain ⟨⟨u, thrown⟩, hloop, hend⟩ := Option.map_eq_some_iff.1 hread
  rw [events_applyStatus]
  split_ifs with hbreaks
  · obtain ⟨⟨error, rfl⟩, hkept⟩ := tcpReadLoop_breaks hbreaks hloop
    cases hend
    cases error with
    | disconnected =>
      cases heq
      exact .inl (congrArg (· ++ [SocketEvent.socketDisconnected]) hkept)
    | other =>
      cases heq
      exact .inr hkept
  · obtain ⟨rfl, hkept⟩ := tcpReadLoop_events hbreaks hloop
    cases hend
    cases heq
    rw [if_pos hempty]
    exact congrArg (· ++ [SocketEvent.streamInputReady]) hkept

end SecureSocket

/-! ### Runs of clean calls -/

namespace ReadStream

variable {r r' : ReadStream}

/-- **What was received was announced**, and before the end of the stream was told. -/
structure Announced (r : ReadStream) : Prop where
  owed : r.owed = false
  missed : r.missed = false

/-- Events do no harm when nothing is to be announced. -/
theorem foldl_hear (howed : r.owed = false) (events : List SocketEvent) :
    (events.foldl hear r).owed = false ∧ (events.foldl hear r).missed = r.missed := by
  induction events generalizing r with
  | nil => exact ⟨howed, rfl⟩
  | cons e events ih =>
    have hone : (r.hear e).owed = false ∧ (r.hear e).missed = r.missed := by
      cases e with
      | streamInputReady => exact ⟨rfl, rfl⟩
      | streamInputShutdown | socketDisconnected =>
        exact ⟨howed, by show (r.missed || r.owed) = _; rw [howed, Bool.or_false]⟩
      | _ => exact ⟨howed, rfl⟩
    obtain ⟨howed', hmissed⟩ := ih hone.1
    exact ⟨howed', hmissed.trans hone.2⟩

/-- No first data came. -/
theorem Announced.goOn (h : Announced r) (s : SecureSocket) : Announced (r.goOn false s) := by
  have howed : (r.owed || false) = false := by rw [h.owed]; rfl
  obtain ⟨howed', hmissed⟩ :=
    foldl_hear (r := { r with socket := s, owed := r.owed || false }) howed
      (s.events.drop r.socket.events.length)
  exact ⟨howed', hmissed.trans h.missed⟩

/-- The first data came, and then these events. -/
theorem goOn_append {s : SecureSocket} {events : List SocketEvent}
    (hevents : s.events = r.socket.events ++ events) :
    r.goOn true s = events.foldl hear { r with socket := s, owed := true } := by
  unfold goOn
  rw [hevents, List.drop_left, Bool.or_true]

/-- Each step announces what it has to exactly if it is clean. -/
theorem Announced.step_iff (h : Announced r) {secure : Bool} {a : Action}
    (hst : r.step secure a = some r') : Announced r' ↔ r.Clean a := by
  cases a with
  | serviceRead answers =>
    obtain ⟨-, hst⟩ := Option.ite_none_right_eq_some.1 hst
    obtain ⟨s, hservice, rfl⟩ := Option.map_eq_some_iff.1 hst
    cases answers with
    | nil => exact iff_of_true (h.goOn s) trivial
    | cons a answers =>
      cases hfills : r.socket.fills (a :: answers) with
      | false =>
        refine iff_of_true (h.goOn s) fun hfills' => ?_
        rw [hfills] at hfills'
        cases hfills'
      | true =>
        have hevents := SecureSocket.serviceRead_events hfills hservice
        split_ifs at hevents with hbreaks
        · rw [goOn_append (hevents.trans (SecureSocket.events_disconnect _))]
          refine iff_of_false (fun hannounced => ?_) fun hclean => hclean hfills hbreaks
          cases hannounced.owed
        · rw [goOn_append hevents]
          exact iff_of_true ⟨rfl, h.missed⟩ fun _ => hbreaks
  | tcpServiceRead reads =>
    obtain ⟨-, hst⟩ := Option.ite_none_left_eq_some.1 hst
    obtain ⟨s, hservice, rfl⟩ := Option.map_eq_some_iff.1 hst
    cases reads with
    | nil => exact iff_of_true (h.goOn s) trivial
    | cons read reads =>
      cases read with
      | throws error => exact iff_of_true (h.goOn s) trivial
      | data bytes =>
        cases hfills : r.socket.tcpFills (.data bytes :: reads) with
        | false =>
          refine iff_of_true (h.goOn s) fun hfills' => ?_
          rw [hfills] at hfills'
          cases hfills'
        | true =>
          have hevents := SecureSocket.tcpServiceRead_events hfills hservice
          split_ifs at hevents with hbreaks
          · refine iff_of_false (fun hannounced => ?_) fun hclean => hclean hfills hbreaks
            obtain hevents | hevents := hevents
            · rw [goOn_append hevents] at hannounced
              cases hannounced.owed
            · rw [goOn_append (hevents.trans (List.append_nil _).symm)] at hannounced
              cases hannounced.owed
          · rw [goOn_append hevents]
            exact iff_of_true ⟨rfl, h.missed⟩ fun _ => hbreaks
  | read n =>
    cases hst
    exact iff_of_true (h.goOn _) trivial

/-- **Received data is announced before the end of the stream is told**, with TLS and without, in
every run in which no error comes in a call that puts data into an empty input buffer; the next
step keeps it so exactly if no error comes in such a call either. -/
theorem announced_of_reachable {secure : Bool} (hr : (lts secure).ReachableVia Clean r) :
    Announced r ∧
      ∀ a r', (lts secure).step r a = some r' → (Announced r' ↔ r.Clean a) := by
  have h : Announced r := by
    refine hr.invariant (I := Announced) ?_ ?_
    · rintro r ⟨s, -, rfl⟩
      exact ⟨rfl, rfl⟩
    · intro r a r' h hclean hst
      exact (h.step_iff hst).2 hclean
  refine ⟨h, ?_⟩
  intro a r' hst
  exact h.step_iff hst

/-- A connection with TLS, of which nothing was received yet. -/
def connected : SecureSocket :=
  { server := false
    securityLevel := .encrypted
    secureReady := true
    ssl := true
    connected := true
    readable := true
    writable := true
    job := some ⟨.serviceConnected, true, false⟩ }

/-- Data comes in two parts, the owner reads it, and the peer closes the connection. -/
def closedAfterwards : List Action :=
  [.serviceRead [⟨.none, [1]⟩, ⟨.none, [2]⟩, ⟨.wantRead, []⟩], .read 2,
    .serviceRead [⟨.zeroReturn, []⟩]]

theorem announced_of_reachable_closedAfterwards :
    ∃ r : ReadStream, Announced r ∧ SocketEvent.socketDisconnected ∈ r.socket.events := by
  have hrun : ((lts true).exec { socket := connected } closedAfterwards).map
      (fun r => r.socket.events) = some
        [.streamInputReady, .socketStopRetry, .socketDisconnected, .streamInputShutdown] := by
    decide +kernel
  obtain ⟨r, hr, hevents⟩ := Option.map_eq_some_iff.1 hrun
  refine ⟨r, (announced_of_reachable
    (.of_exec (.init ⟨_, rfl, rfl⟩) (by decide +kernel) hr)).1, ?_⟩
  rw [hevents]
  decide

/-- The peer sends a message and closes the connection before the socket reads. -/
theorem not_announced_of_reachable :
    ¬∀ secure r, (lts secure).Reachable r → Announced r := by
  intro h
  have hrun : ((lts true).exec { socket := connected }
      [.serviceRead [⟨.none, [1]⟩, ⟨.zeroReturn, []⟩]]).map (fun r => r.missed) = some true := by
    decide +kernel
  obtain ⟨r, hr, hmissed⟩ := Option.map_eq_some_iff.1 hrun
  have hannounced := (h true r (.of_exec ⟨_, rfl, rfl⟩ hr)).missed
  rw [hmissed] at hannounced
  cases hannounced

end ReadStream

end InputLeap
