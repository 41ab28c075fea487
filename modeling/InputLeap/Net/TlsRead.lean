import InputLeap.Net.InputReady
import InputLeap.Net.Pinning

/-!
# Bytes left in the TLS library

The TLS library takes a whole record from the socket and hands it out in the pieces that it is
asked for.  What it keeps of a record is decrypted and no longer in the socket, so the multiplexer
does not see it: if `SecureSocket::doRead` stops in the middle of a record, the rest waits until
the peer sends something else.  It does that when the input buffer goes over its limit.

## Main definitions

* `TlsLayer` : what the library keeps of a record, and what waits at the socket.
* `TlsLayer.sslRead` : the answer to a call that asks for 4096 bytes.
* `TlsSocket`, `TlsSocket.lts` : a secure socket with its library, and their runs.
* `TlsSocket.Fits` : the last piece of every record is asked for before the input buffer is over
  its limit.

## Main results

* `readLoop_tls` : the loop ends, and leaves nothing behind exactly if the records fit.
* `SecureSocket.quiet_step`, `SecureSocket.service_cases` : nothing but `doRead` asks for data.
* `TlsSocket.drained_of_reachable` : nothing is left behind in every run whose reads fit, and the
  next read leaves nothing behind exactly if it fits, too.
-/

namespace InputLeap

/-- What the library finds at the socket. -/
inductive Incoming
  /-- A record of application data. -/
  | record (data : { d : Bytes // d ≠ [] })
  /-- Anything that makes the library answer without data: a part of a record, a message of the
  TLS protocol, the end of the connection, an error. -/
  | other (error : { e : SslError // e ≠ .none })

/-- The library's side of a connection. -/
structure TlsLayer where
  /-- What is decrypted and was not asked for yet (`SSL_pending`). -/
  pending : Bytes := []
  /-- What waits at the socket, which the multiplexer polls. -/
  waiting : List Incoming := []

namespace TlsLayer

/-- The size of the buffer in `doRead`. -/
def pieceSize : ℕ := 4096

/-- `SSL_read` hands out the rest of a record first, and goes on with the socket when there is
none. -/
def sslRead (t : TlsLayer) : ReadAnswer × TlsLayer :=
  if t.pending ≠ [] then
    (⟨.none, t.pending.take pieceSize⟩, { t with pending := t.pending.drop pieceSize })
  else
    match t.waiting with
    | [] => (⟨.wantRead, []⟩, t)
    | .record d :: waiting => (⟨.none, d.1.take pieceSize⟩, ⟨d.1.drop pieceSize, waiting⟩)
    | .other e :: waiting => (⟨e.1, []⟩, ⟨[], waiting⟩)

/-- The answers to `n` calls in a row. -/
def answers : ℕ → TlsLayer → List ReadAnswer
  | 0, _ => []
  | n + 1, t => t.sslRead.1 :: answers n t.sslRead.2

/-- The library after `n` calls. -/
def after : ℕ → TlsLayer → TlsLayer
  | 0, t => t
  | n + 1, t => after n t.sslRead.2

/-- The number of bytes in what waits at the socket. -/
def waitingSize : List Incoming → ℕ
  | [] => 0
  | .record d :: waiting => d.1.length + waitingSize waiting
  | .other _ :: waiting => waitingSize waiting

/-- The number of bytes that the library can hand out. -/
def size (t : TlsLayer) : ℕ := t.pending.length + waitingSize t.waiting

end TlsLayer

namespace SecureSocket

/-- How often the library was asked for data. -/
def reads (s : SecureSocket) : ℕ := s.calls.count .read

end SecureSocket

/-- A secure socket and its library. -/
structure TlsSocket where
  socket : SecureSocket
  tls : TlsLayer

namespace TlsSocket

open SecureSocket (Action maxInputBufferSize)

/-- The socket after a step in which it asked for data as often as it notes. -/
def advance (st : TlsSocket) (s : SecureSocket) : TlsSocket :=
  ⟨s, st.tls.after (s.reads - st.socket.reads)⟩

/-- The answers that the library has for one call of `doRead`. -/
def answers (st : TlsSocket) : List ReadAnswer := st.tls.answers (st.tls.size + 1)

/-- `doRead` with the answers of the library. -/
def doRead (st : TlsSocket) : Option (TlsSocket × JobResult) :=
  (st.socket.doRead st.answers).map fun (s, result) => (st.advance s, result)

/-- What happens to a socket and its library. -/
inductive Event
  /-- Something arrives at the socket. -/
  | arrive (incoming : Incoming)
  | act (a : Action)

/-- What is read are the answers of the library. -/
def withAnswers (st : TlsSocket) : Action → Action
  | .service read write error answers =>
    .service read write error { answers with reads := st.answers }
  | a => a

def step (st : TlsSocket) : Event → Option TlsSocket
  | .arrive incoming => some { st with tls.waiting := st.tls.waiting ++ [incoming] }
  | .act a => (st.socket.step (st.withAnswers a)).map st.advance

/-- The runs of a socket, from before its handshake on. -/
def lts : LTS TlsSocket Event where
  init st := SecureSocket.lts.init st.socket ∧ st.tls = {}
  step := step

/-- With `size` bytes in the input buffer, the last piece of `rest` bytes of a record is asked for
at or below the limit. -/
def LastFits (size rest : ℕ) : Prop :=
  0 < rest →
    size + TlsLayer.pieceSize * ((rest - 1) / TlsLayer.pieceSize) ≤ maxInputBufferSize

/-- The last piece of each record is asked for at or below the limit: of the rest of one, and of
those that wait, up to the one that takes the input buffer over its limit. -/
def Room (size rest : ℕ) : List Incoming → Prop
  | [] => LastFits size rest
  | .other _ :: _ => LastFits size rest
  | .record d :: waiting =>
    LastFits size rest ∧
      (size + rest ≤ maxInputBufferSize → Room (size + rest) d.1.length waiting)

/-- The same for a call of `doRead`, which asks for a first piece in any case. -/
def Fits (size : ℕ) : List Incoming → Prop
  | [] => True
  | .other _ :: _ => True
  | .record d :: waiting =>
    Room ((size + min TlsLayer.pieceSize d.1.length) % 2 ^ 32) (d.1.length - TlsLayer.pieceSize)
      waiting

/-- In a step that reads application data, the records fit. -/
def Fitting (st : TlsSocket) : Event → Prop
  | .act (.service read _ error _) =>
    st.socket.job.map SocketJob.kind = some .serviceConnected → error = false → read = true →
      st.socket.readable = true → st.socket.secureReady = true →
        Fits st.socket.inputBuffer.size st.tls.waiting
  | _ => True

variable {size rest : ℕ} {waiting : List Incoming}

/-! ### Room -/

theorem lastFits_zero (size : ℕ) : LastFits size 0 := fun h => absurd h (Nat.lt_irrefl 0)

/-- Taking a piece of the rest changes nothing. -/
theorem lastFits_piece (hsize : size ≤ maxInputBufferSize) (hrest : 0 < rest) :
    LastFits size rest ↔
      LastFits (size + min TlsLayer.pieceSize rest) (rest - TlsLayer.pieceSize) := by
  unfold LastFits TlsLayer.pieceSize
  obtain hlt | hle := Nat.lt_or_ge 4096 rest
  · have hdiv : (rest - 1) / 4096 = (rest - 4096 - 1) / 4096 + 1 := by omega
    rw [hdiv, Nat.min_eq_left (Nat.le_of_lt hlt)]
    constructor
    · intro h _
      have := h hrest
      omega
    · intro h _
      have := h (by omega)
      omega
  · have hdiv : (rest - 1) / 4096 = 0 := Nat.div_eq_of_lt (by omega)
    rw [hdiv]
    constructor
    · intro _ hpos
      omega
    · intro _ _
      omega

theorem room_zero (hsize : size ≤ maxInputBufferSize) (d : { d : Bytes // d ≠ [] }) :
    Room size 0 (.record d :: waiting) ↔ Room size d.1.length waiting := by
  constructor
  · rintro ⟨-, h⟩
    exact h hsize
  · intro h
    exact ⟨lastFits_zero size, fun _ => h⟩

theorem room_piece (hsize : size ≤ maxInputBufferSize) (hrest : 0 < rest) :
    Room size rest waiting ↔
      Room (size + min TlsLayer.pieceSize rest) (rest - TlsLayer.pieceSize) waiting := by
  have hsum : size + min TlsLayer.pieceSize rest + (rest - TlsLayer.pieceSize) = size + rest := by
    omega
  cases waiting with
  | nil => exact lastFits_piece hsize hrest
  | cons incoming waiting =>
    cases incoming with
    | other e => exact lastFits_piece hsize hrest
    | record d =>
      rw [Room, Room, hsum]
      exact and_congr_left' (lastFits_piece hsize hrest)

/-- Up to the limit the first piece is asked for like every other. -/
theorem fits_record (hsize : size ≤ maxInputBufferSize) (d : { d : Bytes // d ≠ [] }) :
    Fits size (.record d :: waiting) ↔ Room size d.1.length waiting := by
  have hmod : (size + min TlsLayer.pieceSize d.1.length) % 2 ^ 32 =
      size + min TlsLayer.pieceSize d.1.length := by
    refine Nat.mod_eq_of_lt ?_
    have := Nat.min_le_left TlsLayer.pieceSize d.1.length
    unfold TlsLayer.pieceSize maxInputBufferSize at *
    omega
  rw [Fits, hmod]
  exact (room_piece hsize (List.length_pos_iff.2 d.2)).symm

/-- Over the limit there is room for nothing more. -/
theorem room_iff_of_lt (hsize : maxInputBufferSize < size) : Room size rest waiting ↔ rest = 0 := by
  have hlast : LastFits size rest ↔ rest = 0 := by
    constructor
    · intro h
      refine Nat.eq_zero_of_not_pos fun hpos => ?_
      have := h hpos
      omega
    · rintro rfl
      exact lastFits_zero size
  cases waiting with
  | nil => exact hlast
  | cons incoming waiting =>
    cases incoming with
    | other e => exact hlast
    | record d =>
      rw [Room]
      constructor
      · exact fun h => hlast.1 h.1
      · intro h
        exact ⟨hlast.2 h, fun hle => by omega⟩

end TlsSocket

/-! ### Answers of the library -/

namespace TlsLayer

open SecureSocket (maxInputBufferSize)
open TlsSocket (Room)

/-- A call gives a piece of a record, which changes nothing in the room that is needed, or no data
when nothing is left of a record. -/
theorem sslRead_cases (t : TlsLayer) :
    (∃ more t', t.sslRead = (⟨.none, more⟩, t') ∧ more ≠ [] ∧ more.length ≤ pieceSize ∧
      t'.size < t.size ∧ (∀ incoming ∈ t'.waiting, incoming ∈ t.waiting) ∧
      ∀ size ≤ maxInputBufferSize, (Room size t.pending.length t.waiting ↔
        Room (size + more.length) t'.pending.length t'.waiting)) ∨
    ∃ error t', t.sslRead = (⟨error, []⟩, t') ∧ error ≠ .none ∧ t'.pending = [] ∧
      (error.isFatal = true → ∃ e, .other e ∈ t.waiting ∧ e.1.isFatal = true) ∧
      ∀ size, Room size t.pending.length t.waiting := by
  obtain ⟨pending, waiting⟩ := t
  by_cases hp : pending = []
  · subst hp
    cases waiting with
    | nil =>
      refine .inr ⟨.wantRead, ⟨[], []⟩, rfl, by decide, rfl, fun h => (nomatch h), ?_⟩
      exact fun size => TlsSocket.lastFits_zero size
    | cons incoming waiting =>
      cases incoming with
      | other e =>
        refine .inr ⟨e.1, ⟨[], waiting⟩, rfl, e.2, rfl, fun h => ?_, ?_⟩
        · exact ⟨e, List.mem_cons_self, h⟩
        · exact fun size => TlsSocket.lastFits_zero size
      | record d =>
        have hpos := List.length_pos_iff.2 d.2
        refine .inl ⟨d.1.take pieceSize, ⟨d.1.drop pieceSize, waiting⟩, rfl, ?_, ?_, ?_, ?_, ?_⟩
        · rw [ne_eq, List.take_eq_nil_iff]
          simp [pieceSize, d.2]
        · exact List.length_take_le _ _
        · simp only [TlsLayer.size, waitingSize, List.length_drop, List.length_nil, pieceSize]
          omega
        · exact fun incoming h => List.mem_cons_of_mem _ h
        · intro size hsize
          rw [List.length_nil, TlsSocket.room_zero hsize, TlsSocket.room_piece hsize hpos,
            List.length_take, List.length_drop]
  · have hpos := List.length_pos_iff.2 hp
    refine .inl ⟨pending.take pieceSize, ⟨pending.drop pieceSize, waiting⟩, if_pos hp,
      ?_, ?_, ?_, fun incoming h => h, ?_⟩
    · rw [ne_eq, List.take_eq_nil_iff]
      simp [pieceSize, hp]
    · exact List.length_take_le _ _
    · simp only [TlsLayer.size, List.length_drop, pieceSize]
      omega
    · intro size hsize
      rw [TlsSocket.room_piece hsize hpos, List.length_take, List.length_drop]

end TlsLayer

/-! ### One call of `doRead` -/

namespace SecureSocket

variable {s s' : SecureSocket} {a : ReadAnswer}

theorem reads_secureRead (hssl : s.ssl = true) (a : ReadAnswer) :
    (s.secureRead a).1.reads = s.reads + 1 := by
  cases herror : a.error <;> cases hfatal : s.fatal <;>
    simp [secureRead, checkResult, call, disconnect, sendEvent, reads, hssl, herror, hfatal]

theorem fatal_secureRead (hssl : s.ssl = true) (hover : a.error.isFatal = true) :
    (s.secureRead a).1.fatal = true := by
  cases herror : a.error with
  | none | wantRead | wantWrite | wantConnect | wantAccept =>
    rw [herror] at hover
    cases hover
  | zeroReturn | syscall | ssl | other =>
    simp [secureRead, checkResult, call, disconnect, sendEvent, hssl, herror]

theorem size_slurp {bytes : Bytes} (hbytes : bytes ≠ []) (s : SecureSocket) :
    (s.slurp bytes).inputBuffer.size = (s.inputBuffer.size + bytes.length) % 2 ^ 32 := by
  unfold slurp StreamBuffer.write
  rw [if_neg (Nat.ne_of_gt (List.length_pos_iff.2 hbytes))]

/-- The loop ends.  It leaves nothing of a record behind exactly if there is room, or the
connection fails. -/
theorem readLoop_tls {n : ℕ} (bytes : Bytes) {t : TlsLayer} (hssl : s.ssl = true)
    (hfatal : s.fatal = false) (hn : t.size < n) :
    ∃ s' broken k, s.readLoop bytes (t.answers n) = some (s', broken) ∧ s'.reads = s.reads + k ∧
      (broken = false ∧ s'.fatal = false ∧ s'.ssl = true ∧ ((t.after k).pending = [] ↔
          TlsSocket.Room (s.slurp bytes).inputBuffer.size t.pending.length t.waiting) ∨
        broken = true ∧ s'.fatal = true ∧ ∃ e, .other e ∈ t.waiting ∧ e.1.isFatal = true) := by
  induction n generalizing s bytes t with
  | zero => omega
  | succ n ih =>
    rw [TlsLayer.answers, readLoop]
    dsimp only
    by_cases hfull : maxInputBufferSize < (s.slurp bytes).inputBuffer.size
    · -- the buffer is full: the loop ends before it reads
      refine ⟨s.slurp bytes, false, 0, if_pos hfull, rfl, .inl ⟨rfl, hfatal, hssl, ?_⟩⟩
      rw [TlsSocket.room_iff_of_lt hfull]
      exact List.length_eq_zero_iff.symm
    rw [if_neg hfull]
    obtain ⟨more, t', hread, hne, hlen, hsize, hmem, hroom⟩ |
      ⟨error, t', hread, herror, hp, hover, hroom⟩ := t.sslRead_cases
    · -- a piece of a record: the loop goes on
      have hpos := List.length_pos_iff.2 hne
      rw [hread, secureRead_none (s := s.slurp bytes) hssl hfatal rfl]
      dsimp only
      rw [if_neg (Int.not_lt.2 (Int.natCast_nonneg _)), if_pos (.inl hne)]
      obtain ⟨s', broken, k, hloop, hreads, hend⟩ :=
        ih (s := { (s.slurp bytes).call .read with secureReadRetry := 0 }) more
          (t := t') hssl hfatal (by omega)
      have hslurp : (({ (s.slurp bytes).call .read with secureReadRetry := 0 } :
          SecureSocket).slurp more).inputBuffer.size =
          (s.slurp bytes).inputBuffer.size + more.length := by
        rw [size_slurp hne, Nat.mod_eq_of_lt]
        · rfl
        · show (s.slurp bytes).inputBuffer.size + more.length < 2 ^ 32
          unfold maxInputBufferSize at hfull
          unfold TlsLayer.pieceSize at hlen
          omega
      refine ⟨s', broken, k + 1, hloop, ?_, ?_⟩
      · rw [hreads]
        simp [reads, call, slurp]
        omega
      · rw [TlsLayer.after, hread, hroom _ (Nat.not_lt.1 hfull), ← hslurp]
        obtain h | ⟨hb, hf, e, he, hfat⟩ := hend
        · exact .inl h
        · exact .inr ⟨hb, hf, e, hmem _ he, hfat⟩
    · rw [hread]
      -- no bytes: the layer wants more from the network, or has failed
      obtain hnone | hwant | hfat := SslError.eq_none_or error
      · exact absurd hnone herror
      · obtain ⟨writable, heq⟩ := secureRead_want (s := s.slurp bytes)
          (a := ⟨error, []⟩) hssl hfatal hwant
        rw [heq]
        refine ⟨_, false, 1, rfl, ?_, .inl ⟨rfl, hfatal, hssl, ?_⟩⟩
        · simp [reads, call, slurp]
        · rw [TlsLayer.after, TlsLayer.after, hread]
          exact iff_of_true hp (hroom _)
      · obtain ⟨u, heq, -⟩ := secureRead_fatal (s := s.slurp bytes) (a := ⟨error, []⟩) hssl hfat
        have hreads := reads_secureRead (s := s.slurp bytes) hssl ⟨error, []⟩
        have hfatal' := fatal_secureRead (s := s.slurp bytes) (a := ⟨error, []⟩) hssl hfat
        rw [heq] at hreads hfatal'
        rw [heq]
        exact ⟨u, true, 1, rfl, hreads, .inr ⟨rfl, hfatal', hover hfat⟩⟩

theorem doRead_want {u : SecureSocket} {answers : List ReadAnswer} (hready : s.secureReady = true)
    (hread : s.secureRead a = (u, 0, [])) : s.doRead (a :: answers) = some (u, .new) := by
  rw [doRead, if_neg (by simp [hready])]
  dsimp only
  rw [hread]
  rfl

theorem doRead_over {u : SecureSocket} {bytes : Bytes} {answers : List ReadAnswer}
    (hready : s.secureReady = true) (hread : s.secureRead a = (u, -1, bytes)) :
    s.doRead (a :: answers) = some (u, .breakChain) := by
  rw [doRead, if_neg (by simp [hready])]
  dsimp only
  rw [hread]
  rfl

theorem doRead_data {u : SecureSocket} {bytes : Bytes} {answers : List ReadAnswer} {broken : Bool}
    (hready : s.secureReady = true) (hread : s.secureRead a = (u, (bytes.length : ℤ), bytes))
    (hne : bytes ≠ []) (hloop : u.readLoop bytes answers = some (s', broken)) :
    s.doRead (a :: answers) =
      some (if broken then (s', .breakChain)
        else (if u.inputBuffer.size = 0 then s'.sendEvent .streamInputReady else s', .retry)) := by
  have hpos := List.length_pos_iff.2 hne
  rw [doRead, if_neg (by simp [hready])]
  dsimp only
  rw [hread]
  dsimp only
  rw [if_neg (Int.not_lt.2 (Int.natCast_nonneg _)), if_neg (by omega), if_pos hne, hloop]
  rfl

/-- A call on an open connection with nothing left of a record returns; it leaves nothing behind
exactly if the records fit, or the connection fails. -/
theorem doRead_tls {t : TlsLayer} {n : ℕ} (hready : s.secureReady = true) (hssl : s.ssl = true)
    (hfatal : s.fatal = false) (hn : t.size < n) (hp : t.pending = []) :
    ∃ s' result k, s.doRead (t.answers n) = some (s', result) ∧ s'.reads = s.reads + k ∧
      (result ≠ .breakChain ∧ s'.fatal = false ∧ s'.ssl = true ∧
          ((t.after k).pending = [] ↔ TlsSocket.Fits s.inputBuffer.size t.waiting) ∨
        result = .breakChain ∧ s'.fatal = true ∧
          ∃ e, .other e ∈ t.waiting ∧ e.1.isFatal = true) := by
  obtain ⟨n, rfl⟩ : ∃ m, n = m + 1 := ⟨n - 1, by omega⟩
  obtain ⟨pending, waiting⟩ := t
  obtain rfl : pending = [] := hp
  cases waiting with
  | nil =>
    have hread : TlsLayer.sslRead ⟨[], []⟩ = (⟨.wantRead, []⟩, ⟨[], []⟩) := rfl
    obtain ⟨writable, heq⟩ := secureRead_want (a := ⟨.wantRead, []⟩) hssl hfatal rfl
    rw [TlsLayer.answers, hread]
    refine ⟨_, .new, 1, doRead_want hready heq, ?_, .inl ⟨by decide, hfatal, hssl, ?_⟩⟩
    · simp [reads, call]
    · exact iff_of_true rfl trivial
  | cons incoming waiting =>
    cases incoming with
    | other e =>
      have hread : TlsLayer.sslRead ⟨[], .other e :: waiting⟩ = (⟨e.1, []⟩, ⟨[], waiting⟩) := rfl
      rw [TlsLayer.answers, hread]
      obtain hnone | hwant | hfat := SslError.eq_none_or e.1
      · exact absurd hnone e.2
      · obtain ⟨writable, heq⟩ := secureRead_want (a := ⟨e.1, []⟩) hssl hfatal hwant
        refine ⟨_, .new, 1, doRead_want hready heq, ?_, .inl ⟨by decide, hfatal, hssl, ?_⟩⟩
        · simp [reads, call]
        · exact iff_of_true rfl trivial
      · obtain ⟨u, heq, -⟩ := secureRead_fatal (a := ⟨e.1, []⟩) hssl hfat
        have hreads := reads_secureRead hssl ⟨e.1, []⟩
        have hfatal' := fatal_secureRead (a := ⟨e.1, []⟩) hssl hfat
        rw [heq] at hreads hfatal'
        exact ⟨u, .breakChain, 1, doRead_over hready heq, hreads,
          .inr ⟨rfl, hfatal', e, List.mem_cons_self, hfat⟩⟩
    | record d =>
      have hread : TlsLayer.sslRead ⟨[], .record d :: waiting⟩ =
          (⟨.none, d.1.take TlsLayer.pieceSize⟩, ⟨d.1.drop TlsLayer.pieceSize, waiting⟩) := rfl
      have hpos := List.length_pos_iff.2 d.2
      have hne : d.1.take TlsLayer.pieceSize ≠ [] := by
        rw [ne_eq, List.take_eq_nil_iff]
        simp [TlsLayer.pieceSize, d.2]
      have hsize : TlsLayer.size ⟨d.1.drop TlsLayer.pieceSize, waiting⟩ < n := by
        simp only [TlsLayer.size, TlsLayer.waitingSize, List.length_drop, List.length_nil,
          TlsLayer.pieceSize] at hn ⊢
        omega
      have heq := secureRead_none (a := ⟨.none, d.1.take TlsLayer.pieceSize⟩) hssl hfatal rfl
      obtain ⟨s', broken, k, hloop, hreads, hend⟩ := readLoop_tls
        (s := { s.call .read with secureReadRetry := 0 }) (d.1.take TlsLayer.pieceSize)
        hssl hfatal hsize
      have hreads' : s'.reads = s.reads + (k + 1) := by
        rw [hreads]
        simp [reads, call]
        omega
      rw [TlsLayer.answers, hread, doRead_data hready heq hne hloop]
      obtain ⟨rfl, hf, hs, hiff⟩ | ⟨rfl, hf, e, he, hfat⟩ := hend
      · rw [size_slurp hne, List.length_take, List.length_drop] at hiff
        refine ⟨_, .retry, k + 1, rfl, ?_, .inl ⟨by decide, ?_, ?_, ?_⟩⟩
        · rw [← hreads']
          split_ifs <;> rfl
        · rw [← hf]
          split_ifs <;> rfl
        · rw [← hs]
          split_ifs <;> rfl
        · rw [TlsLayer.after, hread]
          exact hiff
      · exact ⟨s', .breakChain, k + 1, rfl, hreads',
          .inr ⟨rfl, hf, e, List.mem_cons_of_mem _ he, hfat⟩⟩

/-! ### Everything else -/

/-- A connection that did not fail and is ready for data has a library. -/
def Ready (s : SecureSocket) : Prop := s.fatal = false → s.secureReady = true → s.ssl = true

/-- Nothing is read, and a connection that failed stays so. -/
structure Quiet (s s' : SecureSocket) : Prop where
  reads : s'.reads = s.reads
  fatal : s.fatal = true → s'.fatal = true
  ready : s.Ready → s'.Ready

namespace Quiet

variable {s'' : SecureSocket}

theorem refl (s : SecureSocket) : Quiet s s := ⟨rfl, id, id⟩

theorem trans (h : Quiet s s') (h' : Quiet s' s'') : Quiet s s'' :=
  ⟨h'.reads.trans h.reads, fun hf => h'.fatal (h.fatal hf), fun hr => h'.ready (h.ready hr)⟩

end Quiet

theorem quiet_sendEvent (s : SecureSocket) (e : SocketEvent) : Quiet s (s.sendEvent e) :=
  ⟨rfl, id, id⟩

theorem quiet_disconnect (s : SecureSocket) : Quiet s s.disconnect :=
  ((quiet_sendEvent s _).trans (quiet_sendEvent _ _)).trans (quiet_sendEvent _ _)

theorem quiet_checkResult (s : SecureSocket) (error : SslError) (retry : ℕ) :
    Quiet s (s.checkResult error retry).1 := by
  obtain ⟨t, hflag, hend⟩ := checkResult_cases s error retry
  have hset : Quiet s t := by
    obtain rfl | rfl | rfl := hflag
    · exact .refl _
    · exact ⟨rfl, id, id⟩
    · exact ⟨rfl, fun _ => rfl, fun _ hf => (nomatch hf)⟩
  obtain hend | hend := hend
  · exact hend ▸ hset
  · exact hend ▸ hset.trans (quiet_disconnect t)

theorem quiet_secureWrite (s : SecureSocket) (data : Bytes) (error : SslError) (wrote : ℕ) :
    Quiet s (s.secureWrite data error wrote).1 := by
  have hcall : Quiet s (s.call (.write data)) := by
    refine ⟨?_, id, id⟩
    simp [SecureSocket.reads, call]
  have hcheck := hcall.trans (quiet_checkResult (s.call (.write data)) error s.secureWriteRetry)
  simp only [secureWrite]
  split_ifs
  all_goals first
    | exact .refl s
    | exact hcheck.trans ⟨rfl, id, id⟩

theorem quiet_finishWrite (s : SecureSocket) (n : ℕ) (status : ℤ) (bytesWrote : ℕ) :
    Quiet s (s.finishWrite n status bytesWrote).1 := by
  simp only [finishWrite, discardWrittenData]
  split_ifs <;> exact ⟨rfl, id, id⟩

theorem quiet_doWrite (s : SecureSocket) (error : SslError) (wrote : ℕ) :
    Quiet s (s.doWrite error wrote).1 := by
  simp only [doWrite]
  generalize (if s.doWriteRetry = true then s.doWriteRetrySize else s.outputBuffer.size) = n
  split
  · exact .refl s
  · split
    · exact .refl s
    · have hstage : Quiet s (s.stage n) := by
        unfold stage
        split_ifs <;> exact ⟨rfl, id, id⟩
      exact (hstage.trans (quiet_secureWrite _ _ error wrote)).trans (quiet_finishWrite _ n _ _)

/-- What is there to be read, and whether it may be, is as before. -/
structure SameInput (s s' : SecureSocket) : Prop where
  inputBuffer : s'.inputBuffer = s.inputBuffer
  readable : s'.readable = s.readable

theorem SameInput.trans {s'' : SecureSocket} (h : SameInput s s') (h' : SameInput s' s'') :
    SameInput s s'' :=
  ⟨h'.inputBuffer.trans h.inputBuffer, h'.readable.trans h.readable⟩

theorem sameInput_disconnect (s : SecureSocket) : SameInput s s.disconnect := ⟨rfl, rfl⟩

theorem sameInput_checkResult (s : SecureSocket) (error : SslError) (retry : ℕ) :
    SameInput s (s.checkResult error retry).1 := by
  obtain ⟨t, hflag, hend⟩ := checkResult_cases s error retry
  have hset : SameInput s t := by
    obtain rfl | rfl | rfl := hflag
    · exact ⟨rfl, rfl⟩
    · exact ⟨rfl, rfl⟩
    · exact ⟨rfl, rfl⟩
  obtain hend | hend := hend
  · exact hend ▸ hset
  · exact hend ▸ hset.trans (sameInput_disconnect t)

theorem sameInput_secureWrite (s : SecureSocket) (data : Bytes) (error : SslError) (wrote : ℕ) :
    SameInput s (s.secureWrite data error wrote).1 := by
  have hcall : SameInput s (s.call (.write data)) := ⟨rfl, rfl⟩
  simp only [secureWrite]
  split_ifs
  all_goals first
    | exact ⟨rfl, rfl⟩
    | exact (hcall.trans (sameInput_checkResult _ error s.secureWriteRetry)).trans ⟨rfl, rfl⟩

/-- Writing leaves the input alone. -/
theorem sameInput_doWrite (s : SecureSocket) (error : SslError) (wrote : ℕ) :
    SameInput s (s.doWrite error wrote).1 := by
  have hfinish (s : SecureSocket) (n : ℕ) (status : ℤ) (bytesWrote : ℕ) :
      SameInput s (s.finishWrite n status bytesWrote).1 := by
    simp only [finishWrite, discardWrittenData]
    split_ifs <;> exact ⟨rfl, rfl⟩
  simp only [doWrite]
  generalize (if s.doWriteRetry = true then s.doWriteRetrySize else s.outputBuffer.size) = n
  split
  · exact ⟨rfl, rfl⟩
  · split
    · exact ⟨rfl, rfl⟩
    · have hstage : SameInput s (s.stage n) := by
        unfold stage
        split_ifs <;> exact ⟨rfl, rfl⟩
      exact (hstage.trans (sameInput_secureWrite _ _ error wrote)).trans (hfinish _ n _ _)

theorem quiet_onConnected (s : SecureSocket) : Quiet s s.onConnected := ⟨rfl, id, id⟩

theorem quiet_onDisconnected (s : SecureSocket) : Quiet s s.onDisconnected := ⟨rfl, id, id⟩

theorem quiet_setJob (s : SecureSocket) (job : Option SocketJob) : Quiet s (s.setJob job) :=
  ⟨rfl, id, id⟩

theorem quiet_applyStatus (s : SecureSocket) (status : JobStatus) :
    Quiet s (s.applyStatus status) := by
  cases status <;> exact ⟨rfl, id, id⟩

theorem quiet_serviceConnecting (s : SecureSocket) (write : Bool) (answers : Answers) :
    Quiet s (s.serviceConnecting write answers).1 := by
  simp only [serviceConnecting]
  split_ifs
  · exact (quiet_sendEvent s _).trans (quiet_onDisconnected _)
  · exact (quiet_sendEvent s _).trans (quiet_onConnected _)
  · exact .refl s

/-- An attempt at the handshake sets up the library's state of the connection. -/
theorem quiet_secureConnect (s : SecureSocket) (h : Handshake) :
    Quiet s (s.secureConnect h).1 := by
  cases hfatal : s.fatal <;> cases herror : h.error <;> cases htrusted : h.isTrusted
  all_goals
    constructor
    all_goals simp [secureConnect, checkResult, verifyPeerCertificate, disconnect, sendEvent,
      SecureSocket.reads, Ready, hfatal, herror, htrusted]

theorem quiet_secureAccept (s : SecureSocket) (h : Handshake) :
    Quiet s (s.secureAccept h).1 := by
  cases hfatal : s.fatal <;> cases herror : h.error <;> cases htrusted : h.isTrusted <;>
    by_cases hlevel : s.securityLevel = .encryptedAuthenticated
  all_goals
    constructor
    all_goals simp [secureAccept, checkResult, verifyPeerCertificate, disconnect, sendEvent,
      SecureSocket.reads, Ready, hfatal, herror, htrusted, hlevel]

theorem quiet_serviceConnect (s : SecureSocket) (h : Handshake) :
    Quiet s (s.serviceConnect h).1 := by
  have hconnect := quiet_secureConnect s h
  simp only [serviceConnect]
  split_ifs
  · exact hconnect
  · exact hconnect.trans (quiet_sendEvent _ _)
  · exact hconnect

theorem quiet_serviceAccept (s : SecureSocket) (h : Handshake) :
    Quiet s (s.serviceAccept h).1 := by
  have haccept := quiet_secureAccept s h
  simp only [serviceAccept]
  split_ifs
  · exact haccept
  · exact haccept.trans (quiet_sendEvent _ _)
  · exact haccept

/-- The multiplexer reads with `doRead`, after writing, or not at all. -/
theorem service_cases {read write error : Bool} {answers : Answers}
    (hst : s.service read write error answers = some s') :
    Quiet s s' ∨ ∃ t u result, Quiet s t ∧ SameInput s t ∧ t.secureReady = s.secureReady ∧
      t.doRead answers.reads = some (u, result) ∧ Quiet u s' ∧
      s.job.map SocketJob.kind = some .serviceConnected ∧ error = false ∧ read = true ∧
      s.readable = true := by
  unfold service at hst
  cases hjob : s.job with
  | none => simp [hjob] at hst
  | some job =>
    rw [hjob] at hst
    obtain ⟨⟨u, status⟩, hr, rfl⟩ := Option.map_eq_some_iff.1 hst
    have happly := quiet_applyStatus u status
    cases hkind : job.kind with
    | serviceConnecting =>
      rw [hkind] at hr
      have hquiet := quiet_serviceConnecting s write answers
      rw [Option.some.inj hr] at hquiet
      exact .inl (hquiet.trans happly)
    | serviceConnect =>
      rw [hkind] at hr
      have hquiet := quiet_serviceConnect s answers.handshake
      obtain ⟨-, hr⟩ := Option.ite_none_right_eq_some.1 hr
      rw [Option.some.inj hr] at hquiet
      exact .inl (hquiet.trans happly)
    | serviceAccept =>
      rw [hkind] at hr
      have hquiet := quiet_serviceAccept s answers.handshake
      obtain ⟨-, hr⟩ := Option.ite_none_right_eq_some.1 hr
      rw [Option.some.inj hr] at hquiet
      exact .inl (hquiet.trans happly)
    | serviceConnected =>
      rw [hkind] at hr
      simp only [serviceConnected] at hr
      cases error with
      | true =>
        rw [if_pos rfl] at hr
        have hquiet := (quiet_sendEvent s .socketDisconnected).trans (quiet_onDisconnected _)
        obtain ⟨rfl, -⟩ := Prod.mk.inj (Option.some.inj hr)
        exact .inl (hquiet.trans happly)
      | false =>
        rw [if_neg Bool.false_ne_true] at hr
        obtain ⟨⟨v, result⟩, hread, heq⟩ := Option.map_eq_some_iff.1 hr
        obtain ⟨rfl, -⟩ := Prod.mk.inj heq
        -- the socket after writing, if there is something to write
        obtain ⟨t, ht⟩ : ∃ t, t = (if write = true then s.doWrite answers.writeError answers.wrote
            else (s, JobResult.retry)).1 := ⟨_, rfl⟩
        have hwrite : Quiet s t ∧ SameInput s t ∧ t.secureReady = s.secureReady := by
          rw [ht]
          split_ifs
          · exact ⟨quiet_doWrite s _ _, sameInput_doWrite s _ _, (steady_doWrite s _ _).secureReady⟩
          · exact ⟨.refl s, ⟨rfl, rfl⟩, rfl⟩
        obtain ⟨hquiet, hinput, hready⟩ := hwrite
        rw [← ht, readIf] at hread
        split_ifs at hread with hmay
        · have hjobs : (some job).map SocketJob.kind = some .serviceConnected := by
            rw [Option.map_some, hkind]
          exact .inr ⟨t, v, result, hquiet, hinput, hready, hread, happly, hjobs, rfl, hmay.1,
            hinput.readable ▸ hmay.2⟩
        · obtain ⟨rfl, -⟩ := Prod.mk.inj (Option.some.inj hread)
          exact .inl (hquiet.trans happly)

/-- Nothing but the multiplexer's job reads. -/
theorem quiet_step {a : Action} (ha : ∀ read write error answers,
    a ≠ .service read write error answers) (hst : s.step a = some s') : Quiet s s' := by
  cases a with
  | service read write error answers => exact absurd rfl (ha read write error answers)
  | handleTcpConnected =>
    simp only [step] at hst
    split_ifs at hst
    cases hst
    unfold handleTcpConnected
    split_ifs
    · exact quiet_setJob _ _
    · exact .refl s
  | startAccept =>
    simp only [step] at hst
    split_ifs at hst
    cases hst
    exact quiet_setJob _ _
  | read n =>
    cases hst
    simp only [SecureSocket.read]
    split_ifs <;> exact ⟨rfl, id, id⟩
  | write data =>
    cases hst
    simp only [SecureSocket.write]
    split_ifs <;> exact ⟨rfl, id, id⟩
  | shutdownInput =>
    cases hst
    unfold shutdownInput
    split_ifs <;> exact ⟨rfl, id, id⟩
  | shutdownOutput =>
    cases hst
    unfold shutdownOutput
    split_ifs <;> exact ⟨rfl, id, id⟩
  | close =>
    cases hst
    refine ⟨?_, fun _ => ?_, fun _ hf => ?_⟩
    · simp only [SecureSocket.close]
      split_ifs <;> rfl
    · simp only [SecureSocket.close]
      split_ifs <;> rfl
    · simp only [SecureSocket.close] at hf
      split_ifs at hf <;> cases hf

/-- A connection that failed gets no data. -/
theorem doRead_of_fatal (hfatal : s.fatal = true) (a : ReadAnswer) (answers : List ReadAnswer) :
    ∃ u result k, s.doRead (a :: answers) = some (u, result) ∧ u.reads = s.reads + k ∧
      u.fatal = true := by
  cases hready : s.secureReady with
  | false => exact ⟨s, .retry, 0, by simp [doRead, hready], rfl, hfatal⟩
  | true =>
    cases hssl : s.ssl with
    | false =>
      have hread : s.secureRead a = (s, 0, []) := by
        simp [secureRead, hssl]
      exact ⟨s, .new, 0, doRead_want hready hread, rfl, hfatal⟩
    | true =>
      have hread : ∃ u, s.secureRead a = (u, -1, a.bytes) ∧ u.fatal = true := by
        cases herror : a.error <;>
          simp [secureRead, checkResult, call, disconnect, sendEvent, hssl, hfatal, herror]
      obtain ⟨u, hread, hu⟩ := hread
      have hreads := reads_secureRead hssl a
      rw [hread] at hreads
      exact ⟨u, .breakChain, 1, doRead_over hready hread, hreads, hu⟩

/-- A call returns.  If nothing was left of a record, and the connection does not fail, nothing is
left exactly if the records fit. -/
theorem doRead_spec {t : TlsLayer} (hr : s.Ready) (hp : s.fatal = false → t.pending = []) :
    ∃ u result k, s.doRead (t.answers (t.size + 1)) = some (u, result) ∧ u.reads = s.reads + k ∧
      u.Ready ∧ (s.fatal = true → u.fatal = true) ∧
      (u.fatal = false → ((t.after k).pending = [] ↔
        (s.secureReady = true → TlsSocket.Fits s.inputBuffer.size t.waiting))) := by
  cases hfatal : s.fatal with
  | true =>
    obtain ⟨u, result, k, hread, hreads, hu⟩ := doRead_of_fatal hfatal t.sslRead.1
      (t.sslRead.2.answers t.size)
    have hdead {p : Prop} (hf : u.fatal = false) : p := by
      rw [hu] at hf
      cases hf
    exact ⟨u, result, k, hread, hreads, hdead, fun _ => hu, hdead⟩
  | false =>
    have hnot {p : Prop} (hf : false = true) : p := nomatch hf
    cases hready : s.secureReady with
    | false =>
      refine ⟨s, .retry, 0, by simp [doRead, hready], rfl, hr, hnot, fun _ => ?_⟩
      exact iff_of_true (hp hfatal) hnot
    | true =>
      obtain ⟨u, result, k, hread, hreads, hend⟩ := doRead_tls hready (hr hfatal hready) hfatal
        (Nat.lt_succ_self t.size) (hp hfatal)
      refine ⟨u, result, k, hread, hreads, ?_⟩
      obtain ⟨-, -, hs, hiff⟩ | ⟨-, hu, -⟩ := hend
      · exact ⟨fun _ _ => hs, hnot, fun _ => hiff.trans ⟨fun h _ => h, fun h => h rfl⟩⟩
      · have hdead {p : Prop} (hf : u.fatal = false) : p := by
          rw [hu] at hf
          cases hf
        exact ⟨hdead, hnot, hdead⟩

end SecureSocket

/-! ### Runs -/

namespace TlsSocket

open SecureSocket (Quiet Action)

variable {st st' : TlsSocket} {s : SecureSocket}

/-- Nothing is left of a record on an open connection. -/
structure Drained (st : TlsSocket) : Prop where
  ready : st.socket.Ready
  pending : st.socket.fatal = false → st.tls.pending = []

theorem advance_of_reads {k : ℕ} (h : s.reads = st.socket.reads + k) :
    st.advance s = ⟨s, st.tls.after k⟩ := by
  rw [advance, h, Nat.add_sub_cancel_left]

theorem Drained.quiet (h : Drained st) (hq : Quiet st.socket s) : Drained (st.advance s) := by
  rw [advance_of_reads (k := 0) hq.reads]
  refine ⟨hq.ready h.ready, fun hf => h.pending ?_⟩
  cases hfatal : st.socket.fatal with
  | false => rfl
  | true =>
    have := hq.fatal hfatal
    rw [this] at hf
    cases hf

/-- **Steps.**  A step that reads records that fit leaves nothing behind. -/
theorem Drained.step {e : Event} (h : Drained st) (hfit : Fitting st e)
    (hst : TlsSocket.step st e = some st') : Drained st' := by
  cases e with
  | arrive incoming =>
    obtain rfl := Option.some.inj hst
    exact ⟨h.ready, h.pending⟩
  | act a =>
    obtain ⟨s', hs, rfl⟩ := Option.map_eq_some_iff.1 hst
    cases a with
    | service read write error answers =>
      obtain hquiet | ⟨t, u, result, hq, hinput, hready, hread, hq', hkind, herror, hr,
        hreadable⟩ := SecureSocket.service_cases hs
      · exact h.quiet hquiet
      · -- nothing is left before the call either, so that what it reads decides
        have hpending : t.fatal = false → st.tls.pending = [] := fun hf => h.pending <| by
          cases hfatal : st.socket.fatal with
          | false => rfl
          | true =>
            rw [hq.fatal hfatal] at hf
            cases hf
        obtain ⟨u', result', k, hread', hreads, hur, -, hiff⟩ :=
          SecureSocket.doRead_spec (hq.ready h.ready) hpending
        obtain ⟨rfl, rfl⟩ := Prod.mk.inj (Option.some.inj (hread.symm.trans hread'))
        have hreads' : s'.reads = st.socket.reads + k := by
          rw [hq'.reads, hreads, hq.reads]
        rw [advance_of_reads hreads']
        refine ⟨hq'.ready hur, fun hf => ?_⟩
        have huf : u.fatal = false := by
          cases hfatal : u.fatal with
          | false => rfl
          | true =>
            have hf' : s'.fatal = false := hf
            rw [hq'.fatal hfatal] at hf'
            cases hf'
        refine (hiff huf).2 fun hsecure => ?_
        rw [hinput.inputBuffer]
        exact hfit hkind herror hr hreadable (hready ▸ hsecure)
    | handleTcpConnected | startAccept | read | write | shutdownInput | shutdownOutput | close =>
      refine h.quiet (SecureSocket.quiet_step (fun _ _ _ _ heq => ?_) hs)
      cases heq

theorem drained_init (h : lts.init st) : Drained st := by
  obtain ⟨hinit, htls⟩ := h
  refine ⟨?_, fun _ => by rw [htls]⟩
  obtain ⟨level, heq⟩ | ⟨level, done, heq⟩ := hinit
  · rw [heq]
    intro _ hready
    cases hready
  · rw [heq]
    intro _ hready
    cases done <;> cases hready

/-- **Nothing is left behind** in any run in which the records that are read fit.  In every state
of such a run a call of `doRead` returns, and if it returns to wait and the connection is open, it
leaves nothing behind exactly if the records that it finds fit. -/
theorem drained_of_reachable (h : lts.ReachableVia Fitting st) :
    (st.socket.fatal = false → st.tls.pending = []) ∧
      ∃ st' result, st.doRead = some (st', result) ∧
        (result ≠ .breakChain → st'.socket.fatal = false →
          (st'.tls.pending = [] ↔ (st.socket.secureReady = true →
            Fits st.socket.inputBuffer.size st.tls.waiting))) := by
  have hdrained : Drained st :=
    h.invariant (fun _ => drained_init) fun _ _ _ hI hG hst => hI.step hG hst
  refine ⟨hdrained.pending, ?_⟩
  obtain ⟨u, result, k, hread, hreads, -, -, hiff⟩ :=
    SecureSocket.doRead_spec hdrained.ready hdrained.pending
  refine ⟨⟨u, st.tls.after k⟩, result, ?_, fun _ hf => hiff hf⟩
  rw [doRead, answers, hread, Option.map_some]
  dsimp only
  rw [advance_of_reads hreads]

theorem reachable_arrive (h : lts.ReachableVia Fitting st) (incoming : List Incoming) :
    lts.ReachableVia Fitting { st with tls.waiting := st.tls.waiting ++ incoming } := by
  induction incoming generalizing st with
  | nil =>
    rw [List.append_nil]
    exact h
  | cons i incoming ih =>
    have hnext := ih (h.step (l := .arrive i) trivial rfl)
    simpa only [List.append_assoc, List.singleton_append] using hnext

/-- An accepted connection whose handshake is complete. -/
def established : SecureSocket :=
  let r := (SecureSocket.accepted .encrypted).startAccept.serviceAccept {}
  r.1.applyStatus r.2

theorem reachable_established : lts.ReachableVia Fitting ⟨established, {}⟩ := by
  have h₀ : lts.ReachableVia Fitting ⟨SecureSocket.accepted .encrypted, {}⟩ :=
    .init ⟨.inl ⟨_, rfl⟩, rfl⟩
  have h₁ : lts.ReachableVia Fitting ⟨(SecureSocket.accepted .encrypted).startAccept, {}⟩ :=
    h₀.step (l := .act .startAccept) trivial rfl
  exact h₁.step (l := .act (.service true true false {})) (fun hkind => (nomatch hkind)) rfl

/-- The multiplexer's next service of an established connection reads, and if no error waits
at the socket the connection stays open. -/
theorem step_established {waiting : List Incoming} (h : ∀ e, .other e ∉ waiting) :
    ∃ st, lts.step ⟨established, ⟨[], waiting⟩⟩ (.act (.service true false false {})) = some st ∧
      st.socket.fatal = false := by
  obtain ⟨u, result, k, hread, -, hend⟩ := SecureSocket.doRead_tls (s := established)
    (t := ⟨[], waiting⟩) rfl rfl rfl (Nat.lt_succ_self _) rfl
  have hopen : u.fatal = false := by
    obtain ⟨-, hf, -⟩ | ⟨-, -, e, he, -⟩ := hend
    · exact hf
    · exact absurd he (h e)
  have hservice : established.service true false false
      { reads := TlsLayer.answers (TlsLayer.size ⟨[], waiting⟩ + 1) ⟨[], waiting⟩ } =
        some (u.applyStatus (u.statusOf .retry result)) := by
    have hif : established.readIf true
        (TlsLayer.answers (TlsLayer.size ⟨[], waiting⟩ + 1) ⟨[], waiting⟩) = some (u, result) :=
      (if_pos ⟨rfl, rfl⟩).trans hread
    show ((established.readIf true _).map _).map _ = _
    rw [hif]
    rfl
  refine ⟨_, (congrArg (Option.map _) hservice).trans rfl, ?_⟩
  show (u.applyStatus _).fatal = false
  cases u.statusOf .retry result <;> exact hopen

/-- The largest size of a record. -/
def recordSize : ℕ := 16 * 1024

theorem replicate_recordSize_ne_nil : List.replicate recordSize (0 : UInt8) ≠ [] := by
  rw [ne_eq, List.replicate_eq_nil_iff]
  exact Nat.succ_ne_zero _

/-- A record of that size. -/
def fullRecord : Incoming := .record ⟨_, replicate_recordSize_ne_nil⟩

/-- Full records that fill the input buffer to its limit, a record of one piece and another full
one. -/
def brimming (m : ℕ) : List Incoming :=
  List.replicate m fullRecord ++
    [.record ⟨List.replicate TlsLayer.pieceSize 1, List.cons_ne_nil _ _⟩, fullRecord]

theorem lastFits_recordSize (h : size + recordSize ≤ SecureSocket.maxInputBufferSize) :
    LastFits size recordSize := by
  intro _
  unfold recordSize at *
  unfold TlsLayer.pieceSize
  omega

/-- They fit: the single piece is asked for at the limit, and the last record stays where it
is. -/
theorem room_brimming (m : ℕ) {size : ℕ}
    (hsize : size + recordSize * (m + 1) = SecureSocket.maxInputBufferSize) :
    Room size recordSize (brimming m) := by
  induction m generalizing size with
  | zero =>
    have hlen : (List.replicate TlsLayer.pieceSize (1 : UInt8)).length = TlsLayer.pieceSize :=
      List.length_replicate
    refine ⟨lastFits_recordSize (by omega), fun _ => ⟨fun _ => ?_, fun hle => ?_⟩⟩
    · rw [hlen]
      exact Nat.le_of_eq hsize
    · rw [hlen] at hle
      unfold TlsLayer.pieceSize at hle
      omega
  | succ m ih =>
    have hlen : (List.replicate recordSize (0 : UInt8)).length = recordSize :=
      List.length_replicate
    rw [Nat.mul_succ] at hsize
    refine ⟨lastFits_recordSize (by omega), fun _ => ?_⟩
    rw [hlen]
    exact ih (by omega)

theorem fits_brimming : Fits established.inputBuffer.size (fullRecord :: brimming 63) := by
  refine (fits_record (Nat.zero_le _) _).2 ?_
  rw [List.length_replicate]
  exact room_brimming 63 rfl

theorem reachable_brimming :
    lts.ReachableVia Fitting ⟨established, ⟨[], fullRecord :: brimming 63⟩⟩ :=
  reachable_arrive reachable_established (fullRecord :: brimming 63)

theorem fitting_brimming : Fitting ⟨established, ⟨[], fullRecord :: brimming 63⟩⟩
    (.act (.service true false false {})) := by
  intro _ _ _ _ _
  exact fits_brimming

/-- 64 full records and the piece behind them are read in one call, which leaves the last record
at the socket.  The second part is about that call, and about the next one in the run that makes
it. -/
theorem drained_of_reachable_brimming :
    (∃ st' result, doRead ⟨established, ⟨[], fullRecord :: brimming 63⟩⟩ = some (st', result) ∧
      (result ≠ .breakChain → st'.socket.fatal = false → st'.tls.pending = [])) ∧
    ∃ st, lts.exec ⟨established, ⟨[], fullRecord :: brimming 63⟩⟩
        [.act (.service true false false {})] = some st ∧ st.tls.pending = [] ∧
      ∃ st' result, st.doRead = some (st', result) ∧
        (result ≠ .breakChain → st'.socket.fatal = false →
          (st'.tls.pending = [] ↔ (st.socket.secureReady = true →
            Fits st.socket.inputBuffer.size st.tls.waiting))) := by
  constructor
  · obtain ⟨-, st', result, hread, hiff⟩ := drained_of_reachable reachable_brimming
    exact ⟨st', result, hread, fun hresult hopen => (hiff hresult hopen).2 fun _ => fits_brimming⟩
  · have hwait : ∀ e, .other e ∉ fullRecord :: brimming 63 := by
      intro e he
      simp [brimming, fullRecord] at he
    obtain ⟨st, hst, hopen⟩ := step_established hwait
    have hreach : lts.ReachableVia Fitting st :=
      reachable_brimming.step fitting_brimming hst
    obtain ⟨hdrained, hnext⟩ := drained_of_reachable hreach
    refine ⟨st, ?_, hdrained hopen, hnext⟩
    rw [LTS.exec, hst]
    rfl

/-! ### A transfer that crosses the limit -/

/-- A mebibyte and one record more waits at the socket. -/
def flooded : TlsSocket := ⟨established, ⟨[], List.replicate 65 fullRecord⟩⟩

/-- A full record has more than one piece, so that there is no room for it at the limit. -/
theorem not_lastFits_recordSize : ¬ LastFits SecureSocket.maxInputBufferSize recordSize := by
  intro h
  have := h (by decide)
  unfold TlsLayer.pieceSize recordSize SecureSocket.maxInputBufferSize at this
  omega

/-- Records that fill the buffer to its limit leave no room for one more. -/
theorem not_room_replicate (m : ℕ) {size : ℕ}
    (hsize : size + recordSize * m = SecureSocket.maxInputBufferSize) :
    ¬ Room size recordSize (List.replicate m fullRecord) := by
  induction m generalizing size with
  | zero =>
    obtain rfl : size = SecureSocket.maxInputBufferSize := by omega
    exact not_lastFits_recordSize
  | succ m ih =>
    rintro ⟨-, h⟩
    rw [Nat.mul_succ] at hsize
    have hlen : (List.replicate recordSize (0 : UInt8)).length = recordSize :=
      List.length_replicate
    have hnext := h (by omega)
    rw [hlen] at hnext
    exact ih (by omega) hnext

theorem not_fits_flooded : ¬ Fits flooded.socket.inputBuffer.size flooded.tls.waiting := by
  intro h
  have hroom := (fits_record (Nat.zero_le _) _).1 h
  have hlen : (List.replicate recordSize (0 : UInt8)).length = recordSize :=
    List.length_replicate
  rw [hlen] at hroom
  exact not_room_replicate 64 rfl hroom

/-- Of the record that takes the input buffer over its limit all but a piece is left behind, and
the call returns to wait for the socket. -/
theorem flooded_leavesBehind :
    lts.Reachable flooded ∧ ∃ st' result, flooded.doRead = some (st', result) ∧
      result ≠ .breakChain ∧ st'.socket.fatal = false ∧ st'.tls.pending ≠ [] := by
  refine ⟨(reachable_arrive reachable_established (List.replicate 65 fullRecord)).reachable, ?_⟩
  obtain ⟨u, result, k, hread, hreads, hend⟩ := SecureSocket.doRead_tls (s := established)
    (t := flooded.tls) rfl rfl rfl (Nat.lt_add_one _) rfl
  refine ⟨⟨u, flooded.tls.after k⟩, result, ?_, ?_⟩
  · have hanswers : flooded.socket.doRead flooded.answers = some (u, result) := hread
    have hadvance : flooded.advance u = ⟨u, flooded.tls.after k⟩ := advance_of_reads hreads
    rw [doRead, hanswers, Option.map_some]
    dsimp only
    rw [hadvance]
  · obtain ⟨hresult, hf, -, hiff⟩ | ⟨-, -, e, he, -⟩ := hend
    · exact ⟨hresult, hf, fun hnil => not_fits_flooded (hiff.1 hnil)⟩
    · have heq := List.eq_of_mem_replicate he
      cases heq

end TlsSocket

end InputLeap
