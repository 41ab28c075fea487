import InputLeap.LTS.Basic
import InputLeap.Net.StreamBuffer
import Mathlib.Tactic.SplitIfs

/-!
# Secure sockets

A socket with TLS (`SecureSocket` on top of `TCPSocket`) and the job that the multiplexer runs
for it.  What the TLS library, the network and the peer answer is in the arguments.

## Main definitions

* `SecureSocket` : the members, with a note of what was found out about the peer and of the calls
  that exchange application data.
* `SecureSocket.secureConnect`, `SecureSocket.secureAccept` : one attempt at the handshake.
* `SecureSocket.newJob` : what the multiplexer is to do next.
* `SecureSocket.doRead`, `SecureSocket.doWrite` : application data.
* `SecureSocket.service` : the multiplexer runs the job.
* `SecureSocket.lts` : the runs of a socket.
-/

namespace InputLeap

/-- What the TLS library says about a call (`SSL_get_error`). -/
inductive SslError
  | none
  | zeroReturn
  | wantRead
  | wantWrite
  | wantConnect
  | wantAccept
  | syscall
  | ssl
  | other
  deriving DecidableEq

/-- The library wants to be asked again. -/
def SslError.isWant : SslError → Bool
  | .wantRead | .wantWrite | .wantConnect | .wantAccept => true
  | _ => false

/-- The connection is over. -/
def SslError.isFatal : SslError → Bool
  | .zeroReturn | .syscall | .ssl | .other => true
  | _ => false

/-- How connections are protected. -/
inductive ConnectionSecurityLevel
  | plaintext
  | encrypted
  | encryptedAuthenticated
  deriving DecidableEq

/-- A fingerprint of a certificate. -/
structure FingerprintData where
  algorithm : String
  data : Bytes
  deriving DecidableEq

/-- The events that a socket sends. -/
inductive SocketEvent
  | dataSocketConnected
  | dataSocketSecureConnected
  | dataSocketConnectionFailed
  | clientListenerAccepted
  | socketDisconnected
  | socketStopRetry
  | streamInputReady
  | streamInputShutdown
  | streamOutputFlushed
  | streamOutputShutdown
  | streamOutputError
  deriving DecidableEq

/-- Which method the multiplexer calls. -/
inductive JobKind
  | serviceConnecting
  | serviceConnect
  | serviceAccept
  | serviceConnected
  deriving DecidableEq

/-- A job of the multiplexer, and what it waits for. -/
structure SocketJob where
  kind : JobKind
  readable : Bool
  writable : Bool
  deriving DecidableEq

/-- What a method makes of its job (`MultiplexerJobStatus`). -/
inductive JobStatus
  | stopServicing
  | continueServicing
  | replace (job : SocketJob)

/-- What reading or writing makes of the job (`EJobResult`). -/
inductive JobResult
  | breakChain
  | retry
  | new
  deriving DecidableEq

/-- A call that exchanges application data with the peer. -/
inductive SslCall
  | read
  | write (data : Bytes)
  deriving DecidableEq

/-- What an attempt at the handshake meets. -/
structure Handshake where
  error : SslError := .none
  /-- The fingerprint of the peer's certificate, if there is one and it can be computed. -/
  fingerprint : Option FingerprintData := none
  /-- The fingerprints in the database. -/
  database : List FingerprintData := []
  deriving DecidableEq

/-- The fingerprint of the peer is in the database. -/
def Handshake.isTrusted (h : Handshake) : Bool :=
  match h.fingerprint with
  | none => false
  | some fingerprint => h.database.contains fingerprint

/-- What the TLS library answers when it is asked for data: no data comes with an error. -/
structure ReadAnswer where
  error : SslError := .none
  data : Bytes := []

/-- The data that was read. -/
def ReadAnswer.bytes (a : ReadAnswer) : Bytes := if a.error = .none then a.data else []

/-- A secure socket. -/
structure SecureSocket where
  /-- It is the accepting side (`initSsl`). -/
  server : Bool
  securityLevel : ConnectionSecurityLevel
  secureReady : Bool := false
  fatal : Bool := false
  /-- The TLS library has a context for the socket. -/
  context : Bool := true
  /-- It has the state of a connection. -/
  ssl : Bool := false
  secureAcceptRetry : ℕ := 0
  secureConnectRetry : ℕ := 0
  secureReadRetry : ℕ := 0
  secureWriteRetry : ℕ := 0
  doWriteRetry : Bool := false
  doWriteRetrySize : ℕ := 0
  doWriteRetryBuffer : Bytes := []
  /-- It is not closed. -/
  socket : Bool := true
  connected : Bool := false
  readable : Bool := false
  writable : Bool := false
  inputBuffer : StreamBuffer := {}
  outputBuffer : StreamBuffer := {}
  isFlushed : Bool := true
  /-- What the multiplexer has for the socket. -/
  job : Option SocketJob := none
  /-- What was sent, oldest first. -/
  events : List SocketEvent := []
  /-- The peer's fingerprint was found trusted.  The program does not keep this. -/
  trusted : Bool := false
  /-- Calls that exchanged application data, newest first.  The program does not keep them. -/
  calls : List SslCall := []

namespace SecureSocket

/-- The size of the input buffer at which reading pauses (`MAX_INPUT_BUFFER_SIZE`). -/
def maxInputBufferSize : ℕ := 1024 * 1024

variable (s : SecureSocket)

def sendEvent (e : SocketEvent) : SecureSocket := { s with events := s.events ++ [e] }

/-- Tells that the connection is over; the handlers of the events run later. -/
def disconnect : SecureSocket :=
  ((s.sendEvent .socketStopRetry).sendEvent .socketDisconnected).sendEvent .streamInputShutdown

/-! ### State of the connection -/

def onConnected : SecureSocket := { s with connected := true, readable := true, writable := true }

def onInputShutdown : SecureSocket :=
  { s with inputBuffer := s.inputBuffer.pop s.inputBuffer.size, readable := false }

def onOutputShutdown : SecureSocket :=
  { s with
    outputBuffer := s.outputBuffer.pop s.outputBuffer.size
    writable := false
    isFlushed := true }

def onDisconnected : SecureSocket :=
  { s.onInputShutdown.onOutputShutdown with connected := false }

/-- Drops data that was written. -/
def discardWrittenData (n : ℕ) : SecureSocket :=
  let s := { s with outputBuffer := s.outputBuffer.pop n }
  if s.outputBuffer.size = 0 then { s.sendEvent .streamOutputFlushed with isFlushed := true } else s

/-! ### Jobs -/

/-- What `TCPSocket` wants the multiplexer to do. -/
def tcpNewJob : Option SocketJob :=
  if !s.socket then none
  else if !s.connected then
    if !(s.readable || s.writable) then none
    else some ⟨.serviceConnecting, s.readable, s.writable⟩
  else
    let writable := s.writable && s.outputBuffer.size != 0
    if !(s.readable || writable) then none else some ⟨.serviceConnected, s.readable, writable⟩

/-- What a secure socket wants the multiplexer to do: nothing between the TCP connection and the
end of the handshake, which has its own jobs. -/
def newJob : Option SocketJob :=
  if s.connected && !s.secureReady then none else s.tcpNewJob

def setJob (job : Option SocketJob) : SecureSocket := { s with job := job }

/-- The status that makes the multiplexer go on with a new job, if there is one. -/
def newJobOrStopServicing : JobStatus :=
  match s.newJob with
  | some job => .replace job
  | none => .stopServicing

/-- What the multiplexer makes of a status. -/
def applyStatus : JobStatus → SecureSocket
  | .stopServicing => s.setJob none
  | .continueServicing => s
  | .replace job => s.setJob (some job)

/-! ### The handshake -/

/-- Looks at the result of a call and gives the new count of retries. -/
def checkResult (error : SslError) (retry : ℕ) : SecureSocket × ℕ :=
  let (s, retry) :=
    match error with
    | .none => (s, 0)
    | .wantRead | .wantConnect | .wantAccept => (s, retry + 1)
    | .wantWrite => ({ s with writable := true }, retry + 1)
    | .zeroReturn | .syscall | .ssl | .other => ({ s with fatal := true }, retry)
  if s.fatal then (s.disconnect, 0) else (s, retry)

/-- Compares the fingerprint of the peer with those in the database. -/
def verifyPeerCertificate (h : Handshake) : SecureSocket × Bool :=
  ({ s with trusted := s.trusted || h.isTrusted }, h.isTrusted)

/-- One attempt of the accepting side: negative if it failed, 0 to try again, positive if the
connection is ready. -/
def secureAccept (h : Handshake) : SecureSocket × ℤ :=
  let s := { s with ssl := true }
  let (s, retry) := s.checkResult h.error s.secureAcceptRetry
  let s := { s with secureAcceptRetry := retry }
  if s.fatal then ({ s with secureReady := false, secureAcceptRetry := 0 }, -1)
  else if s.secureAcceptRetry = 0 then
    if s.securityLevel = .encryptedAuthenticated then
      let (s, ok) := s.verifyPeerCertificate h
      if ok then ({ s with secureReady := true }, 1)
      else ({ s with secureAcceptRetry := 0 }.disconnect, -1)
    else ({ s with secureReady := true }, 1)
  else ({ s with secureReady := false }, 0)

/-- One attempt of the connecting side.  That the client's certificate cannot be loaded is only
logged. -/
def secureConnect (h : Handshake) : SecureSocket × ℤ :=
  let s := { s with ssl := true }
  let (s, retry) := s.checkResult h.error s.secureConnectRetry
  let s := { s with secureConnectRetry := retry }
  if s.fatal then ({ s with secureConnectRetry := 0 }, -1)
  else if 0 < s.secureConnectRetry then ({ s with secureReady := false }, 0)
  else
    let s := { s with secureConnectRetry := 0, secureReady := true }
    let (s, ok) := s.verifyPeerCertificate h
    if ok then (s, 1) else (s.disconnect, -1)

/-- The job of the connecting side during the handshake. -/
def serviceConnect (h : Handshake) : SecureSocket × JobStatus :=
  let (s, status) := s.secureConnect h
  if status < 0 then (s, .stopServicing)
  else if 0 < status then
    let s := s.sendEvent .dataSocketSecureConnected
    (s, s.newJobOrStopServicing)
  else (s, .replace ⟨.serviceConnect, s.readable, s.writable⟩)

/-- The job of the accepting side during the handshake. -/
def serviceAccept (h : Handshake) : SecureSocket × JobStatus :=
  let (s, status) := s.secureAccept h
  if status < 0 then (s, .stopServicing)
  else if 0 < status then
    let s := s.sendEvent .clientListenerAccepted
    (s, s.newJobOrStopServicing)
  else (s, .replace ⟨.serviceAccept, s.readable, s.writable⟩)

/-! ### Application data -/

/-- Notes a call. -/
def call (k : SslCall) : SecureSocket := { s with calls := k :: s.calls }

/-- Asks the TLS library for data: the status, and the data. -/
def secureRead (a : ReadAnswer) : SecureSocket × ℤ × Bytes :=
  if s.ssl then
    let s := s.call .read
    let (s, retry) := s.checkResult a.error s.secureReadRetry
    let s := { s with secureReadRetry := retry }
    if retry ≠ 0 then (s, 0, a.bytes)
    else if s.fatal then (s, -1, a.bytes)
    else (s, a.bytes.length, a.bytes)
  else (s, 0, [])

/-- Gives data to the TLS library, which takes `wrote` bytes: the status, and how many. -/
def secureWrite (data : Bytes) (error : SslError) (wrote : ℕ) : SecureSocket × ℤ × ℕ :=
  if s.ssl then
    let s := s.call (.write data)
    let (s, retry) := s.checkResult error s.secureWriteRetry
    let s := { s with secureWriteRetry := retry }
    if retry ≠ 0 then (s, 0, wrote)
    else if s.fatal then (s, -1, wrote)
    else (s, wrote, wrote)
  else (s, 0, 0)

/-- Puts data that was read into the input buffer. -/
def slurp (bytes : Bytes) : SecureSocket := { s with inputBuffer := s.inputBuffer.write bytes }

/-- Reads as much as there is, but not much more than the input buffer is to hold; the result
tells whether the job ends. -/
def readLoop (s : SecureSocket) (bytes : Bytes) : List ReadAnswer → Option (SecureSocket × Bool)
  | [] => if maxInputBufferSize < (s.slurp bytes).inputBuffer.size then some (s.slurp bytes, false)
    else none
  | a :: answers =>
    let s := s.slurp bytes
    if maxInputBufferSize < s.inputBuffer.size then some (s, false)
    else
      let (s, status, bytes) := s.secureRead a
      if status < 0 then some (s, true)
      else if bytes ≠ [] ∨ 0 < status then readLoop s bytes answers
      else some (s, false)

/-- Reads what the peer sent; `none` if the library is asked more often than it answers. -/
def doRead : List ReadAnswer → Option (SecureSocket × JobResult)
  | answers =>
    if !s.secureReady then some (s, .retry)
    else
      match answers with
      | [] => none
      | a :: answers =>
        let (s, status, bytes) := s.secureRead a
        if status < 0 then some (s, .breakChain)
        else if status = 0 then some (s, .new)
        else if bytes ≠ [] then
          let wasEmpty := s.inputBuffer.size = 0
          (s.readLoop bytes answers).map fun (s, broken) =>
            if broken then (s, .breakChain)
            else (if wasEmpty then s.sendEvent .streamInputReady else s, .retry)
        else
          -- The peer hung up; what was read stays in the buffer.
          let s := s.sendEvent .streamInputShutdown
          let s :=
            if !s.writable && s.inputBuffer.size = 0 then
              { s.sendEvent .socketDisconnected with connected := false }
            else s
          some ({ s with readable := false }, .new)

/-- Puts data that is to be written aside, unless data that the library could not take is there. -/
def stage (n : ℕ) : SecureSocket :=
  if s.doWriteRetry then s
  else
    let (data, outputBuffer) := s.outputBuffer.peek n
    { s with doWriteRetryBuffer := data, outputBuffer := outputBuffer }

/-- What follows from the status of a write. -/
def finishWrite (bufferSize : ℕ) (status : ℤ) (bytesWrote : ℕ) : SecureSocket × JobResult :=
  if status < 0 then (s, .breakChain)
  else if status = 0 then
    ({ s with doWriteRetry := true, doWriteRetrySize := bufferSize }, .new)
  else
    let s := { s with doWriteRetry := false }
    if 0 < bytesWrote then (s.discardWrittenData bytesWrote, .new) else (s, .retry)

/-- Writes what waits in the output buffer.  Data that the library could not take is offered
again as it was. -/
def doWrite (error : SslError) (wrote : ℕ) : SecureSocket × JobResult :=
  if !s.secureReady then (s, .retry)
  else
    let bufferSize := if s.doWriteRetry then s.doWriteRetrySize else s.outputBuffer.size
    if bufferSize = 0 then (s, .retry)
    else
      let s := s.stage bufferSize
      let (s, status, bytesWrote) :=
        s.secureWrite (s.doWriteRetryBuffer.take bufferSize) error wrote
      s.finishWrite bufferSize status bytesWrote

/-! ### Jobs of the TCP socket -/

/-- What the multiplexer and the library answer while a job runs. -/
structure Answers where
  /-- The connection attempt failed. -/
  connectError : Bool := false
  handshake : Handshake := {}
  reads : List ReadAnswer := []
  writeError : SslError := .none
  wrote : ℕ := 0

/-- Waits for the TCP connection. -/
def serviceConnecting (write : Bool) (answers : Answers) : SecureSocket × JobStatus :=
  if answers.connectError then
    let s := (s.sendEvent .dataSocketConnectionFailed).onDisconnected
    (s, s.newJobOrStopServicing)
  else if write then
    let s := (s.sendEvent .dataSocketConnected).onConnected
    (s, s.newJobOrStopServicing)
  else (s, .continueServicing)

/-- What becomes of the job after writing and reading. -/
def statusOf (writeResult readResult : JobResult) : JobStatus :=
  if writeResult = .breakChain ∨ readResult = .breakChain then .stopServicing
  else if writeResult = .new ∨ readResult = .new then s.newJobOrStopServicing
  else .continueServicing

/-- Reads if the multiplexer and the socket say so. -/
def readIf (read : Bool) (answers : List ReadAnswer) : Option (SecureSocket × JobResult) :=
  if read ∧ s.readable then s.doRead answers else some (s, .retry)

/-- Exchanges application data.  The methods of a secure socket throw nothing. -/
def serviceConnected (read write error : Bool) (answers : Answers) :
    Option (SecureSocket × JobStatus) :=
  if error then
    let s := (s.sendEvent .socketDisconnected).onDisconnected
    some (s, s.newJobOrStopServicing)
  else
    let (s, writeResult) :=
      if write then s.doWrite answers.writeError answers.wrote else (s, .retry)
    (s.readIf read answers.reads).map fun (r : SecureSocket × JobResult) =>
      (r.1, r.1.statusOf writeResult r.2)

/-- The multiplexer runs the job, if there is one.  The handshake needs a context. -/
def service (read write error : Bool) (answers : Answers) : Option SecureSocket :=
  match s.job with
  | none => none
  | some job =>
    (match job.kind with
    | .serviceConnecting => some (s.serviceConnecting write answers)
    | .serviceConnect => if s.context then some (s.serviceConnect answers.handshake) else none
    | .serviceAccept => if s.context then some (s.serviceAccept answers.handshake) else none
    | .serviceConnected => s.serviceConnected read write error answers).map
      fun (r : SecureSocket × JobStatus) => r.1.applyStatus r.2

/-! ### What the application does -/

/-- The TCP connection is there: starts the handshake of the connecting side. -/
def handleTcpConnected : SecureSocket :=
  if s.socket then s.setJob (some ⟨.serviceConnect, s.readable, s.writable⟩) else s

/-- Starts the handshake of the accepting side. -/
def startAccept : SecureSocket := s.setJob (some ⟨.serviceAccept, s.readable, s.writable⟩)

/-- Takes data out of the input buffer. -/
def read (n : ℕ) : SecureSocket :=
  let n := min n s.inputBuffer.size
  let s := { s with inputBuffer := s.inputBuffer.pop n }
  if 0 < n ∧ s.inputBuffer.size = 0 ∧ !s.readable ∧ !s.writable then
    { s.sendEvent .socketDisconnected with connected := false }
  else s

/-- Puts data into the output buffer. -/
def write (data : Bytes) : SecureSocket :=
  if !s.writable then s.sendEvent .streamOutputError
  else if data = [] then s
  else
    let wasEmpty := s.outputBuffer.size = 0
    let s := { s with outputBuffer := s.outputBuffer.write data, isFlushed := false }
    if wasEmpty then s.setJob s.newJob else s

def shutdownInput : SecureSocket :=
  if s.readable then
    let s := (s.sendEvent .streamInputShutdown).onInputShutdown
    s.setJob s.newJob
  else s

def shutdownOutput : SecureSocket :=
  if s.writable then
    let s := (s.sendEvent .streamOutputShutdown).onOutputShutdown
    s.setJob s.newJob
  else s

def close : SecureSocket :=
  let s := { s with fatal := true, ssl := false, context := false, job := none }
  let s := if s.connected then s.sendEvent .socketDisconnected else s
  { s.onDisconnected with socket := false }

/-! ### Runs -/

/-- A socket that a listener accepted.  The job is that of a TCP socket. -/
def accepted (level : ConnectionSecurityLevel) : SecureSocket :=
  let s := onConnected { server := true, securityLevel := level }
  s.setJob s.tcpNewJob

/-- A socket after `connect`; the connection may be there at once. -/
def outgoing (level : ConnectionSecurityLevel) (done : Bool) : SecureSocket :=
  let s : SecureSocket := { server := false, securityLevel := level }
  let s :=
    if done then (s.sendEvent .dataSocketConnected).onConnected else { s with writable := true }
  s.setJob s.newJob

/-- What happens to a socket. -/
inductive Action
  | handleTcpConnected
  | startAccept
  /-- The multiplexer runs the job. -/
  | service (read write error : Bool) (answers : Answers)
  | read (n : ℕ)
  | write (data : Bytes)
  | shutdownInput
  | shutdownOutput
  | close

/-- One step.  Each side starts its own handshake only. -/
def step : Action → Option SecureSocket
  | .handleTcpConnected => if s.server then none else some s.handleTcpConnected
  | .startAccept => if s.server then some s.startAccept else none
  | .service read write error answers => s.service read write error answers
  | .read n => some (s.read n)
  | .write data => some (s.write data)
  | .shutdownInput => some s.shutdownInput
  | .shutdownOutput => some s.shutdownOutput
  | .close => some s.close

/-- The runs of a socket.  A socket is used for one connection. -/
def lts : LTS SecureSocket Action where
  init s := (∃ level, s = accepted level) ∨ ∃ level done, s = outgoing level done
  step := step

/-! ### Results of calls -/

variable {s}

theorem checkResult_want {error : SslError} (hfatal : s.fatal = false)
    (hwant : error.isWant = true) (retry : ℕ) :
    ∃ writable, s.checkResult error retry = ({ s with writable := writable }, retry + 1) := by
  have hlives : ¬s.fatal = true := by
    rw [hfatal]
    exact Bool.false_ne_true
  cases error with
  | wantRead | wantConnect | wantAccept => exact ⟨s.writable, if_neg hlives⟩
  | wantWrite => exact ⟨true, if_neg hlives⟩
  | none | zeroReturn | syscall | ssl | other => cases hwant

/-- Looking at a result sets at most one of two flags, and may disconnect the socket after that. -/
theorem checkResult_cases (s : SecureSocket) (error : SslError) (retry : ℕ) :
    ∃ t, (t = s ∨ t = { s with writable := true } ∨ t = { s with fatal := true }) ∧
      ((s.checkResult error retry).1 = t ∨ (s.checkResult error retry).1 = t.disconnect) := by
  have hend (t : SecureSocket) (n : ℕ) : (if t.fatal then (t.disconnect, 0) else (t, n)).1 = t ∨
      (if t.fatal then (t.disconnect, 0) else (t, n)).1 = t.disconnect := by
    split_ifs
    · exact .inr rfl
    · exact .inl rfl
  cases error with
  | none => exact ⟨s, .inl rfl, hend s 0⟩
  | wantRead | wantConnect | wantAccept => exact ⟨s, .inl rfl, hend s (retry + 1)⟩
  | wantWrite => exact ⟨{ s with writable := true }, .inr (.inl rfl), hend _ (retry + 1)⟩
  | zeroReturn | syscall | ssl | other =>
    exact ⟨{ s with fatal := true }, .inr (.inr rfl), hend _ retry⟩

end SecureSocket

end InputLeap
