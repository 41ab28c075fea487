import InputLeap.Protocol.Types
import Std.Data.TreeMap.Lemmas
import Mathlib.Data.Nat.Notation

/-!
# Answers to X selection requests

Another client that wants the clipboard sends a request, which names one of its windows and a
property of it.  The answer is a value of that property and a notice.  Data that is too large for
one value is announced and then sent in pieces: each time the client has deleted the value, the
next piece takes its place, and an empty value ends the transfer.

The requests of one window are answered in their order; the replies that are not over are kept in a
list for each window.  `log` is what happened between the clipboard and the X server.

Requests for the `MULTIPLE` target are not modelled.

## Main definitions

* `XDisplay` : the connection to the X server.
* `Reply` : the answer to one request.
* `XWindowsClipboard` : the replies that are not over, and the log.
* `XWindowsClipboard.addRequest`, `processRequest`, `destroyRequest` : the handlers of the three
  notices of the X server.
-/

namespace InputLeap

/-- A window of some client. -/
abbrev Window := ℕ

/-- A name that the X server has interned; `None` is `none` of the option type. -/
abbrev Atom := ℕ

/-- The size of the elements of a property's value. -/
inductive PropertyFormat
  | bits8
  | bits16
  | bits32
deriving DecidableEq, Repr

namespace PropertyFormat

/-- How many bytes an element takes in the client's memory (`sizeof(Atom)` for the largest, on a
64-bit system). -/
def datumSize : PropertyFormat → ℕ
  | .bits8 => 1
  | .bits16 => 2
  | .bits32 => 8

/-- The elements that lie in the data as a whole. -/
def elements (format : PropertyFormat) (data : Bytes) : Bytes :=
  data.take (data.length / format.datumSize * format.datumSize)

end PropertyFormat

/-- The connection to the X server. -/
structure XDisplay where
  /-- The longest request the server takes, in units of four bytes: a 16-bit number of the
  connection's setup. -/
  xMaxRequestSize : ℕ
  /-- No server has a smaller limit. -/
  le_xMaxRequestSize : 4096 ≤ xMaxRequestSize
  /-- The atom named `INCR`. -/
  atomINCR : Atom

namespace XDisplay

variable (d : XDisplay)

/-- How much `setWindowProperty` sends in one request. -/
def length : ℕ := 4 * d.xMaxRequestSize

/-- How much a reply sends in one value. -/
def maxRequestSize : ℕ := 3 * d.xMaxRequestSize

/-- The chunks after the first, one for each unit of fuel. -/
def appendChunks (format : PropertyFormat) : ℕ → Bytes → Bytes
  | 0, _ => []
  | fuel + 1, data =>
    if data = [] then []
    else
      format.elements (data.take d.length) ++ appendChunks format fuel (data.drop d.length)

/-- The value that the property has when all chunks of the data are set. -/
def setWindowProperty (data : Bytes) (format : PropertyFormat) : Bytes :=
  format.elements (data.take d.length) ++
    d.appendChunks format data.length (data.drop d.length)

end XDisplay

namespace PropertyFormat

variable {format : PropertyFormat} {data : Bytes}

theorem elements_of_dvd (h : format.datumSize ∣ data.length) : format.elements data = data := by
  rw [elements, Nat.div_mul_cancel h, List.take_length]

end PropertyFormat

namespace XDisplay

variable {d : XDisplay} {format : PropertyFormat} {data : Bytes}

theorem maxRequestSize_pos : 0 < d.maxRequestSize := by
  have hlarge := d.le_xMaxRequestSize
  rw [maxRequestSize]
  omega

theorem maxRequestSize_le_length : d.maxRequestSize ≤ d.length :=
  Nat.mul_le_mul_right _ (by decide)

theorem appendChunks_nil (fuel : ℕ) : d.appendChunks format fuel [] = [] := by
  cases fuel <;> rfl

/-- What a reply sends fits in one request. -/
theorem setWindowProperty_of_dvd (hle : data.length ≤ d.maxRequestSize)
    (h : format.datumSize ∣ data.length) : d.setWindowProperty data format = data := by
  have hlength : data.length ≤ d.length := Nat.le_trans hle maxRequestSize_le_length
  rw [setWindowProperty, List.take_of_length_le hlength, List.drop_eq_nil_of_le hlength,
    appendChunks_nil, List.append_nil, PropertyFormat.elements_of_dvd h]

end XDisplay

/-- A value of a property, with its type. -/
structure PropertyValue where
  type : Option Atom
  data : Bytes
deriving DecidableEq, Repr

/-- Data that a converter made from the clipboard, with the type and the format that it says. -/
structure Conversion where
  data : Bytes
  type : Atom
  format : PropertyFormat
deriving DecidableEq, Repr

/-- What happens between the clipboard and the X server. -/
inductive Happening
  /-- A request for a value of the property comes; `id` is the reply to it.  The data is what the
  reply is to deliver. -/
  | requested (id : ℕ) (requestor : Window) (property : Atom) (conversion : Option Conversion)
  /-- The reply sets the property. -/
  | wrote (id : ℕ) (requestor : Window) (property : Atom) (value : PropertyValue)
  /-- The reply sends the `SelectionNotify` event. -/
  | notified (id : ℕ) (requestor : Window) (selection target : Atom) (property : Option Atom)
      (time : ℕ)
  /-- The reply takes the property away. -/
  | cleared (id : ℕ) (requestor : Window) (property : Atom)
  /-- The clipboard asks for the events in the mask. -/
  | selected (requestor : Window) (eventMask : ℕ)
  /-- The notice comes that the requestor deleted the property. -/
  | deleted (requestor : Window) (property : Atom)
  /-- The clipboard learns that the requestor was destroyed. -/
  | destroyed (requestor : Window)
deriving DecidableEq, Repr

/-- What happened, newest first. -/
abbrev XLog := List Happening

/-- The answer to one request. -/
structure Reply where
  /-- Tells the reply from all others. -/
  id : ℕ
  requestor : Window
  target : Atom
  time : ℕ
  property : Option Atom := none
  /-- The requestor was notified. -/
  replied : Bool := false
  /-- The last value is set. -/
  done : Bool := false
  data : Bytes := []
  type : Option Atom := none
  format : PropertyFormat := .bits32
  /-- How much of the data is sent. -/
  ptr : ℕ := 0
deriving DecidableEq, Repr

/-- The arguments of a selection request. -/
structure SelectionRequest where
  owner : Window
  requestor : Window
  target : Atom
  time : ℕ
  property : Option Atom
deriving DecidableEq, Repr

/-- What a handler learns from elsewhere. -/
structure SelectionEnv where
  /-- The clipboard was owned at the time of the request. -/
  ownedAtTime : Bool := true
  /-- What the target's converter makes of the clipboard, if there is one and it can. -/
  conversion : Option Conversion := none
  /-- The requestor's event mask. -/
  yourEventMask : ℕ := 0
  /-- The requestor's window does not exist any more. -/
  error : Bool := false
  /-- The properties that the server does not set. -/
  refused : List (Window × Atom) := []
deriving DecidableEq, Repr

namespace Reply

/-- The notice that the request is answered. -/
def sendNotify (r : Reply) (selection : Atom) (property : Option Atom) : Happening :=
  .notified r.id r.requestor selection r.target property r.time

/-- The end of `sendReply` if the value could not be set. -/
def fail (r : Reply) (d : XDisplay) (selection : Atom) (log : XLog) : Bool × Reply × XLog :=
  let cleared := r.property.toList.map (.cleared r.id r.requestor ·) ++ log
  if !r.replied then
    (true, { r with done := true }, r.sendNotify selection none :: cleared)
  else
    (false, { r with done := true }, r.property.toList.map
      (.wrote r.id r.requestor · ⟨r.type, d.setWindowProperty [] r.format⟩) ++ cleared)

/-- The end of `sendReply` if the value is set: the first one is announced. -/
def notify (r : Reply) (selection : Atom) (log : XLog) : Bool × Reply × XLog :=
  if !r.replied then
    (false, { r with replied := true }, r.sendNotify selection r.property :: log)
  else
    (false, r, log)

/-- The bytes of a 32-bit number in memory. -/
def sizeBytes (size : ℕ) : Bytes :=
  (List.range 4).map fun i => UInt8.ofNat (size / 256 ^ i)

/-- Sets the next value of the property.  Returns whether the reply is over. -/
def sendReply (r : Reply) (d : XDisplay) (refused : List (Window × Atom)) (selection : Atom)
    (log : XLog) : Bool × Reply × XLog :=
  if r.done then
    (true, r, log)
  else
    match r.property with
    | none => r.fail d selection log
    | some property =>
      let useINCR := d.maxRequestSize < r.data.length
      if (r.requestor, property) ∈ refused then
        r.fail d selection log
      else if useINCR ∧ !r.replied then
        r.notify selection (.wrote r.id r.requestor property
          ⟨some d.atomINCR, d.setWindowProperty (sizeBytes r.data.length) .bits32⟩ :: log)
      else
        let size := min ((r.data.length - r.ptr) % 2 ^ 32) d.maxRequestSize
        let r' := { r with ptr := (r.ptr + size) % 2 ^ 32, done := size = 0 ∨ ¬useINCR }
        r'.notify selection (.wrote r.id r.requestor property
          ⟨r.type, d.setWindowProperty ((r.data.drop r.ptr).take size) r.format⟩ :: log)

end Reply

/-- The clipboard that the X server knows as a selection. -/
structure XWindowsClipboard where
  window : Window
  selection : Atom
  /-- The replies to each requestor that are not over. -/
  replies : Std.TreeMap Window (List Reply) := ∅
  /-- The events each requestor had asked for itself. -/
  eventMasks : Std.TreeMap Window ℕ := ∅
  /-- How many replies were made. -/
  made : ℕ := 0
  log : XLog := []

namespace XWindowsClipboard

/-- `StructureNotifyMask | PropertyChangeMask`. -/
def watchMask : ℕ := 1 <<< 17 ||| 1 <<< 22

variable (d : XDisplay) (s : XWindowsClipboard) (env : SelectionEnv)

/-- Queues the reply and watches the requestor. -/
def insertReply (r : Reply) : XWindowsClipboard :=
  let newWindow := !s.replies.contains r.requestor
  let queued :=
    { s with
      replies := s.replies.insert r.requestor (s.replies.getD r.requestor [] ++ [r])
      made := s.made + 1 }
  if newWindow then
    let watched :=
      { queued with
        eventMasks := s.eventMasks.insert r.requestor env.yourEventMask
        log := .selected r.requestor (env.yourEventMask ||| watchMask) :: s.log }
    if env.error then
      { watched with
        replies := watched.replies.erase r.requestor
        log := .destroyed r.requestor :: watched.log }
    else watched
  else queued

/-- The loop of `pushReplies` over the replies of one requestor: those that are over go, until one
has to wait. -/
def sendReplies : List Reply → XLog → List Reply × XLog
  | [], log => ([], log)
  | r :: rest, log =>
    match r.sendReply d env.refused s.selection log with
    | (true, _, log') => sendReplies rest log'
    | (false, r', log') => (r' :: rest, log')

/-- `pushReplies` of the requestor from the reply at the head of `rest`; `front` comes before. -/
def pushRepliesFrom (requestor : Window) (front rest : List Reply) : XWindowsClipboard :=
  let sent := s.sendReplies d env rest s.log
  if front ++ sent.1 = [] then
    { s with
      replies := s.replies.erase requestor
      eventMasks := s.eventMasks.erase requestor
      log := .selected requestor (s.eventMasks.getD requestor 0) :: sent.2 }
  else
    { s with
      replies := s.replies.insert requestor (front ++ sent.1)
      log := sent.2 }

/-- Sends the first reply of the requestor that has not been sent yet. -/
def pushRequestor (requestor : Window) : XWindowsClipboard :=
  let replies := s.replies.getD requestor []
  match replies.dropWhile (·.replied) with
  | [] => s
  | r :: rest =>
    s.pushRepliesFrom d env requestor (replies.takeWhile (·.replied)) (r :: rest)

/-- Sends the first reply of each requestor that has not been sent yet. -/
def pushReplies : XWindowsClipboard :=
  s.replies.keys.foldl (fun s requestor => s.pushRequestor d env requestor) s

/-- The reply to a request that cannot be answered. -/
def failedReply (req : SelectionRequest) : Reply where
  id := s.made
  requestor := req.requestor
  target := req.target
  time := req.time

/-- Queues the data for the target, or the failure if there is none. -/
def addSimpleRequest (req : SelectionRequest) : XWindowsClipboard :=
  -- obsolete requestors leave the property out
  let property := req.property.getD req.target
  match env.conversion with
  | some c =>
    s.insertReply env
      { s.failedReply req with
        property := some property, data := c.data, type := some c.type, format := c.format }
  | none => s.insertReply env (s.failedReply req)

/-- The data that the request is to get. -/
def conversionFor (req : SelectionRequest) : Option Conversion :=
  if req.owner = s.window ∧ env.ownedAtTime then env.conversion else none

/-- The handler of `SelectionRequest`. -/
def addRequest (req : SelectionRequest) : XWindowsClipboard :=
  let noted :=
    { s with
      log := .requested s.made req.requestor (req.property.getD req.target)
        (s.conversionFor env req) :: s.log }
  let success := req.owner = s.window ∧ env.ownedAtTime
  let queued :=
    if success then noted.addSimpleRequest env req
    else noted.insertReply env (noted.failedReply req)
  queued.pushReplies d env

/-- The handler of `PropertyNotify` with the state `PropertyDelete`. -/
def processRequest (requestor : Window) (property : Atom) : Bool × XWindowsClipboard :=
  let noted := { s with log := .deleted requestor property :: s.log }
  match s.replies[requestor]? with
  | none => (false, noted)
  | some replies =>
    let other (r : Reply) : Bool := !(r.replied && r.property == some property)
    match replies.dropWhile other with
    | [] => (false, noted)
    | r :: rest =>
      (true, noted.pushRepliesFrom d env requestor (replies.takeWhile other) (r :: rest))

/-- The handler of `DestroyNotify`. -/
def destroyRequest (requestor : Window) : Bool × XWindowsClipboard :=
  let noted := { s with log := .destroyed requestor :: s.log }
  match s.replies[requestor]? with
  | none => (false, noted)
  | some _ => (true, { noted with replies := s.replies.erase requestor })

end XWindowsClipboard

end InputLeap
