import InputLeap.LTS.Channel
import InputLeap.Net.Writef

/-!
# Messages between the daemon and the programs that it runs

The daemon (`IpcServer`) talks to the GUI and to the core over plain sockets.  There are four
endpoints: `IpcServerProxy` in the core and `IpcClientProxy` in the daemon use the formats of
`ProtocolUtil`; `IpcClient` and `IpcReader` in the GUI write and read the same bytes by hand.

## Main definitions

* `Ipc.Message` : the messages.
* `IpcServerProxy.send`, `IpcClientProxy.send`, `IpcClient.send` : the senders.
* `Ipc.handleData` : the loop of the two proxies, with `IpcServerProxy.parse` and
  `IpcClientProxy.parse`.
* `IpcReader.read` : the loop of the GUI.

## Main results

* `Ipc.handleData_carries`, `Ipc.length_reports_handleData` : the proxies on whole messages, and
  when the bytes end within one.
* `IpcReader.read_append` : the GUI on whole messages and the beginning of another.
-/

namespace InputLeap

namespace Ipc

open ProtocolUtil (Value Field scan readf writef)

def msgHello : String := "IHEL%1i"
def msgLogLine : String := "ILOG%s"
def msgCommand : String := "ICMD%s%1i"
def msgShutdown : String := "ISDN"

/-- The code that a format begins with. -/
def code (fmt : String) : Bytes := (fmt.toList.take 4).map fun c => UInt8.ofNat c.toNat

/-- The fields behind the code. -/
def fields (fmt : String) : List Field := scan none (fmt.toList.drop 4)

/-- `EIpcClientType`, with every value that its byte can have. -/
abbrev ClientType := UInt8

def clientUnknown : ClientType := 0
def clientGui : ClientType := 1
def clientNode : ClientType := 2

/-- `IpcMessage` and its subclasses. -/
inductive Message
  | hello (clientType : ClientType)
  | logLine (logLine : Bytes)
  | command (command : Bytes) (elevate : Bool)
  | shutdown
  deriving DecidableEq

/-- What the variables of a handler hold before they are set. -/
structure Junk where
  code : Bytes
  type : UInt8
  elevate : UInt8

/-- What a handler does about a code. -/
inductive Parsed
  | message (m : Message)
  /-- The code is none that the handler knows, and the stream is closed. -/
  | disconnect
  /-- An exception leaves the handler. -/
  | threw
  deriving DecidableEq

/-- `TCPSocket::read`, from the bytes that are in its buffer. -/
def socketRead (s : Bytes) (n : ℕ) : Bytes × Bytes := (s.take n, s.drop n)

/-- Reads the fields behind a code.  Whether they were all there is not checked. -/
def parseFields (fmt : String) (message : Option (List Value) → Message) (s : Bytes) :
    Parsed × Bytes :=
  match readf (ProtocolUtil.read socketRead) (fields fmt) s with
  | (.ok values, s) => (.message (message values), s)
  | (.error _, s) => (.threw, s)

/-- A buffer of four bytes that held `last`, after `data` was read into it. -/
def fill (data last : Bytes) : Bytes := (data ++ last.drop data.length).take 4

/-- `handle_data`.  How many bytes of a code were read is not checked, unless there are none. -/
def handleData (parse : Bytes → Bytes → Parsed × Bytes) :
    ℕ → Bytes → Bytes → Received Message UInt8
  | 0, _, s => { kept := s }
  | fuel + 1, last, s =>
    let (data, s) := socketRead s 4
    if data = [] then {}
    else
      let code := fill data last
      match parse code s with
      | (.threw, s) => { kept := s, alive := false }
      | (.disconnect, _) => { reports := [none], alive := false }
      | (.message m, s) =>
        let r := handleData parse fuel code s
        { r with reports := some m :: r.reports }

/-- The text of a `QString`. -/
def utf8 (text : String) : Bytes := text.toUTF8.data.toList

/-! ### Fields -/

section Fields

variable {fmt : String} {message : Option (List Value) → Message} {vs : List Value}
  {payload : Bytes}

/-- A socket gives what it has, so reading ends with the bytes or takes them all. -/
theorem read_socketRead : ProtocolUtil.read socketRead = Reading.take := by
  funext n s
  obtain _ | n := n
  · rw [ProtocolUtil.read, ProtocolUtil.readLoop_zero, Reading.take, if_neg (Nat.not_lt_zero _)]
    rfl
  by_cases hs : s = []
  · subst hs
    exact ProtocolUtil.readLoop_of_nil n.succ_ne_zero rfl _ _
  have hne : (socketRead s (n + 1)).1 ≠ [] := fun h => by simp [socketRead, hs] at h
  rw [ProtocolUtil.read, ProtocolUtil.readLoop_of_ne_nil n.succ_ne_zero hne, List.nil_append]
  simp only [socketRead]
  by_cases hshort : s.length < n + 1
  · have hleft : n + 1 - s.length ≠ 0 := by omega
    rw [Reading.take, if_pos hshort, List.drop_of_length_le (by omega),
      List.take_of_length_le (by omega), ProtocolUtil.readLoop_of_nil hleft (by simp [socketRead])]
    simp [socketRead]
  · rw [Reading.take, if_neg hshort, List.length_take, Nat.min_eq_left (by omega), Nat.sub_self,
      ProtocolUtil.readLoop_zero]

theorem parseFields_append
    (h : ProtocolUtil.vreadf Reading.take (fields fmt) payload = (.ok vs, [])) (rest : Bytes) :
    parseFields fmt message (payload ++ rest) = (.message (message (some vs)), rest) := by
  have hthere :
      (ProtocolUtil.vreadf Reading.take (fields fmt) payload).1 ≠ .error .endOfStream := by
    rw [h]
    nofun
  have hread := ProtocolUtil.readf_append (fields fmt) hthere rest
  rw [ProtocolUtil.readf_eq_ok.2 h] at hread
  rw [parseFields, read_socketRead, hread]
  rfl

/-- No exception is thrown in the middle of fields that can be read. -/
theorem parseFields_prefix
    (h : ProtocolUtil.vreadf Reading.take (fields fmt) payload = (.ok vs, [])) {p : Bytes}
    (hp : p <+: payload) : ∃ m s, parseFields fmt message p = (.message m, s) := by
  obtain ⟨more, rfl⟩ := hp
  have hextend := (ProtocolUtil.local_vreadf (fields fmt)).extend p more
  rw [parseFields, read_socketRead, readf]
  rcases hread : ProtocolUtil.vreadf Reading.take (fields fmt) p with ⟨e | values, s⟩
  · cases e with
    | badClient =>
      rw [hread, h] at hextend
      have hsame := hextend fun hend => by cases hend
      cases (Prod.mk.inj hsame).1
    | endOfStream => exact ⟨_, _, rfl⟩
    | mismatch => exact ⟨_, _, rfl⟩
  · exact ⟨_, _, rfl⟩

end Fields

/-! ### The loop of the proxies -/

section Loop

variable {parse : Bytes → Bytes → Parsed × Bytes} {w : Message × Bytes}
  {ws later : List (Message × Bytes)} {p : Bytes}

/-- The bytes of a message are parsed as it, whatever is behind them, and those that it begins
with as some message. -/
structure Carries (parse : Bytes → Bytes → Parsed × Bytes) (w : Message × Bytes) : Prop where
  length : 4 ≤ w.2.length
  parses : ∀ rest, parse (w.2.take 4) (w.2.drop 4 ++ rest) = (.message w.1, rest)
  starts : ∀ p, p <+: w.2.drop 4 → ∃ m s, parse (w.2.take 4) p = (.message m, s)

theorem fill_take {s : Bytes} (h : 4 ≤ s.length) (last : Bytes) :
    fill (s.take 4) last = s.take 4 := by
  rw [fill, List.take_append_of_le_length (by rw [List.length_take]; omega), List.take_take,
    Nat.min_self]

theorem handleData_of_message {s s' : Bytes} {m : Message} {last : Bytes} (hs : s ≠ [])
    (hparse : parse (fill (s.take 4) last) (s.drop 4) = (.message m, s')) (fuel : ℕ) :
    handleData parse (fuel + 1) last s =
      { handleData parse fuel (fill (s.take 4) last) s' with
        reports := some m :: (handleData parse fuel (fill (s.take 4) last) s').reports } := by
  have hdata : s.take 4 ≠ [] := by simp [hs]
  simp only [handleData, socketRead, if_neg hdata, hparse]

theorem handleData_cons (hw : Carries parse w) (fuel : ℕ) (last rest : Bytes) :
    handleData parse (fuel + 1) last (w.2 ++ rest) =
      { handleData parse fuel (w.2.take 4) rest with
        reports := some w.1 :: (handleData parse fuel (w.2.take 4) rest).reports } := by
  have hfour := hw.length
  have hne : w.2 ++ rest ≠ [] := by
    rw [← List.length_pos_iff, List.length_append]
    omega
  have hcode : fill ((w.2 ++ rest).take 4) last = w.2.take 4 := by
    rw [List.take_append_of_le_length hfour, fill_take hfour]
  have hparse := hw.parses rest
  rw [← List.drop_append_of_le_length hfour, ← hcode] at hparse
  rw [handleData_of_message hne hparse, hcode]

/-- **Whole messages** are all reported. -/
theorem handleData_carries (hws : ∀ w ∈ ws, Carries parse w) {fuel : ℕ} {last : Bytes}
    (hfuel : ws.length < fuel) :
    handleData parse fuel last (Channel.bytes ws) = ⟨Channel.reported ws, [], true⟩ := by
  induction ws generalizing fuel last with
  | nil =>
    obtain _ | fuel := fuel
    · cases hfuel
    · rfl
  | cons w ws ih =>
    obtain _ | fuel := fuel
    · cases hfuel
    · obtain ⟨hw, hws⟩ := List.forall_mem_cons.1 hws
      rw [Channel.bytes_cons, handleData_cons hw, ih hws (Nat.lt_of_succ_lt_succ hfuel)]
      rfl

/-- Bytes that end within a message are reported as one. -/
theorem reports_ne_nil (hquiet : ∀ code, (parse code []).1 ≠ .threw) (hw : Carries parse w)
    (hp : p <+: w.2) (hne : p ≠ []) (fuel : ℕ) (last : Bytes) :
    (handleData parse (fuel + 1) last p).reports ≠ [] := by
  by_cases hlength : p.length < 4
  · -- the code may be any
    have hdata : (socketRead p 4).1 ≠ [] := by simp [socketRead, hne]
    have hrest : (socketRead p 4).2 = [] := List.drop_of_length_le (Nat.le_of_lt hlength)
    have hnot := hquiet (fill (socketRead p 4).1 last)
    rcases hparse : parse (fill (socketRead p 4).1 last) [] with ⟨_ | _ | _, s⟩
    · simp only [handleData, if_neg hdata, hrest, hparse]
      exact List.cons_ne_nil _ _
    · simp only [handleData, if_neg hdata, hrest, hparse]
      exact List.cons_ne_nil _ _
    · exact absurd (congrArg Prod.fst hparse) hnot
  · have hfour := Nat.not_lt.1 hlength
    obtain ⟨more, hmore⟩ := hp
    have hcode : fill (p.take 4) last = w.2.take 4 := by
      rw [fill_take hfour, ← hmore, List.take_append_of_le_length hfour]
    have hbehind : p.drop 4 <+: w.2.drop 4 :=
      ⟨more, by rw [← hmore, List.drop_append_of_le_length hfour]⟩
    obtain ⟨m, s, hparse⟩ := hw.starts _ hbehind
    rw [← hcode] at hparse
    rw [handleData_of_message hne hparse]
    exact List.cons_ne_nil _ _

/-- **Bytes that end within a message** are reported as one message more. -/
theorem length_reports_handleData (hquiet : ∀ code, (parse code []).1 ≠ .threw)
    (hws : ∀ w ∈ ws ++ later, Carries parse w) (hp : Channel.Begins later p) (hne : p ≠ [])
    {fuel : ℕ} {last : Bytes} (hfuel : ws.length < fuel) :
    ws.length < (handleData parse fuel last (Channel.bytes ws ++ p)).reports.length := by
  induction ws generalizing fuel last with
  | nil =>
    obtain _ | fuel := fuel
    · cases hfuel
    · obtain ⟨w, rest, rfl, hprefix, -⟩ := hp.resolve_left hne
      exact List.length_pos_iff.2
        (reports_ne_nil hquiet (hws w List.mem_cons_self) hprefix hne fuel last)
  | cons w ws ih =>
    obtain _ | fuel := fuel
    · cases hfuel
    · obtain ⟨hw, hws⟩ := List.forall_mem_cons.1 hws
      rw [Channel.bytes_cons, List.append_assoc, handleData_cons hw]
      exact Nat.succ_lt_succ (ih hws (Nat.lt_of_succ_lt_succ hfuel))

end Loop

end Ipc

/-! ### The core -/

namespace IpcServerProxy

open Ipc
open ProtocolUtil (writef)

/-- `send`.  The flag of a command is not passed; `vararg` is what is found in its place. -/
def send (vararg : ℕ) : Message → Option Bytes
  | .hello clientType => writef msgHello [.int clientType.toNat]
  | .command command _ => writef msgCommand [.string command, .int vararg]
  | _ => some []

def parseLogLine : Bytes → Parsed × Bytes :=
  parseFields msgLogLine fun
    | some [.string logLine] => .logLine logLine
    | _ => .logLine []

def parse (code s : Bytes) : Parsed × Bytes :=
  if code = Ipc.code msgLogLine then parseLogLine s
  else if code = Ipc.code msgShutdown then (.message .shutdown, s)
  else (.disconnect, s)

def handleData (junk : Junk) (s : Bytes) : Received Message UInt8 :=
  Ipc.handleData parse (s.length + 1) junk.code s

end IpcServerProxy

/-! ### The daemon -/

namespace IpcClientProxy

open Ipc
open ProtocolUtil (readf writef)

def send : Message → Option Bytes
  | .logLine logLine => writef msgLogLine [.string logLine]
  | .shutdown => writef msgShutdown []
  | _ => some []

def parseHello (junk : Junk) : Bytes → Parsed × Bytes :=
  parseFields msgHello fun
    | some [.int type] => .hello (UInt8.ofNat type)
    | _ => .hello junk.type

/-- The text is set if it is there, even if the flag is not. -/
def parseCommand (junk : Junk) (s : Bytes) : Parsed × Bytes :=
  parseFields msgCommand (fun
    | some [.string command, .int elevate] => .command command (elevate ≠ 0)
    | _ =>
      match (readf (ProtocolUtil.read socketRead) [.string] s).1 with
      | .ok (some [.string command]) => .command command (junk.elevate ≠ 0)
      | _ => .command [] (junk.elevate ≠ 0)) s

def parse (junk : Junk) (code s : Bytes) : Parsed × Bytes :=
  if code = Ipc.code msgHello then parseHello junk s
  else if code = Ipc.code msgCommand then parseCommand junk s
  else (.disconnect, s)

def handleData (junk : Junk) (s : Bytes) : Received Message UInt8 :=
  Ipc.handleData (parse junk) (s.length + 1) junk.code s

end IpcClientProxy

/-! ### The GUI -/

inductive ElevateMode
  | asNeeded
  | always
  | never
  deriving DecidableEq

namespace IpcClient

open Ipc

/-- What the GUI asks its `IpcClient` for. -/
inductive Request
  | hello
  | command (command : String) (elevate : ElevateMode)
  deriving DecidableEq

/-- The message that is asked for. -/
def Request.message : Request → Message
  | .hello => .hello clientGui
  | .command text elevate => .command (utf8 text) (elevate = .always)

/-- `intToBytes` for four bytes. -/
def intToBytes (value : ℤ) : Bytes := BigEndian.toBytes 4 (BitVec.ofInt 32 value).toNat

def sendHello : Bytes := code msgHello ++ [clientGui]

/-- The text ends at its first zero, and its length is an `int`. -/
def sendCommand (command : String) (elevate : ElevateMode) : Bytes :=
  let charCommand := (utf8 command).takeWhile (· ≠ 0)
  let length := (BitVec.ofNat 32 charCommand.length).toInt
  code msgCommand ++ intToBytes length ++ charCommand.take length.toNat ++
    [if elevate = .always then 1 else 0]

def send : Request → Bytes
  | .hello => sendHello
  | .command command elevate => sendCommand command elevate

end IpcClient

namespace IpcReader

open Ipc

/-- `readStream`; `none` waits for more bytes. -/
def readStream (s : Bytes) (length : ℕ) : Option (Bytes × Bytes) :=
  if s.length < length then none else some (s.take length, s.drop length)

/-- `bytesToInt` for four bytes. -/
def bytesToInt (buffer : Bytes) : ℤ := (BitVec.ofNat 32 (BigEndian.ofBytes buffer)).toInt

variable (fromUtf8 : Bytes → String)

/-- Reads what is behind the code of a log line; an array of a negative length throws. -/
def readLogLine (s : Bytes) : Option (Except Unit (Message × Bytes)) :=
  (readStream s 4).bind fun (lenBuf, s) =>
    let len := bytesToInt lenBuf
    if len < 0 then some (.error ())
    else (readStream s len.toNat).map fun (data, s) => .ok (.logLine (utf8 (fromUtf8 data)), s)

/-- `read`.  When it waits in the middle of a message it goes on there as soon as there are more
bytes; here it starts again with that message.  Bytes behind an unknown code stay in the
socket. -/
def readLoop : ℕ → Bytes → Received Message UInt8
  | 0, s => { kept := s }
  | fuel + 1, s =>
    if s = [] then {}
    else
      match readStream s 4 with
      | none => { kept := s }
      | some (codeBuf, rest) =>
        if codeBuf = code msgLogLine then
          match readLogLine fromUtf8 rest with
          | none => { kept := s }
          | some (.error _) => { alive := false }
          | some (.ok (m, rest)) =>
            let r := readLoop fuel rest
            { r with reports := some m :: r.reports }
        else { kept := rest }

def read (s : Bytes) : Received Message UInt8 := readLoop fromUtf8 (s.length + 1) s

/-- The bytes of a log line. -/
def logLineBytes (text : Bytes) : Bytes :=
  code msgLogLine ++ (BigEndian.toBytes 4 text.length ++ text)

/-- The bytes are those of a log line that the GUI has the text of. -/
def Shows (w : Message × Bytes) : Prop :=
  ∃ text, w = (.logLine text, logLineBytes text) ∧ text.length < 2 ^ 31 ∧
    utf8 (fromUtf8 text) = text

variable {fromUtf8} {w : Message × Bytes} {ws later : List (Message × Bytes)} {text p : Bytes}

theorem readStream_append (data rest : Bytes) :
    readStream (data ++ rest) data.length = some (data, rest) := by
  rw [readStream, if_neg (by rw [List.length_append]; omega), List.take_left, List.drop_left]

theorem readStream_eq_none {s : Bytes} {length : ℕ} (h : s.length < length) :
    readStream s length = none := if_pos h

/-- A length is read as it was written if it is no negative `int`. -/
theorem bytesToInt_toBytes {n : ℕ} (hn : n < 2 ^ 32) :
    bytesToInt (BigEndian.toBytes 4 n) = if n < 2 ^ 31 then (n : ℤ) else n - 2 ^ 32 := by
  rw [bytesToInt, BigEndian.ofBytes_toBytes (by omega), BitVec.toInt_eq_toNat_cond,
    BitVec.toNat_ofNat]
  split_ifs <;> omega

/-- What is behind the length of a log line is its text. -/
theorem readLogLine_length {n : ℕ} (hn : n < 2 ^ 31) (s : Bytes) :
    readLogLine fromUtf8 (BigEndian.toBytes 4 n ++ s) =
      (readStream s n).map fun r => .ok (.logLine (utf8 (fromUtf8 r.1)), r.2) := by
  have hlen := readStream_append (BigEndian.toBytes 4 n) s
  rw [BigEndian.length_toBytes] at hlen
  have hint : bytesToInt (BigEndian.toBytes 4 n) = n := by
    rw [bytesToInt_toBytes (by omega), if_pos hn]
  rw [readLogLine, hlen, Option.bind_some]
  simp only [hint, Int.toNat_natCast]
  rw [if_neg (by omega)]

/-- A length that is a negative `int` throws. -/
theorem readLogLine_negative {n : ℕ} (hn : 2 ^ 31 ≤ n) (hlt : n < 2 ^ 32) (s : Bytes) :
    readLogLine fromUtf8 (BigEndian.toBytes 4 n ++ s) = some (.error ()) := by
  have hlen := readStream_append (BigEndian.toBytes 4 n) s
  rw [BigEndian.length_toBytes] at hlen
  have hint : bytesToInt (BigEndian.toBytes 4 n) < 0 := by
    rw [bytesToInt_toBytes hlt, if_neg (by omega)]
    omega
  rw [readLogLine, hlen, Option.bind_some]
  exact if_pos hint

theorem readLogLine_begins (hp : p <+: BigEndian.toBytes 4 text.length ++ text)
    (hlength : text.length < 2 ^ 31) (hlt : p.length < 4 + text.length) :
    readLogLine fromUtf8 p = none := by
  by_cases hfour : p.length < 4
  · rw [readLogLine, readStream_eq_none hfour, Option.bind_none]
  · have hlen : BigEndian.toBytes 4 text.length <+: p := by
      refine List.prefix_of_prefix_length_le ⟨text, rfl⟩ hp ?_
      rw [BigEndian.length_toBytes]
      omega
    obtain ⟨data, rfl⟩ := hlen
    rw [List.length_append, BigEndian.length_toBytes] at hlt
    rw [readLogLine_length hlength, readStream_eq_none (by omega), Option.map_none]

theorem length_code : (code msgLogLine).length = 4 := by decide

/-- The code of a log line is followed by its length. -/
theorem readLoop_code (fuel : ℕ) (s : Bytes) :
    readLoop fromUtf8 (fuel + 1) (code msgLogLine ++ s) =
      match readLogLine fromUtf8 s with
      | none => { kept := code msgLogLine ++ s }
      | some (.error _) => { alive := false }
      | some (.ok (m, rest)) =>
        { readLoop fromUtf8 fuel rest with
          reports := some m :: (readLoop fromUtf8 fuel rest).reports } := by
  have hcode := readStream_append (code msgLogLine) s
  rw [length_code] at hcode
  have hne : code msgLogLine ++ s ≠ [] := List.cons_ne_nil _ _
  rw [readLoop, if_neg hne, hcode]
  rfl

theorem readLoop_cons (hw : Shows fromUtf8 w) (fuel : ℕ) (rest : Bytes) :
    readLoop fromUtf8 (fuel + 1) (w.2 ++ rest) =
      { readLoop fromUtf8 fuel rest with
        reports := some w.1 :: (readLoop fromUtf8 fuel rest).reports } := by
  obtain ⟨text, rfl, hlength, htext⟩ := hw
  rw [logLineBytes, List.append_assoc, List.append_assoc, readLoop_code,
    readLogLine_length hlength, readStream_append, Option.map_some]
  simp only [htext]

/-- The GUI waits in the middle of a message. -/
theorem readLoop_begins (hw : Shows fromUtf8 w) (hp : p <+: w.2) (hlt : p.length < w.2.length)
    (fuel : ℕ) : readLoop fromUtf8 (fuel + 1) p = { kept := p } := by
  obtain ⟨text, rfl, hlength, -⟩ := hw
  by_cases hnil : p = []
  · subst hnil
    rfl
  by_cases hfour : p.length < 4
  · rw [readLoop, if_neg hnil, readStream_eq_none hfour]
  · obtain ⟨q, rfl⟩ : code msgLogLine <+: p := by
      refine List.prefix_of_prefix_length_le ⟨_, rfl⟩ hp ?_
      rw [length_code]
      omega
    have hq := (List.prefix_append_right_inj _).1 hp
    simp only [logLineBytes, List.length_append, BigEndian.length_toBytes] at hlt
    rw [readLoop_code, readLogLine_begins hq hlength (by omega)]

/-- **The GUI** reports whole messages and keeps the beginning of another. -/
theorem read_append (hws : ∀ w ∈ ws ++ later, Shows fromUtf8 w) (hp : Channel.Begins later p)
    {fuel : ℕ} (hfuel : ws.length < fuel) :
    readLoop fromUtf8 fuel (Channel.bytes ws ++ p) = ⟨Channel.reported ws, p, true⟩ := by
  induction ws generalizing fuel with
  | nil =>
    obtain _ | fuel := fuel
    · cases hfuel
    · rcases hp with rfl | ⟨w, rest, rfl, hprefix, hlt⟩
      · rfl
      · exact readLoop_begins (hws w List.mem_cons_self) hprefix hlt fuel
  | cons w ws ih =>
    obtain _ | fuel := fuel
    · cases hfuel
    · obtain ⟨hw, hws⟩ := List.forall_mem_cons.1 hws
      rw [Channel.bytes_cons, List.append_assoc, readLoop_cons hw,
        ih hws (Nat.lt_of_succ_lt_succ hfuel)]
      rfl

end IpcReader

end InputLeap
