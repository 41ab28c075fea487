import InputLeap.Net.ServerCalls
import InputLeap.Server.RecvInfo

/-!
# The calls of a client's `ServerProxy`

What a client sends to the server: the shape of its screen, its clipboards and files, and the
answers to keep-alives.  `ClientProxy1_7` reads them; before the first shape it expects nothing
else.

## Main definitions

* `ServerProxy.Call` : the calls, with the types of `ServerProxy`.
* `ServerProxy.format`, `ServerProxy.args` : what they call `writef` with.
* `ClientProxy.Reads` : how the proxy reads the fields of each message.
* `ServerProxy.onWire` : what the server makes of a call.

## Main results

* `ServerProxy.clientCalls_delivered` : the server handles the client's calls, each once and in
  order.
-/

namespace InputLeap

open ProtocolUtil (Value)

namespace ServerProxy

/-- What the client sends. -/
inductive Call
  | sendInfo (x y w h mx my : Int32)
  | keepAlive
  | grabClipboard (id : UInt8) (sequence : UInt32)
  | clipboardChunk (id : UInt8) (sequence : UInt32) (mark : UInt8) (data : Bytes)
  | fileChunk (mark : UInt8) (data : Bytes)
  | sendDragInfo (fileCount : UInt32) (data : Bytes)
  | requestFilePaste (request fileId address : Bytes)
  | sendFilePasteStatus (request : Bytes) (state : FilePasteState) (detail : Bytes)
  deriving DecidableEq

/-- The format of the message. -/
def format : Call → String
  | .sendInfo .. => msgDInfo
  | .keepAlive => msgCKeepAlive
  | .grabClipboard .. => msgCClipboard
  | .clipboardChunk .. => msgDClipboard
  | .fileChunk .. => msgDFileTransfer
  | .sendDragInfo .. => msgDDragInfo
  | .requestFilePaste .. => msgQFilePaste
  | .sendFilePasteStatus .. => msgDFileStatus

open ClientConnection (signed) in
/-- The arguments behind the format; the fifth number of the shape is always zero. -/
def args : Call → List Value
  | .sendInfo x y w h mx my =>
    [signed x, signed y, signed w, signed h, .int 0, signed mx, signed my]
  | .keepAlive => []
  | .grabClipboard id sequence => [.int id.toNat, .int sequence.toNat]
  | .clipboardChunk id sequence mark data =>
    [.int id.toNat, .int sequence.toNat, .int mark.toNat, .string data]
  | .fileChunk mark data => [.int mark.toNat, .string data]
  | .sendDragInfo fileCount data => [.int fileCount.toNat, .string data]
  | .requestFilePaste request fileId address =>
    [.string request, .string fileId, .string address]
  | .sendFilePasteStatus request state detail =>
    [.string request, .int state.toUInt32.toNat, .string detail]

/-- The shape that `recvInfo` saves, with the cursor that it has put into the middle. -/
def ofInfo (s : ScreenInfo) : Call :=
  .sendInfo (.ofInt s.x) (.ofInt s.y) (.ofInt s.w) (.ofInt s.h) (.ofInt s.mx) (.ofInt s.my)

end ServerProxy

/-! ### The server's side -/

namespace ClientProxy.Reads

open ServerProxy (Call)

/-- The fields that `recvInfo` reads. -/
def info : List Value → Option Call
  | [.int x, .int y, .int w, .int h, .int dummy1, .int mx, .int my] =>
    (InfoMessage.stored ⟨.ofNat x, .ofNat y, .ofNat w, .ofNat h, .ofNat dummy1, .ofNat mx,
      .ofNat my⟩).map ServerProxy.ofInfo
  | _ => none

/-- A message without fields. -/
def keepAlive : List Value → Option Call
  | [] => some .keepAlive
  | _ => none

/-- The fields that `recvGrabClipboard` reads. -/
def grabClipboard : List Value → Option Call
  | [.int id, .int sequence] => some (.grabClipboard (.ofNat id) (.ofNat sequence))
  | _ => none

/-- The fields that `ClipboardChunk::assemble` reads. -/
def clipboardChunk : List Value → Option Call
  | [.int id, .int sequence, .int mark, .string data] =>
    some (.clipboardChunk (.ofNat id) (.ofNat sequence) (.ofNat mark) data)
  | _ => none

/-- The fields that `FileChunk::assemble` reads. -/
def fileChunk : List Value → Option Call
  | [.int mark, .string data] => some (.fileChunk (.ofNat mark) data)
  | _ => none

/-- The fields that `dragInfoReceived` reads: the first two bytes of a number that is zero. -/
def dragInfo : List Value → Option Call
  | [.int fileNum, .string content] =>
    some (.sendDragInfo (UInt16.ofNat fileNum).toUInt32 content)
  | _ => none

/-- The fields that `recv_file_paste` reads. -/
def filePaste : List Value → Option Call
  | [.string request, .string fileId, .string address] =>
    some (.requestFilePaste request fileId address)
  | _ => none

/-- The fields that `recv_file_status` reads. -/
def fileStatus : List Value → Option Call
  | [.string request, .int state, .string detail] =>
    (FilePasteState.ofNat? state).map fun state => .sendFilePasteStatus request state detail
  | _ => none

/-- What reads the fields of each message (`parseHandshakeMessage`, `parseMessage`). -/
def readers : List (String × (List Value → Option Call)) :=
  [(msgQFilePaste, filePaste), (msgDFileStatus, fileStatus), (msgDFileTransfer, fileChunk),
    (msgDDragInfo, dragInfo), (msgCKeepAlive, keepAlive), (msgDInfo, info),
    (msgCClipboard, grabClipboard), (msgDClipboard, clipboardChunk)]

/-- The call that is made of a message. -/
def read (code : Bytes) (values : List Value) : Option Call :=
  (readers.find? fun r => Dialect.codeOf r.1 == code).bind fun r => r.2 values

end ClientProxy.Reads

namespace ServerProxy

open ClientConnection (low int16_trim low_trim)

/-- The fields of the shape. -/
def infoMessage (x y w h mx my : Int32) : InfoMessage :=
  ⟨x.toInt16, y.toInt16, w.toInt16, h.toInt16, 0, mx.toInt16, my.toInt16⟩

/-- What the server makes of a call. -/
def onWire : Call → Call
  | .sendInfo x y w h mx my =>
    (infoMessage x y w h mx my).stored.elim (.sendInfo x y w h mx my) ofInfo
  | .sendDragInfo fileCount data => .sendDragInfo (low fileCount) data
  | call => call

/-- What the parser of the proxy makes of a call: before the first shape it expects only that. -/
def verdict : Parser → Call → Option Verdict
  | _, .sendInfo x y w h mx my =>
    if (infoMessage x y w h mx my).stored.isSome then some (.okay .message) else none
  | .handshake, _ => none
  | .message, .grabClipboard id _ =>
    if (ClipboardID.ofNat? id.toNat).isSome then some (.okay .message) else none
  | .message, _ => some (.okay .message)

/-- Strings are within the limit. -/
def Fit : Call → Prop
  | .clipboardChunk _ _ _ data => data.length ≤ ProtocolUtil.maxStringLength
  | .fileChunk _ data => data.length ≤ ProtocolUtil.maxStringLength
  | .sendDragInfo _ data => data.length ≤ ProtocolUtil.maxStringLength
  | .requestFilePaste request fileId address =>
    request.length ≤ ProtocolUtil.maxStringLength ∧
      fileId.length ≤ ProtocolUtil.maxStringLength ∧ address.length ≤ ProtocolUtil.maxStringLength
  | .sendFilePasteStatus request _ detail =>
    request.length ≤ ProtocolUtil.maxStringLength ∧ detail.length ≤ ProtocolUtil.maxStringLength
  | _ => True

instance : DecidablePred Fit
  | .clipboardChunk .. => inferInstanceAs (Decidable (_ ≤ _))
  | .fileChunk .. => inferInstanceAs (Decidable (_ ≤ _))
  | .sendDragInfo .. => inferInstanceAs (Decidable (_ ≤ _))
  | .requestFilePaste .. => inferInstanceAs (Decidable (_ ∧ _ ∧ _))
  | .sendFilePasteStatus .. => inferInstanceAs (Decidable (_ ∧ _))
  | .sendInfo .. | .keepAlive | .grabClipboard .. => .isTrue trivial

/-- The calls of the client and how the server reads them. -/
def dialect : Dialect Call where
  peer := .clientProxy1_7
  format := format
  args := args
  read := ClientProxy.Reads.read
  onWire := onWire
  verdict := verdict
  Fit := Fit

instance : DecidablePred dialect.Fit := inferInstanceAs (DecidablePred Fit)

/-! ### Each call is one message -/

/-- The fields behind the code of the message. -/
def fieldsOf : Call → List ProtocolUtil.Field
  | .sendInfo .. => List.replicate 7 (.int 2)
  | .keepAlive => []
  | .grabClipboard .. => [.int 1, .int 4]
  | .clipboardChunk .. => [.int 1, .int 4, .int 1, .string]
  | .fileChunk .. => [.int 1, .string]
  | .sendDragInfo .. => [.int 2, .string]
  | .requestFilePaste .. => [.string, .string, .string]
  | .sendFilePasteStatus .. => [.string, .int 1, .string]

theorem fields_format (c : Call) : ProtocolUtil.scan none ((format c).toList.drop 4) =
    fieldsOf c := by
  cases c <;> simp only [format, fieldsOf] <;> decide +kernel

theorem sends_args {c : Call} (hfit : Fit c) : ProtocolUtil.Sends (fieldsOf c) (args c) := by
  have hint {len v : ℕ} {fs : List ProtocolUtil.Field} {vs : List Value}
      (hlen : len = 1 ∨ len = 2 ∨ len = 4) (h : ProtocolUtil.Sends fs vs) :
      ProtocolUtil.Sends (.int len :: fs) (.int v :: vs) := .int hlen h
  cases c with
  | clipboardChunk id sequence mark data =>
    exact hint (by decide) (hint (by decide) (hint (by decide) (.string hfit .nil)))
  | fileChunk mark data => exact hint (by decide) (.string hfit .nil)
  | sendDragInfo fileCount data => exact hint (by decide) (.string hfit .nil)
  | requestFilePaste request fileId address =>
    exact .string hfit.1 (.string hfit.2.1 (.string hfit.2.2 .nil))
  | sendFilePasteStatus request state detail =>
    exact .string hfit.1 (hint (by decide) (.string hfit.2 .nil))
  | _ => repeat first | exact .nil | refine hint (by decide) ?_

/-- The size of a message within the limits. -/
theorem length_encode_le {c : Call} (hfit : Fit c) :
    4 + (ProtocolUtil.encode (fieldsOf c) (ProtocolUtil.trim (fieldsOf c) (args c))).length ≤
      PacketStreamFilter.maxMessageLength := by
  have hmax : PacketStreamFilter.maxMessageLength = 4194304 := rfl
  have hstring : ProtocolUtil.maxStringLength = 1048576 := rfl
  cases c with
  | sendInfo x y w h mx my =>
    simp only [fieldsOf, args, ClientConnection.signed, List.replicate, ProtocolUtil.trim,
      ProtocolUtil.encode, List.length_append, BigEndian.length_toBytes, List.length_nil]
    omega
  | _ =>
    simp only [fieldsOf, args, ProtocolUtil.trim, ProtocolUtil.encode, List.length_append,
      BigEndian.length_toBytes, List.length_nil, Fit] at hfit ⊢
    omega

/-- A width or height is positive for both ends. -/
theorem positive_trim (v : Int32) :
    positive (v.toUInt32.toNat % 256 ^ 2) = true ↔ 0 < v.toInt16.toInt := by
  rw [← ClientConnection.toInt16_trim, positive, Int16.toInt_ofNat', Int.bmod]
  simp only [Int16.size, Bool.and_eq_true, decide_eq_true_eq]
  omega

theorem isSome_stored_iff (m : InfoMessage) :
    m.stored.isSome = true ↔ 0 < m.w.toInt ∧ 0 < m.h.toInt := by
  by_cases hsize : m.w.toInt ≤ 0 ∨ m.h.toInt ≤ 0
  · rw [InfoMessage.stored, if_pos hsize]
    exact ⟨Bool.noConfusion, fun h => by omega⟩
  · rw [InfoMessage.stored, if_neg hsize]
    exact ⟨fun _ => by omega, fun _ => rfl⟩

theorem validInfo_trim (x y w h mx my : Int32) :
    validInfo (ProtocolUtil.trim (fieldsOf (.sendInfo x y w h mx my))
        (args (.sendInfo x y w h mx my))) =
      (infoMessage x y w h mx my).stored.isSome := by
  have hw := positive_trim w
  have hh := positive_trim h
  have hstored := isSome_stored_iff (infoMessage x y w h mx my)
  simp only [fieldsOf, args, ClientConnection.signed, List.replicate, ProtocolUtil.trim, validInfo]
  rw [Bool.eq_iff_iff, Bool.and_eq_true, hw, hh, hstored]
  rfl

theorem checked_handled {format : String} {valid : List Value → Bool} {values : List Value}
    (h : valid values = true) :
    (Handler.checked format .message valid).verdict (some values) = .okay .message := by
  simp [Handler.checked, h]

theorem handles_unchecked {q : Parser} {c : Call} {v : Verdict}
    (hv : some (.okay .message) = some v)
    (hmem : Handler.unchecked (format c) .message ∈ Peer.clientProxy1_7 q) :
    ∃ handler ∈ Peer.clientProxy1_7 q, handler.format = format c ∧
      handler.verdict (some (ProtocolUtil.trim (fieldsOf c) (args c))) = v :=
  ⟨_, hmem, rfl, Option.some.inj hv⟩

/-- The proxy has a handler of the message. -/
theorem handles {q : Parser} {c : Call} {v : Verdict} (h : verdict q c = some v) :
    ∃ handler ∈ Peer.clientProxy1_7 q, handler.format = format c ∧
      handler.verdict (some (ProtocolUtil.trim (fieldsOf c) (args c))) = v := by
  cases c with
  | sendInfo x y w h' mx my =>
    simp only [verdict] at h
    split_ifs at h with hstored
    obtain rfl := Option.some.inj h
    refine ⟨.checked msgDInfo .message validInfo, ?_, rfl,
      checked_handled ((validInfo_trim x y w h' mx my).trans hstored)⟩
    cases q <;>
      simp only [Peer.clientProxy1_7, Peer.clientProxy1_6, List.mem_cons, true_or, or_true]
  | grabClipboard id sequence =>
    cases q with
    | handshake => cases h
    | message =>
      simp only [verdict] at h
      split_ifs at h with hid
      obtain rfl := Option.some.inj h
      refine ⟨.checked msgCClipboard .message validGrab, ?_, rfl, checked_handled ?_⟩
      · simp only [Peer.clientProxy1_7, Peer.clientProxy1_6, List.mem_cons, true_or, or_true]
      · have hbyte : id.toNat % 256 ^ 1 = id.toNat := Nat.mod_eq_of_lt id.toNat_lt
        simpa only [fieldsOf, args, ProtocolUtil.trim, validGrab, hbyte] using hid
  | requestFilePaste request fileId address =>
    cases q with
    | handshake => cases h
    | message =>
      obtain rfl := Option.some.inj h
      refine ⟨.checked msgQFilePaste .message fun _ => true, ?_, rfl, rfl⟩
      simp only [Peer.clientProxy1_7, List.mem_cons, true_or]
  | sendFilePasteStatus request state detail =>
    cases q with
    | handshake => cases h
    | message =>
      obtain rfl := Option.some.inj h
      refine ⟨.checked msgDFileStatus .message validStatus, ?_, rfl, ?_⟩
      · simp only [Peer.clientProxy1_7, List.mem_cons, true_or, or_true]
      · cases state <;> rfl
  | _ =>
    cases q with
    | handshake => cases h
    | message =>
      refine handles_unchecked h ?_
      simp only [Peer.clientProxy1_7, Peer.clientProxy1_6, format, List.mem_cons, true_or, or_true]

/-- What reads the fields of the call's message. -/
def reader : Call → List Value → Option Call
  | .sendInfo .. => ClientProxy.Reads.info
  | .keepAlive => ClientProxy.Reads.keepAlive
  | .grabClipboard .. => ClientProxy.Reads.grabClipboard
  | .clipboardChunk .. => ClientProxy.Reads.clipboardChunk
  | .fileChunk .. => ClientProxy.Reads.fileChunk
  | .sendDragInfo .. => ClientProxy.Reads.dragInfo
  | .requestFilePaste .. => ClientProxy.Reads.filePaste
  | .sendFilePasteStatus .. => ClientProxy.Reads.fileStatus

theorem reader_mem (c : Call) : (format c, reader c) ∈ ClientProxy.Reads.readers := by
  cases c <;>
    simp only [ClientProxy.Reads.readers, format, reader, List.mem_cons, true_or, or_true]

open ProtocolUtil (trim) in
/-- What the fields keep of the arguments is what the server makes of the call. -/
theorem reader_trim {q : Parser} {c : Call} {v : Verdict} (h : verdict q c = some v) :
    reader c (trim (fieldsOf c) (args c)) = some (onWire c) := by
  cases c with
  | sendInfo x y w h' mx my =>
    simp only [verdict] at h
    split_ifs at h with hstored
    obtain ⟨s, hs⟩ := Option.isSome_iff_exists.1 hstored
    have hzero : Int16.ofNat (0 % 256 ^ 2) = 0 := rfl
    simp only [fieldsOf, args, ClientConnection.signed, List.replicate, trim, reader,
      ClientProxy.Reads.info, ClientConnection.toInt16_trim, hzero]
    rw [onWire, hs]
    exact congrArg (Option.map ofInfo) hs
  | keepAlive => rfl
  | grabClipboard id sequence =>
    simp only [fieldsOf, args, trim, reader, ClientProxy.Reads.grabClipboard, onWire]
    simp
  | clipboardChunk id sequence mark data =>
    simp only [fieldsOf, args, trim, reader, ClientProxy.Reads.clipboardChunk, onWire]
    simp
  | fileChunk mark data =>
    simp only [fieldsOf, args, trim, reader, ClientProxy.Reads.fileChunk, onWire]
    simp
  | sendDragInfo fileCount data =>
    simp only [fieldsOf, args, trim, reader, ClientProxy.Reads.dragInfo, low_trim, onWire]
  | requestFilePaste request fileId address => rfl
  | sendFilePasteStatus request state detail => cases state <;> rfl

/-- **The server reads the call** from the fields of its message. -/
theorem read_trim {q : Parser} {c : Call} {v : Verdict} (h : verdict q c = some v) :
    ClientProxy.Reads.read (Dialect.codeOf (format c)) (ProtocolUtil.trim (fieldsOf c) (args c)) =
      some (onWire c) := by
  have hdistinct : (ClientProxy.Reads.readers.map fun r => Dialect.codeOf r.1).Nodup := by
    decide +kernel
  rw [ClientProxy.Reads.read]
  have hfind := Dialect.find?_of_nodup hdistinct (reader_mem c)
  rw [hfind]
  exact reader_trim h

theorem table : dialect.Table fieldsOf where
  plain q := by cases q <;> decide +kernel
  distinct q := by cases q <;> decide +kernel
  fields := fields_format
  sends _ := sends_args
  small _ := length_encode_le
  handled _ _ _ := handles
  reads _ _ _ := read_trim

/-- **The server handles the calls of the client**, each once and in order, however the network
cuts and delays the bytes; the shape of the screen is the one that `recvInfo` saves. -/
theorem clientCalls_delivered {s : Dialect.Link Call}
    (hs : dialect.lts.ReachableVia dialect.Admits s) : dialect.Delivered s :=
  table.speaks.delivered hs

/-- The client reports a cursor that is outside of its screen, and has grabbed a clipboard. -/
def reportOutside : List (Dialect.Event Call) :=
  [.call (.sendInfo 0 0 1920 1080 2000 5), .arrive [[0, 0, 0, 18, 68, 73, 78, 70, 0, 0, 0]],
    .handle, .call (.grabClipboard 0 3),
    .arrive [[0, 7, 128, 4, 56, 0, 0, 7, 208, 0, 5, 0, 0], [0, 9, 67, 67, 76, 80, 0, 0, 0, 0, 3]],
    .handle, .handle]

theorem clientCalls_delivered_reportOutside :
    ∃ s : Dialect.Link Call, dialect.received s =
      [some (.sendInfo 0 0 1920 1080 960 540), some (.grabClipboard 0 3)] ∧
        dialect.Delivered s := by
  have hrun : (dialect.lts.exec ⟨{ parser := .handshake }, []⟩ reportOutside).map
      dialect.received =
        some [some (.sendInfo 0 0 1920 1080 960 540), some (.grabClipboard 0 3)] := by
    decide +kernel
  obtain ⟨s, hs, hreceived⟩ := Option.map_eq_some_iff.1 hrun
  have hadm : dialect.lts.Admits dialect.Admits ⟨{ parser := .handshake }, []⟩ reportOutside := by
    decide +kernel
  exact ⟨s, hreceived, clientCalls_delivered (.of_exec (.init rfl) hadm hs)⟩

end ServerProxy

end InputLeap
