import InputLeap.Net.Dialect

/-!
# The calls of a client's proxy on the server

`ClientConnectionByStream` writes each call of `ClientProxy1_6` and `ClientProxy1_7` with the
format of its message; `ServerProxy` reads the fields into variables of its own types.  The
server's coordinates have 32 bits, the fields for them 16, and the client takes them for signed.

## Main definitions

* `ClientConnection.Call` : the calls, with the types of `IClientConnection`.
* `ClientConnection.format`, `ClientConnection.args` : what they call `writef` with.
* `ServerProxy.Reads` : how the client reads the fields of each message.
* `ClientConnection.onWire` : what the formats have room for.

## Main results

* `ClientConnection.serverCalls_delivered` : the client handles the server's calls, each once and in
  order.
* `ClientConnection.onWire_eq_iff` : which calls arrive unchanged.
-/

namespace InputLeap

open ProtocolUtil (Value)

/-- The messages that end a connection (`kMsgCClose`, `kMsgEUnknown`, `kMsgEBusy`). -/
inductive CloseMessage
  | close
  | unknown
  | busy
  deriving DecidableEq

/-- The text that `Server::closeClient` is called with. -/
def CloseMessage.format : CloseMessage → String
  | .close => msgCClose
  | .unknown => msgEUnknown
  | .busy => msgEBusy

/-- The number of a state of a paste in messages. -/
def FilePasteState.toUInt32 : FilePasteState → UInt32
  | .sending => 1
  | .sent => 2
  | .failed => 3

/-- The state with the number. -/
def FilePasteState.ofNat? : ℕ → Option FilePasteState
  | 1 => some .sending
  | 2 => some .sent
  | 3 => some .failed
  | _ => none

namespace ClientConnection

/-- The calls of `IClientConnection`. -/
inductive Call
  | queryInfo
  | leave
  | enter (xAbs yAbs : Int32) (seqNum mask : UInt32)
  | keyDown (key mask : UInt32) (button : UInt16)
  | keyUp (key mask : UInt32) (button : UInt16)
  | keyRepeat (key mask : UInt32) (count : Int32) (button : UInt16)
  | mouseDown (button : UInt8)
  | mouseUp (button : UInt8)
  | mouseMove (xAbs yAbs : Int32)
  | mouseRelativeMove (xRel yRel : Int32)
  | mouseWheel (xDelta yDelta : Int32)
  | dragInfo (fileCount : UInt32) (data : Bytes)
  | screensaver (on : Bool)
  | resetOptions
  | setOptions (options : List UInt32)
  | infoAck
  | keepAlive
  | close (msg : CloseMessage)
  | clipboardChunk (id : UInt8) (sequence : UInt32) (mark : UInt8) (data : Bytes)
  | fileChunk (mark : UInt8) (data : Bytes)
  | grabClipboard (id : UInt8)
  | fileSend (request fileId address : Bytes)
  | fileStatus (request : Bytes) (state : FilePasteState) (detail : Bytes)
  deriving DecidableEq

/-- The format of the message. -/
def format : Call → String
  | .queryInfo => msgQInfo
  | .leave => msgCLeave
  | .enter .. => msgCEnter
  | .keyDown .. => msgDKeyDown
  | .keyUp .. => msgDKeyUp
  | .keyRepeat .. => msgDKeyRepeat
  | .mouseDown _ => msgDMouseDown
  | .mouseUp _ => msgDMouseUp
  | .mouseMove .. => msgDMouseMove
  | .mouseRelativeMove .. => msgDMouseRelMove
  | .mouseWheel .. => msgDMouseWheel
  | .dragInfo .. => msgDDragInfo
  | .screensaver _ => msgCScreenSaver
  | .resetOptions => msgCResetOptions
  | .setOptions _ => msgDSetOptions
  | .infoAck => msgCInfoAck
  | .keepAlive => msgCKeepAlive
  | .close msg => msg.format
  | .clipboardChunk .. => msgDClipboard
  | .fileChunk .. => msgDFileTransfer
  | .grabClipboard _ => msgCClipboard
  | .fileSend .. => msgCFileSend
  | .fileStatus .. => msgDFileStatus

/-- A signed argument, as `va_arg` takes it for an unsigned one. -/
def signed (v : Int32) : Value := .int v.toUInt32.toNat

/-- The arguments behind the format. -/
def args : Call → List Value
  | .enter xAbs yAbs seqNum mask =>
    [signed xAbs, signed yAbs, .int seqNum.toNat, .int mask.toNat]
  | .keyDown key mask button => [.int key.toNat, .int mask.toNat, .int button.toNat]
  | .keyUp key mask button => [.int key.toNat, .int mask.toNat, .int button.toNat]
  | .keyRepeat key mask count button =>
    [.int key.toNat, .int mask.toNat, signed count, .int button.toNat]
  | .mouseDown button => [.int button.toNat]
  | .mouseUp button => [.int button.toNat]
  | .mouseMove xAbs yAbs => [signed xAbs, signed yAbs]
  | .mouseRelativeMove xRel yRel => [signed xRel, signed yRel]
  | .mouseWheel xDelta yDelta => [signed xDelta, signed yDelta]
  | .dragInfo fileCount data => [.int fileCount.toNat, .string data]
  | .screensaver on => [.int on.toNat]
  | .setOptions options => [.ints (options.map UInt32.toNat)]
  | .clipboardChunk id sequence mark data =>
    [.int id.toNat, .int sequence.toNat, .int mark.toNat, .string data]
  | .fileChunk mark data => [.int mark.toNat, .string data]
  | .grabClipboard id => [.int id.toNat, .int 0]
  | .fileSend request fileId address => [.string request, .string fileId, .string address]
  | .fileStatus request state detail => [.string request, .int state.toUInt32.toNat, .string detail]
  | _ => []

/-- A signed field of two bytes. -/
def int16 (v : ℕ) : Int32 := (Int16.ofNat v).toInt32

end ClientConnection

/-! ### The client's side -/

namespace ServerProxy.Reads

open ClientConnection (Call int16)

/-- The fields that `enter` reads. -/
def enter : List Value → Option Call
  | [.int x, .int y, .int seqNum, .int mask] =>
    some (.enter (int16 x) (int16 y) (UInt32.ofNat seqNum) (UInt16.ofNat mask).toUInt32)
  | _ => none

/-- The fields that `keyDown` and `keyUp` read. -/
def key (call : UInt32 → UInt32 → UInt16 → Call) : List Value → Option Call
  | [.int id, .int mask, .int button] =>
    some (call (UInt16.ofNat id).toUInt32 (UInt16.ofNat mask).toUInt32 (UInt16.ofNat button))
  | _ => none

/-- The fields that `keyRepeat` reads; the count is unsigned. -/
def keyRepeat : List Value → Option Call
  | [.int id, .int mask, .int count, .int button] =>
    some (.keyRepeat (UInt16.ofNat id).toUInt32 (UInt16.ofNat mask).toUInt32
      (UInt16.ofNat count).toUInt32.toInt32 (UInt16.ofNat button))
  | _ => none

/-- The field that `mouseDown` and `mouseUp` read, a signed byte that is cast to a button. -/
def button (call : UInt8 → Call) : List Value → Option Call
  | [.int id] => some (call (Int8.ofNat id).toUInt8)
  | _ => none

/-- The fields that `mouseMove`, `mouseRelativeMove` and `mouseWheel` read. -/
def point (call : Int32 → Int32 → Call) : List Value → Option Call
  | [.int x, .int y] => some (call (int16 x) (int16 y))
  | _ => none

/-- The fields that `dragInfoReceived` reads: the first two bytes of a number that is zero. -/
def dragInfo : List Value → Option Call
  | [.int fileNum, .string content] => some (.dragInfo (UInt16.ofNat fileNum).toUInt32 content)
  | _ => none

/-- The field that `screensaver` reads. -/
def screensaver : List Value → Option Call
  | [.int on] => some (.screensaver (Int8.ofNat on != 0))
  | _ => none

/-- The fields that `setOptions` reads. -/
def setOptions : List Value → Option Call
  | [.ints options] => some (.setOptions (options.map UInt32.ofNat))
  | _ => none

/-- The fields that `ClipboardChunk::assemble` reads. -/
def clipboardChunk : List Value → Option Call
  | [.int id, .int sequence, .int mark, .string data] =>
    some (.clipboardChunk (UInt8.ofNat id) (UInt32.ofNat sequence) (UInt8.ofNat mark) data)
  | _ => none

/-- The fields that `FileChunk::assemble` reads. -/
def fileChunk : List Value → Option Call
  | [.int mark, .string data] => some (.fileChunk (UInt8.ofNat mark) data)
  | _ => none

/-- The fields that `grabClipboard` reads; it does not use the sequence number. -/
def grabClipboard : List Value → Option Call
  | [.int id, .int _] => some (.grabClipboard (UInt8.ofNat id))
  | _ => none

/-- The fields that `file_send` reads. -/
def fileSend : List Value → Option Call
  | [.string request, .string fileId, .string address] => some (.fileSend request fileId address)
  | _ => none

/-- The fields that `file_status` reads. -/
def fileStatus : List Value → Option Call
  | [.string request, .int state, .string detail] =>
    (FilePasteState.ofNat? state).map fun state => .fileStatus request state detail
  | _ => none

/-- A message without fields. -/
def only (call : Call) : List Value → Option Call
  | [] => some call
  | _ => none

/-- What reads the fields of each message (`parseHandshakeMessage`, `parseMessage`). -/
def readers : List (String × (List Value → Option Call)) :=
  [(msgQInfo, only .queryInfo), (msgCInfoAck, only .infoAck), (msgDSetOptions, setOptions),
    (msgCResetOptions, only .resetOptions), (msgCKeepAlive, only .keepAlive),
    (msgCClose, only (.close .close)), (msgEBusy, only (.close .busy)),
    (msgEUnknown, only (.close .unknown)), (msgDMouseMove, point .mouseMove),
    (msgDMouseRelMove, point .mouseRelativeMove), (msgDMouseWheel, point .mouseWheel),
    (msgDKeyDown, key .keyDown), (msgDKeyUp, key .keyUp), (msgDMouseDown, button .mouseDown),
    (msgDMouseUp, button .mouseUp), (msgDKeyRepeat, keyRepeat), (msgCEnter, enter),
    (msgCLeave, only .leave), (msgCClipboard, grabClipboard), (msgCScreenSaver, screensaver),
    (msgDClipboard, clipboardChunk), (msgDFileTransfer, fileChunk), (msgDDragInfo, dragInfo),
    (msgCFileSend, fileSend), (msgDFileStatus, fileStatus)]

/-- The call that is made of a message. -/
def read (code : Bytes) (values : List Value) : Option Call :=
  (readers.find? fun r => Dialect.codeOf r.1 == code).bind fun r => r.2 values

end ServerProxy.Reads

namespace ClientConnection

/-- What a field of two bytes keeps of a number. -/
def low (v : UInt32) : UInt32 := v.toUInt16.toUInt32

/-- What a signed field of two bytes keeps of a number. -/
def lowSigned (v : Int32) : Int32 := v.toInt16.toInt32

/-- What the formats have room for, read with the types of the client. -/
def onWire : Call → Call
  | .enter xAbs yAbs seqNum mask => .enter (lowSigned xAbs) (lowSigned yAbs) seqNum (low mask)
  | .keyDown key mask button => .keyDown (low key) (low mask) button
  | .keyUp key mask button => .keyUp (low key) (low mask) button
  | .keyRepeat key mask count button =>
    .keyRepeat (low key) (low mask) (low count.toUInt32).toInt32 button
  | .mouseMove xAbs yAbs => .mouseMove (lowSigned xAbs) (lowSigned yAbs)
  | .mouseRelativeMove xRel yRel => .mouseRelativeMove (lowSigned xRel) (lowSigned yRel)
  | .mouseWheel xDelta yDelta => .mouseWheel (lowSigned xDelta) (lowSigned yDelta)
  | .dragInfo fileCount data => .dragInfo (low fileCount) data
  | call => call

/-- What the client's parser makes of a call: before the options it expects only those of the
handshake. -/
def verdict : Parser → Call → Option Verdict
  | .handshake, .setOptions _ => some (.okay .message)
  | .handshake, .queryInfo => some (.okay .handshake)
  | .handshake, .infoAck => some (.okay .handshake)
  | .handshake, .resetOptions => some (.okay .handshake)
  | .handshake, .keepAlive => some (.okay .handshake)
  | .handshake, .close _ => some .disconnect
  | .handshake, _ => none
  | .message, .close .close => some .disconnect
  | .message, .close _ => none
  | .message, _ => some (.okay .message)

/-- Strings and lists are within the limits, and options within those of a packet. -/
def Fit : Call → Prop
  | .dragInfo _ data => data.length ≤ ProtocolUtil.maxStringLength
  | .setOptions options => 4 * options.length + 8 ≤ PacketStreamFilter.maxMessageLength
  | .clipboardChunk _ _ _ data => data.length ≤ ProtocolUtil.maxStringLength
  | .fileChunk _ data => data.length ≤ ProtocolUtil.maxStringLength
  | .fileSend request fileId address =>
    request.length ≤ ProtocolUtil.maxStringLength ∧
      fileId.length ≤ ProtocolUtil.maxStringLength ∧ address.length ≤ ProtocolUtil.maxStringLength
  | .fileStatus request _ detail =>
    request.length ≤ ProtocolUtil.maxStringLength ∧ detail.length ≤ ProtocolUtil.maxStringLength
  | _ => True

instance : DecidablePred Fit
  | .dragInfo .. => inferInstanceAs (Decidable (_ ≤ _))
  | .setOptions _ => inferInstanceAs (Decidable (_ ≤ _))
  | .clipboardChunk .. => inferInstanceAs (Decidable (_ ≤ _))
  | .fileChunk .. => inferInstanceAs (Decidable (_ ≤ _))
  | .fileSend .. => inferInstanceAs (Decidable (_ ∧ _ ∧ _))
  | .fileStatus .. => inferInstanceAs (Decidable (_ ∧ _))
  | .queryInfo | .leave | .enter .. | .keyDown .. | .keyUp .. | .keyRepeat .. | .mouseDown _
  | .mouseUp _ | .mouseMove .. | .mouseRelativeMove .. | .mouseWheel .. | .screensaver _
  | .resetOptions | .infoAck | .keepAlive | .close _ | .grabClipboard _ => .isTrue trivial

/-- The number has a place in a field of two bytes. -/
def Narrow (v : UInt32) : Prop := v.toNat < 2 ^ 16

/-- The number has a place in a signed field of two bytes. -/
def NarrowSigned (v : Int32) : Prop := -2 ^ 15 ≤ v.toInt ∧ v.toInt < 2 ^ 15

/-- The formats have room for the call. -/
def Fits : Call → Prop
  | .enter xAbs yAbs _ mask => NarrowSigned xAbs ∧ NarrowSigned yAbs ∧ Narrow mask
  | .keyDown key mask _ => Narrow key ∧ Narrow mask
  | .keyUp key mask _ => Narrow key ∧ Narrow mask
  | .keyRepeat key mask count _ => Narrow key ∧ Narrow mask ∧ Narrow count.toUInt32
  | .mouseMove xAbs yAbs => NarrowSigned xAbs ∧ NarrowSigned yAbs
  | .mouseRelativeMove xRel yRel => NarrowSigned xRel ∧ NarrowSigned yRel
  | .mouseWheel xDelta yDelta => NarrowSigned xDelta ∧ NarrowSigned yDelta
  | .dragInfo fileCount _ => Narrow fileCount
  | _ => True

/-- The calls of the server and how the client reads them. -/
def dialect : Dialect Call where
  peer := .serverProxy
  format := format
  args := args
  read := ServerProxy.Reads.read
  onWire := onWire
  verdict := verdict
  Fit := Fit

instance : DecidablePred dialect.Fit := inferInstanceAs (DecidablePred Fit)

/-! ### Numbers in fields -/

theorem toInt16_trim (v : Int32) : Int16.ofNat (v.toUInt32.toNat % 256 ^ 2) = v.toInt16 := by
  refine Int16.toBitVec_inj.1 ?_
  have hsign : v.toBitVec.signExtend 16 = v.toBitVec.setWidth 16 :=
    BitVec.signExtend_eq_setWidth_of_le _ (by decide)
  rw [Int32.toBitVec_toInt16, hsign, Int16.toBitVec_ofNat']
  refine BitVec.eq_of_toNat_eq ?_
  simp only [BitVec.toNat_ofNat, BitVec.toNat_setWidth, Nat.reducePow, Nat.mod_mod]
  rfl

theorem int16_trim (v : Int32) : int16 (v.toUInt32.toNat % 256 ^ 2) = lowSigned v :=
  congrArg Int16.toInt32 (toInt16_trim v)

theorem low_trim (v : UInt32) : (UInt16.ofNat (v.toNat % 256 ^ 2)).toUInt32 = low v := by
  refine congrArg UInt16.toUInt32 (UInt16.toNat_inj.1 ?_)
  simp

theorem low_eq_iff (v : UInt32) : low v = v ↔ Narrow v := by
  rw [← UInt32.toNat_inj]
  simp only [low, Narrow, UInt16.toNat_toUInt32, UInt32.toNat_toUInt16]
  omega

theorem lowSigned_eq_iff (v : Int32) : lowSigned v = v ↔ NarrowSigned v := by
  rw [← Int32.toInt_inj]
  have hlow := v.minValue_le_toInt
  have hhigh := v.toInt_le
  simp only [lowSigned, NarrowSigned, Int16.toInt_toInt32, Int32.toInt_toInt16, Int.bmod]
  omega

/-- **The calls that arrive unchanged** are those that the formats have room for. -/
theorem onWire_eq_iff (c : Call) : onWire c = c ↔ Fits c := by
  cases c with
  | keyRepeat key mask count button =>
    have hcount : (low count.toUInt32).toInt32 = count ↔ low count.toUInt32 = count.toUInt32 :=
      ⟨fun h => by rw [← UInt32.toUInt32_toInt32 (low _), h], fun h => by
        rw [h, Int32.toInt32_toUInt32]⟩
    simp [onWire, Fits, low_eq_iff, hcount]
  | _ => simp [onWire, Fits, low_eq_iff, lowSigned_eq_iff]

theorem button_trim (b : UInt8) : (Int8.ofNat (b.toNat % 256 ^ 1)).toUInt8 = b := by simp

theorem options_trim (options : List UInt32) :
    ((options.map UInt32.toNat).map (· % 256 ^ 4)).map UInt32.ofNat = options := by
  simp [Function.comp_def]

/-! ### Each call is one message -/

/-- The fields behind the code of the message. -/
def fieldsOf : Call → List ProtocolUtil.Field
  | .enter .. => [.int 2, .int 2, .int 4, .int 2]
  | .keyDown .. => [.int 2, .int 2, .int 2]
  | .keyUp .. => [.int 2, .int 2, .int 2]
  | .keyRepeat .. => [.int 2, .int 2, .int 2, .int 2]
  | .mouseDown _ => [.int 1]
  | .mouseUp _ => [.int 1]
  | .mouseMove .. => [.int 2, .int 2]
  | .mouseRelativeMove .. => [.int 2, .int 2]
  | .mouseWheel .. => [.int 2, .int 2]
  | .dragInfo .. => [.int 2, .string]
  | .screensaver _ => [.int 1]
  | .setOptions _ => [.ints 4]
  | .clipboardChunk .. => [.int 1, .int 4, .int 1, .string]
  | .fileChunk .. => [.int 1, .string]
  | .grabClipboard _ => [.int 1, .int 4]
  | .fileSend .. => [.string, .string, .string]
  | .fileStatus .. => [.string, .int 1, .string]
  | _ => []

theorem fields_format (c : Call) : ProtocolUtil.scan none ((format c).toList.drop 4) =
    fieldsOf c := by
  cases c with
  | close msg => cases msg <;> decide +kernel
  | _ =>
    simp only [format, fieldsOf]
    decide +kernel

theorem sends_args {c : Call} (hfit : Fit c) : ProtocolUtil.Sends (fieldsOf c) (args c) := by
  have hint {len v : ℕ} {fs : List ProtocolUtil.Field} {vs : List Value}
      (hlen : len = 1 ∨ len = 2 ∨ len = 4) (h : ProtocolUtil.Sends fs vs) :
      ProtocolUtil.Sends (.int len :: fs) (.int v :: vs) := .int hlen h
  cases c with
  | setOptions options =>
    refine .ints (by decide) ?_ .nil
    rw [List.length_map]
    simp only [Fit, PacketStreamFilter.maxMessageLength] at hfit
    simp only [ProtocolUtil.maxListLength]
    omega
  | dragInfo fileCount data => exact hint (by decide) (.string hfit .nil)
  | clipboardChunk id sequence mark data =>
    exact hint (by decide) (hint (by decide) (hint (by decide) (.string hfit .nil)))
  | fileChunk mark data => exact hint (by decide) (.string hfit .nil)
  | fileSend request fileId address =>
    exact .string hfit.1 (.string hfit.2.1 (.string hfit.2.2 .nil))
  | fileStatus request state detail =>
    exact .string hfit.1 (hint (by decide) (.string hfit.2 .nil))
  | _ => repeat first | exact .nil | refine hint (by decide) ?_

theorem handles_unchecked {q next : Parser} {c : Call} {v : Verdict}
    (hv : some (.okay next) = some v)
    (hmem : Handler.unchecked (format c) next ∈ Peer.serverProxy q) :
    ∃ handler ∈ Peer.serverProxy q, handler.format = format c ∧
      handler.verdict (some (ProtocolUtil.trim (fieldsOf c) (args c))) = v :=
  ⟨_, hmem, rfl, Option.some.inj hv⟩

/-- The client has a handler of the message. -/
theorem handles {q : Parser} {c : Call} {v : Verdict} (h : verdict q c = some v) :
    ∃ handler ∈ Peer.serverProxy q, handler.format = format c ∧
      handler.verdict (some (ProtocolUtil.trim (fieldsOf c) (args c))) = v := by
  cases q with
  | handshake =>
    cases c with
    | close msg =>
      obtain rfl := Option.some.inj h
      refine ⟨.closing msg.format, ?_, rfl, rfl⟩
      cases msg <;>
        simp only [Peer.serverProxy, CloseMessage.format, List.mem_cons, true_or, or_true]
    | queryInfo | infoAck | resetOptions | keepAlive | setOptions options =>
      refine handles_unchecked h ?_
      simp only [Peer.serverProxy, format, List.mem_cons, true_or, or_true]
    | _ => cases h
  | message =>
    cases c with
    | close msg =>
      cases msg with
      | close =>
        obtain rfl := Option.some.inj h
        refine ⟨.closing msgCClose, ?_, rfl, rfl⟩
        simp only [Peer.serverProxy, List.mem_cons, true_or, or_true]
      | unknown | busy => cases h
    | fileSend request fileId address =>
      obtain rfl := Option.some.inj h
      refine ⟨.checked msgCFileSend .message fun _ => true, ?_, rfl, rfl⟩
      simp only [Peer.serverProxy, List.mem_cons, true_or, or_true]
    | fileStatus request state detail =>
      obtain rfl := Option.some.inj h
      refine ⟨.checked msgDFileStatus .message validStatus, ?_, rfl, ?_⟩
      · simp only [Peer.serverProxy, List.mem_cons, true_or, or_true]
      · cases state <;> rfl
    | _ =>
      refine handles_unchecked h ?_
      simp only [Peer.serverProxy, format, List.mem_cons, true_or, or_true]

/-- What reads the fields of the call's message. -/
def reader : Call → List Value → Option Call
  | .enter .. => ServerProxy.Reads.enter
  | .keyDown .. => ServerProxy.Reads.key .keyDown
  | .keyUp .. => ServerProxy.Reads.key .keyUp
  | .keyRepeat .. => ServerProxy.Reads.keyRepeat
  | .mouseDown _ => ServerProxy.Reads.button .mouseDown
  | .mouseUp _ => ServerProxy.Reads.button .mouseUp
  | .mouseMove .. => ServerProxy.Reads.point .mouseMove
  | .mouseRelativeMove .. => ServerProxy.Reads.point .mouseRelativeMove
  | .mouseWheel .. => ServerProxy.Reads.point .mouseWheel
  | .dragInfo .. => ServerProxy.Reads.dragInfo
  | .screensaver _ => ServerProxy.Reads.screensaver
  | .setOptions _ => ServerProxy.Reads.setOptions
  | .clipboardChunk .. => ServerProxy.Reads.clipboardChunk
  | .fileChunk .. => ServerProxy.Reads.fileChunk
  | .grabClipboard _ => ServerProxy.Reads.grabClipboard
  | .fileSend .. => ServerProxy.Reads.fileSend
  | .fileStatus .. => ServerProxy.Reads.fileStatus
  | c => ServerProxy.Reads.only c

theorem reader_mem (c : Call) : (format c, reader c) ∈ ServerProxy.Reads.readers := by
  cases c with
  | close msg =>
    cases msg <;> simp only [ServerProxy.Reads.readers, format, CloseMessage.format, reader,
      List.mem_cons, true_or, or_true]
  | _ => simp only [ServerProxy.Reads.readers, format, reader, List.mem_cons, true_or, or_true]

open ProtocolUtil (trim) in
/-- What the fields keep of the arguments is the call with what the formats have room for. -/
theorem reader_trim (c : Call) : reader c (trim (fieldsOf c) (args c)) = some (onWire c) := by
  cases c with
  | enter xAbs yAbs seqNum mask =>
    simp only [fieldsOf, args, signed, trim, reader, ServerProxy.Reads.enter, int16_trim,
      low_trim, onWire]
    simp
  | keyDown key mask button | keyUp key mask button =>
    simp only [fieldsOf, args, trim, reader, ServerProxy.Reads.key, low_trim, onWire]
    simp
  | keyRepeat key mask count button =>
    simp only [fieldsOf, args, signed, trim, reader, ServerProxy.Reads.keyRepeat, low_trim, onWire]
    simp
  | mouseDown button | mouseUp button =>
    simp only [fieldsOf, args, trim, reader, ServerProxy.Reads.button, button_trim, onWire]
  | mouseMove x y | mouseRelativeMove x y | mouseWheel x y =>
    simp only [fieldsOf, args, signed, trim, reader, ServerProxy.Reads.point, int16_trim, onWire]
  | dragInfo fileCount data =>
    simp only [fieldsOf, args, trim, reader, ServerProxy.Reads.dragInfo, low_trim, onWire]
  | screensaver on => cases on <;> decide
  | setOptions options =>
    simp only [fieldsOf, args, trim, reader, ServerProxy.Reads.setOptions, options_trim, onWire]
  | clipboardChunk id sequence mark data =>
    simp only [fieldsOf, args, trim, reader, ServerProxy.Reads.clipboardChunk, onWire]
    simp
  | fileChunk mark data =>
    simp only [fieldsOf, args, trim, reader, ServerProxy.Reads.fileChunk, onWire]
    simp
  | grabClipboard id =>
    simp only [fieldsOf, args, trim, reader, ServerProxy.Reads.grabClipboard, onWire]
    simp
  | fileSend request fileId address => rfl
  | fileStatus request state detail => cases state <;> rfl
  | _ => rfl

/-- **The client reads the call** from the fields of its message. -/
theorem read_trim (c : Call) :
    ServerProxy.Reads.read (Dialect.codeOf (format c)) (ProtocolUtil.trim (fieldsOf c) (args c)) =
      some (onWire c) := by
  have hdistinct : (ServerProxy.Reads.readers.map fun r =>
      Dialect.codeOf r.1).Nodup := by decide +kernel
  rw [ServerProxy.Reads.read]
  have hfind := Dialect.find?_of_nodup hdistinct (reader_mem c)
  rw [hfind]
  exact reader_trim c

/-- The size of a message within the limits. -/
theorem length_encode_le {c : Call} (hfit : Fit c) :
    4 + (ProtocolUtil.encode (fieldsOf c) (ProtocolUtil.trim (fieldsOf c) (args c))).length ≤
      PacketStreamFilter.maxMessageLength := by
  have hmax : PacketStreamFilter.maxMessageLength = 4194304 := rfl
  have hstring : ProtocolUtil.maxStringLength = 1048576 := rfl
  cases c with
  | setOptions options =>
    simp only [fieldsOf, args, ProtocolUtil.trim, ProtocolUtil.encode, List.length_append,
      BigEndian.length_toBytes, ProtocolUtil.length_flatMap_toBytes, List.length_map,
      List.length_nil, Fit] at hfit ⊢
    omega
  | _ =>
    simp only [fieldsOf, args, signed, ProtocolUtil.trim, ProtocolUtil.encode, List.length_append,
      BigEndian.length_toBytes, List.length_nil, Fit] at hfit ⊢
    omega

theorem table : dialect.Table fieldsOf where
  plain q := by cases q <;> decide +kernel
  distinct q := by cases q <;> decide +kernel
  fields := fields_format
  sends _ := sends_args
  small _ := length_encode_le
  handled _ _ _ := handles
  reads _ c _ _ := read_trim c

/-- **The client handles the calls of the server**, each once and in order, with what the formats
have room for, however the network cuts and delays the bytes. -/
theorem serverCalls_delivered {s : Dialect.Link Call}
    (hs : dialect.lts.ReachableVia dialect.Admits s) : dialect.Delivered s :=
  table.speaks.delivered hs

/-- The options are sent, the cursor enters the screen at a place that has no room in 16 bits, and a
key of the upper planes is pressed; the packets arrive in two segments. -/
def enterFar : List (Dialect.Event Call) :=
  [.call .queryInfo, .call .resetOptions, .call (.setOptions [1397572440, 1]),
    .arrive [[0, 0, 0, 4, 81, 73, 78, 70, 0, 0]], .handle, .call (.enter 40000 (-3) 7 0x12000),
    .call (.keyDown 0x1f600 0 38),
    .arrive [[0, 4, 67, 82, 79, 80, 0, 0, 0, 16, 68, 83, 79, 80, 0, 0, 0, 2],
      [83, 77, 67, 88, 0, 0, 0, 1], [0, 0, 0, 14, 67, 73, 78, 78, 156, 64, 255, 253, 0, 0, 0, 7,
        32, 0, 0, 0, 0, 10, 68, 75, 68, 78, 246, 0, 0, 0, 0, 38]],
    .handle, .handle, .handle, .handle, .handle]

theorem serverCalls_delivered_enterFar :
    ∃ s : Dialect.Link Call, dialect.received s =
      [some .queryInfo, some .resetOptions, some (.setOptions [1397572440, 1]),
        some (.enter (-25536) (-3) 7 0x2000), some (.keyDown 0xf600 0 38)] ∧
      dialect.Delivered s := by
  have hrun : (dialect.lts.exec ⟨{ parser := .handshake }, []⟩ enterFar).map dialect.received =
      some [some .queryInfo, some .resetOptions, some (.setOptions [1397572440, 1]),
        some (.enter (-25536) (-3) 7 0x2000), some (.keyDown 0xf600 0 38)] := by decide +kernel
  obtain ⟨s, hs, hreceived⟩ := Option.map_eq_some_iff.1 hrun
  have hadm : dialect.lts.Admits dialect.Admits ⟨{ parser := .handshake }, []⟩ enterFar := by
    decide +kernel
  exact ⟨s, hreceived, serverCalls_delivered (.of_exec (.init rfl) hadm hs)⟩

end ClientConnection

end InputLeap
