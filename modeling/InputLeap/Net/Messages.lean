import InputLeap.FileClip.Basic
import InputLeap.Net.ProtocolUtil

/-!
# The messages that the two ends accept

A message is a code of four bytes and the fields that the handler of the code reads.  Each end
looks the code up among the handlers of the phase it is in.

## Main definitions

* `Peer.clientProxy1_6`, `Peer.clientProxy1_7`, `Peer.serverProxy` : the handlers of an end.
* `Peer.handleMessage`, `Peer.handleData` : one message, and all that the stream has.

## Main results

* `sim_handleMessage`, `sim_handleData` : streams that read the same are handled the same.
-/

namespace InputLeap

open ProtocolUtil (Field Value)

/-- The parser that the next message is for (`m_parser`). -/
inductive Parser
  | handshake
  | message
  deriving DecidableEq

/-- What a parser makes of a message. -/
inductive Verdict
  | okay (next : Parser)
  /-- The message is invalid. -/
  | unknown
  /-- The connection ends because the message says so. -/
  | disconnect
  deriving DecidableEq

/-- The handling of one kind of message. -/
structure Handler where
  /-- The format of the message, with its code. -/
  format : String
  /-- What the handler makes of the fields, `none` if they could not be read. -/
  verdict : Option (List Value) → Verdict

namespace Handler

/-- The four bytes that say what kind of message it is. -/
def code (h : Handler) : Bytes := (h.format.toList.take 4).map fun c => UInt8.ofNat c.toNat

/-- The fields after the code. -/
def fields (h : Handler) : List Field := ProtocolUtil.scan none (h.format.toList.drop 4)

/-- A handler that goes on whether it could read the fields or not. -/
def unchecked (format : String) (next : Parser) : Handler := ⟨format, fun _ => .okay next⟩

/-- A handler that needs the fields, and that they are valid. -/
def checked (format : String) (next : Parser) (valid : List Value → Bool) : Handler where
  format := format
  verdict
    | some values => if valid values then .okay next else .unknown
    | none => .unknown

/-- A handler that disconnects. -/
def closing (format : String) : Handler := ⟨format, fun _ => .disconnect⟩

end Handler

/-! ### Formats -/

def msgCNoop : String := "CNOP"
def msgCClose : String := "CBYE"
def msgCEnter : String := "CINN%2i%2i%4i%2i"
def msgCLeave : String := "COUT"
def msgCClipboard : String := "CCLP%1i%4i"
def msgCScreenSaver : String := "CSEC%1i"
def msgCResetOptions : String := "CROP"
def msgCInfoAck : String := "CIAK"
def msgCKeepAlive : String := "CALV"
def msgCFileSend : String := "CFSN%s%s%s"
def msgDKeyDown : String := "DKDN%2i%2i%2i"
def msgDKeyRepeat : String := "DKRP%2i%2i%2i%2i"
def msgDKeyUp : String := "DKUP%2i%2i%2i"
def msgDMouseDown : String := "DMDN%1i"
def msgDMouseUp : String := "DMUP%1i"
def msgDMouseMove : String := "DMMV%2i%2i"
def msgDMouseRelMove : String := "DMRM%2i%2i"
def msgDMouseWheel : String := "DMWM%2i%2i"
def msgDClipboard : String := "DCLP%1i%4i%1i%s"
def msgDInfo : String := "DINF%2i%2i%2i%2i%2i%2i%2i"
def msgDSetOptions : String := "DSOP%4I"
def msgDFileTransfer : String := "DFTR%1i%s"
def msgDDragInfo : String := "DDRG%2i%s"
def msgDFileStatus : String := "DFST%s%1i%s"
def msgQInfo : String := "QINF"
def msgQFilePaste : String := "QFPS%s%s%s"
def msgEIncompatible : String := "EICV%2i%2i"
def msgEBusy : String := "EBSY"
def msgEUnknown : String := "EUNK"
def msgEBad : String := "EBAD"

/-! ### Handlers -/

/-- The number is positive as an `int16_t`. -/
def positive (v : ℕ) : Bool := 0 < v && v < 2 ^ 15

/-- `recvInfo` accepts the width and the height. -/
def validInfo : List Value → Bool
  | [_, _, .int w, .int h, _, _, _] => positive w && positive h
  | _ => false

/-- `recvGrabClipboard` accepts the clipboard. -/
def validGrab : List Value → Bool
  | [.int id, _] => (ClipboardID.ofNat? id).isSome
  | _ => false

/-- `recv_file_status` and `file_status` accept the state. -/
def validStatus : List Value → Bool
  | [_, .int state, _] => 1 ≤ state && state ≤ 3
  | _ => false

/-- One end of a connection: the handlers of each phase. -/
abbrev Peer := Parser → List Handler

namespace Peer

/-- `ClientProxy1_6::parseHandshakeMessage` and `parseMessage`. -/
def clientProxy1_6 : Peer
  | .handshake =>
    [.unchecked msgCNoop .handshake, .checked msgDInfo .message validInfo]
  | .message =>
    [.unchecked msgDFileTransfer .message, .unchecked msgDDragInfo .message,
      .unchecked msgCKeepAlive .message, .checked msgDInfo .message validInfo,
      .unchecked msgCNoop .message, .checked msgCClipboard .message validGrab,
      .unchecked msgDClipboard .message]

/-- `ClientProxy1_7::parseMessage` looks at two more codes first. -/
def clientProxy1_7 : Peer
  | .handshake => clientProxy1_6 .handshake
  | .message =>
    .checked msgQFilePaste .message (fun _ => true) ::
      .checked msgDFileStatus .message validStatus :: clientProxy1_6 .message

/-- `ServerProxy::parseHandshakeMessage` and `parseMessage`. -/
def serverProxy : Peer
  | .handshake =>
    [.unchecked msgQInfo .handshake, .unchecked msgCInfoAck .handshake,
      .unchecked msgDSetOptions .message, .unchecked msgCResetOptions .handshake,
      .unchecked msgCKeepAlive .handshake, .unchecked msgCNoop .handshake, .closing msgCClose,
      .closing msgEIncompatible, .closing msgEBusy, .closing msgEUnknown, .closing msgEBad]
  | .message =>
    [.unchecked msgDMouseMove .message, .unchecked msgDMouseRelMove .message,
      .unchecked msgDMouseWheel .message, .unchecked msgDKeyDown .message,
      .unchecked msgDKeyUp .message, .unchecked msgDMouseDown .message,
      .unchecked msgDMouseUp .message, .unchecked msgDKeyRepeat .message,
      .unchecked msgCKeepAlive .message, .unchecked msgCNoop .message,
      .unchecked msgCEnter .message, .unchecked msgCLeave .message,
      .unchecked msgCClipboard .message, .unchecked msgCScreenSaver .message,
      .unchecked msgQInfo .message, .unchecked msgCInfoAck .message,
      .unchecked msgDClipboard .message, .unchecked msgCResetOptions .message,
      .unchecked msgDSetOptions .message, .unchecked msgDFileTransfer .message,
      .unchecked msgDDragInfo .message, .checked msgCFileSend .message (fun _ => true),
      .checked msgDFileStatus .message validStatus, .closing msgCClose, .closing msgEBad]

variable (peer : Peer)

/-- The handler of the code. -/
def lookup (q : Parser) (code : Bytes) : Option Handler := (peer q).find? fun h => h.code == code

/-- How the handling of a message ends. -/
inductive Outcome
  /-- There is no message. -/
  | idle
  /-- The message was handled; the next one is for `next`. -/
  | okay (code : Bytes) (values : Option (List Value)) (next : Parser)
  /-- The connection ends because of a protocol error. -/
  | error
  /-- The connection ends as the message says. -/
  | closed (code : Bytes) (values : Option (List Value))
  deriving DecidableEq

/-- What the verdict of a handler means. -/
def Outcome.ofVerdict (code : Bytes) (values : Option (List Value)) : Verdict → Outcome
  | .okay next => .okay code values next
  | .unknown => .error
  | .disconnect => .closed code values

section

variable {σ τ : Type} (rd : σ → ℕ → Bytes × σ)

/-- Handles a message with the code: `XBadClient` is a protocol error. -/
def parse (q : Parser) (code : Bytes) (s : σ) : Outcome × σ :=
  match peer.lookup q code with
  | none => (.error, s)
  | some h =>
    match ProtocolUtil.readf (ProtocolUtil.read rd) h.fields s with
    | (.error _, s) => (.error, s)
    | (.ok values, s) => (.ofVerdict code values (h.verdict values), s)

/-- One round of the loop of `handle_data`. -/
def handleMessage (q : Parser) (s : σ) : Outcome × σ :=
  let (code, s) := rd s 4
  if code.length = 0 then (.idle, s)
  else if code.length ≠ 4 then (.error, s)
  else parse peer rd q code s

/-- The loop of `handle_data`, in at most `fuel` rounds. -/
def handleData : ℕ → Parser → σ → Option (Outcome × σ)
  | 0, _, _ => none
  | fuel + 1, q, s =>
    match handleMessage peer rd q s with
    | (.okay _ _ next, s) => handleData fuel next s
    | (outcome, s) => some (outcome, s)

theorem handleData_of_okay {q : Parser} {s s' : σ} {code : Bytes} {values : Option (List Value)}
    {next : Parser} (h : handleMessage peer rd q s = (.okay code values next, s')) (fuel : ℕ) :
    handleData peer rd (fuel + 1) q s = handleData peer rd fuel next s' := by
  rw [handleData, h]

theorem handleData_of_end {q : Parser} {s s' : σ} {outcome : Outcome}
    (h : handleMessage peer rd q s = (outcome, s'))
    (hend : ∀ code values next, outcome ≠ .okay code values next) (fuel : ℕ) :
    handleData peer rd (fuel + 1) q s = some (outcome, s') := by
  rw [handleData, h]
  cases outcome with
  | okay code values next => exact absurd rfl (hend code values next)
  | idle => rfl
  | error => rfl
  | closed code values => rfl

/-- The loop goes on after a message, or ends with it. -/
theorem handleData_cases {fuel : ℕ} {q : Parser} {s : σ} {r : Outcome × σ}
    (h : handleData peer rd (fuel + 1) q s = some r) :
    (∃ code values next s', handleMessage peer rd q s = (.okay code values next, s') ∧
      handleData peer rd fuel next s' = some r) ∨ handleMessage peer rd q s = r := by
  rcases hmessage : handleMessage peer rd q s with ⟨outcome, s'⟩
  cases outcome with
  | okay code values next =>
    rw [handleData_of_okay peer rd hmessage] at h
    exact .inl ⟨code, values, next, s', rfl, h⟩
  | idle =>
    rw [handleData_of_end peer rd hmessage nofun] at h
    exact .inr (Option.some.inj h)
  | error =>
    rw [handleData_of_end peer rd hmessage nofun] at h
    exact .inr (Option.some.inj h)
  | closed code values =>
    rw [handleData_of_end peer rd hmessage nofun] at h
    exact .inr (Option.some.inj h)

variable {rd} {rd' : τ → ℕ → Bytes × τ} {R : σ → τ → Prop}

theorem sim_parse (h : ProtocolUtil.SameReads R rd rd') (q : Parser) (code : Bytes) {s : σ} {t : τ}
    (hst : R s t) :
    (parse peer rd q code s).1 = (parse peer rd' q code t).1 ∧
      R (parse peer rd q code s).2 (parse peer rd' q code t).2 := by
  unfold parse
  cases peer.lookup q code with
  | none => exact ⟨rfl, hst⟩
  | some handler =>
    obtain ⟨hval, hstate⟩ := ProtocolUtil.sim_readf (ProtocolUtil.sim_read h) handler.fields s t hst
    dsimp only
    rcases hs : ProtocolUtil.readf (ProtocolUtil.read rd) handler.fields s with ⟨r, s'⟩
    rcases ht : ProtocolUtil.readf (ProtocolUtil.read rd') handler.fields t with ⟨r', t'⟩
    rw [hs, ht] at hval hstate
    obtain rfl : r = r' := hval
    cases r with
    | error e => exact ⟨rfl, hstate⟩
    | ok values => exact ⟨rfl, hstate⟩

/-- **Streams that read the same** are handled the same. -/
theorem sim_handleMessage (h : ProtocolUtil.SameReads R rd rd') (q : Parser) {s : σ} {t : τ}
    (hst : R s t) :
    (handleMessage peer rd q s).1 = (handleMessage peer rd' q t).1 ∧
      R (handleMessage peer rd q s).2 (handleMessage peer rd' q t).2 := by
  obtain ⟨hcode, hnext⟩ := h s t hst 4
  unfold handleMessage
  rcases hs : rd s 4 with ⟨code, s'⟩
  rcases ht : rd' t 4 with ⟨code', t'⟩
  rw [hs, ht] at hcode hnext
  obtain rfl : code = code' := hcode
  dsimp only
  split_ifs
  · exact ⟨rfl, hnext⟩
  · exact ⟨rfl, hnext⟩
  · exact sim_parse peer h q code hnext

theorem sim_handleData (h : ProtocolUtil.SameReads R rd rd') (fuel : ℕ) (q : Parser) {s : σ} {t : τ}
    (hst : R s t) :
    Option.Rel (fun r r' => r.1 = r'.1 ∧ R r.2 r'.2) (handleData peer rd fuel q s)
      (handleData peer rd' fuel q t) := by
  induction fuel generalizing q s t with
  | zero => exact .none
  | succ fuel ih =>
    obtain ⟨hval, hstate⟩ := sim_handleMessage peer h q hst
    rcases hs : handleMessage peer rd q s with ⟨r, s'⟩
    rcases ht : handleMessage peer rd' q t with ⟨r', t'⟩
    rw [hs, ht] at hval hstate
    obtain rfl : r = r' := hval
    by_cases hokay : ∃ code values next, r = .okay code values next
    · obtain ⟨code, values, next, rfl⟩ := hokay
      rw [handleData_of_okay peer rd hs, handleData_of_okay peer rd' ht]
      exact ih next hstate
    · have hend : ∀ code values next, r ≠ .okay code values next :=
        fun code values next heq => hokay ⟨code, values, next, heq⟩
      rw [handleData_of_end peer rd hs hend, handleData_of_end peer rd' ht hend]
      exact .some ⟨rfl, hstate⟩

end

end Peer

end InputLeap
