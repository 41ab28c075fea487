import InputLeap.Net.Messages
import InputLeap.Net.Writef
import InputLeap.Server.Crossing

/-!
# The shape that a client reports

The numbers of a client's info are of 16 bits.  A cursor outside of the shape is put into the
middle, and the middle is again a number of 16 bits.

## Main definitions

* `InfoMessage` : the fields of a `DINF` message.
* `ClientProxy.recvInfo` : what a proxy makes of the message.
* `InfoMessage.Fits` : the middle of the shape is a number of 16 bits, if it is needed.

## Main results

* `InfoMessage.contains_stored_iff` : when the cursor that is stored is in the shape.
* `ClientProxy.recvInfo_inShape_iff` : when the server takes the shape with such a cursor.
-/

namespace InputLeap

open ProtocolUtil (Field Value readf)
open Reading (pure bind)

/-- The fields of a `DINF` message. -/
structure InfoMessage where
  x : Int16
  y : Int16
  w : Int16
  h : Int16
  dummy1 : Int16
  mx : Int16
  my : Int16

namespace InfoMessage

variable (m : InfoMessage)

/-- The fields as they are written. -/
def values : List Value :=
  [m.x, m.y, m.w, m.h, m.dummy1, m.mx, m.my].map fun v => .int v.toUInt16.toNat

/-- The bytes of the message behind its code. -/
def bytes : Bytes := ProtocolUtil.encode (ProtocolUtil.scan none (msgDInfo.toList.drop 4)) m.values

/-- The cursor is outside of the shape. -/
def Outside : Prop :=
  m.mx.toInt < m.x.toInt ∨ m.mx.toInt ≥ m.x.toInt + m.w.toInt ∨
    m.my.toInt < m.y.toInt ∨ m.my.toInt ≥ m.y.toInt + m.h.toInt

instance : Decidable m.Outside := inferInstanceAs (Decidable (_ ∨ _))

/-- The shape and the cursor that a proxy saves, `none` if it rejects the message. -/
def stored : Option ScreenInfo :=
  if m.w.toInt ≤ 0 ∨ m.h.toInt ≤ 0 then none
  else
    let mx := if m.Outside then Int16.ofInt (m.x.toInt + m.w.toInt / 2) else m.mx
    let my := if m.Outside then Int16.ofInt (m.y.toInt + m.h.toInt / 2) else m.my
    some ⟨m.x.toInt, m.y.toInt, m.w.toInt, m.h.toInt, mx.toInt, my.toInt⟩

/-- The cursor is in the shape, or the middle of the shape is a number of 16 bits. -/
def Fits : Prop :=
  m.Outside → m.x.toInt + m.w.toInt / 2 < 2 ^ 15 ∧ m.y.toInt + m.h.toInt / 2 < 2 ^ 15

instance : Decidable m.Fits := inferInstanceAs (Decidable (_ → _))

end InfoMessage

namespace ClientProxy

variable {σ : Type}

/-- The format behind the code of the message. -/
def infoFields : List Field := ProtocolUtil.scan none (msgDInfo.toList.drop 4)

/-- Reads the fields of an info message.  The shape that is saved and the acknowledgement that is
sent; `none` if the message is rejected. -/
def recvInfo (read : ℕ → Reading σ Bytes) : Reading σ (Option (ScreenInfo × String)) :=
  bind (readf read infoFields) fun values =>
    match values with
    | some [.int x, .int y, .int w, .int h, .int dummy1, .int mx, .int my] =>
      let m : InfoMessage := ⟨.ofNat x, .ofNat y, .ofNat w, .ofNat h, .ofNat dummy1, .ofNat mx,
        .ofNat my⟩
      pure (m.stored.map fun info => (info, msgCInfoAck))
    | _ => pure none

end ClientProxy

namespace InfoMessage

variable {m : InfoMessage} {info : ScreenInfo}

/-- A sum that is stored in 16 bits. -/
theorem toInt_ofInt_add_half (x w : Int16) (hw : 0 < w.toInt) :
    (Int16.ofInt (x.toInt + w.toInt / 2)).toInt =
      if x.toInt + w.toInt / 2 < 2 ^ 15 then x.toInt + w.toInt / 2
      else x.toInt + w.toInt / 2 - 2 ^ 16 := by
  have hx := x.le_toInt
  have hx' := x.toInt_lt
  have hw' := w.toInt_lt
  rw [Int16.toInt_ofInt, Int.bmod_eq_emod]
  simp only [Int16.size]
  split_ifs <;> omega

/-- Such a sum is in an interval that begins with the first number exactly if it fits. -/
theorem inside_ofInt_add_half_iff (x w : Int16) (hw : 0 < w.toInt) :
    x.toInt ≤ (Int16.ofInt (x.toInt + w.toInt / 2)).toInt ∧
      (Int16.ofInt (x.toInt + w.toInt / 2)).toInt < x.toInt + w.toInt ↔
        x.toInt + w.toInt / 2 < 2 ^ 15 := by
  have hw' := w.toInt_lt
  rw [toInt_ofInt_add_half x w hw]
  split_ifs with h
  · exact ⟨fun _ => h, fun _ => by omega⟩
  · exact ⟨fun hin => by omega, fun hlt => absurd hlt h⟩

/-- **The cursor that is stored is in the shape** exactly if it was, or the middle of the shape is
a number of 16 bits. -/
theorem contains_stored_iff (h : m.stored = some info) :
    info.Contains info.mx info.my ↔ m.Fits := by
  rw [stored] at h
  split_ifs at h with hsize hout
  · obtain rfl := Option.some.inj h
    have hw : 0 < m.w.toInt := by omega
    have hh : 0 < m.h.toInt := by omega
    have hx := inside_ofInt_add_half_iff m.x m.w hw
    have hy := inside_ofInt_add_half_iff m.y m.h hh
    rw [Fits, imp_iff_right hout, ← hx, ← hy]
    exact ⟨fun ⟨hx, hy, hx', hy'⟩ => ⟨⟨hx, hx'⟩, hy, hy'⟩,
      fun ⟨⟨hx, hx'⟩, hy, hy'⟩ => ⟨hx, hy, hx', hy'⟩⟩
  · obtain rfl := Option.some.inj h
    have hin : ¬m.Outside := hout
    rw [Outside, not_or, not_or, not_or, not_lt, ge_iff_le, not_le, not_lt, ge_iff_le,
      not_le] at hin
    obtain ⟨hx, hx', hy, hy'⟩ := hin
    exact ⟨fun _ hout' => absurd hout' hout, fun _ => ⟨hx, hy, hx', hy'⟩⟩

end InfoMessage

namespace ClientProxy

variable (m : InfoMessage) (rest : Bytes)

theorem infoFields_eq : infoFields = List.replicate 7 (.int 2) := by decide

theorem ofNat_toNat_toUInt16 (v : Int16) : Int16.ofNat v.toUInt16.toNat = v :=
  Int16.toBitVec_inj.1 ((BitVec.ofNat_toNat _ v.toBitVec).trans (BitVec.setWidth_eq _))

/-- The message is read whole, and nothing behind it. -/
theorem recvInfo_bytes :
    recvInfo Reading.take (m.bytes ++ rest) =
      (.ok (m.stored.map fun info => (info, msgCInfoAck)), rest) := by
  have hfield : ∀ (v : Int16) {fs : List Field} {vs : List Value}, ProtocolUtil.Takes fs vs →
      ProtocolUtil.Takes (.int 2 :: fs) (.int v.toUInt16.toNat :: vs) := fun v _ _ h =>
    .int (Or.inr (Or.inl rfl)) v.toUInt16.toNat_lt_size h
  have htakes : ProtocolUtil.Takes infoFields m.values := by
    rw [infoFields_eq]
    exact hfield _ (hfield _ (hfield _ (hfield _ (hfield _ (hfield _ (hfield _ .nil))))))
  have hpercent : Field.percent ∉ infoFields := by decide
  have hread : readf Reading.take infoFields (m.bytes ++ rest) = (.ok (some m.values), rest) :=
    ProtocolUtil.readf_eq_ok.2 (ProtocolUtil.vreadf_encode htakes hpercent rest)
  rw [recvInfo, Reading.bind_ok hread]
  simp only [InfoMessage.values, List.map_cons, List.map_nil, ofNat_toNat_toUInt16]
  rfl

/-- The server takes the position that a client reports as the one to jump to, and as the position
of the mouse on the active screen. -/
theorem handleShapeChanged_of_client {s : Server} {c : ClientID} (env : Env)
    (hc : s.registry.clientSet.contains c = true) (hne : c ≠ primaryClient) :
    ∃ s', s.handleShapeChanged env c = some s' ∧
      (s'.proxies c).jumpCursorPos = ((s.info c).mx, (s.info c).my) ∧
        (c = s.focus.active → s'.mouse.x = (s.info c).mx ∧ s'.mouse.y = (s.info c).my) := by
  have hconnected : ¬(!s.registry.clientSet.contains c) = true := by
    rw [hc]
    exact Bool.false_ne_true
  simp only [Server.handleShapeChanged, if_neg hconnected, if_neg hne]
  refine ⟨_, rfl, ?_, fun hactive => ?_⟩
  · split_ifs
    · simp only [Server.setProxy, Function.update_self]
    · simp only [Server.setProxy, Function.update_self]
  · rw [if_pos (show c = (s.setProxy c _).focus.active from hactive)]
    exact ⟨rfl, rfl⟩

/-- The message is rejected, or a cursor in the shape is stored, which the server goes on with;
exactly if a shape that is not empty has its middle, where that is needed, in 16 bits. -/
theorem recvInfo_inShape_iff :
    ((recvInfo Reading.take (m.bytes ++ rest)).1 = .ok none ∨
      ∃ info, (recvInfo Reading.take (m.bytes ++ rest)).1 = .ok (some (info, msgCInfoAck)) ∧
        info.Contains info.mx info.my ∧
        ∀ (s : Server) (env : Env) (c : ClientID), s.registry.clientSet.contains c = true →
          c ≠ primaryClient →
          ∃ s', (s.setProxy c { s.proxies c with info := info }).handleShapeChanged env c =
              some s' ∧
            info.Contains (s'.proxies c).jumpCursorPos.1 (s'.proxies c).jumpCursorPos.2 ∧
            (c = s.focus.active → info.Contains s'.mouse.x s'.mouse.y)) ↔
      (0 < m.w.toInt ∧ 0 < m.h.toInt → m.Fits) := by
  rw [recvInfo_bytes]
  constructor
  · rintro (hnone | ⟨info, hinfo, hin, -⟩) ⟨hw, hh⟩
    · have hstored : m.stored ≠ none := by
        rw [InfoMessage.stored, if_neg (by omega)]
        exact Option.some_ne_none _
      exact absurd (Option.map_eq_none_iff.1 (Except.ok.inj hnone)) hstored
    · obtain ⟨info', hstored, hpair⟩ := Option.map_eq_some_iff.1 (Except.ok.inj hinfo)
      obtain rfl := (Prod.mk.inj hpair).1
      exact (InfoMessage.contains_stored_iff hstored).1 hin
  · intro hfits
    cases hstored : m.stored with
    | none => exact Or.inl rfl
    | some info =>
      have hsize : 0 < m.w.toInt ∧ 0 < m.h.toInt := by
        by_contra hempty
        rw [InfoMessage.stored, if_pos (by omega)] at hstored
        cases hstored
      have hin := (InfoMessage.contains_stored_iff hstored).2 (hfits hsize)
      refine Or.inr ⟨info, rfl, hin, fun s env c hc hne => ?_⟩
      have hinfo : (s.setProxy c { s.proxies c with info := info }).info c = info := by
        simp only [Server.info, Server.setProxy, Function.update_self]
      obtain ⟨s', hs', hjump, hmouse⟩ := handleShapeChanged_of_client
        (s := s.setProxy c { s.proxies c with info := info }) env hc hne
      rw [hinfo] at hjump hmouse
      refine ⟨s', hs', ?_, fun hactive => ?_⟩
      · rw [hjump]
        exact hin
      · rw [(hmouse hactive).1, (hmouse hactive).2]
        exact hin

/-- The cursor of a screen far to the right wraps around. -/
theorem recvInfo_far_right :
    (recvInfo Reading.take (InfoMessage.bytes ⟨32000, 0, 1920, 1080, 0, 0, 0⟩)).1 =
        .ok (some (⟨32000, 0, 1920, 1080, -32576, 540⟩, msgCInfoAck)) ∧
      ¬ScreenInfo.Contains ⟨32000, 0, 1920, 1080, -32576, 540⟩ (-32576) 540 := by
  have hread := recvInfo_bytes ⟨32000, 0, 1920, 1080, 0, 0, 0⟩ []
  rw [List.append_nil] at hread
  rw [hread]
  exact ⟨by decide, by decide⟩

end ClientProxy

end InputLeap
