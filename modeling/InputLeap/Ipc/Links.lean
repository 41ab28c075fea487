import InputLeap.Ipc.Endpoints
import Mathlib.Data.List.TakeWhile

/-!
# The streams between the daemon and its programs

Each of the four streams has a sender and a receiver of `Ipc.Endpoints`.  The proxies take bytes
that end within a message for all of it, the core loses the flag of a command, and the GUI drops
what is no log line.

## Main definitions

* `Ipc.nodeToDaemon`, `daemonToNode`, `guiToDaemon`, `daemonToGui` : the streams.
* `nodeToDaemon.Fit` and the others : the messages that their stream can carry.

## Main results

* `Ipc.delivers_streams` : what is sent is received if the messages are fit for their stream and,
  but for the GUI, the bytes arrive as whole messages.
-/

namespace InputLeap

namespace Ipc

open ProtocolUtil (Value Field getLength writefVoid writef vreadf readf maxStringLength)

/-! ### What is written -/

section Written

variable {fmt : String} {args : List Value} {written data text : Bytes}

theorem writef_eq_some (hvoid : writefVoid none fmt.toList args = some written)
    (h : writef fmt args = some data) (hne : data ≠ []) :
    data = written ∧ written.length < 2 ^ 32 := by
  obtain ⟨n, -, h⟩ := Option.bind_eq_some_iff.1 h
  simp only [hvoid, Option.bind_some] at h
  split_ifs at h with hzero hsize
  · exact absurd (Option.some.inj h).symm hne
  · exact ⟨(Option.some.inj h).symm, hsize ▸ Nat.mod_lt _ (by decide)⟩

/-- The bytes of a text with its length. -/
def sized (text : Bytes) : Bytes := BigEndian.toBytes 4 text.length ++ text

theorem length_sized (text : Bytes) : (sized text).length = 4 + text.length := by
  rw [sized, List.length_append, BigEndian.length_toBytes]

theorem writef_hello {type : UInt8} (h : writef msgHello [.int type.toNat] = some data)
    (hne : data ≠ []) : data = code msgHello ++ [type] := by
  have hvoid : writefVoid none msgHello.toList [.int type.toNat] =
      some (code msgHello ++ [UInt8.ofNat type.toNat]) := rfl
  rw [UInt8.ofNat_toNat] at hvoid
  exact (writef_eq_some hvoid h hne).1

theorem writef_logLine (h : writef msgLogLine [.string text] = some data) (hne : data ≠ []) :
    data = code msgLogLine ++ sized text ∧ text.length < 2 ^ 32 := by
  have hvoid : writefVoid none msgLogLine.toList [.string text] =
      some (code msgLogLine ++ (sized text ++ [])) := rfl
  rw [List.append_nil] at hvoid
  obtain ⟨hdata, hlt⟩ := writef_eq_some hvoid h hne
  rw [List.length_append, length_sized] at hlt
  exact ⟨hdata, by omega⟩

theorem writef_command {elevate : ℕ}
    (h : writef msgCommand [.string text, .int elevate] = some data) (hne : data ≠ []) :
    data = code msgCommand ++ (sized text ++ [UInt8.ofNat elevate]) ∧ text.length < 2 ^ 32 := by
  have hvoid : writefVoid none msgCommand.toList [.string text, .int elevate] =
      some (code msgCommand ++ (sized text ++ [UInt8.ofNat elevate])) := rfl
  obtain ⟨hdata, hlt⟩ := writef_eq_some hvoid h hne
  rw [List.length_append, List.length_append, length_sized] at hlt
  exact ⟨hdata, by omega⟩

theorem writef_shutdown (h : writef msgShutdown [] = some data) (hne : data ≠ []) :
    data = code msgShutdown :=
  (writef_eq_some (show writefVoid none msgShutdown.toList [] = some (code msgShutdown) from rfl)
    h hne).1

end Written

/-! ### What is read -/

section Read

variable {text : Bytes} {junk : Junk}

theorem toBytes_one (b : UInt8) : BigEndian.toBytes 1 b.toNat = [b] := by
  rw [BigEndian.toBytes, UInt8.ofNat_toNat]
  rfl

theorem vreadf_hello (type : UInt8) :
    vreadf Reading.take (fields msgHello) [type] = (.ok [.int type.toNat], []) := by
  have htakes : ProtocolUtil.Takes [.int 1] [.int type.toNat] :=
    .int (.inl rfl) type.toNat_lt .nil
  have hread : vreadf Reading.take (fields msgHello)
      (BigEndian.toBytes 1 type.toNat ++ [] ++ []) = (.ok [.int type.toNat], []) :=
    ProtocolUtil.vreadf_encode htakes (by decide) []
  rwa [List.append_nil, List.append_nil, toBytes_one] at hread

theorem vreadf_logLine (h : text.length ≤ maxStringLength) :
    vreadf Reading.take (fields msgLogLine) (sized text) = (.ok [.string text], []) := by
  have hread : vreadf Reading.take (fields msgLogLine) (sized text ++ [] ++ []) =
      (.ok [.string text], []) := ProtocolUtil.vreadf_encode (.string h .nil) (by decide) []
  rwa [List.append_nil, List.append_nil] at hread

theorem vreadf_command (h : text.length ≤ maxStringLength) (elevate : UInt8) :
    vreadf Reading.take (fields msgCommand) (sized text ++ [elevate]) =
      (.ok [.string text, .int elevate.toNat], []) := by
  have htakes : ProtocolUtil.Takes [.string, .int 1] [.string text, .int elevate.toNat] :=
    .string h (.int (.inl rfl) elevate.toNat_lt .nil)
  have hread : vreadf Reading.take (fields msgCommand)
      (sized text ++ (BigEndian.toBytes 1 elevate.toNat ++ []) ++ []) =
        (.ok [.string text, .int elevate.toNat], []) :=
    ProtocolUtil.vreadf_encode htakes (by decide) []
  rwa [List.append_nil, List.append_nil, toBytes_one] at hread

/-- A text over the limit throws as soon as its length is there. -/
theorem parseFields_long {fmt : String} {fs : List Field} {message : Option (List Value) → Message}
    (hfields : fields fmt = .string :: fs) {n : ℕ} (hn : maxStringLength < n) (hlt : n < 2 ^ 32)
    (rest : Bytes) : (parseFields fmt message (BigEndian.toBytes 4 n ++ rest)).1 = .threw := by
  have hlength : ProtocolUtil.readNumber Reading.take 4 (BigEndian.toBytes 4 n ++ rest) =
      (.ok n, rest) := ProtocolUtil.readNumber_append (by omega) rest
  have hfield : ProtocolUtil.readField Reading.take .string (BigEndian.toBytes 4 n ++ rest) =
      (.error .badClient, rest) := by
    rw [ProtocolUtil.readField, Reading.bind_ok hlength, if_pos hn]
    rfl
  rw [parseFields, read_socketRead, ProtocolUtil.readf, hfields, vreadf,
    Reading.bind_error hfield]

/-! ### The messages that the proxies know -/

theorem carries_of_fields {parse : Bytes → Bytes → Parsed × Bytes} {fmt : String}
    {payload : Bytes} {vs : List Value} {m : Message} (hcode : (code fmt).length = 4)
    (hread : vreadf Reading.take (fields fmt) payload = (.ok vs, []))
    (hparse : ∀ s, ∃ message, parse (code fmt) s = parseFields fmt message s ∧
      message (some vs) = m) : Carries parse (m, code fmt ++ payload) := by
  have htake : (code fmt ++ payload).take 4 = code fmt := by rw [← hcode, List.take_left]
  have hdrop : (code fmt ++ payload).drop 4 = payload := by rw [← hcode, List.drop_left]
  refine ⟨?_, fun rest => ?_, fun p hp => ?_⟩
  · rw [List.length_append]
    omega
  · obtain ⟨message, heq, hm⟩ := hparse (payload ++ rest)
    rw [htake, hdrop, heq, parseFields_append hread, hm]
  · obtain ⟨message, heq, -⟩ := hparse p
    rw [htake, heq]
    exact parseFields_prefix hread (hdrop ▸ hp)

theorem carries_logLine (h : text.length ≤ maxStringLength) :
    Carries IpcServerProxy.parse (.logLine text, code msgLogLine ++ sized text) :=
  carries_of_fields (by decide) (vreadf_logLine h) fun _ => ⟨_, rfl, rfl⟩

theorem carries_shutdown : Carries IpcServerProxy.parse (.shutdown, code msgShutdown) := by
  have hread : vreadf Reading.take (fields msgShutdown) [] = (.ok [], []) := rfl
  exact carries_of_fields (by decide) hread fun _ => ⟨fun _ => .shutdown, rfl, rfl⟩

theorem carries_hello (junk : Junk) (type : UInt8) :
    Carries (IpcClientProxy.parse junk) (.hello type, code msgHello ++ [type]) :=
  carries_of_fields (by decide) (vreadf_hello type) fun _ => ⟨_, rfl, by simp⟩

theorem carries_command (junk : Junk) (h : text.length ≤ maxStringLength) (elevate : UInt8) :
    Carries (IpcClientProxy.parse junk)
      (.command text (elevate.toNat ≠ 0), code msgCommand ++ (sized text ++ [elevate])) :=
  carries_of_fields (by decide) (vreadf_command h elevate) fun _ => ⟨_, rfl, rfl⟩

theorem parseFields_nil {fmt : String} {message : Option (List Value) → Message} {payload : Bytes}
    {vs : List Value} (hread : vreadf Reading.take (fields fmt) payload = (.ok vs, [])) :
    (parseFields fmt message []).1 ≠ .threw := by
  obtain ⟨m, s, hparse⟩ := parseFields_prefix hread List.nil_prefix
  rw [hparse]
  nofun

/-- Without bytes behind a code no exception is thrown. -/
theorem parse_nil_serverProxy (code : Bytes) : (IpcServerProxy.parse code []).1 ≠ .threw := by
  unfold IpcServerProxy.parse
  split_ifs
  · have hempty : ([] : Bytes).length ≤ maxStringLength := by decide
    exact parseFields_nil (vreadf_logLine hempty)
  · nofun
  · nofun

theorem parse_nil_clientProxy (junk : Junk) (code : Bytes) :
    (IpcClientProxy.parse junk code []).1 ≠ .threw := by
  unfold IpcClientProxy.parse
  split_ifs
  · exact parseFields_nil (vreadf_hello 0)
  · have hempty : ([] : Bytes).length ≤ maxStringLength := by decide
    exact parseFields_nil (vreadf_command hempty 0)
  · nofun

end Read

/-! ### The streams -/

/-- From `IpcServerProxy` to `IpcClientProxy`.  The number is what is found in the place of the
flag of a command. -/
def nodeToDaemon : Channel (Message × ℕ) Message UInt8 Junk where
  message r := r.1
  send r := IpcServerProxy.send r.2 r.1
  receive := IpcClientProxy.handleData

/-- From `IpcClientProxy` to `IpcServerProxy`. -/
def daemonToNode : Channel Message Message UInt8 Junk where
  message := id
  send := IpcClientProxy.send
  receive := IpcServerProxy.handleData

/-- From `IpcClient` to `IpcClientProxy`. -/
def guiToDaemon : Channel IpcClient.Request Message UInt8 Junk where
  message := IpcClient.Request.message
  send r := some (IpcClient.send r)
  receive := IpcClientProxy.handleData

/-- From `IpcClientProxy` to `IpcReader`. -/
def daemonToGui (fromUtf8 : Bytes → String) : Channel Message Message UInt8 Unit where
  message := id
  send := IpcClientProxy.send
  receive _ := IpcReader.read fromUtf8

/-- The text is within the limit, and what is found in the place of the flag is the flag. -/
def nodeToDaemon.Fit : Message × ℕ → Prop
  | (.command command elevate, vararg) =>
    command.length ≤ maxStringLength ∧ (vararg % 256 ≠ 0 ↔ elevate = true)
  | _ => True

/-- The text is within the limit. -/
def daemonToNode.Fit : Message → Prop
  | .logLine logLine => logLine.length ≤ maxStringLength
  | _ => True

/-- The text is within the limit and has no zero in it. -/
def guiToDaemon.Fit : IpcClient.Request → Prop
  | .hello => True
  | .command command _ => 0 ∉ utf8 command ∧ (utf8 command).length ≤ maxStringLength

/-- Log lines, if their length is an `int` and they are the bytes of a text. -/
def daemonToGui.Fit : Message → Prop
  | .logLine logLine => logLine.length < 2 ^ 31 ∧ ∃ text, utf8 text = logLine
  | .shutdown => False
  | _ => True

/-! ### The proxies -/

section Proxies

variable {R : Type} {c : Channel R Message UInt8 Junk} {fit : R → Prop}
  {parse : Junk → Bytes → Bytes → Parsed × Bytes}

theorem conforms_of_carries
    (hreceive : ∀ junk s, c.receive junk s = handleData (parse junk) (s.length + 1) junk.code s)
    (hquiet : ∀ junk code, (parse junk code []).1 ≠ .threw)
    (hcarries : ∀ junk w, c.Written fit w → Carries (parse junk) w) : c.Conforms fit False := by
  refine ⟨fun junk ws hws => ?_, False.elim, fun _ junk ws later p hws hp hne => ?_⟩
  · have hfuel := Channel.length_le_bytes fun w hw => (hws w hw).ne_nil
    rw [hreceive]
    exact handleData_carries (fun w hw => hcarries junk w (hws w hw)) (Nat.lt_succ_of_le hfuel)
  · have hfuel := Channel.length_le_bytes fun w hw => (hws w (List.mem_append_left _ hw)).ne_nil
    rw [hreceive, List.length_append]
    exact length_reports_handleData (hquiet junk) (fun w hw => hcarries junk w (hws w hw)) hp hne
      (by omega)

/-- What arrives alone is reported. -/
theorem reports_of_carries {w : Message × Bytes} {parse : Bytes → Bytes → Parsed × Bytes}
    (hw : Carries parse w) (last : Bytes) :
    (handleData parse (w.2.length + 1) last w.2).reports = [some w.1] := by
  have hlength := hw.length
  have hws : ∀ w' ∈ [w], Carries parse w' := fun w' hw' => List.mem_singleton.1 hw' ▸ hw
  have hfuel : [w].length < w.2.length + 1 := by
    rw [List.length_singleton]
    omega
  have hreports : handleData parse (w.2.length + 1) last (Channel.bytes [w]) =
      ⟨Channel.reported [w], [], true⟩ := handleData_carries hws hfuel
  rw [Channel.bytes_cons, Channel.bytes_nil, List.append_nil] at hreports
  rw [hreports]
  rfl

/-- A text over the limit is not reported. -/
theorem reports_of_long {fmt : String} {parse : Bytes → Bytes → Parsed × Bytes} {payload : Bytes}
    (hcode : (code fmt).length = 4) (hthrew : (parse (code fmt) payload).1 = .threw)
    (last : Bytes) (fuel : ℕ) :
    (handleData parse (fuel + 1) last (code fmt ++ payload)).reports = [] := by
  have htake : (socketRead (code fmt ++ payload) 4).1 = code fmt := by
    rw [socketRead, ← hcode, List.take_left]
  have hdrop : (socketRead (code fmt ++ payload) 4).2 = payload := by
    rw [socketRead, ← hcode, List.drop_left]
  have hne : code fmt ≠ [] := by
    rw [← List.length_pos_iff]
    omega
  have hfill : fill (code fmt) last = code fmt := by
    have hfour := fill_take (Nat.le_of_eq hcode.symm) last
    rwa [List.take_of_length_le (Nat.le_of_eq hcode)] at hfour
  rcases hparse : parse (code fmt) payload with ⟨_ | _ | _, s⟩
  · rw [hparse] at hthrew
    cases hthrew
  · rw [hparse] at hthrew
    cases hthrew
  · simp only [handleData, htake, hdrop, if_neg hne, hfill, hparse]

theorem reports_command (junk : Junk) {text : Bytes} (h : text.length ≤ maxStringLength)
    (elevate : UInt8) :
    (IpcClientProxy.handleData junk (code msgCommand ++ (sized text ++ [elevate]))).reports =
      [some (.command text (elevate.toNat ≠ 0))] :=
  reports_of_carries (carries_command junk h elevate) junk.code

theorem reports_command_long (junk : Junk) {n : ℕ} (hn : maxStringLength < n) (hlt : n < 2 ^ 32)
    (rest : Bytes) :
    (IpcClientProxy.handleData junk
      (code msgCommand ++ (BigEndian.toBytes 4 n ++ rest))).reports = [] :=
  reports_of_long (by decide) (parseFields_long rfl hn hlt rest) junk.code _

end Proxies

/-! ### From the core to the daemon -/

theorem nodeToDaemon_carries {w : Message × Bytes} (junk : Junk)
    (hw : nodeToDaemon.Written nodeToDaemon.Fit w) : Carries (IpcClientProxy.parse junk) w := by
  obtain ⟨⟨m, vararg⟩, hfit, hm, hsend, hne⟩ := hw
  obtain ⟨m', data⟩ := w
  obtain rfl : m = m' := hm
  cases m with
  | hello type =>
    obtain rfl := writef_hello hsend hne
    exact carries_hello junk type
  | command text elevate =>
    obtain ⟨rfl, -⟩ := writef_command hsend hne
    have hcarries := carries_command junk hfit.1 (UInt8.ofNat vararg)
    have helevate : decide ((UInt8.ofNat vararg).toNat ≠ 0) = elevate := by
      rw [UInt8.toNat_ofNat', Bool.eq_iff_iff, decide_eq_true_iff]
      exact hfit.2
    rwa [helevate] at hcarries
  | logLine text => exact absurd (Option.some.inj hsend).symm hne
  | shutdown => exact absurd (Option.some.inj hsend).symm hne

theorem nodeToDaemon_fit_iff {request : Message × ℕ} (junk : Junk) {data : Bytes}
    (hsend : nodeToDaemon.send request = some data) (hne : data ≠ []) :
    (nodeToDaemon.receive junk data).reports = [some (nodeToDaemon.message request)] ↔
      nodeToDaemon.Fit request := by
  obtain ⟨m, vararg⟩ := request
  cases m with
  | hello type =>
    obtain rfl := writef_hello hsend hne
    exact iff_of_true (reports_of_carries (carries_hello junk type) junk.code) trivial
  | command text elevate =>
    obtain ⟨rfl, hlt⟩ := writef_command hsend hne
    by_cases hmax : text.length ≤ maxStringLength
    · have hreports := reports_command junk hmax (UInt8.ofNat vararg)
      rw [UInt8.toNat_ofNat'] at hreports
      have hsame : [some (Message.command text (vararg % 256 ≠ 0))] =
          [some (Message.command text elevate)] ↔ (vararg % 256 ≠ 0 ↔ elevate = true) := by
        cases elevate <;> simp
      change (IpcClientProxy.handleData junk _).reports = _ ↔ _
      rw [hreports]
      exact hsame.trans ⟨fun h => ⟨hmax, h⟩, And.right⟩
    · have hreports := reports_command_long junk (Nat.not_le.1 hmax) hlt
        (text ++ [UInt8.ofNat vararg])
      rw [← List.append_assoc (BigEndian.toBytes 4 _)] at hreports
      refine iff_of_false (fun h => ?_) fun hfit => hmax hfit.1
      cases hreports.symm.trans h
  | logLine text => exact absurd (Option.some.inj hsend).symm hne
  | shutdown => exact absurd (Option.some.inj hsend).symm hne

/-! ### From the daemon to the core -/

theorem daemonToNode_carries {w : Message × Bytes}
    (hw : daemonToNode.Written daemonToNode.Fit w) : Carries IpcServerProxy.parse w := by
  obtain ⟨m, hfit, hm, hsend, hne⟩ := hw
  obtain ⟨m', data⟩ := w
  obtain rfl : m = m' := hm
  cases m with
  | logLine text =>
    obtain ⟨rfl, -⟩ := writef_logLine hsend hne
    exact carries_logLine hfit
  | shutdown =>
    obtain rfl := writef_shutdown hsend hne
    exact carries_shutdown
  | hello type => exact absurd (Option.some.inj hsend).symm hne
  | command text elevate => exact absurd (Option.some.inj hsend).symm hne

theorem daemonToNode_fit_iff {m : Message} (junk : Junk) {data : Bytes}
    (hsend : daemonToNode.send m = some data) (hne : data ≠ []) :
    (daemonToNode.receive junk data).reports = [some (daemonToNode.message m)] ↔
      daemonToNode.Fit m := by
  cases m with
  | logLine text =>
    obtain ⟨rfl, hlt⟩ := writef_logLine hsend hne
    by_cases hmax : text.length ≤ maxStringLength
    · exact iff_of_true (reports_of_carries (carries_logLine hmax) junk.code) hmax
    · have hreports : (daemonToNode.receive junk (code msgLogLine ++ sized text)).reports = [] :=
        reports_of_long (by decide) (parseFields_long rfl (Nat.not_le.1 hmax) hlt text) junk.code _
      refine iff_of_false (fun h => ?_) hmax
      cases hreports.symm.trans h
  | shutdown =>
    obtain rfl := writef_shutdown hsend hne
    exact iff_of_true (reports_of_carries carries_shutdown junk.code) trivial
  | hello type => exact absurd (Option.some.inj hsend).symm hne
  | command text elevate => exact absurd (Option.some.inj hsend).symm hne

/-! ### From the GUI to the daemon -/

section Gui

variable {command : String} {elevate : ElevateMode}

/-- The bytes of a command up to its first zero. -/
def charCommand (command : String) : Bytes := (utf8 command).takeWhile (· ≠ 0)

def elevateByte (elevate : ElevateMode) : UInt8 := if elevate = .always then 1 else 0

theorem elevateByte_ne_zero (elevate : ElevateMode) :
    decide ((elevateByte elevate).toNat ≠ 0) = decide (elevate = .always) := by
  cases elevate <;> rfl

/-- The length is cut to 32 bits, and the text to the `int` of these. -/
theorem sendCommand_eq (command : String) (elevate : ElevateMode) :
    IpcClient.sendCommand command elevate = code msgCommand ++
      (BigEndian.toBytes 4 ((charCommand command).length % 2 ^ 32) ++
        ((charCommand command).take (BitVec.ofNat 32 (charCommand command).length).toInt.toNat ++
          [elevateByte elevate])) := by
  rw [IpcClient.sendCommand, IpcClient.intToBytes, BitVec.ofInt_toInt, BitVec.toNat_ofNat]
  simp only [List.append_assoc]
  rfl

theorem sendCommand_of_le (h : (charCommand command).length % 2 ^ 32 ≤ maxStringLength) :
    IpcClient.sendCommand command elevate = code msgCommand ++
      (sized ((charCommand command).take ((charCommand command).length % 2 ^ 32)) ++
        [elevateByte elevate]) := by
  have hmax : maxStringLength < 2 ^ 31 := by decide
  have hint : (BitVec.ofNat 32 (charCommand command).length).toInt.toNat =
      (charCommand command).length % 2 ^ 32 := by
    rw [BitVec.toInt_eq_toNat_cond, BitVec.toNat_ofNat, if_pos (by omega), Int.toNat_natCast]
  have hlength : ((charCommand command).take ((charCommand command).length % 2 ^ 32)).length =
      (charCommand command).length % 2 ^ 32 := by
    rw [List.length_take]
    omega
  rw [sendCommand_eq, hint, sized, hlength, List.append_assoc]

/-- The text that is written is all of it exactly if it has no zero and its length is not cut. -/
theorem take_charCommand (h : (charCommand command).length % 2 ^ 32 ≤ maxStringLength) :
    (charCommand command).take ((charCommand command).length % 2 ^ 32) = utf8 command ↔
      0 ∉ utf8 command ∧ (utf8 command).length ≤ maxStringLength := by
  have hmax : maxStringLength < 2 ^ 31 := by decide
  have hprefix : charCommand command <+: utf8 command := List.takeWhile_prefix _
  constructor
  · intro htake
    have hlength := congrArg List.length htake
    rw [List.length_take] at hlength
    have heq : charCommand command = utf8 command :=
      hprefix.eq_of_length_le (by omega)
    refine ⟨fun hzero => ?_, by omega⟩
    have hall := List.takeWhile_eq_self_iff.1 heq 0 hzero
    simp at hall
  · rintro ⟨hzero, hle⟩
    have heq : charCommand command = utf8 command := by
      refine List.takeWhile_eq_self_iff.2 fun b hb => ?_
      have hne : b ≠ 0 := fun h0 => hzero (h0 ▸ hb)
      simpa using hne
    rw [heq, Nat.mod_eq_of_lt (by omega), List.take_length]

theorem guiToDaemon_carries {w : Message × Bytes} (junk : Junk)
    (hw : guiToDaemon.Written guiToDaemon.Fit w) : Carries (IpcClientProxy.parse junk) w := by
  obtain ⟨request, hfit, hm, hsend, -⟩ := hw
  obtain ⟨m, data⟩ := w
  obtain rfl : request.message = m := hm
  obtain rfl : IpcClient.send request = data := Option.some.inj hsend
  cases request with
  | hello => exact carries_hello junk clientGui
  | command command elevate =>
    have hlength : (charCommand command).length ≤ (utf8 command).length :=
      (List.takeWhile_prefix _).length_le
    have hle : (charCommand command).length % 2 ^ 32 ≤ maxStringLength :=
      (Nat.mod_le _ _).trans (hlength.trans hfit.2)
    have hcarries := carries_command junk hfit.2 (elevateByte elevate)
    rw [elevateByte_ne_zero, ← (take_charCommand hle).2 hfit] at hcarries
    rw [IpcClient.send, sendCommand_of_le hle, IpcClient.Request.message,
      ← (take_charCommand hle).2 hfit]
    exact hcarries

theorem guiToDaemon_fit_iff {request : IpcClient.Request} (junk : Junk) {data : Bytes}
    (hsend : guiToDaemon.send request = some data) :
    (guiToDaemon.receive junk data).reports = [some (guiToDaemon.message request)] ↔
      guiToDaemon.Fit request := by
  obtain rfl : IpcClient.send request = data := Option.some.inj hsend
  cases request with
  | hello => exact iff_of_true (reports_of_carries (carries_hello junk clientGui) junk.code) trivial
  | command command elevate =>
    have hlength : (charCommand command).length ≤ (utf8 command).length :=
      (List.takeWhile_prefix _).length_le
    change (IpcClientProxy.handleData junk (IpcClient.sendCommand command elevate)).reports = _ ↔ _
    by_cases hle : (charCommand command).length % 2 ^ 32 ≤ maxStringLength
    · have htext : ((charCommand command).take ((charCommand command).length % 2 ^ 32)).length ≤
          maxStringLength := by
        rw [List.length_take]
        omega
      have hreports := reports_command junk htext (elevateByte elevate)
      rw [elevateByte_ne_zero, ← sendCommand_of_le hle] at hreports
      rw [hreports, guiToDaemon.Fit, ← take_charCommand hle]
      simp [guiToDaemon, IpcClient.Request.message]
    · have hlt : (charCommand command).length % 2 ^ 32 < 2 ^ 32 := Nat.mod_lt _ (by decide)
      have hreports := reports_command_long junk (Nat.not_le.1 hle) hlt
        ((charCommand command).take (BitVec.ofNat 32 (charCommand command).length).toInt.toNat ++
          [elevateByte elevate])
      rw [← sendCommand_eq] at hreports
      refine iff_of_false (fun h => ?_) fun hfit => ?_
      · cases hreports.symm.trans h
      · exact hle ((Nat.mod_le _ _).trans (hlength.trans hfit.2))

end Gui

/-! ### From the daemon to the GUI -/

section Reader

variable {fromUtf8 : Bytes → String}

theorem daemonToGui_shows (hutf8 : ∀ text, fromUtf8 (utf8 text) = text) {w : Message × Bytes}
    (hw : (daemonToGui fromUtf8).Written daemonToGui.Fit w) : IpcReader.Shows fromUtf8 w := by
  obtain ⟨m, hfit, hm, hsend, hne⟩ := hw
  obtain ⟨m', data⟩ := w
  obtain rfl : m = m' := hm
  cases m with
  | logLine text =>
    obtain ⟨rfl, -⟩ := writef_logLine hsend hne
    obtain ⟨hlength, text, rfl⟩ := hfit
    exact ⟨utf8 text, rfl, hlength, congrArg utf8 (hutf8 text)⟩
  | shutdown => exact hfit.elim
  | hello type => exact absurd (Option.some.inj hsend).symm hne
  | command text elevate => exact absurd (Option.some.inj hsend).symm hne

theorem conforms_daemonToGui (hutf8 : ∀ text, fromUtf8 (utf8 text) = text) :
    (daemonToGui fromUtf8).Conforms daemonToGui.Fit True := by
  have hwaiting : ∀ (ws later : List (Message × Bytes)) (p : Bytes),
      (∀ w ∈ ws ++ later, (daemonToGui fromUtf8).Written daemonToGui.Fit w) →
        Channel.Begins later p →
          IpcReader.read fromUtf8 (Channel.bytes ws ++ p) = ⟨Channel.reported ws, p, true⟩ := by
    intro ws later p hws hp
    have hfuel := Channel.length_le_bytes fun w hw => (hws w (List.mem_append_left _ hw)).ne_nil
    refine IpcReader.read_append (fun w hw => daemonToGui_shows hutf8 (hws w hw)) hp ?_
    rw [List.length_append]
    omega
  refine ⟨fun _ ws hws => ?_, fun _ _ => hwaiting, fun hnot => absurd trivial hnot⟩
  have hread := hwaiting ws [] [] (by rwa [List.append_nil]) (.inl rfl)
  rwa [List.append_nil] at hread

theorem daemonToGui_fit_iff (hutf8 : ∀ text, fromUtf8 (utf8 text) = text) {m : Message}
    {junk : Unit} {data : Bytes} (hsend : (daemonToGui fromUtf8).send m = some data)
    (hne : data ≠ []) :
    ((daemonToGui fromUtf8).receive junk data).reports = [some ((daemonToGui fromUtf8).message m)] ↔
      daemonToGui.Fit m := by
  cases m with
  | logLine text =>
    obtain ⟨rfl, hlt⟩ := writef_logLine hsend hne
    change (IpcReader.read fromUtf8 (code msgLogLine ++ sized text)).reports = _ ↔ _
    rw [IpcReader.read, IpcReader.readLoop_code, sized]
    by_cases hlength : text.length < 2 ^ 31
    · have hread := IpcReader.readStream_append text []
      rw [List.append_nil] at hread
      have hsame : [some (Message.logLine (utf8 (fromUtf8 text)))] = [some (.logLine text)] ↔
          ∃ shown, utf8 shown = text := by
        refine ⟨fun h => ⟨fromUtf8 text, by simpa using h⟩, ?_⟩
        rintro ⟨shown, rfl⟩
        rw [hutf8]
      rw [IpcReader.readLogLine_length hlength, hread, Option.map_some]
      exact hsame.trans ⟨fun h => ⟨hlength, h⟩, And.right⟩
    · rw [IpcReader.readLogLine_negative (Nat.not_lt.1 hlength) hlt]
      refine iff_of_false (fun h => ?_) fun hfit => hlength hfit.1
      cases h
  | shutdown =>
    obtain rfl := writef_shutdown hsend hne
    refine iff_of_false (fun h => ?_) id
    have hreports : (IpcReader.read fromUtf8 (code msgShutdown)).reports = [] := rfl
    cases hreports.symm.trans h
  | hello type => exact absurd (Option.some.inj hsend).symm hne
  | command text elevate => exact absurd (Option.some.inj hsend).symm hne

end Reader

/-! ### The four streams -/

/-- **What is sent is received** on each of the streams, in every run in which only fit messages
are asked for and the proxies are called at the end of a message; the GUI may be called at any
time. -/
theorem delivers_streams {fromUtf8 : Bytes → String}
    (hutf8 : ∀ text, fromUtf8 (utf8 text) = text) :
    nodeToDaemon.Delivers nodeToDaemon.Fit False ∧ daemonToNode.Delivers daemonToNode.Fit False ∧
      guiToDaemon.Delivers guiToDaemon.Fit False ∧
      (daemonToGui fromUtf8).Delivers daemonToGui.Fit True := by
  have hnode : nodeToDaemon.Conforms nodeToDaemon.Fit False :=
    conforms_of_carries (fun _ _ => rfl) parse_nil_clientProxy fun junk _ =>
      nodeToDaemon_carries junk
  have hdaemon : daemonToNode.Conforms daemonToNode.Fit False :=
    conforms_of_carries (fun _ _ => rfl) (fun _ => parse_nil_serverProxy) fun _ _ =>
      daemonToNode_carries
  have hgui : guiToDaemon.Conforms guiToDaemon.Fit False :=
    conforms_of_carries (fun _ _ => rfl) parse_nil_clientProxy fun junk _ =>
      guiToDaemon_carries junk
  have hreader := conforms_daemonToGui hutf8
  exact ⟨hnode.delivers fun _ junk _ => nodeToDaemon_fit_iff junk,
    hdaemon.delivers fun _ junk _ => daemonToNode_fit_iff junk,
    hgui.delivers fun _ junk _ hsend _ => guiToDaemon_fit_iff junk hsend,
    hreader.delivers fun _ _ _ => daemonToGui_fit_iff hutf8⟩

/-- A conversion that replaces bytes that are no text. -/
def replacing (bytes : Bytes) : String := (String.fromUTF8? ⟨bytes.toArray⟩).getD "\uFFFD"

theorem replacing_utf8 (text : String) : replacing (utf8 text) = text := by
  have hdecode : String.fromUTF8? text.toUTF8 = some text := by
    simp only [String.fromUTF8?]
    exact dif_pos text.isValidUTF8
  rw [replacing, utf8]
  change (String.fromUTF8? text.toUTF8).getD _ = text
  rw [hdecode, Option.getD_some]

/-- The log line `hi` arrives in two pieces, and the receiver is called on each. -/
def arriveTwice {J : Type} (junk : J) : List (Channel.Event Message J) :=
  [.send (.logLine [104, 105]), .arrive 6, .handle junk, .arrive 4, .handle junk]

/-- The GUI shows the line. -/
theorem delivers_streams_arriveTwice :
    ∃ s, (daemonToGui replacing).lts.exec {} (arriveTwice ()) = some s ∧
      s.reports = [some (.logLine [104, 105])] ∧ s.Agrees := by
  have hfit : daemonToGui.Fit (.logLine [104, 105]) := ⟨by decide, "hi", by decide +kernel⟩
  have hadmits : (daemonToGui replacing).lts.Admits (Channel.Admits daemonToGui.Fit True) {}
      (arriveTwice ()) := by
    refine LTS.admits_of_forall ?_ _
    simp only [arriveTwice, List.forall_mem_cons]
    exact ⟨fun _ => hfit, fun _ => trivial, fun _ => .inl trivial, fun _ => trivial,
      fun _ => .inl trivial, nofun⟩
  have hrun : Option.map Channel.State.reports ((daemonToGui replacing).lts.exec {}
      (arriveTwice ())) = some [some (.logLine [104, 105])] := by decide +kernel
  obtain ⟨s, hs, hreports⟩ := Option.map_eq_some_iff.1 hrun
  obtain ⟨-, -, -, hreader⟩ := delivers_streams replacing_utf8
  exact ⟨s, hs, hreports, hreader.agrees s (.of_exec (.init rfl) hadmits hs)⟩

/-- The same bytes in the same pieces are an empty log line and an error for the core. -/
theorem not_delivers_streams :
    ¬∀ s, daemonToNode.lts.Reachable s → s.wire = [] → s.fresh = [] →
      s.reports = Channel.reported s.sent := by
  intro h
  have hrun : Option.map (fun s => (s.wire, s.fresh, s.reports, Channel.reported s.sent))
      (daemonToNode.lts.exec {} (arriveTwice ⟨[0, 0, 0, 0], 0, 0⟩)) =
        some ([], [], [some (.logLine []), none], [some (.logLine [104, 105])]) := by
    decide +kernel
  obtain ⟨s, hs, hvalues⟩ := Option.map_eq_some_iff.1 hrun
  simp only [Prod.mk.injEq] at hvalues
  obtain ⟨hwire, hfresh, hreports, hsent⟩ := hvalues
  have heq := h s (.of_exec rfl hs) hwire hfresh
  rw [hreports, hsent] at heq
  cases heq

end Ipc

end InputLeap
