import InputLeap.Clipboard.Basic
import InputLeap.Platform.XWindowsClipboard
import InputLeap.Unicode.Units
import Mathlib.Data.List.Nodup

/-!
# The targets of a selection

The owner of a selection tells other clients the targets that it can convert the clipboard to, and
answers the requests for a target with what the target's converter makes.  The list of targets
takes the converters whose format the clipboard has.  The search for a target's converter ends with
the last converter if no converter is for the target, so that it finds none only if the list is
empty: the last converter's data is the answer to a request for a target that nobody advertised.

The refresh of the time of ownership by the answer to `TIMESTAMP` is not modelled: the time is the
one found then.  As in the answers to requests, `MULTIPLE` is left out.

## Main definitions

* `SelectionOwner.getTargetsData`, `SelectionOwner.targets` : the targets that are advertised.
* `SelectionOwner.getConverter`, `SelectionOwner.addSimpleRequest` : the answer to a request.
* `SelectionOwner.AnswersAdvertised` : what is answered is what is advertised.
* `SelectionOwner.Found` : the search ends where it should, or at a format the clipboard lacks.

## Main results

* `SelectionOwner.readTarget_getTargetsData` : the advertised targets are read back.
* `SelectionOwner.addSimpleRequest_answersAdvertised_iff` : the answer is as advertised exactly if
  the search ends where it should.
* `SelectionOwner.found_converters_iff` : with the converters of the clipboard, a target that no
  converter is for is answered exactly if the clipboard has text.
-/

namespace InputLeap

/-- What makes data for other clients from the clipboard's data in one format. -/
structure XWindowsClipboardConverter where
  /-- The format that is converted. -/
  format : Format
  /-- The target that the data is for. -/
  atom : Option Atom
  /-- The size of the elements of the data. -/
  dataSize : PropertyFormat
  /-- The data for the target; `none` if the conversion throws. -/
  fromIClipboard : Bytes → Option Bytes

/-- The atoms of the answers that no converter makes. -/
structure SelectionAtoms where
  targets : Atom
  multiple : Atom
  timestamp : Atom
  integer : Atom
  atom : Atom

/-- The owner of a selection. -/
structure SelectionOwner where
  /-- The order in which the machine stores the bytes of a number. -/
  host : ByteOrder
  atoms : SelectionAtoms
  /-- The converters, most desired first. -/
  converters : List XWindowsClipboardConverter
  clipboard : Clipboard

namespace SelectionOwner

variable (o : SelectionOwner)

/-- The clipboard has the format. -/
def added (format : Format) : Bool := (o.clipboard.data format).isSome

/-- The loop of `getConverter`; `converter` is the last converter that was looked at. -/
def searchConverter (target : Atom) (converter : Option XWindowsClipboardConverter) :
    List XWindowsClipboardConverter → Option XWindowsClipboardConverter
  | [] => converter
  | c :: rest => if c.atom = some target then some c else searchConverter target (some c) rest

/-- The converter for a target, or none if the converter's format is there and is not wanted. -/
def getConverter (target : Atom) (onlyIfNotAdded : Bool := false) :
    Option XWindowsClipboardConverter :=
  match searchConverter target none o.converters with
  | none => none
  | some c =>
    -- optionally skip already handled targets
    if onlyIfNotAdded ∧ o.added c.format then none
    else some c

/-- The targets that are advertised. -/
def targets : List (Option Atom) :=
  [some o.atoms.targets, some o.atoms.multiple, some o.atoms.timestamp] ++
    (o.converters.filter fun c => o.added c.format).map (·.atom)

/-- An atom in the memory of a 64-bit system. -/
def atomData (host : ByteOrder) (atom : Option Atom) : Bytes := host.toBytes 8 (atom.getD 0)

/-- The answer to `TARGETS`. -/
def getTargetsData : Conversion where
  data := o.targets.flatMap (atomData o.host)
  type := o.atoms.atom
  format := .bits32

/-- The answer to `TIMESTAMP`. -/
def getTimestampData : Conversion where
  data := o.host.toBytes 8 o.clipboard.timeOwned
  type := o.atoms.integer
  format := .bits32

/-- What a converter makes of the clipboard. -/
def convertWith (c : XWindowsClipboardConverter) : Option Conversion := do
  let stored ← o.clipboard.data c.format
  let data ← c.fromIClipboard stored
  let type ← c.atom
  return { data, type, format := c.dataSize }

/-- The data for a target. -/
def convert (target : Atom) : Option Conversion :=
  if target = o.atoms.targets then some o.getTargetsData
  else if target = o.atoms.timestamp then some o.getTimestampData
  else (o.getConverter target).bind o.convertWith

/-- Queues the answer to a request.  Returns whether there is data. -/
def addSimpleRequest (s : XWindowsClipboard) (env : SelectionEnv) (req : SelectionRequest) :
    Bool × XWindowsClipboard :=
  let conversion := o.convert req.target
  (conversion.isSome, s.addSimpleRequest { env with conversion } req)

/-! ### What is advertised and what is answered -/

/-- The request is answered exactly if its target is advertised, and then with the data and the
type of a converter for the target. -/
structure AnswersAdvertised (s : XWindowsClipboard) (env : SelectionEnv) (req : SelectionRequest) :
    Prop where
  answered_iff : (o.addSimpleRequest s env req).1 = true ↔ some req.target ∈ o.targets
  of_converter : (o.addSimpleRequest s env req).1 = true → req.target ≠ o.atoms.targets →
    req.target ≠ o.atoms.timestamp → ∃ c ∈ o.converters, c.atom = some req.target ∧
      ∃ stored data, o.clipboard.data c.format = some stored ∧
        c.fromIClipboard stored = some data ∧
        (o.addSimpleRequest s env req).2 = s.insertReply env
          { s.failedReply req with
            property := some (req.property.getD req.target), data, type := c.atom
            format := c.dataSize }

/-- No conversion throws. -/
def NeverThrows : Prop := ∀ c ∈ o.converters, ∀ stored, (c.fromIClipboard stored).isSome

/-- The first converter for the target has its format in the clipboard, or no converter for the
target has.  If no converter is for the target, the last one's format is not there. -/
def Found (target : Atom) : Prop :=
  target = o.atoms.targets ∨ target = o.atoms.timestamp ∨
    match o.converters.find? fun c => c.atom = some target with
    | some c => o.added c.format ∨ ∀ c ∈ o.converters, c.atom = some target → ¬o.added c.format
    | none => ∀ c ∈ o.converters.getLast?, c.atom.isSome → ¬o.added c.format

variable {o} {target : Atom} {c : XWindowsClipboardConverter}
  {converters : List XWindowsClipboardConverter}

theorem mem_targets : some target ∈ o.targets ↔
    target = o.atoms.targets ∨ target = o.atoms.multiple ∨ target = o.atoms.timestamp ∨
      ∃ c ∈ o.converters, c.atom = some target ∧ o.added c.format := by
  simp only [targets, List.mem_append, List.mem_cons, List.not_mem_nil, or_false, List.mem_map,
    List.mem_filter, Option.some.injEq, or_assoc]
  refine or_congr_right (or_congr_right (or_congr_right (exists_congr fun c => ?_)))
  rw [and_assoc]
  exact and_congr_right fun _ => and_comm

/-- The answer to `TARGETS` holds the targets, eight bytes each. -/
theorem drop_flatMap_atomData {host : ByteOrder} {atoms : List (Option Atom)} {i : ℕ}
    (hi : i < atoms.length) :
    ((atoms.flatMap (atomData host)).drop (8 * i)).take 8 = atomData host atoms[i] := by
  have hlength : ∀ atom, (atomData host atom).length = 8 :=
    fun atom => Unicode.length_toBytes host 8 _
  induction atoms generalizing i with
  | nil => exact absurd hi (Nat.not_lt_zero i)
  | cons atom atoms ih =>
    rw [List.flatMap_cons]
    cases i with
    | zero =>
      rw [Nat.mul_zero, List.drop_zero, List.take_left' (hlength atom), List.getElem_cons_zero]
    | succ i =>
      rw [Nat.mul_succ, Nat.add_comm, ← List.drop_drop, List.drop_left' (hlength atom),
        ih (Nat.lt_of_succ_lt_succ hi), List.getElem_cons_succ]

/-- The advertised targets are read back. -/
theorem readTarget_getTargetsData {i : ℕ} (hi : i < o.targets.length)
    (hlt : o.targets[i].getD 0 < 256 ^ 8) :
    o.host.ofBytes ((o.getTargetsData.data.drop (8 * i)).take 8) = o.targets[i].getD 0 := by
  rw [getTargetsData, drop_flatMap_atomData hi, atomData, Unicode.ofBytes_toBytes hlt]

/-- The search ends at the first converter for the target. -/
theorem searchConverter_of_find (converter : Option XWindowsClipboardConverter)
    (h : converters.find? (fun c => c.atom = some target) = some c) :
    searchConverter target converter converters = some c := by
  induction converters generalizing converter with
  | nil => cases h
  | cons c' rest ih =>
    rw [searchConverter]
    by_cases hc' : c'.atom = some target
    · rw [List.find?_cons_of_pos (by simpa using hc')] at h
      rw [if_pos hc', h]
    · rw [List.find?_cons_of_neg (by simpa using hc')] at h
      rw [if_neg hc', ih _ h]

/-- The search for a target that no converter is for ends with the last converter. -/
theorem searchConverter_of_not_find (converter : Option XWindowsClipboardConverter)
    (h : converters.find? (fun c => c.atom = some target) = none) :
    searchConverter target converter converters = converters.getLast?.or converter := by
  induction converters generalizing converter with
  | nil => rfl
  | cons c' rest ih =>
    have hc' : ¬c'.atom = some target := by
      simpa using List.find?_eq_none.1 h c' List.mem_cons_self
    rw [List.find?_cons_of_neg (by simpa using hc')] at h
    rw [searchConverter, if_neg hc', ih _ h, List.getLast?_cons]
    cases rest.getLast? <;> rfl

theorem getConverter_eq : o.getConverter target = searchConverter target none o.converters := by
  unfold getConverter
  cases searchConverter target none o.converters <;> simp

/-- A converter makes data exactly if the clipboard has its format. -/
theorem convertWith_isSome (hnever : o.NeverThrows) (hc : c ∈ o.converters) :
    (o.convertWith c).isSome ↔ c.atom.isSome ∧ o.added c.format := by
  rw [convertWith, added]
  cases hstored : o.clipboard.data c.format with
  | none => simp
  | some stored =>
    obtain ⟨data, hdata⟩ := Option.isSome_iff_exists.1 (hnever c hc stored)
    cases hatom : c.atom <;> simp [hdata]

/-- A request is answered by the first converter for its target, if the clipboard has that
converter's format. -/
theorem convert_of_find (hnever : o.NeverThrows) (htargets : target ≠ o.atoms.targets)
    (htimestamp : target ≠ o.atoms.timestamp)
    (h : o.converters.find? (fun c => c.atom = some target) = some c) :
    o.convert target = o.convertWith c ∧ ((o.convert target).isSome ↔ o.added c.format) := by
  have hatom : c.atom = some target := by simpa using List.find?_some h
  have hconvert : o.convert target = o.convertWith c := by
    rw [convert, if_neg htargets, if_neg htimestamp, getConverter_eq,
      searchConverter_of_find none h, Option.bind_some]
  refine ⟨hconvert, ?_⟩
  rw [hconvert, convertWith_isSome hnever (List.mem_of_find?_eq_some h), hatom]
  simp

/-- A request for a target that no converter is for is answered by the last converter. -/
theorem convert_of_not_find (hnever : o.NeverThrows) (htargets : target ≠ o.atoms.targets)
    (htimestamp : target ≠ o.atoms.timestamp)
    (h : o.converters.find? (fun c => c.atom = some target) = none) :
    (o.convert target).isSome ↔
      ∃ c ∈ o.converters.getLast?, c.atom.isSome ∧ o.added c.format := by
  have hconvert : o.convert target = o.converters.getLast?.bind o.convertWith := by
    rw [convert, if_neg htargets, if_neg htimestamp, getConverter_eq,
      searchConverter_of_not_find none h, Option.or_none]
  rw [hconvert]
  cases hlast : o.converters.getLast? with
  | none => simp
  | some c =>
    rw [Option.bind_some, convertWith_isSome hnever (List.mem_of_getLast? hlast)]
    simp

/-- Every request for one of the two targets without a converter is answered. -/
theorem convert_standard (h : target = o.atoms.targets ∨ target = o.atoms.timestamp) :
    (o.convert target).isSome := by
  unfold convert
  split_ifs with htargets htimestamp
  · rfl
  · rfl
  · exact absurd h (not_or.2 ⟨htargets, htimestamp⟩)

/-- What is queued for a converter's data. -/
theorem addSimpleRequest_of_convertWith {s : XWindowsClipboard} {env : SelectionEnv}
    {req : SelectionRequest} (hconvert : o.convert req.target = o.convertWith c)
    (hanswered : (o.convert req.target).isSome) :
    ∃ stored data, o.clipboard.data c.format = some stored ∧ c.fromIClipboard stored = some data ∧
      (o.addSimpleRequest s env req).2 = s.insertReply env
        { s.failedReply req with
          property := some (req.property.getD req.target), data, type := c.atom
          format := c.dataSize } := by
  obtain ⟨conversion, hsome⟩ := Option.isSome_iff_exists.1 hanswered
  have hwith : o.convertWith c = some conversion := by rw [← hconvert, hsome]
  obtain ⟨stored, hstored, data, hdata, type, htype, rfl⟩ :
      ∃ stored, o.clipboard.data c.format = some stored ∧ ∃ data, c.fromIClipboard stored =
        some data ∧ ∃ type, c.atom = some type ∧ ⟨data, type, c.dataSize⟩ = conversion := by
    simpa [convertWith, Option.bind_eq_some_iff] using hwith
  refine ⟨stored, data, hstored, hdata, ?_⟩
  simp only [addSimpleRequest, hsome, XWindowsClipboard.addSimpleRequest, htype]
  rfl

/-- A target with a converter is answered as advertised exactly if the first converter for it can
answer, or no other one could. -/
theorem answersAdvertised_of_find {s : XWindowsClipboard} {env : SelectionEnv}
    {req : SelectionRequest} (hnever : o.NeverThrows) (htargets : req.target ≠ o.atoms.targets)
    (htimestamp : req.target ≠ o.atoms.timestamp)
    (hadvertised : some req.target ∈ o.targets ↔
      ∃ c ∈ o.converters, c.atom = some req.target ∧ o.added c.format)
    (h : o.converters.find? (fun c => c.atom = some req.target) = some c) :
    o.AnswersAdvertised s env req ↔
      o.added c.format ∨ ∀ c ∈ o.converters, c.atom = some req.target → ¬o.added c.format := by
  have hmem : c ∈ o.converters := List.mem_of_find?_eq_some h
  have hatom : c.atom = some req.target := by simpa using List.find?_some h
  obtain ⟨hconvert, hanswered⟩ := convert_of_find hnever htargets htimestamp h
  constructor
  · intro hanswers
    by_cases hadded : o.added c.format
    · exact .inl hadded
    · refine .inr fun c' hc' hatom' hadded' => hadded (hanswered.1 (hanswers.answered_iff.2 ?_))
      exact hadvertised.2 ⟨c', hc', hatom', hadded'⟩
  · intro hfirst
    refine ⟨?_, fun hsome _ _ => ⟨c, hmem, hatom, addSimpleRequest_of_convertWith hconvert hsome⟩⟩
    change (o.convert req.target).isSome ↔ _
    rw [hanswered, hadvertised]
    refine ⟨fun hadded => ⟨c, hmem, hatom, hadded⟩, ?_⟩
    rintro ⟨c', hc', hatom', hadded'⟩
    exact hfirst.resolve_right fun hnone => hnone c' hc' hatom' hadded'

/-- A target without a converter is not advertised, and is not answered exactly if the last
converter cannot answer. -/
theorem answersAdvertised_of_not_find {s : XWindowsClipboard} {env : SelectionEnv}
    {req : SelectionRequest} (hnever : o.NeverThrows) (htargets : req.target ≠ o.atoms.targets)
    (htimestamp : req.target ≠ o.atoms.timestamp)
    (hadvertised : some req.target ∈ o.targets ↔
      ∃ c ∈ o.converters, c.atom = some req.target ∧ o.added c.format)
    (h : o.converters.find? (fun c => c.atom = some req.target) = none) :
    o.AnswersAdvertised s env req ↔
      ∀ c ∈ o.converters.getLast?, c.atom.isSome → ¬o.added c.format := by
  have hnot : some req.target ∉ o.targets := by
    rw [hadvertised]
    rintro ⟨c, hc, hatom, -⟩
    exact List.find?_eq_none.1 h c hc (by simpa using hatom)
  have hanswered := convert_of_not_find hnever htargets htimestamp h
  constructor
  · intro hanswers c hc hatom hadded
    exact hnot (hanswers.answered_iff.1 (hanswered.2 ⟨c, hc, hatom, hadded⟩))
  · intro hlast
    have hfailed : ¬(o.convert req.target).isSome := by
      rw [hanswered]
      rintro ⟨c, hc, hatom, hadded⟩
      exact hlast c hc hatom hadded
    exact ⟨iff_of_false hfailed hnot, fun hsome => absurd hsome hfailed⟩

/-- **What is answered is what is advertised exactly if the search for the target ends where it
should.** -/
theorem addSimpleRequest_answersAdvertised_iff (o : SelectionOwner) (s : XWindowsClipboard)
    (env : SelectionEnv) (req : SelectionRequest) (hnever : o.NeverThrows)
    (hmultiple : req.target ≠ o.atoms.multiple) :
    o.AnswersAdvertised s env req ↔ o.Found req.target := by
  by_cases hstandard : req.target = o.atoms.targets ∨ req.target = o.atoms.timestamp
  · have hfound : o.Found req.target := hstandard.elim .inl fun h => .inr (.inl h)
    refine iff_of_true ⟨?_, ?_⟩ hfound
    · refine iff_of_true (convert_standard hstandard) (mem_targets.2 ?_)
      exact hstandard.elim .inl fun h => .inr (.inr (.inl h))
    · intro _ htargets htimestamp
      exact absurd hstandard (not_or.2 ⟨htargets, htimestamp⟩)
  · obtain ⟨htargets, htimestamp⟩ := not_or.1 hstandard
    have hadvertised : some req.target ∈ o.targets ↔
        ∃ c ∈ o.converters, c.atom = some req.target ∧ o.added c.format := by
      rw [mem_targets, or_iff_right htargets, or_iff_right hmultiple, or_iff_right htimestamp]
    rw [Found, or_iff_right htargets, or_iff_right htimestamp]
    cases hfind : o.converters.find? fun c => c.atom = some req.target with
    | none => exact answersAdvertised_of_not_find hnever htargets htimestamp hadvertised hfind
    | some c => exact answersAdvertised_of_find hnever htargets htimestamp hadvertised hfind

end SelectionOwner

/-! ### The converters of the clipboard -/

namespace XWindowsClipboard

/-- The targets of the converters, with the formats and the sizes of the elements. -/
def converterTargets : List (String × Format × PropertyFormat) :=
  [("image/png", .png, .bits8),
    ("image/webp", .webp, .bits8),
    ("image/jpeg", .jpeg, .bits8),
    ("image/tiff", .tiff, .bits8),
    ("image/bmp", .bitmap, .bits8),
    ("text/html", .html, .bits8),
    ("application/x-moz-nativehtml", .html, .bits8),
    ("text/plain;charset=UTF-8", .text, .bits8),
    ("text/plain;charset=utf-8", .text, .bits8),
    ("UTF8_STRING", .text, .bits8),
    ("text/plain;charset=ISO-10646-UCS-2", .text, .bits16),
    ("text/unicode", .text, .bits16),
    ("text/plain", .text, .bits8),
    ("STRING", .text, .bits8)]

/-- The converters that the clipboard is made with. -/
def converters (internAtom : String → Atom) (fromIClipboard : String → Bytes → Option Bytes) :
    List XWindowsClipboardConverter :=
  converterTargets.map fun target =>
    { format := target.2.1
      atom := some (internAtom target.1)
      dataSize := target.2.2
      fromIClipboard := fromIClipboard target.1 }

end XWindowsClipboard

namespace SelectionOwner

variable {o : SelectionOwner} {target : Atom} {internAtom : String → Atom}
  {fromIClipboard : String → Bytes → Option Bytes}

/-- The clipboard's own converters are for different targets.  The last one is for text, so that
any other target is answered with text. -/
theorem found_converters_iff
    (hconverters : o.converters = XWindowsClipboard.converters internAtom fromIClipboard)
    (hintern : internAtom.Injective) (htargets : target ≠ o.atoms.targets)
    (htimestamp : target ≠ o.atoms.timestamp) :
    o.Found target ↔
      (∃ c ∈ o.converters, c.atom = some target) ∨ ¬o.added .text := by
  have hnodup : (XWindowsClipboard.converterTargets.map Prod.fst).Nodup := by decide
  have hlast : o.converters.getLast? = some
      { format := .text
        atom := some (internAtom "STRING")
        dataSize := .bits8
        fromIClipboard := fromIClipboard "STRING" } := by
    rw [hconverters]
    rfl
  rw [Found, or_iff_right htargets, or_iff_right htimestamp]
  cases hfind : o.converters.find? fun c => c.atom = some target with
  | none =>
    have hnot : ¬∃ c ∈ o.converters, c.atom = some target := by
      rintro ⟨c, hc, hatom⟩
      exact List.find?_eq_none.1 hfind c hc (by simpa using hatom)
    rw [or_iff_right hnot, hlast]
    simp
  | some c =>
    have hmem : c ∈ o.converters := List.mem_of_find?_eq_some hfind
    have hatom : c.atom = some target := by simpa using List.find?_some hfind
    refine iff_of_true ?_ (.inl ⟨c, hmem, hatom⟩)
    by_cases hadded : o.added c.format
    · exact .inl hadded
    refine .inr fun c' hmem' hatom' => ?_
    rw [hconverters, XWindowsClipboard.converters, List.mem_map] at hmem hmem'
    obtain ⟨t, ht, rfl⟩ := hmem
    obtain ⟨t', ht', rfl⟩ := hmem'
    have hname : t'.1 = t.1 := hintern (Option.some.inj (hatom'.trans hatom.symm))
    rw [List.inj_on_of_nodup_map hnodup ht' ht hname]
    exact hadded

/-- An owner whose clipboard has a text. -/
def textOwner : SelectionOwner where
  host := .little
  atoms := { targets := 1, multiple := 2, timestamp := 3, integer := 4, atom := 5 }
  converters := XWindowsClipboard.converters
    (fun name => 100 + (XWindowsClipboard.converterTargets.map Prod.fst).idxOf name)
    fun _ data => some data
  clipboard := (Clipboard.clear 7).add .text [0x68, 0x69]

theorem neverThrows_textOwner : textOwner.NeverThrows := by
  intro c hc stored
  obtain ⟨t, -, rfl⟩ := List.mem_map.1 hc
  rfl

/-- A request for `STRING`. -/
theorem addSimpleRequest_answersAdvertised_string :
    textOwner.AnswersAdvertised { window := 1, selection := 1 } {} ⟨1, 2, 113, 7, some 9⟩ :=
  (addSimpleRequest_answersAdvertised_iff textOwner { window := 1, selection := 1 } {}
    ⟨1, 2, 113, 7, some 9⟩ neverThrows_textOwner (by decide)).2 (.inr (.inr (.inl rfl)))

/-- A request for a picture, which nobody advertised, is answered with the text. -/
theorem addSimpleRequest_unadvertised :
    ¬∀ (o : SelectionOwner) (s : XWindowsClipboard) (env : SelectionEnv) (req : SelectionRequest),
      o.NeverThrows → req.target ≠ o.atoms.multiple → o.AnswersAdvertised s env req := by
  intro h
  have hanswers := h textOwner { window := 1, selection := 1 } {} ⟨1, 2, 200, 7, some 9⟩
    neverThrows_textOwner (by decide)
  have hadvertised : some 200 ∈ textOwner.targets := hanswers.answered_iff.1 (by decide)
  exact absurd hadvertised (by decide)

end SelectionOwner

end InputLeap
