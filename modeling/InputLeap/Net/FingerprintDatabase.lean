import InputLeap.Config.ConfigReader
import InputLeap.Net.SecureSocket
import InputLeap.Text.Find
import InputLeap.Text.Hex

/-!
# The database of fingerprints

Trusted fingerprints are kept in a text of one line each.  A line is `v2:`, the name of an
algorithm, a colon and the data in hexadecimal; a line of 59 characters with 19 colons is a SHA-1
fingerprint of an earlier version.

## Main definitions

* `FingerprintDatabase` : the trusted fingerprints.
* `FingerprintDatabase.parseDbLine`, `FingerprintDatabase.toDbLine` : one line.
* `FingerprintDatabase.readStream`, `FingerprintDatabase.writeStream` : the whole text.
* `FingerprintDatabase.WellFormed`, `FingerprintDatabase.Entries` : the grammar of a line, and the
  fingerprints in the lines that are well formed.

## Main results

* `FingerprintDatabase.parseDbLine_iff` : the lines that are read are the well-formed ones.
* `FingerprintDatabase.wellFormed_toDbLine` : the line of a known fingerprint is well formed.
* `FingerprintDatabase.isTrusted_addTrusted`, `FingerprintDatabase.known_addTrusted` : what adding a
  fingerprint does.
* `FingerprintDatabase.readStream_writeStream` : the text that was written gives the same database,
  and any text gives the entries of its well-formed lines.
-/

namespace InputLeap

open ConfigReadContext (getLines)

/-- The known algorithms. -/
inductive FingerprintType
  | invalid
  | sha1
  | sha256
  deriving DecidableEq

/-- The name of an algorithm. -/
def fingerprintTypeToString : FingerprintType → String
  | .invalid => "invalid"
  | .sha1 => "sha1"
  | .sha256 => "sha256"

/-- The algorithm with a name. -/
def fingerprintTypeFromString (type : String) : FingerprintType :=
  if type = "sha1" then .sha1 else if type = "sha256" then .sha256 else .invalid

/-- The fingerprint was set. -/
def FingerprintData.valid (f : FingerprintData) : Bool := f.algorithm != ""

/-- The fingerprints that are trusted. -/
structure FingerprintDatabase where
  fingerprints : List FingerprintData := []

namespace FingerprintDatabase

/-- The fingerprint is in the database. -/
def isTrusted (db : FingerprintDatabase) (fingerprint : FingerprintData) : Bool :=
  db.fingerprints.contains fingerprint

/-- The database with the fingerprint. -/
def addTrusted (db : FingerprintDatabase) (fingerprint : FingerprintData) : FingerprintDatabase :=
  if db.isTrusted fingerprint then db else ⟨db.fingerprints ++ [fingerprint]⟩

/-- The fingerprint in a line; one that is not valid if there is none. -/
def parseDbLine (line : Text) : FingerprintData :=
  -- legacy v1 certificate handling
  if line.count ':' = 19 ∧ line.length = 40 + 19 then
    let data := Hex.fromHex line
    if data.isEmpty then ⟨"", []⟩ else ⟨fingerprintTypeToString .sha1, data⟩
  else
    match line.find ':' 0 with
    | none => ⟨"", []⟩
    | some versionEndPos =>
      if line.take versionEndPos ≠ "v2".toList then ⟨"", []⟩
      else
        let algoStartPos := versionEndPos + 1
        match line.find ':' algoStartPos with
        | none => ⟨"", []⟩
        | some algoEndPos =>
          let algorithm := (line.drop algoStartPos).take (algoEndPos - algoStartPos)
          let data := Hex.fromHex (line.drop (algoEndPos + 1))
          if data.isEmpty then ⟨"", []⟩ else ⟨String.ofList algorithm, data⟩

/-- The line of a fingerprint. -/
def toDbLine (fingerprint : FingerprintData) : Text :=
  "v2:".toList ++ fingerprint.algorithm.toList ++ ':' :: Hex.toHex fingerprint.data 2 '0'

/-- The loop of `read_stream` over the lines. -/
def readLines (db : FingerprintDatabase) : List Text → FingerprintDatabase
  | [] => db
  | line :: lines =>
    if line.isEmpty then readLines db lines
    else
      let fingerprint := parseDbLine line
      if !fingerprint.valid then readLines db lines
      else readLines ⟨db.fingerprints ++ [fingerprint]⟩ lines

/-- The database with the fingerprints of a text, if the stream is good. -/
def readStream (db : FingerprintDatabase) (good : Bool) (text : Text) : FingerprintDatabase :=
  if !good then db else readLines db (getLines text)

/-- The text that is written, if the stream is good. -/
def writeStream (db : FingerprintDatabase) (good : Bool) : Text :=
  if !good then [] else db.fingerprints.flatMap fun fingerprint => toDbLine fingerprint ++ ['\n']

/-! ### The grammar -/

/-- A line of the earlier version. -/
def LegacyShape (line : Text) : Prop := line.count ':' = 19 ∧ line.length = 40 + 19

instance (line : Text) : Decidable (LegacyShape line) := inferInstanceAs (Decidable (_ ∧ _))

/-- The line is well formed and stands for a fingerprint. -/
inductive WellFormed : Text → FingerprintData → Prop
  | legacy {line : Text} {data : Bytes} : LegacyShape line → Hex.Digits line data → data ≠ [] →
      WellFormed line ⟨"sha1", data⟩
  | v2 {algorithm hex : Text} {data : Bytes} : algorithm ≠ [] → ':' ∉ algorithm →
      Hex.Digits hex data → data ≠ [] →
      ¬LegacyShape ("v2:".toList ++ algorithm ++ ':' :: hex) →
      WellFormed ("v2:".toList ++ algorithm ++ ':' :: hex) ⟨String.ofList algorithm, data⟩

/-- The fingerprints of the well-formed lines, in order. -/
inductive Entries : List Text → List FingerprintData → Prop
  | nil : Entries [] []
  | entry {line : Text} {lines : List Text} {f : FingerprintData} {fs : List FingerprintData} :
      WellFormed line f → Entries lines fs → Entries (line :: lines) (f :: fs)
  | skip {line : Text} {lines : List Text} {fs : List FingerprintData} :
      (∀ f, ¬WellFormed line f) → Entries lines fs → Entries (line :: lines) fs

variable {line : Text} {lines : List Text} {f : FingerprintData} {fs : List FingerprintData}

/-! ### One line -/

theorem parseDbLine_of_legacy (h : LegacyShape line) :
    parseDbLine line =
      if (Hex.fromHex line).isEmpty then ⟨"", []⟩ else ⟨"sha1", Hex.fromHex line⟩ :=
  if_pos h

/-- A line in three parts that is none of the earlier version. -/
theorem parseDbLine_of_parts {version algorithm hex : Text} (hversion : ':' ∉ version)
    (halgorithm : ':' ∉ algorithm) (hline : line = version ++ ':' :: (algorithm ++ ':' :: hex))
    (h : ¬LegacyShape line) :
    parseDbLine line =
      if version ≠ "v2".toList then ⟨"", []⟩
      else if (Hex.fromHex hex).isEmpty then ⟨"", []⟩
      else ⟨String.ofList algorithm, Hex.fromHex hex⟩ := by
  have hdrop : line.drop 0 = version ++ ':' :: (algorithm ++ ':' :: hex) := hline
  have hfirst : line.find ':' 0 = some version.length := by
    rw [Text.find_of_drop hdrop hversion, Nat.zero_add]
  have hbehind : line.drop (version.length + 1) = algorithm ++ ':' :: hex := by
    rw [← List.drop_drop, hline, List.drop_left]
    rfl
  have hsecond := Text.find_of_drop hbehind halgorithm
  have htake : line.take version.length = version := by rw [hline, List.take_left]
  have hhex : line.drop (version.length + 1 + algorithm.length + 1) = hex := by
    rw [← List.drop_drop, ← List.drop_drop, hbehind, List.drop_left]
    rfl
  have hcount : ¬(line.count ':' = 19 ∧ line.length = 40 + 19) := h
  rw [parseDbLine, if_neg hcount, hfirst]
  simp only [htake, hsecond, hbehind, Nat.add_sub_cancel_left, List.take_left, hhex]

/-- A line that is none of the earlier version and gives a fingerprint has three parts. -/
theorem exists_parts_of_valid (h : ¬LegacyShape line) (hvalid : (parseDbLine line).valid) :
    ∃ version algorithm hex, ':' ∉ version ∧ ':' ∉ algorithm ∧
      line = version ++ ':' :: (algorithm ++ ':' :: hex) := by
  have hcount : ¬(line.count ':' = 19 ∧ line.length = 40 + 19) := h
  rw [parseDbLine, if_neg hcount] at hvalid
  cases hfirst : line.find ':' 0 with
  | none =>
    rw [hfirst] at hvalid
    cases hvalid
  | some versionEndPos =>
    obtain ⟨version, t, hline, hversion, rfl⟩ := Text.exists_of_find_eq_some hfirst
    cases hsecond : line.find ':' (0 + version.length + 1) with
    | none =>
      simp only [hfirst, hsecond] at hvalid
      split_ifs at hvalid
      · cases hvalid
      · cases hvalid
    | some algoEndPos =>
      obtain ⟨algorithm, hex, hrest, halgorithm, -⟩ := Text.exists_of_find_eq_some hsecond
      refine ⟨version, algorithm, hex, hversion, halgorithm, ?_⟩
      rw [List.drop_zero] at hline
      rw [Nat.zero_add, ← List.drop_drop, hline, List.drop_left] at hrest
      rw [hline, ← hrest]
      rfl

/-- The lines that give a valid fingerprint are the well-formed ones. -/
theorem parseDbLine_iff :
    (parseDbLine line).valid = true ∧ parseDbLine line = f ↔ WellFormed line f := by
  constructor
  · rintro ⟨hvalid, rfl⟩
    by_cases hlegacy : LegacyShape line
    · rw [parseDbLine_of_legacy hlegacy] at hvalid ⊢
      split_ifs at hvalid ⊢ with hempty
      · cases hvalid
      · have hne : Hex.fromHex line ≠ [] := fun h => hempty (List.isEmpty_iff.2 h)
        exact .legacy hlegacy ((Hex.fromHex_eq_iff hne).1 rfl) hne
    · obtain ⟨version, algorithm, hex, hversion, halgorithm, hline⟩ :=
        exists_parts_of_valid hlegacy hvalid
      rw [parseDbLine_of_parts hversion halgorithm hline hlegacy] at hvalid ⊢
      split_ifs at hvalid ⊢ with hv2 hempty
      · cases hvalid
      · cases hvalid
      · have hne : Hex.fromHex hex ≠ [] := fun h => hempty (List.isEmpty_iff.2 h)
        have hname : algorithm ≠ [] := by
          rintro rfl
          cases hvalid
        have hparts : line = "v2:".toList ++ algorithm ++ ':' :: hex := by
          rw [hline, not_not.1 hv2, List.append_assoc]
          rfl
        rw [hparts] at hlegacy ⊢
        exact .v2 hname halgorithm ((Hex.fromHex_eq_iff hne).1 rfl) hne hlegacy
  · intro h
    cases h with
    | legacy hlegacy hdigits hne =>
      have hhex := (Hex.fromHex_eq_iff hne).2 hdigits
      have hempty : ¬(Hex.fromHex line).isEmpty = true := by
        rw [hhex, List.isEmpty_iff]
        exact hne
      rw [parseDbLine_of_legacy hlegacy, if_neg hempty, hhex]
      exact ⟨rfl, rfl⟩
    | @v2 algorithm hex data hname halgorithm hdigits hne hlegacy =>
      have hhex := (Hex.fromHex_eq_iff hne).2 hdigits
      have hempty : ¬(Hex.fromHex hex).isEmpty = true := by
        rw [hhex, List.isEmpty_iff]
        exact hne
      have hparts : "v2:".toList ++ algorithm ++ ':' :: hex =
          "v2".toList ++ ':' :: (algorithm ++ ':' :: hex) := by
        rw [List.append_assoc]
        rfl
      rw [parseDbLine_of_parts (by decide) halgorithm hparts hlegacy, if_neg (not_not.2 rfl),
        if_neg hempty, hhex]
      refine ⟨bne_iff_ne.2 fun h => hname ?_, rfl⟩
      have := congrArg String.toList h
      rwa [String.toList_ofList] at this

theorem WellFormed.ne_nil (h : WellFormed line f) : line ≠ [] := by
  rintro rfl
  cases h with
  | legacy hlegacy => exact absurd hlegacy (by decide)

/-- The fingerprint of a known algorithm is written as a well-formed line. -/
theorem wellFormed_toDbLine (hknown : fingerprintTypeFromString f.algorithm ≠ .invalid)
    (hdata : f.data ≠ []) : WellFormed (toDbLine f) f ∧ '\n' ∉ toDbLine f := by
  have hname : f.algorithm.toList = "sha1".toList ∨ f.algorithm.toList = "sha256".toList := by
    rw [fingerprintTypeFromString] at hknown
    split_ifs at hknown with hsha1 hsha256
    · exact Or.inl (congrArg _ hsha1)
    · exact Or.inr (congrArg _ hsha256)
    · exact absurd rfl hknown
  have hcolon : ':' ∉ f.algorithm.toList := by
    rcases hname with h | h <;> rw [h] <;> decide
  have hnewline : '\n' ∉ f.algorithm.toList := by
    rcases hname with h | h <;> rw [h] <;> decide
  have hne : f.algorithm.toList ≠ [] := by
    rcases hname with h | h <;> rw [h] <;> decide
  have hhex : ∀ c ∈ Hex.toHex f.data 2 '0', c ≠ ':' ∧ c ≠ '\n' := by
    intro c hc
    obtain ⟨n, hn, rfl⟩ := Hex.exists_hexDigit_of_mem_toHex hc
    exact (show ∀ n < 16, Text.hexDigit n ≠ ':' ∧ Text.hexDigit n ≠ '\n' by decide) n hn
  have hlegacy : ¬LegacyShape (toDbLine f) := by
    have hzero : (Hex.toHex f.data 2 '0').count ':' = 0 :=
      List.count_eq_zero.2 fun h => (hhex _ h).1 rfl
    have hcount : (toDbLine f).count ':' = 2 := by
      rw [toDbLine, List.count_append, List.count_append, List.count_eq_zero.2 hcolon,
        List.count_cons_self, hzero]
      rfl
    intro h
    rw [LegacyShape, hcount] at h
    omega
  constructor
  · have hline := WellFormed.v2 hne hcolon (Hex.digits_toHex f.data) hdata hlegacy
    rwa [String.ofList_toList] at hline
  · rw [toDbLine, List.mem_append, List.mem_append, List.mem_cons]
    rintro ((h | h) | h | h)
    · exact absurd h (by decide)
    · exact hnewline h
    · exact absurd h (by decide)
    · exact (hhex _ h).2 rfl

/-! ### The lines of a text -/

/-- What a line adds to the database. -/
def lineEntry (line : Text) : Option FingerprintData :=
  if (parseDbLine line).valid then some (parseDbLine line) else none

theorem lineEntry_eq_some_iff : lineEntry line = some f ↔ WellFormed line f := by
  rw [← parseDbLine_iff, lineEntry]
  by_cases h : (parseDbLine line).valid = true
  · rw [if_pos h, Option.some.injEq, and_iff_right h]
  · rw [if_neg h]
    exact ⟨fun hnone => (by cases hnone), fun hboth => absurd hboth.1 h⟩

/-- The loop adds the fingerprints of the lines that have one. -/
theorem readLines_eq (db : FingerprintDatabase) (lines : List Text) :
    readLines db lines = ⟨db.fingerprints ++ lines.filterMap lineEntry⟩ := by
  induction lines generalizing db with
  | nil => rw [readLines, List.filterMap_nil, List.append_nil]
  | cons line lines ih =>
    rw [readLines, List.filterMap_cons]
    by_cases hempty : line.isEmpty = true
    · have hnone : lineEntry line = none := by
        rw [List.isEmpty_iff.1 hempty]
        decide
      rw [if_pos hempty, ih, hnone]
    · rw [if_neg hempty]
      by_cases hvalid : (parseDbLine line).valid = true
      · have hsome : lineEntry line = some (parseDbLine line) := if_pos hvalid
        simp only [hvalid, Bool.not_true, Bool.false_eq_true, if_false, ih, hsome,
          List.append_assoc, List.singleton_append]
      · have hnone : lineEntry line = none := if_neg hvalid
        rw [Bool.not_eq_true] at hvalid
        simp only [hvalid, Bool.not_false, if_true, ih, hnone]

/-- The fingerprints in the well-formed lines are those that the lines add. -/
theorem entries_iff : Entries lines fs ↔ lines.filterMap lineEntry = fs := by
  constructor
  · intro h
    induction h with
    | nil => rfl
    | entry hline _ ih => rw [List.filterMap_cons, lineEntry_eq_some_iff.2 hline, ih]
    | @skip line _ _ hline _ ih =>
      have hnone : lineEntry line = none :=
        Option.eq_none_iff_forall_ne_some.2 fun f hf => hline f (lineEntry_eq_some_iff.1 hf)
      rw [List.filterMap_cons, hnone, ih]
  · rintro rfl
    induction lines with
    | nil => exact .nil
    | cons line lines ih =>
      rw [List.filterMap_cons]
      cases hline : lineEntry line with
      | some f => exact .entry (lineEntry_eq_some_iff.1 hline) ih
      | none =>
        refine .skip (fun f hf => ?_) ih
        rw [lineEntry_eq_some_iff.2 hf] at hline
        cases hline

/-- Lines that were written are found again. -/
theorem getLines_flatMap (h : ∀ line ∈ lines, '\n' ∉ line) :
    getLines (lines.flatMap fun line => line ++ ['\n']) = lines := by
  have hparts : Text.splitOn '\n' (lines.flatMap fun line => line ++ ['\n']) = lines ++ [[]] := by
    induction lines with
    | nil => rfl
    | cons line lines ih =>
      rw [List.flatMap_cons, List.append_assoc, List.singleton_append,
        Text.splitOn_append (h line List.mem_cons_self),
        ih fun line hline => h line (List.mem_cons_of_mem _ hline), List.cons_append]
  simp only [getLines, hparts, List.getLast?_concat, if_true, List.dropLast_concat]

/-- Adding a fingerprint makes it trusted, and no other. -/
theorem isTrusted_addTrusted (db : FingerprintDatabase) (fingerprint : FingerprintData) :
    (db.addTrusted fingerprint).isTrusted f = (f == fingerprint || db.isTrusted f) := by
  unfold addTrusted
  split_ifs with htrusted
  · by_cases hf : f = fingerprint
    · rw [hf, htrusted, beq_self_eq_true, Bool.true_or]
    · rw [beq_false_of_ne hf, Bool.false_or]
  · rw [isTrusted, List.contains_append, List.contains_cons, List.contains_nil, Bool.or_false,
      Bool.or_comm, isTrusted]

/-- A database to which only complete fingerprints of known algorithms are added holds no other
ones. -/
theorem known_addTrusted {db : FingerprintDatabase} {fingerprint : FingerprintData}
    (hdb : ∀ f ∈ db.fingerprints, fingerprintTypeFromString f.algorithm ≠ .invalid ∧ f.data ≠ [])
    (hnew : fingerprintTypeFromString fingerprint.algorithm ≠ .invalid ∧ fingerprint.data ≠ []) :
    ∀ f ∈ (db.addTrusted fingerprint).fingerprints,
      fingerprintTypeFromString f.algorithm ≠ .invalid ∧ f.data ≠ [] := by
  unfold addTrusted
  split_ifs
  · exact hdb
  · intro f hf
    obtain hf | hf := List.mem_append.1 hf
    · exact hdb f hf
    · rw [List.mem_singleton.1 hf]
      exact hnew

/-- The text that was written gives the same database, which trusts the same fingerprints.  Any
text adds the fingerprints of its well-formed lines, in their order, and nothing else. -/
theorem readStream_writeStream (db : FingerprintDatabase) (text : Text) :
    ((∀ f ∈ db.fingerprints,
        fingerprintTypeFromString f.algorithm ≠ .invalid ∧ f.data ≠ []) →
      (readStream {} true (db.writeStream true)).fingerprints = db.fingerprints ∧
        ∀ f, (readStream {} true (db.writeStream true)).isTrusted f = db.isTrusted f) ∧
    ∀ fs, (db.readStream true text).fingerprints = db.fingerprints ++ fs ↔
      Entries (getLines text) fs := by
  have hread : ∀ (db : FingerprintDatabase) (text : Text), db.readStream true text =
      ⟨db.fingerprints ++ (getLines text).filterMap lineEntry⟩ := fun db text => readLines_eq db _
  constructor
  · intro hknown
    have hlines : getLines (db.writeStream true) = db.fingerprints.map toDbLine := by
      have hwrite : db.writeStream true =
          (db.fingerprints.map toDbLine).flatMap fun line => line ++ ['\n'] := by
        rw [List.flatMap_map]
        rfl
      rw [hwrite]
      refine getLines_flatMap fun line hline => ?_
      obtain ⟨f, hf, rfl⟩ := List.mem_map.1 hline
      exact (wellFormed_toDbLine (hknown f hf).1 (hknown f hf).2).2
    have hentries : (db.fingerprints.map toDbLine).filterMap lineEntry = db.fingerprints := by
      rw [List.filterMap_map]
      refine (List.filterMap_congr fun f hf => ?_).trans List.filterMap_some
      exact lineEntry_eq_some_iff.2 (wellFormed_toDbLine (hknown f hf).1 (hknown f hf).2).1
    have hsame : readStream {} true (db.writeStream true) = db := by
      rw [hread, hlines, hentries]
      rfl
    rw [hsame]
    exact ⟨rfl, fun _ => rfl⟩
  · intro fs
    rw [hread, entries_iff]
    exact List.append_right_inj _

/-- Two servers, known by fingerprints of different algorithms. -/
def twoServers : FingerprintDatabase where
  fingerprints := [⟨"sha1", [0x01, 0xab, 0x7f]⟩, ⟨"sha256", [0xff, 0x00]⟩]

theorem readStream_writeStream_twoServers :
    (readStream {} true (twoServers.writeStream true)).fingerprints = twoServers.fingerprints ∧
      ∀ f, (readStream {} true (twoServers.writeStream true)).isTrusted f =
        twoServers.isTrusted f :=
  (readStream_writeStream twoServers []).1 (by decide)

end FingerprintDatabase

end InputLeap
