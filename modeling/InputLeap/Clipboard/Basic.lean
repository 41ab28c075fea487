import InputLeap.Protocol.Types
import Mathlib.Data.List.Basic

/-!
# Clipboards

The in-memory clipboard (`Clipboard`), copying one clipboard to another and the marshalled form
in which a clipboard travels (`IClipboard`).

## Main definitions

* `Clipboard` : the data in each format and the time of the last change of ownership.
* `Clipboard.copy`, `Clipboard.marshall`, `Clipboard.unmarshall`.
-/

namespace InputLeap

/-- The formats of clipboard data (`EFormat` below `kNumFormats`). -/
inductive Format
  | text
  | html
  | bitmap
  | png
  | jpeg
  | tiff
  | webp
  | files
  deriving DecidableEq, Repr

namespace Format

/-- The formats in the order of their numbers. -/
def all : List Format := [text, html, bitmap, png, jpeg, tiff, webp, files]

/-- The number of the format. -/
def toNat : Format → ℕ
  | text => 0
  | html => 1
  | bitmap => 2
  | png => 3
  | jpeg => 4
  | tiff => 5
  | webp => 6
  | files => 7

/-- The format with the number, if it is below `kNumFormats`. -/
def ofNat? (n : ℕ) : Option Format := all[n]?

end Format

/-- A clipboard. -/
structure Clipboard where
  /-- The data in each format that the clipboard has. -/
  data : Format → Option Bytes
  /-- The time when the ownership was taken. -/
  timeOwned : ℕ

namespace Clipboard

/-- Takes ownership and removes all data (`open`, `clear`, `close`). -/
def clear (time : ℕ) : Clipboard := ⟨fun _ => none, time⟩

/-- Adds data in a format. -/
def add (c : Clipboard) (format : Format) (data : Bytes) : Clipboard :=
  { c with data := fun f => if f = format then some data else c.data f }

/-- Adds the data that `src` has in a format. -/
def copyFormat (src dst : Clipboard) (format : Format) : Clipboard :=
  match src.data format with
  | some d => dst.add format d
  | none => dst

/-- What `copy` makes of the destination: it has the formats of the source, owned at the same
time. -/
def copy (src : Clipboard) : Clipboard := Format.all.foldl src.copyFormat (clear src.timeOwned)

/-- A number in four bytes, most significant first. -/
def writeUInt32 (v : ℕ) : Bytes :=
  [UInt8.ofNat (v / 2 ^ 24), UInt8.ofNat (v / 2 ^ 16), UInt8.ofNat (v / 2 ^ 8), UInt8.ofNat v]

/-- The number in the first four bytes and the rest; `none` reads past the end. -/
def readUInt32 : Bytes → Option (ℕ × Bytes)
  | a :: b :: c :: d :: rest =>
    some (a.toNat * 2 ^ 24 + b.toNat * 2 ^ 16 + c.toNat * 2 ^ 8 + d.toNat, rest)
  | _ => none

/-- The number of formats, then for each format its number, the size of its data and the data. -/
def marshall (c : Clipboard) : Bytes :=
  let formats := Format.all.filterMap fun f => (c.data f).map fun d => (f, d)
  writeUInt32 formats.length ++
    formats.flatMap fun (f, d) => writeUInt32 f.toNat ++ writeUInt32 d.length ++ d

/-- Reads `n` formats; those with an unknown number are skipped.  `none` reads past the end. -/
def unmarshallFormats : ℕ → Bytes → Clipboard → Option Clipboard
  | 0, _, c => some c
  | n + 1, bytes, c => do
    let (format, bytes) ← readUInt32 bytes
    let (size, bytes) ← readUInt32 bytes
    match Format.ofNat? format with
    | some f =>
      if bytes.length < size then none
      else unmarshallFormats n (bytes.drop size) (c.add f (bytes.take size))
    | none => unmarshallFormats n (bytes.drop size) c

/-- The clipboard that `unmarshall` makes; `none` reads past the end of the data. -/
def unmarshall (bytes : Bytes) (time : ℕ) : Option Clipboard := do
  let (n, bytes) ← readUInt32 bytes
  unmarshallFormats n bytes (clear time)

theorem copyFormat_data (src dst : Clipboard) (format f : Format) :
    (src.copyFormat dst format).data f =
      if f = format then (src.data f).or (dst.data f) else dst.data f := by
  unfold copyFormat
  by_cases hf : f = format
  · subst hf
    cases hd : src.data f <;> simp [add]
  · cases hd : src.data format <;> simp [add, hf]

theorem foldl_copyFormat_data (src : Clipboard) (l : List Format) (dst : Clipboard) (f : Format) :
    (l.foldl src.copyFormat dst).data f =
      if f ∈ l then (src.data f).or (dst.data f) else dst.data f := by
  induction l generalizing dst with
  | nil => simp
  | cons format l ih =>
    rw [List.foldl_cons, ih, copyFormat_data]
    by_cases hf : f = format
    · subst hf
      by_cases hl : f ∈ l <;> cases src.data f <;> simp [hl]
    · by_cases hl : f ∈ l <;> simp [hf, hl]

@[simp] theorem copy_data (c : Clipboard) : c.copy.data = c.data := by
  funext f
  have hall : f ∈ Format.all := by cases f <;> decide
  rw [copy, foldl_copyFormat_data, if_pos hall]
  simp [clear]

/-- A copy travels like the original. -/
@[simp] theorem marshall_copy (c : Clipboard) : c.copy.marshall = c.marshall := by
  simp only [marshall, copy_data]

end Clipboard

end InputLeap
