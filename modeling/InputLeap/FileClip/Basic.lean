import InputLeap.Clipboard.Basic

/-!
# Files on the clipboard

A `FileClip` is the clipboard data of files copied on some screen: an id and the names and sizes
of the files.  Another screen pastes them by a request that the server passes to the screen they
were copied on; that screen reports with status messages.

## Main definitions

* `FileClip`, `FileClip.unmarshall` : the data and its decoding.
* `FilePasteRequest`, `FilePasteStatus` : a paste and the reports about it.
* `isValidPasteRequest`, `isValidPasteAddress` : what the server checks of a request.
-/

namespace InputLeap

/-- A copied file. -/
structure FileClip.File where
  name : Bytes
  size : ℕ
  modified : ℕ
  deriving DecidableEq

/-- Copied files. -/
structure FileClip where
  id : Bytes
  files : List FileClip.File
  deriving DecidableEq

namespace FileClip

/-- The first bytes of the encoding (`kMagic`). -/
def magic : Bytes := [76, 68, 70, 49]

/-- The most files of a clip (`kMaxFiles`). -/
def maxFiles : ℕ := 4096

/-- The longest id (`kMaxIdLength`). -/
def maxIdLength : ℕ := 64

/-- The longest file name (`kMaxNameLength`). -/
def maxNameLength : ℕ := 1024

/-- Reads an eight byte number. -/
def readUInt64 (bytes : Bytes) : Option (ℕ × Bytes) := do
  let (high, bytes) ← Clipboard.readUInt32 bytes
  let (low, bytes) ← Clipboard.readUInt32 bytes
  some (high * 2 ^ 32 + low, bytes)

/-- Reads a length of at most `maxLength` and that many bytes. -/
def readString (maxLength : ℕ) (bytes : Bytes) : Option (Bytes × Bytes) := do
  let (length, bytes) ← Clipboard.readUInt32 bytes
  if length > maxLength ∨ bytes.length < length then none
  else some (bytes.take length, bytes.drop length)

/-- The name can only mean a file in the directory it is put in. -/
def isPlainName (name : Bytes) : Bool :=
  name != [] && name != [46] && name != [46, 46] &&
    name.all fun c => !(c < 0x20 || c == 0x7f || c == 47 || c == 92 || c == 58)

/-- Reads `n` files. -/
def readFiles : ℕ → Bytes → Option (List File × Bytes)
  | 0, bytes => some ([], bytes)
  | n + 1, bytes => do
    let (name, bytes) ← readString maxNameLength bytes
    if !isPlainName name then none
    else
      let (size, bytes) ← readUInt64 bytes
      let (modified, bytes) ← readUInt64 bytes
      let (files, bytes) ← readFiles n bytes
      some (⟨name, size, modified⟩ :: files, bytes)

/-- Decodes the data of a clip. -/
def unmarshall (data : Bytes) : Option FileClip := do
  if data.take magic.length ≠ magic then none
  else
    let (id, bytes) ← readString maxIdLength (data.drop magic.length)
    if id = [] then none
    else
      let (count, bytes) ← Clipboard.readUInt32 bytes
      if count = 0 ∨ count > maxFiles then none
      else
        let (files, bytes) ← readFiles count bytes
        if bytes = [] then some ⟨id, files⟩ else none

end FileClip

/-- How a paste is going. -/
inductive FilePasteState
  | sending
  | sent
  | failed
  deriving DecidableEq, Repr

namespace FilePasteState

/-- Nothing more will come. -/
def terminal : FilePasteState → Bool
  | sending => false
  | sent => true
  | failed => true

end FilePasteState

/-- A request to paste the files of a clip. -/
structure FilePasteRequest where
  /-- The id of the request, chosen by the pasting screen. -/
  request : String
  /-- The id of the clip. -/
  fileId : Bytes
  /-- Where to send the files. -/
  address : String
  deriving DecidableEq

/-- A report about a paste. -/
structure FilePasteStatus where
  request : String
  state : FilePasteState
  detail : String
  deriving DecidableEq

/-- The request id can be part of a file name. -/
def isValidPasteRequest (request : String) : Bool :=
  let cs := request.toList
  8 ≤ cs.length && cs.length ≤ 64 &&
    cs.all fun c => ('0' ≤ c && c ≤ '9') || ('a' ≤ c && c ≤ 'f')

/-- The address can be part of a command line. -/
def isValidPasteAddress (address : String) : Bool :=
  let cs := address.toList
  cs != [] && cs.length ≤ 253 && cs.head? != some '-' &&
    cs.all fun c =>
      ('0' ≤ c && c ≤ '9') || ('a' ≤ c && c ≤ 'z') || ('A' ≤ c && c ≤ 'Z') ||
        c == '.' || c == ':' || c == '-'

end InputLeap
