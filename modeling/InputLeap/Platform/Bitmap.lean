import InputLeap.Num.LittleEndian
import InputLeap.Text.Search

/-!
# Pictures on the clipboard of X11

The clipboard holds a picture as the header and the pixels of a device-independent bitmap.  One
converter puts a file header before it, the other turns it into another image format with an
encoder that a derived class supplies.

## Main definitions

* `BMPConverter.fromIClipboard`, `BMPConverter.toIClipboard` : files of bitmaps.
* `AnyBitmapConverter.fromIClipboard`, `AnyBitmapConverter.toIClipboard` : other formats.
* `AnyBitmapConverter.Handed` : a picture reaches the encoder as the decoder gave it.

## Main results

* `BMPConverter.toIClipboard_fromIClipboard` : the file of a bitmap gives the bitmap back.
* `AnyBitmapConverter.load_store` : every field of a header is read as it was written.
* `AnyBitmapConverter.request_toIClipboard` : a picture that was converted is never accepted.
* `Bitmaps.convert` : what holds of the four conversions, and when.
-/

namespace InputLeap

/-- The bytes that can be read behind the pointer to a string: its own and the terminator. -/
def storage (s : Bytes) : Bytes := s ++ [0]

/-! ### Fields -/

def storeLittleEndianU8 (v : UInt8) : Bytes := [v]

def storeLittleEndianU16 (v : UInt16) : Bytes := LittleEndian.toBytes 2 v.toNat

def storeLittleEndianU32 (v : UInt32) : Bytes := LittleEndian.toBytes 4 v.toNat

def storeLittleEndianS32 (v : Int32) : Bytes := storeLittleEndianU32 v.toUInt32

def loadLittleEndianU16 (mem : Bytes) (pos : ℕ) : Option UInt16 :=
  (LittleEndian.load? 2 mem pos).map UInt16.ofNat

def loadLittleEndianU32 (mem : Bytes) (pos : ℕ) : Option UInt32 :=
  (LittleEndian.load? 4 mem pos).map UInt32.ofNat

def loadLittleEndianS32 (mem : Bytes) (pos : ℕ) : Option Int32 :=
  (loadLittleEndianU32 mem pos).map UInt32.toInt32

/-! ### Files -/

namespace BMPConverter

/-- The bitmap with the header of a file before it. -/
def fromIClipboard (bmp : Bytes) : Bytes :=
  if bmp = [] then []
  else
    storeLittleEndianU8 66 ++ storeLittleEndianU8 77 ++
      storeLittleEndianU32 (UInt32.ofNat (14 + bmp.length)) ++ storeLittleEndianU16 0 ++
        storeLittleEndianU16 0 ++ storeLittleEndianU32 (14 + 40) ++ bmp

/-- The bitmap in a file, with its pixels where the file says they are; `none` if taking them throws
an exception. -/
def toIClipboard (bmp : Bytes) : Option Bytes :=
  if bmp = [] then some []
  else if bmp.length ≤ 14 + 40 then some []
  else if (storage bmp)[0]? ≠ some 66 ∨ (storage bmp)[1]? ≠ some 77 then some []
  else
    (loadLittleEndianU32 (storage bmp) 10).bind fun offset =>
      if offset = 14 + 40 then some (bmp.drop 14)
      else
        (Search.substr? bmp 14 40).bind fun info =>
          (Search.substr? bmp offset.toNat (bmp.length - offset.toNat)).map fun pixels =>
            info ++ pixels

/-- The file says that its pixels begin behind its end. -/
def OffsetBehind (bmp : Bytes) : Prop :=
  14 + 40 < bmp.length ∧ [66, 77] <+: bmp ∧ bmp.length < LittleEndian.ofBytes ((bmp.drop 10).take 4)

/-- The header of a file up to the offset, which is that of pixels right behind the headers. -/
def fileHeader (size : ℕ) : Bytes :=
  storeLittleEndianU8 66 ++ storeLittleEndianU8 77 ++
    storeLittleEndianU32 (UInt32.ofNat (14 + size)) ++ storeLittleEndianU16 0 ++
      storeLittleEndianU16 0

theorem fromIClipboard_eq {bmp : Bytes} (h : bmp ≠ []) :
    fromIClipboard bmp = fileHeader bmp.length ++ (storeLittleEndianU32 54 ++ bmp) := by
  rw [fromIClipboard, if_neg h, fileHeader, ← List.append_assoc]
  rfl

theorem load_fileHeader (size : ℕ) (t : Bytes) :
    loadLittleEndianU32 (fileHeader size ++ (storeLittleEndianU32 54 ++ t)) 10 = some 54 := by
  have hlength : (fileHeader size).length = 10 := rfl
  rw [loadLittleEndianU32, LittleEndian.load?_append (Nat.le_of_eq hlength), hlength,
    storeLittleEndianU32, LittleEndian.load?_toBytes]
  rfl

/-- **The file of a bitmap** gives the bitmap back. -/
theorem toIClipboard_fromIClipboard {dib : Bytes} (h : 40 < dib.length) :
    toIClipboard (fromIClipboard dib) = some dib := by
  have hne : dib ≠ [] := List.ne_nil_of_length_pos (by omega)
  have hlength : (fromIClipboard dib).length = 14 + dib.length := by
    rw [fromIClipboard_eq hne, List.length_append, List.length_append, ← Nat.add_assoc]
    rfl
  have hload : loadLittleEndianU32 (storage (fromIClipboard dib)) 10 = some 54 := by
    rw [storage, fromIClipboard_eq hne, List.append_assoc, List.append_assoc]
    exact load_fileHeader _ _
  have hdrop : (fromIClipboard dib).drop 14 = dib := by
    rw [fromIClipboard_eq hne]
    rfl
  have hmagic : ¬((storage (fromIClipboard dib))[0]? ≠ some 66 ∨
      (storage (fromIClipboard dib))[1]? ≠ some 77) := by
    rw [fromIClipboard_eq hne]
    exact fun hnot => hnot.elim (fun hfirst => hfirst rfl) fun hsecond => hsecond rfl
  rw [toIClipboard, if_neg (List.ne_nil_of_length_pos (by omega)), if_neg (by omega),
    if_neg hmagic, hload, Option.bind_some, if_pos (by decide), hdrop]

/-- The offset that is read. -/
theorem load_offset {bmp : Bytes} (h : 14 + 40 < bmp.length) :
    ∃ offset, loadLittleEndianU32 (storage bmp) 10 = some offset ∧
      offset.toNat = LittleEndian.ofBytes ((bmp.drop 10).take 4) := by
  have hfield : ((storage bmp).drop 10).take 4 = (bmp.drop 10).take 4 := by
    rw [storage, List.drop_append_of_le_length (by omega), List.take_append_of_le_length]
    rw [List.length_drop]
    omega
  have hlt := LittleEndian.ofBytes_lt ((bmp.drop 10).take 4)
  rw [List.length_take, List.length_drop, Nat.min_eq_left (by omega)] at hlt
  refine ⟨UInt32.ofNat (LittleEndian.ofBytes ((bmp.drop 10).take 4)), ?_, ?_⟩
  · rw [loadLittleEndianU32, LittleEndian.load?_eq_some, hfield, Option.map_some]
    rw [storage, List.length_append]
    omega
  · exact UInt32.toNat_ofNat_of_lt' hlt

/-- The two letters at the beginning of a file. -/
theorem magic_iff {bmp : Bytes} (h : 14 + 40 < bmp.length) :
    ((storage bmp)[0]? ≠ some 66 ∨ (storage bmp)[1]? ≠ some 77) ↔ ¬[66, 77] <+: bmp := by
  obtain ⟨a, b, t, rfl⟩ : ∃ a b t, bmp = a :: b :: t := by
    match bmp, h with
    | a :: b :: t, _ => exact ⟨a, b, t, rfl⟩
  have hfirst : (storage (a :: b :: t))[0]? = some a := rfl
  have hsecond : (storage (a :: b :: t))[1]? = some b := rfl
  rw [hfirst, hsecond, ← not_and_or, Option.some_inj, Option.some_inj, List.cons_prefix_cons,
    List.cons_prefix_cons, and_iff_left List.nil_prefix, @eq_comm _ a, @eq_comm _ b]

/-- **When taking the pixels throws.** -/
theorem toIClipboard_eq_none_iff (bmp : Bytes) : toIClipboard bmp = none ↔ OffsetBehind bmp := by
  by_cases hlength : bmp.length ≤ 14 + 40
  · refine iff_of_false ?_ fun hbehind => Nat.not_lt.2 hlength hbehind.1
    rw [toIClipboard, if_pos hlength, ite_self]
    exact nofun
  have hlt := Nat.lt_of_not_le hlength
  obtain ⟨offset, hload, hoffset⟩ := load_offset hlt
  have hne : bmp ≠ [] := List.ne_nil_of_length_pos (by omega)
  rw [toIClipboard, if_neg hne, if_neg hlength, OffsetBehind, and_iff_right hlt, ← hoffset]
  split_ifs with hmagic
  · exact iff_of_false nofun fun hbehind => (magic_iff hlt).1 hmagic hbehind.1
  rw [magic_iff hlt, not_not] at hmagic
  rw [and_iff_right hmagic, hload, Option.bind_some]
  split_ifs with hsimple
  · refine iff_of_false nofun fun hbehind => ?_
    rw [hsimple] at hbehind
    exact Nat.lt_asymm hlt hbehind
  · rw [Search.substr?, if_pos (by omega), Option.bind_some, Option.map_eq_none_iff, Search.substr?]
    split_ifs with hle
    · exact iff_of_false nofun (Nat.not_lt.2 hle)
    · exact iff_of_true rfl (Nat.lt_of_not_le hle)

end BMPConverter

/-! ### Other formats -/

/-- The header of a bitmap. -/
structure CBMPInfoHeader where
  biSize : UInt32
  biWidth : Int32
  biHeight : Int32
  biPlanes : UInt16
  biBitCount : UInt16
  biCompression : UInt32
  biSizeImage : UInt32
  biXPelsPerMeter : Int32
  biYPelsPerMeter : Int32
  biClrUsed : UInt32
  biClrImportant : UInt32
  deriving DecidableEq

namespace AnyBitmapConverter

/-- What is handed to the encoder: the memory from the pixels on, the size and the depth, which
selects the function that is called. -/
structure Request where
  pixels : Bytes
  w : UInt32
  h : UInt32
  depth : UInt16
  deriving DecidableEq

/-- The encoder of a derived class: how many bytes of pixels it reads, and the image it makes of
them. -/
structure Encoder where
  reads : UInt16 → UInt32 → UInt32 → ℕ
  image : UInt16 → Bytes → UInt32 → UInt32 → Bytes

/-- What the decoder of a derived class finds in an image. -/
structure Picture where
  rawBMP : Bytes
  w : UInt32
  h : UInt32
  depth : UInt32

/-- The encoder reads its bytes, if they are there. -/
def Encoder.run (enc : Encoder) (r : Request) : Option Bytes :=
  if enc.reads r.depth r.w r.h ≤ r.pixels.length then
    some (enc.image r.depth (r.pixels.take (enc.reads r.depth r.w r.h)) r.w r.h)
  else none

/-- The header at the beginning of what can be read; `none` if not all of it can. -/
def load (mem : Bytes) : Option CBMPInfoHeader := do
  let biSize ← loadLittleEndianU32 mem 0
  let biWidth ← loadLittleEndianS32 mem 4
  let biHeight ← loadLittleEndianS32 mem 8
  let biPlanes ← loadLittleEndianU16 mem 12
  let biBitCount ← loadLittleEndianU16 mem 14
  let biCompression ← loadLittleEndianU32 mem 16
  let biSizeImage ← loadLittleEndianU32 mem 20
  let biXPelsPerMeter ← loadLittleEndianS32 mem 24
  let biYPelsPerMeter ← loadLittleEndianS32 mem 28
  let biClrUsed ← loadLittleEndianU32 mem 32
  let biClrImportant ← loadLittleEndianU32 mem 36
  return ⟨biSize, biWidth, biHeight, biPlanes, biBitCount, biCompression, biSizeImage,
    biXPelsPerMeter, biYPelsPerMeter, biClrUsed, biClrImportant⟩

/-- The format is acceptable. -/
def Acceptable (info : CBMPInfoHeader) : Prop :=
  ¬(info.biSize ≠ 40 ∨ info.biWidth = 0 ∨ info.biHeight = 0 ∨ info.biPlanes ≠ 0 ∨
    info.biCompression ≠ 0 ∨ (info.biBitCount ≠ 24 ∧ info.biBitCount ≠ 32))

instance (info : CBMPInfoHeader) : Decidable (Acceptable info) := inferInstanceAs (Decidable ¬_)

/-- What is handed to the encoder for a bitmap, if its format is acceptable; `none` if reading the
header leaves the string. -/
def request (bmp : Bytes) : Option (Option Request) :=
  (load (storage bmp)).map fun info =>
    if Acceptable info then
      some ⟨(storage bmp).drop 40, info.biWidth.toUInt32, info.biHeight.toUInt32, info.biBitCount⟩
    else none

/-- The image for a bitmap; `none` if reading leaves the string. -/
def fromIClipboard (enc : Encoder) (bmp : Bytes) : Option Bytes :=
  if bmp = [] then some []
  else (request bmp).bind fun handed => handed.elim (some []) enc.run

/-- There is no picture of a depth that bitmaps have. -/
def Picture.Unusable (p : Picture) : Prop :=
  p.rawBMP = [] ∨ p.w = 0 ∨ p.h = 0 ∨ (p.depth ≠ 24 ∧ p.depth ≠ 32)

instance (p : Picture) : Decidable p.Unusable := inferInstanceAs (Decidable (_ ∨ _))

/-- The header and the pixels; an image has `size` bytes. -/
def Picture.bitmap (p : Picture) (size : ℕ) : Bytes :=
  storeLittleEndianU32 40 ++ (storeLittleEndianS32 p.w.toInt32 ++
    (storeLittleEndianS32 p.h.toInt32 ++ (storeLittleEndianU16 1 ++
      (storeLittleEndianU16 p.depth.toUInt16 ++ (storeLittleEndianU32 0 ++
        (storeLittleEndianU32 (UInt32.ofNat size) ++ (storeLittleEndianS32 2834 ++
          (storeLittleEndianS32 2834 ++ (storeLittleEndianU32 0 ++
            (storeLittleEndianU32 0 ++ p.rawBMP))))))))))

/-- The bitmap for an image. -/
def toIClipboard (doToIClipboard : Bytes → Picture) (image : Bytes) : Bytes :=
  if image = [] then []
  else if (doToIClipboard image).Unusable then []
  else (doToIClipboard image).bitmap image.length

/-- If there is a bitmap for an image, its encoder gets the pixels, the size and the depth. -/
def Handed (doToIClipboard : Bytes → Picture) (image : Bytes) : Prop :=
  toIClipboard doToIClipboard image ≠ [] →
    request (toIClipboard doToIClipboard image) =
      some (some ⟨storage (doToIClipboard image).rawBMP, (doToIClipboard image).w,
        (doToIClipboard image).h, (doToIClipboard image).depth.toUInt16⟩)

/-- The decoder finds no picture of a depth that bitmaps have. -/
def NoPicture (doToIClipboard : Bytes → Picture) (image : Bytes) : Prop :=
  image = [] ∨ (doToIClipboard image).Unusable

/-- Everything that is read of a bitmap can be read: the bytes of the header, and of the pixels
what the encoder reads if the format is acceptable. -/
def Complete (enc : Encoder) (bmp : Bytes) : Prop :=
  bmp = [] ∨ 40 ≤ (storage bmp).length ∧ ∀ info, load (storage bmp) = some info → Acceptable info →
    40 + enc.reads info.biBitCount info.biWidth.toUInt32 info.biHeight.toUInt32 ≤
      (storage bmp).length

/-- The header is read as it was written. -/
theorem load_store (info : CBMPInfoHeader) (t : Bytes) :
    load (storeLittleEndianU32 info.biSize ++ (storeLittleEndianS32 info.biWidth ++
      (storeLittleEndianS32 info.biHeight ++ (storeLittleEndianU16 info.biPlanes ++
        (storeLittleEndianU16 info.biBitCount ++ (storeLittleEndianU32 info.biCompression ++
          (storeLittleEndianU32 info.biSizeImage ++
            (storeLittleEndianS32 info.biXPelsPerMeter ++
              (storeLittleEndianS32 info.biYPelsPerMeter ++
                (storeLittleEndianU32 info.biClrUsed ++
                  (storeLittleEndianU32 info.biClrImportant ++ t))))))))))) = some info := by
  simp [load, loadLittleEndianU32, loadLittleEndianS32, loadLittleEndianU16,
    storeLittleEndianU32, storeLittleEndianS32, storeLittleEndianU16,
    LittleEndian.load?_skip, LittleEndian.load?_toBytes]

/-- The header can be read if its bytes are there. -/
theorem exists_load_iff (mem : Bytes) : (∃ info, load mem = some info) ↔ 40 ≤ mem.length := by
  constructor
  · rintro ⟨info, hload⟩
    by_contra hshort
    have hlast : loadLittleEndianU32 mem 36 = none := by
      rw [loadLittleEndianU32, Option.map_eq_none_iff, LittleEndian.load?_eq_none_iff]
      omega
    simp [load, hlast] at hload
  · intro hlength
    have hword {k pos : ℕ} (hpos : pos + k ≤ 40) :
        LittleEndian.load? k mem pos = some (LittleEndian.ofBytes ((mem.drop pos).take k)) :=
      LittleEndian.load?_eq_some (hpos.trans hlength)
    simp [load, loadLittleEndianU32, loadLittleEndianS32, loadLittleEndianU16, hword]

/-- The header of a bitmap that is made of an image. -/
theorem load_bitmap (p : Picture) (size : ℕ) : load (storage (p.bitmap size)) =
    some ⟨40, p.w.toInt32, p.h.toInt32, 1, p.depth.toUInt16, 0, UInt32.ofNat size, 2834, 2834, 0,
      0⟩ := by
  have hload := load_store ⟨40, p.w.toInt32, p.h.toInt32, 1, p.depth.toUInt16, 0,
    UInt32.ofNat size, 2834, 2834, 0, 0⟩ (storage p.rawBMP)
  simpa only [storage, Picture.bitmap, List.append_assoc] using hload

/-- **A bitmap that was made of an image is never accepted**: the number of planes that is written
is not the one that is asked for. -/
theorem request_toIClipboard {doToIClipboard : Bytes → Picture} {image : Bytes}
    (h : toIClipboard doToIClipboard image ≠ []) :
    request (toIClipboard doToIClipboard image) = some none := by
  rw [toIClipboard] at h ⊢
  split_ifs at h ⊢ with hempty hnone
  · exact absurd rfl h
  · exact absurd rfl h
  · have hplanes : (1 : UInt16) ≠ 0 := by decide
    rw [request, load_bitmap, Option.map_some, if_neg]
    exact fun hacceptable => hacceptable (.inr (.inr (.inr (.inl hplanes))))

theorem toIClipboard_eq_nil_iff (doToIClipboard : Bytes → Picture) (image : Bytes) :
    toIClipboard doToIClipboard image = [] ↔ NoPicture doToIClipboard image := by
  rw [toIClipboard, NoPicture]
  split_ifs with hempty hnone
  · exact iff_of_true rfl (.inl hempty)
  · exact iff_of_true rfl (.inr hnone)
  · exact iff_of_false (List.cons_ne_nil _ _) (not_or.2 ⟨hempty, hnone⟩)

/-- The encoder gets what the decoder found only where it found nothing. -/
theorem handed_iff (doToIClipboard : Bytes → Picture) (image : Bytes) :
    Handed doToIClipboard image ↔ NoPicture doToIClipboard image := by
  rw [← toIClipboard_eq_nil_iff]
  constructor
  · intro hhanded
    by_contra hne
    have heq := hhanded hne
    rw [request_toIClipboard hne, Option.some_inj] at heq
    cases heq
  · exact fun hnil hne => absurd hnil hne

/-- **When reading does not leave the string.** -/
theorem exists_fromIClipboard_iff (enc : Encoder) (bmp : Bytes) :
    (∃ image, fromIClipboard enc bmp = some image) ↔ Complete enc bmp := by
  by_cases hempty : bmp = []
  · exact iff_of_true ⟨[], if_pos hempty⟩ (.inl hempty)
  rw [fromIClipboard, if_neg hempty, Complete, or_iff_right hempty, ← exists_load_iff, request]
  cases hload : load (storage bmp) with
  | none =>
    refine iff_of_false ?_ ?_
    · rintro ⟨image, himage⟩
      cases himage
    · rintro ⟨⟨info, hinfo⟩, -⟩
      cases hinfo
  | some info =>
    rw [Option.map_some, Option.bind_some]
    split_ifs with hacceptable
    · rw [Option.elim_some, Encoder.run, List.length_drop]
      constructor
      · rintro ⟨image, himage⟩
        split_ifs at himage with hreads
        refine ⟨⟨info, rfl⟩, ?_⟩
        rintro info' ⟨⟩ -
        have hlength := (exists_load_iff (storage bmp)).1 ⟨info, hload⟩
        dsimp only at hreads
        omega
      · rintro ⟨-, hreads⟩
        have hlength := hreads info rfl hacceptable
        exact ⟨_, if_pos (by dsimp only; omega)⟩
    · refine iff_of_true ⟨[], rfl⟩ ⟨⟨info, rfl⟩, ?_⟩
      rintro info' ⟨⟩ hinfo
      exact absurd hinfo hacceptable

end AnyBitmapConverter

namespace Bitmaps

open AnyBitmapConverter

/-- **The conversions**: the file of a bitmap gives the bitmap back; a picture that was converted
reaches the encoder only if there is none; taking a bitmap out of a file throws if and only if the
file says that its pixels begin behind its end; and reading a bitmap for the encoder leaves the
string if and only if something that is read is not there. -/
theorem convert (enc : Encoder) (doToIClipboard : Bytes → Picture) (dib image bmp : Bytes) :
    (40 < dib.length →
      BMPConverter.toIClipboard (BMPConverter.fromIClipboard dib) = some dib) ∧
    (Handed doToIClipboard image ↔ NoPicture doToIClipboard image) ∧
    ((∃ dib, BMPConverter.toIClipboard bmp = some dib) ↔ ¬BMPConverter.OffsetBehind bmp) ∧
    ((∃ image, fromIClipboard enc bmp = some image) ↔ Complete enc bmp) := by
  refine ⟨BMPConverter.toIClipboard_fromIClipboard, handed_iff doToIClipboard image, ?_,
    exists_fromIClipboard_iff enc bmp⟩
  rw [← BMPConverter.toIClipboard_eq_none_iff, ← Option.isSome_iff_exists]
  exact Option.isSome_iff_ne_none

/-- An encoder that writes the pixels as they are, three or four bytes each. -/
def rawEncoder : Encoder where
  reads depth w h := depth.toNat / 8 * (w.toNat * h.toNat)
  image _ pixels _ _ := pixels

/-- A decoder that takes every image for one white pixel. -/
def whiteDecoder (_ : Bytes) : Picture := ⟨[255, 255, 255], 1, 1, 24⟩

/-- A decoder that takes every image for one grey pixel. -/
def greyDecoder (_ : Bytes) : Picture := ⟨[128], 1, 1, 8⟩

/-- A bitmap of two pixels, with `planes` in its header. -/
def twoPixels (planes : UInt8) : Bytes :=
  [40, 0, 0, 0, 2, 0, 0, 0, 1, 0, 0, 0, planes, 0, 24, 0, 0, 0, 0, 0, 8, 0, 0, 0, 0x12, 0x0b, 0, 0,
    0x12, 0x0b, 0, 0, 0, 0, 0, 0, 0, 0, 0, 0] ++ [255, 0, 0, 0, 255, 0, 0, 0]

/-- A file whose pixels do not begin right behind the headers. -/
def shiftedFile : Bytes :=
  [66, 77, 64, 0, 0, 0, 0, 0, 0, 0, 56, 0, 0, 0] ++ (twoPixels 1).take 40 ++ [0, 0] ++
    (twoPixels 1).drop 40

/-- A bitmap comes back from its file, a grey pixel is no picture, the bitmap in another file is
taken out, and the pixels behind a header without planes reach the encoder. -/
theorem convert_twoPixels :
    BMPConverter.toIClipboard (BMPConverter.fromIClipboard (twoPixels 1)) = some (twoPixels 1) ∧
    Handed greyDecoder [137, 80, 78, 71] ∧
      (∃ dib, BMPConverter.toIClipboard shiftedFile = some dib) ∧
      ∃ image, fromIClipboard rawEncoder (twoPixels 0) = some image := by
  have h := convert rawEncoder greyDecoder (twoPixels 1) [137, 80, 78, 71] shiftedFile
  have hpixels := convert rawEncoder greyDecoder (twoPixels 1) [] (twoPixels 0)
  refine ⟨h.1 (by decide), h.2.1.2 (.inr (by decide)), h.2.2.1.2 fun hbehind => ?_,
    hpixels.2.2.2.2 (.inr ⟨by decide, fun info hload _ => ?_⟩)⟩
  · exact absurd hbehind.2.2 (by decide)
  · have hread : load (storage (twoPixels 0)) =
        some ⟨40, 2, 1, 0, 24, 0, 8, 2834, 2834, 0, 0⟩ := by decide
    rw [hread] at hload
    obtain rfl := Option.some.inj hload
    decide

/-- One white pixel is not accepted, a file can say that its pixels are far away, and one byte is no
header. -/
theorem not_convert :
    ¬Handed whiteDecoder [1] ∧
    BMPConverter.toIClipboard (66 :: 77 :: List.replicate 60 255) = none ∧
    fromIClipboard rawEncoder [40] = none := by
  refine ⟨fun hhanded => ?_, by decide, by decide⟩
  have hreq := hhanded (by decide)
  revert hreq
  decide

end Bitmaps

end InputLeap
