import Ticketing.Lib.Json
import Ticketing.Lib.Utf8

/-!
# JSON from bytes: `json.loads(data)`

`json.loads` guesses the encoding of its bytes and decodes them.

* `decodeJson` is `data.decode(json.detect_encoding(data), "surrogatepass")`: a byte order mark
  decides, else the zeros among the first four bytes. A surrogate that is no half of a pair is let
  through, and read as U+FFFD (`Lib/Utf8.lean`). `none` is a `UnicodeDecodeError`.
* `Json.loadsBytes` reads the decoded text (`Lib/Json.lean`). `none` is a `ValueError`, whether of
  the decoder or of the reader.

Result:
* `decodeJson_object`: bytes that begin with `{"` are taken for UTF-8, whatever follows.
-/

namespace Ticketing.Lib

namespace Encoding

/-- The 16-bit units of `data`, with their bytes in the order of `little`. -/
def units (little : Bool) : List UInt8 → Option (List Nat)
  | [] => some []
  | [_] => none
  | a :: b :: rest =>
    (units little rest).map fun us =>
      (if little then b.toNat * 256 + a.toNat else a.toNat * 256 + b.toNat) :: us

/-- The text of 16-bit units; a surrogate that is not half of a pair stands for itself. -/
def joinSurrogates : List Nat → List Char
  | [] => []
  | [u] => [Utf8.character u]
  | u :: v :: rest =>
    if 0xD800 ≤ u ∧ u ≤ 0xDBFF ∧ 0xDC00 ≤ v ∧ v ≤ 0xDFFF then
      Utf8.character (0x10000 + (u - 0xD800) * 0x400 + (v - 0xDC00)) :: joinSurrogates rest
    else Utf8.character u :: joinSurrogates (v :: rest)

def utf16 (little : Bool) (data : List UInt8) : Option (List Char) :=
  (units little data).map joinSurrogates

def utf32 (little : Bool) : List UInt8 → Option (List Char)
  | a :: b :: c :: d :: rest =>
    let n :=
      if little then ((d.toNat * 256 + c.toNat) * 256 + b.toNat) * 256 + a.toNat
      else ((a.toNat * 256 + b.toNat) * 256 + c.toNat) * 256 + d.toNat
    if n ≤ 0x10FFFF then (utf32 little rest).map (Utf8.character n :: ·) else none
  | [] => some []
  | _ => none

def utf8 (data : List UInt8) : Option (List Char) := Utf8.decodeAll true data

/-- `data.decode(json.detect_encoding(data), "surrogatepass")`. -/
def decodeJson (data : List UInt8) : Option (List Char) :=
  match data with
  | 0x00 :: 0x00 :: 0xFE :: 0xFF :: rest => utf32 false rest
  | 0xFF :: 0xFE :: 0x00 :: 0x00 :: rest => utf32 true rest
  | 0xFE :: 0xFF :: rest => utf16 false rest
  | 0xFF :: 0xFE :: rest => utf16 true rest
  | 0xEF :: 0xBB :: 0xBF :: rest => utf8 rest
  | a :: b :: c :: d :: _ =>
    if a = 0 then if b = 0 then utf32 false data else utf16 false data
    else if b = 0 then if c = 0 ∧ d = 0 then utf32 true data else utf16 true data
    else utf8 data
  | [a, b] =>
    if a = 0 then utf16 false data else if b = 0 then utf16 true data else utf8 data
  | _ => utf8 data

/-- An object's text with a key is taken for UTF-8. -/
theorem decodeJson_object (data : List UInt8) :
    decodeJson (0x7B :: 0x22 :: data) = utf8 (0x7B :: 0x22 :: data) := by
  rcases data with _ | ⟨c, _ | ⟨d, rest⟩⟩
  · rfl
  · rfl
  · rfl

end Encoding

/-- `json.loads(data)`. -/
def Json.loadsBytes (data : List UInt8) : Option Json :=
  (Encoding.decodeJson data).bind fun text => Json.loads (String.ofList text)

end Ticketing.Lib
