import Typeahead.Text

/-!
Percent encoding. A character that may not stand in an address is written as the bytes of its UTF-8
form, each as a percent sign and two hexadecimal digits. Decoding reads such groups back where they
form a character and leaves all else as it is.
-/

namespace Typeahead.Text

/-- A hexadecimal digit in capitals. -/
def hexDigit (n : Nat) : Char := (((Nat.toDigits 16 n).head?).getD '0').toUpper

/-- The value of a hexadecimal digit. -/
def hexValue? (c : Char) : Option Nat :=
  if c.isDigit then some (c.toNat - '0'.toNat)
  else if 'a' ≤ c && c ≤ 'f' then some (c.toNat - 'a'.toNat + 10)
  else if 'A' ≤ c && c ≤ 'F' then some (c.toNat - 'A'.toNat + 10)
  else none

/-- A byte as a percent sign and two digits. -/
def percentByte (b : UInt8) : Text := ['%', hexDigit (b.toNat / 16), hexDigit (b.toNat % 16)]

/-- A character as percent groups. -/
def percentChar (c : Char) : Text := (String.utf8EncodeChar c).flatMap percentByte

/-- Encodes the characters that may not stand as they are. -/
def percentEncode (keep : Char → Bool) (t : Text) : Text :=
  t.flatMap fun c => if keep c then [c] else percentChar c

/-- The bytes of the percent groups that begin a text, at most `count` of them, and their rest. -/
def percentGroups : Nat → Text → List UInt8 × Text
  | n + 1, '%' :: a :: b :: rest =>
    match hexValue? a, hexValue? b with
    | some x, some y =>
      let (bytes, rest) := percentGroups n rest
      (UInt8.ofNat (x * 16 + y) :: bytes, rest)
    | _, _ => ([], '%' :: a :: b :: rest)
  | _, t => ([], t)

/-- The character whose UTF-8 form the bytes are. -/
def utf8Char? (bytes : List UInt8) : Option Char :=
  let low := fun (b : UInt8) => b.toNat % 64
  let n := match bytes with
    | [a] => a.toNat
    | [a, b] => a.toNat % 32 * 64 + low b
    | [a, b, c] => (a.toNat % 16 * 64 + low b) * 64 + low c
    | [a, b, c, d] => ((a.toNat % 8 * 64 + low b) * 64 + low c) * 64 + low d
    | _ => 0
  let c := Char.ofNat n
  if String.utf8EncodeChar c = bytes then some c else none

/-- The character that the percent groups at the start of a text form, and the number of groups. -/
def percentChar? (t : Text) : Option (Char × Nat) :=
  [1, 2, 3, 4].findSome? fun n =>
    let bytes := (percentGroups n t).1
    if bytes.length = n then (utf8Char? bytes).map fun c => (c, n) else none

/-- Decodes from the left; `covered` characters belong to the group just read. -/
def percentDecodeFrom (covered : Nat) : Text → Text
  | [] => []
  | c :: rest =>
    match covered with
    | n + 1 => percentDecodeFrom n rest
    | 0 =>
      match percentChar? (c :: rest) with
      | some (d, n) => d :: percentDecodeFrom (3 * n - 1) rest
      | none => c :: percentDecodeFrom 0 rest

/-- The text with its percent groups read as characters. -/
def percentDecode (t : Text) : Text := percentDecodeFrom 0 t

end Typeahead.Text
