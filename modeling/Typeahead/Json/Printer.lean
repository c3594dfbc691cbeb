import Typeahead.Json

/-!
Writing JSON without blanks. A binary64 value without a fraction is written as a whole number.
-/

namespace Typeahead.Json

namespace Printer

/-- A hexadecimal digit. -/
def hexDigit (n : Nat) : Char := ((Nat.toDigits 16 n).head?).getD '0'

/-- A character inside a string. -/
def character (c : Char) : String :=
  match c with
  | '"' => "\\\""
  | '\\' => "\\\\"
  | '\n' => "\\n"
  | '\r' => "\\r"
  | '\t' => "\\t"
  | c =>
    if c.toNat < 0x20 || c.toNat = 0x7F then
      "\\u00" ++ String.ofList [hexDigit (c.toNat / 16), hexDigit (c.toNat % 16)]
    else c.toString

/-- A quoted string. -/
def string (t : Text) : String := "\"" ++ String.join (t.map character) ++ "\""

/-- A number. -/
def number : Number → String
  | .whole n => toString n
  | .real (.finite x) => if x.den = 1 then toString x.num else (Number.real (.finite x)).text
  | .real (.infinite negative) => if negative then "-Infinity" else "Infinity"
  | .real .undefined => "NaN"

end Printer

mutual

/-- The value as a document. -/
def print : Json → String
  | .null => "null"
  | .bool b => if b then "true" else "false"
  | .number n => Printer.number n
  | .text t => Printer.string t
  | .list items => "[" ++ ",".intercalate (printItems items) ++ "]"
  | .object fields => "\x7b" ++ ",".intercalate (printFields fields) ++ "\x7d"

/-- The items of a list. -/
def printItems : List Json → List String
  | [] => []
  | x :: rest => x.print :: printItems rest

/-- The fields of an object. -/
def printFields : List (Text × Json) → List String
  | [] => []
  | (name, x) :: rest => (Printer.string name ++ ":" ++ x.print) :: printFields rest

end

end Typeahead.Json
