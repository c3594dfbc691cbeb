import Typeahead.Json

/-!
Reading JSON. Besides the standard's grammar the three names `NaN`, `Infinity` and `-Infinity` are
read as numbers. A lone half of a surrogate pair is read as the replacement character.
-/

namespace Typeahead.Json

namespace Parser

/-- A blank between the parts of a document. -/
def isGap (c : Char) : Bool := c = ' ' || c = '\t' || c = '\n' || c = '\r'

/-- The value of a hexadecimal digit. -/
def hexValue? (c : Char) : Option Nat :=
  if c.isDigit then some (c.toNat - '0'.toNat)
  else if 'a' ≤ c && c ≤ 'f' then some (c.toNat - 'a'.toNat + 10)
  else if 'A' ≤ c && c ≤ 'F' then some (c.toNat - 'A'.toNat + 10)
  else none

/-- The code unit that four hexadecimal digits name. -/
def unit? (a b c d : Char) : Option Nat := do
  return (((← hexValue? a) * 16 + (← hexValue? b)) * 16 + (← hexValue? c)) * 16 + (← hexValue? d)

/-- The character of a short escape. -/
def escape? : Char → Option Char
  | '"' => some '"'
  | '\\' => some '\\'
  | '/' => some '/'
  | 'b' => some '\x08'
  | 'f' => some '\x0c'
  | 'n' => some '\n'
  | 'r' => some '\r'
  | 't' => some '\t'
  | _ => none

/-- Whether a code unit is the first half of a surrogate pair. -/
def isHigh (n : Nat) : Bool := 0xD800 ≤ n && n < 0xDC00

/-- Whether a code unit is the second half of a surrogate pair. -/
def isLow (n : Nat) : Bool := 0xDC00 ≤ n && n < 0xE000

/-- The replacement character for a first half that no second half follows. -/
def lone (high : Option Nat) : Text := if high.isSome then [Char.ofNat 0xFFFD] else []

/-- Reads the rest of a string after its opening quote. `high` is the first half of a surrogate pair
just read. -/
def string (high : Option Nat) : Text → Option (Text × Text)
  | [] => none
  | '"' :: rest => some (lone high, rest)
  | '\\' :: 'u' :: a :: b :: c :: d :: rest => do
    let n ← unit? a b c d
    if isHigh n then
      let (more, rest) ← string (some n) rest
      return (lone high ++ more, rest)
    else
      let (more, rest) ← string none rest
      match high with
      | some h =>
        if isLow n then
          return (Char.ofNat (0x10000 + (h - 0xD800) * 0x400 + (n - 0xDC00)) :: more, rest)
        else return (lone high ++ Char.ofNat n :: more, rest)
      | none => return ((if isLow n then Char.ofNat 0xFFFD else Char.ofNat n) :: more, rest)
  | '\\' :: c :: rest => do
    let e ← escape? c
    let (more, rest) ← string none rest
    return (lone high ++ e :: more, rest)
  | c :: rest => do
    if c.toNat < 0x20 || c = '\\' then none
    else
      let (more, rest) ← string none rest
      return (lone high ++ c :: more, rest)

/-- The number that decimal digits write. -/
def digitsValue (digits : Text) : Nat :=
  digits.foldl (fun n c => n * 10 + (c.toNat - '0'.toNat)) 0

/-- The fraction after a numeral: its digits, and the rest. Without a digit after the point there is
no fraction. -/
def fraction : Text → Text × Text
  | '.' :: rest =>
    match rest.takeWhile Char.isDigit with
    | [] => ([], '.' :: rest)
    | digits => (digits, rest.dropWhile Char.isDigit)
  | rest => ([], rest)

/-- The sign and digits that go on an exponent. -/
def signed? (t : Text) : Option (Int × Text) :=
  let (negative, t) : Bool × Text := match t with
    | '-' :: rest => (true, rest)
    | '+' :: rest => (false, rest)
    | rest => (false, rest)
  match t.takeWhile Char.isDigit with
  | [] => none
  | digits =>
    let n : Int := digitsValue digits
    some (if negative then -n else n, t.dropWhile Char.isDigit)

/-- The exponent after a numeral, if there is a whole one. -/
def exponent? : Text → Option (Int × Text)
  | c :: rest => if c = 'e' || c = 'E' then signed? rest else none
  | [] => none

/-- Reads the digits of a number after its sign. -/
def unsigned (negative : Bool) (t : Text) : Option (Number × Text) :=
  let whole := match t with
    | '0' :: _ => ['0']
    | _ => t.takeWhile Char.isDigit
  if whole.isEmpty then none
  else
    let (places, rest) := fraction (t.drop whole.length)
    match places, exponent? rest with
    | [], none =>
      let n : Int := digitsValue whole
      some (.whole (if negative then -n else n), rest)
    | _, e =>
      let (shift, rest) := e.getD (0, rest)
      some (.real (.ofDecimal negative (digitsValue (whole ++ places)) (shift - places.length)), rest)

/-- Reads a keyword or a number. -/
def scalar (t : Text) : Option (Json × Text) :=
  let keyword := fun (word : String) (value : Json) =>
    if word.toList.isPrefixOf t then some (value, t.drop word.length) else none
  keyword "null" .null <|> keyword "true" (.bool true) <|> keyword "false" (.bool false) <|>
  keyword "NaN" (.number (.real .undefined)) <|>
  keyword "Infinity" (.number (.real (.infinite false))) <|>
  keyword "-Infinity" (.number (.real (.infinite true))) <|>
  (match t with
    | '-' :: rest => unsigned true rest
    | rest => unsigned false rest).map fun (n, rest) => (.number n, rest)

mutual

/-- Reads a value; blanks before it are skipped. `depth` bounds the number of parts. -/
def value (depth : Nat) (t : Text) : Option (Json × Text) :=
  match depth with
  | 0 => none
  | depth + 1 =>
    match t.dropWhile isGap with
    | '"' :: rest => (string none rest).map fun (s, rest) => (.text s, rest)
    | '[' :: rest =>
      match rest.dropWhile isGap with
      | ']' :: rest => some (.list [], rest)
      | rest => (items depth rest).map fun (xs, rest) => (.list xs, rest)
    | '{' :: rest =>
      match rest.dropWhile isGap with
      | '}' :: rest => some (.object [], rest)
      | rest => (members depth [] rest).map fun (fields, rest) => (.object fields, rest)
    | rest => scalar rest

/-- Reads the items of a list up to its closing bracket. -/
def items (depth : Nat) (t : Text) : Option (List Json × Text) :=
  match depth with
  | 0 => none
  | depth + 1 => do
    let (x, rest) ← value depth t
    match rest.dropWhile isGap with
    | ']' :: rest => return ([x], rest)
    | ',' :: rest =>
      let (xs, rest) ← items depth rest
      return (x :: xs, rest)
    | _ => none

/-- Reads the fields of an object up to its closing brace; `fields` were read before. -/
def members (depth : Nat) (fields : List (Text × Json)) (t : Text) :
    Option (List (Text × Json) × Text) :=
  match depth with
  | 0 => none
  | depth + 1 => do
    let '"' :: rest := t.dropWhile isGap | none
    let (name, rest) ← string none rest
    let ':' :: rest := rest.dropWhile isGap | none
    let (x, rest) ← value depth rest
    let fields := setField name x fields
    match rest.dropWhile isGap with
    | '}' :: rest => return (fields, rest)
    | ',' :: rest => members depth fields rest
    | _ => none

end

end Parser

/-- Reads a document: one value and nothing but blanks around it. -/
def parse? (t : Text) : Option Json := do
  let (x, rest) ← Parser.value (t.length + 1) t
  guard (rest.all Parser.isGap)
  return x

end Typeahead.Json
