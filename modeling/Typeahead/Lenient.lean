import Typeahead.Number
import Typeahead.Text

/-!
Numbers and truth values read from texts, leniently. Blanks around a number do not count, single
underscores may stand between digits, and a whole number may end in a point and zeros.
-/

namespace Typeahead.Lenient

/-- The blanks that may stand around a number or an address. -/
def isSpace (c : Char) : Bool :=
  let n := c.toNat
  (9 ≤ n && n ≤ 13) || n = 32 || n = 0x85 || n = 0xA0 || n = 0x1680 || (0x2000 ≤ n && n ≤ 0x200A) ||
    n = 0x2028 || n = 0x2029 || n = 0x202F || n = 0x205F || n = 0x3000

/-- The number that decimal digits write. -/
def digitsValue (digits : Text) : Nat :=
  digits.foldl (fun n c => n * 10 + (c.toNat - '0'.toNat)) 0

/-- A text without its underscores, if it has some and each stands alone inside it. -/
def withoutUnderscores? (t : Text) : Option Text :=
  if t.head? = some '_' || t.getLast? = some '_' || !t.contains '_' || Text.occurs ['_', '_'] t then
    none
  else some (t.filter (· != '_'))

/-- A plain numeral: a minus sign perhaps, and digits without a zero in front. -/
def plainInt? (t : Text) : Option Int :=
  let (negative, digits) : Bool × Text := match t with
    | '-' :: rest => (true, rest)
    | other => (false, other)
  if digits.isEmpty || !digits.all Char.isDigit || (digits.head? = some '0' && digits.length > 1) then
    none
  else
    let n : Int := digitsValue digits
    some (if negative then -n else n)

/-- Drops zeros in front, and underscores between them, but keeps one zero before a point or where all
digits are zeros. None if something else than a numeral stands there. -/
def dropZeros (previous : Char) : Text → Option Text
  | [] => some [previous]
  | c :: rest =>
    if c = '0' then dropZeros c rest
    else if c = '_' then if previous = '_' then none else dropZeros c rest
    else if c.isDigit then some (c :: rest)
    else if c = '.' then some (previous :: c :: rest)
    else none

/-- Drops a point and zeros at the end. -/
def dropFraction (t : Text) : Text :=
  match t.cut '.' with
  | (whole, some zeros) => if zeros.all (· = '0') then whole else t
  | (_, none) => t

/-- A numeral tidied up so that it can be a plain one: without blanks around, a plus sign, zeros in
front, a fraction of zeros, and underscores. None if nothing could be tidied. -/
def tidied? (t : Text) : Option Text := do
  let bare := Text.trim isSpace t
  let unsigned ← match bare with
    | '+' :: '-' :: _ => none
    | '+' :: rest => some rest
    | other => some other
  let numeral ← match unsigned with
    | [] => none
    | '0' :: rest => dropZeros '0' rest
    | c :: rest => if c.isDigit || c = '-' then some (c :: rest) else none
  let whole := dropFraction numeral
  match withoutUnderscores? whole with
  | some tidy => return tidy
  | none => if whole.length = t.length then none else return whole

/-- A whole number. -/
def int? (t : Text) : Option Int := plainInt? t <|> (tidied? t).bind plainInt?

/-- A binary64 numeral without blanks and underscores. -/
def plainReal? (t : Text) : Option Binary64 :=
  let (negative, body) : Bool × Text := match t with
    | '-' :: rest => (true, rest)
    | '+' :: rest => (false, rest)
    | other => (false, other)
  let small := body.map Char.toLower
  if small = "inf".toList || small = "infinity".toList then some (.infinite negative)
  else if small = "nan".toList then some .undefined
  else
    let whole := body.takeWhile Char.isDigit
    let rest := body.dropWhile Char.isDigit
    let (places, rest) : Text × Text := match rest with
      | '.' :: more => (more.takeWhile Char.isDigit, more.dropWhile Char.isDigit)
      | other => ([], other)
    if whole.isEmpty && places.isEmpty then none
    else
      let value := fun shift : Int =>
        Binary64.ofDecimal negative (digitsValue (whole ++ places)) (shift - places.length)
      match rest with
      | [] => some (value 0)
      | e :: power =>
        if e != 'e' && e != 'E' then none
        else
          let (down, digits) : Bool × Text := match power with
            | '-' :: more => (true, more)
            | '+' :: more => (false, more)
            | other => (false, other)
          if digits.isEmpty || !digits.all Char.isDigit then none
          else
            let shift : Int := digitsValue digits
            some (value (if down then -shift else shift))

/-- A binary64 number. -/
def real? (t : Text) : Option Binary64 :=
  let bare := Text.trim isSpace t
  plainReal? bare <|> (withoutUnderscores? bare).bind plainReal?

/-- A truth value. -/
def bool? (t : Text) : Option Bool :=
  let small := Text.toString (t.map Char.toLower)
  if ["1", "true", "t", "yes", "y", "on"].contains small then some true
  else if ["0", "false", "f", "no", "n", "off"].contains small then some false
  else none

end Typeahead.Lenient
