import Typeahead.Lenient
import Typeahead.Text.Blank
import Typeahead.Text.Digit

/-!
Numbers written out in the decimal digits of any script. Blanks around a numeral do not count, single
underscores may stand between digits, and a plus or minus sign may stand in front.
-/

namespace Typeahead.Numeral

/-- A blank that may stand around a numeral: the six of ASCII, and all beyond ASCII. -/
def isPadding (c : Char) : Bool := isAsciiBlank c || (isBlank c && 0x80 ≤ c.toNat)

/-- The text without the blanks around it, its digits in ASCII. -/
def plain (t : Text) : Text :=
  (t.trim isPadding).map fun c =>
    match digitValue? c with
    | some d => Char.ofNat ('0'.toNat + d)
    | none => c

/-- Whether each underscore stands between two digits; `previous` is the character before the text. -/
def isSpacedFrom (previous : Char) : Text → Bool
  | [] => previous != '_'
  | c :: rest =>
    (if c = '_' then previous.isDigit else previous != '_' || c.isDigit) && isSpacedFrom c rest

/-- The text without its underscores, if each stands between two digits. -/
def joined? (t : Text) : Option Text :=
  if isSpacedFrom ' ' t then some (t.filter (· != '_')) else none

/-- The most digits that a whole number may have. -/
def mostDigits : Nat := 4300

/-- A whole number. -/
def int? (t : Text) : Option Int := do
  let bare ← joined? (plain t)
  let (negative, digits) : Bool × Text := match bare with
    | '-' :: rest => (true, rest)
    | '+' :: rest => (false, rest)
    | other => (false, other)
  guard (!digits.isEmpty && digits.all Char.isDigit && digits.length ≤ mostDigits)
  let n : Int := Lenient.digitsValue digits
  return if negative then -n else n

/-- A number with a fraction. -/
def real? (t : Text) : Option Binary64 := (joined? (plain t)).bind Lenient.plainReal?

end Typeahead.Numeral
