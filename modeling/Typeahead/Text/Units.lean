import Typeahead.Text.Line

/-!
Offsets in UTF-16 code units, as editors report them. A character beyond the basic plane takes two
units, every other character one.
-/

namespace Typeahead

/-- The number of UTF-16 code units of a character. -/
def unitWidth (c : Char) : Nat := if c.toNat > 0xFFFF then 2 else 1

namespace Text

/-- The number of UTF-16 code units of a text. -/
def units : Text → Nat
  | [] => 0
  | c :: rest => unitWidth c + units rest

/-- The offset in code units of a position. -/
def toUnits (t : Text) (position : Int) : Nat := units (t.take (clamp t position))

/-- Counts on from `passed` units: the first position at which `offset` units have passed. -/
def positionFrom (offset : Int) (passed : Nat) : Text → Nat
  | [] => 0
  | c :: rest => if offset ≤ passed then 0 else positionFrom offset (passed + unitWidth c) rest + 1

/-- The first position that has at least `offset` code units before it, or the end of the text. -/
def ofUnits (t : Text) (offset : Int) : Nat := positionFrom offset 0 t

end Text

end Typeahead
