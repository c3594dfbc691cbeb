import Typeahead.Text

/-!
Lines of a text. A cursor may be any integer; it is first moved into the text. The line of a cursor
reaches from the character after the last line break before it to the next line break.
-/

namespace Typeahead

/-- A line of a text together with the offset of its first character. -/
structure Line where
  text : Text
  offset : Nat
  deriving DecidableEq, Repr

namespace Text

/-- The nearest position inside the text. -/
def clamp (t : Text) (cursor : Int) : Nat := min cursor.toNat t.length

theorem clamp_le (t : Text) (cursor : Int) : clamp t cursor ≤ t.length := Nat.min_le_right _ _

theorem clamp_of_le (t : Text) {n : Nat} (h : n ≤ t.length) : clamp t n = n := by
  simp [clamp, h]

/-- Whether a character is no line break. -/
def insideLine (c : Char) : Bool := c != '\n'

/-- The line that holds the cursor. -/
def lineAt (t : Text) (cursor : Nat) : Line where
  text := trailing insideLine (t.take cursor) ++ (t.drop cursor).takeWhile insideLine
  offset := (t.take cursor).length - (trailing insideLine (t.take cursor)).length

/-- The line that holds the cursor, wherever the cursor points. -/
def locate (t : Text) (cursor : Int) : Line := lineAt t (clamp t cursor)

end Text

end Typeahead
