import Typeahead.Text

/-!
Blank characters: the characters that separate words, in all scripts. Besides the ASCII blanks these
are the four information separators U+001C to U+001F, the next-line character U+0085, the no-break
space U+00A0 and the blanks of the general punctuation block. The zero-width space is not blank.

- `isBlank_of_isWhitespace`: every blank of the core library is blank here.
-/

namespace Typeahead

/-- Whether a character is blank. -/
def isBlank (c : Char) : Bool :=
  let n := c.toNat
  (9 ≤ n && n ≤ 13) || (28 ≤ n && n ≤ 32) || n = 0x85 || n = 0xA0 || n = 0x1680 ||
  (0x2000 ≤ n && n ≤ 0x200A) || n = 0x2028 || n = 0x2029 || n = 0x202F || n = 0x205F || n = 0x3000

theorem isBlank_of_isWhitespace {c : Char} (h : c.isWhitespace = true) : isBlank c = true := by
  simp only [Char.isWhitespace, Bool.or_eq_true, decide_eq_true_eq] at h
  rcases h with ((h | h) | h) | h <;> subst h <;> decide

/-- Whether a character is one of the six ASCII blanks. -/
def isAsciiBlank (c : Char) : Bool := c = ' ' || (9 ≤ c.toNat && c.toNat ≤ 13)

namespace Text

/-- The text without the blanks around it. -/
def strip (t : Text) : Text := trim isBlank t

/-- Whether the text has a character that is not blank. -/
def hasInk (t : Text) : Bool := t.any fun c => !isBlank c

/-- The stripped text, or nothing where only blanks stand. -/
def stripped? (t : Text) : Option Text :=
  match strip t with
  | [] => none
  | c :: rest => some (c :: rest)

end Text

end Typeahead
