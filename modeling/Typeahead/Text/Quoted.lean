import Typeahead.Text.WordChar

/-!
Texts in single quotes, as error messages show them. A text with an apostrophe and no double quote is
put in double quotes instead. Backslashes, the quote itself and characters that cannot be seen are
escaped: control and format characters, blanks other than the space, private characters, and those
that no script uses.
-/

namespace Typeahead

/-- The inclusive ranges of characters that cannot be seen. -/
def unseenRanges : List (Nat × Nat) := [
  (0x0, 0x1F), (0x7F, 0xA0), (0xAD, 0xAD), (0x600, 0x605), (0x61C, 0x61C), (0x6DD, 0x6DD),
  (0x70F, 0x70F), (0x890, 0x891), (0x8E2, 0x8E2), (0x1680, 0x1680), (0x180E, 0x180E),
  (0x2000, 0x200F), (0x2028, 0x202F), (0x205F, 0x2064), (0x2066, 0x206F), (0x3000, 0x3000),
  (0xE000, 0xF8FF), (0xFDD0, 0xFDEF), (0xFEFF, 0xFEFF), (0xFFF9, 0xFFFB), (0xFFFE, 0xFFFF),
  (0x110BD, 0x110BD), (0x110CD, 0x110CD), (0x13430, 0x13438), (0x1BCA0, 0x1BCA3), (0x1D173, 0x1D17A),
  (0x1FFFE, 0x1FFFF), (0x2FFFE, 0x2FFFF), (0x3FFFE, 0xE00FF), (0xE01F0, 0x10FFFF)]

namespace Text

/-- A number in hexadecimal with at least `width` digits. -/
def hex (width n : Nat) : Text :=
  let digits := Nat.toDigits 16 n
  List.replicate (width - digits.length) '0' ++ digits

/-- A character inside quotes. -/
def quotedChar (quote c : Char) : Text :=
  if c = quote || c = '\\' then ['\\', c]
  else if c = '\n' then ['\\', 'n']
  else if c = '\r' then ['\\', 'r']
  else if c = '\t' then ['\\', 't']
  else if inRanges unseenRanges c.toNat then
    if c.toNat < 0x100 then '\\' :: 'x' :: hex 2 c.toNat
    else if c.toNat < 0x10000 then '\\' :: 'u' :: hex 4 c.toNat
    else '\\' :: 'U' :: hex 8 c.toNat
  else [c]

/-- The quote that a text is put in. -/
def quoteOf (t : Text) : Char :=
  let apostrophe := Char.ofNat 0x27
  if t.contains apostrophe && !t.contains '"' then '"' else apostrophe

/-- The text in quotes. -/
def quoted (t : Text) : Text := quoteOf t :: t.flatMap (quotedChar (quoteOf t)) ++ [quoteOf t]

end Text

end Typeahead
