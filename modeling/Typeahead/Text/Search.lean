import Typeahead.Text.Blank
import Typeahead.Text.WordChar

/-!
Searching a text for words. A word stands in a text where no word character touches it on either
side. Letters may be compared exactly or without regard to case; the latter also takes the dotless and
the dotted Turkish `i` for an `i`, the long `s` for an `s`, and the sign of the unit kelvin for a `k`.
-/

namespace Typeahead

/-- Whether a character is the small ASCII letter, sign or digit `p`, in any case. -/
def sameIgnoringCase (p c : Char) : Bool :=
  c.toLower = p || [('i', 0x130), ('i', 0x131), ('s', 0x17F), ('k', 0x212A)].contains (p, c.toNat)

/-- Whether a character is exactly `p`. -/
def sameExactly (p c : Char) : Bool := c = p

namespace Text

/-- What follows the pattern, if the text begins with it. -/
def after? (same : Char → Char → Bool) : Text → Text → Option Text
  | [], t => some t
  | _ :: _, [] => none
  | p :: pattern, c :: rest => if same p c then after? same pattern rest else none

/-- Whether the text goes on with a word character. -/
def beginsWord : Text → Bool
  | [] => false
  | c :: _ => isWordChar c

/-- Whether `p` holds of some end of the text, the character before it given. -/
def someEnd (p : Option Char → Text → Bool) (previous : Option Char) : Text → Bool
  | [] => p previous []
  | c :: rest => p previous (c :: rest) || someEnd p (some c) rest

/-- Whether one of the words stands in the text. -/
def hasWord (same : Char → Char → Bool) (words : List Text) (t : Text) : Bool :=
  someEnd (fun previous rest =>
    !(previous.any isWordChar) &&
      words.any fun word => (after? same word rest).any fun next => !beginsWord next) none t

/-- Whether the pattern stands somewhere in the text. -/
def hasPattern (same : Char → Char → Bool) (pattern t : Text) : Bool :=
  someEnd (fun _ rest => (after? same pattern rest).isSome) none t

/-- Whether the pattern stands somewhere in the text with no word character before it. -/
def hasPatternAtWordStart (same : Char → Char → Bool) (pattern t : Text) : Bool :=
  someEnd (fun previous rest => !(previous.any isWordChar) && (after? same pattern rest).isSome) none t

end Text

end Typeahead
