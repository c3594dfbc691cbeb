import Typeahead.Text.Blank

/-!
Placeholders of a query: `${name}`, `$name` and `[[name]]`. Before a query is cut into tokens every
placeholder is masked by as many letters `x`, so that it reads as part of a word and no offset moves.

- `length_mask`: masking keeps the length.
-/

namespace Typeahead.Text

/-- The number of leading characters of the class, if `close` follows them. -/
def runUntil (p : Char → Bool) (close : Text) (t : Text) : Option Nat :=
  if close.isPrefixOf (t.dropWhile p) then some (t.takeWhile p).length else none

/-- A character that may stand between the braces of a placeholder. -/
def isBracedNameChar (c : Char) : Bool := c != '{' && c != '}' && !isBlank c

/-- A character that begins a bare placeholder name (ASCII only). -/
def isNameStart (c : Char) : Bool := c.isAlpha || c = '_'

/-- A character that goes on a bare placeholder name (ASCII only). -/
def isNameChar (c : Char) : Bool := c.isAlphanum || c = '_'

/-- A character that may stand in a bracketed placeholder (ASCII only). -/
def isBracketedNameChar (c : Char) : Bool := c.isAlphanum || c = '_' || c = ':' || c = '.'

/-- The length of the placeholder that begins the text; zero if none does. -/
def placeholderLength : Text → Nat
  | '$' :: '{' :: rest =>
    match runUntil isBracedNameChar ['}'] rest with
    | some n => n + 3
    | none => 0
  | '$' :: c :: rest => if isNameStart c then (rest.takeWhile isNameChar).length + 2 else 0
  | '[' :: '[' :: rest =>
    match runUntil isBracketedNameChar [']', ']'] rest with
    | some (n + 1) => n + 5
    | _ => 0
  | _ => 0

/-- Masks from the left; `covered` characters still belong to the placeholder just met. -/
def maskFrom (covered : Nat) : Text → Text
  | [] => []
  | c :: rest =>
    match covered with
    | n + 1 => 'x' :: maskFrom n rest
    | 0 =>
      match placeholderLength (c :: rest) with
      | n + 1 => 'x' :: maskFrom n rest
      | 0 => c :: maskFrom 0 rest

/-- The text with every placeholder written as letters `x`. -/
def mask (t : Text) : Text := maskFrom 0 t

theorem length_maskFrom (covered : Nat) (t : Text) : (maskFrom covered t).length = t.length := by
  induction t generalizing covered with
  | nil => simp [maskFrom]
  | cons c rest ih =>
    cases covered with
    | succ n => simp [maskFrom, ih]
    | zero => simp only [maskFrom]; split <;> simp [ih]

@[simp] theorem length_mask (t : Text) : (mask t).length = t.length := length_maskFrom 0 t

end Typeahead.Text
