import Typeahead.Text.Blank

/-!
How values are written in a query, so that they read as one value. In a metrics filter every character
that would end the value gets a backslash before it. In a logs query a value with such a character is
put in quotes, where quotes and backslashes get a backslash before them.

- `unescape_escapeTagValue`, `unescape_escapeQuoted`: taking the backslashes away again gives the value.
-/

namespace Typeahead

/-- Whether a character has a meaning of its own in a metrics filter. -/
def isFilterMark (c : Char) : Bool :=
  isBlank c || c = ',' || c = '{' || c = '}' || c = '(' || c = ')' || c = '"' || c = '\\'

/-- Whether a character has a meaning of its own in a logs query. -/
def isFacetMark (c : Char) : Bool :=
  isBlank c || c = '(' || c = ')' || c = ':' || c = '"' || c = '\\'

/-- Puts a backslash before every character of a class. -/
def escapeWith (mark : Char → Bool) : Text → Text
  | [] => []
  | c :: rest => if mark c then '\\' :: c :: escapeWith mark rest else c :: escapeWith mark rest

/-- Takes backslashes away from left to right, keeping what follows each. -/
def unescape : Text → Text
  | [] => []
  | '\\' :: c :: rest => c :: unescape rest
  | c :: rest => c :: unescape rest

theorem unescape_escapeWith {mark : Char → Bool} (h : mark '\\' = true) (t : Text) :
    unescape (escapeWith mark t) = t := by
  induction t with
  | nil => rfl
  | cons c rest ih =>
    by_cases hc : mark c = true
    · simp [escapeWith, hc, unescape, ih]
    · have plain : c ≠ '\\' := fun e => hc (e ▸ h)
      simp [escapeWith, hc, unescape, plain, ih]

/-- A value as it is written in a metrics filter. -/
def escapeTagValue (value : Text) : Text := escapeWith isFilterMark value

/-- The body of a quoted value. -/
def escapeQuoted (value : Text) : Text := escapeWith (fun c => c = '\\' || c = '"') value

/-- A value as it is written in a logs query. -/
def quoteFacetValue (value : Text) : Text :=
  if value.any isFacetMark then '"' :: escapeQuoted value ++ ['"'] else value

theorem unescape_escapeTagValue (value : Text) : unescape (escapeTagValue value) = value :=
  unescape_escapeWith (by decide) value

theorem unescape_escapeQuoted (value : Text) : unescape (escapeQuoted value) = value :=
  unescape_escapeWith (by decide) value

end Typeahead
