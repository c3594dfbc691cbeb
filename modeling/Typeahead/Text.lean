/-!
Texts as sequences of code points. Every offset of the library counts code points, so a slice, a
position and a length are those of a list of characters.

- `slice_append_slice`: neighbouring slices join.
- `occurs_iff`: `occurs` is the infix relation of lists.
- `joinWith_splitOn`: cutting at a separator loses nothing.
-/

namespace Typeahead

/-- A text: one entry a code point. -/
abbrev Text := List Char

namespace Text

/-- The characters from position `start` up to, not including, position `stop`. -/
def slice (t : Text) (start stop : Nat) : Text := (t.take stop).drop start

theorem slice_append_slice (t : Text) {a b c : Nat} (hab : a ≤ b) (hbc : b ≤ c) :
    slice t a b ++ slice t b c = slice t a c := by
  simp only [slice, List.drop_take]
  have split : c - a = (b - a) + (c - b) := by omega
  rw [split, List.take_add, List.drop_drop]
  congr 3
  omega

/-- Whether `needle` stands somewhere in the text. -/
def occurs (needle : Text) : Text → Bool
  | [] => needle.isEmpty
  | c :: rest => needle.isPrefixOf (c :: rest) || occurs needle rest

theorem occurs_iff {needle t : Text} : occurs needle t = true ↔ needle <:+: t := by
  induction t with
  | nil => simp [occurs, List.isEmpty_iff]
  | cons c rest ih => simp [occurs, ih, List.infix_cons_iff]

/-- The text before the first `mark`, and the text after it if `mark` occurs. -/
def cut (mark : Char) : Text → Text × Option Text
  | [] => ([], none)
  | c :: rest =>
    if c = mark then ([], some rest)
    else
      let (before, after) := cut mark rest
      (c :: before, after)

/-- The pieces between the occurrences of `mark`; always at least one. -/
def splitOn (mark : Char) : Text → List Text
  | [] => [[]]
  | c :: rest =>
    if c = mark then [] :: splitOn mark rest
    else match splitOn mark rest with
      | [] => [[c]]
      | piece :: pieces => (c :: piece) :: pieces

/-- The pieces put together again with `glue` between them. -/
def joinWith (glue : Text) : List Text → Text
  | [] => []
  | [piece] => piece
  | piece :: pieces => piece ++ glue ++ joinWith glue pieces

theorem splitOn_ne_nil (mark : Char) (t : Text) : splitOn mark t ≠ [] := by
  cases t with
  | nil => simp [splitOn]
  | cons c rest =>
    simp only [splitOn]
    split
    · simp
    · split <;> simp

theorem joinWith_splitOn (mark : Char) (t : Text) : joinWith [mark] (splitOn mark t) = t := by
  induction t with
  | nil => rfl
  | cons c rest ih =>
    have nonempty := splitOn_ne_nil mark rest
    simp only [splitOn]
    cases h : splitOn mark rest with
    | nil => exact absurd h nonempty
    | cons piece pieces =>
      rw [h] at ih
      split
      · next hc => subst hc; simp [joinWith, ih]
      · cases pieces <;> simp_all [joinWith]

/-- Drops the leading characters of a class. -/
def trimLeft (p : Char → Bool) (t : Text) : Text := t.dropWhile p

/-- Drops the trailing characters of a class. -/
def trimRight (p : Char → Bool) (t : Text) : Text := (t.reverse.dropWhile p).reverse

/-- Drops the characters of a class at both ends. -/
def trim (p : Char → Bool) (t : Text) : Text := trimRight p (trimLeft p t)

/-- The longest run of characters of a class that ends the text. -/
def trailing (p : Char → Bool) (t : Text) : Text := (t.reverse.takeWhile p).reverse

theorem trailing_suffix (p : Char → Bool) (t : Text) : trailing p t <:+ t := by
  have run := List.reverse_suffix.2 (List.takeWhile_prefix p (l := t.reverse))
  rwa [List.reverse_reverse] at run

theorem trimRight_append_trailing (p : Char → Bool) (t : Text) : trimRight p t ++ trailing p t = t := by
  rw [trimRight, trailing, ← List.reverse_append, List.takeWhile_append_dropWhile, List.reverse_reverse]

/-- Order by code points, the shorter of two texts first where one begins the other. -/
def le : Text → Text → Bool
  | [], _ => true
  | _ :: _, [] => false
  | a :: s, b :: t => if a = b then le s t else decide (a < b)

/-- The texts in order of code points, each once. -/
def sorted (ts : List Text) : List Text := (ts.mergeSort le).eraseDups

/-- The text as a string, for printing. -/
abbrev toString (t : Text) : String := String.ofList t

end Text

end Typeahead
