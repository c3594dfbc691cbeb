import Typeahead.Proofs.Metrics.Pairs

/-!
Metrics queries whose filter gives values to keys, where a value is one that was escaped when it was inserted,
or a placeholder.

- `TagValue`: such a value.
- `TagValue.mask_append`, `TagValue.units_mask`: what is masked of a value.
- `Assigned.contextOf_value`: what is typed in a value.
-/

namespace Typeahead.Metrics

open Lexer

/-- A value as it stands in a filter. -/
inductive TagValue where
  | escaped (value : Text) (filled : value ≠ []) (inLine : value.all Text.insideLine = true)
  | bare (first : Char) (more : Text) (begins : Text.isNameStart first = true)
    (chars : more.all Text.isNameChar = true)
  | braced (name : Text) (chars : name.all Text.isBracedNameChar = true)

namespace TagValue

variable (v : TagValue)

/-- How a value is written. -/
def text : TagValue → Text
  | escaped value .. => escapeTagValue value
  | bare first more .. => '$' :: first :: more
  | braced name _ => '$' :: '{' :: (name ++ ['}'])

theorem units_text : (∃ name chars, v = braced name chars) ∨ Units isValueChar v.text := by
  cases v with
  | braced name chars => exact .inl ⟨name, chars, rfl⟩
  | escaped value filled inLine =>
    exact .inr (units_escapeWith (fun c _ => isValueChar_of_unmarked) (by decide) (List.all_eq_true.1 inLine))
  | bare first more begins chars =>
    have plain {c : Char} (named : Text.isNameChar c = true) : isValueChar c = true ∧ c ≠ '\\' := by
      have simple : isSimpleChar c = true := by
        simp only [Text.isNameChar, Bool.or_eq_true, decide_eq_true_eq] at named
        rcases named with alphanumeric | rfl
        · simp [isSimpleChar, alphanumeric]
        · decide
      obtain ⟨plain, -⟩ := plain_of_isSimpleChar simple
      refine ⟨by simp [isValueChar, plain], ?_⟩
      rintro rfl
      revert plain
      decide
    exact .inr (.of_forall (List.forall_mem_cons.2 ⟨by decide, List.forall_mem_cons.2
      ⟨plain (Text.isNameChar_of_isNameStart begins), fun c mem => plain (List.all_eq_true.1 chars c mem)⟩⟩))

/-- A placeholder in braces is masked as a whole. -/
theorem mask_braced {name : Text} (chars : ∀ c ∈ name, Text.isBracedNameChar c = true) (b : Text) :
    Text.mask ('$' :: '{' :: (name ++ ['}']) ++ b) =
      List.replicate (name.length + 3) 'x' ++ Text.mask b := by
  have run : Text.runUntil Text.isBracedNameChar ['}'] (name ++ '}' :: b) = some name.length := by
    have stops : ('}' :: b).takeWhile Text.isBracedNameChar = [] := rfl
    have left : ('}' :: b).dropWhile Text.isBracedNameChar = '}' :: b := rfl
    rw [Text.runUntil, List.takeWhile_append_of_pos chars, List.dropWhile_append_of_pos chars, stops, left]
    simp
  have length : Text.placeholderLength ('$' :: '{' :: (name ++ ['}']) ++ b) =
      ('$' :: '{' :: (name ++ ['}'])).length := by
    have split : '$' :: '{' :: (name ++ ['}']) ++ b = '$' :: '{' :: (name ++ '}' :: b) := by simp
    simp [split, Text.placeholderLength, run]
  rw [Text.mask_placeholder b length]
  simp

/-- A value is masked for itself. -/
theorem mask_append {b : Text} (ends : Ends b) :
    Text.mask (v.text ++ b) = Text.mask v.text ++ Text.mask b := by
  rcases v.units_text with ⟨name, chars, rfl⟩ | units
  · have alone := mask_braced (List.all_eq_true.1 chars) []
    have whole := mask_braced (List.all_eq_true.1 chars) b
    rw [List.append_nil] at alone
    change Text.mask ('$' :: '{' :: (name ++ ['}']) ++ b) = Text.mask ('$' :: '{' :: (name ++ ['}'])) ++ _
    rw [whole, alone]
    simp [Text.mask, Text.maskFrom]
  · exact mask_append_of_units units ends

/-- Masked a value is made of single characters and escape pairs. -/
theorem units_mask : Units isValueChar (Text.mask v.text) := by
  rcases v.units_text with ⟨name, chars, rfl⟩ | units
  · have alone := mask_braced (List.all_eq_true.1 chars) []
    rw [List.append_nil] at alone
    change Units isValueChar (Text.mask ('$' :: '{' :: (name ++ ['}'])))
    rw [alone]
    refine .of_forall fun c mem => ?_
    obtain rfl : c = 'x' := by simpa [Text.mask, Text.maskFrom] using mem
    decide
  · exact units.mask (by decide)

/-- No value ends the line. -/
theorem inside (c : Char) (mem : c ∈ v.text) : Text.insideLine c = true := by
  cases v with
  | escaped value filled inLine =>
    rcases mem_escapeWith mem with rfl | among
    · decide
    · exact List.all_eq_true.1 inLine c among
  | bare first more begins chars =>
    have named {c : Char} (named : Text.isNameChar c = true) : Text.insideLine c = true := by
      rw [Text.insideLine, bne_iff_ne]
      rintro rfl
      revert named
      decide
    simp only [text, List.mem_cons] at mem
    rcases mem with rfl | rfl | later
    · decide
    · exact named (Text.isNameChar_of_isNameStart begins)
    · exact named (List.all_eq_true.1 chars c later)
  | braced name chars =>
    simp only [text, List.mem_cons, List.mem_append, List.not_mem_nil, or_false] at mem
    rcases mem with rfl | rfl | among | rfl
    · decide
    · decide
    · have braced := List.all_eq_true.1 chars c among
      rw [Text.insideLine, bne_iff_ne]
      rintro rfl
      revert braced
      decide
    · decide

end TagValue

/-- An entry of a filter that gives a value to a key. -/
structure Assignment where
  key : Simple
  value : TagValue

/-- How an entry is written. -/
def Assignment.text (a : Assignment) : Text := a.key.text ++ ':' :: a.value.text

theorem Simple.plain (w : Simple) (c : Char) (mem : c ∈ w.text) :
    isPlain metricsMarks c = true ∧ isDraftChar c = true :=
  have held := plain_of_isSimpleChar (List.all_eq_true.1 w.chars c mem)
  ⟨held.1, held.2.1⟩

/-- An entry as a pair. -/
def Assignment.pair (a : Assignment) : Pair where
  key := a.key.text
  value := a.value.text
  plain := a.key.plain
  apart _ := a.value.mask_append
  units := a.value.units_mask
  inLine := a.value.inside

/-- A query whose filter gives values to keys. -/
structure Assigned where
  head : Simple
  entries : List Assignment
  closed : Bool

namespace Assigned

variable (q : Assigned)

/-- How a query is written. -/
def text : Text := listing q.head.text (q.entries.map Assignment.text) q.closed

/-- A query up to the entry behind some others. -/
def upTo (before : List Assignment) : Text := listingUpTo q.head.text (before.map Assignment.text)

/-- What stands behind an entry, if others come behind it. -/
def behind (after : List Assignment) : Text := listingBehind (after.map Assignment.text) q.closed

theorem text_split {before after : List Assignment} {a : Assignment} (same : q.entries = before ++ a :: after) :
    q.text = q.upTo before ++ a.text ++ q.behind after := by
  rw [text, same, List.map_append, List.map_cons, listing_split]
  rfl

/-- A query as a line of pairs. -/
def paired : Paired := ⟨q.head.text, q.head.plain, q.entries.map Assignment.pair, q.closed⟩

theorem paired_upTo (before : List Assignment) : q.paired.upTo (before.map Assignment.pair) = q.upTo before := by
  rw [Paired.upTo, List.map_map]
  rfl

theorem paired_text : q.paired.text = q.text := by
  rw [Paired.text, paired, List.map_map]
  rfl

/-- Behind the colon of a key its value is typed. -/
theorem contextOf_value {before after : List Assignment} {a : Assignment} (same : q.entries = before ++ a :: after)
    {n : Nat} (within : n ≤ a.value.text.length) :
    let c := contextOf q.text ((q.upTo before ++ a.key.text ++ [':']).length + n : Nat)
    c.place = .filterValue ∧ c.token = a.value.text.take n := by
  have split : q.paired.pairs = before.map Assignment.pair ++ a.pair :: after.map Assignment.pair := by
    rw [paired, same, List.map_append, List.map_cons]
  obtain ⟨place, token, -⟩ := q.paired.contextOf_value split (n := n) within
  rw [q.paired_text, q.paired_upTo] at place token
  exact ⟨place, token⟩

end Assigned

end Typeahead.Metrics
