import Typeahead.Logs.Reading
import Typeahead.Proofs.Token.Lexemes

/-!
Logs lines that are written out in full: items with single blanks between them, where an item is a word, an
operator, a facet with its value, or a facet with a group of words and operators in parentheses.

- `lineOf`: how such a line is written.
- `reads_lineOf`: the lexemes that it is cut into.
- `reading_lineOf`: the line with its tokens.
-/

namespace Typeahead.Logs

open Lexer

/-- A character of words: an ASCII letter or digit, or one of two signs. -/
def isTermChar (c : Char) : Bool := c.isAlphanum || c = '_' || c = '.'

/-- A word that is no operator. -/
structure Word where
  text : Text
  chars : text.all isTermChar = true
  nonempty : text ≠ []
  ordinary : Operator.named? text = none

/-- What can stand by itself, on the line or in a group. -/
inductive Term where
  | word (w : Word)
  | operator (o : Operator)

/-- An item of a line. -/
inductive Item where
  | term (t : Term)
  | pair (facet value : Word)
  | group (facet : Word) (first : Term) (more : List Term)

/-- How a term is written. -/
def Term.text : Term → Text
  | word w => w.text
  | operator o => o.word

/-- How the terms of a group are written. -/
def termsText (ts : List Term) : Text := Text.joinWith [' '] (ts.map Term.text)

/-- How an item is written. -/
def Item.text : Item → Text
  | term t => t.text
  | pair facet value => facet.text ++ ':' :: value.text
  | group facet first more => facet.text ++ ':' :: '(' :: (termsText (first :: more) ++ [')'])

/-- How a line is written. -/
def lineOf (items : List Item) : Text := Text.joinWith [' '] (items.map Item.text)

/-- What a character must be to stand in such a line: it begins no placeholder and ends no line. -/
def isLineChar (c : Char) : Bool := c != '$' && c != '[' && c != '\n'

/-- The blank between two items or terms. -/
def space : Lexeme := (.blank, [' '])

/-- The lexeme of a term. -/
def Term.lexeme (t : Term) : Lexeme := (.word, t.text)

/-- The lexemes of the terms of a group. -/
def termsLexemes (ts : List Term) : List Lexeme := [space].intercalate (ts.map fun t => [t.lexeme])

/-- The lexemes of an item. -/
def Item.lexemes : Item → List Lexeme
  | term t => [t.lexeme]
  | pair facet value => [(.word, facet.text), (.colon, [':']), (.word, value.text)]
  | group facet first more =>
    [(.word, facet.text), (.colon, [':']), (.openParen, ['('])] ++
      (termsLexemes (first :: more) ++ [(.closeParen, [')'])])

/-- The lexemes of a line. -/
def lineLexemes (items : List Item) : List Lexeme := [space].intercalate (items.map Item.lexemes)

/-- Characters of words go on words, are not masked, and are characters of facet names. -/
theorem plain_of_isTermChar {c : Char} (h : isTermChar c = true) :
    isPlain logsMarks c = true ∧ isLineChar c = true ∧ c ≠ '-' := by
  have small : c.toNat < 128 := by
    simp only [isTermChar, Bool.or_eq_true, decide_eq_true_eq] at h
    rcases h with (alphanumeric | rfl) | rfl
    · exact toNat_lt_of_isAlphanum alphanumeric
    all_goals decide
  exact holds_of_ascii (P := fun c => isTermChar c = true →
    isPlain logsMarks c = true ∧ isLineChar c = true ∧ c ≠ '-') (by decide +kernel) small h

namespace Term

variable (t : Term)

theorem chars : t.text.all isTermChar = true := by
  cases t with
  | word w => exact w.chars
  | operator o => cases o <;> decide

theorem nonempty : t.text ≠ [] := by
  cases t with
  | word w => exact w.nonempty
  | operator o => cases o <;> decide

theorem reads : Reads logsMarks t.text [t.lexeme] :=
  .word t.nonempty fun c mem => (plain_of_isTermChar (List.all_eq_true.1 t.chars c mem)).1

theorem line (c : Char) (mem : c ∈ t.text) : isLineChar c = true :=
  (plain_of_isTermChar (List.all_eq_true.1 t.chars c mem)).2.1

/-- A term has a first character, which is not blank. -/
theorem cons : ∃ c rest, t.text = c :: rest ∧ isBlank c = false := by
  cases same : t.text with
  | nil => exact absurd same t.nonempty
  | cons c rest =>
    have plain := (plain_of_isTermChar (List.all_eq_true.1 t.chars c (same ▸ List.mem_cons_self))).1
    simp only [isPlain, Bool.and_eq_true, Bool.not_eq_true'] at plain
    exact ⟨c, rest, rfl, plain.1.1.1⟩

end Term

theorem stops_space (t : Text) : Stops logsMarks (' ' :: t) := .cons (by decide) (by decide) t

/-- A mark ends every word before it. -/
theorem stops_mark {c : Char} (marked : (logsMarks c).isSome = true) (t : Text) :
    Stops logsMarks (c :: t) := by
  refine .cons ?_ ?_ t
  · obtain ⟨kind, found⟩ := Option.isSome_iff_exists.1 marked
    simp [isPlain, found]
  · rintro rfl
    cases marked

/-- Pieces with single blanks between them are cut piece by piece. -/
theorem reads_spaced {α : Type} (text : α → Text) (lexemes : α → List Lexeme) (xs : List α)
    (h : ∀ x ∈ xs, Reads logsMarks (text x) (lexemes x))
    (inked : ∀ x ∈ xs, ∃ c rest, text x = c :: rest ∧ isBlank c = false) :
    Reads logsMarks (Text.joinWith [' '] (xs.map text)) ([space].intercalate (xs.map lexemes)) := by
  induction xs with
  | nil => exact .nil
  | cons x xs ih =>
    obtain ⟨first, later⟩ := List.forall_mem_cons.1 h
    obtain ⟨-, visible⟩ := List.forall_mem_cons.1 inked
    cases xs with
    | nil => simpa [Text.joinWith] using first
    | cons y ys =>
      have rest := ih later visible
      obtain ⟨c, tail, same, ink⟩ := visible y List.mem_cons_self
      obtain ⟨tail', begins⟩ : ∃ tail', Text.joinWith [' '] ((y :: ys).map text) = c :: tail' := by
        cases ys with
        | nil => exact ⟨tail, same⟩
        | cons z zs =>
          exact ⟨tail ++ [' '] ++ Text.joinWith [' '] ((z :: zs).map text), by simp [Text.joinWith, same]⟩
      rw [begins] at rest
      have spaced := first.append (.blank (b := ' ') (by decide) ink rest) (stops_space _)
      rw [← begins] at spaced
      simpa [Text.joinWith, List.intercalate_cons_cons, space] using spaced

theorem reads_terms (ts : List Term) : Reads logsMarks (termsText ts) (termsLexemes ts) :=
  reads_spaced Term.text _ ts (fun t _ => t.reads) fun t _ => t.cons

theorem Word.reads (w : Word) : Reads logsMarks w.text [(.word, w.text)] := (Term.word w).reads

namespace Item

variable (i : Item)

/-- An item is cut into its lexemes. -/
theorem reads : Reads logsMarks i.text i.lexemes := by
  cases i with
  | term t => exact t.reads
  | pair facet value =>
    exact facet.reads.append (.mark (c := ':') rfl (by decide) value.reads) (stops_mark rfl _)
  | group facet first more =>
    have closed : Reads logsMarks [')'] [(.closeParen, [')'])] := .mark rfl (by decide) .nil
    have inner := (reads_terms (first :: more)).append closed (stops_mark rfl _)
    have opened : Reads logsMarks ('(' :: _) _ := .mark rfl (by decide) inner
    exact facet.reads.append (.mark (c := ':') rfl (by decide) opened) (stops_mark rfl _)

/-- An item has a first character, which is not blank. -/
theorem cons : ∃ c rest, i.text = c :: rest ∧ isBlank c = false := by
  have word (w : Word) (t : Text) : ∃ c rest, w.text ++ t = c :: rest ∧ isBlank c = false := by
    obtain ⟨c, rest, same, ink⟩ := (Term.word w).cons
    exact ⟨c, rest ++ t, by rw [show w.text = c :: rest from same, List.cons_append], ink⟩
  cases i with
  | term t => exact t.cons
  | pair facet value => exact word facet _
  | group facet first more => exact word facet _

end Item

/-- A line is cut into the lexemes of its items. -/
theorem reads_lineOf (items : List Item) : Reads logsMarks (lineOf items) (lineLexemes items) :=
  reads_spaced Item.text Item.lexemes items (fun i _ => i.reads) fun i _ => i.cons

/-- No character of a line begins a placeholder or ends the line. -/
theorem chars_lineOf (items : List Item) : ∀ c ∈ lineOf items, isLineChar c = true := by
  have blank : ∀ c ∈ [' '], isLineChar c = true := List.forall_mem_singleton.2 rfl
  have word (w : Word) : ∀ c ∈ w.text, isLineChar c = true := (Term.word w).line
  have terms (ts : List Term) : ∀ c ∈ termsText ts, isLineChar c = true := by
    refine Text.forall_mem_joinWith blank fun t mem => ?_
    obtain ⟨term, -, rfl⟩ := List.mem_map.1 mem
    exact term.line
  refine Text.forall_mem_joinWith blank fun t mem => ?_
  obtain ⟨item, -, rfl⟩ := List.mem_map.1 mem
  cases item with
  | term t => exact t.line
  | pair facet value =>
    exact List.forall_mem_append.2 ⟨word facet, List.forall_mem_cons.2 ⟨by decide, word value⟩⟩
  | group facet first more =>
    refine List.forall_mem_append.2 ⟨word facet, List.forall_mem_cons.2 ⟨by decide, ?_⟩⟩
    exact List.forall_mem_cons.2 ⟨by decide, List.forall_mem_append.2 ⟨terms _, List.forall_mem_singleton.2 rfl⟩⟩

/-- The line of some items, cut into its tokens. -/
theorem reading_lineOf (items : List Item) :
    Reading.of (lineOf items) = ⟨lineOf items, lay 0 (lineLexemes items)⟩ := by
  have unmasked : Text.mask (lineOf items) = lineOf items := by
    refine Text.mask_of_plain fun c mem => ?_
    have fits := chars_lineOf items c mem
    simp only [isLineChar, Bool.and_eq_true, bne_iff_ne] at fits
    exact fits.1
  rw [Reading.of, tokens_of_reads unmasked (reads_lineOf items)]

/-- Some items make one line. -/
theorem inside_lineOf (items : List Item) (c : Char) (mem : c ∈ lineOf items) : Text.insideLine c = true := by
  have fits := chars_lineOf items c mem
  simp only [isLineChar, Bool.and_eq_true] at fits
  exact fits.2

theorem hasInk_lineOf (first : Item) (more : List Item) : (lineOf (first :: more)).hasInk = true := by
  obtain ⟨c, rest, same, ink⟩ := first.cons
  refine List.any_eq_true.2 ⟨c, ?_, by simp [ink]⟩
  cases more <;> simp [lineOf, Text.joinWith, same]

end Typeahead.Logs
