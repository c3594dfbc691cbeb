import Typeahead.Metrics.Reading
import Typeahead.Proofs.Token.Lexemes

/-!
Metrics queries that are written out in full: `aggregator:metric{entries} by {tags}`, where an entry is a
key and a value, or a key and a list of values that it is in, or not in. Everything but the metric may be
missing.

- `Query.text`: how such a query is written.
- `Query.reads`: the lexemes that it is cut into.
- `Query.reading`: the line as a metrics line, with its tokens.
-/

namespace Typeahead.Metrics

/-- A character of names: an ASCII letter or digit, or one of four signs. -/
def isNameChar (c : Char) : Bool := c.isAlphanum || c = '_' || c = '.' || c = '/' || c = '-'

/-- A name or a value: it begins with a letter or a digit, and is no operator in any case. -/
structure Name where
  text : Text
  chars : text.all isNameChar = true
  begins : text.head?.any Char.isAlphanum = true
  notIn : text.map Char.toUpper ≠ "IN".toList
  notNot : text.map Char.toUpper ≠ "NOT".toList

/-- An aggregator: ASCII letters. -/
structure Aggregator where
  text : Text
  letters : text.all Char.isAlpha = true
  nonempty : text ≠ []

/-- A further item of a list; there may be a blank before it. -/
structure Item where
  spaced : Bool
  name : Name

/-- An entry of a filter: a key and its value, or a key and a list of values. -/
inductive Entry where
  | pair (key value : Name)
  | list (key : Name) (negated : Bool) (first : Name) (more : List Item)

/-- A query. -/
structure Query where
  aggregator? : Option Aggregator
  metric : Name
  filter? : Option (List Entry)
  grouping? : Option (List Name)

/-- How an item is written. -/
def Item.text (i : Item) : Text := ',' :: ((if i.spaced then [' '] else []) ++ i.name.text)

namespace Entry

/-- How the operator of a list is written, up to the opening parenthesis. -/
def operator (negated : Bool) : Text := if negated then " NOT IN (".toList else " IN (".toList

/-- How an entry is written. -/
def text : Entry → Text
  | pair key value => key.text ++ ':' :: value.text
  | list key negated first more =>
    key.text ++ operator negated ++ first.text ++ (more.map Item.text).flatten ++ [')']

end Entry

namespace Query

/-- The aggregator and its colon. -/
def prefixText (q : Query) : Text :=
  match q.aggregator? with
  | some a => a.text ++ [':']
  | none => []

/-- The filter. -/
def filterText (q : Query) : Text :=
  match q.filter? with
  | some entries => '{' :: Text.joinWith [','] (entries.map Entry.text) ++ ['}']
  | none => []

/-- The grouping. -/
def groupingText (q : Query) : Text :=
  match q.grouping? with
  | some tags => " by \x7b".toList ++ Text.joinWith [','] (tags.map Name.text) ++ ['}']
  | none => []

/-- The query up to the end of the metric. -/
def head (q : Query) : Text := q.prefixText ++ q.metric.text

/-- How a query is written. -/
def text (q : Query) : Text := q.head ++ q.filterText ++ q.groupingText

end Query

/-- What a character must be to stand in such a query: it begins no placeholder and ends no line. -/
def isQueryChar (c : Char) : Bool := c != '$' && c != '[' && c != '\n'

theorem toNat_lt_of_isNameChar {c : Char} (h : isNameChar c = true) : c.toNat < 128 := by
  simp only [isNameChar, Bool.or_eq_true, decide_eq_true_eq] at h
  rcases h with (((alphanumeric | rfl) | rfl) | rfl) | rfl
  · exact toNat_lt_of_isAlphanum alphanumeric
  all_goals decide

/-- Characters of names go on words, and need no masking. -/
theorem plain_of_isNameChar {c : Char} (h : isNameChar c = true) :
    Lexer.isPlain metricsMarks c = true ∧ isQueryChar c = true := by
  refine holds_of_ascii (P := fun c => isNameChar c = true →
    Lexer.isPlain metricsMarks c = true ∧ isQueryChar c = true) ?_ (toNat_lt_of_isNameChar h) h
  decide +kernel

namespace Name

variable (n : Name)

theorem nonempty : n.text ≠ [] := by
  intro empty
  have begins := n.begins
  simp [empty] at begins

theorem plain : ∀ c ∈ n.text, Lexer.isPlain metricsMarks c = true :=
  fun c mem => (plain_of_isNameChar (List.all_eq_true.1 n.chars c mem)).1

theorem inked : ∀ c ∈ n.text, isBlank c = false := by
  intro c mem
  have plain := n.plain c mem
  simp only [Lexer.isPlain, Bool.and_eq_true, Bool.not_eq_true'] at plain
  exact plain.1.1.1

theorem reads : Lexer.Reads metricsMarks n.text [(.word, n.text)] := .word n.nonempty n.plain

/-- A name has a first character, which is not blank. -/
theorem cons : ∃ c rest, n.text = c :: rest ∧ isBlank c = false := by
  cases same : n.text with
  | nil => exact absurd same n.nonempty
  | cons c rest => exact ⟨c, rest, rfl, n.inked c (same ▸ List.mem_cons_self)⟩

end Name

theorem Aggregator.reads (a : Aggregator) : Lexer.Reads metricsMarks a.text [(.word, a.text)] := by
  refine .word a.nonempty fun c mem => (plain_of_isNameChar ?_).1
  simp [isNameChar, Char.isAlphanum, List.all_eq_true.1 a.letters c mem]

/-- The lexemes of an item. -/
def Item.lexemes (i : Item) : List Lexeme :=
  (.comma, [',']) :: ((if i.spaced then [(.blank, [' '])] else []) ++ [(.word, i.name.text)])

namespace Entry

/-- The lexemes of the operator of a list. -/
def operatorLexemes (negated : Bool) : List Lexeme :=
  (if negated then [(.blank, [' ']), (.word, "NOT".toList)] else []) ++
    [(.blank, [' ']), (.word, "IN".toList), (.blank, [' ']), (.openParen, ['('])]

/-- The lexemes of an entry. -/
def lexemes : Entry → List Lexeme
  | pair key value => [(.word, key.text), (.colon, [':']), (.word, value.text)]
  | list key negated first more =>
    (.word, key.text) :: operatorLexemes negated ++ (.word, first.text) ::
      (more.map Item.lexemes).flatten ++ [(.closeParen, [')'])]

end Entry

/-- The lexemes of pieces with commas between them. -/
def separated : List (List Lexeme) → List Lexeme
  | [] => []
  | [piece] => piece
  | piece :: pieces => piece ++ (.comma, [',']) :: separated pieces

namespace Query

/-- The lexemes of the aggregator and its colon. -/
def prefixLexemes (q : Query) : List Lexeme :=
  match q.aggregator? with
  | some a => [(.word, a.text), (.colon, [':'])]
  | none => []

/-- The lexemes of the filter. -/
def filterLexemes (q : Query) : List Lexeme :=
  match q.filter? with
  | some entries => (.openBrace, ['{']) :: separated (entries.map Entry.lexemes) ++ [(.closeBrace, ['}'])]
  | none => []

/-- The lexemes of the grouping. -/
def groupingLexemes (q : Query) : List Lexeme :=
  match q.grouping? with
  | some tags =>
    [(.blank, [' ']), (.word, "by".toList), (.blank, [' ']), (.openBrace, ['{'])] ++
      separated (tags.map fun t => [(.word, t.text)]) ++ [(.closeBrace, ['}'])]
  | none => []

/-- The lexemes up to the end of the metric. -/
def headLexemes (q : Query) : List Lexeme := q.prefixLexemes ++ [(.word, q.metric.text)]

/-- The lexemes of a query. -/
def lexemes (q : Query) : List Lexeme := q.headLexemes ++ q.filterLexemes ++ q.groupingLexemes

end Query

open Lexer

/-- A mark ends every word before it. -/
theorem stops_mark {c : Char} (marked : (metricsMarks c).isSome = true) (t : Text) :
    Stops metricsMarks (c :: t) := by
  refine .cons ?_ ?_ t
  · obtain ⟨kind, found⟩ := Option.isSome_iff_exists.1 marked
    simp [isPlain, found]
  · rintro rfl
    cases marked

theorem stops_space (t : Text) : Stops metricsMarks (' ' :: t) := .cons (by decide) (by decide) t

theorem reads_space {t : Text} {ls : List Lexeme} (inked : ∃ c rest, t = c :: rest ∧ isBlank c = false)
    (h : Reads metricsMarks t ls) : Reads metricsMarks (' ' :: t) ((.blank, [' ']) :: ls) := by
  obtain ⟨c, rest, rfl, visible⟩ := inked
  exact .blank (by decide) visible h

theorem Item.reads (i : Item) : Reads metricsMarks i.text i.lexemes := by
  refine Reads.mark rfl (by decide) ?_
  cases i.spaced with
  | false => exact i.name.reads
  | true => exact reads_space i.name.cons i.name.reads

theorem stops_items (more : List Item) {t : Text} (stops : Stops metricsMarks t) :
    Stops metricsMarks ((more.map Item.text).flatten ++ t) := by
  cases more with
  | nil => exact stops
  | cons i more => exact stops_mark rfl _

/-- The items of a list, and what closes it. -/
theorem reads_items (more : List Item) {t : Text} {ls : List Lexeme} (stops : Stops metricsMarks t)
    (h : Reads metricsMarks t ls) : Reads metricsMarks ((more.map Item.text).flatten ++ t)
      ((more.map Item.lexemes).flatten ++ ls) := by
  induction more with
  | nil => exact h
  | cons i more ih =>
    simp only [List.map_cons, List.flatten_cons, List.append_assoc]
    exact i.reads.append ih (stops_items more stops)

theorem Entry.reads_operator (negated : Bool) {t : Text} {ls : List Lexeme}
    (h : Reads metricsMarks t ls) :
    Reads metricsMarks (operator negated ++ t) (operatorLexemes negated ++ ls) := by
  have word {w : Text} (nonempty : w ≠ []) (chars : w.all isNameChar = true) :
      Reads metricsMarks w [(.word, w)] :=
    .word nonempty fun c mem => (plain_of_isNameChar (List.all_eq_true.1 chars c mem)).1
  have opened : Reads metricsMarks (' ' :: '(' :: t) ((.blank, [' ']) :: (.openParen, ['(']) :: ls) :=
    reads_space ⟨'(', t, rfl, by decide⟩ (.mark rfl (by decide) h)
  have among : Reads metricsMarks (' ' :: ("IN".toList ++ (' ' :: '(' :: t)))
      ((.blank, [' ']) :: ([(.word, "IN".toList)] ++ (.blank, [' ']) :: (.openParen, ['(']) :: ls)) :=
    reads_space ⟨'I', _, rfl, by decide⟩
      ((word (by decide) (by decide)).append opened (stops_space _))
  cases negated with
  | false => exact among
  | true =>
    exact reads_space ⟨'N', _, rfl, by decide⟩
      ((word (w := "NOT".toList) (by decide) (by decide)).append among (stops_space _))

/-- An entry is cut into its lexemes. -/
theorem Entry.reads (e : Entry) : Reads metricsMarks e.text e.lexemes := by
  cases e with
  | pair key value =>
    exact key.reads.append (.mark (c := ':') rfl (by decide) value.reads) (stops_mark rfl _)
  | list key negated first more =>
    have closed : Reads metricsMarks [')'] [(.closeParen, [')'])] := .mark rfl (by decide) .nil
    have stops : Stops metricsMarks [')'] := stops_mark rfl []
    have items := first.reads.append (reads_items more stops closed) (stops_items more stops)
    have blank_next : ∀ t, Stops metricsMarks (operator negated ++ t) := by
      intro t
      cases negated <;> exact stops_space _
    have entry := key.reads.append (reads_operator negated items) (blank_next _)
    simpa [text, lexemes] using entry

/-- Pieces with commas between them are cut piece by piece. -/
theorem reads_separated {α : Type} (text : α → Text) (lexemes : α → List Lexeme) (xs : List α)
    (h : ∀ x ∈ xs, Reads metricsMarks (text x) (lexemes x)) :
    Reads metricsMarks (Text.joinWith [','] (xs.map text)) (separated (xs.map lexemes)) := by
  induction xs with
  | nil => exact .nil
  | cons x xs ih =>
    obtain ⟨first, later⟩ := List.forall_mem_cons.1 h
    cases xs with
    | nil => exact first
    | cons y ys =>
      have rest := first.append (.mark (c := ',') rfl (by decide) (ih later)) (stops_mark rfl _)
      simpa [Text.joinWith, separated] using rest

/-- What is separated by commas, told from one piece in the middle. -/
theorem separated_append (pieces : List (List Lexeme)) (piece : List Lexeme) (later : List (List Lexeme)) :
    separated (pieces ++ piece :: later) = (pieces.map (· ++ [(.comma, [','])])).flatten ++ piece ++
      (later.map ((.comma, [',']) :: ·)).flatten := by
  induction pieces with
  | nil =>
    induction later generalizing piece with
    | nil => simp [separated]
    | cons next later ih => simpa [separated] using ih next
  | cons first pieces ih =>
    have more : separated (first :: (pieces ++ piece :: later)) =
        first ++ (.comma, [',']) :: separated (pieces ++ piece :: later) := by
      cases pieces <;> rfl
    simp [more, ih]

namespace Query

variable (q : Query)

theorem reads_prefixText {t : Text} {ls : List Lexeme} (h : Reads metricsMarks t ls) :
    Reads metricsMarks (q.prefixText ++ t) (q.prefixLexemes ++ ls) := by
  unfold prefixText prefixLexemes
  split
  · next a _ =>
    simp only [List.append_assoc]
    exact a.reads.append (.mark rfl (by decide) h) (stops_mark rfl _)
  · exact h

theorem reads_filter : Reads metricsMarks q.filterText q.filterLexemes ∧ Stops metricsMarks q.filterText := by
  unfold filterText filterLexemes
  split
  · next entries _ =>
    have inner := reads_separated Entry.text Entry.lexemes entries fun e _ => e.reads
    have closed : Reads metricsMarks ['}'] [(.closeBrace, ['}'])] := .mark rfl (by decide) .nil
    exact ⟨.mark rfl (by decide) (inner.append closed (stops_mark rfl _)),
      stops_mark rfl _⟩
  · exact ⟨.nil, .nil⟩

theorem reads_grouping :
    Reads metricsMarks q.groupingText q.groupingLexemes ∧ Stops metricsMarks q.groupingText := by
  unfold groupingText groupingLexemes
  split
  · next tags _ =>
    have inner := reads_separated Name.text (fun t => [(.word, t.text)]) tags fun t _ => t.reads
    have closed : Reads metricsMarks ['}'] [(.closeBrace, ['}'])] := .mark rfl (by decide) .nil
    have braces := inner.append closed (stops_mark rfl _)
    have word : Reads metricsMarks "by".toList [(.word, "by".toList)] :=
      .word (by decide) (List.all_eq_true.1 (by decide))
    have keyword := word.append
      (reads_space ⟨'{', _, rfl, by decide⟩ (.mark rfl (by decide) braces)) (stops_space _)
    exact ⟨reads_space ⟨'b', _, rfl, by decide⟩ keyword, stops_space _⟩
  · exact ⟨.nil, .nil⟩

/-- A query is cut into its lexemes. -/
theorem reads : Reads metricsMarks q.text q.lexemes := by
  obtain ⟨filter, filterStops⟩ := q.reads_filter
  obtain ⟨grouping, groupingStops⟩ := q.reads_grouping
  have rest := filter.append grouping groupingStops
  have line := q.reads_prefixText (q.metric.reads.append rest (filterStops.append groupingStops))
  simpa [text, head, lexemes, headLexemes] using line

end Query

/-- A lexeme that may stand between braces: it is no brace, and nothing in it is masked or ends the line. -/
structure Inner (l : Lexeme) : Prop where
  opens : l.1 ≠ .openBrace
  closes : l.1 ≠ .closeBrace
  chars : l.2.all isQueryChar = true

theorem Name.inner (n : Name) : Inner (.word, n.text) :=
  ⟨by simp, by simp, List.all_eq_true.2 fun c mem =>
    (plain_of_isNameChar (List.all_eq_true.1 n.chars c mem)).2⟩

theorem Item.inner (i : Item) : ∀ l ∈ i.lexemes, Inner l := by
  have comma : Inner (.comma, [',']) := ⟨by simp, by simp, by decide⟩
  have space : Inner (.blank, [' ']) := ⟨by simp, by simp, by decide⟩
  have name := i.name.inner
  intro l mem
  unfold lexemes at mem
  cases spaced : i.spaced <;> simp only [spaced] at mem <;> simp at mem
  · rcases mem with rfl | rfl
    · exact comma
    · exact name
  · rcases mem with rfl | rfl | rfl
    · exact comma
    · exact space
    · exact name

theorem Entry.inner (e : Entry) : ∀ l ∈ e.lexemes, Inner l := by
  cases e with
  | pair key value =>
    have colon : Inner (.colon, [':']) := ⟨by simp, by simp, by decide⟩
    simpa [lexemes] using ⟨key.inner, colon, value.inner⟩
  | list key negated first more =>
    have operator : ∀ l ∈ operatorLexemes negated, Inner l := by
      have each : ∀ l ∈ operatorLexemes negated,
          l.1 ≠ .openBrace ∧ l.1 ≠ .closeBrace ∧ l.2.all isQueryChar = true := by
        cases negated <;> decide
      exact fun l mem => ⟨(each l mem).1, (each l mem).2.1, (each l mem).2.2⟩
    have closing : Inner (.closeParen, [')']) := ⟨by simp, by simp, by decide⟩
    intro l mem
    simp only [lexemes, List.cons_append, List.mem_cons, List.mem_append, List.mem_flatten, List.mem_map,
      List.not_mem_nil, or_false] at mem
    rcases mem with rfl | (among | rfl | ⟨ls, ⟨i, -, rfl⟩, among⟩) | rfl
    · exact key.inner
    · exact operator l among
    · exact first.inner
    · exact i.inner l among
    · exact closing

theorem inner_separated {pieces : List (List Lexeme)} (h : ∀ ls ∈ pieces, ∀ l ∈ ls, Inner l) :
    ∀ l ∈ separated pieces, Inner l := by
  have comma : Inner (.comma, [',']) := ⟨by simp, by simp, by decide⟩
  induction pieces with
  | nil => exact fun l mem => absurd mem List.not_mem_nil
  | cons ls pieces ih =>
    obtain ⟨first, later⟩ := List.forall_mem_cons.1 h
    cases pieces with
    | nil => exact first
    | cons ls' pieces =>
      intro l mem
      rcases List.mem_append.1 mem with mem | mem
      · exact first l mem
      · rcases List.mem_cons.1 mem with rfl | mem
        · exact comma
        · exact ih later l mem

namespace Query

variable (q : Query)

/-- What stands between the braces of a filter. -/
theorem inner_entries (entries : List Entry) : ∀ l ∈ separated (entries.map Entry.lexemes), Inner l := by
  refine inner_separated fun ls mem => ?_
  obtain ⟨e, -, rfl⟩ := List.mem_map.1 mem
  exact e.inner

/-- What stands between the braces of a grouping. -/
theorem inner_tags (tags : List Name) :
    ∀ l ∈ separated (tags.map fun t => [(TokenKind.word, t.text)]), Inner l := by
  refine inner_separated fun ls mem => ?_
  obtain ⟨t, -, rfl⟩ := List.mem_map.1 mem
  intro l among
  rw [List.mem_singleton.1 among]
  exact t.inner

theorem chars_lexemes : ∀ l ∈ q.lexemes, l.2.all isQueryChar = true := by
  have aggregator : ∀ l ∈ q.prefixLexemes, l.2.all isQueryChar = true := by
    unfold prefixLexemes
    split
    · next a _ =>
      refine List.forall_mem_cons.2 ⟨List.all_eq_true.2 fun c mem => (plain_of_isNameChar ?_).2, by decide⟩
      simp [isNameChar, Char.isAlphanum, List.all_eq_true.1 a.letters c mem]
    · exact fun l mem => absurd mem List.not_mem_nil
  have filter : ∀ l ∈ q.filterLexemes, l.2.all isQueryChar = true := by
    unfold filterLexemes
    split
    · next entries _ =>
      refine List.forall_mem_append.2 ⟨List.forall_mem_cons.2 ⟨by decide, ?_⟩, by decide⟩
      exact fun l mem => (inner_entries entries l mem).chars
    · exact fun l mem => absurd mem List.not_mem_nil
  have grouping : ∀ l ∈ q.groupingLexemes, l.2.all isQueryChar = true := by
    unfold groupingLexemes
    split
    · next tags _ =>
      refine List.forall_mem_append.2 ⟨List.forall_mem_append.2 ⟨by decide, ?_⟩, by decide⟩
      exact fun l mem => (inner_tags tags l mem).chars
    · exact fun l mem => absurd mem List.not_mem_nil
  have metric : ∀ l ∈ [(TokenKind.word, q.metric.text)], l.2.all isQueryChar = true :=
    List.forall_mem_singleton.2 q.metric.inner.chars
  simp only [lexemes, headLexemes, List.forall_mem_append]
  exact ⟨⟨⟨aggregator, metric⟩, filter⟩, grouping⟩

/-- No character of a query begins a placeholder or ends the line. -/
theorem chars (c : Char) (mem : c ∈ q.text) : isQueryChar c = true := by
  rw [← spell_of_reads q.reads] at mem
  obtain ⟨t, there, within⟩ := List.mem_flatten.1 mem
  obtain ⟨l, listed, rfl⟩ := List.mem_map.1 there
  exact List.all_eq_true.1 (q.chars_lexemes l listed) c within

/-- The line of a query, cut into its tokens. -/
theorem reading : Reading.of q.text = ⟨q.text, lay 0 q.lexemes⟩ := by
  have unmasked : Text.mask q.text = q.text := by
    refine Text.mask_of_plain fun c mem => ?_
    have fits := q.chars c mem
    simp only [isQueryChar, Bool.and_eq_true, bne_iff_ne] at fits
    exact fits.1
  rw [Reading.of, tokens_of_reads unmasked q.reads]

/-- A query is one line. -/
theorem inside (c : Char) (mem : c ∈ q.text) : Text.insideLine c = true := by
  have fits := q.chars c mem
  simp only [isQueryChar, Bool.and_eq_true] at fits
  exact fits.2

theorem hasInk : q.text.hasInk = true := by
  obtain ⟨c, rest, same, inked⟩ := q.metric.cons
  refine List.any_eq_true.2 ⟨c, ?_, by simp [inked]⟩
  simp [text, head, same]

end Query

end Typeahead.Metrics
