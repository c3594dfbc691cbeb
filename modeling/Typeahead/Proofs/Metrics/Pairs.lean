import Typeahead.Proofs.Metrics.Drafts
import Typeahead.Proofs.Token.Escaped

/-!
Metrics lines whose filter gives values to keys, whatever the values are made of: each is masked for itself, and
masked it reads as words and colons.

- `mask_append_of_units`, `mask_listing`: no placeholder reaches out of its value.
- `Pair`: a key with such a value.
- `Paired.contextOf_value`: what is typed in a value.
-/

namespace Typeahead.Metrics

open Lexer

/-- A character of escaped values that has no backslash before it: it goes on a word, or is a colon. -/
def isValueChar (c : Char) : Bool := isPlain metricsMarks c || c = ':'

/-- Between the pieces of a filter stands a comma, and behind them a brace. -/
def Ends (t : Text) : Prop := ∀ c ∈ t.head?, c = ',' ∨ c = '}'

theorem isValueChar_of_unmarked {c : Char} (h : isFilterMark c = false) : isValueChar c = true := by
  simp only [isFilterMark, Bool.or_eq_false_iff, decide_eq_false_iff_not] at h
  obtain ⟨⟨⟨⟨⟨⟨⟨inked, comma⟩, opens⟩, closes⟩, left⟩, right⟩, quote⟩, escape⟩ := h
  by_cases colon : c = ':'
  · simp [isValueChar, colon]
  · have unmarked : metricsMarks c = none := by
      unfold metricsMarks
      split <;> simp_all
    simp [isValueChar, isPlain, inked, unmarked, quote, escape]

/-- Where nothing but values is written, no placeholder reaches past their end. -/
theorem mask_append_of_units {t b : Text} (units : Units isValueChar t) (ends : Ends b) :
    Text.mask (t ++ b) = Text.mask t ++ Text.mask b := by
  apply Text.mask_append
  intro s suffix nonempty
  by_contra longer
  obtain ⟨p, rest, same, length, placeholder⟩ := Text.exists_placeholder (t := s ++ b) (by omega)
  -- the placeholder would hold the comma or the brace behind the value
  obtain ⟨past, rfl, more⟩ : ∃ past, p = s ++ past ∧ b = past ++ rest := by
    rcases List.append_eq_append_iff.1 same with ⟨past, first, second⟩ | ⟨short, first, -⟩
    · exact ⟨past, first, second⟩
    · have := congrArg List.length first
      rw [List.length_append] at this
      omega
  cases past with
  | nil =>
    rw [List.append_nil] at length
    omega
  | cons d past =>
    have mark : d = ',' ∨ d = '}' := ends d (by simp [more])
    rcases placeholder.chars with ⟨name, braced⟩ | chars
    · rcases s with _ | ⟨c, _ | ⟨c', s⟩⟩
      · exact nonempty rfl
      · obtain rfl : d = '{' := List.head_eq_of_cons_eq (List.tail_eq_of_cons_eq braced)
        rcases mark with same | same <;> cases same
      · obtain rfl : c = '$' := List.head_eq_of_cons_eq braced
        obtain rfl : c' = '{' := List.head_eq_of_cons_eq (List.tail_eq_of_cons_eq braced)
        cases units.of_suffix suffix (by decide) with
        | one fits => exact absurd fits (by decide)
    · have named := chars d (by simp)
      rcases mark with rfl | rfl <;> revert named <;> decide

section

variable {α : Type} {text masked : α → Text}
  (apart : ∀ x b, Ends b → Text.mask (text x ++ b) = masked x ++ Text.mask b)

include apart

/-- Pieces of which each is masked for itself are so with commas between them. -/
theorem mask_pieces (xs : List α) {b : Text} (ends : Ends b) :
    Text.mask (Text.joinWith [','] (xs.map text) ++ b) =
      Text.joinWith [','] (xs.map masked) ++ Text.mask b := by
  induction xs with
  | nil => rfl
  | cons x xs ih =>
    cases xs with
    | nil => exact apart x b ends
    | cons x' xs =>
      have split : Text.joinWith [','] ((x :: x' :: xs).map text) ++ b =
          text x ++ ([','] ++ (Text.joinWith [','] ((x' :: xs).map text) ++ b)) := by
        simp [Text.joinWith]
      rw [split, apart x _ (fun c mem => .inl (by simpa using mem.symm)),
        Text.mask_plain_append (a := [',']) (by simp), ih]
      simp [Text.joinWith]

/-- The placeholders of a line with a filter are those of its pieces. -/
theorem mask_listing {head : Text} (plain : ∀ c ∈ head, c ≠ '$' ∧ c ≠ '[') (xs : List α) (closed : Bool) :
    Text.mask (listing head (xs.map text) closed) = listing head (xs.map masked) closed := by
  have front : ∀ c ∈ head ++ ['{'], c ≠ '$' ∧ c ≠ '[' := List.forall_mem_append.2 ⟨plain, by simp⟩
  have closing : Ends (if closed then ['}'] else []) ∧
      Text.mask (if closed then ['}'] else []) = if closed then ['}'] else [] := by
    cases closed
    · exact ⟨fun c mem => (by cases mem), rfl⟩
    · exact ⟨fun c mem => .inr (by simpa using mem.symm), by decide⟩
  have split : listing head (xs.map text) closed = (head ++ ['{']) ++
      (Text.joinWith [','] (xs.map text) ++ if closed then ['}'] else []) := by
    simp [listing]
  rw [split, Text.mask_plain_append front, mask_pieces apart xs closing.1, closing.2]
  simp [listing]

end

/-- A key and its value, as they are written in a filter. No placeholder reaches from the value into what follows it,
and masked the value reads as words and colons. -/
structure Pair where
  key : Text
  value : Text
  plain : ∀ c ∈ key, isPlain metricsMarks c = true ∧ isDraftChar c = true
  apart : ∀ b, Ends b → Text.mask (value ++ b) = Text.mask value ++ Text.mask b
  units : Units isValueChar (Text.mask value)
  inLine : ∀ c ∈ value, Text.insideLine c = true

/-- Characters that need no masking. -/
theorem unmasked_of_isDraftChar {c : Char} (h : isDraftChar c = true) : c ≠ '$' ∧ c ≠ '[' := by
  simp only [isDraftChar, Bool.and_eq_true, bne_iff_ne] at h
  exact h.1

theorem insideLine_of_isDraftChar {c : Char} (h : isDraftChar c = true) : Text.insideLine c = true := by
  simp only [isDraftChar, Bool.and_eq_true] at h
  exact h.2

namespace Pair

variable (p : Pair)

/-- How a pair is written. -/
def text : Text := p.key ++ ':' :: p.value

/-- How a pair is written when its placeholders are masked. -/
def masked : Text := p.key ++ ':' :: Text.mask p.value

/-- The lexemes of a pair. -/
def lexemes : List Lexeme :=
  scan metricsMarks p.key ++ (.colon, [':']) :: scan metricsMarks (Text.mask p.value)

theorem reads_key : Reads metricsMarks p.key (scan metricsMarks p.key) ∧
    ∀ l ∈ scan metricsMarks p.key, l.1 = .word :=
  reads_plain fun c mem => (p.plain c mem).1

/-- A masked value reads as words and colons. -/
theorem reads_value : Reads metricsMarks (Text.mask p.value) (scan metricsMarks (Text.mask p.value)) ∧
    ∀ l ∈ scan metricsMarks (Text.mask p.value), l.1 = .word ∨ l.1 = .colon := by
  obtain ⟨ls, reads, kinds⟩ := exists_reads (show metricsMarks ':' = some .colon from rfl) (by decide) rfl
    (fun c fits => by simpa [isValueChar] using fits) p.units
  rw [scan_of_reads reads]
  exact ⟨reads, kinds⟩

/-- A pair is cut into its lexemes. -/
theorem reads : Reads metricsMarks p.masked p.lexemes :=
  p.reads_key.1.append (.mark rfl (by decide) p.reads_value.1) (stops_mark rfl _)

theorem kind_of_mem_lexemes : ∀ l ∈ p.lexemes, l.1 = .word ∨ l.1 = .colon := by
  intro l mem
  rcases List.mem_append.1 mem with key | later
  · exact .inl (p.reads_key.2 l key)
  · rcases List.mem_cons.1 later with rfl | value
    · exact .inr rfl
    · exact p.reads_value.2 l value

theorem length_masked : p.masked.length = p.text.length := by
  simp [masked, text]

/-- No placeholder reaches into a pair or out of it. -/
theorem mask_append (b : Text) (ends : Ends b) : Text.mask (p.text ++ b) = p.masked ++ Text.mask b := by
  have plain : ∀ c ∈ p.key ++ [':'], c ≠ '$' ∧ c ≠ '[' := by
    intro c mem
    rcases List.mem_append.1 mem with key | colon
    · exact unmasked_of_isDraftChar (p.plain c key).2
    · rw [List.mem_singleton.1 colon]
      decide
  have split : p.text ++ b = (p.key ++ [':']) ++ (p.value ++ b) := by simp [text]
  rw [split, Text.mask_plain_append plain, p.apart b ends]
  simp [masked]

/-- No pair ends the line. -/
theorem inside (c : Char) (mem : c ∈ p.text) : Text.insideLine c = true := by
  rcases List.mem_append.1 mem with key | later
  · exact insideLine_of_isDraftChar (p.plain c key).2
  · rcases List.mem_cons.1 later with rfl | value
    · decide
    · exact p.inLine c value

end Pair

/-- A line whose filter gives values to keys. -/
structure Paired where
  head : Text
  plain : ∀ c ∈ head, isPlain metricsMarks c = true ∧ isDraftChar c = true
  pairs : List Pair
  closed : Bool

namespace Paired

variable (q : Paired)

/-- How a line is written. -/
def text : Text := listing q.head (q.pairs.map Pair.text) q.closed

/-- A line up to the pair behind some others. -/
def upTo (before : List Pair) : Text := listingUpTo q.head (before.map Pair.text)

/-- What stands behind a pair, if others come behind it. -/
def behind (after : List Pair) : Text := listingBehind (after.map Pair.text) q.closed

theorem text_split {before after : List Pair} {p : Pair} (same : q.pairs = before ++ p :: after) :
    q.text = q.upTo before ++ p.text ++ q.behind after := by
  rw [text, same, List.map_append, List.map_cons, listing_split]
  rfl

/-- The placeholders of a line are those of its values. -/
theorem mask_text : Text.mask q.text = listing q.head (q.pairs.map Pair.masked) q.closed :=
  mask_listing Pair.mask_append (fun c mem => unmasked_of_isDraftChar (q.plain c mem).2) q.pairs q.closed

theorem inside (c : Char) (mem : c ∈ q.text) : Text.insideLine c = true := by
  have pairs : ∀ c ∈ Text.joinWith [','] (q.pairs.map Pair.text), Text.insideLine c = true := by
    refine Text.forall_mem_joinWith (List.forall_mem_singleton.2 rfl) ?_
    intro t among
    obtain ⟨p, -, rfl⟩ := List.mem_map.1 among
    exact p.inside
  have closing : ∀ c ∈ if q.closed then ['}'] else [], Text.insideLine c = true := by
    cases q.closed <;> simp [Text.insideLine]
  rcases List.mem_append.1 mem with head | filter
  · exact insideLine_of_isDraftChar (q.plain c head).2
  · rcases List.mem_cons.1 filter with rfl | later
    · decide
    · exact List.forall_mem_append.2 ⟨pairs, closing⟩ c later

theorem reads_head : Reads metricsMarks q.head (scan metricsMarks q.head) ∧
    ∀ l ∈ scan metricsMarks q.head, l.1 = .word :=
  reads_plain fun c mem => (q.plain c mem).1

/-- Where no cursor is outside of the line, its context is that of the only line. -/
theorem contextOf_eq {position : Nat} (within : position ≤ q.text.length) : contextOf q.text position =
    ((Reading.of q.text).contextAt position).located position ⟨q.text, 0⟩ := by
  have inked : q.text.hasInk = true := List.any_eq_true.2 ⟨'{', by simp [text, listing], by decide⟩
  simp only [contextOf, q.text.clamp_of_le within, Text.lineAt_of_inside q.inside, inked, if_true, Nat.sub_zero]

section

variable {before after : List Pair} {p : Pair} (same : q.pairs = before ++ p :: after)

include same

/-- A pair is a segment of the line. -/
theorem segment : Segment q.text (scan metricsMarks q.head) (lexemesUpTo Pair.lexemes before) p.lexemes
      (lexemesBehind Pair.lexemes after) (closingLexemes q.closed) ∧
    Segment.start (scan metricsMarks q.head) (lexemesUpTo Pair.lexemes before) = (q.upTo before).length := by
  have line : Text.mask q.text = listing q.head ((before ++ p :: after).map Pair.masked) q.closed := by
    rw [q.mask_text, same]
  obtain ⟨segment, start⟩ := segment_of_mask q.reads_head.1 (fun l mem => .inl (q.reads_head.2 l mem))
    Pair.reads Pair.kind_of_mem_lexemes line
  refine ⟨segment, start.trans ?_⟩
  have lengths : (before.map Pair.masked).map (fun t => (t ++ [',']).length) =
      (before.map Pair.text).map (fun t => (t ++ [',']).length) := by
    rw [List.map_map, List.map_map]
    exact List.map_congr_left fun p _ => by simp [p.length_masked]
  simp only [upTo, listingUpTo, List.length_append, List.length_cons, List.length_flatten, List.map_map,
    Function.comp_def]
  simpa [List.map_map, Function.comp_def] using congrArg List.sum lengths

/-- Behind the colon of a key its value is typed. -/
theorem contextOf_value {n : Nat} (within : n ≤ p.value.length) :
    let c := contextOf q.text ((q.upTo before ++ p.key ++ [':']).length + n : Nat)
    let key := bareKey (Text.strip p.key)
    c.place = .filterValue ∧ c.token = p.value.take n ∧ c.key? = if key.isEmpty then none else some key := by
  obtain ⟨segment, begins⟩ := q.segment same
  let start := Segment.start (scan metricsMarks q.head) (lexemesUpTo Pair.lexemes before)
  have begins : start = (q.upTo before).length := begins
  have spelled : spell (scan metricsMarks p.key) = p.key := flatten_scan metricsMarks p.key
  have whole : spell p.lexemes = p.masked := spell_of_reads p.reads
  have reached : p.key.length + 1 + n ≤ (spell p.lexemes).length := by
    rw [whole, p.length_masked, Pair.text, List.length_append, List.length_cons]
    omega
  have typed := segment.contextAt_value p.reads_key.2 (n := p.key.length + 1 + n) (by rw [spelled]; omega) reached
  have parts : q.text = (q.upTo before ++ p.key ++ [':']) ++ p.value ++ q.behind after := by
    rw [q.text_split same, Pair.text]
    simp
  have position : (q.upTo before ++ p.key ++ [':']).length + n = start + (p.key.length + 1 + n) := by
    simp [begins]
    omega
  have token : q.text.slice (start + p.key.length + 1) (start + (p.key.length + 1 + n)) = p.value.take n := by
    have colon : start + p.key.length + 1 = (q.upTo before ++ p.key ++ [':']).length := by
      simp [begins, Nat.add_assoc]
    rw [← position, colon, parts, Text.slice_part _ _ _ within]
  have key : q.text.slice start (start + p.key.length) = p.key := by
    have split : q.text = q.upTo before ++ p.key ++ (':' :: p.value ++ q.behind after) := by
      rw [parts]
      simp
    rw [begins, split, Text.slice_part _ _ _ (Nat.le_refl _), List.take_length]
  have bound : start + (p.key.length + 1 + n) ≤ q.text.length := by
    rw [← position, parts]
    simp
    omega
  rw [position, q.contextOf_eq bound]
  rw [spelled] at typed
  change _ ∧ _ = q.text.slice (start + p.key.length + 1) _ ∧ _ = if (bareKey (Text.strip
    (q.text.slice start (start + p.key.length)))).isEmpty then _ else _ at typed
  rw [token, key] at typed
  exact typed

end

end Paired

end Typeahead.Metrics
