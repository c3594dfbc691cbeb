import Typeahead.Proofs.Metrics.Filters

/-!
Metrics queries whose filter is being typed: entries with a key that may have a sign before it, with or without
a value, the braces closed or not.

- `Draft`: such a query.
- `Draft.exists_place`: where a key is typed in it.
-/

namespace Typeahead.Metrics

open Lexer

/-- A character of simple words. -/
def isSimpleChar (c : Char) : Bool := c.isAlphanum || c = '_' || c = '.' || c = '/'

/-- A simple word, or nothing where none is typed yet. -/
structure Simple where
  text : Text
  chars : text.all isSimpleChar = true

/-- What may stand before a key. -/
inductive Sign where
  | none
  | not
  | minus

/-- How a sign is written. -/
def Sign.text : Sign → Text
  | none => []
  | not => ['!']
  | minus => ['-']

namespace Draft

/-- An entry of a filter, as far as it is typed. -/
structure Entry where
  sign : Sign
  key : Simple
  value? : Option Simple

namespace Entry

/-- The key of an entry with its sign. -/
def name (e : Entry) : Text := e.sign.text ++ e.key.text

/-- The value of an entry with its colon. -/
def tail (e : Entry) : Text := (e.value?.map fun v => ':' :: v.text).getD []

/-- How an entry is written. -/
def text (e : Entry) : Text := e.name ++ e.tail

/-- The lexemes of an entry behind its key. -/
def tailLexemes (e : Entry) : List Lexeme :=
  (e.value?.map fun v => (.colon, [':']) :: scan metricsMarks v.text).getD []

/-- The lexemes of an entry. -/
def lexemes (e : Entry) : List Lexeme := scan metricsMarks e.name ++ e.tailLexemes

end Entry

end Draft

/-- A query whose filter is being typed. What stands before the brace is made of simple words and colons. -/
structure Draft where
  head : Text
  headChars : head.all (fun c => isSimpleChar c || c = ':') = true
  entries : List Draft.Entry
  filled : entries ≠ []
  closed : Bool

/-- How a query is written. -/
def Draft.text (d : Draft) : Text := listing d.head (d.entries.map Draft.Entry.text) d.closed

/-- A character that stands in such a query: it begins no placeholder, and ends no line. -/
def isDraftChar (c : Char) : Bool := c != '$' && c != '[' && c != '\n'

/-- What simple characters are: plain, not masked, and neither signs nor marks. -/
theorem plain_of_isSimpleChar {c : Char} (h : isSimpleChar c = true) :
    isPlain metricsMarks c = true ∧ isDraftChar c = true ∧ isBlank c = false ∧ c ≠ '!' ∧ c ≠ '-' := by
  have small : c.toNat < 128 := by
    simp only [isSimpleChar, Bool.or_eq_true, decide_eq_true_eq] at h
    rcases h with ((alphanumeric | rfl) | rfl) | rfl
    · exact toNat_lt_of_isAlphanum alphanumeric
    all_goals decide
  exact holds_of_ascii (P := fun c => isSimpleChar c = true →
    isPlain metricsMarks c = true ∧ isDraftChar c = true ∧ isBlank c = false ∧ c ≠ '!' ∧ c ≠ '-')
    (by decide +kernel) small h

/-- A run of plain characters reads as words. -/
theorem reads_plain {t : Text} (plain : ∀ c ∈ t, isPlain metricsMarks c = true) :
    Reads metricsMarks t (scan metricsMarks t) ∧ ∀ l ∈ scan metricsMarks t, l.1 = .word := by
  have reads : ∃ ls, Reads metricsMarks t ls ∧ ∀ l ∈ ls, l.1 = .word := by
    by_cases empty : t = []
    · exact ⟨[], empty ▸ .nil, by simp⟩
    · exact ⟨[(.word, t)], .word empty plain, by simp⟩
  obtain ⟨ls, reads, words⟩ := reads
  rw [scan_of_reads reads]
  exact ⟨reads, words⟩

theorem Sign.chars (s : Sign) : ∀ c ∈ s.text,
    isPlain metricsMarks c = true ∧ isDraftChar c = true ∧ isBlank c = false := by
  cases s <;> simp [Sign.text] <;> decide

namespace Draft.Entry

variable (e : Entry)

theorem name_chars (c : Char) (mem : c ∈ e.name) :
    isPlain metricsMarks c = true ∧ isDraftChar c = true ∧ isBlank c = false := by
  rcases List.mem_append.1 mem with sign | key
  · exact e.sign.chars c sign
  · obtain ⟨plain, unmasked, inked, -⟩ := plain_of_isSimpleChar (List.all_eq_true.1 e.key.chars c key)
    exact ⟨plain, unmasked, inked⟩

theorem reads_name : Reads metricsMarks e.name (scan metricsMarks e.name) ∧
    ∀ l ∈ scan metricsMarks e.name, l.1 = .word :=
  reads_plain fun c mem => (e.name_chars c mem).1

/-- An entry is cut into its lexemes. -/
theorem reads : Reads metricsMarks e.text e.lexemes := by
  have tail : Reads metricsMarks e.tail e.tailLexemes ∧ Stops metricsMarks e.tail := by
    unfold tail tailLexemes
    cases e.value? with
    | none => exact ⟨.nil, .nil⟩
    | some v =>
      have value := reads_plain fun c mem => (plain_of_isSimpleChar (List.all_eq_true.1 v.chars c mem)).1
      exact ⟨.mark rfl (by decide) value.1, stops_mark rfl _⟩
  exact e.reads_name.1.append tail.1 tail.2

/-- An entry is made of words and colons. -/
theorem kind_of_mem_lexemes : ∀ l ∈ e.lexemes, l.1 = .word ∨ l.1 = .colon := by
  intro l mem
  rcases List.mem_append.1 mem with name | tail
  · exact .inl (e.reads_name.2 l name)
  · unfold tailLexemes at tail
    cases same : e.value? with
    | none => simp [same] at tail
    | some v =>
      simp only [same, Option.map_some, Option.getD_some, List.mem_cons] at tail
      rcases tail with rfl | value
      · exact .inr rfl
      · have words := reads_plain fun c mem => (plain_of_isSimpleChar (List.all_eq_true.1 v.chars c mem)).1
        exact .inl (words.2 l value)

theorem tail_chars (c : Char) (mem : c ∈ e.tail) : isDraftChar c = true := by
  unfold tail at mem
  cases same : e.value? with
  | none => simp [same] at mem
  | some v =>
    simp only [same, Option.map_some, Option.getD_some, List.mem_cons] at mem
    rcases mem with rfl | value
    · decide
    · exact (plain_of_isSimpleChar (List.all_eq_true.1 v.chars c value)).2.1

end Draft.Entry

namespace Draft

variable (d : Draft)

theorem head_chars (c : Char) (mem : c ∈ d.head) :
    (isPlain metricsMarks c = true ∨ c = ':') ∧ isDraftChar c = true := by
  have fits := List.all_eq_true.1 d.headChars c mem
  simp only [Bool.or_eq_true, decide_eq_true_eq] at fits
  rcases fits with simple | rfl
  · obtain ⟨plain, unmasked, -⟩ := plain_of_isSimpleChar simple
    exact ⟨.inl plain, unmasked⟩
  · exact ⟨.inr rfl, by decide⟩

theorem text_chars (c : Char) (mem : c ∈ d.text) : isDraftChar c = true := by
  have inner : ∀ c ∈ Text.joinWith [','] (d.entries.map Entry.text), isDraftChar c = true := by
    refine Text.forall_mem_joinWith (List.forall_mem_singleton.2 rfl) fun t among => ?_
    obtain ⟨e, -, rfl⟩ := List.mem_map.1 among
    exact List.forall_mem_append.2 ⟨fun c mem => (e.name_chars c mem).2.1, e.tail_chars⟩
  rcases List.mem_append.1 mem with head | filter
  · exact (d.head_chars c head).2
  · rcases List.mem_cons.1 filter with rfl | later
    · decide
    · rcases List.mem_append.1 later with entry | close
      · exact inner c entry
      · revert close
        cases d.closed <;> simp only [Bool.false_eq_true, if_false, if_true]
        · intro none; cases none
        · intro last
          rw [List.mem_singleton.1 last]
          decide

theorem mask_text : Text.mask d.text = d.text := by
  refine Text.mask_of_plain fun c mem => ?_
  have fits := d.text_chars c mem
  simp only [isDraftChar, Bool.and_eq_true, bne_iff_ne] at fits
  exact fits.1

theorem inside (c : Char) (mem : c ∈ d.text) : Text.insideLine c = true := by
  have fits := d.text_chars c mem
  simp only [isDraftChar, Bool.and_eq_true] at fits
  exact fits.2

/-- A query up to the entry behind some others. -/
def upTo (before : List Entry) : Text := listingUpTo d.head (before.map Entry.text)

/-- What stands behind an entry, if others come behind it. -/
def behind (after : List Entry) : Text := listingBehind (after.map Entry.text) d.closed

theorem text_split {before after : List Entry} {e : Entry} (same : d.entries = before ++ e :: after) :
    d.text = d.upTo before ++ e.text ++ d.behind after := by
  rw [text, same, List.map_append, List.map_cons, listing_split]
  rfl

theorem contextOf_eq (cursor : Int) : contextOf d.text cursor =
    ((Reading.of d.text).contextAt (d.text.clamp cursor)).located (d.text.clamp cursor) ⟨d.text, 0⟩ := by
  have inked : d.text.hasInk = true := List.any_eq_true.2 ⟨'{', by simp [text, listing], by decide⟩
  simp only [contextOf, Text.lineAt_of_inside d.inside, inked, if_true, Nat.sub_zero]

/-- An entry is a segment of the line. -/
theorem exists_entry_segment {before after : List Entry} {e : Entry} (same : d.entries = before ++ e :: after) :
    ∃ front passed later close, Segment d.text front passed e.lexemes later close ∧
      Segment.start front passed = (d.upTo before).length ∧ spell front = d.head ∧
      close.length = if d.closed then 1 else 0 := by
  have units : Units (fun c => isPlain metricsMarks c || c = ':') d.head := by
    refine .of_forall fun c mem => ⟨by simpa using (d.head_chars c mem).1, ?_⟩
    rintro rfl
    rcases (d.head_chars _ mem).1 with plain | colon
    · simp [isPlain] at plain
    · cases colon
  obtain ⟨front, reads, kinds⟩ := exists_reads (show metricsMarks ':' = some .colon from rfl) (by decide) rfl
    (fun c fits => by simpa using fits) units
  have line : Text.mask d.text = listing d.head ((before ++ e :: after).map Entry.text) d.closed := by
    rw [d.mask_text, text, same]
  obtain ⟨segment, start⟩ := segment_of_mask reads kinds Entry.reads Entry.kind_of_mem_lexemes line
  exact ⟨front, _, _, _, segment, start, spell_of_reads reads, length_closingLexemes d.closed⟩

/-- The part of an entry that is typed at a place in it. -/
theorem slice_entry {before after : List Entry} {e : Entry} (same : d.entries = before ++ e :: after) {n : Nat}
    (within : n ≤ e.text.length) :
    d.text.slice (d.upTo before).length ((d.upTo before).length + n) = e.text.take n := by
  rw [d.text_split same, Text.slice_part _ _ _ within]

/-- Where a key is typed the cursor stands in an entry. -/
theorem exists_entry {cursor : Int} (place : (contextOf d.text cursor).place = .filterKey) :
    ∃ before e after n, d.entries = before ++ e :: after ∧ n ≤ e.text.length ∧
      d.text.clamp cursor = (d.upTo before).length + n := by
  rw [d.contextOf_eq] at place
  have inner : ∃ i ≤ (Text.joinWith [','] (d.entries.map Entry.text)).length,
      d.text.clamp cursor = d.head.length + 1 + i := by
    obtain ⟨e, more, same⟩ := List.exists_cons_of_ne_nil d.filled
    obtain ⟨front, passed, later, close, segment, -, head, closing⟩ :=
      d.exists_entry_segment (show d.entries = [] ++ e :: more from same)
    obtain ⟨above, below⟩ := segment.bounds_of_typed (.inl place)
    rw [head] at above
    have length : d.text.length = d.head.length + 1 +
        (Text.joinWith [','] (d.entries.map Entry.text)).length + close.length := by
      rw [closing, text, listing]
      cases d.closed <;> simp <;> omega
    exact ⟨d.text.clamp cursor - (d.head.length + 1), by omega, by omega⟩
  obtain ⟨i, bound, position⟩ := inner
  obtain ⟨before, e, after, n, split, within, there⟩ := exists_listed Entry.text d.head d.filled bound
  exact ⟨before, e, after, n, split, within, position.trans there⟩

/-- Where a key is typed the cursor stands in the key of an entry, or before it. -/
theorem exists_place {cursor : Int} (place : (contextOf d.text cursor).place = .filterKey) :
    ∃ before e after n, d.entries = before ++ e :: after ∧ n ≤ e.name.length ∧
      d.text.clamp cursor = (d.upTo before).length + n ∧ (contextOf d.text cursor).token = e.name.take n := by
  obtain ⟨before, e, after, n, split, within, start⟩ := d.exists_entry place
  rw [d.contextOf_eq] at place ⊢
  obtain ⟨front, passed, later, close, segment, begins, -⟩ := d.exists_entry_segment split
  rw [start, ← begins] at place ⊢
  have name : spell (scan metricsMarks e.name) = e.name := flatten_scan metricsMarks e.name
  by_cases typed : n ≤ e.name.length
  · have found := segment.contextAt_key e.reads_name.2 (n := n) (by rwa [name])
    refine ⟨before, e, after, n, split, typed, begins ▸ rfl, found.2.trans ?_⟩
    rw [begins, d.slice_entry split within, Entry.text, List.take_append_of_le_length typed]
  · -- behind the key stands a colon, and then a value is typed
    have valued : ∃ v, e.value? = some v := by
      cases same : e.value? with
      | some v => exact ⟨v, rfl⟩
      | none =>
        simp only [Entry.text, Entry.tail, same, Option.map_none, Option.getD_none, List.append_nil] at within
        exact absurd within typed
    obtain ⟨v, value⟩ := valued
    have lexemes : e.lexemes = scan metricsMarks e.name ++ (.colon, [':']) :: scan metricsMarks v.text := by
      simp [Entry.lexemes, Entry.tailLexemes, value]
    have spelled : spell e.lexemes = e.text := spell_of_reads e.reads
    rw [lexemes] at segment spelled
    have found := segment.contextAt_value e.reads_name.2 (n := n) (by rw [name]; omega) (by rwa [spelled])
    have place : ((Reading.of d.text).contextAt (Segment.start front passed + n)).place = .filterKey := place
    rw [found.1] at place
    cases place

end Draft

end Typeahead.Metrics
