import Typeahead.Proofs.Metrics.Tags
import Typeahead.Proofs.Token.Seams

/-!
Metrics lines that end with a grouping, `head by {tags}`, where there may be blanks around the tags, and slots
without a tag.

- `Slot`, `Grouped`: such lines.
- `Grouped.groupings_eq`: the grouping is found.
- `Grouped.contextOf_slot`, `Grouped.exists_slot`: what is typed in it.
-/

namespace Typeahead.Metrics

open Lexer

/-- Blanks within a line. -/
structure Gap where
  text : Text
  blank : (text.all fun c => isBlank c && Text.insideLine c) = true

namespace Gap

variable (g : Gap)

theorem isBlank (c : Char) (mem : c ∈ g.text) : isBlank c = true ∧ Text.insideLine c = true := by
  simpa using List.all_eq_true.1 g.blank c mem

/-- The lexemes of blanks. -/
def lexemes : List Lexeme := if g.text = [] then [] else [(.blank, g.text)]

theorem kind_of_mem_lexemes : ∀ l ∈ g.lexemes, l.1 = .blank := by
  unfold lexemes
  split <;> simp

theorem scan_eq {rest : Text} (inked : ∀ c ∈ rest.head?, Typeahead.isBlank c = false) :
    scan metricsMarks (g.text ++ rest) = g.lexemes ++ scan metricsMarks rest := by
  unfold lexemes
  split
  · next empty => rw [empty, List.nil_append, List.nil_append]
  · next filled => exact (Ended.blanks filled fun c mem => (g.isBlank c mem).1).scan inked

end Gap

/-- What stands between two commas of a grouping: blanks, and a tag among them unless the slot is vacant. -/
inductive Slot where
  | vacant (gap : Gap)
  | tag (left : Gap) (name : TagName) (right : Gap)

namespace Slot

/-- How a slot is written. -/
def text : Slot → Text
  | vacant gap => gap.text
  | tag left name right => left.text ++ name.text ++ right.text

/-- The tags of a slot. -/
def tags : Slot → List Text
  | vacant _ => []
  | tag _ name _ => [name.text]

/-- The lexemes of a slot. -/
def lexemes : Slot → List Lexeme
  | vacant gap => gap.lexemes
  | tag left name right => left.lexemes ++ (.word, name.text) :: right.lexemes

variable (s : Slot)

theorem kind_of_mem_lexemes : ∀ l ∈ s.lexemes, l.1 = .blank ∨ l.1 = .word := by
  intro l mem
  cases s with
  | vacant gap => exact .inl (gap.kind_of_mem_lexemes l mem)
  | tag left name right =>
    rcases List.mem_append.1 mem with blank | later
    · exact .inl (left.kind_of_mem_lexemes l blank)
    · rcases List.mem_cons.1 later with rfl | blank
      · exact .inr rfl
      · exact .inl (right.kind_of_mem_lexemes l blank)

/-- A character of a slot is blank, or one of a simple name. -/
theorem chars (c : Char) (mem : c ∈ s.text) :
    isBlank c = true ∧ Text.insideLine c = true ∨ isKeyChar c = true := by
  cases s with
  | vacant gap => exact .inl (gap.isBlank c mem)
  | tag left name right =>
    simp only [text, List.mem_append] at mem
    rcases mem with (blank | key) | blank
    · exact .inl (left.isBlank c blank)
    · exact .inr (List.all_eq_true.1 name.chars c key)
    · exact .inl (right.isBlank c blank)

/-- Slots are not masked, and in line; there are no marks in them. -/
theorem plain (c : Char) (mem : c ∈ s.text) :
    c ≠ '$' ∧ c ≠ '[' ∧ Text.insideLine c = true ∧ c ≠ ',' ∧ c ≠ '{' ∧ c ≠ '}' := by
  rcases s.chars c mem with ⟨blank, inLine⟩ | key
  · refine ⟨?_, ?_, inLine, ?_, ?_, ?_⟩ <;> (rintro rfl; revert blank; decide)
  · obtain ⟨plain, unmasked, -⟩ := plain_of_isKeyChar key
    obtain ⟨noDollar, noBracket⟩ := unmasked_of_isDraftChar unmasked
    refine ⟨noDollar, noBracket, insideLine_of_isDraftChar unmasked, ?_, ?_, ?_⟩ <;> (rintro rfl; revert plain; decide)

/-- A slot is cut into its lexemes, in front of a comma or a brace. -/
theorem scan_eq {rest : Text} (ends : Ends rest) :
    scan metricsMarks (s.text ++ rest) = s.lexemes ++ scan metricsMarks rest := by
  have inked : ∀ c ∈ rest.head?, isBlank c = false := by
    intro c mem
    rcases ends c mem with rfl | rfl <;> decide
  cases s with
  | vacant gap => exact gap.scan_eq inked
  | tag left name right =>
    have begins : ∀ c ∈ (name.text ++ (right.text ++ rest)).head?, isBlank c = false := by
      intro c mem
      obtain ⟨d, more, same⟩ := List.exists_cons_of_ne_nil name.nonempty
      obtain rfl : d = c := by simpa [same] using mem
      exact name.inked d (by simp [same])
    have stops : Stops metricsMarks (right.text ++ rest) := by
      intro c mem
      have marked : isBlank c = true ∨ c = ',' ∨ c = '}' := by
        cases blanks : right.text with
        | nil => exact .inr (ends c (by simpa [blanks] using mem))
        | cons d more =>
          obtain rfl : d = c := by simpa [blanks] using mem
          exact .inl (right.isBlank d (by simp [blanks])).1
      rcases marked with blank | rfl | rfl
      · refine ⟨by simp [isPlain, blank], ?_⟩
        rintro rfl
        revert blank
        decide
      · decide
      · decide
    simp only [text, lexemes, List.append_assoc, List.cons_append]
    rw [left.scan_eq begins, name.reads _ stops, right.scan_eq inked]
    rfl

theorem spell_lexemes : spell s.lexemes = s.text := by
  have cut := s.scan_eq (show Ends [] from fun c mem => (by cases mem))
  rw [List.append_nil, scan, List.append_nil] at cut
  rw [← cut, spell_scan]

end Slot

/-- Pieces are cut into lexemes one by one, if each is so in front of a comma or a brace. -/
theorem scan_separated {α : Type} {text : α → Text} {lexemes : α → List Lexeme}
    (own : ∀ x rest, Ends rest → scan metricsMarks (text x ++ rest) = lexemes x ++ scan metricsMarks rest)
    (xs : List α) {rest : Text} (ends : Ends rest) :
    scan metricsMarks (Text.joinWith [','] (xs.map text) ++ rest) =
      separated (xs.map lexemes) ++ scan metricsMarks rest := by
  induction xs with
  | nil => rfl
  | cons x xs ih =>
    cases xs with
    | nil => exact own x rest ends
    | cons y ys =>
      have comma : Ends (',' :: (Text.joinWith [','] ((y :: ys).map text) ++ rest)) :=
        fun c mem => .inl (by simpa using mem.symm)
      have first := own x _ comma
      rw [scan_mark (show metricsMarks ',' = some .comma from rfl) (by decide), ih] at first
      simpa [Text.joinWith, separated] using first

/-- What is separated by commas is a comma or part of a piece. -/
theorem of_mem_separated {pieces : List (List Lexeme)} {l : Lexeme} (mem : l ∈ separated pieces) :
    l = (.comma, [',']) ∨ ∃ ls ∈ pieces, l ∈ ls := by
  induction pieces with
  | nil => cases mem
  | cons ls pieces ih =>
    cases pieces with
    | nil => exact .inr ⟨ls, List.mem_cons_self, mem⟩
    | cons ls' pieces =>
      rcases List.mem_append.1 mem with here | later
      · exact .inr ⟨ls, List.mem_cons_self, here⟩
      · rcases List.mem_cons.1 later with rfl | later
        · exact .inl rfl
        · exact (ih later).imp_right fun ⟨ls, among, own⟩ => ⟨ls, List.mem_cons_of_mem _ among, own⟩

/-- Where no grouping is, none begins if more tokens follow, unless they begin with a brace. -/
theorem groupingFrom?_followedBy {r : Reading} (r' : Reading) {f : Focus} (ungrouped : r.groupingFrom? f = none)
    {more : List Token} (braceless : ∀ t ∈ more.take 2, t.kind ≠ .openBrace) :
    r'.groupingFrom? (f.followedBy more) = none := by
  obtain ⟨before, token, after⟩ := f
  rcases after with _ | ⟨t, _ | ⟨t', after⟩⟩
  · exact groupingFrom?_of_braceless _ braceless
  · unfold Reading.groupingFrom? Focus.followedBy
    cases more with
    | nil => rfl
    | cons brace more =>
      have closed : brace.kind ≠ .openBrace := braceless brace List.mem_cons_self
      simp [closed]
  · let begins := isBy ⟨before, token, t :: t' :: after⟩ && decide (t.kind = .blank) && decide (t'.kind = .openBrace)
    change (if begins then some (r.spanFrom t' after) else none) = none at ungrouped
    change (if begins then some (r'.spanFrom t' (after ++ more)) else none) = none
    rw [ite_eq_right_iff] at ungrouped ⊢
    intro found
    cases ungrouped found

/-- A metrics line that ends with a grouping. Its head has none, and a blank behind the head is a token of its own. -/
structure Grouped where
  head : Text
  inLine : ∀ c ∈ head, Text.insideLine c = true
  apart : scan metricsMarks (Text.mask head ++ [' ']) = scan metricsMarks (Text.mask head) ++ [(.blank, [' '])]
  ungrouped : (Reading.of head).groupings = []
  slots : List Slot
  filled : slots ≠ []
  closed : Bool

namespace Grouped

/-- The grouping of a metric with a simple name. -/
def named (metric : TagName) (slots : List Slot) (filled : slots ≠ []) (closed : Bool) : Grouped where
  head := metric.text
  inLine c mem := insideLine_of_isDraftChar (metric.plain c mem).2
  apart := by
    have unmasked : Text.mask metric.text = metric.text :=
      Text.mask_of_plain fun c mem => unmasked_of_isDraftChar (metric.plain c mem).2
    have blank : scan metricsMarks [' '] = [(.blank, [' '])] := by decide +kernel
    rw [unmasked, metric.scan_eq, metric.reads [' '] (.cons (by decide) (by decide) []), blank]
  ungrouped := by
    have unmasked : Text.mask metric.text = metric.text :=
      Text.mask_of_plain fun c mem => unmasked_of_isDraftChar (metric.plain c mem).2
    rw [Reading.of, tokens_of_reads unmasked metric.reads]
    rfl
  slots
  filled
  closed

variable (g : Grouped)

/-- What stands behind the head. -/
def tail : Text := listing " by ".toList (g.slots.map Slot.text) g.closed

/-- How a line is written. -/
def text : Text := listing (g.head ++ " by ".toList) (g.slots.map Slot.text) g.closed

/-- A line up to the slot behind some others. -/
def upTo (before : List Slot) : Text := listingUpTo (g.head ++ " by ".toList) (before.map Slot.text)

/-- What stands behind a slot, if others come behind it. -/
def behind (after : List Slot) : Text := listingBehind (after.map Slot.text) g.closed

/-- The lexemes of the keyword and the brace. -/
def opening : List Lexeme := [(.blank, [' ']), (.word, "by".toList), (.blank, [' ']), (.openBrace, ['{'])]

/-- The lexemes behind the head. -/
def tailLexemes : List Lexeme := opening ++ (separated (g.slots.map Slot.lexemes) ++ closingLexemes g.closed)

theorem text_eq : g.text = g.head ++ g.tail := by
  simp [text, tail, listing]

theorem text_split {before after : List Slot} {s : Slot} (same : g.slots = before ++ s :: after) :
    g.text = g.upTo before ++ s.text ++ g.behind after := by
  rw [text, same, List.map_append, List.map_cons, listing_split]
  rfl

/-- Behind the head nothing is masked, and nothing ends the line. -/
theorem tail_plain (c : Char) (mem : c ∈ g.tail) : c ≠ '$' ∧ c ≠ '[' ∧ Text.insideLine c = true := by
  have inner : ∀ c ∈ Text.joinWith [','] (g.slots.map Slot.text), c ≠ '$' ∧ c ≠ '[' ∧ Text.insideLine c = true := by
    refine Text.forall_mem_joinWith (List.forall_mem_singleton.2 (by decide)) ?_
    intro t among
    obtain ⟨s, -, rfl⟩ := List.mem_map.1 among
    intro c mem
    obtain ⟨noDollar, noBracket, inLine, -⟩ := s.plain c mem
    exact ⟨noDollar, noBracket, inLine⟩
  rcases List.mem_append.1 mem with keyword | list
  · have keywords : " by ".toList.all isDraftChar = true := by decide
    have unmasked := List.all_eq_true.1 keywords c keyword
    obtain ⟨noDollar, noBracket⟩ := unmasked_of_isDraftChar unmasked
    exact ⟨noDollar, noBracket, insideLine_of_isDraftChar unmasked⟩
  · rcases List.mem_cons.1 list with rfl | later
    · decide
    · rcases List.mem_append.1 later with slot | close
      · exact inner c slot
      · revert close
        cases g.closed <;> simp
        rintro rfl
        decide

theorem inside (c : Char) (mem : c ∈ g.text) : Text.insideLine c = true := by
  rw [text_eq] at mem
  rcases List.mem_append.1 mem with head | tail
  · exact g.inLine c head
  · exact (g.tail_plain c tail).2.2

/-- No placeholder reaches out of the head. -/
theorem mask_text : Text.mask g.text = Text.mask g.head ++ g.tail := by
  have unmasked : Text.mask g.tail = g.tail :=
    Text.mask_of_plain fun c mem => ⟨(g.tail_plain c mem).1, (g.tail_plain c mem).2.1⟩
  have blank : ∀ c ∈ g.tail.head?, isBlank c = true := by
    intro c mem
    obtain rfl : ' ' = c := Option.some.inj mem
    decide
  rw [text_eq, Text.mask_append_blank blank, unmasked]

/-- Behind the head the line is cut into the lexemes of the keyword, of the slots and of the brace. -/
theorem scan_tail : scan metricsMarks g.tail = g.tailLexemes := by
  let list := Text.joinWith [','] (g.slots.map Slot.text) ++ if g.closed then ['}'] else []
  have closing : Ends (if g.closed then ['}'] else []) ∧
      scan metricsMarks (if g.closed then ['}'] else []) = closingLexemes g.closed := by
    cases g.closed with
    | false => exact ⟨fun c mem => (by cases mem), by simp [scan, closingLexemes]⟩
    | true =>
      constructor
      · intro c mem
        exact .inr (by simpa using mem.symm)
      · rw [if_pos rfl, scan_mark (show metricsMarks '}' = some .closeBrace from rfl) (by decide), scan]
        rfl
  have blank (rest : Text) (inked : ∀ c ∈ rest.head?, isBlank c = false) :
      scan metricsMarks (' ' :: rest) = (.blank, [' ']) :: scan metricsMarks rest :=
    (Ended.blanks (List.cons_ne_nil ' ' []) (List.forall_mem_singleton.2 (by decide))).scan inked
  have keyword : scan metricsMarks ("by".toList ++ ' ' :: '{' :: list) =
      [(.word, "by".toList)] ++ scan metricsMarks (' ' :: '{' :: list) :=
    Reads.word (by decide) (List.all_eq_true.1 (by decide)) _ (.cons (by decide) (by decide) _)
  have parts : g.tail = ' ' :: ("by".toList ++ ' ' :: '{' :: list) := rfl
  rw [parts, blank _ (fun c mem => ?_), keyword, blank _ (fun c mem => ?_),
    scan_mark (show metricsMarks '{' = some .openBrace from rfl) (by decide),
    scan_separated (fun s rest => s.scan_eq) g.slots closing.1, closing.2]
  · rfl
  · obtain rfl : '{' = c := Option.some.inj mem
    decide
  · obtain rfl : 'b' = c := Option.some.inj mem
    decide

/-- The head keeps its lexemes, and behind it stand those of the grouping. -/
theorem scanned : scan metricsMarks (Text.mask g.text) = scan metricsMarks (Text.mask g.head) ++ g.tailLexemes := by
  have spelled : spell (scan metricsMarks (Text.mask g.head)) = Text.mask g.head := spell_scan ..
  have inLine : ∀ x ∈ spell (scan metricsMarks (Text.mask g.head)) ++ [' '], x ≠ '\n' := by
    rw [spelled]
    exact List.forall_mem_append.2 ⟨Text.mask_inLine g.inLine, List.forall_mem_singleton.2 (by decide)⟩
  have cut := scan_front inLine (by decide) (by rw [spelled, g.apart]) g.tail.tail
  rw [spelled] at cut
  rw [mask_text, ← scan_tail]
  exact cut

theorem spell_tailLexemes : spell g.tailLexemes = g.tail := by
  rw [← scan_tail, spell_scan]

/-- The tokens of the line are those of its head, and behind it those of the grouping. -/
theorem tokens_eq : (Reading.of g.text).tokens = (Reading.of g.head).tokens ++ lay g.head.length g.tailLexemes := by
  have spelled : spell (scan metricsMarks (Text.mask g.head)) = Text.mask g.head := spell_scan ..
  have head : place 0 g.text (scan metricsMarks (Text.mask g.head)) = (Reading.of g.head).tokens := by
    apply place_congr
    rw [spelled, Text.length_mask, text_eq, List.take_left, List.take_length]
  change place 0 g.text (scan metricsMarks (Text.mask g.text)) = _
  rw [scanned, place_append, head, spelled, Text.length_mask, text_eq, List.drop_left, Nat.zero_add,
    ← g.spell_tailLexemes, place_spell]

/-- What stands between the braces. -/
def list : Text := Text.joinWith [','] (g.slots.map Slot.text)

/-- The braces of the grouping. -/
def span : Span := ⟨g.head.length + 4, g.head.length + 5 + g.list.length⟩

theorem spell_slots : spell (separated (g.slots.map Slot.lexemes)) = g.list := by
  have cut := scan_separated (fun s rest => s.scan_eq) g.slots (show Ends [] from fun c mem => (by cases mem))
  rw [List.append_nil, scan, List.append_nil] at cut
  rw [← cut, spell_scan, list]

theorem length_text : g.text.length = g.head.length + 5 + g.list.length + if g.closed then 1 else 0 := by
  cases closed : g.closed <;> simp [text, listing, list, closed] <;> omega

/-- Between the braces there is no other one. -/
theorem braceless (n : Nat) : ∀ t ∈ lay n (separated (g.slots.map Slot.lexemes)),
    t.kind ≠ .openBrace ∧ t.kind ≠ .closeBrace := by
  intro t
  apply kind_of_mem_lay (p := fun k => k ≠ .openBrace ∧ k ≠ .closeBrace)
  intro l mem
  rcases of_mem_separated mem with rfl | ⟨ls, among, own⟩
  · simp
  · obtain ⟨s, -, rfl⟩ := List.mem_map.1 among
    rcases s.kind_of_mem_lexemes l own with kind | kind <;> simp [kind]

/-- The tokens of the list, and of the brace behind it. -/
def innerTokens : List Token :=
  lay (g.head.length + 5) (separated (g.slots.map Slot.lexemes) ++ closingLexemes g.closed)

theorem spanFrom_eq {brace : Token} (there : brace.start = g.head.length + 4) :
    (Reading.of g.text).spanFrom brace g.innerTokens = g.span := by
  have length := g.length_text
  have inner := g.braceless (g.head.length + 5)
  rw [Reading.spanFrom, span, there, innerTokens]
  cases closed : g.closed with
  | false =>
    rw [closed] at length
    rw [closingLexemes, if_neg Bool.false_ne_true, List.append_nil, closingBrace?_eq_none inner, Option.getD_none]
    exact congrArg (Span.mk _) length
  | true =>
    rw [closingLexemes, if_pos rfl, lay_append, lay_cons, lay_nil, closingBrace?_eq inner rfl, Option.getD_some,
      spell_slots]

/-- The head has no grouping, also with the tokens of the grouping behind it. -/
theorem groupingFrom?_head : ((focusesFrom [] (Reading.of g.head).tokens).map
    (·.followedBy (lay g.head.length g.tailLexemes))).filterMap (Reading.of g.text).groupingFrom? = [] := by
  apply List.filterMap_eq_nil_iff.2
  intro f mem
  obtain ⟨f, there, rfl⟩ := List.mem_map.1 mem
  have ungrouped := g.ungrouped
  change (focuses (Reading.of g.head).tokens).filterMap (Reading.of g.head).groupingFrom? = [] at ungrouped
  rw [List.filterMap_eq_nil_iff] at ungrouped
  exact groupingFrom?_followedBy _ (ungrouped f there) (by simp [tailLexemes, opening])

/-- No grouping begins between the braces. -/
theorem groupingFrom?_inner (before : List Token) :
    (focusesFrom before g.innerTokens).filterMap (Reading.of g.text).groupingFrom? = [] := by
  apply List.filterMap_eq_nil_iff.2
  intro f mem
  apply groupingFrom?_of_braceless
  intro t next
  have among := List.mem_of_mem_tail (after_subset_tail mem (List.mem_of_mem_take next))
  rw [innerTokens, lay_append] at among
  rcases List.mem_append.1 among with slot | close
  · exact (g.braceless _ t slot).1
  · revert close
    cases g.closed <;> simp [closingLexemes]
    rintro rfl
    simp

/-- The grouping is found, and no other one. -/
theorem groupings_eq : (Reading.of g.text).groupings = [g.span] := by
  have searched : (Reading.of g.text).groupings =
      (focuses (Reading.of g.text).tokens).filterMap (Reading.of g.text).groupingFrom? := rfl
  have tail : lay g.head.length g.tailLexemes = lay g.head.length opening ++ g.innerTokens := by
    rw [tailLexemes, lay_append]
    rfl
  rw [searched, tokens_eq, focuses, focusesFrom_append, List.filterMap_append, g.groupingFrom?_head,
    List.nil_append, tail]
  simp only [opening, lay_cons, lay_nil, List.cons_append, List.nil_append, focusesFrom]
  rw [List.filterMap_cons_none (groupingFrom?_of_kind _ (by simp))]
  rw [List.filterMap_cons, List.filterMap_cons_none (groupingFrom?_of_kind _ (by simp))]
  rw [List.filterMap_cons_none (groupingFrom?_of_kind _ (by simp)), g.groupingFrom?_inner]
  simp only [Reading.groupingFrom?, isBy, Focus.previous?, Focus.next?]
  rw [g.spanFrom_eq rfl]
  rfl

theorem contextOf_eq (cursor : Int) : contextOf g.text cursor =
    ((Reading.of g.text).contextAt (g.text.clamp cursor)).located (g.text.clamp cursor) ⟨g.text, 0⟩ := by
  have inked : g.text.hasInk = true := List.any_eq_true.2 ⟨'{', by simp [text, listing], by decide⟩
  simp only [contextOf, Text.lineAt_of_inside g.inside, inked, if_true, Nat.sub_zero]

theorem groupingAt?_eq (position : Nat) : (Reading.of g.text).groupingAt? position =
    if g.span.contains position then some g.span else none := by
  rw [Reading.groupingAt?, groupings_eq, List.reverse_singleton]
  by_cases started : g.span.start < position
  · rw [List.find?_cons_of_pos (by simpa using started), Option.filter_some]
  · have outside : ¬ g.span.contains position = true := fun inside => started (Span.contains_iff.1 inside).1
    rw [List.find?_cons_of_neg (by simpa using started), if_neg outside]
    rfl

/-- A tag of a grouping is typed in a slot. -/
theorem exists_slot {cursor : Int} (place : (contextOf g.text cursor).place = .groupingTag) :
    ∃ before s after n, g.slots = before ++ s :: after ∧ n ≤ s.text.length ∧
      g.text.clamp cursor = (g.upTo before).length + n := by
  have grouped : g.span.contains (g.text.clamp cursor) = true := by
    by_contra outside
    rw [contextOf_eq] at place
    change ((Reading.of g.text).contextAt (g.text.clamp cursor)).place = .groupingTag at place
    rw [Reading.contextAt, groupingAt?_eq, if_neg outside] at place
    dsimp only at place
    split at place
    · simp only [Reading.filterContext] at place
      split at place
      · cases place
      · split at place <;> cases place
    · simp only [Reading.outerContext] at place
      split at place <;> cases place
  obtain ⟨above, below⟩ := Span.contains_iff.1 grouped
  simp only [span] at above below
  obtain ⟨before, s, after, n, same, within, there⟩ := exists_listed Slot.text (g.head ++ " by ".toList) g.filled
    (i := g.text.clamp cursor - (g.head.length + 5)) (by rw [← list]; omega)
  refine ⟨before, s, after, n, same, within, ?_⟩
  rw [upTo, ← there, List.length_append]
  change _ = g.head.length + 4 + 1 + _
  omega

/-- The token that is found in a span is one that stands in it. -/
theorem find?_within (r : Reading) (s : Span) (p : Token → Bool) :
    ((r.within s).find? fun f => p f.token).map (·.token) =
      r.tokens.find? fun t => (s.start < t.start && t.start < s.stop) && p t := by
  have tokens (before ts : List Token) : (focusesFrom before ts).map (·.token) = ts := by
    induction ts generalizing before with
    | nil => rfl
    | cons t ts ih => rw [focusesFrom, List.map_cons, ih]
  rw [Reading.within, List.find?_filter]
  nth_rw 2 [← tokens [] r.tokens]
  rw [List.find?_map]
  simp only [focuses, Function.comp_def, Bool.decide_and, Bool.decide_eq_true]

section

variable {before after : List Slot} {s : Slot} (same : g.slots = before ++ s :: after)

/-- Whether a token is a comma of the list, not before a place. -/
def isCommaFrom (position : Nat) (t : Token) : Bool :=
  (g.span.start < t.start && t.start < g.span.stop) && (t.kind = .comma && position ≤ t.start)

/-- The tokens up to the slot behind some others. -/
def tokensUpTo (before : List Slot) : List Token :=
  (Reading.of g.head).tokens ++ lay g.head.length (opening ++ lexemesUpTo Slot.lexemes before)

/-- The tokens behind a slot, if others come behind it. -/
def tokensBehind (n : Nat) (after : List Slot) : List Token :=
  lay n (lexemesBehind Slot.lexemes after ++ closingLexemes g.closed)

theorem length_upTo (before : List Slot) :
    (g.upTo before).length = g.head.length + (spell (opening ++ lexemesUpTo Slot.lexemes before)).length := by
  rw [spell_append, spell_lexemesUpTo Slot.spell_lexemes]
  simp [upTo, listingUpTo, opening, Nat.add_assoc]

/-- A slot stands behind the keyword and the brace. -/
theorem le_upTo (before : List Slot) : g.head.length + 5 ≤ (g.upTo before).length := by
  simp [upTo, listingUpTo]

theorem length_behind (after : List Slot) : (g.behind after).length =
    ((after.map Slot.text).map (',' :: ·)).flatten.length + if g.closed then 1 else 0 := by
  cases closed : g.closed <;> simp [behind, listingBehind, closed]

include same

/-- The tokens of a line, told from one slot. -/
theorem tokens_split : (Reading.of g.text).tokens = g.tokensUpTo before ++ (lay (g.upTo before).length s.lexemes ++
    g.tokensBehind ((g.upTo before).length + s.text.length) after) := by
  have lexemes : g.tailLexemes = (opening ++ lexemesUpTo Slot.lexemes before) ++
      (s.lexemes ++ (lexemesBehind Slot.lexemes after ++ closingLexemes g.closed)) := by
    rw [tailLexemes, same, separated_split]
    simp only [List.append_assoc]
  rw [tokens_eq, lexemes, lay_append, lay_append _ s.lexemes, ← length_upTo, s.spell_lexemes, tokensUpTo,
    tokensBehind, List.append_assoc]

/-- The tokens in front of a slot start in front of it. -/
theorem start_lt_upTo (t : Token) (mem : t ∈ g.tokensUpTo before) : t.start < (g.upTo before).length := by
  have nonempty : ∀ l ∈ opening ++ lexemesUpTo Slot.lexemes before, l.2 ≠ [] := by
    intro l among
    have there : l ∈ scan metricsMarks g.tail := by
      rw [scan_tail, tailLexemes, same, separated_split]
      simp only [List.mem_append] at among ⊢
      exact among.imp_right fun mem => .inl (.inl mem)
    exact scan_ne_nil there
  rcases List.mem_append.1 mem with head | later
  · have first : t.start < 0 + (spell (scan metricsMarks (Text.mask g.head))).length :=
      start_lt_of_mem_place (fun l => scan_ne_nil) head
    rw [spell_scan, Text.length_mask] at first
    rw [length_upTo]
    omega
  · rw [length_upTo]
    exact start_lt_of_mem_lay nonempty later

/-- The comma that ends the entry of a cursor in a slot is searched for behind the slot. -/
theorem comma_slot (n : Nat) : (((Reading.of g.text).within g.span).find? fun f =>
    f.token.kind = .comma && (g.upTo before).length + n ≤ f.token.start).map (·.token) =
      (g.tokensBehind ((g.upTo before).length + s.text.length) after).find?
        (g.isCommaFrom ((g.upTo before).length + n)) := by
  have searched := find?_within (Reading.of g.text) g.span
    fun t => t.kind = .comma && (g.upTo before).length + n ≤ t.start
  have passed : (g.tokensUpTo before).find? (g.isCommaFrom ((g.upTo before).length + n)) = none := by
    apply List.find?_eq_none.2
    intro t mem
    have := g.start_lt_upTo same t mem
    simp only [isCommaFrom, Bool.and_eq_true, decide_eq_true_eq]
    omega
  have own : (lay (g.upTo before).length s.lexemes).find? (g.isCommaFrom ((g.upTo before).length + n)) = none := by
    apply List.find?_eq_none.2
    intro t mem
    have kind := kind_of_mem_lay (p := fun k => k = .blank ∨ k = .word) s.kind_of_mem_lexemes mem
    rcases kind with kind | kind <;> simp [isCommaFrom, kind]
  refine searched.trans ?_
  change (Reading.of g.text).tokens.find? (g.isCommaFrom _) = _
  rw [g.tokens_split same, List.find?_append, passed, Option.none_or, List.find?_append, own, Option.none_or]

variable {n : Nat} (within : n ≤ s.text.length)

include within

/-- A cursor in a slot cuts the tokens. In front of it stand those up to the slot, and blanks and words of it. -/
theorem exists_cut : ∃ xs vs,
    Cut (Reading.of g.text) ((g.upTo before).length + n) (g.tokensUpTo before ++ xs) vs ∧
      ∀ t ∈ xs, g.span.start ≤ t.start ∧ (t.kind = .blank ∨ t.kind = .word) := by
  obtain ⟨xs, ys, split, left, right⟩ := place_split s.text s.lexemes (g.upTo before).length
    ((g.upTo before).length + n)
  nth_rw 1 [← s.spell_lexemes] at split
  rw [place_spell] at split
  refine ⟨xs, ys ++ g.tokensBehind ((g.upTo before).length + s.text.length) after, ⟨?_, ?_, ?_⟩, ?_⟩
  · rw [g.tokens_split same, split]
    simp only [List.append_assoc]
  · intro t mem
    rcases List.mem_append.1 mem with passed | own
    · exact Nat.lt_add_right n (g.start_lt_upTo same t passed)
    · exact left t own
  · intro t mem
    rcases List.mem_append.1 mem with own | later
    · exact right t own
    · exact (Nat.add_le_add_left within _).trans (start_le_of_mem_lay later).1
  · intro t mem
    have among : t ∈ lay (g.upTo before).length s.lexemes := split ▸ List.mem_append_left _ mem
    have starts := (start_le_of_mem_lay among).1
    have above := g.le_upTo before
    constructor
    · simp only [span]
      omega
    · exact kind_of_mem_lay (p := fun k => k = .blank ∨ k = .word) s.kind_of_mem_lexemes among

/-- The segment of a cursor in a slot is the slot. -/
theorem segmentStart_slot : (Reading.of g.text).segmentStart g.span.start ((g.upTo before).length + n)
    (fun k => k = .openBrace || k = .comma) = (g.upTo before).length := by
  obtain ⟨xs, vs, cut, own⟩ := g.exists_cut same within
  -- the token in front of the slot is the brace, or a comma
  obtain ⟨ls, l, last, begins, above⟩ := Segment.exists_last (opening.take 3) (lexemesUpTo_last Slot.lexemes before)
  have front : opening ++ lexemesUpTo Slot.lexemes before = ls ++ [l] := last
  have upTo : (g.upTo before).length = g.head.length + (spell ls).length + l.2.length := by
    rw [length_upTo, front, spell_append, List.length_append, Nat.add_assoc]
    simp
  rw [tokensUpTo, front, lay_append, lay_cons, lay_nil, ← List.append_assoc, List.append_assoc _ [_],
    List.singleton_append] at cut
  refine (cut.segmentStart ?_ (Nat.add_le_add_left above _) ?_).trans ?_
  · rcases begins with kind | kind <;> simp [kind]
  · intro t mem
    obtain ⟨there, kind⟩ := own t mem
    refine ⟨there, ?_⟩
    rcases kind with kind | kind <;> simp [kind]
  · rw [Token.stop, upTo]
    exact Nat.min_eq_left (Nat.le_add_right _ _)

/-- The entry of a cursor in a slot ends with the slot: with the first comma behind the cursor, or the list. -/
theorem stop_slot : ((((Reading.of g.text).within g.span).find? fun f =>
    f.token.kind = .comma && (g.upTo before).length + n ≤ f.token.start).map (·.token.start)).getD g.span.stop =
      (g.upTo before).length + s.text.length := by
  have comma := congrArg (Option.map Token.start) (g.comma_slot same n)
  rw [Option.map_map] at comma
  have length := g.length_text
  have split := congrArg List.length (g.text_split same)
  have above := g.le_upTo before
  have behind := g.length_behind after
  simp only [List.length_append] at split
  refine (congrArg (·.getD g.span.stop) comma).trans ?_
  cases after with
  | nil =>
    have closing : (g.tokensBehind ((g.upTo before).length + s.text.length) []).find?
        (g.isCommaFrom ((g.upTo before).length + n)) = none := by
      apply List.find?_eq_none.2
      intro t mem
      have kind : t.kind = .closeBrace := by
        refine kind_of_mem_lay (p := (· = .closeBrace)) ?_ mem
        cases g.closed <;> simp [lexemesBehind, closingLexemes]
      simp [isCommaFrom, kind]
    rw [closing, Option.map_none, Option.getD_none]
    simp only [List.map_nil, List.flatten_nil, List.length_nil, span] at behind ⊢
    omega
  | cons s' after =>
    obtain ⟨first, more, tokens, kind, there⟩ : ∃ first more,
        g.tokensBehind ((g.upTo before).length + s.text.length) (s' :: after) = first :: more ∧
          first.kind = .comma ∧ first.start = (g.upTo before).length + s.text.length := ⟨_, _, rfl, rfl, rfl⟩
    simp only [List.map_cons, List.flatten_cons, List.length_append, List.length_cons] at behind
    rw [tokens, List.find?_cons_of_pos, Option.map_some, Option.getD_some, there]
    simp only [isCommaFrom, kind, there, span, Bool.and_eq_true, decide_eq_true_eq, true_and]
    omega

/-- Nothing is typed yet at the beginning of a slot, and elsewhere something may be. -/
theorem fresh_slot : ((g.text[(g.upTo before).length + n - 1]?).all fun c => c = '{' || c = ',') = decide (n = 0) := by
  have above := g.le_upTo before
  rw [g.text_split same, List.append_assoc]
  cases n with
  | zero =>
    have last : (g.upTo before ++ (s.text ++ g.behind after))[(g.upTo before).length + 0 - 1]? =
        (g.upTo before).getLast? := by
      rw [List.getElem?_append_left (by omega), List.getLast?_eq_getElem?, Nat.add_zero]
    rw [last]
    rcases listingUpTo_last (g.head ++ " by ".toList) (before.map Slot.text) with brace | comma
    · rw [upTo, brace]
      rfl
    · rw [upTo, comma]
      rfl
  | succ n =>
    have inside : (g.upTo before ++ (s.text ++ g.behind after))[(g.upTo before).length + (n + 1) - 1]? =
        some s.text[n] := by
      rw [List.getElem?_append_right (by omega), List.getElem?_append_left (by omega)]
      have position : (g.upTo before).length + (n + 1) - 1 - (g.upTo before).length = n := by omega
      rw [position, List.getElem?_eq_getElem within]
    obtain ⟨-, -, -, comma, brace, -⟩ := s.plain s.text[n] (List.getElem_mem within)
    rw [inside]
    simp [comma, brace]

/-- In a slot a tag of the grouping is typed: nothing at its beginning, and elsewhere all that is not blank. -/
theorem contextOf_slot : let c := contextOf g.text ((g.upTo before).length + n : Nat)
    c.place = .groupingTag ∧ c.token = if n = 0 then [] else Text.strip s.text := by
  intro c
  have split := congrArg List.length (g.text_split same)
  simp only [List.length_append] at split
  have bound : (g.upTo before).length + n ≤ g.text.length := by omega
  have inside : g.span.contains ((g.upTo before).length + n) = true := by
    have above := g.le_upTo before
    have length := g.length_text
    have behind := g.length_behind after
    exact Span.contains_iff.2 ⟨by simp only [span]; omega, by simp only [span]; omega⟩
  have slice : g.text.slice (g.upTo before).length ((g.upTo before).length + s.text.length) = s.text := by
    rw [g.text_split same, Text.slice_part _ _ _ (Nat.le_refl _), List.take_length]
  have context : c = (((Reading.of g.text).groupingContext g.span ((g.upTo before).length + n)).located
      ((g.upTo before).length + n) ⟨g.text, 0⟩) := by
    rw [show c = _ from g.contextOf_eq _, g.text.clamp_of_le bound, Reading.contextAt, groupingAt?_eq, if_pos inside]
  have fresh := g.fresh_slot same within
  rw [context]
  refine ⟨rfl, ?_⟩
  change (if ((g.text[(g.upTo before).length + n - 1]?).all fun c => c = '{' || c = ',') then [] else
    Text.strip (g.text.slice _ _)) = _
  rw [fresh, g.segmentStart_slot same within, g.stop_slot same within, slice]
  simp only [decide_eq_true_eq]

end

end Grouped

end Typeahead.Metrics
