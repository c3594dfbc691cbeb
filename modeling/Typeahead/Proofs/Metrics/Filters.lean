import Mathlib.Data.List.Basic
import Typeahead.Proofs.Metrics.Segments
import Typeahead.Proofs.Metrics.Spans

/-!
Metrics lines with one filter and without blanks and parentheses, whatever else is written in them: the
segment of a cursor in the filter is its entry, and the first colon there tells a key from a value.

- `Filtered`: the tokens of such a line.
- `Segment.contextAt_key`, `Segment.contextAt_value`: a cursor up to that colon, and one behind it.
-/

namespace Typeahead.Metrics

open Lexer

/-- A line of words and colons, a brace, and words, colons and commas behind it up to another brace. -/
structure Filtered (r : Reading) (front : List Token) (brace : Token) (inner : List Token) : Prop where
  tokens : r.tokens = front ++ brace :: inner
  front : ∀ t ∈ front, t.kind = .word ∨ t.kind = .colon
  opens : brace.kind = .openBrace
  inner : ∀ t ∈ inner, t.kind = .word ∨ t.kind = .colon ∨ t.kind = .comma ∨ t.kind = .closeBrace

namespace Filtered

variable {r : Reading} {front inner : List Token} {brace : Token} (h : Filtered r front brace inner)

include h

/-- There is neither a blank nor a parenthesis. -/
theorem kind_of_mem {t : Token} (mem : t ∈ r.tokens) : t.kind ≠ .blank ∧ t.kind ≠ .openParen := by
  rw [h.tokens] at mem
  rcases List.mem_append.1 mem with passed | later
  · rcases h.front t passed with kind | kind <;> simp [kind]
  · rcases List.mem_cons.1 later with rfl | within
    · simp [h.opens]
    · rcases h.inner t within with kind | kind | kind | kind <;> simp [kind]

theorem neutral_of_mem {t : Token} (mem : t ∈ r.tokens) : t.kind ≠ .openParen ∧ t.kind ≠ .closeParen := by
  rw [h.tokens] at mem
  rcases List.mem_append.1 mem with passed | later
  · rcases h.front t passed with kind | kind <;> simp [kind]
  · rcases List.mem_cons.1 later with rfl | within
    · simp [h.opens]
    · rcases h.inner t within with kind | kind | kind | kind <;> simp [kind]

/-- No grouping is found without blanks. -/
theorem groupings_eq : r.groupings = [] := by
  have searched : r.groupings = (focuses r.tokens).filterMap r.groupingFrom? := rfl
  rw [searched]
  refine List.filterMap_eq_nil_iff.2 fun f mem => ?_
  unfold Reading.groupingFrom?
  split
  · next blank brace rest same =>
    obtain ⟨passed, tokens, -⟩ := mem_focusesFrom mem
    have inked := (h.kind_of_mem (t := blank) (by simp [tokens, same])).1
    simp [inked]
  · rfl

/-- The brace opens the filter. -/
theorem filter?_eq : r.filter? = some (r.spanFrom brace inner) := by
  let opens (f : Focus) : Bool := f.token.kind = .openBrace &&
    !(r.groupings.any fun s => s.start = f.token.start || s.contains f.token.start)
  have searched : r.filter? = ((focuses r.tokens).find? opens).map
      fun f => r.spanFrom f.token f.after := rfl
  have head : ((focusesFrom [] front).map (·.followedBy (brace :: inner))).find? opens = none := by
    refine List.find?_eq_none.2 fun f mem => ?_
    obtain ⟨g, there, rfl⟩ := List.mem_map.1 mem
    have kind := h.front g.token (token_mem_of_mem_focusesFrom there)
    have closed : (g.followedBy (brace :: inner)).token.kind ≠ .openBrace := by
      rcases kind with kind | kind <;> simp [Focus.followedBy, kind]
    simp [opens, closed]
  rw [searched, h.tokens, focuses, focusesFrom_append, List.find?_append, head, Option.none_or, focusesFrom,
    List.find?_cons_of_pos (by simp [opens, h.opens, h.groupings_eq])]
  rfl

/-- Without parentheses there is no list. -/
theorem inList?_eq (s : Span) (position : Nat) : r.inList? s position = none := by
  have none_open : Reading.openParens [] (r.within ⟨s.start, position⟩) = [] := by
    apply openParens_of_unopened
    intro f mem
    exact (h.kind_of_mem (token_mem_of_mem_focusesFrom (List.mem_filter.1 mem).1)).2
  rw [Reading.inList?, none_open]
  rfl

/-- Between the braces only the filter counts. -/
theorem contextAt_eq {position : Nat} (inside : (r.spanFrom brace inner).contains position = true) :
    r.contextAt position = r.filterContext (r.spanFrom brace inner) position := by
  have ungrouped : r.groupingAt? position = none := by
    rw [Reading.groupingAt?, h.groupings_eq]
    rfl
  have filtered : r.filter?.filter (·.contains position) = some (r.spanFrom brace inner) := by
    rw [h.filter?_eq]
    simp [inside]
  rw [Reading.contextAt, ungrouped, filtered]

/-- Outside of the braces neither a key nor a value of a filter is typed. -/
theorem contextAt_outside {position : Nat} (outside : (r.spanFrom brace inner).contains position = false) :
    (r.contextAt position).place = .metricName ∨ (r.contextAt position).place = .aggregatorPrefix := by
  have ungrouped : r.groupingAt? position = none := by
    rw [Reading.groupingAt?, h.groupings_eq]
    rfl
  have unfiltered : r.filter?.filter (·.contains position) = none := by
    rw [h.filter?_eq]
    simp [outside]
  rw [Reading.contextAt, ungrouped, unfiltered]
  simp only [Reading.outerContext]
  split <;> simp

/-- The metric ends at the brace. -/
theorem metricEnd_eq : r.metricEnd = brace.start := by
  have searched : r.metricEnd = ((focuses r.tokens).findSome? metricEnd?).getD r.text.length := rfl
  have passed : ((focusesFrom [] front).map (·.followedBy (brace :: inner))).findSome? metricEnd? = none := by
    refine List.findSome?_eq_none_iff.2 fun f mem => ?_
    obtain ⟨g, there, rfl⟩ := List.mem_map.1 mem
    obtain ⟨passed, same, before⟩ := mem_focusesFrom there
    have closed : (g.followedBy (brace :: inner)).token.kind ≠ .openBrace := by
      rcases h.front g.token (token_mem_of_mem_focusesFrom there) with kind | kind <;> simp [Focus.followedBy, kind]
    have unblank : (g.followedBy (brace :: inner)).previous? ≠ some .blank := by
      intro blank
      obtain ⟨t, first, kind⟩ := Option.map_eq_some_iff.1 blank
      have among : t ∈ passed := by simpa [before, Focus.followedBy] using List.mem_of_mem_head? first
      exact (h.kind_of_mem (t := t) (by rw [h.tokens, same]; simp [among])).1 kind
    simp [metricEnd?, isBy, closed, unblank]
  rw [searched, h.tokens, focuses, focusesFrom_append, List.findSome?_append, passed, Option.none_or, focusesFrom]
  simp [metricEnd?, h.opens]

/-- Without a colon before the brace there is no aggregator. -/
theorem metric?_eq (words : ∀ t ∈ front, t.kind = .word) (behind : ∀ t ∈ inner, brace.start ≤ t.start) :
    r.metric? = Text.stripped? (r.text.slice 0 brace.start) := by
  have colonless : r.aggregatorColon? = none := by
    rw [Reading.aggregatorColon?, h.metricEnd_eq, Option.map_eq_none_iff, List.find?_eq_none]
    intro t mem
    rw [h.tokens] at mem
    rcases List.mem_append.1 mem with passed | later
    · simp [words t passed]
    · rcases List.mem_cons.1 later with rfl | inside
      · simp [h.opens]
      · have := behind t inside
        simp only [Bool.and_eq_true, decide_eq_true_eq]
        omega
  rw [Reading.metric?, h.metricEnd_eq, colonless]

end Filtered

/-- A brace that nothing closes stays open. -/
theorem closingBrace?_eq_none {ts : List Token}
    (braceless : ∀ t ∈ ts, t.kind ≠ .openBrace ∧ t.kind ≠ .closeBrace) : closingBrace? 0 ts = none := by
  induction ts with
  | nil => rfl
  | cons t ts ih =>
    obtain ⟨⟨opens, shuts⟩, later⟩ := List.forall_mem_cons.1 braceless
    rw [← ih later]
    cases kind : t.kind <;> simp_all [closingBrace?]

/-- Whether a lexeme may stand between braces: a word, a colon or a comma. -/
def inFilter (l : Lexeme) : Bool := l.1 = .word || l.1 = .colon || l.1 = .comma

theorem kind_of_inFilter {l : Lexeme} (h : inFilter l = true) : l.1 = .word ∨ l.1 = .colon ∨ l.1 = .comma := by
  simpa [inFilter, or_assoc] using h

/-- A line whose filter has the lexemes `here` between two commas or braces. -/
structure Segment (line : Text) (front passed here later close : List Lexeme) : Prop where
  scanned : scan metricsMarks (Text.mask line) =
    front ++ (.openBrace, ['{']) :: (passed ++ (here ++ (later ++ close)))
  outer : ∀ l ∈ front, l.1 = .word ∨ l.1 = .colon
  earlier : ∀ l ∈ passed, inFilter l = true
  fresh : ∀ l ∈ passed.getLast?, l.1 = .comma
  plain : ∀ l ∈ here, l.1 = .word ∨ l.1 = .colon
  following : ∀ l ∈ later, inFilter l = true
  closing : close = [] ∨ close = [(.closeBrace, ['}'])]

namespace Segment

/-- Where a segment starts. -/
def start (front passed : List Lexeme) : Nat := (spell (front ++ (.openBrace, ['{']) :: passed)).length

/-- The opening brace. -/
def brace (line : Text) (front : List Lexeme) : Token :=
  { kind := .openBrace
    start := (spell front).length
    written := (line.drop (spell front).length).take 1
    masked := ['{'] }

/-- The tokens behind the brace. -/
def inner (line : Text) (front ls : List Lexeme) : List Token :=
  place ((spell front).length + 1) (line.drop ((spell front).length + 1)) ls

/-- The tokens of the segment. -/
def tokens (line : Text) (front passed here : List Lexeme) : List Token :=
  place (start front passed) (line.drop (start front passed)) here

variable {line : Text} {front passed here later close : List Lexeme}

theorem lt_start : (spell front).length < start front passed := by
  simp [start]

/-- The last lexeme before a segment begins it. -/
theorem exists_last (front : List Lexeme) (fresh : ∀ l ∈ passed.getLast?, l.1 = .comma) :
    ∃ ls l, front ++ (.openBrace, ['{']) :: passed = ls ++ [l] ∧ (l.1 = .openBrace ∨ l.1 = .comma) ∧
      (spell front).length ≤ (spell ls).length := by
  rcases List.eq_nil_or_concat' passed with rfl | ⟨passed, last, rfl⟩
  · exact ⟨front, _, rfl, .inl rfl, Nat.le_refl _⟩
  · refine ⟨front ++ (.openBrace, ['{']) :: passed, last, by simp, .inr (fresh last (by simp)), ?_⟩
    simp

section

variable (h : Segment line front passed here later close)

include h

theorem tokens_eq : (Reading.of line).tokens =
    place 0 line (front ++ (.openBrace, ['{']) :: passed) ++ (tokens line front passed here ++
      place (start front passed + (spell here).length) (line.drop (start front passed + (spell here).length))
        (later ++ close)) := by
  change place 0 line (scan metricsMarks (Text.mask line)) = _
  have split : front ++ (.openBrace, ['{']) :: (passed ++ (here ++ (later ++ close))) =
      (front ++ (.openBrace, ['{']) :: passed) ++ (here ++ (later ++ close)) := by simp
  rw [h.scanned, split, place_append 0 line _ (here ++ _), place_append _ _ here, Nat.zero_add, List.drop_drop]
  rfl

theorem length_eq : line.length =
    start front passed + (spell here).length + (spell later).length + close.length := by
  have same := congrArg List.length (flatten_scan metricsMarks (Text.mask line))
  rw [Text.length_mask, h.scanned] at same
  have closed : (spell close).length = close.length := by
    rcases h.closing with rfl | rfl <;> rfl
  rw [← same, start, ← closed]
  change (spell _).length = _
  simp
  omega

theorem filtered : Filtered (Reading.of line) (place 0 line front) (brace line front)
    (inner line front (passed ++ (here ++ (later ++ close)))) := by
  refine ⟨?_, fun t => kind_of_mem_place (p := fun k => k = .word ∨ k = .colon) h.outer, rfl, fun t => ?_⟩
  · change place 0 line (scan metricsMarks (Text.mask line)) = _
    rw [h.scanned, place_append, Nat.zero_add, place]
    simp [brace, inner]
  · refine kind_of_mem_place (p := fun k => k = .word ∨ k = .colon ∨ k = .comma ∨ k = .closeBrace) fun l mem => ?_
    simp only [List.mem_append] at mem
    rcases mem with before | now | after | last
    · rcases kind_of_inFilter (h.earlier l before) with kind | kind | kind <;> simp [kind]
    · rcases h.plain l now with kind | kind <;> simp [kind]
    · rcases kind_of_inFilter (h.following l after) with kind | kind | kind <;> simp [kind]
    · rcases h.closing with rfl | rfl
      · cases last
      · rw [List.mem_singleton.1 last]
        simp

/-- The braces of the filter. -/
theorem stop_eq : ((Reading.of line).spanFrom (brace line front)
    (inner line front (passed ++ (here ++ (later ++ close))))).stop + close.length = line.length := by
  have braceless : ∀ t ∈ inner line front (passed ++ (here ++ later)),
      t.kind ≠ .openBrace ∧ t.kind ≠ .closeBrace := by
    refine fun t => kind_of_mem_place (p := fun k => k ≠ .openBrace ∧ k ≠ .closeBrace) fun l mem => ?_
    simp only [List.mem_append] at mem
    rcases mem with before | now | after
    · rcases kind_of_inFilter (h.earlier l before) with kind | kind | kind <;> simp [kind]
    · rcases h.plain l now with kind | kind <;> simp [kind]
    · rcases kind_of_inFilter (h.following l after) with kind | kind | kind <;> simp [kind]
  have length := h.length_eq
  have closing := h.closing
  rcases closing with rfl | rfl
  · rw [List.append_nil]
    simp only [Reading.spanFrom, closingBrace?_eq_none braceless, Option.getD_none]
    rfl
  · obtain ⟨close, tokens, closes, there⟩ : ∃ close : Token,
        inner line front (passed ++ (here ++ (later ++ [(.closeBrace, ['}'])]))) =
          inner line front (passed ++ (here ++ later)) ++ [close] ∧ close.kind = .closeBrace ∧
        close.start = (spell front).length + 1 + (spell (passed ++ (here ++ later))).length := by
      have split : passed ++ (here ++ (later ++ [(.closeBrace, ['}'])])) =
          (passed ++ (here ++ later)) ++ [((.closeBrace, ['}']) : Lexeme)] := by simp
      rw [split, inner, place_append]
      exact ⟨_, rfl, rfl, rfl⟩
    rw [tokens, Reading.spanFrom, closingBrace?_eq braceless closes, Option.getD_some, there, length]
    simp [start]
    omega

/-- A segment stands between the braces. -/
theorem inside {n : Nat} (within : n ≤ (spell here).length) : ((Reading.of line).spanFrom (brace line front)
    (inner line front (passed ++ (here ++ (later ++ close))))).contains (start front passed + n) = true := by
  have stop := h.stop_eq
  have length := h.length_eq
  have after_brace : (brace line front).start < start front passed + n :=
    lt_start.trans_le (Nat.le_add_right ..)
  exact Span.contains_iff.2 ⟨after_brace, by omega⟩

/-- A key or a value is typed behind the opening brace, and not behind the closing one. -/
theorem bounds_of_typed {position : Nat} (typed : ((Reading.of line).contextAt position).place = .filterKey ∨
    ((Reading.of line).contextAt position).place = .filterValue) :
    (spell front).length < position ∧ position + close.length ≤ line.length := by
  have stop := h.stop_eq
  by_cases contained : ((Reading.of line).spanFrom (brace line front)
      (inner line front (passed ++ (here ++ (later ++ close))))).contains position = true
  · obtain ⟨after_brace, before_stop⟩ := Span.contains_iff.1 contained
    exact ⟨after_brace, by omega⟩
  · rcases h.filtered.contextAt_outside (by simpa using contained) with outer | outer <;> simp [outer] at typed

/-- The tokens in front of a segment start before it. -/
theorem start_lt {t : Token} (mem : t ∈ place 0 line (front ++ (.openBrace, ['{']) :: passed)) :
    t.start < start front passed := by
  obtain ⟨us, vs, split, there⟩ := mem_place mem
  have scanned : (t.kind, t.masked) ∈ scan metricsMarks (Text.mask line) := by
    have among : (t.kind, t.masked) ∈ front ++ (.openBrace, ['{']) :: passed := by simp [split]
    rw [h.scanned]
    simp only [List.mem_append, List.mem_cons] at among ⊢
    rcases among with first | brace | behind <;> simp [*]
  have inked : 0 < t.masked.length := List.length_pos_iff.2 (scan_ne_nil scanned)
  rw [start, split, there]
  simp only [spell_append, spell_cons, List.length_append]
  omega

/-- What is typed at a place of a segment: a key, or a value if a colon starts before that place. -/
theorem contextAt_eq {n : Nat} (within : n ≤ (spell here).length) :
    let c := (Reading.of line).contextAt (start front passed + n)
    ∃ xs ys, tokens line front passed here = xs ++ ys ∧ (∀ t ∈ xs, t.start < start front passed + n) ∧
      (∀ t ∈ ys, start front passed + n ≤ t.start) ∧
      match xs.find? fun t => t.kind = .colon with
      | none => c.place = .filterKey ∧ c.token = line.slice (start front passed) (start front passed + n)
      | some colon =>
        let key := bareKey (Text.strip (line.slice (start front passed) colon.start))
        c.place = .filterValue ∧ c.token = line.slice (colon.start + 1) (start front passed + n) ∧
          c.key? = if key.isEmpty then none else some key := by
  intro c
  obtain ⟨xs, ys, same, before, beyond⟩ := place_split (line.drop (start front passed)) here
    (start front passed) (start front passed + n)
  refine ⟨xs, ys, same, before, beyond, ?_⟩
  have from_here {t : Token} (mem : t ∈ xs) : t ∈ tokens line front passed here := by
    rw [tokens, same]
    exact List.mem_append_left _ mem
  have starts {t : Token} (mem : t ∈ xs) : start front passed ≤ t.start := (start_of_mem_place (from_here mem)).1
  have cut : Cut (Reading.of line) (start front passed + n)
      (place 0 line (front ++ (.openBrace, ['{']) :: passed) ++ xs)
      (ys ++ place (start front passed + (spell here).length)
        (line.drop (start front passed + (spell here).length)) (later ++ close)) := by
    refine ⟨?_, fun t mem => ?_, fun t mem => ?_⟩
    · rw [h.tokens_eq, Segment.tokens, same]
      simp
    · rcases List.mem_append.1 mem with passed | now
      · exact (h.start_lt passed).trans_le (Nat.le_add_right ..)
      · exact before t now
    · rcases List.mem_append.1 mem with now | later
      · exact beyond t now
      · have := (start_of_mem_place later).1
        omega
  have colon := cut.colon?_eq (fun t => h.start_lt) fun t => starts
  have segment : (Reading.of line).segmentStart (spell front).length (start front passed + n)
      (fun k => k = .openBrace || k = .openParen || k = .comma || k = .blank) = start front passed := by
    obtain ⟨ls, l, last, begins, above⟩ := exists_last front h.fresh
    have stop : (spell (ls ++ [l])).length = start front passed := by rw [start, last]
    rw [last, place_append, List.append_assoc] at cut
    refine Eq.trans (cut.segmentStart ?_ (by simpa using above) fun t mem => ?_) ?_
    · rcases begins with kind | kind <;> simp [kind]
    · have kind := kind_of_mem_place (p := fun k => k = .word ∨ k = .colon) h.plain (from_here mem)
      refine ⟨lt_start.le.trans (starts mem), ?_⟩
      rcases kind with kind | kind <;> simp [kind]
    · rw [← stop]
      simp [Token.stop]
  have context : c = (Reading.of line).filterContext ⟨(spell front).length, _⟩ (start front passed + n) :=
    h.filtered.contextAt_eq (h.inside within)
  rw [context]
  simp only [Reading.filterContext, h.filtered.inList?_eq, segment, colon]
  cases xs.find? (fun t => t.kind = .colon) with
  | none => exact ⟨rfl, rfl⟩
  | some colon => exact ⟨rfl, rfl, rfl⟩

end

section

variable {first second : List Lexeme} {n : Nat} (words : ∀ l ∈ first, l.1 = .word)

include words

/-- Before the first colon of a segment a key is typed. -/
theorem contextAt_key (h : Segment line front passed (first ++ second) later close)
    (within : n ≤ (spell first).length) :
    let c := (Reading.of line).contextAt (start front passed + n)
    c.place = .filterKey ∧ c.token = line.slice (start front passed) (start front passed + n) := by
  have reached : n ≤ (spell (first ++ second)).length := by
    rw [spell_append, List.length_append]
    omega
  obtain ⟨xs, ys, same, before, -, found⟩ := h.contextAt_eq reached
  have colonless : (xs.find? fun t => t.kind = .colon) = none := by
    refine List.find?_eq_none.2 fun t mem => ?_
    have among : t ∈ tokens line front passed (first ++ second) := same ▸ List.mem_append_left _ mem
    rw [tokens, place_append] at among
    rcases List.mem_append.1 among with word | later
    · simp [kind_of_mem_place (p := (· = .word)) words word]
    · have := (start_of_mem_place later).1
      have := before t mem
      omega
  rwa [colonless] at found

/-- Behind that colon a value is typed. -/
theorem contextAt_value (h : Segment line front passed (first ++ (.colon, [':']) :: second) later close)
    (behind : (spell first).length < n) (within : n ≤ (spell (first ++ (.colon, [':']) :: second)).length) :
    let c := (Reading.of line).contextAt (start front passed + n)
    let key := bareKey (Text.strip (line.slice (start front passed) (start front passed + (spell first).length)))
    c.place = .filterValue ∧
      c.token = line.slice (start front passed + (spell first).length + 1) (start front passed + n) ∧
      c.key? = if key.isEmpty then none else some key := by
  obtain ⟨xs, ys, same, -, beyond, found⟩ := h.contextAt_eq within
  obtain ⟨colon, kind, there, first_colon⟩ : ∃ colon : Token, colon.kind = .colon ∧
      colon.start = start front passed + (spell first).length ∧
      ((xs ++ ys).find? fun t => t.kind = .colon) = some colon := by
    have wordy : ((place (start front passed) (line.drop (start front passed)) first).find?
        fun t => t.kind = .colon) = none := by
      refine List.find?_eq_none.2 fun t mem => ?_
      simp [kind_of_mem_place (p := (· = .word)) words mem]
    rw [← same, tokens, place_append, List.find?_append, wordy, place]
    exact ⟨_, rfl, rfl, rfl⟩
  have here : (xs.find? fun t => t.kind = .colon) = some colon := by
    rw [List.find?_append] at first_colon
    cases among : xs.find? (fun t => t.kind = .colon) with
    | some t => rwa [among, Option.some_or] at first_colon
    | none =>
      rw [among, Option.none_or] at first_colon
      have := beyond colon (List.mem_of_find?_eq_some first_colon)
      omega
  rw [here] at found
  exact there ▸ found

end

end Segment

/-- A line with a filter of some pieces, the braces closed or not. -/
def listing (head : Text) (pieces : List Text) (closed : Bool) : Text :=
  head ++ '{' :: (Text.joinWith [','] pieces ++ if closed then ['}'] else [])

/-- Such a line up to the piece behind some others. -/
def listingUpTo (head : Text) (before : List Text) : Text :=
  head ++ '{' :: (before.map (· ++ [','])).flatten

/-- What follows a piece, if others come behind it. -/
def listingBehind (after : List Text) (closed : Bool) : Text :=
  (after.map (',' :: ·)).flatten ++ if closed then ['}'] else []

theorem listing_split (head : Text) (before : List Text) (piece : Text) (after : List Text) (closed : Bool) :
    listing head (before ++ piece :: after) closed =
      listingUpTo head before ++ piece ++ listingBehind after closed := by
  have pieces := intercalate_append [','] before piece after
  rw [listing, Text.joinWith_eq_intercalate, pieces]
  simp [listingUpTo, listingBehind]

/-- A piece ends where no word goes on. -/
theorem listingBehind_head {after : List Text} {closed : Bool} {c : Char}
    (next : c ∈ (listingBehind after closed).head?) : c = ',' ∨ c = '}' := by
  cases after with
  | nil =>
    cases closed
    · cases next
    · exact .inr (by simpa [listingBehind] using next.symm)
  | cons piece after => exact .inl (by simpa [listingBehind] using next.symm)

/-- A piece begins behind a comma or the brace. -/
theorem listingUpTo_last (head : Text) (before : List Text) :
    (listingUpTo head before).getLast? = some '{' ∨ (listingUpTo head before).getLast? = some ',' := by
  rcases List.eq_nil_or_concat' before with rfl | ⟨before, last, rfl⟩
  · exact .inl (by simp [listingUpTo])
  · exact .inr (by simp [listingUpTo, List.getLast?_append, List.getLast?_cons])

/-- A place between the braces is a place in one of the pieces. -/
theorem exists_listed {α : Type} (text : α → Text) (head : Text) {xs : List α} (filled : xs ≠ []) {i : Nat}
    (bound : i ≤ (Text.joinWith [','] (xs.map text)).length) : ∃ before x after n,
      xs = before ++ x :: after ∧ n ≤ (text x).length ∧
        head.length + 1 + i = (listingUpTo head (before.map text)).length + n := by
  obtain ⟨x, more, rfl⟩ := List.exists_cons_of_ne_nil filled
  obtain ⟨before, x, after, n, split, within, there⟩ := Text.exists_piece text ',' x more bound
  refine ⟨before, x, after, n, split, within, ?_⟩
  have pieces : ((before.map text).map (· ++ [','])).flatten = (before.map fun x => text x ++ [',']).flatten := by
    rw [List.map_map]
    rfl
  rw [there, listingUpTo, pieces]
  simp only [List.length_append, List.length_cons]
  omega

section

variable {α : Type} (lexemes : α → List Lexeme)

/-- The lexemes of pieces that others follow. -/
def lexemesUpTo (before : List α) : List Lexeme := (before.map fun x => lexemes x ++ [(.comma, [','])]).flatten

/-- The lexemes of pieces behind another. -/
def lexemesBehind (after : List α) : List Lexeme := (after.map fun x => (.comma, [',']) :: lexemes x).flatten

/-- The closing brace, if there is one. -/
def closingLexemes (closed : Bool) : List Lexeme := if closed then [(.closeBrace, ['}'])] else []

theorem separated_split (before : List α) (x : α) (after : List α) :
    separated ((before ++ x :: after).map lexemes) =
      lexemesUpTo lexemes before ++ (lexemes x ++ lexemesBehind lexemes after) := by
  rw [List.map_append, List.map_cons, separated_append]
  simp [lexemesUpTo, lexemesBehind, Function.comp_def]

variable {lexemes} in
/-- Pieces of words and colons have nothing else between them than commas. -/
theorem inFilter_of_mem (plain : ∀ x, ∀ l ∈ lexemes x, l.1 = .word ∨ l.1 = .colon) (xs : List α) (l : Lexeme) :
    (l ∈ lexemesUpTo lexemes xs → inFilter l = true) ∧ (l ∈ lexemesBehind lexemes xs → inFilter l = true) := by
  have own (x : α) (mem : l ∈ lexemes x) : inFilter l = true := by
    rcases plain x l mem with kind | kind <;> simp [inFilter, kind]
  refine ⟨fun mem => ?_, fun mem => ?_⟩
  · obtain ⟨ls, there, among⟩ := List.mem_flatten.1 mem
    obtain ⟨x, -, rfl⟩ := List.mem_map.1 there
    rcases List.mem_append.1 among with mem | comma
    · exact own x mem
    · rw [List.mem_singleton.1 comma]
      rfl
  · obtain ⟨ls, there, among⟩ := List.mem_flatten.1 mem
    obtain ⟨x, -, rfl⟩ := List.mem_map.1 there
    rcases List.mem_cons.1 among with rfl | mem
    · rfl
    · exact own x mem

theorem lexemesUpTo_last (before : List α) : ∀ l ∈ (lexemesUpTo lexemes before).getLast?, l.1 = .comma := by
  intro l last
  rcases List.eq_nil_or_concat' before with rfl | ⟨before, y, rfl⟩
  · cases last
  · obtain rfl : ((.comma, [',']) : Lexeme) = l := by simpa [lexemesUpTo, List.getLast?_append] using last
    rfl

variable {lexemes} {masked : α → Text}

theorem spell_lexemesUpTo (spelled : ∀ x, spell (lexemes x) = masked x) (before : List α) :
    spell (lexemesUpTo lexemes before) = ((before.map masked).map (· ++ [','])).flatten := by
  induction before with
  | nil => rfl
  | cons x before ih =>
    rw [lexemesUpTo] at ih
    simp only [lexemesUpTo, List.map_cons, List.flatten_cons, spell_append, ih, spelled x, spell_cons, spell_nil,
      List.append_nil]

/-- The pieces of a filter are its segments, if they read as words and colons when they are masked. -/
theorem segment_of_mask {head : Text} {front : List Lexeme} (begins : Reads metricsMarks head front)
    (outer : ∀ l ∈ front, l.1 = .word ∨ l.1 = .colon) (reads : ∀ x, Reads metricsMarks (masked x) (lexemes x))
    (plain : ∀ x, ∀ l ∈ lexemes x, l.1 = .word ∨ l.1 = .colon) {line : Text} {closed : Bool}
    {before after : List α} {x : α}
    (same : Text.mask line = listing head ((before ++ x :: after).map masked) closed) :
    Segment line front (lexemesUpTo lexemes before) (lexemes x) (lexemesBehind lexemes after)
        (closingLexemes closed) ∧
      Segment.start front (lexemesUpTo lexemes before) = (listingUpTo head (before.map masked)).length := by
  have closing : Reads metricsMarks (if closed then ['}'] else []) (closingLexemes closed) ∧
      Stops metricsMarks (if closed then ['}'] else []) := by
    cases closed
    · exact ⟨.nil, .nil⟩
    · exact ⟨.mark rfl (by decide) .nil, stops_mark rfl _⟩
  have inner := reads_separated masked lexemes (before ++ x :: after) fun x _ => reads x
  have whole := begins.append (.mark (c := '{') rfl (by decide) (inner.append closing.1 closing.2))
    (stops_mark rfl _)
  have scanned : scan metricsMarks (Text.mask line) = front ++ (.openBrace, ['{']) ::
      (lexemesUpTo lexemes before ++ (lexemes x ++ (lexemesBehind lexemes after ++ closingLexemes closed))) := by
    have cut := scan_of_reads whole
    rw [← listing, ← same, separated_split] at cut
    simpa using cut
  refine ⟨⟨scanned, outer, fun l => (inFilter_of_mem plain before l).1, lexemesUpTo_last lexemes before, plain x,
    fun l => (inFilter_of_mem plain after l).2, ?_⟩, ?_⟩
  · cases closed
    · exact .inl rfl
    · exact .inr rfl
  · simp [Segment.start, listingUpTo, spell_of_reads begins, spell_lexemesUpTo fun x => spell_of_reads (reads x)]

theorem length_closingLexemes (closed : Bool) : (closingLexemes closed).length = if closed then 1 else 0 := by
  cases closed <;> rfl

end

end Typeahead.Metrics
