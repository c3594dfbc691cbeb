import Mathlib.Data.List.Induction
import Typeahead.Proofs.Metrics.Segments
import Typeahead.Proofs.Metrics.Spans

/-!
What a cursor in a metrics query types, if the query is written out in full: a part of the aggregator, of
the metric, of a key, of its value, or of an item of a list of values.

- `Query.cut`: the tokens before a place in a lexeme.
- `Query.typedAt_head`: in front of the filter.
-/

namespace Typeahead.Metrics

open Lexer

/-- The tokens of a lexeme that start before its character number `n`. -/
def started (start : Nat) (l : Lexeme) (n : Nat) : List Token := if n = 0 then [] else lay start [l]

theorem kind_of_mem_started {start n : Nat} {l : Lexeme} {t : Token} (h : t ∈ started start l n) :
    t.kind = l.1 ∧ t.start = start := by
  unfold started at h
  split at h
  · cases h
  · rw [lay_cons, lay_nil, List.mem_singleton] at h
    exact ⟨h ▸ rfl, h ▸ rfl⟩

theorem metric?_contextAt (r : Reading) (position : Nat) : (r.contextAt position).metric? = r.metric? := by
  unfold Reading.contextAt
  split
  · rfl
  · split
    · unfold Reading.filterContext
      dsimp only
      split
      · rfl
      · split <;> rfl
    · rfl

namespace Query

variable (q : Query)

/-- What is typed at a cursor: the kind of thing, the part typed so far, and the key it belongs to. -/
def typedAt (cursor : Nat) : Place × Text × Option Text :=
  let c := contextOf q.text cursor
  (c.place, c.token, c.key?)

/-- The context at a cursor is that of the only line. -/
theorem contextOf_eq (cursor : Int) : contextOf q.text cursor =
    ((Reading.of q.text).contextAt (q.text.clamp cursor)).located (q.text.clamp cursor) ⟨q.text, 0⟩ := by
  simp only [contextOf, Text.lineAt_of_inside q.inside, q.hasInk, if_true, Nat.sub_zero]

section

variable {ls rest : List Lexeme} {l : Lexeme} {n : Nat}

/-- No lexeme of a query is empty. -/
theorem lexeme_ne_nil (mem : l ∈ q.lexemes) : l.2 ≠ [] := by
  have there : l ∈ scan metricsMarks (q.text ++ []) := by
    rw [q.reads [] .nil]
    exact List.mem_append_left _ mem
  exact scan_ne_nil there

theorem start_lt_of_mem_lay (same : q.lexemes = ls ++ rest) {t : Token} (mem : t ∈ lay 0 ls) :
    t.start < (spell ls).length := by
  obtain ⟨before, after, rfl, start, -⟩ := mem_lay mem
  have inked := q.lexeme_ne_nil (l := (t.kind, t.written)) (by simp [same])
  have : 0 < t.written.length := List.length_pos_iff.2 inked
  simp only [spell_append, spell_cons, List.length_append]
  omega

theorem length_of_lexemes (same : q.lexemes = ls ++ l :: rest) :
    q.text.length = (spell ls).length + l.2.length + (spell rest).length := by
  rw [← spell_of_reads q.reads, same]
  simp [Nat.add_assoc]

/-- The tokens before a place in a lexeme. -/
theorem cut (same : q.lexemes = ls ++ l :: rest) (h : n ≤ l.2.length) : ∃ vs,
    Cut (Reading.of q.text) ((spell ls).length + n) (lay 0 ls ++ started (spell ls).length l n) vs := by
  have tokens : (Reading.of q.text).tokens = lay 0 ls ++ lay (spell ls).length (l :: rest) := by
    rw [q.reading, same, lay_append, Nat.zero_add]
  by_cases fresh : n = 0
  · refine ⟨lay (spell ls).length (l :: rest), ?_, fun t mem => ?_, fun t mem => ?_⟩
    · rw [tokens, started, if_pos fresh, List.append_nil]
    · rw [started, if_pos fresh, List.append_nil] at mem
      have := q.start_lt_of_mem_lay same mem
      omega
    · have := (start_le_of_mem_lay mem).1
      omega
  · refine ⟨lay ((spell ls).length + l.2.length) rest, ?_, fun t mem => ?_, fun t mem => ?_⟩
    · rw [tokens, started, if_neg fresh, List.append_assoc]
      rfl
    · rcases List.mem_append.1 mem with passed | last
      · have := q.start_lt_of_mem_lay same passed
        omega
      · have := (kind_of_mem_started last).2
        omega
    · have := (start_le_of_mem_lay mem).1
      omega

/-- The part of the line from the beginning of a lexeme to a place in it. -/
theorem slice_lexeme (same : q.lexemes = ls ++ l :: rest) (h : n ≤ l.2.length) :
    q.text.slice (spell ls).length ((spell ls).length + n) = l.2.take n := by
  have text : q.text = spell ls ++ l.2 ++ spell rest := by
    rw [← spell_of_reads q.reads, same, spell_append, spell_cons, List.append_assoc]
  rw [text, Text.slice_part _ _ _ h]

/-- What is typed at a place in a lexeme. -/
theorem typedAt_lexeme (same : q.lexemes = ls ++ l :: rest) (h : n ≤ l.2.length) :
    q.typedAt ((spell ls).length + n) =
      let c := (Reading.of q.text).contextAt ((spell ls).length + n)
      (c.place, c.token, c.key?) := by
  have length := q.length_of_lexemes same
  have clamped : q.text.clamp ((spell ls).length + n : Nat) = (spell ls).length + n :=
    q.text.clamp_of_le (by omega)
  rw [typedAt, q.contextOf_eq, clamped]
  rfl

end

theorem groupingAt?_eq_none {position : Nat} (h : position ≤ q.groupingSpan.start) :
    (Reading.of q.text).groupingAt? position = none := by
  unfold Reading.groupingAt?
  rw [q.groupings_eq]
  cases q.grouping? with
  | none => rfl
  | some tags => simp [Nat.not_lt.2 h]

/-- Up to the end of the metric the braces are without effect. -/
theorem contextAt_head {position : Nat} (h : position ≤ q.head.length) :
    (Reading.of q.text).contextAt position = (Reading.of q.text).outerContext position := by
  have ungrouped : (Reading.of q.text).groupingAt? position = none :=
    q.groupingAt?_eq_none (by simp [groupingSpan]; omega)
  have unfiltered : (Reading.of q.text).filter?.filter (·.contains position) = none := by
    rw [q.filter?_eq]
    cases q.filter? with
    | none => rfl
    | some entries => simp [Span.contains, filterSpan, Nat.not_lt.2 h]
  rw [Reading.contextAt, ungrouped, unfiltered]

/-- Up to the end of the metric the typed part is what stands of the word before the cursor. -/
theorem typedAt_head {ls rest : List Lexeme} {w : Text} (same : q.lexemes = ls ++ (.word, w) :: rest)
    {n : Nat} (h : n ≤ w.length) (inside : (spell ls).length + n ≤ q.head.length)
    (fresh : ∀ l ∈ ls.getLast?, l.1 ≠ .word) :
    q.typedAt ((spell ls).length + n) =
      (if (Reading.of q.text).aggregatorColon?.any ((spell ls).length + n ≤ ·) then .aggregatorPrefix
        else .metricName, w.take n, none) := by
  have word : (Reading.of q.text).wordBefore ((spell ls).length + n) = w.take n := by
    obtain ⟨vs, cut⟩ := q.cut same h
    -- at its first character the word has not started, and what ends there is no word
    obtain rfl | later := Nat.eq_zero_or_pos n
    · rw [started, if_pos rfl, List.append_nil] at cut
      rw [List.take_zero]
      induction ls using List.reverseRecOn with
      | nil => exact cut.wordBefore_nil
      | append_singleton passed last _ =>
        rw [lay_append, lay_cons, lay_nil] at cut
        rw [cut.wordBefore, if_neg (fresh last (by simp))]
    · rw [started, if_neg (by omega), lay_cons, lay_nil] at cut
      rw [cut.wordBefore, if_pos rfl, Nat.add_sub_cancel_left]
  rw [q.typedAt_lexeme same h, q.contextAt_head inside]
  simp only [Reading.outerContext, word]

/-- The aggregator is typed up to its colon. -/
theorem typedAt_aggregator {a : Aggregator} (aggregator : q.aggregator? = some a) {n : Nat}
    (h : n ≤ a.text.length) : q.typedAt n = (.aggregatorPrefix, a.text.take n, none) := by
  have same : q.lexemes = [] ++ (.word, a.text) :: ((.colon, [':']) :: (.word, q.metric.text) ::
      (q.filterLexemes ++ q.groupingLexemes)) := by
    simp [lexemes, headLexemes, prefixLexemes, aggregator]
  have inside : n ≤ q.head.length := by
    simp [head, prefixText, aggregator]
    omega
  have typed := q.typedAt_head same h (by simpa using inside) (by simp)
  simpa [q.aggregatorColon?_eq, aggregator, h] using typed

/-- The metric is typed behind that colon. -/
theorem typedAt_metric {n : Nat} (h : n ≤ q.metric.text.length) :
    q.typedAt (q.prefixText.length + n) = (.metricName, q.metric.text.take n, none) := by
  have same : q.lexemes = q.prefixLexemes ++ (.word, q.metric.text) ::
      (q.filterLexemes ++ q.groupingLexemes) := by
    simp [lexemes, headLexemes]
  have inside : (spell q.prefixLexemes).length + n ≤ q.head.length := by
    simp [spell_prefixLexemes, head]
    omega
  have fresh : ∀ l ∈ q.prefixLexemes.getLast?, l.1 ≠ .word := by
    unfold prefixLexemes
    split <;> simp
  have typed := q.typedAt_head same h inside fresh
  rw [spell_prefixLexemes] at typed
  rw [typed, q.aggregatorColon?_eq]
  cases aggregator : q.aggregator? with
  | none => rfl
  | some a =>
    simp [prefixText, aggregator]
    omega

end Query

end Typeahead.Metrics
