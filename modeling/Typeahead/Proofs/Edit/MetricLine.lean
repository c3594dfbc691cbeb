import Typeahead.Proofs.Edit.OwnLine
import Typeahead.Proofs.Metrics.Heads

/-!
The line of an accepted metric. It is read as it was written, with the aggregator and the filter of the line before,
unless the aggregator ends with a backslash: the blank that this escaped is cut off, and it escapes the colon.

- `behindBrace`, `withMetric`, `Lined.metricLine_eq`: the line that is put in the place of the one before.
- `ofLine_withMetric`: what the new line is taken apart into.
- `withMetric_twice_iff`: when the same metric changes nothing any more.
- `accept_metric_iff`: the rule for an accepted item, in any text and at any cursor.
-/

namespace Typeahead

namespace Metrics

open Lexer

/-- The aggregator of a line that gets another metric. -/
def keptAggregator (line : Text) : Text := (Expression.ofLine line).aggregator?.getD Edit.defaultAggregator

/-- The filter of a line that gets another metric, and what follows it. -/
def keptFilter (line : Text) : Text :=
  let remainder := (Expression.ofLine line).remainder
  if remainder.head? = some '{' then remainder else ['{', '*', '}'] ++ remainder

/-- A line with another metric. -/
def withMetric (line m : Text) : Text := keptAggregator line ++ ':' :: m ++ keptFilter line

theorem isWordPart_defaultAggregator : ∀ c ∈ Edit.defaultAggregator, Edit.isWordPart c = true :=
  List.all_eq_true.1 (by decide)

theorem settled_defaultAggregator : Settled Edit.defaultAggregator [(.word, Edit.defaultAggregator)] := by
  have parts := isWordPart_defaultAggregator
  have plain : Text.mask Edit.defaultAggregator = Edit.defaultAggregator :=
    Text.mask_of_plain fun c mem => (plain_of_isWordPart (parts c mem)).2.2.2.1
  have units := units_metric parts
  constructor
  · intro rest
    rw [plain]
    exact Reads.units (unmarked_of_units rfl units) (by decide) units (':' :: rest) (.cons (by decide) (by decide) _)
  · exact plain.symm
  · simp
  · constructor
    · simp [views, place]
    · intro s s' found
      exact absurd found.length_le (by simp [views, place])
  · constructor
    · decide +kernel
    · simp

theorem stripped_defaultAggregator : Stripped Edit.defaultAggregator where
  filled := by decide
  first _ first := (plain_of_isWordPart (isWordPart_defaultAggregator _ (List.mem_of_mem_head? first))).2.1
  last _ last := (plain_of_isWordPart (isWordPart_defaultAggregator _ (List.mem_of_getLast? last))).2.1
  inside _ mem := (plain_of_isWordPart (isWordPart_defaultAggregator _ mem)).2.2.1

variable {line m : Text}

theorem head_keptAggregator (inLine : ∀ c ∈ line, Text.insideLine c = true) :
    Stripped (keptAggregator line) ∧ Head (keptAggregator line) := by
  unfold keptAggregator
  cases found : (Expression.ofLine line).aggregator? with
  | none => exact ⟨stripped_defaultAggregator, .settled settled_defaultAggregator⟩
  | some a => exact head_of_aggregator inLine found

theorem exists_keptFilter (line : Text) : ∃ t, keptFilter line = '{' :: t := by
  unfold keptFilter
  dsimp only
  split
  · next brace => exact List.head?_eq_some_iff.1 brace
  · exact ⟨_, rfl⟩

theorem withMetric_eq_lineOf {t : Text} (brace : keptFilter line = '{' :: t) (m : Text) :
    withMetric line m = lineOf (keptAggregator line) m t := by
  rw [withMetric, brace, lineOf_eq]

/-- A filter that was kept is kept again. -/
theorem keptFilter_of_remainder {line' : Text} (same : (Expression.ofLine line').remainder = keptFilter line) :
    keptFilter line' = keptFilter line := by
  obtain ⟨t, brace⟩ := exists_keptFilter line
  rw [keptFilter, same, brace]
  rfl

section

variable (inLine : ∀ c ∈ line, Text.insideLine c = true) (filled : m ≠ []) (parts : ∀ c ∈ m, Edit.isWordPart c = true)

include inLine filled parts

/-- What a line with another metric is taken apart into: its aggregator, the metric and its filter, -/
theorem ofLine_withMetric (closed : ¬ EndsOpen (keptAggregator line)) :
    Expression.ofLine (withMetric line m) = ⟨some (keptAggregator line), some m, keptFilter line⟩ := by
  obtain ⟨t, brace⟩ := exists_keptFilter line
  obtain ⟨stripped, head⟩ := head_keptAggregator inLine
  rw [withMetric_eq_lineOf brace, brace]
  cases head with
  | settled settled => exact ofLine_of_settled filled parts t stripped settled
  | escaped escaped => exact absurd escaped.endsOpen closed

/-- or no aggregator at all, if the colon goes on with the last word of what was one. -/
theorem ofLine_withMetric_of_endsOpen (open_ : EndsOpen (keptAggregator line)) :
    Expression.ofLine (withMetric line m) = ⟨none, some (keptAggregator line ++ ':' :: m), keptFilter line⟩ := by
  obtain ⟨t, brace⟩ := exists_keptFilter line
  obtain ⟨stripped, head⟩ := head_keptAggregator inLine
  rw [withMetric_eq_lineOf brace, brace]
  cases head with
  | settled settled => exact absurd open_ settled.not_endsOpen
  | escaped escaped => exact ofLine_of_escaped filled parts t stripped escaped

/-- The same metric is put into a line once. -/
theorem withMetric_twice_iff :
    withMetric (withMetric line m) m = withMetric line m ↔ ¬ EndsOpen (keptAggregator line) := by
  constructor
  · intro same open_
    have read := ofLine_withMetric_of_endsOpen inLine filled parts open_
    have filter := keptFilter_of_remainder (congrArg Expression.remainder read)
    have aggregator : keptAggregator (withMetric line m) = Edit.defaultAggregator := by rw [keptAggregator, read]; rfl
    rw [withMetric, filter, aggregator] at same
    have default := List.append_cancel_right (List.append_cancel_right same)
    exact settled_defaultAggregator.not_endsOpen (default ▸ open_)
  · intro closed
    have read := ofLine_withMetric inLine filled parts closed
    have filter := keptFilter_of_remainder (congrArg Expression.remainder read)
    have aggregator : keptAggregator (withMetric line m) = keptAggregator line := by rw [keptAggregator, read]; rfl
    rw [withMetric, filter, aggregator, withMetric]

omit filled in
theorem withMetric_inLine : ∀ c ∈ withMetric line m, Text.insideLine c = true := by
  have filter : ∀ c ∈ keptFilter line, Text.insideLine c = true := by
    have remainder : ∀ c ∈ (Expression.ofLine line).remainder, Text.insideLine c = true :=
      fun c mem => inLine c (List.mem_of_mem_drop mem)
    unfold keptFilter
    dsimp only
    split
    · exact remainder
    · exact List.forall_mem_append.2 ⟨List.all_eq_true.1 (by decide), remainder⟩
  intro c mem
  rcases List.mem_append.1 mem with front | behind
  · rcases List.mem_append.1 front with own | own
    · exact (head_keptAggregator inLine).1.inside c own
    · rcases List.mem_cons.1 own with rfl | own
      · decide
      · exact (plain_of_isWordPart (parts c own)).2.2.1
  · exact filter c behind

end

/-- What accepting a metric does to the text, and to the line of its cursor. -/
theorem accept_metricLine {t before line after : Text} (h : t.Lined before line after) {cursor : Int}
    (own : t.locate cursor = ⟨line, before.length⟩) {item : Typeahead.Item} (kind : item.kind = .metric)
    (context : Context) :
    Edit.accept t cursor item context = ⟨before ++ withMetric line item.insert ++ after,
      before.length + (withMetric line item.insert).length⟩ := by
  have front : t.take before.length = before := by rw [h.parts, List.append_assoc, List.take_left]
  have back : t.drop (before.length + line.length) = after := by
    rw [h.parts, ← List.length_append, List.drop_left]
  have line' : t.lineAt (t.clamp cursor) = ⟨line, before.length⟩ := own
  rw [Edit.accept, Edit.acceptAt, kind]
  simp only [Edit.metricLine, line', Edit.splice, front, back]
  rfl

variable {item : Typeahead.Item}

/-- A metric takes the place of that of its line, and the aggregator and the filter of the line are kept, if and only
if the aggregator does not end with a backslash; and only then does the same metric change nothing any more. -/
theorem accept_metric_iff (kind : item.kind = .metric) (filled : item.insert ≠ [])
    (parts : ∀ c ∈ item.insert, Edit.isWordPart c = true) (text : Text) (cursor : Int) (context : Context) :
    let old := Expression.ofLine (text.locate cursor).text
    let aggregator := old.aggregator?.getD Edit.defaultAggregator
    let filter := if old.remainder.head? = some '{' then old.remainder else ['{', '*', '}'] ++ old.remainder
    let e := Edit.accept text cursor item context
    let line := e.text.lineAt e.cursor
    (Expression.ofLine line.text = ⟨some aggregator, some item.insert, filter⟩ ↔ ¬ EndsOpen aggregator) ∧
    (EndsOpen aggregator →
      Expression.ofLine line.text = ⟨none, some (aggregator ++ ':' :: item.insert), filter⟩) ∧
    ∀ (again : Nat) (context' : Context), line.offset ≤ again → again ≤ line.offset + line.text.length →
      ((Edit.accept e.text again item context').text = e.text ↔ ¬ EndsOpen aggregator) := by
  obtain ⟨before, line, after, lined, here, own⟩ := text.exists_lined (text.clamp_le cursor)
  change text.locate cursor = _ at own
  intro old aggregator filter e newLine
  have same : aggregator = keptAggregator line := by simp only [aggregator, old, own, keptAggregator]
  have same' : filter = keptFilter line := by simp only [filter, old, own, keptFilter]
  have inLine := withMetric_inLine lined.inside parts
  have accepted : e = _ := accept_metricLine lined own kind context
  have lined' := lined.replaced inLine
  have found : newLine = ⟨withMetric line item.insert, before.length⟩ := by
    simp only [newLine, accepted]
    exact lined'.lineAt_eq ⟨Nat.le_add_right .., Nat.le_refl _⟩
  rw [same, same', found]
  refine ⟨⟨fun read open_ => ?_, ofLine_withMetric lined.inside filled parts⟩,
    ofLine_withMetric_of_endsOpen lined.inside filled parts, fun again context' lower upper => ?_⟩
  · rw [ofLine_withMetric_of_endsOpen lined.inside filled parts open_] at read
    cases read
  · have there : e.text.locate again = ⟨withMetric line item.insert, before.length⟩ := by
      have within : again ≤ e.text.length := by
        rw [accepted, List.length_append, List.length_append]
        exact Nat.le_add_right_of_le upper
      rw [Text.locate, Text.clamp_of_le _ within, accepted]
      exact lined'.lineAt_eq ⟨lower, upper⟩
    rw [accepted] at there ⊢
    rw [accept_metricLine lined' there kind, ← withMetric_twice_iff lined.inside filled parts]
    simp

/-- The item of a metric, if its name begins with what is typed. -/
def metricItem (name : Text) : Typeahead.Item :=
  { label := name, kind := .metric, insert := name, sortKey := "10_".toList ++ name, detail? := none }

theorem accept_metric_iff_filtered :
    let item := metricItem "system.cpu".toList
    let text : Text := "sum:sys\x7bhost:a\x7d by \x7benv\x7d".toList
    let e := Edit.accept text 7 item (contextOf text 7)
    item.insert ≠ [] ∧ (∀ c ∈ item.insert, Edit.isWordPart c = true) ∧
    e = ⟨"sum:system.cpu\x7bhost:a\x7d by \x7benv\x7d".toList, 31⟩ ∧
    Expression.ofLine e.text = ⟨some "sum".toList, some "system.cpu".toList, "\x7bhost:a\x7d by \x7benv\x7d".toList⟩ ∧
    (Edit.accept e.text 5 item (contextOf e.text 5)).text = e.text := by
  intro item text e
  have filled : item.insert ≠ [] := by decide
  have parts : ∀ c ∈ item.insert, Edit.isWordPart c = true := List.all_eq_true.1 (by decide)
  have accepted : e = ⟨"sum:system.cpu\x7bhost:a\x7d by \x7benv\x7d".toList, 31⟩ := by decide +kernel
  have line : (e.text.lineAt e.cursor).text = e.text := by decide +kernel
  have closed : ¬ EndsOpen ((Expression.ofLine (text.locate 7).text).aggregator?.getD Edit.defaultAggregator) := by
    decide +kernel
  obtain ⟨read, -, again⟩ := accept_metric_iff rfl filled parts text 7 (contextOf text 7)
  have whole := read.2 closed
  rw [line] at whole
  refine ⟨filled, parts, accepted, whole.trans (by decide +kernel), ?_⟩
  exact (again 5 (contextOf e.text 5) (by decide +kernel) (by decide +kernel)).2 closed

/-- An escaped blank is cut off from the end of an aggregator, but not its backslash: this escapes the colon then, so
that the new line has no aggregator, and the next time the metric is accepted it gets another one. -/
theorem accept_metric_escaped :
    let item := metricItem "cpu".toList
    let text : Text := "a\\ :x".toList
    let e := Edit.accept text 5 item (contextOf text 5)
    item.insert ≠ [] ∧ (∀ c ∈ item.insert, Edit.isWordPart c = true) ∧
    (Expression.ofLine text).aggregator? = some "a\\".toList ∧
    e = ⟨"a\\:cpu\x7b*\x7d".toList, 9⟩ ∧
    Expression.ofLine e.text = ⟨none, some "a\\:cpu".toList, "\x7b*\x7d".toList⟩ ∧
    (Edit.accept e.text 9 item (contextOf e.text 9)).text = "avg:cpu\x7b*\x7d".toList :=
  ⟨by decide, List.all_eq_true.1 (by decide), by decide +kernel⟩

end Metrics

end Typeahead
