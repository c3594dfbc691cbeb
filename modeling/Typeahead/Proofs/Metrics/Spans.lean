import Typeahead.Proofs.Metrics.Written

/-!
The parts of a metrics query that is written out in full: where the metric ends, the colon of the
aggregator, and the braces of the filter and of the grouping.

- `Query.metric?_eq`, `Query.aggregatorColon?_eq`: the name of the metric, and where the aggregator ends.
- `Query.groupings_eq`, `Query.filter?_eq`: the braces.
-/

namespace Typeahead.Metrics

open Lexer

/-- A brace is closed by the first one behind it if there is no other brace between them. -/
theorem closingBrace?_eq {ts : List Token}
    (braceless : ∀ t ∈ ts, t.kind ≠ .openBrace ∧ t.kind ≠ .closeBrace) {close : Token}
    (closes : close.kind = .closeBrace) (rest : List Token) :
    closingBrace? 0 (ts ++ close :: rest) = some close.start := by
  induction ts with
  | nil => simp [closingBrace?, closes]
  | cons t ts ih =>
    obtain ⟨⟨opens, shuts⟩, later⟩ := List.forall_mem_cons.1 braceless
    rw [← ih later, List.cons_append]
    cases kind : t.kind <;> simp_all [closingBrace?]

theorem braceless_lay {ls : List Lexeme} (inner : ∀ l ∈ ls, Inner l) (n : Nat) :
    ∀ t ∈ lay n ls, t.kind ≠ .openBrace ∧ t.kind ≠ .closeBrace := by
  exact fun t => kind_of_mem_lay (p := fun k => k ≠ .openBrace ∧ k ≠ .closeBrace)
    fun l mem => ⟨(inner l mem).opens, (inner l mem).closes⟩

/-- The end of the metric, if it is here. -/
def metricEnd? (f : Focus) : Option Nat :=
  if f.token.kind = .openBrace then some f.token.start
  else if isBy f then f.before.head?.map (·.start)
  else none

/-- The braces of the grouping that a token opens. -/
def Reading.groupingFrom? (r : Reading) (f : Focus) : Option Span :=
  match f.after with
  | blank :: brace :: rest =>
    if isBy f && blank.kind = .blank && brace.kind = .openBrace then some (r.spanFrom brace rest) else none
  | _ => none

/-- No grouping begins with a token if no brace opens just behind it. -/
theorem groupingFrom?_of_braceless (r : Reading) {f : Focus}
    (braceless : ∀ t ∈ f.after.take 2, t.kind ≠ .openBrace) : r.groupingFrom? f = none := by
  unfold Reading.groupingFrom?
  split
  · next blank brace rest same =>
    have closed : brace.kind ≠ .openBrace := braceless brace (by simp [same])
    simp [closed]
  · rfl

theorem groupingFrom?_of_kind (r : Reading) {f : Focus} (kind : f.token.kind ≠ .word) :
    r.groupingFrom? f = none := by
  unfold Reading.groupingFrom?
  split
  · simp [isBy, kind]
  · rfl

namespace Query

variable (q : Query)

theorem spell_prefixLexemes : spell q.prefixLexemes = q.prefixText := by
  unfold prefixLexemes prefixText
  split <;> simp

theorem spell_head : spell q.headLexemes = q.head := by
  simp [headLexemes, head, spell_prefixLexemes]

theorem spell_filter : spell q.filterLexemes = q.filterText := spell_of_reads q.reads_filter.1

/-- The tokens up to the end of the metric. -/
def headTokens : List Token := lay 0 q.headLexemes

/-- The tokens of the filter. -/
def filterTokens : List Token := lay q.head.length q.filterLexemes

/-- The tokens of the grouping. -/
def groupingTokens : List Token := lay (q.head ++ q.filterText).length q.groupingLexemes

theorem tokens_eq :
    (Reading.of q.text).tokens = q.headTokens ++ (q.filterTokens ++ q.groupingTokens) := by
  rw [q.reading]
  simp [lexemes, headTokens, filterTokens, groupingTokens, spell_head, spell_filter]

/-- Up to the end of the metric there is neither a brace nor a blank. -/
theorem head_kinds {t : Token} (mem : t ∈ q.headTokens) : t.kind = .word ∨ t.kind = .colon := by
  unfold headTokens headLexemes prefixLexemes at mem
  split at mem
  · simp at mem
    rcases mem with rfl | rfl | rfl
    · exact .inl rfl
    · exact .inr rfl
    · exact .inl rfl
  · simp at mem
    rw [mem]
    exact .inl rfl

/-- Whatever comes behind it, no token up to the end of the metric is a brace or the keyword. -/
theorem head_focus {f : Focus} (mem : f ∈ focuses q.headTokens) (more : List Token) :
    f.token.kind ≠ .openBrace ∧ isBy (f.followedBy more) = false := by
  obtain ⟨passed, same, before⟩ := mem_focusesFrom mem
  have there {t : Token} (mem : t ∈ passed ++ f.token :: f.after) := q.head_kinds (same ▸ mem)
  have unblank : f.previous? ≠ some .blank := by
    intro blank
    obtain ⟨t, first, kind⟩ := Option.map_eq_some_iff.1 blank
    have among : t ∈ passed := by simpa [before] using List.mem_of_mem_head? first
    rcases there (List.mem_append_left _ among) with word | colon <;> simp_all
  constructor
  · rcases there (List.mem_append_right _ List.mem_cons_self) with kind | kind <;> simp [kind]
  · have same : (f.followedBy more).previous? = f.previous? := rfl
    simp [isBy, same, unblank]

/-- The metric ends where its name does. -/
theorem metricEnd_eq : (Reading.of q.text).metricEnd = q.head.length := by
  have searched : (Reading.of q.text).metricEnd =
      ((focuses (Reading.of q.text).tokens).findSome? metricEnd?).getD q.text.length := rfl
  have passed : ((focuses q.headTokens).map (·.followedBy (q.filterTokens ++ q.groupingTokens))).findSome?
      metricEnd? = none := by
    refine List.findSome?_eq_none_iff.2 fun f mem => ?_
    obtain ⟨g, there, rfl⟩ := List.mem_map.1 mem
    obtain ⟨opens, other⟩ := q.head_focus there (q.filterTokens ++ q.groupingTokens)
    have kind : (g.followedBy (q.filterTokens ++ q.groupingTokens)).token.kind ≠ .openBrace := opens
    rw [metricEnd?, if_neg kind, other]
    rfl
  rw [searched, q.tokens_eq, focuses, focusesFrom_append, List.findSome?_append]
  rw [focuses] at passed
  rw [passed, Option.none_or]
  cases filter : q.filter? with
  | some entries =>
    simp [filterTokens, filterLexemes, filter, focusesFrom, metricEnd?]
  | none =>
    cases grouping : q.grouping? with
    | some tags =>
      simp [filterTokens, filterLexemes, filterText, groupingTokens, groupingLexemes, filter, grouping,
        focusesFrom, metricEnd?, isBy, Focus.previous?, Focus.next?]
    | none =>
      simp [filterTokens, filterLexemes, groupingTokens, groupingLexemes, filter, grouping, focusesFrom,
        text, filterText, groupingText]

/-- Behind the metric no token starts before the metric ends. -/
theorem later_starts {t : Token} (mem : t ∈ q.filterTokens ++ q.groupingTokens) :
    q.head.length ≤ t.start := by
  rcases List.mem_append.1 mem with mem | mem
  · exact (start_le_of_mem_lay mem).1
  · have := (start_le_of_mem_lay mem).1
    simp only [List.length_append] at this
    omega

/-- The colon of the aggregator stands behind it. -/
theorem aggregatorColon?_eq :
    (Reading.of q.text).aggregatorColon? = q.aggregator?.map fun a => a.text.length := by
  have later : (q.filterTokens ++ q.groupingTokens).find?
      (fun t => t.kind = .colon && t.start < q.head.length) = none := by
    refine List.find?_eq_none.2 fun t mem => ?_
    have := q.later_starts mem
    simp only [Bool.and_eq_true, decide_eq_true_eq, not_and]
    omega
  unfold Reading.aggregatorColon?
  rw [q.metricEnd_eq, q.tokens_eq, List.find?_append, later, Option.or_none]
  cases aggregator : q.aggregator? with
  | none => simp [headTokens, headLexemes, prefixLexemes, aggregator]
  | some a =>
    simp [headTokens, headLexemes, prefixLexemes, aggregator, head, prefixText]

theorem metric?_eq : (Reading.of q.text).metric? = some q.metric.text := by
  have sliced : q.text.slice q.prefixText.length q.head.length = q.metric.text := by
    have part := Text.slice_part q.prefixText q.metric.text (q.filterText ++ q.groupingText)
      (Nat.le_refl _)
    rw [List.take_length] at part
    simpa [text, head] using part
  have stripped : Text.stripped? q.metric.text = some q.metric.text := by
    obtain ⟨c, rest, same, -⟩ := q.metric.cons
    rw [Text.stripped?, Text.strip_of_inked q.metric.inked, same]
  rw [← sliced] at stripped
  unfold Reading.metric?
  rw [q.aggregatorColon?_eq, q.metricEnd_eq, ← sliced]
  cases aggregator : q.aggregator? with
  | none =>
    have start : q.prefixText.length = 0 := by simp [prefixText, aggregator]
    rwa [start] at stripped ⊢
  | some a =>
    have start : q.prefixText.length = a.text.length + 1 := by simp [prefixText, aggregator]
    rwa [start] at stripped ⊢

/-- The tokens of the filter, with its braces. -/
theorem filterTokens_eq {entries : List Entry} (filter : q.filter? = some entries) :
    q.filterTokens =
      { kind := .openBrace, start := q.head.length, written := ['{'], masked := ['{'] } ::
      (lay (q.head.length + 1) (separated (entries.map Entry.lexemes)) ++
        [{ kind := .closeBrace
           start := q.head.length + 1 + (Text.joinWith [','] (entries.map Entry.text)).length
           written := ['}']
           masked := ['}'] }]) := by
  have spelled : spell (separated (entries.map Entry.lexemes)) =
      Text.joinWith [','] (entries.map Entry.text) :=
    spell_of_reads (reads_separated Entry.text Entry.lexemes entries fun e _ => e.reads)
  simp [filterTokens, filterLexemes, filter, spelled]

/-- The tokens of the grouping, with its braces. -/
theorem groupingTokens_eq {tags : List Name} (grouping : q.grouping? = some tags) :
    let start := (q.head ++ q.filterText).length
    q.groupingTokens =
      { kind := .blank, start, written := [' '], masked := [' '] } ::
      { kind := .word, start := start + 1, written := "by".toList, masked := "by".toList } ::
      { kind := .blank, start := start + 3, written := [' '], masked := [' '] } ::
      { kind := .openBrace, start := start + 4, written := ['{'], masked := ['{'] } ::
      (lay (start + 5) (separated (tags.map fun t => [(.word, t.text)])) ++
        [{ kind := .closeBrace
           start := start + 5 + (Text.joinWith [','] (tags.map Name.text)).length
           written := ['}']
           masked := ['}'] }]) := by
  have spelled : spell (separated (tags.map fun t => [(TokenKind.word, t.text)])) =
      Text.joinWith [','] (tags.map Name.text) :=
    spell_of_reads (reads_separated Name.text (fun t => [(.word, t.text)]) tags fun t _ => t.reads)
  simp [groupingTokens, groupingLexemes, grouping, spelled]

/-- Only the first brace of a filter opens. -/
theorem tail_filterTokens {t : Token} (mem : t ∈ q.filterTokens.tail) : t.kind ≠ .openBrace := by
  cases filter : q.filter? with
  | none => simp [filterTokens, filterLexemes, filter] at mem
  | some entries =>
    rw [q.filterTokens_eq filter, List.tail_cons] at mem
    rcases List.mem_append.1 mem with inner | last
    · exact (braceless_lay (inner_entries entries) _ t inner).1
    · rw [List.mem_singleton.1 last]
      simp

/-- No brace opens right behind a filter. -/
theorem take_groupingTokens {t : Token} (mem : t ∈ q.groupingTokens.take 2) : t.kind ≠ .openBrace := by
  cases grouping : q.grouping? with
  | none => simp [groupingTokens, groupingLexemes, grouping] at mem
  | some tags =>
    simp only [q.groupingTokens_eq grouping, List.take_succ_cons, List.take_zero, List.mem_cons,
      List.not_mem_nil, or_false] at mem
    rcases mem with rfl | rfl <;> simp

/-- Where the braces of the filter stand. -/
def filterSpan : Span := ⟨q.head.length, q.head.length + q.filterText.length - 1⟩

/-- Where the braces of the grouping stand. -/
def groupingSpan : Span := ⟨(q.head ++ q.filterText).length + 4, q.text.length - 1⟩

/-- The braces of the grouping are found, and no others are taken for them. -/
theorem groupings_eq : (Reading.of q.text).groupings = (q.grouping?.map fun _ => q.groupingSpan).toList := by
  have searched : (Reading.of q.text).groupings =
      (focuses (Reading.of q.text).tokens).filterMap (Reading.of q.text).groupingFrom? := rfl
  rw [searched, q.tokens_eq, focuses, focusesFrom_append, List.filterMap_append, focusesFrom_append,
    List.filterMap_append]
  have head : ((focusesFrom [] q.headTokens).map (·.followedBy (q.filterTokens ++ q.groupingTokens))).filterMap
      (Reading.of q.text).groupingFrom? = [] := by
    refine List.filterMap_eq_nil_iff.2 fun f mem => ?_
    obtain ⟨g, there, rfl⟩ := List.mem_map.1 mem
    have other := (q.head_focus there (q.filterTokens ++ q.groupingTokens)).2
    unfold Reading.groupingFrom?
    split
    · rw [other]
      rfl
    · rfl
  have filter : ((focusesFrom (q.headTokens.reverse ++ []) q.filterTokens).map
      (·.followedBy q.groupingTokens)).filterMap (Reading.of q.text).groupingFrom? = [] := by
    refine List.filterMap_eq_nil_iff.2 fun f mem => ?_
    obtain ⟨g, there, rfl⟩ := List.mem_map.1 mem
    refine groupingFrom?_of_braceless _ fun t next => ?_
    have shown : t ∈ g.after ∨ t ∈ q.groupingTokens.take 2 := by
      simp only [Focus.followedBy, List.take_append, List.mem_append] at next
      rcases next with own | beyond
      · exact .inl (List.mem_of_mem_take own)
      · exact .inr (List.take_subset_take_left _ (Nat.sub_le ..) beyond)
    rcases shown with own | beyond
    · exact q.tail_filterTokens (after_subset_tail there own)
    · exact q.take_groupingTokens beyond
  rw [head, filter, List.nil_append, List.nil_append]
  cases grouping : q.grouping? with
  | none => simp [groupingTokens, groupingLexemes, grouping, focusesFrom]
  | some tags =>
    have tokens := q.groupingTokens_eq grouping
    let inner := lay ((q.head ++ q.filterText).length + 5) (separated (tags.map fun t => [(.word, t.text)]))
    have braceless : ∀ t ∈ inner, t.kind ≠ .openBrace ∧ t.kind ≠ .closeBrace :=
      braceless_lay (inner_tags tags) _
    have stop : (q.head ++ q.filterText).length + 5 + (Text.joinWith [','] (tags.map Name.text)).length =
        q.groupingSpan.stop := by
      simp [groupingSpan, text, groupingText, grouping]
      omega
    -- behind the opening brace no other one opens
    have later (before : List Token) (close : Token) (closes : close.kind = .closeBrace) :
        (focusesFrom before (inner ++ [close])).filterMap (Reading.of q.text).groupingFrom? = [] := by
      refine List.filterMap_eq_nil_iff.2 fun f mem => groupingFrom?_of_braceless _ fun t next => ?_
      have among := List.mem_of_mem_tail (after_subset_tail mem (List.mem_of_mem_take next))
      rcases List.mem_append.1 among with own | last
      · exact (braceless t own).1
      · rw [List.mem_singleton.1 last, closes]
        simp
    rw [tokens]
    simp only [focusesFrom]
    rw [List.filterMap_cons_none (groupingFrom?_of_kind _ (by simp))]
    rw [List.filterMap_cons, List.filterMap_cons_none (groupingFrom?_of_kind _ (by simp))]
    rw [List.filterMap_cons_none (groupingFrom?_of_kind _ (by simp)), later _ _ rfl]
    simp only [Reading.groupingFrom?, Reading.spanFrom]
    rw [closingBrace?_eq braceless rfl, stop]
    simp [isBy, Focus.previous?, Focus.next?, groupingSpan]

/-- A brace that opens in the grouping is the one behind the keyword. -/
theorem taken_of_mem_grouping {t : Token} (mem : t ∈ q.groupingTokens) (opens : t.kind = .openBrace) :
    (Reading.of q.text).groupings.any (fun s => s.start = t.start || s.contains t.start) = true := by
  cases grouping : q.grouping? with
  | none => simp [groupingTokens, groupingLexemes, grouping] at mem
  | some tags =>
    have start : t.start = q.groupingSpan.start := by
      simp only [q.groupingTokens_eq grouping, List.mem_cons, List.mem_append, List.not_mem_nil,
        or_false] at mem
      rcases mem with rfl | rfl | rfl | rfl | inner | rfl
      · cases opens
      · cases opens
      · cases opens
      · rfl
      · exact absurd opens (braceless_lay (inner_tags tags) _ t inner).1
      · cases opens
    simp [q.groupings_eq, grouping, start]

/-- The first brace that opens no grouping opens the filter. -/
theorem filter?_eq : (Reading.of q.text).filter? = q.filter?.map fun _ => q.filterSpan := by
  let opens (f : Focus) : Bool := f.token.kind = .openBrace &&
    !((Reading.of q.text).groupings.any fun s => s.start = f.token.start || s.contains f.token.start)
  have searched : (Reading.of q.text).filter? = ((focuses (Reading.of q.text).tokens).find? opens).map
      fun f => (Reading.of q.text).spanFrom f.token f.after := rfl
  rw [searched, q.tokens_eq, focuses, focusesFrom_append, List.find?_append]
  have head : ((focusesFrom [] q.headTokens).map (·.followedBy (q.filterTokens ++ q.groupingTokens))).find?
      opens = none := by
    refine List.find?_eq_none.2 fun f mem => ?_
    obtain ⟨g, there, rfl⟩ := List.mem_map.1 mem
    have other : (g.followedBy (q.filterTokens ++ q.groupingTokens)).token.kind ≠ .openBrace :=
      (q.head_focus there []).1
    simp [opens, other]
  rw [head, Option.none_or]
  cases filter : q.filter? with
  | some entries =>
    have tokens := q.filterTokens_eq filter
    have stop : q.head.length + 1 + (Text.joinWith [','] (entries.map Entry.text)).length =
        q.filterSpan.stop := by
      simp [filterSpan, filterText, filter]
      omega
    have first : ((Reading.of q.text).groupings.any fun s =>
        s.start = q.head.length || s.contains q.head.length) = false := by
      rw [q.groupings_eq]
      cases q.grouping? with
      | none => rfl
      | some tags =>
        simp [groupingSpan, Span.contains]
        omega
    rw [tokens, List.cons_append, focusesFrom, List.find?_cons_of_pos (by simp [opens, first])]
    simp only [Option.map_some, Reading.spanFrom, List.append_assoc, List.cons_append]
    rw [closingBrace?_eq (braceless_lay (inner_entries entries) _) rfl, stop]
    rfl
  | none =>
    have empty : q.filterTokens = [] := by simp [filterTokens, filterLexemes, filter]
    have none_opens : (focusesFrom (q.headTokens.reverse ++ []) q.groupingTokens).find? opens = none := by
      refine List.find?_eq_none.2 fun f mem => ?_
      obtain ⟨passed, same, -⟩ := mem_focusesFrom mem
      have there : f.token ∈ q.groupingTokens := same ▸ List.mem_append_right _ List.mem_cons_self
      by_cases kind : f.token.kind = .openBrace
      · have taken := q.taken_of_mem_grouping there kind
        simp only [opens, taken, Bool.not_true, Bool.and_false]
        simp
      · simp [opens, kind]
    rw [empty, List.nil_append, none_opens]
    rfl

end Query

end Typeahead.Metrics
