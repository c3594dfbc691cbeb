import Typeahead.Metrics.Check
import Typeahead.Proofs.Text.Lines
import Typeahead.Proofs.Token.Nests
import Typeahead.Proofs.Token.Tiled

/-!
Which of the metrics queries that the check accepts have braces that nest. The check compares the numbers of both
braces, reads the name of the metric, in which there are none, and follows the braces of the filter to the one that
closes it. Where braces are read as what they are, they nest; elsewhere nothing asks in which order they come.

- `closingBrace?_eq_stray?`, `Stretch`: where a stretch of braces ends, and the stretch cut out of its line.
- `Reading.count_lt_of_stretch`, `braceless_metric`: where the check looks a closing brace finds an open one.
- `nests_iff_of_accepted`: what is left to ask of an accepted query.
- `accepted_braces_apart`: accepted queries whose braces do not nest.
-/

namespace Typeahead.Metrics

/-- The end of a stretch is the first closing brace that no open one is left for. -/
theorem closingBrace?_eq_stray? (depth : Nat) (ts : List Token) :
    closingBrace? depth ts = (stray? .openBrace .closeBrace depth ts).map (·.start) := by
  induction ts generalizing depth with
  | nil => rfl
  | cons t ts ih =>
    by_cases opens : t.kind = .openBrace
    · simp [closingBrace?, stray?_cons_left, opens, ih]
    by_cases closes : t.kind = .closeBrace
    · cases depth with
      | zero => simp [closingBrace?, closes, stray?_zero_right (by decide : TokenKind.openBrace ≠ .closeBrace) closes]
      | succ depth =>
        rw [stray?_succ_right (by decide) closes, ← ih]
        simp [closingBrace?, closes]
    · rw [stray?_cons_other opens closes, ← ih, closingBrace?.eq_def]
      split <;> simp_all

/-- A brace is a token of its own, and no brace is hidden in a token of another kind. -/
def ShowsBraces (t : Token) : Prop :=
  match t.kind with
  | .openBrace => t.written = ['{']
  | .closeBrace => t.written = ['}']
  | _ => '{' ∉ t.written ∧ '}' ∉ t.written

/-- Where no brace is hidden, the braces that are written are those that are read. -/
theorem covered_writing {ts : List Token} (shows : ∀ t ∈ ts, ShowsBraces t) {depth : Nat}
    (h : Covered .openBrace .closeBrace depth (ts.map (·.kind))) : Covered '{' '}' depth (writing ts) := by
  induction ts generalizing depth with
  | nil => exact covered_nil
  | cons t ts ih =>
    obtain ⟨here, later⟩ := List.forall_mem_cons.1 shows
    rw [List.map_cons] at h
    rw [writing_cons]
    unfold ShowsBraces at here
    split at here
    · next opens =>
      rw [opens, covered_cons_left (by decide)] at h
      rw [here, List.singleton_append, covered_cons_left (by decide)]
      exact ih later h
    · next closes =>
      rw [closes] at h
      rw [here, List.singleton_append]
      cases depth with
      | zero => exact absurd h (not_covered_cons_right (by decide))
      | succ depth =>
        rw [covered_cons_right (by decide)] at h ⊢
        exact ih later h
    · next unopened unclosed =>
      rw [covered_cons_other unopened unclosed] at h
      rw [covered_append_other]
      · exact ih later h
      · rintro k mem
        exact ⟨fun same => here.1 (same ▸ mem), fun same => here.2 (same ▸ mem)⟩

/-- A stretch of braces in its line, told by tokens: those in front of its opening brace, those in the stretch, among
which no closing brace is one too many, and the others, which begin with the brace that closes it if there is one. -/
structure Stretch (line : Text) (s : Span) (us : List Token) (brace : Token) (inner rest : List Token) : Prop where
  tokens : (Reading.of line).tokens = us ++ brace :: (inner ++ rest)
  opens : brace.kind = .openBrace
  covered : Covered .openBrace .closeBrace 0 (inner.map (·.kind))
  start : s.start = (writing us).length
  stop : s.stop = s.start + 1 + (writing inner).length

/-- Each opening brace begins a stretch. -/
theorem exists_stretch {line : Text} {us after : List Token} {brace : Token}
    (same : (Reading.of line).tokens = us ++ brace :: after) (opens : brace.kind = .openBrace) :
    ∃ inner rest, Stretch line ((Reading.of line).spanFrom brace after) us brace inner rest := by
  have mem : brace ∈ (Reading.of line).tokens := by simp [same]
  have written : brace.written = ['{'] := written_of_mark Lexer.single_metricsMarks rfl mem opens
  have start : brace.start = (writing us).length := start_eq same
  have whole : writing (Reading.of line).tokens = line := writing_tokens metricsMarks line
  cases found : stray? .openBrace .closeBrace 0 after with
  | none =>
    refine ⟨after, [], by simpa using same, opens, (stray?_eq_none_iff (by decide)).1 found, start, ?_⟩
    rw [same, writing_append, writing_cons, written] at whole
    have length := congrArg List.length whole
    simp only [List.length_append, List.length_singleton] at length
    simp only [Reading.spanFrom, closingBrace?_eq_stray?, found, Option.map_none, Option.getD_none, start]
    change line.length = _
    omega
  | some close =>
    obtain ⟨inner, rest, rfl, -, settles⟩ := (stray?_eq_some_iff (by decide)).1 found
    refine ⟨inner, close :: rest, same, opens, settles.covered, start, ?_⟩
    have closed : (Reading.of line).tokens = (us ++ brace :: inner) ++ close :: rest := by simp [same]
    have stop : close.start = (writing (us ++ brace :: inner)).length := start_eq closed
    simp only [Reading.spanFrom, closingBrace?_eq_stray?, found, Option.map_some, Option.getD_some, start, stop,
      writing_append, writing_cons, written, List.length_append, List.length_singleton]
    omega

namespace Stretch

variable {line : Text} {s : Span} {us inner rest : List Token} {brace t : Token}

theorem written (h : Stretch line s us brace inner rest) : brace.written = ['{'] := by
  have mem : brace ∈ (Reading.of line).tokens := by simp [h.tokens]
  exact written_of_mark Lexer.single_metricsMarks rfl mem h.opens

theorem line_eq (h : Stretch line s us brace inner rest) :
    line = writing us ++ '{' :: (writing inner ++ writing rest) := by
  have whole : writing (Reading.of line).tokens = line := writing_tokens metricsMarks line
  rw [h.tokens, writing_append, writing_cons, h.written, writing_append] at whole
  exact whole.symm

theorem start_of_brace (h : Stretch line s us brace inner rest) : brace.start = s.start :=
  (start_eq h.tokens).trans h.start.symm

theorem start_of_before (h : Stretch line s us brace inner rest) (mem : t ∈ us) : t.start < s.start :=
  h.start_of_brace ▸ start_lt_of_tokens h.tokens t mem

/-- The tokens in the stretch start between its ends, -/
theorem start_of_inner (h : Stretch line s us brace inner rest) (mem : t ∈ inner) :
    s.start < t.start ∧ t.start < s.stop := by
  obtain ⟨front, back, rfl⟩ := List.append_of_mem mem
  have same : (Reading.of line).tokens = (us ++ brace :: front) ++ t :: (back ++ rest) := by simp [h.tokens]
  refine ⟨h.start_of_brace ▸ start_lt_of_tokens same brace (by simp), ?_⟩
  have there : t ∈ (Reading.of line).tokens := by simp [same]
  have filled := List.length_pos_iff.2 (written_ne_nil there)
  have begins := h.start
  have ends := h.stop
  have start := start_eq same
  simp only [writing_append, writing_cons, h.written, List.length_append, List.length_singleton] at start ends
  omega

/-- and the others outside. -/
theorem start_of_rest (h : Stretch line s us brace inner rest) (mem : t ∈ rest) : s.stop ≤ t.start := by
  obtain ⟨front, back, rfl⟩ := List.append_of_mem mem
  have same : (Reading.of line).tokens = (us ++ brace :: (inner ++ front)) ++ t :: back := by simp [h.tokens]
  have begins := h.start
  have ends := h.stop
  have start := start_eq same
  simp only [writing_append, writing_cons, h.written, List.length_append, List.length_singleton] at start
  omega

end Stretch

namespace Reading

/-- The stretches of braces that are read in a line: that of the filter, and those of the groupings. -/
def stretches (r : Reading) : List Span := r.filter?.toList ++ r.groupings

/-- No brace is hidden in a stretch, be it in quotes, behind a backslash or in a placeholder. -/
def Unhidden (r : Reading) (s : Span) : Prop :=
  ∀ t ∈ r.tokens, s.start < t.start → t.start < s.stop → ShowsBraces t

/-- Where the metric starts: behind the colon of the aggregator, if there is one. -/
def metricStart (r : Reading) : Nat :=
  match r.aggregatorColon? with
  | some colon => colon + 1
  | none => 0

/-- A position is in the metric, or in a stretch in which no brace is hidden. -/
def Oversees (r : Reading) (position : Nat) : Prop :=
  (r.metricStart ≤ position ∧ position < r.metricEnd) ∨
    ∃ s ∈ r.stretches, s.contains position = true ∧ r.Unhidden s

variable {line : Text} {s : Span} {position : Nat}

theorem exists_of_mem_stretches (mem : s ∈ (of line).stretches) :
    ∃ us brace inner rest, Stretch line s us brace inner rest := by
  rcases List.mem_append.1 mem with filter | grouping
  · obtain ⟨f, found, rfl⟩ := Option.map_eq_some_iff.1 (Option.mem_toList.1 filter)
    obtain ⟨passed, same, -⟩ := mem_focusesFrom (List.mem_of_find?_eq_some found)
    have opens := List.find?_some found
    simp only [Bool.and_eq_true, decide_eq_true_eq] at opens
    exact ⟨passed, f.token, exists_stretch same opens.1⟩
  · obtain ⟨f, there, found⟩ := List.mem_filterMap.1 grouping
    obtain ⟨passed, same, -⟩ := mem_focusesFrom there
    split at found
    · next blank brace rest behind =>
      obtain ⟨opens, own⟩ := Option.ite_none_right_eq_some.1 found
      obtain rfl := Option.some.inj own
      simp only [Bool.and_eq_true, decide_eq_true_eq] at opens
      rw [behind] at same
      exact ⟨passed ++ [f.token, blank], brace, exists_stretch (by simpa using same) opens.2⟩
    · cases found

/-- In a stretch and at its end a brace is open, if none was missing where it began. -/
theorem count_lt_of_stretch (mem : s ∈ (of line).stretches) (unhidden : (of line).Unhidden s)
    (within : s.contains position = true) (before : (line.take s.start).count '}' ≤ (line.take s.start).count '{') :
    (line.take position).count '}' < (line.take position).count '{' := by
  obtain ⟨us, brace, inner, rest, h⟩ := exists_of_mem_stretches mem
  have shows : ∀ t ∈ inner, ShowsBraces t := fun t there =>
    unhidden t (by simp [h.tokens, there]) (h.start_of_inner there).1 (h.start_of_inner there).2
  have stop := h.stop
  simp only [Span.contains, Bool.and_eq_true, decide_eq_true_eq] at within
  obtain ⟨i, rfl⟩ : ∃ i, position = s.start + (i + 1) := ⟨position - s.start - 1, by omega⟩
  have inside := covered_writing shows h.covered i
  have upTo : line.take (s.start + (i + 1)) = line.take s.start ++ '{' :: (writing inner).take i := by
    rw [h.line_eq, h.start, List.take_length_add_append, List.take_left, List.take_succ_cons,
      List.take_append_of_le_length (by omega)]
  rw [upTo, List.count_append, List.count_append, List.count_cons_self, List.count_cons_of_ne (by decide)]
  omega

end Reading

/-- A closing brace counts as one, and only among the closing ones. -/
theorem count_take_closing {t : Text} {n : Nat} (closes : t[n]? = some '}') :
    (t.take (n + 1)).count '}' = (t.take n).count '}' + 1 ∧ (t.take (n + 1)).count '{' = (t.take n).count '{' := by
  rw [List.take_add_one, closes]
  exact ⟨by simp, by simp⟩

/-- The reading that the check makes of a query. -/
def checkedReading (query : Text) : Reading := .of (Text.strip query.mask)

section

variable {query : Text}

/-- What the check asks of an accepted query as far as braces go. -/
theorem of_errors_eq_nil (accepted : (check query).errors = []) :
    (checkedReading query).text.count '{' = (checkedReading query).text.count '}' ∧
      ∃ name, (checkedReading query).metric? = some name ∧ isMetricName name = true := by
  rw [check, List.map_eq_nil_iff, faults] at accepted
  split at accepted
  · cases accepted
  obtain ⟨⟨⟨braces, metric⟩, -⟩, -⟩ := by simpa only [List.append_eq_nil_iff] using accepted
  constructor
  · change (Text.strip query.mask).count '{' = (Text.strip query.mask).count '}'
    by_contra differ
    rw [if_neg differ] at braces
    cases braces
  · split at metric
    · cases metric
    · next name found =>
      refine ⟨name, found, ?_⟩
      by_contra unnamed
      rw [if_neg unnamed] at metric
      cases metric

/-- There are no braces in the metric of an accepted query. -/
theorem braceless_metric (accepted : (check query).errors = []) {position : Nat}
    (reached : (checkedReading query).metricStart ≤ position) (within : position < (checkedReading query).metricEnd) :
    (checkedReading query).text[position]? ≠ some '}' := by
  intro there
  obtain ⟨-, name, found, named⟩ := of_errors_eq_nil accepted
  obtain ⟨rfl, -⟩ := Text.stripped?_eq_some_iff.1 found
  have mem := Text.mem_trim (Text.mem_slice there reached within) (by decide : isBlank '}' = false)
  have part := List.all_eq_true.1 (Bool.and_eq_true_iff.1 named).2 '}' mem
  cases part

/-- The braces of an accepted query nest if and only if each closing brace finds an open one in front of it where the
check does not look: outside the metric, and outside the stretches of the filter and of the groupings in which no brace
is hidden. -/
theorem nests_iff_of_accepted (accepted : (check query).errors = []) :
    Nests '{' '}' (checkedReading query).text ↔ ∀ position,
      (checkedReading query).text[position]? = some '}' → ¬(checkedReading query).Oversees position →
        ((checkedReading query).text.take position).count '}' <
          ((checkedReading query).text.take position).count '{' := by
  rw [nests_iff (by decide)]
  constructor
  · intro h position there _
    have upTo := h.covered (position + 1)
    have counts := count_take_closing there
    omega
  · intro opened
    refine ⟨fun n => ?_, (of_errors_eq_nil accepted).1.symm.trans (Nat.zero_add _).symm⟩
    rw [Nat.zero_add]
    -- a stretch is looked at from where it starts, which may be far in front of the place that is asked for
    induction n using Nat.strongRecOn with
    | _ n ih =>
      cases n with
      | zero => simp
      | succ n =>
        have before := ih n (Nat.lt_succ_self n)
        by_cases closes : (checkedReading query).text[n]? = some '}'
        · have counts := count_take_closing closes
          suffices more : ((checkedReading query).text.take n).count '}' <
              ((checkedReading query).text.take n).count '{' by omega
          by_cases overseen : (checkedReading query).Oversees n
          · rcases overseen with ⟨reached, within⟩ | ⟨s, mem, within, unhidden⟩
            · exact absurd closes (braceless_metric accepted reached within)
            · refine Reading.count_lt_of_stretch mem unhidden within (ih s.start ?_)
              simp only [Span.contains, Bool.and_eq_true, decide_eq_true_eq] at within
              omega
          · exact opened n closes overseen
        · have other : ((checkedReading query).text[n]?.toList).count '}' = 0 :=
            List.count_eq_zero.2 fun mem => closes (Option.mem_toList.1 mem)
          rw [List.take_add_one, List.count_append, List.count_append]
          omega

/-- Braces in braces nest, and so do braces in quotes, at which the check does not look. -/
theorem quoted_braces_nest :
    let query := "avg:cpu\x7bhost:\"\x7d\x7b\",env:\x7bx\x7d\x7d by \x7bhost\x7d".toList
    (check query).errors = [] ∧ Nests '{' '}' (checkedReading query).text := by
  intro query
  have accepted : (check query).errors = [] := by decide +kernel
  refine ⟨accepted, (nests_iff_of_accepted accepted).2 fun position closes _ => ?_⟩
  have opened : ∀ p < (checkedReading query).text.length, (checkedReading query).text[p]? = some '}' →
      ((checkedReading query).text.take p).count '}' < ((checkedReading query).text.take p).count '{' := by
    decide +kernel
  exact opened position (List.getElem?_eq_some_iff.1 closes).1 closes

/-- Accepted queries whose braces do not nest: around the metric, behind the filter, and in quotes. -/
theorem accepted_braces_apart :
    ((check "\x7d:m\x7b".toList).errors = [] ∧ ¬Nests '{' '}' (checkedReading "\x7d:m\x7b".toList).text) ∧
    ((check "m\x7b*\x7d\x7d\x7b".toList).errors = [] ∧
      ¬Nests '{' '}' (checkedReading "m\x7b*\x7d\x7d\x7b".toList).text) ∧
    ((check "m\x7bk:\"\x7d\x7d\x7b\x7b\"\x7d".toList).errors = [] ∧
      ¬Nests '{' '}' (checkedReading "m\x7bk:\"\x7d\x7d\x7b\x7b\"\x7d".toList).text) := by
  have apart {t : Text} (n : Nat) (more : (t.take n).count '{' < (t.take n).count '}') : ¬Nests '{' '}' t := by
    intro nests
    have covered := ((nests_iff (by decide)).1 nests).covered n
    omega
  exact ⟨⟨by decide +kernel, apart 1 (by decide +kernel)⟩, ⟨by decide +kernel, apart 5 (by decide +kernel)⟩,
    ⟨by decide +kernel, apart 7 (by decide +kernel)⟩⟩

end

end Typeahead.Metrics
