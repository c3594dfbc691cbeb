import Typeahead.Proofs.Edit.OwnLine

/-!
The shape of every context that is read, also of a query that makes no sense: its line is one of the text, its cursor
stands in this line, and what is typed stands there too.

- `Metrics.Reading.contextAt_cases`: the three kinds of contexts of a metrics line.
- `contextOf_shaped`: the shape, for both languages.
-/

namespace Typeahead

namespace Text

theorem trim_infix (p : Char → Bool) (t : Text) : trim p t <:+: t := by
  obtain ⟨left, right, parts, -⟩ := exists_padding p t
  exact ⟨left, right, parts.symm⟩

/-- Nothing is left to drop. -/
theorem trim_trim (p : Char → Bool) (t : Text) : trim p (trim p t) = trim p t := by
  obtain ⟨-, -, -, -, -, first, last⟩ := exists_padding p t
  exact trim_of_ends first last

theorem slice_infix (t : Text) (start stop : Nat) : t.slice start stop <:+: t :=
  (slice_suffix t start stop).isInfix.trans (List.take_prefix stop t).isInfix

end Text

namespace Metrics.Reading

variable (r : Reading) (position : Nat)

/-- A cursor of a metrics line is in a grouping, in the filter, or outside of both. -/
theorem contextAt_cases : (∃ s, r.contextAt position = r.groupingContext s position) ∨
    (∃ s, r.contextAt position = r.filterContext s position) ∨ r.contextAt position = r.outerContext position := by
  unfold contextAt
  split
  · exact .inl ⟨_, rfl⟩
  · split
    · exact .inr (.inl ⟨_, rfl⟩)
    · exact .inr (.inr rfl)

theorem filterContext_place (s : Span) :
    (r.filterContext s position).place = .filterValue ∨ (r.filterContext s position).place = .filterKey := by
  unfold filterContext
  dsimp only
  split
  · exact .inl rfl
  · split
    · exact .inr rfl
    · exact .inl rfl

theorem outerContext_place : (r.outerContext position).place = .aggregatorPrefix ∨
    (r.outerContext position).place = .metricName := by
  simp only [outerContext]
  split
  · exact .inl rfl
  · exact .inr rfl

theorem contextAt_language : (r.contextAt position).language = .metrics := by
  unfold Context.language
  rcases r.contextAt_cases position with ⟨s, same⟩ | ⟨s, same⟩ | same
  · rw [same, groupingContext]
    rfl
  · rw [same]
    rcases r.filterContext_place position s with place | place <;> rw [place] <;> rfl
  · rw [same]
    rcases r.outerContext_place position with place | place <;> rw [place] <;> rfl

/-- The tag of a grouping is a part of the line, without the blanks around it. -/
theorem contextAt_tag (grouped : (r.contextAt position).place = .groupingTag) :
    (r.contextAt position).token <:+: r.text ∧ Text.strip (r.contextAt position).token = (r.contextAt position).token := by
  rcases r.contextAt_cases position with ⟨s, same⟩ | ⟨s, same⟩ | same
  · rw [same]
    simp only [groupingContext]
    split
    · exact ⟨List.nil_infix, rfl⟩
    · exact ⟨(Text.trim_infix ..).trans (Text.slice_infix ..), Text.trim_trim ..⟩
  · rw [same] at grouped
    rcases r.filterContext_place position s with place | place <;> simp [place] at grouped
  · rw [same] at grouped
    rcases r.outerContext_place position with place | place <;> simp [place] at grouped

end Metrics.Reading

namespace Logs.Reading

variable (r : Reading) (position : Nat)

theorem termContext_language {base : Context} (spoken : base.language = .logs) (f : Focus) :
    (r.termContext base f position).language = .logs := by
  unfold termContext
  extract_lets marked typed head
  split
  · rfl
  · exact spoken

theorem contextAt_language : (r.contextAt position).language = .logs := by
  unfold contextAt
  extract_lets group base
  split
  · rfl
  · extract_lets typed
    split
    · rfl
    · split
      · rfl
      · split
        · rfl
        · exact r.termContext_language position rfl _

end Logs.Reading

/-- The shape of a context of a language, read at a cursor of a text. -/
structure Context.Shaped (c : Context) (language : Language) (text : Text) (cursor : Int) : Prop where
  spoken : c.language = language
  cursor_eq : c.cursor = text.clamp cursor
  ordered : 0 ≤ c.lineOffset ∧ c.lineOffset ≤ c.cursor ∧ c.cursor ≤ text.length
  /-- The line reaches from a line break or the beginning of the text to the next line break or the end. -/
  line : ∃ before after, text.Lined before c.lineText after ∧ c.lineOffset = before.length
  lineCursor : 0 ≤ c.lineCursor ∧ c.lineCursor ≤ c.lineText.length
  lineHead : c.lineHead <:+ text.take (text.clamp cursor)
  /-- What is typed ends at the cursor, -/
  typed : c.place ≠ .groupingTag → c.token <:+ c.lineHead
  /-- but the tag of a grouping may go on behind it. -/
  tag : c.place = .groupingTag → c.token <:+: c.lineText ∧ Text.strip c.token = c.token

theorem contextOf_language (language : Language) (text : Text) (cursor : Int) :
    (contextOf language text cursor).language = language := by
  cases language with
  | metrics =>
    simp only [contextOf, Metrics.contextOf]
    split
    · exact Metrics.Reading.contextAt_language ..
    · rfl
  | logs =>
    simp only [contextOf, Logs.contextOf]
    split
    · exact Logs.Reading.contextAt_language ..
    · rfl

/-- The tag of a grouping is a part of the line, without the blanks around it. -/
theorem token_of_grouping {language : Language} {text : Text} {cursor : Int}
    (grouped : (contextOf language text cursor).place = .groupingTag) :
    (contextOf language text cursor).token <:+: (text.locate cursor).text ∧
      Text.strip (contextOf language text cursor).token = (contextOf language text cursor).token := by
  cases language with
  | metrics =>
    simp only [contextOf, Metrics.contextOf, Context.located, Text.locate] at grouped ⊢
    split at grouped
    · next inked =>
      simp only [inked, if_true]
      exact Metrics.Reading.contextAt_tag _ _ grouped
    · cases grouped
  | logs =>
    have spoken := contextOf_language .logs text cursor
    rw [Context.language, grouped] at spoken
    cases spoken

/-- A context bears the line of its cursor. -/
theorem contextOf_located (language : Language) (text : Text) (cursor : Int) :
    ∃ found : Context, contextOf language text cursor = found.located (text.clamp cursor) (text.locate cursor) := by
  cases language <;> exact ⟨_, rfl⟩

/-- Whatever the text is and wherever the cursor points, the context that is read there has its shape. -/
theorem contextOf_shaped (language : Language) (text : Text) (cursor : Int) :
    (contextOf language text cursor).Shaped language text cursor := by
  obtain ⟨before, line, after, lined, here, own⟩ := text.exists_lined (text.clamp_le cursor)
  obtain ⟨found, same⟩ := contextOf_located language text cursor
  have located : text.locate cursor = ⟨line, before.length⟩ := own
  have cursor_eq : (contextOf language text cursor).cursor = text.clamp cursor := by rw [same]; rfl
  have line_eq : (contextOf language text cursor).lineText = line := by rw [same, located]; rfl
  have offset_eq : (contextOf language text cursor).lineOffset = before.length := by rw [same, located]; rfl
  have lower := here.1
  have upper := here.2
  have lineCursor_eq : (contextOf language text cursor).lineCursor = (text.clamp cursor - before.length : Nat) := by
    rw [Context.lineCursor, cursor_eq, offset_eq]
    omega
  have head_eq : (contextOf language text cursor).lineHead = line.take (text.clamp cursor - before.length) := by
    rw [Context.lineHead, lineCursor_eq, if_pos (Int.natCast_nonneg _), Int.toNat_natCast, line_eq]
  constructor
  case spoken => exact contextOf_language ..
  case cursor_eq => exact cursor_eq
  case ordered =>
    have inside := text.clamp_le cursor
    rw [offset_eq, cursor_eq]
    omega
  case line => exact ⟨before, after, line_eq ▸ lined, offset_eq⟩
  case lineCursor =>
    rw [lineCursor_eq, line_eq]
    omega
  case lineHead =>
    rw [head_eq, lined.take_eq here]
    exact List.suffix_append ..
  case typed =>
    intro ungrouped
    have typed := token_suffix language text cursor ungrouped
    rw [located] at typed
    rw [head_eq]
    exact typed
  case tag =>
    intro grouped
    have tag := token_of_grouping grouped
    rwa [located, ← line_eq] at tag

end Typeahead
