import Typeahead.Proofs.Token.Typed
import Typeahead.Reading

/-!
What is typed at a cursor ends the line up to the cursor, in every context but that of a grouping.

- `token_suffix`: the rule, for both languages.
-/

namespace Typeahead

namespace Text

theorem slice_suffix (t : Text) (start stop : Nat) : t.slice start stop <:+ t.take stop := List.drop_suffix ..

end Text

namespace Metrics.Reading

variable {line : Text} {position : Nat}

theorem wordBefore_suffix : (of line).wordBefore position <:+ line.take position := by
  unfold wordBefore
  split
  · next f found =>
    split
    · exact typed_suffix found
    · exact List.nil_suffix
  · exact List.nil_suffix

theorem filterContext_suffix (r : Reading) (s : Span) (position : Nat) :
    (r.filterContext s position).token <:+ r.text.take position := by
  unfold filterContext
  dsimp only
  split
  · exact Text.slice_suffix ..
  · split <;> exact Text.slice_suffix ..

theorem contextAt_suffix (ungrouped : ((of line).contextAt position).place ≠ .groupingTag) :
    ((of line).contextAt position).token <:+ line.take position := by
  unfold contextAt at ungrouped ⊢
  split at ungrouped
  · exact absurd rfl ungrouped
  · split
    · exact filterContext_suffix ..
    · exact wordBefore_suffix

end Metrics.Reading

namespace Logs.Reading

variable {line : Text} {position : Nat} {f : Focus} {typed : Text}

theorem slot?_suffix {slot : Token × Text} (h : slot? f typed = some slot) : slot.2 <:+ typed := by
  unfold slot? at h
  split at h
  · obtain ⟨name, -, rfl⟩ := Option.map_eq_some_iff.1 h
    exact List.nil_suffix
  · obtain ⟨name, -, rfl⟩ := Option.map_eq_some_iff.1 h
    exact List.suffix_refl _
  · obtain ⟨name, -, rfl⟩ := Option.map_eq_some_iff.1 h
    exact List.drop_suffix ..
  · cases h

theorem termContext_suffix (r : Reading) (base : Context) (f : Focus) (position : Nat) :
    (r.termContext base f position).token <:+ r.text.take position := by
  unfold termContext
  dsimp only
  split <;> split <;> exact Text.trailing_suffix ..

theorem contextAt_suffix : ((of line).contextAt position).token <:+ line.take position := by
  unfold contextAt
  dsimp only
  split
  · exact List.nil_suffix
  · next f found =>
    have typed := typed_suffix found
    split
    · next name value slot => exact (slot?_suffix slot).trans typed
    · split
      · exact List.nil_suffix
      · split
        · unfold valueContext
          dsimp only
          split
          · exact typed
          · exact List.nil_suffix
        · exact termContext_suffix ..

end Logs.Reading

/-- What is typed ends the line up to the cursor. In a grouping the whole tag counts instead, also what stands
behind the cursor. -/
theorem token_suffix (language : Language) (text : Text) (cursor : Int)
    (ungrouped : (contextOf language text cursor).place ≠ .groupingTag) :
    let line := text.locate cursor
    (contextOf language text cursor).token <:+ line.text.take (text.clamp cursor - line.offset) := by
  cases language with
  | metrics =>
    simp only [contextOf, Metrics.contextOf, Context.located, Text.locate] at ungrouped ⊢
    split at ungrouped
    · next inked =>
      simp only [inked, if_true]
      exact Metrics.Reading.contextAt_suffix ungrouped
    · next blank => simp [blank]
  | logs =>
    simp only [contextOf, Logs.contextOf, Context.located, Text.locate]
    split
    · exact Logs.Reading.contextAt_suffix
    · exact List.nil_suffix

end Typeahead
