import Typeahead.Edit

/-!
The cursor after an edit.

- `cursor_accept_le`: wherever the cursor was and whatever is accepted, it stands inside the new text.
-/

namespace Typeahead

namespace Text

theorem lineAt_stop_le (t : Text) {cursor : Nat} (h : cursor ≤ t.length) :
    (t.lineAt cursor).offset + (t.lineAt cursor).text.length ≤ t.length := by
  have before := (trailing_suffix insideLine (t.take cursor)).length_le
  have after := (List.takeWhile_prefix insideLine (l := t.drop cursor)).length_le
  simp only [lineAt, List.length_append, List.length_take, List.length_drop] at *
  omega

end Text

namespace Edit

theorem cursor_splice_le {text : Text} {start : Nat} (h : start ≤ text.length) (stop : Nat)
    (insert : Text) :
    (splice text start stop insert).cursor ≤ (splice text start stop insert).text.length := by
  simp only [splice, List.length_append, List.length_take]
  omega

theorem runStart_le (p : Char → Bool) (text : Text) (cursor : Nat) :
    runStart p text cursor ≤ cursor := Nat.sub_le ..

theorem runStop_le (p : Char → Bool) {text : Text} {cursor : Nat} (h : cursor ≤ text.length) :
    runStop p text cursor ≤ text.length := by
  have run := (List.takeWhile_prefix p (l := text.drop cursor)).length_le
  simp only [runStop, List.length_drop] at *
  omega

theorem valueStart_le (text : Text) (cursor : Nat) (context : Context) :
    valueStart text cursor context ≤ cursor := by
  simp only [valueStart]
  split
  · split <;> omega
  · exact runStart_le ..

theorem cursor_metricLine_le {text : Text} {cursor : Nat} (h : cursor ≤ text.length)
    (insert : Text) :
    (metricLine text cursor insert).cursor ≤ (metricLine text cursor insert).text.length := by
  have line := Text.lineAt_stop_le text h
  exact cursor_splice_le (by omega) ..

theorem cursor_listEntry_le {text : Text} {cursor : Nat} (h : cursor ≤ text.length)
    (label insert : Text) :
    (listEntry text cursor label insert).cursor ≤
      (listEntry text cursor label insert).text.length := by
  simp only [listEntry]
  split
  · exact cursor_splice_le (by omega) ..
  · have line := Text.lineAt_stop_le text h
    have inLine : cursor - (text.lineAt cursor).offset ≤ (text.lineAt cursor).text.length := by
      simp only [Text.lineAt, List.length_append, List.length_take]
      omega
    have stop := runStop_le isKeyPart inLine
    exact cursor_splice_le (by omega) ..

theorem cursor_operator_le {text : Text} {cursor : Nat} (h : cursor ≤ text.length)
    (insert : Text) :
    (operator text cursor insert).cursor ≤ (operator text cursor insert).text.length := by
  simp only [operator]
  exact cursor_splice_le (by split <;> omega) ..

/-- Accepting an item leaves the cursor inside the text. -/
theorem cursor_accept_le (text : Text) (cursor : Int) (item : Item) (context : Context) :
    (accept text cursor item context).cursor ≤ (accept text cursor item context).text.length := by
  have inside := text.clamp_le cursor
  simp only [accept, acceptAt]
  cases item.kind with
  | metric => exact cursor_metricLine_le inside _
  | groupingTag | filterKey => exact cursor_listEntry_le inside ..
  | filterValue | service | source | level | facetValue =>
    exact cursor_splice_le (Nat.le_trans (valueStart_le ..) inside) ..
  | operator => exact cursor_operator_le inside _
  | pattern => exact cursor_splice_le inside ..
  | facet | aggregator => exact cursor_splice_le (Nat.le_trans (runStart_le ..) inside) ..

end Edit

end Typeahead
