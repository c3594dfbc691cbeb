import Typeahead.Proofs.Edit.OwnLine

/-!
The context at a cursor is that of its line. Only the line is cut out of the text, masked and read; so what stands on
other lines, be it quotes, braces or placeholders that are open there, counts for nothing.

- `contextOf_of_lineAt`: the context, told from the line of the cursor alone.
- `contextOf_ownLine`: a line among others, and the same line by itself.
-/

namespace Typeahead

/-- The context at a cursor, told from the line of the cursor alone. -/
theorem contextOf_of_lineAt (language : Language) {text line : Text} {cursor : Int} {offset : Nat}
    (own : text.lineAt (text.clamp cursor) = ⟨line, offset⟩) (inside : ∀ c ∈ line, Text.insideLine c = true)
    (within : text.clamp cursor - offset ≤ line.length) : contextOf language text cursor =
      { contextOf language line ((text.clamp cursor - offset : Nat) : Int) with
        cursor := text.clamp cursor, lineOffset := offset } := by
  -- in the line by itself the cursor is where it is in the line of the text, and the line is the whole
  have alone := Text.lineAt_of_inside inside (text.clamp cursor - offset)
  cases language <;>
    simp only [contextOf, Metrics.contextOf, Logs.contextOf, own, Text.clamp_of_le line within, alone, Nat.sub_zero,
      Context.located]

/-- Whatever stands on other lines, the context at a place of a line is the one at this place of the line by itself,
with the cursor and the beginning of the line counted from the beginning of the text. -/
theorem contextOf_ownLine (language : Language) {text before line after : Text}
    (lined : text.Lined before line after) {place : Nat} (within : place ≤ line.length) :
    contextOf language text ((before.length + place : Nat) : Int) =
      { contextOf language line (place : Int) with
        cursor := ((before.length + place : Nat) : Int), lineOffset := before.length } := by
  have reached : before.length + place ≤ text.length := by
    rw [lined.parts, List.length_append, List.length_append]
    omega
  have clamped : text.clamp ((before.length + place : Nat) : Int) = before.length + place := text.clamp_of_le reached
  have own : text.lineAt (before.length + place) = ⟨line, before.length⟩ :=
    lined.lineAt_eq ⟨Nat.le_add_right .., Nat.add_le_add_left within _⟩
  have local' := contextOf_of_lineAt language (clamped.symm ▸ own) lined.inside
    (by rw [clamped, Nat.add_sub_cancel_left]; exact within)
  rwa [clamped, Nat.add_sub_cancel_left] at local'

/-- A quote, a brace and a placeholder are open on the line in front, and all are closed on the line behind. -/
theorem contextOf_ownLine_closed :
    let before := "say \"m\x7ba $\x7b\n".toList
    let line := "avg:cpu\x7bhost:web-".toList
    let after := "\n\" \x7d\x7d [x]".toList
    Text.Lined (before ++ line ++ after) before line after ∧ 17 ≤ line.length ∧
      contextOf .metrics (before ++ line ++ after) ((before.length + 17 : Nat) : Int) =
        { contextOf .metrics line (17 : Nat) with
          cursor := ((before.length + 17 : Nat) : Int), lineOffset := before.length } ∧
      (contextOf .metrics line (17 : Nat)).token = "web-".toList := by
  intro before line after
  have inside : line.all Text.insideLine = true := by decide
  have last : before.getLast? = some '\n' := by decide
  have first : after.head? = some '\n' := by decide
  have lined : Text.Lined (before ++ line ++ after) before line after :=
    ⟨rfl, List.all_eq_true.1 inside, fun c there => Option.some.inj (there.symm.trans last),
      fun c there => Option.some.inj (there.symm.trans first)⟩
  have within : 17 ≤ line.length := by decide
  exact ⟨lined, within, contextOf_ownLine .metrics lined within, by decide +kernel⟩

end Typeahead
