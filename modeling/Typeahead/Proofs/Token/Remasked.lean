import Typeahead.Logs.Check
import Typeahead.Logs.Cursor
import Typeahead.Proofs.Text.Elements
import Typeahead.Proofs.Token.Boundaries

/-!
What is read of a query that is masked before it is cut into tokens, which masks it once more. Where a query is typed it
is masked once, where it is checked twice. Both read the same tokens, unless a placeholder that stayed the first time is
masked the second time, around or in front of the stand-ins of another one.

- `strip_mask`: blanks around a text stay around it when it is masked.
- `tokens_mask_iff`: the tokens of a masked text are those of the text if masking it again changes nothing.
- `mask_mask_iff`: for which queries this is so.
- `quote_masked_again`: a quote that is an open string where it is typed, and nothing where it is checked.
-/

namespace Typeahead

namespace Text

variable {t : Text}

theorem strip_mask (t : Text) : strip (mask t) = mask (strip t) := by
  obtain ⟨left, right, split, blank, blank', first, last⟩ := exists_padding isBlank t
  have padded := mask_padded blank blank' (strip t)
  change t = left ++ strip t ++ right at split
  rw [← split] at padded
  rw [padded, strip, trim_append_right blank', trim_append_left blank]
  exact trim_of_ends (inked_head?_mask first) (inked_getLast?_mask last)

/-- Blanks around a text make no difference to what is masked the second time. -/
theorem mask_mask_strip_iff (t : Text) : mask (mask (strip t)) = mask (strip t) ↔ mask (mask t) = mask t := by
  obtain ⟨left, right, split, blank, blank', -⟩ := exists_padding isBlank t
  change t = left ++ strip t ++ right at split
  have once := mask_padded blank blank' (strip t)
  have twice := mask_padded blank blank' (mask (strip t))
  rw [← split] at once
  rw [once, twice, List.append_left_inj, List.append_right_inj]

end Text

/-- A token with its characters as they are masked. -/
def Token.asMasked (t : Token) : Token := { t with written := t.masked }

namespace Lexer

theorem map_asMasked_place (n : Nat) (line : Text) (ls : List Lexeme) :
    (place n line ls).map Token.asMasked = lay n ls := by
  induction ls generalizing n line with
  | nil => rfl
  | cons l ls ih => rw [place, List.map_cons, ih, lay_cons, Token.asMasked]

end Lexer

/-- The tokens of a masked text are those of the text if and only if masking it again changes nothing. -/
theorem tokens_mask_iff (marks : Marks) (t : Text) :
    tokens marks t.mask = (tokens marks t).map Token.asMasked ↔ t.mask.mask = t.mask := by
  have once : (tokens marks t).map Token.asMasked = Lexer.lay 0 (Lexer.scan marks t.mask) :=
    Lexer.map_asMasked_place 0 t _
  constructor
  · intro same
    -- the characters of the tokens, one after the other, are what is masked
    have characters := congrArg (fun ts => (ts.map (·.masked)).flatten) same
    rw [once, ← Lexer.place_spell] at characters
    simp only [tokens, Lexer.masked_place, Lexer.spell_scan] at characters
    exact characters
  · intro still
    have whole := Lexer.place_spell 0 (Lexer.scan marks t.mask)
    rw [Lexer.spell_scan] at whole
    rw [once, tokens, still, whole]

/-- Masking a query twice is masking it once, and checking it reads the same tokens as typing it, if and only if no
placeholder is masked for the sake of the stand-ins of another one. -/
theorem mask_mask_iff (query : Text) : (query.mask.mask = query.mask ↔ ¬query.Regrows) ∧
    ∀ marks, tokens marks (Text.strip query.mask) = (tokens marks (Text.strip query)).map Token.asMasked ↔
      ¬query.Regrows := by
  constructor
  · exact Text.mask_mask_eq_self_iff query
  · intro marks
    rw [Text.strip_mask, tokens_mask_iff, Text.mask_mask_strip_iff, Text.mask_mask_eq_self_iff]

/-- In a placeholder around another one a quote opens a string where it is typed, and the check does not see it. -/
theorem quote_masked_again :
    let query : Text := "$\x7b\"$\x7bb\x7d\x7d".toList
    query.mask.mask ≠ query.mask ∧ (Logs.contextOf query 8).inQuotes = true ∧ (Logs.check query).errors = [] := by
  decide +kernel

end Typeahead
