import Mathlib.Data.List.Basic
import Typeahead.Proofs.Token.Seams

/-!
What is typed of the token before a cursor.

- `written_eq_slice`: a token is written as the slice of the line that it takes.
- `typed_suffix`: what of the token before a cursor stands before it ends the line up to the cursor.
-/

namespace Typeahead

namespace Lexer

theorem written_of_mem_place {n : Nat} {line : Text} {ls : List Lexeme} {t : Token} (mem : t ∈ place n line ls) :
    t.written = (line.drop (t.start - n)).take t.masked.length := by
  induction ls generalizing n line with
  | nil => cases mem
  | cons l ls ih =>
    rcases List.mem_cons.1 mem with rfl | later
    · simp
    · have starts := (start_of_mem_place later).1
      have behind : l.2.length + (t.start - (n + l.2.length)) = t.start - n := by omega
      rw [ih later, List.drop_drop, behind]

/-- No position lies between two tokens: the token before it reaches it, unless the line ends before. -/
theorem reaches_of_place {line : Text} {ls : List Lexeme} {passed more : List Token} {t : Token} {position : Nat}
    (same : place 0 line ls = passed ++ t :: more) (beyond : ∀ u ∈ more, position ≤ u.start) :
    position ≤ t.stop ∨ t.stop = (spell ls).length := by
  obtain ⟨ls₁, ls₂, rfl, -, later⟩ := place_eq_append same
  rcases ls₂ with _ | ⟨l, _ | ⟨l', ls₂⟩⟩
  · cases later
  · obtain ⟨rfl, -⟩ := List.cons.inj later
    exact .inr (by simp [Token.stop])
  · obtain ⟨rfl, rfl⟩ := List.cons.inj later
    exact .inl (beyond _ List.mem_cons_self)

end Lexer

variable {marks : Marks} {line : Text} {position : Nat} {f : Focus}

/-- A token is written as the slice of the line that it takes. -/
theorem written_eq_slice {t : Token} (mem : t ∈ tokens marks line) : t.written = line.slice t.start t.stop := by
  have written := Lexer.written_of_mem_place mem
  rw [Nat.sub_zero] at written
  rw [written, Text.slice, Token.stop, List.drop_take, Nat.add_sub_cancel_left]

/-- The token before a position reaches it, unless the line ends before. -/
theorem reaches_of_focusBefore? (found : focusBefore? (tokens marks line) position = some f) :
    f.token ∈ tokens marks line ∧ f.token.start < position ∧
      (position ≤ f.token.stop ∨ f.token.stop = line.length) := by
  have starts : f.token.start < position := by simpa using List.find?_some found
  have mem := token_mem_of_mem_focusesFrom (List.mem_reverse.1 (List.mem_of_find?_eq_some found))
  refine ⟨mem, starts, ?_⟩
  obtain ⟨ts, us, split, before, beyond⟩ := Lexer.place_split line (Lexer.scan marks line.mask) 0 position
  rw [tokens, split] at found mem
  rcases List.eq_nil_or_concat' ts with rfl | ⟨passed, t, rfl⟩
  · exact absurd starts (Nat.not_lt.2 (beyond _ mem))
  · rw [List.append_assoc, List.singleton_append, focusBefore?_append (before t (by simp)) beyond] at found
    obtain rfl := Option.some.inj found
    rw [List.append_assoc, List.singleton_append] at split
    simpa [Lexer.spell_scan] using Lexer.reaches_of_place split beyond

/-- What of the token before a position stands before it ends the line up to there. -/
theorem typed_suffix (found : focusBefore? (tokens marks line) position = some f) :
    f.token.written.take (position - f.token.start) <:+ line.take position := by
  obtain ⟨mem, starts, reaches⟩ := reaches_of_focusBefore? found
  have upTo : line.take (min position f.token.stop) = line.take position := by
    rcases reaches with reached | ended
    · rw [Nat.min_eq_left reached]
    · rw [ended, List.take_eq_take_iff]
      omega
  have position_eq : f.token.start + (position - f.token.start) = position := by omega
  rw [written_eq_slice mem, Text.slice, List.take_drop, List.take_take, position_eq, upTo]
  exact List.drop_suffix ..

end Typeahead
