import Typeahead.Proofs.Text.Masked
import Typeahead.Proofs.Token.Lexemes
import Typeahead.Suggestion.Value

/-!
Texts made of units: single characters of a class, and characters of any kind with a backslash before them.
So are values written that were inserted before, and so do the lexers read them.

- `Units.of_append`: what stands behind a unit is made of units.
- `units_escapeWith`, `Units.mask`: escaped values are made of units, masked or not.
- `Units.take_cases`: where units are cut.
- `Units.even_trailing`, `Units.odd_trailing`: at their end backslashes come in pairs, but for one that escapes the
  last character.
-/

namespace Typeahead

open Lexer

namespace Units

variable {single : Char → Bool} {t : Text}

/-- What stands behind a unit is made of units, and only a backslash does not end one. -/
theorem of_append (front : Text) (h : Units single (front ++ t)) (ends : front.getLast? ≠ some '\\') :
    Units single t := by
  generalize same : front ++ t = whole at h
  induction h generalizing front with
  | nil =>
    obtain ⟨-, rfl⟩ := List.append_eq_nil_iff.1 same
    exact .nil
  | @one c rest fits unescaped units ih =>
    cases front with
    | nil =>
      obtain rfl : t = c :: rest := same
      exact .one fits unescaped units
    | cons d front =>
      refine ih front (fun last => ?_) (List.tail_eq_of_cons_eq same)
      cases front with
      | nil => cases last
      | cons e front => exact ends (by rwa [List.getLast?_cons_cons])
  | @pair c rest inLine units ih =>
    rcases front with _ | ⟨d, _ | ⟨e, front⟩⟩
    · obtain rfl : t = '\\' :: c :: rest := same
      exact .pair inLine units
    · obtain rfl : d = '\\' := List.head_eq_of_cons_eq same
      exact absurd rfl ends
    · refine ih front (fun last => ?_)
        (List.tail_eq_of_cons_eq (List.tail_eq_of_cons_eq same))
      cases front with
      | nil => cases last
      | cons a front => exact ends (by rwa [List.getLast?_cons_cons, List.getLast?_cons_cons])

/-- Behind a placeholder a unit begins, for no placeholder ends with a backslash. -/
theorem behind_placeholder (front : Text) (h : Units single (front ++ t)) {n : Nat}
    (begins : Text.placeholderLength t = n + 1) : Units single (t.drop (n + 1)) := by
  obtain ⟨p, rest, rfl, length, placeholder⟩ := Text.exists_placeholder (t := t) (by omega)
  rw [← begins, ← length, List.drop_left]
  refine of_append (front ++ p) (by rwa [List.append_assoc]) fun last => ?_
  have nonempty : p ≠ [] := by
    rintro rfl
    rw [begins] at length
    cases length
  have own := List.getLast?_eq_some_getLast nonempty
  rw [List.getLast?_append, own, Option.some_or, ← own] at last
  rcases placeholder.last last with brace | bracket | name
  · cases brace
  · cases bracket
  · revert name
    decide

/-- Units stay units when they are masked. -/
theorem maskFrom (letter : single 'x' = true) {covered : Nat} (within : covered ≤ t.length)
    (h : Units single (t.drop covered)) : Units single (Text.maskFrom covered t) := by
  induction size : t.length using Nat.strong_induction_on generalizing t covered with
  | _ size ih =>
    subst size
    have masked (rest : Text) (units : Units single rest) : Units single ('x' :: rest) :=
      .one letter (by decide) units
    cases covered with
    | succ n =>
      cases t with
      | nil => cases within
      | cons c t => exact masked _ (ih t.length (by simp) (by simpa using within) h rfl)
    | zero =>
      cases h with
      | nil => exact .nil
      | @one c t fits unescaped units =>
        simp only [Text.maskFrom]
        split
        · next n begins =>
          have short := Text.placeholderLength_le (c :: t)
          have behind := behind_placeholder [] (.one fits unescaped units) begins
          exact masked _ (ih t.length (by simp) (by simp only [List.length_cons] at short; omega) behind rfl)
        · exact .one fits unescaped (ih t.length (by simp) (Nat.zero_le _) units rfl)
      | @pair c t inLine units =>
        have bare : Text.placeholderLength ('\\' :: c :: t) = 0 :=
          Text.placeholderLength_of_plain (by decide) (by decide) _
        simp only [Text.maskFrom, bare]
        split
        · next n begins =>
          have short := Text.placeholderLength_le (c :: t)
          have behind := behind_placeholder ['\\'] (.pair inLine units) begins
          refine .pair (by decide) (ih t.length (by simp only [List.length_cons]; omega) ?_ behind rfl)
          simp only [List.length_cons] at short
          omega
        · exact .pair inLine (ih t.length (by simp only [List.length_cons]; omega) (Nat.zero_le _) units rfl)

/-- The same from the start. -/
theorem mask (letter : single 'x' = true) (h : Units single t) : Units single (Text.mask t) :=
  h.maskFrom letter (Nat.zero_le _)

/-- Cut anywhere, units stay units, unless the cut splits a pair. -/
theorem take_cases (h : Units single t) (n : Nat) :
    Units single (t.take n) ∨ ∃ s, t.take n = s ++ ['\\'] ∧ Units single s := by
  induction h generalizing n with
  | nil => exact .inl (by rw [List.take_nil]; exact .nil)
  | @one c t fits unescaped _ ih =>
    cases n with
    | zero => exact .inl .nil
    | succ n =>
      rw [List.take_succ_cons]
      cases ih n with
      | inl units => exact .inl (.one fits unescaped units)
      | inr split =>
        obtain ⟨s, same, units⟩ := split
        exact .inr ⟨c :: s, by rw [same, List.cons_append], .one fits unescaped units⟩
  | @pair c t inLine _ ih =>
    rcases n with _ | _ | n
    · exact .inl .nil
    · exact .inr ⟨[], rfl, .nil⟩
    · rw [List.take_succ_cons, List.take_succ_cons]
      cases ih n with
      | inl units => exact .inl (.pair inLine units)
      | inr split =>
        obtain ⟨s, same, units⟩ := split
        exact .inr ⟨'\\' :: c :: s, by rw [same]; rfl, .pair inLine units⟩

/-- Inside of units a single character, or the one behind a backslash, is followed by units. -/
theorem of_suffix {c : Char} {s : Text} (h : Units single t) (ends : c :: s <:+ t) (unescaped : c ≠ '\\') :
    Units single s := by
  obtain ⟨front, rfl⟩ := ends
  rw [List.append_cons] at h
  exact h.of_append _ (by simpa using unescaped)

/-- In front of a text a backslash and the character behind it keep the parity of the backslashes at its end. -/
theorem parity_pair (c : Char) (t : Text) : (Text.trailing (· = '\\') ('\\' :: c :: t)).length % 2 =
    (Text.trailing (· = '\\') t).length % 2 := by
  rw [Text.trailing_cons, Text.trailing_cons]
  by_cases all : t.all (· = '\\') = true
  · have whole : Text.trailing (· = '\\') t = t := by
      have run : ∀ d ∈ t, decide (d = '\\') = true := List.all_eq_true.1 all
      simpa [Text.trailing] using Text.trailing_append_run run []
    rw [whole]
    by_cases escape : c = '\\'
    · simp [escape, all]
      omega
    · simp [escape]
  · simp [all]

/-- Backslashes at the end of units come in pairs. -/
theorem even_trailing (h : Units single t) :
    (Text.trailing (· = '\\') t).length % 2 = 0 := by
  induction h with
  | nil => rfl
  | one fits unescaped _ ih => rwa [Text.trailing_cons, if_neg (by simp [unescaped])]
  | @pair c t inLine _ ih => rw [parity_pair, ih]

/-- A character that is no unit ends units only if it is escaped. -/
theorem odd_trailing (h : Units single t) {mark : Char} (unfit : single mark = false) (last : t.getLast? = some mark) :
    (Text.trailing (· = '\\') t.dropLast).length % 2 = 1 := by
  induction h with
  | nil => cases last
  | @one c t fits unescaped units ih =>
    cases t with
    | nil =>
      obtain rfl : c = mark := by simpa using last
      rw [fits] at unfit
      cases unfit
    | cons d t =>
      rw [List.getLast?_cons_cons] at last
      rw [List.dropLast_cons_cons, Text.trailing_cons, if_neg (by simp [unescaped]), ih last]
  | @pair c t inLine units ih =>
    cases t with
    | nil => rfl
    | cons d t =>
      have later := ih (by simpa [List.getLast?_cons_cons] using last)
      rw [List.dropLast_cons_cons, List.dropLast_cons_cons, parity_pair, later]

end Units

/-- Escaping brings no characters but backslashes. -/
theorem mem_escapeWith {mark : Char → Bool} {t : Text} {c : Char} (h : c ∈ escapeWith mark t) :
    c = '\\' ∨ c ∈ t := by
  induction t with
  | nil => cases h
  | cons d t ih =>
    rw [escapeWith] at h
    split at h <;> simp only [List.mem_cons] at h ⊢
    · rcases h with rfl | rfl | later
      · exact .inl rfl
      · exact .inr (.inl rfl)
      · exact (ih later).imp_right .inr
    · rcases h with rfl | later
      · exact .inr (.inl rfl)
      · exact (ih later).imp_right .inr

/-- A text without marks needs no backslashes. -/
theorem escapeWith_of_unmarked {mark : Char → Bool} {t : Text} (unmarked : t.any mark = false) :
    escapeWith mark t = t := by
  induction t with
  | nil => rfl
  | cons c t ih =>
    rw [List.any_cons, Bool.or_eq_false_iff] at unmarked
    rw [escapeWith, if_neg (by simp [unmarked.1]), ih unmarked.2]

/-- A text with a mark gets a backslash. -/
theorem backslash_mem_escapeWith {mark : Char → Bool} {t : Text} (marked : t.any mark = true) :
    '\\' ∈ escapeWith mark t := by
  induction t with
  | nil => cases marked
  | cons c t ih =>
    rw [escapeWith]
    split
    · exact List.mem_cons_self
    · next unmarked =>
      rw [List.any_cons, Bool.or_eq_true] at marked
      exact List.mem_cons_of_mem _ (ih (marked.resolve_left unmarked))

/-- Escaping every character that is not single makes units. -/
theorem units_escapeWith {mark single : Char → Bool}
    (h : ∀ c, Text.insideLine c = true → mark c = false → single c = true)
    (escapes : mark '\\' = true) {t : Text} (inLine : ∀ c ∈ t, Text.insideLine c = true) :
    Units single (escapeWith mark t) := by
  induction t with
  | nil => exact .nil
  | cons c t ih =>
    obtain ⟨here, later⟩ := List.forall_mem_cons.1 inLine
    rw [escapeWith]
    split
    · exact .pair (by simpa [Text.insideLine] using here) (ih later)
    · next unmarked =>
      refine .one (h c here (by simpa using unmarked)) ?_ (ih later)
      rintro rfl
      exact unmarked escapes

end Typeahead
