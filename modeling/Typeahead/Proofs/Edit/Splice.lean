import Typeahead.Edit
import Typeahead.Proofs.Text.Lines

/-!
Edits of texts that are put together from parts.

- `splice_parts`: a part is replaced, and the parts around it stay.
- `runStop_parts`: a run ends with the part that it fills.
- `valueStart_eq`, `valueStart_quoted`: where the value at the cursor begins.
- `value_parts`: the value at the cursor is replaced up to the first character that ends a value.
- `listEntry_typed`, `listEntry_untyped`: the word at the cursor is replaced, or a new one is put behind it.
-/

namespace Typeahead.Edit

variable {p : Char → Bool}

/-- Replacing a part of a text. -/
theorem splice_parts (before old after insert : Text) :
    splice (before ++ old ++ after) before.length (before ++ old).length insert =
      ⟨before ++ insert ++ after, (before ++ insert).length⟩ := by
  simp [splice]

/-- A run of characters of a class ends in front of a character that is not of it. -/
theorem runStop_parts {run after : Text} (all : ∀ c ∈ run, p c = true) (ends : ∀ c ∈ after.head?, p c = false)
    (before : Text) : runStop p (before ++ run ++ after) before.length = (before ++ run).length := by
  have stopped : after.takeWhile p = [] := by
    cases after with
    | nil => rfl
    | cons c after => simp [ends c rfl]
  rw [runStop, List.append_assoc, List.drop_left, List.takeWhile_append_of_pos all, stopped, List.append_nil,
    List.length_append]

/-- No key goes on with a blank. -/
theorem not_isKeyPart_of_isBlank {c : Char} (blank : isBlank c = true) : isKeyPart c = false := by
  by_contra part
  simp only [isKeyPart, isWordPart, Bool.not_eq_false, Bool.or_eq_true, decide_eq_true_eq] at part
  have inked : isBlank c = false := by
    rcases part with (((((alphanumeric | rfl) | rfl) | rfl) | rfl) | rfl) | rfl
    · exact inked_of_isAlphanum alphanumeric
    all_goals decide
  rw [blank] at inked
  cases inked

theorem not_isKeyPart_of_between {c : Char} (between : c = '{' ∨ c = ',' ∨ isBlank c = true) : isKeyPart c = false := by
  rcases between with rfl | rfl | blank
  · decide
  · decide
  · exact not_isKeyPart_of_isBlank blank

section

variable {front word rest : Text} {n : Nat} (inLine : ∀ c ∈ front ++ word ++ rest, Text.insideLine c = true)
  (parts : ∀ c ∈ word, isKeyPart c = true) (begins : ∀ c ∈ front.getLast?, isKeyPart c = false)
  (ends : ∀ c ∈ rest.head?, isKeyPart c = false) (within : n ≤ word.length)

include within

/-- A cursor in a word cuts it in two. -/
theorem cut_word (front rest : Text) : front ++ word ++ rest = (front ++ word.take n) ++ (word.drop n ++ rest) ∧
    (front ++ word.take n).length = front.length + n := by
  refine ⟨?_, by rw [List.length_append, List.length_take, Nat.min_eq_left within]⟩
  rw [List.append_assoc front (word.take n), ← List.append_assoc (word.take n), List.take_append_drop,
    List.append_assoc]

include parts begins ends

/-- The word at a cursor in a list is the run of key characters around the cursor. -/
theorem word_parts : Text.trailing isKeyPart ((front ++ word ++ rest).take (front.length + n)) = word.take n ∧
    runStop isKeyPart (front ++ word ++ rest) (front.length + n) = (front ++ word).length := by
  obtain ⟨cut, length⟩ := cut_word within front rest
  rw [← length, cut]
  constructor
  · rw [List.take_left]
    exact Text.trailing_append (fun c mem => parts c (List.mem_of_mem_take mem)) begins
  · rw [← List.append_assoc, runStop_parts (fun c mem => parts c (List.mem_of_mem_drop mem)) ends]
    rw [List.append_assoc, List.take_append_drop]

include inLine

/-- Where a part of a word is typed that stands in the label, the word is replaced from that part on. -/
theorem listEntry_typed {label partly : Text} (insert : Text)
    (bare : Text.trimLeft (fun c => c = '!' || c = '-') (word.take n) = partly) (typed : partly ≠ [])
    (holds : Text.occurs partly.lower label.lower = true) :
    listEntry (front ++ word ++ rest) (front.length + n) label insert =
      splice (front ++ word ++ rest) (front.length + n - partly.length)
        (overColon (front ++ word ++ rest) (front ++ word).length insert) insert := by
  obtain ⟨run, stop⟩ := word_parts parts begins ends within
  have filled : partly.isEmpty = false := List.isEmpty_eq_false_iff.2 typed
  simp only [listEntry, Text.lineAt_of_inside inLine, Nat.sub_zero, Nat.zero_add, run, stop, bare, filled, holds,
    Bool.not_false, Bool.and_self, if_true]

/-- Where nothing of a word is typed, the new one is put behind the word, with a comma if anything but a mark or a
blank stands there. -/
theorem listEntry_untyped (label insert : Text)
    (bare : Text.trimLeft (fun c => c = '!' || c = '-') (word.take n) = []) :
    listEntry (front ++ word ++ rest) (front.length + n) label insert =
      splice (front ++ word ++ rest) (front ++ word).length (front ++ word).length
        (if (Text.trailing (· != '{') front ++ word).getLast?.any fun c => c != ',' && c != '(' && !isBlank c
          then ',' :: insert else insert) := by
  obtain ⟨run, stop⟩ := word_parts parts begins ends within
  obtain ⟨cut, length⟩ := cut_word within front rest
  have braceless : ∀ c ∈ word.take n, (c != '{') = true := by
    intro c mem
    have part := parts c (List.mem_of_mem_take mem)
    rw [bne_iff_ne]
    rintro rfl
    revert part
    decide
  have left : (front ++ word).length - (front.length + n) = (word.drop n).length := by
    rw [List.length_append, List.length_drop]
    omega
  have entries : Text.trailing (· != '{') ((front ++ word ++ rest).take (front.length + n)) ++
      ((front ++ word ++ rest).drop (front.length + n)).take ((front ++ word).length - (front.length + n)) =
        Text.trailing (· != '{') front ++ word := by
    rw [left, ← length, cut, List.take_left, List.drop_left, List.take_left, Text.trailing_append_run braceless,
      List.append_assoc, List.take_append_drop]
  simp only [listEntry, Text.lineAt_of_inside inLine, Nat.sub_zero, Nat.zero_add, run, stop, bare, List.isEmpty_nil,
    Bool.not_true, Bool.false_and, Bool.false_eq_true, if_false, entries]

end

/-- Between marks and blanks a new word is put in just there. -/
theorem listEntry_between {front rest : Text} (inLine : ∀ c ∈ front ++ rest, Text.insideLine c = true)
    (begins : ∀ c ∈ front.getLast?, c = '{' ∨ c = ',' ∨ isBlank c = true) (ends : ∀ c ∈ rest.head?, isKeyPart c = false)
    (label insert : Text) :
    listEntry (front ++ rest) front.length label insert = ⟨front ++ insert ++ rest, (front ++ insert).length⟩ := by
  have apart : ∀ c ∈ front.getLast?, isKeyPart c = false := fun c last => not_isKeyPart_of_between (begins c last)
  have unjoined : ((Text.trailing (· != '{') front ++ []).getLast?.any fun c => c != ',' && c != '(' && !isBlank c) =
      false := by
    rw [List.append_nil]
    cases last : front.getLast? with
    | none =>
      rw [List.getLast?_eq_none_iff.1 last]
      rfl
    | some c =>
      rcases begins c last with rfl | rfl | blank
      · rw [Text.trailing_eq_nil (by simp [last])]
        rfl
      · rw [Text.getLast?_trailing last (by decide)]
        rfl
      · have other : (c != '{') = true := by
          rw [bne_iff_ne]
          rintro rfl
          revert blank
          decide
        rw [Text.getLast?_trailing last other]
        simp [blank]
  have edit : listEntry (front ++ [] ++ rest) (front.length + 0) label insert = _ :=
    listEntry_untyped (by simpa using inLine) (by simp) apart ends (Nat.le_refl _) label insert rfl
  rw [unjoined] at edit
  have whole := splice_parts front [] rest insert
  simp only [List.append_nil, Nat.add_zero, Bool.false_eq_true, if_false] at edit whole
  exact edit.trans whole

/-- What is left of a value if another one is accepted behind its first `n` characters. -/
def leftover (language : Language) (v : Text) (n : Nat) : Text := (v.drop n).dropWhile fun c => !endsValue language c

theorem leftover_eq_nil_iff {language : Language} {v : Text} {n : Nat} :
    leftover language v n = [] ↔ ∀ c ∈ v.drop n, endsValue language c = false := by
  simp [leftover, List.dropWhile_eq_nil_iff]

theorem leftover_head {language : Language} {v : Text} {n : Nat} {c : Char}
    (first : c ∈ (leftover language v n).head?) : endsValue language c = true := by
  have stopped := List.head?_dropWhile_not (fun c => !endsValue language c) (v.drop n)
  have head : ((v.drop n).dropWhile fun c => !endsValue language c).head? = some c := first
  rw [head] at stopped
  simpa using stopped

section

variable {context : Context} (before v after : Text) {n : Nat}

/-- The value at the cursor begins where its typed part does, or with the quote before that. -/
theorem valueStart_eq (place : context.place = .filterValue ∨ context.place = .facetValue) (within : n ≤ v.length)
    (token : context.token = v.take n) : valueStart (before ++ v ++ after) (before.length + n) context =
      if before.getLast? = some '"' then before.length - 1 else before.length := by
  have head : (before ++ v ++ after).take (before.length + n) = before ++ v.take n := by
    rw [List.append_assoc, List.take_length_add_append, List.take_append_of_le_length within]
  have typed : (v.take n).isSuffixOf (before ++ v.take n) = true :=
    List.isSuffixOf_iff_suffix.2 (List.suffix_append ..)
  have start : before.length + n - (v.take n).length = before.length := by
    rw [List.length_take, Nat.min_eq_left within, Nat.add_sub_cancel]
  have placed : (decide (context.place = .filterValue) || decide (context.place = .facetValue)) = true := by
    simpa using place
  have quote : (decide (0 < before.length) && decide ((before ++ v ++ after)[before.length - 1]? = some '"')) =
      decide (before.getLast? = some '"') := by
    by_cases empty : before.length = 0
    · simp [List.length_eq_zero_iff.1 empty]
    · rw [List.append_assoc, List.getElem?_append_left (by omega), ← List.getLast?_eq_getElem?]
      simp [Nat.pos_of_ne_zero empty]
  simp only [valueStart, token, head, typed, start, placed, Bool.and_self, if_true, quote, decide_eq_true_eq]

/-- What is typed in quotes begins with them. -/
theorem valueStart_quoted (body : Text) (place : context.place = .filterValue ∨ context.place = .facetValue)
    (within : n ≤ body.length) (token : context.token = body.take n) :
    valueStart (before ++ '"' :: body ++ after) (before.length + (n + 1)) context = before.length := by
  have start := valueStart_eq (before ++ ['"']) body after place within token
  have position : (before ++ ['"']).length + n = before.length + (n + 1) := by
    rw [List.length_append, List.length_singleton, Nat.add_assoc, Nat.add_comm 1]
  have parts : before ++ ['"'] ++ body ++ after = before ++ '"' :: body ++ after := by simp
  rw [if_pos (by simp), position, parts, List.length_append, List.length_singleton, Nat.add_sub_cancel] at start
  exact start

/-- A value is replaced up to its first character behind the cursor that ends a value. -/
theorem value_parts (within : n ≤ v.length)
    (start : valueStart (before ++ v ++ after) (before.length + n) context = before.length)
    (ends : ∀ c ∈ after.head?, endsValue context.language c = true) (insert : Text) :
    value (before ++ v ++ after) (before.length + n) insert context =
      ⟨before ++ insert ++ (leftover context.language v n ++ after), (before ++ insert).length⟩ := by
  let run := (v.drop n).takeWhile fun c => !endsValue context.language c
  have split : v = v.take n ++ run ++ leftover context.language v n := by
    rw [List.append_assoc, leftover, List.takeWhile_append_dropWhile, List.take_append_drop]
  have length : before.length + n = (before ++ v.take n).length := by
    rw [List.length_append, List.length_take, Nat.min_eq_left within]
  have next : ∀ c ∈ (leftover context.language v n ++ after).head?, (!endsValue context.language c) = false := by
    intro c mem
    have stops : endsValue context.language c = true := by
      cases left : leftover context.language v n with
      | nil => exact ends c (by simpa [left] using mem)
      | cons d rest => exact leftover_head (v := v) (n := n) (by simpa [left] using mem)
    simp [stops]
  have whole : before ++ v ++ after =
      (before ++ v.take n) ++ run ++ (leftover context.language v n ++ after) := by
    have parts := congrArg (fun w => before ++ w ++ after) split
    simpa only [List.append_assoc] using parts
  have goesOn : ∀ c ∈ run, (!endsValue context.language c) = true := fun c => List.mem_takeWhile_imp
  have stop := runStop_parts (p := fun c => !endsValue context.language c) goesOn next (before ++ v.take n)
  have replaced := splice_parts before (v.take n ++ run) (leftover context.language v n ++ after) insert
  rw [length] at start ⊢
  rw [whole] at start ⊢
  rw [value, start, stop]
  simpa only [List.append_assoc] using replaced

end

end Typeahead.Edit
