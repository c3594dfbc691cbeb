import Mathlib.Data.List.Basic
import Typeahead.Text

/-!
The pieces of a text between the occurrences of a mark.

- `splitOn_joinWith`: pieces without the mark are found again.
- `splitOn_flatMap`: writing the characters of a text another way writes its pieces that way.
-/

namespace Typeahead.Text

variable {mark : Char} {s t : Text}

/-- What stands in front of the first mark belongs to the first piece. -/
theorem splitOn_append (apart : mark ∉ s) {piece : Text} {pieces : List Text}
    (rest : splitOn mark t = piece :: pieces) : splitOn mark (s ++ t) = (s ++ piece) :: pieces := by
  induction s with
  | nil => exact rest
  | cons c s ih =>
    have other : c ≠ mark := fun same => apart (same ▸ List.mem_cons_self)
    have later := ih fun mem => apart (List.mem_cons_of_mem _ mem)
    rw [List.cons_append, splitOn, if_neg other, later]
    rfl

theorem splitOn_of_not_mem (apart : mark ∉ s) : splitOn mark s = [s] := by
  have alone := splitOn_append (t := []) apart rfl
  rwa [List.append_nil] at alone

theorem splitOn_mark_append (apart : mark ∉ s) (t : Text) :
    splitOn mark (s ++ mark :: t) = s :: splitOn mark t := by
  have rest : splitOn mark (mark :: t) = [] :: splitOn mark t := if_pos rfl
  have whole := splitOn_append apart rest
  rwa [List.append_nil] at whole

/-- The mark stands in no piece. -/
theorem not_mem_of_mem_splitOn {piece : Text} (mem : piece ∈ splitOn mark t) : mark ∉ piece := by
  induction t generalizing piece with
  | nil =>
    rw [List.mem_singleton.1 mem]
    exact List.not_mem_nil
  | cons c t ih =>
    simp only [splitOn] at mem
    split at mem
    · rcases List.mem_cons.1 mem with rfl | later
      · exact List.not_mem_nil
      · exact ih later
    · next other =>
      split at mem
      · next none => exact absurd none (splitOn_ne_nil mark t)
      · next first rest found =>
        rcases List.mem_cons.1 mem with rfl | later
        · have apart : mark ∉ first := ih (found ▸ List.mem_cons_self)
          exact List.not_mem_cons_of_ne_of_not_mem (Ne.symm other) apart
        · exact ih (found ▸ List.mem_cons_of_mem _ later)

/-- Pieces are put together of characters of the text. -/
theorem mem_of_mem_splitOn {piece : Text} (mem : piece ∈ splitOn mark t) {c : Char} (there : c ∈ piece) :
    c ∈ t := by
  induction t generalizing piece with
  | nil => exact List.mem_singleton.1 mem ▸ there
  | cons d t ih =>
    simp only [splitOn] at mem
    split at mem
    · rcases List.mem_cons.1 mem with rfl | later
      · exact absurd there List.not_mem_nil
      · exact List.mem_cons_of_mem _ (ih later there)
    · split at mem
      · next none => exact absurd none (splitOn_ne_nil mark t)
      · next first rest found =>
        rcases List.mem_cons.1 mem with rfl | later
        · rcases List.mem_cons.1 there with rfl | inside
          · exact List.mem_cons_self
          · exact List.mem_cons_of_mem _ (ih (found ▸ List.mem_cons_self) inside)
        · exact List.mem_cons_of_mem _ (ih (found ▸ List.mem_cons_of_mem _ later) there)

/-- Pieces without the mark are found again between the marks. -/
theorem splitOn_joinWith {pieces : List Text} (some_piece : pieces ≠ [])
    (apart : ∀ piece ∈ pieces, mark ∉ piece) : splitOn mark (joinWith [mark] pieces) = pieces := by
  induction pieces with
  | nil => exact absurd rfl some_piece
  | cons piece pieces ih =>
    obtain ⟨first, later⟩ := List.forall_mem_cons.1 apart
    cases pieces with
    | nil => exact splitOn_of_not_mem first
    | cons next pieces =>
      have rest := ih (List.cons_ne_nil _ _) later
      simp only [joinWith, List.append_assoc, List.singleton_append]
      rw [splitOn_mark_append first, rest]

/-- Where the mark stands for itself, and for nothing else, a text written another way has the pieces of
the text written that way. -/
theorem splitOn_flatMap {write : Char → Text} (itself : write mark = [mark])
    (others : ∀ c, c ≠ mark → mark ∉ write c) (t : Text) :
    splitOn mark (t.flatMap write) = (splitOn mark t).map (·.flatMap write) := by
  induction t with
  | nil => rfl
  | cons c t ih =>
    rw [List.flatMap_cons]
    by_cases same : c = mark
    · subst same
      rw [itself, List.singleton_append, splitOn, if_pos rfl, ih, splitOn, if_pos rfl]
      rfl
    · cases found : splitOn mark t with
      | nil => exact absurd found (splitOn_ne_nil mark t)
      | cons piece pieces =>
        rw [found, List.map_cons] at ih
        rw [splitOn_append (others c same) ih, splitOn, if_neg same, found]
        rfl

end Typeahead.Text
