import Typeahead.Edit
import Typeahead.Proofs.Suggestion.Offered
import Typeahead.Proofs.Text.Lower

/-!
An edit reads the label of an item only to see whether it holds the word at the cursor. No word of a list has a
colon, so that a label may gain one: an item that is offered is accepted the same way with what it inserts as its
label.

- `listEntry_colon`: the edit of a list with a colon more in the label.
- `label_or_colon_of_offered`: the labels of the items that are offered for a list.
- `accept_relabeled`: the rule.
-/

namespace Typeahead

namespace Text

theorem lower_concat_colon (t : Text) : lower (t ++ [':']) = lower t ++ [':'] := by
  have whole : splitsSigma t [':'] = false := by
    have uncased : beginsCased [':'] = false := by decide +kernel
    rw [splitsSigma, uncased, Bool.and_false]
  obtain ⟨cased, same⟩ := lowerFrom_append whole false
  exact same

theorem occurs_concat {needle : Text} {c : Char} (free : c ∉ needle) (t : Text) :
    occurs needle (t ++ [c]) = occurs needle t := by
  rw [Bool.eq_iff_iff, occurs_iff, occurs_iff, List.infix_concat_iff, List.suffix_concat_iff]
  constructor
  · rintro ((rfl | ⟨before, rfl, -⟩) | inside)
    · exact List.nil_infix
    · exact absurd (List.mem_concat_self ..) free
    · exact inside
  · exact .inr

end Text

namespace Edit

/-- The small form of a character of a key is no colon. -/
theorem colon_not_mem_lowerChar {c : Char} (part : isKeyPart c = true) : ':' ∉ lowerChar c := by
  have ascii : c.toNat < 128 := by
    simp only [isKeyPart, isWordPart, Bool.or_eq_true, decide_eq_true_eq] at part
    rcases part with (((((alphanumeric | rfl) | rfl) | rfl) | rfl) | rfl) | rfl
    · exact toNat_lt_of_isAlphanum alphanumeric
    all_goals decide
  rw [lowerChar_ascii ascii, List.mem_singleton]
  exact holds_of_ascii (P := fun c => isKeyPart c = true → ¬ ':' = c.toLower) (by decide +kernel) ascii part

theorem colon_not_mem_lower {word : Text} (parts : ∀ c ∈ word, isKeyPart c = true) : ':' ∉ word.lower := by
  intro mem
  rcases Text.of_mem_lowerFrom mem with final | ⟨c, among, small⟩
  · exact absurd final (by decide)
  · exact colon_not_mem_lowerChar (parts c among) small

/-- A colon at the end of the label changes nothing. -/
theorem listEntry_colon (text : Text) (cursor : Nat) (label insert : Text) :
    listEntry text cursor (label ++ [':']) insert = listEntry text cursor label insert := by
  have parts : ∀ c ∈ Text.trimLeft (fun c => c = '!' || c = '-')
      (Text.trailing isKeyPart ((text.lineAt cursor).text.take (cursor - (text.lineAt cursor).offset))),
      isKeyPart c = true := by
    intro c mem
    exact List.mem_takeWhile_imp (List.mem_reverse.1 ((List.dropWhile_sublist _).subset mem))
  simp only [listEntry, Text.lower_concat_colon, Text.occurs_concat (colon_not_mem_lower parts)]

end Edit

namespace Suggestion

variable {c : Context} {names : Candidates} {limit : Int} {item : Item}

/-- Keys and tags are offered for lists only, and inserted as they are shown or with a colon. -/
theorem label_or_colon_of_offered (offered : item ∈ suggest c names limit)
    (listed : item.kind = .filterKey ∨ item.kind = .groupingTag) :
    item.insert = item.label ∨ item.insert = item.label ++ [':'] := by
  have kind := kind_of_offered offered
  cases place : c.place with
  | filterKey => exact .inr (key_of_offered offered place).2.1
  | groupingTag => exact .inl (grouping_of_offered offered place).2.1
  | _ =>
    rw [place] at kind
    rcases listed with same | same <;> simp [kindsAt, same] at kind

end Suggestion

/-- An offered item is accepted the same way if its label is what it inserts. -/
theorem Edit.accept_relabeled {c : Context} {names : Candidates} {limit : Int} {item : Item}
    (offered : item ∈ suggest c names limit) (text : Text) (cursor : Int) (context : Context) :
    accept text cursor { label := item.insert, kind := item.kind, insert := item.insert } context =
      accept text cursor item context := by
  have label : item.kind = .filterKey ∨ item.kind = .groupingTag →
      listEntry text (text.clamp cursor) item.insert item.insert =
        listEntry text (text.clamp cursor) item.label item.insert := by
    intro listed
    rcases Suggestion.label_or_colon_of_offered offered listed with same | colon
    · rw [same]
    · rw [colon, listEntry_colon]
  simp only [accept, acceptAt]
  cases kind : item.kind with
  | filterKey => exact label (.inl kind)
  | groupingTag => exact label (.inr kind)
  | _ => rfl

end Typeahead
