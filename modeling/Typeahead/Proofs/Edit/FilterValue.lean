import Typeahead.Proofs.Edit.Splice
import Typeahead.Proofs.Metrics.Assigned
import Typeahead.Proofs.Suggestion.Offered

/-!
Accepting a value in a filter that gives values to keys.

- `accept_value`: the old value is replaced up to the first of its characters that may end a value.
- `accept_value_escaped_comma`: an escaped comma is such a character.
-/

namespace Typeahead.Metrics.Assigned

open Edit

variable (q : Assigned)

/-- The query with something else in the place of a value. -/
def textWith (before : List Assignment) (key : Simple) (value : Text) (after : List Assignment) : Text :=
  listing q.head.text (before.map Assignment.text ++ (key.text ++ ':' :: value) :: after.map Assignment.text) q.closed

theorem textWith_eq (before : List Assignment) (key : Simple) (value : Text) (after : List Assignment) :
    q.textWith before key value after = (q.upTo before ++ key.text ++ [':']) ++ value ++ q.behind after := by
  rw [textWith, listing_split]
  simp [upTo, behind]

/-- Accepting a value. At every cursor from behind the colon of a key to the end of its value values are offered,
and the accepted one is written in the place of the old one, escaped, with the cursor behind it. Of the old value
there stays what follows the cursor from the first character on that may end a value, be it escaped there or in a
placeholder. So the old value is replaced, and nothing else, if and only if no such character is behind the
cursor. -/
theorem accept_value {before after : List Assignment} {a : Assignment} (same : q.entries = before ++ a :: after)
    {n : Nat} (within : n ≤ a.value.text.length) {names : Candidates} {limit : Int} {item : Typeahead.Item}
    (offered : item ∈
      suggest (contextOf q.text ((q.upTo before ++ a.key.text ++ [':']).length + n : Nat)) names limit) :
    let cursor : Nat := (q.upTo before ++ a.key.text ++ [':']).length + n
    let edit := Edit.accept q.text cursor item (contextOf q.text cursor)
    item.kind = .filterValue ∧ item.label ∈ names .tagValues ∧
    edit.text = q.textWith before a.key (escapeTagValue item.label ++ leftover .metrics a.value.text n) after ∧
    edit.cursor = (q.upTo before ++ a.key.text ++ [':'] ++ escapeTagValue item.label).length ∧
    (edit.text = q.textWith before a.key (escapeTagValue item.label) after ↔
      ∀ c ∈ a.value.text.drop n, endsValue .metrics c = false) := by
  intro cursor edit
  obtain ⟨place, token⟩ := q.contextOf_value same within
  obtain ⟨kind, among, insert⟩ := Suggestion.tagValue_of_offered offered place
  have accepted : edit = value q.text cursor (escapeTagValue item.label) (contextOf q.text cursor) := by
    have bound : cursor ≤ q.text.length := by
      rw [q.text_split same, Assignment.text]
      simp [cursor]
      omega
    rw [← insert]
    simp only [edit, accept, acceptAt, q.text.clamp_of_le bound, kind]
  have line : q.text = (q.upTo before ++ a.key.text ++ [':']) ++ a.value.text ++ q.behind after := by
    rw [q.text_split same, Assignment.text]
    simp
  have language : (contextOf q.text cursor).language = .metrics := by rw [Context.language, place]; rfl
  have ends : ∀ c ∈ (q.behind after).head?, endsValue (contextOf q.text cursor).language c = true := by
    intro c mem
    rw [language]
    rcases listingBehind_head mem with rfl | rfl <;> decide
  have start : valueStart (q.upTo before ++ a.key.text ++ [':'] ++ a.value.text ++ q.behind after) cursor
      (contextOf q.text cursor) = (q.upTo before ++ a.key.text ++ [':']).length := by
    rw [valueStart_eq _ _ _ (.inl place) within token, if_neg (by simp)]
  have replaced := value_parts _ _ _ within start ends (escapeTagValue item.label)
  rw [← line, language, ← accepted] at replaced
  have text : edit.text =
      q.textWith before a.key (escapeTagValue item.label ++ leftover .metrics a.value.text n) after := by
    rw [replaced, textWith_eq]
    simp
  refine ⟨kind, among, text, by rw [replaced], ?_⟩
  rw [← leftover_eq_nil_iff, text, textWith_eq, textWith_eq, List.append_left_inj, List.append_right_inj]
  simp

/-- A query with one filter. -/
def single (value : Text) (filled : value ≠ []) (inLine : value.all Text.insideLine = true) : Assigned :=
  ⟨⟨['m'], rfl⟩, [⟨⟨['k'], rfl⟩, .escaped value filled inLine⟩], true⟩

/-- The values found when only these are known. -/
def tagValues (values : List Text) : Candidates := fun dataset => if dataset = .tagValues then values else []

/-- The item of a value. -/
def valueItem (value : Text) : Typeahead.Item :=
  { label := value, kind := .filterValue, insert := escapeTagValue value, sortKey := "10_".toList ++ value
    detail? := some "Value for tag k" }

theorem accept_value_letters :
    let q := single "ab".toList (by decide) (by decide)
    let item := valueItem "ac".toList
    q.text = "m\x7bk:ab\x7d".toList ∧ item ∈ suggest (contextOf q.text 5) (tagValues ["ac".toList]) 10 ∧
    (accept q.text 5 item (contextOf q.text 5)).text = "m\x7bk:ac\x7d".toList := by
  intro q item
  have offered : item ∈ suggest (contextOf q.text 5) (tagValues ["ac".toList]) 10 := by decide +kernel
  have alone : q.entries = [] ++ ⟨⟨['k'], rfl⟩, .escaped "ab".toList (by decide) (by decide)⟩ :: [] := rfl
  obtain ⟨-, -, -, -, replaced⟩ := q.accept_value alone (n := 1) (by decide) offered
  exact ⟨by decide, offered, (replaced.2 (List.forall_mem_singleton.2 rfl)).trans (by decide)⟩

/-- Of a value with an escaped comma behind the cursor a part stays, and so no value takes its place. -/
theorem accept_value_escaped_comma :
    let q := single "a,b".toList (by decide) (by decide)
    let item := valueItem "v".toList
    let edit := accept q.text 4 item (contextOf q.text 4)
    q.text = "m\x7bk:a\\,b\x7d".toList ∧
    item ∈ suggest (contextOf q.text 4) (tagValues ["v".toList]) 10 ∧
    edit.text = "m\x7bk:v,b\x7d".toList ∧
    edit.text ≠ q.textWith [] ⟨['k'], rfl⟩ (escapeTagValue "v".toList) [] := by
  intro q item edit
  have text : edit.text = "m\x7bk:v,b\x7d".toList := by decide +kernel
  exact ⟨by decide, by decide +kernel, text, by rw [text]; decide⟩

end Typeahead.Metrics.Assigned
