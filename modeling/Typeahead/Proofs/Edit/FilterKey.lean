import Typeahead.Proofs.Edit.Splice
import Typeahead.Proofs.Metrics.Drafts
import Typeahead.Proofs.Suggestion.Offered

/-!
Accepting a key of a filter that is being typed.

- `listEntry_typed`: the key that is typed is replaced.
- `listEntry_untyped`: where nothing of a key is typed, the new one is put behind the key of the entry.
- `accept_key`: what becomes of the filter.
-/

namespace Typeahead.Metrics.Draft

open Edit

namespace Entry

variable (e : Entry)

/-- The entry with another key. An entry without a value gets the colon for it. -/
def rekeyed (c : Simple) : Entry := { e with key := c, value? := some (e.value?.getD ⟨[], rfl⟩) }

/-- A new entry with a key, without a value. -/
def fresh (c : Simple) : Entry := ⟨.none, c, some ⟨[], rfl⟩⟩

/-- What a new entry is joined to the key of the entry with. -/
def comma : Text := if e.name = [] then [] else [',']

/-- The colon of an entry that has a value. -/
def colon : Text := (e.value?.map fun _ => [':']).getD []

theorem tail_eq : e.tail = e.colon ++ (e.value?.map Simple.text).getD [] := by
  cases value : e.value? <;> simp [tail, colon, value]

theorem isKeyPart_of_mem_name (c : Char) (mem : c ∈ e.name) : isKeyPart c = true := by
  rcases List.mem_append.1 mem with sign | key
  · have signs : ∀ s : Sign, ∀ c ∈ s.text, isKeyPart c = true := by
      intro s
      cases s <;> simp [Sign.text] <;> decide
    exact signs e.sign c sign
  · have simple := List.all_eq_true.1 e.key.chars c key
    simp only [isSimpleChar, Bool.or_eq_true, decide_eq_true_eq] at simple
    rcases simple with ((alphanumeric | rfl) | rfl) | rfl
    · simp [isKeyPart, isWordPart, alphanumeric]
    all_goals decide

/-- Without its sign, what is typed of an entry is the beginning of its key. -/
theorem bare_take (n : Nat) : Text.trimLeft (fun c => c = '!' || c = '-') (e.name.take n) =
    e.key.text.take (n - e.sign.text.length) := by
  have signs : ∀ s : Sign, ∀ c ∈ s.text, (decide (c = '!') || decide (c = '-')) = true := by
    intro s
    cases s <;> simp [Sign.text]
  have key : (e.key.text.take (n - e.sign.text.length)).dropWhile (fun c => c = '!' || c = '-') =
      e.key.text.take (n - e.sign.text.length) := by
    cases same : e.key.text.take (n - e.sign.text.length) with
    | nil => rfl
    | cons c rest =>
      have among : c ∈ e.key.text := List.mem_of_mem_take (same ▸ List.mem_cons_self)
      obtain ⟨-, -, -, noNot, noMinus⟩ := plain_of_isSimpleChar (List.all_eq_true.1 e.key.chars c among)
      exact List.dropWhile_cons_of_neg (by simp [noNot, noMinus])
  rw [Text.trimLeft, name, List.take_append, List.dropWhile_append_of_pos
    (fun c mem => signs e.sign c (List.mem_of_mem_take mem)), key]

end Entry

variable (d : Draft)

/-- The query with another entry in the place of one. -/
def put (before : List Entry) (e : Entry) (after : List Entry) : Draft :=
  { d with entries := before ++ e :: after, filled := by simp }

/-- The query with a new entry behind one, or in its place if that is empty. -/
def add (before : List Entry) (e : Entry) (c : Simple) (after : List Entry) : Draft :=
  if e.name = [] then d.put before (.fresh c) after else d.put before e (.fresh c :: after)

theorem text_put (before : List Entry) (e : Entry) (after : List Entry) :
    (d.put before e after).text = d.upTo before ++ e.text ++ d.behind after :=
  (d.put before e after).text_split rfl

theorem text_rekeyed (before : List Entry) (e : Entry) (c : Simple) (after : List Entry) :
    (d.put before (e.rekeyed c) after).text = d.upTo before ++ e.sign.text ++ (c.text ++ [':']) ++
      ((e.value?.map Simple.text).getD [] ++ d.behind after) := by
  rw [text_put]
  cases same : e.value? <;> simp [Entry.text, Entry.name, Entry.tail, Entry.rekeyed, same]

theorem text_add (before : List Entry) {e : Entry} (bare : e.value? = none) (c : Simple) (after : List Entry) :
    (d.add before e c after).text =
      d.upTo before ++ e.name ++ (e.comma ++ (c.text ++ [':'])) ++ d.behind after := by
  unfold add Entry.comma
  split
  · next empty =>
    rw [text_put, empty]
    simp [Entry.text, Entry.name, Entry.tail, Entry.fresh, Sign.text]
  · rw [text_put]
    simp [Entry.text, Entry.tail, Entry.fresh, bare, behind, listingBehind, Entry.name, Sign.text]

/-- A new entry is joined by a comma to an entry, and not to the brace or the comma before an empty one. -/
theorem joined_name (before : List Entry) (e : Entry) :
    ((Text.trailing (· != '{') (d.upTo before) ++ e.name).getLast?.any
      fun c => c != ',' && c != '(' && !isBlank c) = !e.name.isEmpty := by
  rw [List.getLast?_append]
  cases last : e.name.getLast? with
  | some c =>
    have among := List.mem_of_getLast? last
    obtain ⟨plain, -, inked⟩ := e.name_chars c among
    have comma : c ≠ ',' := by rintro rfl; revert plain; decide
    have paren : c ≠ '(' := by rintro rfl; revert plain; decide
    have nonempty : e.name.isEmpty = false := List.isEmpty_eq_false_iff.2 (List.ne_nil_of_mem among)
    simp [comma, paren, inked, nonempty]
  | none =>
    rw [List.getLast?_eq_none_iff.1 last, Option.none_or]
    rcases listingUpTo_last d.head (before.map Entry.text) with brace | comma
    · rw [upTo, Text.trailing_eq_nil (by simp [brace])]
      rfl
    · rw [upTo, Text.getLast?_trailing comma (by decide)]
      rfl

/-- The key of an entry is a word of its own: no character of a key stands before it or behind it. -/
theorem name_seams (before : List Entry) (e : Entry) (after : List Entry) :
    (∀ c ∈ (d.upTo before).getLast?, isKeyPart c = false) ∧
      ∀ c ∈ (e.tail ++ d.behind after).head?, isKeyPart c = false := by
  constructor
  · intro c last
    rcases listingUpTo_last d.head (before.map Entry.text) with brace | comma
    · obtain rfl := Option.some.inj (brace.symm.trans last)
      decide
    · obtain rfl := Option.some.inj (comma.symm.trans last)
      decide
  · intro c mem
    cases value : e.value? with
    | none =>
      have there : c ∈ (d.behind after).head? := by simpa [Entry.tail, value] using mem
      rcases listingBehind_head there with rfl | rfl <;> decide
    | some v =>
      obtain rfl : ':' = c := by simpa [Entry.tail, value] using mem
      decide

section

variable {before after : List Entry} {e : Entry} (same : d.entries = before ++ e :: after)

include same

theorem text_name : d.text = (d.upTo before ++ e.name) ++ (e.tail ++ d.behind after) := by
  rw [d.text_split same, Entry.text]
  simp

/-- Behind a key the colon of the entry is stepped over by a key that brings its own. -/
theorem overColon_name (key : Text) : overColon d.text (d.upTo before ++ e.name).length (key ++ [':']) =
    (d.upTo before ++ e.sign.text ++ (e.key.text ++ e.colon)).length := by
  have next : d.text[(d.upTo before ++ e.name).length]? = (e.tail ++ d.behind after).head? := by
    rw [d.text_name same, List.getElem?_append_right (Nat.le_refl _), Nat.sub_self, List.head?_eq_getElem?]
  unfold overColon
  rw [next, List.getLast?_concat]
  cases value : e.value? with
  | none =>
    have bare : (e.tail ++ d.behind after).head? ≠ some ':' := by
      intro mem
      have there : ':' ∈ (d.behind after).head? := by simpa [Entry.tail, value] using mem
      rcases listingBehind_head there with same | same <;> cases same
    simp only [decide_true, Bool.true_and, decide_eq_true_eq, bare, if_false]
    simp [Entry.colon, value, Entry.name]
  | some v => simp [Entry.tail, Entry.colon, value, Entry.name, Nat.add_assoc]

variable {n : Nat} (within : n ≤ e.name.length)

include within

/-- A key that is typed is replaced by the one that holds it, and the colon is not written twice. -/
theorem listEntry_typed (c : Simple) (typed : e.sign.text.length < n)
    (holds : Text.occurs (Text.lower (e.key.text.take (n - e.sign.text.length))) (Text.lower c.text) = true) :
    listEntry d.text ((d.upTo before).length + n) c.text (c.text ++ [':']) =
      ⟨(d.put before (e.rekeyed c) after).text, (d.upTo before ++ e.sign.text ++ (c.text ++ [':'])).length⟩ := by
  have name_length : e.name.length = e.sign.text.length + e.key.text.length := List.length_append
  have length : (e.key.text.take (n - e.sign.text.length)).length = n - e.sign.text.length := by
    rw [List.length_take]
    omega
  have partly : e.key.text.take (n - e.sign.text.length) ≠ [] := by
    rw [ne_eq, ← List.length_eq_zero_iff]
    omega
  have whole : d.text = (d.upTo before ++ e.sign.text) ++ (e.key.text ++ e.colon) ++
      ((e.value?.map Simple.text).getD [] ++ d.behind after) := by
    rw [d.text_name same, e.tail_eq]
    simp [Entry.name]
  have start : (d.upTo before).length + n - (e.key.text.take (n - e.sign.text.length)).length =
      (d.upTo before ++ e.sign.text).length := by
    rw [length, List.length_append]
    omega
  obtain ⟨begins, ends⟩ := d.name_seams before e after
  have edit := Edit.listEntry_typed (d.text_name same ▸ d.inside) e.isKeyPart_of_mem_name begins ends within
    (c.text ++ [':']) (e.bare_take n) partly holds
  rw [← d.text_name same, d.overColon_name same, start] at edit
  rw [edit, text_rekeyed]
  nth_rw 1 [whole]
  exact splice_parts ..

/-- Where nothing of a key is typed, the new one is written behind the key of the entry. -/
theorem listEntry_untyped (c : Simple) (untyped : n ≤ e.sign.text.length) :
    listEntry d.text ((d.upTo before).length + n) c.text (c.text ++ [':']) =
      ⟨d.upTo before ++ e.name ++ (e.comma ++ (c.text ++ [':'])) ++ (e.tail ++ d.behind after),
        (d.upTo before ++ e.name ++ (e.comma ++ (c.text ++ [':']))).length⟩ := by
  have bare : e.key.text.take (n - e.sign.text.length) = [] := by
    rw [Nat.sub_eq_zero_of_le untyped, List.take_zero]
  have insert : (if !e.name.isEmpty then ',' :: (c.text ++ [':']) else c.text ++ [':']) =
      e.comma ++ (c.text ++ [':']) := by
    cases name : e.name <;> simp [Entry.comma, name]
  obtain ⟨begins, ends⟩ := d.name_seams before e after
  have edit := Edit.listEntry_untyped (d.text_name same ▸ d.inside) e.isKeyPart_of_mem_name begins ends within
    c.text (c.text ++ [':']) ((e.bare_take n).trans bare)
  have whole := splice_parts (d.upTo before ++ e.name) [] (e.tail ++ d.behind after) (e.comma ++ (c.text ++ [':']))
  rw [List.append_nil] at whole
  rw [d.joined_name before e, insert, whole] at edit
  rw [d.text_name same, edit]

end

/-- Accepting a key where one is typed. The cursor stands in an entry, up to the end of its key. If it stands
behind the first character of the key, the key is replaced, and the entry keeps its sign and its value. If
nothing of the key is typed, the new key is written behind that of the entry: so it becomes a new entry if the
entry has no value yet, but otherwise the value of the entry gets the new key with a second colon. -/
theorem accept_key {cursor : Int} {names : Candidates} {limit : Int} {item : Typeahead.Item}
    (place : (contextOf d.text cursor).place = .filterKey)
    (offered : item ∈ suggest (contextOf d.text cursor) names limit)
    (simple : item.label.all isSimpleChar = true) :
    ∃ before e after n, d.entries = before ++ e :: after ∧ n ≤ e.name.length ∧
      d.text.clamp cursor = (d.upTo before).length + n ∧
      let c : Simple := ⟨item.label, simple⟩
      let edit := Edit.accept d.text cursor item (contextOf d.text cursor)
      (e.sign.text.length < n → edit.text = (d.put before (e.rekeyed c) after).text ∧
        edit.cursor = (d.upTo before ++ e.sign.text ++ c.text ++ [':']).length) ∧
      (n ≤ e.sign.text.length →
        edit.cursor = (d.upTo before ++ e.name ++ e.comma ++ c.text ++ [':']).length ∧
        (e.value? = none → edit.text = (d.add before e c after).text) ∧
        ∀ v, e.value? = some v → edit.text =
          d.upTo before ++ e.name ++ e.comma ++ c.text ++ ':' :: ':' :: v.text ++ d.behind after) := by
  obtain ⟨before, e, after, n, same, within, there, token⟩ := d.exists_place place
  obtain ⟨kind, insert, holds⟩ := Suggestion.key_of_offered offered place
  rw [token, e.bare_take] at holds
  have accepted : Edit.accept d.text cursor item (contextOf d.text cursor) =
      listEntry d.text ((d.upTo before).length + n) item.label (item.label ++ [':']) := by
    rw [accept, acceptAt, kind, there, insert]
  refine ⟨before, e, after, n, same, within, there, fun typed => ?_, fun untyped => ?_⟩
  · have edit := d.listEntry_typed same within ⟨item.label, simple⟩ typed holds
    rw [accepted, edit]
    exact ⟨rfl, by simp⟩
  · have edit := d.listEntry_untyped same within ⟨item.label, simple⟩ untyped
    rw [accepted, edit]
    refine ⟨by simp, fun bare => ?_, fun v value => ?_⟩
    · rw [d.text_add before bare]
      simp [Entry.tail, bare]
    · simp [Entry.tail, value]

/-- A filter of one pair. -/
def single : Draft where
  head := "m".toList
  headChars := by decide
  entries := [⟨.none, ⟨"host".toList, by decide⟩, some ⟨"a".toList, by decide⟩⟩]
  filled := by decide
  closed := true

/-- The names found when only these tags are known. -/
def tagNames (tags : List Text) : Candidates := fun dataset => if dataset = .tags then tags else []

/-- The item of a key. -/
def keyItem (key : Text) : Typeahead.Item :=
  { label := key, kind := .filterKey, insert := key ++ [':'], sortKey := "10_".toList ++ key
    detail? := some "Tag key" }

theorem accept_key_hostname :
    let item := keyItem "hostname".toList
    single.text = "m\x7bhost:a\x7d".toList ∧ (contextOf single.text 4).place = .filterKey ∧
    item ∈ suggest (contextOf single.text 4) (tagNames ["hostname:b".toList]) 10 ∧
    (accept single.text 4 item (contextOf single.text 4)).text = "m\x7bhostname:a\x7d".toList := by
  intro item
  have place : (contextOf single.text 4).place = .filterKey := by decide +kernel
  have offered : item ∈ suggest (contextOf single.text 4) (tagNames ["hostname:b".toList]) 10 := by
    decide +kernel
  obtain ⟨before, e, after, n, same, -, there, typed, -⟩ := single.accept_key place offered (by decide)
  obtain ⟨rfl, rfl, rfl⟩ : before = [] ∧ e = ⟨.none, ⟨"host".toList, by decide⟩, some ⟨"a".toList, by decide⟩⟩ ∧
      after = [] := by
    cases before with
    | nil =>
      obtain ⟨rfl, rfl⟩ := List.cons.inj same
      exact ⟨rfl, rfl, rfl⟩
    | cons first before => simp [single] at same
  have four : single.text.clamp 4 = 4 := by decide
  have two : (single.upTo []).length = 2 := by decide
  have replaced := (typed (by simp only [Sign.text, List.length_nil]; omega)).1
  exact ⟨by decide, place, offered, replaced.trans (by decide)⟩

/-- Before the first character of its key, a pair loses its value to the key that is accepted: the key of no
entry is replaced, and no entry is added to those that were there. -/
theorem accept_key_splits_pair :
    let item := keyItem "env".toList
    let edit := accept single.text 2 item (contextOf single.text 2)
    (contextOf single.text 2).place = .filterKey ∧
    item ∈ suggest (contextOf single.text 2) (tagNames ["env:prod".toList]) 10 ∧
    edit.text = "m\x7bhost,env::a\x7d".toList ∧
    (∀ before e after, single.entries = before ++ e :: after →
      edit.text ≠ (single.put before (e.rekeyed ⟨"env".toList, by decide⟩) after).text) ∧
    ∀ before after, single.entries = before ++ after →
      edit.text ≠ (single.put before (.fresh ⟨"env".toList, by decide⟩) after).text := by
  intro item edit
  have text : edit.text = "m\x7bhost,env::a\x7d".toList := by decide +kernel
  refine ⟨by decide +kernel, by decide +kernel, text, fun before e after same => ?_, fun before after same => ?_⟩
  · rw [text]
    cases before with
    | nil =>
      obtain ⟨rfl, rfl⟩ := List.cons.inj same
      decide
    | cons first before => simp [single] at same
  · rw [text]
    rcases before with _ | ⟨first, _ | ⟨second, before⟩⟩
    · obtain rfl : _ = after := same
      decide
    · obtain ⟨rfl, rfl⟩ := List.cons.inj same
      decide
    · simp [single] at same

end Typeahead.Metrics.Draft
