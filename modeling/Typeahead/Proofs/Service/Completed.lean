import Typeahead.Json.Equality
import Typeahead.Proofs.Edit.Cursor
import Typeahead.Proofs.Edit.Relabeled
import Typeahead.Proofs.Text.Units
import Typeahead.Service

/-!
Completions over the service. A request brings along the text that an item inserts and the kind of the item, but not
the item, and it counts the cursor in UTF-16 code units. The answer is that of accepting the item itself, if it was
offered at the cursor.

- `CompleteForm.Asks.ofSubmission`: the form in a request.
- `Service.serve_completion`: the answer to it.
-/

namespace Typeahead

namespace Field

variable {α : Type} {fields : List (Text × Json)} {name : String} {read : Reader α} {j : Json} {a : α}

theorem ofForm_of_lookup (default? : Option α) (found : fields.lookup name.toList = some j) (given : j ≠ .null)
    (proper : read j = .ok a) : ofForm fields name read default? = .good a := by
  unfold ofForm
  rw [found]
  split
  · next same => exact absurd (Option.some.inj same) given
  · next k _ same =>
    cases Option.some.inj same
    rw [proper]
    rfl
  · next same => cases same
  · next same => cases same

theorem ofForm_of_omitted (omitted : fields.lookup name.toList = none) :
    ofForm fields name read (some a) = .good a := by
  unfold ofForm
  rw [omitted]

theorem unknown_of_known {known : List String} (all : ∀ field ∈ fields, field.1.toString ∈ known) :
    unknown fields known = [] := by
  unfold unknown
  rw [List.map_eq_nil_iff, List.filter_eq_nil_iff]
  intro field mem
  simpa using all field mem

end Field

namespace CompleteForm

/-- Fields that ask for the completion of a query with an item, and give no label. The cursor counts UTF-16 code
units; a language that is left out is that of metrics. -/
structure Asks (fields : List (Text × Json)) (language : Language) (query : Text) (cursor : Int) (item : Item) :
    Prop where
  queryField : fields.lookup "query".toList = some (.text query)
  cursorField : fields.lookup "cursor_position".toList = some (.ofNat (query.toUnits cursor))
  selectedField : fields.lookup "selected_item".toList = some (.text item.insert)
  kindField : fields.lookup "item_kind".toList = some (.ofString item.kind.name)
  languageField : fields.lookup "language".toList = some (.ofString language.name) ∨
    fields.lookup "language".toList = none ∧ language = .metrics
  labelField : fields.lookup "label".toList = none
  knownFields : ∀ field ∈ fields,
    field.1.toString ∈ ["query", "cursor_position", "selected_item", "item_kind", "language", "label"]

/-- The form in a request with such fields. -/
theorem Asks.ofSubmission {r : Submission} {fields : List (Text × Json)} {language : Language} {query : Text}
    {cursor : Int} {item : Item} (asks : Asks fields language query cursor item) (brings : r.fields = .ok fields) :
    CompleteForm.ofSubmission r =
      .ok ⟨query, query.toUnits cursor, item.insert, item.kind, language, none⟩ := by
  have written : Field.ofForm fields "query" Field.text = .good query :=
    Field.ofForm_of_lookup none asks.queryField (by rintro ⟨⟩) rfl
  have position : Field.ofForm fields "cursor_position" Field.natural = .good (query.toUnits cursor : Int) := by
    refine Field.ofForm_of_lookup none asks.cursorField (by rintro ⟨⟩) ?_
    simp [Field.natural, Json.ofNat, Field.whole, bind, Except.bind]
  have selected : Field.ofForm fields "selected_item" Field.text = .good item.insert :=
    Field.ofForm_of_lookup none asks.selectedField (by rintro ⟨⟩) rfl
  have kind : Field.ofForm fields "item_kind" (Field.oneOf ItemKind.all ItemKind.name) = .good item.kind := by
    refine Field.ofForm_of_lookup none asks.kindField (by rintro ⟨⟩) ?_
    cases item.kind <;> rfl
  have spoken : Field.ofForm fields "language" (Field.oneOf Language.all Language.name) (some .metrics) =
      .good language := by
    rcases asks.languageField with given | ⟨omitted, rfl⟩
    · refine Field.ofForm_of_lookup _ given (by rintro ⟨⟩) ?_
      cases language <;> rfl
    · exact Field.ofForm_of_omitted omitted
  have label : Field.ofForm fields "label" (fun j => some <$> Field.text j) (some none) = .good none :=
    Field.ofForm_of_omitted asks.labelField
  have known := Field.unknown_of_known asks.knownFields
  simp only [CompleteForm.ofSubmission, Submission.read, brings, written, position, selected, kind, spoken, label,
    known, bind, Except.bind]
  rfl

end CompleteForm

theorem contextOf_clamp (language : Language) (query : Text) (cursor : Int) :
    contextOf language query (query.clamp cursor : Nat) = contextOf language query cursor := by
  have same := query.clamp_of_le (query.clamp_le cursor)
  cases language with
  | metrics => simp only [contextOf, Metrics.contextOf, same]
  | logs => simp only [contextOf, Logs.contextOf, same]

theorem Edit.accept_clamp (query : Text) (cursor : Int) (item : Item) (context : Context) :
    accept query (query.clamp cursor : Nat) item context = accept query cursor item context := by
  rw [accept, query.clamp_of_le (query.clamp_le cursor), accept]

/-- A service that completes by itself answers a form with an item that is offered at its cursor as if the item
itself were accepted there; the service stays as it is. The cursor of the answer counts UTF-16 code units, from which
the cursor of the edit is got back. -/
theorem Service.serve_completion {s : Service} (alone : s.delegates = false) {r : Submission}
    (posted : r.method = "POST".toList)
    (path : Endpoint.pathOf r.target = "/api/v1/autocomplete/complete".toList) {fields : List (Text × Json)}
    (brings : r.fields = .ok fields) {language : Language} {query : Text} {cursor : Int} {item : Item}
    (asks : CompleteForm.Asks fields language query cursor item) {names : Candidates} {limit : Int}
    (offered : item ∈ Typeahead.suggest (contextOf language query cursor) names limit) :
    let edit := Edit.accept query cursor item (contextOf language query cursor)
    s.serve r = (some (.found (.ofFields [("new_query", .text edit.text),
        ("new_cursor_position", .ofNat (edit.text.toUnits edit.cursor))])), s) ∧
      edit.text.ofUnits (edit.text.toUnits edit.cursor) = edit.cursor := by
  intro edit
  have leads : Endpoint.find r.method r.target = .ok .complete := by
    unfold Endpoint.find
    rw [path, posted]
    decide
  have accepted : Edit.accept query (query.ofUnits (query.toUnits cursor))
      { label := item.insert, kind := item.kind, insert := item.insert }
      (contextOf language query (query.ofUnits (query.toUnits cursor))) = edit := by
    rw [Text.ofUnits_toUnits, contextOf_clamp, Edit.accept_clamp]
    exact Edit.accept_relabeled offered query cursor _
  constructor
  · have answer : s.complete r.target ⟨query, query.toUnits cursor, item.insert, item.kind, language, none⟩ =
        (some (.found edit.document), s) := by
      simp only [Service.complete, CompleteForm.item, Rehearsal.replace, alone, Bool.false_eq_true, if_false]
      exact congrArg (fun e => (some (Answer.found e.document), s)) accepted
    rw [serve, leads]
    simp only [answerAt, asks.ofSubmission brings]
    exact answer
  · have inside := edit.text.clamp_of_le (Edit.cursor_accept_le query cursor item (contextOf language query cursor))
    rw [Text.ofUnits_toUnits, inside]

/-- The beginning of a key behind a character of two units, completed with its colon. -/
theorem Service.serve_completion_key :
    let base : Path := ⟨["autocomplete".toList]⟩
    let w : Rehearsal := {
      agenda := { now := 1000 }
      pool := {
        site := "site".toList, base, limit := .whole 2, cache := { ttl := 30, size := 10 }
        gate := { free := 5 } }
      script := []
      menu := { language := .metrics }
      pauseSpan := 0
      itemLimit := 100 }
    let s : Service := ⟨w, false⟩
    let r : Submission := {
      method := "POST".toList, target := "/api/v1/autocomplete/complete".toList
      contentType := "application/json".toList
      body := ("\x7b\"query\": \"avg:🖥\x7bho\", \"cursor_position\": 9, \"selected_item\": \"host:\", " ++
        "\"item_kind\": \"filter_tag_key\"\x7d").toList }
    let query : Text := "avg:🖥\x7bho".toList
    let item : Item := {
      label := "host".toList, kind := .filterKey, insert := "host:".toList
      sortKey := "10_host".toList, detail? := some "Tag key" }
    let fields : List (Text × Json) := [
      ("query".toList, .text query), ("cursor_position".toList, .ofNat 9),
      ("selected_item".toList, .ofString "host:"), ("item_kind".toList, .ofString "filter_tag_key")]
    r.fields = .ok fields ∧ CompleteForm.Asks fields .metrics query 8 item ∧
      item ∈ Typeahead.suggest (contextOf .metrics query 8) (.only .tags ["host:a".toList]) 20 ∧
      s.serve r = (some (.found (.ofFields [("new_query", .ofString "avg:🖥\x7bhost:"),
        ("new_cursor_position", .ofNat 12)])), s) := by
  intro base w s r query item fields
  have brings : r.fields = .ok fields := by decide +kernel
  have asks : CompleteForm.Asks fields .metrics query 8 item := by
    constructor <;> decide +kernel
  have offered : item ∈ Typeahead.suggest (contextOf .metrics query 8) (.only .tags ["host:a".toList]) 20 := by
    decide +kernel
  have answer := (serve_completion (s := s) rfl rfl (by decide) brings asks offered).1
  have edit : Edit.accept query 8 item (contextOf .metrics query 8) = ⟨"avg:🖥\x7bhost:".toList, 11⟩ := by
    decide +kernel
  rw [edit] at answer
  exact ⟨brings, asks, offered, answer⟩

end Typeahead
