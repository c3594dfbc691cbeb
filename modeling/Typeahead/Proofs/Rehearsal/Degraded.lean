import Typeahead.Proofs.Catalog.Paths
import Typeahead.Proofs.Rehearsal.InUse
import Typeahead.Proofs.Rehearsal.Tracked
import Typeahead.Service

/-!
Trouble of the catalog degrades suggestions. Whatever the catalog replies, or if it never does, suggestions
come without the names that are missing, or access is refused. One name gets past that: where it begins
with a slash no path can be made of it, and the suggestions fail.

- `Lookup.slash_of_path`: only names that begin with a slash fit no path.
- `suggest_degrades`: how suggestions come out, and with what status a service answers.
-/

namespace Typeahead

/-- No path can be made of a lookup only where a name in its scope begins with a slash. -/
theorem Lookup.slash_of_path {l : Lookup} {base : Path} {e : SlashName} (h : l.path base = .error e) :
    e.name ∈ l.scope ∧ e.name.head? = some '/' := by
  have found := path_eq_error_iff.1 h
  exact ⟨List.mem_of_find?_eq_some found, by simpa using List.find?_some found⟩

theorem Failure.Escapes.slash {t : Terms} {wanted : Lookup} {name : Text}
    (h : (Failure.slashName name).Escapes t wanted) : name.head? = some '/' := by
  obtain ⟨_, _, _, _, fails⟩ := h
  exact (Lookup.slash_of_path fails).2

/-- How suggestions come out where a lookup is wanted. They fail only where access is refused, where a name
fits no path, or where the cache has no room; and they come unless there are no slots or there is no limit. -/
def Degrades (t : Terms) (slots : Int) (wanted? : Option Lookup) :
    Option (Except Failure Suggestions) → Prop
  | some (.ok _) => True
  | some (.error failure) => ∃ wanted, wanted? = some wanted ∧ failure.Escapes t wanted
  | none => slots = 0 ∨ t.limit.value? = none

/-- How a service answers then. -/
def AnswersTo (t : Terms) (slots : Int) (wanted? : Option Lookup) : Option Answer → Prop
  | some answer => answer.status = 200 ∨ answer.status = 401 ∨ answer.status = 400 ∧
      ∃ wanted, wanted? = some wanted ∧
        ((∃ name, name.head? = some '/' ∧ (Failure.slashName name).Escapes t wanted) ∨ t.size = 0)
  | none => slots = 0 ∨ t.limit.value? = none

theorem Degrades.answer {t : Terms} {slots : Int} {wanted? : Option Lookup}
    {result : Option (Except Failure Suggestions)} (h : Degrades t slots wanted? result) (target : Text) :
    AnswersTo t slots wanted? (result.map fun
      | .ok suggestions => .found suggestions.document
      | .error failure => failure.answer target) := by
  cases result with
  | none => exact h
  | some result =>
    cases result with
    | ok => exact .inl rfl
    | error failure =>
      obtain ⟨wanted, asks, escapes⟩ := h
      cases failure with
      | catalog error =>
        have refused : error.kind = .unauthorized := escapes
        exact .inr (.inl (by simp [Failure.answer, Failure.status, refused]))
      | slashName name => exact .inr (.inr ⟨rfl, wanted, asks, .inl ⟨name, escapes.slash, escapes⟩⟩)
      | cache error => exact .inr (.inr ⟨rfl, wanted, asks, .inr escapes.2⟩)
      | fault => cases escapes

/-- Whoever asks for suggestions gets them, or one of a few failures. -/
theorem Rehearsal.InUse.degrades {t : Terms} {slots : Int} {w : Rehearsal} (h : w.InUse t slots)
    (language : Language) (query : Text) (cursor : Int) :
    Degrades t slots (contextOf language query cursor).lookup? (w.suggest language query cursor).1 := by
  have ends := resolve_ends h.ready (contextOf language query cursor)
  have enough := h.slots_nonneg
  unfold Rehearsal.suggest
  generalize w.resolve (contextOf language query cursor) = resolved at ends ⊢
  obtain ⟨resolution?, v⟩ := resolved
  cases resolution? with
  | none => exact ends.imp_left fun none => by omega
  | some resolution =>
    cases resolution with
    | done findings => trivial
    | failed failure => exact ends.resolve_left nofun
    | cancelled =>
      obtain same | ⟨_, _, fits⟩ := ends
      · cases same
      · cases fits

/-- A service answers a form for suggestions by what comes of them. -/
theorem Service.answersTo {t : Terms} {slots : Int} {s : Service} (h : s.rehearsal.InUse t slots)
    {r : Submission} {form : SuggestForm} (leads : Endpoint.find r.method r.target = .ok .suggest)
    (reads : SuggestForm.ofSubmission r = .ok form) :
    AnswersTo t slots (contextOf form.language form.query (form.query.ofUnits form.cursor)).lookup?
      (s.serve r).1 := by
  have answered := (h.degrades form.language form.query (form.query.ofUnits form.cursor)).answer r.target
  simp only [serve, leads, answerAt, reads, suggest]
  exact answered

/-- Whatever becomes of the requests to the catalog, suggestions degrade, and a service answers
accordingly. -/
theorem suggest_degrades {t : Terms} {slots : Int} {w : Rehearsal} (h : w.InUse t slots) :
    (∀ (language : Language) (query : Text) (cursor : Int),
      Degrades t slots (contextOf language query cursor).lookup? (w.suggest language query cursor).1) ∧
    ∀ (delegates : Bool) (r : Submission) (form : SuggestForm),
      Endpoint.find r.method r.target = .ok .suggest → SuggestForm.ofSubmission r = .ok form →
      AnswersTo t slots (contextOf form.language form.query (form.query.ofUnits form.cursor)).lookup?
        (Service.serve ⟨w, delegates⟩ r).1 :=
  ⟨h.degrades, fun _ _ _ leads reads => Service.answersTo h leads reads⟩

/-- A catalog of which the request for the values of a tag fails. -/
theorem suggest_degrades_reset :
    let base : Path := ⟨["autocomplete".toList]⟩
    let t : Terms := ⟨"site".toList, base, .whole 2, 10⟩
    let w : Rehearsal := {
      agenda := { now := 1000 }
      pool := {
        site := "site".toList, base, limit := .whole 2, cache := { ttl := 30, size := 10 }
        gate := { free := 5 } }
      script := [⟨"GET /autocomplete/tag-values/cpu/host".toList, [.after 0 (.clientError "reset".toList)]⟩]
      menu := { language := .metrics }
      pauseSpan := 0
      itemLimit := 100 }
    let query : Text := "cpu\x7bhost:".toList
    let r : Submission := {
      method := "POST".toList, target := "/api/v1/autocomplete/suggest".toList
      contentType := "application/json".toList
      body := "\x7b\"query\": \"cpu\x7bhost:\", \"cursor_position\": 9\x7d".toList }
    w.InUse t 5 ∧ Endpoint.find r.method r.target = .ok .suggest ∧
      SuggestForm.ofSubmission r = .ok ⟨query, 9, .metrics⟩ ∧
      Degrades t 5 (contextOf .metrics query 9).lookup? (w.suggest .metrics query 9).1 ∧
      AnswersTo t 5 (contextOf .metrics query (query.ofUnits 9)).lookup? (Service.serve ⟨w, false⟩ r).1 ∧
      (Service.serve ⟨w, false⟩ r).1.map (·.status) = some 200 := by
  intro base t w query r
  have faultless : w.script.Faultless := by
    intro route mem span reply arrives
    obtain rfl := List.mem_singleton.1 mem
    cases List.mem_singleton.1 arrives
    rfl
  have new : w.IsNew t 5 :=
    ⟨⟨30, 10, rfl, rfl⟩, fun job there => by simp [Agenda.Holds, w] at there, rfl, rfl, faultless⟩
  have used : w.InUse t 5 := .create new
  have leads : Endpoint.find r.method r.target = .ok .suggest := by decide +kernel
  have reads : SuggestForm.ofSubmission r = .ok ⟨query, 9, .metrics⟩ := by decide +kernel
  have found : (Service.serve ⟨w, false⟩ r).1.map (·.status) = some 200 := by decide +kernel
  -- What follows holds of any rehearsal in use: the values are of no more use.
  clear_value t w query r
  have degrades := suggest_degrades used
  exact ⟨used, leads, reads, degrades.1 .metrics query 9, degrades.2 false r _ leads reads, found⟩

theorem suggest_of_failed {w : Rehearsal} {language : Language} {query : Text} {cursor : Int}
    {failure : Failure}
    (failed : (w.resolve (contextOf language query cursor)).1 = some (.failed failure)) :
    (w.suggest language query cursor).1 = some (.error failure) := by
  unfold Rehearsal.suggest
  generalize w.resolve (contextOf language query cursor) = resolved at failed ⊢
  obtain ⟨_, v⟩ := resolved
  cases failed
  rfl

/-- A tag key that begins with a slash fails the suggestions, whatever the catalog would reply. -/
theorem suggest_fails_at_slash :
    let base : Path := ⟨["autocomplete".toList]⟩
    let w : Rehearsal := {
      agenda := { now := 1000 }
      pool := {
        site := "site".toList, base, limit := .whole 2, cache := { ttl := 30, size := 10 }
        gate := { free := 5 } }
      script := []
      menu := { language := .metrics }
      pauseSpan := 0
      itemLimit := 100 }
    let query : Text := "m\x7b/x:".toList
    let r : Submission := {
      method := "POST".toList, target := "/api/v1/autocomplete/suggest".toList
      contentType := "application/json".toList
      body := "\x7b\"query\": \"m\x7b/x:\", \"cursor_position\": 5\x7d".toList }
    w.InUse ⟨"site".toList, base, .whole 2, 10⟩ 5 ∧
      (w.suggest .metrics query 5).1 = some (.error (.slashName "/x".toList)) ∧
      SuggestForm.ofSubmission r = .ok ⟨query, 5, .metrics⟩ ∧
      (Service.serve ⟨w, false⟩ r).1.map (·.status) = some 400 := by
  intro base w query r
  have new : w.IsNew ⟨"site".toList, base, .whole 2, 10⟩ 5 :=
    ⟨⟨30, 10, rfl, rfl⟩, fun job there => by simp [Agenda.Holds, w] at there, rfl, rfl, nofun⟩
  have used : w.InUse ⟨"site".toList, base, .whole 2, 10⟩ 5 := .create new
  have resolved : (w.resolve (contextOf .metrics query 5)).1 = some (.failed (.slashName "/x".toList)) := by
    decide +kernel
  have reads : SuggestForm.ofSubmission r = .ok ⟨query, 5, .metrics⟩ := by decide +kernel
  have status : (Service.serve ⟨w, false⟩ r).1.map (·.status) = some 400 := by decide +kernel
  exact ⟨used, suggest_of_failed resolved, reads, status⟩

end Typeahead
