import Typeahead.Engine
import Typeahead.Service.Endpoint
import Typeahead.Service.Form
import Typeahead.Text.Units

/-!
The answers of the service: their status and what they carry. Documents are JSON, short notes are plain
text, and an answer without content carries nothing. A request that leads nowhere and a form that cannot
be read are told by their faults; a failure is told by its wording, with a status for its kind.

- `status_of_failure`: a failure is answered with 400, 401, 500, 502 or 504.
-/

namespace Typeahead

/-- What an answer carries. -/
inductive Content where
  | nothing
  | note (text : String)
  | document (j : Json)

/-- An answer of the service. -/
structure Answer where
  status : Nat
  content : Content

/-- The name and version that every answer bears. -/
def Answer.version : String := "query-autocomplete/0.1.0"

/-- The type of what an answer carries. -/
def Content.type? : Content → Option String
  | .nothing => none
  | .note _ => some "text/plain"
  | .document _ => some "application/json"

/-- The answer to a request that leads nowhere. -/
def RouteFault.answer : RouteFault → Answer
  | .unknownPath => ⟨404, .note "404: Not Found"⟩
  | .wrongMethod => ⟨405, .note "405: Method Not Allowed"⟩

/-- The answer to a form that cannot be read. -/
def FormFault.answer : FormFault → Answer
  | .brokenJson =>
    ⟨400, .document (.ofFields [("json", .list [.ofString "Invalid JSON body."])])⟩
  | .noObject =>
    ⟨422, .document (.ofFields [("json",
      .ofFields [("_schema", .list [.ofString "Invalid input type."])])])⟩
  | .misfilled faults =>
    ⟨422, .document (.ofFields [("json",
      .object (faults.map fun f => (f.field, .list [.ofString f.fault.message])))])⟩

namespace Failure

/-- The status of an answer that tells a failure. -/
def status : Failure → Nat
  | .slashName _ | .cache _ => 400
  | .catalog error =>
    match error.kind with
    | .unauthorized => 401
    | .timeout => 504
    | .notFound | .network => 502
  | .fault _ => 500

theorem status_of_failure (f : Failure) : f.status ∈ [400, 401, 500, 502, 504] := by
  cases f with
  | catalog error => simp only [status]; cases error.kind <;> simp
  | _ => simp [status]

/-- The answer that tells a failure of a request for a target. What nobody expects is told with the
target. -/
def answer (target : Text) (f : Failure) : Answer :=
  let wording := match f with
    | .fault reason =>
      "Unexpected exception: " ++ reason.toString ++ ". Path with query: " ++ target.toString ++ "."
    | f => f.message
  ⟨f.status, .document (.ofFields [("error", .ofString wording)])⟩

end Failure

/-- A context as a document. Where the cursor stands in the whole query is not part of it. -/
def Context.document (c : Context) : Json := .ofFields [
  ("context_type", .ofString c.place.name),
  ("current_token", .text c.token),
  ("line_text", .text c.lineText),
  ("metric_name", .orNull .text c.metric?),
  ("tag_key", .orNull .text c.key?),
  ("existing_keys", .ofTexts c.usedKeys),
  ("facet", .orNull (fun f => .ofString f.name) c.facet?),
  ("after_operator", .bool c.afterOperator),
  ("in_group", .bool c.inGroup),
  ("in_quotes", .bool c.inQuotes)]

/-- An item as a document. -/
def Item.document (i : Item) : Json := .ofFields [
  ("label", .text i.label),
  ("kind", .ofString i.kind.name),
  ("insert_text", .text i.insert),
  ("sort_key", .text i.sortKey),
  ("detail", .orNull .ofString i.detail?)]

/-- A group as a document. -/
def Group.document (g : Group) : Json := .ofFields [
  ("category", .ofString g.category.name),
  ("label", .ofString g.category.heading),
  ("items", .list (g.items.map Item.document))]

/-- A verdict as a document. -/
def Verdict.document (v : Verdict) : Json := .ofFields [
  ("is_valid", .bool v.isValid),
  ("errors", .list (v.errors.map .ofString)),
  ("warnings", .list (v.warnings.map .ofString))]

/-- Suggestions as a document. -/
def Suggestions.document (s : Suggestions) : Json := .ofFields [
  ("context", s.context.document),
  ("groups", .list (s.groups.map Group.document)),
  ("validation", s.verdict.document),
  ("error", .orNull .ofString s.error?)]

/-- An edit as a document; the cursor counts UTF-16 code units. -/
def Edit.document (e : Edit) : Json := .ofFields [
  ("new_query", .text e.text),
  ("new_cursor_position", .ofNat (Text.toUnits e.text e.cursor))]

/-- The state of the cache and the fetches as a document. -/
def PoolStats.document (s : PoolStats) : Json := .ofFields [
  ("in_flight", .ofNat s.inFlight),
  ("pending", .ofNat s.pending),
  ("cached", .ofNat s.cached),
  ("cache_ttl_s", .number (.real (.finite s.ttl))),
  ("auth_blocked", .bool s.blocked)]

/-- The answer with a document. -/
def Answer.found (document : Json) : Answer := ⟨200, .document document⟩

end Typeahead
