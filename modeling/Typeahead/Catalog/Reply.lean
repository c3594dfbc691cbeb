import Typeahead.Catalog.Error
import Typeahead.Json
import Typeahead.Lenient

/-!
Replies of the catalog and what they mean. A request ends in a response, or in one of four ways without
any. A response of status 401 or 403 refuses access, 404 tells that the thing asked for is not there,
and any other status from 400 on is an error; below 400 the body is read.
-/

namespace Typeahead

/-- The headers of every request; an empty token counts as none. -/
def catalogHeaders (token? : Option Text) : List (String × Text) :=
  match nonempty? token? with
  | some token => [("Authorization", "Bearer ".toList ++ token)]
  | none => []

/-- How a request to the catalog ends. The body is the JSON of the response, or the reason why it
cannot be read. -/
inductive Reply where
  | response (status : Int) (text : Text) (body : Except Text Json)
  | timeout
  | clientError (reason : Text)
  | valueError (reason : Text)
  | fault (reason : Text)

/-- A request to the catalog. A completion is sent with a body. -/
structure Request where
  path : Path
  body? : Option Json := none

/-- The body of a reply to a request for `path`. -/
def Reply.body (path : Path) : Reply → Except Failure Json
  | .response status text body =>
    if status = 401 || status = 403 then .error (.catalog (.refused text))
    else if status = 404 then .error (.catalog (.absent path.shown))
    else if 400 ≤ status then .error (.catalog (.badStatus text))
    else body.mapError fun reason => .catalog (.requestFailed reason)
  | .timeout => .error (.catalog (.requestTimedOut path.shown))
  | .clientError reason | .valueError reason => .error (.catalog (.requestFailed reason))
  | .fault reason => .error (.fault reason)

/-- The names in a reply to a request for `path`. -/
def Reply.names (path : Path) (reply : Reply) : Except Failure (List Text) := do
  match (← reply.body path).texts? with
  | some names => return names
  | none => .error (.catalog (.unexpectedNames path.shown))

/-- A completion by the catalog: the new query and the cursor in it. -/
structure Completion where
  query : Text
  cursor : Int
  deriving DecidableEq, Repr

/-- A whole number in a document: a numeral of any kind or a truth value. -/
def Json.lenientInt? : Json → Option Int
  | .number (.whole n) => some n
  | .number (.real (.finite x)) =>
    if x.den = 1 && Number.fitsWord x.num then some x.num else none
  | .bool b => some (if b then 1 else 0)
  | .text t => Lenient.int? t
  | _ => none

/-- The completion in a document. Each field has two names, of which the first one wins. -/
def Completion.ofJson? (j : Json) : Option Completion := do
  let .text query ← j.field? "newQuery" <|> j.field? "new_query" | none
  let cursor ← j.field? "newCursorPosition" <|> j.field? "new_cursor_offset"
  return { query, cursor := ← cursor.lenientInt? }

/-- The completion in a reply to a request for `path`. -/
def Reply.completion (path : Path) (reply : Reply) : Except Failure Completion := do
  match Completion.ofJson? (← reply.body path) with
  | some completion => return completion
  | none => .error (.catalog .unexpectedCompletion)

/-- What a completion by the catalog asks for. -/
structure CompletionOrder where
  query : Text
  cursor : Int
  selected : Text
  kindName : Text

/-- The body of the request for a completion. -/
def CompletionOrder.body (o : CompletionOrder) : Json := Json.ofFields [
  ("query", .text o.query), ("cursorPosition", .ofInt o.cursor),
  ("selectedItem", .text o.selected), ("itemKind", .text o.kindName)]

end Typeahead
