import Typeahead.Fetch.Pool
import Typeahead.Reading
import Typeahead.Suggestion
import Typeahead.Edit

/-!
Suggestions for a query at a cursor: the context, the verdict on the query, and the groups of items made
from the names that were found. Also the completion by the catalog, which falls back to the local one.
-/

namespace Typeahead

/-- What is suggested for a query at a cursor. -/
structure Suggestions where
  context : Context
  groups : List Group
  verdict : Verdict
  errors : List (Dataset × String)

namespace Suggestions

/-- The items in the order in which a menu shows them. -/
def items (s : Suggestions) : List Item := ungroup s.groups

/-- The troubles in one line. -/
def error? (s : Suggestions) : Option String :=
  if s.errors.isEmpty then none else some ("; ".intercalate (s.errors.map (·.2)))

/-- The suggestions for a query from what was found for its context. -/
def of (language : Language) (query : Text) (cursor : Int) (limit : Int) (findings : Findings) :
    Suggestions :=
  let context := contextOf language query cursor
  { context
    groups := group (suggest context findings.candidates limit)
    verdict := check language query
    errors := findings.errors }

end Suggestions

/-- The edit of a completion by the catalog; its cursor is moved into the new query. -/
def Completion.edit (c : Completion) : Edit := ⟨c.query, c.query.clamp c.cursor⟩

/-- The edit after the catalog was asked to complete: its own, unless it failed. Where it failed the
item is accepted here, but a refused access is passed on, and so is what nobody expects. -/
def resolveEdit (text : Text) (cursor : Int) (item : Item) (context : Context)
    (answer : Except Failure Completion) : Except Failure Edit :=
  match answer with
  | .ok completion => .ok completion.edit
  | .error (.catalog error) =>
    if error.kind = .unauthorized then .error (.catalog error)
    else .ok (Edit.accept text cursor item context)
  | .error failure => .error failure

/-- What the catalog is asked when an item is accepted. -/
def completionOrder (text : Text) (cursor : Int) (item : Item) : CompletionOrder :=
  ⟨text, cursor, item.insert, item.kind.name.toList⟩

end Typeahead
