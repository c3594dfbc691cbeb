import Typeahead.Text

/-!
The words of the logs language: the boolean operators and the facets that are known without asking the
catalog, each with the line that describes it.
-/

namespace Typeahead.Logs

/-- The boolean operators. -/
inductive Operator where
  | and
  | or
  | not
  deriving DecidableEq, Repr

namespace Operator

/-- The operators in the order in which they are offered. -/
def all : List Operator := [.and, .or, .not]

/-- The word of an operator; operators are written in capitals. -/
def word : Operator → Text
  | .and => "AND".toList
  | .or => "OR".toList
  | .not => "NOT".toList

/-- What an operator does. -/
def description : Operator → String
  | .and => "Logical AND - both conditions must be true"
  | .or => "Logical OR - either condition can be true"
  | .not => "Logical NOT - excludes matching logs"

/-- The operator that a word is. -/
def named? (w : Text) : Option Operator := all.find? fun o => o.word = w

end Operator

/-- The facets known without asking, with their descriptions. -/
def knownFacets : List (Text × String) := [
  ("service".toList, "Filter by service name (e.g., service:web-app)"),
  ("source".toList, "Filter by log source (e.g., source:nginx)"),
  ("status".toList, "Filter by log level (e.g., status:ERROR)"),
  ("level".toList, "Filter by log level (e.g., level:WARN)"),
  ("host".toList, "Filter by hostname (e.g., host:web-01)"),
  ("env".toList, "Filter by environment (e.g., env:production)"),
  ("version".toList, "Filter by application version (e.g., version:1.2.3)"),
  ("@timestamp".toList, "Filter by timestamp range"),
  ("@message".toList, "Filter by message content"),
  ("@severity".toList, "Filter by severity level"),
  ("@source_category".toList, "Filter by source category")]

/-- The names of the facets known without asking. -/
def defaultFacets : List Text := knownFacets.map (·.1)

/-- The description of a facet. -/
def facetDescription (name : Text) : String :=
  (knownFacets.lookup name).getD ("Filter by " ++ name.toString)

end Typeahead.Logs
