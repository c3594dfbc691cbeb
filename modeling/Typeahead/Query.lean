import Typeahead.Text.Case
import Typeahead.Text.Line

/-!
What is known about a query at a cursor: the language, the kind of thing that is typed there, the part
typed so far, and what the surroundings say about it.
-/

namespace Typeahead

/-- The two query languages. -/
inductive Language where
  | metrics
  | logs
  deriving DecidableEq, Repr

namespace Language

/-- Both languages. -/
def all : List Language := [.metrics, .logs]

/-- The name of a language. -/
def name : Language → String
  | .metrics => "metrics"
  | .logs => "logs"

/-- The language of a name. -/
def named? (name : Text) : Option Language := all.find? fun l => l.name.toList = name

end Language

/-- What is typed at the cursor. -/
inductive Place where
  | metricName
  | aggregatorPrefix
  | filterKey
  | filterValue
  | groupingTag
  | logsSearch
  | facetName
  | facetValue
  deriving DecidableEq, Repr

namespace Place

/-- All places. -/
def all : List Place :=
  [.metricName, .aggregatorPrefix, .filterKey, .filterValue, .groupingTag, .logsSearch, .facetName,
    .facetValue]

/-- The name of a place. -/
def name : Place → String
  | .metricName => "metric-name"
  | .aggregatorPrefix => "aggregator-prefix"
  | .filterKey => "filter-tag-key"
  | .filterValue => "filter-tag-value"
  | .groupingTag => "grouping-tag"
  | .logsSearch => "logs-search"
  | .facetName => "logs-facet-name"
  | .facetValue => "logs-facet-value"

/-- The place of a name. -/
def named? (name : Text) : Option Place := all.find? fun p => p.name.toList = name

/-- The language a place belongs to. -/
def language : Place → Language
  | .metricName | .aggregatorPrefix | .filterKey | .filterValue | .groupingTag => .metrics
  | .logsSearch | .facetName | .facetValue => .logs

end Place

/-- The log facets that have a meaning of their own. -/
inductive Facet where
  | service
  | source
  | level
  | host
  | env
  deriving DecidableEq, Repr

namespace Facet

/-- All facets. -/
def all : List Facet := [.service, .source, .level, .host, .env]

/-- The name of a facet. -/
def name : Facet → String
  | .service => "service"
  | .source => "source"
  | .level => "level"
  | .host => "host"
  | .env => "env"

/-- The facet of a name in any case; `status` is another name of the level. -/
def named? (name : Text) : Option Facet :=
  let small := name.lower
  if small = "service".toList then some .service
  else if small = "source".toList then some .source
  else if small = "level".toList || small = "status".toList then some .level
  else if small = "host".toList then some .host
  else if small = "env".toList then some .env
  else none

end Facet

/-- What is known about a query at a cursor. `token` is the part typed so far, `usedKeys` are the keys
that stand elsewhere in the line, in order and each once. -/
structure Context where
  place : Place
  token : Text := []
  cursor : Int := 0
  lineText : Text := []
  lineOffset : Int := 0
  metric? : Option Text := none
  key? : Option Text := none
  usedKeys : List Text := []
  facet? : Option Facet := none
  afterOperator : Bool := false
  inGroup : Bool := false
  inQuotes : Bool := false
  deriving DecidableEq, Repr

namespace Context

/-- The cursor counted from the start of its line. -/
def lineCursor (c : Context) : Int := c.cursor - c.lineOffset

/-- The language of the query. -/
def language (c : Context) : Language := c.place.language

/-- The context with the place of its cursor filled in. -/
def located (c : Context) (cursor : Nat) (line : Line) : Context :=
  { c with cursor, lineText := line.text, lineOffset := line.offset }

/-- The part of the line before the cursor. A cursor before the line counts from its end. -/
def lineHead (c : Context) : Text :=
  if 0 ≤ c.lineCursor then c.lineText.take c.lineCursor.toNat
  else c.lineText.take ((c.lineText.length : Int) + c.lineCursor).toNat

end Context

/-- What the check of a query found. -/
structure Verdict where
  errors : List String := []
  warnings : List String := []
  deriving DecidableEq, Repr

namespace Verdict

/-- A query is valid if it has no error. -/
def isValid (v : Verdict) : Bool := v.errors.isEmpty

/-- The first error, or else the first warning. -/
def summary? (v : Verdict) : Option String := v.errors.head? <|> v.warnings.head?

end Verdict

end Typeahead
