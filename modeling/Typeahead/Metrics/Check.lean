import Typeahead.Metrics.Reading

/-!
The check of a whole metrics query. It looks at the number of braces, the name of the metric, the
entries of the filter and the tags of the grouping.
-/

namespace Typeahead.Metrics

/-- What can be wrong with a metrics query. -/
inductive Fault where
  | empty
  | unmatchedBraces (opening closing : Nat)
  | metricMissing
  | invalidMetric (name : Text)
  | unmatchedParens
  | incompleteTag (entry : Text)
  | keyMissing (entry : Text)
  | invalidKey (key : Text)
  | valueMissing (key : Text)
  | groupingForm
  | invalidGroupingTag (tag : Text)
  deriving DecidableEq, Repr

/-- The wording of a fault. -/
def Fault.message : Fault → String
  | .empty => "Query cannot be empty"
  | .unmatchedBraces opening closing =>
    s!"Unmatched braces: {opening} opening, {closing} closing"
  | .metricMissing => "Metric name is required"
  | .invalidMetric name => "Invalid metric name: " ++ name.toString
  | .unmatchedParens => "Unmatched parentheses in tag filter"
  | .incompleteTag entry => "Incomplete tag: " ++ entry.toString ++ " (missing ':value')"
  | .keyMissing entry => "Missing tag key in: " ++ entry.toString
  | .invalidKey key => "Invalid tag key: " ++ key.toString
  | .valueMissing key => "Missing tag value for: " ++ key.toString
  | .groupingForm => "Invalid grouping syntax: expected 'by \x7btag1,tag2\x7d'"
  | .invalidGroupingTag tag => "Invalid grouping tag: " ++ tag.toString

/-- A character of a metric name (ASCII only). -/
def isMetricChar (c : Char) : Bool := c.isAlphanum || c = '_' || c = '.' || c = '-'

/-- A character of a tag key (ASCII only). -/
def isKeyChar (c : Char) : Bool := isMetricChar c || c = '/' || c = '@'

/-- Whether a text is a metric name. -/
def isMetricName (t : Text) : Bool := !t.isEmpty && t.all isMetricChar

/-- Whether a text is a tag key, one sign of negation allowed before it. -/
def isTagKey : Text → Bool
  | [] => false
  | c :: rest => if c = '!' then !rest.isEmpty && rest.all isKeyChar else (c :: rest).all isKeyChar

/-- The words that make a filter a boolean expression. -/
def booleanWords : List Text := ["AND".toList, "OR".toList, "NOT".toList, "IN".toList]

/-- The pieces between the commas that no backslash precedes. -/
def splitAtCommas (previous : Char) : Text → List Text
  | [] => [[]]
  | c :: rest =>
    let pieces := splitAtCommas c rest
    if c = ',' && previous != '\\' then [] :: pieces
    else match pieces with
      | [] => [[c]]
      | piece :: more => (c :: piece) :: more

/-- The entries of a filter, stripped. -/
def filterEntries (content : Text) : List Text := (splitAtCommas ' ' content).map Text.strip

/-- The faults of a filter entry. Only the `last` entry may lack its value, and only where the whole
query ends at its colon. -/
def entryFaults (last endsAtColon : Bool) (entry : Text) : List Fault :=
  if entry.isEmpty || entry = ['*'] then []
  else match entry.cut ':' with
    | (_, none) => [.incompleteTag entry]
    | (before, some after) =>
      let key := Text.strip before
      if key.isEmpty then [.keyMissing entry]
      else
        (if isTagKey key then [] else [.invalidKey key]) ++
        (if (Text.strip after).isEmpty && !(last && endsAtColon) then [.valueMissing key] else [])

/-- The faults of the entries, the last one being treated as such. -/
def entriesFaults (endsAtColon : Bool) : List Text → List Fault
  | [] => []
  | [entry] => entryFaults true endsAtColon entry
  | entry :: more => entryFaults false endsAtColon entry ++ entriesFaults endsAtColon more

/-- The faults of the filter. -/
def filterFaults (query : Text) (s : Span) : List Fault :=
  let content := Text.strip (query.slice (s.start + 1) s.stop)
  if content.isEmpty || content = ['*'] then []
  else if content.hasWord sameExactly booleanWords then
    if content.count '(' = content.count ')' then [] else [.unmatchedParens]
  else entriesFaults (query.getLast? = some ':') (filterEntries content)

/-- What follows the word `by` between blanks, the blanks included, if it begins the text. -/
def afterBy? (t : Text) : Option Text := do
  guard (t.head?.any isBlank)
  let rest ← Text.after? sameExactly "by".toList (t.dropWhile isBlank)
  guard (rest.head?.any isBlank)
  return rest.dropWhile isBlank

/-- What follows each `by`, from left to right. -/
def groupingTails : Text → List Text
  | [] => []
  | c :: rest =>
    match afterBy? (c :: rest) with
    | some tail => tail :: groupingTails rest
    | none => groupingTails rest

/-- The text between the braces that begin a text. -/
def braced? : Text → Option Text
  | '{' :: rest => Text.runUntil (· != '}') ['}'] rest |>.map fun n => rest.take n
  | _ => none

/-- The faults of the groupings. -/
def groupingFaults (query : Text) : List Fault :=
  match groupingTails query with
  | [] => []
  | tail :: more =>
    match (tail :: more).findSome? braced? with
    | none => if tail.head? = some '{' then [] else [.groupingForm]
    | some tags =>
      (tags.splitOn ',').filterMap fun entry =>
        let tag := Text.strip entry
        if tag.isEmpty || isTagKey tag then none else some (.invalidGroupingTag tag)

/-- The faults of a query, in the order in which they are reported. -/
def faults (query : Text) : List Fault :=
  let text := Text.strip query.mask
  if text.isEmpty then [.empty]
  else
    let r := Reading.of text
    let opening := text.count '{'
    let closing := text.count '}'
    (if opening = closing then [] else [.unmatchedBraces opening closing]) ++
    (match r.metric? with
      | none => [.metricMissing]
      | some name => if isMetricName name then [] else [.invalidMetric name]) ++
    (match r.filter? with
      | none => []
      | some s => filterFaults text s) ++
    groupingFaults text

/-- The verdict on a metrics query. -/
def check (query : Text) : Verdict := { errors := (faults query).map Fault.message }

end Typeahead.Metrics
