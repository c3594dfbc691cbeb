import Typeahead.Catalog.Dataset
import Typeahead.Logs.Vocabulary
import Typeahead.Query
import Typeahead.Suggestion.Item
import Typeahead.Suggestion.Value

/-!
Suggestions: the items that fit what is typed at the cursor. An item fits if its label contains what is
typed, in any case. Labels equal to it come first, then those that begin with it, then the others; among
equals the label decides. Of items with one label the first is kept.
-/

namespace Typeahead

/-- How well a label fits what is typed. -/
inductive Fit where
  | equal
  | beginning
  | inside
  deriving DecidableEq, Repr

namespace Fit

/-- The fit of a label; none if what is typed does not stand in it. -/
def of? (label typed : Text) : Option Fit :=
  let label := label.lower
  let typed := typed.lower
  if typed.isEmpty then some .beginning
  else if label = typed then some .equal
  else if typed.isPrefixOf label then some .beginning
  else if Text.occurs typed label then some .inside
  else none

/-- The digit by which a fit sorts. -/
def digit : Fit → Char
  | .equal => '0'
  | .beginning => '1'
  | .inside => '2'

end Fit

/-- Two tiers of items: those of a higher tier come later among items that fit equally well. -/
inductive Tier where
  | usual
  | extra
  deriving DecidableEq, Repr

/-- The digit by which a tier sorts. -/
def Tier.digit : Tier → Char
  | .usual => '0'
  | .extra => '1'

/-- An item that may be offered, before it is known whether it fits. -/
structure Proposal where
  kind : ItemKind
  label : Text
  insert : Text
  detail? : Option String
  tier : Tier := .usual

namespace Proposal

/-- The item of a proposal with a given fit. -/
def item (p : Proposal) (fit : Fit) : Item where
  label := p.label
  kind := p.kind
  insert := p.insert
  sortKey := fit.digit :: p.tier.digit :: '_' :: p.label.lower
  detail? := p.detail?

/-- The item of a proposal, if it fits what is typed. -/
def fitting? (typed : Text) (p : Proposal) : Option Item := (Fit.of? p.label typed).map p.item

end Proposal

namespace Suggestion

/-- The aggregators of metrics queries. -/
def aggregators : List (Text × String) := [
  ("avg".toList, "Average of all values"),
  ("sum".toList, "Sum of all values"),
  ("min".toList, "Minimum value"),
  ("max".toList, "Maximum value")]

/-- Groups of log levels that are offered ready made. -/
def levelCombinations : List (Text × String) := [
  ("(ERROR OR WARN)".toList, "Error or warning logs"),
  ("(ERROR OR WARN OR FATAL)".toList, "Error, warning, or fatal logs"),
  ("(INFO OR DEBUG)".toList, "Info or debug logs")]

/-- A key in a description; a missing one is spelled out. -/
def keyText (key? : Option Text) : String := (key?.map Text.toString).getD "None"

/-- The items for a metric. -/
def metricItems (c : Context) (names : List Text) : List Item :=
  names.filterMap fun name => Proposal.fitting? c.token ⟨.metric, name, name, none, .usual⟩

/-- The items for an aggregator; an aggregator must begin with what is typed. -/
def aggregatorItems (c : Context) : List Item :=
  let typed := Text.strip c.token
  (aggregators.filter fun (name, _) => Fit.of? name typed != some .inside).filterMap
    fun (name, detail) => Proposal.fitting? typed ⟨.aggregator, name, name, some detail, .usual⟩

/-- The keys of tags that the query does not have yet. -/
def freshKeys (c : Context) (tags : List Text) : List Text :=
  (tagKeys tags).filter fun key => !c.usedKeys.contains key

/-- The items for a key of a filter. -/
def keyItems (c : Context) (tags : List Text) : List Item :=
  let typed := Text.trimLeft (fun x => x = '!' || x = '-') c.token
  (freshKeys c tags).filterMap fun key =>
    Proposal.fitting? typed ⟨.filterKey, key, key ++ [':'], some "Tag key", .usual⟩

/-- The items for a tag of a grouping. -/
def groupingItems (c : Context) (tags : List Text) : List Item :=
  (freshKeys c tags).filterMap fun key =>
    Proposal.fitting? c.token ⟨.groupingTag, key, key, some "Group by tag", .usual⟩

/-- The items for a value of a filter. -/
def valueItems (c : Context) (values : List Text) : List Item :=
  let typed := Text.trim (· = '"') c.token
  values.filterMap fun value =>
    Proposal.fitting? typed
      ⟨.filterValue, value, escapeTagValue value, some ("Value for tag " ++ keyText c.key?), .usual⟩

/-- The items for the name of a facet. -/
def facetItems (c : Context) (names : List Text) : List Item :=
  names.filterMap fun name =>
    let label := name ++ [':']
    Proposal.fitting? c.token ⟨.facet, label, label, some (Logs.facetDescription name), .usual⟩

/-- The items for an operator; there are none where only blanks stand before the cursor. -/
def operatorItems (c : Context) : List Item :=
  if c.lineHead.hasInk then
    Logs.Operator.all.filterMap fun operator =>
      Proposal.fitting? c.token
        ⟨.operator, operator.word, operator.word, some operator.description, .usual⟩
  else []

/-- The items for a pattern; a second wildcard is not offered. -/
def patternItems (c : Context) : List Item :=
  let wildcard : Proposal :=
    ⟨.pattern, ['*'], ['*'], some "Wildcard - matches any characters", .usual⟩
  let phrase : Proposal :=
    ⟨.pattern, "\"exact phrase\"".toList, ['"', '"'], some "Exact phrase search", .usual⟩
  let excluded : Proposal := ⟨.pattern, "-excluded".toList, ['-'], some "Exclude term", .usual⟩
  let proposals :=
    if c.token.contains '*' then [phrase, excluded] else [wildcard, phrase, excluded]
  proposals.filterMap (Proposal.fitting? c.token)

/-- The items for a search term. -/
def searchItems (c : Context) (fields : List Text) : List Item :=
  if c.inQuotes then []
  else facetItems c fields ++ if c.afterOperator then [] else operatorItems c ++ patternItems c

/-- The dataset that holds the values of a facet, and the kind of its items. -/
def valueSource : Option Facet → ItemKind × Dataset
  | some .service => (.service, .services)
  | some .source => (.source, .sources)
  | some .level => (.level, .levels)
  | _ => (.facetValue, .fieldValues)

/-- The items for a value of a facet. -/
def facetValueItems (c : Context) (names : Candidates) : List Item :=
  let (kind, dataset) := valueSource c.facet?
  let values := (names dataset).filterMap fun value =>
    Proposal.fitting? c.token
      ⟨kind, value, quoteFacetValue value, some (keyText c.key? ++ ": " ++ value.toString), .usual⟩
  if c.facet? = some .level && !c.inGroup then
    values ++ levelCombinations.filterMap fun (label, detail) =>
      Proposal.fitting? c.token ⟨kind, label, label, some detail, .extra⟩
  else values

/-- The items that fit a context, in the order of their sources. -/
def fitting (c : Context) (names : Candidates) : List Item :=
  match c.place with
  | .metricName => metricItems c (names .metrics)
  | .aggregatorPrefix => aggregatorItems c
  | .filterKey => keyItems c (names .tags)
  | .filterValue => valueItems c (names .tagValues)
  | .groupingTag => groupingItems c (names .tags)
  | .logsSearch | .facetName => searchItems c (names .fields)
  | .facetValue => facetValueItems c names

/-- Keeps of the items with one label the first; the labels `seen` are taken. -/
def distinct (seen : List Text) : List Item → List Item
  | [] => []
  | item :: rest =>
    if seen.contains item.label then distinct seen rest
    else item :: distinct (item.label :: seen) rest

/-- The items that fit a context, the best ones first and each label once. -/
def ranked (c : Context) (names : Candidates) : List Item :=
  distinct [] ((fitting c names).mergeSort Item.le)

end Suggestion

/-- The suggestions in a context: the best items, at most `limit` of them. The limit is looked at after
an item is taken, so that the first item is offered in any case. -/
def suggest (c : Context) (names : Candidates) (limit : Int) : List Item :=
  (Suggestion.ranked c names).take (max 1 limit.toNat)

end Typeahead
