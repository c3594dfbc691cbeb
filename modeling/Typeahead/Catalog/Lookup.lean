import Typeahead.Catalog.Dataset
import Typeahead.Query

/-!
Lookups: which list of names a context calls for, and the key under which the list is cached. A context
calls for one list at most.
-/

namespace Typeahead

/-- A list of the catalog: a dataset and the names that narrow it down. -/
structure Lookup where
  dataset : Dataset
  scope : List Text := []
  deriving DecidableEq, Repr

/-- The key under which the names of a lookup are cached. -/
def Lookup.key (l : Lookup) (site : Text) : Text :=
  Text.joinWith ['|'] (l.dataset.name.toList :: site :: l.scope)

/-- A name that is no dataset. -/
structure UnknownDataset where
  name : Text
  deriving DecidableEq, Repr

/-- The wording for a name that is no dataset. -/
def UnknownDataset.message (e : UnknownDataset) : String :=
  "Unknown catalog dataset: " ++ e.name.toString

/-- The lookup of a dataset by its name. -/
def Lookup.named? (dataset : Text) (scope : List Text) : Except UnknownDataset Lookup :=
  match Dataset.named? dataset with
  | some dataset => .ok { dataset, scope }
  | none => .error ⟨dataset⟩

/-- A name that is there and not empty. -/
def nonempty? (name : Option Text) : Option Text := name.filter (!·.isEmpty)

/-- The dataset with the values of a facet that has one of its own. -/
def Facet.dataset? : Facet → Option Dataset
  | .service => some .services
  | .source => some .sources
  | .level => some .levels
  | .host | .env => none

/-- The lookup that a context calls for. -/
def Context.lookup? (c : Context) : Option Lookup :=
  match c.place with
  | .metricName => some { dataset := .metrics }
  | .aggregatorPrefix => none
  | .filterKey | .groupingTag =>
    (nonempty? c.metric?).map fun metric => { dataset := .tags, scope := [metric] }
  | .filterValue => do
    let metric ← nonempty? c.metric?
    let key ← nonempty? c.key?
    return { dataset := .tagValues, scope := [metric, key] }
  | .logsSearch | .facetName => if c.inQuotes then none else some { dataset := .fields }
  | .facetValue =>
    match c.facet?.bind Facet.dataset? with
    | some dataset => some { dataset }
    | none => (nonempty? c.key?).map fun key => { dataset := .fieldValues, scope := [key] }

end Typeahead
