import Typeahead.Text.Blank

/-!
The datasets of the catalog, and the tags of a metric. A tag is a key, or a key and a value with a
colon between them; blanks around the parts do not count.
-/

namespace Typeahead

/-- The lists of names that the catalog keeps. -/
inductive Dataset where
  | metrics
  | tags
  | tagValues
  | services
  | sources
  | levels
  | fields
  | fieldValues
  deriving DecidableEq, Repr

/-- The name of a dataset. -/
def Dataset.name : Dataset → String
  | .metrics => "metrics"
  | .tags => "tags"
  | .tagValues => "tag_values"
  | .services => "services"
  | .sources => "sources"
  | .levels => "levels"
  | .fields => "fields"
  | .fieldValues => "field_values"

namespace Dataset

/-- All datasets. -/
def all : List Dataset :=
  [.metrics, .tags, .tagValues, .services, .sources, .levels, .fields, .fieldValues]

/-- The dataset of a name. -/
def named? (name : Text) : Option Dataset := all.find? fun d => d.name.toList = name

end Dataset

/-- The names at hand for each dataset. -/
abbrev Candidates := Dataset → List Text

/-- No names at all. -/
def Candidates.none : Candidates := fun _ => []

/-- The names of one dataset and none of the others. -/
def Candidates.only (dataset : Dataset) (names : List Text) : Candidates :=
  fun d => if d = dataset then names else []

/-- The keys of tags, each once, in the order in which they first come. -/
def tagKeys (tags : List Text) : List Text :=
  (tags.filterMap fun tag => Text.stripped? (tag.cut ':').1).eraseDups

/-- The values that tags give to a key, each once, in the order in which they first come. -/
def tagValues (tags : List Text) (key : Text) : List Text :=
  (tags.filterMap fun tag =>
    match tag.cut ':' with
    | (before, some value) => if Text.strip before = key then Text.stripped? value else none
    | (_, none) => none).eraseDups

end Typeahead
