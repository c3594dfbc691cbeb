import Typeahead.Text

/-!
Items that can be offered, and the categories under which a menu shows them.
-/

namespace Typeahead

/-- What an item completes. -/
inductive ItemKind where
  | aggregator
  | metric
  | filterKey
  | groupingTag
  | filterValue
  | service
  | source
  | level
  | facet
  | facetValue
  | operator
  | pattern
  deriving DecidableEq, Repr

/-- The categories of a menu, in the order in which they are shown. -/
inductive Category where
  | aggregators
  | metrics
  | services
  | sources
  | levels
  | tags
  | facets
  | tagValues
  | facetValues
  | operators
  | patterns
  deriving DecidableEq, Repr

namespace Category

/-- All categories in the order in which they are shown. -/
def all : List Category :=
  [.aggregators, .metrics, .services, .sources, .levels, .tags, .facets, .tagValues, .facetValues,
    .operators, .patterns]

/-- The name of a category. -/
def name : Category → String
  | .aggregators => "aggregators"
  | .metrics => "metrics"
  | .services => "services"
  | .sources => "sources"
  | .levels => "levels"
  | .tags => "tags"
  | .facets => "facets"
  | .tagValues => "tag_values"
  | .facetValues => "facet_values"
  | .operators => "operators"
  | .patterns => "patterns"

/-- The heading of a category. -/
def heading : Category → String
  | .aggregators => "Aggregators"
  | .metrics => "Metrics"
  | .services => "Services"
  | .sources => "Sources"
  | .levels => "Levels"
  | .tags => "Tags"
  | .facets => "Facets"
  | .tagValues => "Tag Values"
  | .facetValues => "Facet Values"
  | .operators => "Operators"
  | .patterns => "Patterns"

end Category

namespace ItemKind

/-- All kinds. -/
def all : List ItemKind :=
  [.aggregator, .metric, .filterKey, .groupingTag, .filterValue, .service, .source, .level, .facet,
    .facetValue, .operator, .pattern]

/-- The name of a kind. -/
def name : ItemKind → String
  | .aggregator => "aggregator"
  | .metric => "metric"
  | .filterKey => "filter_tag_key"
  | .groupingTag => "grouping_tag"
  | .filterValue => "filter_tag_value"
  | .service => "logs_service"
  | .source => "logs_source"
  | .level => "logs_level"
  | .facet => "logs_facet"
  | .facetValue => "logs_facet_value"
  | .operator => "logs_operator"
  | .pattern => "logs_pattern"

/-- The kind of a name. -/
def named? (name : Text) : Option ItemKind := all.find? fun k => k.name.toList = name

/-- The category that shows items of a kind. -/
def category : ItemKind → Category
  | .aggregator => .aggregators
  | .metric => .metrics
  | .filterKey | .groupingTag => .tags
  | .filterValue => .tagValues
  | .service => .services
  | .source => .sources
  | .level => .levels
  | .facet => .facets
  | .facetValue => .facetValues
  | .operator => .operators
  | .pattern => .patterns

end ItemKind

/-- An item: what the menu shows, what is inserted, and by which key it is sorted. -/
structure Item where
  label : Text
  kind : ItemKind
  insert : Text
  sortKey : Text := []
  detail? : Option String := none
  deriving DecidableEq, Repr

namespace Item

/-- Whether an item may stand before another one. -/
def le (a b : Item) : Bool := Text.le a.sortKey b.sortKey

end Item

/-- The items of a category as a menu shows them. -/
structure Group where
  category : Category
  items : List Item
  deriving DecidableEq, Repr

/-- The items under their categories. Empty categories are left out, and within a category items of
equal sort key keep their order. -/
def group (items : List Item) : List Group :=
  (Category.all.map fun c =>
    Group.mk c ((items.filter fun item => item.kind.category = c).mergeSort Item.le)).filter
    fun g => !g.items.isEmpty

/-- The items in the order in which a menu shows them. -/
def ungroup (groups : List Group) : List Item := groups.flatMap (·.items)

end Typeahead
