import Typeahead.Catalog.Lookup
import Typeahead.Proofs.Suggestion.Offered
import Typeahead.Reading

/-!
The items of a context are made from the list of names that the context calls for, and from no other one.

- `source?_of_planned`: the dataset of the lookup is the one that the items are made from.
- `fitting_congr`: which items fit depends on the names of that dataset alone.
- `labelled_of_mem_fitting`: an item bears the label of one of its names, unless it is always the same.
- `suggest_planned`: the suggestions.
-/

namespace Typeahead

namespace Suggestion

/-- The dataset that the items of a context are made from. -/
def source? (c : Context) : Option Dataset :=
  match c.place with
  | .metricName => some .metrics
  | .aggregatorPrefix => none
  | .filterKey | .groupingTag => some .tags
  | .filterValue => some .tagValues
  | .logsSearch | .facetName => some .fields
  | .facetValue => some (valueSource c.facet?).2

/-- The label of an item for a name of a dataset: of a tag its key, of a field its name with a colon. -/
def labelOf : Dataset → Text → Option Text
  | .tags, tag => Text.stripped? (tag.cut ':').1
  | .fields, name => some (name ++ [':'])
  | _, name => some name

/-- The items that are made from no names, by their kinds and labels. -/
def fixedItems : List (ItemKind × Text) :=
  aggregators.map (fun (name, _) => (.aggregator, name)) ++
    Logs.Operator.all.map (fun operator => (.operator, operator.word)) ++
    ["*", "\"exact phrase\"", "-excluded"].map (fun label => (.pattern, label.toList)) ++
    levelCombinations.map (fun (label, _) => (.level, label))

/-- An item is always the same, or it bears the label of a name of the dataset. -/
def Labelled (dataset? : Option Dataset) (names : Candidates) (item : Item) : Prop :=
  (item.kind, item.label) ∈ fixedItems ∨
    ∃ dataset ∈ dataset?, ∃ name ∈ names dataset, labelOf dataset name = some item.label

variable {c : Context} {lookup : Lookup} {names names' : Candidates} {item : Item}

/-- An item that fits among proposals is one of them. -/
theorem exists_of_mem_proposals {α : Type} {sources : List α} {p : α → Proposal} {typed : Text}
    (mem : item ∈ sources.filterMap fun source => (p source).fitting? typed) :
    ∃ source ∈ sources, item.kind = (p source).kind ∧ item.label = (p source).label := by
  obtain ⟨source, among, found⟩ := List.mem_filterMap.1 mem
  obtain ⟨kind, label, -⟩ := Proposal.of_fitting? found
  exact ⟨source, among, kind, label⟩

theorem valueSource_eq (facet? : Option Facet) :
    (valueSource facet?).2 = (facet?.bind Facet.dataset?).getD .fieldValues := by
  rcases facet? with _ | _ | _ | _ | _ | _ <;> rfl

/-- A value of a facet is its own label. -/
theorem labelOf_valueSource (facet? : Option Facet) (value : Text) :
    labelOf (valueSource facet?).2 value = some value := by
  rcases facet? with _ | _ | _ | _ | _ | _ <;> rfl

theorem source?_of_planned (planned : c.lookup? = some lookup) : source? c = some lookup.dataset := by
  unfold Context.lookup? at planned
  unfold source?
  cases place : c.place with
  | metricName =>
    rw [place] at planned
    cases planned
    rfl
  | aggregatorPrefix =>
    rw [place] at planned
    cases planned
  | filterKey | groupingTag =>
    rw [place] at planned
    obtain ⟨metric, -, rfl⟩ := Option.map_eq_some_iff.1 planned
    rfl
  | filterValue =>
    rw [place] at planned
    obtain ⟨metric, -, planned⟩ := Option.bind_eq_some_iff.1 planned
    obtain ⟨key, -, planned⟩ := Option.bind_eq_some_iff.1 planned
    cases planned
    rfl
  | logsSearch | facetName =>
    simp only [place] at planned
    split at planned
    · cases planned
    · cases planned
      rfl
  | facetValue =>
    simp only [place] at planned
    rw [valueSource_eq]
    split at planned
    · next dataset own =>
      cases planned
      rw [own]
      rfl
    · next other =>
      obtain ⟨key, -, rfl⟩ := Option.map_eq_some_iff.1 planned
      rw [other]
      rfl

/-- The items that fit are the same for names that agree on their dataset. -/
theorem fitting_congr (agree : ∀ dataset ∈ source? c, names dataset = names' dataset) :
    fitting c names = fitting c names' := by
  unfold source? at agree
  unfold fitting
  cases place : c.place with
  | aggregatorPrefix => rfl
  | metricName | filterKey | filterValue | groupingTag | logsSearch | facetName =>
    rw [place] at agree
    simp only [agree _ rfl]
  | facetValue =>
    rw [place] at agree
    simp only [facetValueItems, agree _ rfl]

theorem suggest_congr (agree : ∀ dataset ∈ source? c, names dataset = names' dataset) (limit : Int) :
    suggest c names limit = suggest c names' limit := by
  rw [suggest, suggest, ranked, ranked, fitting_congr agree]

theorem fixed_of_mem_operatorItems (mem : item ∈ operatorItems c) : (item.kind, item.label) ∈ fixedItems := by
  unfold operatorItems at mem
  split at mem
  · obtain ⟨operator, -, kind, label⟩ := exists_of_mem_proposals mem
    rw [kind, label]
    cases operator <;> decide
  · cases mem

theorem fixed_of_mem_patternItems (mem : item ∈ patternItems c) : (item.kind, item.label) ∈ fixedItems := by
  obtain ⟨p, among, kind, label⟩ := exists_of_mem_proposals mem
  rw [kind, label]
  split at among <;> simp only [List.mem_cons, List.not_mem_nil, or_false] at among
  · rcases among with rfl | rfl <;> decide
  · rcases among with rfl | rfl | rfl <;> decide

/-- A key that is proposed is that of a tag. -/
theorem label_of_mem_freshKeys {tags : List Text} {key : Text} (mem : key ∈ freshKeys c tags) :
    ∃ tag ∈ tags, labelOf .tags tag = some key :=
  List.mem_filterMap.1 (List.mem_eraseDups.1 (List.mem_filter.1 mem).1)

theorem labelled_of_mem_searchItems (mem : item ∈ searchItems c (names .fields)) :
    Labelled (some .fields) names item := by
  unfold searchItems at mem
  split at mem
  · cases mem
  · rcases List.mem_append.1 mem with field | other
    · obtain ⟨name, among, -, label⟩ := exists_of_mem_proposals field
      exact .inr ⟨.fields, rfl, name, among, congrArg some label.symm⟩
    · split at other
      · cases other
      · exact .inl ((List.mem_append.1 other).elim fixed_of_mem_operatorItems fixed_of_mem_patternItems)

theorem labelled_of_mem_facetValueItems (mem : item ∈ facetValueItems c names) :
    Labelled (some (valueSource c.facet?).2) names item := by
  have valued (mem : item ∈ (names (valueSource c.facet?).2).filterMap
      fun value => (facetValueProposal c value).fitting? c.token) :
      Labelled (some (valueSource c.facet?).2) names item := by
    obtain ⟨value, among, -, label⟩ := exists_of_mem_proposals mem
    exact .inr ⟨_, rfl, value, among, (labelOf_valueSource ..).trans (congrArg some label.symm)⟩
  simp only [facetValueItems] at mem
  split at mem
  · next leveled =>
    rcases List.mem_append.1 mem with value | combination
    · exact valued value
    · obtain ⟨p, among, kind, label⟩ := exists_of_mem_proposals combination
      have level : c.facet? = some .level := of_decide_eq_true (Bool.and_eq_true_iff.1 leveled).1
      rw [Labelled, kind, label, level]
      exact .inl (List.mem_append_right _ (List.mem_map_of_mem among))
  · exact valued mem

/-- An item that fits is always the same, or it is made from a name of the dataset. -/
theorem labelled_of_mem_fitting (fits : item ∈ fitting c names) : Labelled (source? c) names item := by
  unfold fitting at fits
  unfold source?
  cases place : c.place with
  | metricName | filterValue =>
    rw [place] at fits
    obtain ⟨name, among, -, label⟩ := exists_of_mem_proposals fits
    exact .inr ⟨_, rfl, name, among, congrArg some label.symm⟩
  | aggregatorPrefix =>
    rw [place] at fits
    obtain ⟨aggregator, among, kind, label⟩ := exists_of_mem_proposals fits
    have own : aggregator ∈ aggregators := (List.mem_filter.1 among).1
    rw [Labelled, kind, label, fixedItems, List.append_assoc, List.append_assoc]
    exact .inl (List.mem_append_left _ (List.mem_map_of_mem own))
  | filterKey | groupingTag =>
    rw [place] at fits
    obtain ⟨key, among, -, label⟩ := exists_of_mem_proposals fits
    obtain ⟨tag, among, own⟩ := label_of_mem_freshKeys among
    exact .inr ⟨.tags, rfl, tag, among, own.trans (congrArg some label.symm)⟩
  | logsSearch | facetName =>
    rw [place] at fits
    exact labelled_of_mem_searchItems fits
  | facetValue =>
    rw [place] at fits
    exact labelled_of_mem_facetValueItems fits

/-- If a context calls for the names of a dataset, its suggestions depend on these names alone, and each of them bears
the label of one of these names, or is one of the items that are always the same. -/
theorem suggest_planned (planned : c.lookup? = some lookup) (names : Candidates) (limit : Int) :
    (∀ names', names lookup.dataset = names' lookup.dataset → suggest c names limit = suggest c names' limit) ∧
      ∀ item ∈ suggest c names limit, (item.kind, item.label) ∈ fixedItems ∨
        ∃ name ∈ names lookup.dataset, labelOf lookup.dataset name = some item.label := by
  have source := source?_of_planned planned
  constructor
  · intro names' agree
    apply suggest_congr
    intro dataset mem
    obtain rfl : lookup.dataset = dataset := Option.some.inj (source.symm.trans mem)
    exact agree
  · intro item offered
    rcases source ▸ labelled_of_mem_fitting (mem_fitting_of_offered offered) with fixed | ⟨dataset, mem, made⟩
    · exact .inl fixed
    · cases mem
      exact .inr made

/-- The beginning of a key: the key of two tags is offered, and no name of another dataset. -/
theorem suggest_planned_key :
    let c : Context := contextOf .metrics "cpu\x7bho".toList 6
    let tags : List Text := ["host:a".toList, "host:b".toList, "env:prod".toList]
    let names : Candidates := fun
      | .tags => tags
      | _ => ["hotel".toList]
    c.lookup? = some { dataset := .tags, scope := ["cpu".toList] } ∧
      suggest c names 20 = suggest c (.only .tags tags) 20 ∧
      (suggest c names 20).map (·.label) = ["host".toList] := by
  intro c tags names
  have planned : c.lookup? = some { dataset := .tags, scope := ["cpu".toList] } := by decide +kernel
  exact ⟨planned, (suggest_planned planned names 20).1 _ rfl, by decide +kernel⟩

end Suggestion

end Typeahead
