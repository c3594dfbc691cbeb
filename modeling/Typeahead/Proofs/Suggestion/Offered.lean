import Typeahead.Suggestion

/-!
What an offered item is: its kind, what it inserts, and that its label holds what is typed.

- `mem_fitting_of_offered`: ranking adds no item.
- `key_of_offered`, `grouping_of_offered`, `tagValue_of_offered`, `facetValue_of_offered`: the items of four places.
- `of_mem_searchItems`, `kind_of_offered`: the items of a search, and the kinds of items of every place.
-/

namespace Typeahead

/-- A label that fits holds what is typed, in any case. -/
theorem occurs_of_fits {label typed : Text} (fits : (Fit.of? label typed).isSome = true) :
    Text.occurs typed.lower label.lower = true := by
  rw [Text.occurs_iff]
  unfold Fit.of? at fits
  dsimp only at fits
  split at fits
  · next empty => exact List.isEmpty_iff.1 empty ▸ List.nil_infix
  · split at fits
    · next same => exact same ▸ List.infix_rfl
    · split at fits
      · next begins => exact (List.isPrefixOf_iff_prefix.1 begins).isInfix
      · split at fits
        · next inside => exact Text.occurs_iff.1 inside
        · cases fits

/-- The item of a proposal shows its label, and is offered if that fits. -/
theorem Proposal.of_fitting? {typed : Text} {p : Proposal} {item : Item} (h : p.fitting? typed = some item) :
    item.kind = p.kind ∧ item.label = p.label ∧ item.insert = p.insert ∧
      Text.occurs typed.lower p.label.lower = true := by
  obtain ⟨fit, found, rfl⟩ := Option.map_eq_some_iff.1 h
  exact ⟨rfl, rfl, rfl, occurs_of_fits (by rw [found]; rfl)⟩

namespace Suggestion

theorem distinct_sublist (seen : List Text) (items : List Item) : (distinct seen items).Sublist items := by
  induction items generalizing seen with
  | nil => exact List.Sublist.refl _
  | cons item rest ih =>
    rw [distinct]
    split
    · exact (ih seen).cons item
    · exact (ih _).cons_cons item

variable {c : Context} {names : Candidates} {limit : Int} {item : Item}

/-- What is offered is one of the items that fit. -/
theorem mem_fitting_of_offered (offered : item ∈ suggest c names limit) : item ∈ fitting c names :=
  List.mem_mergeSort.1 ((distinct_sublist [] _).subset (List.mem_of_mem_take offered))

/-- At a key of a filter a key is offered, with its colon. -/
theorem key_of_offered (offered : item ∈ suggest c names limit) (place : c.place = .filterKey) :
    item.kind = .filterKey ∧ item.insert = item.label ++ [':'] ∧
      Text.occurs (Text.trimLeft (fun x => x = '!' || x = '-') c.token).lower item.label.lower = true := by
  have fits := mem_fitting_of_offered offered
  simp only [fitting, place, keyItems] at fits
  obtain ⟨key, -, found⟩ := List.mem_filterMap.1 fits
  obtain ⟨kind, label, insert, holds⟩ := Proposal.of_fitting? found
  exact ⟨kind, label ▸ insert, label ▸ holds⟩

/-- At a tag of a grouping a tag is offered that holds what is typed. -/
theorem grouping_of_offered (offered : item ∈ suggest c names limit) (place : c.place = .groupingTag) :
    item.kind = .groupingTag ∧ item.insert = item.label ∧ Text.occurs c.token.lower item.label.lower = true := by
  have fits := mem_fitting_of_offered offered
  simp only [fitting, place, groupingItems] at fits
  obtain ⟨key, -, found⟩ := List.mem_filterMap.1 fits
  obtain ⟨kind, label, insert, holds⟩ := Proposal.of_fitting? found
  exact ⟨kind, insert.trans label.symm, label ▸ holds⟩

/-- At a value of a filter one of the values is offered, and inserted with its backslashes. -/
theorem tagValue_of_offered (offered : item ∈ suggest c names limit) (place : c.place = .filterValue) :
    item.kind = .filterValue ∧ item.label ∈ names .tagValues ∧ item.insert = escapeTagValue item.label := by
  have fits := mem_fitting_of_offered offered
  simp only [fitting, place, valueItems] at fits
  obtain ⟨value, among, found⟩ := List.mem_filterMap.1 fits
  obtain ⟨kind, label, insert, -⟩ := Proposal.of_fitting? found
  exact ⟨kind, label ▸ among, label ▸ insert⟩

/-- A value of a facet, as it may be offered. -/
def facetValueProposal (c : Context) (value : Text) : Proposal :=
  ⟨(valueSource c.facet?).1, value, quoteFacetValue value, some (keyText c.key? ++ ": " ++ value.toString), .usual⟩

/-- A group of levels, as it may be offered. -/
def combinationProposal (c : Context) (p : Text × String) : Proposal :=
  ⟨(valueSource c.facet?).1, p.1, p.1, some p.2, .extra⟩

/-- At a value of a facet the values that fit are offered. -/
theorem mem_facetValueItems {value : Text} (among : value ∈ names (valueSource c.facet?).2)
    (found : (facetValueProposal c value).fitting? c.token = some item) : item ∈ facetValueItems c names := by
  have valued : item ∈ (names (valueSource c.facet?).2).filterMap
      fun value => (facetValueProposal c value).fitting? c.token := List.mem_filterMap.2 ⟨value, among, found⟩
  simp only [facetValueItems]
  split
  · exact List.mem_append_left _ valued
  · exact valued

/-- At a value of a facet nothing is offered but values and groups of levels. -/
theorem of_mem_facetValueItems (mem : item ∈ facetValueItems c names) :
    (∃ value ∈ names (valueSource c.facet?).2, (facetValueProposal c value).fitting? c.token = some item) ∨
      ∃ p ∈ levelCombinations, (combinationProposal c p).fitting? c.token = some item := by
  simp only [facetValueItems] at mem
  split at mem
  · exact (List.mem_append.1 mem).imp List.mem_filterMap.1 List.mem_filterMap.1
  · exact .inl (List.mem_filterMap.1 mem)

/-- At a value of a facet a value is offered, which is put in quotes where that is needed, or a group of
levels. -/
theorem facetValue_of_offered (offered : item ∈ suggest c names limit) (place : c.place = .facetValue) :
    item.kind = (valueSource c.facet?).1 ∧ (item.insert = quoteFacetValue item.label ∨
      item.insert = item.label ∧ item.label ∈ levelCombinations.map (·.1)) := by
  have fits := mem_fitting_of_offered offered
  simp only [fitting, place] at fits
  rcases of_mem_facetValueItems fits with ⟨value, -, found⟩ | ⟨p, among, found⟩
  · obtain ⟨same, label, insert, -⟩ := Proposal.of_fitting? found
    exact ⟨same, .inl (label ▸ insert)⟩
  · obtain ⟨same, label, insert, -⟩ := Proposal.of_fitting? found
    exact ⟨same, .inr ⟨insert.trans label.symm, label ▸ List.mem_map_of_mem among⟩⟩

/-- The name of a facet, as it may be offered. -/
def facetProposal (name : Text) : Proposal :=
  ⟨.facet, name ++ [':'], name ++ [':'], some (Logs.facetDescription name), .usual⟩

/-- An operator, as it may be offered. -/
def operatorProposal (operator : Logs.Operator) : Proposal :=
  ⟨.operator, operator.word, operator.word, some operator.description, .usual⟩

/-- At a search term facets, operators and patterns are offered; operators and patterns not behind an operator. -/
theorem of_mem_searchItems {fields : List Text} (mem : item ∈ searchItems c fields) : c.inQuotes = false ∧
    ((∃ name ∈ fields, (facetProposal name).fitting? c.token = some item) ∨
      c.afterOperator = false ∧ ((∃ operator, (operatorProposal operator).fitting? c.token = some item) ∨
        ∃ p : Proposal, p.kind = .pattern ∧ p.tier = .usual ∧ p.fitting? c.token = some item)) := by
  unfold searchItems at mem
  split at mem
  · cases mem
  · next outside =>
    refine ⟨by simpa using outside, ?_⟩
    rcases List.mem_append.1 mem with facet | other
    · exact .inl (List.mem_filterMap.1 facet)
    · split at other
      · cases other
      · next alone =>
        refine .inr ⟨by simpa using alone, ?_⟩
        rcases List.mem_append.1 other with operator | pattern
        · unfold operatorItems at operator
          split at operator
          · obtain ⟨word, -, found⟩ := List.mem_filterMap.1 operator
            exact .inl ⟨word, found⟩
          · cases operator
        · obtain ⟨p, among, found⟩ := List.mem_filterMap.1 pattern
          refine .inr ⟨p, ?_, ?_, found⟩
          all_goals
            split at among <;> simp only [List.mem_cons, List.not_mem_nil, or_false] at among
          · rcases among with rfl | rfl <;> rfl
          · rcases among with rfl | rfl | rfl <;> rfl
          · rcases among with rfl | rfl <;> rfl
          · rcases among with rfl | rfl | rfl <;> rfl

/-- The kinds of the items that are offered at a place. -/
def kindsAt : Place → List ItemKind
  | .metricName => [.metric]
  | .aggregatorPrefix => [.aggregator]
  | .filterKey => [.filterKey]
  | .filterValue => [.filterValue]
  | .groupingTag => [.groupingTag]
  | .logsSearch | .facetName => [.facet, .operator, .pattern]
  | .facetValue => [.service, .source, .level, .facetValue]

theorem kind_of_offered (offered : item ∈ suggest c names limit) : item.kind ∈ kindsAt c.place := by
  have fits := mem_fitting_of_offered offered
  cases place : c.place with
  | metricName | aggregatorPrefix =>
    simp only [fitting, place] at fits
    obtain ⟨name, -, found⟩ := List.mem_filterMap.1 fits
    simp [kindsAt, (Proposal.of_fitting? found).1]
  | filterKey => simp [kindsAt, (key_of_offered offered place).1]
  | filterValue => simp [kindsAt, (tagValue_of_offered offered place).1]
  | groupingTag => simp [kindsAt, (grouping_of_offered offered place).1]
  | logsSearch | facetName =>
    simp only [fitting, place] at fits
    obtain ⟨-, ⟨name, -, found⟩ | ⟨-, ⟨operator, found⟩ | ⟨p, kind, -, found⟩⟩⟩ := of_mem_searchItems fits
    · simp [kindsAt, (Proposal.of_fitting? found).1, facetProposal]
    · simp [kindsAt, (Proposal.of_fitting? found).1, operatorProposal]
    · simp [kindsAt, (Proposal.of_fitting? found).1, kind]
  | facetValue =>
    rw [(facetValue_of_offered offered place).1]
    unfold valueSource
    split <;> simp [kindsAt]

/-- Facets, operators and patterns are offered at search terms and names of facets. -/
theorem search_of_offered (offered : item ∈ suggest c names limit) (kind : item.kind ∈ kindsAt .logsSearch) :
    (c.place = .logsSearch ∨ c.place = .facetName) ∧ item ∈ searchItems c (names .fields) := by
  have own := kind_of_offered offered
  have fits := mem_fitting_of_offered offered
  have other : item.kind = .facet ∨ item.kind = .operator ∨ item.kind = .pattern := by simpa [kindsAt] using kind
  cases place : c.place with
  | logsSearch =>
    simp only [fitting, place] at fits
    exact ⟨.inl rfl, fits⟩
  | facetName =>
    simp only [fitting, place] at fits
    exact ⟨.inr rfl, fits⟩
  | _ =>
    rw [place] at own
    rcases other with kind | kind | kind <;> simp [kindsAt, kind] at own

/-- The name of a facet is offered that holds what is typed, and inserted with its colon. -/
theorem facet_of_offered (offered : item ∈ suggest c names limit) (kind : item.kind = .facet) :
    c.inQuotes = false ∧ ∃ name ∈ names .fields, item.insert = name ++ [':'] ∧
      Text.occurs c.token.lower (Text.lower (name ++ [':'])) = true := by
  obtain ⟨-, mem⟩ := search_of_offered offered (by simp [kindsAt, kind])
  obtain ⟨outside, ⟨name, among, found⟩ | ⟨-, ⟨operator, found⟩ | ⟨p, pattern, -, found⟩⟩⟩ := of_mem_searchItems mem
  · obtain ⟨-, -, insert, holds⟩ := Proposal.of_fitting? found
    exact ⟨outside, name, among, insert, holds⟩
  · rw [(Proposal.of_fitting? found).1] at kind
    cases kind
  · rw [(Proposal.of_fitting? found).1, pattern] at kind
    cases kind

/-- An operator is inserted as it is written. -/
theorem operator_of_offered (offered : item ∈ suggest c names limit) (kind : item.kind = .operator) :
    ∃ operator : Logs.Operator, item.insert = operator.word := by
  obtain ⟨-, mem⟩ := search_of_offered offered (by simp [kindsAt, kind])
  obtain ⟨-, ⟨name, -, found⟩ | ⟨-, ⟨operator, found⟩ | ⟨p, pattern, -, found⟩⟩⟩ := of_mem_searchItems mem
  · rw [(Proposal.of_fitting? found).1] at kind
    cases kind
  · obtain ⟨-, -, insert, -⟩ := Proposal.of_fitting? found
    exact ⟨operator, insert⟩
  · rw [(Proposal.of_fitting? found).1, pattern] at kind
    cases kind

end Suggestion

end Typeahead
