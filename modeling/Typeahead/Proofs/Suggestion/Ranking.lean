import Typeahead.Proofs.Suggestion.Ranked

/-!
The order of the suggestions, and which of them are left out.

- `stablySorted_mergeSort`, `distinct_eq_eraseDupsBy`: the items are sorted, and the first of each label is kept.
- `exists_proposal`: an item that fits is compared with one text, and sorts by how well its label matches it.
- `suggest_ranking`: all that is true of a list of suggestions.
-/

namespace Typeahead

/-- A label that is what is typed has the best fit, unless nothing is typed. -/
theorem Fit.eq_equal {label typed : Text} {fit : Fit} (found : of? label typed = some fit)
    (same : label.lower = typed.lower) (filled : typed.lower ≠ []) : fit = .equal := by
  unfold of? at found
  rw [if_neg (by simpa using filled), if_pos same] at found
  exact (Option.some.inj found).symm

/-- Where nothing is typed all labels fit as if they began with it. -/
theorem Fit.eq_beginning {label typed : Text} {fit : Fit} (found : of? label typed = some fit)
    (empty : typed.lower = []) : fit = .beginning := by
  unfold of? at found
  rw [if_pos (by simpa using empty)] at found
  exact (Option.some.inj found).symm

/-- A label that fits not only inside begins with what is typed. -/
theorem Fit.prefix_of_ne_inside {label typed : Text} {fit : Fit} (found : of? label typed = some fit)
    (outside : fit ≠ .inside) : typed.lower <+: label.lower := by
  unfold of? at found
  dsimp only at found
  split at found
  · next empty =>
    rw [List.isEmpty_iff.1 empty]
    exact List.nil_prefix
  · split at found
    · next same => exact same ▸ List.prefix_rfl
    · split at found
      · next begins => exact List.isPrefixOf_iff_prefix.1 begins
      · split at found
        · exact absurd (Option.some.inj found).symm outside
        · cases found

namespace Suggestion

/-- The items in the order of their sort keys, those of one key in the order in which they came. -/
structure StablySorted (items sorted : List Item) : Prop where
  perm : sorted.Perm items
  ordered : sorted.Pairwise fun a b => a.le b = true
  stable : ∀ key, sorted.filter (·.sortKey = key) = items.filter (·.sortKey = key)

theorem stablySorted_mergeSort (items : List Item) : StablySorted items (items.mergeSort Item.le) := by
  have perm := List.mergeSort_perm items Item.le
  constructor
  · exact perm
  · exact pairwise_mergeSort items
  · intro key
    have alike : (items.filter (·.sortKey = key)).Pairwise fun a b => a.le b = true := by
      apply List.Pairwise.imp_of_mem (R := fun _ _ => True)
      · intro a b mem mem' _
        have own : a.sortKey = key := by simpa using (List.mem_filter.1 mem).2
        have own' : b.sortKey = key := by simpa using (List.mem_filter.1 mem').2
        rw [Item.le, own, own']
        exact Text.le_refl key
      · exact List.pairwise_of_forall fun _ _ => trivial
    have kept : (items.filter (·.sortKey = key)).Sublist (items.mergeSort Item.le) :=
      @List.sublist_mergeSort _ Item.le _ (fun _ _ _ => Text.le_trans) (fun _ _ => Text.le_total _ _) _ alike
        List.filter_sublist
    have within := kept.filter (·.sortKey = key)
    rw [List.filter_filter] at within
    simp only [Bool.and_self] at within
    exact (within.eq_of_length (perm.filter _).length_eq.symm).symm

/-- Of the items with one label the first is kept. -/
theorem distinct_eq_eraseDupsBy (seen : List Text) (items : List Item) : distinct seen items =
    (items.filter fun item => !seen.contains item.label).eraseDupsBy fun a b => a.label == b.label := by
  induction items generalizing seen with
  | nil => rfl
  | cons first items ih =>
    rw [distinct]
    by_cases taken : seen.contains first.label = true
    · rw [if_pos taken, List.filter_cons_of_neg (by simpa using taken)]
      exact ih seen
    · rw [if_neg taken, List.filter_cons_of_pos (by simpa using taken), List.eraseDupsBy_cons, ih, List.filter_filter]
      congr 3
      funext item
      by_cases same : item.label = first.label <;> simp [same]

/-- The text with which the labels of the items are compared. -/
def typedIn (c : Context) : Text :=
  match c.place with
  | .aggregatorPrefix => Text.strip c.token
  | .filterKey => Text.trimLeft (fun x => x = '!' || x = '-') c.token
  | .filterValue => Text.trim (· = '"') c.token
  | _ => c.token

/-- An item of a proposal that fits. Only groups of levels are not in the usual tier, and they have letters. -/
structure Proposed (typed : Text) (p : Proposal) (fit : Fit) (item : Item) : Prop where
  found : Fit.of? p.label typed = some fit
  shown : p.item fit = item
  tier : p.tier = .usual ∨ p.label.lower ≠ []

variable {c : Context} {names : Candidates} {limit : Int} {item : Item}

theorem exists_proposed {typed : Text} {p : Proposal} (found : p.fitting? typed = some item)
    (tier : p.tier = .usual ∨ p.label.lower ≠ []) : ∃ p fit, Proposed typed p fit item := by
  obtain ⟨fit, fits, shown⟩ := Option.map_eq_some_iff.1 found
  exact ⟨p, fit, fits, shown, tier⟩

theorem combination_ne_nil {p : Text × String} (mem : p ∈ levelCombinations) : p.1.lower ≠ [] := by
  have all : levelCombinations.all (fun p => !p.1.lower.isEmpty) = true := by decide +kernel
  simpa using List.all_eq_true.1 all p mem

theorem proposed_of_mem_searchItems {fields : List Text} (mem : item ∈ searchItems c fields) :
    ∃ p fit, Proposed c.token p fit item := by
  obtain ⟨-, ⟨name, -, found⟩ | ⟨-, ⟨operator, found⟩ | ⟨p, -, usual, found⟩⟩⟩ := of_mem_searchItems mem
  · exact exists_proposed found (.inl rfl)
  · exact exists_proposed found (.inl rfl)
  · exact exists_proposed found (.inl usual)

/-- Every item that fits is proposed for what is typed. -/
theorem exists_proposal (fits : item ∈ fitting c names) : ∃ p fit, Proposed (typedIn c) p fit item := by
  unfold fitting at fits
  unfold typedIn
  cases place : c.place with
  | metricName | filterKey | filterValue | groupingTag =>
    rw [place] at fits
    obtain ⟨name, -, found⟩ := List.mem_filterMap.1 fits
    exact exists_proposed found (.inl rfl)
  | aggregatorPrefix =>
    rw [place] at fits
    obtain ⟨name, -, found⟩ := List.mem_filterMap.1 fits
    exact exists_proposed found (.inl rfl)
  | logsSearch | facetName =>
    rw [place] at fits
    exact proposed_of_mem_searchItems fits
  | facetValue =>
    rw [place] at fits
    rcases of_mem_facetValueItems fits with ⟨value, -, found⟩ | ⟨p, among, found⟩
    · exact exists_proposed found (.inl rfl)
    · exact exists_proposed found (.inr (combination_ne_nil among))

/-- The first item matches what is typed at least as well: the label is that text itself, or begins with it, if so
does that of the second one. -/
def MatchesAsWell (typed : Text) (a b : Item) : Prop :=
  (b.label.lower = typed.lower → a.label.lower = typed.lower) ∧
    (typed.lower <+: b.label.lower → typed.lower <+: a.label.lower)

/-- The order of the sort keys is that of the matches. -/
theorem matchesAsWell_of_le {typed : Text} {p p' : Proposal} {fit fit' : Fit} {a b : Item}
    (first : Proposed typed p fit a) (second : Proposed typed p' fit' b) (le : a.le b = true) :
    MatchesAsWell typed a b := by
  obtain ⟨found, rfl, -⟩ := first
  obtain ⟨found', rfl, tier'⟩ := second
  have order := Item.le_cases le
  constructor
  · intro same
    change p'.label.lower = typed.lower at same
    change p.label.lower = typed.lower
    by_cases empty : typed.lower = []
    · -- nothing is typed, so the label itself is empty, and no other one sorts in front of it
      obtain rfl := Fit.eq_beginning found empty
      obtain rfl := Fit.eq_beginning found' empty
      have usual : p'.tier = .usual := tier'.resolve_right fun filled => filled (same.trans empty)
      rcases order with less | ⟨-, less | ⟨-, label⟩⟩
      · exact absurd less (by decide)
      · rw [usual] at less
        cases tier : p.tier <;> rw [tier] at less <;> exact absurd less (by decide)
      · rw [same, empty] at label
        rw [empty]
        cases shown : p.label.lower with
        | nil => rfl
        | cons d rest => simp [shown, Text.le] at label
    · obtain rfl := Fit.eq_equal found' same empty
      apply Fit.lower_eq_of_equal
      rcases order with less | ⟨rfl, -⟩
      · cases fit <;> exact absurd less (by decide)
      · exact found
  · intro begins
    have outside : fit' ≠ .inside := by
      rintro rfl
      exact Fit.ne_inside begins found'
    apply Fit.prefix_of_ne_inside found
    rintro rfl
    rcases order with less | ⟨rfl, -⟩
    · cases fit' <;> exact absurd less (by decide)
    · exact outside rfl

/-- No key that stands elsewhere in the query is proposed again. -/
theorem label_not_mem_usedKeys (fits : item ∈ fitting c names)
    (listed : c.place = .filterKey ∨ c.place = .groupingTag) : item.label ∉ c.usedKeys := by
  have fresh {key : Text} (among : key ∈ freshKeys c (names .tags)) : key ∉ c.usedKeys := by
    simpa using (List.mem_filter.1 among).2
  unfold fitting at fits
  rcases listed with place | place
  · rw [place] at fits
    obtain ⟨key, among, found⟩ := List.mem_filterMap.1 fits
    rw [(Proposal.of_fitting? found).2.1]
    exact fresh among
  · rw [place] at fits
    obtain ⟨key, among, found⟩ := List.mem_filterMap.1 fits
    rw [(Proposal.of_fitting? found).2.1]
    exact fresh among

/-- At a metric the labels are the metrics that hold what is typed, in any case. -/
theorem mem_labels_metric_iff (place : c.place = .metricName) {label : Text} :
    label ∈ (fitting c names).map (·.label) ↔
      label ∈ names .metrics ∧ Text.occurs c.token.lower label.lower = true := by
  have items : fitting c names = metricItems c (names .metrics) := by simp only [fitting, place]
  rw [items, List.mem_map]
  constructor
  · rintro ⟨item, mem, rfl⟩
    obtain ⟨name, among, found⟩ := List.mem_filterMap.1 mem
    obtain ⟨-, label, -, holds⟩ := Proposal.of_fitting? found
    exact label ▸ ⟨among, holds⟩
  · rintro ⟨among, holds⟩
    obtain ⟨fit, found⟩ := Option.isSome_iff_exists.1 (isSome_of?_iff.2 holds)
    let own : Proposal := ⟨.metric, label, label, none, .usual⟩
    have shown : own.fitting? c.token = some (own.item fit) := by simp [Proposal.fitting?, found, own]
    exact ⟨own.item fit, List.mem_filterMap.2 ⟨label, among, shown⟩, rfl⟩

/-- What is true of the suggestions in a context of which at most `limit` are asked for. -/
structure Ranking (c : Context) (names : Candidates) (limit : Int) (offered : List Item) : Prop where
  /-- All items that fit are sorted, and of those with one label the first is kept. -/
  ranks : ∃ sorted, StablySorted (fitting c names) sorted ∧
    ranked c names = sorted.eraseDupsBy fun a b => a.label == b.label
  /-- The first of them are offered. -/
  first : offered = (ranked c names).take (min limit.toNat (ranked c names).length)
  labels : (offered.map (·.label)).Nodup
  matching : offered.Pairwise (MatchesAsWell (typedIn c))
  /-- Asking for more only adds items at the end. -/
  goesOn : ∀ more, limit ≤ more → offered <+: suggest c names more
  /-- An item that fits is left out for one with its label that is not worse, or because the limit is reached by
  items that are not worse. -/
  leftOut : ∀ item ∈ fitting c names, (∃ kept ∈ offered, kept.label = item.label ∧ kept.le item = true) ∨
    (offered.length : Int) = limit ∧ ∀ kept ∈ offered, kept.le item = true
  unused : c.place = .filterKey ∨ c.place = .groupingTag → ∀ item ∈ offered, item.label ∉ c.usedKeys
  metrics : c.place = .metricName → ((ranked c names).length : Int) ≤ limit → ∀ label,
    (∃ item ∈ offered, item.label = label) ↔
      label ∈ names .metrics ∧ Text.occurs c.token.lower label.lower = true

theorem pairwise_ranked (c : Context) (names : Candidates) : (ranked c names).Pairwise fun a b => a.le b = true :=
  (pairwise_mergeSort _).sublist (distinct_sublist _ _)

/-- An item that fits is offered under its label, or the limit is reached by items that are not worse. -/
theorem offered_or_full (fits : item ∈ fitting c names) (limit : Nat) :
    (∃ kept ∈ (ranked c names).take limit, kept.label = item.label ∧ kept.le item = true) ∨
      ((ranked c names).take limit).length = limit ∧ ∀ kept ∈ (ranked c names).take limit, kept.le item = true := by
  obtain ⟨front, kept, back, same, label, le, before⟩ := exists_ranked fits
  by_cases within : front.length < limit
  · left
    refine ⟨kept, ?_, label, le⟩
    rw [same]
    exact List.mem_take_iff_getElem.2 ⟨front.length, by simp; omega, by simp⟩
  · right
    have cut : (ranked c names).take limit = front.take limit := by
      rw [same, List.take_append_of_le_length (by omega)]
    rw [cut]
    constructor
    · rw [List.length_take]
      omega
    · intro kept mem
      exact (before kept (List.mem_of_mem_take mem)).2

/-- The suggestions are the best of the items that fit, in the order of how well they match what is typed. -/
theorem suggest_ranking (c : Context) (names : Candidates) {limit : Int} (room : 1 ≤ limit) :
    Ranking c names limit (suggest c names limit) := by
  have cut : suggest c names limit = (ranked c names).take limit.toNat := by
    rw [suggest, Nat.max_eq_right (by omega)]
  have part : (suggest c names limit).Sublist (ranked c names) := cut ▸ List.take_sublist _ _
  constructor
  case ranks =>
    refine ⟨_, stablySorted_mergeSort _, ?_⟩
    rw [ranked, distinct_eq_eraseDupsBy, List.filter_eq_self.2 (by simp)]
  case first =>
    rw [cut, List.take_eq_take_min]
  case labels =>
    exact (nodup_distinct _ []).1.sublist (part.map _)
  case matching =>
    apply List.Pairwise.imp_of_mem _ ((pairwise_ranked c names).sublist part)
    intro a b mem mem' le
    obtain ⟨p, fit, first⟩ := exists_proposal (mem_fitting_of_offered mem)
    obtain ⟨p', fit', second⟩ := exists_proposal (mem_fitting_of_offered mem')
    exact matchesAsWell_of_le first second le
  case goesOn =>
    intro more le
    rw [suggest, suggest]
    exact List.take_prefix_take_left (by omega)
  case leftOut =>
    intro item fits
    rw [cut]
    rcases offered_or_full fits limit.toNat with offered | ⟨full, better⟩
    · exact .inl offered
    · exact .inr ⟨by omega, better⟩
  case unused =>
    intro listed item offered
    exact label_not_mem_usedKeys (mem_fitting_of_offered offered) listed
  case metrics =>
    intro place enough label
    rw [← mem_labels_metric_iff place, List.mem_map]
    constructor
    · rintro ⟨item, offered, rfl⟩
      exact ⟨item, mem_fitting_of_offered offered, rfl⟩
    · rintro ⟨item, fits, rfl⟩
      obtain ⟨front, kept, back, same, label, -, -⟩ := exists_ranked fits
      refine ⟨kept, ?_, label⟩
      rw [cut, List.take_of_length_le (by omega), same]
      simp

/-- Two of three facets that hold what is typed; one of them comes twice. -/
theorem suggest_ranking_search : (1 : Int) ≤ 2 ∧
    Ranking { place := .logsSearch, token := "o".toList, cursor := 1, lineText := "o".toList }
      (fun _ => ["host".toList, "o".toList, "pod".toList, "o".toList]) 2
      (suggest { place := .logsSearch, token := "o".toList, cursor := 1, lineText := "o".toList }
        (fun _ => ["host".toList, "o".toList, "pod".toList, "o".toList]) 2) :=
  ⟨by decide, suggest_ranking _ _ (by decide)⟩

end Suggestion

end Typeahead
