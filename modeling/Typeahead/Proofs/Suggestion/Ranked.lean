import Mathlib.Data.List.Perm.Subperm
import Typeahead.Proofs.Suggestion.Offered

/-!
Which items are offered, when not all that fit are: the ones that are better than the others.

- `exists_ranked`: in front of an item only better ones are ranked, and each label once.
- `offered_of_fitting`: an item that fits is offered, if the labels that may come first leave room for it.
-/

namespace Typeahead

namespace Text

theorem le_trans {a b c : Text} (first : le a b = true) (second : le b c = true) : le a c = true := by
  induction a generalizing b c with
  | nil => rfl
  | cons x a ih =>
    cases b with
    | nil => cases first
    | cons y b =>
      cases c with
      | nil => cases second
      | cons z c =>
        simp only [le] at first second ⊢
        split at first
        · next same =>
          subst same
          split at second
          · next same =>
            subst same
            rw [if_pos rfl]
            exact ih first second
          · next other =>
            rw [if_neg other]
            exact second
        · next other =>
          have less : x < y := of_decide_eq_true first
          split at second
          · next same =>
            subst same
            rw [if_neg other]
            exact first
          · have less' : y < z := of_decide_eq_true second
            have both : x < z := Char.lt_trans less less'
            rw [if_neg (Char.ne_of_lt both)]
            exact decide_eq_true both

theorem le_total (a b : Text) : (le a b || le b a) = true := by
  induction a generalizing b with
  | nil => rfl
  | cons x a ih =>
    cases b with
    | nil => rfl
    | cons y b =>
      simp only [le]
      by_cases same : x = y
      · subst same
        simpa using ih b
      · rw [if_neg same, if_neg (Ne.symm same)]
        by_cases less : x < y
        · simp [less]
        · have more : y < x := by
            by_contra more
            exact same (Char.le_antisymm (Char.not_lt.1 more) (Char.not_lt.1 less))
          simp [more]

theorem le_refl (t : Text) : le t t = true := by
  have total := le_total t t
  rwa [Bool.or_self] at total

end Text

/-- A label fits if and only if it holds what is typed, in any case. -/
theorem isSome_of?_iff {label typed : Text} :
    (Fit.of? label typed).isSome = true ↔ Text.occurs typed.lower label.lower = true := by
  constructor
  · exact occurs_of_fits
  · intro holds
    unfold Fit.of?
    dsimp only
    split
    · rfl
    · split
      · rfl
      · split
        · rfl
        · rfl

/-- The fit of what is typed is that of the whole label only if it is the label, in any case. -/
theorem Fit.lower_eq_of_equal {label typed : Text} (h : of? label typed = some equal) :
    label.lower = typed.lower := by
  unfold of? at h
  dsimp only at h
  split at h
  · cases h
  · split at h
    · assumption
    · split at h
      · cases h
      · split at h <;> cases h

/-- What a label begins with does not only stand inside of it. -/
theorem Fit.ne_inside {label typed : Text} (begins : typed.lower <+: label.lower) :
    of? label typed ≠ some inside := by
  unfold of?
  dsimp only
  split
  · simp
  · split
    · simp
    · rw [if_pos (List.isPrefixOf_iff_prefix.2 begins)]
      simp

/-- An item stands in front of another one by its fit, with the same fit by its tier, and in the same tier by its
label. -/
theorem Item.le_cases {p p' : Proposal} {fit fit' : Fit} (first : (p.item fit).le (p'.item fit') = true) :
    fit.digit < fit'.digit ∨ fit = fit' ∧ (p.tier.digit < p'.tier.digit ∨
      p.tier = p'.tier ∧ Text.le p.label.lower p'.label.lower = true) := by
  simp only [Item.le, Proposal.item, Text.le] at first
  split at first
  · next fits =>
    have same : fit = fit' := by
      revert fits
      cases fit <;> cases fit' <;> decide
    split at first
    · next tiers =>
      have tier : p.tier = p'.tier := by
        revert tiers
        cases p.tier <;> cases p'.tier <;> decide
      exact .inr ⟨same, .inr ⟨tier, by simpa using first⟩⟩
    · exact .inr ⟨same, .inl (of_decide_eq_true first)⟩
  · exact .inl (of_decide_eq_true first)

/-- An item of a higher tier comes first only by a better fit. -/
theorem Item.digit_lt_of_le {p p' : Proposal} {fit fit' : Fit} (extra : p.tier = .extra) (usual : p'.tier = .usual)
    (first : (p.item fit).le (p'.item fit') = true) : fit.digit < fit'.digit := by
  rcases Item.le_cases first with less | ⟨-, less | ⟨tier, -⟩⟩
  · exact less
  · rw [extra, usual] at less
    exact absurd less (by decide)
  · rw [extra, usual] at tier
    cases tier

namespace Suggestion

/-- Of sorted items with one label the first is kept, and in front of it there are only better ones. -/
theorem exists_distinct {items : List Item} (sorted : items.Pairwise fun a b => a.le b = true) {seen : List Text}
    {item : Item} (mem : item ∈ items) (fresh : item.label ∉ seen) : ∃ front kept back,
      distinct seen items = front ++ kept :: back ∧ kept.label = item.label ∧ kept.le item = true ∧
        ∀ a ∈ front, a ∈ items ∧ a.le item = true := by
  induction items generalizing seen with
  | nil => cases mem
  | cons first items ih =>
    obtain ⟨better, sorted⟩ := List.pairwise_cons.1 sorted
    rw [distinct]
    by_cases taken : seen.contains first.label = true
    · have later : item ∈ items := by
        rcases List.mem_cons.1 mem with rfl | later
        · exact absurd (by simpa using taken) fresh
        · exact later
      obtain ⟨front, kept, back, same, label, le, before⟩ := ih sorted later fresh
      rw [if_pos taken]
      exact ⟨front, kept, back, same, label, le, fun a mem => (before a mem).imp_left (List.mem_cons_of_mem _)⟩
    · rw [if_neg taken]
      by_cases same : first.label = item.label
      · have le : first.le item = true := by
          rcases List.mem_cons.1 mem with rfl | later
          · exact Text.le_refl _
          · exact better item later
        exact ⟨[], first, _, rfl, same, le, by simp⟩
      · have later : item ∈ items := by
          rcases List.mem_cons.1 mem with rfl | later
          · exact absurd rfl same
          · exact later
        have fresh : item.label ∉ first.label :: seen := by simp [fresh, Ne.symm same]
        obtain ⟨front, kept, back, split, label, le, before⟩ := ih sorted later fresh
        refine ⟨first :: front, kept, back, by rw [split, List.cons_append], label, le, ?_⟩
        exact List.forall_mem_cons.2 ⟨⟨List.mem_cons_self, better item later⟩,
          fun a mem => (before a mem).imp_left (List.mem_cons_of_mem _)⟩

/-- No label is kept twice. -/
theorem nodup_distinct (items : List Item) (seen : List Text) :
    ((distinct seen items).map (·.label)).Nodup ∧ ∀ a ∈ distinct seen items, a.label ∉ seen := by
  induction items generalizing seen with
  | nil => exact ⟨List.nodup_nil, by simp [distinct]⟩
  | cons first items ih =>
    rw [distinct]
    split
    · exact ih seen
    · next fresh =>
      obtain ⟨nodup, apart⟩ := ih (first.label :: seen)
      have untaken : first.label ∉ seen := by simpa using fresh
      constructor
      · rw [List.map_cons, List.nodup_cons]
        refine ⟨?_, nodup⟩
        intro among
        obtain ⟨a, mem, same⟩ := List.mem_map.1 among
        exact apart a mem (by simp [same])
      · refine List.forall_mem_cons.2 ⟨untaken, ?_⟩
        intro a mem own
        exact apart a mem (by simp [own])

variable {c : Context} {names : Candidates} {limit : Int} {item : Item}

theorem pairwise_mergeSort (items : List Item) : (items.mergeSort Item.le).Pairwise fun a b => a.le b = true :=
  @List.pairwise_mergeSort _ Item.le (fun _ _ _ => Text.le_trans) (fun _ _ => Text.le_total _ _) _

/-- In front of an item only better ones are ranked. -/
theorem exists_ranked (fits : item ∈ fitting c names) : ∃ front kept back,
    ranked c names = front ++ kept :: back ∧ kept.label = item.label ∧ kept.le item = true ∧
      ∀ a ∈ front, a ∈ fitting c names ∧ a.le item = true := by
  obtain ⟨front, kept, back, same, label, le, before⟩ :=
    exists_distinct (pairwise_mergeSort _) (List.mem_mergeSort.2 fits) (List.not_mem_nil (a := item.label))
  exact ⟨front, kept, back, same, label, le, fun a mem => (before a mem).imp_left List.mem_mergeSort.1⟩

/-- An item that fits is offered under its label, if it and the items that are better have no more labels than
there is room for. -/
theorem offered_of_fitting (fits : item ∈ fitting c names) {labels : List Text} (own : item.label ∈ labels)
    (better : ∀ a ∈ fitting c names, a.le item = true → a.label ∈ labels)
    (room : (labels.length : Int) ≤ limit) : ∃ kept ∈ suggest c names limit, kept.label = item.label := by
  obtain ⟨front, kept, back, same, label, -, before⟩ := exists_ranked fits
  have nodup : ((front ++ [kept]).map (·.label)).Nodup := by
    have whole := (nodup_distinct ((fitting c names).mergeSort Item.le) []).1
    have split : ranked c names = (front ++ [kept]) ++ back := by rw [same]; simp
    change ((ranked c names).map (·.label)).Nodup at whole
    rw [split, List.map_append] at whole
    exact (List.nodup_append.1 whole).1
  have subset : (front ++ [kept]).map (·.label) ⊆ labels := by
    intro t mem
    obtain ⟨a, among, rfl⟩ := List.mem_map.1 mem
    rcases List.mem_append.1 among with front | last
    · obtain ⟨there, le⟩ := before a front
      exact better a there le
    · rw [List.mem_singleton.1 last, label]
      exact own
  have length := (List.subperm_of_subset nodup subset).length_le
  rw [List.length_map, List.length_append, List.length_singleton] at length
  refine ⟨kept, ?_, label⟩
  have within : front.length < max 1 limit.toNat := by omega
  rw [suggest, same]
  exact List.mem_take_iff_getElem.2 ⟨front.length, by simp; omega, by simp⟩

end Suggestion

end Typeahead
