import Typeahead.Proofs.Suggestion.Ranking

/-!
The groups of a menu: the items told apart by their categories and sorted in each of them.

- `ungroup_group`: the groups, one after the other, are the sorted buckets of all categories.
- `perm_flatMap_bucket`, `bucket_flatMap`: buckets of different categories leave out nothing and share nothing.
- `group_partitions`: all that is true of the groups.
-/

namespace Typeahead

/-- The place of a category in the order in which the categories are shown. -/
def Category.rank (c : Category) : Nat := Category.all.idxOf c

theorem Category.mem_all (c : Category) : c ∈ Category.all := by
  cases c <;> decide

theorem Category.nodup_all : Category.all.Nodup := by
  decide

theorem Category.pairwise_all : Category.all.Pairwise fun c d => c.rank < d.rank := by
  decide

namespace Suggestion

/-- The items of a category, in the order in which they came. -/
def bucket (items : List Item) (c : Category) : List Item := items.filter fun item => item.kind.category = c

variable {items : List Item} {c : Category} {g : Group}

theorem category_of_mem_bucket {item : Item} (mem : item ∈ bucket items c) : item.kind.category = c := by
  simpa using (List.mem_filter.1 mem).2

theorem group_eq (items : List Item) : group items =
    (Category.all.map fun c => Group.mk c ((bucket items c).mergeSort Item.le)).filter fun g => !g.items.isEmpty :=
  rfl

/-- A group has the items of its category, sorted, and there is one at least. -/
theorem of_mem_group (mem : g ∈ group items) :
    g.items = (bucket items g.category).mergeSort Item.le ∧ g.items ≠ [] := by
  obtain ⟨among, filled⟩ := List.mem_filter.1 mem
  obtain ⟨c, -, rfl⟩ := List.mem_map.1 among
  exact ⟨rfl, by simpa using filled⟩

theorem ungroup_filter (groups : List Group) : ungroup (groups.filter fun g => !g.items.isEmpty) = ungroup groups := by
  induction groups with
  | nil => rfl
  | cons g groups ih =>
    rw [ungroup] at ih
    by_cases empty : g.items = []
    · rw [List.filter_cons_of_neg (by simp [empty]), ungroup, ih, ungroup, ungroup, List.flatMap_cons, empty,
        List.nil_append]
    · rw [List.filter_cons_of_pos (by simp [empty]), ungroup, List.flatMap_cons, ih, ungroup, ungroup,
        List.flatMap_cons]

/-- The groups, one after the other, are the sorted buckets of all categories. -/
theorem ungroup_group (items : List Item) :
    ungroup (group items) = Category.all.flatMap fun c => (bucket items c).mergeSort Item.le := by
  rw [group_eq, ungroup_filter, ungroup, List.flatMap_map]

/-- The buckets of different categories are the items of these categories. -/
theorem perm_flatMap_bucket (items : List Item) {cs : List Category} (nodup : cs.Nodup) :
    (cs.flatMap (bucket items)).Perm (items.filter fun item => item.kind.category ∈ cs) := by
  induction cs with
  | nil => simp
  | cons c cs ih =>
    obtain ⟨fresh, nodup⟩ := List.nodup_cons.1 nodup
    have parts := List.filter_append_perm (fun item : Item => item.kind.category = c)
      (items.filter fun item => item.kind.category ∈ c :: cs)
    have own : (items.filter fun item => item.kind.category ∈ c :: cs).filter (·.kind.category = c) =
        bucket items c := by
      rw [List.filter_filter, bucket]
      apply List.filter_congr
      intro item _
      by_cases same : item.kind.category = c <;> simp [same]
    have others : (items.filter fun item => item.kind.category ∈ c :: cs).filter (fun item => !(item.kind.category = c)) =
        items.filter fun item => item.kind.category ∈ cs := by
      rw [List.filter_filter]
      apply List.filter_congr
      intro item _
      by_cases same : item.kind.category = c
      · simp [same, fresh]
      · simp [same]
    rw [own, others] at parts
    rw [List.flatMap_cons]
    exact ((ih nodup).append_left _).trans parts

/-- Of lists of items, one for each category, those of a category are its own list. -/
theorem bucket_flatMap {listed : Category → List Item} (own : ∀ c, ∀ item ∈ listed c, item.kind.category = c)
    {cs : List Category} (nodup : cs.Nodup) (mem : c ∈ cs) : bucket (cs.flatMap listed) c = listed c := by
  have kept : bucket (listed c) c = listed c := by
    apply List.filter_eq_self.2
    intro item among
    simpa using own c item among
  have dropped {others : List Category} (absent : c ∉ others) : bucket (others.flatMap listed) c = [] := by
    apply List.filter_eq_nil_iff.2
    intro item among
    obtain ⟨d, other, there⟩ := List.mem_flatMap.1 among
    have apart : d ≠ c := fun same => absent (same ▸ other)
    simpa [own d item there] using apart
  induction cs with
  | nil => cases mem
  | cons d cs ih =>
    obtain ⟨fresh, nodup⟩ := List.nodup_cons.1 nodup
    rw [List.flatMap_cons, bucket, List.filter_append]
    change bucket (listed d) c ++ bucket (cs.flatMap listed) c = listed c
    by_cases same : d = c
    · subst same
      rw [kept, dropped fresh, List.append_nil]
    · have later : c ∈ cs := (List.mem_cons.1 mem).resolve_left (Ne.symm same)
      have alone : bucket ([d].flatMap listed) c = [] := dropped (by simpa using Ne.symm same)
      rw [List.flatMap_singleton] at alone
      rw [alone, List.nil_append, ih nodup later]

/-- Grouped once more, the items of a category are what they are in the groups. -/
theorem bucket_ungroup_group (items : List Item) (c : Category) :
    bucket (ungroup (group items)) c = (bucket items c).mergeSort Item.le := by
  rw [ungroup_group]
  apply bucket_flatMap _ Category.nodup_all (Category.mem_all c)
  intro c item mem
  exact category_of_mem_bucket (List.mem_mergeSort.1 mem)

/-- The groups tell the items apart by their categories, and each of them has its items in the order of their sort
keys, those of one key in the order in which they came. -/
structure Partitions (items : List Item) (groups : List Group) : Prop where
  ranked : groups.Pairwise fun g h => g.category.rank < h.category.rank
  filled : ∀ g ∈ groups, g.items ≠ []
  own : ∀ g ∈ groups, ∀ item ∈ g.items, item.kind.category = g.category
  sorted : ∀ g ∈ groups, StablySorted (bucket items g.category) g.items
  /-- Nothing is lost, and nothing comes twice. -/
  whole : (ungroup groups).Perm items

/-- Every group has its items in the order in which they came. -/
def KeepsOrder (items : List Item) (groups : List Group) : Prop := ∀ g ∈ groups, g.items = bucket items g.category

theorem keepsOrder_group (sorted : items.Pairwise fun a b => a.le b = true) : KeepsOrder items (group items) := by
  intro g mem
  rw [(of_mem_group mem).1]
  exact List.mergeSort_of_pairwise (sorted.sublist List.filter_sublist)

theorem pairwise_suggest (c : Context) (names : Candidates) (limit : Int) :
    (suggest c names limit).Pairwise fun a b => a.le b = true :=
  (pairwise_ranked c names).sublist (List.take_sublist _ _)

/-- The groups are the items under their categories, grouping them once more changes nothing, and suggestions stay in
their order. -/
theorem group_partitions (items : List Item) :
    Partitions items (group items) ∧ group (ungroup (group items)) = group items ∧
      ∀ c names limit, KeepsOrder (suggest c names limit) (group (suggest c names limit)) := by
  refine ⟨?_, ?_, ?_⟩
  · constructor
    case ranked =>
      apply List.Pairwise.filter
      rw [List.pairwise_map]
      exact Category.pairwise_all
    case filled =>
      intro g mem
      exact (of_mem_group mem).2
    case own =>
      intro g mem item among
      rw [(of_mem_group mem).1] at among
      exact category_of_mem_bucket (List.mem_mergeSort.1 among)
    case sorted =>
      intro g mem
      rw [(of_mem_group mem).1]
      exact stablySorted_mergeSort _
    case whole =>
      have all : (items.filter fun item => item.kind.category ∈ Category.all) = items := by
        apply List.filter_eq_self.2
        intro item _
        exact decide_eq_true (Category.mem_all _)
      have buckets := perm_flatMap_bucket items Category.nodup_all
      rw [all] at buckets
      rw [ungroup_group]
      exact (List.Perm.flatMap_left _ fun c _ => List.mergeSort_perm _ _).trans buckets
  · have same (c : Category) : (bucket (ungroup (group items)) c).mergeSort Item.le =
        (bucket items c).mergeSort Item.le := by
      rw [bucket_ungroup_group]
      exact List.mergeSort_of_pairwise (pairwise_mergeSort _)
    rw [group_eq (ungroup (group items))]
    simp only [same]
    exact (group_eq items).symm
  · intro c names limit
    exact keepsOrder_group (pairwise_suggest c names limit)

end Suggestion

end Typeahead
