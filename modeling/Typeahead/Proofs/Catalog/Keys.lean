import Typeahead.Catalog.Lookup
import Typeahead.Reading

/-!
The keys under which lists of names are cached. A key puts the parts of a lookup together with bars, and
names may have bars in them. Only for the values of a tag key does that matter: a metric and a key that
follow each other read the same wherever the bar between them stands.

- `Lookup.key_eq_iff`: which lookups share a key.
- `Lookup.keys_collide`: there are queries that do.
-/

namespace Typeahead

/-- How many names narrow down a dataset. -/
def Dataset.arity : Dataset → Nat
  | .metrics | .services | .sources | .levels | .fields => 0
  | .tags | .fieldValues => 1
  | .tagValues => 2

theorem Dataset.name_inj {d e : Dataset} (h : d.name.toList = e.name.toList) : d = e := by
  cases d <;> cases e <;> first | rfl | exact absurd h (by decide)

theorem Dataset.bar_not_mem_name (d : Dataset) : '|' ∉ d.name.toList := by
  cases d <;> decide

/-- A lookup that a context calls for has as many names as its dataset takes. -/
theorem Context.length_scope {c : Context} {l : Lookup} (h : c.lookup? = some l) :
    l.scope.length = l.dataset.arity := by
  unfold lookup? at h
  split at h
  · cases h
    rfl
  · cases h
  · obtain ⟨metric, -, rfl⟩ := Option.map_eq_some_iff.1 h
    rfl
  · obtain ⟨metric, -, rfl⟩ := Option.map_eq_some_iff.1 h
    rfl
  · obtain ⟨metric, -, later⟩ := Option.bind_eq_some_iff.1 h
    obtain ⟨key, -, found⟩ := Option.bind_eq_some_iff.1 later
    cases found
    rfl
  · split at h
    · cases h
    · cases h
      rfl
  · split at h
    · cases h
    · cases h
      rfl
  · split at h
    · next dataset own =>
      cases h
      obtain ⟨facet, -, own⟩ := Option.bind_eq_some_iff.1 own
      cases facet <;> cases own <;> rfl
    · obtain ⟨key, -, rfl⟩ := Option.map_eq_some_iff.1 h
      rfl

namespace Text

variable {s t s' t' : Text}

/-- A text falls apart at its first bar in one way only. -/
theorem append_bar_inj (barless : '|' ∉ s) (barless' : '|' ∉ s') (h : s ++ '|' :: t = s' ++ '|' :: t') :
    s = s' ∧ t = t' := by
  induction s generalizing s' with
  | nil =>
    cases s' with
    | nil => exact ⟨rfl, List.tail_eq_of_cons_eq h⟩
    | cons c rest =>
      obtain rfl : '|' = c := List.head_eq_of_cons_eq h
      exact absurd List.mem_cons_self barless'
  | cons c rest ih =>
    cases s' with
    | nil =>
      obtain rfl : c = '|' := List.head_eq_of_cons_eq h
      exact absurd List.mem_cons_self barless
    | cons c' rest' =>
      obtain rfl : c = c' := List.head_eq_of_cons_eq h
      obtain ⟨same, after⟩ := ih (fun mem => barless (List.mem_cons_of_mem _ mem))
        (fun mem => barless' (List.mem_cons_of_mem _ mem)) (List.tail_eq_of_cons_eq h)
      exact ⟨congrArg (c :: ·) same, after⟩

/-- Two pairs of texts read the same with bars between them if they are the same pairs, or if they part one
text at two different bars of it. -/
theorem append_bar_eq_iff : s ++ '|' :: t = s' ++ '|' :: t' ↔
    s = s' ∧ t = t' ∨ (∃ m, s = s' ++ '|' :: m ∧ t' = m ++ '|' :: t) ∨
      ∃ m, s' = s ++ '|' :: m ∧ t = m ++ '|' :: t' := by
  constructor
  · intro h
    obtain ⟨m, left, right⟩ | ⟨m, left, right⟩ := List.append_eq_append_iff.1 h
    · cases m with
      | nil => exact .inl ⟨by simpa using left.symm, List.tail_eq_of_cons_eq right⟩
      | cons c m =>
        obtain rfl : '|' = c := List.head_eq_of_cons_eq right
        exact .inr (.inr ⟨m, left, List.tail_eq_of_cons_eq right⟩)
    · cases m with
      | nil => exact .inl ⟨by simpa using left, (List.tail_eq_of_cons_eq right).symm⟩
      | cons c m =>
        obtain rfl : '|' = c := List.head_eq_of_cons_eq right
        exact .inr (.inl ⟨m, left, List.tail_eq_of_cons_eq right⟩)
  · rintro (⟨rfl, rfl⟩ | ⟨m, rfl, rfl⟩ | ⟨m, rfl, rfl⟩)
    · rfl
    · simp
    · simp

end Text

namespace Lookup

/-- The values of a key are wanted in both cases, and what one takes for the end of the metric the other
takes for the beginning of the key. -/
def Overlaps (l m : Lookup) : Prop :=
  ∃ metric middle key, l = { dataset := .tagValues, scope := [metric ++ '|' :: middle, key] } ∧
    m = { dataset := .tagValues, scope := [metric, middle ++ '|' :: key] }

variable {l m : Lookup}

theorem key_eq (l : Lookup) (site : Text) :
    l.key site = l.dataset.name.toList ++ '|' :: Text.joinWith ['|'] (site :: l.scope) := by
  simp [key, Text.joinWith]

theorem Overlaps.key_eq (h : l.Overlaps m) (site : Text) : l.key site = m.key site := by
  obtain ⟨metric, middle, key, rfl, rfl⟩ := h
  simp [Lookup.key, Text.joinWith]

/-- Lookups that contexts call for share a key only if they are the same, or want the values of a key and
differ in where the metric ends. So for any other dataset a key stands for one list. -/
theorem key_eq_iff {c d : Context} (h : c.lookup? = some l) (h' : d.lookup? = some m) (site : Text) :
    l.key site = m.key site ↔ l = m ∨ l.Overlaps m ∨ m.Overlaps l := by
  constructor
  · intro same
    rw [key_eq, key_eq] at same
    obtain ⟨names, rest⟩ :=
      Text.append_bar_inj l.dataset.bar_not_mem_name m.dataset.bar_not_mem_name same
    have arity := Context.length_scope h
    have arity' := Context.length_scope h'
    obtain ⟨dataset, scope⟩ := l
    obtain ⟨dataset', scope'⟩ := m
    obtain rfl : dataset = dataset' := Dataset.name_inj names
    match scope, scope' with
    | [], [] => exact .inl rfl
    | [name], [name'] =>
      obtain rfl : name = name' := by simpa [Text.joinWith] using rest
      exact .inl rfl
    | [metric, key], [metric', key'] =>
      have values : dataset = .tagValues := by
        cases dataset <;> first | rfl | cases arity
      subst values
      have parts : metric ++ '|' :: key = metric' ++ '|' :: key' := by
        simpa [Text.joinWith] using rest
      rcases Text.append_bar_eq_iff.1 parts with ⟨rfl, rfl⟩ | ⟨middle, rfl, rfl⟩ | ⟨middle, rfl, rfl⟩
      · exact .inl rfl
      · exact .inr (.inl ⟨metric', middle, key, rfl, rfl⟩)
      · exact .inr (.inr ⟨metric, middle, key', rfl, rfl⟩)
    | [], _ :: _ => exact absurd (arity.trans arity'.symm) (by simp)
    | _ :: _, [] => exact absurd (arity.trans arity'.symm) (by simp)
    | [_], _ :: _ :: _ => exact absurd (arity.trans arity'.symm) (by simp)
    | _ :: _ :: _, [_] => exact absurd (arity.trans arity'.symm) (by simp)
    | _ :: _ :: _ :: _, _ => cases dataset <;> simp [Dataset.arity] at arity
    | _, _ :: _ :: _ :: _ => cases dataset <;> simp [Dataset.arity] at arity'
  · rintro (rfl | overlap | overlap)
    · rfl
    · exact overlap.key_eq site
    · exact (overlap.key_eq site).symm

/-- A metric with a bar in its name, and a key with a bar in its name. -/
theorem key_eq_iff_bars :
    let c := contextOf .metrics "a|b\x7bc:".toList 6
    let d := contextOf .metrics "a\x7bb|c:".toList 6
    let l : Lookup := { dataset := .tagValues, scope := ["a|b".toList, "c".toList] }
    let m : Lookup := { dataset := .tagValues, scope := ["a".toList, "b|c".toList] }
    c.lookup? = some l ∧ d.lookup? = some m ∧ ∀ site, l.key site = m.key site := by
  intro c d l m
  have first : c.lookup? = some l := by decide +kernel
  have second : d.lookup? = some m := by decide +kernel
  have overlap : l.Overlaps m := ⟨"a".toList, "b".toList, "c".toList, rfl, rfl⟩
  exact ⟨first, second, fun site => (key_eq_iff first second site).2 (.inr (.inl overlap))⟩

/-- A key does not tell the lists apart that queries call for. -/
theorem keys_collide :
    ¬ ∀ (site : Text) (language language' : Language) (text text' : Text) (cursor cursor' : Int)
      (l m : Lookup), (contextOf language text cursor).lookup? = some l →
      (contextOf language' text' cursor').lookup? = some m → l.key site = m.key site →
      l.dataset = m.dataset ∧ l.scope = m.scope := by
  intro tells
  let l : Lookup := { dataset := .tagValues, scope := ["a|b".toList, "c".toList] }
  let m : Lookup := { dataset := .tagValues, scope := ["a".toList, "b|c".toList] }
  have first : (contextOf .metrics "a|b\x7bc:".toList 6).lookup? = some l := by decide +kernel
  have second : (contextOf .metrics "a\x7bb|c:".toList 6).lookup? = some m := by decide +kernel
  have same : l.key "site".toList = m.key "site".toList := by decide +kernel
  have scopes := (tells "site".toList .metrics .metrics _ _ 6 6 l m first second same).2
  exact absurd scopes (by decide)

end Lookup

end Typeahead
