import Mathlib.Data.List.Nodup
import Typeahead.Cache

/-!
The entries of a cache. No key has two; and an entry comes to be only where names are stored. Whatever
else happens to it, it keeps its names and the time at which they were fetched, also when the time to live
is changed and the entries are stored anew.

- `All.get`, `All.set`, `All.setTtl?`: what is true of the entries before is true of them after.
- `Distinct.get`, `Distinct.set`, `Distinct.setTtl?`: no key comes to have two entries.
- `get_of_live`: an entry that is alive is found.
- `size_get`, `size_store`, `size_setTtl`: the size stays as it is.
-/

namespace Typeahead.Cache

/-- Something is true of every entry: of its key, its names, and the time at which they were fetched. -/
def All (c : Cache) (holds : Text → List Text → Seconds → Prop) : Prop :=
  ∀ e ∈ c.entries, holds e.key e.names e.fetched

/-- No key has two entries. -/
def Distinct (c : Cache) : Prop := (c.entries.map (·.key)).Nodup

variable {c d : Cache} {holds : Text → List Text → Seconds → Prop}

theorem entries_makeRoom (c : Cache) : c.makeRoom.entries.Sublist c.entries := by
  unfold makeRoom
  split
  · exact .refl _
  · split
    · exact List.filter_sublist
    · exact .refl _

/-- A reader gets the entry of the key, and only if it was fetched less than the time to live ago. -/
theorem get_some {now : Seconds} {key : Text} {e : CacheEntry} (h : (c.get now key).1 = some e) :
    e ∈ c.entries ∧ e.key = key ∧ now - e.fetched < c.ttl := by
  unfold get at h
  split at h
  · cases h
  · next e' found =>
    split at h
    · next fresh =>
      cases h
      exact ⟨find?_mem found, find?_key found, of_decide_eq_true fresh⟩
    · cases h

/-- Reading uses an entry, drops one, or does nothing. -/
theorem get_cases (c : Cache) (now : Seconds) (key : Text) :
    (c.get now key).2 = c ∨ (c.get now key).2 = c.touch key ∨ (c.get now key).2 = c.erase key := by
  unfold get
  split
  · exact .inl rfl
  · split
    · exact .inr (.inl rfl)
    · exact .inr (.inr rfl)

/-- Who reads a key uses its entry, or finds nothing and at most drops it. -/
theorem get_hit_or_miss (c : Cache) (now : Seconds) (key : Text) :
    (∃ x, c.get now key = (some x, c.touch key)) ∨
      (c.get now key).1 = none ∧ (c.get now key).2.entries.Sublist c.entries := by
  unfold get
  split
  · exact .inr ⟨rfl, List.Sublist.refl _⟩
  · next x _ =>
    split
    · exact .inl ⟨x, rfl⟩
    · exact .inr ⟨rfl, List.filter_sublist⟩

namespace All

theorem sublist (h : c.All holds) (less : d.entries.Sublist c.entries) : d.All holds :=
  fun e mem => h e (less.subset mem)

theorem erase (h : c.All holds) (key : Text) : (c.erase key).All holds :=
  h.sublist List.filter_sublist

theorem touch (h : c.All holds) (key : Text) : (c.touch key).All holds := by
  intro e mem
  obtain ⟨e', mem', rfl⟩ := List.mem_map.1 mem
  split
  · exact h e' mem'
  · exact h e' mem'

theorem get (h : c.All holds) (now : Seconds) (key : Text) : (c.get now key).2.All holds := by
  rcases c.get_cases now key with same | used | dropped
  · rwa [same]
  · exact used ▸ h.touch key
  · exact dropped ▸ h.erase key

theorem append (h : c.All holds) (now : Seconds) {fetched : Seconds} {key : Text} {names : List Text}
    (new : holds key names fetched) : (c.append now fetched key names).All holds := by
  intro e mem
  rcases List.mem_append.1 mem with old | last
  · exact h e old
  · rw [List.mem_singleton.1 last]
    exact new

theorem store (h : c.All holds) (now : Seconds) {fetched : Seconds} {key : Text} {names : List Text}
    (new : holds key names fetched) : (c.store now fetched key names).All holds := by
  have kept : (c.expire now).All holds := h.sublist List.filter_sublist
  unfold Cache.store
  dsimp only
  split
  · exact (kept.erase key).append now new
  · exact append (kept.sublist (entries_makeRoom _)) now new

theorem set (h : c.All holds) {now : Seconds} {key : Text} {names : List Text}
    (new : holds key names now) (stored : c.set now key names = .ok d) : d.All holds := by
  unfold Cache.set at stored
  split at stored
  · cases stored
  · cases stored
    exact h.store now new

theorem setTtl? (h : c.All holds) {now ttl : Seconds} {given : Number}
    (changed : c.setTtl? now ttl given = .ok d) : d.All holds := by
  unfold Cache.setTtl? at changed
  split at changed
  · cases changed
  · cases changed
    refine List.foldlRecOn (motive := fun c : Cache => c.All holds) _ _ ?_ fun c all e mem => ?_
    · exact fun e mem => absurd mem List.not_mem_nil
    · exact all.store now (h e (List.mem_filter.1 mem).1)

end All

namespace Distinct

theorem sublist (h : c.Distinct) (less : d.entries.Sublist c.entries) : d.Distinct :=
  List.Nodup.sublist (less.map _) h

theorem touch (h : c.Distinct) (key : Text) : (c.touch key).Distinct := by
  have keys : (c.touch key).entries.map (·.key) = c.entries.map (·.key) := by
    simp only [Cache.touch, List.map_map]
    apply List.map_congr_left
    intro e _
    simp only [Function.comp]
    split <;> rfl
  unfold Distinct
  rwa [keys]

theorem get (h : c.Distinct) (now : Seconds) (key : Text) : (c.get now key).2.Distinct := by
  rcases c.get_cases now key with same | used | dropped
  · rwa [same]
  · exact used ▸ h.touch key
  · exact dropped ▸ h.sublist List.filter_sublist

theorem append (h : c.Distinct) (now fetched : Seconds) {key : Text} (names : List Text)
    (new : ∀ e ∈ c.entries, e.key ≠ key) : (c.append now fetched key names).Distinct := by
  unfold Distinct Cache.append
  rw [List.map_append, List.map_singleton, List.nodup_append]
  refine ⟨h, List.nodup_singleton _, ?_⟩
  rintro old there _ last rfl
  obtain ⟨e, mem, same⟩ := List.mem_map.1 there
  exact new e mem (same.trans (List.mem_singleton.1 last))

theorem store (h : c.Distinct) (now fetched : Seconds) (key : Text) (names : List Text) :
    (c.store now fetched key names).Distinct := by
  have kept : (c.expire now).Distinct := h.sublist List.filter_sublist
  unfold Cache.store
  dsimp only
  split
  · refine append (kept.sublist List.filter_sublist) now fetched names fun e mem => ?_
    simpa using (List.mem_filter.1 mem).2
  · next missing =>
    have less := entries_makeRoom (c.expire now)
    refine append (kept.sublist less) now fetched names fun e mem same => missing ?_
    exact List.any_eq_true.2 ⟨e, less.subset mem, by simpa using same⟩

theorem set (h : c.Distinct) {now : Seconds} {key : Text} {names : List Text}
    (stored : c.set now key names = .ok d) : d.Distinct := by
  unfold Cache.set at stored
  split at stored
  · cases stored
  · cases stored
    exact h.store ..

theorem setTtl? {now ttl : Seconds} {given : Number} (changed : c.setTtl? now ttl given = .ok d) :
    d.Distinct := by
  unfold Cache.setTtl? at changed
  split at changed
  · cases changed
  · cases changed
    exact List.foldlRecOn (motive := fun c : Cache => c.Distinct) _ _ List.nodup_nil
      fun c distinct e _ => distinct.store ..

end Distinct

/-- Whoever reads the key of an entry that is alive gets that entry. -/
theorem get_of_live (h : c.Distinct) {e : CacheEntry} (mem : e ∈ c.entries) {now : Seconds}
    (stored : now < e.stored + c.ttl) (fetched : now - e.fetched < c.ttl) :
    c.get now e.key = (some e, c.touch e.key) := by
  have found : c.find? now e.key = some e := by
    cases found : c.find? now e.key with
    | none =>
      have missed := List.find?_eq_none.1 found e mem
      simp [keeps, stored] at missed
    | some other =>
      rw [List.inj_on_of_nodup_map h (find?_mem found) mem (find?_key found)]
  have fresh : c.fresh now e = true := decide_eq_true fetched
  simp [get, found, fresh]

theorem size_get (c : Cache) (now : Seconds) (key : Text) : (c.get now key).2.size = c.size := by
  rcases c.get_cases now key with same | used | dropped
  · rw [same]
  · rw [used]
    rfl
  · rw [dropped]
    rfl

theorem size_store (c : Cache) (now fetched : Seconds) (key : Text) (names : List Text) :
    (c.store now fetched key names).size = c.size := by
  have room (c : Cache) : c.makeRoom.size = c.size := by
    unfold makeRoom
    split
    · rfl
    · split <;> rfl
  unfold store
  dsimp only
  split
  · rfl
  · exact room (c.expire now)

theorem size_set {c d : Cache} {now : Seconds} {key : Text} {names : List Text}
    (h : c.set now key names = .ok d) : d.size = c.size := by
  unfold set at h
  split at h
  · cases h
  · cases h
    exact c.size_store now now key names

theorem size_setTtl (c : Cache) (now ttl : Seconds) : (c.setTtl now ttl).size = c.size :=
  List.foldlRecOn (motive := fun d : Cache => d.size = c.size) _ _ rfl
    fun d same e _ => (d.size_store now e.fetched e.key e.names).trans same

end Typeahead.Cache
