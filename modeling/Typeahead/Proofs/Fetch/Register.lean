import Mathlib.Data.List.Nodup
import Typeahead.Proofs.Fetch.Steps

/-!
The register and the calls. Each fetch is registered under the key of its names, and no key twice; a
call waits for a fetch exactly if the fetch has it among its watchers. No step changes that, at whatever
moment calls for a key come, are given up, or are told an end.

- `Registered.begin`, `Registered.announce`: a fetch is entered in the register, and struck off again.
- `Attended.join`, `Attended.giveUp`, `Attended.announce`: a call comes to wait, gives up, or is told.
-/

namespace Typeahead

/-- The fetch that a call waits for. Whoever gave up waits for none. -/
def Call.awaits? (c : Call) : Option Nat :=
  match c.stage, c.abandoned with
  | .waiting fetch, false => some fetch
  | _, _ => none

theorem Call.awaits?_eq_some {c : Call} {fetch : Nat} :
    c.awaits? = some fetch ↔ c.stage = .waiting fetch ∧ c.abandoned = false := by
  unfold awaits?
  constructor
  · intro h
    split at h
    · next stage going => exact ⟨Option.some.inj h ▸ stage, going⟩
    · cases h
  · rintro ⟨stage, going⟩
    simp [stage, going]

/-- How a fetch is registered. -/
def Fetch.registration (site : Text) (f : Fetch) : Registration := ⟨f.lookup.key site, f.id⟩

namespace Books

/-- Puts a call in the place of the one of its number. -/
def setCall (b : Books) (call : Call) : Books :=
  { b with calls := b.calls.map fun c => if c.id = call.id then call else c }

/-- Changes who waits for a fetch. -/
def watch (b : Books) (id : Nat) (change : List Nat → List Nat) : Books :=
  { b with
    fetches := b.fetches.map fun f =>
      if f.id = id then { f with watchers := change f.watchers } else f }

/-- Tells calls how the fetch ended that they wait for. -/
def tell (b : Books) (outcome : Outcome) (ids : List Nat) : Books :=
  { b with
    calls := b.calls.map fun c => if c.id ∈ ids then { c with stage := .told outcome } else c }

/-- The register is that of the fetches, each of which has a key and a number of its own. -/
structure Registered (b : Books) : Prop where
  register : b.pending = b.fetches.map (Fetch.registration b.site)
  keys : (b.pending.map (·.key)).Nodup
  numbers : (b.fetches.map (·.id)).Nodup
  given : ∀ f ∈ b.fetches, f.id < b.nextFetch

/-- Calls have numbers of their own, and those that wait are the watchers of the fetches of their
keys. -/
structure Attended (b : Books) : Prop where
  numbers : (b.calls.map (·.id)).Nodup
  waits : ∀ c ∈ b.calls, ∀ id, c.awaits? = some id →
    ∃ f ∈ b.fetches, f.id = id ∧ c.id ∈ f.watchers ∧ f.lookup.key b.site = c.current.key b.site
  watched : ∀ f ∈ b.fetches, ∀ w ∈ f.watchers, ∃ c ∈ b.calls, c.id = w ∧ c.awaits? = some f.id

/-- The books are kept. -/
structure Kept (b : Books) : Prop where
  registered : b.Registered
  attended : b.Attended

variable {b : Books}

theorem mem_setCall {call x : Call} (h : x ∈ (b.setCall call).calls) :
    x = call ∨ x ∈ b.calls ∧ x.id ≠ call.id := by
  obtain ⟨y, mem, rfl⟩ := List.mem_map.1 h
  by_cases same : y.id = call.id
  · exact .inl (if_pos same)
  · simp only [if_neg same]
    exact .inr ⟨mem, same⟩

theorem setCall_mem {call c : Call} (mem : c ∈ b.calls) (same : call.id = c.id) :
    call ∈ (b.setCall call).calls :=
  List.mem_map.2 ⟨c, mem, if_pos same.symm⟩

theorem setCall_other {call x : Call} (mem : x ∈ b.calls) (other : x.id ≠ call.id) :
    x ∈ (b.setCall call).calls :=
  List.mem_map.2 ⟨x, mem, if_neg other⟩

@[simp] theorem ids_setCall (b : Books) (call : Call) :
    (b.setCall call).calls.map (·.id) = b.calls.map (·.id) := by
  simp only [setCall, List.map_map]
  apply List.map_congr_left
  intro c _
  simp only [Function.comp]
  split
  · next same => exact same.symm
  · rfl

theorem mem_watch {id : Nat} {change : List Nat → List Nat} {g : Fetch}
    (h : g ∈ (b.watch id change).fetches) :
    ∃ f ∈ b.fetches, g.id = f.id ∧ g.lookup = f.lookup ∧
      g.watchers = if f.id = id then change f.watchers else f.watchers := by
  obtain ⟨f, mem, rfl⟩ := List.mem_map.1 h
  refine ⟨f, mem, ?_⟩
  by_cases same : f.id = id <;> simp [same]

theorem watch_mem {f : Fetch} (mem : f ∈ b.fetches) (id : Nat)
    (change : List Nat → List Nat) :
    ∃ g ∈ (b.watch id change).fetches, g.id = f.id ∧ g.lookup = f.lookup ∧
      g.watchers = if f.id = id then change f.watchers else f.watchers := by
  refine ⟨_, List.mem_map.2 ⟨f, mem, rfl⟩, ?_⟩
  by_cases same : f.id = id <;> simp [same]

/-- A call is told from others by its number. -/
theorem Attended.eq (h : b.Attended) {c d : Call} (hc : c ∈ b.calls) (hd : d ∈ b.calls)
    (same : c.id = d.id) : c = d :=
  List.inj_on_of_nodup_map h.numbers hc hd same

theorem mem_tell {outcome : Outcome} {ids : List Nat} {x : Call}
    (h : x ∈ (b.tell outcome ids).calls) :
    ∃ c ∈ b.calls, c.id ∈ ids ∧ x = { c with stage := .told outcome } ∨ c.id ∉ ids ∧ x = c := by
  obtain ⟨c, mem, rfl⟩ := List.mem_map.1 h
  by_cases told : c.id ∈ ids
  · exact ⟨c, mem, .inl ⟨told, if_pos told⟩⟩
  · exact ⟨c, mem, .inr ⟨told, if_neg told⟩⟩

@[simp] theorem ids_tell (b : Books) (outcome : Outcome) (ids : List Nat) :
    (b.tell outcome ids).calls.map (·.id) = b.calls.map (·.id) := by
  simp only [tell, List.map_map]
  apply List.map_congr_left
  intro c _
  simp only [Function.comp]
  split <;> rfl

/-- A fetch is told from others by its number. -/
theorem Registered.eq (h : b.Registered) {f g : Fetch} (hf : f ∈ b.fetches) (hg : g ∈ b.fetches)
    (same : f.id = g.id) : f = g :=
  List.inj_on_of_nodup_map h.numbers hf hg same

/-- A fetch is told from others by the key of its names. -/
theorem Registered.eq_of_key (h : b.Registered) {f g : Fetch} (hf : f ∈ b.fetches)
    (hg : g ∈ b.fetches) (same : f.lookup.key b.site = g.lookup.key b.site) : f = g := by
  have keys := h.keys
  rw [h.register, List.map_map] at keys
  exact List.inj_on_of_nodup_map keys hf hg same

/-- The register does not depend on who waits. -/
theorem Registered.watch (h : b.Registered) (id : Nat) (change : List Nat → List Nat) :
    (b.watch id change).Registered := by
  have same (g : Fetch) : ∀ x, Fetch.registration x
      (if g.id = id then { g with watchers := change g.watchers } else g) = g.registration x := by
    intro x
    split <;> rfl
  have ids : (b.watch id change).fetches.map (·.id) = b.fetches.map (·.id) := by
    simp only [Books.watch, List.map_map]
    apply List.map_congr_left
    intro g _
    exact congrArg Registration.fetch (same g b.site)
  refine ⟨?_, h.keys, ids.symm ▸ h.numbers, fun g mem => ?_⟩
  · simp only [Books.watch, List.map_map]
    refine h.register.trans (List.map_congr_left fun g _ => ?_)
    exact (same g b.site).symm
  · obtain ⟨f, there, number, -⟩ := mem_watch mem
    exact number ▸ h.given f there

/-- A fetch that begins is registered under a key of its own. -/
theorem Registered.begin (h : b.Registered) (lookup : Lookup) (watchers : List Nat)
    (unregistered : ∀ r ∈ b.pending, r.key ≠ lookup.key b.site) :
    Registered { b with
      fetches := b.fetches ++ [{ id := b.nextFetch, lookup, watchers }]
      pending := b.pending ++ [⟨lookup.key b.site, b.nextFetch⟩]
      nextFetch := b.nextFetch + 1 } := by
  refine ⟨?_, ?_, ?_, ?_⟩
  · simp [h.register, Fetch.registration]
  · rw [List.map_append, List.map_singleton, List.nodup_append]
    refine ⟨h.keys, List.nodup_singleton _, ?_⟩
    rintro key there _ new rfl
    obtain ⟨r, mem, same⟩ := List.mem_map.1 there
    exact unregistered r mem (same.trans (List.mem_singleton.1 new))
  · rw [List.map_append, List.map_singleton, List.nodup_append]
    refine ⟨h.numbers, List.nodup_singleton _, ?_⟩
    rintro id there _ new rfl
    obtain ⟨f, mem, same⟩ := List.mem_map.1 there
    exact Nat.ne_of_lt (h.given f mem) (same.trans (List.mem_singleton.1 new))
  · intro f mem
    rcases List.mem_append.1 mem with old | new
    · exact Nat.lt_succ_of_lt (h.given f old)
    · rw [List.mem_singleton.1 new]
      exact Nat.lt_succ_self _

/-- A fetch whose end is announced is registered no longer, and no other leaves the register. -/
theorem Registered.announce (h : b.Registered) {f : Fetch} (mem : f ∈ b.fetches) :
    Registered { b with
      fetches := b.fetches.filter fun g => g.id != f.id
      pending := b.pending.filter fun r => r.key != f.lookup.key b.site } := by
  refine ⟨?_, ?_, ?_, ?_⟩
  · dsimp only
    rw [h.register, List.filter_map]
    congr 1
    apply List.filter_congr
    intro g there
    have : g.lookup.key b.site = f.lookup.key b.site ↔ g.id = f.id :=
      ⟨fun same => congrArg (·.id) (h.eq_of_key there mem same),
        fun same => congrArg (·.lookup.key b.site) (h.eq there mem same)⟩
    simp only [Function.comp, Fetch.registration, bne, beq_eq_decide, this]
  · exact h.keys.sublist (List.filter_sublist.map _)
  · exact h.numbers.sublist (List.filter_sublist.map _)
  · exact fun g there => h.given g (List.mem_filter.1 there).1

/-- A call that waits is not one that does not. -/
theorem Attended.apart (h : b.Attended) {c x : Call} {id : Nat} (hx : x ∈ b.calls)
    (hc : c ∈ b.calls) (awaits : x.awaits? = some id) (idle : c.awaits? = none) : x.id ≠ c.id := by
  intro same
  rw [h.eq hx hc same, idle] at awaits
  cases awaits

/-- A call that does not wait goes on to where it does not wait either. -/
theorem Attended.setCall (h : b.Attended) {c call : Call} (mem : c ∈ b.calls)
    (same : call.id = c.id) (idle : c.awaits? = none) (still : call.awaits? = none) :
    (b.setCall call).Attended := by
  refine ⟨(ids_setCall b call).symm ▸ h.numbers, ?_, ?_⟩
  · intro x there id awaits
    rcases mem_setCall there with rfl | ⟨there, -⟩
    · simp [still] at awaits
    · exact h.waits x there id awaits
  · intro f there w watches
    obtain ⟨x, hx, rfl, awaits⟩ := h.watched f there w watches
    exact ⟨x, setCall_other hx (same ▸ h.apart hx mem awaits idle), rfl, awaits⟩

/-- A call that does not wait comes to wait for a fetch of the key of its names. -/
theorem Attended.join (h : b.Attended) {c call : Call} {f : Fetch} (mem : c ∈ b.calls)
    (same : call.id = c.id) (idle : c.awaits? = none) (there : f ∈ b.fetches)
    (waits : call.awaits? = some f.id) (key : f.lookup.key b.site = call.current.key b.site) :
    ((b.watch f.id (· ++ [call.id])).setCall call).Attended := by
  refine ⟨(ids_setCall _ call).symm ▸ h.numbers, ?_, ?_⟩
  · intro x hx id awaits
    rcases mem_setCall hx with rfl | ⟨hx, -⟩
    · obtain ⟨g, hg, number, lookup, watchers⟩ := watch_mem there f.id (· ++ [x.id])
      obtain rfl : f.id = id := Option.some.inj (waits.symm.trans awaits)
      refine ⟨g, hg, number, ?_, lookup ▸ key⟩
      rw [watchers, if_pos rfl]
      exact List.mem_append_right _ (List.mem_singleton_self _)
    · obtain ⟨g, hg, rfl, watched, key⟩ := h.waits x hx id awaits
      obtain ⟨g', hg', number, lookup, watchers⟩ := watch_mem hg f.id (· ++ [call.id])
      refine ⟨g', hg', number, ?_, lookup ▸ key⟩
      rw [watchers]
      split
      · exact List.mem_append_left _ watched
      · exact watched
  · intro g' hg' w watches
    have changed : g' ∈ (b.watch f.id (· ++ [call.id])).fetches := hg'
    obtain ⟨g, hg, number, -, watchers⟩ := mem_watch changed
    have old (watched : w ∈ g.watchers) :
        ∃ x ∈ ((b.watch f.id (· ++ [call.id])).setCall call).calls, x.id = w ∧
          x.awaits? = some g'.id := by
      obtain ⟨x, hx, rfl, awaits⟩ := h.watched g hg w watched
      exact ⟨x, setCall_other hx (same ▸ h.apart hx mem awaits idle), rfl, number ▸ awaits⟩
    rw [watchers] at watches
    split at watches
    · next at_f =>
      rcases List.mem_append.1 watches with watched | new
      · exact old watched
      · refine ⟨call, setCall_mem mem same, (List.mem_singleton.1 new).symm, ?_⟩
        rw [number, at_f, waits]
    · exact old watches

/-- A call that does not wait comes to wait for a fetch that begins for it. -/
theorem Attended.begin (h : b.Attended) {c call : Call} (mem : c ∈ b.calls)
    (same : call.id = c.id) (idle : c.awaits? = none) (waits : call.awaits? = some b.nextFetch)
    (pending : List Registration) :
    Attended (Books.setCall { b with
      fetches := b.fetches ++ [{ id := b.nextFetch, lookup := call.current, watchers := [call.id] }]
      pending
      nextFetch := b.nextFetch + 1 } call) := by
  refine ⟨(ids_setCall _ call).symm ▸ h.numbers, ?_, ?_⟩
  · intro x hx id awaits
    rcases mem_setCall hx with rfl | ⟨hx, -⟩
    · obtain rfl : b.nextFetch = id := Option.some.inj (waits.symm.trans awaits)
      exact ⟨_, List.mem_append_right _ (List.mem_singleton_self _), rfl,
        List.mem_singleton_self _, rfl⟩
    · obtain ⟨g, hg, rest⟩ := h.waits x hx id awaits
      exact ⟨g, List.mem_append_left _ hg, rest⟩
  · intro g hg w watches
    rcases List.mem_append.1 hg with old | new
    · obtain ⟨x, hx, rfl, awaits⟩ := h.watched g old w watches
      exact ⟨x, setCall_other hx (same ▸ h.apart hx mem awaits idle), rfl, awaits⟩
    · obtain rfl := List.mem_singleton.1 new
      exact ⟨call, setCall_mem mem same, (List.mem_singleton.1 watches).symm, waits⟩

/-- A call that waits gives up, and is no watcher any more. -/
theorem Attended.giveUp (h : b.Attended) {c call : Call} {id : Nat} (mem : c ∈ b.calls)
    (same : call.id = c.id) (waited : c.awaits? = some id) (idle : call.awaits? = none) :
    ((b.setCall call).watch id (·.filter (· != c.id))).Attended := by
  refine ⟨(ids_setCall b call).symm ▸ h.numbers, ?_, ?_⟩
  · intro x hx id' awaits
    rcases mem_setCall hx with rfl | ⟨hx, other⟩
    · simp [idle] at awaits
    · obtain ⟨g, hg, rfl, watched, key⟩ := h.waits x hx id' awaits
      obtain ⟨g', hg', number, lookup, watchers⟩ :=
        watch_mem (b := b.setCall call) hg id (·.filter (· != c.id))
      refine ⟨g', hg', number, ?_, lookup ▸ key⟩
      rw [watchers]
      split
      · exact List.mem_filter.2 ⟨watched, by simpa [same] using other⟩
      · exact watched
  · intro g' hg' w watches
    obtain ⟨g, hg, number, -, watchers⟩ := mem_watch hg'
    -- a call waits for one fetch only, so that it is no watcher of any other
    have away : w ∈ g.watchers ∧ w ≠ c.id := by
      rw [watchers] at watches
      split at watches
      · simpa using List.mem_filter.1 watches
      · next elsewhere =>
        refine ⟨watches, ?_⟩
        rintro rfl
        obtain ⟨x, hx, number, awaits⟩ := h.watched g hg _ watches
        rw [h.eq hx mem number, waited] at awaits
        exact elsewhere (Option.some.inj awaits).symm
    obtain ⟨x, hx, rfl, awaits⟩ := h.watched g hg w away.1
    exact ⟨x, setCall_other hx (same ▸ away.2), rfl, number ▸ awaits⟩

/-- The watchers of a fetch whose end is announced wait no longer. -/
theorem Attended.announce (h : b.Attended) (registered : b.Registered) {f : Fetch}
    (mem : f ∈ b.fetches) (outcome : Outcome) (pending : List Registration) :
    Attended (Books.tell { b with
      fetches := b.fetches.filter fun g => g.id != f.id
      pending } outcome f.watchers) := by
  refine ⟨(ids_tell _ outcome f.watchers).symm ▸ h.numbers, ?_, ?_⟩
  · intro x hx id awaits
    obtain ⟨c, hc, ⟨-, rfl⟩ | ⟨spared, rfl⟩⟩ := mem_tell hx
    · simp [Call.awaits?] at awaits
    · obtain ⟨g, hg, rfl, watched, key⟩ := h.waits x hc id awaits
      have other : g.id ≠ f.id := fun same => spared (registered.eq hg mem same ▸ watched)
      exact ⟨g, List.mem_filter.2 ⟨hg, by simpa using other⟩, rfl, watched, key⟩
  · intro g hg w watches
    obtain ⟨there, other⟩ := List.mem_filter.1 hg
    obtain ⟨x, hx, rfl, awaits⟩ := h.watched g there w watches
    have spared : x.id ∉ f.watchers := by
      intro told
      obtain ⟨y, hy, same, waited⟩ := h.watched f mem x.id told
      rw [h.eq hy hx same, awaits] at waited
      simp [Option.some.inj waited] at other
    exact ⟨x, List.mem_map.2 ⟨x, hx, if_neg spared⟩, rfl, awaits⟩

/-- A call that is opened does not wait yet. -/
theorem Attended.openCall (h : b.Attended) {call : Call} (unused : ∀ c ∈ b.calls, c.id ≠ call.id)
    (idle : call.awaits? = none) : Attended { b with calls := b.calls ++ [call] } := by
  refine ⟨?_, ?_, ?_⟩
  · rw [List.map_append, List.map_singleton, List.nodup_append]
    refine ⟨h.numbers, List.nodup_singleton _, ?_⟩
    rintro id there _ new rfl
    obtain ⟨c, mem, same⟩ := List.mem_map.1 there
    exact unused c mem (same.trans (List.mem_singleton.1 new))
  · intro c mem id awaits
    rcases List.mem_append.1 mem with old | new
    · exact h.waits c old id awaits
    · rw [List.mem_singleton.1 new, idle] at awaits
      cases awaits
  · intro f mem w watches
    obtain ⟨c, there, rest⟩ := h.watched f mem w watches
    exact ⟨c, List.mem_append_left _ there, rest⟩

/-- A call that is closed waits no longer. -/
theorem Attended.close (h : b.Attended) {call : Call} (mem : call ∈ b.calls)
    (idle : call.awaits? = none) :
    Attended { b with calls := b.calls.filter fun c => c.id != call.id } := by
  refine ⟨h.numbers.sublist (List.filter_sublist.map _), ?_, ?_⟩
  · exact fun c there => h.waits c (List.mem_filter.1 there).1
  · intro f there w watches
    obtain ⟨c, hc, rfl, awaits⟩ := h.watched f there w watches
    have other := h.apart hc mem awaits idle
    exact ⟨c, List.mem_filter.2 ⟨hc, by simpa using other⟩, rfl, awaits⟩

end Books

end Typeahead
