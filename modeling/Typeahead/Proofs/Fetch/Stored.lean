import Typeahead.Proofs.Cache.Entries
import Typeahead.Proofs.Fetch.History

/-!
What a step of a pool does to its cache. Calls read it, clearing it and another time to live change it, and
a fetch that ends with names stores them; nothing else touches it.

- `cache_step`: what a step of a fetch stores.
- `stored_of_ends`: with whatever names a fetch ends, they are stored.
- `step_cache`: what holds of the cache and is kept by all of this holds after every step.
- `cached_step`: the same of its entries one by one.
-/

namespace Typeahead.Pool

section

variable {p q : Pool}

/-- What a fetch does by itself changes the cache only where it ends with names. -/
theorem FetchMove.stores {f : Fetch} {now : Seconds} {came : Option Reply}
    (move : FetchMove p now came f q) : q.cache = p.cache ∨ ∃ names,
      Moved p f (.ended (.names names)) q ∧
      p.cache.set now (f.lookup.key p.site) names = .ok q.cache := by
  cases move with
  | queue _ dealings => exact .inl (congrArg Dealings.cache dealings)
  | ask _ _ _ _ dealings => exact .inl (congrArg Dealings.cache dealings)
  | hear _ _ _ _ dealings => exact .inl (congrArg Dealings.cache dealings)
  | expire _ _ _ dealings => exact .inl (congrArg Dealings.cache dealings)
  | fail _ _ _ _ dealings => exact .inl (congrArg Dealings.cache dealings)
  | refuse _ _ dealings => exact .inl (congrArg Dealings.cache dealings)
  | serve _ _ _ stored moved dealings =>
    have cache : q.cache = _ := congrArg Dealings.cache dealings
    exact .inr ⟨_, moved, cache ▸ stored⟩

/-- A fetch that ends with names stores them. -/
theorem FetchMove.served {f g : Fetch} {now : Seconds} {came : Option Reply}
    (move : FetchMove p now came f q) (there : g ∈ q.fetches) (same : g.id = f.id) {names : List Text}
    (ended : g.stage = .ended (.names names)) :
    p.cache.set now (f.lookup.key p.site) names = .ok q.cache := by
  have only {stage : FetchStage} (moved : Moved p f stage q) : stage = .ended (.names names) :=
    (moved.self g there same).2.1.symm.trans ended
  cases move with
  | queue moved => cases only moved
  | ask _ _ _ moved => cases only moved
  | hear _ _ _ moved => cases only moved
  | expire _ _ moved => cases only moved
  | fail nameless _ _ moved => exact absurd (FetchStage.ended.inj (only moved)) (nameless names)
  | refuse _ moved => cases only moved
  | serve _ _ _ stored moved dealings =>
    have cache : q.cache = _ := congrArg Dealings.cache dealings
    cases only moved
    exact cache ▸ stored

/-- Whatever the step is in which a fetch ends with names, the names are stored in it. -/
theorem stored_of_ends (kept : p.books.Kept) {f : Fetch} (mem : f ∈ p.fetches)
    (unfinished : f.isUnfinished = true) {now : Seconds} {e : PoolEvent} {names : List Text}
    (ends : (p.step now e).outcome? f.id = some (.names names)) :
    p.cache.set now (f.lookup.key p.site) names = .ok (p.step now e).cache := by
  obtain ⟨g, there, number, stage⟩ := ended_of_outcome? ends
  obtain ⟨move, -⟩ :=
    move_of_ended kept mem unfinished there number (Fetch.isUnfinished_eq_false.2 ⟨_, stage⟩)
  exact move.served there number stage

/-- A step that concerns a fetch changes the cache only if the fetch ends in it, and with names; these are
then stored. -/
theorem cache_step {slots : Int} (reachable : Reachable slots p) (now : Seconds) {e : PoolEvent} {id : Nat}
    (concerns : e.fetch? = some id) : (p.step now e).cache = p.cache ∨
      ∃ f ∈ p.fetches, f.id = id ∧ f.isUnfinished = true ∧ ∃ names,
        (p.step now e).outcome? id = some (.names names) ∧
        p.cache.set now (f.lookup.key p.site) names = .ok (p.step now e).cache := by
  by_cases announced : e = .announce id
  · subst announced
    exact .inl (cache_announce p id)
  · obtain same | ⟨f, mem, rfl, unfinished, move⟩ := step_moves reachable.kept now concerns announced
    · exact .inl (by rw [same])
    · rcases move.stores with same | ⟨names, moved, stored⟩
      · exact .inl same
      · obtain ⟨g, there, number, -⟩ :=
          step_lasts reachable.gated reachable.kept mem now e fun _ => unfinished
        have ends := outcome?_of_mem (reachable.step now e).kept there (moved.self g there number).2.1
        exact .inr ⟨f, mem, rfl, unfinished, names, number ▸ ends, stored⟩

/-- A look reads the cache under the key of the lookup. -/
theorem cache_look (p : Pool) (now : Seconds) (call : Call) :
    (p.look now call).2.cache = (p.cache.get now (call.current.key p.site)).2 := by
  unfold look
  dsimp only
  split
  · rfl
  · rfl
  · split <;> rfl

theorem cache_conclude {P : Cache → Prop} (now : Seconds) (call : Call) (outcome : Outcome)
    (start : P p.cache) (get : ∀ c key, P c → P (c.get now key).2) :
    P (p.conclude now call outcome).cache := by
  unfold conclude
  split
  · exact start
  · next lookup _ =>
    have looked := p.cache_look now { call with current := lookup }
    dsimp only
    split
    · next found =>
      rw [found] at looked
      exact looked ▸ get _ _ start
    · next found =>
      rw [found] at looked
      exact looked ▸ get _ _ start

/-- A call does nothing to the cache but read it. -/
theorem cache_callStep {P : Cache → Prop} (now : Seconds) (id : Nat) (start : P p.cache)
    (get : ∀ c key, P c → P (c.get now key).2) : P (p.callStep now id).cache := by
  unfold callStep
  split
  · exact start
  · next c _ =>
    split
    · exact start
    · exact start
    · have looked := p.cache_look now c
      unfold beginCall
      split
      · next found =>
        rw [found] at looked
        exact cache_conclude now c _ (looked ▸ get _ _ start) get
      · next found =>
        rw [found] at looked
        exact looked ▸ get _ _ start
    · exact cache_conclude now c _ start get
    · exact start

/-- What holds of the cache holds after a step if it is kept when the cache is read or cleared, gets
another time to live, or stores the names with which a fetch ends. -/
theorem step_cache {slots : Int} {P : Cache → Prop} (reachable : Reachable slots p) (now : Seconds)
    (e : PoolEvent) (start : P p.cache) (get : ∀ c key, P c → P (c.get now key).2)
    (clear : P p.cache.clear)
    (setTtl : ∀ ttl given c, p.cache.setTtl? now ttl given = .ok c → P c)
    (set : ∀ f ∈ p.fetches, ∀ names c, e.fetch? = some f.id → f.isUnfinished = true →
      (p.step now e).outcome? f.id = some (.names names) →
      p.cache.set now (f.lookup.key p.site) names = .ok c → P c) :
    P (p.step now e).cache := by
  have byFetch {id : Nat} (concerns : e.fetch? = some id) : P (p.step now e).cache := by
    obtain same | ⟨f, mem, rfl, unfinished, names, ends, stored⟩ := cache_step reachable now concerns
    · exact same ▸ start
    · exact set f mem names _ concerns unfinished ends stored
  cases e with
  | openCall id context =>
    obtain same | ⟨-, lookup, opened⟩ := p.step_openCall_cases now id context
    · rwa [same]
    · rwa [opened]
  | abandon id =>
    change P (p.abandon id).cache
    obtain same | ⟨c, -, -, ⟨-, same⟩ | ⟨fetch, -, same⟩⟩ := p.abandon_cases id
    · rwa [same]
    · rwa [same]
    · rwa [same]
  | callStep id => exact cache_callStep now id start get
  | cancelPending =>
    have dealings := ((Stirred.refl p).stopFetches (p.pending.map (·.fetch))).dealings
    have same : p.cancelPending.cache = p.cache := congrArg Dealings.cache dealings
    exact same ▸ start
  | clearCache => exact clear
  | setTtl ttl given =>
    change P ((p.setTtl? now ttl given).toOption.getD p).cache
    unfold setTtl?
    cases changed : p.cache.setTtl? now ttl given with
    | error => exact start
    | ok cache => exact setTtl ttl given cache changed
  | resetAuth => exact start
  | fetchStep id => exact byFetch rfl
  | announce id => exact byFetch rfl
  | arrive id reply => exact byFetch rfl
  | arriveAtOnce id reply => exact byFetch rfl
  | expire id => exact byFetch rfl

/-- What holds of all that is in the cache holds of it after a step, if it holds of what a fetch stores. -/
theorem cached_step {slots : Int} {holds : Text → List Text → Seconds → Prop}
    (reachable : Reachable slots p) (h : p.cache.All holds) (now : Seconds) (e : PoolEvent)
    (fresh : ∀ f ∈ p.fetches, e.fetch? = some f.id → f.isUnfinished = true →
      ∀ names, (p.step now e).outcome? f.id = some (.names names) →
      holds (f.lookup.key p.site) names now) : (p.step now e).cache.All holds := by
  apply step_cache (P := fun c => c.All holds) reachable now e h
  · exact fun c key all => all.get now key
  · exact fun e mem => absurd mem List.not_mem_nil
  · exact fun ttl given c changed => h.setTtl? changed
  · intro f mem names c concerns unfinished ends stored
    exact h.set (fresh f mem concerns unfinished names ends) stored

theorem distinct_step {slots : Int} (reachable : Reachable slots p) (h : p.cache.Distinct) (now : Seconds)
    (e : PoolEvent) : (p.step now e).cache.Distinct := by
  apply step_cache (P := Cache.Distinct) reachable now e h
  · exact fun c key distinct => distinct.get now key
  · exact List.nodup_nil
  · exact fun ttl given c changed => Cache.Distinct.setTtl? changed
  · exact fun f mem names c concerns unfinished ends stored => h.set stored

/-- A new pool keeps nothing in its cache. -/
theorem entries_create {site : Text} {base : Path} {ttl : Seconds} {size slots : Int} {limit : Number}
    (created : create site base ttl size slots limit = .ok p) : p.cache.entries = [] := by
  by_cases negative : size < 0
  · simp [create, Cache.create, negative, Except.mapError, bind, Except.bind] at created
  · simp only [create, Cache.create, negative, Except.mapError, bind, Except.bind, if_false] at created
    split at created
    · cases created
    · cases created
      rfl

end

end Typeahead.Pool
