import Typeahead.Proofs.Fetch.Register

/-!
The books of a pool are kept through every step.

- `callStep_cases`: a call settles, ends, begins a fetch of a key that is not registered, or joins the
  fetch of one that is.
- `step_openCall_cases`, `abandon_cases`, `announce_eq`: what the other events do to the calls.
- `Reachable.kept`: the books of a pool are kept, whatever happens to it.
-/

namespace Typeahead

theorem find?_of_nodup {α : Type} {number : α → Nat} {xs : List α} (nodup : (xs.map number).Nodup)
    {x : α} (mem : x ∈ xs) : xs.find? (fun y => number y = number x) = some x := by
  cases found : xs.find? fun y => number y = number x with
  | none => simpa using List.find?_eq_none.1 found x mem
  | some y =>
    have same : number y = number x := by simpa using List.find?_some found
    rw [List.inj_on_of_nodup_map nodup (List.mem_of_find?_eq_some found) mem same]

namespace Books

/-- The register does not depend on the calls. -/
theorem Registered.withCalls {b : Books} (h : b.Registered) (calls : List Call) :
    Registered { b with calls } := ⟨h.register, h.keys, h.numbers, h.given⟩

theorem tell_nil (b : Books) (outcome : Outcome) : b.tell outcome [] = b := by
  simp [tell]

theorem tell_cons (b : Books) (outcome : Outcome) (id : Nat) (ids : List Nat) :
    (b.tell outcome [id]).tell outcome ids = b.tell outcome (id :: ids) := by
  simp only [tell, List.map_map, Books.mk.injEq, true_and, and_true]
  apply List.map_congr_left
  intro c _
  simp only [Function.comp, List.mem_cons, List.not_mem_nil, or_false]
  by_cases first : c.id = id <;> by_cases later : c.id ∈ ids <;> simp [first, later]

end Books

/-- Only tags stand in, for the values of a key, and nothing for them. -/
theorem Call.standIn?_eq_some {c : Call} {lookup : Lookup} (h : c.standIn? = some lookup) :
    c.current = c.wanted ∧ ∃ metric key,
      c.wanted = { dataset := .tagValues, scope := [metric, key] } ∧
      lookup = { dataset := .tags, scope := [metric] } := by
  unfold standIn? at h
  split at h
  · next metric key dataset scope =>
    split at h
    · next same =>
      cases h
      exact ⟨same, metric, key, by rw [← dataset, ← scope], rfl⟩
    · cases h
  · cases h

namespace Pool

variable {p : Pool}

theorem mem_books {f : Fetch} (mem : f ∈ p.fetches) : f.unmoved ∈ p.books.fetches :=
  List.mem_map_of_mem mem

theorem ids_books (p : Pool) : p.books.fetches.map (·.id) = p.fetches.map (·.id) := by
  simp [books, Fetch.unmoved, Function.comp_def]

theorem mem_of_fetch? {id : Nat} {f : Fetch} (h : p.fetch? id = some f) :
    f ∈ p.fetches ∧ f.id = id :=
  ⟨List.mem_of_find?_eq_some h, by simpa using List.find?_some h⟩

theorem mem_of_call? {id : Nat} {c : Call} (h : p.call? id = some c) :
    c ∈ p.calls ∧ c.id = id :=
  ⟨List.mem_of_find?_eq_some h, by simpa using List.find?_some h⟩

theorem fetch?_of_mem (h : p.books.Kept) {f : Fetch} (mem : f ∈ p.fetches) :
    p.fetch? f.id = some f :=
  find?_of_nodup (α := Fetch) (ids_books p ▸ h.registered.numbers) mem

theorem ended_of_outcome? {id : Nat} {outcome : Outcome} (h : p.outcome? id = some outcome) :
    ∃ f ∈ p.fetches, f.id = id ∧ f.stage = .ended outcome := by
  unfold outcome? at h
  split at h
  · next found =>
    obtain ⟨mem, number⟩ := mem_of_fetch? found
    exact ⟨_, mem, number, congrArg FetchStage.ended (Option.some.inj h)⟩
  · cases h

theorem unregistered {key : Text} (h : p.registered? key = none) :
    ∀ r ∈ p.pending, r.key ≠ key := by
  simpa [registered?] using h

/-- The fetch that is found under a key is a fetch of that key. -/
theorem registered_fetch (h : p.books.Kept) {key : Text} {id : Nat}
    (found : p.registered? key = some id) :
    ∃ f ∈ p.fetches, f.id = id ∧ f.lookup.key p.site = key := by
  obtain ⟨r, hr, rfl⟩ := Option.map_eq_some_iff.1 found
  have entered : r ∈ p.books.fetches.map (Fetch.registration p.site) :=
    h.registered.register ▸ List.mem_of_find?_eq_some hr
  simp only [books, List.map_map, List.mem_map] at entered
  obtain ⟨f, mem, rfl⟩ := entered
  have key := List.find?_some hr
  exact ⟨f, mem, rfl, of_decide_eq_true key⟩

/-- Every fetch is found under its key. -/
theorem registered?_of_mem (h : p.books.Kept) {f : Fetch} (mem : f ∈ p.fetches) :
    p.registered? (f.lookup.key p.site) = some f.id := by
  have entered : f.unmoved.registration p.site ∈ p.books.pending := by
    rw [h.registered.register]
    exact List.mem_map_of_mem (mem_books mem)
  cases found : p.registered? (f.lookup.key p.site) with
  | none => exact absurd rfl (unregistered found _ entered)
  | some id =>
    obtain ⟨g, hg, rfl, key⟩ := registered_fetch h found
    exact congrArg (some ·.id) (h.registered.eq_of_key (mem_books hg) (mem_books mem) key)

theorem books_updateWatchers (p : Pool) (id : Nat) (change : List Nat → List Nat) :
    (p.updateFetch id fun f => { f with watchers := change f.watchers }).books =
      p.books.watch id change := by
  simp only [books, updateFetch, Books.watch, List.map_map, Books.mk.injEq, true_and]
  apply List.map_congr_left
  intro f _
  simp only [Function.comp]
  by_cases same : f.id = id
  · rw [if_pos same, if_pos (show f.unmoved.id = id from same)]
    rfl
  · rw [if_neg same, if_neg (show ¬ f.unmoved.id = id from same)]

theorem books_join (p : Pool) (call : Call) (id : Nat) :
    (p.join call id).books =
      (p.books.watch id (· ++ [call.id])).setCall { call with stage := .waiting id } := by
  rw [← books_updateWatchers]
  rfl

theorem books_beginFetch (p : Pool) (call : Call) :
    (p.beginFetch call).books = Books.setCall { p.books with
      fetches := p.books.fetches ++
        [{ id := p.nextFetch, lookup := call.current, watchers := [call.id] }]
      pending := p.pending ++ [⟨call.current.key p.site, p.nextFetch⟩]
      nextFetch := p.nextFetch + 1 } { call with stage := .waiting p.nextFetch } := by
  simp [books, beginFetch, Pool.setCall, post, Books.setCall, Fetch.unmoved]

/-- What a call does in its step. It may go by another lookup from now on. -/
inductive CallMove (p : Pool) (c : Call) : Pool → Prop where
  | settle (cache : Cache) (outcome : Outcome) : c.stage = .ended outcome →
    CallMove p c
      (({ p with cache, calls := p.calls.filter fun x => x.id != c.id } : Pool).post
        (.settled c.id (c.resolution outcome)))
  | finish (cache : Cache) (call : Call) (outcome : Outcome) : call.id = c.id →
    call.wanted = c.wanted → call.abandoned = c.abandoned →
    CallMove p c (({ p with cache } : Pool).endCall call outcome)
  | begin (cache : Cache) (call : Call) : call.id = c.id → call.abandoned = false →
    p.registered? (call.current.key p.site) = none → call.wanted = c.wanted →
    CallMove p c (({ p with cache } : Pool).beginFetch call)
  | join (cache : Cache) (call : Call) (fetch : Nat) : call.id = c.id → call.abandoned = false →
    p.registered? (call.current.key p.site) = some fetch → call.wanted = c.wanted →
    CallMove p c (({ p with cache } : Pool).join call fetch)

/-- A look finds something out and leaves all as it is but for the cache, or makes the call wait. -/
theorem look_cases (p : Pool) (now : Seconds) (call : Call) {c : Call} (same : call.id = c.id)
    (going : call.abandoned = false) (wanted : call.wanted = c.wanted) :
    (∃ outcome cache, p.look now call = (some outcome, { p with cache })) ∨
    ∃ q, p.look now call = (none, q) ∧ CallMove p c q := by
  unfold look
  dsimp only
  split
  · exact .inl ⟨_, _, rfl⟩
  · next missing => exact .inr ⟨_, rfl, .begin _ call same going missing wanted⟩
  · next id _ found =>
    split
    · exact .inl ⟨_, _, rfl⟩
    · exact .inr ⟨_, rfl, .join _ call id same going found wanted⟩

theorem conclude_cases (p : Pool) (now : Seconds) {c : Call} (going : c.abandoned = false)
    (outcome : Outcome) : CallMove p c (p.conclude now c outcome) := by
  unfold conclude
  split
  · exact .finish p.cache c _ rfl rfl rfl
  · next lookup _ =>
    let call := { c with current := lookup }
    obtain ⟨o, cache, looked⟩ | ⟨q, looked, moved⟩ :=
      p.look_cases now call (c := c) rfl going rfl
    · simp only [looked, call]
      exact .finish cache _ _ rfl rfl rfl
    · simpa only [looked, call] using moved

/-- Another cache before the step of a call is another cache after it. -/
theorem CallMove.of_cache {q : Pool} {c : Call} {cache : Cache}
    (h : CallMove { p with cache } c q) : CallMove p c q := by
  cases h with
  | settle cache outcome ended => exact .settle cache outcome ended
  | finish cache call outcome same wanted gone => exact .finish cache call outcome same wanted gone
  | begin cache call same going missing wanted => exact .begin cache call same going missing wanted
  | join cache call fetch same going found wanted => exact .join cache call fetch same going found wanted

theorem callStep_moves {c : Call} {id : Nat} (found : p.call? id = some c) (idle : c.awaits? = none)
    (now : Seconds) : CallMove p c (p.callStep now id) := by
  have number : id = c.id := (mem_of_call? found).2.symm
  simp only [callStep, found]
  split
  · next outcome ended =>
    rw [number]
    exact .settle p.cache outcome ended
  · exact .finish p.cache c .stopped rfl rfl rfl
  · next stage going =>
    unfold beginCall
    obtain ⟨outcome, cache, looked⟩ | ⟨q, looked, moved⟩ := p.look_cases now c rfl going rfl
    · rw [looked]
      exact (conclude_cases _ now going outcome).of_cache
    · rw [looked]
      exact moved
  · next outcome stage going => exact conclude_cases p now going outcome
  · next stage going => simp [Call.awaits?, stage, going] at idle

/-- A call that waits has no step to take. -/
theorem callStep_waits {c : Call} {id fetch : Nat} (found : p.call? id = some c)
    (waits : c.awaits? = some fetch) (now : Seconds) : p.callStep now id = p := by
  obtain ⟨stage, going⟩ := Call.awaits?_eq_some.1 waits
  simp only [callStep, found, stage, going]

theorem callStep_cases (p : Pool) (now : Seconds) (id : Nat) :
    p.callStep now id = p ∨
    ∃ c, p.call? id = some c ∧ c.awaits? = none ∧ CallMove p c (p.callStep now id) := by
  cases found : p.call? id with
  | none => exact .inl (by simp only [callStep, found])
  | some c =>
    cases waits : c.awaits? with
    | none => exact .inr ⟨c, rfl, waits, callStep_moves found waits now⟩
    | some fetch => exact .inl (callStep_waits found waits now)

/-- A call that is opened ends at once, or has its first step to take. -/
theorem openCall_cases (p : Pool) (id : Nat) (context : Context) :
    (∃ resolution, p.openCall id context = (some resolution, p)) ∨
    ∃ lookup, p.openCall id context = (none, ({ p with
      calls := p.calls ++ [{ id, wanted := lookup, current := lookup }] } : Pool).post (.callDue id)) := by
  unfold openCall
  split
  · exact .inl ⟨_, rfl⟩
  · split
    · exact .inl ⟨_, rfl⟩
    · exact .inr ⟨_, rfl⟩

/-- An event that opens a call does nothing, or there is a new call with its first step to take. -/
theorem step_openCall_cases (p : Pool) (now : Seconds) (id : Nat) (context : Context) :
    p.step now (.openCall id context) = p ∨
    p.call? id = none ∧ ∃ lookup, p.step now (.openCall id context) = ({ p with
      calls := p.calls ++ [{ id, wanted := lookup, current := lookup }] } : Pool).post (.callDue id) := by
  cases unused : p.call? id with
  | some c => exact .inl (by simp [step, unused])
  | none =>
    have opens : p.step now (.openCall id context) = (p.openCall id context).2 := by simp [step, unused]
    obtain ⟨resolution, same⟩ | ⟨lookup, opened⟩ := p.openCall_cases id context
    · exact .inl (by rw [opens, same])
    · exact .inr ⟨rfl, lookup, by rw [opens, opened]⟩

/-- A call that is given up is marked as such. If it waited, it leaves its fetch and has a step to take. -/
theorem abandon_cases (p : Pool) (id : Nat) :
    p.abandon id = p ∨ ∃ c ∈ p.calls, c.id = id ∧
      (c.awaits? = none ∧ p.abandon id = p.setCall { c with abandoned := true } ∨
      ∃ fetch, c.awaits? = some fetch ∧
        p.abandon id = ((p.setCall { c with abandoned := true }).updateFetch fetch fun f =>
          { f with watchers := f.watchers.filter (· != id) }).post (.callDue id)) := by
  cases found : p.call? id with
  | none => exact .inl (by simp only [abandon, found])
  | some c =>
    obtain ⟨mem, rfl⟩ := mem_of_call? found
    refine .inr ⟨c, mem, rfl, ?_⟩
    cases waits : c.awaits? with
    | some fetch =>
      obtain ⟨stage, going⟩ := Call.awaits?_eq_some.1 waits
      exact .inr ⟨fetch, rfl, by simp only [abandon, found, stage, going]⟩
    | none =>
      refine .inl ⟨rfl, ?_⟩
      simp only [abandon, found]
      split
      · next stage going => simp [Call.awaits?, stage, going] at waits
      · rfl

theorem books_tell (numbers : (p.calls.map (·.id)).Nodup) (outcome : Outcome) (id : Nat) :
    (p.tell outcome id).books = p.books.tell outcome [id] := by
  unfold tell
  split
  · next c found =>
    obtain ⟨mem, rfl⟩ := mem_of_call? found
    simp only [books, Pool.setCall, post, Books.tell, Books.mk.injEq, true_and, and_true]
    apply List.map_congr_left
    intro x there
    simp only [List.mem_singleton]
    split
    · next same => rw [List.inj_on_of_nodup_map numbers there mem same]
    · rfl
  · next missing =>
    simp only [books, Books.tell, Books.mk.injEq, true_and, and_true]
    refine ((List.map_congr_left fun x there => if_neg ?_).trans (List.map_id' _)).symm
    simpa using List.find?_eq_none.1 missing x there

theorem books_tellAll (numbers : (p.calls.map (·.id)).Nodup) (outcome : Outcome) (ids : List Nat) :
    (ids.foldl (tell outcome) p).books = p.books.tell outcome ids := by
  induction ids generalizing p with
  | nil => exact (Books.tell_nil ..).symm
  | cons id ids ih =>
    have first := books_tell numbers outcome id
    have still : ((p.tell outcome id).calls.map (·.id)).Nodup := by
      change ((p.tell outcome id).books.calls.map (·.id)).Nodup
      rw [first, Books.ids_tell]
      exact numbers
    rw [List.foldl_cons, ih still, first, Books.tell_cons]

/-- When its end is announced a fetch leaves the pool and the register, and its watchers are told. -/
theorem announce_eq (h : p.books.Kept) {f : Fetch} (mem : f ∈ p.fetches)
    {outcome : Outcome} (ended : f.stage = .ended outcome) :
    p.announce f.id = f.watchers.foldl (tell outcome) { p with
      fetches := p.fetches.filter fun g => g.id != f.id
      pending := p.pending.filter fun r => r.key != f.lookup.key p.site } := by
  simp only [announce, fetch?_of_mem h mem, ended, forget, registered?_of_mem h mem, if_true]

/-- An announcement strikes the fetch off the books and tells its watchers. -/
theorem books_announce (h : p.books.Kept) {f : Fetch} (mem : f ∈ p.fetches)
    {outcome : Outcome} (ended : f.stage = .ended outcome) :
    (p.announce f.id).books = Books.tell { p.books with
      fetches := p.books.fetches.filter fun g => g.id != f.id
      pending := p.books.pending.filter fun r => r.key != f.lookup.key p.site }
      outcome f.watchers := by
  rw [announce_eq h mem ended]
  refine (books_tellAll (by exact h.attended.numbers) outcome f.watchers).trans ?_
  simp only [books, List.filter_map, Function.comp_def, Fetch.unmoved]

/-- An announcement of a fetch that has not ended, or is not there, is none. -/
theorem announce_cases (p : Pool) (id : Nat) :
    p.announce id = p ∨ ∃ f outcome, f ∈ p.fetches ∧ f.id = id ∧ f.stage = .ended outcome := by
  unfold announce
  split
  · next f found =>
    split
    · next outcome ended =>
      obtain ⟨mem, number⟩ := mem_of_fetch? found
      exact .inr ⟨f, outcome, mem, number, ended⟩
    · exact .inl rfl
  · exact .inl rfl

theorem kept_announce (h : p.books.Kept) (id : Nat) : (p.announce id).books.Kept := by
  obtain same | ⟨f, outcome, mem, rfl, ended⟩ := p.announce_cases id
  · rwa [same]
  · rw [books_announce h mem ended]
    have there := mem_books mem
    exact ⟨(h.registered.announce there).withCalls _, h.attended.announce h.registered there ..⟩

theorem CallMove.kept {q : Pool} {c : Call} (move : CallMove p c q) (h : p.books.Kept)
    (mem : c ∈ p.calls) (idle : c.awaits? = none) : q.books.Kept := by
  cases move with
  | settle => exact ⟨h.registered.withCalls _, h.attended.close mem idle⟩
  | finish _ call outcome same =>
    exact ⟨h.registered.withCalls _, h.attended.setCall mem same idle rfl⟩
  | begin _ call same going missing =>
    rw [books_beginFetch]
    have waits : Call.awaits? { call with stage := .waiting p.nextFetch } = some p.nextFetch := by
      simp [Call.awaits?, going]
    refine ⟨(h.registered.begin call.current [call.id] (unregistered missing)).withCalls _,
      h.attended.begin mem ?_ idle waits _⟩
    exact same
  | join _ call fetch same going found =>
    obtain ⟨f, there, rfl, key⟩ := registered_fetch h found
    rw [books_join]
    have waits : Call.awaits? { call with stage := .waiting f.id } = some f.id := by
      simp [Call.awaits?, going]
    refine ⟨(h.registered.watch ..).withCalls _,
      h.attended.join mem ?_ idle (mem_books there) waits key⟩
    exact same

theorem kept_callStep (h : p.books.Kept) (now : Seconds) (id : Nat) :
    (p.callStep now id).books.Kept := by
  obtain same | ⟨c, found, idle, move⟩ := p.callStep_cases now id
  · rwa [same]
  · exact move.kept h (mem_of_call? found).1 idle

theorem kept_openCall (h : p.books.Kept) {id : Nat} (unused : p.call? id = none)
    (context : Context) : (p.openCall id context).2.books.Kept := by
  unfold openCall
  split
  · exact h
  · split
    · exact h
    · refine ⟨h.registered.withCalls _, h.attended.openCall (fun c mem => ?_) rfl⟩
      simpa using List.find?_eq_none.1 unused c mem

theorem kept_abandon (h : p.books.Kept) (id : Nat) : (p.abandon id).books.Kept := by
  have idle (c : Call) : Call.awaits? { c with abandoned := true } = none := by simp [Call.awaits?]
  obtain same | ⟨c, mem, rfl, ⟨waited, same⟩ | ⟨fetch, waited, same⟩⟩ := p.abandon_cases id
  · rwa [same]
  · rw [same]
    exact ⟨h.registered.withCalls _, h.attended.setCall mem rfl waited (idle c)⟩
  · rw [same, books_post, books_updateWatchers]
    exact ⟨(h.registered.withCalls _).watch .., h.attended.giveUp mem rfl waited (idle c)⟩

/-- Another time to live concerns nothing but the cache. -/
theorem setTtl_cases (p : Pool) (now ttl : Seconds) (given : Number) :
    ∃ cache, p.step now (.setTtl ttl given) = { p with cache } := by
  change ∃ cache, (p.setTtl? now ttl given).toOption.getD p = _
  unfold setTtl?
  cases p.cache.setTtl? now ttl given with
  | error => exact ⟨p.cache, rfl⟩
  | ok cache => exact ⟨cache, rfl⟩

/-- A new pool has nothing in it, and all of its slots are free. -/
theorem create_cases {site : Text} {base : Path} {ttl : Seconds} {size slots : Int} {limit : Number}
    (h : create site base ttl size slots limit = .ok p) :
    0 ≤ slots ∧ ∃ cache, p = { site, base, limit, cache, gate := { free := slots.toNat } } := by
  unfold create at h
  cases created : (Cache.create ttl size).mapError PoolError.cache with
  | error => simp [created, bind, Except.bind] at h
  | ok cache =>
    simp only [created, bind, Except.bind] at h
    split at h
    · cases h
    · next enough =>
      cases h
      exact ⟨by omega, cache, rfl⟩

theorem Reachable.slots_nonneg {slots : Int} (h : Reachable slots p) : 0 ≤ slots := by
  induction h with
  | create created => exact (create_cases created).1
  | step _ _ _ ih => exact ih

/-- No step makes a mess of the books. -/
theorem step_kept (h : p.books.Kept) (now : Seconds) (e : PoolEvent) :
    (p.step now e).books.Kept := by
  cases e with
  | openCall id context =>
    cases unused : p.call? id with
    | none => simpa [step, unused] using kept_openCall h unused context
    | some c => simpa [step, unused] using h
  | abandon id => exact kept_abandon h id
  | callStep id => exact kept_callStep h now id
  | fetchStep id => exact (books_fetchStep p now id).symm ▸ h
  | announce id => exact kept_announce h id
  | arrive id reply => exact (books_arrive p id reply).symm ▸ h
  | arriveAtOnce id reply => exact (books_arriveAtOnce p now id reply).symm ▸ h
  | expire id => exact (books_expire p id).symm ▸ h
  | cancelPending => exact (books_cancelPending p).symm ▸ h
  | clearCache => exact h
  | setTtl ttl given =>
    obtain ⟨cache, same⟩ := p.setTtl_cases now ttl given
    exact same ▸ h
  | resetAuth => exact h

theorem Reachable.kept {slots : Int} (h : Reachable slots p) : p.books.Kept := by
  induction h with
  | create created =>
    obtain ⟨-, cache, rfl⟩ := create_cases created
    refine ⟨⟨rfl, .nil, .nil, ?_⟩, ⟨.nil, ?_, ?_⟩⟩ <;> simp [books]
  | step now e _ ih => exact step_kept ih now e

end Pool

end Typeahead
