import Mathlib.Data.List.Induction
import Typeahead.Proofs.Fetch.Briefed

/-!
Where the names come from that callers get: out of a reply of the catalog to a request for the same list,
by way of the cache or of the fetch that is registered for the list. What stands in for names that the
catalog does not know comes from replies as well, the known facets aside.

- `run_informed`: whatever a pool keeps in its cache, or has fetched, has a source in the run.
- `briefed_since`: so has whatever its calls were told.
- `provenance`: what follows for the calls of every run.
-/

namespace Typeahead.Pool

/-- Why a call for a lookup ends with names. -/
inductive Served (start : Pool) (es : List (Seconds × PoolEvent)) (wanted : Lookup) :
    List Text → Prop where
  /-- The catalog gave them for the list that is wanted. -/
  | own {names : List Text} :
    Answered start es (wanted.key start.site) names → Served start es wanted names
  /-- The catalog does not know the values of a key, but it gave the tags among which they are. -/
  | tags {metric key : Text} {found : List Text} {error : CatalogError} :
    wanted = { dataset := .tagValues, scope := [metric, key] } → error.kind = .notFound →
    Concluded start es (wanted.key start.site) (.failed (.catalog error)) →
    Answered start es (Lookup.key { dataset := .tags, scope := [metric] } start.site) found →
    Served start es wanted (tagValues found key)
  /-- The catalog does not know the fields of logs. -/
  | facets {error : CatalogError} : wanted.dataset = .fields → error.kind = .notFound →
    Concluded start es (wanted.key start.site) (.failed (.catalog error)) →
    Served start es wanted Logs.defaultFacets

/-- In the course of a run the outcome of a lookup of this key came about, by one of some fetches. -/
def Reported (among : Nat → Prop) (start : Pool) (es : List (Seconds × PoolEvent)) (key : Text)
    (outcome : Outcome) : Prop :=
  ∃ fetch, among fetch ∧ Sourced start es fetch key outcome

/-- Whatever a pool keeps in its cache was taken in the run, and whatever its fetches hold has a source
in it. -/
structure Informed (start : Pool) (es : List (Seconds × PoolEvent)) (p : Pool) : Prop where
  distinct : p.cache.Distinct
  taken : p.cache.All fun key names fetched => Taken start es key names fetched
  grounded : ∀ f ∈ p.fetches, Grounded start es f

section

variable {start p q : Pool} {es : List (Seconds × PoolEvent)} {c : Call} {among who : Nat → Prop}

theorem Reported.answered {key : Text} {names : List Text}
    (h : Reported among start es key (.names names)) : Answered start es key names := by
  obtain ⟨fetch, -, sourced⟩ := h
  exact AnsweredBy.answered sourced

theorem Reported.concluded {key : Text} {failure : Failure}
    (h : Reported among start es key (.failed failure)) : Concluded start es key (.failed failure) := by
  obtain ⟨fetch, -, sourced⟩ := h
  exact sourced

theorem Reported.append {key : Text} {outcome : Outcome} (h : Reported among start es key outcome)
    (more : List (Seconds × PoolEvent)) : Reported among start (es ++ more) key outcome := by
  obtain ⟨fetch, free, sourced⟩ := h
  exact ⟨fetch, free, sourced.append more⟩

/-- Names that are endorsed by what came about are served for one of the reasons. -/
theorem served_of_endorsed {wanted : Lookup} {names : List Text}
    (h : Endorsed (Reported among start es) start.site wanted names) : Served start es wanted names := by
  cases h with
  | own knows => exact .own knows.answered
  | tags wanted unknown concluded knows =>
    exact .tags wanted unknown concluded.concluded knows.answered
  | facets wanted unknown concluded => exact .facets wanted unknown concluded.concluded

/-- How a grounded fetch has ended came about by it. -/
theorem Grounded.sourced {f : Fetch} (h : Grounded start es f) {outcome : Outcome}
    (ended : f.stage = .ended outcome) : Sourced start es f.id (f.lookup.key start.site) outcome := by
  unfold Grounded at h
  rwa [ended] at h

/-- No step makes up what a pool keeps in its cache, or what its fetches hold. -/
theorem step_informed {slots : Int} (reachable : Reachable slots start)
    (h : Informed start es (start.run es)) (now : Seconds) (e : PoolEvent) :
    Informed start (es ++ [(now, e)]) (start.run (es ++ [(now, e)])) := by
  have later : Reachable slots (start.run es) := reachable.run es
  refine ⟨run_snoc .. ▸ distinct_step later h.distinct now e, ?_,
    grounded_step reachable h.grounded now e⟩
  rw [run_snoc]
  apply cached_step later (fun entry mem => (h.taken entry mem).append _) now e
  intro f mem _ unfinished names ends
  exact ⟨es, e, [], rfl, f, mem, unfinished, by rw [(run_onward reachable es).site], ends⟩

/-- In every run whatever the pool keeps in its cache, or has fetched, has a source. -/
theorem run_informed {slots : Int} {site : Text} {base : Path} {ttl : Seconds} {size : Int} {limit : Number}
    (created : create site base ttl size slots limit = .ok start) (es : List (Seconds × PoolEvent)) :
    Informed start es (start.run es) := by
  have reachable : Reachable slots start := .create created
  induction es using List.reverseRecOn with
  | nil =>
    have empty := entries_create created
    have distinct : start.cache.Distinct := by simp [Cache.Distinct, empty]
    have taken : ∀ holds, start.cache.All holds := by simp [Cache.All, empty]
    obtain ⟨-, cache, rfl⟩ := create_cases created
    exact ⟨distinct, taken _, fun f mem => absurd mem List.not_mem_nil⟩
  | append_singleton es e ih => exact step_informed reachable ih e.1 e.2

/-- If all that is cached and that some calls were told came about by some fetches, and there are no other
fetches from then on, it stays so. -/
theorem briefed_since {slots : Int} {site : Text} {base : Path} {ttl : Seconds} {size : Int}
    {limit : Number} (created : create site base ttl size slots limit = .ok start)
    (briefed : (start.run es).Briefed (Reported among start es) start.site who)
    (only : ∀ more, ∀ f ∈ (start.run (es ++ more)).fetches, among f.id)
    (more : List (Seconds × PoolEvent)) :
    (start.run (es ++ more)).Briefed (Reported among start (es ++ more)) start.site who := by
  have reachable : Reachable slots start := .create created
  induction more using List.reverseRecOn with
  | nil => simpa using briefed
  | append_singleton more e ih =>
    have free := only (more ++ [e])
    rw [← List.append_assoc] at free ⊢
    have known := ih.mono fun key outcome reported => reported.append [e]
    have grounded := (run_informed created (es ++ more ++ [e])).grounded
    rw [run_snoc] at free grounded ⊢
    apply known.step (reachable.run _) e.1 e.2
    intro f mem outcome ended
    exact ⟨f.id, free f mem, (grounded f mem).sourced ended⟩

/-- In every run all that is cached, and all that calls were told, came about. -/
theorem run_briefed {slots : Int} {site : Text} {base : Path} {ttl : Seconds} {size : Int} {limit : Number}
    (created : create site base ttl size slots limit = .ok start) (es : List (Seconds × PoolEvent)) :
    (start.run es).Briefed (Reported (fun _ => True) start es) start.site fun _ => True := by
  have empty := entries_create created
  have cached : ∀ holds, start.cache.All holds := by simp [Cache.All, empty]
  have fresh : (start.run []).Briefed (Reported (fun _ => True) start []) start.site fun _ => True := by
    obtain ⟨-, cache, rfl⟩ := create_cases created
    exact ⟨rfl, cached _, fun f mem => absurd mem List.not_mem_nil,
      fun c mem => absurd mem List.not_mem_nil⟩
  exact briefed_since created fresh (fun _ _ _ => trivial) es

theorem call?_of_mem (kept : p.books.Kept) (mem : c ∈ p.calls) : p.call? c.id = some c :=
  find?_of_nodup (α := Call) kept.attended.numbers mem

/-- A call that looks for its names while the cache has a live entry for them gets these at once. -/
theorem look_of_live (distinct : p.cache.Distinct) {entry : CacheEntry} (mem : entry ∈ p.cache.entries)
    {now : Seconds} (stored : now < entry.stored + p.cache.ttl)
    (young : now - entry.fetched < p.cache.ttl) {call : Call}
    (key : call.current.key p.site = entry.key) :
    p.look now call = (some (.names entry.names), { p with cache := p.cache.touch entry.key }) := by
  have hit := Cache.get_of_live distinct mem stored young
  rw [← key] at hit ⊢
  simp only [look, hit]

/-- A call that begins while the cache has a live entry for its names ends at once. -/
theorem callStep_of_live (kept : p.books.Kept) (distinct : p.cache.Distinct) {entry : CacheEntry}
    (mem : entry ∈ p.cache.entries) {now : Seconds} (stored : now < entry.stored + p.cache.ttl)
    (young : now - entry.fetched < p.cache.ttl) (there : c ∈ p.calls) (begun : c.stage = .begun)
    (going : c.abandoned = false) (key : c.current.key p.site = entry.key) :
    p.callStep now c.id = ({ p with cache := p.cache.touch entry.key } : Pool).endCall c
      (.names (c.answer entry.names)) := by
  have looked := look_of_live distinct mem stored young key
  have found : p.call? c.id = some c := call?_of_mem kept there
  simp only [callStep, found, begun, going, beginCall, looked]
  rfl

/-- Names that a call finds at once are those of a young entry of the cache, or those with which the fetch
ended that is registered under the key. -/
theorem names_of_look {now : Seconds} {call : Call} {names : List Text}
    (found : p.look now call = (some (.names names), q)) :
    (∃ entry ∈ p.cache.entries, entry.key = call.current.key p.site ∧ entry.names = names ∧
      now - entry.fetched < p.cache.ttl) ∨
    ∃ id, p.registered? (call.current.key p.site) = some id ∧ p.outcome? id = some (.names names) := by
  unfold look at found
  dsimp only at found
  split at found
  · next entry hit =>
    obtain ⟨mem, key, young⟩ := Cache.get_some hit
    cases found
    exact .inl ⟨entry, mem, key, rfl, young⟩
  · cases found
  · next id _ registered =>
    split at found
    · next outcome ended =>
      cases found
      exact .inr ⟨id, registered, ended⟩
    · cases found

/-- In every run:
- Names that a lookup finds at once are those of a reply to a request for the same list. They come from an
  entry of the cache that was fetched less than the time to live ago, by a fetch that ended with them, or
  from the fetch that is registered under the key.
- A lookup that waits does so for the fetch that is registered under its key; once that has ended the
  lookup is told how, and names are those of a reply to a request for the same list.
- A call ends with names for one of three reasons: the catalog gave them, or they are among the tags that
  it gave for the metric, or they stand in for the fields of logs.
- A step of a fetch changes the cache only where the fetch ends in it with names, which it then stores;
  a fetch that ends in any other way never changes it.
- A lookup for which the cache has a live entry gets the names of that, and a call that begins with it
  ends at once: no fetch is begun and no request is sent. -/
theorem provenance {slots : Int} {site : Text} {base : Path} {ttl : Seconds} {size : Int} {limit : Number}
    {start : Pool} (created : create site base ttl size slots limit = .ok start)
    (es : List (Seconds × PoolEvent)) :
    let p := start.run es
    (∀ now call names q, p.look now call = (some (.names names), q) →
      Answered start es (call.current.key site) names ∧
      ((∃ entry ∈ p.cache.entries, entry.key = call.current.key site ∧ entry.names = names ∧
          now - entry.fetched < p.cache.ttl ∧ Taken start es entry.key names entry.fetched) ∨
        ∃ id, p.registered? (call.current.key site) = some id ∧
          p.outcome? id = some (.names names))) ∧
    (∀ c ∈ p.calls, ∀ id, c.awaits? = some id → p.registered? (c.current.key site) = some id ∧
      ∀ outcome, p.outcome? id = some outcome →
        { c with stage := .told outcome } ∈ (p.announce id).calls ∧
        ∀ names, outcome = .names names → Answered start es (c.current.key site) names) ∧
    (∀ c ∈ p.calls, ∀ names, c.stage = .ended (.names names) → Served start es c.wanted names) ∧
    (∀ before now e after, es = before ++ (now, e) :: after → ∀ id, PoolEvent.fetch? e = some id →
      let q := start.run before
      (q.step now e).cache = q.cache ∨
      ∃ f ∈ q.fetches, f.id = id ∧ ∃ names, (q.step now e).outcome? id = some (.names names) ∧
        q.cache.set now (f.lookup.key site) names = .ok (q.step now e).cache ∧
        ∀ outcome, p.outcome? id = some outcome → outcome = .names names) ∧
    (∀ entry ∈ p.cache.entries, ∀ now, now < entry.stored + p.cache.ttl →
      now - entry.fetched < p.cache.ttl →
      (∀ call : Call, call.current.key site = entry.key →
        p.look now call =
          (some (.names entry.names), { p with cache := p.cache.touch entry.key })) ∧
      ∀ c ∈ p.calls, c.stage = .begun → c.abandoned = false → c.current.key site = entry.key →
        let q := p.step now (.callStep c.id)
        { c with stage := .ended (.names (c.answer entry.names)) } ∈ q.calls ∧
          q.fetches = p.fetches ∧ q.requests = p.requests) := by
  intro p
  have informed := run_informed created es
  have briefed := run_briefed created es
  have reachable : Reachable slots start := .create created
  have later : Reachable slots p := reachable.run es
  have named : start.site = site := by
    obtain ⟨-, cache, rfl⟩ := create_cases created
    rfl
  have home : p.site = site := briefed.home.trans named
  refine ⟨?_, ?_, ?_, ?_, ?_⟩
  · intro now call names q found
    rcases names_of_look found with ⟨entry, mem, key, rfl, young⟩ | ⟨id, registered, ended⟩
    · have answered := Reported.answered (briefed.cached entry mem)
      rw [home] at key
      exact ⟨key ▸ answered, .inl ⟨entry, mem, key, rfl, young, informed.taken entry mem⟩⟩
    · rw [home] at registered
      have reported := briefed.registered later.kept registered ended
      exact ⟨reported.answered, .inr ⟨id, registered, ended⟩⟩
  · intro c mem id waits
    obtain ⟨g, hg, rfl, -, key⟩ := later.kept.attended.waits c mem id waits
    obtain ⟨f, there, rfl⟩ := List.mem_map.1 hg
    have same : f.lookup.key p.site = c.current.key p.site := key
    have registered : p.registered? (c.current.key site) = some f.id := by
      rw [← home, ← same]
      exact registered?_of_mem later.kept there
    refine ⟨registered, fun outcome ended => ⟨?_, fun names ends => ?_⟩⟩
    · obtain ⟨f', there', number, stage⟩ := ended_of_outcome? ended
      have told := (announce_tells later.kept there' stage mem).1 (by rw [number]; exact waits)
      rwa [number] at told
    · subst ends
      exact (briefed.registered later.kept registered ended).answered
  · intro c mem names ended
    exact served_of_endorsed ((briefed.calls c mem trivial).endorsed ended)
  · intro before now e after split id concerns
    subst split
    have first : Reachable slots (start.run before) := reachable.run before
    rcases cache_step first now concerns with same | ⟨f, mem, number, -, names, ends, stored⟩
    · exact .inl same
    · have home' : (start.run before).site = site :=
        (run_onward reachable before).site.trans named
      refine .inr ⟨f, mem, number, names, ends, home' ▸ stored, fun outcome ended => ?_⟩
      have run : p = ((start.run before).step now e).run after := run_append start before _
      rw [run] at ended
      exact outcome?_final (first.step now e) ends ended
  · intro entry mem now stored young
    refine ⟨fun call key => look_of_live informed.distinct mem stored young (home ▸ key), ?_⟩
    intro c there begun going key q
    have ends : q = ({ p with cache := p.cache.touch entry.key } : Pool).endCall c
        (.names (c.answer entry.names)) :=
      callStep_of_live later.kept informed.distinct mem stored young there begun going (home ▸ key)
    have unasked : q.requests = p.requests := by
      rw [ends, endCall, requests_post]
      exact List.append_nil _
    exact ⟨ends ▸ List.mem_map.2 ⟨c, there, if_pos rfl⟩, ends ▸ rfl, unasked⟩

/-- A list is fetched for a first call. A second call within the time to live gets the names of that reply
without a request of its own. -/
theorem provenance_second_call :
    let start : Pool := {
      site := "host".toList
      base := ⟨[]⟩
      limit := .whole 2
      cache := { ttl := 60, size := 10 }
      gate := { free := 2 } }
    let reply : Reply := .response 200 [] (.ok (.ofTexts ["cpu".toList]))
    let es : List (Seconds × PoolEvent) := [
      (0, .openCall 1 { place := .metricName }), (0, .callStep 1), (0, .fetchStep 0), (1, .arrive 0 reply),
      (1, .fetchStep 0), (1, .announce 0), (1, .callStep 1), (1, .callStep 1),
      (60, .openCall 2 { place := .metricName })]
    let c : Call := { id := 2, wanted := { dataset := .metrics }, current := { dataset := .metrics } }
    let q := (start.run es).step 60 (.callStep 2)
    { c with stage := .ended (.names ["cpu".toList]) } ∈ q.calls ∧ q.requests.length = 1 ∧
      Answered start es "metrics|host".toList ["cpu".toList] := by
  intro start reply es c q
  have created : create "host".toList ⟨[]⟩ 60 10 2 (.whole 2) = .ok start := rfl
  have served := provenance created es
  have looked : ((start.run es).look 60 c).1 = some (.names ["cpu".toList]) := by decide +kernel
  have found : (start.run es).look 60 c =
      (some (.names ["cpu".toList]), ((start.run es).look 60 c).2) := by rw [← looked]
  have answered := (served.1 60 c _ _ found).1
  have key : c.current.key "host".toList = "metrics|host".toList := by decide +kernel
  have there : c ∈ (start.run es).calls := by decide +kernel
  let entry : CacheEntry := {
    key := "metrics|host".toList, names := ["cpu".toList], fetched := 1, stored := 1, used := 0 }
  have kept : entry ∈ (start.run es).cache.entries := by decide +kernel
  have stored : (60 : Seconds) < entry.stored + (start.run es).cache.ttl := by decide +kernel
  have young : 60 - entry.fetched < (start.run es).cache.ttl := by decide +kernel
  have live := (served.2.2.2.2 entry kept 60 stored young).2 c there rfl rfl key
  have sent : (start.run es).requests.length = 1 := by decide +kernel
  exact ⟨live.1, (congrArg List.length live.2.2).trans sent, key ▸ answered⟩

end

end Typeahead.Pool
