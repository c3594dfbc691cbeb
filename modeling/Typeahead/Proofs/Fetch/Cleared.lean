import Typeahead.Proofs.Fetch.Provenance

/-!
What clearing the cache is good for. A call that is opened afterwards gets nothing that was cached before;
but it may still wait for a fetch that was registered when the cache was cleared, or find how that ended,
although the request of that fetch may have been sent before. Nothing else comes from such a request.

- `briefed_since`: what is known at a point of a run stays all there is, from then on.
- `clear_forgets`: what follows for calls that are opened after the cache was cleared.
-/

namespace Typeahead.Pool

/-- A fetch is still registered, or has sent no request so far. -/
def Unspent (p : Pool) (fetch : Nat) : Prop :=
  (∃ r ∈ p.pending, r.fetch = fetch) ∨ ∀ request, (fetch, request) ∉ p.requests

section

variable {start p q : Pool} {es : List (Seconds × PoolEvent)}

theorem FetchMove.requests {now : Seconds} {came : Option Reply} {f : Fetch}
    (move : FetchMove p now came f q) :
    q.requests = p.requests ∨ ∃ request, q.requests = p.requests ++ [(f.id, request)] := by
  cases move with
  | ask _ _ _ _ dealings => exact .inr ⟨_, congrArg Dealings.requests dealings⟩
  | queue _ dealings => exact .inl (congrArg Dealings.requests dealings)
  | hear _ _ _ _ dealings => exact .inl (congrArg Dealings.requests dealings)
  | expire _ _ _ dealings => exact .inl (congrArg Dealings.requests dealings)
  | fail _ _ _ _ dealings => exact .inl (congrArg Dealings.requests dealings)
  | serve _ _ _ _ _ dealings => exact .inl (congrArg Dealings.requests dealings)
  | refuse _ _ dealings => exact .inl (congrArg Dealings.requests dealings)

/-- Only fetches whose numbers have been given out have sent requests. -/
theorem requests_given {slots : Int} (reachable : Reachable slots p) :
    ∀ sent ∈ p.requests, sent.1 < p.nextFetch := by
  induction reachable with
  | create created =>
    obtain ⟨-, cache, rfl⟩ := create_cases created
    exact fun sent mem => absurd mem List.not_mem_nil
  | @step p now e earlier ih =>
    have next := (p.step_origin now e).1
    have still (same : (p.step now e).requests = p.requests) :
        ∀ sent ∈ (p.step now e).requests, sent.1 < (p.step now e).nextFetch := by
      intro sent mem
      exact Nat.lt_of_lt_of_le (ih sent (same ▸ mem)) next
    obtain rfl | undealt | ⟨f, mem, -, move, -⟩ := step_kinds earlier.kept now e
    · exact still rfl
    · exact still (congrArg Dealings.requests undealt.dealings)
    · rcases move.requests with same | ⟨request, sends⟩
      · exact still same
      · intro sent there
        rw [sends] at there
        rcases List.mem_append.1 there with old | new
        · exact Nat.lt_of_lt_of_le (ih sent old) next
        · rw [List.mem_singleton.1 new]
          exact Nat.lt_of_lt_of_le (earlier.kept.registered.given f.unmoved (mem_books mem)) next

/-- Whatever fetches there are after a while, they are registered now, or have sent nothing so far. -/
theorem unspent_of_run {slots : Int} (reachable : Reachable slots p) (es : List (Seconds × PoolEvent))
    {g : Fetch} (mem : g ∈ (p.run es).fetches) : p.Unspent g.id := by
  rcases (p.run_origin es).2 g mem with ⟨f, there, same⟩ | new
  · refine .inl ⟨f.unmoved.registration p.site, ?_, same.symm⟩
    have register : p.pending = p.books.fetches.map (Fetch.registration p.site) :=
      reachable.kept.registered.register
    rw [register]
    exact List.mem_map_of_mem (mem_books there)
  · refine .inr fun request sent => ?_
    have given := requests_given reachable _ sent
    exact absurd given (Nat.not_lt.2 new)

/-- Once the cache is cleared, all that it keeps came about by fetches that were registered then, or had sent
nothing; and the same is true of all that later calls are told. -/
theorem briefed_of_clear {slots : Int} {site : Text} {base : Path} {ttl : Seconds} {size : Int}
    {limit : Number} (created : create site base ttl size slots limit = .ok start)
    (before : List (Seconds × PoolEvent)) (cleared : Seconds) (between : List (Seconds × PoolEvent))
    {id : Nat} (unused : (start.run (before ++ (cleared, .clearCache) :: between)).call? id = none)
    (after : List (Seconds × PoolEvent)) :
    let es := before ++ (cleared, .clearCache) :: between ++ after
    (start.run es).Briefed (Reported (start.run before).Unspent start es) start.site (· = id) := by
  have reachable : Reachable slots start := .create created
  let first := before ++ [(cleared, PoolEvent.clearCache)]
  have only (more) : ∀ f ∈ (start.run (first ++ more)).fetches, (start.run before).Unspent f.id := by
    intro f mem
    rw [List.append_assoc, run_append] at mem
    exact unspent_of_run (reachable.run before) _ mem
  -- nothing is cached at first, and whatever fetches have ended are still registered
  have empty : (start.run first).Briefed (Reported (start.run before).Unspent start first) start.site
      fun _ => False := by
    have grounded := (run_informed created first).grounded
    refine ⟨(run_onward reachable first).site, ?_, fun f mem outcome ended => ?_, fun c mem => False.elim⟩
    · rw [run_snoc]
      exact fun e mem => absurd mem List.not_mem_nil
    · exact ⟨f.id, only [] f (by simpa using mem), (grounded f mem).sourced ended⟩
  -- the call is not there yet, so that nothing was told to it
  have opened := briefed_since created empty only between
  have split : first ++ between = before ++ (cleared, .clearCache) :: between := by simp [first]
  rw [split] at opened
  have tracked : (start.run (before ++ (cleared, .clearCache) :: between)).Briefed
      (Reported (start.run before).Unspent start (before ++ (cleared, .clearCache) :: between)) start.site
      (· = id) := by
    refine ⟨opened.home, opened.cached, opened.fetches, fun c mem number => ?_⟩
    exact absurd number (by simpa using List.find?_eq_none.1 unused c mem)
  refine briefed_since created tracked (fun more f mem => ?_) after
  rw [← split, List.append_assoc] at mem
  exact only _ f mem

/-- Suppose that the cache is cleared, and that a call is opened later. Whatever else happens in whatever
order: if the call ends with names, then these are the names of the list that is wanted, they are taken
from the names of the tags, or they are the known facets. The lists which the catalog gave for that were
asked for by fetches that sent their requests after the cache was cleared, or were still registered then:
in line, under way, or ended without the end being announced. So a call gets nothing that was cached
before, and if nothing was registered, then nothing for which the catalog was asked before. -/
theorem clear_forgets {slots : Int} {site : Text} {base : Path} {ttl : Seconds} {size : Int}
    {limit : Number} {start : Pool} (created : create site base ttl size slots limit = .ok start)
    (before : List (Seconds × PoolEvent)) (cleared : Seconds) (between : List (Seconds × PoolEvent))
    (now : Seconds) (id : Nat) (context : Context) (after : List (Seconds × PoolEvent))
    (unused : (start.run (before ++ (cleared, .clearCache) :: between)).call? id = none) :
    let p := start.run before
    let es := before ++ (cleared, .clearCache) :: between ++ (now, .openCall id context) :: after
    ∀ c ∈ (start.run es).calls, c.id = id → ∀ names, c.stage = .ended (.names names) →
      Endorsed (Reported p.Unspent start es) site c.wanted names ∧
      (p.pending = [] →
        Endorsed (Reported (fun fetch => ∀ request, (fetch, request) ∉ p.requests) start es) site
          c.wanted names) := by
  intro p es c mem number names ended
  have named : start.site = site := by
    obtain ⟨-, cache, rfl⟩ := create_cases created
    rfl
  have briefed := briefed_of_clear created before cleared between unused ((now, .openCall id context) :: after)
  have endorsed := (briefed.calls c mem number).endorsed ended
  rw [named] at endorsed
  refine ⟨endorsed, fun idle => ?_⟩
  have unsent : p.Unspent = fun fetch => ∀ request, (fetch, request) ∉ p.requests := by
    funext fetch
    simp [Unspent, idle]
  exact unsent ▸ endorsed

/-- A list is cached, and the cache is cleared. A call that is opened afterwards gets the names of a request
that was sent after that, although the cache had others for it. -/
theorem clear_forgets_cached :
    let start : Pool := {
      site := "host".toList
      base := ⟨[]⟩
      limit := .whole 2
      cache := { ttl := 60, size := 10 }
      gate := { free := 2 } }
    let reply (name : String) : Reply := .response 200 [] (.ok (.ofTexts [name.toList]))
    let before : List (Seconds × PoolEvent) := [
      (0, .openCall 1 { place := .metricName }), (0, .callStep 1), (0, .fetchStep 0),
      (1, .arrive 0 (reply "old")), (1, .fetchStep 0), (1, .announce 0), (1, .callStep 1)]
    let after : List (Seconds × PoolEvent) := [
      (2, .callStep 2), (2, .fetchStep 1), (3, .arrive 1 (reply "new")), (3, .fetchStep 1),
      (3, .announce 1), (3, .callStep 2)]
    let p := start.run before
    let es := before ++ (2, .clearCache) :: [] ++ (2, .openCall 2 { place := .metricName }) :: after
    let c : Call := {
      id := 2
      wanted := { dataset := .metrics }
      current := { dataset := .metrics }
      stage := .ended (.names ["new".toList]) }
    p.cache.entries.map (·.names) = [["old".toList]] ∧ c ∈ (start.run es).calls ∧
      Endorsed (Reported (fun fetch => ∀ request, (fetch, request) ∉ p.requests) start es) "host".toList
        { dataset := .metrics } ["new".toList] := by
  intro start reply before after p es c
  have created : create "host".toList ⟨[]⟩ 60 10 2 (.whole 2) = .ok start := rfl
  have there : c ∈ (start.run es).calls := by decide +kernel
  have unused : (start.run (before ++ (2, .clearCache) :: [])).call? 2 = none := by decide +kernel
  have forgets := clear_forgets created before 2 [] 2 2 { place := .metricName } after unused c there rfl
    ["new".toList] rfl
  exact ⟨by decide +kernel, there, forgets.2 (by decide +kernel)⟩

/-- A fetch is under way when the cache is cleared. A call that is opened afterwards waits for it, and ends
with the names which the catalog gave for the request that had been sent before. -/
theorem list_under_way_survives_clear :
    let start : Pool := {
      site := "host".toList
      base := ⟨[]⟩
      limit := .whole 2
      cache := { ttl := 60, size := 10 }
      gate := { free := 2 } }
    let reply : Reply := .response 200 [] (.ok (.ofTexts ["old".toList]))
    let before : List (Seconds × PoolEvent) := [
      (0, .openCall 1 { place := .metricName }), (0, .callStep 1), (0, .fetchStep 0)]
    let answered : List (Seconds × PoolEvent) := before ++ (1, .clearCache) :: [] ++
      [(1, .openCall 2 { place := .metricName }), (1, .callStep 2), (2, .arrive 0 reply),
        (2, .fetchStep 0)]
    let es := answered ++ [(2, .announce 0), (2, .callStep 2)]
    let c : Call := {
      id := 2
      wanted := { dataset := .metrics }
      current := { dataset := .metrics }
      stage := .ended (.names ["old".toList]) }
    c ∈ (start.run es).calls ∧ (start.run before).requests.map (·.1) = [0] ∧
      (start.run es).requests.map (·.1) = [0] ∧
      AnsweredBy start es 0 "metrics|host".toList ["old".toList] := by
  intro start reply before answered es c
  have created : create "host".toList ⟨[]⟩ 60 10 2 (.whole 2) = .ok start := rfl
  have ended : (start.run answered).outcome? 0 = some (.names ["old".toList]) := by decide +kernel
  obtain ⟨f, mem, number, stage⟩ := ended_of_outcome? ended
  have grounded := (run_informed created answered).grounded f mem
  have key : ∀ f ∈ (start.run answered).fetches,
      f.lookup.key "host".toList = "metrics|host".toList := by decide +kernel
  have sourced : AnsweredBy start answered f.id (f.lookup.key "host".toList) ["old".toList] :=
    grounded.sourced stage
  rw [number, key f mem] at sourced
  exact ⟨by decide +kernel, by decide +kernel, by decide +kernel, sourced.append _⟩

end

end Typeahead.Pool
