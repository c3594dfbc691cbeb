import Typeahead.Proofs.Fetch.Slots

/-!
What a pool has to do with the catalog: the requests that it sent, the names that it keeps, and whether
access was refused. Only a fetch deals with the catalog, and what it may do in a step is said here once.

- `FetchMove`: all that a fetch does by itself.
- `step_moves`: no step of a fetch does anything else.
- `step_kinds`: a step is such a move, leaves the catalog alone, or lifts a block.
-/

namespace Typeahead

/-- The request that a signal sends, and the fetch that makes it. -/
def Signal.request? : Signal → Option (Nat × Request)
  | .sent fetch request => some (fetch, request)
  | .fetchDue _ | .announceDue _ | .callDue _ | .limitSet _ | .alarmsOff _ | .settled _ _ => none

/-- Whether a fetch ended because access to the catalog is refused. -/
def Outcome.isUnauthorized : Outcome → Bool
  | .failed (.catalog error) => error.kind = .unauthorized
  | .failed _ | .names _ | .stopped => false

namespace PoolEvent

/-- The fetch that an event concerns. -/
def fetch? : PoolEvent → Option Nat
  | .fetchStep id | .announce id | .arrive id _ | .arriveAtOnce id _ | .expire id => some id
  | .openCall _ _ | .abandon _ | .callStep _ | .cancelPending | .clearCache | .setTtl _ _
  | .resetAuth => none

/-- The reply that an event brings. -/
def reply? : PoolEvent → Option Reply
  | .arrive _ reply | .arriveAtOnce _ reply => some reply
  | _ => none

end PoolEvent

/-- A reply without names is a refusal, other trouble of the catalog, or a fault. -/
theorem Reply.failure_cases {reply : Reply} {path : Path} {failure : Failure}
    (failed : reply.names path = .error failure) :
    (∃ text, failure = .catalog (.refused text)) ∨
    (∃ error, failure = .catalog error ∧ error.kind ≠ .unauthorized) ∨
    ∃ reason, failure = .fault reason ∧ reply = .fault reason := by
  have trouble (error : CatalogError) (other : error.kind ≠ .unauthorized) :
      (∃ text, Failure.catalog error = .catalog (.refused text)) ∨
      (∃ error', Failure.catalog error = .catalog error' ∧ error'.kind ≠ .unauthorized) ∨
      ∃ reason, Failure.catalog error = .fault reason ∧ reply = .fault reason :=
    .inr (.inl ⟨error, rfl, other⟩)
  cases body : reply.body path with
  | ok json =>
    simp only [names, body, bind, Except.bind] at failed
    split at failed
    · cases failed
    · cases failed
      exact trouble _ nofun
  | error failure' =>
    simp only [names, body, bind, Except.bind, Except.error.injEq] at failed
    subst failed
    cases reply with
    | response status text json =>
      unfold Reply.body at body
      dsimp only at body
      split at body
      · cases body
        exact .inl ⟨text, rfl⟩
      · split at body
        · cases body
          exact trouble _ nofun
        · split at body
          · cases body
            exact trouble _ nofun
          · cases json with
            | ok json => simp [Except.mapError] at body
            | error reason =>
              simp only [Except.mapError, Except.error.injEq] at body
              exact body ▸ trouble _ nofun
    | timeout | clientError | valueError =>
      cases body
      exact trouble _ nofun
    | fault reason =>
      cases body
      exact .inr (.inr ⟨reason, rfl, rfl⟩)

/-- What others do to a fetch: they hand it a slot, or tell it to stop. -/
structure Fetch.Nudged (f g : Fetch) : Prop where
  id : g.id = f.id
  lookup : g.lookup = f.lookup
  stage : g.stage = f.stage ∨ g.stage = .admitted
  stopping : f.stopping = true → g.stopping = true

theorem Fetch.Nudged.refl (f : Fetch) : f.Nudged f := ⟨rfl, rfl, .inl rfl, fun h => h⟩

theorem Fetch.Nudged.trans {f g h : Fetch} (first : f.Nudged g) (then' : g.Nudged h) : f.Nudged h := by
  refine ⟨then'.id.trans first.id, then'.lookup.trans first.lookup, ?_,
    fun stopping => then'.stopping (first.stopping stopping)⟩
  rcases then'.stage with same | handed
  · rw [same]
    exact first.stage
  · exact .inr handed

theorem Fetch.nudged_handed (ids : List Nat) (f : Fetch) : f.Nudged (f.handed ids) := by
  unfold handed
  split
  · exact ⟨rfl, rfl, .inr rfl, fun h => h⟩
  · exact .refl f

/-- What a pool has to do with the catalog. -/
structure Dealings where
  site : Text
  base : Path
  cache : Cache
  refusal? : Option Text
  requests : List (Nat × Request)

namespace Pool

/-- The requests that have been sent, and the fetches that made them. -/
def requests (p : Pool) : List (Nat × Request) := p.outbox.filterMap Signal.request?

/-- What the pool has to do with the catalog. -/
def dealings (p : Pool) : Dealings := ⟨p.site, p.base, p.cache, p.refusal?, p.requests⟩

theorem requests_post (p : Pool) (s : Signal) :
    (p.post s).requests = p.requests ++ s.request?.toList := by
  cases found : s.request? <;> simp [requests, post, found]

theorem dealings_post (p : Pool) {s : Signal} (silent : s.request? = none) :
    (p.post s).dealings = p.dealings := by
  have requests : (p.post s).requests = p.requests := by simp [requests_post, silent]
  simp only [dealings, requests]
  rfl

theorem dealings_sent (p : Pool) (id : Nat) (request : Request) :
    (p.post (.sent id request)).dealings =
      { p.dealings with requests := p.dealings.requests ++ [(id, request)] } := by
  have requests := p.requests_post (.sent id request)
  simp only [dealings, requests]
  rfl

/-- Fetches have been handed slots or told to stop, and nothing has been dealt with the catalog. -/
structure Stirred (p q : Pool) : Prop where
  fetches : ∀ g ∈ q.fetches, ∃ f ∈ p.fetches, f.Nudged g
  dealings : q.dealings = p.dealings

/-- A fetch has moved to a stage; the others have been handed slots or told to stop. -/
structure Moved (p : Pool) (f : Fetch) (stage : FetchStage) (q : Pool) : Prop where
  self : ∀ g ∈ q.fetches, g.id = f.id →
    g.lookup = f.lookup ∧ g.stage = stage ∧ (f.stopping = true → g.stopping = true)
  others : ∀ g ∈ q.fetches, g.id ≠ f.id → ∃ h ∈ p.fetches, h.Nudged g

/-- The path by which a fetch asks. -/
def pathOf (p : Pool) (f : Fetch) : Path := (f.lookup.path p.base).toOption.getD p.base

/-- Why a fetch fails that has a reply, if one has come for it: trouble of the catalog, a name that fits no
path, a cache without room, or a fault that came as the reply. -/
def Explains (p : Pool) (f : Fetch) (came : Option Reply) : Failure → Prop
  | .catalog _ => True
  | .slashName name => f.lookup.path p.base = .error ⟨name⟩
  | .cache error => error = .noRoom ∧ p.cache.size = 0
  | .fault reason =>
    f.stage = .answered (.fault reason) ∨ f.stage = .asking ∧ came = some (.fault reason)

/-- All that a fetch does by itself. `came` is the reply that comes for it just now, if one does. -/
inductive FetchMove (p : Pool) (now : Seconds) (came : Option Reply) (f : Fetch) : Pool → Prop where
  /-- It joins the line at the gate. -/
  | queue {q : Pool} : Moved p f .queued q → q.dealings = p.dealings → FetchMove p now came f q
  /-- It asks, as access is not blocked. -/
  | ask {q : Pool} {path : Path} : f.stopping = false → p.refusal? = none →
    f.lookup.path p.base = .ok path → Moved p f .asking q →
    q.dealings = { p.dealings with requests := p.requests ++ [(f.id, { path })] } →
    FetchMove p now came f q
  /-- A reply comes. -/
  | hear {q : Pool} {reply : Reply} : f.stopping = false → f.stage = .asking → came = some reply →
    Moved p f (.answered reply) q → q.dealings = p.dealings → FetchMove p now came f q
  /-- Its time is over, or there never was any. -/
  | expire {q : Pool} : f.stopping = false → (f.isInside = true ∨ p.refusal? = none) →
    Moved p f .overdue q → q.dealings = p.dealings → FetchMove p now came f q
  /-- It ends without names. Only a block tells it that access is refused. -/
  | fail {q : Pool} {outcome : Outcome} : (∀ names, outcome ≠ .names names) →
    (outcome.isUnauthorized = true →
      ∃ reply, p.refusal? = some reply ∧ outcome = .failed (.catalog (.blocked reply))) →
    (∀ failure, outcome = .failed failure → p.Explains f came failure) →
    Moved p f (.ended outcome) q → q.dealings = p.dealings → FetchMove p now came f q
  /-- It ends with the names in a reply, and stores them. -/
  | serve {q : Pool} {reply : Reply} {names : List Text} {cache : Cache} : f.stopping = false →
    (f.stage = .answered reply ∨ f.stage = .asking ∧ came = some reply) →
    reply.names (p.pathOf f) = .ok names →
    p.cache.set now (f.lookup.key p.site) names = .ok cache →
    Moved p f (.ended (.names names)) q → q.dealings = { p.dealings with cache } →
    FetchMove p now came f q
  /-- Access is refused to it, and it stops all others. -/
  | refuse {q : Pool} {text : Text} : f.stopping = false →
    Moved p f (.ended (.failed (.catalog (.refused text)))) q →
    q.dealings = { p.dealings with refusal? := some text } →
    (∀ g ∈ p.fetches, g.id ≠ f.id → g.isUnfinished = true →
      ∀ g' ∈ q.fetches, g'.id = g.id → g'.stopping = true) →
    FetchMove p now came f q

section

variable {p q r : Pool} {f : Fetch}

namespace Stirred

theorem refl (p : Pool) : Stirred p p := ⟨fun g mem => ⟨g, mem, .refl g⟩, rfl⟩

theorem trans (first : Stirred p q) (then' : Stirred q r) : Stirred p r := by
  refine ⟨fun g mem => ?_, then'.dealings.trans first.dealings⟩
  obtain ⟨g', mem', nudged'⟩ := then'.fetches g mem
  obtain ⟨g'', mem'', nudged''⟩ := first.fetches g' mem'
  exact ⟨g'', mem'', nudged''.trans nudged'⟩

theorem post (h : Stirred p q) {s : Signal} (silent : s.request? = none) : Stirred p (q.post s) :=
  ⟨h.fetches, (dealings_post q silent).trans h.dealings⟩

theorem withGate (h : Stirred p q) (ids : List Nat) (gate : Gate) :
    Stirred p (q.withGate ids gate) := by
  have quiet : (q.withGate ids gate).dealings = q.dealings :=
    List.foldlRecOn (motive := fun r : Pool => r.dealings = q.dealings) ids _ rfl
      fun r same id _ => (dealings_post _ rfl).trans same
  refine h.trans ⟨fun g mem => ?_, quiet⟩
  rw [fetches_withGate] at mem
  obtain ⟨f, there, rfl⟩ := List.mem_map.1 mem
  exact ⟨f, there, Fetch.nudged_handed ids f⟩

theorem releaseSlot (h : Stirred p q) : Stirred p q.releaseSlot := h.withGate _ _

theorem leave (h : Stirred p q) (id : Nat) : Stirred p (q.leave id) := by
  have out : Stirred p ({ q with inFlight := q.inFlight - 1 } : Pool) := ⟨h.fetches, h.dealings⟩
  exact (out.post rfl).releaseSlot

theorem leaveLine (h : Stirred p q) (id : Nat) (unused : Bool) : Stirred p (q.leaveLine id unused) :=
  h.withGate _ _

theorem stopFetch (h : Stirred p q) (id : Nat) : Stirred p (q.stopFetch id) := by
  have told : Stirred p (q.updateFetch id fun f => { f with stopping := true }) := by
    refine h.trans ⟨fun g mem => ?_, rfl⟩
    obtain ⟨f, there, rfl⟩ := List.mem_map.1 mem
    refine ⟨f, there, ?_⟩
    split
    · exact ⟨rfl, rfl, .inl rfl, fun _ => rfl⟩
    · exact .refl f
  unfold Pool.stopFetch
  split
  · exact h
  · dsimp only
    split
    · exact h
    · exact h
    · have marked : Stirred p { q.updateFetch id fun f => { f with stopping := true } with
          gate := q.gate.mark id .gone } := ⟨told.fetches, told.dealings⟩
      exact marked.post rfl
    · exact (told.post rfl).post rfl
    · exact told

theorem stopFetches (h : Stirred p q) (ids : List Nat) : Stirred p (q.stopFetches ids) := by
  induction ids generalizing q with
  | nil => exact h
  | cons id ids ih => exact ih (h.stopFetch id)

/-- A fetch moves, whatever happened to the others in the same step. -/
theorem move (h : Stirred p q) (kept : p.books.Kept) (mem : f ∈ p.fetches) (stage : FetchStage) :
    Moved p f stage (q.moveFetch f.id stage) := by
  refine ⟨fun g there number => ?_, fun g there other => ?_⟩
  · obtain ⟨g', there', rfl⟩ := List.mem_map.1 there
    obtain ⟨f', mem', nudged⟩ := h.fetches g' there'
    have same : g'.id = f.id := by
      by_contra other
      rw [if_neg other] at number
      exact other number
    have : f' = f :=
      List.inj_on_of_nodup_map (nodup_fetches kept) mem' mem (nudged.id.symm.trans same)
    subst this
    rw [if_pos same]
    exact ⟨nudged.lookup, rfl, nudged.stopping⟩
  · obtain ⟨g', there', rfl⟩ := List.mem_map.1 there
    have apart : g'.id ≠ f.id := by
      intro same
      rw [if_pos same] at other
      exact other same
    rw [if_neg apart]
    exact h.fetches g' there'

end Stirred

/-- What is posted does not move a fetch. -/
theorem Moved.post {stage : FetchStage} (h : Moved p f stage q) (s : Signal) :
    Moved p f stage (q.post s) := ⟨h.self, h.others⟩

/-- A fetch that is told to stop does so, unless it has ended. -/
theorem stopping_stopFetch (kept : p.books.Kept) (mem : f ∈ p.fetches)
    (unfinished : f.isUnfinished = true) {g : Fetch} (there : g ∈ (p.stopFetch f.id).fetches)
    (same : g.id = f.id) : g.stopping = true := by
  have told : ∀ g ∈ (p.updateFetch f.id fun f => { f with stopping := true }).fetches,
      g.id = f.id → g.stopping = true := by
    intro g there same
    obtain ⟨g', there', rfl⟩ := List.mem_map.1 there
    split
    · rfl
    · next other =>
      rw [if_neg other] at same
      exact absurd same other
  simp only [stopFetch, fetch?_of_mem kept mem] at there
  split at there
  · next ended =>
    simp [Fetch.isUnfinished, ended] at unfinished
  · next stopping _ =>
    have eq : g = f := List.inj_on_of_nodup_map (nodup_fetches kept) there mem same
    rwa [eq]
  · exact told g there same
  · exact told g there same
  · exact told g there same

/-- Fetches that are told to stop do so, unless they have ended. -/
theorem stopping_stopFetches (kept : p.books.Kept) (mem : f ∈ p.fetches)
    (unfinished : f.isUnfinished = true) {ids : List Nat} (told : f.id ∈ ids) {g : Fetch}
    (there : g ∈ (p.stopFetches ids).fetches) (same : g.id = f.id) : g.stopping = true := by
  induction ids generalizing p with
  | nil => cases told
  | cons id ids ih =>
    have kept' : (p.stopFetch id).books.Kept := (books_stopFetch p id).symm ▸ kept
    by_cases first : id = f.id
    · subst first
      -- whoever stops goes on stopping while others are told
      obtain ⟨h, mem', nudged⟩ := ((Stirred.refl (p.stopFetch f.id)).stopFetches ids).fetches g there
      exact nudged.stopping
        (stopping_stopFetch kept mem unfinished mem' (nudged.id.symm.trans same))
    · have later : f.id ∈ ids := (List.mem_cons.1 told).resolve_left (Ne.symm first)
      exact ih kept' (mem_stopFetch mem first) later there

/-- A fetch ends. -/
theorem Stirred.endFetch (h : Stirred p q) (kept : p.books.Kept) (mem : f ∈ p.fetches)
    (outcome : Outcome) :
    Moved p f (.ended outcome) (q.endFetch f.id outcome) ∧
      (q.endFetch f.id outcome).dealings = p.dealings :=
  ⟨(h.move kept mem _).post _, (dealings_post _ rfl).trans h.dealings⟩

/-- A fetch that is told to stop, or that fails for reasons of its own, ends without names. -/
theorem Stirred.failed (h : Stirred p q) (kept : p.books.Kept) (mem : f ∈ p.fetches)
    {outcome : Outcome} (nameless : ∀ names, outcome ≠ .names names)
    (authorized : outcome.isUnauthorized = false) (now : Seconds) {came : Option Reply}
    (explained : ∀ failure, outcome = .failed failure → p.Explains f came failure) :
    FetchMove p now came f (q.endFetch f.id outcome) := by
  obtain ⟨moved, dealings⟩ := h.endFetch kept mem outcome
  exact .fail nameless (fun unauthorized => absurd unauthorized (by simp [authorized])) explained moved
    dealings

/-- A fetch with a slot in hand asks, unless there is no time, no path, or no access. -/
theorem Stirred.pass (h : Stirred p q) (kept : p.books.Kept) (mem : f ∈ p.fetches)
    (going : f.stopping = false) (now : Seconds) (came : Option Reply) :
    FetchMove p now came f (q.pass f) := by
  have refusal : q.refusal? = p.refusal? := congrArg Dealings.refusal? h.dealings
  have base : q.base = p.base := congrArg Dealings.base h.dealings
  have inside : Stirred p ({ q with inFlight := q.inFlight + 1 } : Pool) := ⟨h.fetches, h.dealings⟩
  unfold Pool.pass
  split
  · next reply blocked =>
    obtain ⟨moved, dealings⟩ := h.releaseSlot.endFetch kept mem (.failed (.catalog (.blocked reply)))
    exact .fail (by simp) (fun _ => ⟨reply, refusal ▸ blocked, rfl⟩)
      (fun failure same => Outcome.failed.inj same ▸ trivial) moved dealings
  · next unblocked =>
    dsimp only
    split
    · exact .expire going (.inr (refusal ▸ unblocked)) ((inside.move kept mem .overdue).post _)
        ((dealings_post _ rfl).trans inside.dealings)
    · split
      · next e refused =>
        have unfit : p.Explains f came (.slashName e.name) := by
          unfold Explains
          rwa [← base]
        exact (inside.leave f.id).failed kept mem (by simp) rfl now
          fun failure same => Outcome.failed.inj same ▸ unfit
      · next path found =>
        refine .ask going (refusal ▸ unblocked) (base ▸ found)
          (((inside.move kept mem .asking).post _).post _) ?_
        have quiet : ((({ q with inFlight := q.inFlight + 1 } : Pool).moveFetch f.id .asking).post
            (.limitSet f.id)).dealings = p.dealings := (dealings_post _ rfl).trans h.dealings
        rw [dealings_sent, quiet]
        rfl

/-- A fetch takes the reply to its request. -/
theorem take_moves (kept : p.books.Kept) (mem : f ∈ p.fetches) (going : f.stopping = false)
    (now : Seconds) {came : Option Reply} {reply : Reply}
    (has : f.stage = .answered reply ∨ f.stage = .asking ∧ came = some reply) :
    FetchMove p now came f (p.take now f reply) := by
  have out : Stirred p (p.leave f.id) := (Stirred.refl p).leave f.id
  have site : (p.leave f.id).site = p.site := congrArg Dealings.site out.dealings
  have cached : (p.leave f.id).cache = p.cache := congrArg Dealings.cache out.dealings
  unfold Pool.take
  dsimp only
  split
  · next names read =>
    split
    · next cache stored =>
      rw [site, cached] at stored
      have moved := out.move kept mem (.ended (.names names))
      refine .serve going has read stored ⟨moved.self, moved.others⟩ ((dealings_post _ rfl).trans ?_)
      simp only [← out.dealings]
      rfl
    · next e full =>
      rw [cached] at full
      exact out.failed kept mem (by simp) rfl now
        fun failure same => Outcome.failed.inj same ▸ Cache.set_error full
  · next text read =>
    let refused : Pool := { p with refusal? := some text }
    let others := (p.pending.map (·.fetch)).filter (· != f.id)
    have stirred : Stirred refused ((refused.stopFetches others).leave f.id) :=
      ((Stirred.refl refused).stopFetches others).leave f.id
    obtain ⟨moved, dealings⟩ :=
      stirred.endFetch (f := f) kept mem (.failed (.catalog (.refused text)))
    refine .refuse going ⟨moved.self, moved.others⟩ dealings fun g there other unfinished g' mem' same => ?_
    -- each of the others is registered, and hence told to stop
    have registered : p.registered? (g.lookup.key p.site) = some g.id := registered?_of_mem kept there
    obtain ⟨entry, entered, number⟩ := Option.map_eq_some_iff.1 registered
    have told : g.id ∈ others := by
      refine List.mem_filter.2 ⟨List.mem_map.2 ⟨entry, List.mem_of_find?_eq_some entered, number⟩, ?_⟩
      simpa using other
    have still : (refused.stopFetches others).books.Kept := (books_stopFetches refused others).symm ▸ kept
    have notSelf : g'.id ≠ f.id := same ▸ other
    obtain ⟨h, between, nudged⟩ :=
      (((Stirred.refl (refused.stopFetches others)).leave f.id).endFetch (f := f) still
        (mem_stopFetches (p := refused) mem (by simp [others])) _).1.others g' mem' notSelf
    exact nudged.stopping (stopping_stopFetches (p := refused) kept there unfinished told between
      (nudged.id.symm.trans same))
  · next failure notRefused read =>
    obtain ⟨text, rfl⟩ | ⟨error, rfl, other⟩ | ⟨reason, rfl, rfl⟩ := Reply.failure_cases read
    · exact absurd rfl (notRefused text)
    · exact out.failed kept mem (by simp) (by simp [Outcome.isUnauthorized, other]) now
        fun failure same => Outcome.failed.inj same ▸ trivial
    · exact out.failed kept mem (by simp) rfl now fun failure same => Outcome.failed.inj same ▸ has

theorem fetchStep_moves (kept : p.books.Kept) (now : Seconds) (id : Nat) :
    p.fetchStep now id = p ∨
    ∃ f ∈ p.fetches, f.id = id ∧ f.isUnfinished = true ∧
      FetchMove p now none f (p.fetchStep now id) := by
  unfold fetchStep
  split
  · exact .inl rfl
  · next f found =>
    obtain ⟨mem, rfl⟩ := mem_of_fetch? found
    have calm := Stirred.refl p
    have entered : Stirred p ({ p with gate := (p.gate.enter f.id).2 } : Pool) :=
      ⟨calm.fetches, calm.dealings⟩
    have stops {q : Pool} (h : Stirred p q) : FetchMove p now none f (q.endFetch f.id .stopped) :=
      h.failed kept mem (by simp) rfl now nofun
    split
    · next begun _ =>
      exact .inr ⟨f, mem, rfl, by simp [Fetch.isUnfinished, begun], stops calm⟩
    · next begun going =>
      refine .inr ⟨f, mem, rfl, by simp [Fetch.isUnfinished, begun], ?_⟩
      dsimp only
      split
      · exact entered.pass kept mem going now none
      · exact .queue (entered.move kept mem .queued) calm.dealings
    · next queued _ =>
      exact .inr ⟨f, mem, rfl, by simp [Fetch.isUnfinished, queued], stops (calm.leaveLine ..)⟩
    · next admitted _ =>
      exact .inr ⟨f, mem, rfl, by simp [Fetch.isUnfinished, admitted], stops (calm.leaveLine ..)⟩
    · next admitted going =>
      exact .inr ⟨f, mem, rfl, by simp [Fetch.isUnfinished, admitted],
        (calm.leaveLine ..).pass kept mem going now none⟩
    · next asking _ =>
      exact .inr ⟨f, mem, rfl, by simp [Fetch.isUnfinished, asking], stops (calm.leave _)⟩
    · next answered _ =>
      exact .inr ⟨f, mem, rfl, by simp [Fetch.isUnfinished, answered], stops (calm.leave _)⟩
    · next overdue _ =>
      exact .inr ⟨f, mem, rfl, by simp [Fetch.isUnfinished, overdue], stops (calm.leave _)⟩
    · next answered going =>
      exact .inr ⟨f, mem, rfl, by simp [Fetch.isUnfinished, answered],
        take_moves kept mem going now (.inl answered)⟩
    · next overdue _ =>
      exact .inr ⟨f, mem, rfl, by simp [Fetch.isUnfinished, overdue],
        (calm.leave _).failed kept mem (by simp) rfl now
          fun failure same => Outcome.failed.inj same ▸ trivial⟩
    · exact .inl rfl
    · exact .inl rfl
    · exact .inl rfl

/-- No step of a fetch does anything but what a fetch may do. -/
theorem step_moves (kept : p.books.Kept) (now : Seconds) {e : PoolEvent} {id : Nat}
    (concerns : e.fetch? = some id) (unannounced : e ≠ .announce id) :
    p.step now e = p ∨
    ∃ f ∈ p.fetches, f.id = id ∧ f.isUnfinished = true ∧
      FetchMove p now e.reply? f (p.step now e) := by
  have calm := Stirred.refl p
  cases e with
  | openCall | abandon | callStep | cancelPending | clearCache | setTtl | resetAuth => cases concerns
  | announce id' =>
    cases concerns
    exact absurd rfl unannounced
  | fetchStep id' =>
    cases concerns
    exact fetchStep_moves kept now id
  | arrive id' reply =>
    cases concerns
    change p.arrive id reply = p ∨ ∃ f ∈ p.fetches, f.id = id ∧ f.isUnfinished = true ∧
      FetchMove p now (some reply) f (p.arrive id reply)
    unfold arrive
    split
    · next found =>
      obtain ⟨mem, rfl⟩ := mem_of_fetch? found
      exact .inr ⟨_, mem, rfl, rfl, .hear rfl rfl rfl ((calm.move kept mem _).post _)
        ((dealings_post _ rfl).trans calm.dealings)⟩
    · exact .inl rfl
  | arriveAtOnce id' reply =>
    cases concerns
    change p.arriveAtOnce now id reply = p ∨ ∃ f ∈ p.fetches, f.id = id ∧ f.isUnfinished = true ∧
      FetchMove p now (some reply) f (p.arriveAtOnce now id reply)
    unfold arriveAtOnce
    split
    · next f found =>
      obtain ⟨mem, rfl⟩ := mem_of_fetch? found
      split
      · next asking going =>
        exact .inr ⟨f, mem, rfl, by simp [Fetch.isUnfinished, asking],
          take_moves kept mem going now (.inr ⟨asking, rfl⟩)⟩
      · exact .inl rfl
    · exact .inl rfl
  | expire id' =>
    cases concerns
    change p.expire id = p ∨ ∃ f ∈ p.fetches, f.id = id ∧ f.isUnfinished = true ∧
      FetchMove p now none f (p.expire id)
    unfold expire
    split
    · next found =>
      obtain ⟨mem, rfl⟩ := mem_of_fetch? found
      exact .inr ⟨_, mem, rfl, rfl, .expire rfl (.inl rfl) ((calm.move kept mem _).post _)
        ((dealings_post _ rfl).trans calm.dealings)⟩
    · next found =>
      obtain ⟨mem, rfl⟩ := mem_of_fetch? found
      exact .inr ⟨_, mem, rfl, rfl, .expire rfl (.inl rfl) (calm.move kept mem _) calm.dealings⟩
    · exact .inl rfl

/-- Whatever a fetch does, it moves to a stage and at most nudges the others. -/
theorem FetchMove.moved {now : Seconds} {came : Option Reply} (h : FetchMove p now came f q) :
    ∃ stage, Moved p f stage q := by
  cases h with
  | queue moved => exact ⟨_, moved⟩
  | ask _ _ _ moved => exact ⟨_, moved⟩
  | hear _ _ _ moved => exact ⟨_, moved⟩
  | expire _ _ moved => exact ⟨_, moved⟩
  | fail _ _ _ moved => exact ⟨_, moved⟩
  | serve _ _ _ _ moved => exact ⟨_, moved⟩
  | refuse _ moved => exact ⟨_, moved⟩

/-- What a fetch does by itself is nothing to the books. -/
theorem books_of_fetch? (p : Pool) (now : Seconds) {e : PoolEvent} {id : Nat}
    (concerns : e.fetch? = some id) (unannounced : e ≠ .announce id) :
    (p.step now e).books = p.books := by
  cases e with
  | openCall | abandon | callStep | cancelPending | clearCache | setTtl | resetAuth => cases concerns
  | announce id' =>
    cases concerns
    exact absurd rfl unannounced
  | fetchStep id' => exact books_fetchStep p now id'
  | arrive id' reply => exact books_arrive p id' reply
  | arriveAtOnce id' reply => exact books_arriveAtOnce p now id' reply
  | expire id' => exact books_expire p id'

/-- Fetches have begun, have been told to stop or are gone, and the cache aside nothing has been dealt
with the catalog. -/
structure Undealt (p q : Pool) : Prop where
  fetches : ∀ g ∈ q.fetches, (∃ f ∈ p.fetches, f.Nudged g) ∨ g.stage = .begun ∧ p.nextFetch ≤ g.id
  nextFetch : p.nextFetch ≤ q.nextFetch
  dealings : q.dealings = { p.dealings with cache := q.cache }

namespace Undealt

theorem of_fetches (same : q.fetches = p.fetches) (next : q.nextFetch = p.nextFetch)
    (dealings : q.dealings = { p.dealings with cache := q.cache }) : Undealt p q :=
  ⟨fun g mem => .inl ⟨g, same ▸ mem, .refl g⟩, Nat.le_of_eq next.symm, dealings⟩

theorem of_stirred (h : Stirred p q) (next : q.nextFetch = p.nextFetch) : Undealt p q := by
  have cache : q.cache = p.cache := congrArg Dealings.cache h.dealings
  refine ⟨fun g mem => .inl (h.fetches g mem), Nat.le_of_eq next.symm, ?_⟩
  rw [h.dealings, cache]
  rfl

/-- Who waits for a fetch is nothing to the catalog. -/
theorem updateWatchers (p : Pool) (id : Nat) (change : List Nat → List Nat) :
    Undealt p (p.updateFetch id fun f => { f with watchers := change f.watchers }) := by
  refine ⟨fun g mem => .inl ?_, Nat.le_refl _, rfl⟩
  obtain ⟨f, there, rfl⟩ := List.mem_map.1 mem
  refine ⟨f, there, ?_⟩
  split
  · exact ⟨rfl, rfl, .inl rfl, fun h => h⟩
  · exact .refl f

theorem post (h : Undealt p q) {s : Signal} (silent : s.request? = none) : Undealt p (q.post s) :=
  ⟨h.fetches, h.nextFetch, (dealings_post q silent).trans h.dealings⟩

theorem setCall (h : Undealt p q) (call : Call) : Undealt p (q.setCall call) :=
  ⟨h.fetches, h.nextFetch, h.dealings⟩

theorem callMove {c : Call} (move : CallMove p c q) : Undealt p q := by
  have other (cache : Cache) : Undealt p ({ p with cache } : Pool) := .of_fetches rfl rfl rfl
  cases move with
  | settle cache _ =>
    have closed : Undealt p { p with cache, calls := p.calls.filter fun x => x.id != c.id } :=
      .of_fetches rfl rfl rfl
    exact closed.post rfl
  | finish cache call _ => exact ((other cache).setCall _).post rfl
  | begin cache call =>
    have begun : Undealt p { p with
        cache
        fetches := p.fetches ++
          [{ id := p.nextFetch, lookup := call.current, watchers := [call.id] }]
        pending := p.pending ++ [⟨call.current.key p.site, p.nextFetch⟩]
        nextFetch := p.nextFetch + 1 } := by
      refine ⟨fun g mem => ?_, Nat.le_succ _, rfl⟩
      rcases List.mem_append.1 mem with old | new
      · exact .inl ⟨g, old, .refl g⟩
      · rw [List.mem_singleton.1 new]
        exact .inr ⟨rfl, Nat.le_refl _⟩
    exact (begun.post rfl).setCall _
  | join cache call fetch =>
    have watched := updateWatchers { p with cache } fetch (· ++ [call.id])
    have joined : Undealt p (({ p with cache } : Pool).updateFetch fetch fun f =>
        { f with watchers := f.watchers ++ [call.id] }) :=
      ⟨watched.fetches, watched.nextFetch, watched.dealings⟩
    exact joined.setCall _

theorem openCall (p : Pool) (id : Nat) (context : Context) : Undealt p (p.openCall id context).2 := by
  have same : Undealt p p := .of_fetches rfl rfl rfl
  unfold Pool.openCall
  split
  · exact same
  · next lookup _ =>
    split
    · exact same
    · have opened : Undealt p { p with
          calls := p.calls ++ [{ id, wanted := lookup, current := lookup }] } :=
        .of_fetches rfl rfl rfl
      exact opened.post rfl

theorem abandon (p : Pool) (id : Nat) : Undealt p (p.abandon id) := by
  have same : Undealt p p := .of_fetches rfl rfl rfl
  obtain unmoved | ⟨c, -, -, ⟨-, marked⟩ | ⟨fetch, -, marked⟩⟩ := p.abandon_cases id
  · rwa [unmoved]
  · rw [marked]
    exact same.setCall _
  · rw [marked]
    have left := updateWatchers (p.setCall { c with abandoned := true }) fetch (·.filter (· != id))
    have gone : Undealt p ((p.setCall { c with abandoned := true }).updateFetch fetch fun f =>
        { f with watchers := f.watchers.filter (· != id) }) :=
      ⟨left.fetches, left.nextFetch, left.dealings⟩
    exact gone.post rfl

theorem tell (h : Undealt p q) (outcome : Outcome) (id : Nat) : Undealt p (q.tell outcome id) := by
  unfold Pool.tell
  split
  · exact (h.setCall _).post rfl
  · exact h

theorem announce (p : Pool) (id : Nat) : Undealt p (p.announce id) := by
  have same : Undealt p p := .of_fetches rfl rfl rfl
  unfold Pool.announce
  split
  · next f _ =>
    split
    · next outcome _ =>
      have gone : Undealt p
          { p.forget f with fetches := (p.forget f).fetches.filter fun g => g.id != id } := by
        have forgotten : Undealt p (p.forget f) := by
          unfold forget
          dsimp only
          split
          · exact .of_fetches rfl rfl rfl
          · exact same
        exact ⟨fun g mem => forgotten.fetches g (List.mem_filter.1 mem).1, forgotten.nextFetch,
          forgotten.dealings⟩
      exact List.foldlRecOn (motive := fun q : Pool => Undealt p q) f.watchers _ gone
        fun q h w _ => h.tell outcome w
    · exact same
  · exact same

end Undealt

/-- What happens elsewhere than in a fetch is not dealt with the catalog. -/
theorem step_undealt (p : Pool) (now : Seconds) {e : PoolEvent}
    (elsewhere : ∀ id, e.fetch? = some id → e = .announce id) (blocked : e ≠ .resetAuth) :
    Undealt p (p.step now e) := by
  have same : Undealt p p := .of_fetches rfl rfl rfl
  cases e with
  | openCall id context =>
    cases taken : p.call? id with
    | none => simpa [step, taken] using Undealt.openCall p id context
    | some c => simpa [step, taken] using same
  | abandon id => exact Undealt.abandon p id
  | callStep id =>
    obtain unmoved | ⟨c, -, -, move⟩ := p.callStep_cases now id
    · exact (congrArg (Undealt p) unmoved).mpr same
    · exact .callMove move
  | announce id => exact Undealt.announce p id
  | cancelPending =>
    exact .of_stirred ((Stirred.refl p).stopFetches _)
      (congrArg Books.nextFetch (books_cancelPending p))
  | clearCache => exact .of_fetches rfl rfl rfl
  | setTtl ttl given =>
    obtain ⟨cache, changed⟩ := p.setTtl_cases now ttl given
    rw [changed]
    exact .of_fetches rfl rfl rfl
  | resetAuth => exact absurd rfl blocked
  | fetchStep id => cases elsewhere id rfl
  | arrive id => cases elsewhere id rfl
  | arriveAtOnce id => cases elsewhere id rfl
  | expire id => cases elsewhere id rfl

/-- A step lifts a block, leaves the catalog alone, or is what the fetch that it concerns may do. -/
theorem step_kinds (kept : p.books.Kept) (now : Seconds) (e : PoolEvent) :
    e = .resetAuth ∨ Undealt p (p.step now e) ∨
    ∃ f ∈ p.fetches, e.fetch? = some f.id ∧ FetchMove p now e.reply? f (p.step now e) ∧
      (p.step now e).books = p.books := by
  by_cases elsewhere : ∀ id, e.fetch? = some id → e = .announce id
  · by_cases lift : e = .resetAuth
    · exact .inl lift
    · exact .inr (.inl (step_undealt p now elsewhere lift))
  · push Not at elsewhere
    obtain ⟨id, concerns, unannounced⟩ := elsewhere
    have books := books_of_fetch? p now concerns unannounced
    obtain same | ⟨f, mem, rfl, -, move⟩ := step_moves kept now concerns unannounced
    · have unmoved : Undealt p p := .of_fetches rfl rfl rfl
      exact .inr (.inl ((congrArg (Undealt p) same).mpr unmoved))
    · exact .inr (.inr ⟨f, mem, concerns, move, books⟩)

end

end Pool

end Typeahead
