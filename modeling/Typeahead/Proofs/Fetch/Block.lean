import Typeahead.Proofs.Fetch.Dealings

/-!
A refusal by the catalog blocks all access until the block is lifted. Nobody asks the catalog in the
meantime, and nothing of what was under way is stored, not even after the block is lifted.

- `Reachable.isSealed`: while access is blocked, whoever is behind the gate is told to stop.
- `Doomed.step`: whoever is told to stop never comes to store anything.
- `authorization_block`: what follows for a fetch to which access is refused, and for all others.
-/

namespace Typeahead

/-- A slot that is handed out does not bring a fetch behind the gate at once. -/
theorem Fetch.Nudged.isInside {f g : Fetch} (h : f.Nudged g) (inside : g.isInside = true) :
    f.isInside = true := by
  rcases h.stage with same | handed
  · unfold Fetch.isInside at inside ⊢
    rwa [same] at inside
  · simp [Fetch.isInside, handed] at inside

/-- No fetch ends by what others do to it. -/
theorem Fetch.Nudged.isUnfinished {f g : Fetch} (h : f.Nudged g) (unfinished : f.isUnfinished = true) :
    g.isUnfinished = true := by
  rcases h.stage with same | handed
  · unfold Fetch.isUnfinished at unfinished ⊢
    rwa [same]
  · simp [Fetch.isUnfinished, handed]

namespace Pool

/-- While access is blocked, whoever is behind the gate is told to stop. -/
def IsSealed (p : Pool) : Prop :=
  p.refusal?.isSome = true → ∀ f ∈ p.fetches, f.isInside = true → f.stopping = true

/-- A fetch of this number, if it is still there, is told to stop; the number is not given out again. -/
structure Doomed (p : Pool) (id : Nat) : Prop where
  given : id < p.nextFetch
  stopping : ∀ f ∈ p.fetches, f.id = id → f.stopping = true

section

variable {p q : Pool} {f : Fetch} {now : Seconds} {came : Option Reply}

/-- Where a fetch moves out of the gate's inside, or not in, the others keep a pool sealed. -/
theorem Moved.isSealed {stage : FetchStage} (moved : Moved p f stage q)
    (outside : ({ f with stage } : Fetch).isInside = false) (refusal : q.refusal? = p.refusal?)
    (h : p.IsSealed) : q.IsSealed := by
  intro blocked g mem inside
  by_cases self : g.id = f.id
  · have left : g.isInside = false := by
      unfold Fetch.isInside at outside ⊢
      rw [(moved.self g mem self).2.1]
      exact outside
    rw [left] at inside
    cases inside
  · obtain ⟨g', mem', nudged⟩ := moved.others g mem self
    exact nudged.stopping (h (refusal ▸ blocked) g' mem' (nudged.isInside inside))

theorem FetchMove.isSealed (move : FetchMove p now came f q) (mem : f ∈ p.fetches)
    (h : p.IsSealed) : q.IsSealed := by
  -- whoever is behind the gate and goes on there is not told to stop, and hence access is not blocked
  have open' (going : f.stopping = false) (inside : f.isInside = true) : p.refusal? = none := by
    cases blocked : p.refusal? with
    | none => rfl
    | some text =>
      have stopping := h (by simp [blocked]) f mem inside
      rw [going] at stopping
      cases stopping
  have lifted (dealings : q.dealings.refusal? = none) : q.IsSealed := by
    intro blocked
    have : q.refusal? = none := dealings
    rw [this] at blocked
    cases blocked
  cases move with
  | queue moved dealings => exact moved.isSealed rfl (congrArg Dealings.refusal? dealings) h
  | ask _ unblocked _ _ dealings => exact lifted ((congrArg Dealings.refusal? dealings).trans unblocked)
  | hear going asking _ _ dealings =>
    have unblocked := open' going (by simp [Fetch.isInside, asking])
    exact lifted ((congrArg Dealings.refusal? dealings).trans unblocked)
  | expire going cause _ dealings =>
    have unblocked : p.refusal? = none := cause.elim (open' going) id
    exact lifted ((congrArg Dealings.refusal? dealings).trans unblocked)
  | fail _ _ _ moved dealings => exact moved.isSealed rfl (congrArg Dealings.refusal? dealings) h
  | serve _ _ _ _ moved dealings => exact moved.isSealed rfl (congrArg Dealings.refusal? dealings) h
  | refuse _ moved _ stopped =>
    intro _ g there inside
    by_cases self : g.id = f.id
    · simp [Fetch.isInside, (moved.self g there self).2.1] at inside
    · obtain ⟨g', mem', nudged⟩ := moved.others g there self
      have unfinished : g'.isUnfinished = true := by
        have := nudged.isInside inside
        unfold Fetch.isInside at this
        unfold Fetch.isUnfinished
        split at this <;> simp_all
      exact stopped g' mem' (nudged.id ▸ self) unfinished g there nudged.id

theorem Undealt.isSealed (undealt : Undealt p q) (h : p.IsSealed) : q.IsSealed := by
  intro blocked g mem inside
  have refusal : q.refusal? = p.refusal? := congrArg Dealings.refusal? undealt.dealings
  rcases undealt.fetches g mem with ⟨f, there, nudged⟩ | ⟨begun, -⟩
  · exact nudged.stopping (h (refusal ▸ blocked) f there (nudged.isInside inside))
  · simp [Fetch.isInside, begun] at inside

theorem Reachable.isSealed {slots : Int} (h : Reachable slots p) : p.IsSealed := by
  induction h with
  | create created =>
    obtain ⟨-, cache, rfl⟩ := create_cases created
    intro blocked
    cases blocked
  | @step p now e earlier ih =>
    obtain rfl | undealt | ⟨f, mem, -, move, -⟩ := step_kinds earlier.kept now e
    · intro blocked
      cases blocked
    · exact undealt.isSealed ih
    · exact move.isSealed mem ih

/-- A fetch that ends in a step ends by what it does itself. -/
theorem move_of_ended (kept : p.books.Kept) (mem : f ∈ p.fetches) (unfinished : f.isUnfinished = true)
    {e : PoolEvent} {g : Fetch} (there : g ∈ (p.step now e).fetches) (same : g.id = f.id)
    (ended : g.isUnfinished = false) :
    FetchMove p now e.reply? f (p.step now e) ∧ (p.step now e).books = p.books := by
  have only {h : Fetch} (mem' : h ∈ p.fetches) (number : h.id = f.id) : h = f :=
    List.inj_on_of_nodup_map (nodup_fetches kept) mem' mem number
  -- by what others do to it a fetch does not end
  have own {h : Fetch} (mem' : h ∈ p.fetches) (nudged : h.Nudged g) : False := by
    have := nudged.isUnfinished (only mem' (nudged.id.symm.trans same) ▸ unfinished)
    rw [ended] at this
    cases this
  obtain rfl | undealt | ⟨f', mem', -, move, books⟩ := step_kinds kept now e
  · exact (own there (.refl g)).elim
  · rcases undealt.fetches g there with ⟨h, mem', nudged⟩ | ⟨begun, -⟩
    · exact (own mem' nudged).elim
    · simp [Fetch.isUnfinished, begun] at ended
  · by_cases self : f'.id = f.id
    · exact ⟨only mem' self ▸ move, books⟩
    · obtain ⟨stage, moved⟩ := move.moved
      obtain ⟨h, mem'', nudged⟩ :=
        moved.others g there fun number => self (number.symm.trans same)
      exact (own mem'' nudged).elim

/-- Who is told to stop goes on being told so, and stores nothing. -/
theorem FetchMove.doomed (move : FetchMove p now came f q) (books : q.books = p.books)
    (mem : f ∈ p.fetches) {id : Nat} (h : p.Doomed id) : q.Doomed id := by
  have next : q.nextFetch = p.nextFetch := congrArg Books.nextFetch books
  refine ⟨next ▸ h.given, fun g there number => ?_⟩
  obtain ⟨stage, moved⟩ := move.moved
  by_cases self : g.id = f.id
  · exact (moved.self g there self).2.2 (h.stopping f mem (self.symm.trans number))
  · obtain ⟨g', mem', nudged⟩ := moved.others g there self
    exact nudged.stopping (h.stopping g' mem' (nudged.id.symm.trans number))

theorem Undealt.doomed (undealt : Undealt p q) {id : Nat} (h : p.Doomed id) : q.Doomed id := by
  refine ⟨Nat.lt_of_lt_of_le h.given undealt.nextFetch, fun g there number => ?_⟩
  rcases undealt.fetches g there with ⟨f, mem, nudged⟩ | ⟨-, new⟩
  · exact nudged.stopping (h.stopping f mem (nudged.id.symm.trans number))
  · exact absurd h.given (Nat.not_lt.2 (number ▸ new))

theorem Doomed.step (kept : p.books.Kept) {id : Nat} (h : p.Doomed id) (now : Seconds) (e : PoolEvent) :
    (p.step now e).Doomed id := by
  obtain rfl | undealt | ⟨f, mem, -, move, books⟩ := step_kinds kept now e
  · exact ⟨h.given, h.stopping⟩
  · exact undealt.doomed h
  · exact move.doomed books mem h

theorem Doomed.run {slots : Int} (reachable : Reachable slots p) {id : Nat} (h : p.Doomed id)
    (es : List (Seconds × PoolEvent)) : (p.run es).Doomed id := by
  induction es generalizing p with
  | nil => exact h
  | cons e es ih => exact ih (reachable.step e.1 e.2) (h.step reachable.kept e.1 e.2)

/-- Only a fetch that is not told to stop, and holds a reply or gets one, has anything to store. -/
theorem FetchMove.cache_eq (move : FetchMove p now came f q)
    (idle : f.isInside = true → f.stopping = true) : q.cache = p.cache := by
  cases move with
  | queue _ dealings => exact congrArg Dealings.cache dealings
  | ask _ _ _ _ dealings => exact congrArg Dealings.cache dealings
  | hear _ _ _ _ dealings => exact congrArg Dealings.cache dealings
  | expire _ _ _ dealings => exact congrArg Dealings.cache dealings
  | fail _ _ _ _ dealings => exact congrArg Dealings.cache dealings
  | refuse _ _ dealings => exact congrArg Dealings.cache dealings
  | serve going has =>
    have inside : f.isInside = true := by
      rcases has with answered | ⟨asking, -⟩ <;> simp [Fetch.isInside, *]
    rw [idle inside] at going
    cases going

theorem cache_announce (p : Pool) (id : Nat) : (p.announce id).cache = p.cache := by
  have told (outcome : Outcome) (q : Pool) (w : Nat) : (q.tell outcome w).cache = q.cache := by
    unfold tell
    split <;> rfl
  unfold announce
  split
  · next f _ =>
    split
    · next outcome _ =>
      have forgotten : (p.forget f).cache = p.cache := by
        unfold forget
        dsimp only
        split <;> rfl
      exact List.foldlRecOn (motive := fun q : Pool => q.cache = p.cache) f.watchers _ forgotten
        fun q same w _ => (told outcome q w).trans same
    · rfl
  · rfl

/-- Nothing is stored by an event that concerns a fetch which is idle or told to stop. -/
theorem cache_step_of_idle (kept : p.books.Kept) {e : PoolEvent} {id : Nat}
    (concerns : e.fetch? = some id)
    (idle : ∀ f ∈ p.fetches, f.id = id → f.isInside = true → f.stopping = true) (now : Seconds) :
    (p.step now e).cache = p.cache := by
  by_cases announced : e = .announce id
  · subst announced
    exact cache_announce p id
  · obtain same | ⟨f, mem, number, -, move⟩ := step_moves kept now concerns announced
    · rw [same]
    · exact move.cache_eq (idle f mem number)

theorem outcome?_of_mem (kept : p.books.Kept) (mem : f ∈ p.fetches) {outcome : Outcome}
    (ended : f.stage = .ended outcome) : p.outcome? f.id = some outcome := by
  have found := fetch?_of_mem kept mem
  cases f
  cases ended
  simp only [outcome?, found]

theorem outcome?_endFetch (kept : p.books.Kept) (mem : f ∈ p.fetches) (books : q.books = p.books)
    (outcome : Outcome) : (q.endFetch f.id outcome).outcome? f.id = some outcome := by
  have there : f.unmoved ∈ q.books.fetches := books ▸ mem_books mem
  obtain ⟨g, mem', same⟩ := List.mem_map.1 there
  have number : g.unmoved.id = f.unmoved.id := congrArg Fetch.id same
  have ended : { g with stage := .ended outcome } ∈ (q.endFetch f.id outcome).fetches :=
    List.mem_map.2 ⟨g, mem', if_pos number⟩
  have still : (q.endFetch f.id outcome).books.Kept := by
    rw [books_endFetch, books]
    exact kept
  exact number ▸ outcome?_of_mem still ended rfl

/-- The next step of a fetch that is told to stop is its last one. -/
theorem outcome?_fetchStep_of_stopping (kept : p.books.Kept) (mem : f ∈ p.fetches)
    (unfinished : f.isUnfinished = true) (stopping : f.stopping = true) (now : Seconds) :
    (p.fetchStep now f.id).outcome? f.id = some .stopped := by
  simp only [fetchStep, fetch?_of_mem kept mem, stopping]
  cases stage : f.stage with
  | begun => exact outcome?_endFetch kept mem rfl _
  | queued | admitted => exact outcome?_endFetch kept mem (books_leaveLine ..) _
  | asking | answered | overdue => exact outcome?_endFetch kept mem (books_leave ..) _
  | ended => simp [Fetch.isUnfinished, stage] at unfinished

/-- During a block, which only lifting it ends, nothing is asked and nothing is stored. -/
theorem step_of_blocked {slots : Int} (h : Reachable slots p) (blocked : p.refusal?.isSome = true)
    {e : PoolEvent} (stays : e ≠ .resetAuth) (now : Seconds) :
    (p.step now e).refusal?.isSome = true ∧ (p.step now e).requests = p.requests := by
  have as_before {q : Pool} {cache : Cache} (dealings : q.dealings = { p.dealings with cache }) :
      q.refusal?.isSome = true ∧ q.requests = p.requests := by
    have refusal : q.refusal? = p.refusal? := congrArg Dealings.refusal? dealings
    exact ⟨refusal ▸ blocked, congrArg Dealings.requests dealings⟩
  obtain lift | undealt | ⟨f, mem, -, move, -⟩ := step_kinds h.kept now e
  · exact absurd lift stays
  · exact as_before undealt.dealings
  · cases move with
    | queue _ dealings => exact as_before dealings
    | ask _ unblocked =>
      rw [unblocked] at blocked
      cases blocked
    | hear _ _ _ _ dealings => exact as_before dealings
    | expire _ _ _ dealings => exact as_before dealings
    | fail _ _ _ _ dealings => exact as_before dealings
    | serve _ _ _ _ _ dealings => exact as_before dealings
    | refuse _ _ dealings =>
      have refusal : (p.step now e).refusal? = some _ := congrArg Dealings.refusal? dealings
      exact ⟨by rw [refusal]; rfl, congrArg Dealings.requests dealings⟩

theorem run_of_blocked {slots : Int} (h : Reachable slots p) (blocked : p.refusal?.isSome = true)
    {es : List (Seconds × PoolEvent)} (stays : ∀ e ∈ es, e.2 ≠ .resetAuth) :
    (p.run es).refusal?.isSome = true ∧ (p.run es).requests = p.requests := by
  induction es generalizing p with
  | nil => exact ⟨blocked, rfl⟩
  | cons e es ih =>
    obtain ⟨first, later⟩ := List.forall_mem_cons.1 stays
    obtain ⟨still, unasked⟩ := step_of_blocked h blocked first e.1
    obtain ⟨on, unasked'⟩ := ih (h.step e.1 e.2) still later
    exact ⟨on, unasked'.trans unasked⟩

/-- During a block no call comes to be: it ends at once, and leaves the pool as it is. -/
theorem openCall_of_blocked (blocked : p.refusal?.isSome = true) (id : Nat) {context : Context}
    (asks : context.lookup? ≠ none) : ∃ error : CatalogError, error.kind = .unauthorized ∧
      p.openCall id context = (some (.failed (.catalog error)), p) := by
  obtain ⟨reply, refused⟩ := Option.isSome_iff_exists.1 blocked
  obtain ⟨lookup, wanted⟩ := Option.ne_none_iff_exists'.1 asks
  exact ⟨.blocked reply, rfl, by simp [openCall, wanted, refused]⟩

/-- A fetch to which access is refused, by the catalog or by a block, leaves a block behind and nothing
in the cache. If it is the catalog that refuses, the others are told to stop. -/
theorem FetchMove.unauthorized (move : FetchMove p now came f q) {g : Fetch} (there : g ∈ q.fetches)
    (same : g.id = f.id) {error : CatalogError} (ended : g.stage = .ended (.failed (.catalog error)))
    (kind : error.kind = .unauthorized) :
    q.refusal?.isSome = true ∧ q.cache = p.cache ∧
    ((∃ reply, error = .blocked reply) ∨
      ∀ g ∈ p.fetches, g.id ≠ f.id → g.isUnfinished = true →
        ∀ g' ∈ q.fetches, g'.id = g.id → g'.stopping = true) := by
  have otherwise {stage : FetchStage} (moved : Moved p f stage q)
      (differs : stage ≠ .ended (.failed (.catalog error))) : False :=
    differs ((moved.self g there same).2.1.symm.trans ended)
  cases move with
  | queue moved => exact (otherwise moved (by simp)).elim
  | ask _ _ _ moved => exact (otherwise moved (by simp)).elim
  | hear _ _ _ moved => exact (otherwise moved (by simp)).elim
  | expire _ _ moved => exact (otherwise moved (by simp)).elim
  | serve _ _ _ _ moved => exact (otherwise moved (by simp)).elim
  | fail _ blocks _ moved dealings =>
    obtain rfl : _ = Outcome.failed (.catalog error) :=
      FetchStage.ended.inj ((moved.self g there same).2.1.symm.trans ended)
    obtain ⟨reply, blocked, wording⟩ := blocks (by simp [Outcome.isUnauthorized, kind])
    have refusal : q.refusal? = p.refusal? := congrArg Dealings.refusal? dealings
    have cause : error = .blocked reply := by
      cases wording
      rfl
    exact ⟨by rw [refusal, blocked]; rfl, congrArg Dealings.cache dealings, .inl ⟨reply, cause⟩⟩
  | refuse _ _ dealings stopped =>
    have refusal : q.refusal? = some _ := congrArg Dealings.refusal? dealings
    exact ⟨by rw [refusal]; rfl, congrArg Dealings.cache dealings, .inr stopped⟩

/-- When a fetch ends because access is refused, it stores nothing. Until the block is lifted, whatever
happens, access stays blocked, no request is sent, every call that wants names is turned away at once and
leaves the pool as it is, and no fetch stores anything. If it was the catalog that refused (rather than a
block that stood already), no other fetch that was under way stores anything even later: its next step is
its last one. -/
theorem authorization_block {slots : Int} {p : Pool} (h : Reachable slots p) {f : Fetch}
    (mem : f ∈ p.fetches) (unfinished : f.isUnfinished = true) (now : Seconds) (e : PoolEvent)
    {error : CatalogError} (kind : error.kind = .unauthorized)
    (ends : (p.step now e).outcome? f.id = some (.failed (.catalog error))) :
    (p.step now e).cache = p.cache ∧
    (∀ es : List (Seconds × PoolEvent), (∀ e ∈ es, e.2 ≠ .resetAuth) →
      let q := (p.step now e).run es
      (∀ now, (q.stats now).blocked = true) ∧
      q.requests = (p.step now e).requests ∧
      (∀ id context, Context.lookup? context ≠ none → ∃ error : CatalogError,
        error.kind = .unauthorized ∧ q.openCall id context = (some (.failed (.catalog error)), q)) ∧
      (∀ e id, PoolEvent.fetch? e = some id → ∀ now, (q.step now e).cache = q.cache)) ∧
    ((∀ reply, error ≠ .blocked reply) →
      ∀ g ∈ p.fetches, g.id ≠ f.id → g.isUnfinished = true →
      ∀ es : List (Seconds × PoolEvent),
      let q := (p.step now e).run es
      (∀ e, PoolEvent.fetch? e = some g.id → ∀ now, (q.step now e).cache = q.cache) ∧
      ∀ g' ∈ q.fetches, g'.id = g.id → g'.isUnfinished = true →
        ∀ now, (q.fetchStep now g.id).outcome? g.id = some .stopped) := by
  obtain ⟨g, there, same, stage⟩ := ended_of_outcome? ends
  have done : g.isUnfinished = false := Fetch.isUnfinished_eq_false.2 ⟨_, stage⟩
  obtain ⟨move, books⟩ := move_of_ended h.kept mem unfinished there same done
  obtain ⟨blocked, cache, cause⟩ := move.unauthorized there same stage kind
  have next : Reachable slots (p.step now e) := h.step now e
  refine ⟨cache, fun es stays => ?_, fun refused g hg other unfinished es => ?_⟩
  · obtain ⟨still, unasked⟩ := run_of_blocked next blocked stays
    have later : Reachable slots ((p.step now e).run es) := next.run es
    refine ⟨fun _ => still, unasked, fun id _ asks => openCall_of_blocked still id asks, ?_⟩
    intro e id concerns now
    exact cache_step_of_idle later.kept concerns (fun f mem _ => later.isSealed still f mem) now
  · have stopping := cause.resolve_left fun ⟨reply, wording⟩ => refused reply wording
    have numbers : (p.step now e).nextFetch = p.nextFetch := congrArg Books.nextFetch books
    have given : g.id < p.nextFetch := h.kept.registered.given g.unmoved (mem_books hg)
    have doomed : (p.step now e).Doomed g.id := ⟨numbers ▸ given, stopping g hg other unfinished⟩
    have later : Reachable slots ((p.step now e).run es) := next.run es
    have still := doomed.run next es
    refine ⟨fun e concerns now => ?_, fun g' mem' number going now => ?_⟩
    · exact cache_step_of_idle later.kept concerns (fun f mem number _ => still.stopping f mem number) now
    · exact number ▸ outcome?_fetchStep_of_stopping later.kept mem' going (still.stopping g' mem' number) now

/-- Of three fetches one is refused while another asks and the third stands in line: the two others never
store anything. -/
theorem authorization_block_three_fetches :
    let p : Pool := {
      site := "host".toList
      base := ⟨[]⟩
      limit := .whole 2
      cache := { ttl := 60, size := 10 }
      gate := { free := 2 } }
    let q := p.run [
      (0, .openCall 1 { place := .metricName }), (0, .openCall 2 { place := .logsSearch }),
      (0, .openCall 3 { place := .facetValue, facet? := some .service }),
      (0, .callStep 1), (0, .callStep 2), (0, .callStep 3),
      (0, .fetchStep 0), (0, .fetchStep 1), (0, .fetchStep 2)]
    let refusal : PoolEvent := .arriveAtOnce 0 (.response 401 "no".toList (.ok .null))
    q.requests.length = 2 ∧ q.gate.line.length = 1 ∧
      (q.step 1 refusal).outcome? 0 = some (.failed (.catalog (.refused "no".toList))) ∧
      ∀ id, id = 1 ∨ id = 2 → ∀ (es : List (Seconds × PoolEvent)) (e : PoolEvent),
        e.fetch? = some id → ∀ now,
        (((q.step 1 refusal).run es).step now e).cache = ((q.step 1 refusal).run es).cache := by
  intro p q refusal
  have created : create "host".toList ⟨[]⟩ 60 10 2 (.whole 2) = .ok p := rfl
  have reachable : Reachable 2 q := .run (.create created) _
  have ends : (q.step 1 refusal).outcome? 0 = some (.failed (.catalog (.refused "no".toList))) := by
    decide +kernel
  refine ⟨by decide +kernel, by decide +kernel, ends, fun id among es e concerns now => ?_⟩
  have numbers : q.fetches.map (fun f => (f.id, f.isUnfinished)) = [(0, true), (1, true), (2, true)] := by
    decide +kernel
  have under_way (id : Nat) (mem : (id, true) ∈ q.fetches.map fun f => (f.id, f.isUnfinished)) :
      ∃ f ∈ q.fetches, f.id = id ∧ f.isUnfinished = true := by
    obtain ⟨f, there, same⟩ := List.mem_map.1 mem
    exact ⟨f, there, congrArg Prod.fst same, congrArg Prod.snd same⟩
  obtain ⟨f, mem, zero, unfinished⟩ := under_way 0 (by simp [numbers])
  obtain ⟨g, there, same, going⟩ := under_way id (by rcases among with rfl | rfl <;> simp [numbers])
  have other : g.id ≠ f.id := by
    rw [same, zero]
    rcases among with rfl | rfl <;> decide
  subst same
  exact ((authorization_block reachable mem unfinished 1 refusal rfl (zero ▸ ends)).2.2
    (by simp) g there other going es).1 e concerns now

end

end Pool

end Typeahead
