import Typeahead.Proofs.Fetch.Due
import Typeahead.Proofs.Fetch.GivenUp
import Typeahead.Proofs.Fetch.Posted

/-!
All that is under way is stopped. A fetch that is told to stop does nothing more: its next step is its last one,
it stores nothing, and once its end is announced nothing of it is left in the pool. Those who wait for it end
with trouble and look for nothing else, whatever happens in the meantime.

- `Halted.step`: a fetch that stops goes on stopping, and ends by that.
- `Dropped.step`: a call that waits for such a fetch is told so, and ends by that.
- `cancel_stops_all`: both, in every run after all that is registered was told to stop.
-/

namespace Typeahead

/-- Where a call is that waits for a fetch which stops: it waits, it was told so, or it ended by that, with at
most so many steps to go. -/
def CallStage.StopsWithin (fetch left : Nat) (s : CallStage) : Prop :=
  s = .waiting fetch ∧ 3 ≤ left ∨ s = .told .stopped ∧ 2 ≤ left ∨ s = .ended .stopped ∧ 1 ≤ left

namespace Pool

/-- A fetch of this number, if it is still there, stops, and if it has ended it has done so. The number is not
given out again. -/
structure Halted (p : Pool) (id : Nat) : Prop extends Doomed p id where
  ended : ∀ f ∈ p.fetches, f.id = id → ∀ outcome, f.stage = .ended outcome → outcome = .stopped

/-- No fetch of this number is there any more, and none will be. -/
structure Gone (p : Pool) (id : Nat) : Prop where
  given : id < p.nextFetch
  away : ∀ f ∈ p.fetches, f.id ≠ id

/-- A call, if it is still there, wants what it wanted, was given up only if that happened, and waits for a
fetch which stops. -/
def Dropped (c : Call) (fetch left : Nat) (givenUp : Prop) (p : Pool) : Prop :=
  ∀ x ∈ p.calls, x.id = c.id →
    x.wanted = c.wanted ∧ (x.abandoned = true → givenUp) ∧ x.stage.StopsWithin fetch left

/-- How a call settled whose signals are these: its fetch was stopped, or it was given up. -/
def SettledBy (c : Call) (givenUp : Prop) (posted : List Signal) : Prop :=
  ∀ r, .settled c.id r ∈ posted →
    r = .done (.trouble c.wanted.dataset .stopped) ∨ r = .cancelled ∧ givenUp

section

variable {p q : Pool} {f : Fetch} {c : Call} {fetch left : Nat} {givenUp : Prop}

/-- What a step does to a fetch that it does not concern. -/
theorem step_nudges (kept : p.books.Kept) (mem : f ∈ p.fetches) (now : Seconds) {e : PoolEvent}
    (other : e.fetch? ≠ some f.id) {g : Fetch} (there : g ∈ (p.step now e).fetches) (same : g.id = f.id) :
    f.Nudged g := by
  have only {h : Fetch} (mem' : h ∈ p.fetches) (nudged : h.Nudged g) : f.Nudged g := by
    have number : h.id = f.id := nudged.id.symm.trans same
    rwa [List.inj_on_of_nodup_map (nodup_fetches kept) mem' mem number] at nudged
  obtain rfl | undealt | ⟨f', mem', concerns, move, -⟩ := step_kinds kept now e
  · exact only there (.refl g)
  · rcases undealt.fetches g there with ⟨h, mem', nudged⟩ | ⟨-, new⟩
    · exact only mem' nudged
    · have given : f.id < p.nextFetch := kept.registered.given f.unmoved (mem_books mem)
      omega
  · obtain ⟨stage, moved⟩ := move.moved
    have apart : f'.id ≠ f.id := fun number => other (number ▸ concerns)
    obtain ⟨h, mem'', nudged⟩ := moved.others g there fun number => apart (number.symm.trans same)
    exact only mem'' nudged

/-- A fetch that stops takes no notice of what comes, and ends only by its own step. -/
theorem step_of_stopping (kept : p.books.Kept) (mem : f ∈ p.fetches) (unfinished : f.isUnfinished = true)
    (stopping : f.stopping = true) (now : Seconds) {e : PoolEvent} (concerns : e.fetch? = some f.id) :
    e = .fetchStep f.id ∨ p.step now e = p := by
  have found := fetch?_of_mem kept mem
  cases e with
  | fetchStep id =>
    cases concerns
    exact .inl rfl
  | announce id =>
    cases concerns
    obtain same | ⟨g, outcome, there, number, ended⟩ := p.announce_cases f.id
    · exact .inr same
    · obtain rfl := List.inj_on_of_nodup_map (nodup_fetches kept) there mem number
      simp [Fetch.isUnfinished, ended] at unfinished
  | arrive id reply =>
    cases concerns
    right
    cases f
    cases stopping
    simp only [step, arrive, found]
  | arriveAtOnce id reply =>
    cases concerns
    right
    simp only [step, arriveAtOnce, found, stopping]
    cases f.stage <;> rfl
  | expire id =>
    cases concerns
    right
    cases f
    cases stopping
    simp only [step, expire, found]
  | openCall | abandon | callStep | cancelPending | clearCache | setTtl | resetAuth => cases concerns

/-- Who is told to stop, and has not ended, is halted. -/
theorem Halted.of_stopping (kept : p.books.Kept) (mem : f ∈ p.fetches) (unfinished : f.isUnfinished = true)
    (stopping : f.stopping = true) : p.Halted f.id := by
  have only {g : Fetch} (there : g ∈ p.fetches) (same : g.id = f.id) : g = f :=
    List.inj_on_of_nodup_map (nodup_fetches kept) there mem same
  refine ⟨⟨kept.registered.given f.unmoved (mem_books mem), fun g there same => ?_⟩, ?_⟩
  · exact only there same ▸ stopping
  · intro g there same outcome ended
    rw [only there same] at ended
    rw [Fetch.isUnfinished_eq_false.2 ⟨outcome, ended⟩] at unfinished
    cases unfinished

/-- Whatever happens, a fetch that stops goes on stopping and ends by that. -/
theorem Halted.step {slots : Int} (reachable : Reachable slots p) (h : p.Halted fetch) (now : Seconds)
    (e : PoolEvent) : (p.step now e).Halted fetch := by
  have kept := reachable.kept
  refine ⟨h.toDoomed.step kept now e, fun g there number outcome ended => ?_⟩
  rcases (p.step_origin now e).2 g there with ⟨f, mem, same⟩ | new
  · obtain rfl : f.id = fetch := same.symm.trans number
    cases unfinished : f.isUnfinished with
    | false =>
      obtain ⟨before, stage⟩ := Fetch.isUnfinished_eq_false.1 unfinished
      obtain rfl := h.ended f mem rfl before stage
      have settled := Settled.of_ended kept mem stage
      exact FetchStage.ended.inj (ended.symm.trans ((settled.step reachable now e).ended g there number))
    | true =>
      have stopping := h.stopping f mem rfl
      by_cases concerns : e.fetch? = some f.id
      · rcases step_of_stopping kept mem unfinished stopping now concerns with rfl | unmoved
        · have ends := outcome?_fetchStep_of_stopping kept mem unfinished stopping now
          have found := outcome?_of_mem (reachable.step now _).kept there ended
          rw [same] at found
          exact Option.some.inj (found.symm.trans ends)
        · rw [unmoved] at there
          exact h.ended g there number outcome ended
      · have still := (step_nudges kept mem now concerns there same).isUnfinished unfinished
        rw [Fetch.isUnfinished_eq_false.2 ⟨outcome, ended⟩] at still
        cases still
  · exact absurd h.given (Nat.not_lt.2 (number ▸ new))

theorem Halted.run {slots : Int} (reachable : Reachable slots p) (h : p.Halted fetch)
    (es : List (Seconds × PoolEvent)) : (p.run es).Halted fetch := by
  induction es generalizing p with
  | nil => exact h
  | cons e es ih => exact ih (reachable.step e.1 e.2) (h.step reachable e.1 e.2)

/-- The next step of a fetch that stops is its last one. -/
theorem Halted.settled {slots : Int} (reachable : Reachable slots p) (h : p.Halted fetch) (now : Seconds) :
    (p.fetchStep now fetch).Settled fetch .stopped := by
  have halted : (p.fetchStep now fetch).Halted fetch := h.step reachable now (.fetchStep fetch)
  refine ⟨halted.given, fun g there number => ?_⟩
  cases unfinished : g.isUnfinished with
  | false =>
    obtain ⟨outcome, ended⟩ := Fetch.isUnfinished_eq_false.1 unfinished
    exact halted.ended g there number outcome ended ▸ ended
  | true =>
    -- it had not ended before, and hence has ended by this step
    obtain ⟨f, mem, same⟩ | new := (p.step_origin now (.fetchStep fetch)).2 g there
    · obtain rfl : f.id = fetch := same.symm.trans number
      have going : f.isUnfinished = true := by
        by_contra ended
        obtain ⟨outcome, stage⟩ := Fetch.isUnfinished_eq_false.1 (Bool.eq_false_iff.2 ended)
        have settled := Settled.of_ended reachable.kept mem stage
        have final := (settled.step reachable now (.fetchStep f.id)).ended g there number
        rw [Fetch.isUnfinished_eq_false.2 ⟨outcome, final⟩] at unfinished
        cases unfinished
      obtain ⟨g', there', number', stage⟩ := ended_of_outcome?
        (outcome?_fetchStep_of_stopping reachable.kept mem going (h.stopping f mem rfl) now)
      have next : Reachable slots (p.fetchStep now f.id) := reachable.step now (.fetchStep f.id)
      rwa [← List.inj_on_of_nodup_map (nodup_fetches next.kept) there' there (number'.trans number.symm)]
    · exact absurd h.given (Nat.not_lt.2 (number ▸ new))

/-- Once the end of a fetch is announced, it is gone. -/
theorem Settled.announce (kept : p.books.Kept) {outcome : Outcome} (h : p.Settled fetch outcome) :
    (p.announce fetch).Gone fetch := by
  obtain ⟨next, origin⟩ := p.step_origin 0 (.announce fetch)
  refine ⟨Nat.lt_of_lt_of_le h.given next, fun g there number => ?_⟩
  rcases origin g there with ⟨f, mem, same⟩ | new
  · obtain rfl : f.id = fetch := same.symm.trans number
    rw [fetches_announce kept mem (h.ended f mem rfl), List.mem_filter] at there
    exact bne_iff_ne.1 there.2 same
  · exact absurd h.given (Nat.not_lt.2 (number ▸ new))

theorem Gone.run (h : p.Gone fetch) (es : List (Seconds × PoolEvent)) : (p.run es).Gone fetch := by
  obtain ⟨next, origin⟩ := p.run_origin es
  refine ⟨Nat.lt_of_lt_of_le h.given next, fun g there number => ?_⟩
  rcases origin g there with ⟨f, mem, same⟩ | new
  · exact h.away f mem (same.symm.trans number)
  · exact absurd h.given (Nat.not_lt.2 (number ▸ new))

/-- A call that is there after its step was there before. -/
theorem call?_of_callStep {x : Call} {id : Nat} {now : Seconds} (there : x ∈ (p.callStep now id).calls)
    (number : x.id = id) : ∃ d, p.call? id = some d := by
  cases found : p.call? id with
  | none =>
    have missing := List.find?_eq_none.1 found x
    simp only [Pool.callStep, found] at there
    exact absurd number (by simpa using missing there)
  | some d => exact ⟨d, rfl⟩

/-- What a call does by its step that waits for a fetch which stops: nothing as long as it waits, and else it ends
and settles. -/
theorem callStep_of_stops {id : Nat} (found : p.call? id = some c) (stops : c.stage.StopsWithin fetch left)
    (now : Seconds) :
    p.callStep now id = p ∧ c.awaits? = some fetch ∨
    p.callStep now id = p.endCall c .stopped ∧ c.stage ≠ .ended .stopped ∨
    c.stage = .ended .stopped ∧ p.callStep now id =
      ({ p with calls := p.calls.filter fun x => x.id != id } : Pool).post (.settled id (c.resolution .stopped)) := by
  rcases stops with ⟨stage, -⟩ | ⟨stage, -⟩ | ⟨stage, -⟩
  · cases gone : c.abandoned with
    | false =>
      have waits : c.awaits? = some fetch := Call.awaits?_eq_some.2 ⟨stage, gone⟩
      exact .inl ⟨callStep_waits found waits now, waits⟩
    | true =>
      refine .inr (.inl ⟨?_, by simp [stage]⟩)
      simp only [callStep, found, stage, gone]
  · refine .inr (.inl ⟨?_, by simp [stage]⟩)
    cases gone : c.abandoned with
    | false => simp [callStep, found, stage, gone, conclude, Outcome.isAbsent, Call.ending]
    | true => simp only [callStep, found, stage, gone]
  · exact .inr (.inr ⟨stage, by simp only [callStep, found, stage]⟩)

/-- A call that was told that its fetch stopped does nothing but end, and begins no other fetch. -/
theorem Dropped.idle (h : Dropped c fetch left givenUp p) (now : Seconds) :
    (p.callStep now c.id).requests = p.requests ∧ (p.callStep now c.id).nextFetch = p.nextFetch := by
  cases found : p.call? c.id with
  | none => simp only [callStep, found, and_self]
  | some x =>
    obtain ⟨mem, same⟩ := mem_of_call? found
    obtain ⟨-, -, stops⟩ := h x mem same
    obtain ⟨unmoved, -⟩ | ⟨ends, -⟩ | ⟨-, settles⟩ := callStep_of_stops found stops now
    · rw [unmoved]
      exact ⟨rfl, rfl⟩
    · rw [ends, endCall, requests_post]
      exact ⟨List.append_nil _, rfl⟩
    · rw [settles, requests_post]
      exact ⟨List.append_nil _, rfl⟩

namespace Dropped

theorem of_calls (h : Dropped c fetch left givenUp p) (calls : q.calls = p.calls) :
    Dropped c fetch left givenUp q := fun x mem => h x (calls ▸ mem)

theorem callStep (h : Dropped c fetch left givenUp p) (now : Seconds) (id : Nat) :
    Dropped c fetch left givenUp (p.callStep now id) := by
  obtain same | ⟨d, found, -, move⟩ := p.callStep_cases now id
  · rwa [same]
  · obtain ⟨mem, rfl⟩ := mem_of_call? found
    intro x there number
    by_cases self : d.id = c.id
    · obtain ⟨wanted, gone, stops⟩ := h d mem self
      obtain ⟨unmoved, -⟩ | ⟨ends, -⟩ | ⟨-, settles⟩ := callStep_of_stops found stops now
      · exact h x (unmoved ▸ there) number
      · rw [ends] at there
        rcases Books.mem_setCall (b := p.books) there with rfl | ⟨-, other⟩
        · have some_left : 1 ≤ left := by
            rcases stops with ⟨-, _⟩ | ⟨-, _⟩ | ⟨-, _⟩ <;> omega
          exact ⟨wanted, gone, .inr (.inr ⟨rfl, some_left⟩)⟩
        · exact absurd (number.trans self.symm) other
      · rw [settles] at there
        exact absurd (number.trans self.symm) (bne_iff_ne.1 (List.mem_filter.1 there).2)
    · exact h x (move.mem_of_other there fun same => self (same.symm.trans number)) number

theorem abandon (h : Dropped c fetch left givenUp p) (id : Nat) (abandons : id = c.id → givenUp) :
    Dropped c fetch left givenUp (p.abandon id) := by
  have marked (d : Call) (mem : d ∈ p.calls) (self : d.id = id) :
      Dropped c fetch left givenUp (p.setCall { d with abandoned := true }) := by
    intro x there number
    rcases Books.mem_setCall (b := p.books) there with rfl | ⟨old, -⟩
    · obtain ⟨wanted, -, stops⟩ := h d mem number
      exact ⟨wanted, fun _ => abandons (self.symm.trans number), stops⟩
    · exact h x old number
  obtain same | ⟨d, mem, self, ⟨-, same⟩ | ⟨other, -, same⟩⟩ := p.abandon_cases id
  · rwa [same]
  · rw [same]
    exact marked d mem self
  · rw [same]
    exact marked d mem self

/-- Who waits for a fetch that stopped is told so. -/
theorem announce (h : Dropped c fetch left givenUp p) (kept : p.books.Kept) (halted : p.Halted fetch)
    (id : Nat) : Dropped c fetch left givenUp (p.announce id) := by
  obtain same | ⟨f, outcome, mem, rfl, ended⟩ := p.announce_cases id
  · rwa [same]
  · intro x there number
    have told : (p.announce f.id).calls = _ := congrArg Books.calls (books_announce kept mem ended)
    rw [told] at there
    obtain ⟨d, old, ⟨watches, rfl⟩ | ⟨-, rfl⟩⟩ := Books.mem_tell there
    · obtain ⟨wanted, gone, stops⟩ := h d old number
      obtain ⟨d', hd, same, awaits⟩ := kept.attended.watched f.unmoved (mem_books mem) d.id watches
      obtain rfl := kept.attended.eq hd old same
      obtain ⟨stage, -⟩ := Call.awaits?_eq_some.1 awaits
      rcases stops with ⟨waiting, most⟩ | ⟨waiting, -⟩ | ⟨waiting, -⟩
      · obtain rfl : f.id = fetch := CallStage.waiting.inj (stage.symm.trans waiting)
        obtain rfl := halted.ended f mem rfl outcome ended
        exact ⟨wanted, gone, .inr (.inl ⟨rfl, by omega⟩)⟩
      · cases stage.symm.trans waiting
      · cases stage.symm.trans waiting
    · exact h x old number

/-- Whatever happens, a call that waits for a fetch which stops goes on waiting, or comes to an end by that. -/
theorem step (h : Dropped c fetch left givenUp p) (kept : p.books.Kept) (halted : p.Halted fetch) (now : Seconds)
    {e : PoolEvent} (unopened : ∀ context, e ≠ .openCall c.id context) (abandons : e = .abandon c.id → givenUp) :
    Dropped c fetch left givenUp (p.step now e) := by
  cases e with
  | openCall id context =>
    obtain unmoved | ⟨-, lookup, opened⟩ := p.step_openCall_cases now id context
    · rwa [unmoved]
    · rw [opened]
      intro x there number
      rcases List.mem_append.1 there with old | new
      · exact h x old number
      · rw [List.mem_singleton.1 new] at number
        obtain rfl : id = c.id := number
        exact absurd rfl (unopened context)
  | abandon id => exact h.abandon id fun self => abandons (self ▸ rfl)
  | callStep id => exact h.callStep now id
  | announce id => exact h.announce kept halted id
  | fetchStep id => exact h.of_calls (calls_of_books (books_fetchStep p now id))
  | arrive id reply => exact h.of_calls (calls_of_books (books_arrive p id reply))
  | arriveAtOnce id reply => exact h.of_calls (calls_of_books (books_arriveAtOnce p now id reply))
  | expire id => exact h.of_calls (calls_of_books (books_expire p id))
  | cancelPending => exact h.of_calls (calls_of_books (books_cancelPending p))
  | clearCache => exact h
  | setTtl ttl given =>
    obtain ⟨cache, changed⟩ := p.setTtl_cases now ttl given
    rw [changed]
    exact h
  | resetAuth => exact h

/-- With its fetch gone a call that waited for it ends with its next step. -/
theorem ends (h : Dropped c fetch left givenUp p) (kept : p.books.Kept) (gone : p.Gone fetch) (now : Seconds) :
    Dropped c fetch 1 givenUp (p.callStep now c.id) := by
  intro x there number
  obtain ⟨wanted, left, -⟩ := h.callStep now c.id x there number
  refine ⟨wanted, left, .inr (.inr ⟨?_, Nat.le_refl _⟩)⟩
  obtain ⟨d, found⟩ := call?_of_callStep there number
  obtain ⟨mem, same⟩ := mem_of_call? found
  obtain ⟨-, -, stops⟩ := h d mem same
  obtain ⟨-, waits⟩ | ⟨ends, -⟩ | ⟨-, settles⟩ := callStep_of_stops found stops now
  · obtain ⟨f, entered, waited, -⟩ := kept.attended.waits d mem fetch waits
    obtain ⟨f, there, rfl⟩ := List.mem_map.1 entered
    exact absurd waited (gone.away f there)
  · rw [ends] at there
    rcases Books.mem_setCall (b := p.books) there with rfl | ⟨-, other⟩
    · rfl
    · exact absurd (number.trans same.symm) other
  · rw [settles] at there
    exact absurd number (bne_iff_ne.1 (List.mem_filter.1 there).2)

/-- A call that has ended leaves the pool with its next step. -/
theorem leaves (h : Dropped c fetch 1 givenUp p) (now : Seconds) :
    Dropped c fetch 0 givenUp (p.callStep now c.id) := by
  intro x there number
  obtain ⟨d, found⟩ := call?_of_callStep there number
  obtain ⟨mem, same⟩ := mem_of_call? found
  obtain ⟨-, -, stops⟩ := h d mem same
  obtain ⟨stage, some_left⟩ | ⟨stage, some_left⟩ | ⟨stage, -⟩ := stops
  · omega
  · omega
  · simp only [Pool.callStep, found, stage] at there
    exact absurd number (bne_iff_ne.1 (List.mem_filter.1 there).2)

end Dropped

/-- A call that waits for a fetch which stops, and what was posted since: it is still there, or it settled because of
that, or because it was given up. -/
structure Dismissed (c : Call) (fetch left : Nat) (givenUp : Prop) (before : List Signal) (p : Pool) : Prop where
  dropped : Dropped c fetch left givenUp p
  posted : ∃ posted, p.outbox = before ++ posted ∧ SettledBy c givenUp posted ∧
    ((∃ x ∈ p.calls, x.id = c.id) ∨ ∃ r, .settled c.id r ∈ posted)

namespace Dismissed

variable {before : List Signal}

/-- What a step leaves of a call that waits for a fetch which stops. -/
theorem step (h : Dismissed c fetch left givenUp before p) (kept : p.books.Kept) (halted : p.Halted fetch)
    (now : Seconds) {e : PoolEvent} (unopened : ∀ context, e ≠ .openCall c.id context)
    (abandons : e = .abandon c.id → givenUp) : Dismissed c fetch left givenUp before (p.step now e) := by
  refine ⟨h.dropped.step kept halted now unopened abandons, ?_⟩
  obtain ⟨posted, outbox, settled, present⟩ := h.posted
  obtain ⟨more, after, quiet⟩ | ⟨d, mem, rfl, outcome, ended, calls, after⟩ := p.step_posts now e
  · refine ⟨posted ++ more, by rw [after, outbox, List.append_assoc], fun r there => ?_, ?_⟩
    · rcases List.mem_append.1 there with old | new
      · exact settled r old
      · cases quiet _ new
    · rcases present with ⟨x, mem, same⟩ | ⟨r, there⟩
      · rcases step_stays kept mem now e with ⟨y, still, same'⟩ | ⟨rfl, outcome, ended⟩
        · exact .inl ⟨y, still, same'.trans same⟩
        · -- this would be a step by which it settles
          have found : p.call? x.id = some x := find?_of_nodup kept.attended.numbers mem
          have posts : (p.step now (.callStep x.id)).outbox = p.outbox ++ [.settled x.id (x.resolution outcome)] := by
            simp only [Pool.step, Pool.callStep, found, ended]
            rfl
          have new : more = [.settled x.id (x.resolution outcome)] := List.append_cancel_left (after.symm.trans posts)
          cases quiet (.settled x.id (x.resolution outcome)) (new ▸ List.mem_singleton_self _)
      · exact .inr ⟨r, List.mem_append_left _ there⟩
  · refine ⟨posted ++ [.settled d.id (d.resolution outcome)], by rw [after, outbox, List.append_assoc],
      fun r there => ?_, ?_⟩
    · rcases List.mem_append.1 there with old | new
      · exact settled r old
      · obtain ⟨same, rfl⟩ := Signal.settled.inj (List.mem_singleton.1 new)
        obtain ⟨wanted, gone, stops⟩ := h.dropped d mem same.symm
        have stopped : outcome = .stopped := by
          rcases stops with ⟨stage, -⟩ | ⟨stage, -⟩ | ⟨stage, -⟩
          · cases ended.symm.trans stage
          · cases ended.symm.trans stage
          · exact CallStage.ended.inj (ended.symm.trans stage)
        cases left : d.abandoned with
        | true => exact .inr ⟨by simp [Call.resolution, left], gone left⟩
        | false => exact .inl (by simp [Call.resolution, left, stopped, wanted])
    · by_cases self : d.id = c.id
      · exact .inr ⟨d.resolution outcome, List.mem_append_right _ (List.mem_singleton.2 (by rw [self]))⟩
      · rcases present with ⟨x, there, same⟩ | ⟨r, there⟩
        · refine .inl ⟨x, ?_, same⟩
          rw [calls]
          exact List.mem_filter.2 ⟨there, bne_iff_ne.2 fun number => self (number.symm.trans same)⟩
        · exact .inr ⟨r, List.mem_append_left _ there⟩

theorem run {slots : Int} (h : Dismissed c fetch left givenUp before p) (reachable : Reachable slots p)
    (halted : p.Halted fetch) {es : List (Seconds × PoolEvent)}
    (unopened : ∀ e ∈ es, ∀ context, e.2 ≠ .openCall c.id context)
    (abandons : ∀ e ∈ es, e.2 = .abandon c.id → givenUp) : Dismissed c fetch left givenUp before (p.run es) := by
  induction es generalizing p with
  | nil => exact h
  | cons e es ih =>
    obtain ⟨first, later⟩ := List.forall_mem_cons.1 unopened
    obtain ⟨stays, staysOn⟩ := List.forall_mem_cons.1 abandons
    exact ih (h.step reachable.kept halted e.1 first stays) (reachable.step e.1 e.2)
      (halted.step reachable e.1 e.2) later staysOn

end Dismissed

/-- Where events happen among others one after the other, the first of them happens, and the rest after it. -/
theorem split_of_sublist {e : PoolEvent} {more : List PoolEvent} {es : List (Seconds × PoolEvent)}
    (among : (e :: more).Sublist (es.map (·.2))) :
    ∃ before now after, es = before ++ (now, e) :: after ∧ more.Sublist (after.map (·.2)) := by
  induction es with
  | nil => cases among
  | cons first es ih =>
    rw [List.map_cons] at among
    cases among with
    | cons _ later =>
      obtain ⟨before, now, after, rfl, rest⟩ := ih later
      exact ⟨first :: before, now, after, rfl, rest⟩
    | cons_cons _ rest => exact ⟨[], first.1, es, rfl, rest⟩

namespace Dismissed

variable {slots : Int} {before : List Signal} {es : List (Seconds × PoolEvent)}

/-- A call that has ended has settled as soon as it takes a step. -/
theorem settles_of_ended (h : Dismissed c fetch 1 givenUp before p) (reachable : Reachable slots p)
    (halted : p.Halted fetch) (steps : [.callStep c.id].Sublist (es.map (·.2)))
    (unopened : ∀ e ∈ es, ∀ context, e.2 ≠ .openCall c.id context)
    (abandons : ∀ e ∈ es, e.2 = .abandon c.id → givenUp) : Dismissed c fetch 0 givenUp before (p.run es) := by
  obtain ⟨first, now, rest, rfl, -⟩ := split_of_sublist steps
  simp only [List.forall_mem_append, List.forall_mem_cons] at unopened abandons
  have first_reachable := reachable.run first
  have first_halted := halted.run reachable first
  have waits := h.run reachable halted unopened.1 abandons.1
  have settled := waits.step first_reachable.kept first_halted now unopened.2.1 abandons.2.1
  rw [run_append, run_cons]
  exact run ⟨waits.dropped.leaves now, settled.posted⟩ (first_reachable.step now (.callStep c.id))
    (first_halted.step first_reachable now (.callStep c.id)) unopened.2.2 abandons.2.2

/-- Once its fetch is gone, a call has settled as soon as it takes two steps. -/
theorem settles_of_gone (h : Dismissed c fetch left givenUp before p) (reachable : Reachable slots p)
    (halted : p.Halted fetch) (gone : p.Gone fetch) (steps : [.callStep c.id, .callStep c.id].Sublist (es.map (·.2)))
    (unopened : ∀ e ∈ es, ∀ context, e.2 ≠ .openCall c.id context)
    (abandons : ∀ e ∈ es, e.2 = .abandon c.id → givenUp) : Dismissed c fetch 0 givenUp before (p.run es) := by
  obtain ⟨first, now, rest, rfl, last⟩ := split_of_sublist steps
  simp only [List.forall_mem_append, List.forall_mem_cons] at unopened abandons
  have first_reachable := reachable.run first
  have first_halted := halted.run reachable first
  have waits := h.run reachable halted unopened.1 abandons.1
  have ended := waits.step first_reachable.kept first_halted now unopened.2.1 abandons.2.1
  rw [run_append, run_cons]
  exact settles_of_ended ⟨waits.dropped.ends first_reachable.kept (gone.run first) now, ended.posted⟩
    (first_reachable.step now (.callStep c.id)) (first_halted.step first_reachable now (.callStep c.id)) last
    unopened.2.2 abandons.2.2

/-- As soon as the fetch has taken its step, its end is announced, and the call has taken two steps, the call has
settled. -/
theorem settles (h : Dismissed c fetch left givenUp before p) (reachable : Reachable slots p)
    (halted : p.Halted fetch)
    (steps : [.fetchStep fetch, .announce fetch, .callStep c.id, .callStep c.id].Sublist (es.map (·.2)))
    (unopened : ∀ e ∈ es, ∀ context, e.2 ≠ .openCall c.id context)
    (abandons : ∀ e ∈ es, e.2 = .abandon c.id → givenUp) : Dismissed c fetch 0 givenUp before (p.run es) := by
  obtain ⟨first, atStep, more, rfl, later⟩ := split_of_sublist steps
  obtain ⟨second, atEnd, rest, rfl, last⟩ := split_of_sublist later
  simp only [List.forall_mem_append, List.forall_mem_cons] at unopened abandons
  have split : first ++ (atStep, .fetchStep fetch) :: (second ++ (atEnd, .announce fetch) :: rest) =
      (first ++ (atStep, .fetchStep fetch) :: second) ++ (atEnd, .announce fetch) :: rest := by simp
  let begun := first ++ (atStep, PoolEvent.fetchStep fetch) :: second
  have stops : (p.run begun).Settled fetch .stopped := by
    have settled := (halted.run reachable first).settled (reachable.run first) atStep
    rw [run_append, run_cons]
    exact settled.run ((reachable.run first).step atStep (.fetchStep fetch)) second
  have begun_reachable := reachable.run begun
  have begun_halted := halted.run reachable begun
  have waits : Dismissed c fetch left givenUp before (p.run begun) := by
    refine h.run reachable halted ?_ ?_
    · simp only [begun, List.forall_mem_append, List.forall_mem_cons]
      exact ⟨unopened.1, unopened.2.1, unopened.2.2.1⟩
    · simp only [begun, List.forall_mem_append, List.forall_mem_cons]
      exact ⟨abandons.1, abandons.2.1, abandons.2.2.1⟩
  rw [split, run_append, run_cons]
  exact (waits.step begun_reachable.kept begun_halted atEnd unopened.2.2.2.1 abandons.2.2.2.1).settles_of_gone
    (begun_reachable.step atEnd (.announce fetch)) (begun_halted.step begun_reachable atEnd _)
    (stops.announce begun_reachable.kept) last unopened.2.2.2.2 abandons.2.2.2.2

end Dismissed

theorem ids_pending (kept : p.books.Kept) : p.fetches.map (·.id) = p.pending.map (·.fetch) := by
  have register : p.pending = p.books.fetches.map (Fetch.registration p.site) := kept.registered.register
  rw [register, List.map_map]
  exact (ids_books p).symm

/-- A fetch that is gone stands neither in the register nor in the line. -/
theorem Gone.absent {slots : Int} (reachable : Reachable slots p) (h : p.Gone fetch) :
    fetch ∉ p.fetches.map (·.id) ∧ fetch ∉ p.pending.map (·.fetch) ∧ fetch ∉ p.gate.line.map (·.id) := by
  have unlisted : fetch ∉ p.fetches.map (·.id) := by
    intro there
    obtain ⟨g, mem, same⟩ := List.mem_map.1 there
    exact h.away g mem same
  refine ⟨unlisted, ids_pending reachable.kept ▸ unlisted, fun there => ?_⟩
  obtain ⟨v, waiting, same⟩ := List.mem_map.1 there
  obtain ⟨g, mem, visits⟩ := List.mem_filterMap.1 (reachable.gated.line.subset waiting)
  exact h.away g mem ((Fetch.visitor?_id visits).symm.trans same)

/-- A fetch that stops is owed its own step, by which it ends, and after that the announcement of its end, by
which it is gone. -/
theorem Halted.owed (kept : p.books.Kept) (h : p.Halted fetch) {g : Fetch} (there : g ∈ p.fetches)
    (number : g.id = fetch) :
    g.due? = some (.fetchDue fetch) ∧ (∀ now, (p.fetchStep now fetch).outcome? fetch = some .stopped) ∨
    g.due? = some (.announceDue fetch) ∧ ∀ g ∈ (p.announce fetch).fetches, g.id ≠ fetch := by
  cases number
  cases unfinished : g.isUnfinished with
  | true =>
    have stopping := h.stopping g there rfl
    refine .inl ⟨?_, outcome?_fetchStep_of_stopping kept there unfinished stopping⟩
    unfold Fetch.isUnfinished at unfinished
    unfold Fetch.due?
    split <;> simp_all
  | false =>
    obtain ⟨outcome, ended⟩ := Fetch.isUnfinished_eq_false.1 unfinished
    exact .inr ⟨Fetch.due?_of_ended ended, ((Settled.of_ended kept there ended).announce kept).away⟩

/-- All that has not ended is halted when all that is registered is told to stop. -/
theorem halted_cancelPending (kept : p.books.Kept) (mem : f ∈ p.fetches) (unfinished : f.isUnfinished = true) :
    p.cancelPending.Halted f.id := by
  have still : p.cancelPending.books.Kept := (books_cancelPending p).symm ▸ kept
  have there : f.unmoved ∈ p.cancelPending.books.fetches := (books_cancelPending p).symm ▸ mem_books mem
  obtain ⟨g, mem', same⟩ := List.mem_map.1 there
  have number' : g.id = f.id := by
    have unmoved : g.unmoved.id = f.unmoved.id := congrArg Fetch.id same
    exact unmoved
  have nudged := step_nudges (e := .cancelPending) kept mem 0 nofun mem' number'
  exact number' ▸ .of_stopping still mem' (nudged.isUnfinished unfinished)
    (stopping_stopFetches kept mem unfinished (ids_pending kept ▸ List.mem_map_of_mem mem) mem' number')

/-- A call that waits for a fetch, when all that is registered is told to stop. -/
theorem dismissed_cancelPending (kept : p.books.Kept) (mem : c ∈ p.calls) (waits : c.awaits? = some fetch)
    (givenUp : Prop) : Dismissed c fetch 3 givenUp p.outbox p.cancelPending := by
  obtain ⟨stage, going⟩ := Call.awaits?_eq_some.1 waits
  have calls : p.cancelPending.calls = p.calls := calls_of_books (books_cancelPending p)
  obtain ⟨posted, outbox, quiet⟩ := Posts.stopFetches (.of_outbox (p := p) rfl) (p.pending.map (·.fetch))
  refine ⟨fun x there number => ?_, posted, outbox, fun r there => ?_, .inl ⟨c, calls ▸ mem, rfl⟩⟩
  · rw [calls] at there
    obtain rfl := kept.attended.eq there mem number
    refine ⟨rfl, fun gone => ?_, .inl ⟨stage, Nat.le_refl _⟩⟩
    cases going.symm.trans gone
  · cases quiet _ there

/-- Let all that is registered be told to stop, and anything happen from then on. A fetch that had not ended:
- It stores nothing, and ends stopped if it ends. What it is owed is its own next step, by which it ends, or the
announcement of that, by which it is gone: it waits for nobody else.
- Once all that was registered is gone, it is no longer there, nor in the register, nor in the line at the gate.
Only fetches that are there are counted, and no slot is missing.

And a call that waited for it, if nobody opens another one under its number:
- Its steps send no request and begin no fetch.
- It settles with the trouble that its request was cancelled, told of the list that it wanted, unless it was given
up in the meantime. As soon as the steps are taken that this takes, and it was not given up, it has settled. -/
theorem cancel_stops_all {slots : Int} {p : Pool} (h : Reachable slots p) {f : Fetch} (mem : f ∈ p.fetches)
    (unfinished : f.isUnfinished = true) (es : List (Seconds × PoolEvent)) :
    let q := p.cancelPending.run es
    ((∀ e, PoolEvent.fetch? e = some f.id → ∀ now, (q.step now e).cache = q.cache) ∧
      (∀ outcome, q.outcome? f.id = some outcome → outcome = .stopped) ∧
      ∀ g ∈ q.fetches, g.id = f.id →
        g.due? = some (.fetchDue f.id) ∧ (∀ now, (q.fetchStep now f.id).outcome? f.id = some .stopped) ∨
        g.due? = some (.announceDue f.id) ∧ ∀ g ∈ (q.announce f.id).fetches, g.id ≠ f.id) ∧
    ((∀ r ∈ p.pending, ∀ g ∈ q.fetches, g.id ≠ r.fetch) →
      f.id ∉ q.fetches.map (·.id) ∧ f.id ∉ q.pending.map (·.fetch) ∧ f.id ∉ q.gate.line.map (·.id) ∧
      q.inFlight = q.fetches.countP Fetch.isInside ∧ (q.gate.slots + q.inFlight : Int) = slots) ∧
    ∀ c ∈ p.calls, c.awaits? = some f.id → (∀ e ∈ es, ∀ context, e.2 ≠ .openCall c.id context) →
      (∀ now, (q.callStep now c.id).requests = q.requests ∧ (q.callStep now c.id).nextFetch = q.nextFetch) ∧
      ∃ posted, q.outbox = p.outbox ++ posted ∧
        (∀ r, .settled c.id r ∈ posted →
          (∃ found, r = .done found ∧ found.candidates = .none ∧
            found.errors = [(c.wanted.dataset, "Request cancelled")]) ∨
          r = .cancelled ∧ ∃ now, (now, .abandon c.id) ∈ es) ∧
        ([.fetchStep f.id, .announce f.id, .callStep c.id, .callStep c.id].Sublist (es.map (·.2)) →
          (∀ now, (now, .abandon c.id) ∉ es) →
          .settled c.id (.done (.trouble c.wanted.dataset .stopped)) ∈ posted) := by
  intro q
  have stopped : Reachable slots p.cancelPending := h.step 0 .cancelPending
  have halted := halted_cancelPending h.kept mem unfinished
  have later : Reachable slots q := stopped.run es
  have still : q.Halted f.id := halted.run stopped es
  refine ⟨⟨?_, ?_, ?_⟩, ?_, ?_⟩
  · intro e concerns now
    exact cache_step_of_idle later.kept concerns (fun g there number _ => still.stopping g there number) now
  · intro outcome found
    obtain ⟨g, there, number, ended⟩ := ended_of_outcome? found
    exact still.ended g there number outcome ended
  · exact fun g there number => still.owed later.kept there number
  · intro returned
    have listed : f.id ∈ p.pending.map (·.fetch) := ids_pending h.kept ▸ List.mem_map_of_mem mem
    obtain ⟨entry, entered, number⟩ := List.mem_map.1 listed
    have gone : q.Gone f.id := ⟨still.given, fun g there => number ▸ returned entry entered g there⟩
    obtain ⟨unlisted, unregistered, outside⟩ := gone.absent later
    have conserved := later.gated.conserved
    have some_slots := h.slots_nonneg
    exact ⟨unlisted, unregistered, outside, later.gated.counted, by omega⟩
  · intro c there waits unopened
    let givenUp := ∃ now, (now, PoolEvent.abandon c.id) ∈ es
    have dismissed := dismissed_cancelPending h.kept there waits givenUp
    have abandons (e : Seconds × PoolEvent) (mem : e ∈ es) (same : e.2 = .abandon c.id) : givenUp :=
      ⟨e.1, same ▸ mem⟩
    obtain ⟨dropped, posted, outbox, settled, -⟩ := dismissed.run stopped halted unopened abandons
    refine ⟨fun now => dropped.idle now, posted, outbox, fun r told => ?_, fun steps stays => ?_⟩
    · rcases settled r told with rfl | gone
      · exact .inl ⟨_, rfl, rfl, rfl⟩
      · exact .inr gone
    · obtain ⟨none_left, posted', outbox', settled', present⟩ :=
        dismissed.settles stopped halted steps unopened abandons
      obtain rfl := List.append_cancel_left (outbox.symm.trans outbox')
      obtain ⟨x, there, same⟩ | ⟨r, told⟩ := present
      · obtain ⟨-, -, ⟨-, few⟩ | ⟨-, few⟩ | ⟨-, few⟩⟩ := none_left x there same <;> cases few
      · rcases settled' r told with rfl | ⟨-, now, gone⟩
        · exact told
        · exact absurd gone (stays now)

/-- A call waits for the tags that stand in for the values of a key, and their fetch stands in the line, since
another one has the only slot. Both fetches are told to stop; the call is told that its request was cancelled. -/
theorem cancel_stops_all_in_line :
    let start : Pool := {
      site := "host".toList
      base := ⟨[]⟩
      limit := .whole 2
      cache := { ttl := 60, size := 10 }
      gate := { free := 1 } }
    let values : Context := { place := .filterValue, metric? := some "m".toList, key? := some "k".toList }
    let p := start.run [
      (0, .openCall 1 values), (0, .callStep 1), (0, .fetchStep 0),
      (1, .arriveAtOnce 0 (.response 404 [] (.ok .null))), (1, .openCall 2 { place := .metricName }),
      (1, .callStep 2), (1, .fetchStep 1), (1, .announce 0), (1, .callStep 1), (1, .fetchStep 2)]
    let es : List (Seconds × PoolEvent) :=
      [(2, .fetchStep 2), (2, .announce 2), (2, .callStep 1), (2, .callStep 1)]
    let q := p.cancelPending.run es
    p.gate.line.map (·.id) = [2] ∧ q.cache = p.cache ∧
      (∃ posted, q.outbox = p.outbox ++ posted ∧
        .settled 1 (.done (.trouble .tagValues .stopped)) ∈ posted) ∧
      (q.callStep 2 1).requests = q.requests := by
  intro start values p es q
  have created : create "host".toList ⟨[]⟩ 60 10 1 (.whole 2) = .ok start := rfl
  have reachable : Reachable 1 p := .run (.create created) _
  let c : Call := {
    id := 1
    wanted := { dataset := .tagValues, scope := ["m".toList, "k".toList] }
    current := { dataset := .tags, scope := ["m".toList] }
    stage := .waiting 2 }
  have there : c ∈ p.calls := by decide +kernel
  have numbers : (2, true) ∈ p.fetches.map fun f => (f.id, f.isUnfinished) := by decide +kernel
  obtain ⟨f, mem, same⟩ := List.mem_map.1 numbers
  have number : f.id = 2 := congrArg Prod.fst same
  have waits : c.awaits? = some f.id := by rw [number]; rfl
  obtain ⟨-, -, calls⟩ := cancel_stops_all reachable mem (congrArg Prod.snd same) es
  obtain ⟨idle, posted, outbox, -, settles⟩ := calls c there waits (by simp [es])
  refine ⟨by decide +kernel, by decide +kernel, ⟨posted, outbox, settles ?_ (by simp [es])⟩, (idle 2).1⟩
  rw [number]
  exact List.Sublist.refl _

end

end Pool

end Typeahead
