import Typeahead.Proofs.Fetch.SingleFlight
import Typeahead.Proofs.Fetch.Stored
import Typeahead.Proofs.Fetch.Without

/-!
The caller of a call gives up. Nobody else is the worse for it: the fetch that the call waits for goes on as it
would have, and whatever it comes to, those who still wait for it are told.

- `step_agrees`: two pools that are the same but for a call which stands aside stay so.
- `abandon_spares_others`: a run in which the caller gives up, beside the same run in which it does not.
-/

namespace Typeahead.Pool

/-- A call, if it is there, was given up or waits for a fetch: it does nothing by itself that others could
notice. -/
def StandsAside (p : Pool) (call fetch : Nat) : Prop :=
  ∀ c ∈ p.calls, c.id = call → c.abandoned = true ∨ c.awaits? = some fetch

section

variable {p q : Pool} {call fetch : Nat}

/-- A call that takes its step brings no other call about. -/
theorem CallMove.mem_of_other {c x : Call} (move : CallMove p c q) (there : x ∈ q.calls)
    (other : x.id ≠ c.id) : x ∈ p.calls := by
  have replaced {d : Call} (same : d.id = c.id) (mem : x ∈ (p.setCall d).calls) : x ∈ p.calls := by
    rcases Books.mem_setCall (b := p.books) mem with rfl | ⟨old, -⟩
    · exact absurd same other
    · exact old
  cases move with
  | settle => exact (List.mem_filter.1 there).1
  | finish _ call outcome same => exact replaced (d := { call with stage := .ended outcome }) same there
  | begin _ call same => exact replaced (d := { call with stage := .waiting p.nextFetch }) same there
  | join _ call id same => exact replaced (d := { call with stage := .waiting id }) same there

namespace StandsAside

theorem of_calls (h : p.StandsAside call fetch) (calls : q.calls = p.calls) : q.StandsAside call fetch := by
  intro c mem
  exact h c (calls ▸ mem)

theorem callStep (h : p.StandsAside call fetch) (now : Seconds) (id : Nat) :
    (p.callStep now id).StandsAside call fetch := by
  obtain same | ⟨c, found, idle, move⟩ := p.callStep_cases now id
  · rwa [same]
  · intro x there number
    by_cases self : c.id = call
    · obtain ⟨mem, rfl⟩ := mem_of_call? found
      have gone : c.abandoned = true := by
        rcases h c mem self with gone | waits
        · exact gone
        · rw [idle] at waits
          cases waits
      obtain ⟨outcome, settles⟩ | ends := callStep_of_abandoned found gone now
      · rw [settles] at there
        have other := (List.mem_filter.1 there).2
        simp [number, self] at other
      · rw [ends] at there
        rcases Books.mem_setCall (b := p.books) there with rfl | ⟨-, other⟩
        · exact .inl gone
        · exact absurd (number.trans self.symm) other
    · exact h x (move.mem_of_other there fun same => self (same.symm.trans number)) number

theorem abandon (h : p.StandsAside call fetch) (id : Nat) : (p.abandon id).StandsAside call fetch := by
  have marked (c : Call) : (p.setCall { c with abandoned := true }).StandsAside call fetch := by
    intro x there number
    rcases Books.mem_setCall (b := p.books) there with rfl | ⟨old, -⟩
    · exact .inl rfl
    · exact h x old number
  obtain same | ⟨c, -, -, ⟨-, same⟩ | ⟨other, -, same⟩⟩ := p.abandon_cases id
  · rwa [same]
  · rw [same]
    exact marked c
  · rw [same]
    exact (marked c).of_calls rfl

/-- Who was given up is not told how a fetch ended, and who waits for another fetch is not either. -/
theorem announce (h : p.StandsAside call fetch) (kept : p.books.Kept) {id : Nat} (other : id ≠ fetch) :
    (p.announce id).StandsAside call fetch := by
  obtain same | ⟨f, outcome, mem, rfl, ended⟩ := p.announce_cases id
  · rwa [same]
  · intro x there number
    have told : (p.announce f.id).calls = _ := congrArg Books.calls (books_announce kept mem ended)
    rw [told] at there
    obtain ⟨c, old, ⟨watches, rfl⟩ | ⟨-, rfl⟩⟩ := Books.mem_tell there
    · obtain ⟨d, hd, same, awaits⟩ := kept.attended.watched f.unmoved (mem_books mem) c.id watches
      obtain rfl := kept.attended.eq hd old same
      rcases h d old number with gone | waits
      · exact .inl gone
      · exact absurd (Option.some.inj (awaits.symm.trans waits)) other
    · exact h x old number

theorem openCall (h : p.StandsAside call fetch) {id : Nat} (other : id ≠ call) (context : Context) :
    (p.openCall id context).2.StandsAside call fetch := by
  obtain ⟨resolution, same⟩ | ⟨lookup, opened⟩ := p.openCall_cases id context
  · rwa [same]
  · rw [opened]
    intro x there number
    rcases List.mem_append.1 there with old | new
    · exact h x old number
    · rw [List.mem_singleton.1 new] at number
      exact absurd number other

/-- A call stands aside until the end is announced that it waits for, whatever else happens. -/
theorem step (h : p.StandsAside call fetch) (kept : p.books.Kept) (now : Seconds) {e : PoolEvent}
    (unannounced : e ≠ .announce fetch) (unopened : ∀ context, e ≠ .openCall call context) :
    (p.step now e).StandsAside call fetch := by
  cases e with
  | openCall id context =>
    have other : id ≠ call := fun same => unopened context (same ▸ rfl)
    simp only [Pool.step]
    split
    · exact h
    · exact h.openCall other context
  | abandon id => exact h.abandon id
  | callStep id => exact h.callStep now id
  | announce id => exact h.announce kept fun same => unannounced (same ▸ rfl)
  | fetchStep id => exact h.of_calls (calls_of_books (books_fetchStep p now id))
  | arrive id reply => exact h.of_calls (calls_of_books (books_arrive p id reply))
  | arriveAtOnce id reply => exact h.of_calls (calls_of_books (books_arriveAtOnce p now id reply))
  | expire id => exact h.of_calls (calls_of_books (books_expire p id))
  | cancelPending => exact h.of_calls (calls_of_books (books_cancelPending p))
  | clearCache => exact h
  | setTtl ttl given =>
    obtain ⟨cache, same⟩ := p.setTtl_cases now ttl given
    rw [same]
    exact h
  | resetAuth => exact h

/-- Others notice nothing of what happens to a call that stands aside. -/
theorem without_step_self (h : p.StandsAside call fetch) (now : Seconds) {e : PoolEvent}
    (self : e.call? = some call) (unopened : ∀ context, e ≠ .openCall call context) :
    (p.step now e).without call = p.without call := by
  cases e with
  | openCall id context =>
    cases self
    exact absurd rfl (unopened context)
  | abandon id =>
    cases self
    exact without_abandon_self ..
  | callStep id =>
    cases self
    change (p.callStep now call).without call = p.without call
    cases found : p.call? call with
    | none => simp only [Pool.callStep, found]
    | some c =>
      obtain ⟨mem, number⟩ := mem_of_call? found
      rcases h c mem number with gone | waits
      · exact without_callStep_self _ _ now found gone
      · rw [callStep_waits found waits]
  | fetchStep | announce | arrive | arriveAtOnce | expire | cancelPending | clearCache | setTtl
  | resetAuth => cases self

end StandsAside

/-- Two pools that are the same but for a call which stands aside in both stay so, whatever happens. -/
theorem step_agrees (h : p.StandsAside call fetch) (h' : q.StandsAside call fetch)
    (same : q.without call = p.without call) (now : Seconds) {e : PoolEvent}
    (unopened : ∀ context, e ≠ .openCall call context) :
    (q.step now e).without call = (p.step now e).without call := by
  by_cases self : e.call? = some call
  · rw [h'.without_step_self now self unopened, h.without_step_self now self unopened, same]
  · rw [without_step _ _ now self, without_step _ _ now self, same]

theorem run_agrees {slots : Int} (reachable : Reachable slots p) (reachable' : Reachable slots q)
    (h : p.StandsAside call fetch) (h' : q.StandsAside call fetch)
    (same : q.without call = p.without call) {es : List (Seconds × PoolEvent)}
    (unannounced : ∀ e ∈ es, e.2 ≠ .announce fetch)
    (unopened : ∀ e ∈ es, ∀ context, e.2 ≠ .openCall call context) :
    (q.run es).without call = (p.run es).without call := by
  induction es generalizing p q with
  | nil => exact same
  | cons e es ih =>
    obtain ⟨notYet, later⟩ := List.forall_mem_cons.1 unannounced
    obtain ⟨free, freeLater⟩ := List.forall_mem_cons.1 unopened
    exact ih (reachable.step e.1 e.2) (reachable'.step e.1 e.2) (h.step reachable.kept e.1 notYet free)
      (h'.step reachable'.kept e.1 notYet free) (step_agrees h h' same e.1 free) later freeLater

/-- A call that is not the one left out is in both of two pools that are the same without that one. -/
theorem mem_calls_of_without (same : q.without call = p.without call) {d : Call} (other : d.id ≠ call) :
    d ∈ q.calls ↔ d ∈ p.calls := by
  have among (r : Pool) : d ∈ r.calls ↔ d ∈ (r.without call).calls := by simp [without, other]
  rw [among q, among p, same]

/-- What is the same in two pools that are the same without a call. -/
theorem alike_of_without (same : q.without call = p.without call) :
    q.cache = p.cache ∧ q.inFlight = p.inFlight ∧ q.pending = p.pending := by
  have cache : (q.without call).cache = (p.without call).cache := congrArg Pool.cache same
  have inFlight : (q.without call).inFlight = (p.without call).inFlight := congrArg Pool.inFlight same
  have pending : (q.without call).pending = (p.without call).pending := congrArg Pool.pending same
  exact ⟨cache, inFlight, pending⟩

/-- Who waits for a fetch when its end is announced is told it. -/
theorem told_of_outcome? {slots : Int} (reachable : Reachable slots p) {outcome : Outcome}
    (ended : p.outcome? fetch = some outcome) {c : Call} (mem : c ∈ p.calls)
    (waits : c.awaits? = some fetch) : { c with stage := .told outcome } ∈ (p.announce fetch).calls := by
  obtain ⟨f, there, rfl, stage⟩ := ended_of_outcome? ended
  exact (announce_tells reachable.kept there stage mem).1 waits

/-- The caller of a call gives up, whatever the call is at.
- That alone changes nothing for others: the requests in flight, the register and the fetches are as they
  were, but for the place of the call among those who wait.
- Let the call wait for a fetch, and let anything happen until the end of that fetch is announced, if no
  other call takes the number of this one: once after the caller gave up, and once without that. The cache,
  the register and the number of requests in flight are the same in both runs. The fetch has ended in both
  or in neither, and in the same way; it stores the names with which it ends. When the end is announced every
  other call that waits for the fetch is told it, in both runs. -/
theorem abandon_spares_others {slots : Int} {p : Pool} (h : Reachable slots p) (id : Nat) :
    ((p.abandon id).cache = p.cache ∧ (p.abandon id).inFlight = p.inFlight ∧
      (p.abandon id).pending = p.pending) ∧
    (p.abandon id).fetches.map (·.without id) = p.fetches.map (·.without id) ∧
    ∀ c ∈ p.calls, c.id = id → ∀ fetch, c.awaits? = some fetch → ∀ es : List (Seconds × PoolEvent),
      (∀ e ∈ es, e.2 ≠ .announce fetch) → (∀ e ∈ es, ∀ context, e.2 ≠ .openCall id context) →
      let q := p.run es
      let r := (p.abandon id).run es
      (r.cache = q.cache ∧ r.inFlight = q.inFlight ∧ r.pending = q.pending) ∧
      r.outcome? fetch = q.outcome? fetch ∧
      (∃ f ∈ r.fetches, f.id = fetch ∧ (f.isUnfinished = true → ∀ now e names,
        (r.step now e).outcome? fetch = some (.names names) →
        r.cache.set now (f.lookup.key r.site) names = .ok (r.step now e).cache)) ∧
      ∀ outcome, r.outcome? fetch = some outcome → ∀ d, d.id ≠ id → d.awaits? = some fetch →
        (d ∈ r.calls ↔ d ∈ q.calls) ∧
        (d ∈ q.calls → { d with stage := .told outcome } ∈ (r.announce fetch).calls ∧
          { d with stage := .told outcome } ∈ (q.announce fetch).calls) := by
  have same : (p.abandon id).without id = p.without id := without_abandon_self ..
  have fetches : ((p.abandon id).without id).fetches = (p.without id).fetches := congrArg Pool.fetches same
  refine ⟨alike_of_without same, fetches, ?_⟩
  rintro c mem rfl fetch waits es unannounced unopened q r
  have aside : p.StandsAside c.id fetch := by
    intro x there number
    obtain rfl := h.kept.attended.eq there mem number
    exact .inr waits
  have later : Reachable slots (p.abandon c.id) := h.step 0 (.abandon c.id)
  have agree : r.without c.id = q.without c.id :=
    run_agrees h later aside (aside.abandon c.id) same unannounced unopened
  have outcomes : r.outcome? fetch = q.outcome? fetch := by
    rw [← r.outcome?_without c.id, agree, outcome?_without]
  refine ⟨alike_of_without agree, outcomes, ?_, ?_⟩
  · obtain ⟨listed, entered, number, -⟩ := h.kept.attended.waits c mem fetch waits
    obtain ⟨f, there, rfl⟩ := List.mem_map.1 entered
    obtain rfl : f.id = fetch := number
    have calm : ∀ e ∈ (0, .abandon c.id) :: es, e.2 ≠ .announce f.id :=
      List.forall_mem_cons.2 ⟨by rintro ⟨⟩, unannounced⟩
    obtain ⟨g, still, same, -⟩ := run_lasts h there calm
    refine ⟨g, still, same, fun unfinished now e names ends => ?_⟩
    exact stored_of_ends (later.run es).kept still unfinished (same ▸ ends)
  · intro outcome ended d other awaits
    have both := mem_calls_of_without agree other
    refine ⟨both, fun there => ⟨?_, ?_⟩⟩
    · exact told_of_outcome? (later.run es) ended (both.2 there) awaits
    · exact told_of_outcome? (h.run es) (outcomes ▸ ended) there awaits

/-- Two calls for one list wait for one fetch, and the caller of the first gives up. The fetch ends with the
names in the reply, which are stored, and the second call is told them. -/
theorem abandon_spares_others_two_calls :
    let start : Pool := {
      site := "host".toList
      base := ⟨[]⟩
      limit := .whole 2
      cache := { ttl := 60, size := 10 }
      gate := { free := 2 } }
    let p := start.run [
      (0, .openCall 1 { place := .metricName }), (0, .openCall 2 { place := .metricName }),
      (0, .callStep 1), (0, .callStep 2), (0, .fetchStep 0)]
    let answered : List (Seconds × PoolEvent) :=
      [(1, .callStep 1), (1, .callStep 1), (2, .arrive 0 (.response 200 [] (.ok (.ofTexts ["m".toList]))))]
    let es := answered ++ [(2, .fetchStep 0)]
    let r := (p.abandon 1).run es
    let c : Call := {
      id := 1
      wanted := { dataset := .metrics }
      current := { dataset := .metrics }
      stage := .waiting 0 }
    c ∈ p.calls ∧ r.outcome? 0 = some (.names ["m".toList]) ∧
      r.cache.entries.map (·.names) = [["m".toList]] ∧
      { c with id := 2, stage := .told (.names ["m".toList]) } ∈ (r.announce 0).calls ∧
      { c with id := 2, stage := .told (.names ["m".toList]) } ∈ ((p.run es).announce 0).calls := by
  intro start p answered es r c
  have created : create "host".toList ⟨[]⟩ 60 10 2 (.whole 2) = .ok start := rfl
  have reachable : Reachable 2 p := .run (.create created) _
  have there : c ∈ p.calls := by decide +kernel
  have ended : r.outcome? 0 = some (.names ["m".toList]) := by decide +kernel
  have unannounced : ∀ e ∈ es, e.2 ≠ .announce 0 := by
    simp [es, answered]
  have unopened : ∀ e ∈ es, ∀ context, e.2 ≠ .openCall 1 context := by
    simp [es, answered]
  have waiting : { c with id := 2 } ∈ (p.run es).calls := by decide +kernel
  obtain ⟨-, -, spares⟩ := abandon_spares_others reachable 1
  obtain ⟨-, -, -, tells⟩ := spares c there rfl 0 rfl es unannounced unopened
  have told := (tells _ ended { c with id := 2 } (by decide) rfl).2 waiting
  exact ⟨there, ended, by decide +kernel, told⟩

end

end Typeahead.Pool
