import Typeahead.Proofs.Fetch.Briefed

/-!
Why calls fail. Trouble of the catalog aside, a fetch fails only for a name that fits no path, or for a
cache without room; and a call fails only as the fetch of its key did, or that of the tags which stand in.

- `step_accounted`: no event makes anything fail for another reason, as long as no reply is a fault.
-/

namespace Typeahead

/-- Whether a reply is a fault of the transport that nobody expects. -/
def Reply.isFault : Reply → Bool
  | .fault _ => true
  | .response _ _ _ | .timeout | .clientError _ | .valueError _ => false

/-- What nothing that happens to a pool changes. -/
structure Terms where
  site : Text
  base : Path
  limit : Number
  size : Nat

/-- Why a fetch of a key may fail: trouble of the catalog, a name that fits no path in a lookup of the
key, or a cache without room. -/
def Terms.Accounts (t : Terms) (key : Text) : Failure → Prop
  | .catalog _ => True
  | .slashName name => ∃ l : Lookup, l.key t.site = key ∧ l.path t.base = .error ⟨name⟩
  | .cache error => error = .noRoom ∧ t.size = 0
  | .fault _ => False

/-- How a fetch of a key ended has a reason if it failed. -/
def Outcome.Accounted (t : Terms) (key : Text) : Outcome → Prop
  | .failed failure => t.Accounts key failure
  | .names _ | .stopped => True

/-- A fetch has no fault for its reply, and a reason if it failed. -/
def Fetch.Accounted (t : Terms) (f : Fetch) : Prop :=
  match f.stage with
  | .answered reply => reply.isFault = false
  | .ended outcome => outcome.Accounted t (f.lookup.key t.site)
  | .begun | .queued | .admitted | .asking | .overdue => True

/-- A call for a lookup goes by it, or by the tags that stand in. -/
def Lookup.LeadsTo (wanted current : Lookup) : Prop :=
  current = wanted ∨ ∃ metric key,
    wanted = { dataset := .tagValues, scope := [metric, key] } ∧
    current = { dataset := .tags, scope := [metric] }

/-- What a call was told has a reason if it is a failure, and so has how it ended. -/
structure Call.Accounted (t : Terms) (c : Call) : Prop where
  course : c.wanted.LeadsTo c.current
  told : ∀ outcome, c.stage = .told outcome → outcome.Accounted t (c.current.key t.site)
  ended : ∀ outcome, c.stage = .ended outcome → outcome.Accounted t (c.current.key t.site)

namespace Pool

/-- The terms of a pool. -/
def terms (p : Pool) : Terms := ⟨p.site, p.base, p.limit, p.cache.size⟩

@[simp] theorem terms_post (p : Pool) (s : Signal) : (p.post s).terms = p.terms := rfl

@[simp] theorem terms_updateFetch (p : Pool) (id : Nat) (change : Fetch → Fetch) :
    (p.updateFetch id change).terms = p.terms := rfl

@[simp] theorem terms_setCall (p : Pool) (call : Call) : (p.setCall call).terms = p.terms := rfl

@[simp] theorem terms_endFetch (p : Pool) (id : Nat) (outcome : Outcome) :
    (p.endFetch id outcome).terms = p.terms := rfl

@[simp] theorem terms_withGate (p : Pool) (ids : List Nat) (gate : Gate) :
    (p.withGate ids gate).terms = p.terms :=
  List.foldlRecOn (motive := fun q : Pool => q.terms = p.terms) ids _ rfl fun _ h _ _ => h

@[simp] theorem terms_leave (p : Pool) (id : Nat) : (p.leave id).terms = p.terms := terms_withGate ..

@[simp] theorem terms_leaveLine (p : Pool) (id : Nat) (unused : Bool) :
    (p.leaveLine id unused).terms = p.terms := terms_withGate ..

@[simp] theorem terms_stopFetches (p : Pool) (ids : List Nat) : (p.stopFetches ids).terms = p.terms := by
  refine List.foldlRecOn (motive := fun q : Pool => q.terms = p.terms) ids _ rfl fun q h id _ => ?_
  refine Eq.trans ?_ h
  unfold stopFetch
  split
  · rfl
  · dsimp only
    split <;> rfl

@[simp] theorem terms_pass (p : Pool) (f : Fetch) : (p.pass f).terms = p.terms := by
  unfold pass
  split
  · exact terms_withGate ..
  · dsimp only
    split
    · rfl
    · split
      · exact terms_leave ..
      · rfl

@[simp] theorem terms_take (p : Pool) (now : Seconds) (f : Fetch) (reply : Reply) :
    (p.take now f reply).terms = p.terms := by
  unfold take
  dsimp only
  split
  · split
    · next cache stored =>
      have size := Cache.size_set stored
      have left := p.terms_leave f.id
      simp only [terms, Terms.mk.injEq] at left ⊢
      exact ⟨left.1, left.2.1, left.2.2.1, size.trans left.2.2.2⟩
    · exact terms_leave ..
  · exact (terms_leave ..).trans (terms_stopFetches ..)
  · exact terms_leave ..

theorem terms_fetchStep (p : Pool) (now : Seconds) (id : Nat) :
    (p.fetchStep now id).terms = p.terms := by
  unfold fetchStep
  split
  · rfl
  · split
    · rfl
    · dsimp only
      split
      · exact terms_pass ..
      · rfl
    · exact terms_leaveLine ..
    · exact terms_leaveLine ..
    · exact (terms_pass ..).trans (terms_leaveLine ..)
    · exact terms_leave ..
    · exact terms_leave ..
    · exact terms_leave ..
    · exact terms_take ..
    · exact terms_leave ..
    · rfl
    · rfl
    · rfl

theorem terms_announce (p : Pool) (id : Nat) : (p.announce id).terms = p.terms := by
  unfold announce
  split
  · next f _ =>
    split
    · next outcome _ =>
      have forgotten : (p.forget f).terms = p.terms := by
        unfold forget
        dsimp only
        split <;> rfl
      refine List.foldlRecOn (motive := fun q : Pool => q.terms = p.terms) f.watchers _ forgotten
        fun q same w _ => Eq.trans ?_ same
      unfold tell
      split <;> rfl
    · rfl
  · rfl

theorem terms_look (p : Pool) (now : Seconds) (call : Call) : (p.look now call).2.terms = p.terms := by
  have read : ({ p with cache := (p.cache.get now (call.current.key p.site)).2 } : Pool).terms = p.terms := by
    simp only [terms, Cache.size_get]
  unfold look
  dsimp only
  split
  · exact read
  · exact read
  · split
    · exact read
    · exact read

theorem terms_conclude (p : Pool) (now : Seconds) (call : Call) (outcome : Outcome) :
    (p.conclude now call outcome).terms = p.terms := by
  unfold conclude
  split
  · rfl
  · next lookup _ =>
    have looked := p.terms_look now { call with current := lookup }
    dsimp only
    split
    · next found => rw [found] at looked; exact looked
    · next found => rw [found] at looked; exact looked

theorem terms_callStep (p : Pool) (now : Seconds) (id : Nat) : (p.callStep now id).terms = p.terms := by
  unfold callStep
  split
  · rfl
  · next c _ =>
    split
    · rfl
    · rfl
    · have looked := p.terms_look now c
      unfold beginCall
      split
      · next found =>
        rw [found] at looked
        exact (terms_conclude ..).trans looked
      · next found => rw [found] at looked; exact looked
    · exact terms_conclude ..
    · rfl

/-- Nothing that happens to a pool changes its terms. -/
theorem terms_step (p : Pool) (now : Seconds) (e : PoolEvent) : (p.step now e).terms = p.terms := by
  cases e with
  | openCall id context =>
    obtain same | ⟨-, lookup, opened⟩ := p.step_openCall_cases now id context
    · rw [same]
    · rw [opened]
      rfl
  | abandon id =>
    change (p.abandon id).terms = p.terms
    obtain same | ⟨c, -, -, ⟨-, same⟩ | ⟨fetch, -, same⟩⟩ := p.abandon_cases id <;> rw [same] <;> rfl
  | callStep id => exact terms_callStep ..
  | fetchStep id => exact terms_fetchStep ..
  | announce id => exact terms_announce ..
  | arrive id reply =>
    change (p.arrive id reply).terms = p.terms
    unfold arrive
    split <;> rfl
  | arriveAtOnce id reply =>
    change (p.arriveAtOnce now id reply).terms = p.terms
    unfold arriveAtOnce
    split
    · split
      · exact terms_take ..
      · rfl
    · rfl
  | expire id =>
    change (p.expire id).terms = p.terms
    unfold expire
    split <;> rfl
  | cancelPending => exact terms_stopFetches ..
  | clearCache => rfl
  | setTtl ttl given =>
    change ((p.setTtl? now ttl given).toOption.getD p).terms = p.terms
    unfold setTtl? Cache.setTtl?
    split
    · rfl
    · simp only [Except.map, Except.toOption, Option.getD_some, terms, Cache.size_setTtl]
  | resetAuth => rfl

theorem terms_create {site : Text} {base : Path} {ttl : Seconds} {size slots : Int} {limit : Number}
    {p : Pool} (created : create site base ttl size slots limit = .ok p) :
    p.terms = ⟨site, base, limit, size.toNat⟩ := by
  unfold create Cache.create at created
  split at created
  · cases created
  · simp only [Except.mapError, bind, Except.bind] at created
    split at created
    · cases created
    · cases created
      rfl

/-- Every failure in a pool has a reason. -/
structure Accounted (t : Terms) (p : Pool) : Prop where
  terms : p.terms = t
  fetches : ∀ f ∈ p.fetches, f.Accounted t
  calls : ∀ c ∈ p.calls, c.Briefed (fun key outcome => outcome.Accounted t key) t.site

section

variable {t : Terms} {p q : Pool} {c : Call}

/-- A call ends for the reason for which its lookup failed, if at all. -/
theorem accounted_ending {outcome : Outcome} (h : outcome.Accounted t (c.current.key t.site)) :
    (c.ending outcome).Accounted t (c.current.key t.site) := by
  unfold Call.ending
  split
  · trivial
  · split
    · split <;> trivial
    · exact h
  · exact h
  · trivial

/-- A call that knows of no failure without a reason does not fail without one. -/
theorem accounted_of_briefed (h : c.Briefed (fun key outcome => outcome.Accounted t key) t.site) :
    c.Accounted t := by
  refine ⟨?_, h.told, fun outcome ended => ?_⟩
  · rcases h.course with same | ⟨metric, key, -, wanted, current, -⟩
    · exact .inl same
    · exact .inr ⟨metric, key, wanted, current⟩
  · obtain rfl | ⟨report, accounted, rfl⟩ := h.ended outcome ended
    · trivial
    · exact accounted_ending accounted

/-- How the fetches of a pool ended has reasons, and so has what is in its cache. -/
theorem Accounted.briefed (h : p.Accounted t) :
    p.Briefed (fun key outcome => outcome.Accounted t key) t.site fun _ => True := by
  refine ⟨congrArg Terms.site h.terms, fun _ _ => trivial, fun f mem outcome ended => ?_,
    fun c mem _ => h.calls c mem⟩
  have accounted := h.fetches f mem
  unfold Fetch.Accounted at accounted
  rwa [ended] at accounted

theorem accounted_nudged {f g : Fetch} (h : f.Accounted t) (nudged : f.Nudged g) : g.Accounted t := by
  unfold Fetch.Accounted at h ⊢
  rcases nudged.stage with same | handed
  · rw [same, nudged.lookup]
    exact h
  · rw [handed]
    trivial

/-- Why a fetch fails is a reason for its key. -/
theorem Accounted.explained (h : p.Accounted t) {f : Fetch} (mem : f ∈ p.fetches) {came : Option Reply}
    (faultless : ∀ reply, came = some reply → reply.isFault = false) {failure : Failure}
    (explained : p.Explains f came failure) : t.Accounts (f.lookup.key t.site) failure := by
  have base : p.base = t.base := congrArg Terms.base h.terms
  have size : p.cache.size = t.size := congrArg Terms.size h.terms
  cases failure with
  | catalog => trivial
  | slashName name => exact ⟨f.lookup, rfl, base ▸ explained⟩
  | cache error => exact ⟨explained.1, size ▸ explained.2⟩
  | fault reason =>
    rcases explained with stage | ⟨-, arrives⟩
    · have accounted := h.fetches f mem
      simp [Fetch.Accounted, stage, Reply.isFault] at accounted
    · cases faultless _ arrives

theorem FetchMove.accounted {f : Fetch} {now : Seconds} {came : Option Reply}
    (move : FetchMove p now came f q) (h : p.Accounted t) (mem : f ∈ p.fetches)
    (faultless : ∀ reply, came = some reply → reply.isFault = false) :
    ∀ g ∈ q.fetches, g.Accounted t := by
  -- the others are nudged at most
  have moves {stage : FetchStage} (moved : Moved p f stage q)
      (self : Fetch.Accounted t { f with stage }) : ∀ g ∈ q.fetches, g.Accounted t := by
    intro g there
    by_cases same : g.id = f.id
    · obtain ⟨lookup, stage, -⟩ := moved.self g there same
      unfold Fetch.Accounted at self ⊢
      rw [stage, lookup]
      exact self
    · obtain ⟨g', old, nudged⟩ := moved.others g there same
      exact accounted_nudged (h.fetches g' old) nudged
  cases move with
  | queue moved => exact moves moved trivial
  | ask _ _ _ moved => exact moves moved trivial
  | hear _ _ came moved => exact moves moved (faultless _ came)
  | expire _ _ moved => exact moves moved trivial
  | @fail outcome _ _ explained moved =>
    refine moves moved ?_
    cases outcome with
    | names | stopped => trivial
    | failed failure => exact h.explained mem faultless (explained failure rfl)
  | serve _ _ _ _ moved => exact moves moved trivial
  | refuse _ moved => exact moves moved trivial

/-- No event makes anything fail without a reason, unless it brings a fault. -/
theorem step_accounted (h : p.Accounted t) (kept : p.books.Kept) (now : Seconds) (e : PoolEvent)
    (faultless : ∀ reply, e.reply? = some reply → reply.isFault = false) :
    (p.step now e).Accounted t := by
  have fetches : ∀ g ∈ (p.step now e).fetches, g.Accounted t := by
    obtain rfl | undealt | ⟨f, mem, -, move, -⟩ := step_kinds kept now e
    · exact h.fetches
    · intro g mem
      rcases undealt.fetches g mem with ⟨f, old, nudged⟩ | ⟨begun, -⟩
      · exact accounted_nudged (h.fetches f old) nudged
      · simp [Fetch.Accounted, begun]
    · exact move.accounted h mem faultless
  have briefed := step_briefed h.briefed kept now e (fun _ _ => trivial) fun f mem outcome ended => by
    have accounted := fetches f mem
    unfold Fetch.Accounted at accounted
    rwa [ended] at accounted
  exact ⟨(terms_step p now e).trans h.terms, fetches, fun c mem => briefed.calls c mem trivial⟩

end

end Pool

end Typeahead
