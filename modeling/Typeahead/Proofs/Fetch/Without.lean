import Typeahead.Proofs.Fetch.Kept

/-!
A pool as if one of its calls were not there: without the call itself, its place among those who wait for a
fetch, and what is due on its account. Who takes a step does not look at other calls, and so what happens to
such a pool is what happens to the pool itself.

- `without_step`: whatever concerns no call, or another call.
- `without_abandon_self`: the caller of the call gives up, which changes nothing else.
-/

namespace Typeahead

/-- The call that a signal is about. -/
def Signal.call? : Signal → Option Nat
  | .callDue call | .settled call _ => some call
  | .fetchDue _ | .announceDue _ | .limitSet _ | .sent _ _ | .alarmsOff _ => none

/-- The call that an event is about. -/
def PoolEvent.call? : PoolEvent → Option Nat
  | .openCall call _ | .abandon call | .callStep call => some call
  | _ => none

/-- A fetch as if a call did not wait for it. -/
def Fetch.without (f : Fetch) (call : Nat) : Fetch :=
  { f with watchers := f.watchers.filter (· != call) }

section

variable (f : Fetch) (call : Nat)

@[simp] theorem Fetch.id_without : (f.without call).id = f.id := rfl

@[simp] theorem Fetch.lookup_without : (f.without call).lookup = f.lookup := rfl

@[simp] theorem Fetch.stage_without : (f.without call).stage = f.stage := rfl

@[simp] theorem Fetch.stopping_without : (f.without call).stopping = f.stopping := rfl

end

namespace Pool

/-- A pool as if a call were not there. -/
def without (p : Pool) (call : Nat) : Pool :=
  { p with
    fetches := p.fetches.map (·.without call)
    calls := p.calls.filter fun c => c.id != call
    outbox := p.outbox.filter fun s => s.call? != some call }

section

variable (p : Pool) (call : Nat)

@[simp] theorem site_without : (p.without call).site = p.site := rfl

@[simp] theorem base_without : (p.without call).base = p.base := rfl

@[simp] theorem limit_without : (p.without call).limit = p.limit := rfl

@[simp] theorem cache_without : (p.without call).cache = p.cache := rfl

@[simp] theorem gate_without : (p.without call).gate = p.gate := rfl

@[simp] theorem refusal?_without : (p.without call).refusal? = p.refusal? := rfl

@[simp] theorem pending_without : (p.without call).pending = p.pending := rfl

theorem without_post {s : Signal} (other : s.call? ≠ some call) :
    (p.post s).without call = (p.without call).post s := by
  have stays : [s].filter (fun s => s.call? != some call) = [s] := by simp [other]
  simp only [post, without, List.filter_append, stays]

theorem without_callDue {id : Nat} (other : id ≠ call) :
    (p.post (.callDue id)).without call = (p.without call).post (.callDue id) :=
  p.without_post call fun same => other (Option.some.inj same)

theorem without_post_self {s : Signal} (self : s.call? = some call) :
    (p.post s).without call = p.without call := by
  have goes : [s].filter (fun s => s.call? != some call) = [] := by simp [self]
  simp only [post, without, List.filter_append, goes, List.append_nil]

theorem without_notice {s : Signal} (notice : s.call? = none) :
    (p.post s).without call = (p.without call).post s :=
  p.without_post call (by rw [notice]; exact Option.some_ne_none call |>.symm)

theorem fetch?_without (id : Nat) : (p.without call).fetch? id = (p.fetch? id).map (·.without call) :=
  List.find?_map ..

theorem outcome?_without (id : Nat) : (p.without call).outcome? id = p.outcome? id := by
  simp only [outcome?, fetch?_without]
  cases p.fetch? id with
  | none => rfl
  | some f =>
    obtain ⟨_, _, stage, _, _⟩ := f
    cases stage <;> rfl

theorem call?_without {id : Nat} (other : id ≠ call) : (p.without call).call? id = p.call? id := by
  simp only [call?, without, List.find?_filter]
  congr 1
  funext c
  by_cases same : c.id = id
  · simp [same, other]
  · simp [same]

/-! ### Fetches -/

/-- A change of a fetch may look different without the call. -/
theorem without_updateFetch_as (id : Nat) {change seen : Fetch → Fetch}
    (same : ∀ f, (change f).without call = seen (f.without call)) :
    (p.updateFetch id change).without call = (p.without call).updateFetch id seen := by
  simp only [updateFetch, without, List.map_map]
  congr 1
  apply List.map_congr_left
  intro f _
  simp only [Function.comp]
  by_cases number : f.id = id
  · rw [if_pos number, if_pos (show (f.without call).id = id from number), same]
  · rw [if_neg number, if_neg (show ¬ (f.without call).id = id from number)]

theorem without_updateFetch (id : Nat) {change : Fetch → Fetch}
    (same : ∀ f, (change f).without call = change (f.without call)) :
    (p.updateFetch id change).without call = (p.without call).updateFetch id change :=
  p.without_updateFetch_as call id same

theorem without_updateFetch_self (id : Nat) {change : Fetch → Fetch}
    (same : ∀ f, (change f).without call = f.without call) :
    (p.updateFetch id change).without call = p.without call := by
  have seen : (p.updateFetch id change).without call = (p.without call).updateFetch id fun f => f :=
    p.without_updateFetch_as call id same
  rw [seen]
  simp only [updateFetch, ite_self, List.map_id']

@[simp] theorem without_moveFetch (id : Nat) (stage : FetchStage) :
    (p.moveFetch id stage).without call = (p.without call).moveFetch id stage :=
  p.without_updateFetch call id fun _ => rfl

@[simp] theorem without_endFetch (id : Nat) (outcome : Outcome) :
    (p.endFetch id outcome).without call = (p.without call).endFetch id outcome := by
  rw [endFetch, without_notice _ _ rfl, without_moveFetch, endFetch]

@[simp] theorem without_withGate (admitted : List Nat) (gate : Gate) :
    (p.withGate admitted gate).without call = (p.without call).withGate admitted gate := by
  have each (q : Pool) (id : Nat) : ((q.without call).moveFetch id .admitted).post (.fetchDue id) =
      ((q.moveFetch id .admitted).post (.fetchDue id)).without call := by
    rw [without_notice _ _ rfl, without_moveFetch]
  exact (List.foldl_hom (fun q : Pool => q.without call) each).symm

@[simp] theorem without_releaseSlot : p.releaseSlot.without call = (p.without call).releaseSlot :=
  without_withGate ..

@[simp] theorem without_leave (id : Nat) : (p.leave id).without call = (p.without call).leave id := by
  rw [leave, without_releaseSlot, without_notice _ _ rfl]
  rfl

@[simp] theorem without_leaveLine (id : Nat) (unused : Bool) :
    (p.leaveLine id unused).without call = (p.without call).leaveLine id unused :=
  without_withGate ..

@[simp] theorem without_stopFetch (id : Nat) :
    (p.stopFetch id).without call = (p.without call).stopFetch id := by
  have stopped : (p.updateFetch id fun f => { f with stopping := true }).without call =
      (p.without call).updateFetch id fun f => { f with stopping := true } :=
    p.without_updateFetch call id fun _ => rfl
  simp only [stopFetch, fetch?_without]
  cases p.fetch? id with
  | none => rfl
  | some f =>
    simp only [Option.map_some, Fetch.stage_without, Fetch.stopping_without]
    split
    · rfl
    · rfl
    · rw [without_notice _ _ rfl, ← stopped]
      rfl
    · rw [without_notice _ _ rfl, without_notice _ _ rfl, stopped]
    · exact stopped

@[simp] theorem without_stopFetches (ids : List Nat) :
    (p.stopFetches ids).without call = (p.without call).stopFetches ids :=
  (List.foldl_hom (fun q : Pool => q.without call) fun q id => (without_stopFetch q call id).symm).symm

theorem without_pass (f : Fetch) :
    (p.pass f).without call = (p.without call).pass (f.without call) := by
  simp only [pass, refusal?_without, limit_without, base_without, Fetch.id_without, Fetch.lookup_without]
  split
  · rw [without_endFetch, without_releaseSlot]
  · by_cases late : (!p.limit.above 0) = true
    · simp only [late, if_true]
      rw [without_notice _ _ rfl, without_moveFetch]
      rfl
    · simp only [late, Bool.false_eq_true, if_false]
      split
      · rw [without_endFetch, without_leave]
        rfl
      · rw [without_notice _ _ rfl, without_notice _ _ rfl, without_moveFetch]
        rfl

theorem without_take (now : Seconds) (f : Fetch) (reply : Reply) :
    (p.take now f reply).without call = (p.without call).take now (f.without call) reply := by
  simp only [take, base_without, pending_without, Fetch.id_without, Fetch.lookup_without]
  split
  · rw [← without_leave]
    simp only [cache_without, site_without]
    split
    · exact without_endFetch ..
    · exact without_endFetch ..
  · rw [without_endFetch, without_leave, without_stopFetches]
    rfl
  · rw [without_endFetch, without_leave]

theorem without_fetchStep (now : Seconds) (id : Nat) :
    (p.fetchStep now id).without call = (p.without call).fetchStep now id := by
  simp only [fetchStep, fetch?_without]
  cases p.fetch? id with
  | none => rfl
  | some f =>
    simp only [Option.map_some, Fetch.stage_without, Fetch.stopping_without, gate_without]
    split
    · exact without_endFetch ..
    · by_cases entered : (p.gate.enter id).1 = true
      · simp only [entered, if_true]
        exact without_pass ..
      · simp only [entered, Bool.false_eq_true, if_false]
        exact without_moveFetch ..
    · rw [without_endFetch, without_leaveLine]
    · rw [without_endFetch, without_leaveLine]
    · rw [without_pass, without_leaveLine]
    · rw [without_endFetch, without_leave]
    · rw [without_endFetch, without_leave]
    · rw [without_endFetch, without_leave]
    · exact without_take ..
    · rw [without_endFetch, without_leave]
      rfl
    · rfl
    · rfl
    · rfl

theorem without_arrive (id : Nat) (reply : Reply) :
    (p.arrive id reply).without call = (p.without call).arrive id reply := by
  simp only [arrive, fetch?_without]
  cases p.fetch? id with
  | none => rfl
  | some f =>
    obtain ⟨_, _, stage, stopping, _⟩ := f
    cases stage <;> cases stopping <;> try rfl
    simp only [Option.map_some, Fetch.without]
    rw [without_notice _ _ rfl, without_moveFetch]

theorem without_arriveAtOnce (now : Seconds) (id : Nat) (reply : Reply) :
    (p.arriveAtOnce now id reply).without call = (p.without call).arriveAtOnce now id reply := by
  simp only [arriveAtOnce, fetch?_without]
  cases p.fetch? id with
  | none => rfl
  | some f =>
    simp only [Option.map_some, Fetch.stage_without, Fetch.stopping_without]
    split
    · exact without_take ..
    · rfl

theorem without_expire (id : Nat) : (p.expire id).without call = (p.without call).expire id := by
  simp only [expire, fetch?_without]
  cases p.fetch? id with
  | none => rfl
  | some f =>
    obtain ⟨_, _, stage, stopping, _⟩ := f
    cases stage <;> cases stopping <;> try rfl
    · simp only [Option.map_some, Fetch.without]
      rw [without_notice _ _ rfl, without_moveFetch]
    · exact without_moveFetch ..

end

/-! ### Calls -/

section

variable {p q : Pool} {now : Seconds} {c : Call}

/-- A call that was given up ends, or settles if it has ended. -/
theorem callStep_of_abandoned {id : Nat} (found : p.call? id = some c) (gone : c.abandoned = true)
    (now : Seconds) :
    (∃ outcome, p.callStep now id =
      ({ p with calls := p.calls.filter fun x => x.id != id } : Pool).post
        (.settled id (c.resolution outcome))) ∨
    p.callStep now id = p.endCall c .stopped := by
  simp only [callStep, found, gone]
  cases c.stage with
  | ended outcome => exact .inl ⟨outcome, rfl⟩
  | begun | waiting | told => exact .inr rfl

/-- What a look finds, once it has read the cache. -/
theorem look_of_hit (read : q = { p with cache := (p.cache.get now (c.current.key p.site)).2 })
    {entry : CacheEntry} (hit : (p.cache.get now (c.current.key p.site)).1 = some entry) :
    p.look now c = (some (.names entry.names), q) := by
  subst read
  simp only [look, hit]

variable (read : q = { p with cache := (p.cache.get now (c.current.key p.site)).2 })
  (missing : (p.cache.get now (c.current.key p.site)).1 = none)

include read missing

theorem look_of_unregistered (free : q.registered? (c.current.key p.site) = none) :
    p.look now c = (none, q.beginFetch c) := by
  subst read
  simp only [look, missing, free]

theorem look_of_ended {id : Nat} (found : q.registered? (c.current.key p.site) = some id)
    {outcome : Outcome} (ended : q.outcome? id = some outcome) : p.look now c = (some outcome, q) := by
  subst read
  simp only [look, missing, found, ended]

theorem look_of_running {id : Nat} (found : q.registered? (c.current.key p.site) = some id)
    (running : q.outcome? id = none) : p.look now c = (none, q.join c id) := by
  subst read
  simp only [look, missing, found, running]

end

section

variable (p : Pool) (call : Nat)

theorem without_setCall (c : Call) : (p.setCall c).without call = (p.without call).setCall c := by
  simp only [setCall, without, List.filter_map]
  congr 2
  apply List.filter_congr
  intro x _
  simp only [Function.comp]
  split
  · next same => rw [same]
  · rfl

theorem without_setCall_self {c : Call} (self : c.id = call) :
    (p.setCall c).without call = p.without call := by
  have spared : ∀ x ∈ (p.without call).calls, (if x.id = c.id then c else x) = x := by
    intro x mem
    have apart : x.id ≠ call := bne_iff_ne.1 (List.mem_filter.1 mem).2
    rw [if_neg (self ▸ apart)]
  have calls : ((p.without call).setCall c).calls = (p.without call).calls :=
    (List.map_congr_left spared).trans (List.map_id' _)
  rw [without_setCall, setCall]
  exact congrArg (fun calls => { p.without call with calls }) calls

theorem without_endCall {c : Call} (other : c.id ≠ call) (outcome : Outcome) :
    (p.endCall c outcome).without call = (p.without call).endCall c outcome := by
  rw [endCall, without_callDue _ _ (by exact other), without_setCall, endCall]

section

variable {c : Call} (other : c.id ≠ call)

include other

theorem without_join (id : Nat) : (p.join c id).without call = (p.without call).join c id := by
  have stays : [c.id].filter (· != call) = [c.id] := by simp [other]
  rw [join, without_setCall, without_updateFetch, join]
  intro f
  simp only [Fetch.without, List.filter_append, stays]

theorem without_beginFetch : (p.beginFetch c).without call = (p.without call).beginFetch c := by
  have stays : [c.id].filter (· != call) = [c.id] := by simp [other]
  rw [beginFetch, without_setCall, without_notice _ _ rfl]
  simp only [without, List.map_append, List.map_singleton, Fetch.without, stays]
  rfl

theorem without_look (now : Seconds) :
    (p.without call).look now c = ((p.look now c).1, (p.look now c).2.without call) := by
  -- the look at the cache is the same, and leaves a pool of which the same can be said
  let q : Pool := { p with cache := (p.cache.get now (c.current.key p.site)).2 }
  have read : q.without call =
    { p.without call with cache := (p.cache.get now (c.current.key p.site)).2 } := rfl
  cases hit : (p.cache.get now (c.current.key p.site)).1 with
  | some entry => rw [look_of_hit rfl hit, look_of_hit read hit]
  | none =>
    cases found : q.registered? (c.current.key p.site) with
    | none =>
      rw [look_of_unregistered rfl hit found, look_of_unregistered read hit found,
        without_beginFetch q call other]
    | some id =>
      have outcome : (q.without call).outcome? id = q.outcome? id := q.outcome?_without call id
      cases ended : q.outcome? id with
      | some report =>
        rw [look_of_ended rfl hit found ended, look_of_ended read hit found (outcome.trans ended)]
      | none =>
        rw [look_of_running rfl hit found ended, look_of_running read hit found (outcome.trans ended),
          without_join q call other]

theorem without_conclude (now : Seconds) (outcome : Outcome) :
    (p.conclude now c outcome).without call = (p.without call).conclude now c outcome := by
  unfold conclude
  split
  · exact without_endCall p call other _
  · next lookup _ =>
    have looked := without_look (c := { c with current := lookup }) p call other now
    simp only [looked]
    cases p.look now { c with current := lookup } with
    | mk known q =>
      cases known with
      | some outcome => exact without_endCall q call (c := { c with current := lookup }) other _
      | none => rfl

theorem without_beginCall (now : Seconds) :
    (p.beginCall now c).without call = (p.without call).beginCall now c := by
  simp only [beginCall, without_look p call other now]
  cases p.look now c with
  | mk known q =>
    cases known with
    | some outcome => exact without_conclude q call other now outcome
    | none => rfl

end

/-- Another call takes its step. -/
theorem without_callStep (now : Seconds) {id : Nat} (other : id ≠ call) :
    (p.callStep now id).without call = (p.without call).callStep now id := by
  simp only [callStep, call?_without p call other]
  cases found : p.call? id with
  | none => rfl
  | some c =>
    obtain ⟨-, rfl⟩ := mem_of_call? found
    dsimp only
    split
    · have apart (r : Resolution) : Signal.call? (.settled c.id r) ≠ some call :=
        fun same => other (Option.some.inj same)
      rw [without_post _ _ (apart _)]
      simp only [without, List.filter_filter, Bool.and_comm]
    · exact without_endCall p call other _
    · exact without_beginCall p call other now
    · exact without_conclude p call other now _
    · rfl

/-- Another call is opened. -/
theorem without_openCall {id : Nat} (other : id ≠ call) (context : Context) :
    (p.openCall id context).2.without call = ((p.without call).openCall id context).2 := by
  simp only [openCall, refusal?_without]
  split
  · rfl
  · split
    · rfl
    · next lookup _ _ _ =>
      have stays : ([{ id, wanted := lookup, current := lookup }] : List Call).filter
          (fun c => c.id != call) = [{ id, wanted := lookup, current := lookup }] := by simp [other]
      rw [without_callDue _ _ other]
      simp only [without, List.filter_append, stays]

/-- The caller of another call gives up. -/
theorem without_abandon {id : Nat} (other : id ≠ call) :
    (p.abandon id).without call = (p.without call).abandon id := by
  simp only [abandon, call?_without p call other]
  cases p.call? id with
  | none => rfl
  | some c =>
    dsimp only
    split
    · next fetch _ _ =>
      rw [without_callDue _ _ other, without_updateFetch, without_setCall]
      intro f
      simp only [Fetch.without, List.filter_filter, Bool.and_comm]
    · exact without_setCall ..

theorem without_tell (outcome : Outcome) {id : Nat} (other : id ≠ call) :
    (p.tell outcome id).without call = (p.without call).tell outcome id := by
  simp only [tell, call?_without p call other]
  cases p.call? id with
  | none => rfl
  | some c => exact (without_callDue _ _ other).trans (congrArg (post · _) (without_setCall ..))

theorem without_tell_self (outcome : Outcome) : (p.tell outcome call).without call = p.without call := by
  unfold tell
  split
  · next c found =>
    obtain ⟨-, number⟩ := mem_of_call? found
    rw [without_post_self _ _ rfl, without_setCall_self _ _ (by exact number)]
  · rfl

theorem without_tellAll (outcome : Outcome) (ids : List Nat) :
    (ids.foldl (tell outcome) p).without call =
      (ids.filter (· != call)).foldl (tell outcome) (p.without call) := by
  induction ids generalizing p with
  | nil => rfl
  | cons id ids ih =>
    rw [List.foldl_cons, ih]
    by_cases self : id = call
    · subst self
      rw [without_tell_self, List.filter_cons_of_neg (by simp)]
    · rw [without_tell _ _ _ self, List.filter_cons_of_pos (by simpa using self), List.foldl_cons]

theorem without_forget (f : Fetch) :
    (p.forget f).without call = (p.without call).forget (f.without call) := by
  have registered (key : Text) : (p.without call).registered? key = p.registered? key := rfl
  simp only [forget, site_without, Fetch.lookup_without, Fetch.id_without, registered]
  split <;> rfl

/-- The end of a fetch is announced. -/
theorem without_announce (id : Nat) : (p.announce id).without call = (p.without call).announce id := by
  simp only [announce, fetch?_without]
  cases p.fetch? id with
  | none => rfl
  | some f =>
    simp only [Option.map_some, Fetch.stage_without]
    split
    -- without its place among the watchers the call is not told, and being told is all that it would notice
    · have gone (q : Pool) : ({ q with fetches := q.fetches.filter fun f => f.id != id } : Pool).without call =
          { q.without call with fetches := (q.without call).fetches.filter fun f => f.id != id } := by
        simp only [without, List.filter_map]
        rfl
      rw [without_tellAll, gone, without_forget]
      rfl
    · rfl

/-- The caller of the call gives up. -/
theorem without_abandon_self : (p.abandon call).without call = p.without call := by
  obtain same | ⟨c, -, number, ⟨-, same⟩ | ⟨fetch, -, same⟩⟩ := p.abandon_cases call
  · rw [same]
  · rw [same]
    exact without_setCall_self _ _ number
  · rw [same, without_post_self _ _ rfl, without_updateFetch_self]
    · exact without_setCall_self _ _ number
    · intro f
      simp [Fetch.without]

/-- The call takes its step after its caller gave up. -/
theorem without_callStep_self (now : Seconds) {c : Call} (found : p.call? call = some c)
    (gone : c.abandoned = true) : (p.callStep now call).without call = p.without call := by
  obtain ⟨-, number⟩ := mem_of_call? found
  obtain ⟨outcome, settles⟩ | ends := callStep_of_abandoned found gone now
  · rw [settles, without_post_self _ _ rfl]
    simp [without, List.filter_filter]
  · have due : Signal.call? (.callDue c.id) = some call := congrArg some number
    rw [ends, endCall, without_post_self _ _ due, without_setCall_self _ _ (by exact number)]

/-- What concerns other calls, or none, is the same for a pool as if the call were not there. -/
theorem without_step (now : Seconds) {e : PoolEvent} (other : e.call? ≠ some call) :
    (p.step now e).without call = (p.without call).step now e := by
  cases e with
  | openCall id context =>
    have apart : id ≠ call := fun same => other (same ▸ rfl)
    simp only [step, call?_without p call apart]
    split
    · rfl
    · exact without_openCall p call apart context
  | abandon id => exact without_abandon p call fun same => other (same ▸ rfl)
  | callStep id => exact without_callStep p call now fun same => other (same ▸ rfl)
  | fetchStep id => exact without_fetchStep p call now id
  | announce id => exact without_announce p call id
  | arrive id reply => exact without_arrive p call id reply
  | arriveAtOnce id reply => exact without_arriveAtOnce p call now id reply
  | expire id => exact without_expire p call id
  | cancelPending => exact without_stopFetches p call _
  | clearCache => rfl
  | setTtl ttl given =>
    simp only [step, setTtl?, cache_without]
    cases p.cache.setTtl? now ttl given with
    | error => rfl
    | ok cache => rfl
  | resetAuth => rfl

end

end Pool

end Typeahead
