import Mathlib.Tactic.Linarith
import Typeahead.Proofs.Cache.Timed
import Typeahead.Proofs.Fetch.Alone
import Typeahead.Proofs.Rehearsal.Progress

/-!
A call by itself. Where nothing else is under way, a call does one thing after the other: it looks into the
cache, its fetch sends a request and waits for the reply or for its time limit, and it ends or goes by
another lookup. What comes of that can be told without steps, jobs and alarms.

- `lookUp`, `foresee`: what comes of a lookup, and of a call.
- `leads_of_ask`, `leads_of_foresee`: the steps of the rehearsal come to that.
- `looked_lookUp`: all that a lookup changes.
- `resolve_of_foresee`: so whoever asks for the names of a context is told so.
-/

namespace Typeahead

/-- When a request ends under a time limit: with its reply, or without one as the time is over. -/
def Arrival.within (limit? : Option Seconds) : Arrival → Option (Seconds × Option Reply)
  | .never => limit?.map fun limit => (limit, none)
  | .after span reply =>
    match limit? with
    | some limit => some (if span < limit then (max 0 span, some reply) else (limit, none))
    | none => some (max 0 span, some reply)

theorem Arrival.within_cases {limit? : Option Seconds} {a : Arrival} {passed : Seconds} {reply? : Option Reply}
    (h : a.within limit? = some (passed, reply?)) :
    (reply? = none ∧ limit? = some passed ∧ (a = .never ∨ ∃ span reply, passed ≤ span ∧ a = .after span reply)) ∨
      ∃ span reply, a = .after span reply ∧ passed = max 0 span ∧ reply? = some reply ∧
        ∀ limit, limit? = some limit → span < limit := by
  cases a with
  | never =>
    obtain ⟨limit, rfl, same⟩ := Option.map_eq_some_iff.1 h
    obtain ⟨rfl, rfl⟩ := Prod.mk.inj same
    exact .inl ⟨rfl, rfl, .inl rfl⟩
  | after span reply =>
    cases limit? with
    | none =>
      cases h
      exact .inr ⟨span, reply, rfl, rfl, rfl, nofun⟩
    | some limit =>
      have h := Option.some.inj h
      split at h
      · next inTime =>
        cases h
        refine .inr ⟨span, reply, rfl, rfl, rfl, fun limit' same => ?_⟩
        cases same
        exact inTime
      · next late =>
        cases h
        exact .inl ⟨rfl, rfl, .inr ⟨span, reply, not_lt.1 late, rfl⟩⟩

theorem Number.value?_pos {n : Number} (above : n.above 0 = true) {x : Rat} (value : n.value? = some x) :
    0 < x := by
  cases n with
  | whole n =>
    cases value
    exact of_decide_eq_true above
  | real y =>
    cases y with
    | finite y =>
      cases value
      exact of_decide_eq_true above
    | infinite | undefined => cases value

namespace Rehearsal

/-- Nothing is under way, and the end of the next call is not there yet. -/
structure Idle (w : Rehearsal) : Prop where
  ready : w.agenda.ready = []
  alarms : w.agenda.alarms = []
  bare : w.pool.Bare
  loading : w.loading = []
  unsettled : ∀ r, (w.nextCall, r) ∉ w.settled

/-! ### What comes of a lookup -/

/-- The clock moves on. -/
def later (w : Rehearsal) (span : Seconds) : Rehearsal :=
  { w with agenda := { w.agenda with now := w.now + span } }

/-- What comes of the reply to the request of a lookup, or of none in time. -/
def receive (w : Rehearsal) (l : Lookup) (path : Path) : Option Reply → Outcome × Rehearsal
  | some reply =>
    let (outcome, pool) := w.pool.receive w.cacheTime l (reply.names path)
    (outcome, { w with pool })
  | none => (w.pool.timedOut l, w)

/-- Sends the request of a lookup and waits until it ends, if it does. -/
def exchange (w : Rehearsal) (l : Lookup) (path : Path) : Option (Outcome × Rehearsal) :=
  ((w.send { path }).1.within w.pool.limit.value?).map fun (span, reply?) =>
    ((w.send { path }).2.later span).receive l path reply?

/-- Asks the catalog for the names of a lookup, where access is not blocked. Without any slot nobody asks. -/
def ask (w : Rehearsal) (l : Lookup) : Option (Outcome × Rehearsal) :=
  if w.pool.gate.free = 0 then none
  else if w.pool.limit.above 0 then
    match l.path w.pool.base with
    | .error e => some (.failed (.slashName e.name), w)
    | .ok path => w.exchange l path
  else some (w.pool.timedOut l, w)

/-- The names of a lookup were looked for in the cache, and a fetch is begun for them. -/
def missing (w : Rehearsal) (l : Lookup) : Rehearsal :=
  { w with pool := { w.pool with
      cache := (w.pool.cache.get w.cacheTime (l.key w.pool.site)).2
      nextFetch := w.pool.nextFetch + 1 } }

/-- What comes of a lookup with nothing else under way: its names are in the cache, or the catalog is asked. -/
def lookUp (w : Rehearsal) (l : Lookup) : Option (Outcome × Rehearsal) :=
  match w.pool.cache.get w.cacheTime (l.key w.pool.site) with
  | (some entry, cache) => some (.names entry.names, { w with pool := { w.pool with cache } })
  | (none, _) => (w.missing l).ask l

/-- What comes of a call with nothing else under way: of its lookup, and of the one that stands in. -/
def foresee (w : Rehearsal) (c : Call) : Option (Outcome × Rehearsal) :=
  (w.lookUp c.current).bind fun (outcome, v) =>
    match if outcome.isAbsent then c.standIn? else none with
    | none => some (c.ending outcome, v)
    | some l => (v.lookUp l).map fun (outcome, v) => (Call.ending { c with current := l } outcome, v)

section

variable {u v w : Rehearsal} {l : Lookup} {outcome : Outcome} {c : Call}

theorem later_zero (w : Rehearsal) : w.later 0 = w := by
  have same : w.now + 0 = w.now := Rat.add_zero _
  rw [later, same]
  rfl

theorem lookUp_cases (found : w.lookUp l = some (outcome, v)) :
    (∃ e cache, w.pool.cache.get w.cacheTime (l.key w.pool.site) = (some e, cache) ∧ outcome = .names e.names ∧
      v = { w with pool := { w.pool with cache } }) ∨
    (w.pool.cache.get w.cacheTime (l.key w.pool.site)).1 = none ∧ (w.missing l).ask l = some (outcome, v) := by
  unfold lookUp at found
  split at found
  · next e cache got =>
    obtain ⟨rfl, rfl⟩ := Prod.mk.inj (Option.some.inj found)
    exact .inl ⟨e, cache, got, rfl, rfl⟩
  · next got => exact .inr ⟨congrArg Prod.fst got, found⟩

theorem lookUp_of_miss (miss : (w.pool.cache.get w.cacheTime (l.key w.pool.site)).1 = none) :
    w.lookUp l = (w.missing l).ask l := by
  unfold lookUp
  split
  · next got => simp [got] at miss
  · rfl

theorem foresee_cases (found : w.foresee c = some (outcome, v)) :
    (∃ first, w.lookUp c.current = some (first, v) ∧ (if first.isAbsent then c.standIn? else none) = none ∧
      outcome = c.ending first) ∨
    ∃ first u l second, w.lookUp c.current = some (first, u) ∧ first.isAbsent = true ∧ c.standIn? = some l ∧
      u.lookUp l = some (second, v) ∧ outcome = Call.ending { c with current := l } second := by
  obtain ⟨⟨first, u⟩, looked, goes⟩ := Option.bind_eq_some_iff.1 found
  dsimp only at goes
  split at goes
  · next last =>
    obtain ⟨rfl, rfl⟩ := Prod.mk.inj (Option.some.inj goes)
    exact .inl ⟨first, looked, last, rfl⟩
  · next l standsIn =>
    obtain ⟨absent, standsIn⟩ : first.isAbsent = true ∧ c.standIn? = some l := by
      split at standsIn
      · next absent => exact ⟨absent, standsIn⟩
      · cases standsIn
    obtain ⟨⟨second, v'⟩, looked', same⟩ := Option.map_eq_some_iff.1 goes
    obtain ⟨rfl, rfl⟩ := Prod.mk.inj same
    exact .inr ⟨first, u, l, second, looked, absent, standsIn, looked', rfl⟩

/-! ### What is left of it -/

/-- What is left of a lookup that has ended: its names may be in the cache, and some requests have been sent;
there is still nothing under way, and access is not blocked where the catalog did not know the names. -/
structure Looked (l : Lookup) (outcome : Outcome) (most : Nat) (w v : Rehearsal) : Prop where
  agenda : v.agenda = { w.agenda with now := v.now }
  bare : w.pool.Bare → v.pool.Bare
  site : v.pool.site = w.pool.site
  refusal : outcome.isAbsent = true → v.pool.refusal? = w.pool.refusal?
  entries : ∀ e ∈ v.pool.cache.entries, e ∈ w.pool.cache.entries ∨
    e.key = l.key w.pool.site ∧ ∃ names, outcome = .names names
  loading : v.loading = w.loading
  requests : v.requests.length ≤ w.requests.length + most
  settled : v.settled = w.settled
  nextCall : v.nextCall = w.nextCall

theorem Looked.refl (l : Lookup) (outcome : Outcome) (most : Nat) (w : Rehearsal) :
    Looked l outcome most w w :=
  ⟨rfl, id, rfl, fun _ => rfl, fun _ mem => .inl mem, rfl, Nat.le_add_right .., rfl, rfl⟩

theorem Looked.idle {most : Nat} (h : Looked l outcome most w v) (idle : w.Idle) : v.Idle := by
  refine ⟨?_, ?_, h.bare idle.bare, h.loading.trans idle.loading, fun r => ?_⟩
  · rw [h.agenda]
    exact idle.ready
  · rw [h.agenda]
    exact idle.alarms
  · rw [h.settled, h.nextCall]
    exact idle.unsettled r

/-- A lookup that failed leaves no names behind. -/
theorem Looked.entries_of_failed {failure : Failure} {most : Nat} (h : Looked l (.failed failure) most w v) :
    ∀ e ∈ v.pool.cache.entries, e ∈ w.pool.cache.entries := by
  intro e mem
  refine (h.entries e mem).resolve_right ?_
  rintro ⟨-, names, ⟨⟩⟩

theorem looked_receive {path : Path} {reply? : Option Reply} (gives : w.receive l path reply? = (outcome, v)) :
    Looked l outcome 0 w v := by
  cases reply? with
  | none =>
    obtain ⟨rfl, rfl⟩ := Prod.mk.inj gives
    exact .refl ..
  | some reply =>
    simp only [receive, Pool.receive] at gives
    split at gives
    · next names _ =>
      split at gives
      · next cache kept =>
        obtain ⟨rfl, rfl⟩ := Prod.mk.inj gives
        refine ⟨rfl, fun bare => bare.withCache .., rfl, fun _ => rfl, fun e mem => ?_, rfl, Nat.le_refl _, rfl,
          rfl⟩
        unfold Cache.set at kept
        split at kept
        · cases kept
        · cases kept
          rcases Cache.mem_store mem with ⟨old, -⟩ | rfl
          · exact .inl old
          · exact .inr ⟨rfl, names, rfl⟩
      · obtain ⟨rfl, rfl⟩ := Prod.mk.inj gives
        exact .refl ..
    · obtain ⟨rfl, rfl⟩ := Prod.mk.inj gives
      refine ⟨rfl, fun h => ⟨h.calls, h.fetches, h.pending, h.line, h.outbox⟩, rfl, fun absent => ?_,
        fun _ mem => .inl mem, rfl, Nat.le_refl _, rfl, rfl⟩
      cases absent
    · obtain ⟨rfl, rfl⟩ := Prod.mk.inj gives
      exact .refl ..

theorem looked_ask (found : w.ask l = some (outcome, v)) : Looked l outcome 1 w v := by
  unfold ask at found
  split at found
  · cases found
  split at found
  · split at found
    · obtain ⟨rfl, rfl⟩ := Prod.mk.inj (Option.some.inj found)
      exact .refl ..
    · next path _ =>
      obtain ⟨⟨passed, reply?⟩, ends, gives⟩ := Option.map_eq_some_iff.1 found
      have left := looked_receive gives
      have sent : (w.send { path }).2.requests.length = w.requests.length + 1 := List.length_append
      exact ⟨left.agenda, left.bare, left.site, left.refusal, left.entries, left.loading,
        left.requests.trans_eq sent, left.settled, left.nextCall⟩
  · obtain ⟨rfl, rfl⟩ := Prod.mk.inj (Option.some.inj found)
    exact .refl ..

theorem looked_lookUp (found : w.lookUp l = some (outcome, v)) : Looked l outcome 1 w v := by
  have read := w.pool.cache.get_hit_or_miss w.cacheTime (l.key w.pool.site)
  rcases lookUp_cases found with ⟨e, cache, got, rfl, rfl⟩ | ⟨missed, asked⟩
  · rw [got] at read
    obtain ⟨x, hit⟩ | ⟨missed, -⟩ := read
    · refine ⟨rfl, fun bare => bare.withCache .., rfl, nofun, fun y mem => ?_, rfl, Nat.le_succ _, rfl, rfl⟩
      rw [(Prod.mk.inj hit).2] at mem
      obtain ⟨y, old, rfl⟩ := List.mem_map.1 mem
      split
      · next same => exact .inr ⟨same, e.names, rfl⟩
      · exact .inl old
    · cases missed
  · obtain ⟨x, hit⟩ | ⟨-, fewer⟩ := read
    · simp [hit] at missed
    · have left := looked_ask asked
      exact ⟨left.agenda, fun bare => left.bare (bare.withCache ..), left.site, left.refusal,
        fun x mem => (left.entries x mem).imp_left fun old => fewer.subset old, left.loading, left.requests,
        left.settled, left.nextCall⟩

end

/-! ### Runs -/

/-- A run comes from one rehearsal to another, in so many steps at most. -/
def Leads (stop : Rehearsal → Bool) (most : Nat) (w v : Rehearsal) : Prop :=
  ∃ n ≤ most, ∀ fuel, runUntil stop none (n + fuel) w = runUntil stop none fuel v

/-- The rehearsal while a call is under way, with its pool, what is due and the alarms. -/
def amid (w : Rehearsal) (pool : Pool) (ready : List Job) (alarms : List (Alarm Job)) : Rehearsal :=
  { w with agenda := { w.agenda with ready, alarms }, pool, nextCall := w.nextCall + 1 }

/-- The alarm for the time limit of a fetch, if there is a limit. -/
def limitAlarms (w : Rehearsal) (n : Nat) : List (Alarm Job) :=
  (w.pool.limit.value?.map fun limit => ⟨w.now + limit, .limit n⟩).toList

section

variable {stop : Rehearsal → Bool} {u v w : Rehearsal} {m n : Nat} {pool next : Pool} {ready : List Job}
  {alarms : List (Alarm Job)} {c : Call} {outcome : Outcome} {span limit : Seconds} {reply : Reply} {path : Path}

theorem Idle.amid_nil (h : w.Idle) : w.amid w.pool [] [] = { w with nextCall := w.nextCall + 1 } := by
  have agenda : { w.agenda with ready := [], alarms := [] } = w.agenda := by rw [← h.ready, ← h.alarms]
  rw [amid, agenda]

namespace Leads

theorem mono (h : Leads stop m u v) (le : m ≤ n) : Leads stop n u v :=
  let ⟨steps, most, same⟩ := h
  ⟨steps, most.trans le, same⟩

theorem trans (first : Leads stop m u v) (second : Leads stop n v w) : Leads stop (m + n) u w := by
  obtain ⟨a, least, same⟩ := first
  obtain ⟨b, least', same'⟩ := second
  exact ⟨a + b, Nat.add_le_add least least', fun fuel => by rw [Nat.add_assoc, same, same']⟩

/-- What is due is done. -/
theorem event {job : Job} {e : PoolEvent} (done : job.event? = some e) (step : pool.step w.cacheTime e = next)
    (put : (w.amid pool ready alarms).withPool next = v) :
    Leads stop 1 (w.amid pool (job :: ready) alarms) v := by
  have ran : (w.amid pool ready alarms).run job = v := by
    rw [run_of_event? done, ← put, ← step]
    rfl
  refine ⟨1, Nat.le_refl _, fun fuel => ?_⟩
  rw [Nat.add_comm, ← ran]
  rfl

/-- The clock jumps to the next alarm. -/
theorem jump (pool : Pool) {rest : List (Alarm Job)} (goes : ∀ v, v.settled = w.settled → stop v = false)
    (jumped : Agenda.jump? ⟨w.now, [], alarms⟩ none = some ⟨w.now + span, ready, rest⟩) :
    Leads stop 1 (w.amid pool [] alarms) ((w.later span).amid pool ready rest) := by
  have waits : stop (w.amid pool [] alarms) = false := goes _ rfl
  have jumped : (w.amid pool [] alarms).agenda.jump? none = some ⟨w.now + span, ready, rest⟩ := jumped
  have idle : (w.amid pool [] alarms).agenda.next? = none := rfl
  refine ⟨1, Nat.le_refl _, fun fuel => ?_⟩
  rw [Nat.add_comm]
  conv_lhs => unfold runUntil
  simp only [idle, waits, jumped, Bool.false_eq_true, if_false]
  rfl

/-- A run with enough fuel ends where it is told to stop. -/
theorem stopped (h : Leads stop n w v) (idle : v.agenda.ready = []) (stops : stop v = true) {fuel : Nat}
    (enough : n ≤ fuel) : runUntil stop none fuel w = v := by
  obtain ⟨steps, most, same⟩ := h
  obtain ⟨rest, rfl⟩ := Nat.exists_eq_add_of_le (most.trans enough)
  rw [same]
  cases rest with
  | zero => rfl
  | succ rest => simp [runUntil, Agenda.next?, idle, stops]

end Leads

/-! ### What is posted -/

theorem quiet_within (bare : w.pool.Bare) (n : Nat) (c : Call) (stage : FetchStage) :
    (w.pool.within.withFetch n c stage).outbox = [] := bare.outbox

theorem flush_quiet (quiet : w.pool.outbox = []) (fuel : Nat) : flush fuel w = w := by
  cases fuel with
  | zero => rfl
  | succ fuel => simp [flush, quiet]

theorem withPool_post (quiet : pool.outbox = []) {s : Signal} (acted : act { w with pool } s = v)
    (still : v.pool.outbox = []) : w.withPool (pool.post s) = v := by
  have emptied : { pool.post s with outbox := [] } = pool := by
    rw [← quiet]
    rfl
  have posted : (pool.post s).outbox = [s] := by
    rw [Pool.post, quiet]
    rfl
  simp only [withPool, flush, posted, emptied, acted, still, List.isEmpty, List.foldl, if_true, Bool.false_eq_true,
    if_false]

theorem withPool_quiet (quiet : pool.outbox = []) (old : Pool) :
    (w.amid old ready alarms).withPool pool = w.amid pool ready alarms := flush_quiet quiet 3

theorem withPool_fetchDue (quiet : pool.outbox = []) (old : Pool) (id : Nat) :
    (w.amid old ready alarms).withPool (pool.post (.fetchDue id)) = w.amid pool (ready ++ [.fetch id]) alarms :=
  withPool_post quiet rfl quiet

theorem withPool_callDue (quiet : pool.outbox = []) (old : Pool) (id : Nat) :
    (w.amid old ready alarms).withPool (pool.post (.callDue id)) = w.amid pool (ready ++ [.call id]) alarms :=
  withPool_post quiet rfl quiet

theorem withPool_settled (quiet : pool.outbox = []) (alone : w.loading = []) (old : Pool) (id : Nat)
    (r : Resolution) : (w.amid old ready alarms).withPool (pool.post (.settled id r)) =
      { w.amid pool ready alarms with settled := w.settled ++ [(id, r)] } := by
  refine withPool_post quiet ?_ quiet
  simp [act, settle, amid, alone]

/-- A fetch that has left takes its alarms along. -/
theorem flush_withEnd (bare : pool.Bare) (outcome : Outcome) (own : ∀ a ∈ alarms, Job.isAlarmOf n a.job = true)
    (fuel : Nat) : flush (fuel + 2) (w.amid (pool.withEnd n c outcome) ready alarms) =
      w.amid (pool.withFetch n c (.ended outcome)) (ready ++ [.announce n]) [] := by
  have off : alarms.filter (fun a => !Job.isAlarmOf n a.job) = [] :=
    List.filter_eq_nil_iff.2 fun a mem => by simp [own a mem]
  have posted : (pool.withEnd n c outcome).outbox = [.alarmsOff n, .announceDue n] := by
    simp [Pool.withEnd, Pool.post, Pool.withFetch, bare.outbox]
  have emptied : { pool.withEnd n c outcome with outbox := [] } = pool.withFetch n c (.ended outcome) := by
    simp [Pool.withEnd, Pool.post, Pool.withFetch, bare.outbox]
  simp [flush, posted, emptied, act, amid, soon, Agenda.soon, Agenda.drop, off, Pool.withFetch, bare.outbox]

theorem withPool_withEnd (bare : pool.Bare) (old : Pool) (outcome : Outcome)
    (own : ∀ a ∈ alarms, Job.isAlarmOf n a.job = true) :
    (w.amid old ready alarms).withPool (pool.withEnd n c outcome) =
      w.amid (pool.withFetch n c (.ended outcome)) (ready ++ [.announce n]) [] :=
  flush_withEnd bare outcome own 1

theorem limitAlarms_some (limited : w.pool.limit.value? = some limit) (n : Nat) :
    w.limitAlarms n = [⟨w.now + limit, .limit n⟩] := by
  simp [limitAlarms, limited]

theorem limitAlarms_none (unlimited : w.pool.limit.value? = none) (n : Nat) : w.limitAlarms n = [] := by
  simp [limitAlarms, unlimited]

theorem own_limitAlarms (w : Rehearsal) (n : Nat) : ∀ a ∈ w.limitAlarms n, Job.isAlarmOf n a.job = true := by
  intro a mem
  cases limited : w.pool.limit.value? with
  | none => simp [limitAlarms_none limited] at mem
  | some limit =>
    rw [limitAlarms_some limited, List.mem_singleton] at mem
    simp [mem, Job.isAlarmOf]

theorem withPool_sending (bare : w.pool.Bare) (old : Pool) (request : Request) :
    (w.amid old [] []).withPool (w.pool.sending n c request) =
      flush 2 ((w.amid (w.pool.within.withFetch n c .asking) [] (w.limitAlarms n)).act (.sent n request)) := by
  have posted : (w.pool.sending n c request).outbox = [.limitSet n, .sent n request] := by
    simp [Pool.sending, Pool.post, Pool.withFetch, Pool.within, bare.outbox]
  have emptied : { w.pool.sending n c request with outbox := [] } = w.pool.within.withFetch n c .asking := by
    simp [Pool.sending, Pool.post, Pool.withFetch, Pool.within, bare.outbox]
  have set : (w.amid (w.pool.within.withFetch n c .asking) [] []).act (.limitSet n) =
      w.amid (w.pool.within.withFetch n c .asking) [] (w.limitAlarms n) := by
    have same : (w.amid (w.pool.within.withFetch n c .asking) [] []).pool.limit = w.pool.limit := rfl
    simp only [act, same, limitAlarms]
    cases w.pool.limit.value? with
    | none => rfl
    | some limit => rfl
  have first : (w.amid old [] []).withPool (w.pool.sending n c request) = flush 2
      ([Signal.limitSet n, .sent n request].foldl act (w.amid (w.pool.within.withFetch n c .asking) [] [])) := by
    unfold withPool
    rw [flush]
    simp only [posted, emptied, List.isEmpty, Bool.false_eq_true, if_false]
    rfl
  rw [first, List.foldl, set]
  rfl

theorem send_amid {request : Request} {arrival : Arrival} (comes : (w.send request).1 = arrival) :
    (w.amid pool ready alarms).send request = (arrival, (w.send request).2.amid pool ready alarms) :=
  Prod.ext comes rfl

theorem sending_never (bare : w.pool.Bare) (old : Pool) {request : Request}
    (never : (w.send request).1 = .never) : (w.amid old [] []).withPool (w.pool.sending n c request) =
      (w.send request).2.amid (w.pool.within.withFetch n c .asking) [] (w.limitAlarms n) := by
  rw [withPool_sending bare, act, send_amid never]
  exact flush_quiet (w := (w.send request).2.amid _ _ _) (quiet_within bare n c .asking) _

theorem sending_later (bare : w.pool.Bare) (old : Pool) {request : Request}
    (comes : (w.send request).1 = .after span reply) (wait : 0 < span) :
    (w.amid old [] []).withPool (w.pool.sending n c request) =
      (w.send request).2.amid (w.pool.within.withFetch n c .asking) []
        (Agenda.insertAlarm ⟨w.now + span, .reply n reply⟩ (w.limitAlarms n)) := by
  rw [withPool_sending bare, act, send_amid comes]
  simp only [if_pos wait]
  exact flush_quiet (w := (w.send request).2.amid _ _ (Agenda.insertAlarm _ (w.limitAlarms n)))
    (quiet_within bare n c .asking) _

theorem sending_atOnce (bare : w.pool.Bare) (free : w.pool.gate.free ≠ 0)
    (fits : c.current.path w.pool.base = .ok path) (old : Pool)
    (comes : (w.send { path }).1 = .after span reply) (atOnce : ¬ 0 < span)
    (gives : (w.send { path }).2.receive c.current path (some reply) = (outcome, v)) :
    (w.amid old [] []).withPool (w.pool.sending n c { path }) =
      v.amid (v.pool.withFetch n c (.ended outcome)) [.announce n] [] := by
  obtain ⟨rfl, rfl⟩ := Prod.mk.inj gives
  have bare' : (w.pool.receive w.cacheTime c.current (reply.names path)).2.Bare := bare.receive ..
  rw [withPool_sending bare, act, send_amid comes]
  simp only [if_neg atOnce]
  change flush 2 ((w.send { path }).2.amid
    ((w.pool.within.withFetch n c .asking).arriveAtOnce w.cacheTime n reply) [] (w.limitAlarms n)) = _
  rw [Pool.arriveAtOnce_asking bare free fits]
  exact flush_withEnd bare' _ (own_limitAlarms w n) 0

/-! ### A fetch -/

theorem leads_overdue (bare : w.pool.Bare) (free : w.pool.gate.free ≠ 0)
    (own : ∀ a ∈ alarms, Job.isAlarmOf n a.job = true) :
    Leads stop 1 (w.amid (w.pool.within.withFetch n c .overdue) [.fetch n] alarms)
      (w.amid (w.pool.withFetch n c (.ended (w.pool.timedOut c.current))) [.announce n] []) :=
  .event rfl (Pool.fetchStep_overdue bare free) (withPool_withEnd bare _ _ own)

theorem leads_answered (bare : w.pool.Bare) (free : w.pool.gate.free ≠ 0)
    (fits : c.current.path w.pool.base = .ok path) (own : ∀ a ∈ alarms, Job.isAlarmOf n a.job = true)
    (gives : w.receive c.current path (some reply) = (outcome, v)) :
    Leads stop 2 (w.amid (w.pool.within.withFetch n c .asking) [.reply n reply] alarms)
      (v.amid (v.pool.withFetch n c (.ended outcome)) [.announce n] []) := by
  obtain ⟨rfl, rfl⟩ := Prod.mk.inj gives
  have arrived : Leads stop 1 (w.amid (w.pool.within.withFetch n c .asking) [.reply n reply] alarms)
      (w.amid (w.pool.within.withFetch n c (.answered reply)) [.fetch n] alarms) :=
    .event rfl (Pool.arrive_asking reply) (withPool_fetchDue (quiet_within bare ..) _ _)
  have taken : (w.pool.within.withFetch n c (.answered reply)).fetchStep w.cacheTime n = _ :=
    Pool.fetchStep_answered bare free fits reply
  exact arrived.trans (.event rfl taken (withPool_withEnd (bare.receive ..) _ _ own))

/-- A reply of the moment in which the time limit passes comes too late. -/
theorem leads_limit (bare : w.pool.Bare) (free : w.pool.gate.free ≠ 0)
    (own : ∀ a ∈ alarms, Job.isAlarmOf n a.job = true) {late : List Job}
    (most : late = [] ∨ ∃ reply, late = [.reply n reply]) :
    Leads stop 3 (w.amid (w.pool.within.withFetch n c .asking) (.limit n :: late) alarms)
      (w.amid (w.pool.withFetch n c (.ended (w.pool.timedOut c.current))) [.announce n] []) := by
  have expires : Leads stop 1 (w.amid (w.pool.within.withFetch n c .asking) (.limit n :: late) alarms)
      (w.amid (w.pool.within.withFetch n c .overdue) (late ++ [.fetch n]) alarms) :=
    .event rfl Pool.expire_asking (withPool_fetchDue (quiet_within bare ..) _ _)
  rcases most with rfl | ⟨reply, rfl⟩
  · exact (expires.trans (leads_overdue bare free own)).mono (by decide)
  · have missed : Leads stop 1 (w.amid (w.pool.within.withFetch n c .overdue) [.reply n reply, .fetch n] alarms)
        (w.amid (w.pool.within.withFetch n c .overdue) [.fetch n] alarms) :=
      .event rfl (Pool.arrive_overdue reply) (withPool_quiet (quiet_within bare ..) _)
    exact expires.trans (missed.trans (leads_overdue bare free own))

/-- The time limit of a fetch passes before a reply comes. -/
theorem leads_over (bare : w.pool.Bare) (free : w.pool.gate.free ≠ 0)
    (goes : ∀ v, v.settled = w.settled → stop v = false) (positive : 0 < limit) {late : List (Alarm Job)}
    (most : late = [] ∨ ∃ span reply, limit ≤ span ∧ late = [⟨w.now + span, .reply n reply⟩]) :
    Leads stop 4 (w.amid (w.pool.within.withFetch n c .asking) [] (⟨w.now + limit, .limit n⟩ :: late))
      ((w.later limit).amid (w.pool.withFetch n c (.ended (w.pool.timedOut c.current))) [.announce n] []) := by
  let asking := w.pool.within.withFetch n c .asking
  let first : Alarm Job := ⟨w.now + limit, .limit n⟩
  have ahead : w.now < first.due := by
    simp only [first]
    linarith
  rcases most with rfl | ⟨span, reply, least, rfl⟩
  · have jumps := Leads.jump asking goes (Agenda.jump?_first first [] ahead (by simp))
    exact jumps.trans (leads_limit (w := w.later limit) bare free (by simp) (.inl rfl))
  · let second : Alarm Job := ⟨w.now + span, .reply n reply⟩
    rcases lt_or_eq_of_le least with less | same
    · have jumps := Leads.jump asking goes
        (Agenda.jump?_first first [second] ahead (by simpa [first, second] using less))
      exact jumps.trans (leads_limit (w := w.later limit) bare free (by simp [second, Job.isAlarmOf]) (.inl rfl))
    · have jumps := Leads.jump asking goes (Agenda.jump?_both first second ahead (by simp [first, second, same]))
      exact jumps.trans (leads_limit (w := w.later limit) bare free (by simp) (.inr ⟨reply, rfl⟩))

/-- The reply comes before the time limit passes. -/
theorem leads_reply (bare : w.pool.Bare) (free : w.pool.gate.free ≠ 0)
    (fits : c.current.path w.pool.base = .ok path) (goes : ∀ v, v.settled = w.settled → stop v = false)
    (wait : 0 < span) (inTime : ∀ limit, w.pool.limit.value? = some limit → span < limit)
    (gives : (w.later span).receive c.current path (some reply) = (outcome, v)) :
    Leads stop 3 (w.amid (w.pool.within.withFetch n c .asking) []
        (Agenda.insertAlarm ⟨w.now + span, .reply n reply⟩ (w.limitAlarms n)))
      (v.amid (v.pool.withFetch n c (.ended outcome)) [.announce n] []) := by
  let first : Alarm Job := ⟨w.now + span, .reply n reply⟩
  have ahead : w.now < first.due := by
    simp only [first]
    linarith
  obtain ⟨placed, apart⟩ : Agenda.insertAlarm first (w.limitAlarms n) = first :: w.limitAlarms n ∧
      ∀ a ∈ w.limitAlarms n, first.due < a.due := by
    cases limited : w.pool.limit.value? with
    | none => simp [limitAlarms_none limited, Agenda.insertAlarm]
    | some limit =>
      have less := inTime limit limited
      simp [limitAlarms_some limited, Agenda.insertAlarm, less, first]
  rw [placed]
  have jumps := Leads.jump (w.pool.within.withFetch n c .asking) goes (Agenda.jump?_first first _ ahead apart)
  exact jumps.trans (leads_answered (w := w.later span) bare free fits (own_limitAlarms w n) gives)

theorem leads_of_exchange (bare : w.pool.Bare) (allowed : w.pool.refusal? = none) (free : w.pool.gate.free ≠ 0)
    (under : w.pool.limit.above 0 = true) (fits : c.current.path w.pool.base = .ok path)
    (goes : ∀ v, v.settled = w.settled → stop v = false)
    (found : w.exchange c.current path = some (outcome, v)) :
    Leads stop 5 (w.amid (w.pool.withFetch n c .begun) [.fetch n] [])
      (v.amid (v.pool.withFetch n c (.ended outcome)) [.announce n] []) := by
  have sends : (w.pool.withFetch n c .begun).fetchStep w.cacheTime n = w.pool.sending n c { path } :=
    Pool.begun_sent bare allowed free under fits
  let sent := (w.send { path }).2
  obtain ⟨⟨passed, reply?⟩, ends, gives⟩ := Option.map_eq_some_iff.1 found
  rcases Arrival.within_cases ends with ⟨rfl, limited, comes⟩ | ⟨span, reply, comes, rfl, rfl, inTime⟩
  · obtain ⟨rfl, rfl⟩ := Prod.mk.inj gives
    have positive := Number.value?_pos under limited
    obtain ⟨late, most, asks⟩ : ∃ late,
        (late = [] ∨ ∃ span reply, passed ≤ span ∧ late = [⟨w.now + span, Job.reply n reply⟩]) ∧
        Leads stop 1 (w.amid (w.pool.withFetch n c .begun) [.fetch n] [])
          (sent.amid (w.pool.within.withFetch n c .asking) [] (⟨w.now + passed, .limit n⟩ :: late)) := by
      rcases comes with never | ⟨span, reply, least, comes⟩
      · exact ⟨[], .inl rfl, .event rfl sends (limitAlarms_some limited n ▸ sending_never bare _ never)⟩
      · have placed : Agenda.insertAlarm ⟨w.now + span, .reply n reply⟩ (w.limitAlarms n) =
            [⟨w.now + passed, .limit n⟩, ⟨w.now + span, .reply n reply⟩] := by
          have behind : ¬ w.now + span < w.now + passed := by linarith
          simp only [limitAlarms_some limited, Agenda.insertAlarm, if_neg behind]
        refine ⟨_, .inr ⟨span, reply, least, rfl⟩, .event rfl sends ?_⟩
        exact placed ▸ sending_later bare _ comes (positive.trans_le least)
    exact asks.trans (leads_over (w := sent) bare free goes positive most)
  · have gives : (sent.later (max 0 span)).receive c.current path (some reply) = (outcome, v) := gives
    by_cases wait : 0 < span
    · rw [max_eq_right (le_of_lt wait)] at gives
      have asks : Leads stop 1 (w.amid (w.pool.withFetch n c .begun) [.fetch n] [])
          (sent.amid (w.pool.within.withFetch n c .asking) []
            (Agenda.insertAlarm ⟨w.now + span, .reply n reply⟩ (w.limitAlarms n))) :=
        .event rfl sends (sending_later bare _ comes wait)
      exact (asks.trans (leads_reply (w := sent) bare free fits goes wait inTime gives)).mono (by decide)
    · rw [max_eq_left (not_lt.1 wait), later_zero] at gives
      have ends : Leads stop 1 (w.amid (w.pool.withFetch n c .begun) [.fetch n] [])
          (v.amid (v.pool.withFetch n c (.ended outcome)) [.announce n] []) :=
        .event rfl sends (sending_atOnce bare free fits _ comes wait gives)
      exact ends.mono (by decide)

/-- A fetch by itself, from its first step to its last one. -/
theorem leads_of_ask (bare : w.pool.Bare) (allowed : w.pool.refusal? = none)
    (goes : ∀ v, v.settled = w.settled → stop v = false) (found : w.ask c.current = some (outcome, v)) :
    Leads stop 5 (w.amid (w.pool.withFetch n c .begun) [.fetch n] [])
      (v.amid (v.pool.withFetch n c (.ended outcome)) [.announce n] []) := by
  unfold ask at found
  split at found
  · cases found
  next free =>
  split at found
  · next under =>
    cases fits : c.current.path w.pool.base with
    | error e =>
      simp only [fits] at found
      obtain ⟨rfl, rfl⟩ := Prod.mk.inj (Option.some.inj found)
      have ends : Leads stop 1 (w.amid (w.pool.withFetch n c .begun) [.fetch n] [])
          (w.amid (w.pool.withFetch n c (.ended (.failed (.slashName e.name)))) [.announce n] []) :=
        .event rfl (Pool.begun_slash bare allowed free under fits) (withPool_withEnd bare _ _ (by simp))
      exact ends.mono (by decide)
    | ok path =>
      simp only [fits] at found
      exact leads_of_exchange bare allowed free under fits goes found
  · next spent =>
    obtain ⟨rfl, rfl⟩ := Prod.mk.inj (Option.some.inj found)
    have begins : Leads stop 1 (w.amid (w.pool.withFetch n c .begun) [.fetch n] [])
        (w.amid (w.pool.within.withFetch n c .overdue) [.fetch n] []) :=
      .event rfl (Pool.begun_over bare allowed free (by simpa using spent))
        (withPool_fetchDue (quiet_within bare ..) _ _)
    exact (begins.trans (leads_overdue bare free (by simp))).mono (by decide)

end

/-! ### A call -/

section

variable {stop : Rehearsal → Bool} {v w : Rehearsal} {old c : Call} {l : Lookup} {outcome : Outcome}

/-- A call that does not find names in the cache is told how its fetch ends. -/
theorem leads_told (bare : w.pool.Bare) (allowed : w.pool.refusal? = none)
    (goes : ∀ v, v.settled = w.settled → stop v = false) (same : old.id = c.id)
    (step : (w.pool.withCall old).callStep w.cacheTime old.id = w.pool.seek w.cacheTime old c)
    (missed : (w.pool.cache.get w.cacheTime (c.current.key w.pool.site)).1 = none)
    (asked : (w.missing c.current).ask c.current = some (outcome, v)) :
    Leads stop 7 (w.amid (w.pool.withCall old) [.call old.id] [])
      (v.amid (v.pool.withCall { c with stage := .told outcome }) [.call c.id] []) := by
  let u := w.missing c.current
  let n := w.pool.nextFetch
  have bare' : u.pool.Bare := bare.withCache ..
  have bare'' : v.pool.Bare := (looked_ask asked).bare bare'
  have quiet : (u.pool.withFetch n c .begun).outbox = [] := bare.outbox
  have quiet' : (v.pool.withCall { c with stage := .told outcome }).outbox = [] := bare''.outbox
  have begins : Leads stop 1 (w.amid (w.pool.withCall old) [.call old.id] [])
      (u.amid (u.pool.withFetch n c .begun) [.fetch n] []) :=
    .event rfl (step.trans (Pool.seek_of_miss bare (Prod.ext missed rfl) same)) (withPool_fetchDue quiet _ _)
  have asks : Leads stop 5 (u.amid (u.pool.withFetch n c .begun) [.fetch n] [])
      (v.amid (v.pool.withFetch n c (.ended outcome)) [.announce n] []) := leads_of_ask bare' allowed goes asked
  have tells : Leads stop 1 (v.amid (v.pool.withFetch n c (.ended outcome)) [.announce n] [])
      (v.amid (v.pool.withCall { c with stage := .told outcome }) [.call c.id] []) :=
    .event rfl (Pool.announce_ended bare'' outcome) (withPool_callDue quiet' _ _)
  exact begins.trans (asks.trans tells)

/-- A call ends with a lookup for which no other one stands in. -/
theorem leads_ended (bare : w.pool.Bare) (allowed : w.pool.refusal? = none)
    (goes : ∀ v, v.settled = w.settled → stop v = false) (same : old.id = c.id) (stays : c.abandoned = false)
    (step : (w.pool.withCall old).callStep w.cacheTime old.id = w.pool.seek w.cacheTime old c)
    (found : w.lookUp c.current = some (outcome, v))
    (last : (if outcome.isAbsent then c.standIn? else none) = none) :
    Leads stop 8 (w.amid (w.pool.withCall old) [.call old.id] [])
      (v.amid (v.pool.withCall { c with stage := .ended (c.ending outcome) }) [.call c.id] []) := by
  have bare' := (looked_lookUp found).bare bare
  have quiet : (v.pool.withCall { c with stage := .ended (c.ending outcome) }).outbox = [] := bare'.outbox
  rcases lookUp_cases found with ⟨e, cache, got, rfl, rfl⟩ | ⟨missed, asked⟩
  · have ends : Leads stop 1 (w.amid (w.pool.withCall old) [.call old.id] []) _ :=
      .event rfl (step.trans (Pool.seek_of_hit got same)) (withPool_callDue quiet _ _)
    exact ends.mono (by decide)
  · have told := leads_told bare allowed goes same step missed asked
    have ends : Leads stop 1 (v.amid (v.pool.withCall { c with stage := .told outcome }) [.call c.id] [])
        (v.amid (v.pool.withCall { c with stage := .ended (c.ending outcome) }) [.call c.id] []) :=
      .event rfl (Pool.callStep_told (c := { c with stage := .told outcome }) rfl stays last)
        (withPool_callDue quiet _ _)
    exact told.trans ends

/-- A call that has ended goes, and its end is there to be collected. -/
theorem leads_settled (idle : w.Idle) (ended : c.stage = .ended outcome) :
    Leads stop 1 (w.amid (w.pool.withCall c) [.call c.id] [])
      { w with nextCall := w.nextCall + 1, settled := w.settled ++ [(c.id, c.resolution outcome)] } := by
  have put : (w.amid (w.pool.withCall c) [] []).withPool (w.pool.post (.settled c.id (c.resolution outcome))) = _ :=
    withPool_settled idle.bare.outbox idle.loading ..
  rw [idle.amid_nil] at put
  exact .event rfl (Pool.callStep_ended idle.bare ended) put

/-- A call by itself, from its first step to its last one. -/
theorem leads_of_foresee (idle : w.Idle) (allowed : w.pool.refusal? = none)
    (goes : ∀ v, v.settled = w.settled → stop v = false) (begun : c.stage = .begun) (stays : c.abandoned = false)
    (found : w.foresee c = some (outcome, v)) :
    v.Idle ∧ v.settled = w.settled ∧ Leads stop 16 (w.amid (w.pool.withCall c) [.call c.id] [])
      { v with nextCall := v.nextCall + 1, settled := v.settled ++ [(c.id, c.resolution outcome)] } := by
  have step : (w.pool.withCall c).callStep w.cacheTime c.id = w.pool.seek w.cacheTime c c :=
    Pool.callStep_begun idle.bare begun stays
  rcases foresee_cases found with
    ⟨first, looked, last, rfl⟩ | ⟨first, u, l, second, looked, absent, standsIn, looked', rfl⟩
  · have left := looked_lookUp looked
    have ended := leads_ended idle.bare allowed goes rfl stays step looked last
    exact ⟨left.idle idle, left.settled, (ended.trans (leads_settled (left.idle idle) rfl)).mono (by decide)⟩
  · have left := looked_lookUp looked
    have idle' := left.idle idle
    have left' := looked_lookUp looked'
    obtain ⟨missed, asked⟩ : (w.pool.cache.get w.cacheTime (c.current.key w.pool.site)).1 = none ∧
        (w.missing c.current).ask c.current = some (first, u) := by
      rcases lookUp_cases looked with ⟨e, cache, -, rfl, -⟩ | missed
      · cases absent
      · exact missed
    let told : Call := { c with stage := .told first }
    let again : Call := { told with current := l }
    have same : told.id = again.id := rfl
    have none : again.standIn? = none := by
      obtain ⟨-, metric, key, wanted, rfl⟩ := Call.standIn?_eq_some standsIn
      simp [Call.standIn?, again, told, wanted]
    have step' : (u.pool.withCall told).callStep u.cacheTime told.id = u.pool.seek u.cacheTime told again :=
      Pool.callStep_absent (c := told) rfl stays absent standsIn
    have tells := leads_told idle.bare allowed goes rfl step missed asked
    have ended := leads_ended idle'.bare ((left.refusal absent).trans allowed)
      (fun v kept => goes v (kept.trans left.settled)) same stays step' looked' (by rw [none, ite_self])
    refine ⟨left'.idle idle', left'.settled.trans left.settled, ?_⟩
    exact tells.trans (ended.trans (leads_settled (left'.idle idle') rfl))

theorem work_amid (bare : w.pool.Bare) (begun : c.stage = .begun) :
    (w.amid (w.pool.withCall c) [.call c.id] []).work = 24 := by
  simp [work, amid, Agenda.work, total, Job.work, Pool.work, Pool.withCall, bare.fetches, Gate.work, bare.line,
    bare.outbox, Call.work, begun]

theorem openCall_idle (idle : w.Idle) (allowed : w.pool.refusal? = none) {context : Context}
    (asks : context.lookup? = some l) : w.openCall context = (w.nextCall, none,
      w.amid (w.pool.withCall { id := w.nextCall, wanted := l, current := l }) [.call w.nextCall] []) := by
  let c : Call := { id := w.nextCall, wanted := l, current := l }
  have opened : w.pool.openCall w.nextCall context = (none, (w.pool.withCall c).post (.callDue w.nextCall)) := by
    simp [Pool.openCall, asks, allowed, idle.bare.calls, Pool.withCall, c]
  have quiet : (w.pool.withCall c).outbox = [] := idle.bare.outbox
  have put : ({ w with nextCall := w.nextCall + 1 } : Rehearsal).withPool
      ((w.pool.withCall c).post (.callDue w.nextCall)) = w.amid (w.pool.withCall c) [.call w.nextCall] [] := by
    rw [← idle.amid_nil]
    exact withPool_callDue quiet _ _
  rw [openCall, opened]
  exact congrArg (fun v => (w.nextCall, none, v)) put

/-- Who asks for the names of a context with nothing else under way is told what comes of the call. -/
theorem resolve_of_foresee (idle : w.Idle) (allowed : w.pool.refusal? = none) {context : Context}
    (asks : context.lookup? = some l)
    (found : w.foresee { id := w.nextCall, wanted := l, current := l } = some (outcome, v)) :
    w.resolve context = (some (Call.resolution { id := w.nextCall, wanted := l, current := l } outcome),
      { v with nextCall := v.nextCall + 1 }) := by
  let c : Call := { id := w.nextCall, wanted := l, current := l }
  have goes (u : Rehearsal) (same : u.settled = w.settled) : hasSettled w.nextCall u = false := by
    simp only [hasSettled, same, List.any_eq_false, decide_eq_true_eq]
    rintro ⟨id, r⟩ mem rfl
    exact idle.unsettled r mem
  obtain ⟨idle', settled, leads⟩ := leads_of_foresee (c := c) idle allowed goes rfl rfl found
  have waited : (w.amid (w.pool.withCall c) [.call w.nextCall] []).waitFor (hasSettled w.nextCall) = _ :=
    leads.stopped idle'.ready (by simp [hasSettled, c]) (by rw [patience, work_amid idle.bare rfl]; decide)
  have none : w.settled.lookup w.nextCall = none := List.lookup_eq_none_iff.2 fun s mem => by
    simpa using fun same : w.nextCall = s.1 => idle.unsettled s.2 (same ▸ mem)
  have others : w.settled.filter (fun s => s.1 != w.nextCall) = w.settled :=
    List.filter_eq_self.2 fun s mem => by
      simpa using fun same : s.1 = w.nextCall => idle.unsettled s.2 (same ▸ mem)
  rw [resolve, openCall_idle idle allowed asks]
  simp only [c] at waited
  simp [waited, collect, settled, List.lookup_append, none, others]

end

end Rehearsal

end Typeahead
