import Typeahead.Proofs.Fetch.Steps

/-!
A call by itself in a pool. There is the call and at most one fetch, the one it waits for; so each step has
one outcome, which is told here, from the first step of the call to the end of the fetch and back.

- `seek_of_hit`, `seek_of_miss`: a call looks for the names of a lookup.
- `begun_sent`, `take_within`: its fetch sends a request, and takes the reply.
- `callStep_told`, `callStep_absent`: the call is told, and ends or goes by another lookup.
-/

namespace Typeahead.Pool

/-- No call and no fetch is under way, nobody is in line, and nothing is posted. -/
structure Bare (p : Pool) : Prop where
  calls : p.calls = []
  fetches : p.fetches = []
  pending : p.pending = []
  line : p.gate.line = []
  outbox : p.outbox = []

/-- A call is under way, and no fetch. -/
def withCall (p : Pool) (c : Call) : Pool := { p with calls := [c] }

/-- A call is under way, and waits for the fetch of the lookup that it goes by. -/
def withFetch (p : Pool) (n : Nat) (c : Call) (stage : FetchStage) : Pool :=
  { p with
    calls := [{ c with stage := .waiting n }]
    fetches := [{ id := n, lookup := c.current, stage, watchers := [c.id] }]
    pending := [⟨c.current.key p.site, n⟩] }

/-- A slot of the gate is taken. -/
def within (p : Pool) : Pool :=
  { p with gate := { p.gate with free := p.gate.free - 1 }, inFlight := p.inFlight + 1 }

/-- The fetch has sent its request. -/
def sending (p : Pool) (n : Nat) (c : Call) (request : Request) : Pool :=
  ((p.within.withFetch n c .asking).post (.limitSet n)).post (.sent n request)

/-- The fetch has left the gate and ended. -/
def withEnd (p : Pool) (n : Nat) (c : Call) (outcome : Outcome) : Pool :=
  ((p.withFetch n c (.ended outcome)).post (.alarmsOff n)).post (.announceDue n)

/-- The outcome of a fetch whose time limit passes. -/
def timedOut (p : Pool) (l : Lookup) : Outcome := .failed (.catalog (.fetchTimedOut l.dataset p.limit))

/-- The outcome of a fetch by the names in its reply. The names are stored, and a refusal blocks access. -/
def receive (p : Pool) (now : Seconds) (l : Lookup) : Except Failure (List Text) → Outcome × Pool
  | .ok names =>
    match p.cache.set now (l.key p.site) names with
    | .ok cache => (.names names, { p with cache })
    | .error e => (.failed (.cache e), p)
  | .error (.catalog (.refused text)) => (.failed (.catalog (.refused text)), { p with refusal? := some text })
  | .error failure => (.failed failure, p)

/-- Goes on with a call by a lookup for which no other one stands in. -/
def seek (p : Pool) (now : Seconds) (old c : Call) : Pool :=
  match (p.withCall old).look now c with
  | (some outcome, q) => q.endCall c (c.ending outcome)
  | (none, q) => q

variable {p : Pool} {n : Nat} {old c : Call} {now : Seconds} {cache : Cache} {outcome : Outcome}

namespace Bare

theorem withCache (h : p.Bare) (cache : Cache) (nextFetch : Nat) : Bare { p with cache, nextFetch } :=
  ⟨h.calls, h.fetches, h.pending, h.line, h.outbox⟩

theorem receive (h : p.Bare) (now : Seconds) (l : Lookup) (names : Except Failure (List Text)) :
    (p.receive now l names).2.Bare := by
  unfold Pool.receive
  split
  · split
    · exact h.withCache ..
    · exact h
  · exact ⟨h.calls, h.fetches, h.pending, h.line, h.outbox⟩
  · exact h

end Bare

theorem look_withCall_of_hit {e : CacheEntry} (hit : p.cache.get now (c.current.key p.site) = (some e, cache)) :
    (p.withCall old).look now c = (some (.names e.names), ({ p with cache } : Pool).withCall old) := by
  simp [look, withCall, hit]

theorem look_withCall_of_miss (h : p.Bare) (miss : p.cache.get now (c.current.key p.site) = (none, cache))
    (same : old.id = c.id) : (p.withCall old).look now c =
      (none, (({ p with cache, nextFetch := p.nextFetch + 1 } : Pool).withFetch p.nextFetch c .begun).post
        (.fetchDue p.nextFetch)) := by
  simp [look, withCall, miss, registered?, h.pending, beginFetch, h.fetches, post, setCall, withFetch, same]

theorem endCall_withCall (same : old.id = c.id) (outcome : Outcome) : (p.withCall old).endCall c outcome =
    (p.withCall { c with stage := .ended outcome }).post (.callDue c.id) := by
  simp [endCall, setCall, withCall, post, same]

theorem seek_of_hit {e : CacheEntry} (hit : p.cache.get now (c.current.key p.site) = (some e, cache))
    (same : old.id = c.id) : p.seek now old c =
      (({ p with cache } : Pool).withCall { c with stage := .ended (c.ending (.names e.names)) }).post
        (.callDue c.id) := by
  rw [seek, look_withCall_of_hit hit]
  exact endCall_withCall same _

theorem seek_of_miss (h : p.Bare) (miss : p.cache.get now (c.current.key p.site) = (none, cache))
    (same : old.id = c.id) : p.seek now old c =
      (({ p with cache, nextFetch := p.nextFetch + 1 } : Pool).withFetch p.nextFetch c .begun).post
        (.fetchDue p.nextFetch) := by
  rw [seek, look_withCall_of_miss h miss same]

/-! ### The steps of the call -/

theorem callStep_begun (h : p.Bare) (begun : c.stage = .begun) (stays : c.abandoned = false) :
    (p.withCall c).callStep now c.id = p.seek now c c := by
  have begins : (p.withCall c).callStep now c.id = (p.withCall c).beginCall now c := by
    simp [callStep, call?, withCall, begun, stays]
  rw [begins, beginCall, seek]
  cases got : p.cache.get now (c.current.key p.site) with
  | mk hit cache =>
    cases hit with
    | none => rw [look_withCall_of_miss h got rfl]
    | some e =>
      rw [look_withCall_of_hit got]
      rfl

theorem callStep_conclude (told : c.stage = .told outcome) (stays : c.abandoned = false) :
    (p.withCall c).callStep now c.id = (p.withCall c).conclude now c outcome := by
  simp [callStep, call?, withCall, told, stays]

theorem callStep_told (told : c.stage = .told outcome) (stays : c.abandoned = false)
    (last : (if outcome.isAbsent then c.standIn? else none) = none) : (p.withCall c).callStep now c.id =
      (p.withCall { c with stage := .ended (c.ending outcome) }).post (.callDue c.id) := by
  rw [callStep_conclude told stays, conclude, last]
  exact endCall_withCall rfl _

theorem callStep_absent (told : c.stage = .told outcome) (stays : c.abandoned = false)
    (absent : outcome.isAbsent = true) {l : Lookup} (stands : c.standIn? = some l) :
    (p.withCall c).callStep now c.id = p.seek now c { c with current := l } := by
  rw [callStep_conclude told stays, conclude, if_pos absent, stands]
  rfl

theorem callStep_ended (h : p.Bare) (ended : c.stage = .ended outcome) :
    (p.withCall c).callStep now c.id = p.post (.settled c.id (c.resolution outcome)) := by
  simp [callStep, call?, withCall, ended, post, h.calls]

/-! ### The steps of the fetch -/

theorem leave_within (h : p.Bare) (free : p.gate.free ≠ 0) (stage : FetchStage) :
    (p.within.withFetch n c stage).leave n = (p.withFetch n c stage).post (.alarmsOff n) := by
  have back : p.gate.free - 1 + 1 = p.gate.free := by omega
  have gate : ⟨p.gate.free, []⟩ = p.gate := by rw [← h.line]
  simp [leave, withFetch, within, post, releaseSlot, Gate.release, Gate.letIn, h.line, Gate.admitFirst, withGate,
    back, gate]

theorem endFetch_withFetch (stage : FetchStage) (outcome : Outcome) :
    ((p.withFetch n c stage).post (.alarmsOff n)).endFetch n outcome = p.withEnd n c outcome := by
  simp [endFetch, moveFetch, updateFetch, withFetch, withEnd, post]

theorem fetchStep_begun (h : p.Bare) (free : p.gate.free ≠ 0) : (p.withFetch n c .begun).fetchStep now n =
    pass { p.withFetch n c .begun with gate := { p.gate with free := p.gate.free - 1 } }
      { id := n, lookup := c.current, watchers := [c.id] } := by
  simp [fetchStep, fetch?, withFetch, Gate.enter, Gate.isClosed, h.line, free]

/-- Without any time, the fetch is over its limit before it has asked. -/
theorem begun_over (h : p.Bare) (allowed : p.refusal? = none) (free : p.gate.free ≠ 0)
    (spent : p.limit.above 0 = false) :
    (p.withFetch n c .begun).fetchStep now n = (p.within.withFetch n c .overdue).post (.fetchDue n) := by
  rw [fetchStep_begun h free]
  simp [pass, withFetch, allowed, spent, within, moveFetch, updateFetch, post]

theorem begun_slash (h : p.Bare) (allowed : p.refusal? = none) (free : p.gate.free ≠ 0)
    (under : p.limit.above 0 = true) {e : SlashName} (fails : c.current.path p.base = .error e) :
    (p.withFetch n c .begun).fetchStep now n = p.withEnd n c (.failed (.slashName e.name)) := by
  rw [fetchStep_begun h free, ← endFetch_withFetch .begun, ← leave_within h free]
  simp [pass, withFetch, allowed, under, fails, within]

theorem begun_sent (h : p.Bare) (allowed : p.refusal? = none) (free : p.gate.free ≠ 0)
    (under : p.limit.above 0 = true) {path : Path} (fits : c.current.path p.base = .ok path) :
    (p.withFetch n c .begun).fetchStep now n = p.sending n c { path } := by
  rw [fetchStep_begun h free]
  simp [pass, withFetch, allowed, under, fits, within, moveFetch, updateFetch, post, sending]

theorem arrive_asking (reply : Reply) : (p.withFetch n c .asking).arrive n reply =
    (p.withFetch n c (.answered reply)).post (.fetchDue n) := by
  simp [arrive, fetch?, withFetch, post, moveFetch, updateFetch]

theorem arrive_overdue (reply : Reply) :
    (p.withFetch n c .overdue).arrive n reply = p.withFetch n c .overdue := by
  simp [arrive, fetch?, withFetch]

theorem expire_asking : (p.withFetch n c .asking).expire n = (p.withFetch n c .overdue).post (.fetchDue n) := by
  simp [expire, fetch?, withFetch, post, moveFetch, updateFetch]

theorem fetchStep_overdue (h : p.Bare) (free : p.gate.free ≠ 0) :
    (p.within.withFetch n c .overdue).fetchStep now n = p.withEnd n c (p.timedOut c.current) := by
  rw [← endFetch_withFetch .overdue, ← leave_within h free]
  simp [fetchStep, fetch?, withFetch, timedOut, within]

/-- What the fetch makes of its reply, at whatever stage it takes it. -/
theorem take_within (h : p.Bare) (free : p.gate.free ≠ 0) (stage : FetchStage) {path : Path}
    (fits : c.current.path p.base = .ok path) (reply : Reply) :
    (p.within.withFetch n c stage).take now { id := n, lookup := c.current, stage, watchers := [c.id] } reply =
      (p.receive now c.current (reply.names path)).2.withEnd n c
        (p.receive now c.current (reply.names path)).1 := by
  let inside := p.within.withFetch n c stage
  have asked : (c.current.path inside.base).toOption.getD inside.base = path := by
    simp [inside, withFetch, within, fits, Except.toOption]
  simp only [take, asked, inside]
  cases reply.names path with
  | ok names =>
    let left := (p.withFetch n c stage).post (.alarmsOff n)
    rw [leave_within h free]
    cases kept : p.cache.set now (c.current.key p.site) names with
    | ok d =>
      have kept' : left.cache.set now (c.current.key left.site) names = .ok d := kept
      simp only [receive, kept, kept', left]
      exact endFetch_withFetch (p := { p with cache := d }) stage _
    | error e =>
      have kept' : left.cache.set now (c.current.key left.site) names = .error e := kept
      simp only [receive, kept, kept', left]
      exact endFetch_withFetch ..
  | error failure =>
    have failed : ((p.within.withFetch n c stage).leave n).endFetch n (.failed failure) =
        p.withEnd n c (.failed failure) := by
      rw [leave_within h free, endFetch_withFetch]
    cases failure with
    | catalog error =>
      cases error with
      | refused text =>
        -- The fetch is the only one, so the refusal stops no other.
        have others : (inside.pending.map (·.fetch)).filter (· != n) = [] := by simp [inside, withFetch]
        have bare : Bare { p with refusal? := some text } := ⟨h.calls, h.fetches, h.pending, h.line, h.outbox⟩
        simp only [inside] at others
        simp only [others, stopFetches, List.foldl]
        exact (congrArg (endFetch · n _) (leave_within bare free stage)).trans (endFetch_withFetch ..)
      | _ => exact failed
    | _ => exact failed

theorem fetchStep_answered (h : p.Bare) (free : p.gate.free ≠ 0) {path : Path}
    (fits : c.current.path p.base = .ok path) (reply : Reply) :
    (p.within.withFetch n c (.answered reply)).fetchStep now n =
      (p.receive now c.current (reply.names path)).2.withEnd n c
        (p.receive now c.current (reply.names path)).1 := by
  rw [← take_within h free (.answered reply) fits]
  simp [fetchStep, fetch?, withFetch]

theorem arriveAtOnce_asking (h : p.Bare) (free : p.gate.free ≠ 0) {path : Path}
    (fits : c.current.path p.base = .ok path) (reply : Reply) :
    (p.within.withFetch n c .asking).arriveAtOnce now n reply =
      (p.receive now c.current (reply.names path)).2.withEnd n c
        (p.receive now c.current (reply.names path)).1 := by
  rw [← take_within h free .asking fits]
  simp [arriveAtOnce, fetch?, withFetch]

theorem announce_ended (h : p.Bare) (outcome : Outcome) : (p.withFetch n c (.ended outcome)).announce n =
    (p.withCall { c with stage := .told outcome }).post (.callDue c.id) := by
  simp [announce, fetch?, withFetch, forget, registered?, tell, call?, setCall, post, withCall, h.fetches,
    h.pending]

end Typeahead.Pool
