import Typeahead.Catalog.Reply
import Typeahead.Fetch.Gate
import Typeahead.Logs.Vocabulary

/-!
The pool of fetches. A call asks for the names of a context. Names in the cache are served at once; else
the call waits for the fetch of its key, which is begun if there is none, so that calls for one key share
a fetch. A bounded number of fetches ask the catalog at a time. A refusal by the catalog blocks all
access until it is lifted, and stops the other fetches.

Everything happens in small steps, each a function on the pool: a fetch or a call takes its next step, a
reply arrives, a time limit passes, someone gives up. What a step makes due is posted in the outbox, in
order; who runs the pool decides when it is done. Nothing here depends on that order.
-/

namespace Typeahead

/-- How a fetch or a call ends: with names, with a failure, or stopped from outside. -/
inductive Outcome where
  | names (names : List Text)
  | failed (failure : Failure)
  | stopped
  deriving DecidableEq

/-- Whether the catalog does not know the names. -/
def Outcome.isAbsent : Outcome → Bool
  | .failed (.catalog error) => error.kind = .notFound
  | _ => false

/-- Where a fetch is: before its first step, in the line at the gate, handed a slot there, asking the
catalog, holding the reply, over its time limit, or at its end. -/
inductive FetchStage where
  | begun
  | queued
  | admitted
  | asking
  | answered (reply : Reply)
  | overdue
  | ended (outcome : Outcome)

/-- A fetch, and the calls that wait for it in the order in which they came. A fetch that was told to
stop ends with its next step. -/
structure Fetch where
  id : Nat
  lookup : Lookup
  stage : FetchStage := .begun
  stopping : Bool := false
  watchers : List Nat := []

/-- Where a call is: before its first step, waiting for a fetch, told how that ended, or at its end. -/
inductive CallStage where
  | begun
  | waiting (fetch : Nat)
  | told (outcome : Outcome)
  | ended (outcome : Outcome)
  deriving DecidableEq

/-- A call: the lookup that is wanted, and the lookup that it goes by now. A caller who gave up makes
the call end with its next step. -/
structure Call where
  id : Nat
  wanted : Lookup
  current : Lookup
  stage : CallStage := .begun
  abandoned : Bool := false
  deriving DecidableEq

/-- Why a call has no names although nobody is to blame for it. -/
inductive Trouble where
  | error (error : CatalogError)
  | stopped
  deriving DecidableEq

/-- The wording of a trouble. -/
def Trouble.message : Trouble → String
  | .error e => e.message
  | .stopped => "Request cancelled"

/-- What a call found: nothing because nothing was to be asked, names, or trouble. -/
inductive Findings where
  | nothing
  | names (dataset : Dataset) (names : List Text)
  | trouble (dataset : Dataset) (trouble : Trouble)
  deriving DecidableEq

namespace Findings

/-- The names that were found. -/
def candidates : Findings → Candidates
  | .names dataset found => .only dataset found
  | _ => .none

/-- The troubles by dataset. -/
def errors : Findings → List (Dataset × String)
  | .trouble dataset t => [(dataset, t.message)]
  | _ => []

end Findings

/-- How a call ends for its caller. -/
inductive Resolution where
  | done (findings : Findings)
  | failed (failure : Failure)
  | cancelled
  deriving DecidableEq

/-- What a step of the pool makes due. -/
inductive Signal where
  | fetchDue (fetch : Nat)
  | announceDue (fetch : Nat)
  | callDue (call : Nat)
  | limitSet (fetch : Nat)
  | sent (fetch : Nat) (request : Request)
  | alarmsOff (fetch : Nat)
  | settled (call : Nat) (resolution : Resolution)

/-- A fetch that is registered under the key of its names; calls for the key share it. -/
structure Registration where
  key : Text
  fetch : Nat
  deriving DecidableEq

/-- The pool. A fetch is one of `fetches` until its end has been announced, and calls find it as long as
it is `pending`. -/
structure Pool where
  site : Text
  base : Path
  limit : Number
  cache : Cache
  gate : Gate
  inFlight : Nat := 0
  refusal? : Option Text := none
  fetches : List Fetch := []
  pending : List Registration := []
  calls : List Call := []
  nextFetch : Nat := 0
  outbox : List Signal := []

/-- Why no pool can be set up. -/
inductive PoolError where
  | cache (error : CacheError)
  | negativeSlots
  deriving DecidableEq

/-- The wording of a refusal to set up a pool. -/
def PoolError.message : PoolError → String
  | .cache e => e.message
  | .negativeSlots => "Semaphore initial value must be >= 0"

/-- What can be told about a pool from outside. -/
structure PoolStats where
  inFlight : Nat
  pending : Nat
  cached : Nat
  ttl : Seconds
  blocked : Bool
  deriving DecidableEq

namespace Call

/-- The answer of a call from the names of its current lookup. Tags stand in for the values of a key. -/
def answer (c : Call) (names : List Text) : List Text :=
  match c.wanted.dataset, c.wanted.scope with
  | .tagValues, [_, key] => if c.current = c.wanted then names else tagValues names key
  | _, _ => names

/-- The lookup that stands in where the catalog does not know the wanted one. -/
def standIn? (c : Call) : Option Lookup :=
  match c.wanted.dataset, c.wanted.scope with
  | .tagValues, [metric, _] =>
    if c.current = c.wanted then some { dataset := .tags, scope := [metric] } else none
  | _, _ => none

/-- How a call ends with the outcome of its current lookup, where no other lookup stands in. For the
fields of logs the known facets stand in. -/
def ending (c : Call) (outcome : Outcome) : Outcome :=
  match outcome with
  | .names names => .names (c.answer names)
  | .failed (.catalog error) =>
    if error.kind = .notFound then
      if c.wanted.dataset = .fields then .names Logs.defaultFacets
      else .failed (.catalog (.noNames c.current))
    else outcome
  | .failed _ | .stopped => outcome

/-- How an ended call ends for its caller. -/
def resolution (c : Call) (outcome : Outcome) : Resolution :=
  if c.abandoned then .cancelled
  else match outcome with
    | .names names => .done (.names c.wanted.dataset names)
    | .failed (.catalog error) =>
      if error.kind = .unauthorized then .failed (.catalog error)
      else .done (.trouble c.wanted.dataset (.error error))
    | .failed failure => .failed failure
    | .stopped => .done (.trouble c.wanted.dataset .stopped)

end Call

namespace Pool

/-- A new pool. -/
def create (site : Text) (base : Path) (ttl : Seconds) (size slots : Int) (limit : Number) :
    Except PoolError Pool := do
  let cache ← (Cache.create ttl size).mapError .cache
  if slots < 0 then .error .negativeSlots
  else return { site, base, limit, cache, gate := { free := slots.toNat } }

/-- What can be told about the pool. -/
def stats (p : Pool) (now : Seconds) : PoolStats where
  inFlight := p.inFlight
  pending := p.pending.length
  cached := p.cache.count now
  ttl := p.cache.ttl
  blocked := p.refusal?.isSome

/-- Posts a signal. -/
def post (p : Pool) (s : Signal) : Pool := { p with outbox := p.outbox ++ [s] }

/-- The fetch of a number. -/
def fetch? (p : Pool) (id : Nat) : Option Fetch := p.fetches.find? fun f => f.id = id

/-- The fetch that is registered under a key. -/
def registered? (p : Pool) (key : Text) : Option Nat :=
  (p.pending.find? fun r => r.key = key).map (·.fetch)

/-- How a fetch ended, if it has. -/
def outcome? (p : Pool) (id : Nat) : Option Outcome :=
  match p.fetch? id with
  | some { stage := .ended outcome, .. } => some outcome
  | _ => none

/-- The call of a number. -/
def call? (p : Pool) (id : Nat) : Option Call := p.calls.find? fun c => c.id = id

/-- Changes a fetch. -/
def updateFetch (p : Pool) (id : Nat) (change : Fetch → Fetch) : Pool :=
  { p with fetches := p.fetches.map fun f => if f.id = id then change f else f }

/-- Puts a call in the place of the one of its number. -/
def setCall (p : Pool) (call : Call) : Pool :=
  { p with calls := p.calls.map fun c => if c.id = call.id then call else c }

/-- Moves a fetch to a stage. -/
def moveFetch (p : Pool) (id : Nat) (stage : FetchStage) : Pool :=
  p.updateFetch id fun f => { f with stage }

/-- Ends a fetch; its end is yet to be announced. -/
def endFetch (p : Pool) (id : Nat) (outcome : Outcome) : Pool :=
  (p.moveFetch id (.ended outcome)).post (.announceDue id)

/-- Ends a call; its caller is yet to go on. -/
def endCall (p : Pool) (call : Call) (outcome : Outcome) : Pool :=
  (p.setCall { call with stage := .ended outcome }).post (.callDue call.id)

/-- Puts a gate in place and makes those due who were handed a slot. -/
def withGate (p : Pool) (admitted : List Nat) (gate : Gate) : Pool :=
  admitted.foldl (fun p id => (p.moveFetch id .admitted).post (.fetchDue id)) { p with gate }

/-- Gives a slot of the gate back. -/
def releaseSlot (p : Pool) : Pool :=
  let (admitted, gate) := p.gate.release
  p.withGate admitted.toList gate

/-- Ends the stay of a fetch behind the gate. -/
def leave (p : Pool) (id : Nat) : Pool :=
  ({ p with inFlight := p.inFlight - 1 }.post (.alarmsOff id)).releaseSlot

/-- Takes a fetch out of the line at the gate; an unused slot goes on to others. -/
def leaveLine (p : Pool) (id : Nat) (unused : Bool) : Pool :=
  let gate := p.gate.remove id
  let (admitted, gate) := { gate with free := gate.free + if unused then 1 else 0 }.admitAll
  p.withGate admitted gate

/-- Tells a fetch to stop. If it waits for something its next step becomes due. -/
def stopFetch (p : Pool) (id : Nat) : Pool :=
  match p.fetch? id with
  | none => p
  | some f =>
    let stopped := p.updateFetch id fun f => { f with stopping := true }
    match f.stage, f.stopping with
    | .ended _, _ | _, true => p
    | .queued, false =>
      ({ stopped with gate := p.gate.mark id .gone } : Pool).post (.fetchDue id)
    | .asking, false => (stopped.post (.alarmsOff id)).post (.fetchDue id)
    | _, false => stopped

/-- Tells fetches to stop, one after the other. -/
def stopFetches (p : Pool) (ids : List Nat) : Pool := ids.foldl stopFetch p

/-- Sends the request of a fetch that has a slot, unless access is blocked. -/
def pass (p : Pool) (f : Fetch) : Pool :=
  match p.refusal? with
  | some reply => p.releaseSlot.endFetch f.id (.failed (.catalog (.blocked reply)))
  | none =>
    let p := { p with inFlight := p.inFlight + 1 }
    if !p.limit.above 0 then (p.moveFetch f.id .overdue).post (.fetchDue f.id)
    else match f.lookup.path p.base with
      | .error e => (p.leave f.id).endFetch f.id (.failed (.slashName e.name))
      | .ok path =>
        ((p.moveFetch f.id .asking).post (.limitSet f.id)).post (.sent f.id { path })

/-- Takes the reply to the request of a fetch. -/
def take (p : Pool) (now : Seconds) (f : Fetch) (reply : Reply) : Pool :=
  let path := (f.lookup.path p.base).toOption.getD p.base
  match reply.names path with
  | .ok names =>
    let p := p.leave f.id
    match p.cache.set now (f.lookup.key p.site) names with
    | .ok cache => { p with cache }.endFetch f.id (.names names)
    | .error e => p.endFetch f.id (.failed (.cache e))
  | .error (.catalog (.refused text)) =>
    let others := (p.pending.map (·.fetch)).filter (· != f.id)
    (({ p with refusal? := some text }.stopFetches others).leave f.id).endFetch f.id
      (.failed (.catalog (.refused text)))
  | .error failure => (p.leave f.id).endFetch f.id (.failed failure)

/-- The next step of a fetch. -/
def fetchStep (p : Pool) (now : Seconds) (id : Nat) : Pool :=
  match p.fetch? id with
  | none => p
  | some f =>
    match f.stage, f.stopping with
    | .begun, true => p.endFetch id .stopped
    | .begun, false =>
      let (entered, gate) := p.gate.enter id
      if entered then { p with gate }.pass f else { p with gate }.moveFetch id .queued
    | .queued, true => (p.leaveLine id false).endFetch id .stopped
    | .admitted, true => (p.leaveLine id true).endFetch id .stopped
    | .admitted, false => (p.leaveLine id false).pass f
    | .asking, true | .answered _, true | .overdue, true => (p.leave id).endFetch id .stopped
    | .answered reply, false => p.take now f reply
    | .overdue, false =>
      (p.leave id).endFetch id (.failed (.catalog (.fetchTimedOut f.lookup.dataset p.limit)))
    | .queued, false | .asking, false | .ended _, _ => p

/-- The reply to the request of a fetch arrives. -/
def arrive (p : Pool) (id : Nat) (reply : Reply) : Pool :=
  match p.fetch? id with
  | some { stage := .asking, stopping := false, .. } =>
    (p.moveFetch id (.answered reply)).post (.fetchDue id)
  | _ => p

/-- The reply to the request of a fetch is there as soon as it is sent. -/
def arriveAtOnce (p : Pool) (now : Seconds) (id : Nat) (reply : Reply) : Pool :=
  match p.fetch? id with
  | some f =>
    match f.stage, f.stopping with
    | .asking, false => p.take now f reply
    | _, _ => p
  | none => p

/-- The time limit of a fetch passes. -/
def expire (p : Pool) (id : Nat) : Pool :=
  match p.fetch? id with
  | some { stage := .asking, stopping := false, .. } =>
    (p.moveFetch id .overdue).post (.fetchDue id)
  | some { stage := .answered _, stopping := false, .. } => p.moveFetch id .overdue
  | _ => p

/-- Takes a fetch off the register. -/
def forget (p : Pool) (f : Fetch) : Pool :=
  let key := f.lookup.key p.site
  if p.registered? key = some f.id then
    { p with pending := p.pending.filter fun r => r.key != key }
  else p

/-- Tells a call how the fetch ended that it waits for. -/
def tell (outcome : Outcome) (p : Pool) (id : Nat) : Pool :=
  match p.call? id with
  | some c => (p.setCall { c with stage := .told outcome }).post (.callDue id)
  | none => p

/-- Announces the end of a fetch: it leaves the pool, and the calls that wait for it are told. -/
def announce (p : Pool) (id : Nat) : Pool :=
  match p.fetch? id with
  | some f =>
    match f.stage with
    | .ended outcome =>
      let p := p.forget f
      f.watchers.foldl (tell outcome) { p with fetches := p.fetches.filter fun f => f.id != id }
    | _ => p
  | none => p

/-- Makes a call wait for a fetch. -/
def join (p : Pool) (call : Call) (id : Nat) : Pool :=
  (p.updateFetch id fun f => { f with watchers := f.watchers ++ [call.id] }).setCall
    { call with stage := .waiting id }

/-- Begins a fetch for a call. -/
def beginFetch (p : Pool) (call : Call) : Pool :=
  let id := p.nextFetch
  let fetches := p.fetches ++ [{ id, lookup := call.current, watchers := [call.id] }]
  let pending := p.pending ++ [⟨call.current.key p.site, id⟩]
  (({ p with fetches, pending, nextFetch := id + 1 } : Pool).post (.fetchDue id)).setCall
    { call with stage := .waiting id }

/-- Looks for the names of a call: in the cache, or else by the fetch of its key. Gives what there is to
know at once; a fetch that has ended but is still registered is as good as one that ends now. -/
def look (p : Pool) (now : Seconds) (call : Call) : Option Outcome × Pool :=
  let key := call.current.key p.site
  let (hit, cache) := p.cache.get now key
  let p := { p with cache }
  match hit, p.registered? key with
  | some entry, _ => (some (.names entry.names), p)
  | none, none => (none, p.beginFetch call)
  | none, some id =>
    match p.outcome? id with
    | some outcome => (some outcome, p)
    | none => (none, p.join call id)

/-- Goes on with a call by the outcome of its lookup. Where the catalog does not know the names, tags
stand in for the values of a key. -/
def conclude (p : Pool) (now : Seconds) (call : Call) (outcome : Outcome) : Pool :=
  match if outcome.isAbsent then call.standIn? else none with
  | none => p.endCall call (call.ending outcome)
  | some lookup =>
    let call := { call with current := lookup }
    match p.look now call with
    | (some outcome, p) => p.endCall call (call.ending outcome)
    | (none, p) => p

/-- The first step of a call. -/
def beginCall (p : Pool) (now : Seconds) (call : Call) : Pool :=
  match p.look now call with
  | (some outcome, p) => p.conclude now call outcome
  | (none, p) => p

/-- The next step of a call. -/
def callStep (p : Pool) (now : Seconds) (id : Nat) : Pool :=
  match p.call? id with
  | none => p
  | some c =>
    match c.stage, c.abandoned with
    | .ended outcome, _ =>
      ({ p with calls := p.calls.filter fun x => x.id != id } : Pool).post
        (.settled id (c.resolution outcome))
    | _, true => p.endCall c .stopped
    | .begun, false => p.beginCall now c
    | .told outcome, false => p.conclude now c outcome
    | .waiting _, false => p

/-- Begins a call for the names of a context. It ends at once if the context calls for none, or if
access is blocked. -/
def openCall (p : Pool) (id : Nat) (context : Context) : Option Resolution × Pool :=
  match context.lookup? with
  | none => (some (.done .nothing), p)
  | some lookup =>
    match p.refusal? with
    | some reply => (some (.failed (.catalog (.blocked reply))), p)
    | none =>
      let calls := p.calls ++ [{ id, wanted := lookup, current := lookup }]
      (none, ({ p with calls } : Pool).post (.callDue id))

/-- The caller of a call gives up. The fetch that the call waits for goes on. -/
def abandon (p : Pool) (id : Nat) : Pool :=
  match p.call? id with
  | none => p
  | some c =>
    let p := p.setCall { c with abandoned := true }
    match c.stage, c.abandoned with
    | .waiting fetch, false =>
      (p.updateFetch fetch fun f =>
        { f with watchers := f.watchers.filter (· != id) }).post (.callDue id)
    | _, _ => p

/-- Stops every fetch that is registered. -/
def cancelPending (p : Pool) : Pool := p.stopFetches (p.pending.map (·.fetch))

/-- Drops the cached names. -/
def clearCache (p : Pool) : Pool := { p with cache := p.cache.clear }

/-- Changes the time to live of cached names. -/
def setTtl? (p : Pool) (now ttl : Seconds) (given : Number) : Except CacheError Pool :=
  (p.cache.setTtl? now ttl given).map fun cache => { p with cache }

/-- Lifts a block. -/
def resetAuth (p : Pool) : Pool := { p with refusal? := none }

end Pool

end Typeahead
