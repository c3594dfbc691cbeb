import Typeahead.Agenda
import Typeahead.Fetch.Work
import Typeahead.Menu
import Typeahead.Script

/-!
A rehearsal: the pool of fetches and the menu run against a scripted catalog on a clock of their own.
Steps that become due are taken in the order in which they became due, and the clock moves only when
nothing is due. So a rehearsal is one of the runs of the pool and the menu, always the same one.
-/

namespace Typeahead

/-- What can be due in a rehearsal. -/
inductive Job where
  | fetch (id : Nat)
  | announce (id : Nat)
  | call (id : Nat)
  | limit (fetch : Nat)
  | reply (fetch : Nat) (reply : Reply)
  | pause (round : Round)
  | pauseAlarm (round : Round)
  | pauseOver (round : Round)
  | load (round : Round)

namespace Job

/-- Whether a job is an alarm of a fetch. -/
def isAlarmOf (fetch : Nat) : Job → Bool
  | .limit id | .reply id _ => id = fetch
  | _ => false

/-- The work of a job: to do it, and what comes of it that is not counted elsewhere. A round that loads
begins a call; before that it pauses. -/
def work : Job → Nat
  | .fetch _ | .announce _ | .call _ | .limit _ | .reply _ _ => 1
  | .load _ => 25
  | .pauseOver _ => 26
  | .pauseAlarm _ => 27
  | .pause _ => 29

end Job

/-- A round that is loading, and the call it waits for. -/
structure Loading where
  round : Round
  call? : Option Nat

/-- A rehearsal. `requests` and `settled` hold what was sent and which calls ended since they were last
collected. The cache keeps time by the clock of the rehearsal, or by one of its own that stands still. -/
structure Rehearsal where
  agenda : Agenda Job
  pool : Pool
  script : Script
  menu : Menu
  pauseSpan : Seconds
  itemLimit : Int
  cacheStands? : Option Seconds := none
  nextCall : Nat := 0
  loading : List Loading := []
  requests : List Request := []
  settled : List (Nat × Resolution) := []

namespace Rehearsal

/-- The time. -/
def now (w : Rehearsal) : Seconds := w.agenda.now

/-- The time by the clock of the cache. -/
def cacheTime (w : Rehearsal) : Seconds := w.cacheStands?.getD w.now

/-- Makes a job due. -/
def soon (w : Rehearsal) (job : Job) : Rehearsal := { w with agenda := w.agenda.soon job }

/-- Sets an alarm. -/
def alarm (w : Rehearsal) (span : Seconds) (job : Job) : Rehearsal :=
  { w with agenda := w.agenda.after span job }

/-- Records a request and takes its arrival from the script. -/
def send (w : Rehearsal) (request : Request) : Arrival × Rehearsal :=
  let (arrival, script) := w.script.take request.route
  (arrival, { w with script, requests := w.requests ++ [request] })

/-- Ends the loading of a round. -/
def finishRound (w : Rehearsal) (round : Round) (resolution : Resolution) : Rehearsal :=
  let loading := w.loading.filter fun l => l.round.id != round.id
  let result? : Option RoundResult := match resolution with
    | .done findings =>
      some (.loaded (.of w.menu.language round.text round.cursor w.itemLimit findings))
    | .failed failure => some (.failed failure)
    | .cancelled => none
  match result? with
  | some result => { w with loading, menu := w.menu.finish round.id result }
  | none => { w with loading }

/-- Passes the end of a call on to the round that waits for it, or keeps it to be collected. -/
def settle (w : Rehearsal) (call : Nat) (resolution : Resolution) : Rehearsal :=
  match w.loading.find? fun l => l.call? = some call with
  | some l => w.finishRound l.round resolution
  | none => { w with settled := w.settled ++ [(call, resolution)] }

/-- Acts on a signal of the pool. -/
def act (w : Rehearsal) : Signal → Rehearsal
  | .fetchDue id => w.soon (.fetch id)
  | .announceDue id => w.soon (.announce id)
  | .callDue id => w.soon (.call id)
  | .limitSet id =>
    match w.pool.limit.value? with
    | some span => w.alarm span (.limit id)
    | none => w
  | .sent id request =>
    match w.send request with
    | (.never, w) => w
    | (.after span reply, w) =>
      if 0 < span then w.alarm span (.reply id reply)
      else { w with pool := w.pool.arriveAtOnce w.cacheTime id reply }
  | .alarmsOff id => { w with agenda := w.agenda.drop (Job.isAlarmOf id) }
  | .settled call resolution => w.settle call resolution

/-- Acts on the signals in the outbox of the pool, and on those that come of it. -/
def flush : Nat → Rehearsal → Rehearsal
  | 0, w => w
  | fuel + 1, w =>
    if w.pool.outbox.isEmpty then w
    else flush fuel (w.pool.outbox.foldl act { w with pool := { w.pool with outbox := [] } })

/-- Changes the pool. A reply that is there at once is the only thing that posts signals anew. -/
def withPool (w : Rehearsal) (pool : Pool) : Rehearsal := flush 3 { w with pool }

/-- Begins a call; gives its number, and its end if it ends at once. -/
def openCall (w : Rehearsal) (context : Context) : Nat × Option Resolution × Rehearsal :=
  let id := w.nextCall
  let (resolution, pool) := w.pool.openCall id context
  (id, resolution, { w with nextCall := id + 1 }.withPool pool)

/-- A round begins to load. -/
def loadRound (w : Rehearsal) (round : Round) : Rehearsal :=
  match w.menu.load? round.id with
  | none => { w with loading := w.loading.filter fun l => l.round.id != round.id }
  | some menu =>
    let w := { w with menu }
    let (id, resolution, w) := w.openCall (contextOf menu.language round.text round.cursor)
    match resolution with
    | some resolution => w.finishRound round resolution
    | none =>
      { w with
        loading := w.loading.map fun l =>
          if l.round.id = round.id then { l with call? := some id } else l }

/-- Does a job. -/
def run (w : Rehearsal) : Job → Rehearsal
  | .fetch id => w.withPool (w.pool.fetchStep w.cacheTime id)
  | .announce id => w.withPool (w.pool.announce id)
  | .call id => w.withPool (w.pool.callStep w.cacheTime id)
  | .limit id => w.withPool (w.pool.expire id)
  | .reply id reply => w.withPool (w.pool.arrive id reply)
  | .pause round =>
    if 0 < w.pauseSpan then w.alarm w.pauseSpan (.pauseAlarm round) else w.soon (.pauseOver round)
  | .pauseAlarm round => w.soon (.pauseOver round)
  | .pauseOver round =>
    let (goesOn, menu) := w.menu.pauseOver round.id
    let w := { w with menu }
    if goesOn then
      ({ w with loading := w.loading ++ [{ round, call? := none }] } : Rehearsal).soon (.load round)
    else w
  | .load round => w.loadRound round

/-- The work that is left: a bound on the steps until nothing is due and no alarm is set. -/
def work (w : Rehearsal) : Nat := w.agenda.work Job.work + w.pool.work

/-- More steps than there is work, each of which takes some of it away. -/
def patience (w : Rehearsal) : Nat := w.work + 1

/-- Does what is due, and lets the clock jump while `stop` does not hold, up to `limit`. -/
def runUntil (stop : Rehearsal → Bool) (limit : Option Seconds) : Nat → Rehearsal → Rehearsal
  | 0, w => w
  | fuel + 1, w =>
    match w.agenda.next? with
    | some (job, agenda) => runUntil stop limit fuel ({ w with agenda }.run job)
    | none =>
      if stop w then w
      else match w.agenda.jump? limit with
        | some agenda => runUntil stop limit fuel { w with agenda }
        | none => w

/-- Does what is due now. -/
def drain (w : Rehearsal) : Rehearsal := runUntil (fun _ => true) none w.patience w

/-- Lets time pass. -/
def advance (w : Rehearsal) (span : Seconds) : Rehearsal :=
  if span ≤ 0 then w.drain
  else
    let target := w.now + span
    let w := runUntil (fun _ => false) (some target) w.patience w
    { w with agenda := { w.agenda with now := target } }.drain

/-- Lets time pass until a condition holds, or nothing more can happen. -/
def waitFor (w : Rehearsal) (stop : Rehearsal → Bool) : Rehearsal := runUntil stop none w.patience w

/-- Whether the end of a call is there to be collected. -/
def hasSettled (call : Nat) (w : Rehearsal) : Bool := w.settled.any fun s => s.1 = call

/-- Takes the end of a call out of those to be collected. -/
def collect (w : Rehearsal) (call : Nat) : Option Resolution × Rehearsal :=
  (w.settled.lookup call, { w with settled := w.settled.filter fun s => s.1 != call })

/-- Asks for the names of a context and waits for the end. -/
def resolve (w : Rehearsal) (context : Context) : Option Resolution × Rehearsal :=
  match w.openCall context with
  | (_, some resolution, w) => (some resolution, w.drain)
  | (id, none, w) => (w.waitFor (hasSettled id)).collect id

/-- Begins to ask for the names of a context; gives the number of the call. -/
def start (w : Rehearsal) (context : Context) : Nat × Rehearsal :=
  match w.openCall context with
  | (id, some resolution, w) => (id, { w with settled := w.settled ++ [(id, resolution)] }.drain)
  | (id, none, w) => (id, w.drain)

/-- The caller of a call gives up; tells whether it was still waiting. -/
def abandon (w : Rehearsal) (call : Nat) : Bool × Rehearsal :=
  let waits := (w.pool.call? call).isSome
  (waits, (w.withPool (w.pool.abandon call)).drain)

/-- Asks the catalog to complete, waiting for its reply; no reply ever comes from one that hangs. -/
def complete (w : Rehearsal) (order : CompletionOrder) :
    Option (Except Failure Completion) × Rehearsal :=
  match w.pool.base.completion with
  | .error e => (some (.error (.slashName e.name)), w)
  | .ok path =>
    match w.send { path, body? := some order.body } with
    | (.never, w) => (none, w)
    | (.after span reply, w) => (some (reply.completion path), w.advance span)

/-- Fetches the names of a lookup straight from the catalog, waiting for its reply. -/
def fetch (w : Rehearsal) (lookup : Lookup) : Option (Except Failure (List Text)) × Rehearsal :=
  match lookup.path w.pool.base with
  | .error e => (some (.error (.slashName e.name)), w)
  | .ok path =>
    match w.send { path } with
    | (.never, w) => (none, w)
    | (.after span reply, w) => (some (reply.names path), w.advance span)

/-- Suggests for a query at a cursor. -/
def suggest (w : Rehearsal) (language : Language) (query : Text) (cursor : Int) :
    Option (Except Failure Suggestions) × Rehearsal :=
  match w.resolve (contextOf language query cursor) with
  | (some (.done findings), w) => (some (.ok (.of language query cursor w.itemLimit findings)), w)
  | (some (.failed failure), w) => (some (.error failure), w)
  | (_, w) => (none, w)

/-- Accepts an item in a query, asking the catalog first if it is to complete. -/
def replace (w : Rehearsal) (language : Language) (query : Text) (cursor : Int) (item : Item)
    (delegates : Bool) : Option (Except Failure Edit) × Rehearsal :=
  let context := contextOf language query cursor
  if delegates then
    match w.complete (completionOrder query cursor item) with
    | (some answer, w) => (some (resolveEdit query cursor item context answer), w)
    | (none, w) => (none, w)
  else (some (.ok (Edit.accept query cursor item context)), w)

/-- Stops all fetches and waits until they have ended. -/
def cancelPending (w : Rehearsal) : Rehearsal := (w.withPool w.pool.cancelPending).drain

/-- Whether the menu has nothing more to wait for. -/
def isQuiet (w : Rehearsal) : Bool := w.menu.pending?.isNone && w.loading.isEmpty

/-- Puts a menu in place that was acted upon. If it began a round, the pause of the round begins. -/
def withMenu (w : Rehearsal) (menu : Menu) : Rehearsal :=
  let began := menu.pending?.filter fun r => w.menu.pending? != some r
  let w := { w with menu }
  match began with
  | some round => (w.soon (.pause round)).drain
  | none => w.drain

/-- Waits until the menu has nothing more to wait for. -/
def settleMenu (w : Rehearsal) : Rehearsal := w.waitFor isQuiet

end Rehearsal

end Typeahead
