import Typeahead.Rehearsal
import Typeahead.Service.Answer
import Typeahead.Settings

/-!
The service: requests are answered one after the other, over a pool of fetches and a catalog that
completes if the settings say so. Suggestions and completions count the cursor in UTF-16 code units and
in code points inside. The time that passes between requests is that of the fetches; the cache of a
service keeps time by the clock of the machine, which stands still meanwhile.
-/

namespace Typeahead

/-- A service. -/
structure Service where
  rehearsal : Rehearsal
  delegates : Bool

namespace Service

/-- The time at which a service starts. -/
def start : Seconds := 1000

/-- The finite value of a number of the settings. -/
def seconds (n : Number) : Seconds := n.value?.getD 0

/-- A service with settings, over a scripted catalog. -/
def create (settings : Settings) (script : Script) : Except Failure Service := do
  let base ← (Path.catalog settings.catalog.url).mapError fun e => .slashName e.name
  let fetch := settings.fetch
  let pool ← (Pool.create settings.catalog.site base (seconds fetch.ttl) fetch.cacheSize fetch.slots
    fetch.limit).mapError fun e => .fault e.message.toList
  return {
    delegates := settings.catalog.delegates
    rehearsal := {
      agenda := { now := start }, cacheStands? := some start, pool, script, menu := { language := .metrics }
      pauseSpan := seconds settings.menu.pause, itemLimit := settings.menu.itemLimit } }

/-- The service after something happened to its rehearsal. -/
def withRehearsal (s : Service) (rehearsal : Rehearsal) : Service := { s with rehearsal }

/-- Lets time pass. -/
def advance (s : Service) (span : Seconds) : Service := s.withRehearsal (s.rehearsal.advance span)

/-- The state of the cache and the fetches. -/
def stats (s : Service) : PoolStats := s.rehearsal.pool.stats s.rehearsal.cacheTime

/-- Answers a form for suggestions. There is no answer if the catalog is waited for without end. -/
def suggest (s : Service) (target : Text) (form : SuggestForm) : Option Answer × Service :=
  let cursor := Text.ofUnits form.query form.cursor
  let (result, rehearsal) := s.rehearsal.suggest form.language form.query cursor
  let answer := result.map fun
    | .ok suggestions => .found suggestions.document
    | .error failure => failure.answer target
  (answer, s.withRehearsal rehearsal)

/-- Answers a form for a completion. There is no answer if the catalog is waited for without end. -/
def complete (s : Service) (target : Text) (form : CompleteForm) : Option Answer × Service :=
  let cursor := Text.ofUnits form.query form.cursor
  let (result, rehearsal) :=
    s.rehearsal.replace form.language form.query cursor form.item s.delegates
  let answer := result.map fun
    | .ok edit => .found edit.document
    | .error failure => failure.answer target
  (answer, s.withRehearsal rehearsal)

/-- Answers a form for a change of the cache. -/
def changeCache (s : Service) (target : Text) (form : CacheForm) : Answer × Service :=
  let given := Number.real (.finite form.ttl)
  match s.rehearsal.pool.setTtl? s.rehearsal.cacheTime form.ttl given with
  | .ok pool =>
    let s := s.withRehearsal (s.rehearsal.withPool pool)
    (.found s.stats.document, s)
  | .error e => (Failure.answer target (.cache e), s)

/-- Drops what is cached, and lifts a refusal of the catalog. -/
def dropCache (s : Service) : Service :=
  s.withRehearsal (s.rehearsal.withPool s.rehearsal.pool.clearCache.resetAuth)

/-- Answers a request to an endpoint. -/
def answerAt (s : Service) (r : Submission) : Endpoint → Option Answer × Service
  | .ping => (some ⟨200, .note "Pong"⟩, s)
  | .suggest =>
    match SuggestForm.ofSubmission r with
    | .ok form => s.suggest r.target form
    | .error fault => (some fault.answer, s)
  | .complete =>
    match CompleteForm.ofSubmission r with
    | .ok form => s.complete r.target form
    | .error fault => (some fault.answer, s)
  | .readCache => (some (.found s.stats.document), s)
  | .changeCache =>
    match CacheForm.ofSubmission r with
    | .ok form =>
      let (answer, s) := s.changeCache r.target form
      (some answer, s)
    | .error fault => (some fault.answer, s)
  | .dropCache => (some ⟨204, .nothing⟩, s.dropCache)

/-- Answers a request. -/
def serve (s : Service) (r : Submission) : Option Answer × Service :=
  match Endpoint.find r.method r.target with
  | .ok endpoint => s.answerAt r endpoint
  | .error fault => (some fault.answer, s)

end Service

end Typeahead
