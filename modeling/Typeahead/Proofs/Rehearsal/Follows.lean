import Mathlib.Data.List.TakeWhile
import Typeahead.Proofs.Menu.OpenMenu
import Typeahead.Proofs.Menu.Pauses
import Typeahead.Proofs.Rehearsal.Agenda
import Typeahead.Rehearsal

/-!
A rehearsal beside a session by the clock. The agenda of the rehearsal holds the pauses and the rounds that go on, as
the session has them.

- `Orderly.step`: what every session by the clock keeps.
- `Paces.session`, `Paces.pause`, `Paces.jump`: the agenda keeps to the session as it goes on, as a pause begins, and as
  the clock jumps.
- `Follows.finishRound`: what comes back for a round comes back for it in the session.
-/

namespace Typeahead

namespace Clocked

/-- A round has been given its number, and if it waits it is this one. -/
def Knows (c : Clocked) (r : Round) : Prop :=
  r.id ≤ c.session.menu.round ∧ ∀ p ∈ c.session.menu.pending?, p.id = r.id → p = r

/-- If a round waits, its pause is over by a time. -/
def EndsBy (c : Clocked) (r : Round) (time : Seconds) : Prop :=
  c.session.menu.pending? = some r → ∃ t ∈ c.pauseEnd?, t ≤ time

theorem EndsBy.mono {c : Clocked} {r : Round} {time later : Seconds} (h : c.EndsBy r time) (le : time ≤ later) :
    c.EndsBy r later := by
  intro waits
  obtain ⟨t, mem, bound⟩ := h waits
  exact ⟨t, mem, bound.trans le⟩

/-- Rounds are numbered in order, no two alike, and no pause ends later than one that begins now. -/
structure Orderly (span : Seconds) (c : Clocked) : Prop where
  numbered : c.session.Numbered
  distinct : c.session.Distinct
  ends : ∀ t ∈ c.pauseEnd?, t ≤ c.now + span

section
variable {α : Type} (engine : Round → α → RoundResult) {span : Seconds}

theorem Orderly.step {c : Clocked} (h : c.Orderly span) (m : Moment α) : (c.step engine span m).Orderly span := by
  refine ⟨numbered_step engine span h.numbered m, ?_, ?_⟩
  · obtain ⟨-, same⟩ | ⟨e, -, -, next⟩ := c.step_cases engine span m
    · rw [same]
      exact h.distinct
    · rw [next]
      exact h.distinct.step engine h.numbered e
  · cases m with
    | elapse passed =>
      intro t mem
      have bound := h.ends t mem
      have later : 0 ≤ max 0 passed := le_max_left 0 passed
      simp only [Clocked.step]
      linarith
    | pause =>
      simp only [Clocked.step]
      split
      · intro t mem
        obtain rfl := Option.some.inj mem
        exact le_refl _
      · exact h.ends
    | event e =>
      simp only [Clocked.step]
      split
      · exact h.ends
      · intro t mem
        dsimp only at mem
        split at mem
        · cases mem
        · exact h.ends t mem

/-- When the pause of a round has begun it is over a span later at most. -/
theorem Orderly.endsBy_pause {c : Clocked} (h : c.Orderly span) (r : Round) :
    (c.step engine span .pause).EndsBy r (c.now + span) := by
  intro waits
  simp only [Clocked.step] at waits ⊢
  split
  · exact ⟨_, rfl, le_refl _⟩
  · next begun =>
    rw [if_neg begun] at waits
    obtain ⟨t, ends⟩ : ∃ t, c.pauseEnd? = some t := by simpa [waits, Option.ne_none_iff_exists'] using begun
    exact ⟨t, ends, h.ends t ends⟩

theorem step_of_calm {c : Clocked} {e : Event α} (due : c.tooEarly e = false) (calm : c.session.disturbs e = false) :
    c.step engine span (.event e) = { c with session := c.session.step engine e } := by
  simp [Clocked.step, due, calm]

theorem pause_still (c : Clocked) :
    (c.step engine span .pause).session = c.session ∧ (c.step engine span .pause).now = c.now := by
  simp only [Clocked.step]
  split <;> exact ⟨rfl, rfl⟩

/-- A session by the clock is a session. -/
theorem session_run (c : Clocked) (span : Seconds) (history : List (Moment α)) :
    ∃ events, (c.run engine span history).session = c.session.run engine events := by
  induction history generalizing c with
  | nil => exact ⟨[], rfl⟩
  | cons m later ih =>
    obtain ⟨events, next⟩ := ih (c.step engine span m)
    obtain ⟨-, same⟩ | ⟨e, -, -, taken⟩ := c.step_cases engine span m
    · exact ⟨events, next.trans (by rw [same])⟩
    · exact ⟨e :: events, next.trans (by rw [taken]; rfl)⟩

theorem start_orderly (language : Language) (now : Seconds) : (start language now).Orderly span :=
  ⟨start_numbered language now, by simp [Session.Distinct, start, Session.start, Session.rounds], nofun⟩

end

/-- The sessions by the clock that come about since a time, with suggestions up to a limit. -/
def Reached (language : Language) (since span : Seconds) (limit : Int) (c : Clocked) : Prop :=
  ∃ history : List (Moment (Except Failure Findings)),
    (start language since).run (RoundResult.of language limit) span history = c

namespace Reached

variable {l : Language} {since span : Seconds} {limit : Int} {c : Clocked}

theorem step (h : Reached l since span limit c) (m : Moment (Except Failure Findings)) :
    Reached l since span limit (c.step (RoundResult.of l limit) span m) := by
  obtain ⟨history, rfl⟩ := h
  exact ⟨history ++ [m], run_concat ..⟩

theorem clock (h : Reached l since span limit c) {now : Seconds} (later : c.now ≤ now) :
    Reached l since span limit { c with now } := by
  have moved : c.step (RoundResult.of l limit) span (.elapse (now - c.now)) = { c with now } := by
    simp [Clocked.step, later]
  exact moved ▸ h.step _

theorem orderly (h : Reached l since span limit c) : c.Orderly span := by
  obtain ⟨history, rfl⟩ := h
  exact List.foldlRecOn history _ (start_orderly l since) fun _ h m _ => h.step _ m

theorem language (h : Reached l since span limit c) : c.session.menu.language = l := by
  obtain ⟨history, rfl⟩ := h
  exact language_run _ span _ history

end Reached

end Clocked

/-- A jump moves the clock on, to the limit at most, and makes alarms due that are not later. -/
theorem Agenda.of_jump? {α : Type} {a b : Agenda α} {limit : Option Seconds} (h : a.jump? limit = some b) :
    a.now ≤ b.now ∧ (∃ jobs, b.ready = a.ready ++ jobs ∧ ∀ job ∈ jobs, ∃ x ∈ a.alarms, x.job = job ∧ x.due ≤ b.now) ∧
      (∀ x ∈ b.alarms, x ∈ a.alarms) ∧ ∀ t ∈ limit, a.now ≤ t → b.now ≤ t := by
  unfold jump? at h
  split at h
  · cases h
  · next alarm more alarms =>
    split at h
    · next allowed =>
      cases h
      refine ⟨?_, ⟨_, rfl, fun job mem => ?_⟩, fun x mem => (List.dropWhile_sublist _).subset mem,
        fun t mem within => ?_⟩
      · dsimp only
        split
        · next later => exact le_of_lt later
        · exact le_refl _
      · obtain ⟨x, taken, same⟩ := List.mem_map.1 mem
        exact ⟨x, (List.takeWhile_sublist _).subset taken, same, of_decide_eq_true (List.mem_takeWhile_imp taken :)⟩
      · rw [Option.mem_def.1 mem] at allowed
        dsimp only
        split
        · simpa using allowed
        · exact within
    · cases h

namespace Job

/-- The round that a job begins to load. -/
def loads? : Job → Option Round
  | .load r => some r
  | _ => none

/-- The round whose pause a job is about. -/
def pauses? : Job → Option Round
  | .pause r | .pauseAlarm r | .pauseOver r => some r
  | _ => none

/-- Whether an alarm is set for a job. -/
def isTimed : Job → Bool
  | .limit _ | .reply _ _ | .pauseAlarm _ => true
  | _ => false

theorem loads?_of_isTimed {job : Job} (timed : job.isTimed = true) : job.loads? = none := by
  cases job with
  | limit | reply | pauseAlarm => rfl
  | fetch | announce | call | pause | pauseOver | load => cases timed

/-- A job knows the round it is about, and if it is about the end of its pause, this has come by a time. -/
structure Timely (c : Clocked) (time : Seconds) (job : Job) : Prop where
  known : ∀ r, job.pauses? = some r → c.Knows r
  ended : ∀ r, job = .pauseAlarm r ∨ job = .pauseOver r → c.EndsBy r time

namespace Timely

variable {c d : Clocked} {time later : Seconds} {job : Job}

theorem of_aside (aside : job.pauses? = none) : job.Timely c time where
  known r about := by
    rw [aside] at about
    cases about
  ended r about := by
    rcases about with rfl | rfl
    all_goals cases aside

theorem of_pause {r : Round} (about : job.pauses? = some r) (known : c.Knows r) (ends : c.EndsBy r time) :
    job.Timely c time where
  known other same := by
    rw [about] at same
    cases same
    exact known
  ended other same := by
    have its : job.pauses? = some other := by
      rcases same with rfl | rfl
      all_goals rfl
    rw [about] at its
    cases its
    exact ends

theorem mono (h : job.Timely c time) (le : time ≤ later) : job.Timely c later :=
  ⟨h.known, fun r about => (h.ended r about).mono le⟩

/-- The session goes on. A round that waits now has waited before, or is a new one. -/
theorem session (h : job.Timely c time) (round : c.session.menu.round ≤ d.session.menu.round)
    (pending : ∀ p ∈ d.session.menu.pending?,
      p ∈ c.session.menu.pending? ∧ d.pauseEnd? = c.pauseEnd? ∨ c.session.menu.round < p.id) : job.Timely d time where
  known r about := by
    obtain ⟨old, known⟩ := h.known r about
    refine ⟨old.trans round, fun p waits same => ?_⟩
    rcases pending p waits with ⟨before, -⟩ | new
    · exact known p before same
    · omega
  ended r about waits := by
    rcases pending r waits with ⟨before, ends⟩ | new
    · rw [ends]
      exact h.ended r about before
    · have old : r.id ≤ c.session.menu.round := by
        rcases about with rfl | rfl
        all_goals exact (h.known r rfl).1
      omega

end Timely

end Job

/-- The jobs on an agenda keep to a session by the clock. -/
structure Paces (c : Clocked) (a : Agenda Job) : Prop where
  now : a.now = c.now
  timed : ∀ x ∈ a.alarms, x.job.isTimed = true
  ready : ∀ job ∈ a.ready, job.Timely c c.now
  alarms : ∀ x ∈ a.alarms, x.job.Timely c x.due

namespace Paces

variable {c d : Clocked} {a b : Agenda Job}

theorem soon (h : Paces c a) {job : Job} (timely : job.Timely c c.now) : Paces c (a.soon job) where
  now := h.now
  timed := h.timed
  ready other mem := by
    rcases List.mem_append.1 mem with old | new
    · exact h.ready other old
    · rwa [List.mem_singleton.1 new]
  alarms := h.alarms

theorem after (h : Paces c a) {job : Job} {span : Seconds} (timed : job.isTimed = true)
    (timely : job.Timely c (c.now + span)) : Paces c (a.after span job) where
  now := h.now
  timed x mem := by
    rcases List.mem_cons.1 ((Agenda.perm_insertAlarm _ _).mem_iff.1 mem) with rfl | old
    · exact timed
    · exact h.timed x old
  ready := h.ready
  alarms x mem := by
    rcases List.mem_cons.1 ((Agenda.perm_insertAlarm _ _).mem_iff.1 mem) with rfl | old
    · rwa [h.now]
    · exact h.alarms x old

/-- Jobs are taken off the agenda. -/
theorem sub (h : Paces c a) (now : b.now = a.now) (ready : ∀ job ∈ b.ready, job ∈ a.ready)
    (alarms : ∀ x ∈ b.alarms, x ∈ a.alarms) : Paces c b :=
  ⟨now.trans h.now, fun x mem => h.timed x (alarms x mem), fun job mem => h.ready job (ready job mem),
    fun x mem => h.alarms x (alarms x mem)⟩

/-- The session goes on at the same time. -/
theorem session (h : Paces c a) (now : d.now = c.now) (round : c.session.menu.round ≤ d.session.menu.round)
    (pending : ∀ p ∈ d.session.menu.pending?,
      p ∈ c.session.menu.pending? ∧ d.pauseEnd? = c.pauseEnd? ∨ c.session.menu.round < p.id) : Paces d a :=
  ⟨h.now.trans now.symm, h.timed, fun job mem => now ▸ (h.ready job mem).session round pending,
    fun x mem => (h.alarms x mem).session round pending⟩

/-- The clock moves on. -/
theorem clock (h : Paces c a) {now : Seconds} (later : c.now ≤ now) : Paces { c with now } { a with now } :=
  ⟨rfl, h.timed, fun job mem => ⟨(h.ready job mem).known, ((h.ready job mem).mono later).ended⟩,
    fun x mem => ⟨(h.alarms x mem).known, (h.alarms x mem).ended⟩⟩

/-- The pause of the round that waits begins. No job was about the end of a pause of it. -/
theorem pause {α : Type} (h : Paces c a) (engine : Round → α → RoundResult) (span : Seconds) :
    Paces (c.step engine span .pause) a := by
  simp only [Clocked.step]
  split
  · next begins =>
    simp only [Bool.and_eq_true, Option.isNone_iff_eq_none] at begins
    have timely {job : Job} {time : Seconds} (old : job.Timely c time) :
        job.Timely { c with pauseEnd? := some (c.now + span) } time := by
      refine ⟨old.known, fun r about waits => ?_⟩
      obtain ⟨t, mem, -⟩ := old.ended r about waits
      rw [begins.2] at mem
      cases mem
    exact ⟨h.now, h.timed, fun job mem => timely (h.ready job mem), fun x mem => timely (h.alarms x mem)⟩
  · exact h

/-- Alarms become due. -/
theorem jump (h : Paces c a) {limit : Option Seconds} (jumped : a.jump? limit = some b) :
    Paces { c with now := b.now } b := by
  obtain ⟨later, ⟨jobs, ready, due⟩, alarms, -⟩ := Agenda.of_jump? jumped
  have moved : Paces { c with now := b.now } { a with now := b.now } := h.clock (h.now ▸ later)
  refine ⟨rfl, fun x mem => h.timed x (alarms x mem), fun job mem => ?_, fun x mem => moved.alarms x (alarms x mem)⟩
  rw [ready] at mem
  rcases List.mem_append.1 mem with old | new
  · exact moved.ready job old
  · obtain ⟨x, set, rfl, past⟩ := due job new
    exact (moved.alarms x set).mono past

end Paces

namespace Rehearsal

theorem loading_finishRound (w : Rehearsal) (round : Round) (resolution : Resolution) :
    (w.finishRound round resolution).loading = w.loading.filter fun l => l.round.id != round.id := by
  unfold finishRound
  dsimp only
  split <;> rfl

/-- A rehearsal goes the way of a session by the clock: its menu is that of the session, the rounds that are due to load
are those whose pause is over, in this order, and what a round waits for was asked for it. -/
structure Follows (span : Seconds) (limit : Int) (c : Clocked) (w : Rehearsal) : Prop where
  menu : w.menu = c.session.menu
  pauseSpan : w.pauseSpan = span
  itemLimit : w.itemLimit = limit
  paces : Paces c w.agenda
  loads : w.agenda.ready.filterMap Job.loads? = c.session.begun
  loading : ∀ l ∈ w.loading, l.round ∈ c.session.begun ∨ l.round ∈ c.session.loading
  asked : ∀ l ∈ w.loading, l.call?.isSome = true → l.round ∈ c.session.loading

namespace Follows

variable {language : Language} {since span : Seconds} {limit : Int} {c : Clocked} {v w : Rehearsal}

/-- What a rehearsal has besides its menu, its agenda and its rounds does not matter. -/
theorem same (h : Follows span limit c w) (menu : v.menu = w.menu) (agenda : v.agenda = w.agenda)
    (loading : v.loading = w.loading) (pauseSpan : v.pauseSpan = w.pauseSpan) (itemLimit : v.itemLimit = w.itemLimit) :
    Follows span limit c v :=
  ⟨menu.trans h.menu, pauseSpan.trans h.pauseSpan, itemLimit.trans h.itemLimit, agenda ▸ h.paces, agenda ▸ h.loads,
    loading ▸ h.loading, loading ▸ h.asked⟩

theorem timely (h : Follows span limit c w) {job : Job} {agenda : Agenda Job}
    (found : w.agenda.next? = some (job, agenda)) : job.Timely c c.now := by
  obtain ⟨rest, ready, rfl⟩ := Agenda.next?_eq_some found
  exact h.paces.ready job (ready ▸ List.mem_cons_self)

theorem soon (h : Follows span limit c w) {job : Job} (timely : job.Timely c c.now) (idle : job.loads? = none) :
    Follows span limit c (w.soon job) := by
  refine ⟨h.menu, h.pauseSpan, h.itemLimit, h.paces.soon timely, ?_, h.loading, h.asked⟩
  change (w.agenda.ready ++ [job]).filterMap Job.loads? = c.session.begun
  rw [List.filterMap_append, h.loads, List.filterMap_cons_none idle, List.filterMap_nil, List.append_nil]

theorem alarm (h : Follows span limit c w) {job : Job} {passed : Seconds} (timed : job.isTimed = true)
    (timely : job.Timely c (c.now + passed)) : Follows span limit c (w.alarm passed job) :=
  ⟨h.menu, h.pauseSpan, h.itemLimit, h.paces.after timed timely, h.loads, h.loading, h.asked⟩

theorem drop (h : Follows span limit c w) (p : Job → Bool) :
    Follows span limit c { w with agenda := w.agenda.drop p } :=
  ⟨h.menu, h.pauseSpan, h.itemLimit, h.paces.sub rfl (fun _ mem => mem) fun _ mem => (List.mem_filter.1 mem).1,
    h.loads, h.loading, h.asked⟩

/-- A job is taken off the agenda that begins to load no round. -/
theorem pop (h : Follows span limit c w) {job : Job} {agenda : Agenda Job}
    (found : w.agenda.next? = some (job, agenda)) (idle : job.loads? = none) :
    Follows span limit c { w with agenda } := by
  obtain ⟨rest, ready, rfl⟩ := Agenda.next?_eq_some found
  refine ⟨h.menu, h.pauseSpan, h.itemLimit, h.paces.sub rfl (fun other mem => ?_) fun _ mem => mem, ?_, h.loading,
    h.asked⟩
  · rw [ready]
    exact List.mem_cons_of_mem _ mem
  · have loads := h.loads
    rwa [ready, List.filterMap_cons_none idle] at loads

/-- The clock jumps, and alarms become due. -/
theorem jump (h : Follows span limit c w) {until? : Option Seconds} {agenda : Agenda Job}
    (jumped : w.agenda.jump? until? = some agenda) :
    Follows span limit { c with now := agenda.now } { w with agenda } := by
  refine ⟨h.menu, h.pauseSpan, h.itemLimit, h.paces.jump jumped, ?_, h.loading, h.asked⟩
  obtain ⟨-, ⟨jobs, ready, due⟩, -⟩ := Agenda.of_jump? jumped
  have idle : jobs.filterMap Job.loads? = [] := by
    rw [List.filterMap_eq_nil_iff]
    intro job mem
    obtain ⟨x, set, rfl, -⟩ := due job mem
    exact Job.loads?_of_isTimed (h.paces.timed x set)
  dsimp only
  rw [ready, List.filterMap_append, h.loads, idle, List.append_nil]

/-- What a round asked for comes back. -/
theorem answered (language : Language) (h : Follows span limit c w) (distinct : c.session.Distinct) {round : Round}
    (mem : round ∈ c.session.loading) (answer : Except Failure Findings) :
    let d := c.step (RoundResult.of language limit) span (.event (.finish round.id answer))
    Follows span limit d
        { w with
          loading := w.loading.filter fun l => l.round.id != round.id
          menu := w.menu.finish round.id (.of language limit round answer) } ∧
      ∀ r ∈ c.session.loading, r.id ≠ round.id → r ∈ d.session.loading := by
  have next : c.step (RoundResult.of language limit) span (.event (.finish round.id answer)) =
      { c with session := { c.session with
          menu := c.session.menu.finish round.id (.of language limit round answer)
          loading := c.session.loading.filter fun r => r.id != round.id } } := by
    rw [c.step_of_calm _ rfl rfl]
    simp only [Session.step, distinct.find?_loading mem]
  have shown := c.session.menu.finish_reshown round.id (.of language limit round answer)
  have kept (r : Round) (there : r ∈ c.session.loading) (other : r.id ≠ round.id) :
      r ∈ c.session.loading.filter fun r => r.id != round.id := List.mem_filter.2 ⟨there, by simpa using other⟩
  rw [next]
  refine ⟨⟨by rw [h.menu], h.pauseSpan, h.itemLimit, ?_, h.loads, fun l there => ?_, fun l there waits => ?_⟩, kept⟩
  · exact h.paces.session rfl (Nat.le_of_eq shown.round.symm) fun p waits => .inl ⟨shown.pending ▸ waits, rfl⟩
  · obtain ⟨old, other⟩ := List.mem_filter.1 there
    exact (h.loading l old).imp_right fun loading => kept l.round loading (by simpa using other)
  · obtain ⟨old, other⟩ := List.mem_filter.1 there
    exact kept l.round (h.asked l old waits) (by simpa using other)

/-- The loading of a round ends that is waited for. A round that was stopped is waited for in the session still. -/
theorem finishRound (h : Follows span limit c w) (reached : c.Reached language since span limit) {round : Round}
    (mem : round ∈ c.session.loading) (resolution : Resolution) :
    ∃ d, d.Reached language since span limit ∧ Follows span limit d (w.finishRound round resolution) ∧
      ∀ r ∈ c.session.loading, r.id ≠ round.id → r ∈ d.session.loading := by
  have distinct := reached.orderly.distinct
  have spoken : w.menu.language = language := by rw [h.menu, reached.language]
  obtain rfl := h.itemLimit
  unfold Rehearsal.finishRound
  cases resolution with
  | done findings =>
    obtain ⟨follows, kept⟩ := h.answered language distinct mem (.ok findings)
    refine ⟨_, reached.step _, ?_, kept⟩
    dsimp only
    rw [spoken]
    exact follows
  | failed failure =>
    obtain ⟨follows, kept⟩ := h.answered language distinct mem (.error failure)
    exact ⟨_, reached.step _, follows, kept⟩
  | cancelled =>
    refine ⟨c, reached, ⟨h.menu, h.pauseSpan, h.itemLimit, h.paces, h.loads, ?_, ?_⟩, fun r there _ => there⟩
    · exact fun l there => h.loading l (List.mem_filter.1 there).1
    · exact fun l there => h.asked l (List.mem_filter.1 there).1

end Follows

end Rehearsal

end Typeahead
