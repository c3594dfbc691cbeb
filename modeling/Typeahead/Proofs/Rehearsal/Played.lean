import Typeahead.Proofs.Menu.Coherent
import Typeahead.Proofs.Rehearsal.Follows
import Typeahead.Proofs.Rehearsal.Progress

/-!
The rehearsals that are played. Whatever is done with one, its menu goes the way of a session by the clock: what the one
who types does, pauses that begin and end, rounds that load and what comes back for them are moments of the session, in
the order in which the jobs are done. So what holds of all sessions holds of the menu of every rehearsal.

- `Follows.pause`, `Follows.pauseOver`, `Follows.load`: the jobs of the menu.
- `Follows.asks`: what is asked as a round begins to load.
- `Plays.act`, `Plays.run`: nothing else happens to the session, but that rounds are answered.
- `Played.follows`, `Played.menu_eq`: every rehearsal follows a session.
-/

namespace Typeahead

theorem Job.aside_of_event? {job : Job} {e : PoolEvent} (done : job.event? = some e) :
    job.pauses? = none ∧ job.loads? = none := by
  cases job with
  | fetch | announce | call | limit | reply => exact ⟨rfl, rfl⟩
  | pause | pauseAlarm | pauseOver | load => cases done

namespace Rehearsal

theorem now_finishRound (w : Rehearsal) (round : Round) (resolution : Resolution) :
    (w.finishRound round resolution).now = w.now := by
  unfold finishRound
  dsimp only
  split <;> rfl

theorem now_act (w : Rehearsal) (s : Signal) : (w.act s).now = w.now := by
  cases s with
  | fetchDue | announceDue | callDue | alarmsOff => rfl
  | limitSet id =>
    simp only [act]
    split <;> rfl
  | sent id request =>
    obtain never | ⟨span, reply, -, later | atOnce⟩ := w.act_sent_cases id request
    · rw [never]
      rfl
    · rw [later]
      rfl
    · rw [atOnce]
      rfl
  | settled call resolution =>
    simp only [act, settle]
    split
    · exact w.now_finishRound ..
    · rfl

theorem now_withPool (w : Rehearsal) (pool : Pool) : (w.withPool pool).now = w.now :=
  flush_induction (P := fun _ v => v.now = w.now) (fun _ same => same) (fun s _ v same => (v.now_act s).trans same) 3 _
    rfl

theorem now_run (w : Rehearsal) (job : Job) : (w.run job).now = w.now := by
  cases done : job.event? with
  | some e =>
    rw [run_of_event? done]
    exact w.now_withPool _
  | none =>
    cases job with
    | fetch | announce | call | limit | reply => cases done
    | pause round =>
      simp only [run]
      split <;> rfl
    | pauseAlarm round => rfl
    | pauseOver round =>
      simp only [run]
      split <;> rfl
    | load round =>
      simp only [run, loadRound]
      split
      · rfl
      · next menu _ =>
        have opened : (openCall { w with menu } (contextOf menu.language round.text round.cursor)).2.2.now = w.now :=
          now_withPool { w with menu, nextCall := w.nextCall + 1 } _
        split
        · exact (now_finishRound ..).trans opened
        · exact opened

/-- The clock does not jump past the limit. -/
theorem now_runUntil_le {w : Rehearsal} {target : Seconds} (h : w.now ≤ target) (stop : Rehearsal → Bool)
    (fuel : Nat) : (runUntil stop (some target) fuel w).now ≤ target := by
  induction fuel generalizing w with
  | zero => exact h
  | succ fuel ih =>
    unfold runUntil
    split
    · next job agenda found =>
      obtain ⟨rest, -, rfl⟩ := Agenda.next?_eq_some found
      exact ih ((now_run _ job).trans_le h)
    · split
      · exact h
      · split
        · next agenda jumped =>
          obtain ⟨-, -, -, within⟩ := Agenda.of_jump? jumped
          exact ih (within target rfl h)
        · exact h

/-- A round has begun to load, and no call has been opened for it yet. -/
def Holds (round : Round) (c : Clocked) (w : Rehearsal) : Prop :=
  round ∈ c.session.loading ∧ ∀ l ∈ w.loading, l.round.id = round.id → l.call? = none

/-- A rehearsal goes the way of a session by the clock. Meanwhile a round may be held: nothing that comes of the pool
answers it, since no call has been opened for it yet. -/
def Plays (language : Language) (since span : Seconds) (limit : Int) (held? : Option Round) (w : Rehearsal) : Prop :=
  ∃ c : Clocked, c.Reached language since span limit ∧ Follows span limit c w ∧ ∀ round ∈ held?, Holds round c w

section

variable {language : Language} {since span : Seconds} {limit : Int} {held? : Option Round} {v w : Rehearsal}

theorem Follows.plays {c : Clocked} (h : Follows span limit c w) (reached : c.Reached language since span limit) :
    Plays language since span limit none w :=
  ⟨c, reached, h, by rintro _ ⟨⟩⟩

namespace Plays

/-- Nothing happens to the session. -/
theorem aside (h : Plays language since span limit held? w) (loading : v.loading = w.loading)
    (follows : ∀ c, Follows span limit c w → Follows span limit c v) : Plays language since span limit held? v := by
  obtain ⟨c, reached, old, held⟩ := h
  refine ⟨c, reached, follows c old, fun round mem => ?_⟩
  obtain ⟨there, free⟩ := held round mem
  exact ⟨there, loading ▸ free⟩

theorem soon (h : Plays language since span limit held? w) {job : Job} (aside : job.pauses? = none)
    (idle : job.loads? = none) : Plays language since span limit held? (w.soon job) :=
  h.aside rfl fun _ follows => follows.soon (.of_aside aside) idle

theorem alarm (h : Plays language since span limit held? w) {job : Job} (aside : job.pauses? = none)
    (timed : job.isTimed = true) (passed : Seconds) : Plays language since span limit held? (w.alarm passed job) :=
  h.aside rfl fun _ follows => follows.alarm timed (.of_aside aside)

/-- The loading of a round ends that waits for a call. It is not the one that is held. -/
theorem finishRound (h : Plays language since span limit held? w) {l : Loading} (mem : l ∈ w.loading)
    (waits : l.call?.isSome = true) (resolution : Resolution) :
    Plays language since span limit held? (w.finishRound l.round resolution) := by
  obtain ⟨c, reached, follows, held⟩ := h
  obtain ⟨d, next, follows, kept⟩ := follows.finishRound reached (follows.asked l mem waits) resolution
  refine ⟨d, next, follows, fun round holds => ?_⟩
  obtain ⟨there, free⟩ := held round holds
  constructor
  · apply kept round there
    intro same
    rw [free l mem same.symm] at waits
    cases waits
  · intro x left
    rw [loading_finishRound] at left
    exact free x (List.mem_filter.1 left).1

theorem settle (h : Plays language since span limit held? w) (call : Nat) (resolution : Resolution) :
    Plays language since span limit held? (w.settle call resolution) := by
  unfold Rehearsal.settle
  split
  · next l found =>
    have its : l.call? = some call := of_decide_eq_true (List.find?_some found :)
    exact h.finishRound (List.mem_of_find?_eq_some found) (its ▸ rfl) resolution
  · exact h.aside rfl fun _ follows => follows.same rfl rfl rfl rfl rfl

/-- Nothing that comes of a signal of the pool happens to the session, but that a round is answered. -/
theorem act (h : Plays language since span limit held? w) (s : Signal) :
    Plays language since span limit held? (w.act s) := by
  cases s with
  | fetchDue id => exact h.soon rfl rfl
  | announceDue id => exact h.soon rfl rfl
  | callDue id => exact h.soon rfl rfl
  | limitSet id =>
    simp only [Rehearsal.act]
    split
    · exact h.alarm rfl rfl _
    · exact h
  | sent id request =>
    have sent : Plays language since span limit held? (w.send request).2 :=
      h.aside rfl fun _ follows => follows.same rfl rfl rfl rfl rfl
    obtain never | ⟨passed, reply, -, later | atOnce⟩ := w.act_sent_cases id request
    · rwa [never]
    · rw [later]
      exact sent.alarm rfl rfl passed
    · rw [atOnce]
      exact sent.aside rfl fun _ follows => follows.same rfl rfl rfl rfl rfl
  | alarmsOff id => exact h.aside rfl fun _ follows => follows.drop _
  | settled call resolution => exact h.settle call resolution

theorem withPool (h : Plays language since span limit held? w) (pool : Pool) :
    Plays language since span limit held? (w.withPool pool) :=
  flush_induction (P := fun _ => Plays language since span limit held?)
    (fun _ old => old.aside rfl fun _ follows => follows.same rfl rfl rfl rfl rfl) (fun s _ _ old => old.act s) 3 _
    (h.aside rfl fun _ follows => follows.same rfl rfl rfl rfl rfl)

theorem openCall (h : Plays language since span limit held? w) (context : Context) :
    Plays language since span limit held? (w.openCall context).2.2 := by
  have given : Plays language since span limit held? { w with nextCall := w.nextCall + 1 } :=
    h.aside rfl fun _ follows => follows.same rfl rfl rfl rfl rfl
  exact given.withPool _

end Plays

namespace Follows

variable {c : Clocked} {agenda : Agenda Job} {round : Round}

/-- The pause of a round begins. The job may come for a round that has been ended. -/
theorem pause (h : Follows span limit c w) (reached : c.Reached language since span limit)
    (found : w.agenda.next? = some (.pause round, agenda)) :
    Plays language since span limit none ({ w with agenda }.run (.pause round)) := by
  obtain rfl := h.pauseSpan
  have known : c.Knows round := (h.timely found).known round rfl
  let span := w.pauseSpan
  let d := c.step (RoundResult.of language limit) span .pause
  obtain ⟨session, now⟩ : d.session = c.session ∧ d.now = c.now := c.pause_still _
  have ends : d.EndsBy round (d.now + span) := now ▸ reached.orderly.endsBy_pause _ round
  have known : d.Knows round := by rwa [Clocked.Knows, session]
  have begun : Follows span limit d { w with agenda } := by
    have rest := h.pop found rfl
    exact ⟨session ▸ rest.menu, rest.pauseSpan, rest.itemLimit, rest.paces.pause _ span, session ▸ rest.loads,
      session ▸ rest.loading, session ▸ rest.asked⟩
  refine plays ?_ (reached.step .pause)
  simp only [Rehearsal.run]
  split
  · have timely : (Job.pauseAlarm round).Timely d (d.now + span) := .of_pause rfl known ends
    exact begun.alarm rfl timely
  · next none =>
    have past : d.now + span ≤ d.now := by linarith
    have timely : (Job.pauseOver round).Timely d d.now := .of_pause rfl known (ends.mono past)
    exact begun.soon timely rfl

/-- The alarm of a pause goes off. -/
theorem pauseAlarm (h : Follows span limit c w) (reached : c.Reached language since span limit)
    (found : w.agenda.next? = some (.pauseAlarm round, agenda)) :
    Plays language since span limit none ({ w with agenda }.run (.pauseAlarm round)) := by
  have set := h.timely found
  have timely : (Job.pauseOver round).Timely c c.now :=
    .of_pause rfl (set.known round rfl) (set.ended round (.inl rfl))
  exact ((h.pop found rfl).soon timely rfl).plays reached

/-- A pause is over. The round goes on if it waits still. -/
theorem pauseOver (h : Follows span limit c w) (reached : c.Reached language since span limit)
    (found : w.agenda.next? = some (.pauseOver round, agenda)) :
    Plays language since span limit none ({ w with agenda }.run (.pauseOver round)) := by
  have timely := h.timely found
  have rest := h.pop found rfl
  simp only [Rehearsal.run]
  obtain same | ⟨p, waits, its, next⟩ := w.menu.pauseOver_cases round.id
  · rw [same]
    exact (rest.same rfl rfl rfl rfl rfl).plays reached
  · rw [h.menu] at waits
    obtain rfl := (timely.known round rfl).2 p waits its
    obtain ⟨t, ends, past⟩ := timely.ended p (.inr rfl) waits
    let d : Clocked := { c with session := { c.session with
      menu := { c.session.menu with pending? := none }
      begun := c.session.begun ++ if c.session.menu.isStale p.id then [] else [p] } }
    have due : c.tooEarly (.pauseOver p.id : Event (Except Failure Findings)) = false := by
      simp [Clocked.tooEarly, Option.mem_def.1 ends, past]
    have moved : c.step (RoundResult.of language limit) span (.event (.pauseOver p.id)) = d := by
      rw [h.menu] at next
      rw [c.step_of_calm _ due rfl]
      cases stale : c.session.menu.isStale p.id
      all_goals simp [d, Session.step, next, waits, stale]
    have paces : Paces d agenda := rest.paces.session rfl (Nat.le_refl _) (by rintro _ ⟨⟩)
    refine plays ?_ (moved ▸ reached.step _ : d.Reached language since span limit)
    rw [next, h.menu]
    cases stale : c.session.menu.isStale p.id with
    | true =>
      have begun : d.session.begun = c.session.begun := by simp [d, stale]
      exact ⟨rfl, rest.pauseSpan, rest.itemLimit, paces, begun ▸ rest.loads, begun ▸ rest.loading, rest.asked⟩
    | false =>
      have begun : d.session.begun = c.session.begun ++ [p] := by simp [d, stale]
      have timely : (Job.load p).Timely d d.now := .of_aside rfl
      refine ⟨rfl, rest.pauseSpan, rest.itemLimit, paces.soon timely, ?_, fun l mem => ?_, fun l mem waits => ?_⟩
      · rw [begun, ← rest.loads]
        exact List.filterMap_append
      · rw [begun]
        rcases List.mem_append.1 mem with old | new
        · exact (rest.loading l old).imp_left (List.mem_append_left _)
        · rw [List.mem_singleton.1 new]
          exact .inl (List.mem_append_right _ (List.mem_singleton.2 rfl))
      · rcases List.mem_append.1 mem with old | new
        · exact rest.asked l old waits
        · rw [List.mem_singleton.1 new] at waits
          cases waits

/-- A call has been opened for a round that is loading. -/
theorem calls (h : Follows span limit c w) (distinct : c.session.Distinct) (mem : round ∈ c.session.loading)
    (call : Nat) :
    Follows span limit c { w with
      loading := w.loading.map fun l => if l.round.id = round.id then { l with call? := some call } else l } := by
  refine ⟨h.menu, h.pauseSpan, h.itemLimit, h.paces, h.loads, fun l there => ?_, fun l there waits => ?_⟩
  · obtain ⟨old, before, rfl⟩ := List.mem_map.1 there
    split
    · exact h.loading old before
    · exact h.loading old before
  · obtain ⟨old, before, rfl⟩ := List.mem_map.1 there
    by_cases its : old.round.id = round.id
    · rw [if_pos its]
      exact (h.loading old before).resolve_left fun begun => distinct.apart begun mem its.symm
    · rw [if_neg its] at waits ⊢
      exact h.asked old before waits

/-- The next job begins to load the first of the rounds that go on. -/
theorem begun (h : Follows span limit c w) (found : w.agenda.next? = some (.load round, agenda)) :
    c.session.begun = round :: agenda.ready.filterMap Job.loads? ∧ Paces c agenda := by
  obtain ⟨rest, ready, rfl⟩ := Agenda.next?_eq_some found
  constructor
  · rw [← h.loads, ready]
    rfl
  · exact h.paces.sub rfl (fun other mem => ready ▸ List.mem_cons_of_mem _ mem) fun _ mem => mem

/-- A round is dropped that has been superseded before it begins to load. -/
theorem superseded (h : Follows span limit c w) (reached : c.Reached language since span limit)
    (found : w.agenda.next? = some (.load round, agenda)) (stale : c.session.menu.isStale round.id = true) :
    Plays language since span limit none
      { w with agenda, loading := w.loading.filter fun l => l.round.id != round.id } := by
  obtain ⟨begun, paces⟩ := h.begun found
  let d : Clocked := { c with session := { c.session with begun := agenda.ready.filterMap Job.loads? } }
  have moved : c.step (RoundResult.of language limit) span (.event (.load round.id)) = d := by
    rw [c.step_of_calm _ rfl rfl, reached.orderly.distinct.step_load _ begun, if_pos stale]
  refine plays ?_ (moved ▸ reached.step _ : d.Reached language since span limit)
  refine ⟨h.menu, h.pauseSpan, h.itemLimit, ?_, rfl, fun l mem => ?_, fun l mem => ?_⟩
  · exact paces.session rfl (Nat.le_refl _) fun p waits => .inl ⟨waits, rfl⟩
  · obtain ⟨old, other⟩ := List.mem_filter.1 mem
    refine (h.loading l old).imp_left fun there => ?_
    rw [begun] at there
    exact (List.mem_cons.1 there).resolve_left fun same => by simp [same] at other
  · exact h.asked l (List.mem_filter.1 mem).1

/-- The current round begins to load: the session asks for it, and no call has been opened for it yet. -/
theorem begins (h : Follows span limit c w) (reached : c.Reached language since span limit)
    (found : w.agenda.next? = some (.load round, agenda)) (current : c.session.menu.isStale round.id = false) :
    let menu := c.session.menu.display { c.session.menu.state with phase := .loading, error? := none }
    Plays language since span limit (some round) { w with agenda, menu } := by
  intro menu
  obtain ⟨begun, paces⟩ := h.begun found
  have distinct := reached.orderly.distinct
  let d : Clocked :=
    { c with session := {
        menu, begun := agenda.ready.filterMap Job.loads?, loading := c.session.loading ++ [round] } }
  have moved : c.step (RoundResult.of language limit) span (.event (.load round.id)) = d := by
    rw [c.step_of_calm _ rfl rfl, distinct.step_load _ begun, current]
    rfl
  refine ⟨d, moved ▸ reached.step _, ?_, fun r same => ?_⟩
  · refine ⟨rfl, h.pauseSpan, h.itemLimit, ?_, rfl, fun l mem => ?_, fun l mem waits => ?_⟩
    · exact paces.session rfl (Nat.le_refl _) fun p waits => .inl ⟨waits, rfl⟩
    · rcases h.loading l mem with there | there
      · rw [begun] at there
        rcases List.mem_cons.1 there with same | other
        · exact .inr (List.mem_append_right _ (List.mem_singleton.2 same))
        · exact .inl other
      · exact .inr (List.mem_append_left _ there)
    · exact List.mem_append_left _ (h.asked l mem waits)
  · obtain rfl := Option.some.inj same
    refine ⟨List.mem_append_right _ (List.mem_singleton.2 rfl), fun l mem its => ?_⟩
    by_contra waits
    have asked := h.asked l mem (Option.isSome_iff_ne_none.2 waits)
    exact distinct.apart (begun ▸ List.mem_cons_self) asked its

/-- A round begins to load. If it is the current one a call is opened for it, which may end at once. -/
theorem load (h : Follows span limit c w) (reached : c.Reached language since span limit)
    (found : w.agenda.next? = some (.load round, agenda)) :
    Plays language since span limit none ({ w with agenda }.run (.load round)) := by
  change Plays language since span limit none (loadRound { w with agenda } round)
  unfold loadRound
  cases stale : c.session.menu.isStale round.id with
  | true =>
    have gone : w.menu.load? round.id = none := by rw [h.menu, Menu.load?, if_pos stale]
    simp only [gone]
    exact h.superseded reached found stale
  | false =>
    let menu := c.session.menu.display { c.session.menu.state with phase := .loading, error? := none }
    have goesOn : w.menu.load? round.id = some menu := by simp only [h.menu, Menu.load?, stale]; rfl
    simp only [goesOn]
    have opened := (h.begins reached found stale).openCall (contextOf menu.language round.text round.cursor)
    generalize openCall { w with agenda, menu } (contextOf menu.language round.text round.cursor) = called at opened ⊢
    obtain ⟨id, resolution?, v⟩ := called
    -- replies that are there at once may have answered other rounds while the call was opened
    obtain ⟨d, reached, follows, holds⟩ := opened
    obtain ⟨there, -⟩ := holds round rfl
    cases resolution? with
    | some resolution =>
      obtain ⟨e, reached, follows, -⟩ := follows.finishRound reached there resolution
      exact follows.plays reached
    | none => exact (follows.calls reached.orderly.distinct there id).plays reached

/-- What is asked as a round begins to load is what the session asks. -/
theorem asks (h : Follows span limit c w) (found : w.agenda.next? = some (.load round, agenda)) :
    ((w.menu.load? round.id).map fun menu => (⟨menu.language, round.text, round.cursor⟩ : Question)) =
      c.question? (.event (.load round.id) : Moment (Except Failure Findings)) := by
  obtain ⟨begun, -⟩ := h.begun found
  cases stale : c.session.menu.isStale round.id
  all_goals simp [Clocked.question?, Session.question?, Menu.load?, Menu.display, h.menu, begun, stale]

/-- The one who types acts on the menu. -/
theorem acted (language : Language) (h : Follows span limit c w) (a : Act) :
    Follows span limit (c.step (RoundResult.of language limit) span (.event (.act a)))
      { w with menu := w.menu.act a } := by
  refine ⟨congrArg (Menu.act · a) h.menu, h.pauseSpan, h.itemLimit, ?_, h.loads, h.loading, h.asked⟩
  obtain ⟨ends, ended⟩ | ⟨stays, kept⟩ := c.session.menu.act_cases a
  · refine h.paces.session rfl (ended.round ▸ Nat.le_succ _) fun p waits => .inr ?_
    have new : p.id = (c.session.menu.act a).round := congrArg Round.id (ended.pending p waits)
    have next := ended.round
    omega
  · refine h.paces.session rfl (Nat.le_of_eq kept.round.symm) fun p waits => .inl ⟨kept.pending ▸ waits, ?_⟩
    simp [Clocked.step, Clocked.tooEarly, Session.disturbs, stays]

end Follows

namespace Plays

theorem run (h : Plays language since span limit none w) {job : Job} {agenda : Agenda Job}
    (found : w.agenda.next? = some (job, agenda)) :
    Plays language since span limit none ({ w with agenda }.run job) := by
  cases done : job.event? with
  | some e =>
    obtain ⟨-, idle⟩ := Job.aside_of_event? done
    have rest : Plays language since span limit none { w with agenda } :=
      h.aside rfl fun _ follows => follows.pop found idle
    rw [run_of_event? done]
    exact rest.withPool _
  | none =>
    obtain ⟨c, reached, follows, -⟩ := h
    cases job with
    | fetch | announce | call | limit | reply => cases done
    | pause round => exact follows.pause reached found
    | pauseAlarm round => exact follows.pauseAlarm reached found
    | pauseOver round => exact follows.pauseOver reached found
    | load round => exact follows.load reached found

theorem jump (h : Plays language since span limit none w) {until? : Option Seconds} {agenda : Agenda Job}
    (jumped : w.agenda.jump? until? = some agenda) : Plays language since span limit none { w with agenda } := by
  obtain ⟨c, reached, follows, -⟩ := h
  have later : c.now ≤ agenda.now := follows.paces.now ▸ (Agenda.of_jump? jumped).1
  exact (follows.jump jumped).plays (reached.clock later)

theorem runUntil (h : Plays language since span limit none w) (stop : Rehearsal → Bool) (until? : Option Seconds)
    (fuel : Nat) : Plays language since span limit none (runUntil stop until? fuel w) := by
  induction fuel generalizing w with
  | zero => exact h
  | succ fuel ih =>
    unfold Rehearsal.runUntil
    split
    · next job agenda found => exact ih (h.run found)
    · split
      · exact h
      · split
        · next agenda jumped => exact ih (h.jump jumped)
        · exact h

theorem clock (h : Plays language since span limit none w) {now : Seconds} (later : w.now ≤ now) :
    Plays language since span limit none { w with agenda := { w.agenda with now } } := by
  obtain ⟨c, reached, follows, -⟩ := h
  have later : c.now ≤ now := follows.paces.now ▸ later
  have moved : Follows span limit { c with now } { w with agenda := { w.agenda with now } } :=
    ⟨follows.menu, follows.pauseSpan, follows.itemLimit, follows.paces.clock later, follows.loads, follows.loading,
      follows.asked⟩
  exact moved.plays (reached.clock later)

/-- The one who types acts on the menu. If that began a round its pause is to begin. -/
theorem withMenu (h : Plays language since span limit none w) (a : Act) :
    Plays language since span limit none (w.withMenu (w.menu.act a)) := by
  obtain ⟨c, reached, follows, -⟩ := h
  have acted := follows.acted language a
  have reached := reached.step (.event (.act a))
  generalize c.step (RoundResult.of language limit) span (.event (.act a)) = d at acted reached
  unfold Rehearsal.withMenu
  dsimp only
  split
  · next round began =>
    have waits : d.session.menu.pending? = some round := acted.menu ▸ (Option.filter_eq_some_iff.1 began).1
    have timely : (Job.pause round).Timely d d.now := by
      refine ⟨fun r about => ?_, fun r about => ?_⟩
      · obtain rfl := Option.some.inj about
        refine ⟨reached.orderly.numbered round (Session.mem_rounds.2 (.inl waits)), fun p there _ => ?_⟩
        exact Option.some.inj (there.symm.trans waits)
      · rcases about with same | same
        all_goals cases same
    have paused : Plays language since span limit none
        (Rehearsal.soon { w with menu := w.menu.act a } (.pause round)) :=
      (acted.soon timely rfl).plays reached
    exact paused.runUntil _ _ _
  · have still : Plays language since span limit none { w with menu := w.menu.act a } := acted.plays reached
    exact still.runUntil _ _ _

end Plays

/-- The rehearsals that come of a new one, whatever is done with its menu, its pool and its clock. -/
inductive Played (language : Language) (since span : Seconds) (limit : Int) : Rehearsal → Prop where
  | create {w : Rehearsal} : w.agenda = { now := since } → w.menu = { language } → w.pauseSpan = span →
    w.itemLimit = limit → w.loading = [] → Played language since span limit w
  /-- The one who types acts on the menu. -/
  | act {w : Rehearsal} (a : Act) : Played language since span limit w →
    Played language since span limit (w.withMenu (w.menu.act a))
  /-- What is due is done, and the clock jumps. -/
  | wait {w : Rehearsal} (stop : Rehearsal → Bool) (until? : Option Seconds) (fuel : Nat) :
    Played language since span limit w → Played language since span limit (runUntil stop until? fuel w)
  /-- The clock moves on while nothing is due. -/
  | clock {w : Rehearsal} (now : Seconds) : w.now ≤ now → Played language since span limit w →
    Played language since span limit { w with agenda := { w.agenda with now } }
  /-- A call is opened by another than the menu. -/
  | openCall {w : Rehearsal} (context : Context) : Played language since span limit w →
    Played language since span limit (w.openCall context).2.2
  /-- Something happens to the pool. -/
  | withPool {w : Rehearsal} (pool : Pool) : Played language since span limit w →
    Played language since span limit (w.withPool pool)
  /-- A request is sent past the pool. -/
  | send {w : Rehearsal} (request : Request) : Played language since span limit w →
    Played language since span limit (w.send request).2
  /-- Ends of calls are kept to be collected, and requests that were sent, or these are collected. -/
  | collect {w : Rehearsal} (settled : List (Nat × Resolution)) (requests : List Request) :
    Played language since span limit w → Played language since span limit { w with settled, requests }

namespace Played

theorem plays (h : Played language since span limit w) : Plays language since span limit none w := by
  induction h with
  | @create w agenda menu pauseSpan itemLimit loading =>
    refine Follows.plays ⟨menu, pauseSpan, itemLimit, ?_, ?_, ?_, ?_⟩ (⟨[], rfl⟩ : Clocked.Reached ..)
    · rw [agenda]
      exact ⟨rfl, nofun, nofun, nofun⟩
    · rw [agenda]
      rfl
    · simp [loading]
    · simp [loading]
  | act a _ ih => exact ih.withMenu a
  | wait stop until? fuel _ ih => exact ih.runUntil stop until? fuel
  | clock now later _ ih => exact ih.clock later
  | openCall context _ ih => exact ih.openCall context
  | withPool pool _ ih => exact ih.withPool pool
  | send request _ ih => exact ih.aside rfl fun _ follows => follows.same rfl rfl rfl rfl rfl
  | collect settled requests _ ih => exact ih.aside rfl fun _ follows => follows.same rfl rfl rfl rfl rfl

/-- Whatever is done with a rehearsal, it goes the way of a session by the clock. -/
theorem follows (h : Played language since span limit w) :
    ∃ history : List (Moment (Except Failure Findings)),
      Follows span limit ((Clocked.start language since).run (RoundResult.of language limit) span history) w := by
  obtain ⟨_, ⟨history, rfl⟩, follows, -⟩ := h.plays
  exact ⟨history, follows⟩

/-- The menu of a rehearsal is that of a session. -/
theorem menu_eq (h : Played language since span limit w) :
    ∃ history : List (Event (Except Failure Findings)),
      w.menu = ((Session.start language).run (RoundResult.of language limit) history).menu := by
  obtain ⟨history, follows⟩ := h.follows
  obtain ⟨events, same⟩ := (Clocked.start language since).session_run (RoundResult.of language limit) span history
  exact ⟨events, by rw [follows.menu, same]; rfl⟩

/-- An open menu shows what was found for its query. -/
theorem fits (h : Played language since span limit w) (isOpen : w.menu.state.isOpen = true) : w.menu.Fits limit := by
  obtain ⟨history, same⟩ := h.menu_eq
  rw [same] at isOpen ⊢
  exact (Session.sound_run language limit history).fits isOpen

/-- The linked parts of what the menu shows agree. -/
theorem coherent (h : Played language since span limit w) : w.menu.Coherent := by
  obtain ⟨history, same⟩ := h.menu_eq
  rw [same]
  exact Session.run_coherent _ (Session.start_coherent language) history

theorem drain (h : Played language since span limit w) : Played language since span limit w.drain := h.wait _ _ _

theorem settleMenu (h : Played language since span limit w) : Played language since span limit w.settleMenu :=
  h.wait _ _ _

theorem advance (h : Played language since span limit w) (passed : Seconds) :
    Played language since span limit (w.advance passed) := by
  unfold Rehearsal.advance
  split
  · exact h.drain
  · next later =>
    have target : w.now ≤ w.now + passed := by linarith
    exact ((h.wait _ _ _).clock _ (now_runUntil_le target ..)).drain

end Played

end

end Rehearsal

end Typeahead
