import Typeahead.Proofs.Rehearsal.Relay

/-!
A rehearsal makes progress. Each job that is done and each jump of the clock takes some of the work away,
so as many steps as there is work lead to a rehearsal in which nothing is due, and which was waited for or
has no alarm left.

- `run_ready`, `loadRound_ready`, `openCall_ready`: what one step does.
- `runUntil_rests`: what a run of them comes to.
-/

namespace Typeahead

theorem Job.work_of_event? {job : Job} {e : PoolEvent} (done : job.event? = some e) :
    e.work = 0 ∧ job.work = 1 := by
  cases job with
  | fetch | announce | call | limit | reply =>
    cases done
    exact ⟨rfl, rfl⟩
  | pause | pauseAlarm | pauseOver | load => cases done

theorem Job.unasked {s : Signal} {job : Job} (undone : job.event? = none) : s.job? ≠ some job := by
  intro asked
  cases s with
  | fetchDue | announceDue | callDue | limitSet =>
    cases asked
    cases undone
  | sent | alarmsOff | settled => cases asked

/-- Only the job that is done is taken off the agenda. -/
theorem Struck.of_next? {before after : Agenda Job} {job : Job} {e : PoolEvent}
    (found : before.next? = some (job, after)) (done : job.event? = some e) : Struck e before after :=
  ⟨fun _ there => (Agenda.holds_next? found).2 (.inr there), fun _ _ asked there =>
    ((Agenda.holds_next? found).1 there).imp_left fun same => Job.answers (same ▸ asked) done⟩

namespace Rehearsal

open Pool

theorem run_of_event? {job : Job} {e : PoolEvent} (done : job.event? = some e) (w : Rehearsal) :
    w.run job = w.withPool (w.pool.step w.cacheTime e) := by
  cases job with
  | fetch | announce | call | limit | reply =>
    cases done
    rfl
  | pause | pauseAlarm | pauseOver | load => cases done

/-- A rehearsal is in order and no signal waits to be acted upon. -/
structure Ready (t : Terms) (slots : Nat) (w : Rehearsal) : Prop where
  order : InOrder t slots [] w
  empty : w.pool.outbox = []

section

variable {t : Terms} {slots : Nat} {v w : Rehearsal}

namespace Ready

theorem calm (h : Ready t slots v) (calm : Calm v w) : Ready t slots w :=
  ⟨h.order.calm calm, calm.pool ▸ h.empty⟩

/-- An event happens to the pool before it is put in place. -/
theorem step (h : Ready t slots w) (now : Seconds) {e : PoolEvent} {agenda : Agenda Job} {nextCall : Nat}
    (struck : Struck e w.agenda agenda) (faultless : ∀ reply, e.reply? = some reply → reply.isFault = false)
    (later : w.nextCall ≤ nextCall) (opened : ∀ id context, e = .openCall id context → id < nextCall) :
    InOrder t slots [] { w with agenda, pool := w.pool.step now e, nextCall } := by
  have nothing {s : Signal} : s ∉ [] ++ w.pool.outbox := by simp [h.empty]
  exact h.order.step now struck faultless (fun s mem => absurd mem nothing)
    (fun id mem => absurd mem nothing) later opened

/-- An event happens to the pool, and what it posts is acted upon. -/
theorem event (h : Ready t slots w) (now : Seconds) {e : PoolEvent} {agenda : Agenda Job} {nextCall : Nat}
    (struck : Struck e w.agenda agenda) (faultless : ∀ reply, e.reply? = some reply → reply.isFault = false)
    (later : w.nextCall ≤ nextCall) (opened : ∀ id context, e = .openCall id context → id < nextCall) :
    Ready t slots ({ w with agenda, nextCall }.withPool (w.pool.step now e)) ∧
      ({ w with agenda, nextCall }.withPool (w.pool.step now e)).work ≤
        agenda.work Job.work + w.pool.work + e.work := by
  have order := h.step now struck faultless later opened
  obtain ⟨order, empty, less⟩ := InOrder.withPool (w := { w with agenda, nextCall }) order
  have more := work_step h.order.sound.gated h.order.sound.kept now e
  refine ⟨⟨order, empty⟩, less.trans ?_⟩
  simp only [work]
  omega

end Ready

/-- A call that is opened has a number that no other call has. -/
theorem step_openCall (h : Ready t slots w) (context : Context) :
    w.pool.step w.cacheTime (.openCall w.nextCall context) = (w.pool.openCall w.nextCall context).2 := by
  have unused : w.pool.call? w.nextCall = none := by
    refine List.find?_eq_none.2 fun c mem same => ?_
    exact Nat.lt_irrefl _ ((of_decide_eq_true same : c.id = w.nextCall) ▸ h.order.numbered.calls c mem)
  simp only [Pool.step, unused, Option.isSome_none, Bool.false_eq_true, if_false]

theorem openCall_eq (h : Ready t slots w) (context : Context) : w.openCall context =
    (w.nextCall, (w.pool.openCall w.nextCall context).1, { w with nextCall := w.nextCall + 1 }.withPool
      (w.pool.step w.cacheTime (.openCall w.nextCall context))) := by
  rw [step_openCall h]
  rfl

/-- A call that is opened before it is put in place with the pool. -/
theorem openCall_step (h : Ready t slots w) (context : Context) :
    InOrder t slots [] { w with
      pool := w.pool.step w.cacheTime (.openCall w.nextCall context), nextCall := w.nextCall + 1 } :=
  h.step w.cacheTime (.refl _ w.agenda) nofun (Nat.le_succ _) fun _ _ same => by
    cases same
    exact Nat.lt_succ_self _

theorem openCall_ready (h : Ready t slots w) (context : Context) :
    Ready t slots (w.openCall context).2.2 ∧ (w.openCall context).2.2.work ≤ w.work + 24 := by
  rw [openCall_eq h]
  exact h.event w.cacheTime (.refl _ w.agenda) nofun (Nat.le_succ _) fun _ _ same => by
    cases same
    exact Nat.lt_succ_self _

/-- The number of a call that was opened is given. -/
theorem openCall_given (h : Ready t slots w) (context : Context) :
    (w.openCall context).1 < (w.openCall context).2.2.nextCall := by
  rw [openCall_eq h, (withPool_relays (openCall_step h context)).nextCall]
  exact Nat.lt_succ_self _

theorem loadRound_ready (h : Ready t slots w) (round : Round) :
    Ready t slots (w.loadRound round) ∧ (w.loadRound round).work ≤ w.work + 24 := by
  unfold loadRound
  split
  · refine ⟨h.calm (.of_loading rfl rfl rfl rfl rfl fun l mem => .inl ?_), Nat.le_add_right ..⟩
    exact (List.mem_filter.1 mem).1
  · next menu _ =>
    have placed : Ready t slots { w with menu } := h.calm (.withMenu w menu)
    let context := contextOf menu.language round.text round.cursor
    obtain ⟨ready, less⟩ := openCall_ready placed context
    have given := openCall_given placed context
    dsimp only
    split
    · exact ⟨ready.calm (.finishRound ..), (work_finishRound ..).le.trans less⟩
    · refine ⟨ready.calm (.of_loading rfl rfl rfl rfl rfl fun l mem => ?_), less⟩
      obtain ⟨l', old, rfl⟩ := List.mem_map.1 mem
      split
      · refine .inr fun id same => ?_
        cases same
        exact given
      · exact .inl old

theorem Ready.faultless (h : Ready t slots w) {job : Job} {agenda : Agenda Job} {e : PoolEvent}
    (found : w.agenda.next? = some (job, agenda)) (done : job.event? = some e) (reply : Reply)
    (came : e.reply? = some reply) : reply.isFault = false := by
  cases job with
  | reply id reply' =>
    cases done
    cases came
    exact h.order.replies id _ ((Agenda.holds_next? found).2 (.inl rfl))
  | fetch | announce | call | limit =>
    cases done
    cases came
  | pause | pauseAlarm | pauseOver | load => cases done

/-- A job that is no event of the pool is taken off the agenda. -/
theorem Ready.next (h : Ready t slots w) {job : Job} {agenda : Agenda Job}
    (found : w.agenda.next? = some (job, agenda)) (undone : job.event? = none) :
    Ready t slots { w with agenda } := by
  refine ⟨⟨h.order.sound, fun s owed => ?_, h.order.off, fun id reply there => ?_, h.order.script,
    ⟨h.order.numbered.calls, h.order.numbered.ends, h.order.numbered.loading⟩⟩, h.empty⟩
  · refine (h.order.minded s owed).imp_right fun ⟨other, asked, there⟩ => ⟨other, asked, ?_⟩
    refine there.imp_left fun held => ((Agenda.holds_next? found).1 held).resolve_left fun same => ?_
    exact Job.unasked undone (same ▸ asked)
  · exact h.order.replies id reply ((Agenda.holds_next? found).2 (.inr there))

/-- A job that is done takes some of the work away. -/
theorem run_ready (h : Ready t slots w) {job : Job} {agenda : Agenda Job}
    (found : w.agenda.next? = some (job, agenda)) :
    Ready t slots ({ w with agenda }.run job) ∧ ({ w with agenda }.run job).work < w.work := by
  have less : agenda.work Job.work + job.work = w.agenda.work Job.work := Agenda.work_next? found
  cases done : job.event? with
  | some e =>
    obtain ⟨none, one⟩ := Job.work_of_event? done
    have opens (id : Nat) (context : Context) (same : e = .openCall id context) : id < w.nextCall := by
      subst same
      cases none
    rw [run_of_event? done]
    obtain ⟨ready, most⟩ := h.event (cacheTime { w with agenda }) (.of_next? found done)
      (h.faultless found done) (Nat.le_refl _) opens
    refine ⟨ready, most.trans_lt ?_⟩
    simp only [work]
    omega
  | none =>
    have rest := h.next found done
    have left : work { w with agenda } + job.work = w.work := by
      simp only [work]
      omega
    cases job with
    | fetch | announce | call | limit | reply => cases done
    | load round =>
      obtain ⟨ready, most⟩ := loadRound_ready rest round
      exact ⟨ready, most.trans_lt (left ▸ Nat.lt_succ_self _)⟩
    | pause round =>
      simp only [run]
      split
      · refine ⟨rest.calm (.alarm _ _ fun _ _ same => by cases same), ?_⟩
        rw [work_alarm]
        exact left ▸ Nat.lt_succ_self _
      · refine ⟨rest.calm (.soon _ (by rintro _ _ ⟨⟩)), ?_⟩
        rw [work_soon, ← left]
        exact Nat.add_lt_add_left (show 26 < 29 by decide) _
    | pauseAlarm round =>
      refine ⟨rest.calm (.soon _ (by rintro _ _ ⟨⟩)), ?_⟩
      simp only [run, work_soon, ← left]
      exact Nat.add_lt_add_left (show 26 < 27 by decide) _
    | pauseOver round =>
      simp only [run]
      split
      · have began : Ready t slots { w with
            agenda, menu := (w.menu.pauseOver round.id).2
            loading := w.loading ++ [{ round, call? := none }] } := by
          refine rest.calm (.of_loading rfl rfl rfl rfl rfl fun l mem => ?_)
          refine (List.mem_append.1 mem).imp_right fun new id waits => ?_
          rw [List.mem_singleton.1 new] at waits
          cases waits
        refine ⟨began.calm (.soon _ (by rintro _ _ ⟨⟩)), ?_⟩
        rw [work_soon, ← left]
        exact Nat.add_lt_add_left (show 25 < 26 by decide) _
      · refine ⟨rest.calm (.withMenu _ _), ?_⟩
        rw [← left]
        exact Nat.lt_add_of_pos_right (show 0 < 26 by decide)

/-- A jump of the clock makes alarms due, and takes some of the work away. -/
theorem jump_ready (h : Ready t slots w) {limit : Option Seconds} {agenda : Agenda Job}
    (jumped : w.agenda.jump? limit = some agenda) :
    Ready t slots { w with agenda } ∧ work { w with agenda } < w.work :=
  ⟨h.calm ⟨rfl, rfl, fun _ there => (Agenda.holds_jump? jumped).2 there,
    fun _ _ there => .inl ((Agenda.holds_jump? jumped).1 there), fun script => script, fun _ h => .inl h,
    fun _ h => .inl h⟩,
    Nat.add_lt_add_right (Agenda.work_jump? jumped) _⟩

/-- A run that is patient enough ends where nothing is due, and where it was to stop or can go no
further. What each step keeps holds there. -/
theorem runUntil_rests {P : Rehearsal → Prop} (stop : Rehearsal → Bool) (limit : Option Seconds)
    (next : ∀ w job agenda, P w → w.agenda.next? = some (job, agenda) →
      P ({ w with agenda }.run job) ∧ ({ w with agenda }.run job).work < w.work)
    (jump : ∀ w agenda, P w → w.agenda.jump? limit = some agenda →
      P { w with agenda } ∧ work { w with agenda } < w.work)
    (fuel : Nat) (w : Rehearsal) (h : P w) (patient : w.work < fuel) :
    P (runUntil stop limit fuel w) ∧ (runUntil stop limit fuel w).agenda.next? = none ∧
      (stop (runUntil stop limit fuel w) = true ∨
        (runUntil stop limit fuel w).agenda.jump? limit = none) := by
  induction fuel generalizing w with
  | zero => cases patient
  | succ fuel ih =>
    unfold runUntil
    split
    · next job agenda found =>
      obtain ⟨h', less⟩ := next w job agenda h found
      exact ih _ h' (by omega)
    · next idle =>
      split
      · next stopped => exact ⟨h, idle, .inl stopped⟩
      · split
        · next agenda jumped =>
          obtain ⟨h', less⟩ := jump w agenda h jumped
          exact ih _ h' (by omega)
        · next stuck => exact ⟨h, idle, .inr stuck⟩

theorem runUntil_ready (h : Ready t slots w) (stop : Rehearsal → Bool) (limit : Option Seconds) :
    Ready t slots (runUntil stop limit w.patience w) :=
  (runUntil_rests (P := Ready t slots) stop limit (fun _ _ _ h found => run_ready h found)
    (fun _ _ h jumped => jump_ready h jumped) _ w h (Nat.lt_succ_self _)).1

end

end Rehearsal

end Typeahead
