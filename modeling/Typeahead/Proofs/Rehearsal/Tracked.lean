import Typeahead.Proofs.Rehearsal.Progress

/-!
What becomes of one call in a rehearsal. As long as nobody gives it up it is under way, or has ended and is
there to be collected; and it ends with findings, or with one of a few failures.

- `resolve_ends`: whoever asks for the names of a context gets an end of this kind.
-/

namespace Typeahead

/-- What a call for a lookup may fail with: access is refused, a name fits no path in a lookup of a key that
it goes by, or there is no room for the names. -/
def Failure.Escapes (t : Terms) (wanted : Lookup) : Failure → Prop
  | .catalog error => error.kind = .unauthorized
  | .slashName name => ∃ current l : Lookup, wanted.LeadsTo current ∧ l.key t.site = current.key t.site ∧
      l.path t.base = .error ⟨name⟩
  | .cache error => error = .noRoom ∧ t.size = 0
  | .fault _ => False

/-- How a call for a lookup may end that nobody gives up. -/
def Resolution.Fits (t : Terms) (wanted : Lookup) : Resolution → Prop
  | .done _ => True
  | .failed failure => failure.Escapes t wanted
  | .cancelled => False

/-- Trouble of the catalog is a finding, unless access is refused. -/
theorem Call.Accounted.fits {t : Terms} {c : Call} (h : c.Accounted t) (going : c.abandoned = false)
    {outcome : Outcome} (ended : c.stage = .ended outcome) : (c.resolution outcome).Fits t c.wanted := by
  have accounted := h.ended outcome ended
  cases outcome with
  | names | stopped => simp [Call.resolution, going, Resolution.Fits]
  | failed failure =>
    cases failure with
    | catalog error =>
      by_cases refused : error.kind = .unauthorized
      · simp [Call.resolution, going, refused, Resolution.Fits, Failure.Escapes]
      · simp [Call.resolution, going, refused, Resolution.Fits]
    | slashName name =>
      obtain ⟨l, key, fails⟩ := accounted
      simp only [Call.resolution, going, Bool.false_eq_true, if_false]
      exact ⟨c.current, l, h.course, key, fails⟩
    | cache error =>
      simp only [Call.resolution, going, Bool.false_eq_true, if_false]
      exact accounted
    | fault reason => cases accounted

namespace Rehearsal

open Pool

/-- A call for a lookup is under way, or its end is there to be collected. -/
structure Tracked (t : Terms) (id : Nat) (wanted : Lookup) (w : Rehearsal) : Prop where
  given : id < w.nextCall
  going : ∀ c ∈ w.pool.calls, c.id = id → c.wanted = wanted ∧ c.abandoned = false
  fits : ∀ r, (id, r) ∈ w.settled → r.Fits t wanted
  present : (∃ c ∈ w.pool.calls, c.id = id) ∨ ∃ r, (id, r) ∈ w.settled
  apart : ∀ l ∈ w.loading, l.call? ≠ some id

section

variable {t : Terms} {slots id : Nat} {wanted : Lookup} {w : Rehearsal}

namespace Tracked

/-- An event happens to the pool that neither opens the call nor gives it up. -/
theorem event (h : Tracked t id wanted w) (ready : Ready t slots w) (now : Seconds) {e : PoolEvent}
    {agenda : Agenda Job} {nextCall : Nat} (struck : Struck e w.agenda agenda)
    (faultless : ∀ reply, e.reply? = some reply → reply.isFault = false) (later : w.nextCall ≤ nextCall)
    (opened : ∀ i context, e = .openCall i context → i < nextCall ∧ i ≠ id)
    (unabandoned : e ≠ .abandon id) :
    Tracked t id wanted ({ w with agenda, nextCall }.withPool (w.pool.step now e)) := by
  have order := ready.step now struck faultless later fun i context same => (opened i context same).1
  have relayed := withPool_relays (w := { w with agenda, nextCall }) order
  obtain ⟨-, empty, -⟩ := InOrder.withPool (w := { w with agenda, nextCall }) order
  have followed := step_follows ready.order.sound.kept now e
  have collected {r : Resolution}
      (ends : Ends [] ({ w with agenda, nextCall }.withPool (w.pool.step now e)) id r) :
      (id, r) ∈ ({ w with agenda, nextCall }.withPool (w.pool.step now e)).settled :=
    ends.resolve_left fun posted => by simp [empty] at posted
  refine ⟨?_, fun x mem same => ?_, fun r there => ?_, ?_, fun l mem => h.apart l (relayed.loading l mem)⟩
  · rw [relayed.nextCall]
    exact h.given.trans_le later
  · rw [relayed.calls] at mem
    rcases followed.origin x mem with ⟨context, opens⟩ | ⟨c, old, number, same', gone⟩
    · exact absurd same (opened _ context opens).2
    · obtain ⟨wants, stays⟩ := h.going c old (number.trans same)
      refine ⟨same'.symm.trans wants, Bool.eq_false_iff.2 fun left => ?_⟩
      rcases gone left with before | abandons
      · cases stays.symm.trans before
      · exact unabandoned (same ▸ abandons)
  · rcases relayed.ends id r (.inr there) with posted | before
    · rcases followed.settled id r posted with waits | ⟨c, mem, number, outcome, ended, rfl⟩
      · simp [ready.empty] at waits
      · obtain ⟨wants, stays⟩ := h.going c mem number
        exact wants ▸ (accounted_of_briefed (ready.order.sound.accounted.calls c mem)).fits stays ended
    · exact h.fits r before
  · rcases h.present with ⟨c, mem, number⟩ | ⟨r, there⟩
    · rcases followed.fate c mem with ⟨x, mem', same⟩ | ⟨r, posted⟩
      · exact .inl ⟨x, relayed.calls ▸ mem', same.trans number⟩
      · exact .inr ⟨r, collected (relayed.lasts id r h.apart (.inl (number ▸ posted)))⟩
    · exact .inr ⟨r, collected (relayed.lasts id r h.apart (.inr there))⟩

/-- Nothing has happened to calls and their ends. -/
theorem aside {v : Rehearsal} (h : Tracked t id wanted w) (pool : v.pool = w.pool)
    (nextCall : v.nextCall = w.nextCall) (settled : v.settled = w.settled)
    (loading : ∀ l ∈ v.loading, l ∈ w.loading ∨ l.call? ≠ some id) : Tracked t id wanted v :=
  ⟨nextCall ▸ h.given, pool ▸ h.going, settled ▸ h.fits, pool ▸ settled ▸ h.present,
    fun l mem => (loading l mem).elim (h.apart l) fun other => other⟩

theorem finishRound (h : Tracked t id wanted w) (round : Round) (r : Resolution) :
    Tracked t id wanted (w.finishRound round r) := by
  have fewer : ∀ l ∈ w.loading.filter fun l => l.round.id != round.id,
      l ∈ w.loading ∨ l.call? ≠ some id := fun l mem => .inl (List.mem_filter.1 mem).1
  unfold Rehearsal.finishRound
  dsimp only
  split
  · exact h.aside rfl rfl rfl fewer
  · exact h.aside rfl rfl rfl fewer

theorem loadRound (h : Tracked t id wanted w) (ready : Ready t slots w) (round : Round) :
    Tracked t id wanted (w.loadRound round) := by
  unfold Rehearsal.loadRound
  split
  · exact h.aside rfl rfl rfl fun l mem => .inl (List.mem_filter.1 mem).1
  · next menu _ =>
    have placed : Ready t slots { w with menu } := ready.calm (.withMenu w menu)
    have still : Tracked t id wanted { w with menu } := h.aside rfl rfl rfl fun _ mem => .inl mem
    have other : w.nextCall ≠ id := h.given.ne'
    have opened := still.event placed (cacheTime { w with menu })
      (.refl (.openCall w.nextCall (contextOf menu.language round.text round.cursor)) w.agenda) nofun
      (Nat.le_succ w.nextCall) (fun i context same => by
        cases same
        exact ⟨Nat.lt_succ_self _, other⟩) nofun
    simp only [openCall_eq placed]
    split
    · exact opened.finishRound ..
    · refine opened.aside rfl rfl rfl fun l mem => ?_
      obtain ⟨l', old, rfl⟩ := List.mem_map.1 mem
      split
      · exact .inr fun same => other (Option.some.inj same)
      · exact .inl old

theorem run (h : Tracked t id wanted w) (ready : Ready t slots w) {job : Job} {agenda : Agenda Job}
    (found : w.agenda.next? = some (job, agenda)) : Tracked t id wanted ({ w with agenda }.run job) := by
  cases done : job.event? with
  | some e =>
    have quiet := (Job.work_of_event? done).1
    rw [run_of_event? done]
    refine h.event ready _ (.of_next? found done) (ready.faultless found done) (Nat.le_refl _)
      (fun i context same => ?_) fun same => ?_
    · rw [same] at quiet
      cases quiet
    · rw [same] at quiet
      cases quiet
  | none =>
    have rest : Tracked t id wanted { w with agenda } := h.aside rfl rfl rfl fun _ mem => .inl mem
    cases job with
    | fetch | announce | call | limit | reply => cases done
    | load round => exact rest.loadRound (ready.next found done) round
    | pause round =>
      simp only [Rehearsal.run]
      split
      · exact rest.aside rfl rfl rfl fun _ mem => .inl mem
      · exact rest.aside rfl rfl rfl fun _ mem => .inl mem
    | pauseAlarm round => exact rest.aside rfl rfl rfl fun _ mem => .inl mem
    | pauseOver round =>
      simp only [Rehearsal.run]
      split
      · refine rest.aside rfl rfl rfl fun l mem => ?_
        refine (List.mem_append.1 mem).imp_right fun new waits => ?_
        rw [List.mem_singleton.1 new] at waits
        cases waits
      · exact rest.aside rfl rfl rfl fun _ mem => .inl mem

end Tracked

/-- A call that is opened has ended at once, with nothing to look for or with a refusal, or is under way. -/
theorem openCall_cases (h : Ready t slots w) (context : Context) :
    (∃ r v, w.openCall context = (w.nextCall, some r, v) ∧
      (r = .done .nothing ∨ ∃ wanted, context.lookup? = some wanted ∧ r.Fits t wanted)) ∨
    ∃ wanted v, w.openCall context = (w.nextCall, none, v) ∧ context.lookup? = some wanted ∧
      Ready t slots v ∧ Tracked t w.nextCall wanted v := by
  have same := openCall_eq h context
  cases asks : context.lookup? with
  | none =>
    have nothing : (w.pool.openCall w.nextCall context).1 = some (.done .nothing) := by
      simp only [Pool.openCall, asks]
    exact .inl ⟨_, _, nothing ▸ same, .inl rfl⟩
  | some wanted =>
    cases blocked : w.pool.refusal? with
    | some reply =>
      have refused : (w.pool.openCall w.nextCall context).1 = some (.failed (.catalog (.blocked reply))) := by
        simp only [Pool.openCall, asks, blocked]
      exact .inl ⟨.failed (.catalog (.blocked reply)), _, refused ▸ same, .inr ⟨wanted, rfl, rfl⟩⟩
    | none =>
      let call : Call := { id := w.nextCall, wanted, current := wanted }
      have opened : w.pool.openCall w.nextCall context =
          (none, ({ w.pool with calls := w.pool.calls ++ [call] } : Pool).post (.callDue w.nextCall)) := by
        simp only [Pool.openCall, asks, blocked, call]
      have relayed := withPool_relays (w := { w with nextCall := w.nextCall + 1 }) (openCall_step h context)
      have ready := (openCall_ready h context).1
      have empty := ready.empty
      rw [same] at ready empty
      rw [opened] at same
      have numbered := h.order.numbered
      refine .inr ⟨wanted, _, same, rfl, ready, ?_, fun c mem number => ?_, fun r there => ?_, .inl ?_,
        fun l mem waits => ?_⟩
      · rw [relayed.nextCall]
        exact Nat.lt_succ_self _
      · rw [relayed.calls, step_openCall h, opened] at mem
        rcases List.mem_append.1 mem with old | new
        · exact absurd (numbered.calls c old) (number ▸ Nat.lt_irrefl _)
        · rw [List.mem_singleton.1 new]
          exact ⟨rfl, rfl⟩
      · rcases relayed.ends w.nextCall r (.inr there) with posted | before
        · rw [step_openCall h, opened] at posted
          rcases mem_post.1 posted with old | new
          · simp [h.empty] at old
          · cases new
        · exact absurd (numbered.ends w.nextCall r (.inr before)) (Nat.lt_irrefl _)
      · rw [relayed.calls, step_openCall h, opened]
        exact ⟨call, List.mem_append_right _ (List.mem_singleton.2 rfl), rfl⟩
      · exact Nat.lt_irrefl _ (numbered.loading l (relayed.loading l mem) _ waits)

/-- A call that is waited for ends, unless there are no slots or it has no limit. -/
theorem Tracked.waitFor (h : Tracked t id wanted w) (ready : Ready t slots w) :
    match ((w.waitFor (hasSettled id)).collect id).1 with
    | some r => r.Fits t wanted
    | none => slots = 0 ∨ t.limit.value? = none := by
  obtain ⟨⟨ready', tracked⟩, idle, stopped⟩ :=
    runUntil_rests (P := fun v => Ready t slots v ∧ Tracked t id wanted v) (hasSettled id) none
      (fun v job agenda ⟨ready, tracked⟩ found =>
        ⟨⟨(run_ready ready found).1, tracked.run ready found⟩, (run_ready ready found).2⟩)
      (fun v agenda ⟨ready, tracked⟩ jumped =>
        ⟨⟨(jump_ready ready jumped).1, tracked.aside rfl rfl rfl fun _ mem => .inl mem⟩,
          (jump_ready ready jumped).2⟩)
      w.patience w ⟨ready, h⟩ (Nat.lt_succ_self _)
  change (w.waitFor (hasSettled id)).agenda.next? = none at idle
  change hasSettled id (w.waitFor (hasSettled id)) = true ∨
    (w.waitFor (hasSettled id)).agenda.jump? none = none at stopped
  change Ready t slots (w.waitFor (hasSettled id)) at ready'
  change Tracked t id wanted (w.waitFor (hasSettled id)) at tracked
  generalize w.waitFor (hasSettled id) = v at *
  have ends : (∃ r, (id, r) ∈ v.settled) ∨ slots = 0 ∨ t.limit.value? = none := by
    rcases stopped with there | stuck
    · simp only [hasSettled, List.any_eq_true, decide_eq_true_eq] at there
      obtain ⟨⟨_, r⟩, mem, rfl⟩ := there
      exact .inl ⟨r, mem⟩
    · by_contra! missing
      obtain ⟨none, some, limited⟩ := missing
      have unowed (s : Signal) : ¬ v.pool.Owes s := by
        intro owed
        rcases ready'.order.minded s owed with posted | ⟨job, -, held | ⟨without, -⟩⟩
        · simp [ready'.empty] at posted
        · exact Agenda.not_holds idle stuck held
        · exact limited without
      have sound := ready'.order.sound
      obtain ⟨-, calls⟩ := nothing_left_of_unowed sound.eager sound.gated sound.kept some unowed
      rcases tracked.present with ⟨c, mem, -⟩ | ⟨r, there⟩
      · simp [calls] at mem
      · exact none r there
  change match v.settled.lookup id with | some r => r.Fits t wanted | none => slots = 0 ∨ t.limit.value? = none
  cases found : v.settled.lookup id with
  | some r =>
    obtain ⟨before, after, settled, -⟩ := List.lookup_eq_some_iff.1 found
    exact tracked.fits r (by simp [settled])
  | none =>
    refine ends.resolve_left fun ⟨r, there⟩ => ?_
    simpa using List.lookup_eq_none_iff.1 found (id, r) there

/-- Whoever asks for the names of a context gets an end, unless there are no slots or there is no limit. -/
theorem resolve_ends (h : Ready t slots w) (context : Context) :
    match (w.resolve context).1 with
    | some r => r = .done .nothing ∨ ∃ wanted, context.lookup? = some wanted ∧ r.Fits t wanted
    | none => slots = 0 ∨ t.limit.value? = none := by
  unfold resolve
  obtain ⟨r, v, opened, fits⟩ | ⟨wanted, v, opened, asks, ready, tracked⟩ := openCall_cases h context
  · simp only [opened]
    exact fits
  · simp only [opened]
    have ends := tracked.waitFor ready
    generalize ((v.waitFor (hasSettled w.nextCall)).collect w.nextCall).1 = outcome at ends ⊢
    cases outcome with
    | some r => exact .inr ⟨wanted, asks, ends⟩
    | none => exact ends

end

end Rehearsal

end Typeahead
