import Typeahead.Proofs.Fetch.Eager
import Typeahead.Proofs.Fetch.Failures
import Typeahead.Proofs.Fetch.Fates
import Typeahead.Proofs.Fetch.Work
import Typeahead.Proofs.Rehearsal.Agenda
import Typeahead.Rehearsal

/-!
What is always so in a rehearsal. Whatever the pool owes is on the agenda, or will be once the signals in
the outbox have been acted upon; so nothing that is owed is lost.

- `act_sent_cases`: what becomes of a request that is sent.
- `InOrder.act`: to act on a signal keeps everything in order.
- `InOrder.step`: so does an event of the pool.
-/

namespace Typeahead

/-- What a pool keeps whatever happens to it, as long as no reply is a fault. -/
structure Pool.Sound (t : Terms) (slots : Nat) (p : Pool) : Prop where
  kept : p.books.Kept
  gated : p.Gated slots
  eager : p.gate.Eager
  accounted : p.Accounted t

namespace Pool.Sound

variable {t : Terms} {slots : Nat} {p : Pool}

theorem step (h : p.Sound t slots) (now : Seconds) (e : PoolEvent)
    (faultless : ∀ reply, e.reply? = some reply → reply.isFault = false) :
    (p.step now e).Sound t slots :=
  ⟨step_kept h.kept now e, h.gated.step h.kept now e, step_eager h.eager h.gated h.kept now e,
    step_accounted h.accounted h.kept now e faultless⟩

/-- What is in the outbox does not matter. -/
theorem withOutbox (h : p.Sound t slots) (outbox : List Signal) : Sound t slots { p with outbox } :=
  ⟨h.kept, h.gated, h.eager, ⟨h.accounted.terms, h.accounted.fetches, h.accounted.calls⟩⟩

end Pool.Sound

/-- Whether no reply of a script is a fault. -/
def Script.Faultless (s : Script) : Prop :=
  ∀ r ∈ s, ∀ span reply, .after span reply ∈ r.arrivals → reply.isFault = false

theorem Script.mem_rest {arrivals : List Arrival} {a : Arrival} (mem : a ∈ rest arrivals) :
    a ∈ arrivals := by
  unfold rest at mem
  split at mem
  · exact List.mem_cons_of_mem _ mem
  · exact mem

/-- A request takes no fault from a script without one, and leaves none. -/
theorem Script.Faultless.taken {s : Script} (h : s.Faultless) (name : Text) :
    (∀ span reply, (s.take name).1 = .after span reply → reply.isFault = false) ∧
      (s.take name).2.Faultless := by
  unfold take
  split
  · next a more found =>
    have mem := List.mem_of_find?_eq_some found
    refine ⟨fun span reply same => h _ mem span reply ?_, fun r there span reply arrives => ?_⟩
    · exact same ▸ List.mem_cons_self
    · obtain ⟨r', old, rfl⟩ := List.mem_map.1 there
      split at arrives
      · exact h r' old span reply (mem_rest arrives)
      · exact h r' old span reply arrives
  · refine ⟨fun span reply same => ?_, h⟩
    cases same
    rfl

/-- The job by which something is done that is owed. -/
def Signal.job? : Signal → Option Job
  | .fetchDue id => some (.fetch id)
  | .announceDue id => some (.announce id)
  | .callDue id => some (.call id)
  | .limitSet id => some (.limit id)
  | .sent _ _ | .alarmsOff _ | .settled _ _ => none

/-- The event of the pool that a job is. -/
def Job.event? : Job → Option PoolEvent
  | .fetch id => some (.fetchStep id)
  | .announce id => some (.announce id)
  | .call id => some (.callStep id)
  | .limit id => some (.expire id)
  | .reply id came => some (.arrive id came)
  | .pause _ | .pauseAlarm _ | .pauseOver _ | .load _ => none

theorem Job.answers {s : Signal} {job : Job} {e : PoolEvent} (asked : s.job? = some job)
    (done : job.event? = some e) : e.answers? = some s := by
  cases s with
  | fetchDue | announceDue | callDue | limitSet =>
    cases asked
    cases done
    rfl
  | sent | alarmsOff | settled => cases asked

/-- Jobs have been taken off an agenda, none of those that are owed but the one that an event answers. -/
structure Struck (e : PoolEvent) (before after : Agenda Job) : Prop where
  sub : ∀ job, after.Holds job → before.Holds job
  left : ∀ s job, s.job? = some job → before.Holds job → e.answers? = some s ∨ after.Holds job

theorem Struck.refl (e : PoolEvent) (agenda : Agenda Job) : Struck e agenda agenda :=
  ⟨fun _ there => there, fun _ _ _ there => .inr there⟩

namespace Rehearsal

open Pool

/-- What is owed is on the agenda, or it is a time limit where there is none. -/
def Minds (t : Terms) (w : Rehearsal) (s : Signal) : Prop :=
  ∃ job, s.job? = some job ∧
    (w.agenda.Holds job ∨ t.limit.value? = none ∧ ∃ id, s = .limitSet id)

/-- A call has ended, and nobody has been told or its end is there to be collected. -/
def Ends (signals : List Signal) (w : Rehearsal) (id : Nat) (r : Resolution) : Prop :=
  .settled id r ∈ signals ++ w.pool.outbox ∨ (id, r) ∈ w.settled

/-- Only numbers that were given are in use. -/
structure Numbered (signals : List Signal) (w : Rehearsal) : Prop where
  calls : ∀ c ∈ w.pool.calls, c.id < w.nextCall
  ends : ∀ id r, w.Ends signals id r → id < w.nextCall
  loading : ∀ l ∈ w.loading, ∀ id, l.call? = some id → id < w.nextCall

/-- A rehearsal is in order while `signals` of those that were in the outbox are still to be acted
upon. -/
structure InOrder (t : Terms) (slots : Nat) (signals : List Signal) (w : Rehearsal) : Prop where
  sound : w.pool.Sound t slots
  minded : ∀ s, w.pool.Owes s → s ∈ signals ++ w.pool.outbox ∨ w.Minds t s
  off : ∀ id, .alarmsOff id ∈ signals ++ w.pool.outbox → ¬ w.pool.Owes (.limitSet id)
  replies : ∀ id reply, w.agenda.Holds (.reply id reply) → reply.isFault = false
  script : w.script.Faultless
  numbered : w.Numbered signals

/-- Nothing was done to the pool, nothing was taken off the agenda, no fault was put on it, and no number is
in use that was not given. -/
structure Calm (v w : Rehearsal) : Prop where
  pool : w.pool = v.pool
  nextCall : w.nextCall = v.nextCall
  holds : ∀ job, v.agenda.Holds job → w.agenda.Holds job
  replies : ∀ id reply, w.agenda.Holds (.reply id reply) →
    v.agenda.Holds (.reply id reply) ∨ reply.isFault = false
  script : v.script.Faultless → w.script.Faultless
  settled : ∀ s ∈ w.settled, s ∈ v.settled ∨ s.1 < v.nextCall
  loading : ∀ l ∈ w.loading, l ∈ v.loading ∨ ∀ id, l.call? = some id → id < v.nextCall

section

variable {t : Terms} {slots : Nat} {signals : List Signal} {v w : Rehearsal}

/-- A request that is sent gets no reply, one that is set for later, or one that is there at once. -/
theorem act_sent_cases (w : Rehearsal) (id : Nat) (request : Request) :
    w.act (.sent id request) = (w.send request).2 ∨
    ∃ span reply, (w.script.take request.route).1 = .after span reply ∧
      (w.act (.sent id request) = (w.send request).2.alarm span (.reply id reply) ∨
      w.act (.sent id request) =
        { (w.send request).2 with pool := w.pool.arriveAtOnce w.cacheTime id reply }) := by
  cases arrives : (w.script.take request.route).1 with
  | never => exact .inl (by simp only [act, send, arrives])
  | after span reply =>
    refine .inr ⟨span, reply, rfl, ?_⟩
    by_cases later : 0 < span
    · exact .inl (by simp only [act, send, arrives, if_pos later])
    · refine .inr ?_
      simp only [act, send, arrives, if_neg later]
      rfl

namespace Calm

theorem of_loading (pool : w.pool = v.pool) (nextCall : w.nextCall = v.nextCall)
    (agenda : w.agenda = v.agenda) (script : w.script = v.script) (settled : w.settled = v.settled)
    (loading : ∀ l ∈ w.loading, l ∈ v.loading ∨ ∀ id, l.call? = some id → id < v.nextCall) : Calm v w :=
  ⟨pool, nextCall, fun _ h => agenda ▸ h, fun _ _ h => .inl (agenda ▸ h), fun h => script ▸ h,
    fun _ h => .inl (settled ▸ h), loading⟩

theorem withMenu (w : Rehearsal) (menu : Menu) : Calm w { w with menu } :=
  of_loading rfl rfl rfl rfl rfl fun _ h => .inl h

theorem soon (w : Rehearsal) {job : Job} (silent : ∀ id reply, job ≠ .reply id reply) :
    Calm w (w.soon job) := by
  refine ⟨rfl, rfl, fun _ h => Agenda.holds_soon.2 (.inl h), fun id reply h => .inl ?_, fun h => h,
    fun _ h => .inl h, fun _ h => .inl h⟩
  exact (Agenda.holds_soon.1 h).resolve_right fun same => silent id reply same.symm

theorem alarm (w : Rehearsal) (span : Seconds) {job : Job}
    (faultless : ∀ id reply, job = .reply id reply → reply.isFault = false) :
    Calm w (w.alarm span job) :=
  ⟨rfl, rfl, fun _ h => Agenda.holds_after.2 (.inl h),
    fun id reply h => (Agenda.holds_after.1 h).imp_right fun same => faultless id reply same.symm,
    fun h => h, fun _ h => .inl h, fun _ h => .inl h⟩

theorem send (w : Rehearsal) (request : Request) : Calm w (w.send request).2 :=
  ⟨rfl, rfl, fun _ h => h, fun _ _ h => .inl h, fun h => (h.taken request.route).2, fun _ h => .inl h,
    fun _ h => .inl h⟩

theorem finishRound (w : Rehearsal) (round : Round) (resolution : Resolution) :
    Calm w (w.finishRound round resolution) := by
  have fewer : ∀ l ∈ w.loading.filter fun l => l.round.id != round.id,
      l ∈ w.loading ∨ ∀ id, l.call? = some id → id < w.nextCall :=
    fun l mem => .inl (List.mem_filter.1 mem).1
  unfold Rehearsal.finishRound
  dsimp only
  split
  · exact of_loading rfl rfl rfl rfl rfl fewer
  · exact of_loading rfl rfl rfl rfl rfl fewer

theorem collected (w : Rehearsal) {call : Nat} (given : call < w.nextCall) (resolution : Resolution) :
    Calm w { w with settled := w.settled ++ [(call, resolution)] } := by
  refine ⟨rfl, rfl, fun _ h => h, fun _ _ h => .inl h, fun h => h, fun s mem => ?_, fun _ h => .inl h⟩
  rcases List.mem_append.1 mem with old | new
  · exact .inl old
  · rw [List.mem_singleton.1 new]
    exact .inr given

theorem settle (w : Rehearsal) {call : Nat} (given : call < w.nextCall) (resolution : Resolution) :
    Calm w (w.settle call resolution) := by
  unfold Rehearsal.settle
  split
  · exact .finishRound ..
  · exact collected w given resolution

end Calm

namespace InOrder

theorem calm (h : InOrder t slots signals v) (calm : Calm v w) : InOrder t slots signals w := by
  obtain ⟨pool, nextCall, holds, replies, script, settled, loading⟩ := calm
  refine ⟨pool ▸ h.sound, fun s owed => ?_, pool ▸ h.off, fun id reply there => ?_, script h.script,
    pool ▸ nextCall ▸ h.numbered.calls, fun id r ends => ?_, fun l mem id waits => ?_⟩
  · rw [pool] at owed ⊢
    exact (h.minded s owed).imp_right fun ⟨job, asked, there⟩ => ⟨job, asked, there.imp_left (holds job)⟩
  · exact (replies id reply there).elim (h.replies id reply) fun faultless => faultless
  · rw [nextCall]
    rcases ends with posted | there
    · exact h.numbered.ends id r (.inl (pool ▸ posted))
    · exact (settled _ there).elim (fun old => h.numbered.ends id r (.inr old)) fun given => given
  · rw [nextCall]
    exact (loading l mem).elim (fun old => h.numbered.loading l old id waits) fun given => given id waits

/-- A signal has been acted upon. -/
theorem acted {s : Signal} (h : InOrder t slots (s :: signals) w)
    (minded : w.pool.Owes s → w.Minds t s) : InOrder t slots signals w := by
  refine ⟨h.sound, fun s' owed => ?_, fun id mem => h.off id (List.mem_cons_of_mem _ mem), h.replies,
    h.script, h.numbered.calls, fun id r ends => h.numbered.ends id r ?_, h.numbered.loading⟩
  rcases h.minded s' owed with posted | minds
  · rcases List.mem_cons.1 posted with rfl | later
    · exact .inr (minded owed)
    · exact .inl later
  · exact .inr minds
  · exact ends.imp_left (List.mem_cons_of_mem _)

/-- An event of the pool answers a signal, and may be taken off the agenda with its job. -/
theorem step (h : InOrder t slots signals w) (now : Seconds) {e : PoolEvent} {agenda : Agenda Job}
    {nextCall : Nat} (struck : Struck e w.agenda agenda)
    (faultless : ∀ reply, e.reply? = some reply → reply.isFault = false)
    (posted : ∀ s ∈ w.pool.outbox, s ∈ (w.pool.step now e).outbox)
    (limits : ∀ id, .alarmsOff id ∈ signals ++ w.pool.outbox →
      (w.pool.step now e).Owes (.limitSet id) → w.pool.Owes (.limitSet id))
    (later : w.nextCall ≤ nextCall) (opened : ∀ id context, e = .openCall id context → id < nextCall) :
    InOrder t slots signals { w with agenda, pool := w.pool.step now e, nextCall } := by
  refine ⟨h.sound.step _ e faultless, fun s owed => ?_, fun id off owed => ?_,
    fun id reply there => h.replies id reply (struck.sub _ there), h.script, fun x mem => ?_,
    fun id r ends => ?_, fun l mem id waits => (h.numbered.loading l mem id waits).trans_le later⟩
  · rcases step_owes h.sound.kept _ e owed with new | ⟨before, unanswered⟩
    · exact .inl (List.mem_append_right _ new)
    · rcases h.minded s before with waits | ⟨job, asked, there | without⟩
      · exact .inl (List.mem_append.2 ((List.mem_append.1 waits).imp_right (posted s)))
      · exact .inr ⟨job, asked, .inl ((struck.left s job asked there).resolve_left unanswered)⟩
      · exact .inr ⟨job, asked, .inr without⟩
  · rcases List.mem_append.1 off with early | late
    · exact h.off id (List.mem_append_left _ early) (limits id (List.mem_append_left _ early) owed)
    · rcases step_off h.sound.kept _ e late with before | silent
      · exact h.off id (List.mem_append_right _ before) (limits id (List.mem_append_right _ before) owed)
      · exact silent owed
  · rcases (step_follows h.sound.kept now e).origin x mem with ⟨context, same⟩ | ⟨c, old, same, -⟩
    · exact opened x.id context same
    · exact same ▸ (h.numbered.calls c old).trans_le later
  · rcases ends with posted | there
    · rcases List.mem_append.1 posted with early | late
      · exact (h.numbered.ends id r (.inl (List.mem_append_left _ early))).trans_le later
      · rcases (step_follows h.sound.kept now e).settled id r late with before | ⟨c, mem, rfl, -⟩
        · exact (h.numbered.ends id r (.inl (List.mem_append_right _ before))).trans_le later
        · exact (h.numbered.calls c mem).trans_le later
    · exact (h.numbered.ends id r (.inr there)).trans_le later

/-- A reply that is there at once ends its fetch in the midst of the signals. -/
theorem arriveAtOnce (h : InOrder t slots signals w) (id : Nat) {reply : Reply}
    (faultless : reply.isFault = false) :
    InOrder t slots signals { w with pool := w.pool.arriveAtOnce w.cacheTime id reply } := by
  have came : ∀ r, PoolEvent.reply? (.arriveAtOnce id reply) = some r → r.isFault = false :=
    fun r same => Option.some.inj same ▸ faultless
  obtain same | finished := arriveAtOnce_steps h.sound.kept w.cacheTime id reply
  · rw [same]
    exact h
  · exact h.step w.cacheTime (.refl (.arriveAtOnce id reply) w.agenda) came finished.outbox
      (fun i _ => finished.limits i) (Nat.le_refl _) (by rintro _ _ ⟨⟩)

/-- The alarms of a fetch are off that is not owed a time limit: no alarm is dropped that minds anything. -/
theorem dropped {id : Nat} (h : InOrder t slots signals w) (limited : ¬ w.pool.Owes (.limitSet id)) :
    InOrder t slots signals { w with agenda := w.agenda.drop (Job.isAlarmOf id) } := by
  refine ⟨h.sound, fun s owed => ?_, h.off, fun i reply there => ?_, h.script,
    ⟨h.numbered.calls, h.numbered.ends, h.numbered.loading⟩⟩
  · refine (h.minded s owed).imp_right fun ⟨job, asked, there⟩ => ⟨job, asked, ?_⟩
    refine there.imp_left fun held => Agenda.holds_drop.2 (held.imp_right fun set => ⟨?_, set⟩)
    cases s with
    | limitSet i =>
      cases asked
      have other : i ≠ id := fun same => limited (same ▸ owed)
      simpa [Job.isAlarmOf] using other
    | fetchDue | announceDue | callDue =>
      cases asked
      rfl
    | sent | alarmsOff | settled => cases asked
  · refine h.replies i reply ?_
    exact (Agenda.holds_drop.1 there).imp_right fun set => set.2

/-- To act on a signal keeps everything in order. -/
theorem act {s : Signal} (h : InOrder t slots (s :: signals) w) : InOrder t slots signals (w.act s) := by
  have due {job : Job} (asked : s.job? = some job) (silent : ∀ id reply, job ≠ .reply id reply) :
      InOrder t slots signals (w.soon job) :=
    (h.calm (.soon w silent)).acted fun _ => ⟨job, asked, .inl (Agenda.holds_soon.2 (.inr rfl))⟩
  have unowed (nobody : s.job? = none) : ¬ w.pool.Owes s := by
    rintro (⟨f, -, due⟩ | ⟨c, -, due⟩)
    · unfold Fetch.due? at due
      split at due <;> cases due <;> cases nobody
    · rw [(Call.due?_eq_some due).2] at nobody
      cases nobody
  cases s with
  | fetchDue id => exact due rfl nofun
  | announceDue id => exact due rfl nofun
  | callDue id => exact due rfl nofun
  | limitSet id =>
    have limit : w.pool.limit = t.limit := congrArg Terms.limit h.sound.accounted.terms
    simp only [Rehearsal.act, limit]
    split
    · next span _ =>
      exact (h.calm (.alarm w span fun _ _ same => by cases same)).acted fun _ =>
        ⟨_, rfl, .inl (Agenda.holds_after.2 (.inr rfl))⟩
    · next without => exact h.acted fun _ => ⟨_, rfl, .inr ⟨without, id, rfl⟩⟩
  | sent id request =>
    have sent := (h.acted fun owed => absurd owed (unowed rfl)).calm (.send w request)
    have faultless := (h.script.taken request.route).1
    obtain never | ⟨span, reply, arrives, later | atOnce⟩ := w.act_sent_cases id request
    · rwa [never]
    · rw [later]
      refine sent.calm (.alarm _ span fun _ _ same => ?_)
      cases same
      exact faultless span reply arrives
    · rw [atOnce]
      exact sent.arriveAtOnce id (faultless span reply arrives)
  | alarmsOff id =>
    have limited := h.off id (List.mem_append_left _ List.mem_cons_self)
    exact (h.acted fun owed => absurd owed (unowed rfl)).dropped limited
  | settled call resolution =>
    have given : call < w.nextCall :=
      h.numbered.ends call resolution (.inl (List.mem_append_left _ List.mem_cons_self))
    exact (h.acted fun owed => absurd owed (unowed rfl)).calm (.settle w given resolution)

/-- The signals in the outbox are taken out to be acted upon. -/
theorem takenOut (h : InOrder t slots [] w) :
    InOrder t slots w.pool.outbox { w with pool := { w.pool with outbox := [] } } := by
  have same : w.pool.outbox ++ [] = [] ++ w.pool.outbox := List.append_nil _
  exact ⟨h.sound.withOutbox [], fun s owed => (h.minded s owed).imp_left fun mem => same ▸ mem,
    fun id mem => h.off id (same ▸ mem), h.replies, h.script, h.numbered.calls,
    fun id r ends => h.numbered.ends id r (ends.imp_left fun mem => same ▸ mem), h.numbered.loading⟩

end InOrder

/-- What holds while signals are acted upon one after the other. -/
theorem foldl_act {P : List Signal → Rehearsal → Prop}
    (act : ∀ s signals w, P (s :: signals) w → P signals (w.act s)) (signals : List Signal)
    (w : Rehearsal) (h : P signals w) : P [] (signals.foldl Rehearsal.act w) := by
  induction signals generalizing w with
  | nil => exact h
  | cons s signals ih => exact ih (w.act s) (act s signals w h)

/-- What holds while the outbox is emptied, from one signal to the next. -/
theorem flush_induction {P : List Signal → Rehearsal → Prop}
    (take : ∀ w, P [] w → P w.pool.outbox { w with pool := { w.pool with outbox := [] } })
    (act : ∀ s signals w, P (s :: signals) w → P signals (w.act s)) (fuel : Nat) (w : Rehearsal)
    (h : P [] w) : P [] (flush fuel w) := by
  induction fuel generalizing w with
  | zero => exact h
  | succ fuel ih =>
    unfold flush
    split
    · exact h
    · exact ih _ (foldl_act act _ _ (take w h))

theorem pool_act_of_notice {s : Signal} (notice : s.isNotice = true) (w : Rehearsal) :
    (w.act s).pool = w.pool := by
  cases s with
  | fetchDue | announceDue | alarmsOff => rfl
  | callDue | limitSet | sent | settled => cases notice

/-- Whatever is posted while signals are acted upon are notices. -/
theorem notices_act {s : Signal} (h : InOrder t slots (s :: signals) w) :
    ∀ x ∈ (w.act s).pool.outbox, x ∈ w.pool.outbox ∨ x.isNotice = true := by
  have still {w' : Rehearsal} (same : w'.pool = w.pool) :
      ∀ x ∈ w'.pool.outbox, x ∈ w.pool.outbox ∨ x.isNotice = true :=
    fun x mem => .inl (same ▸ mem)
  cases s with
  | fetchDue | announceDue | alarmsOff | callDue => exact still rfl
  | settled call resolution =>
    have given : call < w.nextCall :=
      h.numbered.ends call resolution (.inl (List.mem_append_left _ List.mem_cons_self))
    exact still (Calm.settle w given resolution).pool
  | limitSet id =>
    simp only [Rehearsal.act]
    split
    · exact still rfl
    · exact still rfl
  | sent id request =>
    obtain never | ⟨span, reply, -, later | atOnce⟩ := w.act_sent_cases id request
    · rw [never]
      exact still rfl
    · rw [later]
      exact still rfl
    · rw [atOnce]
      obtain same | finished := arriveAtOnce_steps h.sound.kept w.cacheTime id reply
      · exact still same
      · exact finished.notices

/-- Three rounds empty the outbox: in the first one replies that are there at once post notices, and
nothing comes of these. -/
theorem outbox_flush (h : InOrder t slots [] w) : (flush 3 w).pool.outbox = [] := by
  let first := w.pool.outbox.foldl Rehearsal.act { w with pool := { w.pool with outbox := [] } }
  have notices : InOrder t slots [] first ∧ ∀ x ∈ first.pool.outbox, x.isNotice = true :=
    foldl_act (P := fun signals w => InOrder t slots signals w ∧ ∀ x ∈ w.pool.outbox, x.isNotice = true)
      (fun s signals w h => ⟨h.1.act, fun x mem => (notices_act h.1 x mem).elim (h.2 x) id⟩) _ _
      ⟨h.takenOut, nofun⟩
  let second := first.pool.outbox.foldl Rehearsal.act { first with pool := { first.pool with outbox := [] } }
  have empty : second.pool.outbox = [] :=
    (foldl_act (P := fun signals w => (∀ x ∈ signals, x.isNotice = true) ∧ w.pool.outbox = [])
      (fun s signals w h => ⟨fun x mem => h.1 x (List.mem_cons_of_mem _ mem),
        (pool_act_of_notice (h.1 s List.mem_cons_self) w).symm ▸ h.2⟩) _ _ ⟨notices.2, rfl⟩).2
  unfold flush
  split
  · next none => exact List.isEmpty_iff.1 none
  · unfold flush
    split
    · next none => exact List.isEmpty_iff.1 none
    · have last : second.pool.outbox.isEmpty = true := List.isEmpty_iff.2 empty
      change (flush 1 second).pool.outbox = []
      unfold flush
      rw [if_pos last]
      exact empty

theorem work_finishRound (w : Rehearsal) (round : Round) (resolution : Resolution) :
    (w.finishRound round resolution).work = w.work := by
  unfold finishRound
  dsimp only
  split <;> rfl

theorem work_soon (w : Rehearsal) (job : Job) : (w.soon job).work = w.work + job.work := by
  simp only [work, soon, Agenda.work_soon]
  omega

theorem work_alarm (w : Rehearsal) (span : Seconds) (job : Job) :
    (w.alarm span job).work = w.work + job.work + 1 := by
  simp only [work, alarm, Agenda.work_after]
  omega

/-- Nothing that comes of a signal is more work than the signal. -/
theorem work_act {s : Signal} (h : InOrder t slots (s :: signals) w) :
    (w.act s).work ≤ w.work + s.work := by
  cases s with
  | fetchDue id => exact (work_soon w (.fetch id)).le
  | announceDue id => exact (work_soon w (.announce id)).le
  | callDue id => exact (work_soon w (.call id)).le
  | limitSet id =>
    simp only [Rehearsal.act]
    split
    · exact (work_alarm w _ (.limit id)).le
    · exact Nat.le_add_right ..
  | sent id request =>
    obtain never | ⟨span, reply, -, later | atOnce⟩ := w.act_sent_cases id request
    · rw [never]
      exact Nat.le_add_right ..
    · rw [later]
      exact (work_alarm _ span (.reply id reply)).le
    · rw [atOnce]
      have less := work_arriveAtOnce h.sound.gated h.sound.kept w.cacheTime id reply
      exact (Nat.add_le_add_left less (w.agenda.work Job.work)).trans (Nat.le_add_right ..)
  | alarmsOff id => exact Nat.add_le_add_right (Agenda.work_drop _) _
  | settled call resolution =>
    simp only [Rehearsal.act, settle]
    split
    · exact (work_finishRound ..).le
    · exact Nat.le_refl _

/-- A pool is put in place, and all that it posted is acted upon. -/
theorem InOrder.withPool {pool : Pool} (h : InOrder t slots [] { w with pool }) :
    InOrder t slots [] (w.withPool pool) ∧ (w.withPool pool).pool.outbox = [] ∧
      (w.withPool pool).work ≤ { w with pool }.work := by
  let Within (most : Nat) (signals : List Signal) (w : Rehearsal) : Prop :=
    InOrder t slots signals w ∧ w.work + total Signal.work signals ≤ most
  have within := flush_induction (P := Within { w with pool }.work)
    (fun v ⟨order, less⟩ => by
      refine ⟨order.takenOut, ?_⟩
      simp only [work, Pool.work, total, Nat.add_zero] at less ⊢
      omega)
    (fun s signals v ⟨order, less⟩ => by
      refine ⟨order.act, ?_⟩
      have more := work_act order
      simp only [total] at less
      omega)
    3 { w with pool } ⟨h, Nat.le_refl _⟩
  exact ⟨within.1, outbox_flush h, within.2⟩

end

end Rehearsal

end Typeahead
