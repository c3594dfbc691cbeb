import Typeahead.Proofs.Rehearsal.Order

/-!
How the ends of calls are passed on. While the outbox is emptied no call comes or goes; the end of a call
goes to the round that waits for it, or else is there to be collected.

- `withPool_relays`: from the pool that is put in place to the rehearsal in which the outbox is empty.
-/

namespace Typeahead.Rehearsal

open Pool

/-- Signals have been acted upon, from those `before` to those `after`. No call has come or gone, no end
has come, and none has gone but to a round that waits for it. -/
structure Relayed (before : List Signal) (v : Rehearsal) (after : List Signal) (w : Rehearsal) : Prop where
  nextCall : w.nextCall = v.nextCall
  calls : w.pool.calls = v.pool.calls
  loading : ∀ l ∈ w.loading, l ∈ v.loading
  ends : ∀ id r, w.Ends after id r → v.Ends before id r
  lasts : ∀ id r, (∀ l ∈ v.loading, l.call? ≠ some id) → v.Ends before id r → w.Ends after id r

section

variable {t : Terms} {slots : Nat} {signals : List Signal} {u v w : Rehearsal}

namespace Relayed

theorem trans {first second third : List Signal} (earlier : Relayed first u second v)
    (later : Relayed second v third w) : Relayed first u third w :=
  ⟨later.nextCall.trans earlier.nextCall, later.calls.trans earlier.calls,
    fun l mem => earlier.loading l (later.loading l mem),
    fun id r ends => earlier.ends id r (later.ends id r ends),
    fun id r apart ends => later.lasts id r (fun l mem => apart l (earlier.loading l mem))
      (earlier.lasts id r apart ends)⟩

/-- A signal has been acted upon that tells of no end, and the pool has posted none. -/
theorem of_silent {s : Signal} (silent : ∀ id r, s ≠ .settled id r) (nextCall : w.nextCall = v.nextCall)
    (calls : w.pool.calls = v.pool.calls) (loading : w.loading = v.loading)
    (settled : w.settled = v.settled)
    (notices : ∀ x ∈ w.pool.outbox, x ∈ v.pool.outbox ∨ x.isNotice = true)
    (outbox : ∀ x ∈ v.pool.outbox, x ∈ w.pool.outbox) : Relayed (s :: signals) v signals w := by
  refine ⟨nextCall, calls, fun l mem => loading ▸ mem, fun id r ends => ?_, fun id r _ ends => ?_⟩
  · refine ends.imp (fun posted => ?_) fun there => settled ▸ there
    rcases List.mem_append.1 posted with early | late
    · exact List.mem_append_left _ (List.mem_cons_of_mem _ early)
    · exact List.mem_append_right _ ((notices _ late).resolve_right nofun)
  · refine ends.imp (fun posted => ?_) fun there => settled ▸ there
    rcases List.mem_append.1 posted with early | late
    · exact List.mem_append_left _ ((List.mem_cons.1 early).resolve_left fun same => silent id r same.symm)
    · exact List.mem_append_right _ (outbox _ late)

/-- The round is told that waits for the call. -/
theorem finishRound {l : Loading} {call : Nat} (there : l ∈ w.loading) (waits : l.call? = some call)
    (round : Round) (r : Resolution) :
    Relayed (.settled call r :: signals) w signals (w.finishRound round r) := by
  have still {v : Rehearsal} (pool : v.pool = w.pool) (nextCall : v.nextCall = w.nextCall)
      (settled : v.settled = w.settled)
      (loading : v.loading = w.loading.filter fun l => l.round.id != round.id) :
      Relayed (.settled call r :: signals) w signals v := by
    refine ⟨nextCall, congrArg Pool.calls pool, fun l mem => (List.mem_filter.1 (loading ▸ mem)).1,
      fun id r' ends => ?_, fun id r' apart ends => ?_⟩
    · exact ends.imp (fun posted => List.mem_cons_of_mem _ (pool ▸ posted)) fun there => settled ▸ there
    · refine ends.imp (fun posted => pool ▸ (List.mem_cons.1 posted).resolve_left fun same => ?_)
        fun there => settled ▸ there
      cases same
      exact apart l there waits
  unfold Rehearsal.finishRound
  dsimp only
  split
  · exact still rfl rfl rfl rfl
  · exact still rfl rfl rfl rfl

end Relayed

theorem act_relays {s : Signal} (h : InOrder t slots (s :: signals) w) :
    Relayed (s :: signals) w signals (w.act s) := by
  have notices := notices_act h
  cases s with
  | fetchDue | announceDue | callDue | alarmsOff =>
    exact .of_silent (by rintro _ _ ⟨⟩) rfl rfl rfl rfl notices fun _ mem => mem
  | limitSet id =>
    simp only [act] at notices ⊢
    split
    · exact .of_silent (by rintro _ _ ⟨⟩) rfl rfl rfl rfl (fun _ mem => .inl mem) fun _ mem => mem
    · exact .of_silent (by rintro _ _ ⟨⟩) rfl rfl rfl rfl (fun _ mem => .inl mem) fun _ mem => mem
  | sent id request =>
    obtain never | ⟨span, reply, -, later | atOnce⟩ := w.act_sent_cases id request
    · rw [never]
      exact .of_silent (by rintro _ _ ⟨⟩) rfl rfl rfl rfl (fun _ mem => .inl mem) fun _ mem => mem
    · rw [later]
      exact .of_silent (by rintro _ _ ⟨⟩) rfl rfl rfl rfl (fun _ mem => .inl mem) fun _ mem => mem
    · rw [atOnce] at notices ⊢
      have calls := calls_of_books (books_arriveAtOnce w.pool w.cacheTime id reply)
      refine .of_silent (by rintro _ _ ⟨⟩) rfl calls rfl rfl notices fun x mem => ?_
      obtain same | finished := arriveAtOnce_steps h.sound.kept w.cacheTime id reply
      · exact same.symm ▸ mem
      · exact finished.outbox x mem
  | settled call r =>
    simp only [act, settle]
    split
    · next l found =>
      have waits := List.find?_some found
      exact .finishRound (List.mem_of_find?_eq_some found) (of_decide_eq_true waits) _ _
    · refine ⟨rfl, rfl, fun _ mem => mem, fun id r' ends => ?_, fun id r' _ ends => ?_⟩
      · rcases ends with posted | there
        · exact .inl (List.mem_cons_of_mem _ posted)
        · refine (List.mem_append.1 there).elim .inr fun new => .inl ?_
          cases List.mem_singleton.1 new
          exact List.mem_cons_self
      · rcases ends with posted | there
        · rcases List.mem_cons.1 posted with same | later
          · cases same
            exact .inr (List.mem_append_right _ (List.mem_singleton.2 rfl))
          · exact .inl later
        · exact .inr (List.mem_append_left _ there)

/-- The signals in the outbox are taken out to be acted upon. -/
theorem takenOut_relays (w : Rehearsal) :
    Relayed [] w w.pool.outbox { w with pool := { w.pool with outbox := [] } } := by
  have same : w.pool.outbox ++ [] = [] ++ w.pool.outbox := List.append_nil _
  exact ⟨rfl, rfl, fun _ mem => mem, fun _ _ ends => ends.imp_left fun posted => same ▸ posted,
    fun _ _ _ ends => ends.imp_left fun posted => same ▸ posted⟩

/-- Nothing is lost of what the pool tells when it is put in place. -/
theorem withPool_relays {pool : Pool} (h : InOrder t slots [] { w with pool }) :
    Relayed [] { w with pool } [] (w.withPool pool) :=
  (flush_induction
    (P := fun signals v => InOrder t slots signals v ∧ Relayed [] { w with pool } signals v)
    (fun v ⟨order, relayed⟩ => ⟨order.takenOut, relayed.trans (takenOut_relays v)⟩)
    (fun _ _ _ ⟨order, relayed⟩ => ⟨order.act, relayed.trans (act_relays order)⟩)
    3 { w with pool } ⟨h, rfl, rfl, fun _ mem => mem, fun _ _ ends => ends, fun _ _ _ ends => ends⟩).2

end

end Typeahead.Rehearsal
