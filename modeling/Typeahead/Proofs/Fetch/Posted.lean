import Typeahead.Proofs.Fetch.Kept

/-!
What a pool posts. Nothing that was posted is taken back, and how a call settled is told once, by the step
that the call takes after its end.

- `step_posts`: what a step posts.
- `step_stays`: a call stays in the pool until it settles.
-/

namespace Typeahead

/-- Whether a signal tells how a call settled. -/
def Signal.settles : Signal → Bool
  | .settled _ _ => true
  | .fetchDue _ | .announceDue _ | .callDue _ | .limitSet _ | .sent _ _ | .alarmsOff _ => false

namespace Pool

/-- Signals have been posted after those that were there, and none of them tells how a call settled. -/
def Posts (p q : Pool) : Prop := ∃ more, q.outbox = p.outbox ++ more ∧ ∀ s ∈ more, s.settles = false

section

variable {p q : Pool}

namespace Posts

theorem of_outbox (same : q.outbox = p.outbox) : Posts p q :=
  ⟨[], same.trans (List.append_nil _).symm, fun _ mem => absurd mem List.not_mem_nil⟩

theorem post (h : Posts p q) {s : Signal} (quiet : s.settles = false) : Posts p (q.post s) := by
  obtain ⟨more, outbox, quiets⟩ := h
  refine ⟨more ++ [s], by rw [Pool.post, outbox, List.append_assoc], fun t mem => ?_⟩
  rcases List.mem_append.1 mem with old | new
  · exact quiets t old
  · rw [List.mem_singleton.1 new]
    exact quiet

theorem withGate (h : Posts p q) (ids : List Nat) (gate : Gate) : Posts p (q.withGate ids gate) :=
  List.foldlRecOn (motive := Posts p) ids _ h fun _ h _ _ => h.post rfl

theorem releaseSlot (h : Posts p q) : Posts p q.releaseSlot := h.withGate _ _

theorem leave (h : Posts p q) (id : Nat) : Posts p (q.leave id) := by
  have out : Posts p ({ q with inFlight := q.inFlight - 1 } : Pool) := h
  exact (out.post rfl).releaseSlot

theorem leaveLine (h : Posts p q) (id : Nat) (unused : Bool) : Posts p (q.leaveLine id unused) := h.withGate _ _

theorem endFetch (h : Posts p q) (id : Nat) (outcome : Outcome) : Posts p (q.endFetch id outcome) := by
  have moved : Posts p (q.moveFetch id (.ended outcome)) := h
  exact moved.post rfl

theorem stopFetch (h : Posts p q) (id : Nat) : Posts p (q.stopFetch id) := by
  have told : Posts p (q.updateFetch id fun f => { f with stopping := true }) := h
  unfold Pool.stopFetch
  split
  · exact h
  · dsimp only
    split
    · exact h
    · exact h
    · have marked : Posts p { q.updateFetch id fun f => { f with stopping := true } with
          gate := q.gate.mark id .gone } := h
      exact marked.post rfl
    · exact (told.post rfl).post rfl
    · exact told

theorem stopFetches (h : Posts p q) (ids : List Nat) : Posts p (q.stopFetches ids) :=
  List.foldlRecOn (motive := Posts p) ids _ h fun _ h id _ => h.stopFetch id

theorem pass (h : Posts p q) (f : Fetch) : Posts p (q.pass f) := by
  have inside : Posts p ({ q with inFlight := q.inFlight + 1 } : Pool) := h
  unfold Pool.pass
  split
  · exact h.releaseSlot.endFetch ..
  · dsimp only
    split
    · have overdue : Posts p (({ q with inFlight := q.inFlight + 1 } : Pool).moveFetch f.id .overdue) := h
      exact overdue.post rfl
    · split
      · exact (inside.leave f.id).endFetch ..
      · have asking : Posts p (({ q with inFlight := q.inFlight + 1 } : Pool).moveFetch f.id .asking) := h
        exact (asking.post rfl).post rfl

theorem take (h : Posts p q) (now : Seconds) (f : Fetch) (reply : Reply) : Posts p (q.take now f reply) := by
  have left := h.leave f.id
  unfold Pool.take
  dsimp only
  split
  · split
    · next cache _ =>
      have stored : Posts p ({ q.leave f.id with cache } : Pool) := left
      exact stored.endFetch ..
    · exact left.endFetch ..
  · next text _ =>
    have blocked : Posts p ({ q with refusal? := some text } : Pool) := h
    exact ((blocked.stopFetches _).leave f.id).endFetch ..
  · exact left.endFetch ..

theorem fetchStep (h : Posts p q) (now : Seconds) (id : Nat) : Posts p (q.fetchStep now id) := by
  unfold Pool.fetchStep
  split
  · exact h
  · next f _ =>
    have entered : Posts p ({ q with gate := (q.gate.enter id).2 } : Pool) := h
    split
    · exact h.endFetch ..
    · dsimp only
      split
      · exact entered.pass f
      · exact entered
    · exact (h.leaveLine ..).endFetch ..
    · exact (h.leaveLine ..).endFetch ..
    · exact (h.leaveLine ..).pass f
    · exact (h.leave _).endFetch ..
    · exact (h.leave _).endFetch ..
    · exact (h.leave _).endFetch ..
    · exact h.take ..
    · exact (h.leave _).endFetch ..
    · exact h
    · exact h
    · exact h

theorem tell (h : Posts p q) (outcome : Outcome) (id : Nat) : Posts p (q.tell outcome id) := by
  unfold Pool.tell
  split
  · next c _ =>
    have told : Posts p (q.setCall { c with stage := .told outcome }) := h
    exact told.post rfl
  · exact h

theorem announce (h : Posts p q) (id : Nat) : Posts p (q.announce id) := by
  unfold Pool.announce
  split
  · next f _ =>
    split
    · next outcome _ =>
      have forgotten : Posts p (q.forget f) := by
        unfold forget
        dsimp only
        split <;> exact h
      exact List.foldlRecOn (motive := Posts p) f.watchers _ forgotten fun _ h id _ => h.tell outcome id
    · exact h
  · exact h

theorem arrive (p : Pool) (id : Nat) (reply : Reply) : Posts p (p.arrive id reply) := by
  unfold Pool.arrive
  split
  · have answered : Posts p (p.moveFetch id (.answered reply)) := .of_outbox rfl
    exact answered.post rfl
  · exact .of_outbox rfl

theorem arriveAtOnce (p : Pool) (now : Seconds) (id : Nat) (reply : Reply) :
    Posts p (p.arriveAtOnce now id reply) := by
  have calm : Posts p p := .of_outbox rfl
  unfold Pool.arriveAtOnce
  split
  · split
    · exact calm.take ..
    · exact calm
  · exact calm

theorem expire (p : Pool) (id : Nat) : Posts p (p.expire id) := by
  have overdue : Posts p (p.moveFetch id .overdue) := .of_outbox rfl
  unfold Pool.expire
  split
  · exact overdue.post rfl
  · exact overdue
  · exact .of_outbox rfl

theorem openCall (p : Pool) (id : Nat) (context : Context) : Posts p (p.openCall id context).2 := by
  obtain ⟨resolution, same⟩ | ⟨lookup, opened⟩ := p.openCall_cases id context
  · exact .of_outbox (by rw [same])
  · rw [opened]
    have added : Posts p { p with calls := p.calls ++ [{ id, wanted := lookup, current := lookup }] } :=
      .of_outbox rfl
    exact added.post rfl

theorem abandon (p : Pool) (id : Nat) : Posts p (p.abandon id) := by
  obtain same | ⟨c, -, -, ⟨-, same⟩ | ⟨fetch, -, same⟩⟩ := p.abandon_cases id
  · exact .of_outbox (by rw [same])
  · exact .of_outbox (by rw [same]; rfl)
  · rw [same]
    have left : Posts p ((p.setCall { c with abandoned := true }).updateFetch fetch fun f =>
        { f with watchers := f.watchers.filter (· != id) }) := .of_outbox rfl
    exact left.post rfl

end Posts

/-- What a call posts by its step: how it settled if it had ended, and nothing of the kind else. -/
theorem CallMove.posts {c : Call} (move : CallMove p c q) : Posts p q ∨
    ∃ outcome, c.stage = .ended outcome ∧ q.calls = p.calls.filter (fun x => x.id != c.id) ∧
      q.outbox = p.outbox ++ [.settled c.id (c.resolution outcome)] := by
  cases move with
  | settle cache outcome ended => exact .inr ⟨outcome, ended, rfl, rfl⟩
  | finish cache call outcome =>
    have ended : Posts p (({ p with cache } : Pool).setCall { call with stage := .ended outcome }) :=
      .of_outbox rfl
    exact .inl (ended.post rfl)
  | begin cache call =>
    have begun : Posts p { p with
        cache
        fetches := p.fetches ++ [{ id := p.nextFetch, lookup := call.current, watchers := [call.id] }]
        pending := p.pending ++ [⟨call.current.key p.site, p.nextFetch⟩]
        nextFetch := p.nextFetch + 1 } := .of_outbox rfl
    exact .inl (begun.post rfl)
  | join => exact .inl (.of_outbox rfl)

/-- Each step posts what it posts after what is there; and it tells how a call settled only if it is the step
that the call takes after its end. -/
theorem step_posts (p : Pool) (now : Seconds) (e : PoolEvent) : Posts p (p.step now e) ∨
    ∃ c ∈ p.calls, e = .callStep c.id ∧ ∃ outcome, c.stage = .ended outcome ∧
      (p.step now e).calls = p.calls.filter (fun x => x.id != c.id) ∧
      (p.step now e).outbox = p.outbox ++ [.settled c.id (c.resolution outcome)] := by
  have calm : Posts p p := .of_outbox rfl
  cases e with
  | openCall id context =>
    left
    simp only [step]
    split
    · exact calm
    · exact .openCall p id context
  | abandon id => exact .inl (.abandon p id)
  | callStep id =>
    change Posts p (p.callStep now id) ∨ _
    obtain same | ⟨c, found, -, move⟩ := p.callStep_cases now id
    · exact .inl (.of_outbox (by rw [same]))
    · obtain ⟨mem, rfl⟩ := mem_of_call? found
      refine move.posts.imp_right ?_
      rintro ⟨outcome, settles⟩
      exact ⟨c, mem, rfl, outcome, settles⟩
  | fetchStep id => exact .inl (calm.fetchStep now id)
  | announce id => exact .inl (calm.announce id)
  | arrive id reply => exact .inl (.arrive p id reply)
  | arriveAtOnce id reply => exact .inl (.arriveAtOnce p now id reply)
  | expire id => exact .inl (.expire p id)
  | cancelPending => exact .inl (calm.stopFetches _)
  | clearCache => exact .inl (.of_outbox rfl)
  | setTtl ttl given =>
    obtain ⟨cache, same⟩ := p.setTtl_cases now ttl given
    exact .inl (.of_outbox (by rw [same]))
  | resetAuth => exact .inl (.of_outbox rfl)

theorem stays_of_ids {c : Call} (mem : c ∈ p.calls) (ids : q.calls.map (·.id) = p.calls.map (·.id)) :
    ∃ x ∈ q.calls, x.id = c.id := by
  have listed : c.id ∈ q.calls.map (·.id) := ids ▸ List.mem_map_of_mem mem
  exact List.mem_map.1 listed

theorem CallMove.stays {c d : Call} (move : CallMove p d q) (mem : c ∈ p.calls) :
    (∃ x ∈ q.calls, x.id = c.id) ∨ c.id = d.id ∧ ∃ outcome, d.stage = .ended outcome := by
  have replaced (call : Call) : (∃ x ∈ (p.setCall call).calls, x.id = c.id) :=
    stays_of_ids mem (Books.ids_setCall p.books call)
  cases move with
  | settle cache outcome ended =>
    by_cases self : c.id = d.id
    · exact .inr ⟨self, outcome, ended⟩
    · exact .inl ⟨c, List.mem_filter.2 ⟨mem, bne_iff_ne.2 self⟩, rfl⟩
  | finish cache call outcome => exact .inl (replaced { call with stage := .ended outcome })
  | begin cache call => exact .inl (replaced { call with stage := .waiting p.nextFetch })
  | join cache call fetch => exact .inl (replaced { call with stage := .waiting fetch })

/-- A call stays in the pool under its number until it settles. -/
theorem step_stays (kept : p.books.Kept) {c : Call} (mem : c ∈ p.calls) (now : Seconds) (e : PoolEvent) :
    (∃ x ∈ (p.step now e).calls, x.id = c.id) ∨
    e = .callStep c.id ∧ ∃ outcome, c.stage = .ended outcome := by
  have of_books (books : (p.step now e).books = p.books) : ∃ x ∈ (p.step now e).calls, x.id = c.id :=
    stays_of_ids mem (congrArg (·.calls.map (·.id)) books)
  cases e with
  | openCall id context =>
    left
    obtain same | ⟨-, lookup, opened⟩ := p.step_openCall_cases now id context
    · rw [same]
      exact ⟨c, mem, rfl⟩
    · rw [opened]
      exact ⟨c, List.mem_append_left _ mem, rfl⟩
  | abandon id =>
    refine .inl (stays_of_ids mem ?_)
    change (p.abandon id).calls.map (·.id) = _
    have marked (d : Call) :
        (p.setCall { d with abandoned := true }).calls.map (·.id) = p.calls.map (·.id) :=
      Books.ids_setCall p.books { d with abandoned := true }
    obtain same | ⟨d, -, -, ⟨-, same⟩ | ⟨fetch, -, same⟩⟩ := p.abandon_cases id
    · rw [same]
    · rw [same, marked]
    · rw [same]
      exact marked d
  | callStep id =>
    change (∃ x ∈ (p.callStep now id).calls, x.id = c.id) ∨ _
    obtain same | ⟨d, found, -, move⟩ := p.callStep_cases now id
    · rw [same]
      exact .inl ⟨c, mem, rfl⟩
    · obtain ⟨there, rfl⟩ := mem_of_call? found
      refine (move.stays mem).imp_right ?_
      rintro ⟨self, ended⟩
      obtain rfl := kept.attended.eq mem there self
      exact ⟨rfl, ended⟩
  | announce id =>
    refine .inl (stays_of_ids mem ?_)
    change (p.announce id).calls.map (·.id) = _
    obtain same | ⟨f, outcome, there, rfl, ended⟩ := p.announce_cases id
    · rw [same]
    · have told : (p.announce f.id).calls = _ := congrArg Books.calls (books_announce kept there ended)
      rw [told]
      exact Books.ids_tell p.books outcome f.watchers
  | fetchStep id => exact .inl (of_books (books_fetchStep p now id))
  | arrive id reply => exact .inl (of_books (books_arrive p id reply))
  | arriveAtOnce id reply => exact .inl (of_books (books_arriveAtOnce p now id reply))
  | expire id => exact .inl (of_books (books_expire p id))
  | cancelPending => exact .inl (of_books (books_cancelPending p))
  | clearCache => exact .inl ⟨c, mem, rfl⟩
  | setTtl ttl given =>
    obtain ⟨cache, same⟩ := p.setTtl_cases now ttl given
    rw [same]
    exact .inl ⟨c, mem, rfl⟩
  | resetAuth => exact .inl ⟨c, mem, rfl⟩

end

end Pool

end Typeahead
