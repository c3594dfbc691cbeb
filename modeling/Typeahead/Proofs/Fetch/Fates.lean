import Typeahead.Proofs.Fetch.Block
import Typeahead.Proofs.Fetch.Due
import Typeahead.Proofs.Fetch.SingleFlight

/-!
What becomes of calls. A call stays in the pool under its number, with the lookup that is wanted, until it
settles; and it settles as it ended.

- `step_follows`: whatever happens to the pool.
-/

namespace Typeahead.Pool

/-- Each call after an event was there before, unless the event opened it; each call before it is still
there, or has settled; and whatever settles does so as its call ended. -/
structure Followed (e : PoolEvent) (p q : Pool) : Prop where
  origin : ∀ x ∈ q.calls, (∃ context, e = .openCall x.id context) ∨
    ∃ c ∈ p.calls, c.id = x.id ∧ c.wanted = x.wanted ∧
      (x.abandoned = true → c.abandoned = true ∨ e = .abandon x.id)
  fate : ∀ c ∈ p.calls, (∃ x ∈ q.calls, x.id = c.id) ∨ ∃ r, .settled c.id r ∈ q.outbox
  settled : ∀ id r, .settled id r ∈ q.outbox → .settled id r ∈ p.outbox ∨
    ∃ c ∈ p.calls, c.id = id ∧ ∃ outcome, c.stage = .ended outcome ∧ r = c.resolution outcome

section

variable {p q : Pool} {e : PoolEvent} {c : Call}

namespace Followed

theorem of_calls (calls : q.calls = p.calls)
    (posts : ∀ s ∈ q.outbox, s ∈ p.outbox ∨ s.fetch?.isSome = true) : Followed e p q := by
  refine ⟨fun x mem => .inr ⟨x, calls ▸ mem, rfl, rfl, .inl⟩,
    fun c mem => .inl ⟨c, calls ▸ mem, rfl⟩, fun id r mem => .inl ?_⟩
  exact (posts _ mem).resolve_right nofun

theorem refl (e : PoolEvent) (p : Pool) : Followed e p p := of_calls rfl fun _ mem => .inl mem

/-- A call changes that keeps its number and what it wants. -/
theorem of_setCall (call : Call) (mem : c ∈ p.calls) (same : call.id = c.id)
    (wanted : call.wanted = c.wanted)
    (gone : call.abandoned = true → c.abandoned = true ∨ e = .abandon c.id)
    (calls : q.calls = (p.setCall call).calls)
    (quiet : ∀ id r, .settled id r ∈ q.outbox → .settled id r ∈ p.outbox) : Followed e p q := by
  refine ⟨fun x there => .inr ?_, fun d there => .inl ?_, fun id r there => .inl (quiet id r there)⟩
  · rw [calls] at there
    rcases Books.mem_setCall (b := p.books) there with rfl | ⟨old, -⟩
    · exact ⟨c, mem, same.symm, wanted.symm, fun h => same ▸ gone h⟩
    · exact ⟨x, old, rfl, rfl, .inl⟩
  · rw [calls]
    by_cases other : d.id = call.id
    · exact ⟨call, Books.setCall_mem (b := p.books) mem same, other.symm⟩
    · exact ⟨d, Books.setCall_other (b := p.books) there other, rfl⟩

end Followed

theorem CallMove.follows (move : CallMove p c q) (mem : c ∈ p.calls) : Followed e p q := by
  cases move with
  | settle cache outcome ended =>
    refine ⟨fun x there => .inr ⟨x, (List.mem_filter.1 there).1, rfl, rfl, .inl⟩,
      fun d there => ?_, fun id r there => ?_⟩
    · by_cases same : d.id = c.id
      · rw [same]
        exact .inr ⟨_, mem_post.2 (.inr rfl)⟩
      · exact .inl ⟨d, List.mem_filter.2 ⟨there, bne_iff_ne.2 same⟩, rfl⟩
    · rcases mem_post.1 there with before | posted
      · exact .inl before
      · cases posted
        exact .inr ⟨c, mem, rfl, outcome, ended, rfl⟩
  | finish cache call outcome same wanted gone =>
    exact .of_setCall { call with stage := .ended outcome } mem same wanted
      (fun h => .inl (gone ▸ h)) rfl fun _ _ there => (mem_post.1 there).resolve_right nofun
  | begin cache call same going _ wanted =>
    refine .of_setCall { call with stage := .waiting p.nextFetch } mem same wanted
      (fun h => ?_) rfl fun _ _ there => (mem_post.1 there).resolve_right nofun
    cases going.symm.trans h
  | join cache call fetch same going _ wanted =>
    refine .of_setCall { call with stage := .waiting fetch } mem same wanted
      (fun h => ?_) rfl fun _ _ there => there
    cases going.symm.trans h

/-- Those who are told how a fetch ended go on as they are. -/
theorem announce_follows (kept : p.books.Kept) (id : Nat) : Followed e p (p.announce id) := by
  obtain same | ⟨f, outcome, mem, rfl, ended⟩ := p.announce_cases id
  · rw [same]
    exact .refl e p
  · have calls : (p.announce f.id).calls = (p.books.tell outcome f.watchers).calls :=
      congrArg Books.calls (books_announce kept mem ended)
    have numbers : (p.announce f.id).calls.map (·.id) = p.calls.map (·.id) :=
      calls ▸ Books.ids_tell p.books outcome f.watchers
    refine ⟨fun x there => .inr ?_, fun c there => .inl ?_, fun id r there => .inl ?_⟩
    · rw [calls] at there
      obtain ⟨c, old, ⟨-, rfl⟩ | ⟨-, rfl⟩⟩ := Books.mem_tell there
      · exact ⟨c, old, rfl, rfl, .inl⟩
      · exact ⟨x, old, rfl, rfl, .inl⟩
    · have listed : c.id ∈ (p.announce f.id).calls.map (·.id) := numbers ▸ List.mem_map_of_mem there
      exact List.mem_map.1 listed
    · exact ((mem_outbox_announce kept mem ended).1 there).resolve_right (by rintro ⟨_, -, ⟨⟩, -⟩)

theorem expire_posts (p : Pool) (id : Nat) :
    ∀ s ∈ (p.expire id).outbox, s ∈ p.outbox ∨ s.fetch?.isSome = true := by
  unfold expire
  split
  · exact fun s mem => of_mem_post (P := fun s => s.fetch?.isSome) rfl mem
  · exact fun s mem => .inl mem
  · exact fun s mem => .inl mem

/-- Whatever happens to a pool, its calls go on. -/
theorem step_follows (kept : p.books.Kept) (now : Seconds) (e : PoolEvent) :
    Followed e p (p.step now e) := by
  have byItself {id : Nat} (concerns : e.fetch? = some id) (unannounced : e ≠ .announce id)
      (posts : ∀ s ∈ (p.step now e).outbox, s ∈ p.outbox ∨ s.fetch?.isSome = true) :
      Followed e p (p.step now e) :=
    .of_calls (calls_of_books (books_of_fetch? p now concerns unannounced)) posts
  cases e with
  | openCall id context =>
    obtain same | ⟨-, lookup, opened⟩ := p.step_openCall_cases now id context
    · rw [same]
      exact .refl _ p
    · rw [opened]
      refine ⟨fun x there => ?_, fun c mem => .inl ⟨c, List.mem_append_left _ mem, rfl⟩,
        fun id r there => .inl ((mem_post.1 there).resolve_right (by rintro ⟨⟩))⟩
      rcases List.mem_append.1 there with old | new
      · exact .inr ⟨x, old, rfl, rfl, .inl⟩
      · rw [List.mem_singleton.1 new]
        exact .inl ⟨context, rfl⟩
  | abandon id =>
    change Followed (.abandon id) p (p.abandon id)
    have left {q : Pool} (c : Call) (mem : c ∈ p.calls) := Followed.of_setCall (q := q) (e := .abandon c.id)
      { c with abandoned := true } mem rfl rfl fun _ => .inr rfl
    obtain same | ⟨c, mem, rfl, ⟨-, same⟩ | ⟨fetch, -, same⟩⟩ := p.abandon_cases id
    · rw [same]
      exact .refl _ p
    · rw [same]
      exact left c mem rfl fun _ _ there => there
    · rw [same]
      exact left c mem rfl fun _ _ there => (mem_post.1 there).resolve_right (by rintro ⟨⟩)
  | callStep id =>
    change Followed _ p (p.callStep now id)
    obtain same | ⟨c, found, -, move⟩ := p.callStep_cases now id
    · rw [same]
      exact .refl _ p
    · exact move.follows (mem_of_call? found).1
  | fetchStep id =>
    refine byItself rfl (by rintro ⟨⟩) ?_
    obtain steps | ⟨same, -⟩ := fetchStep_steps kept now id
    · exact steps.posts
    · exact fun s mem => .inl (same ▸ mem)
  | announce id => exact announce_follows kept id
  | arrive id reply =>
    refine byItself rfl (by rintro ⟨⟩) ?_
    obtain same | steps := p.arrive_steps id reply
    · exact fun s mem => .inl (same ▸ mem)
    · exact steps.posts
  | arriveAtOnce id reply =>
    refine byItself rfl (by rintro ⟨⟩) ?_
    obtain same | steps := arriveAtOnce_steps kept now id reply
    · exact fun s mem => .inl (same ▸ mem)
    · exact steps.posts
  | expire id => exact byItself rfl (by rintro ⟨⟩) (expire_posts p id)
  | cancelPending =>
    have roused : Roused none p p.cancelPending := (Roused.refl p).stopFetches kept _
    exact .of_calls (calls_of_books (books_cancelPending p)) fun s mem =>
      (roused.notices s mem).imp_right Signal.fetch?_of_isNotice
  | clearCache => exact .of_calls rfl fun _ mem => .inl mem
  | setTtl ttl given =>
    obtain ⟨cache, same⟩ := p.setTtl_cases now ttl given
    rw [same]
    exact .of_calls rfl fun _ mem => .inl mem
  | resetAuth => exact .of_calls rfl fun _ mem => .inl mem

end

end Typeahead.Pool
