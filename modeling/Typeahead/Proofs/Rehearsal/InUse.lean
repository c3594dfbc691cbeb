import Typeahead.Proofs.Rehearsal.Progress

/-!
The rehearsals that come about: those of a new pool over a catalog without faults, whatever is done with
them in whatever order, also while calls are under way and rounds load.

- `InUse.ready`: they are in order.
- `InUse.suggest`, `InUse.replace`, `InUse.advance` and others: what a service or a menu does with one
  comes of steps of this kind.
-/

namespace Typeahead

/-- Whether an event of the pool comes from outside, and is no call that is opened. -/
def PoolEvent.isFromOutside : PoolEvent → Bool
  | .abandon _ | .cancelPending | .clearCache | .setTtl _ _ | .resetAuth => true
  | .openCall _ _ | .callStep _ | .fetchStep _ | .announce _ | .arrive _ _ | .arriveAtOnce _ _
  | .expire _ => false

theorem Pool.sound_create {t : Terms} {ttl : Seconds} {size slots : Int} {p : Pool}
    (created : Pool.create t.site t.base ttl size slots t.limit = .ok p) (room : t.size = size.toNat) :
    p.Sound t slots.toNat := by
  have reachable : Reachable slots p := .create created
  have terms : p.terms = t := by rw [terms_create created, ← room]
  obtain ⟨-, cache, fresh⟩ := create_cases created
  have line : p.gate.line = [] := by rw [fresh]
  have calls : p.calls = [] := by rw [fresh]
  have fetches : p.fetches = [] := by rw [fresh]
  refine ⟨reachable.kept, reachable.gated, fun ⟨v, mem, _⟩ => ?_, terms, fun f mem => ?_, fun c mem => ?_⟩
  · simp [line] at mem
  · simp [fetches] at mem
  · simp [calls] at mem

namespace Rehearsal

/-- A rehearsal that begins, with a new pool and nothing on its agenda. -/
structure IsNew (t : Terms) (slots : Int) (w : Rehearsal) : Prop where
  pool : ∃ ttl size, Pool.create t.site t.base ttl size slots t.limit = .ok w.pool ∧ t.size = size.toNat
  agenda : ∀ job, ¬ w.agenda.Holds job
  loading : w.loading = []
  settled : w.settled = []
  script : w.script.Faultless

/-- The rehearsals that come of a new one. -/
inductive InUse (t : Terms) (slots : Int) : Rehearsal → Prop where
  | create {w : Rehearsal} : w.IsNew t slots → InUse t slots w
  /-- A call is opened. -/
  | openCall {w : Rehearsal} (context : Context) : InUse t slots w → InUse t slots (w.openCall context).2.2
  /-- A call is given up, fetches are stopped, the cache is changed, or a block is lifted. -/
  | event {w : Rehearsal} (e : PoolEvent) : e.isFromOutside = true → InUse t slots w →
    InUse t slots (w.withPool (w.pool.step w.cacheTime e))
  /-- What is due is done, and the clock jumps. -/
  | wait {w : Rehearsal} (stop : Rehearsal → Bool) (limit : Option Seconds) : InUse t slots w →
    InUse t slots (runUntil stop limit w.patience w)
  /-- The clock moves on while nothing is due. -/
  | clock {w : Rehearsal} (now : Seconds) : InUse t slots w →
    InUse t slots { w with agenda := { w.agenda with now } }
  /-- A request is sent past the pool. -/
  | send {w : Rehearsal} (request : Request) : InUse t slots w → InUse t slots (w.send request).2
  /-- A menu is put in place. -/
  | withMenu {w : Rehearsal} (menu : Menu) : InUse t slots w → InUse t slots { w with menu }
  /-- The pause of a round begins. -/
  | pause {w : Rehearsal} (round : Round) : InUse t slots w → InUse t slots (w.soon (.pause round))
  /-- The end of a call is kept to be collected. -/
  | keep {w : Rehearsal} (call : Nat) (resolution : Resolution) : call < w.nextCall → InUse t slots w →
    InUse t slots { w with settled := w.settled ++ [(call, resolution)] }
  /-- Ends of calls and requests that were sent are collected. -/
  | collect {w : Rehearsal} (settled : List (Nat × Resolution)) (requests : List Request) :
    (∀ s ∈ settled, s ∈ w.settled) → InUse t slots w → InUse t slots { w with settled, requests }

section

variable {t : Terms} {slots : Int} {w : Rehearsal}

theorem IsNew.ready (h : w.IsNew t slots) : Ready t slots.toNat w := by
  obtain ⟨ttl, size, created, room⟩ := h.pool
  have sound := Pool.sound_create created room
  obtain ⟨-, cache, fresh⟩ := Pool.create_cases created
  have empty : w.pool.outbox = [] := by rw [fresh]
  have calls : w.pool.calls = [] := by rw [fresh]
  have fetches : w.pool.fetches = [] := by rw [fresh]
  refine ⟨⟨sound, fun s owed => ?_, fun id off => ?_, fun id reply there => absurd there (h.agenda _),
    h.script, fun c mem => ?_, fun id r ends => ?_, fun l mem => ?_⟩, empty⟩
  · rcases owed with ⟨f, mem, -⟩ | ⟨c, mem, -⟩
    · simp [fetches] at mem
    · simp [calls] at mem
  · simp [empty] at off
  · simp [calls] at mem
  · simp [Ends, empty, h.settled] at ends
  · simp [h.loading] at mem

theorem event_ready {slots : Nat} (h : Ready t slots w) {e : PoolEvent} (outside : e.isFromOutside = true) :
    Ready t slots (w.withPool (w.pool.step w.cacheTime e)) := by
  refine (h.event w.cacheTime (.refl e w.agenda) (fun reply came => ?_) (Nat.le_refl _)
    fun id context same => ?_).1
  · cases e with
    | arrive | arriveAtOnce => cases outside
    | openCall | abandon | callStep | fetchStep | announce | expire | cancelPending | clearCache | setTtl
    | resetAuth => cases came
  · cases same
    cases outside

theorem InUse.ready (h : InUse t slots w) : Ready t slots.toNat w := by
  induction h with
  | create new => exact new.ready
  | openCall context _ ih => exact (openCall_ready ih context).1
  | event e outside _ ih => exact event_ready ih outside
  | wait stop limit _ ih => exact runUntil_ready ih stop limit
  | clock now _ ih =>
    exact ih.calm ⟨rfl, rfl, fun _ there => there, fun _ _ there => .inl there, fun script => script,
      fun _ mem => .inl mem, fun _ mem => .inl mem⟩
  | send request _ ih => exact ih.calm (.send _ request)
  | withMenu menu _ ih => exact ih.calm (.withMenu _ menu)
  | pause round _ ih => exact ih.calm (.soon _ nofun)
  | keep call resolution given _ ih => exact ih.calm (.collected _ given resolution)
  | collect settled requests sub _ ih =>
    exact ih.calm ⟨rfl, rfl, fun _ there => there, fun _ _ there => .inl there, fun script => script,
      fun s mem => .inl (sub s mem), fun _ mem => .inl mem⟩

namespace InUse

theorem drain (h : InUse t slots w) : InUse t slots w.drain := h.wait _ _

theorem advance (h : InUse t slots w) (span : Seconds) : InUse t slots (w.advance span) := by
  unfold Rehearsal.advance
  split
  · exact h.drain
  · exact ((h.wait _ _).clock _).drain

theorem collected (h : InUse t slots w) (call : Nat) : InUse t slots (w.collect call).2 :=
  h.collect _ w.requests fun _ mem => (List.mem_filter.1 mem).1

theorem resolve (h : InUse t slots w) (context : Context) : InUse t slots (w.resolve context).2 := by
  have opened := h.openCall context
  unfold Rehearsal.resolve
  split
  · next found =>
    rw [found] at opened
    exact opened.drain
  · next found =>
    rw [found] at opened
    exact (opened.wait _ _).collected _

theorem suggest (h : InUse t slots w) (language : Language) (query : Text) (cursor : Int) :
    InUse t slots (w.suggest language query cursor).2 := by
  have resolved := h.resolve (contextOf language query cursor)
  unfold Rehearsal.suggest
  split
  · next found => exact (found ▸ resolved :)
  · next found => exact (found ▸ resolved :)
  · next found => exact (found ▸ resolved :)

theorem start (h : InUse t slots w) (context : Context) : InUse t slots (w.start context).2 := by
  have opened := h.openCall context
  have given : (w.openCall context).1 < (w.openCall context).2.2.nextCall := openCall_given h.ready context
  unfold Rehearsal.start
  split
  · next found =>
    rw [found] at opened given
    exact (opened.keep _ _ given).drain
  · next found =>
    rw [found] at opened
    exact opened.drain

theorem abandon (h : InUse t slots w) (call : Nat) : InUse t slots (w.abandon call).2 :=
  (h.event (.abandon call) rfl).drain

theorem cancelPending (h : InUse t slots w) : InUse t slots w.cancelPending :=
  (h.event .cancelPending rfl).drain

theorem complete (h : InUse t slots w) (order : CompletionOrder) :
    InUse t slots (w.complete order).2 := by
  unfold Rehearsal.complete
  split
  · exact h
  · next path _ =>
    have sent := h.send { path, body? := some order.body }
    split
    · next found =>
      rw [found] at sent
      exact sent
    · next found =>
      rw [found] at sent
      exact sent.advance _

theorem fetch (h : InUse t slots w) (lookup : Lookup) : InUse t slots (w.fetch lookup).2 := by
  unfold Rehearsal.fetch
  split
  · exact h
  · next path _ =>
    have sent := h.send { path }
    split
    · next found =>
      rw [found] at sent
      exact sent
    · next found =>
      rw [found] at sent
      exact sent.advance _

theorem replace (h : InUse t slots w) (language : Language) (query : Text) (cursor : Int) (item : Item)
    (delegates : Bool) : InUse t slots (w.replace language query cursor item delegates).2 := by
  have completed := h.complete (completionOrder query cursor item)
  unfold Rehearsal.replace
  dsimp only
  split
  · split
    · next found =>
      rw [found] at completed
      exact completed
    · next found =>
      rw [found] at completed
      exact completed
  · exact h

/-- A menu was acted upon. -/
theorem acted (h : InUse t slots w) (menu : Menu) : InUse t slots (w.withMenu menu) := by
  unfold Rehearsal.withMenu
  dsimp only
  split
  · exact ((h.withMenu menu).pause _).drain
  · exact (h.withMenu menu).drain

theorem settleMenu (h : InUse t slots w) : InUse t slots w.settleMenu := h.wait _ _

/-- The cache is dropped and a block is lifted, both before the pool is put in place. -/
theorem dropped (h : InUse t slots w) :
    InUse t slots (w.withPool w.pool.clearCache.resetAuth) := by
  have cleared := h.event .clearCache rfl
  have same : w.withPool w.pool.clearCache = { w with pool := w.pool.clearCache } := by
    have empty : w.pool.clearCache.outbox.isEmpty = true := List.isEmpty_iff.2 h.ready.empty
    unfold Rehearsal.withPool flush
    exact if_pos empty
  have lifted := cleared.event .resetAuth rfl
  simp only [Pool.step, same] at lifted
  exact lifted

end InUse

theorem InUse.slots_nonneg (h : InUse t slots w) : 0 ≤ slots := by
  induction h with
  | create new =>
    obtain ⟨_, _, created, _⟩ := new.pool
    exact (Pool.create_cases created).1
  | openCall | event | wait | clock | send | withMenu | pause | keep | collect => assumption

end

end Rehearsal

end Typeahead
