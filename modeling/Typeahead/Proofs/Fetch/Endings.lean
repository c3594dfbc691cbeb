import Typeahead.Proofs.Fetch.Slots

/-!
How fetches end. A fetch stays in the pool until its end is announced, and its end is final: nothing
that happens in the meantime makes it end another way.

- `Apart`: an ended fetch does not stand in line, so that no slot is handed to it.
- `step_lasts`: what a step leaves of a fetch.
-/

namespace Typeahead

namespace Fetch

/-- What is left of a fetch after a while. It may have moved, but an end is final. -/
def Lasts (f g : Fetch) : Prop :=
  g.id = f.id ∧ g.lookup = f.lookup ∧
  ∀ outcome, f.stage = .ended outcome → g.stage = .ended outcome

theorem Lasts.of_same {f g : Fetch} (id : g.id = f.id) (lookup : g.lookup = f.lookup)
    (stage : g.stage = f.stage) : f.Lasts g := ⟨id, lookup, fun _ ended => stage.trans ended⟩

theorem Lasts.trans {f g h : Fetch} (first : f.Lasts g) (later : g.Lasts h) : f.Lasts h := by
  obtain ⟨id, lookup, final⟩ := first
  obtain ⟨id', lookup', final'⟩ := later
  exact ⟨id'.trans id, lookup'.trans lookup, fun outcome ended => final' outcome (final outcome ended)⟩

end Fetch

namespace Gate

/-- Handing out a slot changes nobody's place in the line, and the slot goes to someone in line. -/
theorem letIn_ids (g : Gate) :
    g.letIn.2.line.map (·.id) = g.line.map (·.id) ∧
    ∀ id ∈ g.letIn.1.toList, id ∈ g.line.map (·.id) := by
  obtain same | ⟨n, id, before, after, line, handed⟩ := g.letIn_cases
  · simp [same]
  · simp [handed, line]

theorem admitUpTo_ids (count : Nat) (g : Gate) :
    (admitUpTo count g).2.line.map (·.id) = g.line.map (·.id) ∧
    ∀ id ∈ (admitUpTo count g).1, id ∈ g.line.map (·.id) := by
  induction count generalizing g with
  | zero => simp [admitUpTo]
  | succ count ih =>
    obtain ⟨line, among⟩ := g.letIn_ids
    simp only [admitUpTo]
    split
    · next id g' handed =>
      rw [handed] at line among
      obtain ⟨lineLater, amongLater⟩ := ih g'
      refine ⟨lineLater.trans line, fun x mem => ?_⟩
      rcases List.mem_cons.1 mem with rfl | mem
      · exact among x (by simp)
      · exact line ▸ amongLater x mem
    · next g' handed =>
      rw [handed] at line
      exact ⟨line, by simp⟩

end Gate

namespace Pool

theorem eq_of_found {p : Pool} (kept : p.books.Kept) {f g : Fetch} (mem : f ∈ p.fetches)
    (found : p.fetch? f.id = some g) : g = f :=
  Option.some.inj (found.symm.trans (fetch?_of_mem kept mem))

/-- A fetch is there and does not stand in line. -/
def Apart (p : Pool) (f : Fetch) : Prop := f ∈ p.fetches ∧ f.id ∉ p.gate.line.map (·.id)

section

variable {p : Pool} {f : Fetch}

theorem Apart.updateFetch (h : p.Apart f) {id : Nat} (other : f.id ≠ id) (change : Fetch → Fetch) :
    (p.updateFetch id change).Apart f :=
  ⟨List.mem_map.2 ⟨f, h.1, if_neg other⟩, h.2⟩

theorem Apart.moveFetch (h : p.Apart f) {id : Nat} (other : f.id ≠ id) (stage : FetchStage) :
    (p.moveFetch id stage).Apart f := h.updateFetch other _

theorem Apart.endFetch (h : p.Apart f) {id : Nat} (other : f.id ≠ id) (outcome : Outcome) :
    (p.endFetch id outcome).Apart f := ⟨(h.moveFetch other _).1, h.2⟩

theorem Apart.withGate (h : p.Apart f) {ids : List Nat} {gate : Gate}
    (line : gate.line.map (·.id) = p.gate.line.map (·.id))
    (among : ∀ id ∈ ids, id ∈ p.gate.line.map (·.id)) : (p.withGate ids gate).Apart f := by
  have spared : f.handed ids = f := if_neg fun mem => h.2 (among f.id mem)
  constructor
  · rw [fetches_withGate]
    exact spared ▸ List.mem_map_of_mem h.1
  · rw [gate_withGate, line]
    exact h.2

theorem Apart.releaseSlot (h : p.Apart f) : p.releaseSlot.Apart f := by
  obtain ⟨line, among⟩ := Gate.letIn_ids { p.gate with free := p.gate.free + 1 }
  exact h.withGate line among

theorem Apart.leave (h : p.Apart f) (id : Nat) : (p.leave id).Apart f :=
  Apart.releaseSlot (p := ({ p with inFlight := p.inFlight - 1 } : Pool).post (.alarmsOff id)) h

theorem Apart.leaveLine (h : p.Apart f) (id : Nat) (unused : Bool) :
    (p.leaveLine id unused).Apart f := by
  let gate := { p.gate.remove id with free := (p.gate.remove id).free + if unused then 1 else 0 }
  have away : ({ p with gate } : Pool).Apart f := by
    refine ⟨h.1, fun mem => h.2 ?_⟩
    obtain ⟨v, there, same⟩ := List.mem_map.1 mem
    exact List.mem_map.2 ⟨v, (List.mem_filter.1 there).1, same⟩
  obtain ⟨line, among⟩ := gate.admitUpTo_ids gate.free
  exact away.withGate line among

/-- An ended fetch is not told to stop any more. -/
theorem Apart.stopFetch (h : p.Apart f) (kept : p.books.Kept) (ended : f.isUnfinished = false)
    (id : Nat) : (p.stopFetch id).Apart f := by
  unfold Pool.stopFetch
  split
  · exact h
  · next g found =>
    dsimp only
    by_cases same : f.id = id
    · obtain rfl := eq_of_found kept h.1 (same ▸ found)
      obtain ⟨outcome, stage⟩ := Fetch.isUnfinished_eq_false.1 ended
      simp only [stage]
      exact h
    · have spared := h.updateFetch same fun g => { g with stopping := true }
      split
      · exact h
      · exact h
      · refine ⟨spared.1, fun mem => h.2 ?_⟩
        have places : (p.gate.mark id .gone).line.map (·.id) = p.gate.line.map (·.id) := by
          simp only [Gate.mark, List.map_map]
          apply List.map_congr_left
          intro v _
          simp only [Function.comp]
          split <;> rfl
        exact places ▸ mem
      · exact spared
      · exact spared

theorem Apart.stopFetches (h : p.Apart f) (kept : p.books.Kept) (ended : f.isUnfinished = false)
    (ids : List Nat) : (p.stopFetches ids).Apart f := by
  induction ids generalizing p with
  | nil => exact h
  | cons id ids ih => exact ih (h.stopFetch kept ended id) ((books_stopFetch p id).symm ▸ kept)

theorem Apart.pass (h : p.Apart f) {g : Fetch} (other : f.id ≠ g.id) : (p.pass g).Apart f := by
  unfold Pool.pass
  split
  · exact h.releaseSlot.endFetch other _
  · dsimp only
    split
    · exact h.moveFetch other .overdue
    · split
      · exact (Apart.leave (p := { p with inFlight := p.inFlight + 1 }) h g.id).endFetch other _
      · exact h.moveFetch other .asking

theorem Apart.take (h : p.Apart f) (kept : p.books.Kept) (ended : f.isUnfinished = false) {g : Fetch}
    (other : f.id ≠ g.id) (now : Seconds) (reply : Reply) : (p.take now g reply).Apart f := by
  unfold Pool.take
  dsimp only
  split
  · split
    · exact Apart.endFetch (p := { p.leave g.id with cache := _ }) (h.leave g.id) other _
    · exact (h.leave g.id).endFetch other _
  · next text _ =>
    have stopped := Apart.stopFetches (p := { p with refusal? := some text }) h kept ended
      ((p.pending.map (·.fetch)).filter (· != g.id))
    exact (stopped.leave g.id).endFetch other _
  · exact (h.leave g.id).endFetch other _

theorem Apart.fetchStep (h : p.Apart f) (kept : p.books.Kept) (ended : f.isUnfinished = false)
    (now : Seconds) (id : Nat) : (p.fetchStep now id).Apart f := by
  unfold Pool.fetchStep
  split
  · exact h
  · next g found =>
    by_cases same : f.id = id
    · obtain rfl := eq_of_found kept h.1 (same ▸ found)
      obtain ⟨outcome, stage⟩ := Fetch.isUnfinished_eq_false.1 ended
      simp only [stage]
      exact h
    · obtain rfl := (mem_of_fetch? found).2
      split
      · exact h.endFetch same _
      · dsimp only
        split
        · next entered =>
          refine Apart.pass (p := { p with gate := (p.gate.enter g.id).2 }) ⟨h.1, ?_⟩ same
          rw [Gate.line_enter_open entered]
          exact h.2
        · next refused =>
          refine Apart.moveFetch (p := { p with gate := (p.gate.enter g.id).2 }) ⟨h.1, ?_⟩ same .queued
          rw [Gate.line_enter_closed (Bool.eq_false_iff.2 refused), List.map_append, List.mem_append, not_or]
          exact ⟨h.2, by simpa using same⟩
      · exact (h.leaveLine g.id false).endFetch same _
      · exact (h.leaveLine g.id true).endFetch same _
      · exact (h.leaveLine g.id false).pass same
      · exact (h.leave g.id).endFetch same _
      · exact (h.leave g.id).endFetch same _
      · exact (h.leave g.id).endFetch same _
      · exact h.take kept ended same now _
      · exact (h.leave g.id).endFetch same _
      · exact h
      · exact h
      · exact h

/-- What is still to end is not what has ended. -/
theorem other_of_found (kept : p.books.Kept) (mem : f ∈ p.fetches) (ended : f.isUnfinished = false)
    {g : Fetch} {id : Nat} (found : p.fetch? id = some g) (unfinished : g.isUnfinished = true) :
    f.id ≠ id := by
  rintro rfl
  obtain rfl := eq_of_found kept mem found
  rw [ended] at unfinished
  cases unfinished

theorem Apart.arrive (h : p.Apart f) (kept : p.books.Kept) (ended : f.isUnfinished = false) (id : Nat)
    (reply : Reply) : (p.arrive id reply).Apart f := by
  unfold Pool.arrive
  split
  · next found => exact h.moveFetch (other_of_found kept h.1 ended found rfl) (.answered reply)
  · exact h

theorem Apart.arriveAtOnce (h : p.Apart f) (kept : p.books.Kept) (ended : f.isUnfinished = false)
    (now : Seconds) (id : Nat) (reply : Reply) : (p.arriveAtOnce now id reply).Apart f := by
  unfold Pool.arriveAtOnce
  split
  · next g found =>
    split
    · next asking _ =>
      have other := other_of_found kept h.1 ended found (by simp [Fetch.isUnfinished, asking])
      obtain rfl := (mem_of_fetch? found).2
      exact h.take kept ended other now reply
    · exact h
  · exact h

theorem Apart.expire (h : p.Apart f) (kept : p.books.Kept) (ended : f.isUnfinished = false) (id : Nat) :
    (p.expire id).Apart f := by
  unfold Pool.expire
  split
  · next found => exact h.moveFetch (other_of_found kept h.1 ended found rfl) .overdue
  · next found => exact h.moveFetch (other_of_found kept h.1 ended found rfl) .overdue
  · exact h

/-- An ended fetch does not stand in line. -/
theorem Gated.apart {slots : Nat} (h : p.Gated slots) (kept : p.books.Kept) (mem : f ∈ p.fetches)
    (ended : f.isUnfinished = false) : p.Apart f := by
  refine ⟨mem, fun there => ?_⟩
  obtain ⟨v, inLine, number⟩ := List.mem_map.1 there
  obtain ⟨g, hg, visits⟩ := List.mem_filterMap.1 (h.line.subset inLine)
  have numbers : g.id = f.id := (Fetch.visitor?_id visits).symm.trans number
  have same : g = f := List.inj_on_of_nodup_map (nodup_fetches kept) hg mem numbers
  rw [same, Fetch.visitor?_of_ended ended] at visits
  cases visits

/-- What fetches do by themselves leaves every fetch in the pool, and the ended ones alone. -/
theorem lasts_of_books {q : Pool} (books : q.books = p.books)
    (spared : f.isUnfinished = false → q.Apart f) (mem : f ∈ p.fetches) :
    ∃ g ∈ q.fetches, f.Lasts g := by
  cases unfinished : f.isUnfinished with
  | false => exact ⟨f, (spared unfinished).1, .of_same rfl rfl rfl⟩
  | true =>
    have there : f.unmoved ∈ q.books.fetches := books ▸ mem_books mem
    obtain ⟨g, hg, same⟩ := List.mem_map.1 there
    have id : g.unmoved.id = f.unmoved.id := congrArg Fetch.id same
    have lookup : g.unmoved.lookup = f.unmoved.lookup := congrArg Fetch.lookup same
    refine ⟨g, hg, id, lookup, fun outcome ended => ?_⟩
    rw [Fetch.isUnfinished_eq_false.2 ⟨outcome, ended⟩] at unfinished
    cases unfinished

theorem lasts_updateWatchers (mem : f ∈ p.fetches) (id : Nat) (change : List Nat → List Nat) :
    ∃ g ∈ (p.updateFetch id fun f => { f with watchers := change f.watchers }).fetches, f.Lasts g := by
  refine ⟨_, List.mem_map.2 ⟨f, mem, rfl⟩, ?_⟩
  split <;> exact .of_same rfl rfl rfl

theorem CallMove.lasts {q : Pool} {c : Call} (move : CallMove p c q) (mem : f ∈ p.fetches) :
    ∃ g ∈ q.fetches, f.Lasts g := by
  cases move with
  | settle => exact ⟨f, mem, .of_same rfl rfl rfl⟩
  | finish => exact ⟨f, mem, .of_same rfl rfl rfl⟩
  | begin => exact ⟨f, List.mem_append_left _ mem, .of_same rfl rfl rfl⟩
  | join _ call fetch => exact lasts_updateWatchers mem fetch (· ++ [call.id])

theorem lasts_callStep (mem : f ∈ p.fetches) (now : Seconds) (id : Nat) :
    ∃ g ∈ (p.callStep now id).fetches, f.Lasts g := by
  obtain same | ⟨c, -, -, move⟩ := p.callStep_cases now id
  · exact ⟨f, by rwa [same], .of_same rfl rfl rfl⟩
  · exact move.lasts mem

theorem lasts_openCall (mem : f ∈ p.fetches) (id : Nat) (context : Context) :
    ∃ g ∈ (p.openCall id context).2.fetches, f.Lasts g := by
  unfold openCall
  split
  · exact ⟨f, mem, .of_same rfl rfl rfl⟩
  · split <;> exact ⟨f, mem, .of_same rfl rfl rfl⟩

theorem lasts_abandon (mem : f ∈ p.fetches) (id : Nat) :
    ∃ g ∈ (p.abandon id).fetches, f.Lasts g := by
  obtain same | ⟨c, -, -, ⟨-, same⟩ | ⟨fetch, -, same⟩⟩ := p.abandon_cases id
  · exact ⟨f, by rwa [same], .of_same rfl rfl rfl⟩
  · exact ⟨f, by rwa [same], .of_same rfl rfl rfl⟩
  · rw [same]
    exact lasts_updateWatchers mem fetch (·.filter (· != id))

theorem fetches_tell (p : Pool) (outcome : Outcome) (id : Nat) :
    (p.tell outcome id).fetches = p.fetches := by
  unfold tell
  split <;> rfl

theorem gate_tell (p : Pool) (outcome : Outcome) (id : Nat) : (p.tell outcome id).gate = p.gate := by
  unfold tell
  split <;> rfl

/-- An announcement is nothing to the gate. -/
theorem gate_announce (p : Pool) (id : Nat) : (p.announce id).gate = p.gate := by
  unfold announce
  split
  · next f _ =>
    split
    · next outcome _ =>
      have forgotten : (p.forget f).gate = p.gate := by
        unfold forget
        dsimp only
        split <;> rfl
      exact List.foldlRecOn (motive := fun q : Pool => q.gate = p.gate) f.watchers _ forgotten
        fun q same w _ => (gate_tell q outcome w).trans same
    · rfl
  · rfl

/-- An announcement takes the fetch out of the pool, and no other. -/
theorem fetches_announce (kept : p.books.Kept) (mem : f ∈ p.fetches) {outcome : Outcome}
    (ended : f.stage = .ended outcome) :
    (p.announce f.id).fetches = p.fetches.filter fun g => g.id != f.id := by
  rw [announce_eq kept mem ended]
  exact List.foldlRecOn (motive := fun q : Pool => q.fetches = _) f.watchers _ rfl
    fun q same w _ => (fetches_tell q outcome w).trans same

theorem lasts_announce (kept : p.books.Kept) (mem : f ∈ p.fetches) {id : Nat}
    (still : id = f.id → f.isUnfinished = true) : ∃ g ∈ (p.announce id).fetches, f.Lasts g := by
  obtain same | ⟨g, outcome, there, rfl, ended⟩ := p.announce_cases id
  · exact ⟨f, by rwa [same], .of_same rfl rfl rfl⟩
  · refine ⟨f, ?_, .of_same rfl rfl rfl⟩
    rw [fetches_announce kept there ended, List.mem_filter]
    refine ⟨mem, bne_iff_ne.2 fun same => ?_⟩
    obtain rfl := List.inj_on_of_nodup_map (nodup_fetches kept) mem there same
    have unfinished := still rfl
    rw [Fetch.isUnfinished_eq_false.2 ⟨outcome, ended⟩] at unfinished
    cases unfinished

/-- A fetch lasts through every step until it has ended and its end is announced. -/
theorem step_lasts {slots : Nat} (gated : p.Gated slots) (kept : p.books.Kept) (mem : f ∈ p.fetches)
    (now : Seconds) (e : PoolEvent) (still : e = .announce f.id → f.isUnfinished = true) :
    ∃ g ∈ (p.step now e).fetches, f.Lasts g := by
  have apart := gated.apart kept mem
  cases e with
  | openCall id context =>
    cases taken : p.call? id with
    | none => simpa [step, taken] using lasts_openCall mem id context
    | some c => exact ⟨f, by simpa [step, taken] using mem, .of_same rfl rfl rfl⟩
  | abandon id => exact lasts_abandon mem id
  | callStep id => exact lasts_callStep mem now id
  | fetchStep id =>
    exact lasts_of_books (books_fetchStep ..)
      (fun ended => (apart ended).fetchStep kept ended now id) mem
  | announce id => exact lasts_announce kept mem fun same => still (same ▸ rfl)
  | arrive id reply =>
    exact lasts_of_books (books_arrive ..) (fun ended => (apart ended).arrive kept ended id reply) mem
  | arriveAtOnce id reply =>
    exact lasts_of_books (books_arriveAtOnce ..)
      (fun ended => (apart ended).arriveAtOnce kept ended now id reply) mem
  | expire id =>
    exact lasts_of_books (books_expire ..) (fun ended => (apart ended).expire kept ended id) mem
  | cancelPending =>
    exact lasts_of_books (books_cancelPending _)
      (fun ended => (apart ended).stopFetches kept ended _) mem
  | clearCache => exact ⟨f, mem, .of_same rfl rfl rfl⟩
  | setTtl ttl given =>
    obtain ⟨cache, same⟩ := p.setTtl_cases now ttl given
    exact ⟨f, same ▸ mem, .of_same rfl rfl rfl⟩
  | resetAuth => exact ⟨f, mem, .of_same rfl rfl rfl⟩

end

end Pool

end Typeahead
