import Typeahead.Proofs.Fetch.Kept
import Typeahead.Proofs.Fetch.Line

/-!
The slots of a pool. Every way that a fetch goes out gives its slot back and takes it off the count.

- `Reachable.gated`: the gate and the counter of a pool are in order, whatever happens to it.
-/

namespace Typeahead

namespace Pool

@[simp] theorem gate_withGate (p : Pool) (ids : List Nat) (gate : Gate) :
    (p.withGate ids gate).gate = gate :=
  List.foldlRecOn (motive := fun q : Pool => q.gate = gate) ids _ rfl fun _ h _ _ => h

@[simp] theorem inFlight_withGate (p : Pool) (ids : List Nat) (gate : Gate) :
    (p.withGate ids gate).inFlight = p.inFlight :=
  List.foldlRecOn (motive := fun q : Pool => q.inFlight = p.inFlight) ids _ rfl fun _ h _ _ => h

@[simp] theorem fetches_withGate (p : Pool) (ids : List Nat) (gate : Gate) :
    (p.withGate ids gate).fetches = p.fetches.map (Fetch.handed ids) := by
  have moved (q : Pool) : (ids.foldl
      (fun p id => (p.moveFetch id .admitted).post (.fetchDue id)) q).fetches =
      q.fetches.map (Fetch.handed ids) := by
    induction ids generalizing q with
    | nil => simp
    | cons id ids ih =>
      rw [List.foldl_cons, ih, ← Fetch.map_handed_cons]
      simp [moveFetch, updateFetch, post, Fetch.handed]
  exact moved _

/-- The gate and the counter are in order. -/
def Gated (p : Pool) (slots : Nat) : Prop := Rest p.gate p.inFlight p.fetches slots 0

/-- The gate and the counter are in order but for a fetch in the middle of its step, which has `held`
slots in hand. -/
def Amid (p : Pool) (f : Fetch) (slots held : Nat) : Prop :=
  ∃ others, p.fetches.Perm (f :: others) ∧ Rest p.gate p.inFlight others slots held

section

variable {p : Pool} {f : Fetch} {slots held : Nat}

theorem nodup_fetches (kept : p.books.Kept) : (p.fetches.map (·.id)).Nodup :=
  ids_books p ▸ kept.registered.numbers

/-- A fetch is taken aside for its step. -/
theorem Gated.aside (h : p.Gated slots) (kept : p.books.Kept) (mem : f ∈ p.fetches)
    (unlined : f.visitor? = none) (outside : f.isInside = false) : p.Amid f slots 0 := by
  obtain ⟨others, perm, -, -⟩ := Fetch.perm_change (nodup_fetches kept) mem
  have rest := h.of_perm perm
  refine ⟨others, perm, ?_, ?_, rest.conserved⟩
  · simpa [List.filterMap_cons_none unlined] using rest.line
  · simpa [outside] using rest.counted

/-- A fetch in the middle of its step moves to a stage. -/
theorem Amid.move (h : p.Amid f slots held) (kept : p.books.Kept) (stage : FetchStage) :
    (p.moveFetch f.id stage).Amid { f with stage } slots held := by
  obtain ⟨others, perm, rest⟩ := h
  have mem : f ∈ p.fetches := perm.symm.subset List.mem_cons_self
  obtain ⟨others', perm', -, change⟩ := Fetch.perm_change (nodup_fetches kept) mem
  exact ⟨others', change _, rest.of_perm (perm.symm.trans perm').cons_inv⟩

/-- A fetch that has nothing to do with the gate any more, or not yet, rejoins the others. -/
theorem Amid.rejoin (h : p.Amid f slots 0) (unlined : f.visitor? = none)
    (outside : f.isInside = false) : p.Gated slots := by
  obtain ⟨others, perm, rest⟩ := h
  refine Rest.of_perm ⟨?_, ?_, rest.conserved⟩ perm.symm
  · simpa [List.filterMap_cons_none unlined] using rest.line
  · simpa [outside] using rest.counted

/-- A fetch with a slot in hand goes in. -/
theorem Amid.goIn (h : p.Amid f slots 1) (inside : f.isInside = true) :
    ({ p with inFlight := p.inFlight + 1 } : Pool).Gated slots := by
  obtain ⟨others, perm, rest⟩ := h
  have unlined : f.visitor? = none := by
    unfold Fetch.isInside at inside
    unfold Fetch.visitor?
    split at inside <;> simp_all
  refine Rest.of_perm ⟨?_, ?_, ?_⟩ perm.symm
  · simpa [List.filterMap_cons_none unlined] using rest.line
  · simp [inside, rest.counted]
  · have := rest.conserved
    dsimp only
    omega

/-- A fetch behind the gate is taken aside with its slot in hand. -/
theorem Gated.comeOut (h : p.Gated slots) (kept : p.books.Kept) (mem : f ∈ p.fetches)
    (inside : f.isInside = true) :
    ({ p with inFlight := p.inFlight - 1 } : Pool).Amid f slots 1 := by
  obtain ⟨others, perm, -, -⟩ := Fetch.perm_change (nodup_fetches kept) mem
  have rest := h.of_perm perm
  have unlined : f.visitor? = none := by
    unfold Fetch.isInside at inside
    unfold Fetch.visitor?
    split at inside <;> simp_all
  have counted := rest.counted
  rw [List.countP_cons_of_pos inside] at counted
  have conserved := rest.conserved
  refine ⟨others, perm, ?_, ?_, ?_⟩
  · simpa [List.filterMap_cons_none unlined] using rest.line
  · dsimp only
    omega
  · dsimp only
    omega

theorem Amid.withGate {ids : List Nat} {gate : Gate} {others : List Fetch}
    (perm : p.fetches.Perm (f :: others)) (apart : f.id ∉ ids)
    (rest : Rest gate p.inFlight (others.map (Fetch.handed ids)) slots held) :
    (p.withGate ids gate).Amid f slots held := by
  refine ⟨others.map (Fetch.handed ids), ?_, ?_⟩
  · have alone : f.handed ids = f := by simp [Fetch.handed, apart]
    simpa [alone] using perm.map (Fetch.handed ids)
  · simpa using rest

theorem apart_fetches (kept : p.books.Kept) {others : List Fetch}
    (perm : p.fetches.Perm (f :: others)) :
    (others.map (·.id)).Nodup ∧ ∀ g ∈ others, g.id ≠ f.id := by
  have nodup := (perm.map (·.id)).nodup_iff.1 (nodup_fetches kept)
  rw [List.map_cons, List.nodup_cons] at nodup
  exact ⟨nodup.2, fun g mem same => nodup.1 (List.mem_map.2 ⟨g, mem, same⟩)⟩

/-- Whoever gives a slot back has none in hand. -/
theorem Amid.release (h : p.Amid f slots 1) (kept : p.books.Kept) :
    p.releaseSlot.Amid f slots 0 := by
  obtain ⟨others, perm, rest⟩ := h
  obtain ⟨nodup, apart⟩ := apart_fetches kept perm
  obtain ⟨next, among⟩ := rest.free.letIn nodup
  refine Amid.withGate perm (fun mem => ?_) next
  obtain ⟨g, there, same⟩ := List.mem_map.1 (among f.id mem)
  exact apart g there same

/-- A fetch that leaves the line has the slot in hand that was handed out to it, or gives it back. -/
theorem Gated.leaveLine (h : p.Gated slots) (kept : p.books.Kept) (mem : f ∈ p.fetches)
    {v : Visitor} (visitor : f.visitor? = some v) {unused : Bool}
    (hands : (if v.standing = .admitted then 1 else 0) = held + if unused then 1 else 0) :
    (p.leaveLine f.id unused).Amid f slots held := by
  obtain ⟨others, perm, alone, -⟩ := Fetch.perm_change (nodup_fetches kept) mem
  have rest := (h.of_perm perm).remove visitor alone
  obtain ⟨nodup, -⟩ := apart_fetches kept perm
  have offered : Rest
      { p.gate.remove f.id with free := (p.gate.remove f.id).free + if unused then 1 else 0 }
      p.inFlight others slots held := by
    rw [hands] at rest
    cases unused with
    | true => exact rest.free
    | false => exact rest
  obtain ⟨next, among⟩ := offered.admitUpTo nodup _
  refine Amid.withGate perm (fun mem => ?_) next
  obtain ⟨g, there, same⟩ := List.mem_map.1 (among f.id mem)
  exact alone g there same

/-- Whatever way a fetch comes out, it gives its slot back. -/
theorem Gated.leave (h : p.Gated slots) (kept : p.books.Kept) (mem : f ∈ p.fetches)
    (inside : f.isInside = true) : (p.leave f.id).Amid f slots 0 :=
  Amid.release (h.comeOut kept mem inside) kept

/-- A fetch ends. -/
theorem Amid.endFetch (h : p.Amid f slots 0) (kept : p.books.Kept) (outcome : Outcome) :
    (p.endFetch f.id outcome).Gated slots :=
  (h.move kept (.ended outcome)).rejoin rfl rfl

/-- A fetch behind the gate goes on there. -/
theorem Gated.moveInside (h : p.Gated slots) (kept : p.books.Kept) (mem : f ∈ p.fetches)
    (inside : f.isInside = true) {stage : FetchStage}
    (stays : ({ f with stage } : Fetch).isInside = true) :
    (p.moveFetch f.id stage).Gated slots := by
  have positive : 0 < p.inFlight := by
    rw [h.counted]
    exact List.countP_pos_iff.2 ⟨f, mem, inside⟩
  -- to the gate, staying inside is to come out and to go in again
  have moved := ((h.comeOut kept mem inside).move kept stage).goIn stays
  simpa [Gated, moveFetch, updateFetch, Nat.sub_add_cancel positive] using moved

/-- A change of a fetch that does not concern the gate. -/
theorem Gated.updateFetch (h : p.Gated slots) (kept : p.books.Kept) (mem : f ∈ p.fetches)
    {change : Fetch → Fetch} (visitor : (change f).visitor? = f.visitor?)
    (inside : (change f).isInside = f.isInside) : (p.updateFetch f.id change).Gated slots := by
  obtain ⟨others, perm, -, changed⟩ := Fetch.perm_change (nodup_fetches kept) mem
  have rest := h.of_perm perm
  refine Rest.of_perm ⟨?_, ?_, rest.conserved⟩ (changed change).symm
  · have := rest.line
    rwa [List.filterMap_cons, ← visitor, ← List.filterMap_cons] at this
  · have := rest.counted
    rwa [List.countP_cons, ← inside, ← List.countP_cons] at this

theorem Gated.stopFetch (h : p.Gated slots) (kept : p.books.Kept) (id : Nat) :
    (p.stopFetch id).Gated slots := by
  unfold Pool.stopFetch
  split
  · exact h
  · next f found =>
    obtain ⟨mem, rfl⟩ := mem_of_fetch? found
    dsimp only
    split
    · exact h
    · exact h
    · next queued going =>
      obtain ⟨others, perm, alone, changed⟩ := Fetch.perm_change (nodup_fetches kept) mem
      have waits : f.visitor? = some ⟨f.id, .waiting⟩ := by simp [Fetch.visitor?, queued, going]
      exact ((h.of_perm perm).giveUp waits alone).of_perm
        (changed fun f => { f with stopping := true }).symm
    · next asking going =>
      exact h.updateFetch kept mem (by simp [Fetch.visitor?, asking]) rfl
    · next notEnded _ notQueued notAsking =>
      refine h.updateFetch kept mem ?_ rfl
      cases stage : f.stage with
      | queued => exact absurd stage notQueued
      | begun | admitted | asking | answered | overdue | ended => simp [Fetch.visitor?, stage]

theorem Gated.stopFetches (h : p.Gated slots) (kept : p.books.Kept) (ids : List Nat) :
    (p.stopFetches ids).Gated slots := by
  induction ids generalizing p with
  | nil => exact h
  | cons id ids ih => exact ih (h.stopFetch kept id) ((books_stopFetch p id).symm ▸ kept)

/-- A fetch that is not told to stop stays as it is. -/
theorem mem_stopFetch (mem : f ∈ p.fetches) {id : Nat} (other : id ≠ f.id) :
    f ∈ (p.stopFetch id).fetches := by
  have spared : f ∈ (p.updateFetch id fun g => { g with stopping := true }).fetches :=
    List.mem_map.2 ⟨f, mem, if_neg (Ne.symm other)⟩
  unfold stopFetch
  split
  · exact mem
  · dsimp only
    split
    · exact mem
    · exact mem
    · exact spared
    · exact spared
    · exact spared

theorem mem_stopFetches (mem : f ∈ p.fetches) {ids : List Nat} (others : f.id ∉ ids) :
    f ∈ (p.stopFetches ids).fetches := by
  induction ids generalizing p with
  | nil => exact mem
  | cons id ids ih =>
    have first : id ≠ f.id := fun same => others (same ▸ List.mem_cons_self)
    exact ih (mem_stopFetch mem first) fun later => others (List.mem_cons_of_mem _ later)

/-- A fetch with a slot in hand goes in, or is turned away and gives the slot back. -/
theorem Amid.pass (h : p.Amid f slots 1) (kept : p.books.Kept) : (p.pass f).Gated slots := by
  unfold Pool.pass
  split
  · exact (h.release kept).endFetch ((books_releaseSlot p).symm ▸ kept) _
  · dsimp only
    split
    · exact (h.move kept .overdue).goIn rfl
    · split
      · have back : (({ p with inFlight := p.inFlight + 1 } : Pool).leave f.id).Amid f slots 0 :=
          Amid.release h kept
        exact back.endFetch ((books_leave ..).symm ▸ kept) _
      · exact (h.move kept .asking).goIn rfl

/-- Whatever the reply is, the fetch that takes it goes out. -/
theorem Gated.take (h : p.Gated slots) (kept : p.books.Kept) (mem : f ∈ p.fetches)
    (inside : f.isInside = true) (now : Seconds) (reply : Reply) :
    (p.take now f reply).Gated slots := by
  have out : (p.leave f.id).Amid f slots 0 := h.leave kept mem inside
  have books : (p.leave f.id).books.Kept := (books_leave p f.id).symm ▸ kept
  unfold Pool.take
  dsimp only
  split
  · split
    · exact Amid.endFetch (p := { p.leave f.id with cache := _ }) out books _
    · exact out.endFetch books _
  · next text _ =>
    -- the others are told to stop before the fetch leaves, and it is not one of them
    let others := (p.pending.map (·.fetch)).filter (· != f.id)
    let refused : Pool := { p with refusal? := some text }
    have gated : (refused.stopFetches others).Gated slots :=
      Gated.stopFetches (p := refused) h kept others
    have still : (refused.stopFetches others).books.Kept := (books_stopFetches ..).symm ▸ kept
    have there : f ∈ (refused.stopFetches others).fetches :=
      mem_stopFetches (p := refused) mem (by simp [others])
    exact (gated.leave still there inside).endFetch ((books_leave ..).symm ▸ still) _
  · exact out.endFetch books _

theorem Gated.fetchStep (h : p.Gated slots) (kept : p.books.Kept) (now : Seconds) (id : Nat) :
    (p.fetchStep now id).Gated slots := by
  unfold Pool.fetchStep
  split
  · exact h
  · next f found =>
    obtain ⟨mem, rfl⟩ := mem_of_fetch? found
    have out (inside : f.isInside = true) (outcome : Outcome) :
        ((p.leave f.id).endFetch f.id outcome).Gated slots :=
      (h.leave kept mem inside).endFetch ((books_leave p f.id).symm ▸ kept) outcome
    split
    · next begun _ =>
      have aside : p.Amid f slots 0 :=
        h.aside kept mem (by simp [Fetch.visitor?, begun]) (by simp [Fetch.isInside, begun])
      exact aside.endFetch kept _
    · next begun going =>
      obtain ⟨others, perm, rest⟩ : p.Amid f slots 0 :=
        h.aside kept mem (by simp [Fetch.visitor?, begun]) (by simp [Fetch.isInside, begun])
      dsimp only
      split
      · next entered =>
        have inHand : ({ p with gate := (p.gate.enter f.id).2 } : Pool).Amid f slots 1 :=
          ⟨others, perm, rest.enter_open entered⟩
        exact inHand.pass kept
      · next refused =>
        obtain ⟨others', perm', -, changed⟩ := Fetch.perm_change (nodup_fetches kept) mem
        have same := (perm.symm.trans perm').cons_inv
        have lined := (rest.of_perm same).enter_closed (Bool.eq_false_iff.2 refused) going
        exact lined.of_perm (changed fun f => { f with stage := .queued }).symm
    · next queued gone =>
      have away : (p.leaveLine f.id false).Amid f slots 0 :=
        h.leaveLine kept mem (v := ⟨f.id, .gone⟩) (by simp [Fetch.visitor?, queued, gone]) rfl
      exact away.endFetch ((books_leaveLine ..).symm ▸ kept) _
    · next admitted _ =>
      have away : (p.leaveLine f.id true).Amid f slots 0 :=
        h.leaveLine kept mem (v := ⟨f.id, .admitted⟩) (by simp [Fetch.visitor?, admitted]) rfl
      exact away.endFetch ((books_leaveLine ..).symm ▸ kept) _
    · next admitted _ =>
      have inHand : (p.leaveLine f.id false).Amid f slots 1 :=
        h.leaveLine kept mem (v := ⟨f.id, .admitted⟩) (by simp [Fetch.visitor?, admitted]) rfl
      exact inHand.pass ((books_leaveLine ..).symm ▸ kept)
    · next asking _ => exact out (by simp [Fetch.isInside, asking]) _
    · next answered _ => exact out (by simp [Fetch.isInside, answered]) _
    · next overdue _ => exact out (by simp [Fetch.isInside, overdue]) _
    · next answered _ => exact h.take kept mem (by simp [Fetch.isInside, answered]) now _
    · next overdue _ => exact out (by simp [Fetch.isInside, overdue]) _
    · exact h
    · exact h
    · exact h

theorem Gated.arrive (h : p.Gated slots) (kept : p.books.Kept) (id : Nat) (reply : Reply) :
    (p.arrive id reply).Gated slots := by
  unfold Pool.arrive
  split
  · next found =>
    obtain ⟨mem, rfl⟩ := mem_of_fetch? found
    exact h.moveInside kept mem rfl rfl
  · exact h

theorem Gated.arriveAtOnce (h : p.Gated slots) (kept : p.books.Kept) (now : Seconds) (id : Nat)
    (reply : Reply) : (p.arriveAtOnce now id reply).Gated slots := by
  unfold Pool.arriveAtOnce
  split
  · next f found =>
    obtain ⟨mem, rfl⟩ := mem_of_fetch? found
    split
    · next asking _ => exact h.take kept mem (by simp [Fetch.isInside, asking]) now reply
    · exact h
  · exact h

theorem Gated.expire (h : p.Gated slots) (kept : p.books.Kept) (id : Nat) :
    (p.expire id).Gated slots := by
  unfold Pool.expire
  split
  · next found =>
    obtain ⟨mem, rfl⟩ := mem_of_fetch? found
    exact h.moveInside kept mem rfl rfl
  · next found =>
    obtain ⟨mem, rfl⟩ := mem_of_fetch? found
    exact h.moveInside kept mem rfl rfl
  · exact h

theorem Gated.tell (h : p.Gated slots) (outcome : Outcome) (id : Nat) :
    (p.tell outcome id).Gated slots := by
  unfold Pool.tell
  split <;> exact h

/-- A fetch that has ended takes no slot along. -/
theorem Gated.announce (h : p.Gated slots) (kept : p.books.Kept) (id : Nat) :
    (p.announce id).Gated slots := by
  obtain same | ⟨f, outcome, mem, rfl, ended⟩ := p.announce_cases id
  · rwa [same]
  · obtain ⟨others, perm, rest⟩ : p.Amid f slots 0 :=
      h.aside kept mem (by simp [Fetch.visitor?, ended]) (by simp [Fetch.isInside, ended])
    have apart : others.filter (fun g => g.id != f.id) = others := by
      apply List.filter_eq_self.2
      intro g there
      simpa using (apart_fetches kept perm).2 g there
    have left : (p.fetches.filter fun g => g.id != f.id).Perm others := by
      have filtered := perm.filter fun g => g.id != f.id
      rwa [List.filter_cons_of_neg (by simp), apart] at filtered
    rw [announce_eq kept mem ended]
    refine List.foldlRecOn (motive := fun q : Pool => q.Gated slots) f.watchers _ ?_
      fun q gated w _ => gated.tell outcome w
    exact rest.of_perm left.symm

/-- Who waits for a fetch is nothing to the gate. -/
theorem Gated.updateWatchers (h : p.Gated slots) (kept : p.books.Kept)
    (mem : f ∈ p.fetches) (change : List Nat → List Nat) :
    (p.updateFetch f.id fun f => { f with watchers := change f.watchers }).Gated slots :=
  h.updateFetch kept mem rfl rfl

theorem CallMove.gated {q : Pool} {c : Call} (move : CallMove p c q) (h : p.Gated slots)
    (kept : p.books.Kept) : q.Gated slots := by
  cases move with
  | settle => exact h
  | finish => exact h
  | begin _ call =>
    refine ⟨?_, ?_, h.conserved⟩
    · simpa [beginFetch, Pool.setCall, post, List.filterMap_cons, Fetch.visitor?] using h.line
    · simpa [beginFetch, Pool.setCall, post, Fetch.isInside] using h.counted
  | join _ call fetch _ _ found =>
    obtain ⟨f, mem, rfl, -⟩ := registered_fetch kept found
    exact h.updateWatchers kept mem (· ++ [call.id])

theorem Gated.callStep (h : p.Gated slots) (kept : p.books.Kept) (now : Seconds) (id : Nat) :
    (p.callStep now id).Gated slots := by
  obtain same | ⟨c, -, -, move⟩ := p.callStep_cases now id
  · rwa [same]
  · exact move.gated h kept

theorem Gated.openCall (h : p.Gated slots) (id : Nat) (context : Context) :
    (p.openCall id context).2.Gated slots := by
  unfold Pool.openCall
  split
  · exact h
  · split <;> exact h

theorem Gated.abandon (h : p.Gated slots) (kept : p.books.Kept) (id : Nat) :
    (p.abandon id).Gated slots := by
  obtain same | ⟨c, there, rfl, ⟨-, same⟩ | ⟨fetch, waits, same⟩⟩ := p.abandon_cases id
  · rwa [same]
  · rwa [same]
  · rw [same]
    obtain ⟨f, mem, rfl, -⟩ := kept.attended.waits c there fetch waits
    obtain ⟨g, there, rfl⟩ := List.mem_map.1 mem
    exact h.updateWatchers kept there (·.filter (· != c.id))

/-- No step loses a slot, or makes one. -/
theorem Gated.step (h : p.Gated slots) (kept : p.books.Kept) (now : Seconds) (e : PoolEvent) :
    (p.step now e).Gated slots := by
  cases e with
  | openCall id context =>
    cases taken : p.call? id with
    | none => simpa [Pool.step, taken] using h.openCall id context
    | some c => simpa [Pool.step, taken] using h
  | abandon id => exact h.abandon kept id
  | callStep id => exact h.callStep kept now id
  | fetchStep id => exact h.fetchStep kept now id
  | announce id => exact h.announce kept id
  | arrive id reply => exact h.arrive kept id reply
  | arriveAtOnce id reply => exact h.arriveAtOnce kept now id reply
  | expire id => exact h.expire kept id
  | cancelPending => exact h.stopFetches kept _
  | clearCache => exact h
  | setTtl ttl given =>
    obtain ⟨cache, same⟩ := p.setTtl_cases now ttl given
    exact same ▸ h
  | resetAuth => exact h

end

theorem Reachable.gated {slots : Int} {p : Pool} (h : Reachable slots p) : p.Gated slots.toNat := by
  induction h with
  | create created =>
    obtain ⟨-, cache, rfl⟩ := create_cases created
    exact ⟨.nil, rfl, rfl⟩
  | step now e earlier ih => exact ih.step earlier.kept now e

end Pool

end Typeahead
