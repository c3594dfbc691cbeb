import Typeahead.Proofs.Fetch.Due

/-!
Nobody waits in line for a slot that is free. A slot that comes free is offered to those in line at once,
and a newcomer joins the line only where no slot is free or someone in it has yet to take the slot that
was handed over.

- `step_eager`: whatever happens to a pool.
- `nothing_left_of_unowed`: where nothing is owed all fetches and calls have come to their ends, unless
  there are no slots at all.
-/

namespace Typeahead

/-- Nobody waits in line for a slot that is free, unless someone is about to leave the line. -/
def Gate.Eager (g : Gate) : Prop :=
  (∃ v ∈ g.line, v.standing = .waiting) → g.free = 0 ∨ ∃ v ∈ g.line, v.standing = .admitted

namespace Gate

theorem admitFirst_eq_none {line : List Visitor} (h : admitFirst line = none) :
    ∀ v ∈ line, v.standing ≠ .waiting := by
  induction line with
  | nil => simp
  | cons v rest ih =>
    simp only [admitFirst] at h
    split at h
    · cases h
    · next other =>
      exact List.forall_mem_cons.2 ⟨other, ih (Option.map_eq_none_iff.1 h)⟩

/-- Once a slot has been offered to those in line nobody waits for one that is free. -/
theorem eager_letIn (g : Gate) : g.letIn.2.Eager := by
  rintro ⟨v, mem, waits⟩
  cases found : admitFirst g.line with
  | none =>
    have same : g.letIn = (none, g) := by simp [letIn, found]
    rw [same] at mem
    exact absurd waits (admitFirst_eq_none found v mem)
  | some handed =>
    cases free : g.free with
    | zero =>
      have same : g.letIn = (none, g) := by simp [letIn, free]
      exact .inl (same ▸ free)
    | succ n =>
      have taken : g.letIn = (some handed.1, ⟨n, handed.2⟩) := by simp [letIn, free, found]
      obtain ⟨before, after, -, line⟩ := admitFirst_split found
      rw [taken]
      exact .inr ⟨⟨handed.1, .admitted⟩, by simp [line], rfl⟩

theorem Eager.admitUpTo {g : Gate} (h : g.Eager) (count : Nat) : (admitUpTo count g).2.Eager := by
  induction count generalizing g with
  | zero => exact h
  | succ count ih =>
    have offered := g.eager_letIn
    simp only [Gate.admitUpTo]
    split
    · next id g' handed =>
      rw [handed] at offered
      exact ih offered
    · next g' handed =>
      rw [handed] at offered
      exact offered

theorem eager_admitAll (g : Gate) : g.admitAll.2.Eager := by
  cases free : g.free with
  | zero =>
    have same : g.admitAll = ([], g) := by simp [admitAll, free, admitUpTo]
    rw [same]
    exact fun _ => .inl free
  | succ n =>
    have offered := g.eager_letIn
    simp only [admitAll, free, admitUpTo]
    split
    · next id g' handed =>
      rw [handed] at offered
      exact offered.admitUpTo n
    · next g' handed =>
      rw [handed] at offered
      exact offered

theorem Eager.enter {g : Gate} (h : g.Eager) (id : Nat) : (g.enter id).2.Eager := by
  rintro ⟨v, mem, waits⟩
  cases closed : g.isClosed with
  | false =>
    simp only [Gate.enter, closed, Bool.false_eq_true, if_false] at mem
    simp only [isClosed, Bool.or_eq_false_iff, List.any_eq_false] at closed
    simpa [waits] using closed.2 v mem
  | true =>
    simp only [Gate.enter, closed, if_true]
    simp only [isClosed, Bool.or_eq_true, decide_eq_true_eq, List.any_eq_true] at closed
    rcases closed with full | ⟨w, there, going⟩
    · exact .inl full
    · cases standing : w.standing with
      | gone => simp [standing] at going
      | admitted => exact .inr ⟨w, List.mem_append_left _ there, standing⟩
      | waiting =>
        refine (h ⟨w, there, standing⟩).imp_right ?_
        rintro ⟨x, mem, admitted⟩
        exact ⟨x, List.mem_append_left _ mem, admitted⟩

/-- Whoever gives up in line was not handed a slot. -/
theorem Eager.mark {g : Gate} (h : g.Eager) {id : Nat}
    (apart : ∀ v ∈ g.line, v.standing = .admitted → v.id ≠ id) : (g.mark id .gone).Eager := by
  rintro ⟨v, mem, waits⟩
  obtain ⟨w, there, rfl⟩ := List.mem_map.1 mem
  have other : w.id ≠ id := by
    intro same
    rw [if_pos same] at waits
    cases waits
  rw [if_neg other] at waits
  refine (h ⟨w, there, waits⟩).imp_right fun ⟨x, mem, admitted⟩ => ⟨x, ?_, admitted⟩
  exact List.mem_map.2 ⟨x, mem, if_neg (apart x mem admitted)⟩

end Gate

namespace Pool

section

variable {p : Pool} {slots : Nat}

theorem eager_releaseSlot (p : Pool) : p.releaseSlot.gate.Eager := by
  unfold releaseSlot
  dsimp only
  rw [gate_withGate]
  exact Gate.eager_letIn _

theorem eager_leaveLine (p : Pool) (id : Nat) (unused : Bool) : (p.leaveLine id unused).gate.Eager := by
  unfold leaveLine
  dsimp only
  rw [gate_withGate]
  exact Gate.eager_admitAll _

theorem eager_leave (p : Pool) (id : Nat) : (p.leave id).gate.Eager := eager_releaseSlot _

theorem eager_stopFetch (h : p.gate.Eager) (gated : p.Gated slots) (kept : p.books.Kept) (id : Nat) :
    (p.stopFetch id).gate.Eager := by
  unfold stopFetch
  split
  · exact h
  · next f found =>
    obtain ⟨mem, rfl⟩ := mem_of_fetch? found
    dsimp only
    split
    · exact h
    · exact h
    · next queued _ =>
      refine h.mark fun v inLine admitted same => ?_
      obtain ⟨g, there, visits⟩ := List.mem_filterMap.1 (gated.line.subset inLine)
      obtain rfl := eq_of_found kept there ((Fetch.visitor?_id visits).symm.trans same ▸ found)
      simp only [Fetch.visitor?, queued, Option.some.injEq] at visits
      rw [← visits] at admitted
      split at admitted <;> cases admitted
    · exact h
    · exact h

theorem eager_stopFetches (h : p.gate.Eager) (gated : p.Gated slots) (kept : p.books.Kept)
    (ids : List Nat) : (p.stopFetches ids).gate.Eager := by
  induction ids generalizing p with
  | nil => exact h
  | cons id ids ih =>
    exact ih (eager_stopFetch h gated kept id) (gated.stopFetch kept id)
      ((books_stopFetch p id).symm ▸ kept)

theorem eager_pass (h : p.gate.Eager) (f : Fetch) : (p.pass f).gate.Eager := by
  unfold pass
  split
  · exact eager_releaseSlot p
  · dsimp only
    split
    · exact h
    · split
      · exact eager_leave _ _
      · exact h

theorem eager_take (p : Pool) (now : Seconds) (f : Fetch) (reply : Reply) :
    (p.take now f reply).gate.Eager := by
  unfold take
  dsimp only
  split
  · split <;> exact eager_leave _ _
  · exact eager_leave _ _
  · exact eager_leave _ _

theorem eager_fetchStep (h : p.gate.Eager) (now : Seconds) (id : Nat) :
    (p.fetchStep now id).gate.Eager := by
  unfold fetchStep
  split
  · exact h
  · next f _ =>
    split
    · exact h
    · dsimp only
      split
      · exact eager_pass (p := { p with gate := _ }) (h.enter id) f
      · exact h.enter id
    · exact eager_leaveLine _ _ _
    · exact eager_leaveLine _ _ _
    · exact eager_pass (eager_leaveLine _ _ _) f
    · exact eager_leave _ _
    · exact eager_leave _ _
    · exact eager_leave _ _
    · exact eager_take _ _ _ _
    · exact eager_leave _ _
    · exact h
    · exact h
    · exact h

theorem CallMove.gate {q : Pool} {c : Call} (move : CallMove p c q) : q.gate = p.gate := by
  cases move <;> rfl

/-- No event leaves anyone waiting in line for a slot that is free. -/
theorem step_eager (h : p.gate.Eager) (gated : p.Gated slots) (kept : p.books.Kept) (now : Seconds)
    (e : PoolEvent) : (p.step now e).gate.Eager := by
  cases e with
  | openCall id context =>
    obtain same | ⟨-, lookup, opened⟩ := p.step_openCall_cases now id context
    · rwa [same]
    · rwa [opened]
  | abandon id =>
    change (p.abandon id).gate.Eager
    obtain same | ⟨c, -, -, ⟨-, same⟩ | ⟨fetch, -, same⟩⟩ := p.abandon_cases id
    · rwa [same]
    · rwa [same]
    · rwa [same]
  | callStep id =>
    obtain same | ⟨c, -, -, move⟩ := p.callStep_cases now id
    · exact (congrArg (·.gate.Eager) same).mpr h
    · exact move.gate ▸ h
  | fetchStep id => exact eager_fetchStep h now id
  | announce id =>
    change (p.announce id).gate.Eager
    rwa [gate_announce]
  | arrive id reply =>
    change (p.arrive id reply).gate.Eager
    unfold arrive
    split <;> exact h
  | arriveAtOnce id reply =>
    change (p.arriveAtOnce now id reply).gate.Eager
    unfold arriveAtOnce
    split
    · split
      · exact eager_take _ _ _ _
      · exact h
    · exact h
  | expire id =>
    change (p.expire id).gate.Eager
    unfold expire
    split <;> exact h
  | cancelPending => exact eager_stopFetches h gated kept _
  | clearCache => exact h
  | setTtl ttl given =>
    obtain ⟨cache, same⟩ := p.setTtl_cases now ttl given
    exact same ▸ h
  | resetAuth => exact h

/-- Where nothing is owed nothing is left: a fetch would wait in line, for a slot that is free. -/
theorem nothing_left_of_unowed (h : p.gate.Eager) (gated : p.Gated slots) (kept : p.books.Kept)
    (some : slots ≠ 0) (unowed : ∀ s, ¬ p.Owes s) : p.fetches = [] ∧ p.calls = [] := by
  have waiting {f : Fetch} (mem : f ∈ p.fetches) :
      f.isInside = false ∧ f.visitor? = Option.some ⟨f.id, .waiting⟩ := by
    have undue : f.due? = none := by
      cases due : f.due? with
      | none => rfl
      | some s => exact absurd (.inl ⟨f, mem, due⟩) (unowed s)
    cases stage : f.stage with
    | queued =>
      cases stopping : f.stopping with
      | false => simp [Fetch.isInside, Fetch.visitor?, stage, stopping]
      | true => simp [Fetch.due?, stage, stopping] at undue
    | asking => cases stopping : f.stopping <;> simp [Fetch.due?, stage, stopping] at undue
    | begun | admitted | answered | overdue | ended => simp [Fetch.due?, stage] at undue
  have handed : ∀ v ∈ p.gate.line, v.standing = .waiting := by
    intro v inLine
    obtain ⟨f, mem, visits⟩ := List.mem_filterMap.1 (gated.line.subset inLine)
    rw [(waiting mem).2] at visits
    exact Option.some.inj visits ▸ rfl
  have free : p.gate.free = slots := by
    have inside : p.inFlight = 0 := by
      rw [gated.counted, List.countP_eq_zero]
      exact fun f mem => by simp [(waiting mem).1]
    have admitted : p.gate.line.countP (fun v => v.standing = .admitted) = 0 := by
      rw [List.countP_eq_zero]
      exact fun v inLine => by simp [handed v inLine]
    have conserved := gated.conserved
    simp only [Gate.slots] at conserved
    omega
  have fetches : p.fetches = [] := by
    apply List.eq_nil_iff_forall_not_mem.2
    intro f mem
    have inLine : ⟨f.id, .waiting⟩ ∈ p.gate.line :=
      gated.line.symm.subset (List.mem_filterMap.2 ⟨f, mem, (waiting mem).2⟩)
    rcases h ⟨_, inLine, rfl⟩ with full | ⟨v, there, admitted⟩
    · exact some (free ▸ full)
    · cases (handed v there).symm.trans admitted
  refine ⟨fetches, List.eq_nil_iff_forall_not_mem.2 fun c mem => ?_⟩
  cases waits : c.awaits? with
  | none => exact unowed (.callDue c.id) (.inr ⟨c, mem, by simp [Call.due?, waits]⟩)
  | some fetch =>
    obtain ⟨f, there, -⟩ := kept.attended.waits c mem fetch waits
    simp [books, fetches] at there

end

end Pool

end Typeahead
