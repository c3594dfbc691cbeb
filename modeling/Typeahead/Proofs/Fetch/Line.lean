import Typeahead.Fetch.Pool

/-!
The line at the gate. Fetches stand in it, or are behind the gate and counted; each slot is free, handed
out in the line, with a fetch behind the gate, or in the hands of a fetch in the middle of its step.

- `Rest.remove`, `Rest.giveUp`: a fetch leaves the line, or gives up in it.
- `Rest.enter_open`, `Rest.enter_closed`: a newcomer takes a slot, or joins the line.
- `Rest.letIn`, `Rest.admitUpTo`: free slots are handed out.
-/

namespace Typeahead

namespace Fetch

/-- How a fetch stands in the line at the gate, if it does. -/
def visitor? (f : Fetch) : Option Visitor :=
  match f.stage with
  | .queued => some ⟨f.id, if f.stopping then .gone else .waiting⟩
  | .admitted => some ⟨f.id, .admitted⟩
  | .begun | .asking | .answered _ | .overdue | .ended _ => none

/-- Whether a fetch is behind the gate: it asks the catalog, or has not left with what came of it. -/
def isInside (f : Fetch) : Bool :=
  match f.stage with
  | .asking | .answered _ | .overdue => true
  | .begun | .queued | .admitted | .ended _ => false

/-- Whether a fetch has yet to end. -/
def isUnfinished (f : Fetch) : Bool :=
  match f.stage with
  | .ended _ => false
  | .begun | .queued | .admitted | .asking | .answered _ | .overdue => true

/-- A fetch after slots were handed out in the line. -/
def handed (ids : List Nat) (f : Fetch) : Fetch :=
  if f.id ∈ ids then { f with stage := .admitted } else f

@[simp] theorem id_handed (ids : List Nat) (f : Fetch) : (f.handed ids).id = f.id := by
  unfold handed
  split <;> rfl

@[simp] theorem map_handed_nil (fs : List Fetch) : fs.map (handed []) = fs :=
  (List.map_congr_left fun f _ => by simp [handed]).trans (List.map_id' fs)

theorem map_handed_cons (fs : List Fetch) (id : Nat) (ids : List Nat) :
    (fs.map (handed [id])).map (handed ids) = fs.map (handed (id :: ids)) := by
  rw [List.map_map]
  apply List.map_congr_left
  intro f _
  simp only [Function.comp, handed, List.mem_cons]
  by_cases first : f.id = id <;> by_cases later : f.id ∈ ids <;> simp [first, later]

theorem isUnfinished_eq_false {f : Fetch} :
    f.isUnfinished = false ↔ ∃ outcome, f.stage = .ended outcome := by
  unfold isUnfinished
  split <;> simp_all

theorem visitor?_of_ended {f : Fetch} (h : f.isUnfinished = false) : f.visitor? = none := by
  obtain ⟨outcome, ended⟩ := isUnfinished_eq_false.1 h
  simp [visitor?, ended]

theorem isInside_of_ended {f : Fetch} (h : f.isUnfinished = false) : f.isInside = false := by
  obtain ⟨outcome, ended⟩ := isUnfinished_eq_false.1 h
  simp [isInside, ended]

theorem visitor?_id {f : Fetch} {v : Visitor} (h : f.visitor? = some v) : v.id = f.id := by
  unfold visitor? at h
  split at h <;> cases h <;> rfl

theorem visitor?_eq_waiting {f : Fetch} {id : Nat} (h : f.visitor? = some ⟨id, .waiting⟩) :
    f.id = id ∧ f.stage = .queued ∧ f.stopping = false := by
  cases stage : f.stage with
  | queued =>
    cases stopping : f.stopping <;> simp [visitor?, stage, stopping] at h
    exact ⟨h, rfl, rfl⟩
  | admitted => simp [visitor?, stage] at h
  | begun | asking | answered | overdue | ended => simp [visitor?, stage] at h

/-- A fetch among others of other numbers can be told apart, and changed by itself. -/
theorem perm_change {fs : List Fetch} (nodup : (fs.map (·.id)).Nodup) {f : Fetch} (mem : f ∈ fs) :
    ∃ rest, fs.Perm (f :: rest) ∧ (∀ g ∈ rest, g.id ≠ f.id) ∧
      ∀ change : Fetch → Fetch,
        (fs.map fun g => if g.id = f.id then change g else g).Perm (change f :: rest) := by
  obtain ⟨before, after, rfl⟩ := List.append_of_mem mem
  have moved : (before ++ f :: after).Perm (f :: (before ++ after)) := List.perm_middle
  have others : ∀ g ∈ before ++ after, g.id ≠ f.id := by
    have := (moved.map (·.id)).nodup_iff.1 nodup
    rw [List.map_cons, List.nodup_cons] at this
    intro g mem same
    exact this.1 (List.mem_map.2 ⟨g, mem, same⟩)
  refine ⟨before ++ after, moved, others, fun change => ?_⟩
  refine (moved.map _).trans ?_
  rw [List.map_cons, if_pos rfl]
  refine .cons _ (.of_eq ?_)
  exact (List.map_congr_left fun g mem => if_neg (others g mem)).trans (List.map_id' _)

end Fetch

namespace Gate

theorem admitFirst_split {line more : List Visitor} {id : Nat}
    (h : admitFirst line = some (id, more)) :
    ∃ before after, line = before ++ ⟨id, .waiting⟩ :: after ∧
      more = before ++ ⟨id, .admitted⟩ :: after := by
  induction line generalizing more with
  | nil => simp [admitFirst] at h
  | cons v rest ih =>
    simp only [admitFirst] at h
    split at h
    · next waits =>
      cases h
      exact ⟨[], rest, by simp [← waits], by simp⟩
    · obtain ⟨⟨id', more'⟩, found, e⟩ := Option.map_eq_some_iff.1 h
      simp only [Prod.mk.injEq] at e
      obtain ⟨rfl, rfl⟩ := e
      obtain ⟨before, after, rfl, rfl⟩ := ih found
      exact ⟨v :: before, after, rfl, rfl⟩

/-- One slot is handed to one who waits, or the gate stays as it is. -/
theorem letIn_cases (g : Gate) :
    g.letIn = (none, g) ∨
    ∃ n id before after, g.line = before ++ ⟨id, .waiting⟩ :: after ∧
      g.letIn = (some id, ⟨n, before ++ ⟨id, .admitted⟩ :: after⟩) := by
  unfold letIn
  split
  · next n id more free found =>
    obtain ⟨before, after, line, rfl⟩ := admitFirst_split found
    exact .inr ⟨n, id, before, after, line, rfl⟩
  · exact .inl rfl

end Gate

/-- The gate and the counter of a pool at rest: the line is that of the fetches `fs`, those behind the
gate are counted, and no slot is lost. A fetch apart from them has `held` slots in hand. -/
structure Rest (gate : Gate) (inFlight : Nat) (fs : List Fetch) (slots held : Nat) : Prop where
  line : gate.line.Perm (fs.filterMap Fetch.visitor?)
  counted : inFlight = fs.countP Fetch.isInside
  conserved : gate.slots + inFlight + held = slots

namespace Rest

variable {gate : Gate} {inFlight slots held : Nat} {fs gs : List Fetch}

theorem of_perm (h : Rest gate inFlight fs slots held) (perm : fs.Perm gs) :
    Rest gate inFlight gs slots held :=
  ⟨h.line.trans (perm.filterMap _), h.counted.trans (perm.countP_eq _), h.conserved⟩

/-- A slot in hand becomes a free one. -/
theorem free (h : Rest gate inFlight fs slots (held + 1)) :
    Rest { gate with free := gate.free + 1 } inFlight fs slots held := by
  refine ⟨h.line, h.counted, ?_⟩
  have := h.conserved
  simp only [Gate.slots] at *
  omega

/-- Whoever leaves the line takes the slot along that was handed out to it. -/
theorem remove {f : Fetch} {v : Visitor} (h : Rest gate inFlight (f :: fs) slots 0)
    (visitor : f.visitor? = some v) (others : ∀ g ∈ fs, g.id ≠ f.id) :
    Rest (gate.remove f.id) inFlight fs slots (if v.standing = .admitted then 1 else 0) := by
  have line := h.line
  rw [List.filterMap_cons_some visitor] at line
  have kept : (fs.filterMap Fetch.visitor?).filter (fun w => w.id != f.id) =
      fs.filterMap Fetch.visitor? := by
    apply List.filter_eq_self.2
    intro w mem
    obtain ⟨g, mem, visits⟩ := List.mem_filterMap.1 mem
    simpa [Fetch.visitor?_id visits] using others g mem
  have rest : (gate.remove f.id).line.Perm (fs.filterMap Fetch.visitor?) := by
    have := line.filter fun w => w.id != f.id
    rwa [List.filter_cons_of_neg (by simp [Fetch.visitor?_id visitor]), kept] at this
  refine ⟨rest, ?_, ?_⟩
  · have := h.counted
    unfold Fetch.visitor? at visitor
    split at visitor <;> simp_all [Fetch.isInside]
  · have conserved := h.conserved
    have before := line.countP_eq fun w => w.standing = .admitted
    have after := rest.countP_eq fun w => w.standing = .admitted
    rw [List.countP_cons] at before
    simp only [Gate.slots, Gate.remove] at conserved after ⊢
    simp only [decide_eq_true_eq] at before
    omega

/-- Whoever gives up stays in the line until it goes on. -/
theorem giveUp {f : Fetch} (h : Rest gate inFlight (f :: fs) slots held)
    (waits : f.visitor? = some ⟨f.id, .waiting⟩) (others : ∀ g ∈ fs, g.id ≠ f.id) :
    Rest (gate.mark f.id .gone) inFlight ({ f with stopping := true } :: fs) slots held := by
  obtain ⟨-, queued, -⟩ := Fetch.visitor?_eq_waiting waits
  have line := h.line
  rw [List.filterMap_cons_some waits] at line
  let mark : Visitor → Visitor := fun v => if v.id = f.id then { v with standing := .gone } else v
  have kept : (fs.filterMap Fetch.visitor?).map mark = fs.filterMap Fetch.visitor? := by
    refine (List.map_congr_left fun w mem => ?_).trans (List.map_id' _)
    obtain ⟨g, mem, visits⟩ := List.mem_filterMap.1 mem
    simp [mark, Fetch.visitor?_id visits, others g mem]
  have marked : (gate.mark f.id .gone).line.Perm (⟨f.id, .gone⟩ :: fs.filterMap Fetch.visitor?) := by
    have := line.map mark
    rw [List.map_cons, kept] at this
    simpa [mark, Gate.mark] using this
  refine ⟨?_, ?_, ?_⟩
  · have : Fetch.visitor? { f with stopping := true } = some ⟨f.id, .gone⟩ := by
      simp [Fetch.visitor?, queued]
    rwa [List.filterMap_cons_some this]
  · have := h.counted
    simpa [Fetch.isInside, queued] using this
  · have conserved := h.conserved
    have before := line.countP_eq fun w => w.standing = .admitted
    have after := marked.countP_eq fun w => w.standing = .admitted
    simp only [List.countP_cons, decide_eq_true_eq, reduceCtorEq, if_false] at before after
    simp only [Gate.slots, Gate.mark] at conserved after ⊢
    omega

/-- A newcomer at an open gate has a slot in hand. -/
theorem enter_open (h : Rest gate inFlight fs slots 0) {id : Nat}
    (entered : (gate.enter id).1 = true) : Rest (gate.enter id).2 inFlight fs slots 1 := by
  have taken := gate.slots_enter id
  rw [if_pos entered] at taken
  refine ⟨Gate.line_enter_open entered ▸ h.line, h.counted, ?_⟩
  have := h.conserved
  omega

/-- A newcomer at a closed gate joins the line. -/
theorem enter_closed (h : Rest gate inFlight fs slots 0) {f : Fetch}
    (refused : (gate.enter f.id).1 = false) (going : f.stopping = false) :
    Rest (gate.enter f.id).2 inFlight ({ f with stage := .queued } :: fs) slots 0 := by
  have taken := gate.slots_enter f.id
  rw [if_neg (by simp [refused])] at taken
  have visitor : Fetch.visitor? { f with stage := .queued } = some ⟨f.id, .waiting⟩ := by
    simp [Fetch.visitor?, going]
  refine ⟨?_, ?_, ?_⟩
  · rw [Gate.line_enter_closed refused, List.filterMap_cons_some visitor]
    exact (List.perm_append_singleton ..).trans (h.line.cons _)
  · simpa [Fetch.isInside] using h.counted
  · have := h.conserved
    omega

theorem letIn (h : Rest gate inFlight fs slots held) (nodup : (fs.map (·.id)).Nodup) :
    Rest gate.letIn.2 inFlight (fs.map (Fetch.handed gate.letIn.1.toList)) slots held ∧
    ∀ id ∈ gate.letIn.1.toList, id ∈ fs.map (·.id) := by
  have conserved : gate.letIn.2.slots + inFlight + held = slots := by
    rw [gate.slots_letIn, h.conserved]
  obtain same | ⟨n, id, before, after, line, handed⟩ := gate.letIn_cases
  · rw [same]
    exact ⟨by simpa using h, by simp⟩
  · have standing : ⟨id, .waiting⟩ ∈ fs.filterMap Fetch.visitor? := h.line.subset (by simp [line])
    obtain ⟨f, mem, visitor⟩ := List.mem_filterMap.1 standing
    obtain ⟨rfl, queued, -⟩ := Fetch.visitor?_eq_waiting visitor
    obtain ⟨rest, perm, -, change⟩ := Fetch.perm_change nodup mem
    have admitted : (fs.map (Fetch.handed [f.id])).Perm ({ f with stage := .admitted } :: rest) := by
      have : Fetch.handed [f.id] = fun g => if g.id = f.id then { g with stage := .admitted } else g := by
        funext g
        simp [Fetch.handed]
      exact this ▸ change _
    have others : (before ++ after).Perm (rest.filterMap Fetch.visitor?) := by
      have both := h.line.trans (perm.filterMap _)
      rw [line, List.filterMap_cons_some visitor] at both
      exact (List.perm_middle.symm.trans both).cons_inv
    rw [handed] at conserved ⊢
    refine ⟨⟨?_, ?_, conserved⟩, by simpa using ⟨f, mem, rfl⟩⟩
    · exact (List.perm_middle.trans (others.cons _)).trans (admitted.filterMap Fetch.visitor?).symm
    · rw [h.counted, perm.countP_eq]
      refine Eq.trans ?_ (admitted.countP_eq _).symm
      simp [Fetch.isInside, queued]

theorem admitUpTo (h : Rest gate inFlight fs slots held) (nodup : (fs.map (·.id)).Nodup)
    (count : Nat) :
    Rest (Gate.admitUpTo count gate).2 inFlight
      (fs.map (Fetch.handed (Gate.admitUpTo count gate).1)) slots held ∧
    ∀ id ∈ (Gate.admitUpTo count gate).1, id ∈ fs.map (·.id) := by
  induction count generalizing gate fs with
  | zero => exact ⟨by simpa [Gate.admitUpTo] using h, by simp [Gate.admitUpTo]⟩
  | succ count ih =>
    obtain ⟨next, among⟩ := h.letIn nodup
    simp only [Gate.admitUpTo]
    split
    · next id gate' handed =>
      rw [handed] at next among
      have ids : (fs.map (Fetch.handed [id])).map (·.id) = fs.map (·.id) := by simp
      obtain ⟨last, later⟩ := ih next (ids.symm ▸ nodup)
      rw [Option.toList_some, Fetch.map_handed_cons] at last
      refine ⟨last, fun x mem => ?_⟩
      rcases List.mem_cons.1 mem with rfl | mem
      · exact among x (by simp)
      · exact ids ▸ later x mem
    · next gate' handed =>
      rw [handed] at next
      exact ⟨next, by simp⟩

end Rest

end Typeahead
