import Mathlib.Algebra.Order.BigOperators.Group.List
import Mathlib.Algebra.Order.Group.Nat
import Typeahead.Fetch.Work
import Typeahead.Proofs.Fetch.Endings

/-!
No step makes work. What a step makes due was counted before with the fetch, the call or the one in line
that it comes from, so a pool does not go on without end.

- `work_step`: only a call that is opened, or given up, brings work into a pool.
-/

namespace Typeahead

/-- A change of one thing in a list, of a number of its own, changes a total by what it makes of that
thing. -/
theorem total_change {α : Type} {number : α → Nat} {xs : List α} (nodup : (xs.map number).Nodup)
    {x : α} (mem : x ∈ xs) (change : α → α) (work : α → Nat) :
    total work (xs.map fun y => if number y = number x then change y else y) + work x =
      total work xs + work (change x) := by
  induction xs with
  | nil => cases mem
  | cons y ys ih =>
    rw [List.map_cons, List.nodup_cons] at nodup
    rcases List.mem_cons.1 mem with rfl | later
    · have spared : (ys.map fun z => if number z = number x then change z else z) = ys := by
        refine (List.map_congr_left fun z there => if_neg fun same => nodup.1 ?_).trans (List.map_id' _)
        exact List.mem_map.2 ⟨z, there, same⟩
      simp only [List.map_cons, total, if_true, spared]
      omega
    · have other : number y ≠ number x := fun same =>
        nodup.1 (List.mem_map.2 ⟨x, later, same.symm⟩)
      have rest := ih nodup.2 later
      simp only [List.map_cons, total, if_neg other]
      omega

/-- What is left out of a list takes its part of a total along. -/
theorem total_left_out {α : Type} {xs : List α} {x : α} (mem : x ∈ xs) (keep : α → Bool)
    (out : keep x = false) (work : α → Nat) :
    total work (xs.filter keep) + work x ≤ total work xs := by
  obtain ⟨before, after, rfl⟩ := List.append_of_mem mem
  have first := total_filter_le work keep before
  have last := total_filter_le work keep after
  simp only [List.filter_append, List.filter_cons, out, Bool.false_eq_true, if_false, total_append, total]
  omega

namespace Gate

theorem work_line (before after : List Visitor) (v : Visitor) (free : Nat) :
    (Gate.mk free (before ++ v :: after)).work =
      v.work + (Gate.mk free (before ++ after)).work := by
  simp only [work, total_append, total]
  omega

/-- To hand a slot over is work that was counted in the line. -/
theorem work_letIn (g : Gate) : g.letIn.2.work + g.letIn.1.toList.length ≤ g.work := by
  obtain same | ⟨n, id, before, after, line, handed⟩ := g.letIn_cases
  · simp [same]
  · obtain ⟨free, _⟩ := g
    subst line
    rw [handed, work_line, work_line, Option.toList_some, List.length_singleton]
    simp only [Visitor.work, work]
    omega

theorem work_admitUpTo (count : Nat) (g : Gate) :
    (admitUpTo count g).2.work + (admitUpTo count g).1.length ≤ g.work := by
  induction count generalizing g with
  | zero => simp [admitUpTo]
  | succ count ih =>
    have first := g.work_letIn
    simp only [admitUpTo]
    split
    · next id g' handed =>
      rw [handed] at first
      have later := ih g'
      simp only [Option.toList_some, List.length_singleton] at first
      simp only [List.length_cons]
      omega
    · next g' handed =>
      rw [handed] at first
      simpa using first

/-- Whoever leaves the line takes its work along. -/
theorem work_remove {g : Gate} {v : Visitor} (mem : v ∈ g.line) :
    (g.remove v.id).work + v.work ≤ g.work := total_left_out mem _ (by simp) Visitor.work

theorem work_enter_open {g : Gate} {id : Nat} (entered : (g.enter id).1 = true) :
    (g.enter id).2.work = g.work := congrArg (total Visitor.work) (line_enter_open entered)

/-- Who joins the line has to be handed a slot, and to pass the gate with it. -/
theorem work_enter_closed {g : Gate} {id : Nat} (refused : (g.enter id).1 = false) :
    (g.enter id).2.work = g.work + 7 := by
  simp only [work, line_enter_closed refused, total_append, total, Visitor.work]

theorem work_mark (g : Gate) (id : Nat) : (g.mark id .gone).work ≤ g.work := by
  simp only [mark, work, total_map]
  refine total_le_total fun v _ => ?_
  split
  · exact Nat.zero_le _
  · exact Nat.le_refl _

end Gate

/-- The work that an event brings into a pool. -/
def PoolEvent.work : PoolEvent → Nat
  | .openCall _ _ => 24
  | .abandon _ => 1
  | .callStep _ | .fetchStep _ | .announce _ | .arrive _ _ | .arriveAtOnce _ _ | .expire _
  | .cancelPending | .clearCache | .setTtl _ _ | .resetAuth => 0

namespace Pool

section

variable {p : Pool} {f : Fetch} {c : Call}

theorem Amid.mem {slots held : Nat} (h : p.Amid f slots held) : f ∈ p.fetches := by
  obtain ⟨others, perm, -⟩ := h
  exact perm.symm.subset List.mem_cons_self

@[simp] theorem work_post (p : Pool) (s : Signal) : (p.post s).work = p.work + s.work := by
  simp only [work, post, total_append, total]
  omega

theorem work_updateFetch (kept : p.books.Kept) (mem : f ∈ p.fetches) (change : Fetch → Fetch) :
    (p.updateFetch f.id change).work + f.work = p.work + (change f).work := by
  have changed := total_change (nodup_fetches kept) mem change Fetch.work
  simp only [work, updateFetch]
  omega

theorem work_updateFetch_le (p : Pool) (id : Nat) (change : Fetch → Fetch)
    (less : ∀ f, (change f).work ≤ f.work) : (p.updateFetch id change).work ≤ p.work := by
  have each : total Fetch.work (p.fetches.map fun f => if f.id = id then change f else f) ≤
      total Fetch.work p.fetches := by
    rw [total_map]
    refine total_le_total fun f _ => ?_
    split
    · exact less f
    · exact Nat.le_refl _
  simp only [work, updateFetch]
  omega

theorem work_moveFetch (kept : p.books.Kept) (mem : f ∈ p.fetches) (stage : FetchStage) :
    (p.moveFetch f.id stage).work + f.stage.work = p.work + stage.work := by
  have moved := work_updateFetch kept mem fun f => { f with stage }
  simp only [Fetch.work] at moved
  simp only [moveFetch]
  omega

theorem work_endFetch (kept : p.books.Kept) (mem : f ∈ p.fetches) (outcome : Outcome) :
    (p.endFetch f.id outcome).work + f.stage.work = p.work + 1 := by
  have moved := work_moveFetch kept mem (.ended outcome)
  simp only [endFetch, work_post, Signal.work]
  simp only [FetchStage.work] at moved ⊢
  omega

theorem work_setCall (numbers : (p.calls.map (·.id)).Nodup) (mem : c ∈ p.calls) (call : Call)
    (same : call.id = c.id) : (p.setCall call).work + c.work = p.work + call.work := by
  have changed := total_change numbers mem (fun _ => call) Call.work
  simp only [work, setCall, same]
  omega

/-- To be handed a slot is no work of a fetch: it was counted in the line. -/
theorem work_withGate (p : Pool) (ids : List Nat) (gate : Gate) :
    (p.withGate ids gate).work + p.gate.work ≤ p.work + gate.work + ids.length := by
  have admits (q : Pool) : (ids.foldl
      (fun p id => (p.moveFetch id .admitted).post (.fetchDue id)) q).work ≤ q.work + ids.length := by
    induction ids generalizing q with
    | nil => exact Nat.le_refl _
    | cons id ids ih =>
      have moved : (q.moveFetch id .admitted).work ≤ q.work :=
        work_updateFetch_le q id _ fun f => by
          simp only [Fetch.work, FetchStage.work]
          omega
      have later := ih ((q.moveFetch id .admitted).post (.fetchDue id))
      simp only [work_post, Signal.work] at later
      simp only [List.foldl_cons, List.length_cons]
      omega
  have placed : ({ p with gate } : Pool).work + p.gate.work = p.work + gate.work := by
    simp only [work]
    omega
  have := admits { p with gate }
  unfold withGate
  omega

theorem work_releaseSlot (p : Pool) : p.releaseSlot.work ≤ p.work := by
  have handed : p.gate.release.2.work + p.gate.release.1.toList.length ≤ p.gate.work :=
    Gate.work_letIn { p.gate with free := p.gate.free + 1 }
  have placed := p.work_withGate p.gate.release.1.toList p.gate.release.2
  unfold releaseSlot
  dsimp only
  omega

theorem work_leave (p : Pool) (id : Nat) : (p.leave id).work ≤ p.work := by
  refine (work_releaseSlot _).trans ?_
  rw [work_post]
  exact Nat.le_refl _

/-- Whoever leaves the line takes its work along, unless it had given up. -/
theorem work_leaveLine (p : Pool) {v : Visitor} (mem : v ∈ p.gate.line) (unused : Bool) :
    (p.leaveLine v.id unused).work + v.work ≤ p.work := by
  let gate := { p.gate.remove v.id with free := (p.gate.remove v.id).free + if unused then 1 else 0 }
  have handed : gate.admitAll.2.work + gate.admitAll.1.length ≤ (p.gate.remove v.id).work :=
    gate.work_admitUpTo gate.free
  have placed := p.work_withGate gate.admitAll.1 gate.admitAll.2
  have left := Gate.work_remove mem
  change (p.withGate gate.admitAll.1 gate.admitAll.2).work + _ ≤ _
  omega

theorem work_stopFetch (kept : p.books.Kept) (id : Nat) : (p.stopFetch id).work ≤ p.work := by
  unfold stopFetch
  split
  · exact Nat.le_refl _
  · next f found =>
    obtain ⟨mem, rfl⟩ := mem_of_fetch? found
    have told := work_updateFetch kept mem fun f => { f with stopping := true }
    dsimp only
    split
    · exact Nat.le_refl _
    · exact Nat.le_refl _
    · next going =>
      have marked := p.gate.work_mark f.id
      simp only [Fetch.work, going, if_true, Bool.false_eq_true, if_false] at told
      simp only [work_post, Signal.work]
      simp only [work, updateFetch] at told ⊢
      omega
    · next going =>
      simp only [Fetch.work, going, if_true, Bool.false_eq_true, if_false] at told
      simp only [work_post, Signal.work]
      omega
    · next going _ _ =>
      simp only [Fetch.work, if_true] at told
      omega

theorem work_stopFetches (kept : p.books.Kept) (ids : List Nat) : (p.stopFetches ids).work ≤ p.work := by
  induction ids generalizing p with
  | nil => exact Nat.le_refl _
  | cons id ids ih =>
    exact (ih ((books_stopFetch p id).symm ▸ kept)).trans (work_stopFetch kept id)

/-- A fetch passes the gate by work that was counted before: with a fetch that has just begun, or in the
line. -/
theorem work_pass {slots : Nat} (h : p.Amid f slots 1) (kept : p.books.Kept) :
    (p.pass f).work + f.stage.work ≤ p.work + 6 := by
  unfold pass
  split
  · next reply _ =>
    have back := h.release kept
    have ended := work_endFetch ((books_releaseSlot p).symm ▸ kept) back.mem
      (.failed (.catalog (.blocked reply)))
    have released := p.work_releaseSlot
    omega
  · have mem : f ∈ ({ p with inFlight := p.inFlight + 1 } : Pool).fetches := h.mem
    have moved (stage : FetchStage) :
        (({ p with inFlight := p.inFlight + 1 } : Pool).moveFetch f.id stage).work + f.stage.work =
          p.work + stage.work := work_moveFetch (p := { p with inFlight := p.inFlight + 1 }) kept mem stage
    dsimp only
    split
    · have overdue := moved .overdue
      have one : FetchStage.work .overdue = 1 := rfl
      simp only [work_post, Signal.work]
      omega
    · split
      · next e _ =>
        have back : (({ p with inFlight := p.inFlight + 1 } : Pool).leave f.id).Amid f slots 0 :=
          Amid.release h kept
        have ended := work_endFetch ((books_leave ..).symm ▸ kept) back.mem (.failed (.slashName e.name))
        have left : (({ p with inFlight := p.inFlight + 1 } : Pool).leave f.id).work ≤ p.work :=
          work_leave ..
        omega
      · have asking := moved .asking
        have two : FetchStage.work .asking = 2 := rfl
        simp only [work_post, Signal.work]
        omega

/-- A fetch that leaves ends by the work of its stage. -/
theorem work_out {slots : Nat} (gated : p.Gated slots) (kept : p.books.Kept) (mem : f ∈ p.fetches)
    (inside : f.isInside = true) (outcome : Outcome) :
    ((p.leave f.id).endFetch f.id outcome).work ≤ p.work := by
  have out := gated.leave kept mem inside
  have ended := work_endFetch ((books_leave p f.id).symm ▸ kept) out.mem outcome
  have left := p.work_leave f.id
  have some : 1 ≤ f.stage.work := by
    unfold Fetch.isInside at inside
    split at inside <;> simp_all [FetchStage.work]
  omega

theorem work_take {slots : Nat} (gated : p.Gated slots) (kept : p.books.Kept) (mem : f ∈ p.fetches)
    (inside : f.isInside = true) (now : Seconds) (reply : Reply) :
    (p.take now f reply).work ≤ p.work := by
  unfold take
  dsimp only
  split
  · split
    · exact work_out gated kept mem inside _
    · exact work_out gated kept mem inside _
  · next text _ =>
    let refused : Pool := { p with refusal? := some text }
    let others := (p.pending.map (·.fetch)).filter (· != f.id)
    have there : f ∈ (refused.stopFetches others).fetches :=
      mem_stopFetches (p := refused) mem (by simp [others])
    have still : (refused.stopFetches others).books.Kept := (books_stopFetches ..).symm ▸ kept
    exact (work_out (Gated.stopFetches (p := refused) gated kept others) still there inside _).trans
      (work_stopFetches (p := refused) kept others)
  · exact work_out gated kept mem inside _

/-- A fetch that stands in line does so with its work. -/
theorem Gated.visits {slots : Nat} (gated : p.Gated slots) (mem : f ∈ p.fetches) {v : Visitor}
    (visits : f.visitor? = some v) : v ∈ p.gate.line :=
  gated.line.symm.subset (List.mem_filterMap.2 ⟨f, mem, visits⟩)

theorem work_fetchStep {slots : Nat} (gated : p.Gated slots) (kept : p.books.Kept) (now : Seconds)
    (id : Nat) : (p.fetchStep now id).work ≤ p.work := by
  unfold fetchStep
  split
  · exact Nat.le_refl _
  · next f found =>
    obtain ⟨mem, rfl⟩ := mem_of_fetch? found
    have out (inside : f.isInside = true) (outcome : Outcome) :
        ((p.leave f.id).endFetch f.id outcome).work ≤ p.work :=
      work_out gated kept mem inside outcome
    -- whoever leaves the line does so from a place in it
    have away {v : Visitor} (visits : f.visitor? = some v) (unused : Bool) :
        (p.leaveLine f.id unused).work + v.work ≤ p.work :=
      Fetch.visitor?_id visits ▸ p.work_leaveLine (gated.visits mem visits) unused
    have books (unused : Bool) : (p.leaveLine f.id unused).books.Kept :=
      (books_leaveLine ..).symm ▸ kept
    split
    · next begun _ =>
      have ended := work_endFetch kept mem .stopped
      simp only [begun, FetchStage.work] at ended
      omega
    · next begun going =>
      obtain ⟨others, perm, rest⟩ : p.Amid f slots 0 :=
        gated.aside kept mem (by simp [Fetch.visitor?, begun]) (by simp [Fetch.isInside, begun])
      dsimp only
      split
      · next entered =>
        have inHand : ({ p with gate := (p.gate.enter f.id).2 } : Pool).Amid f slots 1 :=
          ⟨others, perm, rest.enter_open entered⟩
        have passed := work_pass inHand kept
        have same := Gate.work_enter_open entered
        simp only [begun, FetchStage.work] at passed
        simp only [work] at passed ⊢
        omega
      · next refused =>
        have moved := work_moveFetch (p := { p with gate := (p.gate.enter f.id).2 }) kept mem .queued
        have joined := Gate.work_enter_closed (Bool.eq_false_iff.2 refused)
        simp only [begun, FetchStage.work] at moved
        simp only [work] at moved ⊢
        omega
    · next queued gone =>
      have visits : f.visitor? = some ⟨f.id, .gone⟩ := by simp [Fetch.visitor?, queued, gone]
      have aside : (p.leaveLine f.id false).Amid f slots 0 := gated.leaveLine kept mem visits rfl
      have ended := work_endFetch (books false) aside.mem .stopped
      have left := away visits false
      simp only [queued, FetchStage.work] at ended
      omega
    · next admitted _ =>
      have visits : f.visitor? = some ⟨f.id, .admitted⟩ := by simp [Fetch.visitor?, admitted]
      have aside : (p.leaveLine f.id true).Amid f slots 0 := gated.leaveLine kept mem visits rfl
      have ended := work_endFetch (books true) aside.mem .stopped
      have left := away visits true
      simp only [Visitor.work] at left
      omega
    · next admitted _ =>
      have visits : f.visitor? = some ⟨f.id, .admitted⟩ := by simp [Fetch.visitor?, admitted]
      have inHand : (p.leaveLine f.id false).Amid f slots 1 := gated.leaveLine kept mem visits rfl
      have passed := work_pass inHand (books false)
      have left := away visits false
      simp only [Visitor.work] at left
      omega
    · next asking _ => exact out (by simp [Fetch.isInside, asking]) _
    · next answered _ => exact out (by simp [Fetch.isInside, answered]) _
    · next overdue _ => exact out (by simp [Fetch.isInside, overdue]) _
    · next answered _ => exact work_take gated kept mem (by simp [Fetch.isInside, answered]) now _
    · next overdue _ => exact out (by simp [Fetch.isInside, overdue]) _
    · exact Nat.le_refl _
    · exact Nat.le_refl _
    · exact Nat.le_refl _

theorem work_arrive (kept : p.books.Kept) (id : Nat) (reply : Reply) :
    (p.arrive id reply).work ≤ p.work := by
  unfold arrive
  split
  · next found =>
    obtain ⟨mem, rfl⟩ := mem_of_fetch? found
    have moved := work_moveFetch kept mem (.answered reply)
    simp only [FetchStage.work] at moved
    simp only [work_post, Signal.work]
    omega
  · exact Nat.le_refl _

theorem work_arriveAtOnce {slots : Nat} (gated : p.Gated slots) (kept : p.books.Kept) (now : Seconds)
    (id : Nat) (reply : Reply) : (p.arriveAtOnce now id reply).work ≤ p.work := by
  unfold arriveAtOnce
  split
  · next f found =>
    obtain ⟨mem, rfl⟩ := mem_of_fetch? found
    split
    · next asking _ => exact work_take gated kept mem (by simp [Fetch.isInside, asking]) now reply
    · exact Nat.le_refl _
  · exact Nat.le_refl _

theorem work_expire (kept : p.books.Kept) (id : Nat) : (p.expire id).work ≤ p.work := by
  have moved (f : Fetch) (found : p.fetch? id = some f) :
      (p.moveFetch id .overdue).work + f.stage.work = p.work + 1 := by
    obtain ⟨mem, rfl⟩ := mem_of_fetch? found
    exact work_moveFetch kept mem .overdue
  unfold expire
  split
  · next found =>
    have late := moved _ found
    simp only [FetchStage.work] at late
    simp only [work_post, Signal.work]
    omega
  · next found =>
    have late := moved _ found
    simp only [FetchStage.work] at late
    omega
  · exact Nat.le_refl _

/-- Each call that is told has a step to take. -/
theorem work_outbox_tellAll (p : Pool) (outcome : Outcome) (ids : List Nat) :
    total Signal.work (ids.foldl (tell outcome) p).outbox ≤ total Signal.work p.outbox + ids.length := by
  induction ids generalizing p with
  | nil => exact Nat.le_refl _
  | cons id ids ih =>
    have first : total Signal.work (p.tell outcome id).outbox ≤ total Signal.work p.outbox + 1 := by
      unfold tell
      split
      · simp [post, setCall, total, Signal.work]
      · exact Nat.le_succ _
    have later := ih (p.tell outcome id)
    simp only [List.foldl_cons, List.length_cons]
    omega

/-- The steps of those who are told an end were counted with the fetch. -/
theorem work_announce (kept : p.books.Kept) (id : Nat) : (p.announce id).work ≤ p.work := by
  obtain same | ⟨f, outcome, mem, rfl, ended⟩ := p.announce_cases id
  · exact Nat.le_of_eq (congrArg Pool.work same)
  · have calls : (p.announce f.id).calls = (p.books.tell outcome f.watchers).calls :=
      congrArg Books.calls (books_announce kept mem ended)
    have fetches := fetches_announce kept mem ended
    have told : total Call.work (p.announce f.id).calls ≤ total Call.work p.calls := by
      rw [calls]
      simp only [Books.tell, books, total_map]
      refine total_le_total fun c there => ?_
      split
      · next watches =>
        -- a watcher waits, and has the same work when it is told
        obtain ⟨d, hd, number, waits⟩ := kept.attended.watched f.unmoved (mem_books mem) c.id watches
        obtain rfl := kept.attended.eq hd there number
        unfold Call.awaits? at waits
        split at waits
        · next stage _ => simp [Call.work, Call.workLeft, stage]
        · cases waits
      · exact Nat.le_refl _
    have gone : total Fetch.work (p.announce f.id).fetches + f.work ≤ total Fetch.work p.fetches := by
      rw [fetches_announce kept mem ended]
      exact total_left_out mem _ (by simp) Fetch.work
    have due : total Signal.work (p.announce f.id).outbox ≤
        total Signal.work p.outbox + f.watchers.length := by
      rw [announce_eq kept mem ended]
      exact work_outbox_tellAll ..
    have watchers : f.watchers.length ≤ f.work := Nat.le_add_left ..
    simp only [work, gate_announce]
    omega

theorem work_beginFetch (kept : p.books.Kept) (mem : c ∈ p.calls) {call : Call}
    (same : call.id = c.id) : (p.beginFetch call).work + c.work = p.work + 11 + call.workLeft := by
  let begun : Pool := { p with
    fetches := p.fetches ++ [{ id := p.nextFetch, lookup := call.current, watchers := [call.id] }]
    pending := p.pending ++ [⟨call.current.key p.site, p.nextFetch⟩]
    nextFetch := p.nextFetch + 1 }
  have more : begun.work = p.work + 10 := by
    simp only [work, begun, total_append, total, Fetch.work, FetchStage.work, List.length_singleton,
      Bool.false_eq_true, if_false]
    omega
  have waits : (p.beginFetch call).work + c.work =
      (begun.post (.fetchDue p.nextFetch)).work + call.workLeft :=
    work_setCall (p := begun.post (.fetchDue p.nextFetch)) kept.attended.numbers mem _ same
  rw [waits, work_post, more]
  rfl

theorem work_join (kept : p.books.Kept) (mem : c ∈ p.calls) {call : Call} (same : call.id = c.id)
    (there : f ∈ p.fetches) : (p.join call f.id).work + c.work = p.work + 1 + call.workLeft := by
  have watched := work_updateFetch kept there fun f => { f with watchers := f.watchers ++ [call.id] }
  have waits : (p.join call f.id).work + c.work =
      (p.updateFetch f.id fun f => { f with watchers := f.watchers ++ [call.id] }).work + call.workLeft :=
    work_setCall (p := p.updateFetch _ _) kept.attended.numbers mem _ same
  simp only [Fetch.work, List.length_append, List.length_singleton] at watched
  omega

theorem work_endCall (kept : p.books.Kept) (mem : c ∈ p.calls) (call : Call) (same : call.id = c.id)
    (outcome : Outcome) : (p.endCall call outcome).work + c.work = p.work + 1 := by
  have ended := work_setCall kept.attended.numbers mem { call with stage := .ended outcome } same
  simp only [endCall, work_post, Signal.work]
  simp only [Call.work] at ended ⊢
  omega

/-- A call that looks for its names finds them at once, or comes to wait; it may begin a fetch. -/
theorem work_look (kept : p.books.Kept) (mem : c ∈ p.calls) (call : Call) (same : call.id = c.id)
    (now : Seconds) :
    (∃ outcome cache, p.look now call = (some outcome, { p with cache })) ∨
    ∃ q, p.look now call = (none, q) ∧ q.work + c.work ≤ p.work + 11 + call.workLeft := by
  unfold look
  dsimp only
  split
  · exact .inl ⟨_, _, rfl⟩
  · refine .inr ⟨_, rfl, Nat.le_of_eq ?_⟩
    exact work_beginFetch (p := { p with cache := _ }) kept mem same
  · next id _ found =>
    split
    · exact .inl ⟨_, _, rfl⟩
    · obtain ⟨f, there, rfl, -⟩ := registered_fetch kept found
      have joined (cache : Cache) :
          (({ p with cache } : Pool).join call f.id).work + c.work = p.work + 1 + call.workLeft :=
        work_join (p := { p with cache }) kept mem same there
      refine .inr ⟨_, rfl, (Nat.le_of_eq (joined _)).trans ?_⟩
      omega

/-- A call goes on by work that was left to it: it ends, or the tags of a metric stand in. -/
theorem work_conclude (kept : p.books.Kept) (mem : c ∈ p.calls) (now : Seconds) (outcome : Outcome) :
    (p.conclude now c outcome).work + c.work ≤ p.work + c.workLeft := by
  have some : 1 ≤ c.workLeft := by
    unfold Call.workLeft
    split <;> decide
  unfold conclude
  split
  · have ended := work_endCall kept mem c rfl (c.ending outcome)
    omega
  · next lookup standsIn =>
    have early : c.workLeft = 12 ∧ Call.workLeft { c with current := lookup } = 1 := by
      split at standsIn
      · obtain ⟨same, metric, key, wanted, rfl⟩ := Call.standIn?_eq_some standsIn
        simp [Call.workLeft, same, wanted]
      · cases standsIn
    obtain ⟨found, cache, looked⟩ | ⟨q, looked, less⟩ :=
      work_look kept mem { c with current := lookup } rfl now
    · have ended := work_endCall (p := { p with cache }) kept mem
        { c with current := lookup } rfl (Call.ending { c with current := lookup } found)
      simp only [looked]
      change _ = p.work + 1 at ended
      omega
    · simp only [looked]
      omega

theorem work_callStep (kept : p.books.Kept) (now : Seconds) (id : Nat) :
    (p.callStep now id).work ≤ p.work := by
  unfold callStep
  split
  · exact Nat.le_refl _
  · next c found =>
    obtain ⟨mem, rfl⟩ := mem_of_call? found
    have left : c.workLeft ≤ 12 := by
      unfold Call.workLeft
      split <;> decide
    split
    · have gone := total_left_out mem (fun x => x.id != c.id) (by simp) Call.work
      simp only [work_post, Signal.work]
      simp only [work]
      omega
    · next gone unended =>
      have ended := work_endCall kept mem c rfl .stopped
      have some : 1 ≤ c.work := by
        cases stage : c.stage with
        | ended outcome => exact absurd stage (unended outcome)
        | begun => simp [Call.work, stage]
        | waiting | told =>
          simp only [Call.work, stage, Call.workLeft]
          split <;> decide
      omega
    · next stage _ =>
      have begun : c.work = 23 := by simp [Call.work, stage]
      unfold beginCall
      obtain ⟨found, cache, looked⟩ | ⟨q, looked, less⟩ := work_look kept mem c rfl now
      · have concluded := work_conclude (p := { p with cache }) kept mem now found
        simp only [looked]
        change _ ≤ p.work + _ at concluded
        omega
      · simp only [looked]
        omega
    · next outcome stage _ =>
      have told : c.work = c.workLeft := by simp [Call.work, stage]
      have concluded := work_conclude kept mem now outcome
      omega
    · exact Nat.le_refl _

theorem work_openCall (p : Pool) (id : Nat) (context : Context) :
    (p.openCall id context).2.work ≤ p.work + 24 := by
  unfold openCall
  split
  · exact Nat.le_add_right ..
  · split
    · exact Nat.le_add_right ..
    · simp only [work_post, Signal.work]
      simp only [work, total_append, total, Call.work]
      omega

theorem work_abandon (kept : p.books.Kept) (id : Nat) : (p.abandon id).work ≤ p.work + 1 := by
  have marked (c : Call) (mem : c ∈ p.calls) : (p.setCall { c with abandoned := true }).work = p.work := by
    have gone := work_setCall kept.attended.numbers mem { c with abandoned := true } rfl
    have same : Call.work { c with abandoned := true } = c.work := rfl
    omega
  obtain same | ⟨c, mem, rfl, ⟨-, same⟩ | ⟨fetch, -, same⟩⟩ := p.abandon_cases id
  · rw [same]
    exact Nat.le_succ _
  · rw [same, marked c mem]
    exact Nat.le_succ _
  · have left := work_updateFetch_le (p.setCall { c with abandoned := true }) fetch
      (fun f => { f with watchers := f.watchers.filter (· != c.id) })
      fun f => Nat.add_le_add_left (List.length_filter_le ..) _
    rw [marked c mem] at left
    simp only [same, work_post, Signal.work]
    omega

/-- No event makes work but a call that is opened, or given up. -/
theorem work_step {slots : Nat} (gated : p.Gated slots) (kept : p.books.Kept) (now : Seconds)
    (e : PoolEvent) : (p.step now e).work ≤ p.work + e.work := by
  cases e with
  | openCall id context =>
    cases taken : p.call? id with
    | some c => simp [step, taken]
    | none => simpa [step, taken, PoolEvent.work] using work_openCall p id context
  | abandon id => exact work_abandon kept id
  | callStep id => exact work_callStep kept now id
  | fetchStep id => exact work_fetchStep gated kept now id
  | announce id => exact work_announce kept id
  | arrive id reply => exact work_arrive kept id reply
  | arriveAtOnce id reply => exact work_arriveAtOnce gated kept now id reply
  | expire id => exact work_expire kept id
  | cancelPending => exact work_stopFetches kept _
  | clearCache => exact Nat.le_refl _
  | setTtl ttl given =>
    obtain ⟨cache, same⟩ := p.setTtl_cases now ttl given
    exact Nat.le_of_eq ((congrArg Pool.work same).trans rfl)
  | resetAuth => exact Nat.le_refl _

end

end Pool

end Typeahead
