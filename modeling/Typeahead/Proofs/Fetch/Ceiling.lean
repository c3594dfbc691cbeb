import Typeahead.Proofs.Fetch.Openings
import Typeahead.Proofs.Fetch.Slots

/-!
How many fetches are behind the gate. They are never more than the slots, and no slot is ever lost: as
soon as no fetch is under way, as many new ones as there are slots get through the gate at once.

- `fetchSteps_through`: new fetches get through the gate as long as there are slots.
- `ceiling_without_leaks`: the count of a pool is right and bounded, and its slots are all there again.
-/

namespace Typeahead

namespace Pool

/-- A fetch has got through the gate and its request has been sent. If there is no time for one it is over
its time limit; if its names cannot be asked for it has failed and is out again. -/
def Through (p : Pool) (f : Fetch) (signals : List Signal) : Prop :=
  if p.limit.above 0 then
    match f.lookup.path p.base with
    | .ok path => f.stage = .asking ∧ .sent f.id { path } ∈ signals
    | .error e => f.stage = .ended (.failed (.slashName e.name))
  else f.stage = .overdue

theorem Through.mono {p q : Pool} {f : Fetch} {few many : List Signal} (h : p.Through f few)
    (limit : q.limit = p.limit) (base : q.base = p.base) (more : few ⊆ many) : q.Through f many := by
  unfold Through at h ⊢
  rw [limit, base]
  split at h
  · next above =>
    rw [if_pos above]
    split at h
    · exact ⟨h.1, more h.2⟩
    · exact h
  · next above =>
    rw [if_neg above]
    exact h

/-- Nobody in line, nobody to hand the slot to. -/
theorem leave_unlined {p : Pool} (line : p.gate.line = []) (id : Nat) :
    p.leave id = { p with
      inFlight := p.inFlight - 1
      gate := { free := p.gate.free + 1 }
      outbox := p.outbox ++ [.alarmsOff id] } := by
  simp [leave, releaseSlot, Gate.release, Gate.letIn, Gate.admitFirst, post, withGate, line]

/-- A new fetch gets through the gate if a slot is free and nobody stands in line. -/
theorem fetchStep_through {p : Pool} {f : Fetch} (found : p.fetch? f.id = some f)
    (begun : f.stage = .begun) (going : f.stopping = false) (line : p.gate.line = [])
    (free : 0 < p.gate.free) (unblocked : p.refusal? = none) (now : Seconds) :
    ∃ stage signals free' inFlight, p.gate.free ≤ free' + 1 ∧
      p.Through { f with stage } signals ∧
      p.fetchStep now f.id =
        { p.moveFetch f.id stage with
          gate := { free := free' }, inFlight, outbox := p.outbox ++ signals } := by
  have entered : p.gate.enter f.id = (true, { free := p.gate.free - 1 }) := by
    have : p.gate.free ≠ 0 := by omega
    simp [Gate.enter, Gate.isClosed, line, this]
  have passes : p.fetchStep now f.id =
      ({ p with gate := { free := p.gate.free - 1 } } : Pool).pass f := by
    simp [fetchStep, found, begun, going, entered]
  rw [passes]
  cases above : p.limit.above 0 with
  | false =>
    refine ⟨.overdue, [.fetchDue f.id], p.gate.free - 1, p.inFlight + 1, by omega, ?_, ?_⟩
    · simp [Through, above]
    · simp [pass, unblocked, above, moveFetch, updateFetch, post]
  | true =>
    cases path : f.lookup.path p.base with
    | error e =>
      refine ⟨.ended (.failed (.slashName e.name)), [.alarmsOff f.id, .announceDue f.id],
        p.gate.free, p.inFlight, by omega, ?_, ?_⟩
      · simp [Through, above, path]
      · simp [pass, unblocked, above, path, leave_unlined, endFetch, moveFetch, updateFetch, post]
        omega
    | ok path' =>
      refine ⟨.asking, [.limitSet f.id, .sent f.id { path := path' }], p.gate.free - 1,
        p.inFlight + 1, by omega, ?_, ?_⟩
      · simp [Through, above, path]
      · simp [pass, unblocked, above, path, moveFetch, updateFetch, post]

/-- New fetches get through the gate one after the other, as long as there are slots. -/
theorem fetchSteps_through {p : Pool} (kept : p.books.Kept) (news : List Fetch)
    (apart : (news.map (·.id)).Nodup) (begun : ∀ f ∈ news, f.stage = .begun ∧ f.stopping = false)
    (there : ∀ f ∈ news, f ∈ p.fetches) (line : p.gate.line = [])
    (free : news.length ≤ p.gate.free) (unblocked : p.refusal? = none) (now : Seconds) :
    ∃ signals, (p.run (news.map fun f => (now, .fetchStep f.id))).outbox = p.outbox ++ signals ∧
      (∀ g ∈ p.fetches, g.id ∉ news.map (·.id) →
        g ∈ (p.run (news.map fun f => (now, .fetchStep f.id))).fetches) ∧
      ∀ f ∈ news, ∃ stage, p.Through { f with stage } signals ∧
        { f with stage } ∈ (p.run (news.map fun f => (now, .fetchStep f.id))).fetches := by
  induction news generalizing p with
  | nil => exact ⟨[], by simp [run], by simp [run], by simp⟩
  | cons f news ih =>
    obtain ⟨other, apart⟩ := List.nodup_cons.1 apart
    have found := fetch?_of_mem kept (there f List.mem_cons_self)
    obtain ⟨isBegun, going⟩ := begun f List.mem_cons_self
    have some_free : 0 < p.gate.free := by
      rw [List.length_cons] at free
      omega
    obtain ⟨stage, first, free', inFlight, slots, through, stepped⟩ :=
      fetchStep_through found isBegun going line some_free unblocked now
    have spared : ∀ g ∈ p.fetches, g.id ≠ f.id → g ∈ (p.fetchStep now f.id).fetches := by
      intro g mem differs
      rw [stepped]
      exact List.mem_map.2 ⟨g, mem, if_neg differs⟩
    have differs : ∀ g ∈ news, g.id ≠ f.id := fun g mem same => other (List.mem_map.2 ⟨g, mem, same⟩)
    have moved : { f with stage } ∈ (p.fetchStep now f.id).fetches := by
      rw [stepped]
      exact List.mem_map.2 ⟨f, there f List.mem_cons_self, if_pos rfl⟩
    -- one slot fewer is free at most, one fetch fewer is to go, and still nobody stands in line
    obtain ⟨signals, outbox, stay, rest⟩ := ih (p := p.fetchStep now f.id)
      ((books_fetchStep ..).symm ▸ kept) apart (fun g mem => begun g (List.mem_cons_of_mem _ mem))
      (fun g mem => spared g (there g (List.mem_cons_of_mem _ mem)) (differs g mem))
      (by rw [stepped])
      (by
        rw [List.length_cons] at free
        rw [stepped]
        dsimp only
        omega)
      (by rw [stepped]; exact unblocked)
    refine ⟨first ++ signals, ?_, ?_, ?_⟩
    · rw [List.map_cons, run_cons]
      refine outbox.trans ?_
      rw [stepped, List.append_assoc]
    · intro g mem notNew
      rw [List.map_cons, List.mem_cons, not_or] at notNew
      exact stay g (spared g mem notNew.1) notNew.2
    · intro g mem
      rcases List.mem_cons.1 mem with rfl | mem
      · exact ⟨stage, through.mono rfl rfl (List.subset_append_left ..), stay _ moved other⟩
      · obtain ⟨stage, through, moved⟩ := rest g mem
        exact ⟨stage, through.mono (by rw [stepped]; rfl) (by rw [stepped]; rfl)
          (List.subset_append_right ..), moved⟩

/-- With no fetch under way nobody stands in line, and all slots are free. -/
theorem Gated.idle {p : Pool} {slots : Nat} (h : p.Gated slots)
    (ended : ∀ f ∈ p.fetches, f.isUnfinished = false) :
    p.inFlight = 0 ∧ p.gate.line = [] ∧ p.gate.free = slots := by
  have unlined : p.fetches.filterMap Fetch.visitor? = [] :=
    List.filterMap_eq_nil_iff.2 fun f mem => Fetch.visitor?_of_ended (ended f mem)
  have line : p.gate.line = [] := List.perm_nil.1 (unlined ▸ h.line)
  have none_inside : p.inFlight = 0 := by
    rw [h.counted, List.countP_eq_zero]
    exact fun f mem => Bool.eq_false_iff.1 (Fetch.isInside_of_ended (ended f mem))
  have conserved := h.conserved
  simp only [Gate.slots, line, List.countP_nil, none_inside] at conserved
  exact ⟨none_inside, line, by omega⟩

/-- With no fetch under way, new calls get a fetch through the gate each, up to the number of slots. -/
theorem through_of_idle {slots : Int} {p : Pool} (h : Reachable slots p)
    (ended : ∀ f ∈ p.fetches, f.isUnfinished = false) (unblocked : p.refusal? = none) (now : Seconds)
    {news : List Opening} (few : news.length ≤ slots.toNat) (apart : (news.map (·.call)).Nodup)
    (keys : (news.map (·.lookup.key p.site)).Nodup)
    (unused : ∀ o ∈ news, p.call? o.call = none) (new : ∀ o ∈ news, p.isNew now o.lookup = true) :
    ∃ signals, (p.run (Opening.events now news p.nextFetch)).outbox = p.outbox ++ signals ∧
      ∀ o ∈ news, ∃ f ∈ (p.run (Opening.events now news p.nextFetch)).fetches,
        f.lookup = o.lookup ∧ f.watchers = [o.call] ∧ p.Through f signals := by
  obtain ⟨-, line, free⟩ := h.gated.idle ended
  let asked := p.run (news.map fun o => (now, .openCall o.call o.context))
  have opened : asked = { p with
      calls := p.calls ++ news.map Opening.opened
      outbox := p.outbox ++ news.map fun o => .callDue o.call } :=
    openCalls_new unblocked now apart unused
  have called : ∀ o ∈ news, asked.call? o.call = some o.opened := by
    intro o mem
    have numbers : ((news.map Opening.opened).map (·.id)).Nodup := by
      rwa [List.map_map]
    have before := unused o mem
    rw [opened]
    simp only [call?, List.find?_append] at before ⊢
    rw [before, Option.none_or]
    exact find?_of_nodup numbers (List.mem_map_of_mem mem)
  obtain ⟨cache, pending, calls, posted, begun⟩ := callSteps_new (p := asked) now apart
    (by rw [opened]; exact keys) called (by rw [opened]; exact new)
  let waiting := asked.run (news.map fun o => (now, .callStep o.call))
  have first : asked.nextFetch = p.nextFetch := by rw [opened]
  obtain ⟨signals, outbox, -, through⟩ := fetchSteps_through (p := waiting)
    ((h.run _).run _).kept (Opening.fetches news p.nextFetch)
    (by rw [Opening.ids_fetches]; exact List.nodup_range') (fun f mem => Opening.begun_fetches mem)
    (fun f mem => by
      simp only [waiting, begun, first]
      exact List.mem_append_right _ mem)
    (by simp only [waiting, begun, opened, line])
    (by
      simp only [waiting, begun, opened, free, Opening.fetches, List.length_map, List.length_zipIdx]
      exact few)
    (by simp only [waiting, begun, opened, unblocked]) now
  have whole : p.run (Opening.events now news p.nextFetch) =
      waiting.run ((Opening.fetches news p.nextFetch).map fun f => (now, .fetchStep f.id)) := by
    rw [Opening.events, run_append, run_append]
  rw [whole]
  refine ⟨news.map (fun o => .callDue o.call) ++ posted ++ signals, ?_, ?_⟩
  · rw [outbox]
    simp only [waiting, begun, opened, List.append_assoc]
  · intro o mem
    obtain ⟨f, new, lookup, watchers⟩ := Opening.mem_fetches mem p.nextFetch
    obtain ⟨stage, through, there⟩ := through f new
    refine ⟨_, there, lookup, watchers, through.mono ?_ ?_ (List.subset_append_right ..)⟩
    · simp only [waiting, begun, opened]
    · simp only [waiting, begun, opened]

/-- The count of a pool is that of the fetches behind the gate, of which there are never more than slots,
and each of which is registered. As soon as no fetch is under way nothing is counted and no slot is
missing: unless access is blocked, new calls up to the number of slots get through the gate at once. (A
fetch that has ended stays registered until its end is announced; only until then is there a lookup that
is not new although its names are not in the cache.) -/
theorem ceiling_without_leaks {slots : Int} {p : Pool} (h : Reachable slots p) :
    p.inFlight = p.fetches.countP Fetch.isInside ∧
    (p.inFlight : Int) ≤ slots ∧ p.inFlight ≤ p.pending.length ∧
    (p.fetches = [] → ∀ key, p.registered? key = none) ∧
    ((∀ f ∈ p.fetches, f.isUnfinished = false) →
      p.inFlight = 0 ∧
      (p.refusal? = none → ∀ (now : Seconds) (news : List Opening), (news.length : Int) ≤ slots →
        (news.map (·.call)).Nodup → (news.map (·.lookup.key p.site)).Nodup →
        (∀ o ∈ news, p.call? o.call = none) → (∀ o ∈ news, p.isNew now o.lookup = true) →
        ∃ signals, (p.run (Opening.events now news p.nextFetch)).outbox = p.outbox ++ signals ∧
          ∀ o ∈ news, ∃ f ∈ (p.run (Opening.events now news p.nextFetch)).fetches,
            f.lookup = o.lookup ∧ f.watchers = [o.call] ∧ p.Through f signals)) := by
  have gated := h.gated
  have kept := h.kept
  have some_slots := h.slots_nonneg
  have conserved := gated.conserved
  have entries : p.pending.length = p.fetches.length := by
    have := congrArg List.length kept.registered.register
    simpa [books] using this
  refine ⟨gated.counted, by omega, ?_, ?_, fun ended => ⟨(gated.idle ended).1, ?_⟩⟩
  · rw [gated.counted, entries]
    exact List.countP_le_length
  · intro none key
    have empty : p.pending = [] := List.length_eq_zero_iff.1 (by rw [entries, none]; rfl)
    simp [registered?, empty]
  · intro unblocked now news few apart keys unused new
    exact through_of_idle h ended unblocked now (by omega) apart keys unused new

/-- A pool with two slots lets two calls through at once. -/
theorem ceiling_without_leaks_two :
    let p : Pool := {
      site := "host".toList
      base := ⟨[]⟩
      limit := .whole 2
      cache := { ttl := 60, size := 10 }
      gate := { free := 2 } }
    let news : List Opening := [
      ⟨1, { place := .metricName }, { dataset := .metrics }, rfl⟩,
      ⟨2, { place := .logsSearch }, { dataset := .fields }, rfl⟩]
    p.inFlight = 0 ∧
      ∃ signals, (p.run (Opening.events 0 news 0)).outbox = signals ∧
        ∀ o ∈ news, ∃ f ∈ (p.run (Opening.events 0 news 0)).fetches,
          f.lookup = o.lookup ∧ f.watchers = [o.call] ∧ p.Through f signals := by
  intro p news
  have created : create "host".toList ⟨[]⟩ 60 10 2 (.whole 2) = .ok p := rfl
  have none_there : ∀ f ∈ p.fetches, f.isUnfinished = false :=
    fun f mem => absurd mem List.not_mem_nil
  have idle := (ceiling_without_leaks (.create created)).2.2.2.2 none_there
  exact ⟨idle.1, idle.2 rfl 0 news (by decide) (by decide) (by decide) (by decide) (by decide)⟩

end Pool

end Typeahead
