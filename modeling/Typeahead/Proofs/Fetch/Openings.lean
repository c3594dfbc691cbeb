import Typeahead.Proofs.Fetch.Kept

/-!
Calls that are opened at once, for lookups that are new.

- `openCalls_new`, `callSteps_new`: a fetch begins for each of them.
-/

namespace Typeahead

/-- A call to be opened, for a context that calls for a lookup. -/
structure Opening where
  call : Nat
  context : Context
  lookup : Lookup
  wanted : context.lookup? = some lookup

namespace Opening

/-- The call as it is opened. -/
def opened (o : Opening) : Call := { id := o.call, wanted := o.lookup, current := o.lookup }

/-- The fetches that begin for calls, numbered from a number on. -/
def fetches (news : List Opening) (first : Nat) : List Fetch :=
  (news.zipIdx first).map fun (o, id) => { id, lookup := o.lookup, watchers := [o.call] }

theorem ids_fetches (news : List Opening) (first : Nat) :
    (fetches news first).map (·.id) = List.range' first news.length := by
  rw [← List.zipIdx_map_snd, fetches, List.map_map]
  rfl

theorem mem_fetches {news : List Opening} {o : Opening} (mem : o ∈ news) (first : Nat) :
    ∃ f ∈ fetches news first, f.lookup = o.lookup ∧ f.watchers = [o.call] := by
  obtain ⟨i, there, rfl⟩ := List.mem_iff_getElem.1 mem
  have numbered : (news[i], first + i) ∈ news.zipIdx first :=
    List.mk_add_mem_zipIdx_iff_getElem?.2 (List.getElem?_eq_getElem there)
  exact ⟨_, List.mem_map_of_mem numbered, rfl, rfl⟩

theorem begun_fetches {news : List Opening} {first : Nat} {f : Fetch} (mem : f ∈ fetches news first) :
    f.stage = .begun ∧ f.stopping = false := by
  obtain ⟨x, -, rfl⟩ := List.mem_map.1 mem
  exact ⟨rfl, rfl⟩

/-- What happens when calls are opened at once: they are opened, they take their first steps, and so do
the fetches that begin for them. -/
def events (now : Seconds) (news : List Opening) (first : Nat) : List (Seconds × PoolEvent) :=
  (news.map fun o => (now, .openCall o.call o.context)) ++
    (news.map fun o => (now, .callStep o.call)) ++
    (fetches news first).map fun f => (now, .fetchStep f.id)

end Opening

namespace Pool

/-- Whether a call for a lookup begins a fetch: the names are not in the cache, and no fetch is
registered under their key. -/
def isNew (p : Pool) (now : Seconds) (lookup : Lookup) : Bool :=
  (p.cache.get now (lookup.key p.site)).1.isNone && (p.registered? (lookup.key p.site)).isNone

theorem isNew_iff {p : Pool} {now : Seconds} {lookup : Lookup} :
    p.isNew now lookup = true ↔ (p.cache.get now (lookup.key p.site)).1 = none ∧
      p.registered? (lookup.key p.site) = none := by
  simp [isNew]

theorem openCall_new {p : Pool} (o : Opening) (unused : p.call? o.call = none)
    (unblocked : p.refusal? = none) (now : Seconds) :
    p.step now (.openCall o.call o.context) =
      { p with calls := p.calls ++ [o.opened], outbox := p.outbox ++ [.callDue o.call] } := by
  simp [step, unused, openCall, o.wanted, unblocked, post, Opening.opened]

theorem openCalls_new {p : Pool} (unblocked : p.refusal? = none) (now : Seconds) {news : List Opening}
    (apart : (news.map (·.call)).Nodup) (unused : ∀ o ∈ news, p.call? o.call = none) :
    p.run (news.map fun o => (now, .openCall o.call o.context)) =
      { p with
        calls := p.calls ++ news.map Opening.opened
        outbox := p.outbox ++ news.map fun o => .callDue o.call } := by
  induction news generalizing p with
  | nil => simp [run]
  | cons o news ih =>
    obtain ⟨other, apart⟩ := List.nodup_cons.1 apart
    have first := openCall_new o (unused o List.mem_cons_self) unblocked now
    rw [List.map_cons, run_cons]
    refine (ih (p := p.step now (.openCall o.call o.context)) (by rw [first]; exact unblocked) apart
      fun o' mem => ?_).trans ?_
    · rw [first]
      have differs : o.call ≠ o'.call := fun same =>
        other (List.mem_map.2 ⟨o', mem, same.symm⟩)
      have before := unused o' (List.mem_cons_of_mem _ mem)
      simp only [call?] at before ⊢
      rw [List.find?_append, before]
      simp [Opening.opened, differs]
    · simp [first]

/-- A call that is put in place leaves those of other numbers alone. -/
theorem call?_setCall_other (p : Pool) (call : Call) {id : Nat} (other : call.id ≠ id) :
    (p.setCall call).call? id = p.call? id := by
  have same (c : Call) : (if c.id = call.id then call else c).id = c.id := by
    split
    · next same => exact same.symm
    · rfl
  simp only [call?, setCall, List.find?_map, Function.comp_def, same]
  cases found : p.calls.find? fun c => c.id = id with
  | none => rfl
  | some c =>
    obtain ⟨-, number⟩ := mem_of_call? found
    simp [number, Ne.symm other]

/-- The first step of a new call begins a fetch. -/
theorem callStep_new {p : Pool} {now : Seconds} {o : Opening}
    (opened : p.call? o.call = some o.opened) (new : p.isNew now o.lookup = true) :
    p.callStep now o.call =
      ({ p with cache := (p.cache.get now (o.lookup.key p.site)).2 } : Pool).beginFetch o.opened := by
  obtain ⟨miss, missing⟩ := isNew_iff.1 new
  have still : ({ p with cache := (p.cache.get now (o.lookup.key p.site)).2 } : Pool).registered?
      (o.lookup.key p.site) = none := missing
  simp only [callStep, opened]
  simp only [Opening.opened, beginCall, look, miss, still]

/-- The pool after the first step of a new call. -/
theorem callStep_begins {p : Pool} {now : Seconds} {o : Opening}
    (opened : p.call? o.call = some o.opened) (new : p.isNew now o.lookup = true) :
    p.callStep now o.call =
      { p with
        cache := (p.cache.get now (o.lookup.key p.site)).2
        fetches := p.fetches ++ Opening.fetches [o] p.nextFetch
        pending := p.pending ++ [⟨o.lookup.key p.site, p.nextFetch⟩]
        calls := p.calls.map fun c =>
          if c.id = o.call then { o.opened with stage := .waiting p.nextFetch } else c
        nextFetch := p.nextFetch + 1
        outbox := p.outbox ++ [.fetchDue p.nextFetch] } := by
  rw [callStep_new opened new]
  rfl

/-- The first steps of new calls begin a fetch each, and touch nothing of the fetches that are there. -/
theorem callSteps_new {p : Pool} (now : Seconds) {news : List Opening}
    (apart : (news.map (·.call)).Nodup) (keys : (news.map (·.lookup.key p.site)).Nodup)
    (opened : ∀ o ∈ news, p.call? o.call = some o.opened)
    (new : ∀ o ∈ news, p.isNew now o.lookup = true) :
    ∃ cache pending calls signals,
      p.run (news.map fun o => (now, .callStep o.call)) =
        { p with
          cache, pending, calls
          fetches := p.fetches ++ Opening.fetches news p.nextFetch
          nextFetch := p.nextFetch + news.length
          outbox := p.outbox ++ signals } := by
  induction news generalizing p with
  | nil => exact ⟨p.cache, p.pending, p.calls, [], by simp [run, Opening.fetches]⟩
  | cons o news ih =>
    obtain ⟨otherCall, apart⟩ := List.nodup_cons.1 apart
    obtain ⟨otherKey, keys⟩ := List.nodup_cons.1 keys
    have newOne := new o List.mem_cons_self
    have first := callStep_begins (opened o List.mem_cons_self) newOne
    have openedLater : ∀ o' ∈ news, (p.callStep now o.call).call? o'.call = some o'.opened := by
      intro o' mem
      have differs : o.call ≠ o'.call := fun same =>
        otherCall (List.mem_map.2 ⟨o', mem, same.symm⟩)
      rw [first]
      exact (call?_setCall_other p { o.opened with stage := _ } differs).trans
        (opened o' (List.mem_cons_of_mem _ mem))
    have newLater : ∀ o' ∈ news, (p.callStep now o.call).isNew now o'.lookup = true := by
      intro o' mem
      have differs : o.lookup.key p.site ≠ o'.lookup.key p.site :=
        fun same => otherKey (List.mem_map.2 ⟨o', mem, same.symm⟩)
      obtain ⟨miss, missing⟩ := isNew_iff.1 (new o' (List.mem_cons_of_mem _ mem))
      rw [first]
      refine isNew_iff.2 ⟨Cache.get_missed (isNew_iff.1 newOne).1 miss, ?_⟩
      simp only [registered?, Option.map_eq_none_iff] at missing ⊢
      rw [List.find?_append, missing]
      simp [differs]
    obtain ⟨cache, pending, calls, signals, rest⟩ := ih (p := p.callStep now o.call) apart
      (by rw [first]; exact keys) openedLater newLater
    refine ⟨cache, pending, calls, .fetchDue p.nextFetch :: signals, ?_⟩
    rw [List.map_cons, run_cons]
    refine rest.trans ?_
    simp [first, Opening.fetches, Nat.add_comm, Nat.add_left_comm]

end Pool

end Typeahead
