import Typeahead.Proofs.Fetch.Endings

/-!
Calls for one key share a fetch. There is never more than one fetch of a key, and it is the one that
calls for the key find; those who wait for it when it ends are told how it ended, whatever happens before
they are.

- `single_flight`: all of this, in every pool that comes about.
-/

namespace Typeahead

namespace Pool

section

variable {p : Pool}

theorem calls_of_books {q : Pool} (books : q.books = p.books) : q.calls = p.calls :=
  congrArg Books.calls books

/-- What another call does is nothing to a call that waits. -/
theorem CallMove.spares {q : Pool} {c x : Call} (move : CallMove p c q) (mem : x ∈ p.calls)
    (other : x.id ≠ c.id) : x ∈ q.calls := by
  cases move with
  | settle => exact List.mem_filter.2 ⟨mem, by simpa using other⟩
  | finish _ call _ same => exact List.mem_map.2 ⟨x, mem, if_neg (same ▸ other)⟩
  | begin _ call same => exact List.mem_map.2 ⟨x, mem, if_neg (same ▸ other)⟩
  | join _ call _ same => exact List.mem_map.2 ⟨x, mem, if_neg (same ▸ other)⟩

/-- A fetch whose end is announced tells it to those who wait for it, and to nobody else. -/
theorem announce_tells (kept : p.books.Kept) {f : Fetch} (mem : f ∈ p.fetches) {outcome : Outcome}
    (ended : f.stage = .ended outcome) {c : Call} (there : c ∈ p.calls) :
    (c.awaits? = some f.id → { c with stage := .told outcome } ∈ (p.announce f.id).calls) ∧
    ∀ id, c.awaits? = some id → id ≠ f.id → c ∈ (p.announce f.id).calls := by
  have told : (p.announce f.id).calls = _ := congrArg Books.calls (books_announce kept mem ended)
  rw [told]
  refine ⟨fun waits => ?_, fun id waits other => ?_⟩
  · obtain ⟨g, hg, number, watches, -⟩ := kept.attended.waits c there f.id waits
    obtain rfl := kept.registered.eq hg (mem_books mem) number
    exact List.mem_map.2 ⟨c, there, if_pos watches⟩
  · refine List.mem_map.2 ⟨c, there, if_neg fun watches => other ?_⟩
    obtain ⟨d, hd, same, awaits⟩ := kept.attended.watched f.unmoved (mem_books mem) c.id watches
    obtain rfl := kept.attended.eq hd there same
    exact Option.some.inj (waits.symm.trans awaits)

/-- A call that waits goes on waiting through every step, until its caller gives up or an end is
announced that it waits for. -/
theorem step_waits (kept : p.books.Kept) {c : Call} (mem : c ∈ p.calls) {id : Nat}
    (waits : c.awaits? = some id) (now : Seconds) {e : PoolEvent} (unannounced : e ≠ .announce id)
    (stays : e ≠ .abandon c.id) : c ∈ (p.step now e).calls := by
  cases e with
  | openCall id context =>
    obtain same | ⟨-, lookup, opened⟩ := p.step_openCall_cases now id context
    · rwa [same]
    · rw [opened]
      exact List.mem_append_left _ mem
  | abandon id' =>
    have other : c.id ≠ id' := fun same => stays (same ▸ rfl)
    change c ∈ (p.abandon id').calls
    have spared (d : Call) (number : d.id = id') : c ∈ (p.setCall { d with abandoned := true }).calls :=
      List.mem_map.2 ⟨c, mem, if_neg fun self => other (self.trans number)⟩
    obtain same | ⟨d, -, number, ⟨-, same⟩ | ⟨fetch, -, same⟩⟩ := p.abandon_cases id'
    · rwa [same]
    · rw [same]
      exact spared d number
    · rw [same]
      exact spared d number
  | callStep id' =>
    obtain same | ⟨d, found, idle, move⟩ := p.callStep_cases now id'
    · exact (congrArg (c ∈ ·.calls) same).mpr mem
    · exact move.spares mem (kept.attended.apart mem (mem_of_call? found).1 waits idle)
  | fetchStep id' => exact calls_of_books (books_fetchStep p now id') ▸ mem
  | announce id' =>
    obtain same | ⟨f, outcome, there, rfl, ended⟩ := p.announce_cases id'
    · exact (congrArg (c ∈ ·.calls) same).mpr mem
    · exact (announce_tells kept there ended mem).2 id waits fun same => unannounced (same ▸ rfl)
  | arrive id' reply => exact calls_of_books (books_arrive p id' reply) ▸ mem
  | arriveAtOnce id' reply => exact calls_of_books (books_arriveAtOnce p now id' reply) ▸ mem
  | expire id' => exact calls_of_books (books_expire p id') ▸ mem
  | cancelPending => exact calls_of_books (books_cancelPending p) ▸ mem
  | clearCache => exact mem
  | setTtl ttl given =>
    obtain ⟨cache, same⟩ := p.setTtl_cases now ttl given
    exact (congrArg (c ∈ ·.calls) same).mpr mem
  | resetAuth => exact mem

/-- A fetch lasts until its end is announced. -/
theorem run_lasts {slots : Int} (h : Reachable slots p) {f : Fetch} (mem : f ∈ p.fetches)
    {es : List (Seconds × PoolEvent)} (unannounced : ∀ e ∈ es, e.2 ≠ .announce f.id) :
    ∃ g ∈ (p.run es).fetches, f.Lasts g := by
  induction es generalizing p f with
  | nil => exact ⟨f, mem, .of_same rfl rfl rfl⟩
  | cons e es ih =>
    obtain ⟨notYet, later⟩ := List.forall_mem_cons.1 unannounced
    obtain ⟨g, there, lasts⟩ :=
      step_lasts h.gated h.kept mem e.1 e.2 fun announced => absurd announced notYet
    -- the fetch may be told from others by its number only: its watchers may have changed
    rw [← lasts.1] at later
    obtain ⟨last, still, lasts'⟩ := ih (h.step e.1 e.2) there later
    exact ⟨last, still, lasts.trans lasts'⟩

/-- A call that waits goes on waiting until its caller gives up or the end is announced. -/
theorem run_awaits {slots : Int} (h : Reachable slots p) {c : Call} (there : c ∈ p.calls) {id : Nat}
    (waits : c.awaits? = some id) {es : List (Seconds × PoolEvent)}
    (unannounced : ∀ e ∈ es, e.2 ≠ .announce id) (stays : ∀ e ∈ es, e.2 ≠ .abandon c.id) :
    c ∈ (p.run es).calls := by
  induction es generalizing p with
  | nil => exact there
  | cons e es ih =>
    obtain ⟨notYet, later⟩ := List.forall_mem_cons.1 unannounced
    obtain ⟨keeps, keepsOn⟩ := List.forall_mem_cons.1 stays
    exact ih (h.step e.1 e.2) (step_waits h.kept there waits e.1 notYet keeps) later keepsOn

/-- Whatever happens between the end of a fetch and its announcement, those who wait for it still do, and
it has still ended the same way. -/
theorem run_waits {slots : Int} (h : Reachable slots p) {f : Fetch} (mem : f ∈ p.fetches)
    {outcome : Outcome} (ended : f.stage = .ended outcome) {c : Call} (there : c ∈ p.calls)
    (waits : c.awaits? = some f.id) {es : List (Seconds × PoolEvent)}
    (unannounced : ∀ e ∈ es, e.2 ≠ .announce f.id) (stays : ∀ e ∈ es, e.2 ≠ .abandon c.id) :
    c ∈ (p.run es).calls ∧ ∃ g ∈ (p.run es).fetches, g.id = f.id ∧ g.stage = .ended outcome := by
  constructor
  · exact run_awaits h there waits unannounced stays
  · obtain ⟨g, still, number, -, final⟩ := run_lasts h mem unannounced
    exact ⟨g, still, number, final outcome ended⟩

/-- A fetch that has ended is gone once its end is announced. -/
theorem mem_announce (kept : p.books.Kept) (ended : ∀ f ∈ p.fetches, f.isUnfinished = false)
    {id : Nat} {g : Fetch} (mem : g ∈ (p.announce id).fetches) : g ∈ p.fetches ∧ g.id ≠ id := by
  by_cases there : ∃ f ∈ p.fetches, f.id = id
  · obtain ⟨f, hf, rfl⟩ := there
    obtain ⟨outcome, stage⟩ := Fetch.isUnfinished_eq_false.1 (ended f hf)
    rw [fetches_announce kept hf stage, List.mem_filter] at mem
    exact ⟨mem.1, bne_iff_ne.1 mem.2⟩
  · obtain same | ⟨f, outcome, hf, number, -⟩ := p.announce_cases id
    · rw [same] at mem
      exact ⟨mem, fun number => there ⟨g, mem, number⟩⟩
    · exact absurd ⟨f, hf, number⟩ there

theorem mem_run_announce (kept : p.books.Kept) (ended : ∀ f ∈ p.fetches, f.isUnfinished = false)
    (now : Seconds) (ids : List Nat) {g : Fetch}
    (mem : g ∈ (p.run (ids.map fun id => (now, .announce id))).fetches) :
    g ∈ p.fetches ∧ g.id ∉ ids := by
  induction ids generalizing p with
  | nil => exact ⟨mem, List.not_mem_nil⟩
  | cons id ids ih =>
    have first {f : Fetch} (hf : f ∈ (p.announce id).fetches) := mem_announce kept ended hf
    obtain ⟨hg, others⟩ := ih (kept_announce kept id) (fun f hf => ended f (first hf).1) mem
    obtain ⟨there, other⟩ := first hg
    refine ⟨there, fun among => ?_⟩
    rcases List.mem_cons.1 among with same | later
    · exact other same
    · exact others later

/-- Once every end is announced nothing is registered, and nothing is counted. -/
theorem nothing_left {slots : Int} (h : Reachable slots p)
    (ended : ∀ f ∈ p.fetches, f.isUnfinished = false) (now : Seconds) {ids : List Nat}
    (all : ∀ f ∈ p.fetches, f.id ∈ ids) :
    let q := p.run (ids.map fun id => (now, .announce id))
    q.pending = [] ∧ q.inFlight = 0 := by
  intro q
  have later : Reachable slots q := h.run _
  have none_left : q.fetches = [] := by
    apply List.eq_nil_iff_forall_not_mem.2
    intro g mem
    obtain ⟨there, other⟩ := mem_run_announce h.kept ended now ids mem
    exact other (all g there)
  constructor
  · have register : q.pending = (q.fetches.map Fetch.unmoved).map (Fetch.registration q.site) :=
      later.kept.registered.register
    rw [register, none_left]
    rfl
  · have counted := later.gated.counted
    rw [counted, none_left]
    rfl

/-- No two fetches that are behind the gate are of one key. -/
theorem countP_inside_le_one (kept : p.books.Kept) (key : Text) :
    p.fetches.countP (fun f => f.isInside && f.lookup.key p.site = key) ≤ 1 := by
  have keys : (p.fetches.map fun f => f.lookup.key p.site).Nodup := by
    have registered : (p.books.pending.map (·.key)).Nodup := kept.registered.keys
    rwa [kept.registered.register, books, List.map_map, List.map_map] at registered
  calc p.fetches.countP (fun f => f.isInside && f.lookup.key p.site = key)
      ≤ p.fetches.countP (fun f => f.lookup.key p.site = key) :=
        List.countP_mono_left fun f _ both => (Bool.and_eq_true_iff.1 both).2
    _ = (p.fetches.map fun f => f.lookup.key p.site).countP (· = key) := by
        rw [List.countP_map]
        rfl
    _ = (p.fetches.map fun f => f.lookup.key p.site).count key := by
        simp only [List.count, beq_eq_decide]
    _ ≤ 1 := List.nodup_iff_count_le_one.1 keys key

/-- There is at most one fetch of a key, and hence at most one request for it: that fetch is the one that
is registered under the key, and it lasts until it has ended. Every call that still waits for a fetch when
it ends is told how it ended, whatever happens until its end is announced, unless the caller gives up
before that. Once all fetches have ended and their ends are announced, in whatever order, nothing is
pending or in flight. -/
theorem single_flight {slots : Int} {p : Pool} (h : Reachable slots p) :
    (∀ f ∈ p.fetches, p.registered? (f.lookup.key p.site) = some f.id) ∧
    (∀ f ∈ p.fetches, ∀ g ∈ p.fetches, f.lookup.key p.site = g.lookup.key p.site → f = g) ∧
    (∀ key, p.fetches.countP (fun f => f.isInside && f.lookup.key p.site = key) ≤ 1) ∧
    (∀ f ∈ p.fetches, f.isUnfinished = true → ∀ now e,
      ∃ g ∈ (p.step now e).fetches, g.id = f.id ∧ g.lookup = f.lookup) ∧
    (∀ f ∈ p.fetches, ∀ outcome, f.stage = .ended outcome →
      ∀ c ∈ p.calls, c.awaits? = some f.id → ∀ es : List (Seconds × PoolEvent),
      (∀ e ∈ es, e.2 ≠ .announce f.id) → (∀ e ∈ es, e.2 ≠ .abandon c.id) →
      c ∈ (p.run es).calls ∧
        { c with stage := .told outcome } ∈ ((p.run es).announce f.id).calls) ∧
    ((∀ f ∈ p.fetches, f.isUnfinished = false) → ∀ (now : Seconds) (ids : List Nat),
      (∀ f ∈ p.fetches, f.id ∈ ids) →
      let q := p.run (ids.map fun id => (now, .announce id))
      (q.stats now).pending = 0 ∧ (q.stats now).inFlight = 0) := by
  have kept := h.kept
  have of_key {f g : Fetch} (hf : f ∈ p.fetches) (hg : g ∈ p.fetches)
      (same : f.lookup.key p.site = g.lookup.key p.site) : f = g := by
    have unmoved := kept.registered.eq_of_key (mem_books hf) (mem_books hg) same
    have number : f.unmoved.id = g.unmoved.id := congrArg Fetch.id unmoved
    exact List.inj_on_of_nodup_map (nodup_fetches kept) hf hg number
  refine ⟨fun f mem => registered?_of_mem kept mem, fun f hf g hg => of_key hf hg,
    countP_inside_le_one kept, ?_, ?_, ?_⟩
  · intro f mem unfinished now e
    obtain ⟨g, there, number, lookup, -⟩ := step_lasts h.gated kept mem now e fun _ => unfinished
    exact ⟨g, there, number, lookup⟩
  · intro f mem outcome ended c there waits es unannounced stays
    obtain ⟨still, g, hg, number, ended⟩ := run_waits h mem ended there waits unannounced stays
    refine ⟨still, ?_⟩
    rw [← number] at waits ⊢
    exact (announce_tells (h.run es).kept hg ended still).1 waits
  · intro ended now ids all
    obtain ⟨pending, inFlight⟩ := nothing_left h ended now all
    exact ⟨by rw [stats, pending]; rfl, inFlight⟩

/-- Two calls for one list wait for one fetch, which is stopped before it asks; whatever happens before its
end is announced, the second call is told. -/
theorem single_flight_two_calls :
    let p : Pool := {
      site := "host".toList
      base := ⟨[]⟩
      limit := .whole 2
      cache := { ttl := 60, size := 10 }
      gate := { free := 2 } }
    let q := p.run [
      (0, .openCall 1 { place := .metricName }), (0, .openCall 2 { place := .metricName }),
      (0, .callStep 1), (1, .callStep 2), (1, .cancelPending), (2, .fetchStep 0)]
    let c : Call := {
      id := 2
      wanted := { dataset := .metrics }
      current := { dataset := .metrics }
      stage := .waiting 0 }
    q.pending.length = 1 ∧ ∀ es : List (Seconds × PoolEvent),
      (∀ e ∈ es, e.2 ≠ .announce 0) → (∀ e ∈ es, e.2 ≠ .abandon 2) →
      { c with stage := .told .stopped } ∈ ((q.run es).announce 0).calls := by
  intro p q c
  have created : create "host".toList ⟨[]⟩ 60 10 2 (.whole 2) = .ok p := rfl
  have reachable : Reachable 2 q := .run (.create created) _
  have stopped : q.outcome? 0 = some .stopped := by decide +kernel
  have there : c ∈ q.calls := by decide +kernel
  obtain ⟨f, mem, number, ended⟩ := ended_of_outcome? stopped
  refine ⟨by decide +kernel, fun es unannounced stays => ?_⟩
  rw [← number] at unannounced ⊢
  exact ((single_flight reachable).2.2.2.2.1 f mem .stopped ended c there (number ▸ rfl) es
    unannounced stays).2

end

end Pool

end Typeahead
