import Typeahead.Proofs.Fetch.SingleFlight
import Typeahead.Proofs.Fetch.Stored

/-!
What calls go by. Suppose that something is known of how lookups ended, by their keys: of all names in the
cache, and of all fetches that have ended. Then nothing else is told to a call, and it ends by nothing else.

- `Endorsed`: what is known where a call ends with names.
- `step_briefed`: no step tells a call what is not known.
- `Briefed.step`: what is in the cache is known by itself.
-/

namespace Typeahead

namespace Call

/-- A call goes by the lookup that is wanted, or by that of the tags which stand in for the values of a
key because the catalog did not know these. -/
def OnCourse (known : Text → Outcome → Prop) (site : Text) (c : Call) : Prop :=
  c.current = c.wanted ∨
  ∃ metric key error, c.wanted = { dataset := .tagValues, scope := [metric, key] } ∧
    c.current = { dataset := .tags, scope := [metric] } ∧ CatalogError.kind error = .notFound ∧
    known (c.wanted.key site) (.failed (.catalog error))

/-- What a call was told is known; and so is that by which it ended, unless its caller gave up. -/
structure Briefed (known : Text → Outcome → Prop) (site : Text) (c : Call) : Prop where
  course : c.OnCourse known site
  told : ∀ outcome, c.stage = .told outcome → known (c.current.key site) outcome
  ended : ∀ outcome, c.stage = .ended outcome → outcome = .stopped ∨
    ∃ report, known (c.current.key site) report ∧ outcome = c.ending report

end Call

/-- What is known where a call for a lookup ends with names. -/
inductive Endorsed (known : Text → Outcome → Prop) (site : Text) (wanted : Lookup) : List Text → Prop where
  /-- These are the names of the list that is wanted. -/
  | own {names : List Text} : known (wanted.key site) (.names names) → Endorsed known site wanted names
  /-- The catalog does not know the values of a key; they are taken from the names of the tags. -/
  | tags {metric key : Text} {found : List Text} {error : CatalogError} :
    wanted = { dataset := .tagValues, scope := [metric, key] } → error.kind = .notFound →
    known (wanted.key site) (.failed (.catalog error)) →
    known (Lookup.key { dataset := .tags, scope := [metric] } site) (.names found) →
    Endorsed known site wanted (tagValues found key)
  /-- The catalog does not know the fields of logs. -/
  | facets {error : CatalogError} : wanted.dataset = .fields → error.kind = .notFound →
    known (wanted.key site) (.failed (.catalog error)) → Endorsed known site wanted Logs.defaultFacets

section

variable {known more : Text → Outcome → Prop} {site : Text} {c : Call}

namespace Call

theorem Briefed.mono (h : c.Briefed known site)
    (weaker : ∀ key outcome, known key outcome → more key outcome) : c.Briefed more site := by
  refine ⟨?_, fun outcome told => weaker _ _ (h.told outcome told), fun outcome ended => ?_⟩
  · rcases h.course with same | ⟨metric, key, error, wanted, current, unknown, concluded⟩
    · exact .inl same
    · exact .inr ⟨metric, key, error, wanted, current, unknown, weaker _ _ concluded⟩
  · rcases h.ended outcome ended with stopped | ⟨report, knows, ends⟩
    · exact .inl stopped
    · exact .inr ⟨report, weaker _ _ knows, ends⟩

/-- A call that has only just begun is on course. -/
theorem briefed_of_begun (begun : c.stage = .begun) (course : c.current = c.wanted) :
    c.Briefed known site := by
  refine ⟨.inl course, fun _ told => ?_, fun _ ended => ?_⟩
  · cases begun.symm.trans told
  · cases begun.symm.trans ended

theorem OnCourse.waits (h : c.OnCourse known site) (fetch : Nat) :
    Briefed known site { c with stage := .waiting fetch } :=
  ⟨h, fun _ told => (by cases told), fun _ ended => (by cases ended)⟩

theorem OnCourse.ends (h : c.OnCourse known site) {report : Outcome}
    (knows : known (c.current.key site) report) :
    Briefed known site { c with stage := .ended (c.ending report) } := by
  refine ⟨h, fun _ told => (by cases told), fun outcome ended => .inr ⟨report, knows, ?_⟩⟩
  exact (CallStage.ended.inj ended).symm

/-- The tags stand in only for values that the catalog did not know. -/
theorem onCourse_of_standsIn {outcome : Outcome} (knows : known (c.current.key site) outcome)
    {lookup : Lookup}
    (standsIn : (if outcome.isAbsent then c.standIn? else none) = some lookup) :
    OnCourse known site { c with current := lookup } := by
  split at standsIn
  · next absent =>
    obtain ⟨same, metric, key, wanted, rfl⟩ := standIn?_eq_some standsIn
    obtain ⟨error, rfl, unknown⟩ : ∃ error, outcome = .failed (.catalog error) ∧
        error.kind = .notFound := by
      unfold Outcome.isAbsent at absent
      split at absent
      · next error => exact ⟨error, rfl, of_decide_eq_true absent⟩
      · cases absent
    exact .inr ⟨metric, key, error, wanted, rfl, unknown, same ▸ knows⟩
  · cases standsIn

/-- Names with which a call ends are endorsed. -/
theorem Briefed.endorsed (h : c.Briefed known site) {names : List Text}
    (ended : c.stage = .ended (.names names)) : Endorsed known site c.wanted names := by
  obtain stopped | ⟨report, knows, ends⟩ := h.ended _ ended
  · cases stopped
  · cases report with
    | stopped => cases ends
    | names found =>
      obtain rfl : names = c.answer found := Outcome.names.inj ends
      rcases h.course with same | ⟨metric, key, error, wanted, current, unknown, concluded⟩
      · have own : c.answer found = found := by
          unfold answer
          split <;> simp [same]
        rw [own]
        exact .own (same ▸ knows)
      · have standIn : c.answer found = tagValues found key := by
          simp [answer, wanted, current]
        rw [standIn]
        exact .tags wanted unknown concluded (current ▸ knows)
    | failed failure =>
      cases failure with
      | catalog error =>
        simp only [ending] at ends
        split at ends
        · next unknown =>
          split at ends
          · next fields =>
            obtain rfl := Outcome.names.inj ends
            rcases h.course with same | ⟨metric, key, error', wanted, -⟩
            · exact .facets fields unknown (same ▸ knows)
            · rw [wanted] at fields
              cases fields
          · cases ends
        · cases ends
      | fault | cache | slashName => cases ends

end Call

namespace Pool

/-- What is in the cache is known, and so is how fetches ended, and what some calls were told. -/
structure Briefed (known : Text → Outcome → Prop) (site : Text) (who : Nat → Prop) (p : Pool) : Prop where
  home : p.site = site
  cached : p.cache.All fun key names _ => known key (.names names)
  fetches : ∀ f ∈ p.fetches, ∀ outcome, f.stage = .ended outcome → known (f.lookup.key site) outcome
  calls : ∀ c ∈ p.calls, who c.id → c.Briefed known site

variable {who : Nat → Prop} {p : Pool}

namespace Briefed

theorem mono (h : p.Briefed known site who)
    (weaker : ∀ key outcome, known key outcome → more key outcome) : p.Briefed more site who :=
  ⟨h.home, fun e mem => weaker _ _ (h.cached e mem),
    fun f mem outcome ended => weaker _ _ (h.fetches f mem outcome ended),
    fun c mem concerned => (h.calls c mem concerned).mono weaker⟩

/-- A call is put in the place of another one. -/
theorem setCall (h : p.Briefed known site who) (briefed : who c.id → c.Briefed known site) :
    (p.setCall c).Briefed known site who := by
  refine ⟨h.home, h.cached, h.fetches, fun x mem concerned => ?_⟩
  rcases Books.mem_setCall (b := p.books) mem with rfl | ⟨old, -⟩
  · exact briefed concerned
  · exact h.calls x old concerned

/-- How a fetch has ended that is registered under a key is known. -/
theorem registered (h : p.Briefed known site who) (kept : p.books.Kept) {key : Text} {id : Nat}
    (registered : p.registered? key = some id) {outcome : Outcome}
    (ended : p.outcome? id = some outcome) : known key outcome := by
  obtain ⟨f, mem, number, same⟩ := registered_fetch kept registered
  obtain ⟨g, there, number', stage⟩ := ended_of_outcome? ended
  obtain rfl : g = f :=
    List.inj_on_of_nodup_map (nodup_fetches kept) there mem (number'.trans number.symm)
  have knows := h.fetches g there outcome stage
  rwa [← h.home, same] at knows

/-- A call that looks for its names finds an outcome that is known, or comes to wait. -/
theorem look (h : p.Briefed known site who) (kept : p.books.Kept)
    (course : who c.id → c.OnCourse known site) (now : Seconds) :
    (∃ outcome cache, p.look now c = (some outcome, { p with cache }) ∧
      known (c.current.key site) outcome ∧ ({ p with cache } : Pool).Briefed known site who) ∨
    ∃ q, p.look now c = (none, q) ∧ ∀ x ∈ q.calls, who x.id → x.Briefed known site := by
  let key := c.current.key p.site
  have read : ({ p with cache := (p.cache.get now key).2 } : Pool).Briefed known site who :=
    ⟨h.home, h.cached.get now key, h.fetches, h.calls⟩
  unfold Pool.look
  dsimp only
  split
  · next entry hit =>
    obtain ⟨mem, same, -⟩ := Cache.get_some hit
    refine .inl ⟨_, _, rfl, ?_, read⟩
    have knows := h.cached entry mem
    rwa [same, h.home] at knows
  · exact .inr ⟨_, rfl, (read.setCall (c := { c with stage := .waiting p.nextFetch })
      fun concerned => (course concerned).waits p.nextFetch).calls⟩
  · next id _ found =>
    split
    · next outcome ended =>
      refine .inl ⟨_, _, rfl, ?_, read⟩
      rw [h.home] at found
      exact read.registered kept found ended
    · exact .inr ⟨_, rfl, (read.setCall (c := { c with stage := .waiting id })
        fun concerned => (course concerned).waits id).calls⟩

/-- A call goes on by an outcome that is known. -/
theorem conclude (h : p.Briefed known site who) (kept : p.books.Kept)
    (course : who c.id → c.OnCourse known site) {outcome : Outcome}
    (knows : who c.id → known (c.current.key site) outcome) (now : Seconds) :
    ∀ x ∈ (p.conclude now c outcome).calls, who x.id → x.Briefed known site := by
  unfold Pool.conclude
  split
  · exact (h.setCall (c := { c with stage := .ended (c.ending outcome) })
      fun concerned => (course concerned).ends (knows concerned)).calls
  · next lookup standsIn =>
    have next (concerned : who c.id) : Call.OnCourse known site { c with current := lookup } :=
      Call.onCourse_of_standsIn (knows concerned) standsIn
    obtain ⟨outcome, cache, looked, found, later⟩ | ⟨q, looked, calls⟩ :=
      h.look (c := { c with current := lookup }) kept next now
    · simp only [looked]
      exact (later.setCall
        (c := { c with current := lookup, stage := .ended (Call.ending { c with current := lookup } outcome) })
        fun concerned => (next concerned).ends found).calls
    · simp only [looked]
      exact calls

/-- A call takes its next step. -/
theorem callStep (h : p.Briefed known site who) (kept : p.books.Kept) (now : Seconds) (id : Nat) :
    ∀ x ∈ (p.callStep now id).calls, who x.id → x.Briefed known site := by
  unfold Pool.callStep
  split
  · exact h.calls
  · next c found =>
    have briefed := h.calls c (mem_of_call? found).1
    split
    · exact fun x mem => h.calls x (List.mem_filter.1 mem).1
    · refine (h.setCall (c := { c with stage := .ended .stopped }) fun concerned => ?_).calls
      refine ⟨(briefed concerned).course, fun _ told => (by cases told), fun outcome ended => ?_⟩
      exact .inl (CallStage.ended.inj ended).symm
    · unfold Pool.beginCall
      obtain ⟨outcome, cache, looked, knows, later⟩ | ⟨q, looked, calls⟩ :=
        h.look kept (fun concerned => (briefed concerned).course) now
      · simp only [looked]
        exact later.conclude kept (fun concerned => (briefed concerned).course) (fun _ => knows) now
      · simp only [looked]
        exact calls
    · next outcome stage _ =>
      exact h.conclude kept (fun concerned => (briefed concerned).course)
        (fun concerned => (briefed concerned).told outcome stage) now
    · exact h.calls

theorem openCall (h : p.Briefed known site who) (id : Nat) (context : Context) :
    ∀ x ∈ (p.openCall id context).2.calls, who x.id → x.Briefed known site := by
  obtain ⟨resolution, same⟩ | ⟨lookup, opened⟩ := p.openCall_cases id context
  · rw [same]
    exact h.calls
  · rw [opened]
    intro x mem concerned
    rcases List.mem_append.1 mem with old | new
    · exact h.calls x old concerned
    · rw [List.mem_singleton.1 new]
      exact Call.briefed_of_begun rfl rfl

theorem abandon (h : p.Briefed known site who) (id : Nat) :
    ∀ x ∈ (p.abandon id).calls, who x.id → x.Briefed known site := by
  have given (c : Call) (mem : c ∈ p.calls) (concerned : who c.id) :
      Call.Briefed known site { c with abandoned := true } := by
    obtain ⟨course, told, ended⟩ := h.calls c mem concerned
    exact ⟨course, told, ended⟩
  obtain same | ⟨c, mem, -, ⟨-, same⟩ | ⟨fetch, -, same⟩⟩ := p.abandon_cases id
  · rw [same]
    exact h.calls
  · rw [same]
    exact (h.setCall (given c mem)).calls
  · rw [same]
    exact (h.setCall (given c mem)).calls

/-- Those who wait for a fetch are told how it ended. -/
theorem announce (h : p.Briefed known site who) (kept : p.books.Kept) (id : Nat) :
    ∀ x ∈ (p.announce id).calls, who x.id → x.Briefed known site := by
  obtain same | ⟨f, outcome, mem, rfl, stage⟩ := p.announce_cases id
  · rw [same]
    exact h.calls
  · have calls : (p.announce f.id).calls = _ := congrArg Books.calls (books_announce kept mem stage)
    intro x there concerned
    rw [calls] at there
    obtain ⟨c, mem', ⟨watches, rfl⟩ | ⟨-, rfl⟩⟩ := Books.mem_tell there
    · obtain ⟨d, hd, number, awaits⟩ := kept.attended.watched f.unmoved (mem_books mem) c.id watches
      obtain rfl := kept.attended.eq hd mem' number
      obtain ⟨g, hg, number', -, key⟩ := kept.attended.waits d hd _ awaits
      obtain rfl := kept.registered.eq hg (mem_books mem) number'
      have same : f.lookup.key p.site = d.current.key p.site := key
      have knows := h.fetches f mem outcome stage
      rw [← h.home, same, h.home] at knows
      refine ⟨(h.calls d hd concerned).course, fun outcome' told => ?_, fun _ ended => (by cases ended)⟩
      exact CallStage.told.inj told ▸ knows
    · exact h.calls x mem' concerned

end Briefed

/-- No step tells a call what is not known, as long as it is known what is in the cache and how fetches
ended. -/
theorem step_briefed (h : p.Briefed known site who) (kept : p.books.Kept) (now : Seconds) (e : PoolEvent)
    (cached : (p.step now e).cache.All fun key names _ => known key (.names names))
    (fetches : ∀ f ∈ (p.step now e).fetches, ∀ outcome, f.stage = .ended outcome →
      known (f.lookup.key site) outcome) : (p.step now e).Briefed known site who := by
  refine ⟨(step_onward kept now e).site.trans h.home, cached, fetches, ?_⟩
  have others (same : (p.step now e).calls = p.calls) :
      ∀ c ∈ (p.step now e).calls, who c.id → c.Briefed known site := same ▸ h.calls
  have byItself {id : Nat} (concerns : e.fetch? = some id) (unannounced : e ≠ .announce id) :=
    others (calls_of_books (books_of_fetch? p now concerns unannounced))
  cases e with
  | openCall id context =>
    cases taken : p.call? id with
    | none => simpa [step, taken] using h.openCall id context
    | some d => simpa [step, taken] using h.calls
  | abandon id => exact h.abandon id
  | callStep id => exact h.callStep kept now id
  | announce id => exact h.announce kept id
  | fetchStep id => exact byItself rfl (by simp)
  | arrive id reply => exact byItself rfl (by simp)
  | arriveAtOnce id reply => exact byItself rfl (by simp)
  | expire id => exact byItself rfl (by simp)
  | cancelPending => exact others (calls_of_books (books_cancelPending p))
  | clearCache => exact h.calls
  | setTtl ttl given =>
    obtain ⟨cache, same⟩ := p.setTtl_cases now ttl given
    exact others (by rw [same])
  | resetAuth => exact h.calls

/-- It is enough to know how fetches ended: what is stored is what a fetch ended with. -/
theorem Briefed.step {slots : Int} (h : p.Briefed known site who) (reachable : Reachable slots p)
    (now : Seconds) (e : PoolEvent)
    (fetches : ∀ f ∈ (p.step now e).fetches, ∀ outcome, f.stage = .ended outcome →
      known (f.lookup.key site) outcome) : (p.step now e).Briefed known site who := by
  apply step_briefed h reachable.kept now e ?_ fetches
  apply cached_step reachable h.cached now e
  intro f mem _ unfinished names ends
  obtain ⟨g, there, number, stage⟩ := ended_of_outcome? ends
  obtain ⟨g', there', number', lookup, -⟩ :=
    step_lasts reachable.gated reachable.kept mem now e fun _ => unfinished
  obtain rfl : g' = g := List.inj_on_of_nodup_map (nodup_fetches (reachable.step now e).kept)
    there' there (number'.trans number.symm)
  rw [h.home, ← lookup]
  exact fetches g' there _ stage

end Pool

end

end Typeahead
