import Typeahead.Proofs.Fetch.Block
import Typeahead.Proofs.Fetch.Endings

/-!
What the catalog said in the course of a run. A fetch that has a request under way sent it; a reply that
it holds came for that request; and names with which it ended are those of such a reply.

- `Answered`, `AnsweredBy`, `Concluded`, `Taken`: an event of the past, told by the run alone.
- `grounded_step`: no step makes up a request, a reply, or an end of a fetch.
- `outcome?_final`: an end is final.
-/

namespace Typeahead.Pool

/-- In the course of a run the catalog answered the request for a list of this key with these names. -/
def Answered (start : Pool) (es : List (Seconds × PoolEvent)) (key : Text) (names : List Text) : Prop :=
  ∃ before e after, es = before ++ e :: after ∧
    ∃ f ∈ (start.run before).fetches, ∃ path reply,
      f.stage = .asking ∧ f.lookup.key start.site = key ∧ f.lookup.path start.base = .ok path ∧
      (f.id, { path }) ∈ (start.run before).requests ∧
      e.2.fetch? = some f.id ∧ e.2.reply? = some reply ∧ reply.names path = .ok names

/-- In the course of a run the catalog answered the request of this fetch, for a list of this key, with
these names. -/
def AnsweredBy (start : Pool) (es : List (Seconds × PoolEvent)) (fetch : Nat) (key : Text)
    (names : List Text) : Prop :=
  ∃ before e after, es = before ++ e :: after ∧
    ∃ f ∈ (start.run before).fetches, f.id = fetch ∧ ∃ path reply,
      f.stage = .asking ∧ f.lookup.key start.site = key ∧ f.lookup.path start.base = .ok path ∧
      (f.id, { path }) ∈ (start.run before).requests ∧
      e.2.fetch? = some f.id ∧ e.2.reply? = some reply ∧ reply.names path = .ok names

/-- In the course of a run a fetch of this key came to an end. -/
def Concluded (start : Pool) (es : List (Seconds × PoolEvent)) (key : Text) (outcome : Outcome) : Prop :=
  ∃ before after, es = before ++ after ∧
    ∃ f ∈ (start.run before).fetches, f.lookup.key start.site = key ∧ f.stage = .ended outcome

/-- In the course of a run, at this point of time, a fetch of this key ended with these names. -/
def Taken (start : Pool) (es : List (Seconds × PoolEvent)) (key : Text) (names : List Text)
    (fetched : Seconds) : Prop :=
  ∃ before e after, es = before ++ (fetched, e) :: after ∧
    ∃ f ∈ (start.run before).fetches, f.isUnfinished = true ∧ f.lookup.key start.site = key ∧
      ((start.run before).step fetched e).outcome? f.id = some (.names names)

/-- Where the outcome of a fetch of this key comes from. -/
def Sourced (start : Pool) (es : List (Seconds × PoolEvent)) (fetch : Nat) (key : Text) : Outcome → Prop
  | .names names => AnsweredBy start es fetch key names
  | .failed failure => Concluded start es key (.failed failure)
  | .stopped => Concluded start es key .stopped

/-- What a fetch has done so far, it did in the course of the run: it sent the request that is under way,
the reply that it holds came for it, and its end has a source. -/
def Grounded (start : Pool) (es : List (Seconds × PoolEvent)) (f : Fetch) : Prop :=
  match f.stage with
  | .asking => ∃ path, f.lookup.path start.base = .ok path ∧ (f.id, { path }) ∈ (start.run es).requests
  | .answered reply => ∀ names, reply.names (start.pathOf f) = .ok names →
    AnsweredBy start es f.id (f.lookup.key start.site) names
  | .ended outcome => Sourced start es f.id (f.lookup.key start.site) outcome
  | .begun | .queued | .admitted | .overdue => True

/-- A fetch of this number, if it is still there, has ended so; the number is not given out again. -/
structure Settled (p : Pool) (id : Nat) (outcome : Outcome) : Prop where
  given : id < p.nextFetch
  ended : ∀ f ∈ p.fetches, f.id = id → f.stage = .ended outcome

section

variable {start p q : Pool} {f : Fetch} {es : List (Seconds × PoolEvent)} {key : Text}
  {names : List Text}

theorem AnsweredBy.answered {fetch : Nat} (h : AnsweredBy start es fetch key names) :
    Answered start es key names := by
  obtain ⟨before, e, after, split, f, mem, -, rest⟩ := h
  exact ⟨before, e, after, split, f, mem, rest⟩

theorem AnsweredBy.append {fetch : Nat} (h : AnsweredBy start es fetch key names)
    (more : List (Seconds × PoolEvent)) : AnsweredBy start (es ++ more) fetch key names := by
  obtain ⟨before, e, after, rfl, rest⟩ := h
  exact ⟨before, e, after ++ more, by simp, rest⟩

theorem Concluded.append {outcome : Outcome} (h : Concluded start es key outcome)
    (more : List (Seconds × PoolEvent)) : Concluded start (es ++ more) key outcome := by
  obtain ⟨before, after, rfl, rest⟩ := h
  exact ⟨before, after ++ more, by simp, rest⟩

theorem Taken.append {fetched : Seconds} (h : Taken start es key names fetched)
    (more : List (Seconds × PoolEvent)) : Taken start (es ++ more) key names fetched := by
  obtain ⟨before, e, after, rfl, rest⟩ := h
  exact ⟨before, e, after ++ more, by simp, rest⟩

theorem Sourced.append {fetch : Nat} {outcome : Outcome} (h : Sourced start es fetch key outcome)
    (more : List (Seconds × PoolEvent)) : Sourced start (es ++ more) fetch key outcome := by
  cases outcome with
  | names names => exact AnsweredBy.append h more
  | failed failure => exact Concluded.append h more
  | stopped => exact Concluded.append h more

theorem run_snoc (p : Pool) (es : List (Seconds × PoolEvent)) (now : Seconds) (e : PoolEvent) :
    p.run (es ++ [(now, e)]) = (p.run es).step now e := run_append ..

/-- What a step leaves alone: where the catalog is asked, and which requests were sent. -/
structure Onward (p q : Pool) : Prop where
  site : q.site = p.site
  base : q.base = p.base
  requests : p.requests ⊆ q.requests

theorem Onward.of_dealings {cache : Cache} {refusal? : Option Text} {requests : List (Nat × Request)}
    (dealings : q.dealings = { p.dealings with cache, refusal?, requests })
    (more : p.requests ⊆ requests) : Onward p q := by
  have same : q.requests = requests := congrArg Dealings.requests dealings
  exact ⟨congrArg Dealings.site dealings, congrArg Dealings.base dealings, same ▸ more⟩

theorem FetchMove.onward {now : Seconds} {came : Option Reply} (move : FetchMove p now came f q) :
    Onward p q := by
  have all := List.Subset.refl p.requests
  cases move with
  | queue _ dealings => exact .of_dealings dealings all
  | ask _ _ _ _ dealings => exact .of_dealings dealings (List.subset_append_left ..)
  | hear _ _ _ _ dealings => exact .of_dealings dealings all
  | expire _ _ _ dealings => exact .of_dealings dealings all
  | fail _ _ _ _ dealings => exact .of_dealings dealings all
  | serve _ _ _ _ _ dealings => exact .of_dealings dealings all
  | refuse _ _ dealings => exact .of_dealings dealings all

theorem step_onward (kept : p.books.Kept) (now : Seconds) (e : PoolEvent) : Onward p (p.step now e) := by
  have all := List.Subset.refl p.requests
  obtain rfl | undealt | ⟨f, -, -, move, -⟩ := step_kinds kept now e
  · exact ⟨rfl, rfl, all⟩
  · exact .of_dealings undealt.dealings all
  · exact move.onward

theorem run_onward {slots : Int} (h : Reachable slots p) (es : List (Seconds × PoolEvent)) :
    Onward p (p.run es) := by
  induction es generalizing p with
  | nil => exact ⟨rfl, rfl, List.Subset.refl _⟩
  | cons e es ih =>
    have first := step_onward h.kept e.1 e.2
    have later := ih (h.step e.1 e.2)
    exact ⟨later.site.trans first.site, later.base.trans first.base,
      List.Subset.trans first.requests later.requests⟩

theorem pathOf_eq (base : q.base = p.base) (f : Fetch) : q.pathOf f = p.pathOf f := by
  unfold pathOf
  rw [base]

/-- The past of a fetch does not change as the run goes on, nor by what others do to the fetch. -/
theorem Grounded.nudged {g : Fetch} (h : Grounded start es f) (nudged : f.Nudged g)
    (now : Seconds) (e : PoolEvent)
    (requests : (start.run es).requests ⊆ (start.run (es ++ [(now, e)])).requests) :
    Grounded start (es ++ [(now, e)]) g := by
  rcases nudged.stage with same | handed
  · unfold Grounded pathOf at h ⊢
    rw [same, nudged.lookup, nudged.id]
    cases stage : f.stage with
    | asking =>
      simp only [stage] at h
      obtain ⟨path, asks, sent⟩ := h
      exact ⟨path, asks, requests sent⟩
    | answered reply =>
      simp only [stage] at h
      exact fun names read => (h names read).append _
    | ended outcome =>
      simp only [stage] at h
      exact h.append _
    | begun | queued | admitted | overdue => trivial
  · simp [Grounded, handed]

/-- What a fetch comes to by its own step has a source in the run. -/
theorem FetchMove.grounded {slots : Int} (reachable : Reachable slots start) {now : Seconds}
    {e : PoolEvent} (mem : f ∈ (start.run es).fetches) (concerns : e.fetch? = some f.id)
    (move : FetchMove (start.run es) now e.reply? f ((start.run es).step now e))
    (h : Grounded start es f) {g : Fetch} (there : g ∈ ((start.run es).step now e).fetches)
    (same : g.id = f.id) : Grounded start (es ++ [(now, e)]) g := by
  have before := run_onward reachable es
  have lookup : g.lookup = f.lookup := by
    obtain ⟨stage, moved⟩ := move.moved
    exact (moved.self g there same).1
  have path_eq : start.pathOf g = start.pathOf f := by
    unfold pathOf
    rw [lookup]
  -- a reply that comes for a fetch answers the request which the fetch has under way
  have answered {reply : Reply} (asking : f.stage = .asking) (came : e.reply? = some reply)
      {names : List Text} (read : reply.names (start.pathOf f) = .ok names) :
      AnsweredBy start (es ++ [(now, e)]) f.id (f.lookup.key start.site) names := by
    simp only [Grounded, asking] at h
    obtain ⟨path, asks, sent⟩ := h
    have asked : start.pathOf f = path := by
      simp [pathOf, asks, Except.toOption]
    exact ⟨es, (now, e), [], rfl, f, mem, rfl, path, reply, asking, rfl, asks, sent, concerns, came,
      asked ▸ read⟩
  cases move with
  | queue moved => simp [Grounded, (moved.self g there same).2.1]
  | expire _ _ moved => simp [Grounded, (moved.self g there same).2.1]
  | @ask path _ _ asks moved dealings =>
    simp only [Grounded, (moved.self g there same).2.1]
    have requests : (start.run (es ++ [(now, e)])).requests =
        (start.run es).requests ++ [(f.id, { path := path })] := by
      rw [run_snoc]
      exact congrArg Dealings.requests dealings
    refine ⟨path, by rw [lookup, ← before.base]; exact asks, ?_⟩
    rw [requests, same]
    exact List.mem_append_right _ (List.mem_singleton_self _)
  | hear _ asking came moved =>
    simp only [Grounded, (moved.self g there same).2.1]
    intro names read
    rw [lookup, same]
    exact answered asking came (path_eq ▸ read)
  | serve _ has read _ moved =>
    simp only [Grounded, (moved.self g there same).2.1, Sourced]
    rw [pathOf_eq before.base] at read
    rw [lookup, same]
    rcases has with held | ⟨asking, came⟩
    · simp only [Grounded, held] at h
      exact (h _ read).append _
    · exact answered asking came read
  | @fail outcome nameless _ _ moved =>
    have ended := (moved.self g there same).2.1
    have concluded : Concluded start (es ++ [(now, e)]) (g.lookup.key start.site) outcome :=
      ⟨es ++ [(now, e)], [], by simp, g, by rwa [run_snoc], rfl, ended⟩
    simp only [Grounded, ended]
    cases outcome with
    | names names => exact absurd rfl (nameless names)
    | failed | stopped => exact concluded
  | refuse _ moved =>
    have ended := (moved.self g there same).2.1
    simp only [Grounded, ended]
    exact ⟨es ++ [(now, e)], [], by simp, g, by rwa [run_snoc], rfl, ended⟩

/-- No step makes up a request, a reply, or an end of a fetch. -/
theorem grounded_step {slots : Int} (reachable : Reachable slots start)
    (h : ∀ f ∈ (start.run es).fetches, Grounded start es f) (now : Seconds) (e : PoolEvent) :
    ∀ g ∈ (start.run (es ++ [(now, e)])).fetches, Grounded start (es ++ [(now, e)]) g := by
  have kept := (reachable.run es).kept
  have requests : (start.run es).requests ⊆ (start.run (es ++ [(now, e)])).requests := by
    rw [run_snoc]
    exact (step_onward kept now e).requests
  intro g there
  rw [run_snoc] at there
  have others {f : Fetch} (mem : f ∈ (start.run es).fetches) (nudged : f.Nudged g) :
      Grounded start (es ++ [(now, e)]) g := (h f mem).nudged nudged now e requests
  obtain rfl | undealt | ⟨f, mem, concerns, move, -⟩ := step_kinds kept now e
  · exact others there (.refl g)
  · rcases undealt.fetches g there with ⟨f, mem, nudged⟩ | ⟨begun, -⟩
    · exact others mem nudged
    · simp [Grounded, begun]
  · by_cases self : g.id = f.id
    · exact move.grounded reachable mem concerns (h f mem) there self
    · obtain ⟨stage, moved⟩ := move.moved
      obtain ⟨f', mem', nudged⟩ := moved.others g there self
      exact others mem' nudged

/-- The fetches after a step are those before it, and new ones. -/
theorem step_origin (p : Pool) (now : Seconds) (e : PoolEvent) :
    p.nextFetch ≤ (p.step now e).nextFetch ∧
    ∀ g ∈ (p.step now e).fetches, (∃ f ∈ p.fetches, g.id = f.id) ∨ p.nextFetch ≤ g.id := by
  by_cases elsewhere : ∀ id, e.fetch? = some id → e = .announce id
  · by_cases lift : e = .resetAuth
    · subst lift
      exact ⟨Nat.le_refl _, fun g mem => .inl ⟨g, mem, rfl⟩⟩
    · have undealt := step_undealt p now elsewhere lift
      refine ⟨undealt.nextFetch, fun g mem => ?_⟩
      rcases undealt.fetches g mem with ⟨f, there, nudged⟩ | ⟨-, new⟩
      · exact .inl ⟨f, there, nudged.id⟩
      · exact .inr new
  · push Not at elsewhere
    obtain ⟨id, concerns, unannounced⟩ := elsewhere
    have books := books_of_fetch? p now concerns unannounced
    have numbers : (p.step now e).nextFetch = p.nextFetch := congrArg Books.nextFetch books
    refine ⟨Nat.le_of_eq numbers.symm, fun g mem => .inl ?_⟩
    have there : g.unmoved ∈ p.books.fetches := books ▸ mem_books mem
    obtain ⟨f, mem', same⟩ := List.mem_map.1 there
    have number : f.unmoved.id = g.unmoved.id := congrArg Fetch.id same
    exact ⟨f, mem', number.symm⟩

/-- The fetches after a run are those before it, and new ones. -/
theorem run_origin (p : Pool) (es : List (Seconds × PoolEvent)) :
    p.nextFetch ≤ (p.run es).nextFetch ∧
    ∀ g ∈ (p.run es).fetches, (∃ f ∈ p.fetches, g.id = f.id) ∨ p.nextFetch ≤ g.id := by
  induction es generalizing p with
  | nil => exact ⟨Nat.le_refl _, fun g mem => .inl ⟨g, mem, rfl⟩⟩
  | cons e es ih =>
    obtain ⟨first, origin⟩ := p.step_origin e.1 e.2
    obtain ⟨later, there⟩ := ih (p.step e.1 e.2)
    refine ⟨Nat.le_trans first later, fun g mem => ?_⟩
    rcases there g mem with ⟨f, old, same⟩ | new
    · rcases origin f old with ⟨f', old', same'⟩ | new
      · exact .inl ⟨f', old', same.trans same'⟩
      · exact .inr (same ▸ new)
    · exact .inr (Nat.le_trans first new)

/-- How a fetch has ended is told of its number. -/
theorem Settled.of_ended (kept : p.books.Kept) (mem : f ∈ p.fetches) {outcome : Outcome}
    (ended : f.stage = .ended outcome) : p.Settled f.id outcome := by
  refine ⟨kept.registered.given f.unmoved (mem_books mem), fun g there same => ?_⟩
  rwa [List.inj_on_of_nodup_map (nodup_fetches kept) there mem same]

/-- An end is final: no step makes a fetch have ended otherwise. -/
theorem Settled.step {slots : Int} (reachable : Reachable slots p) {id : Nat} {outcome : Outcome}
    (h : p.Settled id outcome) (now : Seconds) (e : PoolEvent) : (p.step now e).Settled id outcome := by
  have kept := reachable.kept
  obtain ⟨next, origin⟩ := p.step_origin now e
  refine ⟨Nat.lt_of_lt_of_le h.given next, fun g there number => ?_⟩
  rcases origin g there with ⟨f, mem, same⟩ | new
  · have ended := h.ended f mem (same.symm.trans number)
    by_cases announced : e = .announce f.id
    · subst announced
      have gone : g ∈ (p.announce f.id).fetches := there
      rw [fetches_announce kept mem ended, List.mem_filter] at gone
      simp [same] at gone
    · obtain ⟨g', there', number', -, final⟩ :=
        step_lasts reachable.gated kept mem now e fun same => absurd same announced
      have eq : g' = g := List.inj_on_of_nodup_map (nodup_fetches (reachable.step now e).kept)
        there' there (number'.trans same.symm)
      exact eq ▸ final outcome ended
  · exact absurd h.given (Nat.not_lt.2 (number ▸ new))

theorem Settled.run {slots : Int} (reachable : Reachable slots p) {id : Nat} {outcome : Outcome}
    (h : p.Settled id outcome) (es : List (Seconds × PoolEvent)) : (p.run es).Settled id outcome := by
  induction es generalizing p with
  | nil => exact h
  | cons e es ih => exact ih (reachable.step e.1 e.2) (h.step reachable e.1 e.2)

/-- A fetch that has ended is never found to have ended otherwise. -/
theorem outcome?_final {slots : Int} (reachable : Reachable slots p) {id : Nat} {outcome other : Outcome}
    (ended : p.outcome? id = some outcome) {es : List (Seconds × PoolEvent)}
    (later : (p.run es).outcome? id = some other) : other = outcome := by
  obtain ⟨f, mem, rfl, stage⟩ := ended_of_outcome? ended
  have settled := Settled.of_ended reachable.kept mem stage
  obtain ⟨g, there, number, stage'⟩ := ended_of_outcome? later
  exact FetchStage.ended.inj (stage'.symm.trans ((settled.run reachable es).ended g there number))

end

end Typeahead.Pool
