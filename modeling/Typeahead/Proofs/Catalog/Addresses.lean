import Typeahead.Proofs.Catalog.Paths
import Typeahead.Rehearsal

/-!
What the catalog is asked for. Names that are segments of their own stand in the address of a request one by
one, and so different lookups have different addresses. A slash in a name, or a name that is `.` or `..`,
breaks that: such a name is taken for several segments, or resolved.

- `Lookup.asks_for_names`: which requests a lookup makes, and what their addresses tell.
- `Lookup.slash_in_name`: different lookups with slashes in their names have one address.
-/

namespace Typeahead

/-- Nothing is due, and no alarm is set. -/
def Agenda.IsIdle {α : Type} (a : Agenda α) : Prop := a.ready = [] ∧ a.alarms = []

namespace Rehearsal

variable {w : Rehearsal}

/-- Where nothing is to be done time alone changes nothing. -/
theorem runUntil_of_idle (idle : w.agenda.IsIdle) (stop : Rehearsal → Bool) (limit : Option Seconds)
    (fuel : Nat) : runUntil stop limit fuel w = w := by
  obtain ⟨ready, alarms⟩ := idle
  cases fuel with
  | zero => rfl
  | succ fuel => simp [runUntil, Agenda.next?, Agenda.jump?, ready, alarms]

theorem requests_advance (idle : w.agenda.IsIdle) (span : Seconds) :
    (w.advance span).requests = w.requests := by
  unfold advance drain
  split
  · rw [runUntil_of_idle idle]
  · dsimp only
    let later : Rehearsal := { w with agenda := { w.agenda with now := w.now + span } }
    have still : later.agenda.IsIdle := idle
    rw [runUntil_of_idle idle]
    change (runUntil _ none later.patience later).requests = later.requests
    rw [runUntil_of_idle still]

/-- Whoever asks the catalog straight for a lookup sends one request, unless the lookup fits no path. -/
theorem requests_fetch (idle : w.agenda.IsIdle) {l : Lookup} {path : Path}
    (fits : l.path w.pool.base = .ok path) :
    (w.fetch l).2.requests = w.requests ++ [{ path := path }] := by
  let sent : Rehearsal := (w.send { path := path }).2
  have requests : sent.requests = w.requests ++ [{ path := path }] := rfl
  have still : sent.agenda.IsIdle := idle
  unfold fetch
  rw [fits]
  dsimp only
  cases arrives : w.send { path := path } with
  | mk arrival v =>
    obtain rfl : sent = v := congrArg Prod.snd arrives
    cases arrival with
    | never => exact requests
    | after span reply => exact (requests_advance still span).trans requests

end Rehearsal

/-- Let the catalog have any address. For lookups whose names are not empty:
- The path of the catalog is that of its address, without a slash at its end, and `autocomplete`.
- A lookup is refused before anything is sent if a name in its scope begins with a slash, and for no other
  reason. Else one request is sent, with the path of the lookup.
- The segments of that path, as they read, are those of the catalog, the fixed ones of the dataset and the
  names of the scope one by one, if and only if no name has a slash in it or is `.` or `..`.
- Two lookups with such names only do not have one address. -/
theorem Lookup.asks_for_names (address : Text) : ∃ base, Path.catalog address = .ok base ∧
    base.names = (Path.ofAddress address).stem.map Text.percentDecode ++ ["autocomplete".toList] ∧
    (∀ l : Lookup, (∀ name ∈ l.scope, name ≠ []) →
      (∀ e, l.path base = .error e ↔
        l.scope.find? (fun name => name.head? = some '/') = some e.name) ∧
      (∀ path, l.path base = .ok path →
        (path.names = base.names ++ l.dataset.steps ++ l.scope ↔ ∀ name ∈ l.scope, IsSegment name)) ∧
      ((∀ name ∈ l.scope, IsSegment name) → ∃ path, l.path base = .ok path ∧
        path.text.splitOn '/' = [] :: path.segments)) ∧
    (∀ l m : Lookup, (∀ name ∈ l.scope, name ≠ [] ∧ IsSegment name) →
      (∀ name ∈ m.scope, name ≠ [] ∧ IsSegment name) →
      ∀ path, l.path base = .ok path → ∀ other, m.path base = .ok other → path.text = other.text →
        l = m) ∧
    ∀ w : Rehearsal, w.pool.base = base → w.agenda.IsIdle → ∀ l : Lookup,
      (∀ e, l.path base = .error e → w.fetch l = (some (.error (.slashName e.name)), w)) ∧
      ∀ path, l.path base = .ok path → (w.fetch l).2.requests = w.requests ++ [{ path := path }] := by
  obtain ⟨base, catalog, segments, firm, slashless⟩ := Path.catalog_eq address
  refine ⟨base, catalog, ?_, ?_, ?_, ?_⟩
  · have reads : Text.percentDecode "autocomplete".toList = "autocomplete".toList := by decide
    simp only [Path.names, segments, List.map_append, List.map_singleton, reads]
  · intro l filled
    refine ⟨fun e => path_eq_error_iff, fun path fits => path_names_iff firm filled fits, fun names => ?_⟩
    exact ⟨_, path_of_isSegment firm filled names, splitOn_text slashless names⟩
  · intro l m names names' path fits other fits' same
    exact eq_of_text firm slashless names names' fits fits' same
  · rintro w rfl idle l
    refine ⟨fun e refused => ?_, fun path fits => Rehearsal.requests_fetch idle fits⟩
    simp only [Rehearsal.fetch, refused]

/-- The values of a key with a colon, a blank and a percent sign in it are asked for under its name. -/
theorem Lookup.asks_for_names_encoded :
    let l : Lookup := { dataset := .tagValues, scope := ["a%2F".toList, "k: é".toList] }
    let base : Path := ⟨["api".toList, "autocomplete".toList]⟩
    Path.catalog "http://host/api/".toList = .ok base ∧ (∀ name ∈ l.scope, name ≠ [] ∧ IsSegment name) ∧
      ∃ path, l.path base = .ok path ∧
        path.text = "/api/autocomplete/tag-values/a%252F/k:%20%C3%A9".toList ∧
        path.names = base.names ++ ["tag-values".toList, "a%2F".toList, "k: é".toList] := by
  intro l base
  have catalog : Path.catalog "http://host/api/".toList = .ok base := by decide +kernel
  have names : ∀ name ∈ l.scope, name ≠ [] ∧ IsSegment name := by
    intro name mem
    rcases List.mem_cons.1 mem with rfl | mem
    · exact ⟨by decide, by decide, by decide⟩
    · rw [List.mem_singleton.1 mem]
      exact ⟨by decide, by decide, by decide⟩
  obtain ⟨base', catalog', -, each, -⟩ := asks_for_names "http://host/api/".toList
  obtain rfl : base = base' := Except.ok.inj (catalog.symm.trans catalog')
  have fits : l.path base = .ok
      ⟨["api".toList, "autocomplete".toList, "tag-values".toList, "a%252F".toList, "k:%20%C3%A9".toList]⟩ := by
    decide +kernel
  have reads := ((each l fun name mem => (names name mem).1).2.1 _ fits).2 fun name mem => (names name mem).2
  have steps : l.dataset.steps = ["tag-values".toList] := by decide
  rw [steps, List.append_assoc] at reads
  exact ⟨catalog, names, _, fits, by decide +kernel, reads⟩

/-- A slash in a name is taken for the end of a segment. The values of one key of a metric, and those of
another key of another metric, are asked for at one address, and that does not read as either. -/
theorem Lookup.slash_in_name :
    let l : Lookup := { dataset := .tagValues, scope := ["a".toList, "b/c".toList] }
    let m : Lookup := { dataset := .tagValues, scope := ["a/b".toList, "c".toList] }
    let base : Path := ⟨["autocomplete".toList]⟩
    let path : Path := ⟨["autocomplete".toList, "tag-values".toList, "a".toList, "b".toList, "c".toList]⟩
    Path.catalog "http://catalog".toList = .ok base ∧ l ≠ m ∧
      l.path base = .ok path ∧ m.path base = .ok path ∧
      path.names ≠ base.names ++ l.dataset.steps ++ l.scope ∧
      path.names ≠ base.names ++ m.dataset.steps ++ m.scope := by
  decide +kernel

end Typeahead
