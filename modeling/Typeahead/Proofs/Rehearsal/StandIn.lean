import Typeahead.Proofs.Catalog.Keys
import Typeahead.Proofs.Rehearsal.Alone
import Typeahead.Proofs.Rehearsal.InUse
import Typeahead.Proofs.Text.Lines

/-!
What stands in for names that the catalog does not know. For the values of a key these are the values that
the tags of the metric give to it, be the tags in the cache or fetched now; for the fields of logs these are
the known facets; and where nothing stands in there is trouble. It is told of the dataset that was wanted,
and nothing is stored for that.

- `mem_tagValues`, `tagValues_prefix`: which values tags give to a key, and in what order.
- `Idle`: of the rehearsals that come about, those in which nothing is under way.
- `names_stand_in`: how a call ends whose names the catalog does not know.
-/

namespace Typeahead

/-- A key has the values that stand behind it in a tag, blanks aside, and are not empty. -/
theorem mem_tagValues {tags : List Text} {key value : Text} : value ∈ tagValues tags key ↔
    value ≠ [] ∧ ∃ tag ∈ tags, ∃ before after, tag.cut ':' = (before, some after) ∧
      Text.strip before = key ∧ Text.strip after = value := by
  simp only [tagValues, List.mem_eraseDups, List.mem_filterMap]
  constructor
  · rintro ⟨tag, mem, gives⟩
    split at gives
    · next before after cut =>
      split at gives
      · next same =>
        obtain ⟨strip, inked⟩ := Text.stripped?_eq_some_iff.1 gives
        exact ⟨inked, tag, mem, before, after, cut, same, strip⟩
      · cases gives
    · cases gives
  · rintro ⟨inked, tag, mem, before, after, cut, same, strip⟩
    refine ⟨tag, mem, ?_⟩
    simp only [cut, if_pos same]
    exact Text.stripped?_eq_some_iff.2 ⟨strip, inked⟩

theorem nodup_eraseDups : ∀ values : List Text, values.eraseDups.Nodup
  | [] => List.nodup_nil
  | value :: rest => by
    rw [List.eraseDups_cons, List.nodup_cons]
    refine ⟨fun again => ?_, nodup_eraseDups _⟩
    simpa using (List.mem_filter.1 (List.mem_eraseDups.1 again)).2
termination_by values => values.length
decreasing_by exact Nat.lt_succ_of_le (List.length_filter_le ..)

theorem nodup_tagValues (tags : List Text) (key : Text) : (tagValues tags key).Nodup := nodup_eraseDups _

/-- The values of the first tags come first. -/
theorem tagValues_prefix (tags more : List Text) (key : Text) :
    tagValues tags key <+: tagValues (tags ++ more) key := by
  simp only [tagValues, List.filterMap_append, List.eraseDups_append]
  exact List.prefix_append ..

theorem nonempty?_some {name : Text} (some : name ≠ []) : nonempty? (Option.some name) = Option.some name := by
  simp [nonempty?, Option.filter, some]

/-- Lookups of different datasets have different keys. -/
theorem Lookup.dataset_of_key {l m : Lookup} {site : Text} (same : l.key site = m.key site) :
    l.dataset = m.dataset := by
  rw [l.key_eq, m.key_eq] at same
  exact Dataset.name_inj (Text.append_bar_inj l.dataset.bar_not_mem_name m.dataset.bar_not_mem_name same).1

namespace Rehearsal

open Pool

/-- A rehearsal that came about and in which no call, no fetch and no round is under way is idle. -/
theorem InUse.idle {t : Terms} {slots : Int} {w : Rehearsal} (h : w.InUse t slots) (ready : w.agenda.ready = [])
    (alarms : w.agenda.alarms = []) (calls : w.pool.calls = []) (fetches : w.pool.fetches = [])
    (loading : w.loading = []) : w.Idle := by
  have order := h.ready.order
  refine ⟨ready, alarms, ⟨calls, fetches, ?_, ?_, h.ready.empty⟩, loading, fun r settled => ?_⟩
  · have register : w.pool.pending = _ := order.sound.kept.registered.register
    rw [register, books, fetches]
    rfl
  · have line := order.sound.gated.line
    rw [fetches] at line
    exact line.eq_nil
  · exact Nat.lt_irrefl _ (order.numbered.ends _ r (.inr settled))

/-- The names of a lookup are not in the cache, and the catalog replies in time that it does not know them.
What is left then is `v`. -/
def Lacks (w : Rehearsal) (l : Lookup) (v : Rehearsal) : Prop :=
  (w.pool.cache.get w.cacheTime (l.key w.pool.site)).1 = none ∧
    w.pool.gate.free ≠ 0 ∧ w.pool.limit.above 0 = true ∧
    ∃ path span text body, l.path w.pool.base = .ok path ∧
      (w.send { path }).1 = .after span (.response 404 text body) ∧
      (∀ limit, w.pool.limit.value? = some limit → span < limit) ∧
      v = ((w.missing l).send { path }).2.later (max 0 span)

/-- Names of a lookup are supplied by the cache, or else by the reply to a request that comes in time. -/
def Supplies (w : Rehearsal) (l : Lookup) (names : List Text) : Prop :=
  (∃ e, (w.pool.cache.get w.cacheTime (l.key w.pool.site)).1 = some e ∧ e.names = names) ∨
    (w.pool.cache.get w.cacheTime (l.key w.pool.site)).1 = none ∧
      ∃ path span reply, l.path w.pool.base = .ok path ∧ (w.send { path }).1 = .after span reply ∧
        (∀ limit, w.pool.limit.value? = some limit → span < limit) ∧ reply.names path = .ok names

/-- Nothing new is stored under the key of a lookup, and at most so many requests have been sent. -/
def Spares (w : Rehearsal) (l : Lookup) (most : Nat) (v : Rehearsal) : Prop :=
  (∀ e ∈ v.pool.cache.entries, e.key = l.key w.pool.site → e ∈ w.pool.cache.entries) ∧
    v.requests.length ≤ w.requests.length + most

/-- Whoever asked is given these candidates and told these errors. -/
def Gives (r : Option Resolution) (candidates : Candidates) (errors : List (Dataset × String)) : Prop :=
  ∃ findings, r = some (.done findings) ∧ findings.candidates = candidates ∧ findings.errors = errors

/-- How a call for the values of a key ends, by what comes of the tags of the metric. -/
def EndsByTags (v : Rehearsal) (metric key : Text) (tags : Outcome) (r : Option Resolution) : Prop :=
  let l : Lookup := { dataset := .tags, scope := [metric] }
  match tags with
  | .names names => Gives r (.only .tagValues (tagValues names key)) [] ∧ v.Supplies l names
  | .failed (.catalog error) =>
    if error.kind = .unauthorized then r = some (.failed (.catalog error))
    else ∃ trouble : CatalogError, Gives r .none [(.tagValues, trouble.message)] ∧
      trouble = if error.kind = .notFound then .noNames l else error
  | .failed failure => r = some (.failed failure)
  | .stopped => Gives r .none [(.tagValues, Trouble.stopped.message)]

section

variable {u v w : Rehearsal} {l : Lookup} {outcome : Outcome}

theorem Lacks.lookUp (h : w.Lacks l v) :
    ∃ path : Path, w.lookUp l = some (.failed (.catalog (.absent path.shown)), v) := by
  obtain ⟨missed, free, under, path, span, text, body, fits, comes, inTime, rfl⟩ := h
  refine ⟨path, ?_⟩
  have ends : (Arrival.after span (.response 404 text body)).within w.pool.limit.value? =
      some (max 0 span, some (.response 404 text body)) := by
    cases limited : w.pool.limit.value? with
    | none => rfl
    | some limit => simp [Arrival.within, inTime limit limited]
  have asks : (w.missing l).ask l = (w.missing l).exchange l path := by
    have free' : (w.missing l).pool.gate.free ≠ 0 := free
    have under' : (w.missing l).pool.limit.above 0 = true := under
    have fits' : l.path (w.missing l).pool.base = .ok path := fits
    simp only [ask, if_neg free', if_pos under', fits']
  have replied : (w.missing l).exchange l path = some (((w.missing l).send { path }).2.later (max 0 span)
      |>.receive l path (some (.response 404 text body))) := by
    have ends' : ((w.missing l).send { path }).1.within (w.missing l).pool.limit.value? = _ := comes ▸ ends
    rw [exchange, ends']
    rfl
  rw [lookUp_of_miss missed, asks, replied]
  rfl

theorem names_of_receive {path : Path} {reply? : Option Reply} {names : List Text}
    (gives : w.receive l path reply? = (.names names, u)) :
    ∃ reply, reply? = some reply ∧ reply.names path = .ok names := by
  cases reply? with
  | none => cases gives
  | some reply =>
    refine ⟨reply, rfl, ?_⟩
    simp only [receive, Pool.receive] at gives
    split at gives
    · next found came =>
      split at gives
      · cases gives
        exact came
      · cases gives
    · cases gives
    · cases gives

/-- Names that a lookup comes to are those in the cache, or those of a reply. -/
theorem supplies_of_lookUp {names : List Text} (found : w.lookUp l = some (.names names, u)) :
    w.Supplies l names := by
  rcases lookUp_cases found with ⟨e, cache, got, same, -⟩ | ⟨missed, asked⟩
  · cases same
    exact .inl ⟨e, by rw [got], rfl⟩
  · refine .inr ⟨missed, ?_⟩
    unfold ask at asked
    split at asked
    · cases asked
    split at asked
    · split at asked
      · cases asked
      · next path fits =>
        obtain ⟨⟨passed, reply?⟩, ends, gives⟩ := Option.map_eq_some_iff.1 asked
        obtain ⟨reply, rfl, came⟩ := names_of_receive gives
        rcases Arrival.within_cases ends with ⟨none, -⟩ | ⟨span, reply', comes, -, same, inTime⟩
        · cases none
        · cases same
          exact ⟨path, span, reply, fits, comes, inTime, came⟩
    · cases asked

theorem endsByTags (v : Rehearsal) (metric key : Text) (id : Nat)
    (supplied : ∀ names, outcome = .names names → v.Supplies { dataset := .tags, scope := [metric] } names) :
    let values : Lookup := { dataset := .tagValues, scope := [metric, key] }
    let tags : Lookup := { dataset := .tags, scope := [metric] }
    let c : Call := { id, wanted := values, current := values }
    v.EndsByTags metric key outcome (some (c.resolution (Call.ending { c with current := tags } outcome))) := by
  intro values tags c
  cases outcome with
  | names names => exact ⟨⟨_, rfl, rfl, rfl⟩, supplied names rfl⟩
  | failed failure =>
    cases failure with
    | catalog error =>
      cases error with
      | refused | blocked => rfl
      | _ => exact ⟨_, ⟨_, rfl, rfl, rfl⟩, rfl⟩
    | _ => rfl
  | stopped => exact ⟨_, rfl, rfl, rfl⟩

/-- Where the catalog does not know the names of a call, others stand in for them or there is trouble. -/
theorem names_stand_in (idle : w.Idle) (allowed : w.pool.refusal? = none) :
    (∀ (context : Context) (metric key : Text), context.place = .filterValue → context.metric? = some metric →
      context.key? = some key → metric ≠ [] → key ≠ [] →
      ∀ v, w.Lacks { dataset := .tagValues, scope := [metric, key] } v →
      ∀ tags u, v.lookUp { dataset := .tags, scope := [metric] } = some (tags, u) →
        v.EndsByTags metric key tags (w.resolve context).1 ∧
        w.Spares { dataset := .tagValues, scope := [metric, key] } 2 (w.resolve context).2) ∧
    (∀ (names : List Text) (key : Text), (tagValues names key).Nodup ∧
      (∀ value, value ∈ tagValues names key ↔ value ≠ [] ∧ ∃ tag ∈ names, ∃ before after,
        tag.cut ':' = (before, some after) ∧ Text.strip before = key ∧ Text.strip after = value) ∧
      ∀ more, tagValues names key <+: tagValues (names ++ more) key) ∧
    ∀ (context : Context) (l : Lookup), context.lookup? = some l → l.dataset ≠ .tagValues →
      ∀ v, w.Lacks l v →
        (if l.dataset = .fields then Gives (w.resolve context).1 (.only .fields Logs.defaultFacets) []
          else Gives (w.resolve context).1 .none [(l.dataset, (CatalogError.noNames l).message)]) ∧
        w.Spares l 1 (w.resolve context).2 := by
  refine ⟨fun context metric key place hasMetric hasKey someMetric someKey v lacks tags u looked => ?_,
    fun names key =>
      ⟨nodup_tagValues names key, fun _ => mem_tagValues, fun more => tagValues_prefix names more key⟩,
    fun context l asks other v lacks => ?_⟩
  · let values : Lookup := { dataset := .tagValues, scope := [metric, key] }
    let c : Call := { id := w.nextCall, wanted := values, current := values }
    have asks : context.lookup? = some values := by
      simp only [Context.lookup?, place, hasMetric, hasKey, nonempty?_some someMetric, nonempty?_some someKey]
      rfl
    obtain ⟨path, absent⟩ := lacks.lookUp
    have foreseen : w.foresee c =
        some (Call.ending { c with current := { dataset := .tags, scope := [metric] } } tags, u) := by
      simp [foresee, c, values, absent, Outcome.isAbsent, CatalogError.kind, Call.standIn?, looked]
    have first := looked_lookUp absent
    have second := looked_lookUp looked
    rw [resolve_of_foresee idle allowed asks foreseen]
    refine ⟨endsByTags v metric key w.nextCall fun names same => supplies_of_lookUp (same ▸ looked),
      fun e mem same => ?_, second.requests.trans (Nat.add_le_add_right first.requests 1)⟩
    have old : e ∈ v.pool.cache.entries := by
      refine (second.entries e mem).resolve_right ?_
      rintro ⟨tags, -⟩
      rw [first.site] at tags
      cases Lookup.dataset_of_key (same.symm.trans tags)
    exact first.entries_of_failed e old
  · let c : Call := { id := w.nextCall, wanted := l, current := l }
    obtain ⟨path, absent⟩ := lacks.lookUp
    have foreseen : w.foresee c = some (c.ending (.failed (.catalog (.absent path.shown))), v) := by
      have alone : c.standIn? = none := by
        cases standsIn : c.standIn? with
        | none => rfl
        | some tags =>
          obtain ⟨-, metric, key, wanted, -⟩ := Call.standIn?_eq_some standsIn
          exact absurd (congrArg Lookup.dataset wanted) other
      simp [foresee, c, absent, alone]
    have left := looked_lookUp absent
    rw [resolve_of_foresee idle allowed asks foreseen]
    refine ⟨?_, fun e mem _ => left.entries_of_failed e mem, left.requests⟩
    split
    · next fields =>
      have ends : c.ending (.failed (.catalog (.absent path.shown))) = .names Logs.defaultFacets := by
        simp [Call.ending, c, fields, CatalogError.kind]
      rw [ends]
      exact ⟨_, rfl, congrArg (Candidates.only · _) fields, rfl⟩
    · next other =>
      have ends : c.ending (.failed (.catalog (.absent path.shown))) = .failed (.catalog (.noNames l)) := by
        simp [Call.ending, c, other, CatalogError.kind]
      rw [ends]
      exact ⟨_, rfl, rfl, rfl⟩

end

/-- The catalog does not know the values of a key, and half a second later it lists the tags. -/
theorem names_stand_in_fetched :
    let base : Path := ⟨["autocomplete".toList]⟩
    let w : Rehearsal := {
      agenda := { now := 1000 }
      pool := {
        site := "site".toList, base, limit := .whole 2, cache := { ttl := 30, size := 10 }
        gate := { free := 1 } }
      script := [
        ⟨"GET /autocomplete/tag-values/cpu/host".toList, [.after 0 (.response 404 [] (.ok .null))]⟩,
        ⟨"GET /autocomplete/tags/cpu".toList, [.after (1 / 2) (.response 200 [] (.ok (.list [
          .text "host:b".toList, .text "env:prod".toList, .text " host : a ".toList, .text "host:b".toList,
          .text "host: ".toList])))]⟩]
      menu := { language := .metrics }
      pauseSpan := 0
      itemLimit := 100 }
    let values : Lookup := { dataset := .tagValues, scope := ["cpu".toList, "host".toList] }
    let context : Context := { place := .filterValue, metric? := some "cpu".toList, key? := some "host".toList }
    ∃ v u tags, w.Idle ∧ w.pool.refusal? = none ∧ w.Lacks values v ∧
      v.lookUp { dataset := .tags, scope := ["cpu".toList] } = some (.names tags, u) ∧
      tagValues tags "host".toList = ["b".toList, "a".toList] ∧
      Gives (w.resolve context).1 (.only .tagValues (tagValues tags "host".toList)) [] ∧
      w.Spares values 2 (w.resolve context).2 := by
  intro base w values context
  have new : w.IsNew ⟨"site".toList, base, .whole 2, 10⟩ 1 := by
    refine ⟨⟨30, 10, rfl, rfl⟩, fun job there => by simp [Agenda.Holds, w] at there, rfl, rfl, ?_⟩
    intro route mem span reply arrives
    rcases List.mem_cons.1 mem with rfl | mem
    · cases List.mem_singleton.1 arrives
      rfl
    · obtain rfl := List.mem_singleton.1 mem
      cases List.mem_singleton.1 arrives
      rfl
  have idle : w.Idle := InUse.idle (.create new) rfl rfl rfl rfl rfl
  let path : Path := ⟨["autocomplete".toList, "tag-values".toList, "cpu".toList, "host".toList]⟩
  let v := ((w.missing values).send { path }).2.later (max 0 0)
  have lacks : w.Lacks values v :=
    ⟨rfl, by decide, by decide, path, 0, [], .ok .null, by decide +kernel, by rfl, fun limit same => by
      cases same
      decide, rfl⟩
  let tags : List Text :=
    ["host:b".toList, "env:prod".toList, " host : a ".toList, "host:b".toList, "host: ".toList]
  have listed : (v.lookUp { dataset := .tags, scope := ["cpu".toList] }).map (·.1) = some (.names tags) := by
    decide +kernel
  obtain ⟨⟨_, u⟩, looked, rfl⟩ := Option.map_eq_some_iff.1 listed
  obtain ⟨⟨resolved, -⟩, spared⟩ := (names_stand_in idle rfl).1 context "cpu".toList "host".toList rfl rfl rfl
    (by decide) (by decide) v lacks _ u looked
  exact ⟨v, u, tags, idle, rfl, lacks, looked, by decide +kernel, resolved, spared⟩

end Rehearsal

end Typeahead
