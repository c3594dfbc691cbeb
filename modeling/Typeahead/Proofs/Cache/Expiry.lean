import Typeahead.Proofs.Cache.History

/-!
What has outlived the time to live is not read again, with one exception. An entry is stored anew where the
time to live is changed while it is young. If it grows too old after that, the next change still finds it in
the cache, as long as it comes less than the time to live after the first; and where it is to a time to live
above the age of the entry, the entry is there to be read as if it had never been too old. Only a reader who
asks for it in the meantime gets rid of it.

- `spared_of_mem`: what is in a cache was spared by all that happened to it.
- `Revived`: two changes of the time to live that bring an entry back.
- `final_unless_revived`: when an entry is read, and that only these bring it back once it was too old.
-/

namespace Typeahead.TimedCache

/-- The point of time at which an entry was last stored, after events that spare it. -/
def storedAt (s : TimedCache) (stored : Seconds) : List CacheEvent → Seconds
  | [] => stored
  | e :: es => (s.step e).storedAt (s.storedAfter stored e) es

/-- An entry that was too old after the events `mid` was brought back in the course of the events `later`,
where `next` is the cache in which it was set. The time to live was changed when the entry was younger than
the new one, not changed again until the entry was older than that, and then changed, less than that after
the first change, to one above the age of the entry. Nobody read its key in between while it was too old. -/
def Revived (next : TimedCache) (key : Text) (mid later : List CacheEvent) : Prop :=
  ∃ early ttl given idle, mid = early ++ .setTtl ttl given :: idle ∧
  ∃ gap longer given' rest, later = gap ++ .setTtl longer given' :: rest ∧
    (∀ e ∈ idle ++ gap, ¬ e.Retimes) ∧
    let renewed := (next.run early).step (.setTtl ttl given)
    let changed := renewed.run (idle ++ gap)
    next.now < renewed.now ∧ renewed.now - next.now < ttl ∧
    changed.now - renewed.now < ttl ∧ ttl ≤ changed.now - next.now ∧ changed.now - next.now < longer ∧
    ∀ a b, idle ++ gap = a ++ .get key :: b → (renewed.run a).now - next.now < ttl

section

variable {s : TimedCache} {e : CacheEvent} {es more : List CacheEvent} {key : Text}
  {fetched stored : Seconds} {x : CacheEntry}

theorem now_run (forward : ∀ span, .advance span ∈ es → 0 ≤ span) : s.now ≤ (s.run es).now := by
  induction es generalizing s with
  | nil => exact le_refl _
  | cons e es ih =>
    have first := s.now_step fun span same => forward span (same ▸ List.mem_cons_self)
    exact first.trans (ih fun span later => forward span (List.mem_cons_of_mem e later))

theorem ttl_run (unchanged : ∀ e ∈ es, ¬ e.Retimes) : (s.run es).cache.ttl = s.cache.ttl := by
  induction es generalizing s with
  | nil => rfl
  | cons e es ih =>
    obtain ⟨first, later⟩ := List.forall_mem_cons.1 unchanged
    exact (ih later).trans (s.ttl_step first)

theorem storedAt_append (s : TimedCache) (stored : Seconds) (es more : List CacheEvent) :
    s.storedAt stored (es ++ more) = (s.run es).storedAt (s.storedAt stored es) more := by
  induction es generalizing s stored with
  | nil => rfl
  | cons e es ih => exact ih ..

theorem storedAt_of_not_retimes (unchanged : ∀ e ∈ es, ¬ e.Retimes) : s.storedAt stored es = stored := by
  induction es generalizing s with
  | nil => rfl
  | cons e es ih =>
    obtain ⟨first, later⟩ := List.forall_mem_cons.1 unchanged
    rw [storedAt, storedAfter_of_not_retimes first]
    exact ih later

/-- An entry was last stored at the last change of the time to live, if there was any. -/
theorem storedAt_cases (s : TimedCache) (stored : Seconds) (es : List CacheEvent) :
    s.storedAt stored es = stored ∨
    ∃ early ttl given idle, es = early ++ .setTtl ttl given :: idle ∧ 0 ≤ ttl ∧
      (∀ e ∈ idle, ¬ e.Retimes) ∧ s.storedAt stored es = (s.run early).now := by
  induction es using List.reverseRecOn with
  | nil => exact .inl rfl
  | append_singleton es e ih =>
    rw [storedAt_append]
    by_cases change : e.Retimes
    · obtain ⟨ttl, given, rfl, some⟩ := change
      exact .inr ⟨es, ttl, given, [], rfl, some, nofun, if_neg (not_lt.2 some)⟩
    · have same : (s.run es).storedAt (s.storedAt stored es) [e] = s.storedAt stored es :=
        storedAfter_of_not_retimes change
      rw [same]
      refine ih.imp_right ?_
      rintro ⟨early, ttl, given, idle, rfl, some, unchanged, last⟩
      refine ⟨early, ttl, given, idle ++ [e], by simp, some, fun e' mem => ?_, last⟩
      rcases List.mem_append.1 mem with old | new
      · exact unchanged e' old
      · exact List.mem_singleton.1 new ▸ change

theorem sparesAll_append : s.SparesAll key fetched stored (es ++ more) ↔
    s.SparesAll key fetched stored es ∧ (s.run es).SparesAll key fetched (s.storedAt stored es) more := by
  induction es generalizing s stored with
  | nil => exact (true_and _).symm ▸ Iff.rfl
  | cons e es ih => exact (and_congr_right fun _ => ih).trans (and_assoc ..).symm

/-- A reader of the key of an entry that is spared found it young, unless its time was over anyway. -/
theorem young_of_read (spared : s.SparesAll key fetched stored (es ++ .get key :: more))
    (unchanged : ∀ e ∈ es, ¬ e.Retimes) (held : (s.run es).now < stored + s.cache.ttl) :
    (s.run es).now - fetched < s.cache.ttl := by
  have read := (sparesAll_append.1 spared).2.1
  rw [storedAt_of_not_retimes unchanged, Spares, ttl_run unchanged] at read
  exact read rfl held

/-- What is there after an event was there before, unless it was set, and the event spared it. -/
theorem spared_of_mem_step (orderly : s.Orderly) (unset : ∀ names, e ≠ .set x.key names)
    (mem : x ∈ (s.step e).cache.entries) :
    ∃ y ∈ s.cache.entries, y.key = x.key ∧ y.names = x.names ∧ y.fetched = x.fetched ∧
      x.stored = s.storedAfter y.stored e ∧ s.Spares x.key y.fetched y.stored e := by
  cases e with
  | set key names =>
    rw [step_set orderly.room] at mem
    rcases Cache.mem_store mem with ⟨old, other⟩ | rfl
    · exact ⟨x, old, rfl, rfl, rfl, rfl, other.symm⟩
    · exact absurd rfl (unset names)
  | get key =>
    change x ∈ (s.cache.get s.now key).2.entries at mem
    unfold Cache.get at mem
    split at mem
    · next missing =>
      refine ⟨x, mem, rfl, rfl, rfl, rfl, fun same held => ?_⟩
      have unheld := List.find?_eq_none.1 missing x mem
      simp [Cache.keeps, same, held] at unheld
    · next y found =>
      have there := Cache.find?_mem found
      split at mem
      · next fresh =>
        obtain ⟨z, old, rfl⟩ := List.mem_map.1 mem
        refine ⟨z, old, ?_, ?_, ?_, ?_, fun same _ => ?_⟩
        · split <;> rfl
        · split <;> rfl
        · split <;> rfl
        · split <;> rfl
        · have key : z.key = key := by
            split at same
            · assumption
            · exact same.symm
          have same : y = z :=
            List.inj_on_of_nodup_map orderly.cache.distinct there old ((Cache.find?_key found).trans key.symm)
          exact same ▸ of_decide_eq_true fresh
      · obtain ⟨old, other⟩ := List.mem_filter.1 mem
        exact ⟨x, old, rfl, rfl, rfl, rfl, fun same => absurd same.symm (bne_iff_ne.1 other)⟩
  | count => exact ⟨x, (List.mem_filter.1 mem).1, rfl, rfl, rfl, rfl, trivial⟩
  | clear => cases mem
  | setTtl ttl given =>
    by_cases negative : ttl < 0
    · rw [(step_setTtl_of_neg negative given).2] at mem
      exact ⟨x, mem, rfl, rfl, rfl, (if_pos negative).symm, fun some => absurd some (not_le.2 negative)⟩
    · obtain ⟨kept, same, changed⟩ := Cache.setTtl_cases orderly.cache ttl
      rw [step_setTtl (not_lt.1 negative), changed] at mem
      obtain ⟨-, -, now, y, there, key, names, fetched⟩ := Cache.mem_renewed mem
      rw [same, List.mem_filter, Bool.and_eq_true] at there
      obtain ⟨old, held, young⟩ := there
      exact ⟨y, old, key, names, fetched, now.trans (if_neg negative).symm,
        fun _ => ⟨of_decide_eq_true held, of_decide_eq_true young⟩⟩
  | advance span => exact ⟨x, mem, rfl, rfl, rfl, rfl, trivial⟩

/-- What is there after a run in which it was not set was there before, and the run spared it. -/
theorem spared_of_mem (orderly : s.Orderly) (forward : ∀ span, .advance span ∈ es → 0 ≤ span)
    (unset : ∀ names, .set x.key names ∉ es) (mem : x ∈ (s.run es).cache.entries) :
    ∃ y ∈ s.cache.entries, y.key = x.key ∧ y.names = x.names ∧ y.fetched = x.fetched ∧
      s.SparesAll x.key y.fetched y.stored es := by
  induction es generalizing s with
  | nil => exact ⟨x, mem, rfl, rfl, rfl, trivial⟩
  | cons e es ih =>
    obtain ⟨y, there, key, names, fetched, spared⟩ :=
      ih (orderly.step fun span same => forward span (same ▸ List.mem_cons_self))
        (fun span later => forward span (List.mem_cons_of_mem e later))
        (fun names later => unset names (List.mem_cons_of_mem e later)) mem
    have unset_first (names : List Text) : e ≠ .set y.key names := fun same =>
      unset names (key ▸ same ▸ List.mem_cons_self)
    obtain ⟨z, old, key', names', fetched', last, first⟩ := spared_of_mem_step orderly unset_first there
    rw [key] at first
    rw [← fetched', last] at spared
    exact ⟨z, old, key'.trans key, names'.trans names, fetched'.trans fetched, first, spared⟩

/-- An entry that is too old and spared, and young in the end, met a change of the time to live to one above
its age. The time to live had not changed before, and nobody had read the key. -/
theorem revived_of_spared (forward : ∀ span, .advance span ∈ es → 0 ≤ span)
    (spared : s.SparesAll key fetched stored es) (old : s.cache.ttl ≤ s.now - fetched)
    (finally' : (s.run es).now - fetched < (s.run es).cache.ttl) :
    ∃ gap longer given rest, es = gap ++ .setTtl longer given :: rest ∧ (∀ e ∈ gap, ¬ e.Retimes) ∧
      (s.run gap).now < stored + s.cache.ttl ∧ (s.run gap).now - fetched < longer := by
  induction es generalizing s with
  | nil => exact absurd finally' (not_lt.2 old)
  | cons e es ih =>
    by_cases change : e.Retimes
    · obtain ⟨ttl, given, rfl, some⟩ := change
      obtain ⟨held, young⟩ := spared.1 some
      exact ⟨[], ttl, given, es, rfl, nofun, held, young⟩
    · have same := s.ttl_step change
      have passed := s.now_step fun span same => forward span (same ▸ List.mem_cons_self)
      have later := spared.2
      rw [storedAfter_of_not_retimes change] at later
      obtain ⟨gap, longer, given, rest, rfl, unchanged, held, young⟩ :=
        ih (fun span later => forward span (List.mem_cons_of_mem e later)) later (by linarith) finally'
      exact ⟨e :: gap, longer, given, rest, rfl, List.forall_mem_cons.2 ⟨change, unchanged⟩, same ▸ held, young⟩

/-- Only two changes of the time to live bring an entry back that was too old. -/
theorem Revived.of_spared {next : TimedCache} {mid later : List CacheEvent}
    (forward : ∀ span, .advance span ∈ mid ++ later → 0 ≤ span)
    (spared : next.SparesAll key next.now next.now (mid ++ later))
    (old : (next.run mid).cache.ttl ≤ (next.run mid).now - next.now)
    (finally' : ((next.run mid).run later).now - next.now < ((next.run mid).run later).cache.ttl) :
    Revived next key mid later := by
  have behind := (sparesAll_append.1 spared).2
  obtain ⟨gap, longer, given', rest, rfl, unchanged', held, young⟩ := revived_of_spared
    (fun span mem => forward span (List.mem_append_right _ mem)) behind old finally'
  have passed : (next.run mid).now ≤ ((next.run mid).run gap).now :=
    now_run fun span mem => forward span (by simp [mem])
  -- the entry was stored anew after it was set: the time to live has passed since then
  rcases next.storedAt_cases next.now mid with same | ⟨early, ttl, given, idle, rfl, some, unchanged, last⟩
  · rw [same] at held
    linarith
  · let renewed := (next.run early).step (.setTtl ttl given)
    have at_mid : next.run (early ++ .setTtl ttl given :: idle) = renewed.run idle := run_append ..
    have in_force : (renewed.run idle).cache.ttl = ttl := by
      rw [ttl_run unchanged]
      simp only [renewed, step_setTtl some, Cache.ttl_setTtl]
    have still : ∀ e ∈ idle ++ gap, ¬ e.Retimes := by
      intro e mem
      exact (List.mem_append.1 mem).elim (unchanged e) (unchanged' e)
    rw [List.append_assoc] at spared
    obtain ⟨-, first, behind⟩ := sparesAll_append.1 spared
    rw [storedAfter, if_neg (not_lt.2 some)] at behind
    rw [at_mid, in_force] at old
    rw [at_mid] at passed young
    rw [last, at_mid, in_force] at held
    rw [← run_append] at passed young held
    refine ⟨early, ttl, given, idle, rfl, gap, longer, given', rest, rfl, still, ?_, (first some).2, ?_, ?_,
      young, ?_⟩
    · change next.now < (next.run early).now
      linarith
    · change (renewed.run (idle ++ gap)).now - (next.run early).now < ttl
      linarith
    · linarith
    · intro a b split
      have reads : renewed.SparesAll key next.now (next.run early).now
          (a ++ .get key :: (b ++ .setTtl longer given' :: rest)) := by
        have same : a ++ .get key :: (b ++ .setTtl longer given' :: rest) =
            idle ++ (gap ++ .setTtl longer given' :: rest) := by
          rw [← List.append_assoc idle, split, List.append_assoc, List.cons_append]
        rw [same]
        exact behind
      have within : renewed.cache.ttl = ttl := (ttl_run unchanged).symm.trans in_force
      have before : (renewed.run a).now ≤ (renewed.run (idle ++ gap)).now := by
        rw [split, run_append]
        refine now_run fun span mem => forward span ?_
        have there : CacheEvent.advance span ∈ idle ++ gap := split ▸ List.mem_append_right _ mem
        simp only [List.mem_append, List.mem_cons] at there ⊢
        tauto
      have fresh := young_of_read reads (fun e mem => still e (split ▸ List.mem_append_left _ mem))
        (by rw [within]; linarith)
      rwa [within] at fresh

/-- In every run of a new cache that has room for some entries, and whose clock does not run backwards, let
names be set for a key, and no others after them.
- Once they have been in the cache for the time to live, a reader gets nothing for the key, unless two
changes of the time to live have brought them back.
- A reader gets these names only if they are younger than the time to live and all that happened since
spared them.
- If so, the reader gets them, unless as many other keys were set, or read and found, as there is room
for. -/
theorem final_unless_revived {ttl clock : Seconds} {size : Nat} (room : 0 < size) {cache : Cache}
    (created : Cache.create ttl size = .ok cache) (es : List CacheEvent)
    (forward : ∀ span, .advance span ∈ es → 0 ≤ span) :
    let start : TimedCache := ⟨clock, cache⟩
    let s := start.run es
    ∀ before key names since, es = before ++ .set key names :: since → (∀ other, .set key other ∉ since) →
      let next := (start.run before).step (.set key names)
      (∀ mid later, since = mid ++ later → (next.run mid).cache.ttl ≤ (next.run mid).now - next.now →
        (s.cache.get s.now key).1 ≠ none → Revived next key mid later) ∧
      (∀ e, (s.cache.get s.now key).1 = some e → e.names = names ∧ e.fetched = next.now ∧
        s.now - next.now < s.cache.ttl ∧ next.SparesAll key next.now next.now since) ∧
      (((next.usedKeys since).toFinset.erase key).card < size → s.now - next.now < s.cache.ttl →
        next.SparesAll key next.now next.now since → (s.cache.get s.now key).1 ≠ none) := by
  intro start s before key names since split unset next
  have orderly : start.Orderly := .create room created
  have forward_before : ∀ span, .advance span ∈ before → 0 ≤ span := by
    intro span mem
    exact forward span (split ▸ List.mem_append_left _ mem)
  have forward_since : ∀ span, .advance span ∈ since → 0 ≤ span := by
    intro span mem
    exact forward span (split ▸ List.mem_append_right _ (List.mem_cons_of_mem _ mem))
  have stored : (start.run before).Orderly := orderly.run forward_before
  have there : next.Orderly := stored.step (by rintro _ ⟨⟩)
  have ends : s = next.run since := by
    change start.run es = _
    rw [split, run_append, run_cons]
  -- what is read was in the cache all the time since it was set
  have read : ∀ e, (s.cache.get s.now key).1 = some e → e.names = names ∧ e.fetched = next.now ∧
      s.now - next.now < s.cache.ttl ∧ next.SparesAll key next.now next.now since := by
    intro e found
    obtain ⟨mem, rfl, young⟩ := Cache.get_some found
    rw [ends] at mem
    obtain ⟨x, old, same, names', fetched, spared⟩ := spared_of_mem there forward_since unset mem
    have new : x ∈ ((start.run before).step (.set e.key names)).cache.entries := old
    rw [step_set stored.room] at new
    rcases Cache.mem_store new with ⟨-, other⟩ | rfl
    · exact absurd same other
    · have since_set : next.now = e.fetched := fetched
      exact ⟨names'.symm, since_set.symm, since_set ▸ young, spared⟩
  refine ⟨?_, read, ?_⟩
  · rintro mid later rfl expired found
    obtain ⟨e, found⟩ := Option.ne_none_iff_exists'.1 found
    obtain ⟨-, -, young, spared⟩ := read e found
    rw [ends, run_append] at young
    exact .of_spared forward_since spared expired young
  · intro few young spared
    obtain ⟨x, rfl, -, fetched, recent⟩ := keeps_set stored key names
    have since_set : x.fetched = next.now := fetched
    have last : x.stored = next.now :=
      le_antisymm (there.cache.stored x recent.mem) (since_set ▸ there.cache.fetched x recent.mem)
    have fits : (([] ++ next.usedKeys since).toFinset.erase x.key).card < next.cache.size := by
      have sized : start.cache.size = size := congrArg Cache.size (Cache.eq_of_create created)
      rw [size_step, size_run, sized]
      exact few
    have young' : (next.run since).now - x.fetched < (next.run since).cache.ttl := by
      rw [since_set, ← ends]
      exact young
    have spared' : next.SparesAll x.key x.fetched x.stored since := by
      rw [since_set, last]
      exact spared
    obtain ⟨at', used, kept⟩ := recent_run recent there forward_since spared' young' fits
    rw [← ends] at kept young'
    have later : s.Orderly := orderly.run forward
    have held : s.now < at' + s.cache.ttl := by
      have before : x.fetched ≤ at' := later.cache.fetched _ kept.mem
      linarith
    have found := Cache.get_of_live later.cache.distinct kept.mem held young'
    exact Option.ne_none_iff_exists'.2 ⟨_, congrArg Prod.fst found⟩

/-- Names are set in a cache, stored anew under a shorter time to live when they are still young, and too
old for it a little later. Then the time to live is raised above their age, and they are read. -/
theorem final_unless_revived_raised :
    let start : TimedCache := ⟨1000, { ttl := 30, size := 10 }⟩
    let key := "k".toList
    let mid : List CacheEvent := [.advance 20, .setTtl 25 (.whole 25), .advance 5]
    let later : List CacheEvent := [.setTtl 60 (.whole 60)]
    let next := start.step (.set key ["a".toList])
    let s := start.run (.set key ["a".toList] :: (mid ++ later))
    (s.cache.get s.now key).1 ≠ none ∧ Revived next key mid later ∧
      next.SparesAll key next.now next.now (mid ++ later) := by
  intro start key mid later next s
  have created : Cache.create 30 (10 : Nat) = .ok start.cache := rfl
  have forward : ∀ span, .advance span ∈ .set key ["a".toList] :: (mid ++ later) → 0 ≤ span := by
    intro span mem
    simp [mid, later] at mem
    rcases mem with rfl | rfl <;> decide +kernel
  obtain ⟨final, read, -⟩ := @final_unless_revived 30 1000 10 (by decide) start.cache created _ forward
    [] key ["a".toList] (mid ++ later) rfl (by simp [mid, later])
  have expired : (next.run mid).cache.ttl ≤ (next.run mid).now - next.now := by decide +kernel
  have found : (s.cache.get s.now key).1 ≠ none := by decide +kernel
  obtain ⟨e, same⟩ := Option.ne_none_iff_exists'.1 found
  exact ⟨found, final mid later rfl expired found, (read e same).2.2.2⟩

/-- Names that have been in a cache for the time to live are read after all, once it is raised. A reader who
comes before that gets nothing, and nobody gets anything from then on. -/
theorem expired_names_read :
    let start : TimedCache := ⟨1000, { ttl := 30, size := 10 }⟩
    let key := "k".toList
    let next := start.step (.set key ["a".toList])
    let old := next.run [.advance 20, .setTtl 25 (.whole 25), .advance 5]
    let raised := old.step (.setTtl 60 (.whole 60))
    let asked := (old.step (.get key)).step (.setTtl 60 (.whole 60))
    old.cache.ttl ≤ old.now - next.now ∧
      (raised.cache.get raised.now key).1.map (fun e => (e.names, e.fetched)) = some (["a".toList], next.now) ∧
      (asked.cache.get asked.now key).1 = none := by
  decide +kernel

end

end Typeahead.TimedCache
