import Mathlib.Data.Finset.Card
import Mathlib.Data.List.Induction
import Typeahead.Proofs.Cache.Timed

/-!
What a cache gives is told by its history. Names that are read are those that were set last, as long as
they are young enough and the cache was not cleared since; and they are there to be read unless too many
other keys were used since, or a change of the time to live met them when they were too old.

- `run_lastSet`: whatever is in a cache was set last for its key.
- `Recent`: who was used or stored since an entry was, and so who does not make room before it does.
- `recent_run`: an entry stays as long as events spare it and few others are used.
- `get_by_history`: what a reader gets, and when.
-/

namespace Typeahead

namespace Cache

/-- An entry is there, and the others that were stored or used after it are among some keys. -/
structure Recent (c : Cache) (e : CacheEntry) (keys : List Text) : Prop where
  stands : ∃ before after, c.entries = before ++ e :: after ∧ ∀ x ∈ after, x.key ∈ keys
  used : ∀ x ∈ c.entries, x.key ≠ e.key → x.key ∈ keys ∨ x.used < e.used

section

variable {c d : Cache} {e : CacheEntry} {keys : List Text} {now ttl : Seconds}

theorem leastUsed?_le {es : List CacheEntry} (h : leastUsed? es = some e) : ∀ x ∈ es, e.used ≤ x.used := by
  induction es generalizing e with
  | nil => cases h
  | cons first rest ih =>
    simp only [leastUsed?] at h
    cases least : leastUsed? rest with
    | none =>
      simp only [least, Option.some.injEq] at h
      simp [leastUsed?_eq_none least, h]
    | some other =>
      have among := ih least
      simp only [least] at h
      intro x mem
      rcases List.mem_cons.1 mem with rfl | later
      · split at h
        · next less => cases h; exact less.le
        · cases h; exact Nat.le_refl _
      · have more := among x later
        split at h
        · cases h; exact more
        · next less => cases h; omega

namespace Recent

theorem mem (h : c.Recent e keys) : e ∈ c.entries := by
  obtain ⟨before, after, same, -⟩ := h.stands
  simp [same]

theorem mono (h : c.Recent e keys) {more : List Text} (subset : keys ⊆ more) : c.Recent e more := by
  obtain ⟨before, after, same, among⟩ := h.stands
  refine ⟨⟨before, after, same, fun x mem => subset (among x mem)⟩, fun x mem other => ?_⟩
  exact (h.used x mem other).imp_left (subset ·)

/-- Others may go. -/
theorem filter (h : c.Recent e keys) {p : CacheEntry → Bool} (spared : p e = true)
    (less : d.entries = c.entries.filter p) : d.Recent e keys := by
  obtain ⟨before, after, same, among⟩ := h.stands
  constructor
  · refine ⟨before.filter p, after.filter p, ?_, fun x mem => among x (List.mem_filter.1 mem).1⟩
    rw [less, same, List.filter_append, List.filter_cons_of_pos spared]
  · intro x mem other
    rw [less] at mem
    exact h.used x (List.mem_filter.1 mem).1 other

theorem erase (h : c.Recent e keys) {key : Text} (apart : key ≠ e.key) : (c.erase key).Recent e keys :=
  h.filter (p := fun x => x.key != key) (bne_iff_ne.2 apart.symm) rfl

/-- An entry comes to be that of a key among those. -/
theorem append (h : c.Recent e keys) (now fetched : Seconds) {key : Text} (names : List Text)
    (among : key ∈ keys) : (c.append now fetched key names).Recent e keys := by
  obtain ⟨before, after, same, later⟩ := h.stands
  constructor
  · refine ⟨before, after ++ [{ key, names, fetched, stored := now, used := c.uses }], ?_, ?_⟩
    · simp only [Cache.append, same, List.append_assoc, List.cons_append]
    · intro x mem
      rcases List.mem_append.1 mem with old | new
      · exact later x old
      · rwa [List.mem_singleton.1 new]
  · intro x mem other
    rcases List.mem_append.1 mem with old | new
    · exact h.used x old other
    · rw [List.mem_singleton.1 new]
      exact .inl among

/-- Another key is used that is among those. -/
theorem touch_other (h : c.Recent e keys) {key : Text} (apart : e.key ≠ key) (among : key ∈ keys) :
    (c.touch key).Recent e keys := by
  obtain ⟨before, after, same, later⟩ := h.stands
  let use := fun x : CacheEntry => if x.key = key then { x with used := c.uses } else x
  constructor
  · refine ⟨before.map use, after.map use, ?_, ?_⟩
    · simp only [Cache.touch, same, List.map_append, List.map_cons, if_neg apart, use]
    · intro x mem
      obtain ⟨y, there, rfl⟩ := List.mem_map.1 mem
      simp only [use]
      split <;> exact later y there
  · intro x mem other
    obtain ⟨y, there, rfl⟩ := List.mem_map.1 mem
    split
    · next used =>
      left
      rwa [used]
    · next unused =>
      rw [if_neg unused] at other
      exact h.used y there other

/-- The entry is used itself. -/
theorem touch_self (h : c.Recent e keys) (counted : ∀ x ∈ c.entries, x.used < c.uses) :
    (c.touch e.key).Recent { e with used := c.uses } keys := by
  obtain ⟨before, after, same, later⟩ := h.stands
  let use := fun x : CacheEntry => if x.key = e.key then { x with used := c.uses } else x
  constructor
  · refine ⟨before.map use, after.map use, ?_, ?_⟩
    · simp only [Cache.touch, same, List.map_append, List.map_cons, if_true, use]
    · intro x mem
      obtain ⟨y, there, rfl⟩ := List.mem_map.1 mem
      simp only [use]
      split <;> exact later y there
  · intro x mem other
    obtain ⟨y, there, rfl⟩ := List.mem_map.1 mem
    split
    · next used =>
      rw [if_pos used] at other
      exact absurd used other
    · exact .inr (counted y there)

/-- As long as the keys are fewer than there is room for, it is another entry that makes room for one of
them. -/
theorem makeRoom (h : c.Recent e keys) (distinct : c.Distinct) {key : Text} (apart : key ≠ e.key)
    (missing : ∀ x ∈ c.entries, x.key ≠ key) (among : key ∈ keys)
    (few : (keys.toFinset.erase e.key).card < c.size) : c.makeRoom.Recent e keys := by
  obtain same | ⟨least, found, full, dropped⟩ := c.makeRoom_cases
  · rwa [same]
  · by_cases self : least.key = e.key
    · -- all others would have been used since, and the new key makes one more
      obtain rfl : least = e := List.inj_on_of_nodup_map distinct (leastUsed?_mem found) h.mem self
      have listed : ((c.entries.map (·.key)).toFinset.erase least.key).card = c.entries.length - 1 := by
        rw [Finset.card_erase_of_mem, List.toFinset_card_of_nodup distinct, List.length_map]
        exact List.mem_toFinset.2 (List.mem_map_of_mem h.mem)
      have new : key ∉ (c.entries.map (·.key)).toFinset.erase least.key := by
        intro mem
        obtain ⟨x, there, same⟩ := List.mem_map.1 (List.mem_toFinset.1 (Finset.mem_of_mem_erase mem))
        exact missing x there same
      have since : insert key ((c.entries.map (·.key)).toFinset.erase least.key) ⊆
          keys.toFinset.erase least.key := by
        intro k mem
        rcases Finset.mem_insert.1 mem with rfl | old
        · exact Finset.mem_erase.2 ⟨apart, List.mem_toFinset.2 among⟩
        · obtain ⟨other, mem⟩ := Finset.mem_erase.1 old
          obtain ⟨x, there, rfl⟩ := List.mem_map.1 (List.mem_toFinset.1 mem)
          have later := leastUsed?_le found x there
          refine Finset.mem_erase.2 ⟨other, List.mem_toFinset.2 ?_⟩
          exact (h.used x there other).resolve_right (Nat.not_lt.2 later)
      have counted := Finset.card_le_card since
      rw [Finset.card_insert_of_notMem new, listed] at counted
      have some : 0 < c.entries.length := List.length_pos_of_mem h.mem
      omega
    · rw [dropped]
      exact h.erase self

/-- Names are stored for another key that is among those. -/
theorem store (h : c.Recent e keys) (distinct : c.Distinct) {fetched : Seconds} {key : Text}
    (names : List Text) (live : c.keeps now e = true) (apart : key ≠ e.key) (among : key ∈ keys)
    (few : (keys.toFinset.erase e.key).card < c.size) :
    (c.store now fetched key names).Recent e keys := by
  have still : (c.expire now).Recent e keys := h.filter live rfl
  obtain dropped | ⟨missing, roomy⟩ := c.store_cases now fetched key names
  · rw [dropped]
    exact (still.erase apart).append now fetched names among
  · rw [roomy]
    have room := still.makeRoom (distinct.sublist List.filter_sublist) apart missing among few
    exact room.append now fetched names among

/-- Entries are stored anew in the order in which they were: the last use of each is forgotten. -/
theorem setTtl (h : c.Recent e keys) (orderly : c.Orderly now) (live : c.keeps now e = true)
    (young : now - e.fetched < ttl) :
    ∃ used, (c.setTtl now ttl).Recent { e with stored := now, used } keys := by
  obtain ⟨kept, same, changed⟩ := setTtl_cases orderly ttl
  obtain ⟨before, after, split, later⟩ := h.stands
  let p := fun x : CacheEntry => c.keeps now x && now - x.fetched < ttl
  have spared : p e = true := by simp [p, live, young]
  have parts : kept = before.filter p ++ e :: after.filter p := by
    rw [same, split, List.filter_append, List.filter_cons_of_pos spared]
  have entries : (c.setTtl now ttl).entries = _ := congrArg Cache.entries changed
  rw [parts, renewed_append, renewed] at entries
  refine ⟨_, ⟨_, _, entries, ?_⟩, ?_⟩
  · intro x mem
    obtain ⟨-, -, -, y, there, key, -⟩ := mem_renewed mem
    rw [← key]
    exact later y (List.mem_filter.1 there).1
  · intro x mem other
    rw [entries] at mem
    rcases List.mem_append.1 mem with old | rest
    · exact .inr (mem_renewed old).2.1
    · rcases List.mem_cons.1 rest with rfl | new
      · exact absurd rfl other
      · obtain ⟨-, -, -, y, there, key, -⟩ := mem_renewed new
        rw [← key]
        exact .inl (later y (List.mem_filter.1 there).1)

end Recent

end

end Cache

/-- Whether an event puts a time to live in force: a negative one is refused. -/
def CacheEvent.Retimes (e : CacheEvent) : Prop := ∃ ttl given, e = .setTtl ttl given ∧ 0 ≤ ttl

namespace TimedCache

/-- The key that an event uses: one that is set, or one that is read and found. -/
def used? (s : TimedCache) : CacheEvent → Option Text
  | .set key _ => some key
  | .get key => (s.cache.get s.now key).1.map fun _ => key
  | .count | .clear | .setTtl _ _ | .advance _ => none

/-- The keys that events use, one after the other. -/
def usedKeys (s : TimedCache) : List CacheEvent → List Text
  | [] => []
  | e :: es => (s.used? e).toList ++ (s.step e).usedKeys es

/-- The cache has an entry with these names, and only some keys were used since it was set. -/
def Keeps (s : TimedCache) (key : Text) (names : List Text) (fetched : Seconds) (keys : List Text) : Prop :=
  ∃ e : CacheEntry, e.key = key ∧ e.names = names ∧ e.fetched = fetched ∧ s.cache.Recent e keys

/-- An event does not drop the entry of a key, fetched and last stored at these points of time, unless that
makes room for another: it stores no other names for the key, a reader of the key does not find the entry
too old, and a change of the time to live finds it stored less than the old one ago and fetched less than
the new one ago. -/
def Spares (s : TimedCache) (key : Text) (fetched stored : Seconds) : CacheEvent → Prop
  | .set other _ => other ≠ key
  | .get other => other = key → s.now < stored + s.cache.ttl → s.now - fetched < s.cache.ttl
  | .setTtl ttl _ => 0 ≤ ttl → s.now < stored + s.cache.ttl ∧ s.now - fetched < ttl
  | .clear => False
  | .count | .advance _ => True

/-- The point of time at which an entry was last stored, after an event that spares it. -/
def storedAfter (s : TimedCache) (stored : Seconds) : CacheEvent → Seconds
  | .setTtl ttl _ => if ttl < 0 then stored else s.now
  | .set _ _ | .get _ | .count | .clear | .advance _ => stored

/-- Events spare an entry, one after the other. -/
def SparesAll (s : TimedCache) (key : Text) (fetched stored : Seconds) : List CacheEvent → Prop
  | [] => True
  | e :: es => s.Spares key fetched stored e ∧ (s.step e).SparesAll key fetched (s.storedAfter stored e) es

section

variable {start s : TimedCache} {es : List CacheEvent} {key : Text} {names : List Text} {fetched : Seconds}
  {keys : List Text}

theorem ttl_step (s : TimedCache) {e : CacheEvent} (unchanged : ¬ e.Retimes) :
    (s.step e).cache.ttl = s.cache.ttl := by
  cases e with
  | set key names =>
    change ((s.cache.set s.now key names).toOption.getD s.cache).ttl = _
    unfold Cache.set
    split
    · rfl
    · exact s.cache.ttl_store s.now s.now key names
  | get key =>
    change (s.cache.get s.now key).2.ttl = _
    rcases s.cache.get_cases s.now key with same | used | dropped
    · rw [same]
    · rw [used]
      rfl
    · rw [dropped]
      rfl
  | count => rfl
  | clear => rfl
  | setTtl ttl given =>
    have negative : ttl < 0 := not_le.1 fun some => unchanged ⟨ttl, given, rfl, some⟩
    rw [(step_setTtl_of_neg negative given).2]
  | advance span => rfl

theorem now_step (s : TimedCache) {e : CacheEvent} (forward : ∀ span, e = .advance span → 0 ≤ span) :
    s.now ≤ (s.step e).now := by
  cases e with
  | advance span => exact le_add_of_nonneg_right (forward span rfl)
  | set | get | count | clear | setTtl => exact le_refl _

/-- What is young at the end, and was at each change of the time to live, was so from the beginning. -/
theorem young_of_run (forward : ∀ span, .advance span ∈ es → 0 ≤ span)
    (changes : ∀ earlier ttl given later, es = earlier ++ .setTtl ttl given :: later → 0 ≤ ttl →
      (s.run earlier).now - fetched < (s.run earlier).cache.ttl)
    (finally' : (s.run es).now - fetched < (s.run es).cache.ttl) : s.now - fetched < s.cache.ttl := by
  induction es generalizing s with
  | nil => exact finally'
  | cons e es ih =>
    have next : (s.step e).now - fetched < (s.step e).cache.ttl := by
      refine ih (fun span later => forward span (List.mem_cons_of_mem e later)) ?_ finally'
      intro earlier ttl given later same some
      exact changes (e :: earlier) ttl given later (same ▸ rfl) some
    by_cases change : e.Retimes
    · obtain ⟨ttl, given, rfl, some⟩ := change
      exact changes [] ttl given es rfl some
    · rw [s.ttl_step change] at next
      have passed := s.now_step fun span same => forward span (same ▸ List.mem_cons_self)
      linarith

/-- An entry whose time is not over stays as long as it is spared and few keys were used since it was set. -/
theorem recent_step {x : CacheEntry} (h : s.cache.Recent x keys) (orderly : s.Orderly)
    (held : s.now < x.stored + s.cache.ttl) {e : CacheEvent} (spared : s.Spares x.key x.fetched x.stored e)
    (few : ((keys ++ (s.used? e).toList).toFinset.erase x.key).card < s.cache.size) :
    ∃ used, (s.step e).cache.Recent { x with stored := s.storedAfter x.stored e, used }
      (keys ++ (s.used? e).toList) := by
  have more := h.mono (List.subset_append_left keys (s.used? e).toList)
  have live : s.cache.keeps s.now x = true := decide_eq_true held
  cases e with
  | set other names =>
    rw [step_set orderly.room]
    refine ⟨x.used, more.store orderly.cache.distinct names live spared ?_ few⟩
    simp [used?]
  | get other =>
    change ∃ used, (s.cache.get s.now other).2.Recent { x with used } _
    by_cases self : other = x.key
    · subst self
      have found := Cache.get_of_live orderly.cache.distinct h.mem held (spared rfl held)
      refine ⟨s.cache.uses, ?_⟩
      rw [found]
      exact more.touch_self orderly.cache.used
    · refine ⟨x.used, ?_⟩
      simp only [used?, Cache.get] at more ⊢
      split at more
      · exact more
      · split at more
        · next fresh =>
          rw [if_pos fresh]
          exact more.touch_other (Ne.symm self) (by simp)
        · next stale =>
          rw [if_neg stale]
          exact more.erase self
  | count => exact ⟨x.used, more.filter live rfl⟩
  | clear => cases spared
  | setTtl ttl given =>
    by_cases negative : ttl < 0
    · rw [(step_setTtl_of_neg negative given).2, storedAfter, if_pos negative]
      exact ⟨x.used, more⟩
    · have some := not_lt.1 negative
      rw [step_setTtl some, storedAfter, if_neg negative]
      exact more.setTtl orderly.cache live (spared some).2
  | advance span => exact ⟨x.used, more⟩

theorem storedAfter_of_not_retimes {stored : Seconds} {e : CacheEvent} (unchanged : ¬ e.Retimes) :
    s.storedAfter stored e = stored := by
  cases e with
  | setTtl ttl given => exact if_pos (not_le.1 fun some => unchanged ⟨ttl, given, rfl, some⟩)
  | set | get | count | clear | advance => rfl

/-- What is spared and young at the end was stored less than the time to live ago from the beginning. -/
theorem held_of_run {stored : Seconds} (forward : ∀ span, .advance span ∈ es → 0 ≤ span)
    (spared : s.SparesAll key fetched stored es) (fetched_stored : fetched ≤ stored) (past : stored ≤ s.now)
    (finally' : (s.run es).now - fetched < (s.run es).cache.ttl) : s.now < stored + s.cache.ttl := by
  induction es generalizing s stored with
  | nil =>
    have young : s.now - fetched < s.cache.ttl := finally'
    linarith
  | cons e es ih =>
    have passed := s.now_step fun span same => forward span (same ▸ List.mem_cons_self)
    have later : ∀ span, .advance span ∈ es → 0 ≤ span :=
      fun span later => forward span (List.mem_cons_of_mem e later)
    by_cases change : e.Retimes
    · obtain ⟨ttl, given, rfl, some⟩ := change
      exact (spared.1 some).1
    · have spared := spared.2
      rw [storedAfter_of_not_retimes change] at spared
      have next := ih later spared fetched_stored (past.trans passed) finally'
      rw [s.ttl_step change] at next
      linarith

/-- An entry stays in the course of a run that spares it, in which few keys are used, and at the end of
which it is young. -/
theorem recent_run {x : CacheEntry} (h : s.cache.Recent x keys) (orderly : s.Orderly)
    (forward : ∀ span, .advance span ∈ es → 0 ≤ span)
    (spared : s.SparesAll x.key x.fetched x.stored es)
    (finally' : (s.run es).now - x.fetched < (s.run es).cache.ttl)
    (few : ((keys ++ s.usedKeys es).toFinset.erase x.key).card < s.cache.size) :
    ∃ stored used, (s.run es).cache.Recent { x with stored, used } (keys ++ s.usedKeys es) := by
  induction es generalizing s keys x with
  | nil =>
    rw [usedKeys, List.append_nil]
    exact ⟨x.stored, x.used, h⟩
  | cons e es ih =>
    have held := held_of_run forward spared (orderly.cache.fetched x h.mem) (orderly.cache.stored x h.mem)
      finally'
    rw [usedKeys, ← List.append_assoc] at few ⊢
    obtain ⟨used, next⟩ : ∃ used, (s.step e).cache.Recent { x with stored := s.storedAfter x.stored e, used }
        (keys ++ (s.used? e).toList) := by
      refine recent_step h orderly held spared.1 ?_
      refine lt_of_le_of_lt (Finset.card_le_card (Finset.erase_subset_erase _ ?_)) few
      intro k mem
      rw [List.mem_toFinset] at mem ⊢
      exact List.mem_append_left _ mem
    refine ih (x := { x with stored := s.storedAfter x.stored e, used }) next
      (orderly.step fun span same => forward span (same ▸ List.mem_cons_self)) ?_ spared.2 finally' ?_
    · intro span later
      exact forward span (List.mem_cons_of_mem e later)
    · rwa [size_step]

/-- Events spare an entry that is young at the end, and was at each change of the time to live. -/
theorem sparesAll_of_young {stored : Seconds} (forward : ∀ span, .advance span ∈ es → 0 ≤ span)
    (unset : ∀ other, .set key other ∉ es) (uncleared : .clear ∉ es)
    (changes : ∀ earlier ttl given later, es = earlier ++ .setTtl ttl given :: later → 0 ≤ ttl →
      (s.run earlier).now - fetched < (s.run earlier).cache.ttl ∧ (s.run earlier).now - fetched < ttl)
    (finally' : (s.run es).now - fetched < (s.run es).cache.ttl) (fetched_stored : fetched ≤ stored)
    (past : stored ≤ s.now) : s.SparesAll key fetched stored es := by
  induction es generalizing s stored with
  | nil => trivial
  | cons e es ih =>
    have young : s.now - fetched < s.cache.ttl :=
      young_of_run forward (fun earlier ttl given later same some =>
        (changes earlier ttl given later same some).1) finally'
    have passed := s.now_step fun span same => forward span (same ▸ List.mem_cons_self)
    constructor
    · cases e with
      | set other names => exact fun same => unset names (same ▸ List.mem_cons_self)
      | get other => exact fun _ _ => young
      | count => trivial
      | clear => exact uncleared List.mem_cons_self
      | setTtl ttl given => exact fun some => ⟨by linarith, (changes [] ttl given es rfl some).2⟩
      | advance span => trivial
    · have stored_past : fetched ≤ s.storedAfter stored e ∧ s.storedAfter stored e ≤ s.now := by
        cases e with
        | setTtl ttl given =>
          simp only [storedAfter]
          split
          · exact ⟨fetched_stored, past⟩
          · exact ⟨fetched_stored.trans past, le_refl _⟩
        | set | get | count | clear | advance => exact ⟨fetched_stored, past⟩
      refine ih ?_ ?_ ?_ ?_ finally' stored_past.1 (stored_past.2.trans passed)
      · intro span later
        exact forward span (List.mem_cons_of_mem e later)
      · intro other later
        exact unset other (List.mem_cons_of_mem e later)
      · intro later
        exact uncleared (List.mem_cons_of_mem e later)
      · intro earlier ttl given later same some
        exact changes (e :: earlier) ttl given later (same ▸ rfl) some

/-- An entry stays in the course of a run in which few keys are used. -/
theorem Keeps.run (h : s.Keeps key names fetched keys) (orderly : s.Orderly)
    (forward : ∀ span, .advance span ∈ es → 0 ≤ span) (unset : ∀ other, .set key other ∉ es)
    (uncleared : .clear ∉ es)
    (changes : ∀ earlier ttl given later, es = earlier ++ .setTtl ttl given :: later → 0 ≤ ttl →
      (s.run earlier).now - fetched < (s.run earlier).cache.ttl ∧ (s.run earlier).now - fetched < ttl)
    (finally' : (s.run es).now - fetched < (s.run es).cache.ttl)
    (few : ((keys ++ s.usedKeys es).toFinset.erase key).card < s.cache.size) :
    (s.run es).Keeps key names fetched (keys ++ s.usedKeys es) := by
  obtain ⟨x, rfl, rfl, rfl, recent⟩ := h
  have spared := sparesAll_of_young forward unset uncleared changes finally'
    (orderly.cache.fetched x recent.mem) (orderly.cache.stored x recent.mem)
  obtain ⟨stored, used, still⟩ := recent_run recent orderly forward spared finally' few
  exact ⟨{ x with stored, used }, rfl, rfl, rfl, still⟩

/-- An entry that has just been set is there, and no other was used since. -/
theorem keeps_set (orderly : s.Orderly) (key : Text) (names : List Text) :
    (s.step (.set key names)).Keeps key names s.now [] := by
  rw [step_set orderly.room]
  obtain ⟨entries, same⟩ : ∃ entries, (s.cache.store s.now s.now key names).entries =
      entries ++ [{ key, names, fetched := s.now, stored := s.now, used := s.cache.uses }] := by
    obtain dropped | ⟨-, roomy⟩ := s.cache.store_cases s.now s.now key names
    · rw [dropped]
      exact ⟨_, rfl⟩
    · rw [roomy, Cache.append, Cache.uses_makeRoom]
      exact ⟨_, rfl⟩
  refine ⟨_, rfl, rfl, rfl, ⟨entries, [], same, by simp⟩, ?_⟩
  intro x mem other
  rcases Cache.mem_store mem with ⟨old, -⟩ | rfl
  · exact .inr (orderly.cache.used x old)
  · exact absurd rfl other

/-- An entry that is there and young is read. -/
theorem Keeps.get (h : s.Keeps key names fetched keys) (orderly : s.Orderly)
    (young : s.now - fetched < s.cache.ttl) :
    ∃ e, (s.cache.get s.now key).1 = some e ∧ e.key = key ∧ e.names = names ∧ e.fetched = fetched := by
  obtain ⟨e, rfl, rfl, rfl, recent⟩ := h
  have stored : s.now < e.stored + s.cache.ttl := by
    have before := orderly.cache.fetched e recent.mem
    linarith
  have found := Cache.get_of_live orderly.cache.distinct recent.mem stored young
  exact ⟨e, congrArg Prod.fst found, rfl, rfl, rfl⟩

end

end TimedCache

end Typeahead
