import Mathlib.Data.List.Pairwise
import Typeahead.Proofs.Cache.Expiry

/-!
Who makes room in a full cache. The entries stand in the order in which their keys were last set, and they
are told apart by their last uses: an entry is used where its key is set, or read and found, and a change of
the time to live uses all of them at once, in the order in which they were last set. Where another key is
set in a full cache, the one whose last use lies back farthest goes.

Full means that as many entries are held as there is room for, and an entry is held as long as it was last
stored less than the time to live ago. After a change of the time to live that can be longer than a reader
gets it; as long as there was none, all that are held are there to be read.

- `ranked_step`: each event keeps the entries in the order that the history tells.
- `Ranked.store_drops_iff`: who makes room.
- `set_evicts_iff`: the same of every run, told by what happened before.
-/

namespace Typeahead

namespace Cache

/-- A key comes before another where keys were last set and used at these times: its last use was earlier, or
it was the same and the key was set earlier. -/
def Before (set use : Text → Nat) (key other : Text) : Prop :=
  use key < use other ∨ use key = use other ∧ set key < set other

/-- The entries stand in the order in which their keys were last set, and they count their last uses as they
came. -/
structure Ranked (c : Cache) (set use : Text → Nat) : Prop where
  order : c.entries.Pairwise fun x y => set x.key < set y.key
  used : ∀ x ∈ c.entries, ∀ y ∈ c.entries, Before set use x.key y.key → x.used < y.used

section

variable {c d : Cache} {now ttl fetched : Seconds} {key : Text} {names : List Text} {x y : CacheEntry}
  {set use set' use' : Text → Nat} {n : Nat}

/-- What a reader of a key gets: its entry, unless it was stored or fetched too long ago. -/
theorem get_eq_some_iff (h : c.Distinct) : (c.get now key).1 = some x ↔
    x ∈ c.entries ∧ x.key = key ∧ c.keeps now x = true ∧ c.fresh now x = true := by
  constructor
  · intro found
    unfold get at found
    split at found
    · cases found
    · next e held =>
      split at found
      · next fresh =>
        cases found
        have keeps := List.find?_some held
        rw [Bool.and_eq_true] at keeps
        exact ⟨find?_mem held, find?_key held, keeps.2, fresh⟩
      · cases found
  · rintro ⟨mem, rfl, keeps, fresh⟩
    exact congrArg Prod.fst (get_of_live h mem (of_decide_eq_true keeps) (of_decide_eq_true fresh))

theorem renewed_mem (now : Seconds) (uses : Nat) {es : List CacheEntry} (mem : x ∈ es) :
    ∃ used, { x with stored := now, used } ∈ renewed now uses es := by
  induction es generalizing uses with
  | nil => cases mem
  | cons e es ih =>
    rcases List.mem_cons.1 mem with rfl | later
    · exact ⟨uses, List.mem_cons_self⟩
    · obtain ⟨used, there⟩ := ih (uses + 1) later
      exact ⟨used, List.mem_cons_of_mem _ there⟩

theorem isSome_find? : (c.find? now key).isSome = true ↔ ∃ x ∈ (c.expire now).entries, x.key = key := by
  simp only [find?, List.find?_isSome, expire, List.mem_filter, Bool.and_eq_true, decide_eq_true_eq]
  constructor
  · rintro ⟨x, mem, same, keeps⟩
    exact ⟨x, ⟨mem, keeps⟩, same⟩
  · rintro ⟨x, ⟨mem, keeps⟩, same⟩
    exact ⟨x, mem, same, keeps⟩

namespace Ranked

theorem sublist (h : c.Ranked set use) (less : d.entries.Sublist c.entries) : d.Ranked set use :=
  ⟨h.order.sublist less, fun x mem y mem' => h.used x (less.subset mem) y (less.subset mem')⟩

/-- Two entries are told apart by when their keys were last used and set. -/
theorem apart (h : c.Ranked set use) (mem : x ∈ c.entries) (mem' : y ∈ c.entries) (other : x ≠ y) :
    Before set use x.key y.key ∨ Before set use y.key x.key := by
  have symm : Std.Symm fun x y : CacheEntry => set x.key ≠ set y.key := ⟨fun _ _ ne => ne.symm⟩
  have sets : set x.key ≠ set y.key := (h.order.imp Nat.ne_of_lt).forall mem mem' other
  unfold Before
  omega

/-- A key is read and found after everything else. -/
theorem touch (h : c.Ranked set use) (counted : ∀ x ∈ c.entries, x.used < c.uses)
    (latest : ∀ k, use k ≤ n) (use_eq : ∀ k, use' k = if key = k then n + 1 else use k) :
    (c.touch key).Ranked set use' := by
  have same (e : CacheEntry) : (if e.key = key then { e with used := c.uses } else e).key = e.key := by
    split <;> rfl
  constructor
  · simp only [Cache.touch, List.pairwise_map, same]
    exact h.order
  · intro x mem y mem' before
    obtain ⟨x, old, rfl⟩ := List.mem_map.1 mem
    obtain ⟨y, old', rfl⟩ := List.mem_map.1 mem'
    rw [same, same, Before, use_eq, use_eq] at before
    have bound := latest x.key
    have bound' := latest y.key
    by_cases first : x.key = key
    · by_cases second : y.key = key
      · -- no entry comes before itself
        rw [if_pos first.symm, if_pos second.symm, first, second] at before
        omega
      · rw [if_pos first.symm, if_neg (Ne.symm second)] at before
        omega
    · rw [if_neg first]
      rw [if_neg (Ne.symm first)] at before
      by_cases second : y.key = key
      · rw [if_pos second]
        exact counted x old
      · rw [if_neg second]
        rw [if_neg (Ne.symm second)] at before
        exact h.used x old y old' before

/-- A key is set after everything else. -/
theorem append (h : c.Ranked set use) (counted : ∀ x ∈ c.entries, x.used < c.uses)
    (missing : ∀ x ∈ c.entries, x.key ≠ key) (latest : ∀ k, set k ≤ n ∧ use k ≤ n)
    (set_eq : ∀ k, set' k = if key = k then n + 1 else set k)
    (use_eq : ∀ k, use' k = if key = k then n + 1 else use k) :
    (c.append now fetched key names).Ranked set' use' := by
  have old_set (x) (mem : x ∈ c.entries) : set' x.key = set x.key := by
    rw [set_eq, if_neg (missing x mem).symm]
  have old_use (x) (mem : x ∈ c.entries) : use' x.key = use x.key := by
    rw [use_eq, if_neg (missing x mem).symm]
  have new : set' key = n + 1 ∧ use' key = n + 1 := by
    rw [set_eq, use_eq, if_pos rfl, if_pos rfl]
    exact ⟨rfl, rfl⟩
  constructor
  · refine List.pairwise_append.2 ⟨?_, List.pairwise_singleton _ _, fun x mem y last => ?_⟩
    · refine h.order.imp_of_mem fun mem mem' less => ?_
      rwa [old_set _ mem, old_set _ mem']
    · rw [List.mem_singleton.1 last, old_set x mem]
      change set x.key < set' key
      rw [new.1]
      exact Nat.lt_succ_of_le (latest x.key).1
  · intro x mem y mem' before
    rcases List.mem_append.1 mem with old | last
    · rcases List.mem_append.1 mem' with old' | last'
      · rw [Before, old_set x old, old_set y old', old_use x old, old_use y old'] at before
        exact h.used x old y old' before
      · rw [List.mem_singleton.1 last']
        exact counted x old
    · obtain rfl := List.mem_singleton.1 last
      rcases List.mem_append.1 mem' with old' | last'
      · have bound := latest y.key
        rw [Before, new.1, new.2, old_set y old', old_use y old'] at before
        omega
      · obtain rfl := List.mem_singleton.1 last'
        rw [Before] at before
        exact absurd before (by simp)

/-- Names are stored for a key after everything else. -/
theorem store (h : c.Ranked set use) (counted : ∀ x ∈ c.entries, x.used < c.uses)
    (latest : ∀ k, set k ≤ n ∧ use k ≤ n) (set_eq : ∀ k, set' k = if key = k then n + 1 else set k)
    (use_eq : ∀ k, use' k = if key = k then n + 1 else use k) :
    (c.store now fetched key names).Ranked set' use' := by
  have put {d : Cache} (less : d.entries.Sublist c.entries) (uses : d.uses = c.uses)
      (missing : ∀ x ∈ d.entries, x.key ≠ key) : (d.append now fetched key names).Ranked set' use' :=
    (h.sublist less).append (fun x mem => uses ▸ counted x (less.subset mem)) missing latest set_eq use_eq
  have live : (c.expire now).entries.Sublist c.entries := List.filter_sublist
  obtain dropped | ⟨missing, roomy⟩ := c.store_cases now fetched key names
  · rw [dropped]
    exact put (List.filter_sublist.trans live) rfl fun x mem => bne_iff_ne.1 (List.mem_filter.1 mem).2
  · rw [roomy]
    have fewer := (c.expire now).entries_makeRoom
    exact put (fewer.trans live) (Cache.uses_makeRoom _) fun x mem => missing x (fewer.subset mem)

/-- All entries are used at once, in the order in which they stand. -/
theorem renewed {now : Seconds} {uses : Nat} {es : List CacheEntry}
    (order : es.Pairwise fun x y => set x.key < set y.key) (same : ∀ k k', use k = use k') (ttl : Seconds)
    (size total : Nat) : (⟨ttl, size, renewed now uses es, total⟩ : Cache).Ranked set use := by
  have earlier (x y : CacheEntry) : Before set use x.key y.key → set x.key < set y.key := by
    have equal := same x.key y.key
    unfold Before
    omega
  induction es generalizing uses with
  | nil => exact ⟨.nil, nofun⟩
  | cons e es ih =>
    obtain ⟨first, rest⟩ := List.pairwise_cons.1 order
    have later : (⟨ttl, size, Cache.renewed now (uses + 1) es, total⟩ : Cache).Ranked set use := ih rest
    have behind (y) (mem : y ∈ Cache.renewed now (uses + 1) es) : set e.key < set y.key ∧ uses < y.used := by
      obtain ⟨used, -, -, z, there, key, -⟩ := mem_renewed mem
      rw [← key]
      exact ⟨first z there, used⟩
    constructor
    · exact List.pairwise_cons.2 ⟨fun y mem => (behind y mem).1, later.order⟩
    · intro x mem y mem' before
      rcases List.mem_cons.1 mem with rfl | old
      · rcases List.mem_cons.1 mem' with rfl | old'
        · exact absurd (earlier _ _ before) (Nat.lt_irrefl _)
        · exact (behind y old').2
      · rcases List.mem_cons.1 mem' with rfl | old'
        · exact absurd (earlier _ _ before) (Nat.lt_asymm (behind x old).1)
        · exact later.used x old y old' before

/-- An entry makes room for a new key exactly where the cache is full of entries of other keys that come
after it. -/
theorem store_drops_iff (h : c.Ranked set use) (orderly : c.Orderly now) (mem : x ∈ c.entries)
    (held : c.keeps now x = true) (apart : x.key ≠ key) :
    x ∉ (c.store now fetched key names).entries ↔
      c.find? now key = none ∧ c.count now = c.size ∧
        ∀ other, other ≠ x.key → (c.find? now other).isSome = true → Before set use x.key other := by
  have there : x ∈ (c.expire now).entries := List.mem_filter.2 ⟨mem, held⟩
  have ranked : (c.expire now).Ranked set use := h.sublist List.filter_sublist
  have distinct : (c.expire now).Distinct := orderly.distinct.sublist List.filter_sublist
  -- what is stored is no entry of another key
  have mem_append {d : Cache} : x ∈ (d.append now fetched key names).entries ↔ x ∈ d.entries := by
    refine List.mem_append.trans (or_iff_left fun last => apart ?_)
    rw [List.mem_singleton.1 last]
  simp only [Cache.store]
  split
  · next replaced =>
    obtain ⟨y, mem', same⟩ := List.any_eq_true.1 replaced
    have found : (c.find? now key).isSome = true := isSome_find?.2 ⟨y, mem', of_decide_eq_true same⟩
    have stays : x ∈ ((c.expire now).erase key).entries := List.mem_filter.2 ⟨there, bne_iff_ne.2 apart⟩
    rw [mem_append]
    refine iff_of_false (not_not.2 stays) ?_
    rintro ⟨missing, -⟩
    simp [missing] at found
  · next new =>
    have missing : c.find? now key = none := by
      refine Option.not_isSome_iff_eq_none.1 fun found => new ?_
      obtain ⟨y, mem', same⟩ := isSome_find?.1 found
      exact List.any_eq_true.2 ⟨y, mem', decide_eq_true same⟩
    rw [mem_append, makeRoom]
    split
    · next room =>
      refine iff_of_false (not_not.2 there) ?_
      rintro ⟨-, full, -⟩
      exact Nat.ne_of_lt room full
    · next full =>
      have most : (c.expire now).entries.length ≤ c.size := (List.length_filter_le ..).trans orderly.bounded
      have count : c.count now = c.size := Nat.le_antisymm most (Nat.not_lt.1 full)
      cases least : leastUsed? (c.expire now).entries with
      | none =>
        rw [leastUsed?_eq_none least] at there
        cases there
      | some e =>
        have among := leastUsed?_mem least
        have gone : x ∉ ((c.expire now).erase e.key).entries ↔ x.key = e.key := by
          simp [Cache.erase, there]
        simp only [gone, missing, count, true_and]
        constructor
        · intro same other ne found
          obtain ⟨y, mem', rfl⟩ := isSome_find?.1 found
          obtain rfl : x = e := List.inj_on_of_nodup_map distinct there among same
          refine (ranked.apart there mem' fun same => ne (same ▸ rfl)).resolve_right fun before => ?_
          exact Nat.not_lt.2 (leastUsed?_le least y mem') (ranked.used y mem' x there before)
        · intro first
          by_contra ne
          have before := first e.key (Ne.symm ne) (isSome_find?.2 ⟨e, among, rfl⟩)
          exact Nat.not_lt.2 (leastUsed?_le least x there) (ranked.used x there e among before)

end Ranked

/-- An entry is read after names were stored for another key as long as it is there, and no other comes up. -/
theorem get_store (orderly : c.Orderly now) (alive : (c.get now x.key).1 = some x) (apart : x.key ≠ key) :
    ((c.store now fetched key names).get now x.key).1 =
      if x ∈ (c.store now fetched key names).entries then some x else none := by
  obtain ⟨mem, -, keeps, fresh⟩ := (get_eq_some_iff orderly.distinct).1 alive
  have distinct := orderly.distinct.store now fetched key names
  have same_ttl := c.ttl_store now fetched key names
  split
  · next there =>
    refine (get_eq_some_iff distinct).2 ⟨there, rfl, ?_, ?_⟩
    · rwa [Cache.keeps, same_ttl]
    · rwa [Cache.fresh, same_ttl]
  · next gone =>
    refine Option.eq_none_iff_forall_ne_some.2 fun y found => gone ?_
    obtain ⟨there, same, -⟩ := (get_eq_some_iff distinct).1 found
    rcases mem_store there with ⟨old, -⟩ | rfl
    · obtain rfl : y = x := List.inj_on_of_nodup_map orderly.distinct old mem same
      exact there
    · exact absurd same.symm apart

/-- Whoever reads a key in the moment in which the time to live is set to what it is gets the same names. -/
theorem get_setTtl_self (orderly : c.Orderly now) (key : Text) (p : List Text × Seconds) :
    ((c.setTtl now c.ttl).get now key).1.map (fun e => (e.names, e.fetched)) = some p ↔
      (c.get now key).1.map (fun e => (e.names, e.fetched)) = some p := by
  obtain ⟨kept, same, changed⟩ := setTtl_cases orderly c.ttl
  have distinct := (orderly.setTtl c.ttl).distinct
  simp only [Option.map_eq_some_iff, get_eq_some_iff distinct, get_eq_some_iff orderly.distinct]
  constructor
  · rintro ⟨y, ⟨mem, rfl, -⟩, rfl⟩
    rw [changed] at mem
    obtain ⟨-, -, -, x, there, key, names, fetched⟩ := mem_renewed mem
    rw [same, List.mem_filter, Bool.and_eq_true] at there
    exact ⟨x, ⟨there.1, key, there.2⟩, by rw [names, fetched]⟩
  · rintro ⟨x, ⟨mem, rfl, keeps, fresh⟩, rfl⟩
    have young : now - x.fetched < c.ttl := of_decide_eq_true fresh
    have past := (orderly.fetched x mem).trans (orderly.stored x mem)
    obtain ⟨used, renewed⟩ := renewed_mem now c.uses
      (show x ∈ kept from same ▸ List.mem_filter.2 ⟨mem, Bool.and_eq_true _ _ ▸ ⟨keeps, fresh⟩⟩)
    refine ⟨{ x with stored := now, used }, ⟨changed ▸ renewed, rfl, ?_, ?_⟩, rfl⟩
    · simp only [Cache.keeps, ttl_setTtl, decide_eq_true_eq]
      linarith
    · rwa [Cache.fresh, ttl_setTtl]

end

end Cache

/-- Whether an event sets a key. -/
def CacheEvent.sets (key : Text) : CacheEvent → Bool
  | .set other _ => other = key
  | .get _ | .count | .clear | .setTtl _ _ | .advance _ => false

namespace TimedCache

/-- Whether an event uses a key: it is set, or read and found, or the time to live is changed. -/
def uses (key : Text) (s : TimedCache) : CacheEvent → Bool
  | .set other _ => other = key
  | .get other => other = key && (s.cache.get s.now other).1.isSome
  | .setTtl ttl _ => 0 ≤ ttl
  | .count | .clear | .advance _ => false

/-- How many events there were when the last one of a kind had happened. -/
def latest (kind : TimedCache → CacheEvent → Bool) (s : TimedCache) : List CacheEvent → Nat
  | [] => 0
  | e :: es =>
    let later := latest kind (s.step e) es
    if 0 < later then later + 1 else if kind s e then 1 else 0

/-- When a key was last set. -/
def lastSet (s : TimedCache) (es : List CacheEvent) (key : Text) : Nat :=
  s.latest (fun _ => CacheEvent.sets key) es

/-- When a key was last used. -/
def lastUse (s : TimedCache) (es : List CacheEvent) (key : Text) : Nat := s.latest (uses key) es

section

variable {start s : TimedCache} {es : List CacheEvent} {e : CacheEvent}

theorem latest_le (kind : TimedCache → CacheEvent → Bool) (s : TimedCache) (es : List CacheEvent) :
    s.latest kind es ≤ es.length := by
  induction es generalizing s with
  | nil => exact Nat.le_refl _
  | cons e es ih =>
    have later := ih (s.step e)
    simp only [latest, List.length_cons]
    split
    · omega
    · split <;> omega

theorem latest_snoc (kind : TimedCache → CacheEvent → Bool) (s : TimedCache) (es : List CacheEvent)
    (e : CacheEvent) :
    s.latest kind (es ++ [e]) = if kind (s.run es) e then es.length + 1 else s.latest kind es := by
  induction es generalizing s with
  | nil => simp [latest, run]
  | cons first es ih =>
    have last := ih (s.step first)
    rw [run_cons, List.length_cons, List.cons_append, latest, last]
    by_cases there : kind ((s.step first).run es) e
    · simp only [if_pos there, Nat.succ_pos, if_true]
    · simp only [if_neg there]
      rfl

theorem lastSet_snoc (start : TimedCache) (es : List CacheEvent) (e : CacheEvent) (key : Text) :
    start.lastSet (es ++ [e]) key = if e.sets key then es.length + 1 else start.lastSet es key :=
  latest_snoc ..

theorem lastUse_snoc (start : TimedCache) (es : List CacheEvent) (e : CacheEvent) (key : Text) :
    start.lastUse (es ++ [e]) key =
      if (start.run es).uses key e then es.length + 1 else start.lastUse es key :=
  latest_snoc ..

theorem lastSet_of_unset (unset : ∀ key, e.sets key = false) :
    start.lastSet (es ++ [e]) = start.lastSet es := by
  funext key
  rw [lastSet_snoc, unset, if_neg Bool.false_ne_true]

theorem lastUse_of_unused (unused : ∀ key, (start.run es).uses key e = false) :
    start.lastUse (es ++ [e]) = start.lastUse es := by
  funext key
  rw [lastUse_snoc, unused, if_neg Bool.false_ne_true]

/-- Each event keeps the entries in the order in which their keys were last set and used. -/
theorem ranked_step (orderly : (start.run es).Orderly)
    (h : (start.run es).cache.Ranked (start.lastSet es) (start.lastUse es)) (e : CacheEvent) :
    ((start.run es).step e).cache.Ranked (start.lastSet (es ++ [e])) (start.lastUse (es ++ [e])) := by
  -- an event that neither sets nor uses a key at most drops entries
  have aside (unset : ∀ key, e.sets key = false) (unused : ∀ key, (start.run es).uses key e = false)
      {c : Cache} (less : c.entries.Sublist (start.run es).cache.entries) :
      c.Ranked (start.lastSet (es ++ [e])) (start.lastUse (es ++ [e])) := by
    rw [lastSet_of_unset unset, lastUse_of_unused unused]
    exact h.sublist less
  have latest (key : Text) : start.lastSet es key ≤ es.length ∧ start.lastUse es key ≤ es.length :=
    ⟨latest_le _ start es, latest_le _ start es⟩
  cases e with
  | set key names =>
    rw [step_set orderly.room]
    refine h.store orderly.cache.used latest (fun k => ?_) fun k => ?_
    · simpa only [CacheEvent.sets, decide_eq_true_eq] using lastSet_snoc start es (.set key names) k
    · simpa only [uses, decide_eq_true_eq] using lastUse_snoc start es (.set key names) k
  | get key =>
    change ((start.run es).cache.get (start.run es).now key).2.Ranked _ _
    obtain ⟨x, hit⟩ | ⟨miss, fewer⟩ := (start.run es).cache.get_hit_or_miss (start.run es).now key
    · have use_eq (k : Text) : start.lastUse (es ++ [.get key]) k =
          if key = k then es.length + 1 else start.lastUse es k := by
        simpa only [uses, hit, Option.isSome_some, Bool.and_true, decide_eq_true_eq] using
          lastUse_snoc start es (.get key) k
      rw [hit, lastSet_of_unset fun _ => rfl]
      exact h.touch orderly.cache.used (fun k => (latest k).2) use_eq
    · refine aside (fun _ => rfl) (fun k => ?_) fewer
      simp only [uses, miss, Option.isSome_none, Bool.and_false]
  | count => exact aside (fun _ => rfl) (fun _ => rfl) List.filter_sublist
  | clear => exact aside (fun _ => rfl) (fun _ => rfl) (List.nil_sublist _)
  | setTtl ttl given =>
    by_cases negative : ttl < 0
    · rw [(step_setTtl_of_neg negative given).2]
      refine aside (fun _ => rfl) (fun _ => ?_) (List.Sublist.refl _)
      exact decide_eq_false (not_le.2 negative)
    · have some : 0 ≤ ttl := not_lt.1 negative
      obtain ⟨kept, same, changed⟩ := Cache.setTtl_cases orderly.cache ttl
      have at_once (k : Text) : start.lastUse (es ++ [.setTtl ttl given]) k = es.length + 1 := by
        rw [lastUse_snoc, uses, if_pos (decide_eq_true some)]
      rw [step_setTtl some, changed, lastSet_of_unset fun _ => rfl]
      refine Cache.Ranked.renewed ?_ (fun k k' => (at_once k).trans (at_once k').symm) ..
      exact same ▸ h.order.sublist List.filter_sublist
  | advance span => exact aside (fun _ => rfl) (fun _ => rfl) (List.Sublist.refl _)

/-- In every run the entries stand in the order that the history tells. -/
theorem ranked_run (orderly : start.Orderly) (empty : start.cache.entries = [])
    (forward : ∀ span, .advance span ∈ es → 0 ≤ span) :
    (start.run es).cache.Ranked (start.lastSet es) (start.lastUse es) := by
  induction es using List.reverseRecOn with
  | nil =>
    have none : (start.run []).cache.entries = [] := empty
    exact ⟨none ▸ .nil, fun x mem => by simp [none] at mem⟩
  | append_singleton es e ih =>
    have before (span : Seconds) (mem : .advance span ∈ es) : 0 ≤ span := forward span (by simp [mem])
    rw [run_append]
    exact ranked_step (orderly.run before) (ih before) e

/-- Whatever is in a cache was used. -/
theorem lastUse_pos (orderly : start.Orderly) (empty : start.cache.entries = [])
    (forward : ∀ span, .advance span ∈ es → 0 ≤ span) {x : CacheEntry} (mem : x ∈ (start.run es).cache.entries) :
    0 < start.lastUse es x.key := by
  induction es using List.reverseRecOn generalizing x with
  | nil =>
    have none : (start.run []).cache.entries = [] := empty
    simp [none] at mem
  | append_singleton es e ih =>
    have before (span : Seconds) (mem : .advance span ∈ es) : 0 ≤ span := forward span (by simp [mem])
    rw [lastUse_snoc]
    split
    · exact Nat.succ_pos _
    · next unused =>
      rw [run_append] at mem
      obtain ⟨y, old, same, -⟩ := spared_of_mem_step (orderly.run before)
        (fun names set => unused (by simp [uses, set])) mem
      rw [← same]
      exact ih before old

/-- As long as the time to live is not changed, only one key is used at a time. -/
theorem eq_of_lastUse_eq (unchanged : ∀ e ∈ es, ¬ e.Retimes) {k k' : Text} (some : 0 < start.lastUse es k)
    (same : start.lastUse es k = start.lastUse es k') : k = k' := by
  induction es using List.reverseRecOn with
  | nil => exact absurd some (Nat.lt_irrefl 0)
  | append_singleton es e ih =>
    have bound (key : Text) : start.lastUse es key ≤ es.length := latest_le _ start es
    rw [lastUse_snoc] at some
    rw [lastUse_snoc, lastUse_snoc] at same
    by_cases first : (start.run es).uses k e
    · by_cases second : (start.run es).uses k' e
      · cases e with
        | set key names => simp_all [uses]
        | get key => simp_all [uses]
        | setTtl ttl given =>
          exact absurd ⟨ttl, given, rfl, of_decide_eq_true first⟩ (unchanged _ (by simp))
        | count | clear | advance => cases first
      · rw [if_pos first, if_neg second] at same
        have := bound k'
        omega
    · rw [if_neg first] at some same
      by_cases second : (start.run es).uses k' e
      · rw [if_pos second] at same
        have := bound k
        omega
      · rw [if_neg second] at same
        exact ih (fun e mem => unchanged e (by simp [mem])) some same

/-- As long as the time to live is not changed, every entry is in the cache since its names were fetched. -/
theorem stored_eq_fetched (orderly : start.Orderly) (empty : start.cache.entries = [])
    (forward : ∀ span, .advance span ∈ es → 0 ≤ span) (unchanged : ∀ e ∈ es, ¬ e.Retimes) {x : CacheEntry}
    (mem : x ∈ (start.run es).cache.entries) : x.stored = x.fetched := by
  induction es using List.reverseRecOn generalizing x with
  | nil =>
    have none : (start.run []).cache.entries = [] := empty
    simp [none] at mem
  | append_singleton es e ih =>
    have before (span : Seconds) (mem : .advance span ∈ es) : 0 ≤ span := forward span (by simp [mem])
    have still (e') (mem : e' ∈ es) : ¬ e'.Retimes := unchanged e' (by simp [mem])
    have there := orderly.run before
    rw [run_append] at mem
    by_cases set : ∃ names, e = .set x.key names
    · obtain ⟨names, rfl⟩ := set
      change x ∈ ((start.run es).step (.set x.key names)).cache.entries at mem
      rw [step_set there.room] at mem
      rcases Cache.mem_store mem with ⟨-, other⟩ | new
      · exact absurd rfl other
      · rw [new]
    · obtain ⟨y, old, -, -, fetched, stored, -⟩ :=
        spared_of_mem_step there (fun names same => set ⟨names, same⟩) mem
      rw [stored, storedAfter_of_not_retimes (unchanged e (by simp)), ← fetched]
      exact ih before still old

/-- In every run of a new cache that has room for some entries, and whose clock does not run backwards, let a
key be set while a reader would get the entry of another.
- The entry of the other key is still read, unless the key is a new one, as many entries are held as there is
room for, and every other that is held comes after this one: its last use was later, or it was the same
change of the time to live and its key was set later.
- As long as the time to live was not changed, all that are held are there to be read, and each has a last
use of its own.
- Whoever sets the time to live to what it is changes nothing for those who read in that moment. But it counts
as a use of all that are held. -/
theorem set_evicts_iff {ttl clock : Seconds} {size : Nat} (room : 0 < size) {cache : Cache}
    (created : Cache.create ttl size = .ok cache) (es : List CacheEvent)
    (forward : ∀ span, .advance span ∈ es → 0 ≤ span) :
    let start : TimedCache := ⟨clock, cache⟩
    let s := start.run es
    (∀ key names x, x.key ≠ key → (s.cache.get s.now x.key).1 = some x →
      let after := ((s.step (.set key names)).cache.get s.now x.key).1
      (after = some x ∨ after = none) ∧
      (after = none ↔ s.cache.find? s.now key = none ∧ s.cache.count s.now = size ∧
        ∀ other, other ≠ x.key → (s.cache.find? s.now other).isSome = true →
          Cache.Before (start.lastSet es) (start.lastUse es) x.key other)) ∧
    ((∀ e ∈ es, ¬ e.Retimes) →
      (∀ key, (s.cache.find? s.now key).isSome = true → (s.cache.get s.now key).1.isSome = true) ∧
      (∀ key other, (s.cache.find? s.now key).isSome = true → key ≠ other →
        (Cache.Before (start.lastSet es) (start.lastUse es) key other ↔
          start.lastUse es key < start.lastUse es other))) ∧
    (∀ given key, let renewed := s.step (.setTtl s.cache.ttl given)
      (renewed.cache.get s.now key).1.map (fun e => (e.names, e.fetched)) =
        (s.cache.get s.now key).1.map fun e => (e.names, e.fetched)) := by
  intro start s
  obtain rfl := Cache.eq_of_create created
  have first : start.Orderly := .create room created
  have orderly : s.Orderly := first.run forward
  have sized : s.cache.size = size := size_run start es
  have ranked : s.cache.Ranked (start.lastSet es) (start.lastUse es) := ranked_run first rfl forward
  refine ⟨?_, ?_, ?_⟩
  · intro key names x apart alive after
    obtain ⟨mem, -, held, -⟩ := (Cache.get_eq_some_iff orderly.cache.distinct).1 alive
    have read : after = if x ∈ (s.cache.store s.now s.now key names).entries then some x else none := by
      rw [← Cache.get_store orderly.cache alive apart]
      simp only [after, step_set orderly.room]
    have drops : x ∉ (s.cache.store s.now s.now key names).entries ↔ _ :=
      ranked.store_drops_iff orderly.cache mem held apart
    rw [← sized, ← drops, read]
    split
    · next there => exact ⟨.inl rfl, by simp [there]⟩
    · next gone => exact ⟨.inr rfl, by simp [gone]⟩
  · intro unchanged
    constructor
    · intro key found
      obtain ⟨x, there, rfl⟩ := Cache.isSome_find?.1 found
      obtain ⟨mem, held⟩ := List.mem_filter.1 there
      have same : x.stored = x.fetched := stored_eq_fetched first rfl forward unchanged mem
      have stored : s.now < x.stored + s.cache.ttl := of_decide_eq_true held
      rw [Cache.get_of_live orderly.cache.distinct mem stored (by rw [← same]; linarith)]
      rfl
    · intro key other found apart
      obtain ⟨x, there, rfl⟩ := Cache.isSome_find?.1 found
      have some := lastUse_pos first rfl forward (List.mem_filter.1 there).1
      refine or_iff_left fun ⟨same, _⟩ => apart (eq_of_lastUse_eq unchanged some same)
  · intro given key renewed
    by_cases negative : s.cache.ttl < 0
    · simp only [renewed, (step_setTtl_of_neg negative given).2]
    · simp only [renewed, step_setTtl (not_lt.1 negative)]
      exact Option.ext fun p => Cache.get_setTtl_self orderly.cache key p

/-- Names are set for two keys and read for the first. Then a third key is set, which takes the room of the
second. -/
theorem set_evicts_iff_read :
    let start : TimedCache := ⟨1000, { ttl := 30, size := 2 }⟩
    let a := "a".toList
    let b := "b".toList
    let c := "c".toList
    let es : List CacheEvent := [.set a ["1".toList], .set b ["2".toList], .get a]
    let s := start.run es
    ((s.step (.set c ["3".toList])).cache.get s.now b).1 = none ∧
      start.lastUse es b < start.lastUse es a := by
  intro start a b c es s
  have created : Cache.create 30 (2 : Nat) = .ok { ttl := 30, size := 2 } := rfl
  have forward : ∀ span, .advance span ∈ es → 0 ≤ span := by simp [es]
  obtain ⟨evicts, unchanged, -⟩ := @set_evicts_iff 30 1000 2 (by decide) _ created es forward
  have still : ∀ e ∈ es, ¬ e.Retimes := by simp [es, CacheEvent.Retimes]
  have held : (s.cache.find? s.now b).isSome = true := by decide +kernel
  have earlier : start.lastUse es b < start.lastUse es a := by decide +kernel
  have before := ((unchanged still).2 b a held (by decide)).2 earlier
  let x : CacheEntry := ⟨b, ["2".toList], 1000, 1000, 1⟩
  have alive : (s.cache.get s.now x.key).1 = some x := by decide +kernel
  have missing : s.cache.find? s.now c = none := by decide +kernel
  have full : s.cache.count s.now = 2 := by decide +kernel
  have keys : ∀ x ∈ (s.cache.expire s.now).entries, x.key ≠ b → x.key = a := by decide +kernel
  obtain ⟨-, evicted⟩ := evicts c ["3".toList] x (by decide) alive
  refine ⟨evicted.2 ⟨missing, full, fun other apart found => ?_⟩, earlier⟩
  obtain ⟨x, there, rfl⟩ := Cache.isSome_find?.1 found
  rw [keys x there apart]
  exact before

/-- The same once the time to live was set to what it was after the reader came: it is the key that was read
that makes room, since it was set first. And an entry that is too old to be read takes up room until it has
been stored for the time to live: another one that is young makes room before it. -/
theorem read_key_evicted :
    let a := "a".toList
    let b := "b".toList
    let c := "c".toList
    let two : List CacheEvent := [.set a ["1".toList], .set b ["2".toList], .get a]
    let evicted (start : TimedCache) (es : List CacheEvent) (key : Text) : Bool :=
      let s := start.run es
      (s.cache.get s.now key).1.isSome && ((s.step (.set c ["3".toList])).cache.get s.now key).1.isNone
    let live (start : TimedCache) (es : List CacheEvent) : List Text :=
      let s := start.run es
      [a, b].filter fun key => (s.cache.get s.now key).1.isSome
    let new : TimedCache := ⟨1000, { ttl := 30, size := 2 }⟩
    let renewed := two ++ [.setTtl 30 (.whole 30)]
    let aged : List CacheEvent := [.set a ["1".toList], .advance 10, .set b ["2".toList],
      .setTtl 25 (.whole 25), .advance 14, .get a, .advance 1]
    (evicted new two a = false ∧ evicted new two b = true) ∧
      (evicted new renewed a = true ∧ evicted new renewed b = false) ∧
      live new aged = [b] ∧ evicted new aged b = true := by
  decide +kernel

end

end TimedCache

end Typeahead
