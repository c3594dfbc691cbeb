import Mathlib.Algebra.Order.Ring.Rat
import Mathlib.Tactic.Linarith
import Typeahead.Proofs.Cache.Entries

/-!
A cache and its clock. Names are set and read, the cache is counted, cleared or given another time to
live, and time goes by: any of it, in any order. In the course of it the entries stay in order: no key has
two, there is room for all, and every time and every use that is noted lies in the past.

- `store_cases`: an entry takes the place of that of its key, or room is made for it if need be.
- `setTtl_cases`: under another time to live the young entries are stored anew, in the order in which they
  were.
- `Orderly.run`: the entries are in order in every run.
-/

namespace Typeahead

/-- What happens to a cache. -/
inductive CacheEvent where
  | set (key : Text) (names : List Text)
  | get (key : Text)
  | count
  | clear
  | setTtl (ttl : Seconds) (given : Number)
  | advance (span : Seconds)

/-- A cache, and the time on its clock. -/
structure TimedCache where
  now : Seconds
  cache : Cache

namespace Cache

/-- The entries stored anew at a point of time, one after the other, after a number of uses. -/
def renewed (now : Seconds) (uses : Nat) : List CacheEntry → List CacheEntry
  | [] => []
  | e :: es => { e with stored := now, used := uses } :: renewed now (uses + 1) es

/-- The entries are in order: no key has two, there is room for all, and what is noted of them lies in the
past. -/
structure Orderly (c : Cache) (now : Seconds) : Prop where
  distinct : c.Distinct
  bounded : c.entries.length ≤ c.size
  used : ∀ e ∈ c.entries, e.used < c.uses
  fetched : ∀ e ∈ c.entries, e.fetched ≤ e.stored
  stored : ∀ e ∈ c.entries, e.stored ≤ now

section

variable {c : Cache} {now ttl fetched : Seconds} {key : Text} {names : List Text} {x : CacheEntry}

theorem mem_renewed {uses : Nat} {es : List CacheEntry} (mem : x ∈ renewed now uses es) :
    uses ≤ x.used ∧ x.used < uses + es.length ∧ x.stored = now ∧
      ∃ e ∈ es, e.key = x.key ∧ e.names = x.names ∧ e.fetched = x.fetched := by
  induction es generalizing uses with
  | nil => cases mem
  | cons e es ih =>
    rw [List.length_cons]
    rcases List.mem_cons.1 mem with rfl | later
    · exact ⟨Nat.le_refl _, by simp, rfl, e, List.mem_cons_self, rfl, rfl, rfl⟩
    · obtain ⟨after, before, stored, e', there, same⟩ := ih later
      exact ⟨by omega, by omega, stored, e', List.mem_cons_of_mem _ there, same⟩

theorem keys_renewed (now : Seconds) (uses : Nat) (es : List CacheEntry) :
    (renewed now uses es).map (·.key) = es.map (·.key) := by
  induction es generalizing uses with
  | nil => rfl
  | cons e es ih => simp only [renewed, List.map_cons, ih]

theorem length_renewed (now : Seconds) (uses : Nat) (es : List CacheEntry) :
    (renewed now uses es).length = es.length := by
  induction es generalizing uses with
  | nil => rfl
  | cons e es ih => simp only [renewed, List.length_cons, ih]

theorem renewed_append (now : Seconds) (uses : Nat) (es more : List CacheEntry) :
    renewed now uses (es ++ more) = renewed now uses es ++ renewed now (uses + es.length) more := by
  induction es generalizing uses with
  | nil => rfl
  | cons e es ih =>
    have shift : uses + (es.length + 1) = uses + 1 + es.length := by omega
    simp only [List.cons_append, renewed, ih, List.length_cons, shift]

theorem eq_of_create {size : Nat} (created : create ttl size = .ok c) : c = { ttl, size } := by
  have counted : ¬ (size : Int) < 0 := by omega
  simp only [create, if_neg counted, Except.ok.injEq] at created
  exact created.symm

/-- Nobody has to make room for another, unless the cache is full; then it is the entry whose last use lies
back farthest. -/
theorem makeRoom_cases (c : Cache) : c.makeRoom = c ∨
    ∃ e, leastUsed? c.entries = some e ∧ c.size ≤ c.entries.length ∧ c.makeRoom = c.erase e.key := by
  unfold makeRoom
  split
  · exact .inl rfl
  · next full =>
    split
    · next e least => exact .inr ⟨e, least, Nat.not_lt.1 full, rfl⟩
    · exact .inl rfl

/-- To store an entry is to drop that of its key, or to make room for one more, and to put it last. -/
theorem store_cases (c : Cache) (now fetched : Seconds) (key : Text) (names : List Text) :
    c.store now fetched key names = ((c.expire now).erase key).append now fetched key names ∨
    (∀ e ∈ (c.expire now).entries, e.key ≠ key) ∧
      c.store now fetched key names = (c.expire now).makeRoom.append now fetched key names := by
  unfold store
  dsimp only
  split
  · exact .inl rfl
  · next missing =>
    refine .inr ⟨fun e mem same => missing ?_, rfl⟩
    exact List.any_eq_true.2 ⟨e, mem, decide_eq_true same⟩

theorem uses_makeRoom (c : Cache) : c.makeRoom.uses = c.uses := by
  obtain same | ⟨e, -, -, dropped⟩ := c.makeRoom_cases
  · rw [same]
  · rw [dropped]
    rfl

theorem ttl_makeRoom (c : Cache) : c.makeRoom.ttl = c.ttl := by
  obtain same | ⟨e, -, -, dropped⟩ := c.makeRoom_cases
  · rw [same]
  · rw [dropped]
    rfl

theorem uses_store (c : Cache) (now fetched : Seconds) (key : Text) (names : List Text) :
    (c.store now fetched key names).uses = c.uses + 1 := by
  obtain dropped | ⟨-, roomy⟩ := c.store_cases now fetched key names
  · rw [dropped]
    rfl
  · rw [roomy, append, uses_makeRoom]
    rfl

theorem ttl_store (c : Cache) (now fetched : Seconds) (key : Text) (names : List Text) :
    (c.store now fetched key names).ttl = c.ttl := by
  obtain dropped | ⟨-, roomy⟩ := c.store_cases now fetched key names
  · rw [dropped]
    rfl
  · rw [roomy, append, ttl_makeRoom]
    rfl

theorem ttl_setTtl (c : Cache) (now ttl : Seconds) : (c.setTtl now ttl).ttl = ttl :=
  List.foldlRecOn (motive := fun d : Cache => d.ttl = ttl) _ _ rfl
    fun d same e _ => (d.ttl_store now e.fetched e.key e.names).trans same

/-- After an entry is stored it is the only one of its key; all others were there before. -/
theorem mem_store (mem : x ∈ (c.store now fetched key names).entries) :
    x ∈ c.entries ∧ x.key ≠ key ∨ x = { key, names, fetched, stored := now, used := c.uses } := by
  obtain dropped | ⟨missing, roomy⟩ := c.store_cases now fetched key names
  · rw [dropped] at mem
    rcases List.mem_append.1 mem with old | new
    · obtain ⟨kept, other⟩ := List.mem_filter.1 old
      exact .inl ⟨(List.mem_filter.1 kept).1, bne_iff_ne.1 other⟩
    · exact .inr (List.mem_singleton.1 new)
  · rw [roomy] at mem
    rcases List.mem_append.1 mem with old | new
    · have kept := (entries_makeRoom _).subset old
      exact .inl ⟨(List.mem_filter.1 kept).1, missing x kept⟩
    · rw [uses_makeRoom] at new
      exact .inr (List.mem_singleton.1 new)

/-- Where there is room, entries that are stored one after the other in the same moment all come to
stand at the end. -/
theorem foldl_store (lasting : 0 < c.ttl) (es : List CacheEntry)
    (room : c.entries.length + es.length ≤ c.size) (now_stored : ∀ x ∈ c.entries, x.stored = now)
    (distinct : ((c.entries ++ es).map (·.key)).Nodup) :
    es.foldl (fun c e => c.store now e.fetched e.key e.names) c =
      { c with entries := c.entries ++ renewed now c.uses es, uses := c.uses + es.length } := by
  induction es generalizing c with
  | nil => simp [renewed]
  | cons e es ih =>
    have live : c.expire now = c := by
      have all : ∀ x ∈ c.entries, c.keeps now x = true := fun x mem => by
        simp only [keeps, now_stored x mem, decide_eq_true_eq]
        linarith
      simp only [expire, List.filter_eq_self.2 all]
    have new : ∀ x ∈ c.entries, x.key ≠ e.key := by
      rw [List.map_append, List.nodup_append] at distinct
      intro x mem
      exact distinct.2.2 _ (List.mem_map_of_mem mem) _ (List.mem_map_of_mem List.mem_cons_self)
    have fits : c.entries.length < c.size := by
      rw [List.length_cons] at room
      omega
    have stored : c.store now e.fetched e.key e.names = c.append now e.fetched e.key e.names := by
      have missing : (c.entries.any fun x => decide (x.key = e.key)) = false := by
        simpa using new
      simp only [store, live, missing, Bool.false_eq_true, if_false, makeRoom, fits, if_true]
    rw [List.foldl_cons, stored]
    refine (ih (c := c.append now e.fetched e.key e.names) lasting ?_ ?_ ?_).trans ?_
    · simp only [append, List.length_append, List.length_singleton]
      rw [List.length_cons] at room
      omega
    · intro x mem
      rcases List.mem_append.1 mem with old | last
      · exact now_stored x old
      · rw [List.mem_singleton.1 last]
    · simpa [append] using distinct
    · simp only [append, renewed, List.append_assoc, List.singleton_append, List.length_cons, mk.injEq,
        true_and]
      omega

/-- Under another time to live the entries that are younger are stored anew, in the order in which they
were. -/
theorem setTtl_cases (h : c.Orderly now) (ttl : Seconds) : ∃ kept : List CacheEntry,
    kept = c.entries.filter (fun e => c.keeps now e && now - e.fetched < ttl) ∧
    c.setTtl now ttl =
      { c with ttl, entries := renewed now c.uses kept, uses := c.uses + kept.length } := by
  refine ⟨_, rfl, ?_⟩
  generalize same : c.entries.filter (fun e => c.keeps now e && now - e.fetched < ttl) = kept
  have less : kept.Sublist c.entries := same ▸ List.filter_sublist
  simp only [setTtl, same]
  cases kept with
  | nil => rfl
  | cons e es =>
    -- an entry that is younger than the time to live shows that this is positive
    have lasting : 0 < ttl := by
      have mem : e ∈ c.entries := less.subset List.mem_cons_self
      have young : e ∈ c.entries.filter (fun e => c.keeps now e && now - e.fetched < ttl) :=
        same ▸ List.mem_cons_self
      simp only [List.mem_filter, Bool.and_eq_true, decide_eq_true_eq] at young
      have past := (h.fetched e mem).trans (h.stored e mem)
      linarith [young.2.2]
    refine (foldl_store (c := { c with ttl, entries := [] }) lasting (e :: es) ?_ ?_ ?_).trans rfl
    · rw [List.length_nil, Nat.zero_add]
      exact less.length_le.trans h.bounded
    · intro x mem
      cases mem
    · exact List.Nodup.sublist (less.map _) h.distinct

namespace Orderly

theorem sublist (h : c.Orderly now) {d : Cache} (less : d.entries.Sublist c.entries)
    (size : d.size = c.size) (uses : d.uses = c.uses) : d.Orderly now := by
  refine ⟨h.distinct.sublist less, ?_, ?_, ?_, ?_⟩
  · rw [size]
    exact less.length_le.trans h.bounded
  · intro e mem
    rw [uses]
    exact h.used e (less.subset mem)
  · intro e mem
    exact h.fetched e (less.subset mem)
  · intro e mem
    exact h.stored e (less.subset mem)

theorem touch (h : c.Orderly now) (key : Text) : (c.touch key).Orderly now := by
  have before {e : CacheEntry} (mem : e ∈ (c.touch key).entries) :
      ∃ e' ∈ c.entries, e.fetched = e'.fetched ∧ e.stored = e'.stored ∧
        (e.used = c.uses ∨ e.used = e'.used) := by
    obtain ⟨e', there, rfl⟩ := List.mem_map.1 mem
    refine ⟨e', there, ?_⟩
    split <;> simp
  refine ⟨h.distinct.touch key, ?_, ?_, ?_, ?_⟩
  · simpa [Cache.touch] using h.bounded
  · intro e mem
    obtain ⟨e', there, -, -, used⟩ := before mem
    have earlier := h.used e' there
    change e.used < c.uses + 1
    omega
  · intro e mem
    obtain ⟨e', there, fetched, stored, -⟩ := before mem
    rw [fetched, stored]
    exact h.fetched e' there
  · intro e mem
    obtain ⟨e', there, -, stored, -⟩ := before mem
    rw [stored]
    exact h.stored e' there

theorem get (h : c.Orderly now) (key : Text) : (c.get now key).2.Orderly now := by
  rcases c.get_cases now key with same | used | dropped
  · rwa [same]
  · rw [used]
    exact h.touch key
  · rw [dropped]
    exact h.sublist List.filter_sublist rfl rfl

theorem store (h : c.Orderly now) (some : 0 < c.size) (past : fetched ≤ now) (key : Text)
    (names : List Text) : (c.store now fetched key names).Orderly now := by
  refine ⟨h.distinct.store now fetched key names, ?_, ?_, ?_, ?_⟩
  · rw [size_store]
    exact length_store_le some h.bounded now fetched key names
  · intro e mem
    rw [uses_store]
    rcases mem_store mem with ⟨old, -⟩ | rfl
    · exact (h.used e old).trans (Nat.lt_succ_self _)
    · exact Nat.lt_succ_self _
  · intro e mem
    rcases mem_store mem with ⟨old, -⟩ | rfl
    · exact h.fetched e old
    · exact past
  · intro e mem
    rcases mem_store mem with ⟨old, -⟩ | rfl
    · exact h.stored e old
    · exact le_refl _

theorem setTtl (h : c.Orderly now) (ttl : Seconds) : (c.setTtl now ttl).Orderly now := by
  obtain ⟨kept, same, changed⟩ := setTtl_cases h ttl
  have less : kept.Sublist c.entries := same ▸ List.filter_sublist
  rw [changed]
  refine ⟨?_, ?_, ?_, ?_, ?_⟩
  · change ((renewed now c.uses kept).map (·.key)).Nodup
    rw [keys_renewed]
    exact List.Nodup.sublist (less.map _) h.distinct
  · change (renewed now c.uses kept).length ≤ c.size
    rw [length_renewed]
    exact less.length_le.trans h.bounded
  · intro e mem
    exact (mem_renewed mem).2.1
  · intro e mem
    obtain ⟨-, -, stored, e', there, -, -, fetched⟩ := mem_renewed mem
    rw [stored, ← fetched]
    exact (h.fetched e' (less.subset there)).trans (h.stored e' (less.subset there))
  · intro e mem
    rw [(mem_renewed mem).2.2.1]

theorem later (h : c.Orderly now) {after : Seconds} (forward : now ≤ after) : c.Orderly after :=
  ⟨h.distinct, h.bounded, h.used, h.fetched, fun e mem => (h.stored e mem).trans forward⟩

end Orderly

end

end Cache

namespace TimedCache

/-- The cache and the clock after an event. -/
def step (s : TimedCache) : CacheEvent → TimedCache
  | .set key names => { s with cache := (s.cache.set s.now key names).toOption.getD s.cache }
  | .get key => { s with cache := (s.cache.get s.now key).2 }
  | .count => { s with cache := s.cache.expire s.now }
  | .clear => { s with cache := s.cache.clear }
  | .setTtl ttl given => { s with cache := (s.cache.setTtl? s.now ttl given).toOption.getD s.cache }
  | .advance span => { s with now := s.now + span }

/-- The cache and the clock after events. -/
def run (s : TimedCache) (es : List CacheEvent) : TimedCache := es.foldl step s

/-- A cache whose entries are in order, and that has room for some. -/
structure Orderly (s : TimedCache) : Prop where
  room : 0 < s.cache.size
  cache : s.cache.Orderly s.now

variable {s : TimedCache}

theorem run_cons (s : TimedCache) (e : CacheEvent) (es : List CacheEvent) :
    s.run (e :: es) = (s.step e).run es := rfl

theorem run_append (s : TimedCache) (es more : List CacheEvent) :
    s.run (es ++ more) = (s.run es).run more := List.foldl_append

theorem size_step (s : TimedCache) (e : CacheEvent) : (s.step e).cache.size = s.cache.size := by
  cases e with
  | set key names =>
    change ((s.cache.set s.now key names).toOption.getD s.cache).size = _
    cases stored : s.cache.set s.now key names with
    | error => rfl
    | ok c => exact Cache.size_set stored
  | get key => exact s.cache.size_get s.now key
  | count => rfl
  | clear => rfl
  | setTtl ttl given =>
    change ((s.cache.setTtl? s.now ttl given).toOption.getD s.cache).size = _
    unfold Cache.setTtl?
    split
    · rfl
    · exact s.cache.size_setTtl s.now ttl
  | advance span => rfl

theorem size_run (s : TimedCache) (es : List CacheEvent) : (s.run es).cache.size = s.cache.size :=
  List.foldlRecOn (motive := fun t : TimedCache => t.cache.size = s.cache.size) es _ rfl
    fun t same e _ => (t.size_step e).trans same

/-- A cache that has room takes what is set. -/
theorem step_set (room : 0 < s.cache.size) (key : Text) (names : List Text) :
    s.step (.set key names) = { s with cache := s.cache.store s.now s.now key names } := by
  have some : s.cache.size ≠ 0 := Nat.ne_of_gt room
  simp only [step, Cache.set, if_neg some]
  rfl

/-- A negative time to live is refused, and changes nothing. -/
theorem step_setTtl_of_neg {ttl : Seconds} (negative : ttl < 0) (given : Number) :
    s.cache.setTtl? s.now ttl given = .error (.negativeTtl given) ∧ s.step (.setTtl ttl given) = s := by
  have refused : s.cache.setTtl? s.now ttl given = .error (.negativeTtl given) := if_pos negative
  refine ⟨refused, ?_⟩
  simp only [step, refused]
  rfl

theorem step_setTtl {ttl : Seconds} (some : 0 ≤ ttl) (given : Number) :
    s.step (.setTtl ttl given) = { s with cache := s.cache.setTtl s.now ttl } := by
  simp only [step, Cache.setTtl?, if_neg (not_lt.2 some)]
  rfl

namespace Orderly

/-- Whatever happens to a cache, unless time runs backwards, its entries stay in order. -/
theorem step (h : s.Orderly) {e : CacheEvent} (forward : ∀ span, e = .advance span → 0 ≤ span) :
    (s.step e).Orderly := by
  refine ⟨(s.size_step e).symm ▸ h.room, ?_⟩
  cases e with
  | set key names =>
    rw [step_set h.room]
    exact h.cache.store h.room (le_refl _) key names
  | get key => exact h.cache.get key
  | count => exact h.cache.sublist List.filter_sublist rfl rfl
  | clear => exact h.cache.sublist (List.nil_sublist _) rfl rfl
  | setTtl ttl given =>
    by_cases negative : ttl < 0
    · rw [(step_setTtl_of_neg negative given).2]
      exact h.cache
    · rw [step_setTtl (not_lt.1 negative)]
      exact h.cache.setTtl ttl
  | advance span => exact h.cache.later (le_add_of_nonneg_right (forward span rfl))

theorem run (h : s.Orderly) {es : List CacheEvent} (forward : ∀ span, .advance span ∈ es → 0 ≤ span) :
    (s.run es).Orderly := by
  induction es generalizing s with
  | nil => exact h
  | cons e es ih =>
    have first : (s.step e).Orderly := h.step fun span same => forward span (same ▸ List.mem_cons_self)
    exact ih first fun span later => forward span (List.mem_cons_of_mem e later)

/-- A new cache is in order. -/
theorem create {ttl clock : Seconds} {size : Nat} (room : 0 < size) {c : Cache}
    (created : Cache.create ttl size = .ok c) : (⟨clock, c⟩ : TimedCache).Orderly := by
  obtain rfl := Cache.eq_of_create created
  refine ⟨room, List.nodup_nil, Nat.zero_le _, ?_, ?_, ?_⟩ <;>
  · intro e mem
    cases mem

end Orderly

end TimedCache

end Typeahead
