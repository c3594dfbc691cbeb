import Typeahead.Number
import Typeahead.Text

/-!
The cache of fetched names. It holds a bounded number of entries, and an entry only for a time. Two
clocks run for an entry: since it was fetched, which a change of the time to live does not touch, and
since it was stored, which such a change starts anew. A reader gets an entry only while both are below
the time to live. Where a new key finds the cache full, the entry whose last use lies back farthest
makes room; storing and reading are uses.

- `find?_key`, `find?_mem`: an entry found is one of the cache and has the key asked for.
- `length_store_le`: storing never exceeds the size.
-/

namespace Typeahead

/-- A time span or a point of time, in seconds. -/
abbrev Seconds := Rat

/-- Names in the cache. `fetched` and `stored` are points of time; `used` grows with every use. -/
structure CacheEntry where
  key : Text
  names : List Text
  fetched : Seconds
  stored : Seconds
  used : Nat
  deriving DecidableEq

/-- The cache: its entries in the order in which they were last stored, the time to live, the size,
and the number of uses so far. -/
structure Cache where
  ttl : Seconds
  size : Nat
  entries : List CacheEntry := []
  uses : Nat := 0
  deriving DecidableEq

/-- Why the cache refuses an order. -/
inductive CacheError where
  | negativeSize
  | noRoom
  | negativeTtl (given : Number)
  deriving DecidableEq

/-- The wording of a refusal. -/
def CacheError.message : CacheError → String
  | .negativeSize => "maxsize must be non-negative"
  | .noRoom => "value too large"
  | .negativeTtl given => "Cache TTL must not be negative, got " ++ given.text

namespace Cache

/-- A new cache. -/
def create (ttl : Seconds) (size : Int) : Except CacheError Cache :=
  if size < 0 then .error .negativeSize else .ok { ttl, size := size.toNat }

/-- Whether an entry was stored less than the time to live ago. -/
def keeps (c : Cache) (now : Seconds) (e : CacheEntry) : Bool := now < e.stored + c.ttl

/-- Whether an entry was fetched less than the time to live ago. -/
def fresh (c : Cache) (now : Seconds) (e : CacheEntry) : Bool := now - e.fetched < c.ttl

/-- The cache without the entries whose time is over. -/
def expire (c : Cache) (now : Seconds) : Cache :=
  { c with entries := c.entries.filter (c.keeps now) }

/-- The number of entries, once those whose time is over are gone. -/
def count (c : Cache) (now : Seconds) : Nat := (c.expire now).entries.length

/-- The cache without the entry of a key. -/
def erase (c : Cache) (key : Text) : Cache :=
  { c with entries := c.entries.filter fun e => e.key != key }

/-- The cache after a use of the entry of a key. -/
def touch (c : Cache) (key : Text) : Cache :=
  { c with
    entries := c.entries.map fun e => if e.key = key then { e with used := c.uses } else e
    uses := c.uses + 1 }

/-- The entry stored for a key whose time is not over. -/
def find? (c : Cache) (now : Seconds) (key : Text) : Option CacheEntry :=
  c.entries.find? fun e => e.key = key && c.keeps now e

/-- Reads the entry of a key. An entry that was fetched too long ago is dropped instead. -/
def get (c : Cache) (now : Seconds) (key : Text) : Option CacheEntry × Cache :=
  match c.find? now key with
  | none => (none, c)
  | some e => if c.fresh now e then (some e, c.touch key) else (none, c.erase key)

/-- The entry whose last use lies back farthest. -/
def leastUsed? : List CacheEntry → Option CacheEntry
  | [] => none
  | e :: rest =>
    match leastUsed? rest with
    | none => some e
    | some other => if other.used < e.used then some other else some e

/-- The cache with room for one more entry. -/
def makeRoom (c : Cache) : Cache :=
  if c.entries.length < c.size then c
  else match leastUsed? c.entries with
    | some e => c.erase e.key
    | none => c

/-- Puts an entry last. -/
def append (c : Cache) (now fetched : Seconds) (key : Text) (names : List Text) : Cache :=
  { c with
    entries := c.entries ++ [{ key, names, fetched, stored := now, used := c.uses }]
    uses := c.uses + 1 }

/-- Stores names that were fetched at a given time. -/
def store (c : Cache) (now fetched : Seconds) (key : Text) (names : List Text) : Cache :=
  let c := c.expire now
  if c.entries.any fun e => e.key = key then (c.erase key).append now fetched key names
  else c.makeRoom.append now fetched key names

/-- Stores names fetched now. A cache of size zero has no room for any. -/
def set (c : Cache) (now : Seconds) (key : Text) (names : List Text) : Except CacheError Cache :=
  if c.size = 0 then .error .noRoom else .ok (c.store now now key names)

/-- The cache without any entry. -/
def clear (c : Cache) : Cache := { c with entries := [] }

/-- Changes the time to live. Entries that are younger than the new one are stored anew, in the order
in which they were last stored, which counts as a use of each. -/
def setTtl (c : Cache) (now : Seconds) (ttl : Seconds) : Cache :=
  let kept := c.entries.filter fun e => c.keeps now e && now - e.fetched < ttl
  kept.foldl (fun c e => c.store now e.fetched e.key e.names) { c with ttl, entries := [] }

/-- Changes the time to live, unless the given number is negative. -/
def setTtl? (c : Cache) (now : Seconds) (ttl : Seconds) (given : Number) : Except CacheError Cache :=
  if ttl < 0 then .error (.negativeTtl given) else .ok (c.setTtl now ttl)

theorem find?_key {c : Cache} {now : Seconds} {key : Text} {e : CacheEntry}
    (h : c.find? now key = some e) : e.key = key := by
  have := List.find?_some h
  simp at this
  exact this.1

theorem find?_mem {c : Cache} {now : Seconds} {key : Text} {e : CacheEntry}
    (h : c.find? now key = some e) : e ∈ c.entries := List.mem_of_find?_eq_some h

/-- Names are not stored only where there is no room at all. -/
theorem set_error {c : Cache} {now : Seconds} {key : Text} {names : List Text} {e : CacheError}
    (h : c.set now key names = .error e) : e = .noRoom ∧ c.size = 0 := by
  unfold set at h
  split at h
  · next none => exact ⟨(Except.error.inj h).symm, none⟩
  · cases h

/-- A key that is erased takes no other along. -/
theorem find?_erase (c : Cache) (now : Seconds) (key other : Text) :
    (c.erase key).find? now other = if other = key then none else c.find? now other := by
  have kept : (c.erase key).keeps now = c.keeps now := rfl
  unfold find?
  rw [kept, erase, List.find?_filter]
  split
  · next same =>
    refine List.find?_eq_none.2 fun e _ => ?_
    simp only [same, Bool.and_eq_true, bne_iff_ne, decide_eq_true_eq]
    exact fun h => h.1 h.2.1
  · next apart =>
    congr 1
    funext e
    by_cases there : e.key = other
    · simp [there, apart]
    · simp [there]

/-- To miss a key makes no other come up that was missed before. -/
theorem get_missed {c : Cache} {now : Seconds} {key other : Text} (miss : (c.get now key).1 = none)
    (missed : (c.get now other).1 = none) : ((c.get now key).2.get now other).1 = none := by
  cases found : c.find? now key with
  | none =>
    have same : (c.get now key).2 = c := by simp [get, found]
    rwa [same]
  | some e =>
    have dropped : (c.get now key).2 = c.erase key := by
      cases fresh : c.fresh now e with
      | true => simp [get, found, fresh] at miss
      | false => simp [get, found, fresh]
    rw [dropped]
    unfold get at missed ⊢
    rw [find?_erase]
    split
    · rfl
    · next x again =>
      by_cases same : other = key
      · simp [same] at again
      · rw [if_neg same] at again
        simp only [again] at missed
        cases fresh : c.fresh now x with
        | true => simp [fresh] at missed
        | false =>
          have stale : (c.erase key).fresh now x = false := fresh
          simp [stale]

theorem leastUsed?_mem {es : List CacheEntry} {e : CacheEntry} (h : leastUsed? es = some e) :
    e ∈ es := by
  induction es generalizing e with
  | nil => simp [leastUsed?] at h
  | cons a rest ih =>
    simp only [leastUsed?] at h
    split at h
    · simp_all
    · next other hother =>
      have := ih hother
      split at h <;> simp_all

theorem leastUsed?_eq_none {es : List CacheEntry} (h : leastUsed? es = none) : es = [] := by
  cases es with
  | nil => rfl
  | cons a rest =>
    simp only [leastUsed?] at h
    split at h
    · simp at h
    · split at h <;> simp at h

theorem length_filter_lt {α : Type} {p : α → Bool} {xs : List α} {x : α} (mem : x ∈ xs)
    (out : p x = false) : (xs.filter p).length < xs.length := by
  rcases Nat.lt_or_ge (xs.filter p).length xs.length with h | h
  · exact h
  · have all := List.length_filter_eq_length_iff.1 (Nat.le_antisymm (List.length_filter_le ..) h)
    simp [all x mem] at out

theorem length_makeRoom_lt {c : Cache} (size : 0 < c.size) (h : c.entries.length ≤ c.size) :
    c.makeRoom.entries.length < c.size := by
  unfold makeRoom
  split
  · assumption
  · split
    · next e he =>
      have := length_filter_lt (p := fun x => x.key != e.key) (leastUsed?_mem he) (by simp)
      simp only [erase]
      omega
    · next he => simp [leastUsed?_eq_none he, size]

theorem length_store_le {c : Cache} (size : 0 < c.size) (h : c.entries.length ≤ c.size)
    (now fetched : Seconds) (key : Text) (names : List Text) :
    (c.store now fetched key names).entries.length ≤ c.size := by
  have expired : (c.expire now).entries.length ≤ (c.expire now).size :=
    Nat.le_trans (List.length_filter_le ..) h
  simp only [store]
  split
  · next there =>
    obtain ⟨e, mem, he⟩ := List.any_eq_true.1 there
    have := length_filter_lt (p := fun x => x.key != key) mem (by simpa using he)
    simp only [append, erase, List.length_append, List.length_singleton]
    change _ ≤ (c.expire now).size
    omega
  · have := length_makeRoom_lt (c := c.expire now) size expired
    simp only [append, List.length_append, List.length_singleton]
    exact this

end Cache

end Typeahead
