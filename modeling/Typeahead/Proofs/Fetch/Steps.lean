import Typeahead.Fetch.Pool

/-!
The steps of a pool. Calls are opened and given up, calls and fetches take their steps, ends of fetches
are announced, replies come and time limits pass, the cache is cleared or given another time to live,
what is under way is stopped and a block is lifted: any of it at any time, in any order.

- `books_fetchStep`: nothing that a fetch does by itself concerns the register, the calls, and who waits
  for what.
-/

namespace Typeahead

/-- What happens to a pool. Calls and fetches are told by their numbers. -/
inductive PoolEvent where
  | openCall (call : Nat) (context : Context)
  | abandon (call : Nat)
  | callStep (call : Nat)
  | fetchStep (fetch : Nat)
  | announce (fetch : Nat)
  | arrive (fetch : Nat) (reply : Reply)
  | arriveAtOnce (fetch : Nat) (reply : Reply)
  | expire (fetch : Nat)
  | cancelPending
  | clearCache
  | setTtl (ttl : Seconds) (given : Number)
  | resetAuth

/-- What the register and the calls know of a pool: nothing of how far its fetches have come. -/
structure Books where
  site : Text
  nextFetch : Nat
  pending : List Registration
  calls : List Call
  fetches : List Fetch

/-- A fetch as if it had not moved. -/
def Fetch.unmoved (f : Fetch) : Fetch := { f with stage := .begun, stopping := false }

namespace Pool

/-- The pool after an event. A call takes a number that no other call has. -/
def step (p : Pool) (now : Seconds) : PoolEvent → Pool
  | .openCall id context => if (p.call? id).isSome then p else (p.openCall id context).2
  | .abandon id => p.abandon id
  | .callStep id => p.callStep now id
  | .fetchStep id => p.fetchStep now id
  | .announce id => p.announce id
  | .arrive id reply => p.arrive id reply
  | .arriveAtOnce id reply => p.arriveAtOnce now id reply
  | .expire id => p.expire id
  | .cancelPending => p.cancelPending
  | .clearCache => p.clearCache
  | .setTtl ttl given => (p.setTtl? now ttl given).toOption.getD p
  | .resetAuth => p.resetAuth

/-- The pool after events, each at its point of time. -/
def run (p : Pool) (es : List (Seconds × PoolEvent)) : Pool :=
  es.foldl (fun p e => p.step e.1 e.2) p

theorem run_cons (p : Pool) (now : Seconds) (e : PoolEvent) (es : List (Seconds × PoolEvent)) :
    p.run ((now, e) :: es) = (p.step now e).run es := rfl

theorem run_append (p : Pool) (es more : List (Seconds × PoolEvent)) :
    p.run (es ++ more) = (p.run es).run more := List.foldl_append

/-- The pools that come of a new one with a number of slots, whatever happens to it. -/
inductive Reachable (slots : Int) : Pool → Prop where
  | create {site : Text} {base : Path} {ttl : Seconds} {size : Int} {limit : Number} {p : Pool} :
    Pool.create site base ttl size slots limit = .ok p → Reachable slots p
  | step {p : Pool} (now : Seconds) (e : PoolEvent) :
    Reachable slots p → Reachable slots (p.step now e)

theorem Reachable.run {slots : Int} {p : Pool} (h : Reachable slots p)
    (es : List (Seconds × PoolEvent)) : Reachable slots (p.run es) :=
  List.foldlRecOn (motive := fun q : Pool => Reachable slots q) es _ h fun _ ih e _ => ih.step e.1 e.2

/-- What the register and the calls know of the pool. -/
def books (p : Pool) : Books :=
  ⟨p.site, p.nextFetch, p.pending, p.calls, p.fetches.map Fetch.unmoved⟩

@[simp] theorem books_post (p : Pool) (s : Signal) : (p.post s).books = p.books := rfl

theorem books_updateFetch (p : Pool) (id : Nat) {change : Fetch → Fetch}
    (same : ∀ f, (change f).unmoved = f.unmoved) : (p.updateFetch id change).books = p.books := by
  simp only [books, updateFetch, List.map_map, Books.mk.injEq, true_and]
  apply List.map_congr_left
  intro f _
  simp only [Function.comp]
  split
  · exact same f
  · rfl

@[simp] theorem books_moveFetch (p : Pool) (id : Nat) (stage : FetchStage) :
    (p.moveFetch id stage).books = p.books := books_updateFetch p id fun _ => rfl

@[simp] theorem books_endFetch (p : Pool) (id : Nat) (outcome : Outcome) :
    (p.endFetch id outcome).books = p.books := by
  rw [endFetch, books_post, books_moveFetch]

@[simp] theorem books_withGate (p : Pool) (admitted : List Nat) (gate : Gate) :
    (p.withGate admitted gate).books = p.books :=
  List.foldlRecOn (motive := fun q : Pool => q.books = p.books) admitted _ rfl
    fun q h id _ => by rw [books_post, books_moveFetch, h]

@[simp] theorem books_releaseSlot (p : Pool) : p.releaseSlot.books = p.books := books_withGate ..

@[simp] theorem books_leave (p : Pool) (id : Nat) : (p.leave id).books = p.books :=
  books_releaseSlot _

@[simp] theorem books_leaveLine (p : Pool) (id : Nat) (unused : Bool) :
    (p.leaveLine id unused).books = p.books := books_withGate ..

@[simp] theorem books_stopFetch (p : Pool) (id : Nat) : (p.stopFetch id).books = p.books := by
  have stopped : (p.updateFetch id fun f => { f with stopping := true }).books = p.books :=
    books_updateFetch p id fun _ => rfl
  unfold stopFetch
  split
  · rfl
  · dsimp only
    split
    · rfl
    · rfl
    · exact stopped
    · exact stopped
    · exact stopped

@[simp] theorem books_stopFetches (p : Pool) (ids : List Nat) : (p.stopFetches ids).books = p.books :=
  List.foldlRecOn (motive := fun q : Pool => q.books = p.books) ids _ rfl
    fun q h id _ => (books_stopFetch q id).trans h

@[simp] theorem books_pass (p : Pool) (f : Fetch) : (p.pass f).books = p.books := by
  unfold pass
  split
  · rw [books_endFetch, books_releaseSlot]
  · dsimp only
    split
    · rw [books_post, books_moveFetch]
      rfl
    · split
      · rw [books_endFetch, books_leave]
        rfl
      · rw [books_post, books_post, books_moveFetch]
        rfl

@[simp] theorem books_take (p : Pool) (now : Seconds) (f : Fetch) (reply : Reply) :
    (p.take now f reply).books = p.books := by
  unfold take
  dsimp only
  split
  · split
    · rw [books_endFetch]
      exact books_leave ..
    · rw [books_endFetch, books_leave]
  · rw [books_endFetch, books_leave, books_stopFetches]
    rfl
  · rw [books_endFetch, books_leave]

theorem books_fetchStep (p : Pool) (now : Seconds) (id : Nat) :
    (p.fetchStep now id).books = p.books := by
  unfold fetchStep
  split
  · rfl
  · split
    · exact books_endFetch ..
    · dsimp only
      split
      · exact books_pass ..
      · exact books_moveFetch ..
    · rw [books_endFetch, books_leaveLine]
    · rw [books_endFetch, books_leaveLine]
    · rw [books_pass, books_leaveLine]
    · rw [books_endFetch, books_leave]
    · rw [books_endFetch, books_leave]
    · rw [books_endFetch, books_leave]
    · exact books_take ..
    · rw [books_endFetch, books_leave]
    · rfl
    · rfl
    · rfl

theorem books_arrive (p : Pool) (id : Nat) (reply : Reply) : (p.arrive id reply).books = p.books := by
  unfold arrive
  split
  · rw [books_post, books_moveFetch]
  · rfl

theorem books_arriveAtOnce (p : Pool) (now : Seconds) (id : Nat) (reply : Reply) :
    (p.arriveAtOnce now id reply).books = p.books := by
  unfold arriveAtOnce
  split
  · split
    · exact books_take ..
    · rfl
  · rfl

theorem books_expire (p : Pool) (id : Nat) : (p.expire id).books = p.books := by
  unfold expire
  split
  · rw [books_post, books_moveFetch]
  · exact books_moveFetch ..
  · rfl

theorem books_cancelPending (p : Pool) : p.cancelPending.books = p.books := books_stopFetches ..

end Pool

end Typeahead
