import Typeahead.Proofs.Fetch.Endings

/-!
Nothing in a pool is forgotten. A fetch or a call that has a step to take, an end to announce or a time
limit to keep is owed a signal, and the pool has posted it; an event answers one signal, and what it
leaves to be done it posts anew. So whoever does all that is posted gets everything done.

- `step_owes`: what is owed after a step was owed before, or is posted by it.
- `step_off`: no alarm is called off that a fetch is still owed.
-/

namespace Typeahead

/-- The signal that a fetch is owed. One in line is owed none: others hand it a slot. -/
def Fetch.due? (f : Fetch) : Option Signal :=
  match f.stage, f.stopping with
  | .ended _, _ => some (.announceDue f.id)
  | .queued, false => none
  | .asking, false => some (.limitSet f.id)
  | .begun, _ | .queued, true | .admitted, _ | .asking, true | .answered _, _ | .overdue, _ =>
    some (.fetchDue f.id)

/-- The signal that a call is owed, unless it waits for a fetch. -/
def Call.due? (c : Call) : Option Signal :=
  if c.awaits?.isSome then none else some (.callDue c.id)

/-- The fetch that a signal is about. -/
def Signal.fetch? : Signal → Option Nat
  | .fetchDue id | .announceDue id | .limitSet id | .sent id _ | .alarmsOff id => some id
  | .callDue _ | .settled _ _ => none

/-- Whether a signal tells that a fetch has a step to take or an end to announce, or that its alarms are
off. -/
def Signal.isNotice : Signal → Bool
  | .fetchDue _ | .announceDue _ | .alarmsOff _ => true
  | .callDue _ | .limitSet _ | .sent _ _ | .settled _ _ => false

theorem Signal.fetch?_of_isNotice {s : Signal} (h : s.isNotice = true) : s.fetch?.isSome = true := by
  cases s with
  | fetchDue | announceDue | alarmsOff => rfl
  | callDue | limitSet | sent | settled => cases h

/-- The signal that an event answers. -/
def PoolEvent.answers? : PoolEvent → Option Signal
  | .fetchStep id => some (.fetchDue id)
  | .announce id => some (.announceDue id)
  | .callStep id => some (.callDue id)
  | .expire id => some (.limitSet id)
  | .openCall _ _ | .abandon _ | .arrive _ _ | .arriveAtOnce _ _ | .cancelPending | .clearCache
  | .setTtl _ _ | .resetAuth => none

theorem Fetch.due?_fetch {f : Fetch} {s : Signal} (h : f.due? = some s) : s.fetch? = some f.id := by
  unfold due? at h
  split at h <;> cases h <;> rfl

theorem Fetch.due?_of_ended {f : Fetch} {outcome : Outcome} (ended : f.stage = .ended outcome) :
    f.due? = some (.announceDue f.id) := by simp [due?, ended]

theorem Fetch.ended_of_due {f : Fetch} (h : f.due? = some (.announceDue f.id)) :
    ∃ outcome, f.stage = .ended outcome := by
  cases stage : f.stage with
  | ended outcome => exact ⟨outcome, rfl⟩
  | queued | asking => cases stopping : f.stopping <;> simp [due?, stage, stopping] at h
  | begun | admitted | answered | overdue => simp [due?, stage] at h

theorem Call.due?_eq_some {c : Call} {s : Signal} (h : c.due? = some s) :
    c.awaits? = none ∧ s = .callDue c.id := by
  unfold due? at h
  split at h
  · cases h
  · next idle =>
    cases h
    exact ⟨by simpa using idle, rfl⟩

namespace Pool

/-- Something in the pool is owed a signal. -/
def Owes (p : Pool) (s : Signal) : Prop :=
  (∃ f ∈ p.fetches, f.due? = some s) ∨ ∃ c ∈ p.calls, c.due? = some s

/-- Fetches have been handed slots or told to stop, and what is owed to them is posted. The fetch `gone`
may have called its alarms off. -/
structure Roused (gone? : Option Nat) (p q : Pool) : Prop where
  outbox : ∀ s ∈ p.outbox, s ∈ q.outbox
  owes : ∀ s, q.Owes s → s ∈ q.outbox ∨ p.Owes s
  limits : ∀ id, q.Owes (.limitSet id) → p.Owes (.limitSet id)
  off : ∀ id, .alarmsOff id ∈ q.outbox →
    .alarmsOff id ∈ p.outbox ∨ gone? = some id ∨ ¬ q.Owes (.limitSet id)
  notices : ∀ s ∈ q.outbox, s ∈ p.outbox ∨ s.isNotice = true

/-- A fetch has taken a step, and what is owed after it is posted or was owed to others before. -/
structure Stepped (id : Nat) (p q : Pool) : Prop where
  outbox : ∀ s ∈ p.outbox, s ∈ q.outbox
  owes : ∀ s, q.Owes s → s ∈ q.outbox ∨ (p.Owes s ∧ s.fetch? ≠ some id)
  off : ∀ id, .alarmsOff id ∈ q.outbox → .alarmsOff id ∈ p.outbox ∨ ¬ q.Owes (.limitSet id)
  posts : ∀ s ∈ q.outbox, s ∈ p.outbox ∨ s.fetch?.isSome = true

/-- A fetch has ended, and asked nothing in the same step. -/
structure Finished (id : Nat) (p q : Pool) : Prop extends Stepped id p q where
  limits : ∀ i, q.Owes (.limitSet i) → p.Owes (.limitSet i)
  notices : ∀ s ∈ q.outbox, s ∈ p.outbox ∨ s.isNotice = true

section

variable {p q r : Pool} {f : Fetch} {gone? : Option Nat}

theorem mem_post {s t : Signal} : t ∈ (p.post s).outbox ↔ t ∈ p.outbox ∨ t = s := by
  simp [post]

/-- What a step posts has what the signal has that it posts. -/
theorem of_mem_post {s t : Signal} {P : Signal → Bool} (h : P s = true)
    (mem : t ∈ (p.post s).outbox) : t ∈ p.outbox ∨ P t = true := by
  rcases mem_post.1 mem with before | rfl
  · exact .inl before
  · exact .inr h

/-- A change of a fetch leaves what is owed to others. -/
theorem owes_updateFetch {id : Nat} {change : Fetch → Fetch} {s : Signal}
    (h : (p.updateFetch id change).Owes s) :
    (∃ g ∈ p.fetches, g.id = id ∧ (change g).due? = some s) ∨ p.Owes s ∧ s.fetch? ≠ some id := by
  rcases h with ⟨g, mem, due⟩ | ⟨c, mem, due⟩
  · obtain ⟨g', there, rfl⟩ := List.mem_map.1 mem
    by_cases same : g'.id = id
    · rw [if_pos same] at due
      exact .inl ⟨g', there, same, due⟩
    · rw [if_neg same] at due
      refine .inr ⟨.inl ⟨g', there, due⟩, fun about => same ?_⟩
      exact Option.some.inj ((Fetch.due?_fetch due).symm.trans about)
  · refine .inr ⟨.inr ⟨c, mem, due⟩, ?_⟩
    rw [(Call.due?_eq_some due).2]
    exact nofun

namespace Roused

theorem refl (p : Pool) : Roused gone? p p :=
  ⟨fun _ h => h, fun _ h => .inr h, fun _ h => h, fun _ h => .inl h, fun _ h => .inl h⟩

theorem trans (first : Roused gone? p q) (later : Roused gone? q r) : Roused gone? p r := by
  refine ⟨fun s mem => later.outbox s (first.outbox s mem), fun s owed => ?_,
    fun id owed => first.limits id (later.limits id owed), fun id off => ?_, fun s mem => ?_⟩
  · rcases later.owes s owed with posted | before
    · exact .inl posted
    · exact (first.owes s before).imp_left (later.outbox s)
  · rcases later.off id off with before | gone | silent
    · rcases first.off id before with before | gone | silent
      · exact .inl before
      · exact .inr (.inl gone)
      · exact .inr (.inr fun owed => silent (later.limits id owed))
    · exact .inr (.inl gone)
    · exact .inr (.inr silent)
  · exact (later.notices s mem).elim (first.notices s) .inr

theorem post (h : Roused gone? p q) {s : Signal} (notice : s.isNotice = true)
    (quiet : ∀ id, s = .alarmsOff id → gone? = some id) : Roused gone? p (q.post s) := by
  refine h.trans ⟨fun _ mem => mem_post.2 (.inl mem), fun _ owed => .inr owed, fun _ owed => owed, ?_, ?_⟩
  · intro id off
    exact (mem_post.1 off).imp_right fun same => .inl (quiet id same.symm)
  · intro t mem
    exact of_mem_post notice mem

/-- Whoever is handed a slot is owed a step, and it is posted. -/
theorem withGate (h : Roused gone? p q) (ids : List Nat) (gate : Gate) :
    Roused gone? p (q.withGate ids gate) := by
  have placed : Roused gone? q { q with gate } :=
    ⟨fun _ m => m, fun _ o => .inr o, fun _ o => o, fun _ m => .inl m, fun _ m => .inl m⟩
  refine List.foldlRecOn (motive := fun r : Pool => Roused gone? p r) ids _ (h.trans placed)
    fun r roused id _ => roused.trans ⟨fun s mem => mem_post.2 (.inl mem), fun s owed => ?_, fun i owed => ?_,
      fun i off => ?_, fun s mem => ?_⟩
  · rcases owes_updateFetch (p := r) owed with ⟨g, -, same, due⟩ | ⟨before, -⟩
    · obtain rfl : s = .fetchDue id := by simpa [Fetch.due?, same] using due.symm
      exact .inl (mem_post.2 (.inr rfl))
    · exact .inr before
  · rcases owes_updateFetch (p := r) owed with ⟨g, -, same, due⟩ | ⟨before, -⟩
    · simp [Fetch.due?] at due
    · exact before
  · exact (mem_post.1 off).imp_right nofun
  · exact of_mem_post rfl mem

theorem releaseSlot (h : Roused gone? p q) : Roused gone? p q.releaseSlot := h.withGate _ _

theorem leaveLine (h : Roused gone? p q) (id : Nat) (unused : Bool) :
    Roused gone? p (q.leaveLine id unused) := h.withGate _ _

theorem withInFlight (h : Roused gone? p q) (inFlight : Nat) : Roused gone? p { q with inFlight } :=
  ⟨h.outbox, h.owes, h.limits, h.off, h.notices⟩

theorem leave {id : Nat} (h : Roused (some id) p q) : Roused (some id) p (q.leave id) :=
  ((h.withInFlight (q.inFlight - 1)).post rfl fun i same => by cases same; rfl).releaseSlot

/-- Whoever is told to stop is owed a step, and it is posted if it was not owed before. -/
theorem stopFetch (h : Roused gone? p q) (kept : q.books.Kept) (id : Nat) :
    Roused gone? p (q.stopFetch id) := by
  refine h.trans ?_
  unfold Pool.stopFetch
  split
  · exact .refl q
  · next f found =>
    obtain ⟨mem, rfl⟩ := mem_of_fetch? found
    let told := q.updateFetch f.id fun f => { f with stopping := true }
    have owes {s : Signal} (owed : told.Owes s) : s = .fetchDue f.id ∨ q.Owes s := by
      rcases owes_updateFetch owed with ⟨g, there, same, due⟩ | ⟨before, -⟩
      · obtain rfl := eq_of_found kept there (same ▸ found)
        cases stage : f.stage with
        | ended outcome =>
          rw [Fetch.due?_of_ended (f := { f with stopping := true }) stage] at due
          exact .inr (.inl ⟨f, mem, (Fetch.due?_of_ended stage).trans due⟩)
        | begun | queued | admitted | asking | answered | overdue =>
          simp only [Fetch.due?, stage, Option.some.injEq] at due
          exact .inl due.symm
      · exact .inr before
    have silent : ¬ told.Owes (.limitSet f.id) := by
      intro owed
      rcases owes_updateFetch owed with ⟨g, -, -, due⟩ | ⟨-, other⟩
      · cases stage : g.stage <;> simp [Fetch.due?, stage] at due
      · exact other rfl
    have limits (i : Nat) (owed : told.Owes (.limitSet i)) : q.Owes (.limitSet i) :=
      (owes owed).resolve_left nofun
    dsimp only
    split
    · exact .refl q
    · exact .refl q
    · refine ⟨fun s m => mem_post.2 (.inl m), fun s owed => ?_, limits, fun i off => ?_, fun s m => ?_⟩
      · exact (owes owed).imp_left fun same => mem_post.2 (.inr same)
      · exact .inl ((mem_post.1 off).resolve_right nofun)
      · exact of_mem_post rfl m
    · refine ⟨fun s m => mem_post.2 (.inl (mem_post.2 (.inl m))), fun s owed => ?_, limits, fun i off => ?_,
        fun s m => ?_⟩
      · exact (owes owed).imp_left fun same => mem_post.2 (.inr same)
      · rcases mem_post.1 ((mem_post.1 off).resolve_right nofun) with before | same
        · exact .inl before
        · cases same
          exact .inr (.inr silent)
      · exact (of_mem_post rfl m).elim (of_mem_post rfl) .inr
    · next going notEnded notQueued notAsking =>
      refine ⟨fun s m => m, fun s owed => .inr ((owes owed).elim (fun same => ?_) id), limits,
        fun i off => .inl off, fun s m => .inl m⟩
      refine .inl ⟨f, mem, ?_⟩
      rw [same]
      cases stage : f.stage with
      | ended outcome => exact absurd stage (notEnded outcome)
      | queued => exact absurd stage notQueued
      | asking => exact absurd stage notAsking
      | begun | admitted | answered | overdue => simp [Fetch.due?, stage]

theorem stopFetches (h : Roused gone? p q) (kept : q.books.Kept) (ids : List Nat) :
    Roused gone? p (q.stopFetches ids) := by
  induction ids generalizing q with
  | nil => exact h
  | cons id ids ih => exact ih (h.stopFetch kept id) ((books_stopFetch q id).symm ▸ kept)

/-- A fetch that ends is owed the announcement of its end, and it is posted. No limit is set for it. -/
theorem endFetch {id : Nat} (h : Roused (some id) p q) (outcome : Outcome) :
    Finished id p (q.endFetch id outcome) := by
  have owes {s : Signal} (owed : (q.endFetch id outcome).Owes s) :
      s = .announceDue id ∨ q.Owes s ∧ s.fetch? ≠ some id := by
    rcases owes_updateFetch (p := q) owed with ⟨g, -, same, due⟩ | before
    · obtain rfl : s = .announceDue id := by simpa [Fetch.due?, same] using due.symm
      exact .inl rfl
    · exact .inr before
  have notices (s : Signal) (mem : s ∈ (q.endFetch id outcome).outbox) :
      s ∈ p.outbox ∨ s.isNotice = true := by
    exact (of_mem_post rfl mem).elim (h.notices s) .inr
  refine ⟨⟨fun s mem => mem_post.2 (.inl (h.outbox s mem)), fun s owed => ?_, fun i off => ?_,
    fun s mem => (notices s mem).imp_right Signal.fetch?_of_isNotice⟩, fun i owed => ?_, notices⟩
  · rcases owes owed with same | ⟨before, other⟩
    · exact .inl (mem_post.2 (.inr same))
    · exact (h.owes s before).imp (fun mem => mem_post.2 (.inl mem)) fun older => ⟨older, other⟩
  · rcases h.off i ((mem_post.1 off).resolve_right nofun) with before | same | silent
    · exact .inl before
    · cases same
      exact .inr fun owed => ((owes owed).resolve_left nofun).2 rfl
    · exact .inr fun owed => silent ((owes owed).resolve_left nofun).1
  · exact h.limits i ((owes owed).resolve_left nofun).1

/-- A fetch moves on, and what it is owed then is posted. -/
theorem move {id : Nat} (h : Roused none p q) (stage : FetchStage) {r : Pool}
    (fetches : r.fetches = (q.moveFetch id stage).fetches) (calls : r.calls = q.calls)
    (due : ∀ g ∈ q.fetches, g.id = id → ∀ s, Fetch.due? { g with stage } = some s → s ∈ r.outbox)
    (outbox : ∀ s ∈ q.outbox, s ∈ r.outbox)
    (quiet : ∀ i, .alarmsOff i ∈ r.outbox → .alarmsOff i ∈ p.outbox)
    (posts : ∀ s ∈ r.outbox, s ∈ q.outbox ∨ s.fetch?.isSome = true) : Stepped id p r := by
  refine ⟨fun s mem => outbox s (h.outbox s mem), fun s owed => ?_, fun i off => .inl (quiet i off),
    fun s mem => ?_⟩
  have moved : (q.moveFetch id stage).Owes s := by
    unfold Owes at owed ⊢
    rwa [fetches, calls] at owed
  rcases owes_updateFetch moved with ⟨g, there, same, mine⟩ | ⟨before, other⟩
  · exact .inl (due g there same s mine)
  · exact (h.owes s before).imp (outbox s) fun older => ⟨older, other⟩
  · exact (posts s mem).elim (fun m => (h.notices s m).imp_right Signal.fetch?_of_isNotice) .inr

/-- A fetch with a slot in hand goes in and sets its limit, or ends. -/
theorem pass (h : Roused none p q) (going : ∀ g ∈ q.fetches, g.id = f.id → g.stopping = false)
    (quiet : ∀ i, .alarmsOff i ∈ q.outbox → .alarmsOff i ∈ p.outbox) :
    Stepped f.id p (q.pass f) := by
  have mine : Roused (some f.id) p q :=
    ⟨h.outbox, h.owes, h.limits, fun i off => .inl (quiet i off), h.notices⟩
  unfold Pool.pass
  split
  · exact (mine.releaseSlot.endFetch _).toStepped
  · dsimp only
    split
    · refine h.move .overdue rfl rfl (fun g _ same s due => ?_)
        (fun s mem => mem_post.2 (.inl mem)) (fun i off => ?_) fun s mem => ?_
      · obtain rfl : s = .fetchDue f.id := by simpa [Fetch.due?, same] using due.symm
        exact mem_post.2 (.inr rfl)
      · exact quiet i ((mem_post.1 off).resolve_right nofun)
      · exact of_mem_post (P := fun s => s.fetch?.isSome) rfl mem
    · split
      · exact ((mine.withInFlight (q.inFlight + 1)).leave.endFetch _).toStepped
      · refine h.move .asking rfl rfl (fun g there same s due => ?_)
          (fun s mem => mem_post.2 (.inl (mem_post.2 (.inl mem)))) (fun i off => ?_) fun s mem => ?_
        · obtain rfl : s = .limitSet f.id := by
            simpa [Fetch.due?, same, going g there same] using due.symm
          exact mem_post.2 (.inl (mem_post.2 (.inr rfl)))
        · exact quiet i ((mem_post.1 ((mem_post.1 off).resolve_right nofun)).resolve_right nofun)
        · exact (of_mem_post (P := fun s => s.fetch?.isSome) rfl mem).elim
            (of_mem_post (P := fun s => s.fetch?.isSome) rfl) .inr

end Roused

/-- Whatever the reply is, the fetch that takes it ends. -/
theorem take_steps (kept : p.books.Kept) (f : Fetch) (now : Seconds) (reply : Reply) :
    Finished f.id p (p.take now f reply) := by
  have out : Roused (some f.id) p (p.leave f.id) := (Roused.refl p).leave
  unfold Pool.take
  dsimp only
  split
  · split
    · next cache _ =>
      have stored : Roused (some f.id) p { p.leave f.id with cache } :=
        ⟨out.outbox, out.owes, out.limits, out.off, out.notices⟩
      exact stored.endFetch _
    · exact out.endFetch _
  · next text _ =>
    let refused : Pool := { p with refusal? := some text }
    have calm : Roused (some f.id) p refused :=
      ⟨fun _ m => m, fun _ o => .inr o, fun _ o => o, fun _ m => .inl m, fun _ m => .inl m⟩
    exact (calm.stopFetches kept ((p.pending.map (·.fetch)).filter (· != f.id))).leave.endFetch _
  · exact out.endFetch _

theorem off_withGate {ids : List Nat} {gate : Gate} {i : Nat} :
    .alarmsOff i ∈ (p.withGate ids gate).outbox → .alarmsOff i ∈ p.outbox := by
  refine List.foldlRecOn (motive := fun q : Pool => .alarmsOff i ∈ q.outbox → .alarmsOff i ∈ p.outbox)
    ids _ ?_ ?_
  · exact fun off => off
  · intro q before id _ off
    exact before ((mem_post.1 off).resolve_right nofun)

/-- To be handed a slot stops nobody. -/
theorem stopping_withGate {ids : List Nat} {gate : Gate} {g : Fetch}
    (mem : g ∈ (p.withGate ids gate).fetches) :
    ∃ f ∈ p.fetches, f.id = g.id ∧ f.stopping = g.stopping := by
  rw [fetches_withGate] at mem
  obtain ⟨f, there, rfl⟩ := List.mem_map.1 mem
  refine ⟨f, there, (Fetch.id_handed ids f).symm, ?_⟩
  unfold Fetch.handed
  split <;> rfl

/-- The next step of a fetch answers the signal by which it was due. -/
theorem fetchStep_steps (kept : p.books.Kept) (now : Seconds) (id : Nat) :
    Stepped id p (p.fetchStep now id) ∨
    p.fetchStep now id = p ∧ ∀ f ∈ p.fetches, f.due? ≠ some (.fetchDue id) := by
  unfold Pool.fetchStep
  cases found : p.fetch? id with
  | none =>
    refine .inr ⟨rfl, fun f mem due => ?_⟩
    obtain rfl : id = f.id := Option.some.inj (Fetch.due?_fetch due)
    rw [fetch?_of_mem kept mem] at found
    cases found
  | some f =>
    obtain ⟨mem, rfl⟩ := mem_of_fetch? found
    have calm : Roused (some f.id) p p := .refl p
    -- whoever is not owed a step does not take one
    have idle (others : f.due? ≠ some (.fetchDue f.id)) :
        ∀ g ∈ p.fetches, g.due? ≠ some (.fetchDue f.id) := by
      intro g there due
      have same : f.id = g.id := Option.some.inj (Fetch.due?_fetch due)
      obtain rfl := eq_of_found kept there (same ▸ found)
      exact others due
    have going (still : f.stopping = false) (g : Fetch) (there : g ∈ p.fetches) (same : g.id = f.id) :
        g.stopping = false := by
      obtain rfl := eq_of_found kept there (same ▸ found)
      exact still
    dsimp only
    split
    · exact .inl (calm.endFetch _).toStepped
    · next going' =>
      left
      have placed : Roused none p { p with gate := (p.gate.enter f.id).2 } :=
        ⟨fun _ m => m, fun _ o => .inr o, fun _ o => o, fun _ m => .inl m, fun _ m => .inl m⟩
      split
      · exact placed.pass (going going') fun i off => off
      · refine placed.move .queued rfl rfl (fun g there same s due => ?_) (fun s mem => mem)
          (fun i off => off) fun s mem => .inl mem
        simp [Fetch.due?, going going' g there same] at due
    · exact .inl ((calm.leaveLine f.id false).endFetch _).toStepped
    · exact .inl ((calm.leaveLine f.id true).endFetch _).toStepped
    · next going' =>
      refine .inl (((Roused.refl p).leaveLine f.id false).pass (fun g there same => ?_)
        fun i off => off_withGate off)
      obtain ⟨g', there', same', stopping⟩ := stopping_withGate there
      exact stopping ▸ going going' g' there' (same'.trans same)
    · exact .inl (calm.leave.endFetch _).toStepped
    · exact .inl (calm.leave.endFetch _).toStepped
    · exact .inl (calm.leave.endFetch _).toStepped
    · exact .inl (take_steps kept f now _).toStepped
    · exact .inl (calm.leave.endFetch _).toStepped
    · next stage going' => exact .inr ⟨rfl, idle (by simp [Fetch.due?, stage, going'])⟩
    · next stage going' => exact .inr ⟨rfl, idle (by simp [Fetch.due?, stage, going'])⟩
    · next stage => exact .inr ⟨rfl, idle (by simp [Fetch.due?, stage])⟩

theorem arrive_steps (p : Pool) (id : Nat) (reply : Reply) :
    p.arrive id reply = p ∨ Stepped id p (p.arrive id reply) := by
  unfold Pool.arrive
  split
  · refine .inr ((Roused.refl p).move (.answered reply) rfl rfl (fun g _ same s due => ?_)
      (fun s mem => mem_post.2 (.inl mem)) (fun i off => (mem_post.1 off).resolve_right nofun)
      fun s mem => of_mem_post (P := fun s => s.fetch?.isSome) rfl mem)
    obtain rfl : s = .fetchDue id := by simpa [Fetch.due?, same] using due.symm
    exact mem_post.2 (.inr rfl)
  · exact .inl rfl

theorem arriveAtOnce_steps (kept : p.books.Kept) (now : Seconds) (id : Nat) (reply : Reply) :
    p.arriveAtOnce now id reply = p ∨ Finished id p (p.arriveAtOnce now id reply) := by
  unfold Pool.arriveAtOnce
  split
  · next f found =>
    obtain ⟨-, rfl⟩ := mem_of_fetch? found
    split
    · exact .inr (take_steps kept f now reply)
    · exact .inl rfl
  · exact .inl rfl

/-- When its time limit passes a fetch has a step to take, and it is posted unless it was owed before. -/
theorem expire_owes (kept : p.books.Kept) (id : Nat) {s : Signal} (owed : (p.expire id).Owes s) :
    s ∈ (p.expire id).outbox ∨ p.Owes s ∧ s ≠ .limitSet id := by
  unfold Pool.expire at owed ⊢
  have others (h : p.Owes s ∧ s.fetch? ≠ some id) : p.Owes s ∧ s ≠ .limitSet id :=
    ⟨h.1, fun same => h.2 (same ▸ rfl)⟩
  split at owed
  · rcases owes_updateFetch (p := p) owed with ⟨g, -, same, due⟩ | before
    · obtain rfl : s = .fetchDue id := by simpa [Fetch.due?, same] using due.symm
      exact .inl (mem_post.2 (.inr rfl))
    · exact .inr (others before)
  · next found =>
    rcases owes_updateFetch (p := p) owed with ⟨g, -, same, due⟩ | before
    · obtain rfl : s = .fetchDue id := by simpa [Fetch.due?, same] using due.symm
      obtain ⟨mem, number⟩ := mem_of_fetch? found
      exact .inr ⟨.inl ⟨_, mem, by simp [Fetch.due?, ← number]⟩, nofun⟩
    · exact .inr (others before)
  · next notAsking notAnswered =>
    refine .inr ⟨owed, ?_⟩
    rintro rfl
    rcases owed with ⟨f, mem, due⟩ | ⟨c, -, due⟩
    · obtain rfl : id = f.id := Option.some.inj (Fetch.due?_fetch due)
      have found := fetch?_of_mem kept mem
      cases stage : f.stage with
      | asking =>
        cases stopping : f.stopping with
        | true => simp [Fetch.due?, stage, stopping] at due
        | false =>
          obtain ⟨id, lookup, _, _, watchers⟩ := f
          subst stage stopping
          exact notAsking _ _ _ found
      | queued =>
        cases stopping : f.stopping <;> simp [Fetch.due?, stage, stopping] at due
      | begun | admitted | answered | overdue | ended => simp [Fetch.due?, stage] at due
    · cases (Call.due?_eq_some due).2

theorem owes_setCall {call : Call} {s : Signal} (h : (p.setCall call).Owes s) :
    call.due? = some s ∨ p.Owes s ∧ s ≠ .callDue call.id := by
  rcases h with ⟨f, mem, due⟩ | ⟨c, mem, due⟩
  · refine .inr ⟨.inl ⟨f, mem, due⟩, ?_⟩
    rintro rfl
    cases Fetch.due?_fetch due
  · rcases Books.mem_setCall (b := p.books) mem with rfl | ⟨old, other⟩
    · exact .inl due
    · refine .inr ⟨.inr ⟨c, old, due⟩, fun same => other ?_⟩
      exact Signal.callDue.inj ((Call.due?_eq_some due).2.symm.trans same)

/-- The step of a call answers the signal by which it was due, and calls no alarm off. -/
theorem CallMove.owes {c : Call} (move : CallMove p c q) {s : Signal} (owed : q.Owes s) :
    s ∈ q.outbox ∨ p.Owes s ∧ s ≠ .callDue c.id := by
  cases move with
  | settle cache resolution =>
    rcases owed with ⟨f, mem, due⟩ | ⟨x, mem, due⟩
    · refine .inr ⟨.inl ⟨f, mem, due⟩, ?_⟩
      rintro rfl
      cases Fetch.due?_fetch due
    · obtain ⟨there, other⟩ := List.mem_filter.1 mem
      refine .inr ⟨.inr ⟨x, there, due⟩, fun same => bne_iff_ne.1 other ?_⟩
      exact Signal.callDue.inj ((Call.due?_eq_some due).2.symm.trans same)
  | finish cache call outcome same =>
    rcases owes_setCall (p := { p with cache }) owed with due | ⟨before, other⟩
    · exact .inl (mem_post.2 (.inr (Call.due?_eq_some due).2))
    · exact .inr ⟨before, same ▸ other⟩
  | begin cache call same going =>
    have idle : Call.due? { call with stage := .waiting p.nextFetch } = none := by
      simp [Call.due?, Call.awaits?, going]
    rcases owes_setCall (p := Pool.post _ (.fetchDue p.nextFetch)) owed with due | ⟨before, other⟩
    · rw [idle] at due
      cases due
    · rcases before with ⟨f, mem, due⟩ | calls
      · rcases List.mem_append.1 mem with old | new
        · exact .inr ⟨.inl ⟨f, old, due⟩, same ▸ other⟩
        · rw [List.mem_singleton.1 new] at due
          exact .inl (mem_post.2 (.inr (Option.some.inj due).symm))
      · exact .inr ⟨.inr calls, same ▸ other⟩
  | join cache call fetch same going =>
    have idle : Call.due? { call with stage := .waiting fetch } = none := by
      simp [Call.due?, Call.awaits?, going]
    rcases owes_setCall (p := Pool.updateFetch _ fetch _) owed with due | ⟨before, other⟩
    · rw [idle] at due
      cases due
    · rcases owes_updateFetch before with ⟨g, mem, -, due⟩ | ⟨older, -⟩
      · exact .inr ⟨.inl ⟨g, mem, due⟩, same ▸ other⟩
      · exact .inr ⟨older, same ▸ other⟩

theorem CallMove.off {c : Call} (move : CallMove p c q) {i : Nat} (off : .alarmsOff i ∈ q.outbox) :
    .alarmsOff i ∈ p.outbox := by
  cases move with
  | settle | finish | begin => exact (mem_post.1 off).resolve_right nofun
  | join => exact off

theorem outbox_tell (p : Pool) (outcome : Outcome) (id : Nat) :
    (p.tell outcome id).outbox = p.outbox ++ if (p.call? id).isSome then [.callDue id] else [] := by
  unfold tell
  split
  · next found =>
    rw [found]
    rfl
  · next missing => simp [missing]

theorem isSome_call? {id : Nat} : (p.call? id).isSome = true ↔ ∃ c ∈ p.calls, c.id = id := by
  simp [call?]

/-- Whoever is told an end has a step to take, and nothing else is posted. -/
theorem mem_tellAll {outcome : Outcome} {ids : List Nat} {s : Signal} :
    s ∈ (ids.foldl (tell outcome) p).outbox ↔
      s ∈ p.outbox ∨ ∃ id ∈ ids, s = .callDue id ∧ ∃ c ∈ p.calls, c.id = id := by
  induction ids generalizing p with
  | nil => simp
  | cons id ids ih =>
    have numbers (i : Nat) : (∃ c ∈ (p.tell outcome id).calls, c.id = i) ↔ ∃ c ∈ p.calls, c.id = i := by
      have same : (p.tell outcome id).calls.map (·.id) = p.calls.map (·.id) := by
        unfold tell
        split
        · exact Books.ids_setCall p.books _
        · rfl
      rw [← List.mem_map, ← List.mem_map, same]
    rw [List.foldl_cons, ih, outbox_tell, List.mem_append]
    simp only [numbers, List.exists_mem_cons_iff, or_assoc]
    refine or_congr_right (or_congr_left ?_)
    split
    · next there => simp [isSome_call?.1 there]
    · next missing => simp [mt isSome_call?.2 missing]

/-- An announcement posts a step for each call that waited for the fetch, and nothing else. -/
theorem mem_outbox_announce (kept : p.books.Kept) (mem : f ∈ p.fetches) {outcome : Outcome}
    (ended : f.stage = .ended outcome) {s : Signal} :
    s ∈ (p.announce f.id).outbox ↔
      s ∈ p.outbox ∨ ∃ id ∈ f.watchers, s = .callDue id ∧ ∃ c ∈ p.calls, c.id = id := by
  rw [announce_eq kept mem ended]
  exact mem_tellAll

/-- Whoever waited for a fetch whose end is announced has a step to take, and it is posted. -/
theorem announce_owes (kept : p.books.Kept) (id : Nat) {s : Signal} (owed : (p.announce id).Owes s) :
    s ∈ (p.announce id).outbox ∨ p.Owes s ∧ s ≠ .announceDue id := by
  obtain same | ⟨f, outcome, mem, rfl, ended⟩ := p.announce_cases id
  · rw [same] at owed ⊢
    refine .inr ⟨owed, ?_⟩
    rintro rfl
    rcases owed with ⟨f, mem, due⟩ | ⟨c, -, due⟩
    · obtain rfl : id = f.id := Option.some.inj (Fetch.due?_fetch due)
      obtain ⟨outcome, ended⟩ := Fetch.ended_of_due due
      have still := fetches_announce kept mem ended
      rw [same] at still
      rw [still] at mem
      exact bne_iff_ne.1 (List.mem_filter.1 mem).2 rfl
    · cases (Call.due?_eq_some due).2
  · have calls : (p.announce f.id).calls = (p.books.tell outcome f.watchers).calls :=
      congrArg Books.calls (books_announce kept mem ended)
    rcases owed with ⟨g, there, due⟩ | ⟨x, there, due⟩
    · rw [fetches_announce kept mem ended] at there
      obtain ⟨old, other⟩ := List.mem_filter.1 there
      refine .inr ⟨.inl ⟨g, old, due⟩, ?_⟩
      rintro rfl
      exact bne_iff_ne.1 other (Option.some.inj (Fetch.due?_fetch due)).symm
    · obtain ⟨-, rfl⟩ := Call.due?_eq_some due
      rw [calls] at there
      obtain ⟨c, old, ⟨watches, rfl⟩ | ⟨-, rfl⟩⟩ := Books.mem_tell there
      · exact .inl ((mem_outbox_announce kept mem ended).2 (.inr ⟨c.id, watches, rfl, c, old, rfl⟩))
      · exact .inr ⟨.inr ⟨x, old, due⟩, by rintro ⟨⟩⟩

theorem openCall_owes (p : Pool) (id : Nat) (context : Context) {s : Signal}
    (owed : (p.openCall id context).2.Owes s) : s ∈ (p.openCall id context).2.outbox ∨ p.Owes s := by
  obtain ⟨resolution, same⟩ | ⟨lookup, opened⟩ := p.openCall_cases id context
  · rw [same] at owed ⊢
    exact .inr owed
  · rw [opened] at owed ⊢
    rcases owed with fetches | ⟨c, mem, due⟩
    · exact .inr (.inl fetches)
    · rcases List.mem_append.1 mem with old | new
      · exact .inr (.inr ⟨c, old, due⟩)
      · rw [(Call.due?_eq_some due).2, List.mem_singleton.1 new]
        exact .inl (mem_post.2 (.inr rfl))

/-- A call that is given up has a step to take; so it had before, unless it waited. -/
theorem abandon_owes (p : Pool) (id : Nat) {s : Signal} (owed : (p.abandon id).Owes s) :
    s ∈ (p.abandon id).outbox ∨ p.Owes s := by
  obtain same | ⟨c, mem, rfl, ⟨idle, same⟩ | ⟨fetch, -, same⟩⟩ := p.abandon_cases id
  · exact .inr (same ▸ owed)
  · rw [same] at owed
    rcases owes_setCall owed with due | ⟨older, -⟩
    · refine .inr (.inr ⟨c, mem, ?_⟩)
      rw [(Call.due?_eq_some due).2]
      simp [Call.due?, idle]
    · exact .inr older
  · rw [same] at owed ⊢
    rcases owes_updateFetch owed with ⟨g, there, -, due⟩ | ⟨before, -⟩
    · exact .inr (.inl ⟨g, there, due⟩)
    · rcases owes_setCall before with due | ⟨older, -⟩
      · exact .inl (mem_post.2 (.inr (Call.due?_eq_some due).2))
      · exact .inr older

theorem callStep_owes (kept : p.books.Kept) (now : Seconds) (id : Nat) {s : Signal}
    (owed : (p.callStep now id).Owes s) :
    s ∈ (p.callStep now id).outbox ∨ p.Owes s ∧ s ≠ .callDue id := by
  -- whoever has no step to take is not owed one
  have idle (same : p.callStep now id = p)
      (none : ∀ c, p.call? id = some c → c.awaits? ≠ none) : p.Owes s ∧ s ≠ .callDue id := by
    rw [same] at owed
    refine ⟨owed, ?_⟩
    rintro rfl
    rcases owed with ⟨f, -, due⟩ | ⟨c, mem, due⟩
    · cases Fetch.due?_fetch due
    · obtain ⟨waits, number⟩ := Call.due?_eq_some due
      cases number
      exact none c (find?_of_nodup kept.attended.numbers mem) waits
  cases found : p.call? id with
  | none =>
    exact .inr (idle (by simp only [callStep, found]) (by simp [found]))
  | some c =>
    cases waits : c.awaits? with
    | some fetch =>
      exact .inr (idle (callStep_waits found waits now) (by simp [found, waits]))
    | none =>
      obtain rfl := (mem_of_call? found).2
      exact (callStep_moves found waits now).owes owed

/-- What is owed after an event was owed before and is not what the event answers, or else it is posted. -/
theorem step_owes (kept : p.books.Kept) (now : Seconds) (e : PoolEvent) {s : Signal}
    (owed : (p.step now e).Owes s) :
    s ∈ (p.step now e).outbox ∨ p.Owes s ∧ e.answers? ≠ some s := by
  cases e with
  | openCall id context =>
    cases taken : p.call? id with
    | none =>
      simp only [step, taken, Option.isSome_none, Bool.false_eq_true, if_false] at owed ⊢
      exact (openCall_owes p id context owed).imp_right fun before => ⟨before, by rintro ⟨⟩⟩
    | some c =>
      simp only [step, taken, Option.isSome_some, if_true] at owed ⊢
      exact .inr ⟨owed, by rintro ⟨⟩⟩
  | abandon id => exact (abandon_owes p id owed).imp_right fun before => ⟨before, by rintro ⟨⟩⟩
  | callStep id =>
    exact (callStep_owes kept now id owed).imp_right fun h => ⟨h.1, fun same => h.2 (Option.some.inj same).symm⟩
  | fetchStep id =>
    obtain steps | ⟨same, none⟩ := fetchStep_steps kept now id
    · refine (steps.owes s owed).imp_right fun h => ⟨h.1, fun same => h.2 ?_⟩
      rw [← Option.some.inj same]
      rfl
    · change s ∈ (p.fetchStep now id).outbox ∨ _
      change (p.fetchStep now id).Owes s at owed
      rw [same] at owed ⊢
      refine .inr ⟨owed, fun answered => ?_⟩
      obtain rfl : .fetchDue id = s := Option.some.inj answered
      rcases owed with ⟨f, mem, due⟩ | ⟨c, -, due⟩
      · exact none f mem due
      · cases (Call.due?_eq_some due).2
  | announce id =>
    exact (announce_owes kept id owed).imp_right fun h => ⟨h.1, fun same => h.2 (Option.some.inj same).symm⟩
  | arrive id reply =>
    obtain same | steps := p.arrive_steps id reply
    · exact .inr ⟨same ▸ owed, by rintro ⟨⟩⟩
    · exact (steps.owes s owed).imp_right fun h => ⟨h.1, by rintro ⟨⟩⟩
  | arriveAtOnce id reply =>
    obtain same | steps := arriveAtOnce_steps kept now id reply
    · exact .inr ⟨same ▸ owed, by rintro ⟨⟩⟩
    · exact (steps.owes s owed).imp_right fun h => ⟨h.1, by rintro ⟨⟩⟩
  | expire id =>
    exact (expire_owes kept id owed).imp_right fun h => ⟨h.1, fun same => h.2 (Option.some.inj same).symm⟩
  | cancelPending =>
    have roused : Roused none p p.cancelPending := (Roused.refl p).stopFetches kept _
    exact (roused.owes s owed).imp_right fun before => ⟨before, by rintro ⟨⟩⟩
  | clearCache => exact .inr ⟨owed, by rintro ⟨⟩⟩
  | setTtl ttl given =>
    obtain ⟨cache, same⟩ := p.setTtl_cases now ttl given
    rw [same] at owed ⊢
    exact .inr ⟨owed, by rintro ⟨⟩⟩
  | resetAuth => exact .inr ⟨owed, by rintro ⟨⟩⟩

/-- An event calls no alarm off that a fetch is owed after it. -/
theorem step_off (kept : p.books.Kept) (now : Seconds) (e : PoolEvent) {i : Nat}
    (off : .alarmsOff i ∈ (p.step now e).outbox) :
    .alarmsOff i ∈ p.outbox ∨ ¬ (p.step now e).Owes (.limitSet i) := by
  cases e with
  | openCall id context =>
    obtain same | ⟨-, lookup, opened⟩ := p.step_openCall_cases now id context
    · exact .inl (same ▸ off)
    · rw [opened] at off
      exact .inl ((mem_post.1 off).resolve_right (by rintro ⟨⟩))
  | abandon id =>
    left
    change .alarmsOff i ∈ (p.abandon id).outbox at off
    obtain same | ⟨c, -, -, ⟨-, same⟩ | ⟨fetch, -, same⟩⟩ := p.abandon_cases id
    · rwa [same] at off
    · rwa [same] at off
    · rw [same] at off
      exact (mem_post.1 off).resolve_right (by rintro ⟨⟩)
  | callStep id =>
    obtain same | ⟨c, -, -, move⟩ := p.callStep_cases now id
    · exact .inl (same ▸ off)
    · exact .inl (move.off off)
  | fetchStep id =>
    obtain steps | ⟨same, -⟩ := fetchStep_steps kept now id
    · exact steps.off i off
    · exact .inl (same ▸ off)
  | announce id =>
    obtain same | ⟨f, outcome, mem, rfl, ended⟩ := p.announce_cases id
    · exact .inl (same ▸ off)
    · exact .inl (((mem_outbox_announce kept mem ended).1 off).resolve_right (by rintro ⟨_, -, ⟨⟩, -⟩))
  | arrive id reply =>
    obtain same | steps := p.arrive_steps id reply
    · exact .inl (same ▸ off)
    · exact steps.off i off
  | arriveAtOnce id reply =>
    obtain same | steps := arriveAtOnce_steps kept now id reply
    · exact .inl (same ▸ off)
    · exact steps.off i off
  | expire id =>
    left
    change .alarmsOff i ∈ (p.expire id).outbox at off
    unfold expire at off
    split at off
    · exact (mem_post.1 off).resolve_right (by rintro ⟨⟩)
    · exact off
    · exact off
  | cancelPending =>
    have roused : Roused none p p.cancelPending := (Roused.refl p).stopFetches kept _
    exact (roused.off i off).imp_right fun h => h.resolve_left (by rintro ⟨⟩)
  | clearCache => exact .inl off
  | setTtl ttl given =>
    obtain ⟨cache, same⟩ := p.setTtl_cases now ttl given
    rw [same] at off
    exact .inl off
  | resetAuth => exact .inl off

end

end Pool

end Typeahead
