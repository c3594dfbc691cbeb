import Typeahead.Proofs.Menu.Session

/-!
Rounds that have been superseded are invisible. What comes back for such a round, whatever it is and
whenever it comes, leaves no trace in the text, the cursor and the states that are published.

- `menu_run_visible`: a history and its visible part lead to the same menu.
- `superseded_invisible`: so do two histories with the same visible part.
-/

namespace Typeahead.Session

section
variable {α : Type}

/-- The round under way after an event; `live?` is the one under way before it. Only an act ends a round,
and the same act may begin the next one. -/
def current (s : Session) (live? : Option Nat) : Event α → Option Nat
  | .act a => if s.menu.ends a then (s.menu.act a).pending?.map (·.id) else live?
  | .pauseOver _ | .load _ | .finish .. => live?

variable (engine : Round → α → RoundResult)

/-- The visible part of a history: all of it but what came back for rounds that were no longer under way
by then. -/
def visible (s : Session) (live? : Option Nat) : List (Event α) → List (Event α)
  | [] => []
  | e :: later =>
    let rest := visible (s.step engine e) (s.current live? e) later
    match e with
    | .finish n _ => if live? = some n then e :: rest else rest
    | .act _ | .pauseOver _ | .load _ => e :: rest

/-- The round under way is the one that the menu counts last, and without one the last number that the
menu counted is that of no round. -/
structure Tracks (s : Session) (live? : Option Nat) : Prop where
  numbered : ∀ r ∈ s.rounds, r.id ≤ s.menu.round
  counted : ∀ n, live? = some n → n = s.menu.round
  idle : live? = none → ∀ r ∈ s.rounds, r.id ≠ s.menu.round

theorem start_tracks (language : Language) : Tracks (start language) none :=
  ⟨by simp [start, rounds], by simp, by simp [start, rounds]⟩

theorem Tracks.of_quiet {s t : Session} {live? : Option Nat} (h : Tracks s live?)
    (quiet : Quiet s t) : Tracks t live? where
  numbered r mem := quiet.round ▸ h.numbered r (quiet.rounds r mem)
  counted n live := quiet.round ▸ h.counted n live
  idle none r mem := quiet.round ▸ h.idle none r (quiet.rounds r mem)

theorem Tracks.ended {s : Session} {live? : Option Nat} (h : Tracks s live?) {m : Menu}
    (ended : Menu.Ended s.menu m) : Tracks { s with menu := m } (m.pending?.map (·.id)) := by
  have older (r : Round) (mem : r ∈ s.begun ∨ r ∈ s.loading) : r.id < m.round :=
    ended.round ▸ Nat.lt_succ_of_le (h.numbered r (mem_rounds.2 (.inr mem)))
  have newest (r : Round) (pending : m.pending? = some r) : r.id = m.round :=
    congrArg Round.id (ended.pending r pending)
  constructor
  · intro r mem
    rcases mem_rounds.1 mem with pending | begun
    · exact Nat.le_of_eq (newest r pending)
    · exact Nat.le_of_lt (older r begun)
  · intro n live
    obtain ⟨r, pending, rfl⟩ := Option.map_eq_some_iff.1 live
    exact newest r pending
  · intro none r mem
    rcases mem_rounds.1 mem with pending | begun
    · simp only [Option.map_eq_none_iff] at none
      simp [none] at pending
    · exact Nat.ne_of_lt (older r begun)

theorem tracks_step {s : Session} {live? : Option Nat} (h : Tracks s live?) (e : Event α) :
    Tracks (s.step engine e) (s.current live? e) := by
  cases e with
  | act a =>
    obtain ⟨ends, ended⟩ | ⟨stays, kept⟩ := s.menu.act_cases a
    · simp only [current, ends, if_true]
      exact h.ended ended
    · simp only [current, stays]
      exact h.of_quiet (.of_reshown kept.toReshown)
  | pauseOver n => exact h.of_quiet (s.pauseOver_quiet engine n)
  | load n => exact h.of_quiet (s.load_quiet engine n)
  | finish n answer => exact h.of_quiet (s.finish_quiet engine n answer)

/-- The rounds that the menu would still listen to, of those for which something was asked. -/
def listened (s : Session) : List Round := s.loading.filter fun r => r.id = s.menu.round

/-- The two sessions differ in what was asked for superseded rounds at most. -/
structure Alike (s t : Session) : Prop where
  menu : s.menu = t.menu
  begun : s.begun = t.begun
  listened : s.listened = t.listened

theorem Tracks.listened_eq_nil {s : Session} {live? : Option Nat} (h : Tracks s live?) {m : Menu}
    (ended : Menu.Ended s.menu m) : listened { s with menu := m } = [] := by
  apply List.filter_eq_nil_iff.2
  intro r mem
  have := h.numbered r (mem_rounds.2 (.inr (.inr mem)))
  have := ended.round
  simp only [decide_eq_true_eq]
  omega

theorem Alike.act {s t : Session} {live? : Option Nat} (h : Alike s t) (hs : Tracks s live?)
    (ht : Tracks t live?) (a : Act) :
    Alike (s.step engine (.act a)) (t.step engine (.act a)) := by
  obtain ⟨m, begun, ls⟩ := s
  obtain ⟨_, _, lt⟩ := t
  obtain ⟨rfl, rfl, listened⟩ := h
  refine ⟨rfl, rfl, ?_⟩
  obtain ⟨-, ended⟩ | ⟨-, kept⟩ := m.act_cases a
  · exact (hs.listened_eq_nil ended).trans (ht.listened_eq_nil ended).symm
  · simpa only [Session.listened, step, kept.round] using listened

theorem Alike.pauseOver {s t : Session} (h : Alike s t) (n : Nat) :
    Alike (s.step engine (.pauseOver n)) (t.step engine (.pauseOver n)) := by
  obtain ⟨m, begun, ls⟩ := s
  obtain ⟨_, _, lt⟩ := t
  obtain ⟨rfl, rfl, listened⟩ := h
  refine ⟨rfl, rfl, ?_⟩
  simpa only [Session.listened, step, Menu.round_pauseOver] using listened

theorem Alike.load {s t : Session} (h : Alike s t) (n : Nat) :
    Alike (s.step engine (.load n)) (t.step engine (.load n)) := by
  obtain ⟨m, begun, ls⟩ := s
  obtain ⟨_, _, lt⟩ := t
  obtain ⟨rfl, rfl, listened⟩ := h
  simp only [step]
  cases begun.find? fun r => r.id = n with
  | none => exact ⟨rfl, rfl, listened⟩
  | some r =>
    cases started : m.load? n with
    | none => exact ⟨rfl, rfl, listened⟩
    | some next =>
      have : next.round = m.round := by
        simp only [Menu.load?] at started
        split at started <;> cases started
        rfl
      refine ⟨rfl, rfl, ?_⟩
      simp only [Session.listened, this, List.filter_append] at listened ⊢
      rw [listened]

/-- What comes back for the round under way is taken alike. -/
theorem Alike.finish {s t : Session} (h : Alike s t) (answer : α) :
    Alike (s.step engine (.finish s.menu.round answer))
      (t.step engine (.finish s.menu.round answer)) := by
  obtain ⟨m, begun, ls⟩ := s
  obtain ⟨_, _, lt⟩ := t
  obtain ⟨rfl, rfl, listened⟩ := h
  have first : (ls.find? fun r => r.id = m.round) = lt.find? fun r => r.id = m.round := by
    simpa only [Session.listened, List.head?_filter] using congrArg List.head? listened
  simp only [step, first]
  cases lt.find? fun r => r.id = m.round with
  | none => exact ⟨rfl, rfl, listened⟩
  | some r =>
    have taken (l : List Round) :
        (l.filter fun r => r.id != m.round).filter (fun r => r.id = m.round) = [] := by
      simp [List.filter_eq_nil_iff]
    refine ⟨rfl, rfl, ?_⟩
    simp only [Session.listened, (m.finish_reshown _ _).round]
    rw [taken ls, taken lt]

/-- What comes back for another round is not noticed. -/
theorem Alike.unnoticed {s t : Session} {live? : Option Nat} (h : Alike s t) (hs : Tracks s live?)
    {n : Nat} (other : live? ≠ some n) (answer : α) :
    Alike (s.step engine (.finish n answer)) t := by
  obtain same | ⟨r, mem, rfl, next⟩ := s.finish_cases engine n answer
  · rwa [same]
  · have stale : r.id ≠ s.menu.round := by
      intro its
      cases live : live? with
      | none => exact hs.idle live r (mem_rounds.2 (.inr (.inr mem))) its
      | some k => exact other (by rw [live, hs.counted k live, its])
    have : s.menu.isStale r.id = true := by simpa [Menu.isStale] using stale
    rw [next, Menu.finish_of_isStale this]
    refine ⟨h.menu, h.begun, ?_⟩
    rw [← h.listened]
    simp only [Session.listened, List.filter_filter]
    apply List.filter_congr
    intro x _
    by_cases its : x.id = s.menu.round <;> simp [its, Ne.symm stale]

/-- A history and its visible part lead to the same menu. -/
theorem menu_run_visible (history : List (Event α)) {s t : Session} {live? : Option Nat}
    (hs : Tracks s live?) (ht : Tracks t live?) (alike : Alike s t) :
    (s.run engine history).menu = (t.run engine (s.visible engine live? history)).menu := by
  induction history generalizing s t live? with
  | nil => exact alike.menu
  | cons e later ih =>
    have both (next : Alike (s.step engine e) (t.step engine e))
        (same : t.current live? e = s.current live? e) :
        (s.run engine (e :: later)).menu =
          (t.run engine (e :: (s.step engine e).visible engine (s.current live? e) later)).menu :=
      ih (tracks_step engine hs e) (same ▸ tracks_step engine ht e) next
    cases e with
    | act a =>
      refine both (alike.act engine hs ht a) ?_
      simp only [current, alike.menu]
    | pauseOver n => exact both (alike.pauseOver engine n) rfl
    | load n => exact both (alike.load engine n) rfl
    | finish n answer =>
      by_cases its : live? = some n
      · obtain rfl := hs.counted n its
        simp only [visible, its, if_true]
        exact its ▸ both (alike.finish engine answer) rfl
      · simp only [visible, its, if_false]
        exact ih (tracks_step engine hs _) ht (alike.unnoticed engine hs its answer)

/-- Whatever comes back for superseded rounds, in whatever order, and whether at all: two histories that
differ in nothing else publish the same states and leave the same text and the same cursor. -/
theorem superseded_invisible (language : Language) (one other : List (Event α))
    (same : (start language).visible engine none one = (start language).visible engine none other) :
    let m := ((start language).run engine one).menu
    let n := ((start language).run engine other).menu
    m.published = n.published ∧ m.text = n.text ∧ m.cursor = n.cursor := by
  have tracks := start_tracks language
  have eq (history : List (Event α)) := menu_run_visible engine history tracks tracks ⟨rfl, rfl, rfl⟩
  simp only [eq one, eq other, same, and_self]

/-- Two rounds are superseded, one by more text and one by a close, and come back in either order, with
either failure or not at all, while the round after them comes back in time. -/
theorem superseded_invisible_two_rounds :
    let engine : Round → Bool → RoundResult := fun r known =>
      .failed (if known then .catalog (.badStatus r.text) else .fault r.text)
    let asked : List (Event Bool) := [
      .act (.edit ['a'] 1), .pauseOver 1, .load 1,
      .act (.edit ['a', 'b'] 2), .pauseOver 2, .load 2, .act .close,
      .act (.edit ['a', 'b', 'c'] 3), .pauseOver 4, .load 4]
    let one := asked ++ [.finish 2 true, .finish 4 true, .finish 1 false]
    let other := asked ++ [.finish 1 true, .finish 4 true]
    (start .logs).visible engine none one = (start .logs).visible engine none other ∧
    ((start .logs).run engine one).menu.published =
      ((start .logs).run engine other).menu.published :=
  ⟨rfl, (superseded_invisible _ .logs _ _ rfl).1⟩

end

end Typeahead.Session
