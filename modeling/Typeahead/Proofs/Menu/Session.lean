import Typeahead.Menu
import Typeahead.Proofs.Edit.Cursor

/-!
A menu at work. The one who types acts on it, pauses come to an end, rounds begin to load, and what was
asked for them comes back, in any order. What was asked for a round may come back long after the round
has been superseded, or never.

- `act_cases`: an act ends the round under way, or it moves the selection at most.
- `pauseOver_quiet`, `load_quiet`, `finish_quiet`: nothing but an act changes the query or begins a round.
-/

namespace Typeahead

/-- What the one who types does to a menu. To lose the focus is to close it. -/
inductive Act where
  | edit (text : Text) (cursor : Int)
  | press (key : Key) (runsQuery : Bool)
  | hover (index : Int)
  | commit (index? : Option Int)
  | close
  | dismissError
  | reset

namespace Menu

/-- The menu after an act. -/
def act (m : Menu) : Act → Menu
  | .edit text cursor => m.edit text cursor
  | .press key runsQuery => (m.press key runsQuery).2
  | .hover index => m.hover index
  | .commit index? => (m.commit index?).2
  | .close => m.close
  | .dismissError => m.dismissError
  | .reset => m.reset

/-- Whether an act ends the round under way: a change of the text, an item that was accepted, and
whatever closes the menu. -/
def ends (m : Menu) : Act → Bool
  | .edit .. | .close | .reset => true
  | .press key runsQuery =>
    key = .escape || (key = .enter && runsQuery) || (m.press key runsQuery).1.isSome
  | .commit index? => (m.commit index?).1.isSome
  | .dismissError => m.state.phase = .failed
  | .hover _ => false

/-- `n` is a menu after the round under way in `m` was ended. -/
structure Ended (m n : Menu) : Prop where
  language : n.language = m.language
  round : n.round = m.round + 1
  closed : n.state.isOpen = false
  pending : ∀ r ∈ n.pending?, r = ⟨n.round, n.text, n.cursor⟩
  inside : m.cursor ≤ m.text.length → n.cursor ≤ n.text.length

/-- `n` differs from `m` in what is shown at most. -/
structure Reshown (m n : Menu) : Prop where
  language : n.language = m.language
  text : n.text = m.text
  cursor : n.cursor = m.cursor
  round : n.round = m.round
  pending : n.pending? = m.pending?

/-- `n` differs from `m` in what is selected at most. -/
structure Reselected (m n : Menu) : Prop extends Reshown m n where
  isOpen : n.state.isOpen = m.state.isOpen
  items : n.state.items = m.state.items
  context : n.state.context? = m.state.context?
  stateRound : n.state.round = m.state.round

theorem Reshown.refl (m : Menu) : Reshown m m := ⟨rfl, rfl, rfl, rfl, rfl⟩

theorem Reselected.refl (m : Menu) : Reselected m m := ⟨.refl m, rfl, rfl, rfl, rfl⟩

theorem display_reshown (m : Menu) (state : MenuState) : Reshown m (m.display state) :=
  ⟨rfl, rfl, rfl, rfl, rfl⟩

theorem finish_reshown (m : Menu) (round : Nat) (result : RoundResult) :
    Reshown m (m.finish round result) := by
  unfold finish
  split
  · exact .refl m
  · split <;> exact ⟨rfl, rfl, rfl, rfl, rfl⟩

theorem close_ended (m : Menu) : Ended m m.close :=
  ⟨rfl, rfl, m.isOpen_close, by simp [close, display, supersede], id⟩

theorem reset_ended (m : Menu) : Ended m m.reset :=
  ⟨rfl, rfl, m.isOpen_reset, by simp [reset, display, supersede], id⟩

theorem edit_ended (m : Menu) (text : Text) (cursor : Int) : Ended m (m.edit text cursor) := by
  have closed := m.isOpen_edit text cursor
  have inside := text.clamp_le cursor
  by_cases ink : text.hasInk = true
  · simp only [edit, ink, if_true] at closed ⊢
    exact ⟨rfl, rfl, closed, fun r h => (Option.some.inj h).symm, fun _ => inside⟩
  · simp only [edit, ink] at closed ⊢
    exact ⟨rfl, rfl, closed, by simp [reset, display, supersede], fun _ => inside⟩

theorem move_reselected (m : Menu) (delta : Int) : Reselected m (m.move delta) :=
  ⟨display_reshown .., isOpen_display .., MenuState.items_normalize _,
    MenuState.context?_normalize _, MenuState.round_normalize _⟩

theorem hover_reselected (m : Menu) (index : Int) : Reselected m (m.hover index) := by
  unfold hover
  split
  · exact ⟨display_reshown .., isOpen_display .., MenuState.items_normalize _,
      MenuState.context?_normalize _, MenuState.round_normalize _⟩
  · exact .refl m

theorem round_pauseOver (m : Menu) (n : Nat) : (m.pauseOver n).2.round = m.round := by
  unfold pauseOver
  split
  · split <;> rfl
  · rfl

theorem pauseOver_cases (m : Menu) (n : Nat) :
    m.pauseOver n = (false, m) ∨
    ∃ r, m.pending? = some r ∧ r.id = n ∧ m.pauseOver n = (!m.isStale n, { m with pending? := none }) := by
  cases waits : m.pending? with
  | none => exact .inl (by simp [pauseOver, waits])
  | some r =>
    by_cases its : r.id = n
    · exact .inr ⟨r, rfl, its, by simp [pauseOver, waits, its]⟩
    · exact .inl (by simp [pauseOver, waits, its])

/-- Where an item is accepted: the menu is open, and the index is one of its items. -/
theorem commitAt_cases (m : Menu) (index : Int) :
    m.commitAt index = (none, m) ∨
    ∃ context item, m.state.context? = some context ∧ m.state.isOpen = true ∧ 0 ≤ index ∧
      m.state.items[index.toNat]? = some item ∧
      m.commitAt index =
        (some (Edit.accept m.text m.cursor item context),
          { m with
            text := (Edit.accept m.text m.cursor item context).text
            cursor := (Edit.accept m.text m.cursor item context).cursor }.close) := by
  unfold commitAt
  split
  · next context found =>
    split
    · next allowed =>
      simp only [Bool.and_eq_true, decide_eq_true_eq] at allowed
      split
      · next item there => exact .inr ⟨context, item, found, allowed.1, allowed.2, there, rfl⟩
      · exact .inl rfl
    · exact .inl rfl
  · exact .inl rfl

theorem commitAt_ended {m : Menu} {index : Int} (h : (m.commitAt index).1.isSome = true) :
    Ended m (m.commitAt index).2 := by
  obtain refused | ⟨context, item, -, -, -, -, accepted⟩ := m.commitAt_cases index
  · simp [refused] at h
  · rw [accepted]
    exact ⟨rfl, rfl, isOpen_close _, by simp [close, display, supersede],
      fun _ => Edit.cursor_accept_le ..⟩

theorem commitAt_refused {m : Menu} {index : Int} (h : (m.commitAt index).1.isSome = false) :
    (m.commitAt index).2 = m := by
  obtain refused | ⟨context, item, -, -, -, -, accepted⟩ := m.commitAt_cases index
  · rw [refused]
  · simp [accepted] at h

/-- What a key does: it closes the menu, accepts the selected item, moves the selection, or nothing. -/
theorem press_cases (m : Menu) (key : Key) (runsQuery : Bool) :
    (key = .escape ∨ (key = .enter ∧ runsQuery = true)) ∧ m.press key runsQuery = (none, m.close) ∨
    ¬ (key = .escape ∨ (key = .enter ∧ runsQuery = true)) ∧
      (m.press key runsQuery = m.commit none ∨
        (m.press key runsQuery).1 = none ∧ Reselected m (m.press key runsQuery).2) := by
  by_cases closes : key = .escape ∨ (key = .enter ∧ runsQuery = true)
  · have : (key = .enter && runsQuery || key = .escape) = true := by
      simpa [or_comm] using closes
    exact .inl ⟨closes, by simp only [press, this, if_true]⟩
  · refine .inr ⟨closes, ?_⟩
    have : (key = .enter && runsQuery || key = .escape) = false := by
      simpa [or_comm] using closes
    simp only [press, this]
    by_cases shown : m.state.isOpen = true
    · cases key with
      | up | down => simpa [shown] using .inr (m.move_reselected _)
      | enter | tab => simp [shown]
      | escape | other => simpa [shown] using .inr (.refl m)
    · simpa [shown] using .inr (.refl m)

theorem act_cases (m : Menu) (a : Act) :
    m.ends a = true ∧ Ended m (m.act a) ∨ m.ends a = false ∧ Reselected m (m.act a) := by
  have committed (index : Int) :
      (m.commitAt index).1.isSome = true ∧ Ended m (m.commitAt index).2 ∨
      (m.commitAt index).1.isSome = false ∧ Reselected m (m.commitAt index).2 := by
    cases taken : (m.commitAt index).1.isSome with
    | true => exact .inl ⟨rfl, commitAt_ended taken⟩
    | false => exact .inr ⟨rfl, by rw [commitAt_refused taken]; exact .refl m⟩
  cases a with
  | edit text cursor => exact .inl ⟨rfl, m.edit_ended text cursor⟩
  | close => exact .inl ⟨rfl, m.close_ended⟩
  | reset => exact .inl ⟨rfl, m.reset_ended⟩
  | hover index => exact .inr ⟨rfl, m.hover_reselected index⟩
  | commit index? => exact committed _
  | dismissError =>
    by_cases failed : m.state.phase = .failed
    · exact .inl ⟨by simp [ends, failed], by simpa [act, dismissError, failed] using m.close_ended⟩
    · exact .inr ⟨by simp [ends, failed], by simpa [act, dismissError, failed] using .refl m⟩
  | press key runsQuery =>
    obtain ⟨closes, closed⟩ | ⟨stays, rest⟩ := m.press_cases key runsQuery
    · exact .inl ⟨by rcases closes with rfl | ⟨rfl, rfl⟩ <;> rfl,
        by simpa [act, closed] using m.close_ended⟩
    · have byItem : m.ends (.press key runsQuery) = (m.press key runsQuery).1.isSome := by
        have : (decide (key = .escape) || decide (key = .enter) && runsQuery) = false := by
          simpa using stays
        simp only [ends, this, Bool.false_or]
      obtain taken | ⟨nothing, moved⟩ := rest
      · rw [byItem, act, taken]
        exact committed _
      · exact .inr ⟨by simp [byItem, nothing], moved⟩

end Menu

/-- What happens in a session. A round is told by its number; `answer` is what came back for it. -/
inductive Event (α : Type) where
  | act (a : Act)
  | pauseOver (round : Nat)
  | load (round : Nat)
  | finish (round : Nat) (answer : α)

/-- A menu, the rounds whose pause is over, and those for which something was asked that has not come
back. -/
structure Session where
  menu : Menu
  begun : List Round := []
  loading : List Round := []

namespace Session

/-- A new session. -/
def start (language : Language) : Session := { menu := { language } }

/-- The rounds under way, also those that have been superseded. -/
def rounds (s : Session) : List Round := s.menu.pending?.toList ++ s.begun ++ s.loading

theorem mem_rounds {s : Session} {r : Round} :
    r ∈ s.rounds ↔ s.menu.pending? = some r ∨ r ∈ s.begun ∨ r ∈ s.loading := by
  simp [rounds]

section
variable {α : Type} (engine : Round → α → RoundResult)

/-- The session after an event. `engine` makes a result of what came back for a round. -/
def step (s : Session) : Event α → Session
  | .act a => { s with menu := s.menu.act a }
  | .pauseOver n =>
    let (goesOn, menu) := s.menu.pauseOver n
    { s with menu, begun := s.begun ++ if goesOn then s.menu.pending?.toList else [] }
  | .load n =>
    match s.begun.find? fun r => r.id = n with
    | none => s
    | some r =>
      let begun := s.begun.filter fun r => r.id != n
      match s.menu.load? n with
      | none => { s with begun }
      | some menu => { menu, begun, loading := s.loading ++ [r] }
  | .finish n answer =>
    match s.loading.find? fun r => r.id = n with
    | none => s
    | some r =>
      { s with
        menu := s.menu.finish n (engine r answer)
        loading := s.loading.filter fun r => r.id != n }

/-- The session after the events of a history. -/
def run (s : Session) (history : List (Event α)) : Session := history.foldl (step engine) s

theorem pauseOver_cases (s : Session) (n : Nat) :
    s.step engine (.pauseOver n) = s ∨
    ∃ r, s.menu.pending? = some r ∧ r.id = n ∧
      s.step engine (.pauseOver n) =
        { s with
          menu := { s.menu with pending? := none }
          begun := s.begun ++ if s.menu.isStale n then [] else [r] } := by
  obtain same | ⟨r, waits, its, next⟩ := s.menu.pauseOver_cases n
  · exact .inl (by simp [step, same])
  · exact .inr ⟨r, waits, its, by cases stale : s.menu.isStale n <;> simp [step, next, waits, stale]⟩

theorem load_cases (s : Session) (n : Nat) :
    s.step engine (.load n) = s ∨
    ∃ r ∈ s.begun, r.id = n ∧
      (s.step engine (.load n) = { s with begun := s.begun.filter fun r => r.id != n } ∨
        s.menu.isStale n = false ∧
        s.step engine (.load n) =
          { menu := s.menu.display { s.menu.state with phase := .loading, error? := none }
            begun := s.begun.filter fun r => r.id != n
            loading := s.loading ++ [r] }) := by
  cases found : s.begun.find? fun r => r.id = n with
  | none => exact .inl (by simp [step, found])
  | some r =>
    have its := List.find?_some found
    refine .inr ⟨r, List.mem_of_find?_eq_some found, by simpa using its, ?_⟩
    cases stale : s.menu.isStale n with
    | true => exact .inl (by simp [step, found, Menu.load?, stale])
    | false => exact .inr ⟨rfl, by simp [step, found, Menu.load?, stale]⟩

theorem finish_cases (s : Session) (n : Nat) (answer : α) :
    s.step engine (.finish n answer) = s ∨
    ∃ r ∈ s.loading, r.id = n ∧
      s.step engine (.finish n answer) =
        { s with
          menu := s.menu.finish n (engine r answer)
          loading := s.loading.filter fun r => r.id != n } := by
  cases found : s.loading.find? fun r => r.id = n with
  | none => exact .inl (by simp [step, found])
  | some r =>
    have its := List.find?_some found
    exact .inr ⟨r, List.mem_of_find?_eq_some found, by simpa using its, by simp [step, found]⟩

/-- `t` is about the query of `s`, and has no round that `s` does not have. -/
structure Quiet (s t : Session) : Prop where
  language : t.menu.language = s.menu.language
  text : t.menu.text = s.menu.text
  cursor : t.menu.cursor = s.menu.cursor
  round : t.menu.round = s.menu.round
  rounds : ∀ r ∈ t.rounds, r ∈ s.rounds

theorem Quiet.refl (s : Session) : Quiet s s := ⟨rfl, rfl, rfl, rfl, fun _ => id⟩

theorem Quiet.of_reshown {s : Session} {m : Menu} (h : Menu.Reshown s.menu m) :
    Quiet s { s with menu := m } :=
  ⟨h.language, h.text, h.cursor, h.round, fun r mem => by simpa [mem_rounds, h.pending] using mem⟩

theorem pauseOver_quiet (s : Session) (n : Nat) : Quiet s (s.step engine (.pauseOver n)) := by
  obtain same | ⟨r, waits, -, next⟩ := s.pauseOver_cases engine n
  · rw [same]
    exact .refl s
  · rw [next]
    refine ⟨rfl, rfl, rfl, rfl, fun x => ?_⟩
    simp only [mem_rounds, waits, List.mem_append]
    split <;> simp <;> grind

theorem load_quiet (s : Session) (n : Nat) : Quiet s (s.step engine (.load n)) := by
  obtain same | ⟨r, mem, -, next | ⟨-, next⟩⟩ := s.load_cases engine n
  · rw [same]
    exact .refl s
  · rw [next]
    refine ⟨rfl, rfl, rfl, rfl, fun x => ?_⟩
    simp only [mem_rounds, List.mem_filter]
    grind
  · rw [next]
    refine ⟨rfl, rfl, rfl, rfl, fun x => ?_⟩
    simp only [mem_rounds, Menu.pending?_display, List.mem_append, List.mem_filter,
      List.mem_singleton]
    grind

theorem finish_quiet (s : Session) (n : Nat) (answer : α) :
    Quiet s (s.step engine (.finish n answer)) := by
  obtain same | ⟨r, mem, -, next⟩ := s.finish_cases engine n answer
  · rw [same]
    exact .refl s
  · have same := s.menu.finish_reshown n (engine r answer)
    rw [next]
    refine ⟨same.language, same.text, same.cursor, same.round, fun x => ?_⟩
    simp only [mem_rounds, List.mem_filter, same.pending]
    grind

end

end Session

end Typeahead
