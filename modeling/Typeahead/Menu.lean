import Typeahead.Engine

/-!
The menu of suggestions beside a query that is being typed. Every change of the text begins a round: the
round waits until typing pauses, then loads suggestions, then opens the menu. A round that has been
superseded shows nothing any more. Every state of the menu is published, in order.

- `isOpen` needs items; `normalize` keeps the selection inside them.
- `isOpen_close`, `isOpen_reset`, `isOpen_edit`: what ends a round leaves the menu closed.
- `finish_of_isStale`: a superseded round changes nothing.
-/

namespace Typeahead

/-- What the menu is doing. -/
inductive Phase where
  | idle
  | waiting
  | loading
  | showing
  | failed
  deriving DecidableEq, Repr

/-- A state of the menu as it is shown. -/
structure MenuState where
  phase : Phase := .idle
  groups : List Group := []
  items : List Item := []
  selected : Nat := 0
  hovered? : Option Nat := none
  error? : Option String := none
  warning? : Option String := none
  context? : Option Context := none
  round : Nat := 0
  deriving DecidableEq, Repr

namespace MenuState

/-- Whether items are shown. -/
def isOpen (s : MenuState) : Bool :=
  (s.phase = .showing || s.phase = .failed) && !s.items.isEmpty

/-- Whether suggestions are being loaded. -/
def isLoading (s : MenuState) : Bool := s.phase = .loading

/-- The selected item. -/
def selectedItem? (s : MenuState) : Option Item := s.items[s.selected]?

/-- The state with its selection moved into the items. A menu without items does not show. -/
def normalize (s : MenuState) : MenuState :=
  if s.items.isEmpty then
    { s with
      phase := if s.phase = .showing then .idle else s.phase
      selected := 0
      hovered? := none }
  else
    { s with
      selected := min s.selected (s.items.length - 1)
      hovered? := s.hovered?.filter (· < s.items.length) }

@[simp] theorem items_normalize (s : MenuState) : s.normalize.items = s.items := by
  unfold normalize
  split <;> rfl

@[simp] theorem context?_normalize (s : MenuState) : s.normalize.context? = s.context? := by
  unfold normalize
  split <;> rfl

@[simp] theorem round_normalize (s : MenuState) : s.normalize.round = s.round := by
  unfold normalize
  split <;> rfl

@[simp] theorem isOpen_normalize (s : MenuState) : s.normalize.isOpen = s.isOpen := by
  unfold normalize
  split
  · next empty => simp [isOpen, empty]
  · rfl

theorem isOpen_of_items_nil {s : MenuState} (h : s.items = []) : s.isOpen = false := by
  simp [isOpen, h]

end MenuState

/-- A round: its number, and the text and cursor it is about. -/
structure Round where
  id : Nat
  text : Text
  cursor : Nat
  deriving DecidableEq, Repr

/-- The menu: the query, the number of the current round, the round that waits for a pause in typing,
the state, and the states published since they were last collected. -/
structure Menu where
  language : Language
  text : Text := []
  cursor : Nat := 0
  round : Nat := 0
  pending? : Option Round := none
  state : MenuState := {}
  published : List MenuState := []

/-- The keys that the menu listens to. -/
inductive Key where
  | up
  | down
  | enter
  | tab
  | escape
  | other
  deriving DecidableEq, Repr

/-- How loading ends for a round. -/
inductive RoundResult where
  | loaded (suggestions : Suggestions)
  | failed (failure : Failure)

namespace Menu

/-- Moves to a state and publishes it. -/
def display (m : Menu) (state : MenuState) : Menu :=
  { m with state := state.normalize, published := m.published ++ [state.normalize] }

/-- Ends what is under way: the pause is no longer waited for, and rounds so far are superseded. -/
def supersede (m : Menu) : Menu := { m with pending? := none, round := m.round + 1 }

/-- Whether a round has been superseded. -/
def isStale (m : Menu) (round : Nat) : Bool := round != m.round

/-- Closes the menu. -/
def close (m : Menu) : Menu :=
  let m := m.supersede
  m.display { m.state with
    phase := .idle, groups := [], items := [], error? := none, context? := none, round := m.round }

/-- Puts the menu back to its first state. -/
def reset (m : Menu) : Menu :=
  let m := m.supersede
  m.display { round := m.round }

/-- The text or the cursor changed. A text with more than blanks begins a round. -/
def edit (m : Menu) (text : Text) (cursor : Int) : Menu :=
  let m := { m with text, cursor := text.clamp cursor }
  if text.hasInk then
    let m := m.supersede
    { m.display { m.state with phase := .waiting, round := m.round } with
      pending? := some ⟨m.round, m.text, m.cursor⟩ }
  else m.reset

/-- The pause of a round is over. Tells whether the round goes on. -/
def pauseOver (m : Menu) (round : Nat) : Bool × Menu :=
  match m.pending? with
  | some r =>
    if r.id = round then (!m.isStale round, { m with pending? := none }) else (false, m)
  | none => (false, m)

/-- A round begins to load, unless it has been superseded. -/
def load? (m : Menu) (round : Nat) : Option Menu :=
  if m.isStale round then none
  else some (m.display { m.state with phase := .loading, error? := none })

/-- The wording of a failure for the one who types. -/
def failureText : Failure → String
  | .catalog error => error.message
  | _ => "Failed to load suggestions"

/-- Loading ends for a round; nothing happens if it has been superseded. -/
def finish (m : Menu) (round : Nat) (result : RoundResult) : Menu :=
  if m.isStale round then m
  else match result with
    | .failed failure =>
      m.display { m.state with
        phase := .failed, groups := [], items := [], error? := some (failureText failure)
        context? := none }
    | .loaded suggestions =>
      let items := suggestions.items
      m.display {
        phase :=
          if suggestions.error?.any (!·.isEmpty) then .failed
          else if items.isEmpty then .idle
          else .showing
        groups := suggestions.groups
        items
        error? := suggestions.error?
        warning? := suggestions.verdict.summary?
        context? := some suggestions.context
        round }

/-- Moves the selection of an open menu round and round. -/
def move (m : Menu) (delta : Int) : Menu :=
  m.display { m.state with
    selected := ((m.state.selected + delta) % (m.state.items.length : Int)).toNat
    hovered? := none }

/-- Accepts an item of an open menu. -/
def commitAt (m : Menu) (index : Int) : Option Edit × Menu :=
  match m.state.context? with
  | some context =>
    if m.state.isOpen && 0 ≤ index then
      match m.state.items[index.toNat]? with
      | some item =>
        let edit := Edit.accept m.text m.cursor item context
        (some edit, { m with text := edit.text, cursor := edit.cursor }.close)
      | none => (none, m)
    else (none, m)
  | none => (none, m)

/-- Accepts the item at an index, or else the selected one. -/
def commit (m : Menu) (index? : Option Int) : Option Edit × Menu :=
  m.commitAt (index?.getD m.state.selected)

/-- A key was pressed. Enter that runs the query, and Escape, close the menu. -/
def press (m : Menu) (key : Key) (runsQuery : Bool) : Option Edit × Menu :=
  if (key = .enter && runsQuery) || key = .escape then (none, m.close)
  else if !m.state.isOpen then (none, m)
  else match key with
    | .down => (none, m.move 1)
    | .up => (none, m.move (-1))
    | .enter | .tab => m.commit none
    | .escape | .other => (none, m)

/-- The pointer is over an item. -/
def hover (m : Menu) (index : Int) : Menu :=
  if m.state.isOpen && 0 ≤ index && index < m.state.items.length then
    m.display { m.state with selected := index.toNat, hovered? := some index.toNat }
  else m

/-- An error is dismissed. -/
def dismissError (m : Menu) : Menu := if m.state.phase = .failed then m.close else m

@[simp] theorem pending?_display (m : Menu) (state : MenuState) :
    (m.display state).pending? = m.pending? := rfl

@[simp] theorem isOpen_display (m : Menu) (state : MenuState) :
    (m.display state).state.isOpen = state.isOpen := state.isOpen_normalize

@[simp] theorem isOpen_close (m : Menu) : m.close.state.isOpen = false := isOpen_display ..

@[simp] theorem isOpen_reset (m : Menu) : m.reset.state.isOpen = false := isOpen_display ..

@[simp] theorem isOpen_edit (m : Menu) (text : Text) (cursor : Int) :
    (m.edit text cursor).state.isOpen = false := by
  unfold edit
  split
  · exact MenuState.isOpen_normalize _
  · exact isOpen_reset _

theorem finish_of_isStale {m : Menu} {round : Nat} (h : m.isStale round = true)
    (result : RoundResult) : m.finish round result = m := by
  simp [finish, h]

@[simp] theorem isOpen_finish_failed (m : Menu) (failure : Failure) :
    (m.finish m.round (.failed failure)).state.isOpen = false := by
  simp [finish, isStale, MenuState.isOpen_of_items_nil]

theorem state_finish_loaded (m : Menu) (suggestions : Suggestions) :
    (m.finish m.round (.loaded suggestions)).state.context? = some suggestions.context ∧
    (m.finish m.round (.loaded suggestions)).state.items = suggestions.items ∧
    (m.finish m.round (.loaded suggestions)).state.round = m.round := by
  simp [finish, isStale, display]

end Menu

end Typeahead
