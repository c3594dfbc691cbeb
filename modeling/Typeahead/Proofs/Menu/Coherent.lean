import Typeahead.Proofs.Menu.Rounds

/-!
The linked parts of what a menu shows. The items are those of the groups, the selection and the pointer stand on one
of them, and a menu without items neither shows nor selects anything. Some operations keep items, groups or the
selection, and some replace them; whatever is shown, the parts agree.

- `MenuState.normalize_coherent`: what normalizing makes good.
- `Menu.Coherent.act_shows`, `Session.step_shows`: every state that is shown is coherent, numbered by the current
  round, and published.
- `Session.selected_run`: arrow keys move the selection round and round.
- `Session.coherent_run`: the rules, for all sessions.
-/

namespace Typeahead

/-- The linked parts of a state agree. -/
structure MenuState.Coherent (s : MenuState) : Prop where
  flat : s.items = ungroup s.groups
  empty : s.items = [] → s.isOpen = false ∧ s.phase ≠ .showing ∧ s.selected = 0 ∧ s.hovered? = none
  inside : s.items ≠ [] → s.selected < s.items.length
  hovered : ∀ i ∈ s.hovered?, i = s.selected

namespace MenuState

theorem normalize_of_nil {s : MenuState} (empty : s.items = []) :
    s.normalize =
      { s with phase := if s.phase = .showing then .idle else s.phase, selected := 0, hovered? := none } := by
  simp [normalize, empty]

theorem normalize_of_ne_nil {s : MenuState} (filled : s.items ≠ []) :
    s.normalize =
      { s with
        selected := min s.selected (s.items.length - 1)
        hovered? := s.hovered?.filter (· < s.items.length) } := by
  simp [normalize, filled]

theorem selected_normalize {s : MenuState} (filled : s.items ≠ []) :
    s.normalize.selected = min s.selected (s.items.length - 1) := by
  rw [normalize_of_ne_nil filled]

/-- Normalizing moves the selection into the items, and the pointer stays on it or leaves. -/
theorem normalize_coherent {s : MenuState} (flat : s.items = ungroup s.groups)
    (hovered : ∀ i ∈ s.hovered?, i = s.selected) : s.normalize.Coherent := by
  by_cases empty : s.items = []
  · rw [normalize_of_nil empty]
    constructor
    · exact flat
    · intro _
      refine ⟨isOpen_of_items_nil empty, ?_, rfl, rfl⟩
      by_cases showing : s.phase = .showing <;> simp [showing]
    · exact absurd empty
    · exact nofun
  · have filled : 0 < s.items.length := List.length_pos_iff.2 empty
    rw [normalize_of_ne_nil empty]
    constructor
    · exact flat
    · intro none
      exact absurd none empty
    · intro _
      change min s.selected (s.items.length - 1) < s.items.length
      omega
    · intro i mem
      obtain ⟨there, bound⟩ := Option.mem_filter_iff.1 mem
      have same := hovered i there
      simp only [decide_eq_true_eq] at bound
      change i = min s.selected (s.items.length - 1)
      omega

end MenuState

namespace Event

variable {α : Type}

/-- Whether a key is pressed. -/
def presses (key : Key) : Event α → Bool
  | .act (.press k _) => k = key
  | _ => false

/-- Whether the pointer moves over an item. -/
def hovers : Event α → Bool
  | .act (.hover _) => true
  | _ => false

/-- By how many items events move the selection of an open menu. -/
def turns (events : List (Event α)) : Int :=
  (events.countP fun e => e.presses .down) - (events.countP fun e => e.presses .up)

theorem turns_cons (e : Event α) (later : List (Event α)) : turns (e :: later) = turns [e] + turns later := by
  simp only [turns, List.countP_cons, List.countP_nil]
  omega

end Event

namespace Menu

/-- The state of a menu is coherent, and numbered by the current round. -/
structure Coherent (m : Menu) : Prop where
  state : m.state.Coherent
  numbered : m.state.round = m.round

/-- `n` shows what `m` shows. -/
structure Unseen (m n : Menu) : Prop where
  state : n.state = m.state
  published : n.published = m.published
  round : n.round = m.round

/-- `n` shows a state anew: it was published after those of `m`. -/
structure Shows (m n : Menu) : Prop where
  coherent : n.Coherent
  published : n.published = m.published ++ [n.state]
  round : m.round ≤ n.round

theorem Unseen.refl (m : Menu) : Unseen m m := ⟨rfl, rfl, rfl⟩

theorem display_shows (m : Menu) (state : MenuState) (flat : state.items = ungroup state.groups)
    (hovered : ∀ i ∈ state.hovered?, i = state.selected) (numbered : state.round = m.round) :
    Shows m (m.display state) :=
  ⟨⟨MenuState.normalize_coherent flat hovered, (MenuState.round_normalize state).trans numbered⟩, rfl, Nat.le_refl _⟩

variable {m : Menu}

theorem Coherent.close_shows (h : m.Coherent) : Shows m m.close := by
  have shown := m.supersede.display_shows
    { m.state with
      phase := .idle, groups := [], items := [], error? := none, context? := none, round := m.round + 1 }
    rfl h.state.hovered rfl
  exact ⟨shown.coherent, shown.published, Nat.le_succ _⟩

theorem reset_shows (m : Menu) : Shows m m.reset := by
  have shown := m.supersede.display_shows { round := m.round + 1 } rfl (by simp) rfl
  exact ⟨shown.coherent, shown.published, Nat.le_succ _⟩

theorem Coherent.edit_shows (h : m.Coherent) (text : Text) (cursor : Int) : Shows m (m.edit text cursor) := by
  by_cases ink : text.hasInk = true
  · have shown := m.supersede.display_shows { m.state with phase := .waiting, round := m.round + 1 }
      h.state.flat h.state.hovered rfl
    rw [edit, if_pos ink]
    exact ⟨⟨shown.coherent.state, shown.coherent.numbered⟩, shown.published, Nat.le_succ _⟩
  · have shown := reset_shows { m with text, cursor := text.clamp cursor }
    rw [edit, if_neg ink]
    exact ⟨shown.coherent, shown.published, shown.round⟩

theorem Coherent.move_shows (h : m.Coherent) (delta : Int) : Shows m (m.move delta) :=
  m.display_shows _ h.state.flat (by simp) h.numbered

theorem Coherent.hover_shows (h : m.Coherent) (index : Int) :
    Unseen m (m.hover index) ∨ Shows m (m.hover index) := by
  unfold hover
  split
  · exact .inr (m.display_shows _ h.state.flat (by simp) h.numbered)
  · exact .inl (.refl m)

theorem Coherent.commitAt_shows (h : m.Coherent) (index : Int) :
    Unseen m (m.commitAt index).2 ∨ Shows m (m.commitAt index).2 := by
  obtain refused | ⟨context, item, -, -, -, -, accepted⟩ := m.commitAt_cases index
  · rw [refused]
    exact .inl (.refl m)
  · rw [accepted]
    have coherent : Coherent { m with
        text := (Edit.accept m.text m.cursor item context).text
        cursor := (Edit.accept m.text m.cursor item context).cursor } := ⟨h.state, h.numbered⟩
    have shown := coherent.close_shows
    exact .inr ⟨shown.coherent, shown.published, shown.round⟩

theorem Coherent.press_shows (h : m.Coherent) (key : Key) (runsQuery : Bool) :
    Unseen m (m.press key runsQuery).2 ∨ Shows m (m.press key runsQuery).2 := by
  unfold press
  split
  · exact .inr h.close_shows
  · split
    · exact .inl (.refl m)
    · cases key with
      | down => exact .inr (h.move_shows 1)
      | up => exact .inr (h.move_shows (-1))
      | enter | tab => exact h.commitAt_shows _
      | escape | other => exact .inl (.refl m)

/-- An act leaves what is shown, or shows a coherent state of the current round. -/
theorem Coherent.act_shows (h : m.Coherent) (a : Act) : Unseen m (m.act a) ∨ Shows m (m.act a) := by
  cases a with
  | edit text cursor => exact .inr (h.edit_shows text cursor)
  | press key runsQuery => exact h.press_shows key runsQuery
  | hover index => exact h.hover_shows index
  | commit index? => exact h.commitAt_shows _
  | close => exact .inr h.close_shows
  | reset => exact .inr m.reset_shows
  | dismissError =>
    by_cases failed : m.state.phase = .failed
    · simpa [act, dismissError, failed] using .inr h.close_shows
    · simpa [act, dismissError, failed] using .inl (.refl m)

theorem Coherent.finish_shows (h : m.Coherent) (round : Nat) (result : RoundResult) :
    Unseen m (m.finish round result) ∨ Shows m (m.finish round result) := by
  cases stale : m.isStale round with
  | true =>
    rw [finish_of_isStale stale]
    exact .inl (.refl m)
  | false =>
    have its : round = m.round := by simpa [isStale] using stale
    unfold finish
    rw [stale]
    cases result with
    | failed failure => exact .inr (m.display_shows _ rfl h.state.hovered h.numbered)
    | loaded suggestions => exact .inr (m.display_shows _ rfl (by simp) its)

theorem filled_of_isOpen (isOpen : m.state.isOpen = true) : m.state.items ≠ [] := by
  intro empty
  rw [MenuState.isOpen_of_items_nil empty] at isOpen
  cases isOpen

theorem Coherent.selected_rests (h : m.Coherent) (isOpen : m.state.isOpen = true) :
    (m.state.selected : Int) = (m.state.selected + 0) % m.state.items.length := by
  have inside := h.state.inside (filled_of_isOpen isOpen)
  rw [Int.add_zero, Int.emod_eq_of_lt] <;> omega

/-- An arrow key moves the selection round and round. -/
theorem selected_move (filled : m.state.items ≠ []) (delta : Int) :
    ((m.move delta).state.selected : Int) = (m.state.selected + delta) % m.state.items.length := by
  have some : 0 < m.state.items.length := List.length_pos_iff.2 filled
  have nonneg := Int.emod_nonneg (m.state.selected + delta) (b := m.state.items.length) (by omega)
  have small := Int.emod_lt_of_pos (m.state.selected + delta) (b := m.state.items.length) (by omega)
  have normal : (m.move delta).state.selected =
      min ((m.state.selected + delta) % m.state.items.length).toNat (m.state.items.length - 1) :=
    MenuState.selected_normalize filled
  omega

/-- A menu that stays open under an act keeps its items, and its selection but for arrow keys and the pointer. -/
theorem Coherent.selected_act {α : Type} (h : m.Coherent) (isOpen : m.state.isOpen = true) {a : Act}
    (still : (m.act a).state.isOpen = true) (keyed : (Event.act a : Event α).hovers = false) :
    (m.act a).state.items = m.state.items ∧
      ((m.act a).state.selected : Int) =
        (m.state.selected + Event.turns [(.act a : Event α)]) % m.state.items.length := by
  have filled := filled_of_isOpen isOpen
  have stays := h.selected_rests isOpen
  obtain ⟨-, ended⟩ | ⟨goesOn, kept⟩ := m.act_cases a
  · rw [ended.closed] at still
    cases still
  refine ⟨kept.items, ?_⟩
  have committed (index : Int) (refused : (m.commitAt index).1.isSome = false) :
      (m.commitAt index).2.state.selected = m.state.selected := by rw [commitAt_refused refused]
  cases a with
  | edit | close | reset => cases goesOn
  | hover index => cases keyed
  | commit index? =>
    rw [act, commit, committed _ goesOn]
    exact stays
  | dismissError =>
    have calm : ¬ m.state.phase = .failed := by simpa [ends] using goesOn
    rw [act, dismissError, if_neg calm]
    exact stays
  | press key runsQuery =>
    cases key with
    | down =>
      have moved : m.act (.press .down runsQuery) = m.move 1 := by simp [act, press, isOpen]
      rw [moved, selected_move filled]
      rfl
    | up =>
      have moved : m.act (.press .up runsQuery) = m.move (-1) := by simp [act, press, isOpen]
      rw [moved, selected_move filled]
      rfl
    | enter =>
      have taken : m.press .enter runsQuery = m.commitAt m.state.selected := by
        cases runsQuery with
        | false => simp [press, isOpen, commit]
        | true => simp [ends] at goesOn
      have refused : (m.press .enter runsQuery).1.isSome = false := (Bool.or_eq_false_iff.1 goesOn).2
      rw [act, taken, committed _ (taken ▸ refused)]
      exact stays
    | tab =>
      have taken : m.press .tab runsQuery = m.commitAt m.state.selected := by simp [press, isOpen, commit]
      have refused : (m.press .tab runsQuery).1.isSome = false := by simpa [ends] using goesOn
      rw [act, taken, committed _ (taken ▸ refused)]
      exact stays
    | escape => simp [ends] at goesOn
    | other =>
      have kept : m.act (.press .other runsQuery) = m := by simp [act, press, isOpen]
      rw [kept]
      exact stays

end Menu

namespace Session

section
variable {α : Type} (engine : Round → α → RoundResult)

theorem start_coherent (language : Language) : (start language).menu.Coherent :=
  ⟨⟨rfl, fun _ => ⟨rfl, nofun, rfl, rfl⟩, fun some => absurd rfl some, nofun⟩, rfl⟩

/-- An event leaves what is shown, or shows a coherent state of the current round. -/
theorem step_shows {s : Session} (h : s.menu.Coherent) (e : Event α) :
    s.menu.Unseen (s.step engine e).menu ∨ s.menu.Shows (s.step engine e).menu := by
  cases e with
  | act a => exact h.act_shows a
  | pauseOver n =>
    obtain same | ⟨r, -, -, next⟩ := s.pauseOver_cases engine n
    · rw [same]
      exact .inl (.refl _)
    · rw [next]
      exact .inl ⟨rfl, rfl, rfl⟩
  | load n =>
    obtain ⟨-, next⟩ | ⟨r, -, -, -, -, next⟩ := s.load_asks engine n
    · rw [next]
      exact .inl (.refl _)
    · rw [next]
      exact .inr (s.menu.display_shows _ h.state.flat h.state.hovered h.numbered)
  | finish n answer =>
    obtain same | ⟨r, -, -, next⟩ := s.finish_cases engine n answer
    · rw [same]
      exact .inl (.refl _)
    · rw [next]
      exact h.finish_shows n (engine r answer)

theorem coherent_step {s : Session} (h : s.menu.Coherent) (e : Event α) : (s.step engine e).menu.Coherent := by
  rcases s.step_shows engine h e with unseen | shown
  · exact ⟨unseen.state ▸ h.state, by rw [unseen.state, unseen.round, h.numbered]⟩
  · exact shown.coherent

theorem run_coherent {s : Session} (h : s.menu.Coherent) (history : List (Event α)) :
    (s.run engine history).menu.Coherent := by
  induction history generalizing s with
  | nil => exact h
  | cons e later ih => exact ih (coherent_step engine h e)

/-- The counter of rounds never goes back. -/
theorem round_le_run {s : Session} (h : s.menu.Coherent) (history : List (Event α)) :
    s.menu.round ≤ (s.run engine history).menu.round := by
  induction history generalizing s with
  | nil => exact Nat.le_refl _
  | cons e later ih =>
    have first : s.menu.round ≤ (s.step engine e).menu.round := by
      rcases s.step_shows engine h e with unseen | shown
      · exact Nat.le_of_eq unseen.round.symm
      · exact shown.round
    exact Nat.le_trans first (ih (coherent_step engine h e))

/-- A state that was published meanwhile is that of the menu at some time. -/
theorem published_run {s : Session} (h : s.menu.Coherent) (history : List (Event α)) :
    ∀ state ∈ (s.run engine history).menu.published,
      state ∈ s.menu.published ∨ ∃ before, before <+: history ∧ state = (s.run engine before).menu.state := by
  induction history generalizing s with
  | nil => exact fun state mem => .inl mem
  | cons e later ih =>
    intro state mem
    rcases ih (coherent_step engine h e) state mem with first | ⟨before, begins, same⟩
    · rcases s.step_shows engine h e with unseen | shown
      · exact .inl (unseen.published ▸ first)
      · rcases List.mem_append.1 (shown.published ▸ first) with old | new
        · exact .inl old
        · exact .inr ⟨[e], ⟨later, rfl⟩, List.mem_singleton.1 new⟩
    · exact .inr ⟨e :: before, List.cons_prefix_cons.2 ⟨rfl, begins⟩, same⟩

/-- Beside an open menu nothing but an act shows anything. -/
theorem step_of_isOpen {s : Session} (h : Single s) (isOpen : s.menu.state.isOpen = true) (e : Event α) :
    (∃ a, e = .act a) ∨ Event.turns [e] = 0 ∧ (s.step engine e).menu.state = s.menu.state := by
  have single := h.single
  rw [isOpen, if_pos rfl] at single
  cases e with
  | act a => exact .inl ⟨a, rfl⟩
  | pauseOver n => exact .inr ⟨rfl, s.state_pauseOver engine n⟩
  | load n =>
    obtain ⟨-, next⟩ | ⟨r, -, -, -, asks, -⟩ := s.load_asks engine n
    · exact .inr ⟨rfl, by rw [next]⟩
    · have spent := (s.counts_load engine n).1
      rw [asks, Option.toList_some, List.length_singleton] at spent
      omega
  | finish n answer =>
    obtain ⟨-, ⟨menu, -⟩ | ⟨waited, -⟩⟩ := s.counts_finish engine n answer
    · exact .inr ⟨rfl, by rw [menu]⟩
    · omega

theorem selected_step {s : Session} (single : Single s) (h : s.menu.Coherent)
    (isOpen : s.menu.state.isOpen = true) {e : Event α} (keyed : e.hovers = false)
    (still : (s.step engine e).menu.state.isOpen = true) :
    (s.step engine e).menu.state.items = s.menu.state.items ∧
      ((s.step engine e).menu.state.selected : Int) =
        (s.menu.state.selected + Event.turns [e]) % s.menu.state.items.length := by
  rcases s.step_of_isOpen engine single isOpen e with ⟨a, rfl⟩ | ⟨rests, same⟩
  · exact h.selected_act isOpen still keyed
  · rw [rests, same]
    exact ⟨rfl, h.selected_rests isOpen⟩

/-- While a menu stays open and the pointer rests, its items stay and the arrow keys move the selection. -/
theorem selected_run (later : List (Event α)) {s : Session} (single : Single s) (h : s.menu.Coherent)
    (keyed : ∀ e ∈ later, e.hovers = false)
    (isOpen : ∀ before, before <+: later → (s.run engine before).menu.state.isOpen = true) :
    (s.run engine later).menu.state.items = s.menu.state.items ∧
      ((s.run engine later).menu.state.selected : Int) =
        (s.menu.state.selected + Event.turns later) % s.menu.state.items.length := by
  induction later generalizing s with
  | nil => exact ⟨rfl, h.selected_rests (isOpen [] List.prefix_rfl)⟩
  | cons e later ih =>
    have first := selected_step engine single h (isOpen [] List.nil_prefix) (keyed e List.mem_cons_self)
      (isOpen [e] ⟨later, rfl⟩)
    have rest := ih (single_step engine single e) (coherent_step engine h e)
      (fun x mem => keyed x (List.mem_cons_of_mem _ mem))
      (fun before begins => isOpen (e :: before) (List.cons_prefix_cons.2 ⟨rfl, begins⟩))
    refine ⟨rest.1.trans first.1, ?_⟩
    calc ((s.run engine (e :: later)).menu.state.selected : Int)
        = ((s.step engine e).menu.state.selected + Event.turns later) % s.menu.state.items.length :=
          first.1 ▸ rest.2
      _ = (s.menu.state.selected + Event.turns [e] + Event.turns later) % s.menu.state.items.length := by
          rw [first.2, Int.emod_add_emod]
      _ = (s.menu.state.selected + Event.turns (e :: later)) % s.menu.state.items.length := by
          rw [Event.turns_cons e later, Int.add_assoc]

/-- Arrow keys leave a menu open. -/
theorem isOpen_run_of_arrows {s : Session} (isOpen : s.menu.state.isOpen = true) (later : List (Event α))
    (arrows : ∀ e ∈ later, e.presses .down = true ∨ e.presses .up = true) :
    (s.run engine later).menu.state.isOpen = true := by
  induction later generalizing s with
  | nil => exact isOpen
  | cons e later ih =>
    refine ih ?_ fun x mem => arrows x (List.mem_cons_of_mem _ mem)
    have arrow := arrows e List.mem_cons_self
    have moved (delta : Int) : (s.menu.move delta).state.isOpen = true :=
      (s.menu.move_reselected delta).isOpen.trans isOpen
    cases e with
    | act a =>
      cases a with
      | press key runsQuery =>
        have key : key = .down ∨ key = .up := by simpa [Event.presses] using arrow
        rcases key with rfl | rfl
        · simpa [step, Menu.act, Menu.press, isOpen] using moved 1
        · simpa [step, Menu.act, Menu.press, isOpen] using moved (-1)
      | _ => simp [Event.presses] at arrow
    | _ => simp [Event.presses] at arrow

/-- In every session and whatever comes back: what the menu shows is coherent, and it bears the number of the current
round, which never goes back. Nothing else was ever published. While the menu stays open and the pointer rests, its
items stay, and the selection goes on from where it stood, one down for each arrow key down and one up for each
arrow key up, round and round; the arrow keys themselves leave it open. -/
theorem coherent_run (language : Language) (history : List (Event α)) :
    let s := (start language).run engine history
    s.menu.state.Coherent ∧ s.menu.state.round = s.menu.round ∧
    (∀ state ∈ s.menu.published, state.Coherent ∧
      ∃ before, before <+: history ∧ state = ((start language).run engine before).menu.state) ∧
    (∀ later : List (Event α), s.menu.round ≤ (s.run engine later).menu.round) ∧
    (∀ later : List (Event α), (∀ e ∈ later, e.hovers = false) →
      (∀ before, before <+: later → (s.run engine before).menu.state.isOpen = true) →
      (s.run engine later).menu.state.items = s.menu.state.items ∧
        ((s.run engine later).menu.state.selected : Int) =
          (s.menu.state.selected + Event.turns later) % s.menu.state.items.length) ∧
    ∀ later : List (Event α), s.menu.state.isOpen = true →
      (∀ e ∈ later, e.presses .down = true ∨ e.presses .up = true) →
      (s.run engine later).menu.state.isOpen = true := by
  intro s
  have h : s.menu.Coherent := run_coherent engine (start_coherent language) history
  refine ⟨h.state, h.numbered, ?_, round_le_run engine h, ?_, ?_⟩
  · intro state mem
    rcases published_run engine (start_coherent language) history state mem with none | ⟨before, begins, rfl⟩
    · cases none
    · exact ⟨(run_coherent engine (start_coherent language) before).state, before, begins, rfl⟩
  · exact fun later => selected_run engine later (single_run engine language history) h
  · exact fun later isOpen => isOpen_run_of_arrows engine isOpen later

/-- Up from the first of three items leads to the last one. -/
example :
    let items : List Item := [⟨['a'], .metric, ['a'], [], none⟩, ⟨['b'], .metric, ['b'], [], none⟩,
      ⟨['c'], .metric, ['c'], [], none⟩]
    let engine : Round → Unit → RoundResult := fun _ _ =>
      .loaded ⟨{ place := .metricName }, [⟨.metrics, items⟩], {}, []⟩
    let s := (start .metrics).run engine
      [.act (.edit ['a'] 1), .pauseOver 1, .load 1, .finish 1 (), .act (.press .up false)]
    s.menu.state.isOpen = true ∧ s.menu.state.selected = 2 := by
  decide

end

end Session

end Typeahead
