import Typeahead.Proofs.Menu.Session

/-!
An open menu is about the query as it stands. A round keeps the text and the cursor that it began with,
and every change of either ends the round, so what comes back for a round can open the menu only while
both are still the same.

- `sound_run`: the invariant of all sessions.
- `open_menu_fits_query`: what an open menu shows was found for the query and the cursor of the moment,
  and nothing else is ever accepted.
-/

namespace Typeahead

/-- The result of a round from what came back for it: suggestions for its own text and cursor, made from
what was found, or a failure. -/
def RoundResult.of (language : Language) (limit : Int) (r : Round) :
    Except Failure Findings → RoundResult
  | .ok findings => .loaded (.of language r.text r.cursor limit findings)
  | .error failure => .failed failure

/-- The items and the context of the menu are those suggested for its query, in the current round. -/
def Menu.Fits (m : Menu) (limit : Int) : Prop :=
  ∃ findings, m.state.round = m.round ∧
    m.state.context? = some (contextOf m.language m.text m.cursor) ∧
    m.state.items = (Suggestions.of m.language m.text m.cursor limit findings).items

/-- What every session keeps: the cursor is inside the text, a round that has not been superseded is
about the text and the cursor of the moment, and so is an open menu. -/
structure Session.Sound (language : Language) (limit : Int) (s : Session) : Prop where
  language : s.menu.language = language
  inside : s.menu.cursor ≤ s.menu.text.length
  numbered : ∀ r ∈ s.rounds, r.id ≤ s.menu.round
  current : ∀ r ∈ s.rounds, r.id = s.menu.round → r.text = s.menu.text ∧ r.cursor = s.menu.cursor
  fits : s.menu.state.isOpen = true → s.menu.Fits limit

namespace Session

variable {language : Language} {limit : Int}

theorem start_sound : Sound language limit (start language) :=
  ⟨rfl, Nat.le_refl _, by simp [start, rounds], by simp [start, rounds],
    by simp [start, MenuState.isOpen]⟩

theorem Sound.of_quiet {s t : Session} (h : Sound language limit s) (quiet : Quiet s t)
    (fits : t.menu.state.isOpen = true → t.menu.Fits limit) : Sound language limit t where
  language := quiet.language ▸ h.language
  inside := by rw [quiet.text, quiet.cursor]; exact h.inside
  numbered r mem := quiet.round ▸ h.numbered r (quiet.rounds r mem)
  current r mem its := by
    rw [quiet.text, quiet.cursor]
    exact h.current r (quiet.rounds r mem) (its.trans quiet.round)
  fits := fits

theorem Sound.ended {s : Session} (h : Sound language limit s) {m : Menu}
    (ended : Menu.Ended s.menu m) : Sound language limit { s with menu := m } where
  language := ended.language.trans h.language
  inside := ended.inside h.inside
  numbered r mem := by
    rcases mem_rounds.1 mem with pending | older
    · exact Nat.le_of_eq (congrArg Round.id (ended.pending r pending))
    · have earlier := h.numbered r (mem_rounds.2 (.inr older))
      exact Nat.le_trans earlier (ended.round ▸ Nat.le_succ _)
  current r mem its := by
    rcases mem_rounds.1 mem with pending | older
    · rw [ended.pending r pending]
      exact ⟨rfl, rfl⟩
    · have := h.numbered r (mem_rounds.2 (.inr older))
      have := ended.round
      dsimp only at its
      omega
  fits shown := by simp [ended.closed] at shown

theorem Sound.reselected {s : Session} (h : Sound language limit s) {m : Menu}
    (kept : Menu.Reselected s.menu m) : Sound language limit { s with menu := m } := by
  apply h.of_quiet (.of_reshown kept.toReshown)
  intro shown
  obtain ⟨findings, round, context, items⟩ := h.fits (kept.isOpen ▸ shown)
  refine ⟨findings, ?_, ?_, ?_⟩
  · rw [kept.stateRound, kept.round, round]
  · rw [kept.context, kept.language, kept.text, kept.cursor, context]
  · rw [kept.items, kept.language, kept.text, kept.cursor, items]

/-- What comes back for a round opens the menu only for the query that the round is about. -/
theorem Sound.finish_fits {s : Session} (h : Sound language limit s) {r : Round}
    (mem : r ∈ s.rounds) (answer : Except Failure Findings)
    (shown : (s.menu.finish r.id (.of language limit r answer)).state.isOpen = true) :
    (s.menu.finish r.id (.of language limit r answer)).Fits limit := by
  cases stale : s.menu.isStale r.id with
  | true =>
    rw [Menu.finish_of_isStale stale] at shown ⊢
    exact h.fits shown
  | false =>
    have its : r.id = s.menu.round := by simpa [Menu.isStale] using stale
    obtain ⟨text, cursor⟩ := h.current r mem its
    rw [its] at shown ⊢
    cases answer with
    | error failure =>
      rw [RoundResult.of, Menu.isOpen_finish_failed] at shown
      cases shown
    | ok findings =>
      have same := s.menu.finish_reshown s.menu.round (.of language limit r (.ok findings))
      obtain ⟨context, items, round⟩ :=
        s.menu.state_finish_loaded (.of language r.text r.cursor limit findings)
      refine ⟨findings, round.trans same.round.symm, context.trans ?_, items.trans ?_⟩
      · rw [same.language, same.text, same.cursor, h.language, ← text, ← cursor]
        rfl
      · rw [same.language, same.text, same.cursor, h.language, ← text, ← cursor]

theorem sound_step {s : Session} (h : Sound language limit s)
    (e : Event (Except Failure Findings)) :
    Sound language limit (s.step (RoundResult.of language limit) e) := by
  cases e with
  | act a =>
    obtain ⟨-, ended⟩ | ⟨-, kept⟩ := s.menu.act_cases a
    · exact h.ended ended
    · exact h.reselected kept
  | pauseOver n =>
    apply h.of_quiet (s.pauseOver_quiet _ n)
    intro shown
    obtain same | ⟨r, -, -, next⟩ := s.pauseOver_cases (RoundResult.of language limit) n
    · rw [same] at shown ⊢
      exact h.fits shown
    · rw [next] at shown ⊢
      exact h.fits shown
  | load n =>
    apply h.of_quiet (s.load_quiet _ n)
    intro shown
    obtain same | ⟨r, -, -, next | ⟨-, next⟩⟩ := s.load_cases (RoundResult.of language limit) n
    · rw [same] at shown ⊢
      exact h.fits shown
    · rw [next] at shown ⊢
      exact h.fits shown
    · -- a menu that loads is closed
      rw [next, Menu.isOpen_display] at shown
      simp [MenuState.isOpen] at shown
  | finish n answer =>
    apply h.of_quiet (s.finish_quiet _ n answer)
    intro shown
    obtain same | ⟨r, mem, rfl, next⟩ := s.finish_cases (RoundResult.of language limit) n answer
    · rw [same] at shown ⊢
      exact h.fits shown
    · rw [next] at shown ⊢
      exact h.finish_fits (mem_rounds.2 (.inr (.inr mem))) answer shown

theorem sound_run (language : Language) (limit : Int)
    (history : List (Event (Except Failure Findings))) :
    Sound language limit ((start language).run (RoundResult.of language limit) history) :=
  List.foldlRecOn history _ start_sound fun _ h e _ => sound_step h e

end Session

/-- How the attempt to accept the item at an index ends. It is refused, and nothing about the query
changes; or the item is applied to the query as it stands, at the cursor, in the context of both, and the
menu is closed. -/
def Menu.Accepts (m : Menu) (index : Int) (answer : Option Edit × Menu) : Prop :=
  answer.1 = none ∧ answer.2.text = m.text ∧ answer.2.cursor = m.cursor ∨
  ∃ item, 0 ≤ index ∧ m.state.items[index.toNat]? = some item ∧
    let edit := Edit.accept m.text m.cursor item (contextOf m.language m.text m.cursor)
    answer.1 = some edit ∧ answer.2.text = edit.text ∧ answer.2.cursor = edit.cursor ∧
      answer.2.state.isOpen = false

namespace Session

variable {language : Language} {limit : Int}

theorem Sound.commitAt_accepts {s : Session} (h : Sound language limit s) (index : Int) :
    s.menu.Accepts index (s.menu.commitAt index) := by
  obtain refused | ⟨context, item, found, shown, nonneg, there, accepted⟩ :=
    s.menu.commitAt_cases index
  · exact .inl (by simp [refused])
  · obtain ⟨-, -, fits, -⟩ := h.fits shown
    obtain rfl : context = contextOf s.menu.language s.menu.text s.menu.cursor :=
      Option.some.inj (found.symm.trans fits)
    refine .inr ⟨item, nonneg, there, ?_⟩
    rw [accepted]
    exact ⟨rfl, rfl, rfl, Menu.isOpen_close _⟩

/-- An item of an open menu is always accepted. -/
theorem Sound.isSome_commitAt {s : Session} (h : Sound language limit s) (index : Int) :
    (s.menu.commitAt index).1.isSome = true ↔
      s.menu.state.isOpen = true ∧ 0 ≤ index ∧ index < s.menu.state.items.length := by
  constructor
  · intro taken
    obtain refused | ⟨-, item, -, shown, nonneg, there, -⟩ := s.menu.commitAt_cases index
    · simp [refused] at taken
    · have := (List.getElem?_eq_some_iff.1 there).1
      exact ⟨shown, nonneg, by omega⟩
  · rintro ⟨shown, nonneg, small⟩
    obtain ⟨-, -, fits, -⟩ := h.fits shown
    have there : index.toNat < s.menu.state.items.length := by omega
    simp [Menu.commitAt, fits, shown, nonneg, List.getElem?_eq_getElem there]

theorem Sound.press_accepts {s : Session} (h : Sound language limit s) (key : Key)
    (runsQuery : Bool) :
    s.menu.Accepts s.menu.state.selected (s.menu.press key runsQuery) := by
  obtain ⟨-, closed⟩ | ⟨-, taken | ⟨nothing, moved⟩⟩ := s.menu.press_cases key runsQuery
  · exact .inl (by rw [closed]; exact ⟨rfl, rfl, rfl⟩)
  · rw [taken]
    exact h.commitAt_accepts _
  · exact .inl ⟨nothing, moved.text, moved.cursor⟩

/-- Whatever the one who types does, and in whatever order pauses end and rounds come back or fail: the
cursor is inside the text; an open menu shows what was found for the query and the cursor of the moment
in the current round; and to accept an item, by its index or by a key, applies exactly such an item to
exactly this query, or changes nothing about it. -/
theorem open_menu_fits_query (language : Language) (limit : Int)
    (history : List (Event (Except Failure Findings))) :
    let m := ((start language).run (RoundResult.of language limit) history).menu
    m.language = language ∧ m.cursor ≤ m.text.length ∧
    (m.state.isOpen = true → m.Fits limit) ∧
    (∀ index? : Option Int,
      m.Accepts (index?.getD m.state.selected) (m.commit index?) ∧
      ((m.commit index?).1.isSome = true ↔
        m.state.isOpen = true ∧ 0 ≤ index?.getD m.state.selected ∧
          index?.getD m.state.selected < m.state.items.length)) ∧
    ∀ key runsQuery, m.Accepts m.state.selected (m.press key runsQuery) := by
  intro m
  have h := sound_run language limit history
  exact ⟨h.language, h.inside, h.fits,
    fun index? => ⟨h.commitAt_accepts _, h.isSome_commitAt _⟩, h.press_accepts⟩

end Session

end Typeahead
