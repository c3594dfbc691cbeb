import Mathlib.Data.List.Nodup
import Typeahead.Proofs.Menu.Session

/-!
The current round of a session. A round is waited for, begins to load, and with that asks the engine about its text
and cursor; what was asked comes back once. A change of the text begins one round, so that at most one is current.

- `load_asks`: what is asked is what is waited for.
- `unasked_step`: a round that asks does not ask again.
- `single_step`: there is at most one current round, and none beside an open menu.
- `Distinct.step`: no two rounds under way have one number.
-/

namespace Typeahead

/-- What the engine is asked. -/
structure Question where
  language : Language
  text : Text
  cursor : Nat
  deriving DecidableEq, Repr

namespace Menu

theorem pending?_of_accepted {m : Menu} {index : Int} (accepted : (m.commitAt index).1.isSome = true) :
    (m.commitAt index).2.pending? = none := by
  obtain refused | ⟨context, item, -, -, -, -, next⟩ := m.commitAt_cases index
  · rw [refused] at accepted
    cases accepted
  · rw [next]
    rfl

/-- Of the acts that end a round, only a change to a text with more than blanks begins one. -/
theorem begins_or_pending?_act {m : Menu} {a : Act} (ends : m.ends a = true) :
    (∃ text cursor, a = .edit text cursor ∧ text.hasInk = true) ∨ (m.act a).pending? = none := by
  cases a with
  | edit text cursor =>
    by_cases ink : text.hasInk = true
    · exact .inl ⟨text, cursor, rfl, ink⟩
    · right
      rw [act, edit, if_neg ink]
      rfl
  | close | reset => exact .inr rfl
  | hover index => cases ends
  | dismissError =>
    have failed : m.state.phase = .failed := of_decide_eq_true ends
    right
    rw [act, dismissError, if_pos failed]
    rfl
  | commit index? => exact .inr (pending?_of_accepted ends)
  | press key runsQuery =>
    right
    obtain ⟨-, closed⟩ | ⟨stays, rest⟩ := m.press_cases key runsQuery
    · rw [act, closed]
      rfl
    · have byItem : (m.press key runsQuery).1.isSome = true := by
        have goesOn : (decide (key = .escape) || decide (key = .enter) && runsQuery) = false := by simpa using stays
        simpa only [Menu.ends, goesOn, Bool.false_or] using ends
      obtain taken | ⟨nothing, -⟩ := rest
      · rw [taken] at byItem
        rw [act, taken]
        exact pending?_of_accepted byItem
      · rw [nothing] at byItem
        cases byItem

end Menu

namespace Session

/-- Rounds are numbered in order, the current one last. -/
def Numbered (s : Session) : Prop := ∀ r ∈ s.rounds, r.id ≤ s.menu.round

/-- How many rounds with the current number have asked nothing yet. -/
def unasked (s : Session) : Nat := (s.menu.pending?.toList ++ s.begun).countP fun r => r.id = s.menu.round

/-- How many rounds with the current number wait for what they asked. -/
def asked (s : Session) : Nat := s.loading.countP fun r => r.id = s.menu.round

section
variable {α : Type}

/-- Whether an event ends the round under way. -/
def disturbs (s : Session) : Event α → Bool
  | .act a => s.menu.ends a
  | .pauseOver _ | .load _ | .finish .. => false

/-- What an event asks the engine: a round that begins to load asks about its text and cursor. -/
def question? (s : Session) : Event α → Option Question
  | .load n =>
    if s.menu.isStale n then none
    else (s.begun.find? fun r => r.id = n).map fun r => ⟨s.menu.language, r.text, r.cursor⟩
  | .act _ | .pauseOver _ | .finish .. => none

variable (engine : Round → α → RoundResult)

/-- A round that may load asks the engine, and what it asked is waited for; otherwise nothing is asked. -/
theorem load_asks (s : Session) (n : Nat) :
    s.question? (.load n : Event α) = none ∧
      s.step engine (.load n) = { s with begun := s.begun.filter fun r => r.id != n } ∨
    ∃ r ∈ s.begun, r.id = n ∧ n = s.menu.round ∧
      s.question? (.load n : Event α) = some ⟨s.menu.language, r.text, r.cursor⟩ ∧
      s.step engine (.load n) =
        { menu := s.menu.display { s.menu.state with phase := .loading, error? := none }
          begun := s.begun.filter fun r => r.id != n
          loading := s.loading ++ [r] } := by
  cases found : s.begun.find? fun r => r.id = n with
  | none =>
    have all : (s.begun.filter fun r => r.id != n) = s.begun :=
      List.filter_eq_self.2 fun r mem => by simpa using List.find?_eq_none.1 found r mem
    exact .inl ⟨by simp [question?, found], by simp [step, found, all]⟩
  | some r =>
    have its : r.id = n := by simpa using List.find?_some found
    cases stale : s.menu.isStale n with
    | true => exact .inl ⟨by simp [question?, stale], by simp [step, found, Menu.load?, stale]⟩
    | false =>
      have number : n = s.menu.round := by simpa [Menu.isStale] using stale
      exact .inr ⟨r, List.mem_of_find?_eq_some found, its, number, by simp [question?, found, stale],
        by simp [step, found, Menu.load?, stale]⟩

/-- An event that ends no round changes nothing about the query and begins no round. -/
theorem quiet_step {s : Session} {e : Event α} (calm : s.disturbs e = false) : Quiet s (s.step engine e) := by
  cases e with
  | act a =>
    obtain ⟨ends, -⟩ | ⟨-, kept⟩ := s.menu.act_cases a
    · exact absurd (calm.symm.trans ends) Bool.false_ne_true
    · exact .of_reshown kept.toReshown
  | pauseOver n => exact s.pauseOver_quiet engine n
  | load n => exact s.load_quiet engine n
  | finish n answer => exact s.finish_quiet engine n answer

/-- Rounds go on only when a pause is over. -/
theorem begun_step {s : Session} {e : Event α} {r : Round} (mem : r ∈ (s.step engine e).begun) :
    r ∈ s.begun ∨ ∃ n, e = .pauseOver n := by
  cases e with
  | act a => exact .inl mem
  | pauseOver n => exact .inr ⟨n, rfl⟩
  | load n =>
    obtain ⟨-, next⟩ | ⟨x, -, -, -, -, next⟩ := s.load_asks engine n
    all_goals
      rw [next] at mem
      exact .inl (List.mem_filter.1 mem).1
  | finish n answer =>
    obtain same | ⟨x, -, -, next⟩ := s.finish_cases engine n answer
    · exact .inl (same ▸ mem)
    · exact .inl (by rwa [next] at mem)

theorem Numbered.step {s : Session} (h : Numbered s) (e : Event α) : Numbered (s.step engine e) := by
  cases calm : s.disturbs e with
  | false =>
    have quiet := s.quiet_step engine calm
    exact fun r mem => quiet.round ▸ h r (quiet.rounds r mem)
  | true =>
    cases e with
    | act a =>
      obtain ⟨-, ended⟩ | ⟨stays, -⟩ := s.menu.act_cases a
      · intro r mem
        rcases mem_rounds.1 mem with pending | older
        · exact Nat.le_of_eq (congrArg Round.id (ended.pending r pending))
        · exact Nat.le_trans (h r (mem_rounds.2 (.inr older))) (ended.round ▸ Nat.le_succ _)
      · exact absurd (calm.symm.trans stays) Bool.false_ne_true.symm
    | pauseOver | load | finish => cases calm

/-- The rounds that were under way before a round was ended are not current any more. -/
theorem Numbered.counts_of_ended {s : Session} (h : Numbered s) {m : Menu} (ended : Menu.Ended s.menu m) :
    unasked { s with menu := m } = m.pending?.toList.length ∧ asked { s with menu := m } = 0 := by
  have older (r : Round) (mem : r ∈ s.begun ∨ r ∈ s.loading) : r.id ≠ m.round := by
    have := h r (mem_rounds.2 (.inr mem))
    have := ended.round
    omega
  have begun : s.begun.countP (fun r => r.id = m.round) = 0 :=
    List.countP_eq_zero.2 fun r mem => by simpa using older r (.inl mem)
  have loading : s.loading.countP (fun r => r.id = m.round) = 0 :=
    List.countP_eq_zero.2 fun r mem => by simpa using older r (.inr mem)
  have pending : m.pending?.toList.countP (fun r => r.id = m.round) = m.pending?.toList.length :=
    List.countP_eq_length.2 fun r mem => by
      simpa using congrArg Round.id (ended.pending r (Option.mem_toList.1 mem))
  exact ⟨by rw [unasked, List.countP_append, pending, begun]; rfl, loading⟩

theorem counts_of_reshown (s : Session) {m : Menu} (kept : Menu.Reshown s.menu m) :
    unasked { s with menu := m } = s.unasked ∧ asked { s with menu := m } = s.asked := by
  simp only [unasked, asked, kept.pending, kept.round, and_self]

theorem counts_pauseOver (s : Session) (n : Nat) :
    (s.step engine (.pauseOver n)).unasked ≤ s.unasked ∧ (s.step engine (.pauseOver n)).asked = s.asked := by
  obtain same | ⟨r, waits, -, next⟩ := s.pauseOver_cases engine n
  · rw [same]
    exact ⟨Nat.le_refl _, rfl⟩
  · rw [next]
    refine ⟨?_, rfl⟩
    simp only [unasked, waits, Option.toList_none, Option.toList_some, List.nil_append, List.countP_append]
    split
    · simp
    · exact Nat.le_of_eq (Nat.add_comm ..)

/-- Of the rounds with a number none is left among those that have asked nothing yet, once one has begun to load. -/
theorem counts_load (s : Session) (n : Nat) :
    (s.step engine (.load n)).unasked + (s.question? (.load n : Event α)).toList.length ≤ s.unasked ∧
      (s.step engine (.load n)).asked = s.asked + (s.question? (.load n : Event α)).toList.length := by
  obtain ⟨silent, next⟩ | ⟨r, mem, rfl, its, asks, next⟩ := s.load_asks engine n
  · have fewer : (s.begun.filter fun r => r.id != n).countP (fun r => r.id = s.menu.round) ≤
        s.begun.countP fun r => r.id = s.menu.round := List.filter_sublist.countP_le
    rw [next, silent]
    refine ⟨?_, rfl⟩
    simp only [unasked, List.countP_append]
    exact Nat.add_le_add_left fewer _
  · have gone : (s.begun.filter fun x => x.id != r.id).countP (fun x => x.id = s.menu.round) = 0 := by
      rw [← its, List.countP_eq_zero]
      intro x kept
      simpa using (List.mem_filter.1 kept).2
    have there : 0 < s.begun.countP fun x => x.id = s.menu.round :=
      List.countP_pos_iff.2 ⟨r, mem, by simpa using its⟩
    have one : [r].countP (fun x => x.id = s.menu.round) = 1 := by
      rw [List.countP_singleton, if_pos (by simpa using its)]
    rw [next, asks]
    constructor
    · change (s.menu.pending?.toList ++ s.begun.filter fun x => x.id != r.id).countP
        (fun x => x.id = s.menu.round) + 1 ≤ s.unasked
      rw [unasked, List.countP_append, List.countP_append, gone]
      omega
    · change (s.loading ++ [r]).countP (fun x => x.id = s.menu.round) = s.asked + 1
      rw [asked, List.countP_append, one]

/-- What comes back for a superseded round is not noticed; what comes back for the current one was asked, and nothing
that was asked for it is waited for any longer. -/
theorem counts_finish (s : Session) (n : Nat) (answer : α) :
    (s.step engine (.finish n answer)).unasked = s.unasked ∧
      ((s.step engine (.finish n answer)).menu = s.menu ∧ (s.step engine (.finish n answer)).asked = s.asked ∨
        0 < s.asked ∧ (s.step engine (.finish n answer)).asked = 0) := by
  obtain same | ⟨r, mem, rfl, next⟩ := s.finish_cases engine n answer
  · rw [same]
    exact ⟨rfl, .inl ⟨rfl, rfl⟩⟩
  · have kept := s.menu.finish_reshown r.id (engine r answer)
    rw [next]
    refine ⟨by simp only [unasked, kept.pending, kept.round], ?_⟩
    by_cases its : r.id = s.menu.round
    · refine .inr ⟨List.countP_pos_iff.2 ⟨r, mem, by simpa using its⟩, ?_⟩
      rw [asked, kept.round, ← its, List.countP_eq_zero]
      intro x left
      simpa using (List.mem_filter.1 left).2
    · have stale : s.menu.isStale r.id = true := by simpa [Menu.isStale] using its
      refine .inl ⟨Menu.finish_of_isStale stale _, ?_⟩
      rw [asked, asked, kept.round, List.countP_filter]
      apply List.countP_congr
      intro x _
      by_cases current : x.id = s.menu.round <;> simp [current, Ne.symm its]

/-- An event that ends no round spends what it asks. -/
theorem unasked_step {s : Session} {e : Event α} (calm : s.disturbs e = false) :
    (s.step engine e).unasked + (s.question? e).toList.length ≤ s.unasked := by
  cases e with
  | act a =>
    obtain ⟨ends, -⟩ | ⟨-, kept⟩ := s.menu.act_cases a
    · exact absurd (calm.symm.trans ends) Bool.false_ne_true
    · exact Nat.le_of_eq (s.counts_of_reshown kept.toReshown).1
  | pauseOver n => exact (s.counts_pauseOver engine n).1
  | load n => exact (s.counts_load engine n).1
  | finish n answer => exact Nat.le_of_eq (s.counts_finish engine n answer).1

theorem state_pauseOver (s : Session) (n : Nat) :
    (s.step engine (.pauseOver n)).menu.state = s.menu.state := by
  obtain same | ⟨r, -, -, next⟩ := s.pauseOver_cases engine n
  · rw [same]
  · rw [next]

/-- There is at most one current round, and none beside an open menu. -/
structure Single (s : Session) : Prop where
  numbered : s.Numbered
  single : s.unasked + s.asked ≤ if s.menu.state.isOpen then 0 else 1

theorem start_single (language : Language) : Single (start language) :=
  ⟨by simp [Numbered, start, rounds], Nat.zero_le _⟩

theorem single_step {s : Session} (h : Single s) (e : Event α) : Single (s.step engine e) := by
  have single := h.single
  refine ⟨h.numbered.step engine e, ?_⟩
  cases e with
  | act a =>
    obtain ⟨-, ended⟩ | ⟨-, kept⟩ := s.menu.act_cases a
    · have unasked : (s.step engine (.act a)).unasked = _ := (h.numbered.counts_of_ended ended).1
      have asked : (s.step engine (.act a)).asked = 0 := (h.numbered.counts_of_ended ended).2
      have closed : (s.step engine (.act a)).menu.state.isOpen = false := ended.closed
      have one : (s.menu.act a).pending?.toList.length ≤ 1 := by cases (s.menu.act a).pending? <;> simp
      rw [unasked, asked, closed]
      exact one
    · have unasked : (s.step engine (.act a)).unasked = s.unasked := (s.counts_of_reshown kept.toReshown).1
      have asked : (s.step engine (.act a)).asked = s.asked := (s.counts_of_reshown kept.toReshown).2
      have same : (s.step engine (.act a)).menu.state.isOpen = s.menu.state.isOpen := kept.isOpen
      rw [unasked, asked, same]
      exact single
  | pauseOver n =>
    obtain ⟨unasked, asked⟩ := s.counts_pauseOver engine n
    rw [state_pauseOver]
    omega
  | load n =>
    obtain ⟨unasked, asked⟩ := s.counts_load engine n
    obtain ⟨silent, next⟩ | ⟨r, -, -, -, asks, next⟩ := s.load_asks engine n
    · have same : (s.step engine (.load n)).menu = s.menu := by rw [next]
      rw [same]
      omega
    · -- a menu that loads is closed
      have closed : (s.step engine (.load n)).menu.state.isOpen = false := by
        rw [next, Menu.isOpen_display]
        simp [MenuState.isOpen]
      have bound : s.unasked + s.asked ≤ 1 := by split at single <;> omega
      simp only [closed, Bool.false_eq_true, if_false]
      omega
  | finish n answer =>
    obtain ⟨unasked, ⟨menu, asked⟩ | ⟨waited, asked⟩⟩ := s.counts_finish engine n answer
    · rw [menu]
      omega
    · have bound : s.unasked + s.asked ≤ 1 := by split at single <;> omega
      omega

theorem single_run (language : Language) (history : List (Event α)) :
    Single ((start language).run engine history) :=
  List.foldlRecOn history _ (start_single language) fun _ h e _ => single_step engine h e

/-- No two rounds have one number. -/
def Distinct (s : Session) : Prop := (s.rounds.map (·.id)).Nodup

theorem Distinct.eq {s : Session} (h : s.Distinct) {r x : Round} (mem : r ∈ s.rounds) (other : x ∈ s.rounds)
    (same : r.id = x.id) : r = x :=
  List.inj_on_of_nodup_map h mem other same

theorem Distinct.nodup {s : Session} (h : s.Distinct) : s.rounds.Nodup := List.Nodup.of_map _ h

/-- A round that goes on has asked nothing yet. -/
theorem Distinct.apart {s : Session} (h : s.Distinct) {r x : Round} (mem : r ∈ s.begun) (other : x ∈ s.loading) :
    x.id ≠ r.id := by
  intro same
  obtain rfl := h.eq (mem_rounds.2 (.inr (.inr other))) (mem_rounds.2 (.inr (.inl mem))) same
  obtain ⟨-, -, apart⟩ := List.nodup_append.1 h.nodup
  exact apart x (List.mem_append_right _ mem) x other rfl

theorem Distinct.filter_begun {s : Session} (h : s.Distinct) {r : Round} {rest : List Round}
    (begun : s.begun = r :: rest) : (s.begun.filter fun x => x.id != r.id) = rest := by
  have ids : (s.begun.map (·.id)).Nodup := by
    refine h.sublist (List.Sublist.map _ ?_)
    rw [rounds, List.append_assoc]
    exact (List.sublist_append_left ..).trans (List.sublist_append_right ..)
  rw [begun, List.map_cons, List.nodup_cons] at ids
  rw [begun, List.filter_cons_of_neg (by simp), List.filter_eq_self]
  intro x mem
  have other : x.id ≠ r.id := fun same => ids.1 (same ▸ List.mem_map_of_mem mem)
  simpa using other

/-- The first of the rounds that go on begins to load, unless it has been superseded. -/
theorem Distinct.step_load {s : Session} (h : s.Distinct) {r : Round} {rest : List Round}
    (begun : s.begun = r :: rest) :
    s.step engine (.load r.id) =
      if s.menu.isStale r.id then { s with begun := rest }
      else
        { menu := s.menu.display { s.menu.state with phase := .loading, error? := none }
          begun := rest
          loading := s.loading ++ [r] } := by
  have first : (s.begun.find? fun x => x.id = r.id) = some r := by simp [begun]
  cases stale : s.menu.isStale r.id
  all_goals simp [step, first, h.filter_begun begun, Menu.load?, stale]

theorem Distinct.of_quiet {s t : Session} (h : s.Distinct) (quiet : Quiet s t) (nodup : t.rounds.Nodup) :
    t.Distinct :=
  nodup.map_on fun r mem x other => h.eq (quiet.rounds r mem) (quiet.rounds x other)

theorem Distinct.ended {s : Session} (h : s.Distinct) (numbered : s.Numbered) {m : Menu}
    (ended : Menu.Ended s.menu m) : Distinct { s with menu := m } := by
  have older : ((s.begun ++ s.loading).map (·.id)).Nodup := by
    refine h.sublist (List.Sublist.map _ ?_)
    rw [rounds, List.append_assoc]
    exact List.sublist_append_right ..
  rw [Distinct, rounds, List.append_assoc]
  cases pending : m.pending? with
  | none => exact older
  | some p =>
    refine List.nodup_cons.2 ⟨?_, older⟩
    intro mem
    obtain ⟨r, there, same⟩ := List.mem_map.1 mem
    have old := numbered r (mem_rounds.2 (.inr (List.mem_append.1 there)))
    have new : p.id = m.round := congrArg Round.id (ended.pending p pending)
    have next := ended.round
    dsimp only at same
    omega

theorem Distinct.step {s : Session} (h : s.Distinct) (numbered : s.Numbered) (e : Event α) :
    (s.step engine e).Distinct := by
  have nodup := h.nodup
  cases e with
  | act a =>
    obtain ⟨-, ended⟩ | ⟨-, kept⟩ := s.menu.act_cases a
    · exact h.ended numbered ended
    · refine h.of_quiet (.of_reshown kept.toReshown) ?_
      change ((s.menu.act a).pending?.toList ++ s.begun ++ s.loading).Nodup
      rw [kept.pending]
      exact nodup
  | pauseOver n =>
    refine h.of_quiet (s.pauseOver_quiet engine n) ?_
    obtain same | ⟨r, waits, -, next⟩ := s.pauseOver_cases engine n
    · rwa [same]
    · rw [rounds, waits] at nodup
      rw [next, rounds]
      split
      · exact nodup.sublist (by simp)
      · have moved : ([r] ++ s.begun).Perm (s.begun ++ [r]) := List.perm_append_comm
        exact (moved.append_right s.loading).nodup_iff.1 nodup
  | load n =>
    refine h.of_quiet (s.load_quiet engine n) ?_
    obtain ⟨-, next⟩ | ⟨r, mem, rfl, its, -, next⟩ := s.load_asks engine n
    · rw [next]
      exact nodup.sublist ((List.filter_sublist.append_left _).append_right _)
    · rw [next]
      have left : (s.menu.pending?.toList ++ (s.begun.filter fun x => x.id != r.id) ++ s.loading).Nodup :=
        nodup.sublist ((List.filter_sublist.append_left _).append_right _)
      obtain ⟨first, -, apart⟩ := List.nodup_append.1 nodup
      obtain ⟨-, -, waiting⟩ := List.nodup_append.1 first
      change (s.menu.pending?.toList ++ (s.begun.filter fun x => x.id != r.id) ++ (s.loading ++ [r])).Nodup
      rw [← List.append_assoc, ← List.concat_eq_append]
      refine left.concat ?_
      simp only [List.mem_append, List.mem_filter, bne_self_eq_false, Bool.false_eq_true, and_false, or_false]
      rintro (pending | loading)
      · exact waiting r pending r mem rfl
      · exact apart r (List.mem_append_right _ mem) r loading rfl
  | finish n answer =>
    refine h.of_quiet (s.finish_quiet engine n answer) ?_
    obtain same | ⟨r, -, -, next⟩ := s.finish_cases engine n answer
    · rwa [same]
    · rw [next, rounds, (s.menu.finish_reshown n (engine r answer)).pending]
      exact nodup.sublist (List.filter_sublist.append_left _)

theorem Distinct.find?_loading {s : Session} (h : s.Distinct) {r : Round} (mem : r ∈ s.loading) :
    (s.loading.find? fun x => x.id = r.id) = some r := by
  cases found : s.loading.find? fun x => x.id = r.id with
  | none => exact absurd (List.find?_eq_none.1 found r mem) (by simp)
  | some x =>
    have its : x.id = r.id := by simpa using List.find?_some found
    have there := List.mem_of_find?_eq_some found
    rw [h.eq (mem_rounds.2 (.inr (.inr there))) (mem_rounds.2 (.inr (.inr mem))) its]

end

end Session

end Typeahead
