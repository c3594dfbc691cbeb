import Mathlib.Data.List.Induction
import Mathlib.Tactic.Linarith
import Typeahead.Proofs.Menu.Rounds
import Typeahead.Agenda

/-!
A session by the clock. The pause of a round begins some time after the change of the text that began the round, and
is over a span after that; from then on the round may go on, whenever it comes to that. Time may pass at any moment,
between any two events.

- `waits_step`: what holds of a session from a change of the text until the round is ended.
- `origin`: a round that has asked nothing yet goes back to the last change of the text.
- `asks_after_pause`: what is asked, when, and how often.
-/

namespace Typeahead

/-- A session, the time, and when the pause is over that was begun last. -/
structure Clocked where
  session : Session
  now : Seconds
  pauseEnd? : Option Seconds := none

/-- What happens by the clock: time passes, the pause of the round that waits begins, or something happens in the
session. -/
inductive Moment (α : Type) where
  | elapse (passed : Seconds)
  | pause
  | event (e : Event α)

namespace Clocked

/-- A new session at a time. -/
def start (language : Language) (now : Seconds) : Clocked := { session := .start language, now }

section
variable {α : Type}

/-- Whether an event comes too early: the end of a pause that is not over. -/
def tooEarly (c : Clocked) : Event α → Bool
  | .pauseOver _ => !c.pauseEnd?.any (· ≤ c.now)
  | .act _ | .load _ | .finish .. => false

/-- Whether a round is ended at a moment. -/
def disturbs (c : Clocked) : Moment α → Bool
  | .event e => c.session.disturbs e
  | .elapse _ | .pause => false

/-- What the engine is asked at a moment. -/
def question? (c : Clocked) : Moment α → Option Question
  | .event e => c.session.question? e
  | .elapse _ | .pause => none

variable (engine : Round → α → RoundResult) (span : Seconds)

/-- The session after a moment. To end a round is to end its pause. -/
def step (c : Clocked) : Moment α → Clocked
  | .elapse passed => { c with now := c.now + max 0 passed }
  | .pause =>
    if c.session.menu.pending?.isSome && c.pauseEnd?.isNone then { c with pauseEnd? := some (c.now + span) } else c
  | .event e =>
    if c.tooEarly e then c
    else
      { c with
        session := c.session.step engine e
        pauseEnd? := if c.session.disturbs e then none else c.pauseEnd? }

/-- The session after the moments of a history. -/
def run (c : Clocked) (history : List (Moment α)) : Clocked := history.foldl (step engine span) c

/-- What the engine is asked in the course of a history. -/
def questions (c : Clocked) : List (Moment α) → List Question
  | [] => []
  | m :: later => (c.question? m).toList ++ (c.step engine span m).questions later

/-- Whether no round is ended in the course of a history. -/
def Undisturbed (c : Clocked) : List (Moment α) → Prop
  | [] => True
  | m :: later => c.disturbs m = false ∧ (c.step engine span m).Undisturbed later

theorem run_concat (c : Clocked) (history : List (Moment α)) (m : Moment α) :
    c.run engine span (history ++ [m]) = (c.run engine span history).step engine span m := by
  simp [run]

theorem Undisturbed.concat {c : Clocked} {history : List (Moment α)} (h : c.Undisturbed engine span history)
    {m : Moment α} (calm : (c.run engine span history).disturbs m = false) :
    c.Undisturbed engine span (history ++ [m]) := by
  induction history generalizing c with
  | nil => exact ⟨calm, trivial⟩
  | cons first later ih => exact ⟨h.1, ih h.2 calm⟩

/-- A moment is one of the clock alone, or the session takes its event. -/
theorem step_cases (c : Clocked) (m : Moment α) :
    c.question? m = none ∧ (c.step engine span m).session = c.session ∨
    ∃ e, m = .event e ∧ c.tooEarly e = false ∧
      c.step engine span m =
        { c with
          session := c.session.step engine e
          pauseEnd? := if c.session.disturbs e then none else c.pauseEnd? } := by
  cases m with
  | elapse passed => exact .inl ⟨rfl, rfl⟩
  | pause =>
    refine .inl ⟨rfl, ?_⟩
    simp only [step]
    split <;> rfl
  | event e =>
    cases early : c.tooEarly e with
    | false => exact .inr ⟨e, rfl, early, by simp [step, early]⟩
    | true =>
      refine .inl ⟨?_, by simp [step, early]⟩
      cases e with
      | pauseOver n => rfl
      | act | load | finish => cases early

theorem numbered_step {c : Clocked} (h : c.session.Numbered) (m : Moment α) :
    (c.step engine span m).session.Numbered := by
  obtain ⟨-, same⟩ | ⟨e, -, -, next⟩ := c.step_cases engine span m
  · rwa [same]
  · rw [next]
    exact h.step engine e

theorem numbered_run {c : Clocked} (h : c.session.Numbered) (history : List (Moment α)) :
    (c.run engine span history).session.Numbered := by
  induction history generalizing c with
  | nil => exact h
  | cons m later ih => exact ih (numbered_step engine span h m)

theorem unasked_step_le {c : Clocked} {m : Moment α} (calm : c.disturbs m = false) :
    (c.step engine span m).session.unasked + (c.question? m).toList.length ≤ c.session.unasked := by
  obtain ⟨silent, same⟩ | ⟨e, rfl, -, next⟩ := c.step_cases engine span m
  · rw [silent, same]
    exact Nat.le_refl _
  · rw [next]
    exact c.session.unasked_step engine calm

/-- What is asked while no round is ended is spent. -/
theorem questions_le {c : Clocked} {history : List (Moment α)} (h : c.Undisturbed engine span history) :
    (c.questions engine span history).length ≤ c.session.unasked := by
  induction history generalizing c with
  | nil => exact Nat.zero_le _
  | cons m later ih =>
    have rest := ih h.2
    have spent := unasked_step_le engine span h.1
    rw [questions, List.length_append]
    omega

/-- The round under way began at a time, with a change to a text at a cursor: the menu is about these still, the pause
of the round ends no sooner than a span after that time, and it goes on no sooner than then. -/
structure Waits (since : Seconds) (text : Text) (cursor : Nat) (c : Clocked) : Prop where
  about : c.session.menu.text = text ∧ c.session.menu.cursor = cursor
  since_le : since ≤ c.now
  current : ∀ r ∈ c.session.rounds, r.id = c.session.menu.round → r.text = text ∧ r.cursor = cursor
  ends : ∀ t ∈ c.pauseEnd?, since + span ≤ t
  begun : ∀ r ∈ c.session.begun, r.id = c.session.menu.round → since + span ≤ c.now

theorem about_edit (m : Menu) (text : Text) (cursor : Int) :
    (m.edit text cursor).text = text ∧ (m.edit text cursor).cursor = text.clamp cursor := by
  unfold Menu.edit
  split <;> exact ⟨rfl, rfl⟩

theorem waits_edit {c : Clocked} (h : c.session.Numbered) (text : Text) (cursor : Int) :
    (c.step engine span (.event (.act (.edit text cursor)))).Waits span c.now text (text.clamp cursor) := by
  have ended := c.session.menu.edit_ended text cursor
  have about := about_edit c.session.menu text cursor
  have older (r : Round) (mem : r ∈ c.session.begun ∨ r ∈ c.session.loading) :
      r.id ≠ (c.session.menu.edit text cursor).round := by
    have := h r (Session.mem_rounds.2 (.inr mem))
    have := ended.round
    omega
  constructor
  · exact about
  · exact le_refl c.now
  · intro r mem its
    rcases Session.mem_rounds.1 mem with pending | earlier
    · rw [ended.pending r pending]
      exact about
    · exact absurd its (older r earlier)
  · exact nofun
  · intro r mem its
    exact absurd its (older r (.inl mem))

/-- Until the round is ended it stays what it is. -/
theorem waits_step {c : Clocked} {since : Seconds} {text : Text} {cursor : Nat}
    (h : c.Waits span since text cursor) {m : Moment α} (calm : c.disturbs m = false) :
    (c.step engine span m).Waits span since text cursor := by
  cases m with
  | elapse passed =>
    have later : c.now ≤ c.now + max 0 passed := le_add_of_nonneg_right (le_max_left 0 passed)
    exact ⟨h.about, h.since_le.trans later, h.current, h.ends, fun r mem its => (h.begun r mem its).trans later⟩
  | pause =>
    simp only [step]
    split
    · refine ⟨h.about, h.since_le, h.current, ?_, h.begun⟩
      intro t begun
      obtain rfl := Option.some.inj begun
      exact add_le_add_left h.since_le span
    · exact h
  | event e =>
    simp only [step]
    split
    · exact h
    · next due =>
      have calm : c.session.disturbs e = false := calm
      have quiet := c.session.quiet_step engine calm
      rw [calm]
      constructor
      · exact ⟨quiet.text.trans h.about.1, quiet.cursor.trans h.about.2⟩
      · exact h.since_le
      · exact fun r mem its => h.current r (quiet.rounds r mem) (its.trans quiet.round)
      · exact h.ends
      · intro r mem its
        rcases c.session.begun_step engine mem with before | ⟨n, rfl⟩
        · exact h.begun r before (its.trans quiet.round)
        · -- the pause is over, which began after the change of the text
          have ended : c.pauseEnd?.any (· ≤ c.now) = true := by simpa [tooEarly] using due
          obtain ⟨t, found, past⟩ := (Option.any_eq_true _ _).1 ended
          exact (h.ends t found).trans (of_decide_eq_true past)

/-- The last thing in a history that ended a round is a change to a text at a cursor, which began another one. -/
structure Origin (c : Clocked) (history before : List (Moment α)) (text : Text) (cursor : Int)
    (between : List (Moment α)) : Prop where
  past : history = before ++ .event (.act (.edit text cursor)) :: between
  ink : text.hasInk = true
  calm : ((c.run engine span before).step engine span (.event (.act (.edit text cursor)))).Undisturbed
    engine span between
  waits : (c.run engine span history).Waits span (c.run engine span before).now text (text.clamp cursor)

/-- A round that has asked nothing yet goes back to the last change of the text. -/
theorem unasked_or_origin {c : Clocked} (numbered : c.session.Numbered) (idle : c.session.unasked = 0)
    (history : List (Moment α)) :
    (c.run engine span history).session.unasked = 0 ∨
      ∃ before text cursor between, c.Origin engine span history before text cursor between := by
  induction history using List.reverseRecOn with
  | nil => exact .inl idle
  | append_singleton history m ih =>
    have counts := numbered_run engine span numbered history
    have next := c.run_concat engine span history m
    cases ends : (c.run engine span history).disturbs m with
    | false =>
      rcases ih with none | ⟨before, text, cursor, between, origin⟩
      · have fewer := unasked_step_le engine span ends
        rw [next]
        exact .inl (by omega)
      · refine .inr ⟨before, text, cursor, between ++ [m], ?_, origin.ink, ?_, ?_⟩
        · rw [origin.past, List.append_assoc, List.cons_append]
        · refine origin.calm.concat engine span ?_
          have same : c.run engine span history = ((c.run engine span before).step engine span
              (.event (.act (.edit text cursor)))).run engine span between := by
            rw [origin.past]
            simp [run]
          rwa [← same]
        · rw [next]
          exact waits_step engine span origin.waits ends
    | true =>
      obtain ⟨a, rfl, ends⟩ : ∃ a, m = .event (.act a) ∧ (c.run engine span history).session.menu.ends a = true := by
        cases m with
        | elapse | pause => cases ends
        | event e =>
          cases e with
          | act a => exact ⟨a, rfl, ends⟩
          | pauseOver | load | finish => cases ends
      rcases Menu.begins_or_pending?_act ends with ⟨text, cursor, rfl, ink⟩ | idle
      · refine .inr ⟨history, text, cursor, [], rfl, ink, trivial, ?_⟩
        rw [next]
        exact waits_edit engine span counts text cursor
      · left
        obtain ⟨-, ended⟩ | ⟨stays, -⟩ := (c.run engine span history).session.menu.act_cases a
        · rw [next]
          exact (counts.counts_of_ended ended).1.trans (by rw [idle]; rfl)
        · exact absurd (ends.symm.trans stays) Bool.false_ne_true.symm

theorem unasked_edit {c : Clocked} (h : c.session.Numbered) (text : Text) (cursor : Int) :
    (c.step engine span (.event (.act (.edit text cursor)))).session.unasked = if text.hasInk then 1 else 0 := by
  have counts := (h.counts_of_ended (c.session.menu.edit_ended text cursor)).1
  refine counts.trans ?_
  unfold Menu.edit
  split <;> rfl

include engine in
/-- What is asked at a moment, a round asks that is current and goes on. -/
theorem of_question {c : Clocked} {m : Moment α} {q : Question} (asks : c.question? m = some q) :
    ∃ r ∈ c.session.begun, r.id = c.session.menu.round ∧ q = ⟨c.session.menu.language, r.text, r.cursor⟩ := by
  cases m with
  | elapse | pause => cases asks
  | event e =>
    cases e with
    | load n =>
      have asks : c.session.question? (.load n : Event α) = some q := asks
      obtain ⟨silent, -⟩ | ⟨r, mem, rfl, its, own, -⟩ := c.session.load_asks engine n
      · rw [silent] at asks
        cases asks
      · exact ⟨r, mem, its, Option.some.inj (asks.symm.trans own)⟩
    | act | pauseOver | finish => cases asks

theorem language_step (c : Clocked) (m : Moment α) :
    (c.step engine span m).session.menu.language = c.session.menu.language := by
  obtain ⟨-, same⟩ | ⟨e, -, -, next⟩ := c.step_cases engine span m
  · rw [same]
  · rw [next]
    cases calm : c.session.disturbs e with
    | false => exact (c.session.quiet_step engine calm).language
    | true =>
      cases e with
      | act a =>
        obtain ⟨-, ended⟩ | ⟨-, kept⟩ := c.session.menu.act_cases a
        · exact ended.language
        · exact kept.language
      | pauseOver | load | finish => cases calm

theorem language_run (c : Clocked) (history : List (Moment α)) :
    (c.run engine span history).session.menu.language = c.session.menu.language := by
  induction history generalizing c with
  | nil => rfl
  | cons m later ih => exact (ih _).trans (c.language_step engine span m)

theorem start_numbered (language : Language) (now : Seconds) : (start language now).session.Numbered := by
  simp [Session.Numbered, start, Session.start, Session.rounds]

/-- The engine is asked at most once after a change of the text until the round is ended, and not at all if the text is
blank. Whenever it is asked, it is asked in the language of the menu and about the text and cursor of the moment. These
were set by the last change of the text, at least a span before, and since then no round was ended. -/
theorem asks_after_pause (language : Language) (now : Seconds) :
    (∀ (before : List (Moment α)) (text : Text) (cursor : Int) (between : List (Moment α)),
      let c := ((start language now).run engine span before).step engine span (.event (.act (.edit text cursor)))
      c.Undisturbed engine span between →
        (c.questions engine span between).length ≤ if text.hasInk then 1 else 0) ∧
    ∀ (past : List (Moment α)) (m : Moment α) (q : Question),
      let c := (start language now).run engine span past
      c.question? m = some q →
        q = ⟨language, c.session.menu.text, c.session.menu.cursor⟩ ∧ c.session.menu.language = language ∧
        ∃ before text cursor between,
          past = before ++ .event (.act (.edit text cursor)) :: between ∧ text.hasInk = true ∧
          c.session.menu.text = text ∧ c.session.menu.cursor = text.clamp cursor ∧
          let b := (start language now).run engine span before
          b.now + span ≤ c.now ∧
            (b.step engine span (.event (.act (.edit text cursor)))).Undisturbed engine span between := by
  have first := start_numbered language now
  constructor
  · intro before text cursor between c calm
    have unasked : c.session.unasked = if text.hasInk then 1 else 0 :=
      unasked_edit engine span (numbered_run engine span first before) text cursor
    exact unasked ▸ questions_le engine span calm
  · intro past m q c asks
    have spoken : c.session.menu.language = language := language_run engine span _ past
    obtain ⟨r, mem, its, rfl⟩ := of_question engine asks
    have waiting : 0 < c.session.unasked :=
      List.countP_pos_iff.2 ⟨r, List.mem_append_right _ mem, by simpa using its⟩
    obtain none | ⟨before, text, cursor, between, origin⟩ := unasked_or_origin engine span first rfl past
    · exact absurd none (Nat.ne_of_gt waiting)
    · obtain ⟨written, pointed⟩ := origin.waits.about
      obtain ⟨same, place⟩ := origin.waits.current r (Session.mem_rounds.2 (.inr (.inl mem))) its
      refine ⟨?_, spoken, before, text, cursor, between, origin.past, origin.ink, written, pointed,
        origin.waits.begun r mem its, origin.calm⟩
      rw [same, place, spoken, written, pointed]

/-- A pause of two that was begun one after the change of the text is over at three, not at two. -/
example :
    let engine : Round → Unit → RoundResult := fun r _ => .failed (.fault r.text)
    let began : List (Moment Unit) := [.event (.act (.edit ['a'] 1)), .elapse 1, .pause]
    let goesOn : List (Moment Unit) := [.event (.pauseOver 1), .event (.load 1)]
    (start .logs 0).questions engine 2 (began ++ .elapse 1 :: goesOn) = [] ∧
      (start .logs 0).questions engine 2 (began ++ .elapse 2 :: goesOn) = [⟨.logs, ['a'], 1⟩] := by
  decide +kernel

end

end Clocked

end Typeahead
