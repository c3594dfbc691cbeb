import Typeahead.Agenda

/-!
What is on an agenda. A job stays there, as one that is due or as an alarm, until it is done or the alarm
is called off; and each step, to do a job or to let the clock jump, takes some of the work away.

- `holds_next?`, `holds_jump?`: only the job that is done goes.
- `work_next?`, `work_jump?`: the work gets less.
-/

namespace Typeahead.Agenda

variable {α : Type}

/-- A job is due, or an alarm is set for it. -/
def Holds (a : Agenda α) (job : α) : Prop := job ∈ a.ready ∨ ∃ alarm ∈ a.alarms, alarm.job = job

variable {a b : Agenda α} {job other : α} {span : Seconds}

theorem perm_insertAlarm (alarm : Alarm α) (alarms : List (Alarm α)) :
    (insertAlarm alarm alarms).Perm (alarm :: alarms) := by
  induction alarms with
  | nil => exact .refl _
  | cons first rest ih =>
    simp only [insertAlarm]
    split
    · exact .refl _
    · exact (ih.cons first).trans (.swap ..)

@[simp] theorem holds_soon : (a.soon job).Holds other ↔ a.Holds other ∨ other = job := by
  simp only [Holds, soon, List.mem_append, List.mem_singleton]
  exact or_right_comm

@[simp] theorem holds_after : (a.after span job).Holds other ↔ a.Holds other ∨ other = job := by
  simp only [Holds, after, (perm_insertAlarm _ _).mem_iff, List.mem_cons, exists_eq_or_imp, or_assoc,
    eq_comm (a := job)]
  exact or_congr_right or_comm

theorem holds_drop {p : α → Bool} : (a.drop p).Holds job ↔
    job ∈ a.ready ∨ p job = false ∧ ∃ alarm ∈ a.alarms, alarm.job = job := by
  simp only [Holds, drop, List.mem_filter, Bool.not_eq_true']
  constructor
  · rintro (due | ⟨alarm, ⟨mem, spared⟩, rfl⟩)
    · exact .inl due
    · exact .inr ⟨spared, alarm, mem, rfl⟩
  · rintro (due | ⟨spared, alarm, mem, rfl⟩)
    · exact .inl due
    · exact .inr ⟨alarm, ⟨mem, spared⟩, rfl⟩

theorem next?_eq_some (h : a.next? = some (job, b)) : ∃ rest, a.ready = job :: rest ∧ b = { a with ready := rest } := by
  unfold next? at h
  split at h
  · cases h
  · next first rest ready =>
    cases h
    exact ⟨rest, ready, rfl⟩

theorem holds_next? (h : a.next? = some (job, b)) : a.Holds other ↔ other = job ∨ b.Holds other := by
  obtain ⟨rest, ready, rfl⟩ := next?_eq_some h
  simp only [Holds, ready, List.mem_cons, or_assoc]

/-- A jump makes the first alarms due: at least one of them. -/
theorem jump?_cases {limit : Option Seconds} (h : a.jump? limit = some b) :
    ∃ first rest, first ≠ [] ∧ a.alarms = first ++ rest ∧ b.alarms = rest ∧
      b.ready = a.ready ++ first.map (·.job) := by
  unfold jump? at h
  split at h
  · cases h
  · next alarm more alarms =>
    split at h
    · let now := if a.now < alarm.due then alarm.due else a.now
      cases h
      refine ⟨a.alarms.takeWhile fun x => x.due ≤ now, a.alarms.dropWhile fun x => x.due ≤ now, ?_,
        List.takeWhile_append_dropWhile.symm, rfl, rfl⟩
      have reached : alarm.due ≤ now := by
        unfold now
        split
        · exact Rat.le_refl
        · next later => exact Rat.not_lt.1 later
      simp [alarms, reached]
    · cases h

theorem holds_jump? {limit : Option Seconds} (h : a.jump? limit = some b) :
    b.Holds job ↔ a.Holds job := by
  obtain ⟨first, rest, -, alarms, later, ready⟩ := jump?_cases h
  simp only [Holds, alarms, later, ready, List.mem_append, List.mem_map, or_and_right, exists_or,
    or_assoc]

/-- An agenda on which nothing is due, and whose clock cannot jump, is empty. -/
theorem not_holds (next : a.next? = none) (jump : a.jump? none = none) : ¬ a.Holds job := by
  unfold next? at next
  unfold jump? at jump
  rintro (due | ⟨alarm, mem, -⟩)
  · split at next
    · next empty => simp [empty] at due
    · cases next
  · split at jump
    · next empty => simp [empty] at mem
    · simp at jump

/-- The clock jumps to the first alarm, and leaves those that go off later. -/
theorem jump?_first {now : Seconds} (first : Alarm α) (rest : List (Alarm α)) (ahead : now < first.due)
    (apart : ∀ alarm ∈ rest, first.due < alarm.due) :
    jump? ⟨now, [], first :: rest⟩ none = some ⟨first.due, [first.job], rest⟩ := by
  cases rest with
  | nil => simp [jump?, ahead]
  | cons second rest =>
    have later : ¬ second.due ≤ first.due := Rat.not_le.2 (apart second List.mem_cons_self)
    simp [jump?, ahead, later]

/-- Two alarms of one moment go off in the order in which they were set. -/
theorem jump?_both {now : Seconds} (first second : Alarm α) (ahead : now < first.due)
    (same : second.due = first.due) :
    jump? ⟨now, [], [first, second]⟩ none = some ⟨first.due, [first.job, second.job], []⟩ := by
  simp [jump?, ahead, same]

variable {cost : α → Nat}

theorem work_soon : (a.soon job).work cost = a.work cost + cost job := by
  simp only [work, soon, total_append, total]
  omega

theorem work_after : (a.after span job).work cost = a.work cost + cost job + 1 := by
  have sum := total_perm (fun x => cost x.job + 1) (perm_insertAlarm ⟨a.now + span, job⟩ a.alarms)
  simp only [total] at sum
  simp only [work, after]
  omega

theorem work_drop (p : α → Bool) : (a.drop p).work cost ≤ a.work cost :=
  Nat.add_le_add_left (total_filter_le ..) _

theorem work_next? (h : a.next? = some (job, b)) : b.work cost + cost job = a.work cost := by
  obtain ⟨rest, ready, rfl⟩ := next?_eq_some h
  simp only [work, ready, total]
  omega

theorem work_jump? {limit : Option Seconds} (h : a.jump? limit = some b) :
    b.work cost < a.work cost := by
  obtain ⟨first, rest, some, alarms, later, ready⟩ := jump?_cases h
  have each := total_succ (fun x : Alarm α => cost x.job) first
  have positive := List.length_pos_iff.2 some
  simp only [work, alarms, later, ready, total_append, total_map, each]
  omega

end Typeahead.Agenda
