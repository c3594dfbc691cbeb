import Typeahead.Cache

/-!
A clock with things to do. What is due is done in the order in which it became due. When nothing is
due, the clock moves on to the next alarm; alarms of one moment go off in the order in which they were
set. How much work is left is told as what all of it costs together.

- `total_append`, `total_map`, `total_perm`: a total does not depend on how the list came about.
- `total_le_total`, `total_filter_le`: where each thing costs less, or some are left out, so does the total.
-/

namespace Typeahead

/-- What the things of a list cost together. -/
def total {α : Type} (cost : α → Nat) : List α → Nat
  | [] => 0
  | x :: xs => cost x + total cost xs

/-- Something to do at a point of time. -/
structure Alarm (α : Type) where
  due : Seconds
  job : α

/-- The time, what is due, and the alarms in the order of their times. -/
structure Agenda (α : Type) where
  now : Seconds
  ready : List α := []
  alarms : List (Alarm α) := []

namespace Agenda

variable {α : Type}

/-- Does a job after all that is due already. -/
def soon (a : Agenda α) (job : α) : Agenda α := { a with ready := a.ready ++ [job] }

/-- Puts an alarm behind those that go off no later. -/
def insertAlarm (alarm : Alarm α) : List (Alarm α) → List (Alarm α)
  | [] => [alarm]
  | other :: rest =>
    if alarm.due < other.due then alarm :: other :: rest else other :: insertAlarm alarm rest

/-- Does a job after a time span. -/
def after (a : Agenda α) (span : Seconds) (job : α) : Agenda α :=
  { a with alarms := insertAlarm ⟨a.now + span, job⟩ a.alarms }

/-- Drops the alarms of some jobs. -/
def drop (a : Agenda α) (p : α → Bool) : Agenda α :=
  { a with alarms := a.alarms.filter fun alarm => !p alarm.job }

/-- The next job that is due. -/
def next? (a : Agenda α) : Option (α × Agenda α) :=
  match a.ready with
  | [] => none
  | job :: rest => some (job, { a with ready := rest })

/-- Moves the clock to the next alarm, if it goes off by `limit`; without a limit there is none. -/
def jump? (a : Agenda α) (limit : Option Seconds) : Option (Agenda α) :=
  match a.alarms with
  | [] => none
  | alarm :: _ =>
    if limit.all (alarm.due ≤ ·) then
      let now := if a.now < alarm.due then alarm.due else a.now
      some {
        now
        ready := a.ready ++ (a.alarms.takeWhile fun x => x.due ≤ now).map (·.job)
        alarms := a.alarms.dropWhile fun x => x.due ≤ now }
    else none

/-- The work on an agenda, where a job costs as much as is told. An alarm counts for one more than its
job. -/
def work (cost : α → Nat) (a : Agenda α) : Nat :=
  total cost a.ready + total (fun alarm => cost alarm.job + 1) a.alarms

end Agenda

section

variable {α β : Type} {cost less : α → Nat}

@[simp] theorem total_append (xs ys : List α) :
    total cost (xs ++ ys) = total cost xs + total cost ys := by
  induction xs with
  | nil => exact (Nat.zero_add _).symm
  | cons x xs ih => simp only [List.cons_append, total, ih, Nat.add_assoc]

@[simp] theorem total_map (cost : β → Nat) (f : α → β) (xs : List α) :
    total cost (xs.map f) = total (fun x => cost (f x)) xs := by
  induction xs with
  | nil => rfl
  | cons x xs ih => simp only [List.map_cons, total, ih]

theorem total_perm (cost : α → Nat) {xs ys : List α} (h : xs.Perm ys) : total cost xs = total cost ys := by
  induction h with
  | nil => rfl
  | cons x _ ih => simp only [total, ih]
  | swap x y xs => exact Nat.add_left_comm ..
  | trans _ _ first later => exact first.trans later

theorem total_le_total {xs : List α} (h : ∀ x ∈ xs, less x ≤ cost x) : total less xs ≤ total cost xs := by
  induction xs with
  | nil => exact Nat.le_refl _
  | cons x xs ih =>
    obtain ⟨first, later⟩ := List.forall_mem_cons.1 h
    exact Nat.add_le_add first (ih later)

theorem total_filter_le (cost : α → Nat) (keep : α → Bool) (xs : List α) :
    total cost (xs.filter keep) ≤ total cost xs := by
  induction xs with
  | nil => exact Nat.le_refl _
  | cons x xs ih =>
    rw [List.filter_cons]
    split
    · exact Nat.add_le_add_left ih _
    · exact Nat.le_add_left_of_le ih

/-- A thing that costs one more costs one more each time. -/
theorem total_succ (cost : α → Nat) (xs : List α) : total (fun x => cost x + 1) xs = total cost xs + xs.length := by
  induction xs with
  | nil => rfl
  | cons x xs ih =>
    simp only [total, ih, List.length_cons]
    omega

end

end Typeahead
