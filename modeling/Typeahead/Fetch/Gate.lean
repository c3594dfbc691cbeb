/-!
A gate that lets a bounded number in at a time, and a fair line before it. Whoever comes while others
stand in line, or while no slot is free, joins the line. A free slot is handed to the first in line who
still waits; the one who is handed a slot leaves the line when it goes on.

- `slots_enter`, `slots_release`, `slots_admitAll`: free slots and slots handed out in the line are
  neither lost nor made, except where a slot is taken inside or given back.
-/

namespace Typeahead

/-- How one in line stands: it waits, it has been handed a slot, or it has given up. -/
inductive Standing where
  | waiting
  | admitted
  | gone
  deriving DecidableEq, Repr

/-- One in line. -/
structure Visitor where
  id : Nat
  standing : Standing
  deriving DecidableEq, Repr

/-- A gate: its free slots, and the line before it. -/
structure Gate where
  free : Nat
  line : List Visitor := []
  deriving DecidableEq, Repr

namespace Gate

/-- Whether a newcomer has to join the line. -/
def isClosed (g : Gate) : Bool := g.free = 0 || g.line.any fun v => v.standing != .gone

/-- A newcomer enters, if the gate is open, or joins the line. -/
def enter (g : Gate) (id : Nat) : Bool × Gate :=
  if g.isClosed then (false, { g with line := g.line ++ [⟨id, .waiting⟩] })
  else (true, { g with free := g.free - 1 })

/-- Hands a slot to the first in line who waits. -/
def admitFirst : List Visitor → Option (Nat × List Visitor)
  | [] => none
  | v :: rest =>
    if v.standing = .waiting then some (v.id, { v with standing := .admitted } :: rest)
    else (admitFirst rest).map fun (id, more) => (id, v :: more)

/-- Hands one free slot out, and tells to whom. -/
def letIn (g : Gate) : Option Nat × Gate :=
  match g.free, admitFirst g.line with
  | n + 1, some (id, line) => (some id, ⟨n, line⟩)
  | _, _ => (none, g)

/-- Hands out up to `count` free slots, and tells to whom. -/
def admitUpTo : Nat → Gate → List Nat × Gate
  | 0, g => ([], g)
  | count + 1, g =>
    match g.letIn with
    | (some id, g) =>
      let (more, g) := admitUpTo count g
      (id :: more, g)
    | (none, g) => ([], g)

/-- Hands out all free slots for which someone waits, and tells to whom. -/
def admitAll (g : Gate) : List Nat × Gate := admitUpTo g.free g

/-- Gives a slot back, and hands one out. -/
def release (g : Gate) : Option Nat × Gate := { g with free := g.free + 1 }.letIn

/-- Changes how one in line stands. -/
def mark (g : Gate) (id : Nat) (standing : Standing) : Gate :=
  { g with line := g.line.map fun v => if v.id = id then { v with standing } else v }

/-- Takes one out of the line. -/
def remove (g : Gate) (id : Nat) : Gate := { g with line := g.line.filter fun v => v.id != id }

/-- The slots that are free or have been handed out in the line. -/
def slots (g : Gate) : Nat := g.free + g.line.countP fun v => v.standing = .admitted

theorem countP_admitFirst {line more : List Visitor} {id : Nat}
    (h : admitFirst line = some (id, more)) :
    more.countP (fun v => v.standing = .admitted) =
      line.countP (fun v => v.standing = .admitted) + 1 := by
  induction line generalizing more with
  | nil => simp [admitFirst] at h
  | cons v rest ih =>
    simp only [admitFirst] at h
    split at h
    · next hv =>
      simp only [Option.some.injEq, Prod.mk.injEq] at h
      obtain ⟨_, rfl⟩ := h
      simp [hv]
    · next hv =>
      obtain ⟨⟨id', more'⟩, h', e⟩ := Option.map_eq_some_iff.1 h
      simp only [Prod.mk.injEq] at e
      obtain ⟨rfl, rfl⟩ := e
      simp only [List.countP_cons, ih h']
      omega

theorem slots_letIn (g : Gate) : g.letIn.2.slots = g.slots := by
  unfold letIn
  split
  · next n id line hn hl =>
    have := countP_admitFirst hl
    simp only [slots] at *
    omega
  · rfl

theorem slots_admitUpTo (count : Nat) (g : Gate) : (admitUpTo count g).2.slots = g.slots := by
  induction count generalizing g with
  | zero => rfl
  | succ count ih =>
    simp only [admitUpTo]
    split
    · next id g' h =>
      have := slots_letIn g
      simp only [h] at this
      rw [ih, this]
    · next g' h =>
      have := slots_letIn g
      simp only [h] at this
      exact this

theorem slots_admitAll (g : Gate) : g.admitAll.2.slots = g.slots := slots_admitUpTo _ g

theorem slots_release (g : Gate) : g.release.2.slots = g.slots + 1 := by
  rw [release, slots_letIn]
  simp only [slots]
  omega

theorem slots_enter (g : Gate) (id : Nat) :
    (g.enter id).2.slots + (if (g.enter id).1 then 1 else 0) = g.slots := by
  by_cases h : g.isClosed = true
  · simp [enter, h, slots]
  · have free : g.free ≠ 0 := fun e => h (by simp [isClosed, e])
    simp only [enter, h, slots, Bool.false_eq_true, if_false, if_true]
    omega

/-- Who enters passes the line by. -/
theorem line_enter_open {g : Gate} {id : Nat} (entered : (g.enter id).1 = true) :
    (g.enter id).2.line = g.line := by
  unfold enter at entered ⊢
  split at entered <;> simp_all

theorem line_enter_closed {g : Gate} {id : Nat} (refused : (g.enter id).1 = false) :
    (g.enter id).2.line = g.line ++ [⟨id, .waiting⟩] := by
  unfold enter at refused ⊢
  split at refused <;> simp_all

end Gate

end Typeahead
