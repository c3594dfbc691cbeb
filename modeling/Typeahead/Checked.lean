/-!
Values read from a document, or all the faults found in it. Readings are combined so that one goes on
after the fault of another, and the faults come in the order of the readings.

- `faults_seq`: the faults of a combination are those of its parts, in order.
- `value?_seq`: a combination has a value if both parts have one.
-/

namespace Typeahead

/-- A value, or the faults why there is none. -/
inductive Checked (ε α : Type) where
  | good (a : α)
  | faulty (faults : List ε)
  deriving DecidableEq, Repr

namespace Checked

variable {ε δ α β : Type}

/-- The value, if there is one. -/
def value? : Checked ε α → Option α
  | .good a => some a
  | .faulty _ => none

/-- The faults. -/
def faults : Checked ε α → List ε
  | .good _ => []
  | .faulty faults => faults

/-- A function and its argument, both checked. -/
def seq (f : Checked ε (α → β)) (x : Checked ε α) : Checked ε β :=
  match f, x with
  | .good f, .good a => .good (f a)
  | f, x => .faulty (f.faults ++ x.faults)

instance : Applicative (Checked ε) where
  pure := .good
  seq f x := f.seq (x ())

theorem faults_seq (f : Checked ε (α → β)) (x : Checked ε α) :
    (f.seq x).faults = f.faults ++ x.faults := by
  cases f <;> cases x <;> rfl

theorem value?_seq (f : Checked ε (α → β)) (x : Checked ε α) :
    (f.seq x).value? = f.value?.bind fun f => x.value?.map f := by
  cases f <;> cases x <;> rfl

/-- A reading that can fail in one way, its fault told with `place`. -/
def ofExcept (place : δ → ε) : Except δ α → Checked ε α
  | .ok a => .good a
  | .error fault => .faulty [place fault]

/-- The same reading, with further faults found. -/
def blaming (x : Checked ε α) (more : List ε) : Checked ε α :=
  match x, more with
  | .good a, [] => .good a
  | x, more => .faulty (x.faults ++ more)

/-- The value, or all faults. -/
def toExcept : Checked ε α → Except (List ε) α
  | .good a => .ok a
  | .faulty faults => .error faults

end Checked

end Typeahead
