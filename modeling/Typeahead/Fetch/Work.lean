import Typeahead.Agenda
import Typeahead.Fetch.Pool

/-!
The work of a pool: a bound on the steps that are still to be taken before nothing is due any more. A
step that is due counts as one. What may become due later is counted where it comes from: with a fetch
and its stage, with one in line at the gate, with a call and its stage.
-/

namespace Typeahead

/-- The work that a stage of a fetch still brings, what is counted at the gate aside. -/
def FetchStage.work : FetchStage → Nat
  | .begun => 8
  | .asking => 2
  | .queued | .answered _ | .overdue => 1
  | .admitted | .ended _ => 0

/-- The work of a fetch: that of its stage, the step by which it stops, and one for each call that it
tells. -/
def Fetch.work (f : Fetch) : Nat :=
  f.stage.work + (if f.stopping then 0 else 1) + f.watchers.length

/-- The work of one in line: to hand a slot over, and to pass the gate with it. -/
def Visitor.work (v : Visitor) : Nat :=
  match v.standing with
  | .waiting => 7
  | .admitted => 6
  | .gone => 0

/-- The work of a call that waits for its lookup, or was told its end: to begin a fetch for the lookup
that may stand in, and to end. -/
def Call.workLeft (c : Call) : Nat := if c.current = c.wanted then 12 else 1

/-- The work of a call. -/
def Call.work (c : Call) : Nat :=
  match c.stage with
  | .begun => 23
  | .waiting _ | .told _ => c.workLeft
  | .ended _ => 0

/-- The work of what a step makes due: a step, or an alarm that makes a step due. -/
def Signal.work : Signal → Nat
  | .fetchDue _ | .announceDue _ | .callDue _ => 1
  | .limitSet _ | .sent _ _ => 2
  | .alarmsOff _ | .settled _ _ => 0

/-- The work of those in line at a gate. -/
def Gate.work (g : Gate) : Nat := total Visitor.work g.line

/-- The work of a pool. -/
def Pool.work (p : Pool) : Nat :=
  total Fetch.work p.fetches + p.gate.work + total Call.work p.calls + total Signal.work p.outbox

end Typeahead
