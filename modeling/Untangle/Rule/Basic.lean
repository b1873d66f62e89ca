import Untangle.Analysis.Tour
import Untangle.Print.Code
import Untangle.Sandbox.Registry
import Untangle.Settings

set_option autoImplicit false

/-!
# What rules work with

A rule is a handler of a tour.  It has the sandbox of the run and counts what it does.  An evaluation
that does not come to a value concerns one node only; the errors below end the run.
-/

namespace Untangle

/-- What is counted in a run. -/
inductive Counter where
  | literalsInlined
  | declarationsRemoved
  | functionsRegistered
  | binaryFolded
  | callsEvaluated
  | callsKept
  | wrappersInlined
  | loopsUnflattened
  | loopsKept
  | nodesVisited
  | functionsInSandbox
  deriving DecidableEq, Repr, Inhabited

/-- The name of a counter. -/
def Counter.word : Counter → String
  | .literalsInlined => "literals_inlined"
  | .declarationsRemoved => "declarations_removed"
  | .functionsRegistered => "functions_registered"
  | .binaryFolded => "binary_folded"
  | .callsEvaluated => "calls_evaluated"
  | .callsKept => "calls_kept"
  | .wrappersInlined => "wrappers_inlined"
  | .loopsUnflattened => "loops_unflattened"
  | .loopsKept => "loops_kept"
  | .nodesVisited => "nodes_visited"
  | .functionsInSandbox => "functions_in_sandbox"

/-- The counters that were used, with their numbers. -/
abbrev Stats := Dict Counter Nat

/-- Adds to a counter. -/
def Stats.add (s : Stats) (c : Counter) (n : Nat) : Stats := Dict.put s c ((Dict.get? s c).getD 0 + n)

/-- What ends a run. -/
inductive RuleError where
  /-- Literals under an operator that is not folded. -/
  | unsupportedOperator (op : BinaryOp) (source : Text)
  /-- A conversion of numbers or texts that cannot be carried out. -/
  | fault (f : Sandbox.Fault)
  /-- A tree that cannot be printed. -/
  | unprintable (r : Print.Refusal)
  /-- A change of the program that is refused. -/
  | edit (e : EditError)
  /-- A value that contains itself has no tree that ends. -/
  | endlessValue
  deriving Repr

/-- The state that the rules of a run share. -/
structure RuleState where
  sandbox : Sandbox.Registry
  stats : Stats

/-- A computation of a rule. -/
abbrev RuleM := TourM RuleError RuleState

namespace RuleM

/-- Counts. -/
def record (c : Counter) (n : Nat) : RuleM Unit :=
  modify fun t => { t with state := { t.state with stats := t.state.stats.add c n } }

/-- The node of a site. -/
def nodeAt (i : SiteId) : RuleM Node := TourM.ask fun a => a.nodeAt i

/-- The code of a tree. -/
def code (n : Node) : RuleM Text :=
  match n.code with
  | .ok t => return t
  | .error r => throw (.unprintable r)

/-- A conversion that may be impossible. -/
def convert {α : Type} (r : Except Sandbox.Fault α) : RuleM α :=
  match r with
  | .ok x => return x
  | .error f => throw (.fault f)

/-- A result, or what ends the run. -/
def settle {α : Type} (r : Except RuleError α) : RuleM α :=
  match r with
  | .ok x => return x
  | .error e => throw e

/-- Changes the program. -/
def edit (f : Analysis → Except Refusal Analysis) : RuleM Unit := do
  match f (← get).analysis with
  | .ok a => modify fun t => { t with analysis := a }
  | .error e => throw (.edit e.reason)

/-- Uses the sandbox.  Its functions find their present code in the program and among what was taken
out of it. -/
def withSandbox {α : Type} (f : Sandbox.Registry → α × Sandbox.Registry) : RuleM α :=
  modifyGet fun t =>
    let trees := t.analysis.program :: t.analysis.attic
    let s := t.state.sandbox
    let (r, s) := f { s with machine := { s.machine with trees := trees } }
    (r, { t with state := { t.state with sandbox := s } })

/-- The result of a use of the sandbox; where the evaluated code stops there is none. -/
def contained {α : Type} : Except Sandbox.Abrupt α → RuleM (Option α)
  | .ok x => return some x
  | .error (.fault f) => throw (.fault f)
  | .error _ => return none

end RuleM

end Untangle
