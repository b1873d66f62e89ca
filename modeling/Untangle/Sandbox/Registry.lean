import Untangle.Sandbox.Global
import Untangle.Sandbox.Value
import Untangle.Text.Basic

set_option autoImplicit false

/-!
# The sandbox of a run

A machine together with the declarations that were handed to it.  A declaration is registered once, by
its identity, so that two declarations of one name do not get in each other's way; the name stands for
the one that was registered last.
-/

/-! ## What the sandbox accepts

A tree is refused before it runs if any node in it is of a kind that the sandbox does not know.  The
first such node in the order of the source decides the complaint. -/

namespace Untangle.Sandbox

/-- Whether the sandbox evaluates nodes of a form as expressions. -/
def evaluates : Form → Bool
  | .literal _ | .identifier _ | .thisExpression | .arrayExpression | .objectExpression
  | .functionExpression _ | .arrowFunction _ | .unary _ | .update _ _ | .binary _ | .logical _
  | .conditional | .assignment _ | .sequence | .member _ | .call | .template => true
  | _ => false

/-- Whether the sandbox executes nodes of a form as statements. -/
def executes : Form → Bool
  | .expressionStatement _ | .variableDeclaration _ | .functionDeclaration _ | .blockStatement
  | .emptyStatement | .ifStatement | .returnStatement | .forStatement | .whileStatement
  | .doWhileStatement | .breakStatement | .continueStatement | .switchStatement
  | .throwStatement | .tryStatement => true
  | _ => false

/-- Whether nodes of a form are parts of what the sandbox evaluates or executes. -/
def isAuxiliary : Form → Bool
  | .property _ _ _ _ | .switchCase | .catchClause | .variableDeclarator | .templateElement _ _ _
  | .assignmentPattern | .rest | .spread => true
  | _ => false

/-- What the sandbox has against a node, its children apart. -/
def objection (n : Node) : Option Failure :=
  match n.form with
  | .functionDeclaration f | .functionExpression f | .arrowFunction f =>
    if f.generator || f.isAsync then some .suspendingFunction else none
  | .literal (.regex _ _) => some .regex
  | .breakStatement | .continueStatement =>
    if (n.child? .label).isSome then some .labelledJump else none
  | f => if evaluates f || executes f || isAuxiliary f then none else some (.kind f.kind)

/-- The first objection to a tree. -/
def validate (n : Node) : Option Failure := n.walk.findSome? objection

/-! ## The purity gate

Whether code may be replaced by its value is decided by its text: it may name no source of time or
chance, and nothing whose value would lose something when it is written down.  A marker counts wherever
it stands in the text. -/

/-- The markers that keep code as it is. -/
structure Gate where
  nondeterministic : List Text
  preserveRaw : List Text
  deriving Repr

namespace Gate

/-- Markers of time and chance. -/
def defaultNondeterministic : List Text := ["Date", "Math.random"].map Text.of

/-- Markers of values that are not written down. -/
def defaultPreserveRaw : List Text :=
  ["Array", "Error", "setTimeout", "setInterval", "JSON.stringify", "Object.assign",
   "console.log"].map Text.of

/-- The gate with the default markers. -/
def default : Gate := ⟨defaultNondeterministic, defaultPreserveRaw⟩

/-- Whether one of some markers stands in a text; empty markers stand nowhere. -/
def marked (markers : List Text) (source : Text) : Bool :=
  markers.any fun m => !m.isEmpty && source.includes m

/-- Whether a text names no source of time or chance. -/
def isDeterministic (g : Gate) (source : Text) : Bool := !marked g.nondeterministic source

/-- Whether a text has to stay as it is. -/
def keepsRaw (g : Gate) (source : Text) : Bool := marked g.preserveRaw source

/-- Whether code of a text may be replaced by its value. -/
def maySubstitute (g : Gate) (source : Text) : Bool := g.isDeterministic source && !g.keepsRaw source

end Gate

/-! ## Registering and evaluating -/

/-- A sandbox: the gate, the machine, and the registered declarations with their values. -/
structure Registry where
  gate : Gate
  machine : Machine
  registered : Dict NodeId Value

namespace Registry

/-- A sandbox with nothing registered, on the store of a machine. -/
def onStore (gate : Gate) (m : Machine) (maxSteps maxDepth : Nat) : Registry :=
  ⟨gate, m.restart maxSteps maxDepth, .empty⟩

/-- Number of registered declarations. -/
def count (s : Registry) : Nat := s.registered.size

/-- Whether a declaration is registered. -/
def isRegistered (s : Registry) (declaration : Node) : Bool := s.registered.contains declaration.id

/-- Whether a name is a global variable of the sandbox. -/
def isBuiltin (s : Registry) (name : Text) : Bool := s.machine.isGlobal name

/-- Runs a computation; the machine is kept however it ends. -/
def perform {α : Type} (s : Registry) (c : Run α) : Except Abrupt α × Registry :=
  match c.run s.machine with
  | .ok a m => (.ok a, { s with machine := m })
  | .error e m => (.error e, { s with machine := m })

/-- The value of a declaration: a function, or the value of the initializer. -/
def declaredValue (declaration : Node) (name : Text) : Run Value := do
  match validate declaration with
  | some f => Run.fail f
  | none =>
    match declaration.form, declaration.child? .init with
    | .functionDeclaration _, _ => Run.makeFunction declaration (← get).globalChain
    | .variableDeclarator, some init => Run.evaluate init (← get).globalChain
    | f, _ => Run.fail (.registration f.kind name)

/-- Hands a declaration to the sandbox under a name.  A declaration that is registered already takes
the name again; one whose text does not pass the gate is refused. -/
def register (s : Registry) (declaration : Node) (name : Text) (source : Option Text) :
    Except Abrupt Bool × Registry :=
  match s.registered.get? declaration.id with
  | some v =>
    let (_, s') := s.perform (Run.defineGlobal name v)
    (.ok true, s')
  | none =>
    if (source.map fun t => !s.gate.maySubstitute t).getD false then (.ok false, s)
    else
      match s.perform (declaredValue declaration name) with
      | (.error e, s') => (.error e, s')
      | (.ok v, s') =>
        let (_, s'') := s'.perform (Run.defineGlobal name v)
        (.ok true, { s'' with registered := s''.registered.put declaration.id v })

/-- Whether a stop concerns the evaluated code only; faults of the conversions underneath do not. -/
def isContained : Abrupt → Bool
  | .fault _ => false
  | _ => true

/-- The value of an expression, if the gate lets its text pass and the evaluation ends with one. -/
def evaluate (s : Registry) (n : Node) (source : Text) : Except Abrupt (Option Value) × Registry :=
  if !s.gate.maySubstitute source then (.ok none, s)
  else
    match validate n with
    | some _ => (.ok none, s)
    | none =>
      match s.perform (Run.evaluate n s.machine.globalChain) with
      | (.ok v, s') => (.ok (some v), s')
      | (.error e, s') => if isContained e then (.ok none, s') else (.error e, s')

end Registry

end Untangle.Sandbox
