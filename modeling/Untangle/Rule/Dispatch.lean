import Untangle.Print.Code
import Untangle.Sandbox.Literal
import Untangle.Sandbox.Registry
import Untangle.Tree.Edit

set_option autoImplicit false

/-!
# Dispatch loops

A flattened loop is a `for` around a `switch`: a variable, which the cases set, decides which case is
next.

    for (var state = 2; ;) {
        switch (state) {
            case 1: b(); state = 3; continue;
            case 2: a(); state = 1; continue;
            case 3: c(); state = 0; break;
        }
    }

Here such a loop is taken apart: its shape, what each case does to the dispatch variables and what
else it does, and the run of the dispatch variables through the sandbox, which gives the statements
that the loop executes in their order, `a(); b(); c();`.
-/

namespace Untangle.Dispatch

/-! ## Shape -/

/-- A `for` around a `switch`. -/
structure Loop where
  init : Node
  test : Option Node
  update : Option Node
  discriminant : Node
  cases : List Node
  /-- Whether a `break` follows the `switch`. -/
  closing : Bool

/-- Whether a statement leaves the loop without naming a label. -/
def isBareBreak (n : Node) : Bool :=
  match n.form with
  | .breakStatement => (n.child? .label).isNone
  | _ => false

/-- Whether a statement goes on with the loop without naming a label. -/
def isBareContinue (n : Node) : Bool :=
  match n.form with
  | .continueStatement => (n.child? .label).isNone
  | _ => false

/-- Whether a node is a `switch`. -/
def isSwitch (n : Node) : Bool :=
  match n.form with
  | .switchStatement => true
  | _ => false

/-- The `switch` that the body of a loop consists of, and whether a `break` follows it. -/
def switchOf? (body : Node) : Option (Node × Bool) :=
  match body.form with
  | .switchStatement => some (body, false)
  | .blockStatement =>
    match body.childrenAt .body with
    | [s] => if isSwitch s then some (s, false) else none
    | [s, last] => if isSwitch s && isBareBreak last then some (s, true) else none
    | _ => none
  | _ => none

/-- The parts of a `for` statement that has the shape of a dispatch loop. -/
def Loop.ofNode? (n : Node) : Option Loop := do
  let init ← n.child? .init
  let (switch, closing) ← switchOf? (← n.child? .body)
  let discriminant ← switch.child? .discriminant
  return ⟨init, n.child? .test, n.child? .update, discriminant, switch.childrenAt .cases, closing⟩

/-! ## Variables -/

/-- The names that an initializer declares or assigns. -/
def stateNames (init : Node) : List Text :=
  match init.form with
  | .variableDeclaration _ =>
    (init.childrenAt .declarations).flatMap fun d =>
      ((d.child? .id).map Node.patternNames).getD []
  | f =>
    let expressions := match f with
      | .sequence => init.childrenAt .expressions
      | _ => [init]
    expressions.flatMap fun e =>
      match e.form with
      | .assignment _ => ((e.child? .left).map Node.patternNames).getD []
      | _ => []

/-- The name that an assignment or an update sets. -/
def target? (n : Node) : Option Text :=
  match n.form with
  | .assignment _ => (n.child? .left).bind Node.name?
  | .update _ _ => (n.child? .argument).bind Node.name?
  | _ => none

mutual

/-- The names that an expression sets, if it does nothing but set names. -/
def targets? : Node → Option (List Text)
  | .mk i r f cs =>
    match f with
    | .sequence => targetsAll? cs
    | _ => (target? (.mk i r f cs)).map fun name => [name]

/-- The names that some expressions set, if they do nothing else. -/
def targetsAll? : List Node → Option (List Text)
  | [] => some []
  | c :: cs => do
    let names ← targets? c
    return names ++ (← targetsAll? cs)

end

/-- Whether a tree has an identifier with one of some names. -/
def mentions (n : Node) (names : List Text) : Bool :=
  n.walk.any fun m =>
    match m.name? with
    | some name => names.contains name
    | none => false

/-- Whether a node leaves the place where it stands. -/
def isExit : Form → Bool
  | .breakStatement | .continueStatement | .returnStatement | .throwStatement => true
  | _ => false

/-! ## Cases -/

/-- Why a loop is left as it is. -/
inductive Obstacle where
  | noVariable
  | readOutside
  | nondeterministic
  | defaultCase
  | openTest
  | noMatch
  | tooLong
  | emptyCase
  | fallsThrough
  | secondExit
  | usesVariable
  /-- The sandbox did not come to a value. -/
  | notEvaluated
  deriving DecidableEq, Repr

/-- What keeps a loop from being taken apart. -/
inductive Stop where
  /-- The loop stays. -/
  | obstacle (o : Obstacle)
  /-- A part cannot be printed, which ends the run. -/
  | unprintable (r : Print.Refusal)
  /-- A conversion cannot be carried out, which ends the run. -/
  | fault (f : Sandbox.Fault)

/-- What one case does. -/
structure CasePlan where
  /-- The statements that stay. -/
  statements : List Node
  /-- The statements that set dispatch variables. -/
  updates : List Node
  /-- Whether the case ends with `continue`. -/
  continues : Bool

/-- Whether the text of a tree names no source of time or chance. -/
def isDeterministic (gate : Sandbox.Gate) (n : Node) : Except Stop Bool :=
  match n.code with
  | .ok t => .ok (gate.isDeterministic t)
  | .error r => .error (.unprintable r)

/-- Refuses trees whose text names a source of time or chance. -/
def requireDeterministic (gate : Sandbox.Gate) : List Node → Except Stop Unit
  | [] => .ok ()
  | n :: ns => do
    if !(← isDeterministic gate n) then throw (.obstacle .nondeterministic)
    requireDeterministic gate ns

/-- Whether a statement only sets dispatch variables. -/
def isUpdate (names : List Text) (statement : Node) : Bool :=
  match statement.form, statement.child? .expression with
  | .expressionStatement _, some e =>
    match targets? e with
    | some ts => !ts.isEmpty && ts.all names.contains
    | none => false
  | _, _ => false

/-- Splits statements of a case into those that stay and those that set dispatch variables. -/
def split (gate : Sandbox.Gate) (names : List Text) : List Node → Except Stop (List Node × List Node)
  | [] => .ok ([], [])
  | s :: rest => do
    if s.walkOutsideFunctions.any fun m => isExit m.form then throw (.obstacle .secondExit)
    if isUpdate names s then
      requireDeterministic gate [s]
      let (statements, updates) ← split gate names rest
      return (statements, s :: updates)
    else if mentions s names then throw (.obstacle .usesVariable)
    else
      let (statements, updates) ← split gate names rest
      return (s :: statements, updates)

/-- What a case does; `isLast` if no other case follows it. -/
def CasePlan.ofCase (gate : Sandbox.Gate) (names : List Text) (case : Node) (isLast : Bool) :
    Except Stop CasePlan := do
  let body := case.childrenAt .consequent
  match body.getLast? with
  | none => throw (.obstacle .emptyCase)
  | some last =>
    let continues := isBareContinue last
    let kept ←
      if continues || isBareBreak last then pure body.dropLast
      else if isLast then pure body
      else throw (.obstacle .fallsThrough)
    let (statements, updates) ← split gate names kept
    return ⟨statements, updates, continues⟩

/-! ## The run -/

/-- A computation that runs parts of a loop in the sandbox. -/
abbrev Probe := EStateM Stop Sandbox.Registry

/-- Lifts a check. -/
def check {α : Type} (r : Except Stop α) : Probe α :=
  match r with
  | .ok x => return x
  | .error e => throw e

/-- Runs code in the sandbox; where it stops the loop stays. -/
def probe {α : Type} (c : Sandbox.Run α) : Probe α := do
  match ← modifyGet fun (s : Sandbox.Registry) => s.perform c with
  | .ok x => return x
  | .error (.fault f) => throw (.fault f)
  | .error _ => throw (.obstacle .notEvaluated)

/-- The value of a literal. -/
def literal (n : Node) : Except Stop Sandbox.Value :=
  match Sandbox.denotedValue n with
  | .ok v => .ok v
  | .error f => .error (.fault f)

/-- The values that the cases test for. -/
def tests (cases : List Node) : Except Stop (List Sandbox.Value) := do
  let ts := cases.map fun c => c.child? .test
  if ts.any Option.isNone then throw (.obstacle .defaultCase)
  let ts := ts.filterMap id
  if !ts.all Sandbox.isLiteral then throw (.obstacle .openTest)
  ts.mapM literal

/-- Runs the statements that set dispatch variables. -/
def runUpdates (scopes : Sandbox.ScopeChain) : List Node → Probe Unit
  | [] => return
  | s :: rest => do
    probe (Sandbox.Run.execute s scopes)
    runUpdates scopes rest

/-- Whether the loop ends before its body: its test, if there is one, fails. -/
def testFails (loop : Loop) (scopes : Sandbox.ScopeChain) : Probe Bool :=
  match loop.test with
  | none => return false
  | some t => return !Sandbox.toBoolean (← probe (Sandbox.Run.evaluate t scopes))

/-- What a case does, found out once: the plans found so far are kept by the number of the case. -/
def planOf (loop : Loop) (names : List Text) (plans : Dict Nat CasePlan) (index : Nat) :
    Probe CasePlan := do
  match plans.get? index with
  | some p => return p
  | none =>
    let case := loop.cases.getD index (.leaf .hole)
    check (CasePlan.ofCase (← get).gate names case (index + 1 == loop.cases.length))

/-- The number of the case that is taken next, or none if the loop ends here.  `started` tells whether
a case was taken before; only then may a value that no case tests for end the loop. -/
def nextCase (loop : Loop) (values : List Sandbox.Value) (scopes : Sandbox.ScopeChain)
    (started : Bool) : Probe (Option Nat) := do
  if ← testFails loop scopes then return none
  let value ← probe (Sandbox.Run.evaluate loop.discriminant scopes)
  if started && !Sandbox.toBoolean value then return none
  match values.findIdx? (Sandbox.strictEquals value) with
  | some index => return some index
  | none =>
    if started && loop.closing then return none
    else throw (.obstacle .noMatch)

/-- The statements that a case gives; one that comes again gives copies of them. -/
def emitted (plans : Dict Nat CasePlan) (index : Nat) (plan : CasePlan) : List Node :=
  if plans.contains index then plan.statements.map Node.unnumbered else plan.statements

/-- Runs the part of a loop that comes after a round. -/
def runUpdate (loop : Loop) (scopes : Sandbox.ScopeChain) : Probe Unit :=
  match loop.update with
  | none => return
  | some u => do
    let _ ← probe (Sandbox.Run.evaluate u scopes)

/-- Runs the loop from a test on.  `fuel` counts the dispatches that are left, `started` tells whether
there was one, and `output` has the statements so far in reverse. -/
def run (loop : Loop) (names : List Text) (values : List Sandbox.Value)
    (scopes : Sandbox.ScopeChain) :
    Nat → Bool → Dict Nat CasePlan → List Node → Probe (List Node)
  | 0, started, _, output => do
    match ← nextCase loop values scopes started with
    | none => return output.reverse
    | some _ => throw (.obstacle .tooLong)
  | fuel + 1, started, plans, output => do
    match ← nextCase loop values scopes started with
    | none => return output.reverse
    | some index =>
      let plan ← planOf loop names plans index
      let output := (emitted plans index plan).reverse ++ output
      runUpdates scopes plan.updates
      if loop.closing && !plan.continues then return output.reverse
      runUpdate loop scopes
      run loop names values scopes fuel true (plans.put index plan) output

/-- Runs the initializer of a loop. -/
def runInit (init : Node) (scopes : Sandbox.ScopeChain) : Probe Unit :=
  match init.form with
  | .variableDeclaration _ => probe (Sandbox.Run.execute init scopes)
  | _ => do
    let _ ← probe (Sandbox.Run.evaluate init scopes)

/-- The statements that a loop executes, in their order.  `readOutside` tells whether some of the
dispatch variables are read outside of the loop. -/
def unflatten (loop : Loop) (readOutside : List Text → Bool) (maxDispatches : Nat) :
    Probe (List Node) := do
  let names := stateNames loop.init
  if names.isEmpty then throw (.obstacle .noVariable)
  if readOutside names then throw (.obstacle .readOutside)
  check (requireDeterministic (← get).gate
    (loop.init :: loop.test.toList ++ loop.update.toList ++ [loop.discriminant]))
  let values ← check (tests loop.cases)
  let scopes ← probe Sandbox.Run.scratch
  runInit loop.init scopes
  run loop names values scopes maxDispatches false .empty []

end Untangle.Dispatch
