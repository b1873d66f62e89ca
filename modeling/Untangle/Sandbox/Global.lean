import Untangle.Sandbox.Evaluator
import Untangle.Tree.Edit

set_option autoImplicit false

/-!
# Machines

A machine starts with the functions that values inherit, at fixed places of its store, and with a
global scope that holds the built-in variables.  A further machine on the same store has a global scope
of its own, while the inherited functions, and what was put on them, are shared.
-/

namespace Untangle.Sandbox

namespace Run

/-- A new built-in function. -/
def newNative (fn : Native) : Run Value := return .object (← allocate ⟨.native fn, .empty⟩)

/-- A new built-in function with a property. -/
def newNativeWith (fn : Native) (key : Text) (v : Value) : Run Value :=
  return .object (← allocate ⟨.native fn, .ofList [(key, v)]⟩)

/-- The ratio of a circle's circumference to its diameter. -/
def circleRatio : Float := Float.ofBits 0x400921FB54442D18

/-- The base of natural logarithms. -/
def naturalBase : Float := Float.ofBits 0x4005BF0A8B145769

/-- The functions of `Math` in the order of its properties. -/
def mathFunctions : List MathFunction :=
  [.abs, .floor, .ceil, .trunc, .sqrt, .sign, .round, .max, .min, .pow]

/-- A new object `Math`. -/
def newMath : Run Value := do
  let functions ← mathFunctions.mapM fun f => do
    return (Text.of f.name, ← newNative (.math f))
  newObject (.ofList
    ([(Text.of "PI", .number circleRatio), (Text.of "E", .number naturalBase)] ++ functions))

/-- The global functions that are variables, by their names. -/
def globalFunctions : List GlobalFunction :=
  [.number, .boolean, .parseInt, .parseFloat, .isNaN, .isFinite]

/-- The global functions on encoded texts. -/
def codecFunctions : List GlobalFunction :=
  [.escape, .unescape, .encodeURIComponent, .decodeURIComponent, .atob, .btoa]

/-- New values for some global functions. -/
def newGlobalFunctions (fs : List GlobalFunction) : Run (List (Text × Value)) :=
  fs.mapM fun f => do return (Text.of f.name, ← newNative (.global f))

/-- New values for all built-in variables. -/
def newGlobals : Run (List (Text × Value)) := do
  let string ← newNativeWith (.global .string) "fromCharCode"
    (← newNative (.global .fromCharCode))
  let functions ← newGlobalFunctions globalFunctions
  let math ← newMath
  let codecs ← newGlobalFunctions codecFunctions
  return [(Text.of "undefined", Value.undefined), (Text.of "NaN", .number Binary64.nan),
      (Text.of "Infinity", .number Binary64.infinity), (Text.of "String", string)] ++
    functions ++ [(Text.of "Math", math)] ++ codecs

/-- Opens a new global scope with the built-in variables. -/
def openGlobal : Run Unit := do
  let f ← newFrame true true
  modify fun m => { m with global := f }
  for (name, v) in ← newGlobals do
    declare f name v

end Run

/-- The names of the built-in variables. -/
def builtinNames : List Text :=
  ["undefined", "NaN", "Infinity", "String"].map Text.of ++
    (Run.globalFunctions.map fun f => Text.of f.name) ++ [Text.of "Math"] ++
    Run.codecFunctions.map fun f => Text.of f.name

/-- An object; a function gets a copy of its own of the code that it has in some trees. -/
def Cell.settled (trees : List Node) (c : Cell) : Cell :=
  match c.body with
  | .closure code scopes name =>
    let current := (trees.findSome? (Node.findId code.id)).getD code
    { c with body := .closure current.unnumbered scopes name }
  | _ => c

namespace Machine

/-- The state that a computation leaves, whether it ends or stops. -/
def after {α : Type} (m : Machine) (c : Run α) : Machine :=
  match c.run m with
  | .ok _ m' => m'
  | .error _ m' => m'

/-- The store with nothing in it but the functions that values inherit. -/
def bare : Machine :=
  { heap := (Native.inherited.map fun n => (⟨.native n, .empty⟩ : Cell)).toArray
    frames := #[], global := 0, steps := 0, depth := 0, maxSteps := 0, maxDepth := 0, trees := [] }

/-- A machine on the store of another one, with a global scope and limits of its own. -/
def restart (m : Machine) (maxSteps maxDepth : Nat) : Machine :=
  { m with steps := 0, depth := 0, maxSteps := maxSteps, maxDepth := maxDepth, trees := [] }.after
    Run.openGlobal

/-- A new machine. -/
def create (maxSteps maxDepth : Nat) : Machine := bare.restart maxSteps maxDepth

/-- The machine without its trees: functions keep the code that they have in them. -/
def settled (m : Machine) : Machine :=
  { m with heap := m.heap.map (Cell.settled m.trees), trees := [] }

/-- The chain of scopes that consists of the global scope. -/
def globalChain (m : Machine) : ScopeChain := [m.global]

/-- Whether a name is a global variable. -/
def isGlobal (m : Machine) (name : Text) : Bool := (m.frame m.global).bindings.contains name

end Machine

/-- How deep constructs of running code may be nested. -/
def nestingLimit : Nat := 20000

namespace Run

/-- A computation with a new budget; a jump that nothing catches is a failure. -/
def fresh {α : Type} (c : Run α) : Run α := do
  modify fun m => { m with steps := 0, depth := 0 }
  tryCatch c fun e =>
    match e with
    | .broken | .continued | .returned _ => fail .escapedJump
    | e => throw e

/-- Evaluates an expression with a new budget. -/
def evaluate (n : Node) (scopes : ScopeChain) : Run Value :=
  fresh ((evaluator nestingLimit).expression n scopes)

/-- Executes a statement, or declares one variable of a declaration, with a new budget. -/
def execute (n : Node) (scopes : ScopeChain) : Run Unit :=
  match n.form with
  | .variableDeclarator => fresh do
    declareVariable (evaluator nestingLimit) n scopes (← varScope scopes)
  | _ => fresh ((evaluator nestingLimit).statement n scopes)

/-- Calls a value; steps and depth count on from where they are. -/
def call (f this : Value) (args : List Value) : Run Value :=
  (evaluator nestingLimit).call f this args

/-- Scopes for trying code out: what it declares or assigns does not become global. -/
def scratch : Run ScopeChain := do
  let f ← newFrame true true
  return f :: (← get).globalChain

/-- Sets a global variable. -/
def defineGlobal (name : Text) (v : Value) : Run Unit := do
  declare (← get).global name v

end Run

end Untangle.Sandbox
