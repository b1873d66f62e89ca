import Untangle.Dict
import Untangle.Sandbox.Native
import Untangle.Tree.Node

set_option autoImplicit false

/-!
# Values, objects and the store of the sandbox

Primitive values stand for themselves; objects live in a store and are told apart by their places in
it.  Arrays keep their elements apart from their other properties.  A function is a piece of code with
the scopes around it.

A computation either ends with a value or stops: by a jump, by an exception of the running code, by a
construct that the sandbox does not know, by a limit, or by a fault of the conversions underneath.
-/

namespace Untangle.Sandbox

/-- The place of an object in the store. -/
abbrev Ref := Nat

/-- The place of a scope in the store. -/
abbrev FrameId := Nat

/-- Scopes from the inside out. -/
abbrev ScopeChain := List FrameId

/-- A value of the running code. -/
inductive Value where
  | undefined
  | null
  | bool (b : Bool)
  | number (x : Float)
  | string (t : Text)
  | object (ref : Ref)
  deriving Inhabited, Repr

/-- What an object is beside its properties. -/
inductive Body where
  | plain
  | array (elements : Array Value)
  | closure (code : Node) (scopes : ScopeChain) (name : Text)
  | native (fn : Native)

/-- An object. -/
structure Cell where
  body : Body
  properties : Dict Text Value

instance : Inhabited Cell := ⟨⟨.plain, .empty⟩⟩

/-- The objects of a store. -/
abbrev Heap := Array Cell

/-- The variables of a scope. -/
structure Frame where
  bindings : Dict Text Value
  /-- Variables of `var` declarations belong here. -/
  isFunction : Bool
  /-- Assignments to names that nothing declares end here. -/
  capturesGlobals : Bool

instance : Inhabited Frame := ⟨⟨.empty, false, false⟩⟩

/-! ## How a computation stops -/

/-- A construct that the sandbox does not know. -/
inductive Failure where
  | functionAsPrimitive
  | operator (symbol : String)
  | unaryOperator (symbol : String)
  | logicalOperator (symbol : String)
  | splitByObject
  | replaceByObject
  | replacementPattern
  | arrayReceiver
  | kind (name : String)
  | regex
  | parameter (kind : String)
  | spread
  /-- A property of an object literal that is no plain one. -/
  | objectProperty
  /-- A part of an object literal that is no property. -/
  | objectSpread
  | suspendingFunction
  | target (kind : String)
  | templateEscape
  | destructuring
  | labelledBreak
  | labelledContinue
  | labelledJump
  | catchPattern
  | escapedJump
  | registration (kind : String) (name : Text)
  deriving Repr

/-- The wording of a failure. -/
def Failure.message : Failure → Text
  | .functionAsPrimitive => "cannot convert a function to a primitive"
  | .operator s => "operator " ++ Text.of s ++ " is not supported by the sandbox"
  | .unaryOperator s => "unary operator " ++ Text.of s ++ " is not supported"
  | .logicalOperator s => "logical operator " ++ Text.of s ++ " is not supported"
  | .splitByObject => "split by regular expression is not supported"
  | .replaceByObject => "replace with a regular expression is not supported"
  | .replacementPattern => "replacement patterns are not supported"
  | .arrayReceiver => "array method called on a non-array receiver"
  | .kind k => Text.of k ++ " is not supported by the sandbox"
  | .regex => "regular expression literals are not supported"
  | .parameter k => Text.of k ++ " parameters are not supported"
  | .spread => "spreading non-arrays is not supported"
  | .objectProperty | .objectSpread => "only plain object properties are supported"
  | .suspendingFunction => "generator and async functions are not supported"
  | .target k => "cannot assign to " ++ Text.of k
  | .templateEscape => "template with invalid escape sequence"
  | .destructuring => "destructuring declarations are not supported"
  | .labelledBreak => "labelled break is not supported"
  | .labelledContinue => "labelled continue is not supported"
  | .labelledJump => "labelled jumps are not supported"
  | .catchPattern => "destructuring catch parameters are not supported"
  | .escapedJump => "control flow escaped the evaluated code"
  | .registration k name => "cannot register " ++ Text.of k ++ " " ++ name

/-- A limit that was reached. -/
inductive Limit where
  | steps (budget : Nat)
  | depth (bound : Nat)
  | nesting
  deriving Repr

/-- The wording of a limit. -/
def Limit.message : Limit → Text
  | .steps n => "evaluation exceeded " ++ Text.ofNat n ++ " steps"
  | .depth n => "call depth exceeded " ++ Text.ofNat n
  | .nesting => "recursion limit reached"

/-- A fault of a conversion that the running code can neither see nor catch. -/
inductive Fault where
  /-- A whole number is beyond all floating-point numbers. -/
  | tooLarge
  /-- An infinity is asked for as a count. -/
  | infiniteCount
  /-- A count is beyond all lengths. -/
  | greatCount
  /-- A text would be longer than texts can be. -/
  | longText
  /-- Signs that look like digits and are none. -/
  | badDigits (t : Text)
  /-- More digits than are converted. -/
  | manyDigits (count : Nat)
  /-- Halves of pairs cannot be encoded; the first of them, its place, and the place of the last. -/
  | unencodable (c : CodePoint) (first last : Nat)
  /-- A node lacks a part. -/
  | missingPart
  /-- A node lacks a list of parts. -/
  | missingList
  deriving DecidableEq, Repr

/-- The wording of a fault. -/
def Fault.message : Fault → Text
  | .tooLarge => "int too large to convert to float"
  | .infiniteCount => "cannot convert float infinity to integer"
  | .greatCount => "cannot fit 'int' into an index-sized integer"
  | .longText => "repeated string is too long"
  | .badDigits t => Text.of "invalid literal for int() with base 10: '" ++ t ++ Text.of "'"
  | .manyDigits n =>
    Text.of "Exceeds the limit (4300 digits) for integer string conversion: value has " ++
      Text.ofNat n ++ Text.of " digits; use sys.set_int_max_str_digits() to increase the limit"
  | .unencodable c first last =>
    let place := if first == last then
        Text.of " '\\u" ++ (Text.hexUpper 4 c).map asciiLower ++ Text.of "' in position " ++
          Text.ofNat first
      else Text.of "s in position " ++ Text.ofNat first ++ Text.of "-" ++ Text.ofNat last
    Text.of "'utf-8' codec can't encode character" ++ place ++ Text.of ": surrogates not allowed"
  | .missingPart | .missingList => "a part of the code is missing"
where
  /-- A capital letter as a small one. -/
  asciiLower (c : CodePoint) : CodePoint := if 0x41 ≤ c && c ≤ 0x5A then c + 0x20 else c

/-- How a computation stops without a value. -/
inductive Abrupt where
  | thrown (v : Value)
  | failure (f : Failure)
  | limit (l : Limit)
  | fault (f : Fault)
  | broken
  | continued
  | returned (v : Value)

/-! ## The machine -/

/-- The state of a computation: the store, the limits and how far they are used up. -/
structure Machine where
  heap : Heap
  frames : Array Frame
  global : FrameId
  steps : Nat
  depth : Nat
  maxSteps : Nat
  maxDepth : Nat
  /-- Trees in which functions find their present code; a function that is in none of them keeps the
  code it was made of. -/
  trees : List Node

instance : Inhabited Machine := ⟨⟨#[], #[], 0, 0, 0, 0, 0, []⟩⟩

/-- A computation of the sandbox.  What it did before it stopped stays done. -/
abbrev Run := EStateM Abrupt Machine

namespace Machine

/-- The object at a place. -/
def cell (m : Machine) (r : Ref) : Cell := m.heap.getD r default

/-- The scope at a place. -/
def frame (m : Machine) (i : FrameId) : Frame := m.frames.getD i default

end Machine

namespace Run

/-- Stops with a failure. -/
def fail {α : Type} (f : Failure) : Run α := throw (.failure f)

/-- A new object. -/
def allocate (c : Cell) : Run Ref :=
  modifyGet fun m => (m.heap.size, { m with heap := m.heap.push c })

/-- A new plain object. -/
def newObject (properties : Dict Text Value) : Run Value :=
  return .object (← allocate ⟨.plain, properties⟩)

/-- A new array. -/
def newArray (elements : Array Value) : Run Value :=
  return .object (← allocate ⟨.array elements, .empty⟩)

/-- The object at a place. -/
def cell (r : Ref) : Run Cell := return (← get).cell r

/-- Changes the object at a place. -/
def setCell (r : Ref) (c : Cell) : Run Unit :=
  modify fun m => { m with heap := m.heap.setIfInBounds r c }

/-- Changes the elements of an array. -/
def setElements (r : Ref) (elements : Array Value) : Run Unit := do
  setCell r { ← cell r with body := .array elements }

/-- Throws an error object of a kind with a message. -/
def raise {α : Type} (kind : String) (message : Text) : Run α := do
  let v ← newObject (.ofList [("name", .string kind), ("message", .string message)])
  throw (.thrown v)

/-- A computation that only looks at objects. -/
def reading {α : Type} (f : Heap → Except Abrupt α) : Run α := do
  match f (← get).heap with
  | .ok a => return a
  | .error e => throw e

end Run

/-- The elements of an array. -/
def Heap.elements? (h : Heap) (v : Value) : Option (Array Value) :=
  match v with
  | .object r =>
    match (h.getD r default).body with
    | .array es => some es
    | _ => none
  | _ => none

/-- Whether a value is an object that can be called. -/
def Heap.isCallable (h : Heap) (v : Value) : Bool :=
  match v with
  | .object r =>
    match (h.getD r default).body with
    | .closure _ _ _ | .native _ => true
    | _ => false
  | _ => false

/-- Whether a value is an object. -/
def Value.isObject : Value → Bool
  | .object _ => true
  | _ => false

/-- Whether a value is `undefined`. -/
def Value.isUndefined : Value → Bool
  | .undefined => true
  | _ => false

/-- Whether a value is `undefined` or `null`. -/
def Value.isNullish : Value → Bool
  | .undefined | .null => true
  | _ => false

end Untangle.Sandbox
