import Untangle.Sandbox.Coercion
import Untangle.Text.Identifier
import Untangle.Text.Printable
import Untangle.Tree.Build

set_option autoImplicit false

/-!
# Values that trees denote, and trees that denote values

A literal, or a number with a minus sign before it, denotes a value without being run.  Every value
without functions is denoted by a tree; numbers are written with a minus sign where they are negative,
and NaN, infinity and `undefined` by their names.
-/

namespace Untangle

/-- Whether a literal is a number. -/
def Literal.isNumber : Literal → Bool
  | .number _ => true
  | _ => false

/-- Whether a literal is a regular expression. -/
def Literal.isRegex : Literal → Bool
  | .regex _ _ => true
  | _ => false

namespace Sandbox

/-! ## From trees to values -/

/-- The number of a numeral. -/
def numeralValue : Numeral → Except Fault Float
  | .real x => .ok x
  | .whole n =>
    match Binary64.ofInt? n with
    | some x => .ok x
    | none => .error .tooLarge

/-- The value of a literal that is no regular expression. -/
def literalOf : Literal → Except Fault Value
  | .null => .ok .null
  | .bool b => .ok (.bool b)
  | .string t => .ok (.string t)
  | .number n => do return .number (← numeralValue n)
  | .regex _ _ => .ok .undefined

/-- Whether a node denotes a primitive value: a literal, or a number with a minus sign. -/
def isLiteral (n : Node) : Bool :=
  match n.form with
  | .literal l => !l.isRegex
  | .unary .minus =>
    match (n.child? .argument).map Node.form with
    | some (.literal l) => l.isNumber
    | _ => false
  | _ => false

/-- The negative of a number. -/
def negated : Value → Value
  | .number x => .number (-x)
  | v => v

/-- The value of a node that denotes one. -/
def denotedValue (n : Node) : Except Fault Value :=
  match n.form with
  | .literal l => literalOf l
  | _ =>
    match (n.child? .argument).map Node.form with
    | some (.literal l) => do return negated (← literalOf l)
    | _ => .ok .undefined

/-! ## From values to trees -/

/-- Why a value has no tree. -/
inductive Unwritable where
  | function (name : Text)
  | cyclic
  deriving Repr

/-- The wording of the reason. -/
def Unwritable.message : Unwritable → Text
  | .function name =>
    "cannot turn function " ++ (if name.isEmpty then Text.of "<anonymous>" else name) ++
      " into a node"
  | .cyclic => "cannot turn a value that contains itself into a node"

/-- The tree of a number. -/
def numberNode (x : Float) : Node :=
  if Binary64.isNaN x then .ident "NaN"
  else
    let magnitude : Node :=
      if Binary64.isInfinite x then .ident "Infinity" else .literal (.number (.real x.abs))
    if Binary64.isNegative x then .unary .minus magnitude else magnitude

/-- The tree of a primitive value. -/
def primitiveNode : Value → Node
  | .undefined => .ident "undefined"
  | .null => .literal .null
  | .bool b => .literal (.bool b)
  | .number x => numberNode x
  | .string t => .literal (.string t)
  | .object _ => .ident "undefined"

/-- The literal of a primitive value, whatever its sign; `undefined` and objects have none. -/
def literalOfValue? : Value → Option Literal
  | .null => some .null
  | .bool b => some (.bool b)
  | .number x => some (.number (.real x))
  | .string t => some (.string t)
  | .undefined | .object _ => none

/-- How a primitive value is spelled in data: strings in double quotes. -/
def spelling : Value → Text
  | .string t => Text.doubleQuoted t
  | v => primitiveText v

/-- The key of a property: a name where the key is one. -/
def keyNode (key : Text) : Node :=
  if Text.isAsciiName key then .ident key else .literal (.string key)

mutual

/-- The tree of a value, going through at most `fuel` objects inside of each other. -/
def valueNodeGo (h : Heap) : Nat → Value → Except Unwritable Node
  | 0, _ => .error .cyclic
  | fuel + 1, v =>
    match v with
    | .object r =>
      let c := h.getD r default
      match c.body with
      | .array es => do return .array (← elementNodes h fuel es.toList)
      | .plain => do return .object (← propertyNodes h fuel c.properties.entries)
      | .closure _ _ name => .error (.function name)
      | .native fn => .error (.function fn.name)
    | _ => .ok (primitiveNode v)

/-- The trees of the elements of an array. -/
def elementNodes (h : Heap) (fuel : Nat) : List Value → Except Unwritable (List Node)
  | [] => .ok []
  | v :: vs => do
    let n ← valueNodeGo h fuel v
    return n :: (← elementNodes h fuel vs)

/-- The trees of the properties of an object. -/
def propertyNodes (h : Heap) (fuel : Nat) : List (Text × Value) → Except Unwritable (List Node)
  | [] => .ok []
  | (key, v) :: rest => do
    let n ← valueNodeGo h fuel v
    return .property .plain (keyNode key) false n false false :: (← propertyNodes h fuel rest)

end

/-- The tree of a value. -/
def valueNode (h : Heap) (v : Value) : Except Unwritable Node := valueNodeGo h (nestingBound h) v

end Sandbox

namespace Node

/-! ## Names in trees -/

/-- The name of a member that is known without running code. -/
def memberName? (n : Node) : Option Text :=
  match n.form, n.child? .property with
  | .member false, some p => p.name?
  | .member true, some p =>
    match p.form with
    | .literal (.string t) => some t
    | _ => none
  | _, _ => none

/-- The key of a property that is known without running code. -/
def propertyKey? (p : Node) : Except Sandbox.Fault (Option Text) :=
  let computed := match p.form with
    | .property computed _ _ _ => computed
    | .methodDefinition computed _ _ => computed
    | _ => false
  match p.child? .key with
  | none => .ok none
  | some k =>
    match k.form with
    | .identifier name => .ok (if computed then none else some name)
    | .literal (.string t) => .ok (some t)
    | .literal (.number x) => do return some (Number.text (← Sandbox.numeralValue x))
    | _ => .ok none

mutual

/-- The names that a pattern binds. -/
def patternNames : Node → List Text
  | .mk _ _ f cs =>
    match f with
    | .identifier name => [name]
    | .arrayPattern => slotNames .elements cs
    | .objectPattern => slotNames .properties cs
    | .assignmentPattern => slotNames .left cs
    | .rest => slotNames .argument cs
    | _ => []

/-- The names that the patterns of a slot bind; of a property its value counts. -/
def slotNames (slot : Role) : List Node → List Text
  | [] => []
  | .mk i r f cs :: rest =>
    (if r != slot then []
      else
        match f with
        | .property _ _ _ _ => slotNames .value cs
        | _ => patternNames (.mk i r f cs)) ++ slotNames slot rest

end

end Node

end Untangle
