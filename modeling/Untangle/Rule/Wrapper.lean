import Untangle.Tree.Node

set_option autoImplicit false

/-!
# Functions that wrap an operator

`function (a, b) { return a + b; }` does nothing but apply an operator to its parameters.
-/

namespace Untangle

/-- An operator that a function applies to its two parameters; `swapped` if the second one comes
first. -/
structure Wrapper where
  op : BinaryOp
  swapped : Bool
  deriving DecidableEq, Repr

namespace Node

/-- The expression that a function consists of, if it does. -/
def soleResult? (body : Node) : Option Node :=
  match body.form with
  | .blockStatement =>
    match body.childrenAt .body with
    | [s] =>
      match s.form with
      | .returnStatement => s.child? .argument
      | _ => none
    | _ => none
  | _ => some body

/-- The two different names that a function expression takes, if it takes just that. -/
def twoParameters? (f : Node) : Option (Text × Text) :=
  match f.form with
  | .functionExpression _ | .arrowFunction _ =>
    match (f.childrenAt .params).map Node.name? with
    | [some a, some b] => if a == b then none else some (a, b)
    | _ => none
  | _ => none

/-- The operator that a function expression wraps. -/
def wrapper? (f : Node) : Option Wrapper :=
  match f.twoParameters?, (f.child? .body).bind soleResult? with
  | some (a, b), some e =>
    match e.form, (e.child? .left).bind name?, (e.child? .right).bind name? with
    | .binary op, some l, some r =>
      if l == a && r == b then some ⟨op, false⟩
      else if l == b && r == a then some ⟨op, true⟩
      else none
    | _, _, _ => none
  | _, _ => none

end Node

end Untangle
