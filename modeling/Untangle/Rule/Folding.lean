import Untangle.Rule.Basic

set_option autoImplicit false

/-!
# Folding of operators

A binary expression over two literals is replaced by its value.  The expressions inside come first, so
that nested ones are folded from the inside out.  Literals under any other operator end the run.
-/

namespace Untangle.Rule.Folding

/-- The operators that are folded. -/
def isFoldable : BinaryOp → Bool
  | .add | .sub | .mul | .div | .shiftLeft | .equal | .same | .notEqual | .notSame => true
  | _ => false

/-- The operator and the operands of a binary expression over two literals. -/
def literalOperands? (n : Node) : Option (BinaryOp × Node × Node) :=
  match n.form, n.child? .left, n.child? .right with
  | .binary op, some l, some r =>
    if Sandbox.isLiteral l && Sandbox.isLiteral r then some (op, l, r) else none
  | _, _, _ => none

/-- The value of an operator that is folded, on two literals. -/
def foldedValue (op : BinaryOp) (l r : Node) : Except Sandbox.Fault Sandbox.Value := do
  let x ← Sandbox.denotedValue l
  let y ← Sandbox.denotedValue r
  match Sandbox.pureOperation #[] op x y with
  | .ok v => return v
  | .error (.fault f) => throw f
  | .error _ => return .undefined

/-- Acts on a binary expression. -/
def act (i : SiteId) : RuleM Unit := do
  let n ← RuleM.nodeAt i
  match literalOperands? n with
  | none => return
  | some (op, l, r) =>
    if !isFoldable op then throw (.unsupportedOperator op (← RuleM.code n))
    let v ← RuleM.convert (foldedValue op l r)
    RuleM.edit fun a => a.replace i (Sandbox.primitiveNode v)
    RuleM.record .binaryFolded 1

/-- The binary expressions. -/
def handles : Form → Bool
  | .binary _ => true
  | _ => false

/-- The rule, which acts after the operands were visited. -/
def handler : Handler RuleError RuleState := ⟨handles, act⟩

end Untangle.Rule.Folding
