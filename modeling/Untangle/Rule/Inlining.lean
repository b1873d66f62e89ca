import Untangle.Rule.Basic

set_option autoImplicit false

/-!
# Inlining of declarations

A variable that is set to a literal and keeps it is replaced by the literal wherever it is read, and
its declarator is dropped.  A function that is set to a variable of the program is moved to the
sandbox, where calls of it can be evaluated.
-/

namespace Untangle.Rule.Inlining

/-- What is done with a declarator by its initializer. -/
inductive Plan where
  | inlineLiteral
  | moveFunction
  | keep
  deriving DecidableEq, Repr

/-- What is done with a declarator, in a scope, in a declaration that stands in a slot. -/
def plan (declarator : Node) (slot : Role) (scope : ScopeId) : Plan :=
  match (declarator.child? .id).bind Node.name?, declarator.child? .init with
  | some _, some init =>
    if slot == .left then .keep
    else if Sandbox.isLiteral init then .inlineLiteral
    else
      match init.form with
      | .functionExpression _ | .arrowFunction _ => if scope == 0 then .moveFunction else .keep
      | _ => .keep
  | _, _ => .keep

/-- Replaces the reads of a variable by trees of its value. -/
def replaceReads (value : Node) : List SiteId → RuleM Unit
  | [] => return
  | r :: rs => do
    RuleM.edit fun a => a.replace r value
    replaceReads value rs

/-- Inlines the literal of a declarator, if its name is a constant. -/
def inlineLiteral (i : SiteId) (declarator : Node) (name : Text) (init : Node) : RuleM Unit := do
  let a ← TourM.ask fun a => a
  match a.lookup name (a.site i).scope with
  | none => return
  | some b =>
    if a.declarationId b != declarator.id || !a.isConstant b then return
    let value ← RuleM.convert (Sandbox.denotedValue init)
    let reads := a.references b
    replaceReads (Sandbox.primitiveNode value) reads
    RuleM.edit fun a => a.remove i
    RuleM.record .literalsInlined reads.length
    RuleM.record .declarationsRemoved 1

/-- Moves the function of a declarator to the sandbox, if the sandbox accepts it. -/
def moveFunction (i : SiteId) (declarator : Node) (name : Text) : RuleM Unit := do
  let r ← RuleM.withSandbox fun s => s.register declarator name none
  if (← RuleM.contained r).isSome then
    RuleM.edit fun a => a.remove i
    RuleM.record .functionsRegistered 1
    RuleM.record .declarationsRemoved 1

/-- Acts on a declarator. -/
def act (i : SiteId) : RuleM Unit := do
  let n ← RuleM.nodeAt i
  let s ← TourM.ask fun a => a.site i
  let slot ← TourM.ask fun a => (s.above.map fun p => (a.site p).role).getD .top
  let name := ((n.child? .id).bind Node.name?).getD []
  match plan n slot s.scope, n.child? .init with
  | .inlineLiteral, some init => inlineLiteral i n name init
  | .moveFunction, _ => moveFunction i n name
  | _, _ => return

/-- The declarators. -/
def handles : Form → Bool
  | .variableDeclarator => true
  | _ => false

/-- The rule, which acts before the parts of a declarator are visited. -/
def handler : Handler RuleError RuleState := ⟨handles, act⟩

end Untangle.Rule.Inlining
