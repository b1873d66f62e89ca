import Untangle.Rule.Basic
import Untangle.Rule.Dispatch

set_option autoImplicit false

/-!
# Unflattening of loops

A dispatch loop is replaced by the statements that it executes.
-/

namespace Untangle.Rule.Unflattening

/-- Whether one of some variables of a loop is read outside of it. -/
def isReadOutside (a : Analysis) (loop : Node) (scope : ScopeId) (names : List Text) : Bool :=
  let inner := loop.ids
  names.any fun name =>
    match a.lookup name scope with
    | none => false
    | some b => (a.references b).any fun r => !inner.contains (a.site r).node

/-- Acts on a `for` statement. -/
def act (settings : Settings) (i : SiteId) : RuleM Unit := do
  let n ← RuleM.nodeAt i
  match Dispatch.Loop.ofNode? n with
  | none => return
  | some loop =>
    let a ← TourM.ask fun a => a
    let scope := (a.scopeOpenedBy? n.id).getD (a.site i).scope
    let r ← RuleM.withSandbox fun s =>
      match (Dispatch.unflatten loop (isReadOutside a n scope) settings.maxDispatchSteps).run s with
      | .ok statements s => (Except.ok statements, s)
      | .error e s => (Except.error e, s)
    match r with
    | .ok statements =>
      RuleM.edit fun a => a.replaceMany i statements
      RuleM.record .loopsUnflattened 1
    | .error (.obstacle _) => RuleM.record .loopsKept 1
    | .error (.unprintable r) => throw (.unprintable r)
    | .error (.fault f) => throw (.fault f)

/-- The `for` statements. -/
def handles : Form → Bool
  | .forStatement => true
  | _ => false

/-- The rule, which acts after the parts of a loop were visited. -/
def handler (settings : Settings) : Handler RuleError RuleState := ⟨handles, act settings⟩

end Untangle.Rule.Unflattening
