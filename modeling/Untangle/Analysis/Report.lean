import Untangle.Analysis.Basic

set_option autoImplicit false

/-!
# Reports on bindings

One row per binding, by scope and then by declaration.
-/

namespace Untangle

/-- What is reported about a binding. -/
structure BindingRow where
  scope : ScopeId
  scopeKind : ScopeKind
  name : Text
  kind : BindingKind
  /-- Number of places that read the name. -/
  references : Nat
  /-- Whether the name keeps its first value. -/
  constant : Bool
  deriving Repr

namespace Analysis

/-- The row of a binding that a scope holds under a name. -/
def bindingRow (a : Analysis) (i : ScopeId) (b : BindingId) : BindingRow where
  scope := i
  scopeKind := (a.scope i).kind
  name := (a.binding b).name
  kind := (a.binding b).kind
  references := (a.references b).length
  constant := a.isConstant b

/-- Whether the places of all bindings can be told attached or not. -/
def isTraceable (a : Analysis) : Bool :=
  a.allBindings.all fun b =>
    ((a.binding b).reads.values ++ (a.binding b).writes.values).all fun i =>
      a.standing i != .unlisted

/-- The rows of all bindings. -/
def report (a : Analysis) : List BindingRow :=
  a.allScopes.flatMap fun i => (a.scope i).bindings.values.map (a.bindingRow i)

end Analysis

end Untangle
