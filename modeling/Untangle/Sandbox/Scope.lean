import Untangle.Sandbox.Property

set_option autoImplicit false

/-!
# Scopes of running code

A chain of scopes from the inside out.  A name is looked for from the inside; a declaration of `var`
goes to the nearest function; an assignment to a name that nothing declares goes to the nearest scope
that captures such names.
-/

namespace Untangle.Sandbox

/-- The first scope of a chain that has a variable. -/
def Machine.findScope (m : Machine) (name : Text) : ScopeChain → Option FrameId
  | [] => none
  | f :: rest =>
    if (m.frame f).bindings.contains name then some f else m.findScope name rest

/-- The first scope of a chain with a property. -/
def Machine.firstScope (m : Machine) (p : Frame → Bool) : ScopeChain → Option FrameId
  | [] => none
  | f :: rest => if p (m.frame f) then some f else m.firstScope p rest

/-- The value of a variable of a scope. -/
def Machine.variable (m : Machine) (f : FrameId) (name : Text) : Value :=
  ((m.frame f).bindings.get? name).getD .undefined

namespace Run

/-- A new scope. -/
def newFrame (isFunction capturesGlobals : Bool) : Run FrameId :=
  modifyGet fun m =>
    (m.frames.size, { m with frames := m.frames.push ⟨.empty, isFunction, capturesGlobals⟩ })

/-- A new block scope inside of a chain. -/
def blockScope (scopes : ScopeChain) : Run ScopeChain := return (← newFrame false false) :: scopes

/-- Sets a variable of a scope. -/
def declare (f : FrameId) (name : Text) (v : Value) : Run Unit :=
  modify fun m =>
    { m with frames := m.frames.modify f fun fr =>
      { fr with bindings := fr.bindings.put name v } }

/-- The value of a variable. -/
def lookup (scopes : ScopeChain) (name : Text) : Run Value := do
  let m ← get
  match m.findScope name scopes with
  | some f => return m.variable f name
  | none => raise "ReferenceError" (name ++ " is not defined")

/-- Whether a variable exists. -/
def isBound (scopes : ScopeChain) (name : Text) : Run Bool :=
  return ((← get).findScope name scopes).isSome

/-- Assigns a variable. -/
def assign (scopes : ScopeChain) (name : Text) (v : Value) : Run Unit := do
  let m ← get
  let target := (m.findScope name scopes).or (m.firstScope (·.capturesGlobals) scopes)
  declare (target.getD m.global) name v

/-- The scope to which declarations of `var` go. -/
def varScope (scopes : ScopeChain) : Run FrameId := do
  let m ← get
  return (m.firstScope (·.isFunction) scopes).getD m.global

end Run

end Untangle.Sandbox
