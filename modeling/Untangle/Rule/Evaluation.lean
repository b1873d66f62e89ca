import Untangle.Rule.Basic
import Untangle.Rule.Wrapper

set_option autoImplicit false

/-!
# Evaluation of calls

A call is replaced by its value where the sandbox comes to one.  Three kinds of callees are tried: a
name, which is a global of the sandbox or a function of the program; a method of a literal; and a
member of a name.  Functions of the program are handed to the sandbox on first use, together with the
functions they name.  A member of an object of the program whose function merely wraps an operator is
replaced by that operator.
-/

namespace Untangle.Rule.Evaluation

open Sandbox (Value)

/-- The function of a declaration that declares one. -/
def declaredFunction? (declaration : Node) : Option Node :=
  match declaration.form with
  | .functionDeclaration _ => some declaration
  | .variableDeclarator =>
    (declaration.child? .init).filter fun init =>
      match init.form with
      | .functionExpression _ | .arrowFunction _ => true
      | _ => false
  | _ => none

/-- Whether a tree has neither parts nor effects: a literal or a name. -/
def isSimple (n : Node) : Bool :=
  Sandbox.isLiteral n ||
    match n.form with
    | .identifier _ => true
    | _ => false

/-- The bindings that the identifiers of a tree read, in order. -/
def bindingsRead (a : Analysis) (n : Node) : List BindingId :=
  n.walk.filterMap fun m =>
    match m.form with
    | .identifier _ => a.readBy? m.id
    | _ => none

/-! ## Functions of the program -/

/-- The functions other than the given one that a function names and that declare functions. -/
def dependencies (a : Analysis) (b : BindingId) (function : Node) : List BindingId :=
  (bindingsRead a function).filter fun d =>
    d != b && (declaredFunction? (a.nodeAt (a.binding d).site)).isSome &&
      a.declarationId d != a.declarationId b

mutual

/-- Hands the function of a binding, and first the functions it names, to the sandbox.  Returns whether
it is there, and the declarations that were tried; `fuel` bounds the number of functions that name each
other. -/
def registerFunction (fuel : Nat) (b : BindingId) (seen : List NodeId) :
    RuleM (Bool × List NodeId) := do
  let a ← TourM.ask fun a => a
  let id := a.declarationId b
  if seen.contains id then return (true, seen)
  let seen := id :: seen
  let declaration := a.nodeAt (a.binding b).site
  match declaredFunction? declaration, a.isConstant b with
  | some function, true =>
    match fuel with
    | 0 => return (false, seen)
    | fuel' + 1 =>
      let seen ← registerAll fuel' (dependencies a b function) seen
      let source ← RuleM.code declaration
      let r ← RuleM.withSandbox fun s => s.register declaration (a.binding b).name (some source)
      return ((← RuleM.contained r).getD false, seen)
  | _, _ => return (false, seen)
termination_by (fuel, 0)

/-- Hands the functions of some bindings to the sandbox. -/
def registerAll (fuel : Nat) (bs : List BindingId) (seen : List NodeId) : RuleM (List NodeId) :=
  match bs with
  | [] => return seen
  | b :: rest => do
    let (_, seen) ← registerFunction fuel b seen
    registerAll fuel rest seen
termination_by (fuel, bs.length + 1)

end

/-! ## Values -/

/-- Whether a call reads a variable that the sandbox knows nothing of.  What is declared in the call
itself does not count. -/
def readsUnknown (a : Analysis) (s : Sandbox.Registry) (call : Node) : Bool :=
  let inner := call.ids
  (bindingsRead a call).any fun b =>
    let d := a.declarationId b
    !inner.contains d && !s.registered.contains d

/-- The tree of a value that may stand for a call: neither nothing nor a function, and no object that holds
a function.  The search for the tree of a value that contains itself ends the run. -/
def valueTree? (h : Sandbox.Heap) (v : Option Value) : Except RuleError (Option Node) :=
  match v with
  | none | some .undefined | some .null => .ok none
  | some v =>
    if h.isCallable v then .ok none
    else
      match Sandbox.valueNode h v with
      | .ok n => .ok (some n)
      | .error (.function _) => .ok none
      | .error .cyclic => .error .endlessValue

/-- Replaces a call by its value, if there is one. -/
def evaluate (i : SiteId) (call : Node) : RuleM Unit := do
  let t ← get
  if readsUnknown t.analysis t.state.sandbox call then return
  let source ← RuleM.code call
  let r ← RuleM.withSandbox fun s => s.evaluate call source
  let v ← RuleM.contained r
  let h := (← get).state.sandbox.machine.heap
  match ← RuleM.settle (valueTree? h (v.getD none)) with
  | none => RuleM.record .callsKept 1
  | some n =>
    RuleM.edit fun a => a.replace i n
    RuleM.record .callsEvaluated 1

/-! ## Callees -/

/-- Acts on a call of a name. -/
def callOfName (i : SiteId) (call : Node) (name : Text) : RuleM Unit := do
  let t ← get
  match t.analysis.lookup name (t.analysis.site i).scope with
  | none => if t.state.sandbox.isBuiltin name then evaluate i call
  | some b =>
    let (known, _) ← registerFunction t.analysis.bindings.size b []
    if known then evaluate i call

/-- The value of the last property of an object literal with a given key. -/
def propertyValue? (object : Node) (key : Text) : Except Sandbox.Fault (Option Node) :=
  (object.childrenAt .properties).foldlM (fun found p =>
    match p.form with
    | .property _ _ _ _ => do
      if (← p.propertyKey?) == some key then return p.child? .value else return found
    | _ => return found) none

/-- The operator applied to the arguments of a call of its wrapper.  Arguments trade places only where
neither has effects. -/
def unwrapped? (w : Wrapper) (args : List Node) : Option Node :=
  match args with
  | [l, r] =>
    let spreads (n : Node) : Bool := match n.form with
      | .spread => true
      | _ => false
    if spreads l || spreads r then none
    else if !w.swapped then some (.binary w.op l r)
    else if isSimple l && isSimple r then some (.binary w.op r l)
    else none
  | _ => none

/-- The object literal that a declaration sets a variable to. -/
def declaredObject? (declaration : Node) : Option Node :=
  match declaration.form with
  | .variableDeclarator =>
    (declaration.child? .init).filter fun init =>
      match init.form with
      | .objectExpression => true
      | _ => false
  | _ => none

/-- Acts on a call of a member of a name. -/
def callOfMember (i : SiteId) (call callee : Node) (name : Text) : RuleM Unit := do
  let t ← get
  let a := t.analysis
  match a.lookup name (a.site i).scope with
  | none => if t.state.sandbox.isBuiltin name then evaluate i call
  | some b =>
    let object? := (declaredObject? (a.nodeAt (a.binding b).site)).filter fun _ => a.isConstant b
    match object?, callee.memberName? with
    | some object, some key =>
      let value ← RuleM.convert (propertyValue? object key)
      match (value.bind Node.wrapper?).bind fun w => unwrapped? w (call.childrenAt .arguments) with
      | some n =>
        RuleM.edit fun a => a.replace i n
        RuleM.record .wrappersInlined 1
      | none => return
    | _, _ => return

/-- Acts on a call. -/
def act (i : SiteId) : RuleM Unit := do
  let n ← RuleM.nodeAt i
  match n.child? .callee with
  | none => return
  | some callee =>
    match callee.form, callee.child? .object with
    | .identifier name, _ => callOfName i n name
    | .member _, some target =>
      if Sandbox.isLiteral target then evaluate i n
      else
        match target.form with
        | .identifier name => callOfMember i n callee name
        | _ => return
    | _, _ => return

/-- The calls. -/
def handles : Form → Bool
  | .call => true
  | _ => false

/-- The rule, which acts after the callee and the arguments were visited. -/
def handler : Handler RuleError RuleState := ⟨handles, act⟩

end Untangle.Rule.Evaluation
