import Untangle.Source.Grammar.Basic

set_option autoImplicit false

/-!
# Expressions as patterns, and names of parameters

An expression that stands on the left of `=` or before `=>` is read again as a pattern.  The names
that a list of parameters binds are checked for what strict code refuses; the check remembers what to
complain of, since a function may turn out to be strict only in its body.
-/

namespace Untangle

namespace Node

mutual

/-- An expression as the pattern of the same shape. -/
def asPattern : Node → Node
  | .mk i r f cs =>
    match f with
    | .spread => .mk i r .rest (patternsAt .argument cs)
    | .arrayExpression => .mk i r .arrayPattern (patternsAt .elements cs)
    | .objectExpression => .mk i r .objectPattern (patternsAt .properties cs)
    | .property _ _ _ _ => .mk i r f (patternsAt .value cs)
    | .assignment _ => .mk i r .assignmentPattern (patternsAt .left cs)
    | _ => .mk i r f cs

/-- The nodes of a slot as patterns, the others as they are. -/
def patternsAt (slot : Role) : List Node → List Node
  | [] => []
  | c :: cs => (if c.role == slot then asPattern c else c) :: patternsAt slot cs

end

end Node

namespace Source

/-- What is known of the parameters of a function: whether all are plain names, the names so far, and
what strict code has to complain of. -/
structure ParameterCheck where
  simple : Bool
  seen : List Text
  strictFault : Option Blame
  laterFault : Option Blame
  complaint : Option Complaint

namespace ParameterCheck

/-- Before the first parameter; the name of the function may be at fault already. -/
def start (laterFault : Option Blame) : ParameterCheck := ⟨true, [], none, laterFault, none⟩

/-- Records a name that a parameter binds. -/
def bind (strict : Bool) (o : ParameterCheck) (culprit : Blame) (name : Text) : ParameterCheck :=
  let o' :=
    if strict then
      let o := if isRestrictedName name then
          { o with strictFault := some culprit, complaint := some .strictParameterName }
        else o
      if o.seen.contains name then
        { o with strictFault := some culprit, complaint := some .duplicateParameter }
      else o
    else if o.laterFault.isSome then o
    else if isRestrictedName name then
      { o with laterFault := some culprit, complaint := some .strictParameterName }
    else if isStrictReserved name then
      { o with laterFault := some culprit, complaint := some .strictReserved }
    else if o.seen.contains name then
      { o with strictFault := some culprit, complaint := some .duplicateParameter }
    else o
  { o' with seen := name :: o'.seen }

/-- Records the shape of a parameter. -/
def shape (o : ParameterCheck) (p : Node) : ParameterCheck :=
  { o with simple := o.simple && p.name?.isSome }

mutual

/-- Records the names that a parameter binds and its shape. -/
def patternGo (strict : Bool) : Node → ParameterCheck → ParameterCheck
  | .mk i r f cs, o =>
    let o := match f with
      | .identifier name => o.bind strict .node name
      | .rest => patternsGo strict .argument cs o
      | .assignmentPattern => patternsGo strict .left cs o
      | .arrayPattern => patternsGo strict .elements cs o
      | .objectPattern => patternsGo strict .properties cs o
      | _ => o
    o.shape (.mk i r f cs)

/-- Records what the nodes of a slot bind; of a property its value counts. -/
def patternsGo (strict : Bool) (slot : Role) : List Node → ParameterCheck → ParameterCheck
  | [], o => o
  | .mk i r f cs :: rest, o =>
    let o :=
      if r != slot || f.isHole then o
      else
        match f with
        | .property _ _ _ _ => patternsGo strict .value cs o
        | _ => patternGo strict (.mk i r f cs) o
    patternsGo strict slot rest o

end

end ParameterCheck

/-- The parameters of a function with what is known of them. -/
structure Parameters where
  nodes : List Node
  check : ParameterCheck

/-- A default value that is the word `yield` is a name there. -/
def yieldAsName (p : Node) : Node :=
  match p.form with
  | .assignmentPattern =>
    p.withChildren <| p.children.map fun c =>
      match c.role, c.form with
      | .right, .yieldExpression _ => (Node.ident "yield").inRole .right
      | _, _ => c
  | _ => p

/-- Whether a default value is a `yield` with an operand. -/
def defaultsToYieldOperand (p : Node) : Bool :=
  match p.form, p.child? .right with
  | .assignmentPattern, some d =>
    match d.form with
    | .yieldExpression _ => (d.child? .argument).isSome
    | _ => false
  | _, _ => false

/-- The parameters of an arrow function of what stands before its arrow, and whether the function is
asynchronous; nothing if no parameters can be made of it. -/
def Parse.arrowParameters (head : Node) : Parse (Option (Parameters × Bool)) := do
  let s ← get
  let strict := s.context.strict
  let list : Option (List Node × Bool) := match head.form with
    | .identifier _ => some ([head], false)
    | .arrowHead isAsync => some (head.childrenAt .params, isAsync)
    | _ => none
  match list with
  | none => return none
  | some (params, isAsync) =>
    let check ← params.foldlM (fun (o : ParameterCheck) p => do
      if defaultsToYieldOperand p then unexpected s.ahead
      if isAsync && p.name? == some (Text.of "await") then unexpected s.ahead
      return ParameterCheck.patternGo strict (yieldAsName p) o) (ParameterCheck.start none)
    let params := params.map yieldAsName
    if strict || !s.context.allowYield then
      for p in params do
        match p.form with
        | .yieldExpression _ => unexpected s.ahead
        | _ => pure ()
    if check.complaint == some .duplicateParameter then
      let culprit := if strict then check.strictFault else check.laterFault
      blame (culprit.getD .node) .duplicateParameter
    return some (⟨params, check⟩, isAsync)

end Source

end Untangle
