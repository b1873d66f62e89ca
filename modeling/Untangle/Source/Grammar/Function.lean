import Untangle.Source.Grammar.Pattern

set_option autoImplicit false

/-!
# Functions and classes

Bodies of functions with their directives, declarations and expressions of functions, methods,
accessors and classes.  The directive that makes code strict stands inside of the function whose name
and parameters it governs, so these are judged after the body.
-/

namespace Untangle.Source.Parse

/-- Reads an expression, or several with commas between them. -/
def expression (g : Grammar) : Parse Node := do
  let first ← isolated g.assignment
  if !(← sees ",") then return first
  let others ← collect do
    if !(← sees ",") then return none
    let _ ← advance
    return some (← isolated g.assignment)
  return .sequence (first :: others)

/-! ## Bodies -/

/-- Reads a statement that starts with a string: a directive, if the string is all of it. -/
def directive (g : Grammar) : Parse (Node × Option Text) := do
  let t := (← get).ahead
  let e ← expression g
  let text? : Option Text := match e.form, t.lexeme with
    | .literal _, .string _ raw _ => if raw.isEmpty then none else some raw
    | _, _ => none
  semicolon
  return (.expressionStatement text? e, text?)

/-- Where the reading of directives stands. -/
structure Directives where
  statements : List Node
  octal : Option Token

/-- Reads one directive. -/
def directiveStep (g : Grammar) (d : Directives) : Parse (Bool × Directives) := do
  let t := (← get).ahead
  match t.lexeme with
  | .string _ _ octal =>
    let (node, text?) ← directive g
    let d := { d with statements := node :: d.statements }
    match text? with
    | none => return (false, d)
    | some text =>
      if text == Text.of "use strict" then
        inform fun c => { c with strict := true }
        if let some o := d.octal then blameToken o .strictOctal
        if !(← context).allowStrictDirective then blameToken t .illegalStrictDirective
        return (true, d)
      else if d.octal.isNone && octal then return (true, { d with octal := some t })
      else return (true, d)
  | _ => return (false, d)

/-- Reads the directives at the start of a script or a function. -/
def directives (g : Grammar) : Parse (List Node) := do
  return (← loop (directiveStep g) ⟨[], none⟩).statements.reverse

/-- Reads the body of a function in braces. -/
def functionBody (g : Grammar) : Parse Node := do
  expect "\x7b"
  let front ← directives g
  let before ← context
  inform fun c => { c with
    labels := [], inIteration := false, inSwitch := false, inFunctionBody := true }
  let items ← collect do
    if (← seesEnd) || (← sees "\x7d") then return none
    return some (← g.item)
  expect "\x7d"
  inform fun c => { c with
    labels := before.labels, inIteration := before.inIteration, inSwitch := before.inSwitch
    inFunctionBody := before.inFunctionBody }
  return .block (front ++ items)

/-- Complains of names that turn out to stand in strict code. -/
def judge (check : ParameterCheck) (complaint : Complaint) : Parse Unit := do
  if ← isStrict then
    if let some b := check.laterFault then blame b complaint
    if let some b := check.strictFault then blame b complaint

/-- Reads the body of a function whose parameters are known, and judges the names once it is known
whether the function is strict. -/
def bodyOf (check : ParameterCheck) (complaint : Option Complaint) (body : Parse Node) :
    Parse Node := do
  let before ← context
  inform fun c => { c with allowStrictDirective := check.simple }
  let b ← body
  judge check (complaint.getD .bareToken)
  inform fun c => { c with
    strict := before.strict, allowStrictDirective := before.allowStrictDirective }
  return b

/-! ## Methods -/

/-- Reads the body of a method. -/
def methodBody (g : Grammar) (check : ParameterCheck) : Parse Node := do
  noTarget
  bodyOf check check.complaint (isolated (functionBody g))

/-- The function of a method. -/
def methodNode (generator isAsync : Bool) (params : List Node) (body : Node) : Node :=
  .functionExpression ⟨generator, isAsync, false⟩ none params body

/-- Reads a method from its parameters on. -/
def method (g : Grammar) : Parse Node :=
  withYield true do
    let ps ← parameters g none
    return methodNode false false ps.nodes (← methodBody g ps.check)

/-- Reads an asynchronous method from its parameters on. -/
def asyncMethod (g : Grammar) : Parse Node :=
  withYield false do
    let before := (← context).awaits
    inform fun c => { c with awaits := true }
    let ps ← parameters g none
    let body ← methodBody g ps.check
    inform fun c => { c with awaits := before }
    return methodNode false true ps.nodes body

/-- Reads a getter from its parameters on. -/
def getter (g : Grammar) : Parse Node :=
  withYield true do
    let ps ← parameters g none
    if !ps.nodes.isEmpty then failHere .getterArity
    return methodNode false false ps.nodes (← methodBody g ps.check)

/-- Reads a setter from its parameters on. -/
def setter (g : Grammar) : Parse Node :=
  withYield true do
    let ps ← parameters g none
    match ps.nodes with
    | [p] =>
      match p.form with
      | .rest => failHere .setterRest
      | _ => pure ()
    | _ => failHere .setterArity
    return methodNode false false ps.nodes (← methodBody g ps.check)

/-- Reads a generator method from its parameters on. -/
def generatorMethod (g : Grammar) : Parse Node :=
  withYield true do
    let ps ← parameters g none
    inform fun c => { c with allowYield := false }
    return methodNode true false ps.nodes (← methodBody g ps.check)

/-- Reads a getter with its key; after it `yield` is no name. -/
def getterWithKey (g : Grammar) : Parse (Node × Bool × Node) := do
  let computed ← sees "["
  let k ← key g
  inform fun c => { c with allowYield := false }
  return (k, computed, ← getter g)

/-- Reads a setter with its key. -/
def setterWithKey (g : Grammar) : Parse (Node × Bool × Node) := do
  let computed ← sees "["
  let k ← key g
  return (k, computed, ← setter g)

/-- Reads a generator method with its key. -/
def generatorWithKey (g : Grammar) : Parse (Node × Bool × Node) := do
  let computed ← sees "["
  let k ← key g
  return (k, computed, ← generatorMethod g)

/-! ## Functions -/

/-- Whether an asynchronous function starts here. -/
def seesAsyncFunction : Parse Bool := do
  if !(← seesName "async") then return false
  let line := (← get).cursor.line
  let t ← probe
  match t.lexeme with
  | .keyword "function" => return t.line == line
  | _ => return false

/-- What is wrong with the name of a function in strict code. -/
def functionNameFault (t : Token) : Option Complaint :=
  let name := t.lexeme.spelling
  if isRestrictedName name then some .strictFunctionName
  else if isStrictReserved name then some .strictReserved
  else none

/-- Reads the name of a function; outside of strict code a bad name is only remembered. -/
def functionName (read : Parse Node) : Parse (Node × Option (Blame × Complaint)) := do
  let t := (← get).ahead
  let id ← read
  if ← isStrict then
    if isRestrictedName t.lexeme.spelling then blameToken t .strictFunctionName
    return (id, none)
  return (id, (functionNameFault t).map fun c => (.token t, c))

/-- The words before the name of a function: whether it is asynchronous and whether it is a
generator. -/
def functionWords : Parse (Bool × Bool) := do
  let isAsync ← seesName "async"
  if isAsync then
    let _ ← advance
  expectKeyword "function"
  let generator ← if isAsync then pure false else sees "*"
  if generator then
    let _ ← advance
  return (isAsync, generator)

/-- Reads parameters and body of a function. -/
def functionRest (g : Grammar) (fault : Option (Blame × Complaint)) : Parse (List Node × Node) := do
  let ps ← parameters g (fault.map (·.1))
  let complaint := ps.check.complaint.or (fault.map (·.2))
  let body ← bodyOf ps.check complaint (functionBody g)
  return (ps.nodes, body)

/-- Reads with the meaning that `await` and `yield` have in a function. -/
def inFunction {α : Type} (isAsync generator : Bool) (p : Parse α) : Parse α := do
  let before ← context
  inform fun c => { c with awaits := isAsync, allowYield := !generator }
  let a ← p
  inform fun c => { c with awaits := before.awaits, allowYield := before.allowYield }
  return a

/-- Reads the declaration of a function. -/
def functionDeclaration (g : Grammar) : Parse Node := do
  let (isAsync, generator) ← functionWords
  let (id, fault) ← functionName (variableName none)
  let (params, body) ← inFunction isAsync generator (functionRest g fault)
  return .functionDeclaration ⟨generator, isAsync, false⟩ (some id) params body

/-- Reads a function that is an expression; its name stands inside of it. -/
def functionExpression (g : Grammar) : Parse Node := do
  let (isAsync, generator) ← functionWords
  inFunction isAsync generator do
    let (id, fault) ← if ← sees "(" then pure (none, none) else do
      let plain := !(← isStrict) && !generator && (← seesKeyword "yield")
      let (id, fault) ← functionName (if plain then anyName else variableName none)
      pure (some id, fault)
    let (params, body) ← functionRest g fault
    return .functionExpression ⟨generator, isAsync, false⟩ id params body

/-! ## Classes -/

/-- A member of a class as far as it is read. -/
structure Member where
  first : Token
  key : Option Node
  computed : Bool
  isStatic : Bool
  isAsync : Bool

/-- Whether the word `async` in a class is a key itself, by what the token after it spells; a string
counts by its text. -/
def endsAsyncWord (l : Lexeme) : Bool :=
  [":", "(", "*"].any fun s => Text.of s == l.spelling

/-- Reads the words before a member of a class, and its key if no accessor follows. -/
def memberFront (g : Grammar) : Parse Member := do
  let t := (← get).ahead
  if ← sees "*" then
    let _ ← advance
    return ⟨t, none, false, false, false⟩
  let computed ← sees "["
  let k ← key g
  let isStatic := k.name? == some (Text.of "static") &&
    ((← ahead).startsKey || (← sees "*"))
  let m ← if isStatic then do
      let t := (← get).ahead
      let computed ← sees "["
      if ← sees "*" then
        let _ ← advance
        pure (Member.mk t (some k) computed true false)
      else
        let k ← key g
        pure (Member.mk t (some k) computed true false)
    else pure (Member.mk t (some k) computed false false)
  match m.first.lexeme with
  | .name w =>
    let t := (← get).ahead
    if w == Text.of "async" && !(← get).newline && !endsAsyncWord t.lexeme then
      let k ← key g
      if t.lexeme.isName && t.lexeme.spelling == Text.of "constructor" then
        blameToken t .asyncConstructor
      return { m with first := t, key := some k, isAsync := true }
    return m
  | _ => return m

/-- The body of a member of a class: its key, whether the key is computed, its function, its kind and
whether it is a method. -/
structure MemberBody where
  key : Node
  computed : Bool
  value : Node
  kind : MethodKind
  method : Bool

/-- Reads an accessor or a generator method, if one starts here. -/
def memberAccessor (g : Grammar) (m : Member) : Parse (Option MemberBody) := do
  let keyed := (← ahead).startsKey
  match m.first.lexeme with
  | .name w =>
    if keyed && w == Text.of "get" then
      let (k, computed, v) ← getterWithKey g
      return some ⟨k, computed, v, .getter, false⟩
    if keyed && w == Text.of "set" then
      let (k, computed, v) ← setterWithKey g
      return some ⟨k, computed, v, .setter, false⟩
    return none
  | .sign "*" =>
    if keyed then
      let (k, computed, v) ← generatorWithKey g
      return some ⟨k, computed, v, .method, true⟩
    return none
  | _ => return none

/-- Reads what follows the front of a member of a class. -/
def memberBody (g : Grammar) (m : Member) : Parse MemberBody := do
  if let some b ← memberAccessor g m then return b
  match m.key with
  | some k =>
    if ← sees "(" then
      let v ← if m.isAsync then asyncMethod g else method g
      return ⟨k, m.computed, v, .method, true⟩
    unexpected (← get).ahead
  | none => unexpected (← get).ahead

/-- Whether a function is a generator. -/
def isGenerator (f : Node) : Bool :=
  match f.form with
  | .functionExpression flags => flags.generator
  | _ => false

/-- Reads a member of a class; `hasConstructor` says whether one was read before. -/
def classMember (g : Grammar) (hasConstructor : Bool) : Parse (Node × Bool) := do
  let m ← memberFront g
  let b ← memberBody g m
  let named (word : String) : Bool := !b.computed && isKey b.key word
  if m.isStatic && named "prototype" then blameToken m.first .staticPrototype
  if !m.isStatic && named "constructor" then
    if b.kind != .method || !b.method || isGenerator b.value then
      blameToken m.first .accessorConstructor
    if hasConstructor then blameToken m.first .duplicateConstructor
    return (.methodDefinition b.key b.computed b.value .constructor m.isStatic, true)
  return (.methodDefinition b.key b.computed b.value b.kind m.isStatic, hasConstructor)

/-- Reads the body of a class. -/
def classMembers (g : Grammar) : Parse (List Node) := do
  expect "\x7b"
  let (members, _) ← loop (fun (acc : List Node × Bool) => do
    if ← sees "\x7d" then return (false, acc)
    if ← sees ";" then
      let _ ← advance
      return (true, acc)
    let (m, hasConstructor) ← classMember g acc.2
    return (true, m :: acc.1, hasConstructor)) ([], false)
  expect "\x7d"
  return members.reverse

/-- Reads a class, whose code is strict. -/
def classParts (g : Grammar) (name : Parse (Option Node)) :
    Parse (List Node) := do
  let before ← isStrict
  inform fun c => { c with strict := true }
  expectKeyword "class"
  let id ← name
  let superClass ← if ← seesKeyword "extends" then do
      let _ ← advance
      pure (some (← isolated g.call))
    else pure none
  let members ← classMembers g
  inform fun c => { c with strict := before }
  return Node.classParts id superClass members

/-- Reads the declaration of a class. -/
def classDeclaration (g : Grammar) : Parse Node := do
  return .make .classDeclaration (← classParts g do return some (← variableName none))

/-- Reads a class that is an expression. -/
def classExpression (g : Grammar) : Parse Node := do
  return .make .classExpression (← classParts g do
    if (← ahead).isName then return some (← variableName none)
    return none)

end Untangle.Source.Parse
