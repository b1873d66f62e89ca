import Untangle.Sandbox.Builtin.Global
import Untangle.Sandbox.Scope

set_option autoImplicit false

/-!
# Running code

The meaning of expressions, statements and calls.  Every expression and every statement costs a step;
functions of the running code may be active in each other only up to a depth.

Each function here says what one construct does, given the meaning of the constructs inside of it.  The
knot is tied in `evaluator`, which allows constructs to be nested to a given depth.
-/

namespace Untangle.Sandbox

/-- The meaning of code: of expressions, of statements and of calls. -/
structure Evaluator where
  expression : Node → ScopeChain → Run Value
  statement : Node → ScopeChain → Run Unit
  call : Value → Value → List Value → Run Value

namespace Run

/-- Pays for one step. -/
def tick : Run Unit := do
  modify fun m => { m with steps := m.steps + 1 }
  let m ← get
  if m.steps > m.maxSteps then throw (.limit (.steps m.maxSteps))

/-- A part that a node has to have. -/
def part (n : Node) (r : Role) : Run Node :=
  match n.child? r with
  | some c => return c
  | none => throw (.fault .missingPart)

/-- The name in a slot that has to hold one. -/
def partName (n : Node) (r : Role) : Run Text := do
  match (← part n r).name? with
  | some name => return name
  | none => throw (.fault .missingPart)

/-- A computation and what is done after it in any case; if that stops, it decides. -/
def thenAlways {α : Type} (body : Run α) (after : Run Unit) : Run α := fun m =>
  match body m with
  | .ok a m' =>
    match after m' with
    | .ok _ m'' => .ok a m''
    | .error e m'' => .error e m''
  | .error e m' =>
    match after m' with
    | .ok _ m'' => .error e m''
    | .error e' m'' => .error e' m''

/-! ## Literals and functions -/

/-- The value of a literal. -/
def literalValue : Literal → Run Value
  | .null => return .null
  | .bool b => return .bool b
  | .string t => return .string t
  | .number (.real x) => return .number x
  | .number (.whole n) =>
    match Binary64.ofInt? n with
    | some x => return .number x
    | none => throw (.fault .tooLarge)
  | .regex _ _ => fail .regex

/-- A function of its code, whatever slot that stands in, and the scopes around it. -/
def makeFunction (code : Node) (scopes : ScopeChain) : Run Value := do
  let name := ((code.child? .id).bind Node.name?).getD []
  return .object (← allocate ⟨.closure (code.inRole .top) scopes name, .empty⟩)

/-- Whether a function can stop and go on. -/
def isSuspending (flags : FunctionFlags) : Bool := flags.generator || flags.isAsync

/-- A function as an expression. -/
def functionValue (code : Node) (flags : FunctionFlags) (scopes : ScopeChain) : Run Value :=
  if isSuspending flags then fail .suspendingFunction else makeFunction code scopes

/-- The values of elements or arguments, spread ones opened up. -/
def evaluateList (ev : Evaluator) (scopes : ScopeChain) : List Node → Run (List Value)
  | [] => return []
  | n :: rest => do
    let vs ← match n.form with
      | .hole => pure [Value.undefined]
      | .spread => do
        let v ← ev.expression (← part n .argument) scopes
        match (← get).heap.elements? v with
        | some es => pure es.toList
        | none => fail .spread
      | _ => do pure [← ev.expression n scopes]
    return vs ++ (← evaluateList ev scopes rest)

/-- The key of a property of an object literal. -/
def propertyKeyText (ev : Evaluator) (computed : Bool) (k : Node) (scopes : ScopeChain) :
    Run Text := do
  if computed then textOf (← ev.expression k scopes)
  else
    match k.form with
    | .identifier name => return name
    | .literal value => textOf (← literalValue value)
    | _ => throw (.fault .missingPart)

/-- Puts the properties of an object literal one after the other. -/
def putProperties (ev : Evaluator) (scopes : ScopeChain) :
    List Node → Dict Text Value → Run (Dict Text Value)
  | [], d => return d
  | p :: rest, d => do
    match p.form with
    | .property computed .plain _ _ =>
      let key ← propertyKeyText ev computed (← part p .key) scopes
      let v ← ev.expression (← part p .value) scopes
      putProperties ev scopes rest (d.put key v)
    | .property .. => fail .objectProperty
    | _ => fail .objectSpread

/-- The text of a template. -/
def templateValue (ev : Evaluator) (scopes : ScopeChain) :
    List Node → List Node → Text → Run Text
  | [], _, acc => return acc
  | q :: qs, es, acc => do
    match q.form with
    | .templateElement _ (some cooked) _ =>
      match es with
      | e :: es =>
        let t ← textOf (← ev.expression e scopes)
        templateValue ev scopes qs es (acc ++ cooked ++ t)
      | [] => templateValue ev scopes qs [] (acc ++ cooked)
    | _ => fail .templateEscape

/-! ## Members and targets -/

/-- The key of a member access. -/
def memberKey (ev : Evaluator) (computed : Bool) (n : Node) (scopes : ScopeChain) : Run Text := do
  if computed then textOf (← ev.expression (← part n .property) scopes)
  else partName n .property

/-- The value of a member access. -/
def memberValue (ev : Evaluator) (computed : Bool) (n : Node) (scopes : ScopeChain) :
    Run Value := do
  let object ← ev.expression (← part n .object) scopes
  getProperty object (← memberKey ev computed n scopes)

/-- The present value of what is assigned to. -/
def readTarget (ev : Evaluator) (target : Node) (scopes : ScopeChain) : Run Value :=
  match target.form with
  | .identifier name => lookup scopes name
  | .member computed => memberValue ev computed target scopes
  | f => fail (.target f.kind)

/-- Assigns a value. -/
def writeTarget (ev : Evaluator) (target : Node) (v : Value) (scopes : ScopeChain) : Run Unit := do
  match target.form with
  | .identifier name => assign scopes name v
  | .member computed =>
    let object ← ev.expression (← part target .object) scopes
    putProperty object (← memberKey ev computed target scopes) v
  | f => fail (.target f.kind)

/-- Deletes a member of an object; anything else counts as deleted. -/
def deleteTarget (ev : Evaluator) (target : Node) (scopes : ScopeChain) : Run Value := do
  match target.form with
  | .member computed =>
    let object ← ev.expression (← part target .object) scopes
    match object with
    | .object r => deleteOwn r (← memberKey ev computed target scopes)
    | _ => pure ()
    return .bool true
  | _ => return .bool true

/-! ## Operators -/

/-- The kind of a value that the operator `typeof` gives; a name that nothing declares has one too. -/
def typeofValue (ev : Evaluator) (argument : Node) (scopes : ScopeChain) : Run Value := do
  match argument.name? with
  | some name =>
    if ← isBound scopes name then
      let v ← ev.expression argument scopes
      return .string (typeOf (← get).heap v)
    else return .string "undefined"
  | none =>
    let v ← ev.expression argument scopes
    return .string (typeOf (← get).heap v)

/-- The bits of a value turned around. -/
def complementOf (v : Value) : Run Value := do
  let word ← reading fun h => toInt32 h v
  return .number (ofInteger (wrapped (-word - 1)))

/-- An operator in front of an operand. -/
def unaryValue (ev : Evaluator) (op : UnaryOp) (argument : Node) (scopes : ScopeChain) :
    Run Value := do
  match op with
  | .typeof => typeofValue ev argument scopes
  | .delete => deleteTarget ev argument scopes
  | _ =>
    let v ← ev.expression argument scopes
    match op with
    | .minus => return .number (-(← numberOf v))
    | .plus => return .number (← numberOf v)
    | .not => return .bool (!toBoolean v)
    | .complement => complementOf v
    | .void => return .undefined
    | _ => fail (.unaryOperator op.symbol)

/-- An increment or a decrement. -/
def updateValue (ev : Evaluator) (op : UpdateOp) (before : Bool) (target : Node)
    (scopes : ScopeChain) : Run Value := do
  let old ← numberOf (← readTarget ev target scopes)
  let new := match op with
    | .increment => old + 1.0
    | .decrement => old - 1.0
  writeTarget ev target (.number new) scopes
  return .number (if before then new else old)

/-- Whether a logical operator leaves its right operand alone. -/
def keepsLeft (op : LogicalOp) (l : Value) : Option Bool :=
  match op with
  | .and => some (!toBoolean l)
  | .or => some (toBoolean l)
  | .nullish => some (!l.isNullish)
  | .other _ => none

/-- A logical operation. -/
def logicalValue (ev : Evaluator) (op : LogicalOp) (n : Node) (scopes : ScopeChain) :
    Run Value := do
  let l ← ev.expression (← part n .left) scopes
  match keepsLeft op l with
  | some true => return l
  | some false => ev.expression (← part n .right) scopes
  | none => fail (.logicalOperator op.symbol)

/-- An assignment. -/
def assignmentValue (ev : Evaluator) (op : AssignOp) (n : Node) (scopes : ScopeChain) :
    Run Value := do
  let target ← part n .left
  let right ← part n .right
  match op with
  | .plain =>
    let v ← ev.expression right scopes
    writeTarget ev target v scopes
    return v
  | .logical op =>
    let current ← readTarget ev target scopes
    if (keepsLeft op current).getD true then return current
    else
      let v ← ev.expression right scopes
      writeTarget ev target v scopes
      return v
  | .compound op =>
    let current ← readTarget ev target scopes
    let r ← ev.expression right scopes
    let v ← binaryOperation op current r
    writeTarget ev target v scopes
    return v

/-! ## Calls -/

/-- Complains of a value that is called and is no function. -/
def notCallable {α : Type} (f : Value) : Run α := do
  raise "TypeError" (Text.of (typeOf (← get).heap f) ++ " is not a function")

/-- A call: receiver, function, arguments, in this order. -/
def callValue (ev : Evaluator) (n : Node) (scopes : ScopeChain) : Run Value := do
  let callee ← part n .callee
  let (this, f) ← match callee.form with
    | .member computed => do
      let this ← ev.expression (← part callee .object) scopes
      let f ← getProperty this (← memberKey ev computed callee scopes)
      pure (this, f)
    | _ => do
      let f ← ev.expression callee scopes
      pure (.undefined, f)
  let args ← evaluateList ev scopes (n.childrenAt .arguments)
  if (← get).heap.isCallable f then ev.call f this args else notCallable f

/-- Binds the parameters of a function to arguments from a place on. -/
def bindParameters (ev : Evaluator) (f : FrameId) (scopes : ScopeChain) (args : List Value) :
    List Node → Nat → Run Unit
  | [], _ => return
  | p :: rest, i => do
    let v := arg args i
    match p.form with
    | .identifier name => declare f name v
    | .assignmentPattern =>
      match (← part p .left).name? with
      | some name =>
        let v ← if v.isUndefined then ev.expression (← part p .right) scopes else pure v
        declare f name v
      | none => fail (.parameter p.kind)
    | .rest =>
      match (← part p .argument).name? with
      | some name => declare f name (← newArray (args.drop i).toArray)
      | none => fail (.parameter p.kind)
    | _ => fail (.parameter p.kind)
    bindParameters ev f scopes args rest (i + 1)

/-- Declares the functions among some statements before any of them runs. -/
def hoist (scopes : ScopeChain) : List Node → Run Unit
  | [] => return
  | s :: rest => do
    match s.form with
    | .functionDeclaration _ =>
      let name ← partName s .id
      declare (← varScope scopes) name (← makeFunction s scopes)
    | _ => pure ()
    hoist scopes rest

/-- Runs statements one after the other. -/
def runAll (ev : Evaluator) (scopes : ScopeChain) : List Node → Run Unit
  | [] => return
  | s :: rest => do
    ev.statement s scopes
    runAll ev scopes rest

/-- Runs the body of a function and takes what it returns. -/
def runBody (ev : Evaluator) (body : Node) (scopes : ScopeChain) : Run Value := do
  match body.form with
  | .blockStatement =>
    hoist scopes (body.childrenAt .body)
    tryCatch (do
      runAll ev scopes (body.childrenAt .body)
      return .undefined) fun e =>
        match e with
        | .returned v => return v
        | e => throw e
  | _ => ev.expression body scopes

/-- The present code of a function. -/
def currentCode (code : Node) : Run Node :=
  return ((← get).trees.findSome? (Node.findId code.id)).getD code

/-- Whether a function takes its receiver from around it. -/
def isArrow (code : Node) : Bool :=
  match code.form with
  | .arrowFunction _ => true
  | _ => false

/-- Whether a function knows itself by its name. -/
def knowsItself (code : Node) : Bool :=
  match code.form with
  | .functionExpression _ => true
  | _ => false

/-- Calls a function of the running code. -/
def callClosure (ev : Evaluator) (f : Value) (code : Node) (scopes : ScopeChain) (name : Text)
    (this : Value) (args : List Value) : Run Value := do
  let m ← get
  if m.depth ≥ m.maxDepth then throw (.limit (.depth m.maxDepth))
  let code ← currentCode code
  let frame ← newFrame true false
  let inner := frame :: scopes
  if !isArrow code then
    declare frame "this" this
    declare frame "arguments" (← newArray args.toArray)
    if knowsItself code && !name.isEmpty then declare frame name f
  bindParameters ev frame inner args (code.childrenAt .params) 0
  let body ← part code .body
  modify fun m => { m with depth := m.depth + 1 }
  thenAlways (runBody ev body inner) (modify fun m => { m with depth := m.depth - 1 })

/-- Calls a value. -/
def callFunction (ev : Evaluator) (f this : Value) (args : List Value) : Run Value := do
  match f with
  | .object r =>
    match (← cell r).body with
    | .native fn => applyNative ev.call fn this args
    | .closure code scopes name => callClosure ev f code scopes name this args
    | _ => notCallable f
  | _ => notCallable f

/-! ## Expressions -/

/-- The last of some values. -/
def sequenceValue (ev : Evaluator) (scopes : ScopeChain) : List Node → Value → Run Value
  | [], v => return v
  | e :: rest, _ => do sequenceValue ev scopes rest (← ev.expression e scopes)

/-- The receiver of the function around. -/
def thisValue (scopes : ScopeChain) : Run Value := do
  let m ← get
  match m.findScope "this" scopes with
  | some f => return m.variable f "this"
  | none => return .undefined

/-- Evaluates an expression. -/
def evaluateExpression (ev : Evaluator) (n : Node) (scopes : ScopeChain) : Run Value := do
  tick
  match n.form with
  | .literal value => literalValue value
  | .identifier name => lookup scopes name
  | .thisExpression => thisValue scopes
  | .arrayExpression =>
    newArray (← evaluateList ev scopes (n.childrenAt .elements)).toArray
  | .objectExpression => newObject (← putProperties ev scopes (n.childrenAt .properties) .empty)
  | .functionExpression flags | .arrowFunction flags => functionValue n flags scopes
  | .unary op => unaryValue ev op (← part n .argument) scopes
  | .update op before => updateValue ev op before (← part n .argument) scopes
  | .binary op =>
    let l ← ev.expression (← part n .left) scopes
    let r ← ev.expression (← part n .right) scopes
    binaryOperation op l r
  | .logical op => logicalValue ev op n scopes
  | .conditional =>
    if toBoolean (← ev.expression (← part n .test) scopes) then
      ev.expression (← part n .consequent) scopes
    else ev.expression (← part n .alternate) scopes
  | .assignment op => assignmentValue ev op n scopes
  | .sequence => sequenceValue ev scopes (n.childrenAt .expressions) .undefined
  | .member computed => memberValue ev computed n scopes
  | .call => callValue ev n scopes
  | .template =>
    return .string (← templateValue ev scopes (n.childrenAt .quasis) (n.childrenAt .expressions) [])
  | .incomplete _ => throw (.fault .missingList)
  | f => fail (.kind f.kind)

/-! ## Statements -/

/-- Declares a variable of a declaration in a scope. -/
def declareVariable (ev : Evaluator) (d : Node) (scopes : ScopeChain) (target : FrameId) :
    Run Unit := do
  match (← part d .id).name? with
  | none => fail .destructuring
  | some name =>
    match d.child? .init with
    | some init => declare target name (← ev.expression init scopes)
    | none =>
      if !((← get).frame target).bindings.contains name then declare target name .undefined

/-- Declares variables one after the other. -/
def declareAll (ev : Evaluator) (scopes : ScopeChain) (target : FrameId) : List Node → Run Unit
  | [] => return
  | d :: rest => do
    declareVariable ev d scopes target
    declareAll ev scopes target rest

/-- A block. -/
def runBlock (ev : Evaluator) (statements : List Node) (scopes : ScopeChain) : Run Unit := do
  let inner ← blockScope scopes
  hoist inner statements
  runAll ev inner statements

/-- One round of a loop; says whether the loop goes on. -/
def runRound (ev : Evaluator) (body : Node) (scopes : ScopeChain) : Run Bool :=
  tryCatch (do
    ev.statement body scopes
    return true) fun e =>
      match e with
      | .broken => return false
      | .continued => return true
      | e => throw e

/-- Repeats a round until it says that the loop ends.  Every round takes a step, so that the steps that
are left bound the number of rounds. -/
def rounds (round : Run Bool) : Nat → Run Unit
  | 0 => return
  | fuel + 1 => do
    if ← round then rounds round fuel

/-- Repeats a round as long as it says so. -/
def repeatRounds (round : Run Bool) : Run Unit := do
  let m ← get
  rounds round (m.maxSteps + 2 - m.steps)

/-- The truth of a test that may be missing. -/
def testHolds (ev : Evaluator) (test : Option Node) (scopes : ScopeChain) : Run Bool := do
  match test with
  | some t => return toBoolean (← ev.expression t scopes)
  | none => return true

/-- The first part of a `for` loop. -/
def runInit (ev : Evaluator) (init : Option Node) (scopes : ScopeChain) : Run Unit := do
  match init with
  | none => return
  | some n =>
    match n.form with
    | .variableDeclaration _ => ev.statement n scopes
    | _ => let _ ← ev.expression n scopes

/-- A `for` loop. -/
def runFor (ev : Evaluator) (n : Node) (scopes : ScopeChain) : Run Unit := do
  let inner ← blockScope scopes
  runInit ev (n.child? .init) inner
  let body ← part n .body
  repeatRounds do
    if !(← testHolds ev (n.child? .test) inner) then return false
    if !(← runRound ev body inner) then return false
    match n.child? .update with
    | some u => let _ ← ev.expression u inner
    | none => pure ()
    return true

/-- A `while` loop. -/
def runWhile (ev : Evaluator) (n : Node) (scopes : ScopeChain) : Run Unit := do
  let test ← part n .test
  let body ← part n .body
  repeatRounds do
    if toBoolean (← ev.expression test scopes) then runRound ev body scopes else return false

/-- A `do` loop. -/
def runDoWhile (ev : Evaluator) (n : Node) (scopes : ScopeChain) : Run Unit := do
  let test ← part n .test
  let body ← part n .body
  repeatRounds do
    if ← runRound ev body scopes then return toBoolean (← ev.expression test scopes)
    else return false

/-- The cases of a `switch` statement from the one that is taken on. -/
def matchingCases (ev : Evaluator) (v : Value) (scopes : ScopeChain) :
    List Node → Run (Option (List Node))
  | [] => return none
  | c :: rest => do
    match c.child? .test with
    | some t =>
      if strictEquals v (← ev.expression t scopes) then return some (c :: rest)
      else matchingCases ev v scopes rest
    | none => matchingCases ev v scopes rest

/-- The cases from the default on. -/
def defaultCases (cases : List Node) : List Node :=
  cases.dropWhile fun c => (c.child? .test).isSome

/-- A `switch` statement. -/
def runSwitch (ev : Evaluator) (n : Node) (scopes : ScopeChain) : Run Unit := do
  let v ← ev.expression (← part n .discriminant) scopes
  let cases := n.childrenAt .cases
  let taken := (← matchingCases ev v scopes cases).getD (defaultCases cases)
  if taken.isEmpty then return
  let inner ← blockScope scopes
  tryCatch (runAll ev inner (taken.flatMap fun c => c.childrenAt .consequent)) fun e =>
    match e with
    | .broken => return
    | e => throw e

/-- The handler of a `try` statement. -/
def runHandler (ev : Evaluator) (handler : Node) (v : Value) (scopes : ScopeChain) : Run Unit := do
  let inner ← blockScope scopes
  match inner, handler.child? .param with
  | f :: _, some p =>
    match p.name? with
    | some name => declare f name v
    | none => fail .catchPattern
  | _, _ => pure ()
  ev.statement (← part handler .body) inner

/-- A `try` statement. -/
def runTry (ev : Evaluator) (n : Node) (scopes : ScopeChain) : Run Unit := do
  let block ← part n .block
  let guarded : Run Unit := tryCatch (ev.statement block scopes) fun e =>
    match e, n.child? .handler with
    | .thrown v, some handler => runHandler ev handler v scopes
    | e, _ => throw e
  match n.child? .finalizer with
  | some f => thenAlways guarded (ev.statement f scopes)
  | none => guarded

/-- A jump without a label. -/
def runJump (n : Node) (labelled : Failure) (jump : Abrupt) : Run Unit :=
  if (n.child? .label).isSome then fail labelled else throw jump

/-- Executes a statement. -/
def executeStatement (ev : Evaluator) (n : Node) (scopes : ScopeChain) : Run Unit := do
  tick
  match n.form with
  | .expressionStatement _ => let _ ← ev.expression (← part n .expression) scopes
  | .variableDeclaration kind =>
    let target ← if kind == .var then varScope scopes
      else match scopes with
        | f :: _ => pure f
        | [] => pure (← get).global
    declareAll ev scopes target (n.childrenAt .declarations)
  | .functionDeclaration _ =>
    declare (← varScope scopes) (← partName n .id) (← makeFunction n scopes)
  | .blockStatement => runBlock ev (n.childrenAt .body) scopes
  | .emptyStatement => return
  | .ifStatement =>
    if toBoolean (← ev.expression (← part n .test) scopes) then
      ev.statement (← part n .consequent) scopes
    else
      match n.child? .alternate with
      | some a => ev.statement a scopes
      | none => return
  | .returnStatement =>
    let v ← match n.child? .argument with
      | some a => ev.expression a scopes
      | none => pure .undefined
    throw (.returned v)
  | .forStatement => runFor ev n scopes
  | .whileStatement => runWhile ev n scopes
  | .doWhileStatement => runDoWhile ev n scopes
  | .breakStatement => runJump n .labelledBreak .broken
  | .continueStatement => runJump n .labelledContinue .continued
  | .switchStatement => runSwitch ev n scopes
  | .throwStatement => throw (.thrown (← ev.expression (← part n .argument) scopes))
  | .tryStatement => runTry ev n scopes
  | .incomplete _ => throw (.fault .missingList)
  | f => fail (.kind f.kind)

end Run

/-- The meaning of code whose constructs are nested to a depth at most. -/
def evaluator : Nat → Evaluator
  | 0 =>
    { expression := fun _ _ => throw (.limit .nesting)
      statement := fun _ _ => throw (.limit .nesting)
      call := fun _ _ _ => throw (.limit .nesting) }
  | depth + 1 =>
    { expression := fun n scopes m => Run.evaluateExpression (evaluator depth) n scopes m
      statement := fun n scopes m => Run.executeStatement (evaluator depth) n scopes m
      call := fun f this args m => Run.callFunction (evaluator depth) f this args m }

end Untangle.Sandbox
