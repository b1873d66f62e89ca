import Untangle.Source.Grammar.Function
import Untangle.Source.Regex

set_option autoImplicit false

/-!
# Expressions

From literals to assignments, level by level.  Every level reads the level below it and the operators
of its own; arrow functions are found after their parameters have been read as an expression.
-/

namespace Untangle.Source.Parse

/-! ## Literals -/

/-- Reads a spread element. -/
def spreadElement (g : Grammar) : Parse Node := do
  expect "..."
  return .spread (← inherited g.assignment)

/-- Reads one element of an array literal. -/
def arrayElement (g : Grammar) : Parse Node := do
  if ← sees "," then
    let _ ← advance
    return .leaf .hole
  if ← sees "..." then
    let e ← spreadElement g
    if !(← sees "]") then
      noTarget
      expect ","
    return e
  let e ← inherited g.assignment
  if !(← sees "]") then expect ","
  return e

/-- Reads an array literal. -/
def arrayLiteral (g : Grammar) : Parse Node := do
  expect "["
  return .array (← collectUntil "]" (arrayElement g))

/-- Whether a name in an object literal is the word before an asynchronous method. -/
def isAsyncWord (name : Text) : Parse Bool := do
  return name == Text.of "async" && !(← get).newline && !(← seesAny [":", "(", "*", ","])

/-- Reads what follows the key of a plain property, and says whether the property sets the prototype;
`first` is the token the property starts with. -/
def propertyRest (g : Grammar) (first : Token) (k : Node) (computed isAsync hasProto : Bool) :
    Parse (Node × Bool) := do
  if !isAsync && (← sees ":") then
    let isProto := !computed && isKey k "__proto__"
    if isProto && hasProto then failHere .duplicateProto
    let _ ← advance
    let value ← inherited g.assignment
    return (.property .plain k computed value false false, hasProto || isProto)
  if ← sees "(" then
    let value ← if isAsync then asyncMethod g else method g
    return (.property .plain k computed value true false, hasProto)
  match first.lexeme with
  | .name w =>
    if ← sees "=" then
      let eq := (← get).ahead
      inform fun c => { c with coverInitializer := some eq }
      let _ ← advance
      let value ← isolated g.assignment
      return (.property .plain k computed (.withDefault (.ident w) value) false true, hasProto)
    return (.property .plain k computed (.ident w) false true, hasProto)
  | _ => unexpected (← advance)

/-- Reads a property of an object literal; `hasProto` says whether the prototype was set before. -/
def objectProperty (g : Grammar) (hasProto : Bool) : Parse (Node × Bool) := do
  let first := (← get).ahead
  let (k, computed, isAsync) ← match first.lexeme with
    | .name w => do
      let _ ← advance
      let computed ← sees "["
      let isAsync ← isAsyncWord w
      let k ← if isAsync then key g else pure (.ident w)
      pure (some k, computed, isAsync)
    | .sign "*" => do
      let _ ← advance
      pure (none, false, false)
    | _ => do
      let computed ← sees "["
      let k ← key g
      pure (some k, computed, false)
  let keyed := (← ahead).startsKey
  let starts (word : String) : Bool :=
    keyed && !isAsync && first.lexeme.isName && first.lexeme.spelling == Text.of word
  if starts "get" then
    let (k, computed, v) ← getterWithKey g
    return (.property .getter k computed v false false, hasProto)
  if starts "set" then
    let (k, computed, v) ← setterWithKey g
    return (.property .setter k computed v false false, hasProto)
  match k with
  | none =>
    if keyed then
      let (k, computed, v) ← generatorWithKey g
      return (.property .plain k computed v true false, hasProto)
    unexpected (← get).ahead
  | some k => propertyRest g first k computed isAsync hasProto

/-- Reads an object literal. -/
def objectLiteral (g : Grammar) : Parse Node := do
  expect "\x7b"
  let (properties, _) ← loop (fun (acc : List Node × Bool) => do
    if ← sees "\x7d" then return (false, acc)
    let (p, hasProto) ← if ← sees "..." then do pure (← spreadElement g, acc.2)
      else objectProperty g acc.2
    if !(← sees "\x7d") then expect ","
    return (true, p :: acc.1, hasProto)) ([], false)
  expect "\x7d"
  return .object properties.reverse

/-- Reads a piece of a template, and says whether it is the last. -/
def templatePiece : Parse (Node × Bool) := do
  match ← ahead with
  | .template raw cooked _ tail =>
    let _ ← advance
    return (.leaf (.templateElement raw (some cooked) tail), tail)
  | _ => fail .illegalCharacter

/-- Reads a template. -/
def templateLiteral (g : Grammar) : Parse Node := do
  let (first, tail) ← templatePiece
  let (quasis, expressions, _) ← loop (fun (acc : List Node × List Node × Bool) => do
    if acc.2.2 then return (false, acc)
    let e ← expression g
    let (q, tail) ← templatePiece
    return (true, q :: acc.1, e :: acc.2.1, tail)) ([first], [], tail)
  return .template quasis.reverse expressions.reverse

/-- Reads a regular expression, whose first slash is the token ahead. -/
def regexLiteral : Parse Node := do
  noTarget
  modify fun s => { s with cursor := s.aheadAt.withBraces s.cursor.braces }
  let (body, flags) ← lex Lex.regexLiteral
  if !Regex.isValid body then
    let s ← get
    throw (s.cursor.fault .invalidRegex)
  let _ ← advance
  return .literal (.regex body flags)

/-! ## Groups -/

/-- Takes the arrow that has to follow, without taking it. -/
def needArrow : Parse Unit := do
  if !(← sees "=>") then expect "=>"

/-- How a list of expressions in parentheses went on. -/
inductive Group where
  | expressions (es : List Node)
  | parameters (ps : List Node)

/-- Reads the expressions after the first one in parentheses; a rest element or a comma before the
closing parenthesis makes parameters of them. -/
def groupRest (g : Grammar) (first : Node) : Parse Group := do
  let (es, done) ← loop (fun (acc : List Node × Bool) => do
    if (← seesEnd) || !(← sees ",") then return (false, acc)
    let _ ← advance
    if ← sees ")" then
      let _ ← advance
      return (false, acc.1, true)
    if ← sees "..." then
      if !(← context).isBindingElement then unexpected (← get).ahead
      let (r, _) ← restParameter g
      expect ")"
      needArrow
      inform fun c => { c with isBindingElement := false }
      return (false, r :: acc.1, true)
    let e ← inherited g.assignment
    return (true, e :: acc.1, false)) ([first], false)
  return if done then .parameters es.reverse else .expressions es.reverse

/-- Closes a group that is an expression so far; an arrow after it makes parameters of it. -/
def closeGroup (es : List Node) (whole : Node) : Parse Node := do
  expect ")"
  let result ← if ← sees "=>" then
      if whole.name? == some (Text.of "yield") then pure (.arrowHead false [whole])
      else do
        if !(← context).isBindingElement then unexpected (← get).ahead
        pure (.arrowHead false (es.map Node.asPattern))
    else pure whole
  inform fun c => { c with isBindingElement := false }
  return result

/-- Reads what stands in parentheses: an expression, or parameters before an arrow. -/
def group (g : Grammar) : Parse Node := do
  expect "("
  if ← sees ")" then
    let _ ← advance
    needArrow
    return .arrowHead false []
  if ← sees "..." then
    let (r, _) ← restParameter g
    expect ")"
    needArrow
    return .arrowHead false [r]
  inform fun c => { c with isBindingElement := true }
  let first ← inherited g.assignment
  if ← sees "," then
    inform fun c => { c with isAssignmentTarget := false }
    match ← groupRest g first with
    | .parameters ps => return .arrowHead false (ps.map Node.asPattern)
    | .expressions es => closeGroup es (.sequence es)
  else
    match first.form with
    | .sequence => closeGroup (first.childrenAt .expressions) first
    | _ => closeGroup [first] first

/-! ## Primary expressions -/

/-- Whether an import stands here that is called. -/
def seesImportCall : Parse Bool := do
  if !(← seesKeyword "import") then return false
  let t ← probe
  match t.lexeme with
  | .sign "(" => return true
  | _ => return false

/-- Reads an expression that starts with a keyword. -/
def keywordExpression (g : Grammar) (word : String) : Parse Node := do
  let c ← context
  if !c.strict && c.allowYield && word == "yield" then return ← anyName
  if !c.strict && word == "let" then
    let _ ← advance
    return .ident "let"
  noTarget
  if word == "function" then functionExpression g
  else if word == "this" then
    let _ ← advance
    return .leaf .thisExpression
  else if word == "class" then classExpression g
  else if ← seesImportCall then
    let _ ← advance
    return .leaf (.unknown "Import")
  else unexpected (← advance)

/-- Takes a literal. -/
def takeLiteral (value : Literal) : Parse Node := do
  noTarget
  let _ ← advance
  return .literal value

/-- Takes a literal number or string; strict code refuses octal forms. -/
def takeOctalLiteral (value : Literal) : Parse Node := do
  let t := (← get).ahead
  if (← isStrict) && t.lexeme.isOctal then blameToken t .strictOctal
  takeLiteral value

/-- Reads an expression without operators. -/
def primary (g : Grammar) : Parse Node := do
  match ← ahead with
  | .name w =>
    if (← context).awaits && w == Text.of "await" then unexpected (← get).ahead
    if ← seesAsyncFunction then functionExpression g
    else
      let _ ← advance
      return .ident w
  | .number v _ => takeOctalLiteral (.number v)
  | .string v _ _ => takeOctalLiteral (.string v)
  | .boolean b => takeLiteral (.bool b)
  | .null => takeLiteral .null
  | .template _ _ true _ => templateLiteral g
  | .template _ _ false _ => fail .templateMiddle
  | .sign "(" =>
    inform fun c => { c with isBindingElement := false }
    inherited (group g)
  | .sign "[" => inherited (arrayLiteral g)
  | .sign "\x7b" => inherited (objectLiteral g)
  | .sign "/" => regexLiteral
  | .sign "/=" => regexLiteral
  | .keyword w => keywordExpression g w
  | _ => unexpected (← advance)

/-! ## Calls and members -/

/-- Reads arguments in parentheses, each of them by the given reader. -/
def argumentsWith (g : Grammar) (argument : Parse Node) : Parse (List Node) := do
  expect "("
  let args ← if ← sees ")" then pure [] else
    loop (fun (acc : List Node) => do
      let a ← if ← sees "..." then spreadElement g else isolated argument
      if ← sees ")" then return (false, a :: acc)
      expect ","
      return (!(← sees ")"), a :: acc)) []
  expect ")"
  return args.reverse

/-- Reads the arguments of a call. -/
def arguments (g : Grammar) : Parse (List Node) := argumentsWith g g.assignment

/-- Reads the arguments of a call that may turn out to be the parameters of an asynchronous arrow
function. -/
def asyncArguments (g : Grammar) : Parse (List Node) :=
  argumentsWith g do
    let a ← g.assignment
    inform fun c => { c with coverInitializer := none }
    return a

/-- Reads an expression that starts with `new`. -/
def newExpression (g : Grammar) : Parse Node := do
  let word ← anyName
  if ← sees "." then
    let _ ← advance
    if (← seesName "target") && (← context).inFunctionBody then
      return .metaProperty word (← anyName)
    unexpected (← get).ahead
  if ← seesKeyword "import" then unexpected (← get).ahead
  let callee ← isolated g.callee
  let args ← if ← sees "(" then arguments g else pure []
  noTarget
  return .construct callee args

/-- Reads a member access or a tagged template after an expression, if one stands there. -/
def memberStep (g : Grammar) (e : Node) : Parse (Option Node) := do
  if ← sees "." then
    plainTarget
    expect "."
    return some (.member false e (← anyName))
  if ← sees "[" then
    plainTarget
    expect "["
    let k ← isolated (expression g)
    expect "]"
    return some (.member true e k)
  match ← ahead with
  | .template _ _ true _ => return some (.taggedTemplate e (← templateLiteral g))
  | _ => return none

/-- Reads `super`, which only a member access, or a call where `calls` allows it, may follow. -/
def superExpression (calls : Bool) : Parse Node := do
  expectKeyword "super"
  if !(← seesAny (if calls then ["(", ".", "["] else [".", "["])) then unexpected (← get).ahead
  return .leaf .superWord

/-- Whether `super` stands where a method allows it. -/
def seesSuper : Parse Bool := do
  return (← seesKeyword "super") && (← context).inFunctionBody

/-- Reads what calls and member accesses start from. -/
def operandStart (g : Grammar) (calls : Bool) : Parse Node := do
  if ← seesSuper then superExpression calls
  else if ← seesKeyword "new" then inherited (newExpression g)
  else inherited (primary g)

/-- Whether an expression is the callee of an import call. -/
def isImport (e : Node) : Bool :=
  match e.form with
  | .unknown k => k == "Import"
  | _ => false

/-- Reads a call after an expression.  After the word `async` on the same line its arguments may be
the parameters of an arrow function. -/
def callStep (g : Grammar) (first : Token) (maybeAsync : Bool) (e : Node) : Parse Node := do
  let asyncArrow := maybeAsync && first.line == (← get).ahead.line
  noTarget
  let args ← if asyncArrow then asyncArguments g else arguments g
  if isImport e && args.length != 1 then failHere .bareToken
  if asyncArrow && (← sees "=>") then return .arrowHead true (args.map Node.asPattern)
  return .call e args

/-- Reads an expression with calls and member accesses. -/
def callExpression (g : Grammar) : Parse Node := do
  let first := (← get).ahead
  let maybeAsync ← seesName "async"
  withIn true do
    let start ← operandStart g true
    loop (fun (e : Node) => do
      if ← sees "(" then return (true, ← callStep g first maybeAsync e)
      match ← memberStep g e with
      | some e => return (true, e)
      | none => return (false, e)) start

/-- Reads an expression with member accesses but without calls, as it follows `new`. -/
def calleeExpression (g : Grammar) : Parse Node := do
  let start ← operandStart g false
  loop (fun (e : Node) => do
    match ← memberStep g e with
    | some e => return (true, e)
    | none => return (false, e)) start

/-! ## Operators -/

/-- The update operator of a sign. -/
def updateOp? : Lexeme → Option UpdateOp
  | .sign "++" => some .increment
  | .sign "--" => some .decrement
  | _ => none

/-- Refuses an operand that cannot be updated. -/
def checkUpdated (e : Node) (complaint : Complaint) : Parse Unit := do
  let c ← context
  if c.strict && (e.name?.map isRestrictedName).getD false then failHere complaint
  if !c.isAssignmentTarget then failHere .invalidTarget

/-- Reads an increment or a decrement, or what it may be applied to. -/
def updateExpression (g : Grammar) : Parse Node := do
  if let some op := updateOp? (← ahead) then
    let _ ← advance
    let e ← inherited g.unary
    checkUpdated e .strictPrefixed
    noTarget
    return .update op true e
  let e ← inherited (callExpression g)
  if (← get).newline then return e
  match updateOp? (← ahead) with
  | some op =>
    checkUpdated e .strictPostfix
    noTarget
    let _ ← advance
    return .update op false e
  | none => return e

/-- The operator in front of an operand. -/
def unaryOp? : Lexeme → Option UnaryOp
  | .sign "+" => some .plus
  | .sign "-" => some .minus
  | .sign "~" => some .complement
  | .sign "!" => some .not
  | .keyword "delete" => some .delete
  | .keyword "void" => some .void
  | .keyword "typeof" => some .typeof
  | _ => none

/-- Reads an expression with operators in front. -/
def unaryExpression (g : Grammar) : Parse Node := do
  match unaryOp? (← ahead) with
  | some op =>
    let _ ← advance
    let e ← inherited g.unary
    if (← isStrict) && op == .delete && e.name?.isSome then failHere .strictDelete
    noTarget
    return .unary op e
  | none =>
    if (← context).awaits && (← seesName "await") then
      let _ ← advance
      return .awaitExpression (← g.unary)
    updateExpression g

/-- Whether an expression starts with an operator in front. -/
def isUnary (e : Node) : Bool :=
  match e.form with
  | .unary _ => true
  | _ => false

/-- Reads an exponentiation. -/
def exponentExpression (g : Grammar) : Parse Node := do
  let e ← inherited (unaryExpression g)
  if !isUnary e && (← sees "**") then
    let _ ← advance
    noTarget
    return .binary .pow e (← isolated g.exponent)
  return e

/-- An operator between two operands: it combines them or chooses between them. -/
inductive Operator where
  | binary (op : BinaryOp)
  | logical (op : LogicalOp)

/-- The operator with its operands. -/
def Operator.apply : Operator → Node → Node → Node
  | .binary op, l, r => .binary op l r
  | .logical op, l, r => .logical op l r

/-- The operators between two operands with their strength. -/
def operators : List (String × Nat × Operator) :=
  [("||", 1, .logical .or), ("&&", 2, .logical .and), ("|", 3, .binary .bitOr),
   ("^", 4, .binary .bitXor), ("&", 5, .binary .bitAnd), ("==", 6, .binary .equal),
   ("!=", 6, .binary .notEqual), ("===", 6, .binary .same), ("!==", 6, .binary .notSame),
   ("<", 7, .binary .less), (">", 7, .binary .greater), ("<=", 7, .binary .lessEq),
   (">=", 7, .binary .greaterEq), ("<<", 8, .binary .shiftLeft), (">>", 8, .binary .shiftRight),
   (">>>", 8, .binary .shiftRightZero), ("+", 9, .binary .add), ("-", 9, .binary .sub),
   ("*", 11, .binary .mul), ("/", 11, .binary .div), ("%", 11, .binary .mod)]

/-- The operator ahead with its strength. -/
def operator? (allowIn : Bool) : Lexeme → Option (Nat × Operator)
  | .sign s => (operators.find? fun e => e.1 == s).map (·.2)
  | .keyword "instanceof" => some (7, .binary .instanceOf)
  | .keyword "in" => if allowIn then some (7, .binary .member) else none
  | _ => none

/-- Operands that wait for a weaker operator, the last first. -/
abbrev Pending := List (Node × Nat × Operator)

/-- Combines the last operand with those before it whose operator is at least as strong. -/
def reduce (strength : Nat) : Pending → Node → Pending × Node
  | (l, s, op) :: rest, r => if strength ≤ s then reduce strength rest (op.apply l r)
    else ((l, s, op) :: rest, r)
  | [], r => ([], r)

/-- Reads a chain of operators and operands by the strength of the operators. -/
def binaryExpression (g : Grammar) : Parse Node := do
  let first ← inherited (exponentExpression g)
  let (pending, last) ← loop (fun (acc : Pending × Node) => do
    match operator? (← context).allowIn (← ahead) with
    | some (strength, op) =>
      let (pending, l) := reduce strength acc.1 acc.2
      let _ ← advance
      noTarget
      let r ← isolated (exponentExpression g)
      return (true, (l, strength, op) :: pending, r)
    | none => return (false, acc)) ([], first)
  return (reduce 0 pending last).2

/-- Reads a choice. -/
def conditionalExpression (g : Grammar) : Parse Node := do
  let test ← inherited (binaryExpression g)
  if !(← sees "?") then return test
  let _ ← advance
  let consequent ← withIn true (isolated g.assignment)
  expect ":"
  let alternate ← isolated g.assignment
  noTarget
  return .conditional test consequent alternate

/-! ## Assignments -/

/-- Whether an operand can start at the token ahead, after `yield`. -/
def seesOperand : Parse Bool := do
  match ← ahead with
  | .sign s => return ["[", "(", "\x7b", "+", "-", "!", "~", "++", "--", "/", "/="].contains s
  | .keyword w =>
    return ["class", "delete", "function", "let", "new", "super", "this", "typeof", "void",
      "yield"].contains w
  | _ => return true

/-- Reads a `yield`. -/
def yieldExpression (g : Grammar) : Parse Node := do
  expectKeyword "yield"
  if (← get).newline then return .yieldExpression false none
  withYield false do
    if ← sees "*" then
      let _ ← advance
      return .yieldExpression true (some (← g.assignment))
    if ← seesOperand then return .yieldExpression false (some (← g.assignment))
    return .yieldExpression false none

/-- Reads the body of an arrow function. -/
def arrowBody (g : Grammar) : Parse Node := do
  expect "=>"
  if ← sees "\x7b" then withIn true (functionBody g) else isolated g.assignment

/-- Whether a node is a block. -/
def isBlock (n : Node) : Bool :=
  match n.form with
  | .blockStatement => true
  | _ => false

/-- Reads an arrow function from its arrow on. -/
def arrowRest (g : Grammar) (ps : Parameters) (isAsync : Bool) : Parse Node := do
  if (← get).newline then unexpected (← get).ahead
  inform fun c => { c with coverInitializer := none }
  let body ← inFunction isAsync false (bodyOf ps.check ps.check.complaint (arrowBody g))
  return .arrowFunction ⟨false, isAsync, !isBlock body⟩ ps.nodes body

/-- The assignment operator of a sign. -/
def assignOp? : Lexeme → Option AssignOp
  | .sign s =>
    if ["=", "*=", "**=", "/=", "%=", "+=", "-=", "<<=", ">>=", ">>>=", "&=", "^=", "|="].contains s
    then some (AssignOp.ofSymbol s)
    else none
  | _ => none

/-- Reads an assignment to an expression from the operator on; `first` is the token the expression
starts with. -/
def assignmentRest (g : Grammar) (first : Token) (target : Node) (op : AssignOp) :
    Parse Node := do
  let c ← context
  if !c.isAssignmentTarget then failHere .invalidTarget
  if c.strict then
    if let some name := target.name? then
      if isRestrictedName name then blameToken first .strictAssignment
      if isStrictReserved name then blameToken first .strictReserved
  let left := if op == .plain then target.asPattern else target
  if op != .plain then noTarget
  let _ ← advance
  let right ← isolated g.assignment
  inform fun c => { c with coverInitializer := none }
  return .assignment op left right

/-- The parameter of an asynchronous arrow function without parentheses, after the word `async`. -/
def asyncParameter (g : Grammar) (first : Token) (e : Node) : Parse Node := do
  let s ← get
  let isWord := first.lexeme.isName && first.lexeme.spelling == Text.of "async"
  if isWord && first.line == s.ahead.line &&
      (s.ahead.lexeme.isName || (← seesKeyword "yield")) then
    let p ← primary g
    return .arrowHead true [p.asPattern]
  return e

/-- Whether an expression waits for the arrow of a function. -/
def isArrowHead (e : Node) : Bool :=
  match e.form with
  | .arrowHead _ => true
  | _ => false

/-- Reads an assignment, an arrow function or a `yield`. -/
def assignmentExpression (g : Grammar) : Parse Node := do
  if !(← context).allowYield && (← seesKeyword "yield") then return ← yieldExpression g
  let first := (← get).ahead
  let e ← conditionalExpression g
  let e ← asyncParameter g first e
  if isArrowHead e || (← sees "=>") then
    noTarget
    match ← arrowParameters e with
    | some (ps, isAsync) => arrowRest g ps isAsync
    | none => return e
  else
    match assignOp? (← ahead) with
    | some op => assignmentRest g first e op
    | none => return e

end Untangle.Source.Parse
