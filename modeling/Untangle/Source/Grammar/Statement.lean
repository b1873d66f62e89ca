import Untangle.Source.Grammar.Expression

set_option autoImplicit false

/-!
# Statements

Declarations, loops, choices and jumps.  A name at the start of a statement may be a label, which is
known only at the colon after it.
-/

namespace Untangle.Source.Parse

/-! ## Blocks and declarations -/

/-- Reads a block. -/
def block (g : Grammar) : Parse Node := do
  expect "\x7b"
  return .block (← collectUntil "\x7d" g.item)

/-- Reads one variable of a `let` or `const` declaration; in the head of a loop values may be
missing. -/
def lexicalBinding (g : Grammar) (kind : VariableKind) (inFor : Bool) : Parse Node := do
  let (id, _) ← g.pattern (some kind)
  if (← isStrict) && (id.name?.map isRestrictedName).getD false then failHere .strictVariableName
  if kind == .constant then
    if (← seesKeyword "in") || (← seesName "of") then return .variableDeclarator id none
    if !(← sees "=") then fail .missingConstValue
    let _ ← advance
    return .variableDeclarator id (some (← isolated g.assignment))
  if (!inFor && id.name?.isNone) || (← sees "=") then
    expect "="
    return .variableDeclarator id (some (← isolated g.assignment))
  return .variableDeclarator id none

/-- Reads one variable of a `var` declaration; in the head of a loop a pattern needs no value. -/
def varBinding (g : Grammar) (inFor : Bool) : Parse Node := do
  let (id, _) ← g.pattern (some .var)
  if (← isStrict) && (id.name?.map isRestrictedName).getD false then failHere .strictVariableName
  if ← sees "=" then
    let _ ← advance
    return .variableDeclarator id (some (← isolated g.assignment))
  if id.name?.isNone && !inFor then expect "="
  return .variableDeclarator id none

/-- Reads one or more items with commas between them. -/
def commaList (item : Parse Node) : Parse (List Node) := do
  let first ← item
  let others ← collect do
    if !(← sees ",") then return none
    let _ ← advance
    return some (← item)
  return first :: others

/-- The kind of a declaration by its keyword. -/
def declarationKind (t : Token) : VariableKind :=
  match t.lexeme with
  | .keyword "const" => .constant
  | _ => .lexical

/-- Reads a `let` or `const` declaration. -/
def lexicalDeclaration (g : Grammar) : Parse Node := do
  let kind := declarationKind (← advance)
  let declarations ← commaList (lexicalBinding g kind false)
  semicolon
  return .variableDeclaration kind declarations

/-- Whether a declaration follows the word `let`. -/
def seesLexicalDeclaration : Parse Bool := do
  let t ← probe
  match t.lexeme with
  | .name _ => return true
  | .sign s => return s == "[" || s == "\x7b"
  | .keyword w => return w == "let" || w == "yield"
  | _ => return false

/-- Reads a `var` declaration. -/
def varStatement (g : Grammar) : Parse Node := do
  expectKeyword "var"
  let declarations ← commaList (varBinding g false)
  semicolon
  return .variableDeclaration .var declarations

/-- Reads an expression as a statement. -/
def expressionStatement (g : Grammar) : Parse Node := do
  let e ← expression g
  semicolon
  return .expressionStatement none e

/-! ## Choices -/

/-- Reads a branch of an `if` statement. -/
def branch (g : Grammar) : Parse Node := do
  if (← isStrict) && (← seesKeyword "function") then failHere .strictFunctionPlace
  g.statement

/-- Reads an expression in parentheses. -/
def parenthesised (g : Grammar) : Parse Node := do
  expect "("
  let e ← expression g
  expect ")"
  return e

/-- Reads an `if` statement. -/
def ifStatement (g : Grammar) : Parse Node := do
  expectKeyword "if"
  let test ← parenthesised g
  let consequent ← branch g
  if ← seesKeyword "else" then
    let _ ← advance
    return .ifStatement test consequent (some (← branch g))
  return .ifStatement test consequent none

/-- Reads one case of a `switch` statement; nothing is tested by the default. -/
def switchCase (g : Grammar) : Parse (Option Node × List Node) := do
  let test ← if ← seesKeyword "default" then do
      let _ ← advance
      pure none
    else do
      expectKeyword "case"
      pure (some (← expression g))
  expect ":"
  let consequent ← collect do
    if (← sees "\x7d") || (← seesKeyword "default") || (← seesKeyword "case") then return none
    return some (← g.item)
  return (test, consequent)

/-- Reads a `switch` statement. -/
def switchStatement (g : Grammar) : Parse Node := do
  expectKeyword "switch"
  let discriminant ← parenthesised g
  let before := (← context).inSwitch
  inform fun c => { c with inSwitch := true }
  expect "\x7b"
  let (cases, _) ← loop (fun (acc : List Node × Bool) => do
    if ← sees "\x7d" then return (false, acc)
    let (test, consequent) ← switchCase g
    if test.isNone && acc.2 then fail .secondDefault
    return (true, .switchCase test consequent :: acc.1, acc.2 || test.isNone)) ([], false)
  expect "\x7d"
  inform fun c => { c with inSwitch := before }
  return .switchStatement discriminant cases.reverse

/-! ## Loops -/

/-- Reads a `do` loop. -/
def doWhileStatement (g : Grammar) : Parse Node := do
  expectKeyword "do"
  let body ← inLoop g.statement
  expectKeyword "while"
  let test ← parenthesised g
  if ← sees ";" then
    let _ ← advance
  return .doWhileStatement body test

/-- Reads a `while` loop. -/
def whileStatement (g : Grammar) : Parse Node := do
  expectKeyword "while"
  let test ← parenthesised g
  return .whileStatement test (← inLoop g.statement)

/-- The head of a `for` loop up to its closing parenthesis. -/
inductive ForHead where
  | parts (init test update : Option Node)
  | keys (left right : Node)
  | items (left right : Node)

/-- Reads the test and the update of a `for` loop. -/
def forParts (g : Grammar) (init : Option Node) : Parse ForHead := do
  let test ← if ← sees ";" then pure none else pure (some (← expression g))
  expect ";"
  let update ← if ← sees ")" then pure none else pure (some (← expression g))
  return .parts init test update

/-- Whether a variable of a declaration has a value. -/
def hasInit (declarator : Node) : Bool := (declarator.child? .init).isSome

/-- Whether a variable is declared through a pattern. -/
def bindsPattern (declarator : Node) : Bool :=
  match (declarator.child? .id).map Node.form with
  | some .arrayPattern | some .objectPattern => true
  | _ => false

/-- Reads the head of a `for` loop that starts with `var`. -/
def forVar (g : Grammar) : Parse ForHead := do
  let _ ← advance
  let declarations ← withIn false (commaList (varBinding g true))
  let left := Node.variableDeclaration .var declarations
  match declarations with
  | [d] =>
    if ← seesKeyword "in" then
      if hasInit d && (bindsPattern d || (← isStrict)) then failHere .loopInitializer
      let _ ← advance
      return .keys left (← expression g)
    if !hasInit d && (← seesName "of") then
      let _ ← advance
      return .items left (← g.assignment)
  | _ => pure ()
  expect ";"
  forParts g (some left)

/-- Reads the head of a `for` loop that starts with `let` or `const`. -/
def forLexical (g : Grammar) : Parse ForHead := do
  let word ← advance
  let kind := declarationKind word
  if !(← isStrict) && (← ahead).spelling == Text.of "in" then
    let _ ← advance
    return .keys (.ident word.lexeme.spelling) (← expression g)
  let declarations ← withIn false (commaList (lexicalBinding g kind true))
  let left := Node.variableDeclaration kind declarations
  match declarations with
  | [d] =>
    if !hasInit d && (← seesKeyword "in") then
      let _ ← advance
      return .keys left (← expression g)
    if !hasInit d && (← seesName "of") then
      let _ ← advance
      return .items left (← g.assignment)
  | _ => pure ()
  semicolon
  forParts g (some left)

/-- Refuses what cannot be assigned in every round of a loop. -/
def checkLoopTarget (e : Node) (complaint : Complaint) : Parse Unit := do
  let isAssignment := match e.form with
    | .assignment _ => true
    | _ => false
  if !(← context).isAssignmentTarget || isAssignment then failHere complaint

/-- Reads the head of a `for` loop that starts with an expression. -/
def forExpression (g : Grammar) : Parse ForHead := do
  let first ← withIn false (inherited g.assignment)
  if ← seesKeyword "in" then
    checkLoopTarget first .invalidForInTarget
    let _ ← advance
    return .keys first.asPattern (← expression g)
  if ← seesName "of" then
    checkLoopTarget first .invalidForOfTarget
    let _ ← advance
    return .items first.asPattern (← g.assignment)
  let init ← if ← sees "," then do
      let others ← collect do
        if !(← sees ",") then return none
        let _ ← advance
        return some (← isolated g.assignment)
      pure (.sequence (first :: others))
    else pure first
  expect ";"
  forParts g (some init)

/-- Reads a `for` loop. -/
def forStatement (g : Grammar) : Parse Node := do
  expectKeyword "for"
  expect "("
  let head ← if ← sees ";" then do
      let _ ← advance
      forParts g none
    else if ← seesKeyword "var" then forVar g
    else if (← seesKeyword "const") || (← seesKeyword "let") then forLexical g
    else forExpression g
  expect ")"
  let body ← inLoop (isolated g.statement)
  match head with
  | .parts init test update => return .forStatement init test update body
  | .keys left right => return .forInStatement left right body
  | .items left right => return .forOfStatement left right body

/-! ## Jumps -/

/-- Reads the label of a jump, if one stands on the same line. -/
def jumpLabel : Parse (Option Node) := do
  if (← ahead).isName && !(← get).newline then
    let id ← variableName none
    let name := id.name?.getD []
    if !(← context).labels.contains name then fail (.unknownLabel name)
    return some id
  return none

/-- Reads a `continue` statement. -/
def continueStatement : Parse Node := do
  expectKeyword "continue"
  let label ← jumpLabel
  semicolon
  if label.isNone && !(← context).inIteration then fail .illegalContinue
  return .continueStatement label

/-- Reads a `break` statement. -/
def breakStatement : Parse Node := do
  expectKeyword "break"
  let label ← jumpLabel
  semicolon
  let c ← context
  if label.isNone && !c.inIteration && !c.inSwitch then fail .illegalBreak
  return .breakStatement label

/-- Reads a `return` statement. -/
def returnStatement (g : Grammar) : Parse Node := do
  if !(← context).inFunctionBody then failHere .illegalReturn
  expectKeyword "return"
  let s ← get
  let hasArgument ← match s.ahead.lexeme with
    | .string _ _ _ | .template _ _ _ _ => pure true
    | .finish => pure false
    | .sign sign => pure (sign != ";" && sign != "\x7d" && !s.newline)
    | _ => pure !s.newline
  let argument ← if hasArgument then pure (some (← expression g)) else pure none
  semicolon
  return .returnStatement argument

/-- Reads a `throw` statement. -/
def throwStatement (g : Grammar) : Parse Node := do
  expectKeyword "throw"
  if (← get).newline then fail .newlineAfterThrow
  let argument ← expression g
  semicolon
  return .throwStatement argument

/-- Reads a `with` statement. -/
def withStatement (g : Grammar) : Parse Node := do
  if ← isStrict then failHere .strictWith
  expectKeyword "with"
  let object ← parenthesised g
  return .withStatement object (← g.statement)

/-! ## Handlers -/

/-- The first of some names that occurs before. -/
def repeatedName : List Text → List Text → Option Text
  | _, [] => none
  | seen, n :: ns => if seen.contains n then some n else repeatedName (n :: seen) ns

/-- Reads the handler of a `try` statement. -/
def catchClause (g : Grammar) : Parse Node := do
  expectKeyword "catch"
  expect "("
  if ← sees ")" then unexpected (← get).ahead
  let (param, names) ← g.pattern none
  if let some name := repeatedName [] (names.map fun t => t.lexeme.spelling) then
    failHere (.duplicateBinding name)
  if (← isStrict) && (param.name?.map isRestrictedName).getD false then failHere .strictCatchName
  expect ")"
  return .catchClause param (← block g)

/-- Reads a `try` statement. -/
def tryStatement (g : Grammar) : Parse Node := do
  expectKeyword "try"
  let body ← block g
  let handler ← if ← seesKeyword "catch" then pure (some (← catchClause g)) else pure none
  let finalizer ← if ← seesKeyword "finally" then do
      let _ ← advance
      pure (some (← block g))
    else pure none
  if handler.isNone && finalizer.isNone then fail .noCatchOrFinally
  return .tryStatement body handler finalizer

/-! ## Labels -/

/-- Whether a declaration is one of a generator. -/
def declaresGenerator (d : Node) : Bool :=
  match d.form with
  | .functionDeclaration flags => flags.generator
  | _ => false

/-- Reads the statement of a label. -/
def labelBody (g : Grammar) : Parse Node := do
  let t := (← get).ahead
  if ← seesKeyword "class" then unexpected t
  if ← seesKeyword "function" then
    let d ← functionDeclaration g
    if ← isStrict then blameToken t .strictFunctionPlace
    if declaresGenerator d then blameToken t .generatorInLabel
    return d
  g.statement

/-- Reads a statement that starts with a name: an expression, or a statement with a label. -/
def labelledStatement (g : Grammar) : Parse Node := do
  let e ← expression g
  match e.name? with
  | some name =>
    if ← sees ":" then
      let _ ← advance
      if (← context).labels.contains name then fail (.duplicateLabel name)
      inform fun c => { c with labels := name :: c.labels }
      let body ← labelBody g
      inform fun c => { c with labels := c.labels.filter (· != name) }
      return .labeled e body
  | none => pure ()
  semicolon
  return .expressionStatement none e

/-! ## Statements -/

/-- Reads a statement that starts with a keyword. -/
def keywordStatement (g : Grammar) (word : String) : Parse Node :=
  match word with
  | "break" => breakStatement
  | "continue" => continueStatement
  | "debugger" => do
    expectKeyword "debugger"
    semicolon
    return .leaf .debuggerStatement
  | "do" => doWhileStatement g
  | "for" => forStatement g
  | "function" => functionDeclaration g
  | "if" => ifStatement g
  | "return" => returnStatement g
  | "switch" => switchStatement g
  | "throw" => throwStatement g
  | "try" => tryStatement g
  | "var" => varStatement g
  | "while" => whileStatement g
  | "with" => withStatement g
  | _ => expressionStatement g

/-- Reads a statement. -/
def statement (g : Grammar) : Parse Node := do
  match ← ahead with
  | .sign "\x7b" => block g
  | .sign ";" => do
    expect ";"
    return .leaf .emptyStatement
  | .name _ => if ← seesAsyncFunction then functionDeclaration g else labelledStatement g
  | .keyword w => keywordStatement g w
  | .finish => unexpected (← get).ahead
  | _ => expressionStatement g

/-- Reads a statement or a declaration. -/
def item (g : Grammar) : Parse Node := do
  inform fun c => { c with isAssignmentTarget := true, isBindingElement := true }
  match ← ahead with
  | .keyword "export" => blameToken (← get).ahead .bareToken
  | .keyword "import" =>
    if ← seesImportCall then expressionStatement g
    else blameToken (← get).ahead .bareToken
  | .keyword "const" => lexicalDeclaration g
  | .keyword "function" => functionDeclaration g
  | .keyword "class" => classDeclaration g
  | .keyword "let" => if ← seesLexicalDeclaration then lexicalDeclaration g else statement g
  | _ => statement g

end Untangle.Source.Parse
