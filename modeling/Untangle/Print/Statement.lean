import Untangle.Print.Expression

set_option autoImplicit false

/-!
# Printing statements

One statement takes one line or more, and a semicolon ends it where the grammar has one.  A block
stands on the line of the keyword before it; any other body stands on the next line, one level deeper.
-/

namespace Untangle.Print

/-! ## Expressions as statements -/

/-- The slot of the operand that an expression starts with. -/
def firstSlot? : Form → Option Role
  | .binary _ | .logical _ | .assignment _ => some .left
  | .conditional => some .test
  | .sequence => some .expressions
  | .call | .optionalCall => some .callee
  | .member _ | .optionalMember _ => some .object
  | .taggedTemplate => some .tag
  | .update _ false => some .argument
  | .chain => some .expression
  | _ => none

/-- Whether an expression is a member access by an index. -/
def isIndexed : Form → Bool
  | .member computed => computed
  | _ => false

mutual

/-- The operand that an expression starts with, whatever parentheses it gets, and whether an index
follows it; `indexed` says so for the expression itself. -/
def leftmost (indexed : Bool) : Node → Node × Bool
  | .mk i r f cs =>
    ((firstSlot? f).bind fun slot => leftmostAt slot (isIndexed f) cs).getD (.mk i r f cs, indexed)

/-- The operand that the first node of a slot starts with. -/
def leftmostAt (slot : Role) (indexed : Bool) : List Node → Option (Node × Bool)
  | [] => none
  | c :: cs => if c.role == slot then some (leftmost indexed c) else leftmostAt slot indexed cs

end

/-- Whether an expression starts with the word `let`. -/
def startsWithLet (e : Node) : Bool := (leftmost false e).1.name? == some (Text.of "let")

/-- Whether an expression starts like a declaration with a pattern. -/
def startsLikeLexical (e : Node) : Bool := startsWithLet e && (leftmost false e).2

/-- Whether an expression would be read as a block or a declaration at the start of a statement. -/
def needsParens (e : Node) : Bool :=
  match (leftmost false e).1.form with
  | .objectExpression | .objectPattern | .functionExpression _ | .classExpression => true
  | _ => startsLikeLexical e

/-- A text in parentheses where they are needed. -/
def parensIf (needed : Bool) (t : Text) : Text := if needed then inParens t else t

/-- The words that make code strict. -/
def strictWords : Text := "use strict"

/-- Whether a statement reads like the directive that makes code strict without being it. -/
def fakesDirective (directive : Option Text) (e : Node) : Bool :=
  match e.form with
  | .literal (.string t) => t == strictWords && directive != some strictWords
  | _ => false

/-- An expression as a statement. -/
def expressionStatementText (directive : Option Text) (ps : Parts) (indent : Nat) : Out := do
  let e ← ps.get .expression
  if fakesDirective directive e.node then return "'use\\x20strict';"
  let t ← e.expression Level.sequence .all indent
  return parensIf (needsParens e.node) t ++ ";"

/-! ## Declarations -/

/-- One variable of a declaration. -/
def declaratorText (ps : Parts) (bareIn : Bool) (indent : Nat) : Out := do
  let allow : Allow := ⟨bareIn, true, false⟩
  let id ← (← ps.get .id).expression Level.assignment allow indent
  match ps.opt .init with
  | some e => return id ++ " = " ++ (← e.expression Level.assignment allow indent)
  | none => return id

/-- A declaration of variables. -/
def declarationText (kind : VariableKind) (ps : Parts) (bareIn : Bool) (indent : Nat) : Out := do
  let declarators := ps.all .declarations
  if declarators.isEmpty then .error .malformed
  else
    let inner := if declarators.length > 1 then indent + 1 else indent
    let ts ← declarators.mapM fun p => p.statement bareIn inner
    return kind.word ++ " " ++ commas ts ++ ";"

/-- The keyword and the first variable of a declaration, as the head of a loop has them. -/
def loopVariableText (form : Form) (ps : Parts) (indent : Nat) : Out := do
  match form, (ps.all .declarations).head? with
  | .variableDeclaration kind, some p =>
    return kind.word ++ " " ++ (← p.statement false indent)
  | _, _ => .error .malformed

/-! ## Choices -/

/-- An `if` statement.  A branch that would take the `else` for itself is put into a block. -/
def ifText (ps : Parts) (indent : Nat) : Out := do
  let test ← (← ps.get .test).expression Level.sequence .all (indent + 1)
  let head : Text := "if (" ++ test ++ ")"
  let yes ← ps.get .consequent
  match ps.opt .alternate with
  | none => return head ++ (← bodyText yes indent)
  | some no =>
    let wrapped := endsInOpenIf yes.node
    let body ← if wrapped then do pure (" " ++ (← blockText [yes] indent)) else bodyText yes indent
    let front := head ++ body ++ bodyEnd (wrapped || isBlock yes.node) indent
    match no.node.form with
    | .ifStatement => return front ++ "else " ++ (← no.statement true indent)
    | _ => return front ++ spaced "else" (← bodyText no indent)

/-- Statements on lines of their own. -/
def linesText (statements : List Piece) (indent : Nat) : Out := do
  let lines ← statements.mapM fun p => do return newLine indent ++ (← p.statement true indent)
  return lines.flatten

/-- The statements of a case after its colon; a block that comes first stays on the line. -/
def caseBodyText (statements : List Piece) (indent : Nat) : Out := do
  match statements with
  | [] => return []
  | p :: rest =>
    if isBlock p.node then return (← bodyText p indent) ++ (← linesText rest indent)
    else linesText statements indent

/-- A case of a `switch` statement. -/
def caseText (ps : Parts) (indent : Nat) : Out := do
  let head : Text ← match ps.opt .test with
    | some e => do pure (spaced "case" (← e.expression Level.sequence .all (indent + 1)) ++ ":")
    | none => pure "default:"
  return head ++ (← caseBodyText (ps.all .consequent) (indent + 1))

/-- A `switch` statement. -/
def switchText (ps : Parts) (indent : Nat) : Out := do
  let e ← (← ps.get .discriminant).expression Level.sequence .all (indent + 1)
  let cases ← (ps.all .cases).mapM fun p => do
    return indentText indent ++ (← p.statement true indent) ++ "\n"
  return "switch (" ++ e ++ ") \x7b\n" ++ cases.flatten ++ indentText indent ++ "\x7d"

/-! ## Loops -/

/-- The first part of a `for` loop with its semicolon. -/
def forInitText (init : Option Piece) (indent : Nat) : Out := do
  match init with
  | none => return ";"
  | some p =>
    match p.node.form with
    | .variableDeclaration _ => p.statement false indent
    | _ =>
      let t ← p.expression Level.sequence ⟨false, true, false⟩ indent
      return parensIf (startsLikeLexical p.node) t ++ ";"

/-- A part of a `for` loop after a space, if it is there. -/
def forPartText (part : Option Piece) (indent : Nat) : Out := do
  match part with
  | none => return []
  | some p => return 0x20 :: (← p.expression Level.sequence .all indent)

/-- A `for` loop with three parts. -/
def forText (ps : Parts) (indent : Nat) : Out := do
  let init ← forInitText (ps.opt .init) (indent + 1)
  let test ← forPartText (ps.opt .test) (indent + 1)
  let update ← forPartText (ps.opt .update) (indent + 1)
  let body ← bodyText (← ps.get .body) indent
  return "for (" ++ init ++ test ++ ";" ++ update ++ ")" ++ body

/-- Whether what a loop assigns to would be read as a declaration or as the start of an arrow
function. -/
def misleadsLoop (overItems : Bool) (target : Node) : Bool :=
  if overItems then startsWithLet target || target.name? == some (Text.of "async")
  else startsLikeLexical target

/-- A loop over keys or items. -/
def forEachText (overItems : Bool) (ps : Parts) (indent : Nat) : Out := do
  let left ← ps.get .left
  let word : Text := if overItems then "of" else "in"
  let target ← match left.node.form with
    | .variableDeclaration _ => left.loopVariable (indent + 2)
    | _ => do
      let t ← left.expression Level.call .all (indent + 1)
      pure (parensIf (misleadsLoop overItems left.node) t)
  let right ← (← ps.get .right).expression Level.assignment .all (indent + 1)
  let body ← bodyText (← ps.get .body) indent
  return spaced (spaced ("for (" ++ target) word) right ++ ")" ++ body

/-- A keyword with an expression in parentheses, and a body. -/
def headedText (word : Text) (slot : Role) (ps : Parts) (indent : Nat) : Out := do
  let e ← (← ps.get slot).expression Level.sequence .all (indent + 1)
  return word ++ " (" ++ e ++ ")" ++ (← bodyText (← ps.get .body) indent)

/-- A `do` loop. -/
def doText (ps : Parts) (indent : Nat) : Out := do
  let body ← ps.get .body
  let front := spaced "do" (← bodyText body indent) ++ bodyEnd (isBlock body.node) indent
  let test ← (← ps.get .test).expression Level.sequence .all indent
  return front ++ "while (" ++ test ++ ");"

/-! ## Jumps and handlers -/

/-- A keyword with an operand that stays on its line. -/
def wordedText (word : Text) (operand : Option Piece) (indent : Nat) : Out := do
  match operand with
  | some e => return spaced word (keepLine (← e.expression Level.sequence .all indent)) ++ ";"
  | none => return word ++ ";"

/-- A jump with its label. -/
def jumpText (word : Text) (ps : Parts) : Out := do
  match ps.opt .label with
  | some l => return word ++ " " ++ (← labelText l) ++ ";"
  | none => return word ++ ";"

/-- The handler of a `try` statement. -/
def catchText (ps : Parts) (indent : Nat) : Out := do
  let head : Text ← match ps.opt .param with
    | some p => do pure ("catch (" ++ (← p.expression Level.sequence .all (indent + 1)) ++ ")")
    | none => pure "catch"
  return head ++ (← bodyText (← ps.get .body) indent)

/-- A `try` statement; the space after the block stays even if nothing follows. -/
def tryText (ps : Parts) (indent : Nat) : Out := do
  let block ← ps.get .block
  let front := "try" ++ (← bodyText block indent) ++ bodyEnd (isBlock block.node) indent
  let front ← match ps.opt .handler with
    | some h => do
      let t := spaced front (← h.statement true indent)
      pure (if (ps.opt .finalizer).isSome then t ++ bodyEnd true indent else t)
    | none => pure front
  match ps.opt .finalizer with
  | some f => return spaced front ("finally" ++ (← bodyText f indent))
  | none => return front

/-- The statements of a program. -/
def programText (statements : List Piece) (indent : Nat) : Out := do
  return Text.join "\n" (← statements.mapM fun p => do
    return indentText indent ++ (← p.statement true indent))

/-- A node as a statement. -/
def statementText (form : Form) (ps : Parts) (bareIn : Bool) (indent : Nat) : Out := do
  match form with
  | .program => programText (ps.all .body) indent
  | .expressionStatement directive => expressionStatementText directive ps indent
  | .blockStatement => blockText (ps.all .body) indent
  | .emptyStatement => return ";"
  | .debuggerStatement => return "debugger;"
  | .withStatement => headedText "with" .object ps indent
  | .returnStatement => wordedText "return" (ps.opt .argument) indent
  | .throwStatement => wordedText "throw" (some (← ps.get .argument)) indent
  | .labeledStatement =>
    return (← labelText (← ps.get .label)) ++ ":" ++ (← bodyText (← ps.get .body) indent)
  | .breakStatement => jumpText "break" ps
  | .continueStatement => jumpText "continue" ps
  | .ifStatement => ifText ps indent
  | .switchStatement => switchText ps indent
  | .switchCase => caseText ps indent
  | .tryStatement => tryText ps indent
  | .catchClause => catchText ps indent
  | .whileStatement => headedText "while" .test ps indent
  | .doWhileStatement => doText ps indent
  | .forStatement => forText ps indent
  | .forInStatement => forEachText false ps indent
  | .forOfStatement => forEachText true ps indent
  | .functionDeclaration flags => functionText flags ps indent
  | .variableDeclaration kind => declarationText kind ps bareIn indent
  | .variableDeclarator => declaratorText ps bareIn indent
  | .classDeclaration => classText ps indent
  | .classBody => classBodyText (ps.all .body) indent
  | _ => .error .malformed

end Untangle.Print
