import Untangle.Source.Lexer
import Untangle.Tree.Build

set_option autoImplicit false

/-!
# The state of a reader of scripts

The reader looks one token ahead.  Beside the tokens it carries what the words around a place allow
there: whether `in` is an operator, whether `yield` and `await` are names, whether the code is strict,
which labels are open.

An expression may turn out to be a pattern only at the sign after it.  Three marks follow every
expression for that: whether it can be assigned to, whether it can be bound, and the first `=` in it
that only a pattern may have.
-/

namespace Untangle.Source

/-- Where a token ended, as faults report it. -/
structure Place where
  index : Nat
  line : Nat
  column : Int
  deriving Repr, Inhabited

/-- The place of a cursor. -/
def Cursor.place (c : Cursor) : Place := ⟨c.index, c.line, c.column⟩

/-- What is allowed at a place of a script. -/
structure Context where
  awaits : Bool
  allowIn : Bool
  allowStrictDirective : Bool
  allowYield : Bool
  /-- The first `=` after a name in an object literal, which only a pattern may have. -/
  coverInitializer : Option Token
  isAssignmentTarget : Bool
  isBindingElement : Bool
  inFunctionBody : Bool
  inIteration : Bool
  inSwitch : Bool
  labels : List Text
  strict : Bool
  deriving Inhabited

/-- The context at the start of a script. -/
def Context.script : Context where
  awaits := false
  allowIn := true
  allowStrictDirective := true
  allowYield := true
  coverInitializer := none
  isAssignmentTarget := false
  isBindingElement := false
  inFunctionBody := false
  inIteration := false
  inSwitch := false
  labels := []
  strict := false

/-- The state of the reader. -/
structure State where
  /-- The place after the token ahead. -/
  cursor : Cursor
  /-- The token ahead. -/
  ahead : Token
  /-- The place where the token ahead starts. -/
  aheadAt : Cursor
  /-- Where the last token that was taken ends. -/
  last : Place
  /-- Whether the token ahead ends on another line than the one before it. -/
  newline : Bool
  context : Context
  /-- Number of characters of the source, which bounds every repetition. -/
  length : Nat
  deriving Inhabited

/-- A step of reading a script. -/
abbrev Parse := EStateM Fault State

/-- What a fault is blamed on: a token, or a part of the tree that does not know its place. -/
inductive Blame where
  | token (t : Token)
  | node

namespace Parse

/-! ## Faults -/

/-- Complains at the end of the last token. -/
def fail {α : Type} (complaint : Complaint) : Parse α := do
  let p := (← get).last
  throw ⟨p.line, p.column + 1, complaint⟩

/-- Complains at the end of the last token, on the line that has been reached. -/
def failHere {α : Type} (complaint : Complaint) : Parse α := do
  let s ← get
  throw ⟨s.cursor.line, s.last.column + 1, complaint⟩

/-- Complains of a token. -/
def blameToken {α : Type} (t : Token) (complaint : Complaint) : Parse α := do
  let p := (← get).last
  throw ⟨t.line, (t.start : Int) - ((p.index : Int) - p.column) + 1, complaint⟩

/-- Complains of a token or of a part of the tree. -/
def blame {α : Type} (b : Blame) (complaint : Complaint) : Parse α :=
  match b with
  | .token t => blameToken t complaint
  | .node => fail complaint

/-- The complaint of a token that cannot stand where it does. -/
def unexpectedComplaint (strict : Bool) : Lexeme → Complaint
  | .finish => .unexpectedEnd
  | .name _ => .unexpectedIdentifier
  | .number _ _ => .unexpectedNumber
  | .string _ _ _ => .unexpectedString
  | .template raw _ _ _ => .unexpectedTemplate raw
  | .keyword w =>
    if isFutureReserved w then .unexpectedReserved
    else if strict && isStrictReserved w then .strictReserved
    else .unexpectedToken w
  | l => .unexpectedToken l.spelling

/-- Complains of a token that cannot stand where it does. -/
def unexpected {α : Type} (t : Token) : Parse α := do
  blameToken t (unexpectedComplaint (← get).context.strict t.lexeme)

/-! ## Tokens -/

/-- Reads characters from the place after the token ahead. -/
def lex {α : Type} (step : Lex α) : Parse α := do
  let s ← get
  match step.run s.cursor with
  | .ok a c => set { s with cursor := c }; return a
  | .error f c => set { s with cursor := c }; throw f

/-- In strict code more words are keywords. -/
def promote (strict : Bool) (t : Token) : Token :=
  match t.lexeme with
  | .name w =>
    match strictReservedWords.find? fun k => strict && Text.of k == w with
    | some k => { t with lexeme := .keyword k }
    | none => t
  | _ => t

/-- Takes the token ahead and reads the next one. -/
def advance : Parse Token := do
  let taken := (← get).ahead
  modify fun s => { s with last := s.cursor.place }
  lex Lex.trivia
  modify fun s => { s with aheadAt := s.cursor }
  let t ← lex Lex.token
  modify fun s =>
    { s with ahead := promote s.context.strict t, newline := taken.line != t.line }
  return taken

/-- The token after the token ahead.  What it does to the account of braces stays. -/
def probe : Parse Token := do
  let before := (← get).cursor
  lex Lex.trivia
  let t ← lex Lex.token
  modify fun s => { s with cursor := before.withBraces s.cursor.braces }
  return t

/-- What the token ahead is. -/
def ahead : Parse Lexeme := return (← get).ahead.lexeme

/-- Whether the token ahead is the given sign. -/
def sees (symbol : String) : Parse Bool := do
  match ← ahead with
  | .sign s => return s == symbol
  | _ => return false

/-- Whether the token ahead is the given keyword. -/
def seesKeyword (word : String) : Parse Bool := do
  match ← ahead with
  | .keyword w => return w == word
  | _ => return false

/-- Whether the token ahead is the given name. -/
def seesName (word : String) : Parse Bool := do
  match ← ahead with
  | .name w => return w == Text.of word
  | _ => return false

/-- Whether the token ahead is one of the given signs. -/
def seesAny (symbols : List String) : Parse Bool := do
  match ← ahead with
  | .sign s => return symbols.contains s
  | _ => return false

/-- Whether nothing is left. -/
def seesEnd : Parse Bool := return (← ahead).isFinish

/-- Takes the given sign. -/
def expect (symbol : String) : Parse Unit := do
  let t ← advance
  match t.lexeme with
  | .sign s => if s != symbol then unexpected t
  | _ => unexpected t

/-- Takes the given keyword. -/
def expectKeyword (word : String) : Parse Unit := do
  let t ← advance
  match t.lexeme with
  | .keyword w => if w != word then unexpected t
  | _ => unexpected t

/-- Takes the end of a statement: a semicolon, or nothing before a line end, a closing brace or the
end of the script. -/
def semicolon : Parse Unit := do
  if ← sees ";" then
    let _ ← advance
  else
    let s ← get
    if !s.newline then
      if !s.ahead.lexeme.isFinish && !(← sees "\x7d") then unexpected s.ahead
      set { s with last := s.aheadAt.place }

/-! ## Context -/

/-- The context at the place. -/
def context : Parse Context := return (← get).context

/-- Changes the context. -/
def inform (f : Context → Context) : Parse Unit := modify fun s => { s with context := f s.context }

/-- Whether the code is strict. -/
def isStrict : Parse Bool := return (← context).strict

/-- Marks what was read as something that can neither be assigned to nor bound. -/
def noTarget : Parse Unit :=
  inform fun c => { c with isAssignmentTarget := false, isBindingElement := false }

/-- Marks what was read as something that can be assigned to but not bound. -/
def plainTarget : Parse Unit :=
  inform fun c => { c with isAssignmentTarget := true, isBindingElement := false }

/-- Marks for an expression that starts here. -/
def freshTarget (c : Context) : Context :=
  { c with isAssignmentTarget := true, isBindingElement := true, coverInitializer := none }

/-- Reads an expression that is no part of a pattern around it. -/
def isolated {α : Type} (p : Parse α) : Parse α := do
  let before ← context
  inform freshTarget
  let a ← p
  if let some t := (← context).coverInitializer then unexpected t
  inform fun c => { c with
    isBindingElement := before.isBindingElement
    isAssignmentTarget := before.isAssignmentTarget
    coverInitializer := before.coverInitializer }
  return a

/-- Reads an expression that may be part of a pattern around it. -/
def inherited {α : Type} (p : Parse α) : Parse α := do
  let before ← context
  inform freshTarget
  let a ← p
  inform fun c => { c with
    isBindingElement := c.isBindingElement && before.isBindingElement
    isAssignmentTarget := c.isAssignmentTarget && before.isAssignmentTarget
    coverInitializer := before.coverInitializer.or c.coverInitializer }
  return a

/-- Reads with `in` as an operator or not. -/
def withIn {α : Type} (allowed : Bool) (p : Parse α) : Parse α := do
  let before := (← context).allowIn
  inform fun c => { c with allowIn := allowed }
  let a ← p
  inform fun c => { c with allowIn := before }
  return a

/-- Reads with `yield` as a name or not. -/
def withYield {α : Type} (allowed : Bool) (p : Parse α) : Parse α := do
  let before := (← context).allowYield
  inform fun c => { c with allowYield := allowed }
  let a ← p
  inform fun c => { c with allowYield := before }
  return a

/-- Reads the body of a loop. -/
def inLoop {α : Type} (p : Parse α) : Parse α := do
  let before := (← context).inIteration
  inform fun c => { c with inIteration := true }
  let a ← p
  inform fun c => { c with inIteration := before }
  return a

/-! ## Repetition -/

/-- Reads items until the step has none, at most `fuel` of them. -/
def collectGo {α : Type} (step : Parse (Option α)) : Nat → List α → Parse (List α)
  | 0, acc => return acc.reverse
  | fuel + 1, acc => do
    match ← step with
    | some a => collectGo step fuel (a :: acc)
    | none => return acc.reverse

/-- Reads items until the step has none.  Every item takes a token, so the length of the source
bounds their number. -/
def collect {α : Type} (step : Parse (Option α)) : Parse (List α) := do
  collectGo step ((← get).length + 2) []

/-- Repeats a step on a value until it says so, at most `fuel` times. -/
def loopGo {α : Type} (step : α → Parse (Bool × α)) : Nat → α → Parse α
  | 0, a => return a
  | fuel + 1, a => do
    let (more, a') ← step a
    if more then loopGo step fuel a' else return a'

/-- Repeats a step on a value until it says so; every step takes a token. -/
def loop {α : Type} (step : α → Parse (Bool × α)) (a : α) : Parse α := do
  loopGo step ((← get).length + 2) a

/-- Reads items up to a closing sign, which is taken. -/
def collectUntil {α : Type} (close : String) (item : Parse α) : Parse (List α) := do
  let items ← collect do
    if ← sees close then return none
    return some (← item)
  expect close
  return items

end Parse

/-- The productions of the grammar that contain themselves through others. -/
structure Grammar where
  assignment : Parse Node
  exponent : Parse Node
  unary : Parse Node
  /-- An expression with calls and member accesses. -/
  call : Parse Node
  /-- An expression with member accesses only. -/
  callee : Parse Node
  pattern : Option VariableKind → Parse (Node × List Token)
  statement : Parse Node
  item : Parse Node

end Untangle.Source
