import Untangle.Text.Basic

set_option autoImplicit false

/-!
# Forms of nodes

What a node of a script is, without its children: its kind together with the words, flags and
operators that belong to it, and the slots in which its children stand.

The names of kinds and slots are the ones of the ESTree convention, since reports and error messages
show them.
-/

namespace Untangle

/-! ## Words and operators -/

/-- The keyword of a variable declaration. -/
inductive VariableKind where
  | var
  | lexical
  | constant
  deriving DecidableEq, Repr, Inhabited

/-- The keyword as it is written. -/
def VariableKind.word : VariableKind → String
  | .var => "var"
  | .lexical => "let"
  | .constant => "const"

/-- What a property of an object literal is. -/
inductive PropertyKind where
  | plain
  | getter
  | setter
  deriving DecidableEq, Repr, Inhabited

/-- The name of the kind in a tree. -/
def PropertyKind.word : PropertyKind → String
  | .plain => "init"
  | .getter => "get"
  | .setter => "set"

/-- What a member of a class is. -/
inductive MethodKind where
  | method
  | constructor
  | getter
  | setter
  deriving DecidableEq, Repr, Inhabited

/-- The name of the kind in a tree. -/
def MethodKind.word : MethodKind → String
  | .method => "method"
  | .constructor => "constructor"
  | .getter => "get"
  | .setter => "set"

/-- Operators in front of one operand. -/
inductive UnaryOp where
  | minus
  | plus
  | not
  | complement
  | typeof
  | void
  | delete
  | other (symbol : String)
  deriving DecidableEq, Repr, Inhabited

/-- The operator as it is written. -/
def UnaryOp.symbol : UnaryOp → String
  | .minus => "-"
  | .plus => "+"
  | .not => "!"
  | .complement => "~"
  | .typeof => "typeof"
  | .void => "void"
  | .delete => "delete"
  | .other s => s

/-- The operator of a symbol. -/
def UnaryOp.ofSymbol (s : String) : UnaryOp :=
  ([.minus, .plus, .not, .complement, .typeof, .void, .delete].find? (·.symbol == s)).getD (.other s)

/-- Operators that change a variable by one. -/
inductive UpdateOp where
  | increment
  | decrement
  deriving DecidableEq, Repr, Inhabited

/-- The operator as it is written. -/
def UpdateOp.symbol : UpdateOp → String
  | .increment => "++"
  | .decrement => "--"

/-- Operators between two operands that are both evaluated. -/
inductive BinaryOp where
  | add
  | sub
  | mul
  | div
  | mod
  | pow
  | shiftLeft
  | shiftRight
  | shiftRightZero
  | bitAnd
  | bitOr
  | bitXor
  | equal
  | notEqual
  | same
  | notSame
  | less
  | greater
  | lessEq
  | greaterEq
  | member
  | instanceOf
  | other (symbol : String)
  deriving DecidableEq, Repr, Inhabited

/-- The operator as it is written. -/
def BinaryOp.symbol : BinaryOp → String
  | .add => "+"
  | .sub => "-"
  | .mul => "*"
  | .div => "/"
  | .mod => "%"
  | .pow => "**"
  | .shiftLeft => "<<"
  | .shiftRight => ">>"
  | .shiftRightZero => ">>>"
  | .bitAnd => "&"
  | .bitOr => "|"
  | .bitXor => "^"
  | .equal => "=="
  | .notEqual => "!="
  | .same => "==="
  | .notSame => "!=="
  | .less => "<"
  | .greater => ">"
  | .lessEq => "<="
  | .greaterEq => ">="
  | .member => "in"
  | .instanceOf => "instanceof"
  | .other s => s

/-- All operators of the grammar. -/
def BinaryOp.all : List BinaryOp :=
  [.add, .sub, .mul, .div, .mod, .pow, .shiftLeft, .shiftRight, .shiftRightZero, .bitAnd, .bitOr,
   .bitXor, .equal, .notEqual, .same, .notSame, .less, .greater, .lessEq, .greaterEq, .member,
   .instanceOf]

/-- The operator of a symbol. -/
def BinaryOp.ofSymbol (s : String) : BinaryOp := (all.find? (·.symbol == s)).getD (.other s)

/-- Operators that may leave their right operand alone. -/
inductive LogicalOp where
  | and
  | or
  | nullish
  | other (symbol : String)
  deriving DecidableEq, Repr, Inhabited

/-- The operator as it is written. -/
def LogicalOp.symbol : LogicalOp → String
  | .and => "&&"
  | .or => "||"
  | .nullish => "??"
  | .other s => s

/-- The operator of a symbol. -/
def LogicalOp.ofSymbol (s : String) : LogicalOp :=
  ([.and, .or, .nullish].find? (·.symbol == s)).getD (.other s)

/-- Assignment, alone or after an operation with the old value. -/
inductive AssignOp where
  | plain
  | compound (op : BinaryOp)
  | logical (op : LogicalOp)
  deriving DecidableEq, Repr, Inhabited

/-- The operator as it is written. -/
def AssignOp.symbol : AssignOp → String
  | .plain => "="
  | .compound op => op.symbol ++ "="
  | .logical op => op.symbol ++ "="

/-- The operator of a symbol. -/
def AssignOp.ofSymbol (s : String) : AssignOp :=
  if s == "=" then .plain
  else
    let inner := String.ofList s.toList.dropLast
    match LogicalOp.ofSymbol inner with
    | .other _ => .compound (BinaryOp.ofSymbol inner)
    | op => .logical op

/-! ## Literals -/

/-- A number as a literal holds it: whole numbers exactly, others as the nearest number. -/
inductive Numeral where
  | whole (n : Int)
  | real (x : Float)
  deriving Repr, Inhabited

/-- The value of a literal. -/
inductive Literal where
  | null
  | bool (b : Bool)
  | number (n : Numeral)
  | string (t : Text)
  | regex (pattern flags : Text)
  deriving Repr, Inhabited

/-! ## Forms -/

/-- What marks a function apart from its parameters and its body. -/
structure FunctionFlags where
  generator : Bool
  isAsync : Bool
  /-- The body is an expression. -/
  concise : Bool
  deriving DecidableEq, Repr, Inhabited

/-- The kind of a node with all that belongs to it except its children. -/
inductive Form where
  | program
  | expressionStatement (directive : Option Text)
  | blockStatement
  | emptyStatement
  | debuggerStatement
  | withStatement
  | returnStatement
  | labeledStatement
  | breakStatement
  | continueStatement
  | ifStatement
  | switchStatement
  | switchCase
  | throwStatement
  | tryStatement
  | catchClause
  | whileStatement
  | doWhileStatement
  | forStatement
  | forInStatement
  | forOfStatement
  | functionDeclaration (flags : FunctionFlags)
  | variableDeclaration (kind : VariableKind)
  | variableDeclarator
  | classDeclaration
  | classExpression
  | classBody
  | methodDefinition (computed : Bool) (kind : MethodKind) (isStatic : Bool)
  | thisExpression
  | superWord
  | arrayExpression
  | objectExpression
  | property (computed : Bool) (kind : PropertyKind) (method : Bool) (shorthand : Bool)
  | functionExpression (flags : FunctionFlags)
  | arrowFunction (flags : FunctionFlags)
  | unary (op : UnaryOp)
  | update (op : UpdateOp) (before : Bool)
  | binary (op : BinaryOp)
  | logical (op : LogicalOp)
  | assignment (op : AssignOp)
  | conditional
  | call
  | construct
  | member (computed : Bool)
  /-- A call that is left out where there is nothing to call. -/
  | optionalCall
  /-- A member access that is left out where there is no object. -/
  | optionalMember (computed : Bool)
  /-- A chain of accesses and calls of which some may be left out. -/
  | chain
  | sequence
  | template
  | taggedTemplate
  | templateElement (raw : Text) (cooked : Option Text) (last : Bool)
  | spread
  | rest
  | yieldExpression (delegate : Bool)
  | awaitExpression
  | assignmentPattern
  | arrayPattern
  | objectPattern
  | metaProperty
  | identifier (name : Text)
  | literal (value : Literal)
  /-- Names in parentheses that wait for the arrow of a function. -/
  | arrowHead (isAsync : Bool)
  /-- An element of an array that is left out. -/
  | hole
  /-- A node of the grammar that lacks one of its lists. -/
  | incomplete (kind : String)
  /-- A kind outside of the grammar. -/
  | unknown (kind : String)
  deriving Repr, Inhabited

/-- The slot of a parent in which a node stands. -/
inductive Role where
  | top
  | alternate
  | argument
  | arguments
  | block
  | body
  | callee
  | cases
  | consequent
  | declarations
  | discriminant
  | elements
  | expression
  | expressions
  | finalizer
  | handler
  | id
  | init
  | key
  | label
  | left
  | metaWord
  | object
  | param
  | params
  | properties
  | property
  | quasi
  | quasis
  | right
  | superClass
  | tag
  | test
  | update
  | value
  deriving DecidableEq, Repr, Inhabited

/-- The name of a slot. -/
def Role.name : Role → String
  | .top => ""
  | .alternate => "alternate"
  | .argument => "argument"
  | .arguments => "arguments"
  | .block => "block"
  | .body => "body"
  | .callee => "callee"
  | .cases => "cases"
  | .consequent => "consequent"
  | .declarations => "declarations"
  | .discriminant => "discriminant"
  | .elements => "elements"
  | .expression => "expression"
  | .expressions => "expressions"
  | .finalizer => "finalizer"
  | .handler => "handler"
  | .id => "id"
  | .init => "init"
  | .key => "key"
  | .label => "label"
  | .left => "left"
  | .metaWord => "meta"
  | .object => "object"
  | .param => "param"
  | .params => "params"
  | .properties => "properties"
  | .property => "property"
  | .quasi => "quasi"
  | .quasis => "quasis"
  | .right => "right"
  | .superClass => "superClass"
  | .tag => "tag"
  | .test => "test"
  | .update => "update"
  | .value => "value"

/-- A slot of a form: its role and whether it holds a list. -/
structure Slot where
  role : Role
  listed : Bool
  deriving DecidableEq, Repr, Inhabited

namespace Form

/-- The name of the kind. -/
def kind : Form → String
  | .program => "Program"
  | .expressionStatement _ => "ExpressionStatement"
  | .blockStatement => "BlockStatement"
  | .emptyStatement => "EmptyStatement"
  | .debuggerStatement => "DebuggerStatement"
  | .withStatement => "WithStatement"
  | .returnStatement => "ReturnStatement"
  | .labeledStatement => "LabeledStatement"
  | .breakStatement => "BreakStatement"
  | .continueStatement => "ContinueStatement"
  | .ifStatement => "IfStatement"
  | .switchStatement => "SwitchStatement"
  | .switchCase => "SwitchCase"
  | .throwStatement => "ThrowStatement"
  | .tryStatement => "TryStatement"
  | .catchClause => "CatchClause"
  | .whileStatement => "WhileStatement"
  | .doWhileStatement => "DoWhileStatement"
  | .forStatement => "ForStatement"
  | .forInStatement => "ForInStatement"
  | .forOfStatement => "ForOfStatement"
  | .functionDeclaration _ => "FunctionDeclaration"
  | .variableDeclaration _ => "VariableDeclaration"
  | .variableDeclarator => "VariableDeclarator"
  | .classDeclaration => "ClassDeclaration"
  | .classExpression => "ClassExpression"
  | .classBody => "ClassBody"
  | .methodDefinition _ _ _ => "MethodDefinition"
  | .thisExpression => "ThisExpression"
  | .superWord => "Super"
  | .arrayExpression => "ArrayExpression"
  | .objectExpression => "ObjectExpression"
  | .property _ _ _ _ => "Property"
  | .functionExpression _ => "FunctionExpression"
  | .arrowFunction _ => "ArrowFunctionExpression"
  | .unary _ => "UnaryExpression"
  | .update _ _ => "UpdateExpression"
  | .binary _ => "BinaryExpression"
  | .logical _ => "LogicalExpression"
  | .assignment _ => "AssignmentExpression"
  | .conditional => "ConditionalExpression"
  | .call | .optionalCall => "CallExpression"
  | .construct => "NewExpression"
  | .member _ | .optionalMember _ => "MemberExpression"
  | .chain => "ChainExpression"
  | .sequence => "SequenceExpression"
  | .template => "TemplateLiteral"
  | .taggedTemplate => "TaggedTemplateExpression"
  | .templateElement _ _ _ => "TemplateElement"
  | .spread => "SpreadElement"
  | .rest => "RestElement"
  | .yieldExpression _ => "YieldExpression"
  | .awaitExpression => "AwaitExpression"
  | .assignmentPattern => "AssignmentPattern"
  | .arrayPattern => "ArrayPattern"
  | .objectPattern => "ObjectPattern"
  | .metaProperty => "MetaProperty"
  | .identifier _ => "Identifier"
  | .literal _ => "Literal"
  | .arrowHead _ => "ArrowParameterPlaceHolder"
  | .hole => ""
  | .incomplete k | .unknown k => k

/-- A slot that holds one node or none. -/
def single (r : Role) : Slot := ⟨r, false⟩

/-- A slot that holds a list of nodes. -/
def many (r : Role) : Slot := ⟨r, true⟩

/-- The slots of a form, in the order of the source. -/
def slots : Form → List Slot
  | .program | .blockStatement | .classBody => [many .body]
  | .expressionStatement _ | .chain => [single .expression]
  | .withStatement => [single .object, single .body]
  | .returnStatement | .throwStatement | .unary _ | .update _ _ | .spread | .rest
  | .yieldExpression _ | .awaitExpression => [single .argument]
  | .labeledStatement => [single .label, single .body]
  | .breakStatement | .continueStatement => [single .label]
  | .ifStatement | .conditional => [single .test, single .consequent, single .alternate]
  | .switchStatement => [single .discriminant, many .cases]
  | .switchCase => [single .test, many .consequent]
  | .tryStatement => [single .block, single .handler, single .finalizer]
  | .catchClause => [single .param, single .body]
  | .whileStatement => [single .test, single .body]
  | .doWhileStatement => [single .body, single .test]
  | .forStatement => [single .init, single .test, single .update, single .body]
  | .forInStatement | .forOfStatement => [single .left, single .right, single .body]
  | .functionDeclaration _ | .functionExpression _ => [single .id, many .params, single .body]
  | .arrowFunction _ => [many .params, single .body]
  | .arrowHead _ => [many .params]
  | .variableDeclaration _ => [many .declarations]
  | .variableDeclarator => [single .id, single .init]
  | .classDeclaration | .classExpression => [single .id, single .superClass, single .body]
  | .methodDefinition _ _ _ | .property _ _ _ _ => [single .key, single .value]
  | .arrayExpression | .arrayPattern => [many .elements]
  | .objectExpression | .objectPattern => [many .properties]
  | .binary _ | .logical _ | .assignment _ | .assignmentPattern => [single .left, single .right]
  | .call | .optionalCall | .construct => [single .callee, many .arguments]
  | .member _ | .optionalMember _ => [single .object, single .property]
  | .sequence => [many .expressions]
  | .template => [many .quasis, many .expressions]
  | .taggedTemplate => [single .tag, single .quasi]
  | .metaProperty => [single .metaWord, single .property]
  | .emptyStatement | .debuggerStatement | .thisExpression | .superWord | .templateElement _ _ _
  | .identifier _ | .literal _ | .hole | .incomplete _ | .unknown _ => []

/-- A function of any kind. -/
def isFunction : Form → Bool
  | .functionDeclaration _ | .functionExpression _ | .arrowFunction _ => true
  | _ => false

/-- A statement or a declaration, by the name of its kind. -/
def isStatementLike (f : Form) : Bool :=
  match f with
  | .expressionStatement _ | .blockStatement | .emptyStatement | .debuggerStatement
  | .withStatement | .returnStatement | .labeledStatement | .breakStatement | .continueStatement
  | .ifStatement | .switchStatement | .throwStatement | .tryStatement | .whileStatement
  | .doWhileStatement | .forStatement | .forInStatement | .forOfStatement
  | .functionDeclaration _ | .variableDeclaration _ | .classDeclaration => true
  | _ => false

/-- An element that is left out of an array. -/
def isHole : Form → Bool
  | .hole => true
  | _ => false

end Form

end Untangle
