import Untangle.Tree.Node

set_option autoImplicit false

/-!
# Building nodes

One builder per form that has children: it puts every part into its slot.  The nodes are not numbered
yet.
-/

namespace Untangle.Node

/-- A program of statements. -/
def program (body : List Node) : Node := make .program (atMany .body body)

/-- A block of statements. -/
def block (body : List Node) : Node := make .blockStatement (atMany .body body)

/-- An expression as a statement. -/
def expressionStatement (directive : Option Text) (e : Node) : Node :=
  make (.expressionStatement directive) (at1 .expression e)

/-- A `with` statement. -/
def withStatement (object body : Node) : Node :=
  make .withStatement (at1 .object object ++ at1 .body body)

/-- A `return` statement. -/
def returnStatement (argument : Option Node) : Node := make .returnStatement (atOpt .argument argument)

/-- A `throw` statement. -/
def throwStatement (argument : Node) : Node := make .throwStatement (at1 .argument argument)

/-- A statement with a label. -/
def labeled (label body : Node) : Node := make .labeledStatement (at1 .label label ++ at1 .body body)

/-- A `break` statement. -/
def breakStatement (label : Option Node) : Node := make .breakStatement (atOpt .label label)

/-- A `continue` statement. -/
def continueStatement (label : Option Node) : Node := make .continueStatement (atOpt .label label)

/-- An `if` statement. -/
def ifStatement (test consequent : Node) (alternate : Option Node) : Node :=
  make .ifStatement (at1 .test test ++ at1 .consequent consequent ++ atOpt .alternate alternate)

/-- A `switch` statement. -/
def switchStatement (discriminant : Node) (cases : List Node) : Node :=
  make .switchStatement (at1 .discriminant discriminant ++ atMany .cases cases)

/-- A case of a `switch` statement; without a test it is the default. -/
def switchCase (test : Option Node) (consequent : List Node) : Node :=
  make .switchCase (atOpt .test test ++ atMany .consequent consequent)

/-- A `try` statement. -/
def tryStatement (block : Node) (handler finalizer : Option Node) : Node :=
  make .tryStatement (at1 .block block ++ atOpt .handler handler ++ atOpt .finalizer finalizer)

/-- The handler of a `try` statement. -/
def catchClause (param body : Node) : Node :=
  make .catchClause (at1 .param param ++ at1 .body body)

/-- A `while` loop. -/
def whileStatement (test body : Node) : Node :=
  make .whileStatement (at1 .test test ++ at1 .body body)

/-- A `do` loop. -/
def doWhileStatement (body test : Node) : Node :=
  make .doWhileStatement (at1 .body body ++ at1 .test test)

/-- A `for` loop with three parts. -/
def forStatement (init test update : Option Node) (body : Node) : Node :=
  make .forStatement
    (atOpt .init init ++ atOpt .test test ++ atOpt .update update ++ at1 .body body)

/-- A loop over the keys of an object. -/
def forInStatement (left right body : Node) : Node :=
  make .forInStatement (at1 .left left ++ at1 .right right ++ at1 .body body)

/-- A loop over the items of a collection. -/
def forOfStatement (left right body : Node) : Node :=
  make .forOfStatement (at1 .left left ++ at1 .right right ++ at1 .body body)

/-- A declaration of variables. -/
def variableDeclaration (kind : VariableKind) (declarations : List Node) : Node :=
  make (.variableDeclaration kind) (atMany .declarations declarations)

/-- One variable of a declaration. -/
def variableDeclarator (id : Node) (init : Option Node) : Node :=
  make .variableDeclarator (at1 .id id ++ atOpt .init init)

/-- The children of a function with a name. -/
def functionParts (id : Option Node) (params : List Node) (body : Node) : List Node :=
  atOpt .id id ++ atMany .params params ++ at1 .body body

/-- A declaration of a function. -/
def functionDeclaration (flags : FunctionFlags) (id : Option Node) (params : List Node)
    (body : Node) : Node :=
  make (.functionDeclaration flags) (functionParts id params body)

/-- A function as an expression. -/
def functionExpression (flags : FunctionFlags) (id : Option Node) (params : List Node)
    (body : Node) : Node :=
  make (.functionExpression flags) (functionParts id params body)

/-- An arrow function. -/
def arrowFunction (flags : FunctionFlags) (params : List Node) (body : Node) : Node :=
  make (.arrowFunction flags) (atMany .params params ++ at1 .body body)

/-- Parameters that wait for the arrow of a function. -/
def arrowHead (isAsync : Bool) (params : List Node) : Node :=
  make (.arrowHead isAsync) (atMany .params params)

/-- The children of a class. -/
def classParts (id superClass : Option Node) (body : List Node) : List Node :=
  atOpt .id id ++ atOpt .superClass superClass ++ at1 .body (make .classBody (atMany .body body))

/-- A member of a class. -/
def methodDefinition (k : Node) (computed : Bool) (value : Node) (kind : MethodKind)
    (isStatic : Bool) : Node :=
  make (.methodDefinition computed kind isStatic) (at1 .key k ++ at1 .value value)

/-- A property of an object literal or an object pattern. -/
def property (kind : PropertyKind) (k : Node) (computed : Bool) (value : Node)
    (method shorthand : Bool) : Node :=
  make (.property computed kind method shorthand) (at1 .key k ++ at1 .value value)

/-- An array literal. -/
def array (elements : List Node) : Node := make .arrayExpression (atMany .elements elements)

/-- An object literal. -/
def object (properties : List Node) : Node := make .objectExpression (atMany .properties properties)

/-- An array pattern. -/
def arrayPattern (elements : List Node) : Node := make .arrayPattern (atMany .elements elements)

/-- An object pattern. -/
def objectPattern (properties : List Node) : Node :=
  make .objectPattern (atMany .properties properties)

/-- A pattern with a default value. -/
def withDefault (target value : Node) : Node :=
  make .assignmentPattern (at1 .left target ++ at1 .right value)

/-- What is left over in a pattern. -/
def rest (argument : Node) : Node := make .rest (at1 .argument argument)

/-- The items of a collection, spread out. -/
def spread (argument : Node) : Node := make .spread (at1 .argument argument)

/-- An operator in front of an operand. -/
def unary (op : UnaryOp) (argument : Node) : Node := make (.unary op) (at1 .argument argument)

/-- An increment or a decrement. -/
def update (op : UpdateOp) (before : Bool) (argument : Node) : Node :=
  make (.update op before) (at1 .argument argument)

/-- An operator between two operands. -/
def binary (op : BinaryOp) (left right : Node) : Node :=
  make (.binary op) (at1 .left left ++ at1 .right right)

/-- A logical operator between two operands. -/
def logical (op : LogicalOp) (left right : Node) : Node :=
  make (.logical op) (at1 .left left ++ at1 .right right)

/-- An assignment. -/
def assignment (op : AssignOp) (left right : Node) : Node :=
  make (.assignment op) (at1 .left left ++ at1 .right right)

/-- A choice between two expressions. -/
def conditional (test consequent alternate : Node) : Node :=
  make .conditional (at1 .test test ++ at1 .consequent consequent ++ at1 .alternate alternate)

/-- A call. -/
def call (callee : Node) (arguments : List Node) : Node :=
  make .call (at1 .callee callee ++ atMany .arguments arguments)

/-- A call with `new`. -/
def construct (callee : Node) (arguments : List Node) : Node :=
  make .construct (at1 .callee callee ++ atMany .arguments arguments)

/-- A member of an object. -/
def member (computed : Bool) (object key : Node) : Node :=
  make (.member computed) (at1 .object object ++ at1 .property key)

/-- Expressions one after the other. -/
def sequence (expressions : List Node) : Node := make .sequence (atMany .expressions expressions)

/-- A template. -/
def template (quasis expressions : List Node) : Node :=
  make .template (atMany .quasis quasis ++ atMany .expressions expressions)

/-- A template with a function that reads it. -/
def taggedTemplate (tag quasi : Node) : Node :=
  make .taggedTemplate (at1 .tag tag ++ at1 .quasi quasi)

/-- A property of a keyword. -/
def metaProperty (word key : Node) : Node :=
  make .metaProperty (at1 .metaWord word ++ at1 .property key)

/-- A `yield`. -/
def yieldExpression (delegate : Bool) (argument : Option Node) : Node :=
  make (.yieldExpression delegate) (atOpt .argument argument)

/-- An `await`. -/
def awaitExpression (argument : Node) : Node := make .awaitExpression (at1 .argument argument)

/-- A literal. -/
def literal (value : Literal) : Node := leaf (.literal value)

end Untangle.Node
