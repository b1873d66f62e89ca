import Untangle.Print.Statement

set_option autoImplicit false

/-!
# Printing trees

The piece of a node is assembled from the pieces of its children, from the leaves up.  A statement is
printed as a statement and an expression as an expression.
-/

namespace Untangle

namespace Print

/-- The parameters and the body of a function, as a method has them after its key. -/
def callableOf (form : Form) (ps : Parts) (indent : Nat) : Out :=
  match form with
  | .functionDeclaration flags | .functionExpression flags => callableText flags ps indent
  | .arrowFunction flags => arrowText flags ps indent
  | _ => .error .notFunction

/-- The piece of a node from the pieces of its children. -/
def assemble (n : Node) (ps : Parts) : Piece where
  node := n
  expression := expressionText n.form ps
  statement := statementText n.form ps
  callable := callableOf n.form ps
  loopVariable := loopVariableText n.form ps

mutual

/-- The piece of a node. -/
def piece : Node → Piece
  | .mk i r f cs => assemble (.mk i r f cs) (pieces cs)

/-- The pieces of some nodes. -/
def pieces : List Node → Parts
  | [] => []
  | c :: cs => piece c :: pieces cs

end

/-- Whether a node is printed as a statement. -/
def printsAsStatement (f : Form) : Bool :=
  f.isStatementLike ||
    match f with
    | .program | .variableDeclarator | .switchCase | .catchClause | .classBody => true
    | _ => false

end Print

/-- The code of a tree. -/
def Node.code (n : Node) : Except Print.Refusal Text :=
  let p := Print.piece n
  if Print.printsAsStatement n.form then p.statement true 0
  else p.expression Print.Level.sequence .all 0

end Untangle
