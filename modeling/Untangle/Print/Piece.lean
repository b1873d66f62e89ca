import Untangle.Print.Literal
import Untangle.Text.Space
import Untangle.Tree.Node

set_option autoImplicit false

/-!
# Pieces of printed code

A node is printed from the pieces of its children.  A piece knows how to print itself wherever it may
stand: as an operand of a given strength, as a statement, as the parameters and the body of a
function, or as the head of a loop.
-/

namespace Untangle.Print

/-- Printed code, or why there is none. -/
abbrev Out := Except Refusal Text

/-- How strongly the parts of an expression hold together; a part is put in parentheses where more is
asked of it. -/
abbrev Level := Nat

namespace Level

/-- Expressions with commas between them. -/
def sequence : Level := 0

/-- Assignments and `yield`. -/
def assignment : Level := 1

/-- Choices and arrow functions. -/
def conditional : Level := 2

/-- The test of a choice. -/
def nullish : Level := 3

/-- Exponentiations. -/
def exponent : Level := 14

/-- Operators in front of an operand. -/
def unary : Level := 15

/-- Operators after an operand. -/
def postfixed : Level := 16

/-- Chains of accesses and calls that may be left out. -/
def chain : Level := 17

/-- Calls. -/
def call : Level := 18

/-- Calls with `new`. -/
def construct : Level := 19

/-- Templates with a tag. -/
def tagged : Level := 20

/-- Member accesses. -/
def member : Level := 21

/-- Expressions without operators. -/
def primary : Level := 22

end Level

/-- What may stand in an expression without parentheses. -/
structure Allow where
  /-- The operator `in`, which the head of a loop reserves. -/
  inOperator : Bool
  /-- Calls, which end the callee of `new`. -/
  calls : Bool
  /-- An operator that does not mix with `&&` and `||` is around. -/
  nullish : Bool

/-- Everything may stand there. -/
def Allow.all : Allow := ⟨true, true, false⟩

/-- The part of a script that a node prints, in all places where it can stand.  Indentation is counted
in levels. -/
structure Piece where
  node : Node
  /-- As an operand: level asked for, allowance, indentation. -/
  expression : Level → Allow → Nat → Out
  /-- As a statement: whether `in` may stand bare, indentation. -/
  statement : Bool → Nat → Out
  /-- The parameters and the body of a function. -/
  callable : Nat → Out
  /-- The keyword and the first variable of a declaration. -/
  loopVariable : Nat → Out

/-- A piece of a node that cannot be printed. -/
def Piece.refused (n : Node) : Piece where
  node := n
  expression := fun _ _ _ => .error .malformed
  statement := fun _ _ => .error .malformed
  callable := fun _ => .error .notFunction
  loopVariable := fun _ => .error .malformed

/-- The pieces of a node's children. -/
abbrev Parts := List Piece

namespace Parts

/-- The piece in a slot. -/
def opt (ps : Parts) (r : Role) : Option Piece := ps.find? fun p => p.node.role == r

/-- The piece in a slot that has to be filled. -/
def get (ps : Parts) (r : Role) : Except Refusal Piece :=
  match ps.opt r with
  | some p => .ok p
  | none => .error .malformed

/-- The pieces of a slot that holds a list. -/
def all (ps : Parts) (r : Role) : List Piece := ps.filter fun p => p.node.role == r

end Parts

/-! ## Text -/

/-- Spaces of an indentation. -/
def indentText (indent : Nat) : Text := List.replicate (4 * indent) 0x20

/-- A line end and the indentation of the next line. -/
def newLine (indent : Nat) : Text := 0x0A :: indentText indent

/-- Whether a text breaks a line. -/
def hasBreak (t : Text) : Bool := t.any Text.isLineEnd

/-- A space or a line end. -/
def isGap (c : CodePoint) : Bool := c == 0x20 || c == 0x0A || c == 0x0D

/-- Two texts with a space between them, unless one of them is empty or there is one already. -/
def spaced (l r : Text) : Text :=
  match l.getLast?, r.head? with
  | some a, some b => if isGap a || isGap b then l ++ r else l ++ 0x20 :: r
  | _, _ => l ++ r

/-- A text in parentheses. -/
def inParens (t : Text) : Text := "(" ++ t ++ ")"

/-- A text that is put in parentheses if more is asked of it than its level. -/
def atLevel (own asked : Level) (t : Text) : Text := if own < asked then inParens t else t

/-- An operand that may not start on another line than the word before it. -/
def keepLine (t : Text) : Text := if hasBreak t then inParens t else t

/-- Texts with commas between them. -/
def commas (ts : List Text) : Text := Text.join ", " ts

/-! ## Statements inside of statements -/

/-- A block of statements. -/
def blockText (statements : List Piece) (indent : Nat) : Out := do
  let lines ← statements.mapM fun p => do
    return indentText (indent + 1) ++ (← p.statement true (indent + 1)) ++ "\n"
  return "\x7b\n" ++ lines.flatten ++ indentText indent ++ "\x7d"

/-- The body of a statement: a block on the same line, another statement on the next one. -/
def bodyText (p : Piece) (indent : Nat) : Out := do
  match p.node.form with
  | .blockStatement => return " " ++ (← p.statement true indent)
  | .emptyStatement => return ";"
  | _ => return newLine (indent + 1) ++ (← p.statement true (indent + 1))

/-- What stands between a body and the keyword after it: a block lets the keyword follow on its
line. -/
def bodyEnd (isBlock : Bool) (indent : Nat) : Text := if isBlock then " " else newLine indent

/-- Whether a node is a block. -/
def isBlock (n : Node) : Bool :=
  match n.form with
  | .blockStatement => true
  | _ => false

mutual

/-- Whether a statement ends in an `if` that an `else` after it would belong to. -/
def endsInOpenIf : Node → Bool
  | .mk _ _ f cs =>
    match f with
    | .ifStatement =>
      if cs.any (fun c => c.role == .alternate) then slotEndsInOpenIf .alternate cs else true
    | .forStatement | .forInStatement | .forOfStatement | .whileStatement | .withStatement
    | .labeledStatement => slotEndsInOpenIf .body cs
    | _ => false

/-- Whether the statement in a slot does. -/
def slotEndsInOpenIf (slot : Role) : List Node → Bool
  | [] => false
  | c :: cs => (c.role == slot && endsInOpenIf c) || slotEndsInOpenIf slot cs

end

end Untangle.Print
