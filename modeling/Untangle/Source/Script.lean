import Untangle.Source.Grammar.Statement

set_option autoImplicit false

/-!
# Reading a script

The grammar contains itself through its productions.  It is unrolled as often as constructs can be
nested in a source of the given length: every round through the productions takes a token, and no more
than a few productions are entered in between.
-/

namespace Untangle.Source

namespace Grammar

/-- The grammar with nothing left of it. -/
def exhausted : Grammar where
  assignment := Parse.fail .tooDeep
  exponent := Parse.fail .tooDeep
  unary := Parse.fail .tooDeep
  call := Parse.fail .tooDeep
  callee := Parse.fail .tooDeep
  pattern := fun _ => Parse.fail .tooDeep
  statement := Parse.fail .tooDeep
  item := Parse.fail .tooDeep

/-- The grammar unrolled to a depth. -/
def unrolled : Nat → Grammar
  | 0 => exhausted
  | depth + 1 =>
    { assignment := fun s => Parse.assignmentExpression (unrolled depth) s
      exponent := fun s => Parse.exponentExpression (unrolled depth) s
      unary := fun s => Parse.unaryExpression (unrolled depth) s
      call := fun s => Parse.callExpression (unrolled depth) s
      callee := fun s => Parse.calleeExpression (unrolled depth) s
      pattern := fun kind s => Parse.pattern (unrolled depth) kind s
      statement := fun s => Parse.statement (unrolled depth) s
      item := fun s => Parse.item (unrolled depth) s }

end Grammar

/-- Reads the statements of a script to its end. -/
def Parse.script (g : Grammar) : Parse (List Node) := do
  let front ← directives g
  let items ← collect do
    if ← seesEnd then return none
    return some (← g.item)
  return front ++ items

/-- The state before the first token of a source. -/
def State.ofText (source : Text) : State :=
  let c := Cursor.ofText source
  { cursor := c, ahead := ⟨.finish, 0, c.line⟩, aheadAt := c, last := c.place, newline := false
    context := .script, length := source.length }

/-- Reads the first token; the place before it counts as its end. -/
def Parse.begin : Parse Unit := do
  let _ ← advance
  modify fun s => { s with last := s.cursor.place }

/-- How deep constructs can be nested in a source of a length. -/
def nestingBound (length : Nat) : Nat := 4 * length + 16

/-- The program of a source, its nodes numbered in pre-order. -/
def parseScript (source : Text) : Except Fault Node :=
  let reading : Parse (List Node) := do
    Parse.begin
    Parse.script (.unrolled (nestingBound source.length))
  match reading.run (.ofText source) with
  | .ok body _ => .ok ((Node.program body).number 1).1
  | .error f _ => .error f

end Untangle.Source
