import Untangle.Text.Basic

set_option autoImplicit false

/-!
# The rules by name
-/

namespace Untangle

/-- The rules that a run may use, in the order in which they act on a node. -/
inductive RuleName where
  | declarations
  | binary
  | calls
  | loops
  deriving DecidableEq, Repr, Inhabited

namespace RuleName

/-- The word for a rule. -/
def word : RuleName → String
  | .declarations => "declarations"
  | .binary => "binary"
  | .calls => "calls"
  | .loops => "loops"

/-- What a rule does. -/
def description : RuleName → String
  | .declarations => "Inline constant literals and register top-level functions"
  | .binary => "Constant-fold binary expressions over literals"
  | .calls => "Evaluate deterministic calls and inline operator wrappers"
  | .loops => "Reverse control-flow flattening of for/switch dispatch loops"

/-- All rules in their order. -/
def all : List RuleName := [.declarations, .binary, .calls, .loops]

/-- The rule of a word. -/
def ofWord? (t : Text) : Option RuleName := all.find? fun r => Text.of r.word == t

/-- Some rules in the order in which they act; rules that are named twice act twice. -/
def inOrder (rs : List RuleName) : List RuleName := all.flatMap fun r => rs.filter (· == r)

end RuleName

end Untangle
