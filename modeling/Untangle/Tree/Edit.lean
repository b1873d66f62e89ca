import Untangle.Tree.Node

set_option autoImplicit false

/-!
# Ways into a tree, and changes at their end

A way is a list of steps from the root down; a step names the slot and the identity of the node in
it.  A way that a tree does not have leads nowhere, so a way that once led to a node still does exactly
if no node on it has been replaced or taken out.  A change at the end of a way leaves all that does not
stand on the way as it is.
-/

namespace Untangle

/-- A step from a node to one of its children. -/
structure Step where
  role : Role
  node : NodeId
  deriving DecidableEq, Repr, Inhabited

/-- A way from the root of a tree down. -/
abbrev Way := List Step

/-- Whether a child is the one that a step goes to. -/
def Step.leadsTo (s : Step) (child : Node) : Bool := child.role == s.role && child.id == s.node

namespace Node

/-- The node at the end of a way. -/
def follow : Way → Node → Option Node
  | [], n => some n
  | s :: rest, n =>
    match n.children.find? s.leadsTo with
    | some c => follow rest c
    | none => none

/-- The tree with the node at the end of a way changed. -/
def changeAt (f : Node → Node) : Way → Node → Node
  | [], n => f n
  | s :: rest, n =>
    n.withChildren (n.children.map fun c => if s.leadsTo c then changeAt f rest c else c)

/-- The node with one of its children replaced by some nodes in the same slot. -/
def replaceChild (s : Step) (replacements : List Node) (n : Node) : Node :=
  n.withChildren (n.children.flatMap fun c =>
    if s.leadsTo c then replacements.map (inRole s.role) else [c])

/-! ## Copies and new nodes -/

mutual

/-- A copy without identities. -/
def unnumbered : Node → Node
  | .mk _ r f cs => .mk 0 r f (unnumberedAll cs)

/-- Copies without identities. -/
def unnumberedAll : List Node → List Node
  | [] => []
  | c :: cs => unnumbered c :: unnumberedAll cs

end

mutual

/-- The tree in which the nodes without identity are numbered from `next` on, in pre-order, and the
first number that is not used; nodes that have an identity keep it. -/
def adopt : Node → NodeId → Node × NodeId
  | .mk i r f cs, next =>
    if i == 0 then
      let (cs', next') := adoptAll cs (next + 1)
      (.mk next r f cs', next')
    else
      let (cs', next') := adoptAll cs next
      (.mk i r f cs', next')

/-- The trees with their new nodes numbered one after the other. -/
def adoptAll : List Node → NodeId → List Node × NodeId
  | [], next => ([], next)
  | c :: cs, next =>
    let (c', next') := adopt c next
    let (cs', next'') := adoptAll cs next'
    (c' :: cs', next'')

end

/-! ## Small facts -/

@[simp] theorem follow_nil (n : Node) : follow [] n = some n := rfl

@[simp] theorem changeAt_nil (f : Node → Node) (n : Node) : changeAt f [] n = f n := rfl

end Node

/-- Whether a slot of a form holds a list. -/
def Form.isListed (f : Form) (r : Role) : Bool := f.slots.any fun s => s.role == r && s.listed

end Untangle
