import Untangle.Tree.Form

set_option autoImplicit false

/-!
# Nodes

A script is a tree of nodes.  Every node has a form, the slot of its parent in which it stands, and
an identity: two nodes that look alike are told apart by their numbers, and a node keeps its number
when it is moved.  The children of all slots stand in one list, in the order of the source.

Trees are built without identities (all zero) and numbered afterwards, in pre-order.
-/

namespace Untangle

/-- The identity of a node. -/
abbrev NodeId := Nat

/-- A node with its identity, the slot it stands in, its form and its children. -/
inductive Node where
  | mk (id : NodeId) (role : Role) (form : Form) (children : List Node)
  deriving Inhabited

namespace Node

/-- The identity of the node. -/
def id : Node → NodeId
  | .mk i _ _ _ => i

/-- The slot of the parent in which the node stands. -/
def role : Node → Role
  | .mk _ r _ _ => r

/-- What the node is. -/
def form : Node → Form
  | .mk _ _ f _ => f

/-- The children of all slots, left-out elements of arrays included. -/
def children : Node → List Node
  | .mk _ _ _ cs => cs

/-- The name of the kind of the node. -/
def kind (n : Node) : String := n.form.kind

/-- The node in another slot. -/
def inRole (r : Role) : Node → Node
  | .mk i _ f cs => .mk i r f cs

/-- The node with another form. -/
def withForm (f : Form) : Node → Node
  | .mk i r _ cs => .mk i r f cs

/-- The node with other children. -/
def withChildren (cs : List Node) : Node → Node
  | .mk i r f _ => .mk i r f cs

/-- A node that is not numbered yet. -/
def make (f : Form) (cs : List Node) : Node := .mk 0 .top f cs

/-- A node without children that is not numbered yet. -/
def leaf (f : Form) : Node := make f []

/-- The node in a slot that holds one. -/
def child? (n : Node) (r : Role) : Option Node := n.children.find? fun c => c.role == r

/-- The nodes of a slot, left-out elements of arrays included. -/
def childrenAt (n : Node) (r : Role) : List Node := n.children.filter fun c => c.role == r

/-- The name of an identifier. -/
def name? (n : Node) : Option Text :=
  match n.form with
  | .identifier t => some t
  | _ => none

/-- Whether the node stands for an element that is left out. -/
def isHole (n : Node) : Bool := n.form.isHole

/-! ## Assembly -/

/-- One node for a slot. -/
def at1 (r : Role) (n : Node) : List Node := [n.inRole r]

/-- One node or none for a slot. -/
def atOpt (r : Role) (n : Option Node) : List Node := n.toList.map (inRole r)

/-- A list of nodes for a slot. -/
def atMany (r : Role) (ns : List Node) : List Node := ns.map (inRole r)

/-- An identifier that is not numbered yet. -/
def ident (name : Text) : Node := leaf (.identifier name)

/-! ## Numbering -/

mutual

/-- The tree with its nodes numbered from `next` on in pre-order, and the first number not used. -/
def number : Node → NodeId → Node × NodeId
  | .mk _ r f cs, next =>
    let (cs', next') := numberAll cs (next + 1)
    (.mk next r f cs', next')

/-- The trees numbered one after the other. -/
def numberAll : List Node → NodeId → List Node × NodeId
  | [], next => ([], next)
  | c :: cs, next =>
    let (c', next') := number c next
    let (cs', next'') := numberAll cs next'
    (c' :: cs', next'')

end

/-! ## Walks -/

mutual

/-- Number of nodes. -/
def size : Node → Nat
  | .mk _ _ _ cs => 1 + sizeAll cs

/-- Number of nodes of some trees. -/
def sizeAll : List Node → Nat
  | [] => 0
  | c :: cs => size c + sizeAll cs

end

mutual

/-- Number of nodes on the longest way down. -/
def depth : Node → Nat
  | .mk _ _ _ cs => 1 + depthAll cs

/-- Number of nodes on the longest way down in some trees. -/
def depthAll : List Node → Nat
  | [] => 0
  | c :: cs => max (depth c) (depthAll cs)

end

mutual

/-- The node and all that stand below it, in pre-order, left-out elements of arrays apart. -/
def walk : Node → List Node
  | .mk i r f cs => if f.isHole then [] else .mk i r f cs :: walkAll cs

/-- The nodes of some trees in pre-order. -/
def walkAll : List Node → List Node
  | [] => []
  | c :: cs => walk c ++ walkAll cs

end

mutual

/-- As `walk`, but nothing below a function. -/
def walkShallow : Node → List Node
  | .mk i r f cs =>
    if f.isHole then []
    else if f.isFunction then [.mk i r f cs]
    else .mk i r f cs :: walkShallowAll cs

/-- The nodes of some trees in pre-order, nothing below functions. -/
def walkShallowAll : List Node → List Node
  | [] => []
  | c :: cs => walkShallow c ++ walkShallowAll cs

end

/-- The node and what stands below it, with nothing below the functions inside of it; the node itself
may be a function. -/
def walkOutsideFunctions (n : Node) : List Node := n :: walkShallowAll n.children

mutual

/-- The node with the given identity. -/
def findId (i : NodeId) : Node → Option Node
  | .mk j r f cs => if j == i then some (.mk j r f cs) else findIdAll i cs

/-- The node with the given identity in some trees. -/
def findIdAll (i : NodeId) : List Node → Option Node
  | [] => none
  | c :: cs =>
    match findId i c with
    | some n => some n
    | none => findIdAll i cs

end

/-- The identities of a tree in pre-order, left-out elements of arrays apart. -/
def ids (n : Node) : List NodeId := n.walk.map id

end Node

end Untangle
