import Untangle.Dict
import Untangle.Tree.Edit

set_option autoImplicit false

/-!
# Scopes, bindings and sites

An analysis is a program together with its scopes, the names that are declared in them, and the places
where these names are read and written.

A place is kept as a site: the slot in which a node stands, below another site, and the scope in which
the node is evaluated.  Sites outlive changes of the program: a site is attached as long as the way
along the sites above it leads to its node, and a replacement that is made through a site moves the
site on to the new node.  What was taken out of the program is kept aside, because declarations and
functions that stand in it may still be asked for.
-/

namespace Untangle

/-- Number of a site. -/
abbrev SiteId := Nat

/-- Number of a scope. -/
abbrev ScopeId := Nat

/-- Number of a binding. -/
abbrev BindingId := Nat

/-- What opens a scope. -/
inductive ScopeKind where
  | program
  | function
  | block
  | loop
  | switch
  | catchClause
  deriving DecidableEq, Repr, Inhabited

/-- The word for a kind of scope. -/
def ScopeKind.word : ScopeKind → String
  | .program => "program"
  | .function => "function"
  | .block => "block"
  | .loop => "for"
  | .switch => "switch"
  | .catchClause => "catch"

/-- Whether variables that are declared inside belong to a scope of this kind. -/
def ScopeKind.isFunction : ScopeKind → Bool
  | .program | .function => true
  | _ => false

/-- How a name is declared. -/
inductive BindingKind where
  | variable (kind : VariableKind)
  | hoisted
  | param
  | ownName
  | caught
  deriving DecidableEq, Repr, Inhabited

/-- The word for a kind of binding. -/
def BindingKind.word : BindingKind → String
  | .variable k => k.word
  | .hoisted => "hoisted"
  | .param => "param"
  | .ownName => "local"
  | .caught => "catch"

/-- A place in the program. -/
structure Site where
  /-- The node that stands there, or that stood there last. -/
  node : NodeId
  /-- The site of the parent; the root of the program has none. -/
  above : Option SiteId
  role : Role
  listed : Bool
  /-- The scope in which the node is evaluated. -/
  scope : ScopeId
  /-- Whether the node was taken out through this site. -/
  retired : Bool
  deriving Repr, Inhabited

/-- How a site stands to the program. -/
inductive Standing where
  /-- The way to its node is there. -/
  | attached
  /-- The way to its node is gone. -/
  | detached
  /-- The list in which its node, or a node above it, has to stand is not there. -/
  | unlisted
  deriving DecidableEq, Repr

/-- A scope.  The names declared in it stand in the order of their declarations. -/
structure Scope where
  kind : ScopeKind
  /-- The node that opens the scope. -/
  node : NodeId
  parent : Option ScopeId
  bindings : Dict Text BindingId
  /-- The scopes directly inside, in the order in which they were found. -/
  children : List ScopeId
  deriving Inhabited

/-- A declared name with the places where it is read, and where it is written after its
declaration. -/
structure Binding where
  name : Text
  kind : BindingKind
  /-- Where the name is declared. -/
  site : SiteId
  scope : ScopeId
  reads : Dict NodeId SiteId
  writes : Dict NodeId SiteId
  deriving Inhabited

/-- A program with its scopes and bindings. -/
structure Analysis where
  program : Node
  /-- The first identity that no node has had. -/
  next : NodeId
  sites : Array Site
  scopes : Array Scope
  bindings : Array Binding
  /-- The scopes by the nodes that open them. -/
  opened : Dict NodeId ScopeId
  /-- The bindings by the nodes that declare them. -/
  declared : Dict NodeId BindingId
  /-- The bindings by the identifiers that read them. -/
  resolved : Dict NodeId BindingId
  /-- What was taken out of the program, the latest first. -/
  attic : List Node
  deriving Inhabited

namespace Analysis

/-! ## Lookup -/

/-- The site of a number. -/
def site (a : Analysis) (i : SiteId) : Site := a.sites.getD i default

/-- The scope of a number. -/
def scope (a : Analysis) (i : ScopeId) : Scope := a.scopes.getD i default

/-- The binding of a number. -/
def binding (a : Analysis) (i : BindingId) : Binding := a.bindings.getD i default

/-- The way from the root of the program to a site, and on from there.  A site is always younger than
the one above it. -/
def wayOnto (a : Analysis) (i : SiteId) (onward : Way) : Way :=
  let s := a.site i
  match s.above with
  | none => onward
  | some p => if p < i then wayOnto a p (⟨s.role, s.node⟩ :: onward) else onward
termination_by i

/-- The way from the root of the program to a site. -/
def way (a : Analysis) (i : SiteId) : Way := a.wayOnto i []

/-- The node of a site, if the way to it is still there. -/
def attachedNode? (a : Analysis) (i : SiteId) : Option Node :=
  if (a.site i).retired then none else a.program.follow (a.way i)

/-- Whether the node of a site is still reached through it. -/
def isAttached (a : Analysis) (i : SiteId) : Bool := (a.attachedNode? i).isSome

/-- The node of an identity, in the program or among what was taken out. -/
def find? (a : Analysis) (n : NodeId) : Option Node :=
  match a.program.findId n with
  | some found => some found
  | none => a.attic.findSome? (Node.findId n)

/-- The node of a site, attached or not. -/
def nodeAt (a : Analysis) (i : SiteId) : Node :=
  match a.attachedNode? i with
  | some n => n
  | none => (a.find? (a.site i).node).getD (.leaf .hole)

/-- How a site stands to the program, going up from it: a site in a list fails where the node above has
moved on to one without such a list. -/
def standingUp (a : Analysis) (i : SiteId) : Standing :=
  let s := a.site i
  match s.above with
  | none => .attached
  | some p =>
    let parent := (a.find? (a.site p).node).getD (.leaf .hole)
    if s.listed && !parent.form.isListed s.role then .unlisted
    else if parent.children.any fun c => (⟨s.role, s.node⟩ : Step).leadsTo c then
      if p < i then standingUp a p else .attached
    else .detached
termination_by i

/-- How a site stands to the program. -/
def standing (a : Analysis) (i : SiteId) : Standing :=
  if (a.site i).retired then .detached
  else if a.isAttached i then .attached
  else a.standingUp i

/-- The scope that a node opens. -/
def scopeOpenedBy? (a : Analysis) (n : NodeId) : Option ScopeId := a.opened.get? n

/-- The nearest scope, from a given one outwards, to which variables belong. -/
def functionScope (a : Analysis) (i : ScopeId) : ScopeId :=
  let s := a.scope i
  if s.kind.isFunction then i
  else
    match s.parent with
    | none => i
    | some p => if p < i then functionScope a p else i
termination_by i

/-- The binding of a name that is seen from a scope. -/
def lookup (a : Analysis) (name : Text) (i : ScopeId) : Option BindingId :=
  let s := a.scope i
  match s.bindings.get? name with
  | some b => some b
  | none =>
    match s.parent with
    | none => none
    | some p => if p < i then lookup a name p else none
termination_by i

/-- The node that declares a binding. -/
def declarationId (a : Analysis) (b : BindingId) : NodeId := (a.site (a.binding b).site).node

/-- The binding that a node declares. -/
def declaredBy? (a : Analysis) (n : NodeId) : Option BindingId :=
  (a.declared.get? n).filter fun b => a.declarationId b == n

/-- The binding that an identifier reads. -/
def readBy? (a : Analysis) (identifier : NodeId) : Option BindingId := a.resolved.get? identifier

/-- The places where a binding is read that are still in the program. -/
def references (a : Analysis) (b : BindingId) : List SiteId :=
  (a.binding b).reads.values.filter a.isAttached

/-- The places where a binding is written again that are still in the program. -/
def violations (a : Analysis) (b : BindingId) : List SiteId :=
  (a.binding b).writes.values.filter a.isAttached

/-- Whether a binding keeps its first value. -/
def isConstant (a : Analysis) (b : BindingId) : Bool := (a.violations b).isEmpty

/-- A scope and those inside of it, the outer before the inner, going down at most `fuel` levels. -/
def scopesWithin (a : Analysis) : Nat → ScopeId → List ScopeId
  | 0, i => [i]
  | fuel + 1, i => i :: (a.scope i).children.flatMap (a.scopesWithin fuel)

/-- All scopes, the outer before the inner. -/
def allScopes (a : Analysis) : List ScopeId := a.scopesWithin a.scopes.size 0

/-- All bindings, by scope and then by declaration. -/
def allBindings (a : Analysis) : List BindingId :=
  a.allScopes.flatMap fun i => (a.scope i).bindings.values

/-! ## Growth -/

/-- A new site. -/
def addSite (a : Analysis) (s : Site) : SiteId × Analysis :=
  (a.sites.size, { a with sites := a.sites.push s })

/-- A new site below another one. -/
def addSiteBelow (a : Analysis) (i : SiteId) (child : Node) (listed : Bool) (scope : ScopeId) :
    SiteId × Analysis :=
  a.addSite ⟨child.id, some i, child.role, listed, scope, false⟩

/-- Changes a site. -/
def modifySite (a : Analysis) (i : SiteId) (f : Site → Site) : Analysis :=
  { a with sites := a.sites.modify i f }

/-- Changes a scope. -/
def modifyScope (a : Analysis) (i : ScopeId) (f : Scope → Scope) : Analysis :=
  { a with scopes := a.scopes.modify i f }

/-- Changes a binding. -/
def modifyBinding (a : Analysis) (b : BindingId) (f : Binding → Binding) : Analysis :=
  { a with bindings := a.bindings.modify b f }

/-- Opens a scope inside of another one. -/
def openScope (a : Analysis) (kind : ScopeKind) (node : NodeId) (parent : ScopeId) :
    ScopeId × Analysis :=
  let i := a.scopes.size
  let a := { a with scopes := a.scopes.push ⟨kind, node, some parent, .empty, []⟩ }
  let a := a.modifyScope parent fun s => { s with children := s.children ++ [i] }
  (i, { a with opened := a.opened.put node i })

/-- Notes that a binding is written at a site. -/
def addWrite (a : Analysis) (b : BindingId) (i : SiteId) : Analysis :=
  let n := (a.site i).node
  a.modifyBinding b fun x => { x with writes := x.writes.put n i }

/-- Notes that a binding is read at a site. -/
def addRead (a : Analysis) (b : BindingId) (i : SiteId) : Analysis :=
  let n := (a.site i).node
  a.modifyBinding b fun x => { x with reads := x.reads.put n i }

end Analysis

end Untangle
