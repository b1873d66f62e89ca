import Untangle.Analysis.Basic
import Untangle.Sandbox.Literal

set_option autoImplicit false

/-!
# Declarations

The first pass over a tree opens the scopes and declares the names.  Variables and parameters belong to
the function around them; functions, classes, `let` and `const` to the block; a caught value to its
clause.  The body of a function and the body of a catch clause share the scope of their owner.
-/

namespace Untangle

namespace Analysis

/-- The kind of scope that a form opens below a parent. -/
def scopeKind? (form : Form) (parent : Option Form) : Option ScopeKind :=
  match form with
  | .functionDeclaration _ | .functionExpression _ | .arrowFunction _ => some .function
  | .blockStatement =>
    match parent with
    | some (.functionDeclaration _) | some (.functionExpression _) | some (.arrowFunction _)
    | some .catchClause => none
    | _ => some .block
  | .forStatement | .forInStatement | .forOfStatement => some .loop
  | .switchStatement => some .switch
  | .catchClause => some .catchClause
  | _ => none

/-- The scope that a node opens, opened now unless it was before. -/
def ensureScope (a : Analysis) (node : NodeId) (form : Form) (parent : Option Form)
    (outer : ScopeId) : Option ScopeId × Analysis :=
  match a.scopeOpenedBy? node with
  | some i => (some i, a)
  | none =>
    match scopeKind? form parent with
    | some kind =>
      let (i, a) := a.openScope kind node outer
      (some i, a)
    | none => (none, a)

/-- The scope in which a child is evaluated.  The name of a declared function belongs to the scope
around the function. -/
def childScope (form : Form) (role : Role) (outer inner : ScopeId) : ScopeId :=
  match form, role with
  | .functionDeclaration _, .id => outer
  | _, _ => inner

/-- Declares a name in a scope.  A node that is declared again is the same declaration in another
place; another node with a name of the scope writes the name again. -/
def declareName (a : Analysis) (scope : ScopeId) (kind : BindingKind) (i : SiteId) (name : Text) :
    Analysis :=
  let node := (a.site i).node
  match (a.declaredBy? node).filter fun b => (a.binding b).name == name with
  | some b => a.modifyBinding b fun x => { x with site := i }
  | none =>
    match (a.scope scope).bindings.get? name with
    | some b => a.addWrite b i
    | none =>
      let b := a.bindings.size
      let a := { a with
        bindings := a.bindings.push ⟨name, kind, i, scope, .empty, .empty⟩
        declared := a.declared.put node b }
      a.modifyScope scope fun s => { s with bindings := s.bindings.put name b }

/-- Declares the names of a pattern at a new site below a given one. -/
def declarePattern (a : Analysis) (i : SiteId) (pattern : Node) (listed : Bool) (scope : ScopeId)
    (kind : BindingKind) : Analysis :=
  let (j, a) := a.addSiteBelow i pattern listed scope
  pattern.patternNames.foldl (fun a name => a.declareName scope kind j name) a

/-- Notes that a variable of a scope is written by the loop at whose head it is declared. -/
def writtenByLoop (a : Analysis) (scope : ScopeId) (i : SiteId) (name : Text) : Analysis :=
  match (a.scope scope).bindings.get? name with
  | some b => a.addWrite b i
  | none => a

/-- Whether a declaration stands at the head of a loop over keys or values. -/
def isLoopHead (role : Role) (parent : Option Form) : Bool :=
  role == .left && match parent with
    | some .forInStatement | some .forOfStatement => true
    | _ => false

/-- Declares the variables of a declarator. -/
def declareVariable (a : Analysis) (i : SiteId) (kind : VariableKind) (loopHead : Bool)
    (outer : ScopeId) (declarator : Node) : Analysis :=
  let target := match kind with
    | .var => a.functionScope outer
    | _ => outer
  let names := ((declarator.child? .id).map Node.patternNames).getD []
  let (j, a) := a.addSiteBelow i declarator true outer
  names.foldl (fun a name =>
    let a := a.declareName target (.variable kind) j name
    if loopHead then a.writtenByLoop target j name else a) a

/-- Declares the own name and the parameters of a function. -/
def declareParameters (a : Analysis) (i : SiteId) (form : Form) (own : ScopeId)
    (children : List Node) : Analysis :=
  let a := match form, children.find? fun c => c.role == .id with
    | .functionExpression _, some name => a.declarePattern i name false own .ownName
    | _, _ => a
  (children.filter fun c => c.role == .params).foldl
    (fun a p => a.declarePattern i p true own .param) a

/-- Declares what a node itself declares. -/
def declareHere (a : Analysis) (i : SiteId) (form : Form) (parent : Option Form)
    (outer inner : ScopeId) (children : List Node) : Analysis :=
  match form with
  | .variableDeclaration kind =>
    let loopHead := isLoopHead (a.site i).role parent
    (children.filter fun c => c.role == .declarations).foldl
      (fun a d => a.declareVariable i kind loopHead outer d) a
  | .functionDeclaration _ =>
    let a := match (children.find? fun c => c.role == .id).bind Node.name? with
      | some name => a.declareName outer .hoisted i name
      | none => a
    a.declareParameters i form inner children
  | .functionExpression _ | .arrowFunction _ => a.declareParameters i form inner children
  | .classDeclaration =>
    match (children.find? fun c => c.role == .id).bind Node.name? with
    | some name => a.declareName outer (.variable .lexical) i name
    | none => a
  | .catchClause =>
    match children.find? fun c => c.role == .param with
    | some p => a.declarePattern i p false inner .caught
    | none => a
  | _ => a

mutual

/-- Opens the scopes and declares the names of a tree that stands at a site, in the scope `outer` and
below a node of the form `parent`. -/
def declare (a : Analysis) (i : SiteId) (parent : Option Form) (outer : ScopeId) : Node → Analysis
  | .mk id _ form children =>
    let (own, a) := a.ensureScope id form parent outer
    let inner := own.getD outer
    let a := a.declareHere i form parent outer inner children
    a.declareAll i form outer inner children

/-- Opens the scopes and declares the names of the children of a node. -/
def declareAll (a : Analysis) (i : SiteId) (form : Form) (outer inner : ScopeId) :
    List Node → Analysis
  | [] => a
  | .mk id role f cs :: rest =>
    if f.isHole then a.declareAll i form outer inner rest
    else
      let scope := childScope form role outer inner
      let (j, a) := a.addSite ⟨id, some i, role, form.isListed role, scope, false⟩
      let a := a.declare j (some form) scope (.mk id role f cs)
      a.declareAll i form outer inner rest

end

end Analysis

end Untangle
