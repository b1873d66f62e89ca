import Untangle.Analysis.Declaration

set_option autoImplicit false

/-!
# References

The second pass over a tree resolves each identifier: it is read, written, declared, or a mere name
that refers to nothing.
-/

namespace Untangle

/-- What happens to the identifiers of a subtree. -/
inductive Usage where
  | read
  | write
  | declare
  | skip
  deriving DecidableEq, Repr, Inhabited

namespace Usage

/-- Computed names are read; others are mere names. -/
def ofComputed (computed : Bool) : Usage := if computed then .read else .skip

/-- What happens to a child of a pattern that is written or declared. -/
def ofPatternChild (use : Usage) (form : Form) (role : Role) : Usage :=
  match form with
  | .assignmentPattern => if role == .right then .read else use
  | .property computed _ _ _ => if role == .key then ofComputed computed else use
  | .arrayPattern | .objectPattern | .rest | .identifier _ => use
  | _ => .read

/-- What happens to a child of a node that is read. -/
def ofReadChild (form : Form) (role : Role) (child : Form) : Usage :=
  match form, role with
  | .variableDeclarator, .id => .declare
  | .functionDeclaration _, .id | .functionExpression _, .id | .arrowFunction _, .id
  | .classDeclaration, .id | .classExpression, .id => .skip
  | .functionDeclaration _, .params | .functionExpression _, .params | .arrowFunction _, .params =>
    .declare
  | .catchClause, .param => .declare
  | .assignment _, .left => .write
  | .update _ _, _ => .write
  | .forInStatement, .left | .forOfStatement, .left =>
    match child with
    | .variableDeclaration _ => .read
    | _ => .write
  | .member computed, .property | .optionalMember computed, .property => ofComputed computed
  | .property computed _ _ _, .key => ofComputed computed
  | .methodDefinition computed _ _, .key => ofComputed computed
  | .labeledStatement, .label | .breakStatement, .label | .continueStatement, .label => .skip
  | .metaProperty, _ => .skip
  | _, _ => .read

/-- What happens to a child of a node. -/
def ofChild (use : Usage) (form : Form) (role : Role) (child : Form) : Usage :=
  match use with
  | .read => ofReadChild form role child
  | .write | .declare => ofPatternChild use form role
  | .skip => .skip

end Usage

namespace Analysis

/-- Notes what an identifier at a site does to the binding of its name. -/
def addReference (a : Analysis) (i : SiteId) (use : Usage) (name : Text) : Analysis :=
  match a.lookup name (a.site i).scope with
  | none => a
  | some b =>
    match use with
    | .write => a.addWrite b i
    | .read =>
      let node := (a.site i).node
      let a := match (a.resolved.get? node).filter fun b' => b' != b with
        | some b' => a.modifyBinding b' fun x => { x with reads := x.reads.erase node }
        | none => a
      let a := a.addRead b i
      { a with resolved := a.resolved.put node b }
    | _ => a

mutual

/-- Resolves the identifiers of a tree that stands at a site. -/
def resolve (a : Analysis) (i : SiteId) (use : Usage) : Node → Analysis
  | .mk id _ form children =>
    match use, form with
    | .skip, _ => a
    | _, .identifier name => a.addReference i use name
    | _, _ =>
      let outer := (a.site i).scope
      a.resolveAll i use form outer ((a.scopeOpenedBy? id).getD outer) children

/-- Resolves the identifiers of the children of a node. -/
def resolveAll (a : Analysis) (i : SiteId) (use : Usage) (form : Form) (outer inner : ScopeId) :
    List Node → Analysis
  | [] => a
  | .mk id role f cs :: rest =>
    if f.isHole then a.resolveAll i use form outer inner rest
    else
      let scope := childScope form role outer inner
      let (j, a) := a.addSite ⟨id, some i, role, form.isListed role, scope, false⟩
      let a := a.resolve j (use.ofChild form role f) (.mk id role f cs)
      a.resolveAll i use form outer inner rest

end

/-- Takes up a tree that was put at a site: its declarations first, then its references. -/
def register (a : Analysis) (i : SiteId) : Analysis :=
  let n := a.nodeAt i
  let parent := (a.site i).above.map fun p => (a.nodeAt p).form
  let a := a.declare i parent (a.site i).scope n
  a.resolve i .read n

/-- The analysis of a program whose nodes are numbered from one on. -/
def ofProgram (program : Node) : Analysis :=
  let a : Analysis :=
    { program := program
      next := program.size + 1
      sites := #[⟨program.id, none, .top, false, 0, false⟩]
      scopes := #[⟨.program, program.id, none, .empty, []⟩]
      bindings := #[]
      opened := Dict.empty.put program.id 0
      declared := .empty
      resolved := .empty
      attic := [] }
  a.register 0

end Analysis

end Untangle
