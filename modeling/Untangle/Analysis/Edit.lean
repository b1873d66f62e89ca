import Untangle.Analysis.Reference
import Untangle.Tree.Build

set_option autoImplicit false

/-!
# Changes of an analysed program

A node is replaced or taken out through its site.  A change is refused where the site is not attached or
the slot cannot be without its node.  The program is then as it was; only the names of a declarator that
was to be taken out are forgotten before its slot is looked at.  New nodes get identities and are taken up
by the analysis; what was replaced goes to the attic.
-/

namespace Untangle

/-- What was to be done to a node. -/
inductive EditAction where
  | replace
  | remove
  deriving DecidableEq, Repr

/-- The word for what was to be done. -/
def EditAction.word : EditAction → String
  | .replace => "replace"
  | .remove => "remove"

/-- Why a change is refused. -/
inductive EditError where
  /-- The node is not in the program any more. -/
  | detached (action : EditAction) (kind : String)
  /-- The list in which the node has to stand is not there. -/
  | unlisted (action : EditAction) (kind : String)
  /-- The root of the program stays. -/
  | root (action : EditAction)
  /-- The slot needs its node. -/
  | needed (kind parentKind : String) (role : Role)
  deriving Repr

/-- The wording of the reason. -/
def EditError.message : EditError → String
  | .detached action kind => "cannot " ++ action.word ++ " a detached " ++ kind
  | .unlisted action kind => "cannot " ++ action.word ++ " a " ++ kind ++ " without its list"
  | .root action => "cannot " ++ action.word ++ " the root node"
  | .needed kind parentKind role =>
    "cannot remove " ++ kind ++ " from " ++ parentKind ++ "." ++ role.name

/-- A change that is refused, and the analysis that it leaves. -/
structure Refusal where
  reason : EditError
  left : Analysis

namespace Node

/-- A property whose value was replaced has its key written out. -/
def valueReplaced (role : Role) (n : Node) : Node :=
  match n.form, role with
  | .property computed kind method _, .value => n.withForm (.property computed kind method false)
  | _, _ => n

end Node

namespace Analysis

/-- The refusal of a change at a site that is not attached. -/
def unattached (a : Analysis) (i : SiteId) (action : EditAction) : EditError :=
  if a.standing i == .unlisted then .unlisted action (a.nodeAt i).kind
  else .detached action (a.nodeAt i).kind

/-- The node of a site and the site above it, where a change is allowed at all. -/
def editable (a : Analysis) (i : SiteId) (action : EditAction) : Except Refusal (Node × SiteId) :=
  match a.attachedNode? i with
  | none => .error ⟨a.unattached i action, a⟩
  | some n =>
    match (a.site i).above with
    | none => .error ⟨.root action, a⟩
    | some p => .ok (n, p)

/-- Puts some nodes in the place of the node of a site, and changes the parent. -/
def substitute (a : Analysis) (i p : SiteId) (old : Node) (replacements : List Node)
    (f : Node → Node) : Analysis :=
  let s := a.site i
  let step : Step := ⟨s.role, s.node⟩
  { a with
    program := a.program.changeAt (fun n => f (n.replaceChild step replacements)) (a.way p)
    attic := old :: a.attic }

/-- Gives identities to new nodes. -/
def adopt (a : Analysis) (ns : List Node) : List Node × Analysis :=
  let (ns', next) := Node.adoptAll ns a.next
  (ns', { a with next := next })

/-- Marks a site as one whose node was taken out. -/
def retire (a : Analysis) (i : SiteId) : Analysis := a.modifySite i fun s => { s with retired := true }

/-- Replaces the node of a site; the site goes on to the new node. -/
def replace (a : Analysis) (i : SiteId) (replacement : Node) : Except Refusal Analysis := do
  let (old, p) ← a.editable i .replace
  let (new, next) := replacement.adopt a.next
  let a := { a with next := next }
  let s := a.site i
  let a := a.substitute i p old [new] fun n => if s.listed then n else n.valueReplaced s.role
  let a := a.modifySite i fun s => { s with node := new.id }
  return a.register i

/-- Takes up nodes that were put into a list below a site; they are evaluated in the scope of that
site. -/
def registerSpliced (a : Analysis) (p : SiteId) (ns : List Node) : Analysis :=
  ns.foldl (fun a n =>
    let (j, a) := a.addSiteBelow p n true (a.site p).scope
    a.register j) a

/-- Puts several statements in the place of the node of a site: in a list they follow each other and
the site is retired, elsewhere they are put in a block. -/
def replaceMany (a : Analysis) (i : SiteId) (replacements : List Node) :
    Except Refusal Analysis := do
  if !a.isAttached i then throw ⟨a.unattached i .replace, a⟩
  let s := a.site i
  if s.listed then
    let (old, p) ← a.editable i .replace
    let (news, a) := a.adopt (replacements.map (Node.inRole s.role))
    let a := a.substitute i p old news fun n => n
    return (a.retire i).registerSpliced p news
  else a.replace i (.block replacements)

/-- Forgets the names that a declarator declares. -/
def forgetDeclarator (a : Analysis) (i : SiteId) (n : Node) : Analysis :=
  match n.form with
  | .variableDeclarator =>
    (((n.child? .id).map Node.patternNames).getD []).foldl (fun a name =>
      match a.lookup name (a.site i).scope with
      | some b =>
        if a.declarationId b == n.id then
          a.modifyScope (a.binding b).scope fun s => { s with bindings := s.bindings.erase name }
        else a
      | none => a) a
  | _ => a

/-- What stays in a slot for one node when its node is taken out, if it can be. -/
def leftBehind? (n parent : Node) (role : Role) : Option (List Node) :=
  match parent.form, role with
  | .forStatement, .init | .forStatement, .test | .forStatement, .update => some []
  | .returnStatement, .argument => some []
  | _, .alternate | _, .finalizer | _, .handler => some []
  | _, _ => if n.form.isStatementLike then some [.leaf .emptyStatement] else none

/-- Takes the node of a site out, whatever becomes of the parent. -/
def removeOne (a : Analysis) (i : SiteId) : Except Refusal Analysis := do
  let (n, p) ← a.editable i .remove
  let s := a.site i
  let parent := a.nodeAt p
  let a := a.forgetDeclarator i n
  let rest ←
    if s.listed then pure []
    else
      match leftBehind? n parent s.role with
      | some rest => pure rest
      | none => throw ⟨.needed n.kind parent.kind s.role, a⟩
  let (rest, a) := a.adopt rest
  return (a.substitute i p n rest fun n => n).retire i

/-- Whether a node is a declaration that declares nothing. -/
def isEmptyDeclaration (n : Node) : Bool :=
  match n.form with
  | .variableDeclaration _ => (n.childrenAt .declarations).isEmpty
  | _ => false

/-- Takes the node of a site out.  A declaration goes with its last declarator; a slot that cannot be
empty gets an empty statement. -/
def remove (a : Analysis) (i : SiteId) : Except Refusal Analysis := do
  let a ← a.removeOne i
  match (a.site i).listed, (a.site i).above with
  | true, some p => if isEmptyDeclaration (a.nodeAt p) then a.removeOne p else return a
  | _, _ => return a

end Analysis

end Untangle
