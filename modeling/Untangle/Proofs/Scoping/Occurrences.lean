import Untangle.Proofs.Analysis.Usage
import Untangle.Proofs.Tree.Code

set_option autoImplicit false

/-!
# Static scoping

Which declaration a name designates is a matter of the tree alone: it is the one of the innermost scope
around the name in which the name is declared.  Here this is said without the passes of an analysis.

Functions, catch clauses and `switch` statements have a head from which what their body declares is not
seen: the parameters, and the value that is switched on.  Some names come without a declaration: the own
name of a class that is an expression, and `arguments` in a function that is no arrow function.
-/

namespace Untangle

/-! ## Scopes of the tree -/

/-- The parts of what opens a scope. -/
inductive Part where
  /-- What is evaluated before the body: parameters, the value that is switched on. -/
  | head
  | body
  deriving DecidableEq

namespace Form

/-- A class that is an expression. -/
def isClassExpression : Form → Bool
  | .classExpression => true
  | _ => false

/-- A function or a catch clause: what a block can be the body of. -/
def ownsBlock (f : Form) : Bool :=
  match f with
  | .catchClause => true
  | f => f.isFunction

/-- A statement that declares a name of its own. -/
def isNamedStatement : Form → Bool
  | .functionDeclaration _ | .classDeclaration => true
  | _ => false

/-- Whether a node opens a scope below a node of the form `parent`.  The body of a function or of a catch
clause belongs to the scope of its owner. -/
def opensScope (f : Form) (parent : Option Form) : Bool :=
  match f with
  | .program => parent.isNone
  | .forStatement | .forInStatement | .forOfStatement | .switchStatement | .catchClause
  | .classExpression => true
  | .blockStatement => !parent.any ownsBlock
  | f => f.isFunction

/-- The part of an opener to which its slots belong. -/
def partAt (f : Form) (r : Role) : Part :=
  match f, r with
  | .functionDeclaration _, .params | .functionExpression _, .params | .arrowFunction _, .params
  | .catchClause, .param | .switchStatement, .discriminant => .head
  | _, _ => .body

end Form

/-- A scope around a node: what opens it, and the part of it in which the node stands. -/
structure Enclosure where
  opener : Node
  part : Part

/-- The scope to which `let`, `const`, functions and classes belong. -/
def lexicalHost (around : List Enclosure) : Option Enclosure :=
  around.find? fun e => !e.opener.form.isClassExpression

/-- The scope to which variables belong: the one of the nearest function, or the outermost. -/
def functionHost : List Enclosure → Option Enclosure
  | [] => none
  | [e] => some e
  | e :: outer => if e.opener.form.isFunction then some e else functionHost outer

/-- The scope to which the names of a declaration belong. -/
def VariableKind.host (kind : VariableKind) (around : List Enclosure) : Option Enclosure :=
  match kind with
  | .var => functionHost around
  | _ => lexicalHost around

theorem mem_of_functionHost {around : List Enclosure} {e : Enclosure}
    (h : functionHost around = some e) : e ∈ around := by
  induction around with
  | nil => cases h
  | cons e' outer ih =>
    cases outer with
    | nil =>
      cases h
      exact List.mem_cons_self
    | cons e'' outer =>
      rw [functionHost] at h
      · split at h
        · cases h
          exact List.mem_cons_self
        · exact List.mem_cons_of_mem _ (ih h)
      · intro hnil
        cases hnil

theorem VariableKind.mem_of_host {kind : VariableKind} {around : List Enclosure} {e : Enclosure}
    (h : kind.host around = some e) : e ∈ around := by
  unfold VariableKind.host at h
  split at h
  · exact mem_of_functionHost h
  · exact List.mem_of_find?_eq_some h

/-! ## Occurrences -/

/-- A node of a program with the form of its parent and the scopes around it, the innermost first. -/
structure Occurrence where
  node : Node
  parent : Option Form
  around : List Enclosure

namespace Occurrence

variable {root : Node} {o o' : Occurrence}

/-- The scopes around the children in a slot.  The name of a declared function stands outside of the
function. -/
def aroundAt (o : Occurrence) (r : Role) : List Enclosure :=
  match o.node.form, r with
  | .functionDeclaration _, .id => o.around
  | f, r => if f.opensScope o.parent then ⟨o.node, f.partAt r⟩ :: o.around else o.around

/-- A child of the node. -/
def child (o : Occurrence) (c : Node) : Occurrence := ⟨c, some o.node.form, o.aroundAt c.role⟩

/-- The nodes of a program, left-out elements of arrays apart. -/
inductive Of (root : Node) : Occurrence → Prop
  | root : Of root ⟨root, none, []⟩
  | child {o : Occurrence} {c : Node} (ho : Of root o) (hc : c ∈ o.node.children)
      (hhole : c.isHole = false) : Of root (o.child c)

/-- The patterns that name a function, a parameter or what is caught. -/
def headPatterns (o : Occurrence) : List Node :=
  match o.node.form with
  | .functionExpression _ => (o.node.child? .id).toList ++ o.node.childrenAt .params
  | .functionDeclaration _ | .arrowFunction _ => o.node.childrenAt .params
  | .catchClause => (o.node.child? .param).toList
  | _ => []

/-- The names of a declarator. -/
def variableNames (d : Node) : List Text := ((d.child? .id).map Node.patternNames).getD []

/-- What a node declares: through which node, in which scope, and which name. -/
inductive Declares (o : Occurrence) : Node → Enclosure → Text → Prop
  | declarator {kind : VariableKind} {d : Node} {e : Enclosure} {name : Text}
      (hform : o.node.form = .variableDeclaration kind) (hd : d ∈ o.node.childrenAt .declarations)
      (hname : name ∈ variableNames d) (he : kind.host o.around = some e) : Declares o d e name
  | statement {e : Enclosure} {name : Text} (hform : o.node.form.isNamedStatement = true)
      (hname : (o.node.child? .id).bind Node.name? = some name)
      (he : lexicalHost o.around = some e) : Declares o o.node e name
  | pattern {d : Node} {name : Text} (hd : d ∈ o.headPatterns) (hname : name ∈ d.patternNames) :
      Declares o d ⟨o.node, .head⟩ name

end Occurrence

/-- A name is declared in a part of a scope. -/
def Enclosure.Binds (root : Node) (e : Enclosure) (name : Text) : Prop :=
  ∃ o d, Occurrence.Of root o ∧ o.Declares d e name

/-- Names that come without a declaration. -/
def Node.ProvidesName (n : Node) (name : Text) : Prop :=
  match n.form with
  | .classExpression => (n.child? .id).bind Node.name? = some name
  | .functionDeclaration _ | .functionExpression _ => name = Text.of "arguments"
  | _ => False

/-- A scope in which a name is found from inside: what the head declares is seen from everywhere, what
the body declares only from the body. -/
def Enclosure.Sees (root : Node) (e : Enclosure) (name : Text) : Prop :=
  e.opener.ProvidesName name ∨ Enclosure.Binds root ⟨e.opener, .head⟩ name ∨
    (e.part = .body ∧ Enclosure.Binds root ⟨e.opener, .body⟩ name)

/-- A scope in one of whose parts a name is declared. -/
def Enclosure.HasName (root : Node) (e : Enclosure) (name : Text) : Prop :=
  ∃ part, Enclosure.Binds root ⟨e.opener, part⟩ name

/-- What opens the innermost of the scopes around that have a property. -/
inductive Innermost (P : Enclosure → Prop) : List Enclosure → Node → Prop
  | here {e : Enclosure} {outer : List Enclosure} (he : P e) : Innermost P (e :: outer) e.opener
  | outward {e : Enclosure} {outer : List Enclosure} {s : Node} (he : ¬ P e)
      (houter : Innermost P outer s) : Innermost P (e :: outer) s

/-- The scope whose declaration a name designates. -/
def Designates (root : Node) (name : Text) (around : List Enclosure) (s : Node) : Prop :=
  Innermost (fun e => e.Sees root name) around s

theorem Innermost.unique {P : Enclosure → Prop} {around : List Enclosure} {s s' : Node}
    (h : Innermost P around s) (h' : Innermost P around s') : s = s' := by
  induction h with
  | here he =>
    cases h' with
    | here _ => rfl
    | outward he' _ => exact absurd he he'
  | outward he _ ih =>
    cases h' with
    | here he' => exact absurd he' he
    | outward _ houter' => exact ih houter'

theorem Innermost.congr {P Q : Enclosure → Prop} {around : List Enclosure} {s : Node}
    (hPQ : ∀ e ∈ around, P e ↔ Q e) (h : Innermost P around s) : Innermost Q around s := by
  induction h with
  | here he => exact .here ((hPQ _ List.mem_cons_self).mp he)
  | outward he _ ih =>
    exact .outward (fun hq => he ((hPQ _ List.mem_cons_self).mpr hq))
      (ih fun e he' => hPQ e (List.mem_cons_of_mem _ he'))

theorem innermost_nil {P : Enclosure → Prop} (s : Node) : ¬ Innermost P [] s := fun h => by cases h

/-- Where a scope does not have the property, the scopes outside of it are looked at. -/
theorem innermost_cons_of_not {P : Enclosure → Prop} {e : Enclosure} (he : ¬ P e)
    (outer : List Enclosure) (s : Node) : Innermost P (e :: outer) s ↔ Innermost P outer s := by
  refine ⟨fun h => ?_, .outward he⟩
  cases h with
  | here he' => exact absurd he' he
  | outward _ houter => exact houter

/-- A name for which neither heads nor names without a declaration matter: no scope in whose head the
name stands declares it in the body alone, and none provides it undeclared. -/
structure Unaffected (root : Node) (name : Text) (around : List Enclosure) : Prop where
  heads : ∀ e ∈ around, e.part = .head → Enclosure.Binds root ⟨e.opener, .body⟩ name →
    Enclosure.Binds root ⟨e.opener, .head⟩ name
  provided : ∀ e ∈ around, e.opener.ProvidesName name → e.HasName root name

/-- Such a name designates the innermost of all scopes around in which it is declared. -/
theorem Unaffected.designates_iff {root : Node} {name : Text} {around : List Enclosure}
    (h : Unaffected root name around) (s : Node) :
    Designates root name around s ↔ Innermost (fun e => e.HasName root name) around s := by
  have hsees : ∀ e ∈ around, e.Sees root name ↔ e.HasName root name := by
    intro e he
    constructor
    · rintro (hprovided | hhead | ⟨-, hbody⟩)
      · exact h.provided e he hprovided
      · exact ⟨_, hhead⟩
      · exact ⟨_, hbody⟩
    · rintro ⟨part, hbinds⟩
      cases part with
      | head => exact .inr (.inl hbinds)
      | body =>
        cases hpart : e.part with
        | head => exact .inr (.inl (h.heads e he hpart hbinds))
        | body => exact .inr (.inr ⟨hpart, hbinds⟩)
  exact ⟨.congr hsees, .congr fun e he => (hsees e he).symm⟩

/-! ## Scripts -/

/-- Whether a declaration consists of declarators. -/
def Node.hasDeclarators (n : Node) : Bool :=
  match n.form with
  | .variableDeclaration _ => (n.childrenAt .declarations).all fun d =>
      match d.form with
      | .variableDeclarator => true
      | _ => false
  | _ => true

/-- A program with distinct identities, whose declarations consist of declarators. -/
structure Script (root : Node) : Prop where
  program : root.form = .program
  identities : root.identities.Nodup
  declarators : root.everywhere Node.hasDeclarators = true

theorem Script.form_of_declarations {root n d : Node} (h : Script root) (hn : n.Inside root)
    {kind : VariableKind} (hform : n.form = .variableDeclaration kind)
    (hd : d ∈ n.childrenAt .declarations) : d.form = .variableDeclarator := by
  have hall := Node.everywhere_iff.mp h.declarators n hn
  unfold Node.hasDeclarators at hall
  rw [hform] at hall
  have hone := List.all_eq_true.mp hall d hd
  split at hone
  · next hform => exact hform
  · cases hone

namespace Occurrence

variable {root : Node} {o o' : Occurrence}

theorem Of.inside (ho : Of root o) : o.node.Inside root := by
  induction ho with
  | root => exact .self root
  | child _ hc _ ih => exact (Node.Inside.child hc).trans ih

theorem mem_aroundAt {r : Role} {e : Enclosure} (he : e ∈ o.aroundAt r) :
    e ∈ o.around ∨ e.opener = o.node := by
  unfold aroundAt at he
  split at he
  · exact .inl he
  · split at he
    · obtain rfl | he := List.mem_cons.mp he
      · exact .inr rfl
      · exact .inl he
    · exact .inl he

theorem Of.opener_inside (ho : Of root o) {e : Enclosure} (he : e ∈ o.around) :
    e.opener.Inside root := by
  induction ho with
  | root => cases he
  | child ho _ _ ih =>
    obtain he | heq := mem_aroundAt he
    · exact ih he
    · exact heq ▸ ho.inside

/-- In a program with distinct identities every node occurs once. -/
theorem Of.unique (hroot : root.identities.Nodup) (ho : Of root o) (ho' : Of root o')
    (hnode : o.node = o'.node) : o = o' := by
  induction ho generalizing o' with
  | root =>
    cases ho' with
    | root => rfl
    | child ho' hc _ =>
      subst hnode
      exact absurd hc ho'.inside.not_child
  | @child p c hp hc _ ih =>
    cases ho' with
    | root =>
      change c = root at hnode
      subst hnode
      exact absurd hc hp.inside.not_child
    | @child p' c' hp' hc' _ =>
      change c = c' at hnode
      subst hnode
      rw [ih hp' (Node.Inside.parent_unique hroot hp.inside hp'.inside hc hc')]

theorem Of.unique_of_id (hroot : root.identities.Nodup) (ho : Of root o) (ho' : Of root o')
    (hid : o.node.id = o'.node.id) : o = o' :=
  ho.unique hroot ho' (Node.Inside.eq_of_id hroot ho.inside ho'.inside hid)

/-- Such patterns stand in the slots of functions and catch clauses that declare. -/
theorem slot_of_headPatterns {d : Node} (hd : d ∈ o.headPatterns) :
    d ∈ o.node.children ∧ o.node.form.declaresAt d.role = true ∧ o.node.form.ownsBlock = true := by
  unfold headPatterns at hd
  split at hd
  · next hform =>
    rw [hform]
    obtain hd | hd := List.mem_append.mp hd
    · obtain ⟨hc, hrole⟩ := Node.mem_of_child? (Option.mem_toList.mp hd)
      exact ⟨hc, by rw [hrole]; rfl, rfl⟩
    · obtain ⟨hc, hrole⟩ := Node.mem_childrenAt.mp hd
      exact ⟨hc, by rw [hrole]; rfl, rfl⟩
  · next hform =>
    obtain ⟨hc, hrole⟩ := Node.mem_childrenAt.mp hd
    exact ⟨hc, by rw [hform, hrole]; rfl, by rw [hform]; rfl⟩
  · next hform =>
    obtain ⟨hc, hrole⟩ := Node.mem_childrenAt.mp hd
    exact ⟨hc, by rw [hform, hrole]; rfl, by rw [hform]; rfl⟩
  · next hform =>
    obtain ⟨hc, hrole⟩ := Node.mem_of_child? (Option.mem_toList.mp hd)
    exact ⟨hc, by rw [hform, hrole]; rfl, by rw [hform]; rfl⟩
  · cases hd

theorem Declares.inside {d : Node} {e : Enclosure} {name : Text} (ho : Of root o)
    (h : o.Declares d e name) : d.Inside root ∧ e.opener.Inside root := by
  have hchild : ∀ {d}, d ∈ o.node.children → d.Inside root := fun hd =>
    (Node.Inside.child hd).trans ho.inside
  cases h with
  | declarator _ hd _ he =>
    exact ⟨hchild (Node.mem_childrenAt.mp hd).1, ho.opener_inside (VariableKind.mem_of_host he)⟩
  | statement _ _ he => exact ⟨ho.inside, ho.opener_inside (List.mem_of_find?_eq_some he)⟩
  | pattern hd _ => exact ⟨hchild (slot_of_headPatterns hd).1, ho.inside⟩

theorem patternNames_of_statement {n : Node} (h : n.form.isNamedStatement = true) :
    n.patternNames = [] := by
  cases n with
  | mk id role form cs =>
    change form.isNamedStatement = true at h
    unfold Form.isNamedStatement at h
    split at h
    · simp [Node.patternNames]
    · simp [Node.patternNames]
    · cases h

/-- What has names as a pattern does not declare its own name. -/
theorem isNamedStatement_of_patternNames {n : Node} {name : Text} (hname : name ∈ n.patternNames) :
    n.form.isNamedStatement = false := by
  cases hform : n.form.isNamedStatement with
  | false => rfl
  | true =>
    rw [patternNames_of_statement hform] at hname
    cases hname

/-- Nor does a declarator. -/
theorem isNamedStatement_of_declarations (hroot : Script root) (ho : Of root o) {d : Node}
    {kind : VariableKind} (hform : o.node.form = .variableDeclaration kind)
    (hd : d ∈ o.node.childrenAt .declarations) : d.form.isNamedStatement = false := by
  rw [hroot.form_of_declarations ho.inside hform hd]
  rfl

theorem not_mem_headPatterns_of_declarations {d : Node} {kind : VariableKind}
    (hform : o.node.form = .variableDeclaration kind) : d ∉ o.headPatterns := by
  intro hd
  have howns := (slot_of_headPatterns hd).2.2
  rw [hform] at howns
  cases howns

/-- A node declares names of one scope only. -/
theorem Declares.opener_unique (hroot : Script root) (ho : Of root o) (ho' : Of root o') {d d' : Node}
    {e e' : Enclosure} {name name' : Text} (h : o.Declares d e name) (h' : o'.Declares d' e' name')
    (hid : d.id = d'.id) : e.opener = e'.opener := by
  have hd := Node.Inside.eq_of_id hroot.identities (h.inside ho).1 (h'.inside ho').1 hid
  have hparent : d ∈ o.node.children → d' ∈ o'.node.children → o = o' := fun hc hc' =>
    ho.unique hroot.identities ho'
      (Node.Inside.parent_unique hroot.identities ho.inside ho'.inside hc (hd ▸ hc'))
  cases h with
  | declarator hform hc _ he =>
    cases h' with
    | declarator hform' hc' _ he' =>
      cases hparent (Node.mem_childrenAt.mp hc).1 (Node.mem_childrenAt.mp hc').1
      cases hform.symm.trans hform'
      cases he.symm.trans he'
      rfl
    | statement hform' _ _ =>
      cases hform'.symm.trans (hd ▸ isNamedStatement_of_declarations hroot ho hform hc)
    | pattern hc' _ =>
      cases hparent (Node.mem_childrenAt.mp hc).1 (slot_of_headPatterns hc').1
      exact absurd hc' (not_mem_headPatterns_of_declarations hform)
  | statement hform _ he =>
    cases h' with
    | declarator hform' hc' _ _ =>
      cases hform.symm.trans (hd ▸ isNamedStatement_of_declarations hroot ho' hform' hc')
    | statement _ _ he' =>
      cases ho.unique hroot.identities ho' hd
      cases he.symm.trans he'
      rfl
    | pattern _ hname' => cases hform.symm.trans (hd ▸ isNamedStatement_of_patternNames hname')
  | pattern hc hname =>
    cases h' with
    | declarator hform' hc' _ _ =>
      cases hparent (slot_of_headPatterns hc).1 (Node.mem_childrenAt.mp hc').1
      exact absurd hc (not_mem_headPatterns_of_declarations hform')
    | statement hform' _ _ => cases hform'.symm.trans (hd ▸ isNamedStatement_of_patternNames hname)
    | pattern hc' _ =>
      cases hparent (slot_of_headPatterns hc).1 (slot_of_headPatterns hc').1
      rfl

end Occurrence

end Untangle
