import Untangle.Analysis.Reference
import Untangle.Proofs.Tree.Identities

set_option autoImplicit false

/-!
# What happens to the nodes of a program

The pass that resolves names hands down what happens to a node from its parent.  Here this is compared
with the grammar: some slots hold mere names, some hold what is declared, and to some something is
assigned.  What is declared or assigned hands this on to the parts of a pattern.

In a program with distinct identities every node is reached in one way only.  Mere names are then
passed over and what is declared is not read, with one exception: below a member to which something is
assigned all is read, the name of the property as well.
-/

namespace Untangle

/-! ## Slots -/

namespace Form

/-- Slots that hold a mere name. -/
def namesAt (f : Form) (r : Role) : Bool :=
  match f, r with
  | .member false, .property | .optionalMember false, .property => true
  | .property false _ _ _, .key | .methodDefinition false _ _, .key => true
  | .labeledStatement, .label | .breakStatement, .label | .continueStatement, .label => true
  | _, _ => false

/-- Slots that hold a declared name or a pattern of declared names. -/
def declaresAt (f : Form) (r : Role) : Bool :=
  match f, r with
  | .variableDeclarator, .id => true
  | .functionDeclaration _, .id | .functionExpression _, .id | .arrowFunction _, .id => true
  | .classDeclaration, .id | .classExpression, .id => true
  | .functionDeclaration _, .params | .functionExpression _, .params
  | .arrowFunction _, .params => true
  | .catchClause, .param => true
  | _, _ => false

/-- Slots to which something is assigned. -/
def assignsAt (f : Form) (r : Role) (child : Form) : Bool :=
  match f, r, child with
  | .assignment _, .left, _ | .update _ _, _, _ => true
  | .forInStatement, .left, .variableDeclaration _ => false
  | .forOfStatement, .left, .variableDeclaration _ => false
  | .forInStatement, .left, _ | .forOfStatement, .left, _ => true
  | _, _, _ => false

/-- Slots of a pattern that are declared or assigned with the pattern: all but keys and default
values. -/
def partsAt (f : Form) (r : Role) : Bool :=
  match f with
  | .assignmentPattern => r != .right
  | .property _ _ _ _ => r != .key
  | .arrayPattern | .objectPattern | .rest => true
  | _ => false

/-- Whether a form is an access to a property. -/
def isMember : Form → Bool
  | .member _ | .optionalMember _ => true
  | _ => false

/-- Whether a form can be declared or assigned.  Functions, classes, declarators and catch clauses
cannot, nor can methods, labelled statements and jumps. -/
def isTarget : Form → Bool
  | .functionDeclaration _ | .functionExpression _ | .arrowFunction _ => false
  | .classDeclaration | .classExpression | .methodDefinition _ _ _ => false
  | .variableDeclarator | .catchClause => false
  | .labeledStatement | .breakStatement | .continueStatement => false
  | _ => true

theorem not_declaresAt_of_isTarget {f : Form} (h : f.isTarget) (r : Role) : ¬ f.declaresAt r := by
  unfold declaresAt
  split
  all_goals first
    | cases h
    | exact Bool.false_ne_true

end Form

/-- A node in certain slots of a tree, or a part of a pattern in such a slot. -/
inductive Placed (root : Node) (At : Form → Role → Form → Prop) : Node → Prop
  | slot {n c : Node} (hn : n.Inside root) (hc : c ∈ n.children) (hat : At n.form c.role c.form) :
      Placed root At c
  | part {n c : Node} (hn : Placed root At n) (hc : c ∈ n.children)
      (hpart : n.form.partsAt c.role) : Placed root At c

theorem Placed.inside {root c : Node} {At : Form → Role → Form → Prop} (h : Placed root At c) :
    c.Inside root := by
  induction h with
  | slot hn hc _ => exact (Node.Inside.child hc).trans hn
  | part _ hc _ ih => exact (Node.Inside.child hc).trans ih

/-- A name in declaring position, or a pattern of such names. -/
def Declared (root : Node) : Node → Prop := Placed root fun f r _ => f.declaresAt r

/-- What is declared, or something is assigned to. -/
def Target (root : Node) : Node → Prop :=
  Placed root fun f r child => f.declaresAt r ∨ f.assignsAt r child

/-- What holds of the forms in all slots that are declared or assigned holds of all targets. -/
theorem form_of_target {root n : Node} {P : Form → Prop}
    (hslots : ∀ p : Node, p.Inside root → ∀ c ∈ p.children,
      p.form.declaresAt c.role ∨ p.form.assignsAt c.role c.form ∨ p.form.partsAt c.role → P c.form)
    (hn : Target root n) : P n.form := by
  cases hn with
  | slot hp hc hat => exact hslots _ hp _ hc (hat.imp_right .inl)
  | part hp hc hpart => exact hslots _ hp.inside _ hc (.inr (.inr hpart))

/-- A tree with distinct identities in which nothing is assigned that cannot be. -/
structure Grammatical (root : Node) : Prop where
  identities : root.identities.Nodup
  targets : ∀ n, Target root n → n.form.isTarget

/-! ## Usage -/

/-- What happens to a node when the identifiers of a tree are resolved.  Nothing stands below an
identifier. -/
inductive Used (root : Node) : Usage → Node → Prop
  | root : Used root .read root
  | child {u : Usage} {n c : Node} (hn : Used root u n) (hinner : ∀ name, n.form ≠ .identifier name)
      (hc : c ∈ n.children) : Used root (u.ofChild n.form c.role c.form) c

namespace Usage

variable {f : Form} {r : Role} {u : Usage}

/-- Below a node that is read, what is neither read nor passed over is declared or assigned. -/
theorem slot_of_ofReadChild {child : Form} (hread : ofReadChild f r child ≠ .read)
    (hskip : ofReadChild f r child ≠ .skip) : f.declaresAt r ∨ f.assignsAt r child := by
  have hcomputed : ∀ computed, ofComputed computed = .read ∨ ofComputed computed = .skip := by
    decide
  unfold ofReadChild at hread hskip
  split at hread
  case h_13 | h_14 =>
    right
    split at hread
    · exact absurd rfl hread
    · unfold Form.assignsAt
      split <;> simp_all
  case h_15 | h_16 | h_17 | h_18 =>
    obtain h | h := hcomputed _
    · exact absurd h hread
    · exact absurd h hskip
  all_goals first
    | exact .inl rfl
    | exact .inr rfl
    | exact absurd rfl hread
    | exact absurd rfl hskip

theorem ofReadChild_of_namesAt (h : f.namesAt r) (child : Form) : ofReadChild f r child = .skip := by
  unfold Form.namesAt at h
  split at h
  all_goals first
    | rfl
    | cases h

theorem ofReadChild_of_declaresAt (h : f.declaresAt r) (child : Form) :
    ofReadChild f r child = .declare ∨ ofReadChild f r child = .skip := by
  unfold Form.declaresAt at h
  split at h
  all_goals first
    | exact .inl rfl
    | exact .inr rfl
    | cases h

/-- The keys of a pattern are mere names. -/
theorem ofPatternChild_of_namesAt (h : f.namesAt r) (htarget : f.isTarget) (hmember : ¬ f.isMember) :
    ofPatternChild u f r = .skip := by
  unfold Form.namesAt at h
  split at h
  all_goals first
    | rfl
    | exact absurd rfl hmember
    | exact absurd htarget Bool.false_ne_true
    | exact absurd h Bool.false_ne_true

/-- The parts of a pattern are used as the pattern is; all else inside of it is read, mere keys
apart. -/
theorem ofPatternChild_eq (h : f.partsAt r) : ofPatternChild u f r = u := by
  unfold Form.partsAt at h
  unfold ofPatternChild
  split at h <;> simp_all

theorem partsAt_of_ofPatternChild (hinner : ∀ name, f ≠ .identifier name)
    (hread : ofPatternChild u f r ≠ .read) (hskip : ofPatternChild u f r ≠ .skip) :
    f.partsAt r := by
  have hcomputed : ∀ computed, ofComputed computed = .read ∨ ofComputed computed = .skip := by
    decide
  unfold ofPatternChild at hread hskip
  unfold Form.partsAt
  split at hread
  case h_1 =>
    by_cases hr : r = .right
    · simp [hr] at hread
    · simpa using hr
  case h_2 computed _ _ _ =>
    by_cases hr : r = .key
    · obtain h | h := hcomputed computed
      · simp [hr, h] at hread
      · simp [hr, h] at hskip
    · simpa using hr
  case h_6 => exact absurd rfl (hinner _)
  case h_7 => exact absurd rfl hread
  all_goals rfl

end Usage

/-! ## Places of nodes -/

namespace Used

variable {root n c : Node} {u : Usage}

theorem inside (h : Used root u n) : n.Inside root := by
  induction h with
  | root => exact .self root
  | child _ _ hc ih => exact (Node.Inside.child hc).trans ih

/-- The way to a node of a tree with distinct identities leads through its parent. -/
theorem parent (hids : root.identities.Nodup) (hn : n.Inside root) (hc : c ∈ n.children)
    (h : Used root u c) : ∃ v, Used root v n ∧ u = v.ofChild n.form c.role c.form := by
  cases h with
  | root => exact absurd hc hn.not_child
  | child hp _ hc' =>
    cases Node.Inside.parent_unique hids hn hp.inside hc hc'
    exact ⟨_, hp, rfl⟩

/-- What is written or declared is a target of the grammar. -/
theorem target (h : Used root u n) (hread : u ≠ .read) (hskip : u ≠ .skip) : Target root n := by
  induction h with
  | root => exact absurd rfl hread
  | @child v n c hn hinner hc ih =>
    have hpattern : v ≠ .read → v ≠ .skip → Usage.ofPatternChild v n.form c.role ≠ .read →
        Usage.ofPatternChild v n.form c.role ≠ .skip → Target root c := fun hv hv' h h' =>
      .part (ih hv hv') hc (Usage.partsAt_of_ofPatternChild hinner h h')
    cases v with
    | read => exact .slot hn.inside hc (Usage.slot_of_ofReadChild hread hskip)
    | skip => exact absurd rfl hskip
    | write => exact hpattern (by decide) (by decide) hread hskip
    | declare => exact hpattern (by decide) (by decide) hread hskip

/-- Mere names are passed over, if they are not those of an assigned member. -/
theorem eq_skip_of_namesAt (hroot : Grammatical root) (hn : n.Inside root) (hc : c ∈ n.children)
    (hname : n.form.namesAt c.role) (hmember : n.form.isMember → ¬ Target root n)
    (h : Used root u c) : u = .skip := by
  obtain ⟨v, hv, rfl⟩ := h.parent hroot.identities hn hc
  have hpattern : Target root n → Usage.ofPatternChild v n.form c.role = .skip := by
    intro htarget
    have hform := hroot.targets n htarget
    exact Usage.ofPatternChild_of_namesAt hname hform fun h => hmember h htarget
  cases v with
  | read => exact Usage.ofReadChild_of_namesAt hname c.form
  | skip => rfl
  | write => exact hpattern (hv.target (by decide) (by decide))
  | declare => exact hpattern (hv.target (by decide) (by decide))

/-- What is declared is neither read nor written. -/
theorem eq_declare_or_skip (hroot : Grammatical root) (hc : Declared root c) (h : Used root u c) :
    u = .declare ∨ u = .skip := by
  induction hc generalizing u with
  | @slot n c hn hc hat =>
    obtain ⟨v, hv, rfl⟩ := h.parent hroot.identities hn hc
    have hpattern : ¬ Target root n := fun htarget =>
      Form.not_declaresAt_of_isTarget (hroot.targets n htarget) c.role hat
    cases v with
    | read => exact Usage.ofReadChild_of_declaresAt hat c.form
    | skip => exact .inr rfl
    | write => exact absurd (hv.target (by decide) (by decide)) hpattern
    | declare => exact absurd (hv.target (by decide) (by decide)) hpattern
  | @part n c hn hc hpart ih =>
    obtain ⟨v, hv, rfl⟩ := h.parent hroot.identities hn.inside hc
    obtain rfl | rfl := ih hv
    · exact .inl (Usage.ofPatternChild_eq hpart)
    · exact .inr rfl

end Used

end Untangle
