import Untangle.Proofs.Tree.Code

set_option autoImplicit false

/-!
# Well-formed trees

What the grammar says about the nodes of a tree: which nodes may stand in a slot of which form, and that
no jump leads out of the loop, the `switch` or the function around it.  Whether a tree is well-formed is
seen at each of its nodes; how many nodes a slot holds does not matter, and neither do the slots of forms
that are not in the table.
-/

namespace Untangle

/-! ## Jumps -/

/-- What leaves a statement before its end. -/
inductive Jump where
  | broken
  | continued
  | returned
  deriving DecidableEq

namespace Form

/-- The jump that a statement of a form makes. -/
def jump? : Form → Option Jump
  | .breakStatement => some .broken
  | .continueStatement => some .continued
  | .returnStatement => some .returned
  | _ => none

/-- Whether jumps from a slot of a form end there. -/
def takes (f : Form) (r : Role) (j : Jump) : Bool :=
  match f with
  | .functionDeclaration _ | .functionExpression _ | .arrowFunction _ => true
  | .forStatement | .forInStatement | .forOfStatement | .whileStatement | .doWhileStatement =>
    r == .body && j != .returned
  | .switchStatement => r == .cases && j == .broken
  | _ => false

/-- Jumps that may be made in a slot of a form where some may be made outside of it. -/
def inside (f : Form) (r : Role) (J : Jump → Prop) (j : Jump) : Prop := f.takes r j = true ∨ J j

end Form

namespace Node

mutual

/-- Whether a jump leads out of a node.  Those with a label are left out: they do not end where others
do. -/
def opens (j : Jump) : Node → Bool
  | .mk _ _ f cs =>
    f.jump? == some j && (j == .returned || cs.all fun c => c.role != .label) || opensAny j f cs

/-- Whether a jump leads out of one of some parts of a form and does not end there. -/
def opensAny (j : Jump) (f : Form) : List Node → Bool
  | [] => false
  | c :: cs => !f.takes c.role j && opens j c || opensAny j f cs

end

theorem opensAny_of_mem {j : Jump} {f : Form} {c : Node} {cs : List Node} (hc : c ∈ cs)
    (htakes : f.takes c.role j = false) (h : c.opens j = true) : opensAny j f cs = true := by
  induction cs with
  | nil => cases hc
  | cons d cs ih =>
    rw [opensAny, Bool.or_eq_true]
    obtain rfl | hc := List.mem_cons.mp hc
    · exact .inl (by simp [htakes, h])
    · exact .inr (ih hc)

/-- A jump leads out of a node if it leads out of a part of it and does not end there. -/
theorem opens_of_child {j : Jump} {c n : Node} (hc : c ∈ n.children)
    (htakes : n.form.takes c.role j = false) (h : c.opens j = true) : n.opens j = true := by
  obtain ⟨i, r, f, cs⟩ := n
  rw [opens, Bool.or_eq_true]
  exact .inr (opensAny_of_mem hc htakes h)

/-- A jump without a label leads out of itself. -/
theorem opens_of_jump {j : Jump} {n : Node} (hjump : n.form.jump? = some j)
    (hlabel : j = .returned ∨ n.child? .label = none) : n.opens j = true := by
  obtain ⟨i, r, f, cs⟩ := n
  change f.jump? = some j at hjump
  rw [opens, Bool.or_eq_true]
  refine .inl ?_
  rw [Bool.and_eq_true, Bool.or_eq_true]
  refine ⟨by simp [hjump], hlabel.imp (fun h => by simp [h]) fun h => ?_⟩
  rw [List.all_eq_true]
  intro c hc
  simpa using List.find?_eq_none.mp h c hc

end Node

/-! ## What may stand where -/

namespace Form

/-- Whether nodes of a form are expressions. -/
def isExpression : Form → Bool
  | .thisExpression | .superWord | .arrayExpression | .objectExpression | .functionExpression _
  | .arrowFunction _ | .classExpression | .unary _ | .update _ _ | .binary _ | .logical _
  | .assignment _ | .conditional | .call | .construct | .member _ | .optionalCall
  | .optionalMember _ | .chain | .sequence | .template | .taggedTemplate | .yieldExpression _
  | .awaitExpression | .metaProperty | .identifier _ | .literal _ => true
  | _ => false

/-- A variable or a member. -/
def isReference : Form → Bool
  | .identifier _ | .member _ => true
  | _ => false

/-- A pattern that takes a value apart. -/
def isPattern : Form → Bool
  | .arrayPattern | .objectPattern => true
  | _ => false

/-- What a declaration gives a value to. -/
def isBinding : Form → Bool
  | .identifier _ => true
  | f => f.isPattern

end Form

/-- What may stand in a slot. -/
inductive Category where
  | anything
  | expression
  | statement
  | block
  /-- The body of a function: jumps do not lead out of it. -/
  | functionBody
  /-- The body of an arrow function, which may be an expression. -/
  | arrowBody
  | reference
  /-- What `=` assigns to. -/
  | target
  | binding
  | parameter
  /-- An element of an array or an argument. -/
  | item
  | property
  /-- A piece of a template without invalid escapes. -/
  | piece
  | case
  | handler
  | declarator
  /-- The first part of a `for` loop. -/
  | start

/-- The form of all nodes that may stand in a slot, if they are of one form. -/
def Category.form? : Category → Option Form
  | .block => some .blockStatement
  | .case => some .switchCase
  | .handler => some .catchClause
  | .declarator => some .variableDeclarator
  | _ => none

namespace Node

/-- A parameter: a name or a pattern, with a default or without, or a name or a pattern for the rest. -/
def isParameter (n : Node) : Bool :=
  match n.form with
  | .assignmentPattern => (n.childrenAt .left).all fun c => c.form.isBinding
  | .rest => (n.childrenAt .argument).all fun c => c.form.isBinding
  | f => f.isBinding

/-- A block out of which no jump leads but a `return`. -/
def isFunctionBody (n : Node) : Bool :=
  match n.form with
  | .blockStatement => !n.opens .broken && !n.opens .continued
  | _ => false

/-- Whether a node may stand in a slot. -/
def fits (n : Node) : Category → Bool
  | .anything => true
  | .expression => n.form.isExpression
  | .statement => n.form.isStatementLike
  | .block => (n.form matches .blockStatement)
  | .functionBody => n.isFunctionBody
  | .arrowBody => n.form.isExpression || n.isFunctionBody
  | .reference => n.form.isReference
  | .target => n.form.isReference || n.form.isPattern
  | .binding => n.form.isBinding
  | .parameter => n.isParameter
  | .item => n.form.isExpression || (n.form matches .spread | .hole)
  | .property =>
    match n.form with
    | .property _ _ _ _ => (n.childrenAt .value).all fun c => c.form.isExpression
    | f => (f matches .spread)
  | .piece => (n.form matches .templateElement _ (some _) _)
  | .case => (n.form matches .switchCase)
  | .handler => (n.form matches .catchClause)
  | .declarator => (n.form matches .variableDeclarator)
  | .start => n.form.isExpression || (n.form matches .variableDeclaration _)

/-- What may stand in a slot for nodes of one form only is of that form. -/
theorem form_of_fits {k : Category} {f : Form} {n : Node} (hk : k.form? = some f)
    (h : n.fits k = true) : n.form = f := by
  cases k with
  | block | case | handler | declarator =>
    cases hk
    simp only [fits] at h
    split at h
    · next hform => exact hform
    · cases h
  | _ => cases hk

variable {c n : Node}

theorem isExpression_of_item (h : n.fits .item = true) (hhole : n.form ≠ .hole)
    (hspread : n.form ≠ .spread) : n.form.isExpression = true := by
  obtain h | h := Bool.or_eq_true_iff.mp h
  · exact h
  · split at h
    · next hform => exact absurd hform hspread
    · next hform => exact absurd hform hhole
    · cases h

theorem isExpression_of_property {computed : Bool} {kind : PropertyKind} {method shorthand : Bool}
    (h : n.fits .property = true) (hform : n.form = .property computed kind method shorthand)
    (hc : n.child? .value = some c) : c.form.isExpression = true := by
  unfold fits at h
  simp only [hform] at h
  exact List.all_eq_true.mp h c (mem_childrenAt.mpr (mem_of_child? hc))

theorem spread_of_property (h : n.fits .property = true)
    (hform : ∀ computed kind method shorthand, n.form ≠ .property computed kind method shorthand) :
    n.form = .spread := by
  simp only [fits] at h
  split at h
  · next hspread => exact hspread
  · cases h

theorem isExpression_of_arrowBody (h : n.fits .arrowBody = true) (hblock : n.form ≠ .blockStatement) :
    n.form.isExpression = true := by
  obtain h | h := Bool.or_eq_true_iff.mp h
  · exact h
  · unfold isFunctionBody at h
    split at h
    · next hform => exact absurd hform hblock
    · cases h

/-- Out of the body of a function only a `return` leads. -/
theorem returned_of_arrowBody (h : n.fits .arrowBody = true) (hform : n.form = .blockStatement)
    {j : Jump} (hj : n.opens j = true) : j = .returned := by
  obtain h | h := Bool.or_eq_true_iff.mp h
  · rw [hform] at h
    cases h
  · unfold isFunctionBody at h
    simp only [hform, Bool.and_eq_true, Bool.not_eq_true'] at h
    cases j with
    | broken => exact absurd hj (by simp [h.1])
    | continued => exact absurd hj (by simp [h.2])
    | returned => rfl

theorem isExpression_of_start (h : n.fits .start = true)
    (hdeclaration : ∀ kind, n.form ≠ .variableDeclaration kind) : n.form.isExpression = true := by
  obtain h | h := Bool.or_eq_true_iff.mp h
  · exact h
  · split at h
    · next kind hform => exact absurd hform (hdeclaration kind)
    · cases h

theorem isBinding_of_default (h : n.fits .parameter = true) (hform : n.form = .assignmentPattern)
    (hc : n.child? .left = some c) : c.form.isBinding = true := by
  change n.isParameter = true at h
  unfold isParameter at h
  simp only [hform] at h
  exact List.all_eq_true.mp h c (mem_childrenAt.mpr (mem_of_child? hc))

theorem isBinding_of_rest (h : n.fits .parameter = true) (hform : n.form = .rest)
    (hc : n.child? .argument = some c) : c.form.isBinding = true := by
  change n.isParameter = true at h
  unfold isParameter at h
  simp only [hform] at h
  exact List.all_eq_true.mp h c (mem_childrenAt.mpr (mem_of_child? hc))

theorem isBinding_of_parameter (h : n.fits .parameter = true) (hdefault : n.form ≠ .assignmentPattern)
    (hrest : n.form ≠ .rest) : n.form.isBinding = true := by
  change n.isParameter = true at h
  unfold isParameter at h
  split at h
  · next hform => exact absurd hform hdefault
  · next hform => exact absurd hform hrest
  · exact h

theorem exists_reference (h : n.form.isReference = true) :
    (∃ name, n.form = .identifier name) ∨ ∃ computed, n.form = .member computed := by
  unfold Form.isReference at h
  split at h
  · next name hform => exact .inl ⟨name, hform⟩
  · next computed hform => exact .inr ⟨computed, hform⟩
  · cases h

theorem exists_piece (h : n.fits .piece = true) :
    ∃ raw cooked last, n.form = .templateElement raw (some cooked) last := by
  change (n.form matches .templateElement _ (some _) _) = true at h
  split at h
  · next raw cooked last hform => exact ⟨raw, cooked, last, hform⟩
  · cases h

end Node

/-- What the grammar has in the slots of a form. -/
def Form.category (f : Form) (r : Role) : Category :=
  match f with
  | .expressionStatement _ | .returnStatement | .throwStatement | .unary _ | .spread | .binary _
  | .logical _ | .conditional | .sequence => .expression
  | .blockStatement => .statement
  | .ifStatement | .whileStatement | .doWhileStatement | .switchCase =>
    match r with
    | .test => .expression
    | _ => .statement
  | .forStatement =>
    match r with
    | .init => .start
    | .body => .statement
    | _ => .expression
  | .switchStatement =>
    match r with
    | .cases => .case
    | _ => .expression
  | .tryStatement =>
    match r with
    | .handler => .handler
    | _ => .block
  | .catchClause =>
    match r with
    | .param => .binding
    | _ => .block
  | .variableDeclaration _ => .declarator
  | .variableDeclarator =>
    match r with
    | .id => .binding
    | _ => .expression
  | .functionDeclaration _ | .functionExpression _ =>
    match r with
    | .params => .parameter
    | .body => .functionBody
    | _ => .binding
  | .arrowFunction _ =>
    match r with
    | .params => .parameter
    | _ => .arrowBody
  | .update _ _ => .reference
  | .assignment op =>
    match r, op with
    | .left, .plain => .target
    | .left, _ => .reference
    | _, _ => .expression
  | .assignmentPattern =>
    match r with
    | .left => .anything
    | _ => .expression
  | .arrayExpression => .item
  | .objectExpression => .property
  | .property computed _ _ _ =>
    match r, computed with
    | .key, true => .expression
    | _, _ => .anything
  | .call =>
    match r with
    | .arguments => .item
    | _ => .expression
  | .member computed =>
    match r, computed with
    | .property, false => .anything
    | _, _ => .expression
  | .template =>
    match r with
    | .quasis => .piece
    | _ => .expression
  | _ => .anything

theorem Form.category_params {f : Form} (hf : f.isFunction = true) :
    f.category .params = .parameter := by
  cases f with
  | functionDeclaration | functionExpression | arrowFunction => rfl
  | _ => cases hf

namespace Node

/-- The body of any function may stand where the body of an arrow function does. -/
theorem fits_arrowBody {c : Node} {f : Form} (hf : f.isFunction = true)
    (h : c.fits (f.category .body) = true) : c.fits .arrowBody = true := by
  cases f with
  | functionDeclaration | functionExpression => exact Bool.or_eq_true_iff.mpr (.inr h)
  | arrowFunction => exact h
  | _ => cases hf

/-- Whether the parts of a node are what the grammar has in their slots.  Nothing stands below an element
that is left out of an array. -/
def isRegular (n : Node) : Bool :=
  n.children.all fun c => !n.form.isHole && c.fits (n.form.category c.role)

/-- A tree of the grammar. -/
structure WellFormed (n : Node) : Prop where
  regular : ∀ d : Node, d.Inside n → d.isRegular = true
  closed : ∀ j, n.opens j = false

theorem fits_of_isRegular {c n : Node} (h : n.isRegular = true) (hc : c ∈ n.children) :
    c.fits (n.form.category c.role) = true := by
  have hboth := List.all_eq_true.mp h c hc
  exact (Bool.and_eq_true_iff.mp hboth).2

/-- A walk through a tree comes to all nodes but elements that are left out. -/
theorem mem_walk_of_inside {d n : Node} (hn : ∀ e : Node, e.Inside n → e.isRegular = true)
    (hd : d.Inside n) (hhole : d.form.isHole = false) : d ∈ n.walk := by
  induction hd with
  | self =>
    obtain ⟨i, r, f, cs⟩ := d
    change f.isHole = false at hhole
    simp [walk, hhole]
  | @within c n hc _ ih =>
    have hbelow := ih fun e he => hn e (he.trans (.child hc))
    have hall := List.all_eq_true.mp (hn n (.self n)) c hc
    have hopen : n.form.isHole = false := by simpa using (Bool.and_eq_true_iff.mp hall).1
    obtain ⟨i, r, f, cs⟩ := n
    change f.isHole = false at hopen
    simp only [walk, hopen, Bool.false_eq_true, if_false, walkAll_eq_flatMap]
    exact List.mem_cons_of_mem _ (List.mem_flatMap.mpr ⟨c, hc, hbelow⟩)

end Node

end Untangle
