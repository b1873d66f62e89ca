import Untangle.Proofs.Tree.Identities
import Untangle.Tree.Edit

set_option autoImplicit false

/-!
# What code is made of

Running code takes for granted that nodes have the parts that the grammar gives them.

What a node changes can be read off it: an assignment or an update sets a variable or a member, and an
operator deletes a member.  To say that something is not changed one has to look at all code that may
come to run: at the parts of the code, and at the code that has taken the place of a part in an edited
tree.

A copy without identities has the forms, slots and parts of the tree that was copied, and is sound code if
that is.
-/

namespace Untangle

/-- The slots of a form that must not be empty when code runs. -/
def Form.requires : Form → List Role
  | .expressionStatement _ => [.expression]
  | .throwStatement | .unary _ | .update _ _ | .spread | .rest => [.argument]
  | .ifStatement => [.test, .consequent]
  | .conditional => [.test, .consequent, .alternate]
  | .switchStatement => [.discriminant]
  | .tryStatement => [.block]
  | .catchClause | .forStatement => [.body]
  | .whileStatement | .doWhileStatement => [.test, .body]
  | .functionDeclaration _ => [.id, .body]
  | .functionExpression _ | .arrowFunction _ => [.body]
  | .variableDeclarator => [.id]
  | .property _ _ _ _ => [.key, .value]
  | .binary _ | .logical _ | .assignment _ | .assignmentPattern => [.left, .right]
  | .call => [.callee]
  | .member _ => [.object, .property]
  | _ => []

/-- A key of an object literal that is not computed. -/
def Form.isKey : Form → Bool
  | .identifier _ | .literal _ => true
  | _ => false

theorem form_of_name? {n : Node} {name : Text} (hname : n.name? = some name) :
    n.form = .identifier name := by
  unfold Node.name? at hname
  split at hname
  · next hform =>
    cases hname
    exact hform
  · cases hname

namespace Node

/-! ## Checks of whole trees -/

mutual

/-- Whether a test holds of all nodes of a tree. -/
def everywhere (p : Node → Bool) : Node → Bool
  | .mk i r f cs => p (.mk i r f cs) && everywhereAll p cs

/-- Whether a test holds of all nodes of some trees. -/
def everywhereAll (p : Node → Bool) : List Node → Bool
  | [] => true
  | c :: cs => everywhere p c && everywhereAll p cs

end

theorem everywhere_iff {p : Node → Bool} {n : Node} :
    n.everywhere p = true ↔ ∀ d : Node, d.Inside n → p d = true := by
  refine Node.rec
    (motive_1 := fun n => n.everywhere p = true ↔ ∀ d : Node, d.Inside n → p d = true)
    (motive_2 := fun cs => everywhereAll p cs = true ↔
      ∀ c ∈ cs, ∀ d : Node, d.Inside c → p d = true) ?_ ?_ ?_ n
  · intro i r f cs ih
    rw [everywhere, Bool.and_eq_true, ih, forall_inside_mk]
  · simp [everywhereAll]
  · intro c cs ihc ihcs
    rw [everywhereAll, Bool.and_eq_true, ihc, ihcs, List.forall_mem_cons]

theorem walkAll_eq_flatMap (ns : List Node) : walkAll ns = ns.flatMap walk := by
  induction ns with
  | nil => rfl
  | cons n ns ih => rw [walkAll, ih, List.flatMap_cons]

/-! ## Parts -/

/-- Whether the parts of a node are of the kind that running code takes them for. -/
def hasProperParts (n : Node) : Bool :=
  match n.form with
  | .functionDeclaration _ => ((n.child? .id).bind name?).isSome
  | .member false => ((n.child? .property).bind name?).isSome
  | .property false _ _ _ => (n.child? .key).all (·.form.isKey)
  | .variableDeclaration _ => (n.childrenAt .declarations).all fun d => (d.child? .id).isSome
  | .tryStatement => (n.child? .handler).all fun h => (h.child? .body).isSome
  | .incomplete _ => false
  | _ => true

/-- Whether a node has the parts that running code takes for granted. -/
def hasParts (n : Node) : Bool :=
  (n.form.requires.all fun r => (n.child? r).isSome) && n.hasProperParts

/-- A node that lacks a part that its form requires. -/
theorem hasParts_of_lack {n : Node} {f : Form} {r : Role} (hform : n.form = f)
    (hr : f.requires.contains r = true) (hlack : n.child? r = none) : n.hasParts = false := by
  subst hform
  have hall : (n.form.requires.all fun r => (n.child? r).isSome) = false := by
    rw [List.all_eq_false]
    exact ⟨r, List.contains_iff_mem.mp hr, by simp [hlack]⟩
  rw [hasParts, hall, Bool.false_and]

theorem hasParts_of_improper {n : Node} (h : n.hasProperParts = false) : n.hasParts = false := by
  rw [hasParts, h, Bool.and_false]

/-! ## What a node changes -/

/-- What an assignment, an increment or a decrement sets. -/
def assigned? (n : Node) : Option Node :=
  match n.form with
  | .assignment _ => n.child? .left
  | .update _ _ => n.child? .argument
  | _ => none

/-- What an operator deletes. -/
def deleted? (n : Node) : Option Node :=
  match n.form with
  | .unary .delete => n.child? .argument
  | _ => none

/-- Whether a node is an access to a member of an object. -/
def isMember (n : Node) : Bool :=
  match n.form with
  | .member _ => true
  | _ => false

theorem mem_children_of_assigned? {n target : Node} (h : n.assigned? = some target) :
    target ∈ n.children := by
  unfold assigned? at h
  split at h
  · exact List.mem_of_find?_eq_some h
  · exact List.mem_of_find?_eq_some h
  · cases h

theorem mem_children_of_deleted? {n target : Node} (h : n.deleted? = some target) :
    target ∈ n.children := by
  unfold deleted? at h
  split at h
  · exact List.mem_of_find?_eq_some h
  · cases h

/-- A node that sets the variables of a name. -/
def Assigns (name : Text) (n : Node) : Prop := n.assigned?.bind name? = some name

instance (name : Text) (n : Node) : Decidable (n.Assigns name) := inferInstanceAs (Decidable (_ = _))

/-- A node that sets or deletes a member of an object. -/
def ChangesMember (n : Node) : Prop :=
  n.assigned?.any isMember = true ∨ n.deleted?.any isMember = true

instance (n : Node) : Decidable n.ChangesMember := inferInstanceAs (Decidable (_ ∨ _))

/-! ## Code that may come to run -/

/-- The node of the same identity in some trees; a node that is in none of them stays what it is. -/
def present (trees : List Node) (n : Node) : Node := (trees.findSome? (findId n.id)).getD n

/-- In trees whose identities are distinct, every node is present as it is. -/
theorem present_eq_self {trees : List Node} {root d : Node} (hdistinct : (identitiesAll trees).Nodup)
    (hroot : root ∈ trees) (hd : d.Inside root) : d.present trees = d := by
  unfold present
  cases hfind : trees.findSome? (findId d.id) with
  | none => rfl
  | some e =>
    obtain ⟨tree, htree, hfound⟩ := List.exists_of_findSome?_eq_some hfind
    obtain ⟨he, hid⟩ := inside_of_findId hfound
    have hmem := he.id_mem
    rw [hid] at hmem
    cases eq_of_identitiesAll_nodup hdistinct htree hroot hmem hd.id_mem
    exact Inside.eq_of_id (nodup_of_mem hdistinct hroot) he hd hid

/-- What stands in the place of a node does not depend on the slot of the node. -/
theorem present_inRole (trees : List Node) (n : Node) (r : Role) :
    (n.inRole r).present trees = n.present trees ∨
      n.present trees = n ∧ (n.inRole r).present trees = n.inRole r := by
  unfold present
  rw [id_inRole]
  cases trees.findSome? (findId n.id) with
  | none => exact .inr ⟨rfl, rfl⟩
  | some d => exact .inl rfl

/-- Code that may come to run when a node does: the node, the parts of such code, and what stands in its
place in some trees. -/
inductive Comes (trees : List Node) (n : Node) : Node → Prop
  | self : Comes trees n n
  | part {d c : Node} (hd : Comes trees n d) (hc : c ∈ d.children) : Comes trees n c
  | present {d : Node} (hd : Comes trees n d) : Comes trees n (d.present trees)

theorem Comes.trans {trees : List Node} {n d e : Node} (hd : n.Comes trees d)
    (he : d.Comes trees e) : n.Comes trees e := by
  induction he with
  | self => exact hd
  | part _ hc ih => exact .part ih hc
  | present _ ih => exact .present ih

/-- Where no tree is edited, only what stands inside of a node comes to run. -/
theorem Comes.inside {n d : Node} (h : n.Comes [] d) : d.Inside n := by
  induction h with
  | self => exact .self n
  | part _ hc ih => exact (Inside.child hc).trans ih
  | present _ ih => exact ih

/-- No code that may come to run has a property. -/
def Free (trees : List Node) (Bad : Node → Prop) (n : Node) : Prop :=
  ∀ d, n.Comes trees d → ¬ Bad d

theorem Free.of_comes {trees : List Node} {Bad : Node → Prop} {n d : Node} (h : n.Free trees Bad)
    (hd : n.Comes trees d) : d.Free trees Bad :=
  fun e he => h e (hd.trans he)

/-- What comes to run does not depend on the slot of a node, up to the node itself. -/
theorem Comes.of_inRole {trees : List Node} {n d : Node} {r : Role} (h : (n.inRole r).Comes trees d) :
    d = n.inRole r ∨ n.Comes trees d := by
  induction h with
  | self => exact .inl rfl
  | part _ hc ih =>
    obtain rfl | hd := ih
    · exact .inr (.part .self (children_inRole n r ▸ hc))
    · exact .inr (.part hd hc)
  | present _ ih =>
    obtain rfl | hd := ih
    · obtain hsame | ⟨-, hself⟩ := present_inRole trees n r
      · exact .inr (hsame ▸ .present .self)
      · exact .inl hself
    · exact .inr (.present hd)

theorem Free.inRole {trees : List Node} {Bad : Node → Prop} {n : Node} (h : n.Free trees Bad)
    {r : Role} (hslot : Bad (n.inRole r) → Bad n) : (n.inRole r).Free trees Bad := by
  intro d hd hbad
  obtain rfl | hd := Comes.of_inRole hd
  · exact h n .self (hslot hbad)
  · exact h d hd hbad

theorem assigns_inRole {name : Text} {n : Node} {r : Role} (h : (n.inRole r).Assigns name) :
    n.Assigns name := by
  cases n
  exact h

theorem changesMember_inRole {n : Node} {r : Role} (h : (n.inRole r).ChangesMember) :
    n.ChangesMember := by
  cases n
  exact h

/-- A node that lacks a part, or a function in whose place something else stands in some trees. -/
def Broken (trees : List Node) (n : Node) : Prop :=
  n.hasParts = false ∨ n.form.isFunction = true ∧ (n.present trees).form.isFunction = false

instance (trees : List Node) (n : Node) : Decidable (n.Broken trees) :=
  inferInstanceAs (Decidable (_ ∨ _))

theorem broken_inRole {trees : List Node} {n : Node} {r : Role} (h : (n.inRole r).Broken trees) :
    n.Broken trees := by
  obtain hlack | ⟨hfunction, hother⟩ := h
  · left
    cases n
    exact hlack
  · right
    rw [form_inRole] at hfunction
    obtain hsame | ⟨-, hself⟩ := present_inRole trees n r
    · exact ⟨hfunction, hsame ▸ hother⟩
    · rw [hself, form_inRole, hfunction] at hother
      cases hother

/-- Code that comes to no broken code. -/
def Sound (trees : List Node) (n : Node) : Prop := n.Free trees (Broken trees)

/-- Where no tree is edited, all that stands inside of a node can be looked at. -/
theorem free_of_everywhere {Bad : Node → Prop} [DecidablePred Bad] {n : Node}
    (h : (n.everywhere fun d => decide (¬ Bad d)) = true) : n.Free [] Bad :=
  fun d hd => of_decide_eq_true (everywhere_iff.mp h d hd.inside)

/-- What is sound in edited trees is sound without them. -/
theorem Sound.unedited {trees : List Node} {n : Node} (h : n.Sound trees) : n.Sound [] := by
  intro d hd
  have hcomes : n.Comes trees d := by
    induction hd with
    | self => exact .self
    | part _ hc ih => exact .part ih hc
    | present _ ih => exact ih
  rintro (hlack | ⟨hfunction, hother⟩)
  · exact h d hcomes (.inl hlack)
  · rw [show d.form.isFunction = false from hother] at hfunction
    cases hfunction

/-! ## Copies without identities -/

section Copies

variable {n : Node}

@[simp] theorem form_unnumbered (n : Node) : n.unnumbered.form = n.form := by
  cases n
  rfl

@[simp] theorem role_unnumbered (n : Node) : n.unnumbered.role = n.role := by
  cases n
  rfl

@[simp] theorem name?_unnumbered (n : Node) : n.unnumbered.name? = n.name? := by
  cases n
  rfl

theorem unnumberedAll_eq_map (ns : List Node) : unnumberedAll ns = ns.map unnumbered := by
  induction ns with
  | nil => rfl
  | cons n ns ih => rw [unnumberedAll, ih, List.map_cons]

@[simp] theorem children_unnumbered (n : Node) :
    n.unnumbered.children = n.children.map unnumbered := by
  cases n with
  | mk i r f cs => exact unnumberedAll_eq_map cs

/-- Copies stand in the slots of the nodes that were copied. -/
theorem inSlot_unnumbered (r : Role) :
    (fun c : Node => c.role == r) ∘ unnumbered = fun c => c.role == r :=
  funext fun c => congrArg (· == r) (role_unnumbered c)

@[simp] theorem child?_unnumbered (n : Node) (r : Role) :
    n.unnumbered.child? r = (n.child? r).map unnumbered := by
  rw [child?, child?, children_unnumbered, List.find?_map, inSlot_unnumbered]

@[simp] theorem childrenAt_unnumbered (n : Node) (r : Role) :
    n.unnumbered.childrenAt r = (n.childrenAt r).map unnumbered := by
  rw [childrenAt, childrenAt, children_unnumbered, List.filter_map, inSlot_unnumbered]

/-- A copy of a copy is the copy. -/
theorem unnumbered_unnumbered (n : Node) : n.unnumbered.unnumbered = n.unnumbered := by
  refine Node.rec (motive_1 := fun n => n.unnumbered.unnumbered = n.unnumbered)
    (motive_2 := fun ns => unnumberedAll (unnumberedAll ns) = unnumberedAll ns) ?_ ?_ ?_ n
  · intro i r f cs ih
    simp only [unnumbered, ih]
  · rfl
  · intro c cs ih ihs
    simp only [unnumberedAll, ih, ihs]

/-- What stands in a copy is a copy of what stands in the tree. -/
theorem Inside.of_unnumbered {d : Node} (h : d.Inside n.unnumbered) :
    ∃ e : Node, e.Inside n ∧ d = e.unnumbered := by
  generalize hcopy : n.unnumbered = m at h
  induction h generalizing n with
  | self => exact ⟨n, .self n, hcopy.symm⟩
  | within hc _ ih =>
    rw [← hcopy, children_unnumbered] at hc
    obtain ⟨c, hc, hsame⟩ := List.mem_map.mp hc
    obtain ⟨e, he, hd⟩ := ih hsame
    exact ⟨e, .within hc he, hd⟩

/-- A copy has the parts that the node has. -/
theorem hasParts_unnumbered (n : Node) : n.unnumbered.hasParts = n.hasParts := by
  have hname : ∀ r, (n.unnumbered.child? r).bind name? = (n.child? r).bind name? := fun r => by
    rw [child?_unnumbered]
    cases n.child? r with
    | none => rfl
    | some c => exact name?_unnumbered c
  have hrequired : (n.unnumbered.form.requires.all fun r => (n.unnumbered.child? r).isSome) =
      n.form.requires.all fun r => (n.child? r).isSome := by simp
  have hproper : n.unnumbered.hasProperParts = n.hasProperParts := by
    unfold hasProperParts
    rw [form_unnumbered]
    split
    · rw [hname]
    · rw [hname]
    · rw [child?_unnumbered]
      cases n.child? .key <;> simp
    · simp [List.all_map, Function.comp_def]
    · rw [child?_unnumbered]
      cases n.child? .handler <;> simp
    · rfl
    · rfl
  rw [hasParts, hasParts, hrequired, hproper]

theorem Inside.comes {d : Node} (h : d.Inside n) (trees : List Node) : n.Comes trees d := by
  induction h with
  | self => exact .self
  | within hc _ ih => exact (Comes.part .self hc).trans ih

/-- A copy of sound code is sound. -/
theorem Sound.unnumbered (h : n.Sound []) : n.unnumbered.Sound [] := by
  intro d hd hbroken
  obtain ⟨e, he, rfl⟩ := Inside.of_unnumbered hd.inside
  refine h e (he.comes []) (hbroken.imp (fun hlack => ?_) fun hother => ?_)
  · rwa [hasParts_unnumbered] at hlack
  · exact absurd hother.1 (by rw [show e.unnumbered.form.isFunction = false from hother.2]; decide)

end Copies

end Node

end Untangle
