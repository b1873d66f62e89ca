import Untangle.Proofs.Identity.Locality

set_option autoImplicit false

/-!
# How much can still be done to a tree

The load of a tree bounds what rules can still do to it.  A binary expression may become a value, a call may
become a binary expression or a value, a declarator may go, and a loop may give way to what it executes: the
statements of its cases, as often as it may be told to take one.

What can be done to a node shows in its children: rules act on what has a callee, and on what has an
initializer.
-/

namespace Untangle

namespace Node

variable {n m c d old : Node} {cs ns ms : List Node} {r : Role} {f : Form} {k : Nat}

/-! ## Slots with nodes -/

/-- Whether one of some children stands in a slot. -/
def fill (cs : List Node) (r : Role) : Bool := cs.any fun c => c.role == r

theorem fill_iff : fill cs r = true ↔ ∃ c ∈ cs, c.role = r := by
  simp [fill]

theorem fill_of_child? (h : n.child? r = some c) : fill n.children r = true :=
  fill_iff.mpr ⟨c, mem_of_child? h⟩

theorem fill_of_roles {ds : List Node} (h : ∀ c ∈ cs, ∃ d ∈ ds, d.role = c.role)
    (hcs : fill cs r = true) : fill ds r = true := by
  obtain ⟨c, hc, rfl⟩ := fill_iff.mp hcs
  exact fill_iff.mpr (h c hc)

/-! ## Loads -/

/-- What the form of a node counts. -/
def formLoad : Form → Nat
  | .binary _ => 1
  | _ => 0

theorem formLoad_eq_zero (hf : ∀ op, f ≠ .binary op) : formLoad f = 0 := by
  cases f with
  | binary op => exact absurd rfl (hf op)
  | _ => rfl

/-- What a node with some children counts itself. -/
def ownLoad (f : Form) (cs : List Node) : Nat :=
  formLoad f + (if fill cs .callee then 2 else 0) + if fill cs .init then 1 else 0

/-- How often the children of a node count, if a loop takes `k` cases at most. -/
def factor (k : Nat) (cs : List Node) : Nat := if fill cs .init then k + 1 else 1

mutual

/-- The load of a tree. -/
def load (k : Nat) : Node → Nat
  | .mk _ _ f cs => ownLoad f cs + factor k cs * loadAll k cs

/-- The load of some trees. -/
def loadAll (k : Nat) : List Node → Nat
  | [] => 0
  | c :: cs => load k c + loadAll k cs

end

theorem load_eq (k : Nat) (n : Node) :
    n.load k = ownLoad n.form n.children + factor k n.children * loadAll k n.children := by
  cases n
  rw [load]
  rfl

@[simp] theorem loadAll_nil (k : Nat) : loadAll k [] = 0 := rfl

@[simp] theorem loadAll_cons (k : Nat) (c : Node) (cs : List Node) :
    loadAll k (c :: cs) = c.load k + loadAll k cs := rfl

theorem loadAll_append (k : Nat) (cs ds : List Node) :
    loadAll k (cs ++ ds) = loadAll k cs + loadAll k ds := by
  induction cs with
  | nil => exact (Nat.zero_add _).symm
  | cons c cs ih => rw [List.cons_append, loadAll_cons, loadAll_cons, ih, Nat.add_assoc]

theorem loadAll_reverse (k : Nat) (cs : List Node) : loadAll k cs.reverse = loadAll k cs := by
  induction cs with
  | nil => rfl
  | cons c cs ih =>
    rw [List.reverse_cons, loadAll_append, ih, loadAll_cons, loadAll_cons, loadAll_nil]
    omega

theorem loadAll_sublist (h : ns.Sublist ms) : loadAll k ns ≤ loadAll k ms := by
  induction h with
  | slnil => exact Nat.le_refl _
  | cons _ _ ih => exact Nat.le_trans ih (Nat.le_add_left _ _)
  | cons_cons _ _ ih => exact Nat.add_le_add_left ih _

theorem load_le_loadAll (hc : c ∈ cs) : c.load k ≤ loadAll k cs := by
  have hle := loadAll_sublist (k := k) (List.singleton_sublist.mpr hc)
  rwa [loadAll_cons, loadAll_nil, Nat.add_zero] at hle

theorem one_le_factor (k : Nat) (cs : List Node) : 1 ≤ factor k cs := by
  unfold factor
  split <;> omega

/-- What stands below a node counts with it. -/
theorem loadAll_children_le (k : Nat) (n : Node) : loadAll k n.children ≤ n.load k := by
  rw [load_eq]
  have hle := Nat.mul_le_mul_right (loadAll k n.children) (one_le_factor k n.children)
  omega

theorem Inside.load_le (h : d.Inside n) : d.load k ≤ n.load k := by
  induction h with
  | self => exact Nat.le_refl _
  | within hc _ ih => exact Nat.le_trans ih (Nat.le_trans (load_le_loadAll hc) (loadAll_children_le k _))

@[simp] theorem load_inRole (k : Nat) (r : Role) (n : Node) : (n.inRole r).load k = n.load k := by
  cases n
  rfl

@[simp] theorem loadAll_map_inRole (k : Nat) (r : Role) (ns : List Node) :
    loadAll k (ns.map (inRole r)) = loadAll k ns := by
  induction ns with
  | nil => rfl
  | cons n ns ih => rw [List.map_cons, loadAll_cons, loadAll_cons, load_inRole, ih]

theorem load_leaf (f : Form) (hf : ∀ op, f ≠ .binary op) : (leaf f).load k = 0 := by
  rw [leaf, make, load, ownLoad, formLoad_eq_zero hf]
  rfl

/-- A new node all of whose children stand in one slot. -/
theorem load_make_inRole (f : Form) (hf : ∀ op, f ≠ .binary op) (hcallee : r ≠ .callee) (hinit : r ≠ .init)
    (ns : List Node) : (make f (ns.map (inRole r))).load k = loadAll k ns := by
  have hnone : ∀ r', r ≠ r' → fill (ns.map (inRole r)) r' = false := by
    intro r' hne
    refine Bool.eq_false_iff.mpr fun hfill => ?_
    obtain ⟨c, hc, rfl⟩ := fill_iff.mp hfill
    obtain ⟨n, -, rfl⟩ := List.mem_map.mp hc
    exact hne (role_inRole n r).symm
  rw [make, load, ownLoad, factor, hnone _ hcallee, hnone _ hinit, loadAll_map_inRole,
    formLoad_eq_zero hf]
  simp

/-! ## Copies and new nodes -/

/-- What tells how much a tree counts: its form and the slots of its children. -/
theorem load_congr {i j : NodeId} {r r' : Role} {cs ds : List Node}
    (hroles : cs.map role = ds.map role) (hloads : loadAll k cs = loadAll k ds) :
    (Node.mk i r f cs).load k = (Node.mk j r' f ds).load k := by
  have hfill : ∀ s, fill cs s = fill ds s := by
    intro s
    have hany : ∀ es : List Node, fill es s = (es.map role).any (· == s) := fun es => by
      rw [fill, List.any_map]
      rfl
    rw [hany, hany, hroles]
  rw [load, load, ownLoad, ownLoad, factor, factor, hfill, hfill, hloads]

theorem load_unnumbered (k : Nat) (n : Node) : n.unnumbered.load k = n.load k := by
  refine Node.rec (motive_1 := fun n => n.unnumbered.load k = n.load k)
    (motive_2 := fun cs => loadAll k (unnumberedAll cs) = loadAll k cs) ?_ rfl ?_ n
  · intro i r f cs ih
    refine load_congr ?_ ih
    rw [unnumberedAll_eq_map, List.map_map]
    exact List.map_congr_left fun c _ => role_unnumbered c
  · intro c cs ihc ihcs
    rw [unnumberedAll, loadAll_cons, loadAll_cons, ihc, ihcs]

theorem loadAll_map_unnumbered (k : Nat) (ns : List Node) :
    loadAll k (ns.map unnumbered) = loadAll k ns := by
  induction ns with
  | nil => rfl
  | cons n ns ih => rw [List.map_cons, loadAll_cons, loadAll_cons, load_unnumbered, ih]

theorem load_adopt (k : Nat) (n : Node) (next : NodeId) : (n.adopt next).1.load k = n.load k := by
  refine Node.rec (motive_1 := fun n => ∀ next, (n.adopt next).1.load k = n.load k)
    (motive_2 := fun cs => ∀ next, loadAll k (adoptAll cs next).1 = loadAll k cs ∧
      (adoptAll cs next).1.map role = cs.map role) ?_ (fun _ => ⟨rfl, rfl⟩) ?_ n next
  · intro i r f cs ih next
    unfold adopt
    split
    · exact load_congr (ih (next + 1)).2 (ih (next + 1)).1
    · exact load_congr (ih next).2 (ih next).1
  · intro c cs ihc ihcs next
    refine ⟨congrArg₂ (· + ·) (ihc next) (ihcs _).1, ?_⟩
    exact congrArg₂ List.cons (role_adopt c next) (ihcs _).2

theorem loadAll_adoptAll (k : Nat) (ns : List Node) (next : NodeId) :
    loadAll k (adoptAll ns next).1 = loadAll k ns := by
  induction ns generalizing next with
  | nil => rfl
  | cons n ns ih => exact congrArg₂ (· + ·) (load_adopt k n next) (ih _)

/-! ## Trees that are put in -/

theorem load_binary (k : Nat) (op : BinaryOp) (x y : Node) :
    (Node.binary op x y).load k = 1 + (x.load k + y.load k) := by
  have hcallee : fill (at1 .left x ++ at1 .right y) .callee = false := by
    simp [fill, at1, role_inRole]
  have hinit : fill (at1 .left x ++ at1 .right y) .init = false := by
    simp [fill, at1, role_inRole]
  rw [binary, make, load, ownLoad, factor, hcallee, hinit]
  simp [at1, formLoad]

/-- What has a callee counts more than an operator that is applied to two of its arguments. -/
theorem loadAll_add_two_le (hcallee : fill n.children .callee = true) :
    loadAll k (n.childrenAt .arguments) + 2 ≤ n.load k := by
  have hargs : loadAll k (n.childrenAt .arguments) ≤ loadAll k n.children :=
    loadAll_sublist List.filter_sublist
  have hfactor := Nat.mul_le_mul_right (loadAll k n.children) (one_le_factor k n.children)
  rw [load_eq, ownLoad, hcallee, if_pos rfl]
  omega

end Node

namespace Sandbox

open Node (load loadAll)

variable {k : Nat}

theorem load_numberNode (k : Nat) (x : Float) : (numberNode x).load k = 0 := by
  have hmagnitude : (if Binary64.isInfinite x then Node.ident "Infinity"
      else .literal (.number (.real x.abs))).load k = 0 := by
    split
    · exact Node.load_leaf _ fun op h => by cases h
    · exact Node.load_leaf _ fun op h => by cases h
  unfold numberNode
  split
  · exact Node.load_leaf _ fun op h => by cases h
  · simp only
    split
    · exact (Node.load_make_inRole (.unary .minus) (fun op h => by cases h) (by decide) (by decide)
        [_]).trans (by rw [Node.loadAll_cons, hmagnitude, Node.loadAll_nil])
    · exact hmagnitude

/-- The tree of a primitive value cannot be acted upon. -/
theorem load_primitiveNode (k : Nat) (v : Value) : (primitiveNode v).load k = 0 := by
  cases v with
  | number x => exact load_numberNode k x
  | _ => exact Node.load_leaf _ fun op h => by cases h

section Values

variable {h : Heap} {fuel : Nat} {ns : List Node}
  (hvalue : ∀ {v : Value} {n : Node}, valueNodeGo h fuel v = .ok n → n.load k = 0)

include hvalue

theorem loadAll_elementNodes {vs : List Value} (hns : elementNodes h fuel vs = .ok ns) :
    loadAll k ns = 0 := by
  induction vs generalizing ns with
  | nil =>
    unfold elementNodes at hns
    cases hns
    rfl
  | cons v vs ih =>
    unfold elementNodes at hns
    obtain ⟨n, hn, hns⟩ := except_bind_eq_ok.mp hns
    obtain ⟨ns, hrest, hns⟩ := except_bind_eq_ok.mp hns
    cases hns
    rw [Node.loadAll_cons, hvalue hn, ih hrest]

theorem loadAll_propertyNodes {es : List (Text × Value)} (hns : propertyNodes h fuel es = .ok ns) :
    loadAll k ns = 0 := by
  induction es generalizing ns with
  | nil =>
    unfold propertyNodes at hns
    cases hns
    rfl
  | cons e es ih =>
    unfold propertyNodes at hns
    obtain ⟨n, hn, hns⟩ := except_bind_eq_ok.mp hns
    obtain ⟨ns, hrest, hns⟩ := except_bind_eq_ok.mp hns
    cases hns
    have hkey : (keyNode e.1).load k = 0 := by
      unfold keyNode
      split <;> exact Node.load_leaf _ fun op h => by cases h
    have hproperty : (Node.property .plain (keyNode e.1) false n false false).load k = 0 := by
      have hcallee : Node.fill (Node.at1 .key (keyNode e.1) ++ Node.at1 .value n) .callee = false := by
        simp [Node.fill, Node.at1, Node.role_inRole]
      have hinit : Node.fill (Node.at1 .key (keyNode e.1) ++ Node.at1 .value n) .init = false := by
        simp [Node.fill, Node.at1, Node.role_inRole]
      rw [Node.property, Node.make, Node.load, Node.ownLoad, Node.factor, hcallee, hinit]
      simp [Node.at1, Node.formLoad, hkey, hvalue hn]
    rw [Node.loadAll_cons, hproperty, ih hrest]

end Values

theorem load_valueNodeGo (h : Heap) (fuel : Nat) {v : Value} {n : Node}
    (hn : valueNodeGo h fuel v = .ok n) : n.load k = 0 := by
  induction fuel generalizing v n with
  | zero =>
    unfold valueNodeGo at hn
    cases hn
  | succ fuel ih =>
    unfold valueNodeGo at hn
    split at hn
    · simp only at hn
      split at hn
      · obtain ⟨ns, hns, hn⟩ := except_bind_eq_ok.mp hn
        cases hn
        exact (Node.load_make_inRole _ (fun op h => by cases h) (by decide) (by decide) ns).trans
          (loadAll_elementNodes ih hns)
      · obtain ⟨ns, hns, hn⟩ := except_bind_eq_ok.mp hn
        cases hn
        exact (Node.load_make_inRole _ (fun op h => by cases h) (by decide) (by decide) ns).trans
          (loadAll_propertyNodes ih hns)
      · cases hn
      · cases hn
    · cases hn
      exact load_primitiveNode k v

end Sandbox

namespace Rule.Evaluation

/-- The tree of a value cannot be acted upon. -/
theorem load_valueTree? {h : Sandbox.Heap} {v : Option Sandbox.Value} {n : Node} {k : Nat}
    (hn : valueTree? h v = .ok (some n)) : n.load k = 0 := by
  unfold valueTree? at hn
  split at hn
  · cases hn
  · cases hn
  · cases hn
  · split at hn
    · cases hn
    · split at hn
      · next hvalue =>
        cases hn
        exact Sandbox.load_valueNodeGo h _ hvalue
      · cases hn
      · cases hn

/-- The operator of a wrapper counts less than the call. -/
theorem load_unwrapped? {w : Wrapper} {call n : Node} {k : Nat}
    (hcallee : Node.fill call.children .callee = true)
    (hn : unwrapped? w (call.childrenAt .arguments) = some n) : n.load k < call.load k := by
  have hargs := Node.loadAll_add_two_le (k := k) hcallee
  obtain ⟨l, r, heq, -, -, horder⟩ := Sandbox.unwrapped_inv hn
  rw [heq, Node.loadAll_cons, Node.loadAll_cons, Node.loadAll_nil] at hargs
  obtain ⟨-, rfl⟩ | ⟨-, -, -, rfl⟩ := horder
  · rw [Node.load_binary]
    omega
  · rw [Node.load_binary]
    omega

end Rule.Evaluation

/-! ## Statements of loops -/

namespace Dispatch

open Sandbox (Registry ScopeChain)
open Node (loadAll)

variable {loop : Loop} {names : List Text} {s s' : Registry} {k : Nat}

theorem loadAll_cases_le {n : Node} (h : Loop.ofNode? n = some loop) :
    loadAll k loop.cases ≤ loadAll k n.children := by
  obtain ⟨body, switch, hshape⟩ := shape_of_ofNode? h
  have hswitch : switch.Inside body := by
    have hlisted : switch ∈ body.childrenAt .body → switch.Inside body := fun hmem =>
      .child (Node.mem_childrenAt.mp hmem).1
    cases hshape.inner with
    | bare => exact .self _
    | block _ hchildren => exact hlisted (hchildren ▸ List.mem_cons_self)
    | closed _ hchildren => exact hlisted (hchildren ▸ List.mem_cons_self)
  calc loadAll k loop.cases
      ≤ loadAll k switch.children := hshape.cases ▸ Node.loadAll_sublist List.filter_sublist
    _ ≤ switch.load k := Node.loadAll_children_le k switch
    _ ≤ body.load k := hswitch.load_le
    _ ≤ loadAll k n.children := Node.load_le_loadAll (Node.mem_of_child? hshape.body).1

/-- The statements of a case count no more than all cases. -/
def Rationed (k : Nat) (loop : Loop) (plans : Dict Nat CasePlan) : Prop :=
  ∀ index plan, plans.get? index = some plan → loadAll k plan.statements ≤ loadAll k loop.cases

theorem Rationed.planOf {plans : Dict Nat CasePlan} (h : Rationed k loop plans) {index : Nat}
    {plan : CasePlan} (hplan : planOf loop names plans index s = .ok plan s') :
    loadAll k plan.statements ≤ loadAll k loop.cases := by
  cases hget : plans.get? index with
  | some known =>
    unfold Dispatch.planOf at hplan
    rw [hget] at hplan
    cases hplan
    exact h index plan hget
  | none =>
    obtain ⟨case, hcase, hstatements⟩ := planOf_case hplan hget
    calc loadAll k plan.statements
        ≤ loadAll k case.children := Node.loadAll_sublist (hstatements.trans List.filter_sublist)
      _ ≤ case.load k := Node.loadAll_children_le k case
      _ ≤ loadAll k loop.cases := Node.load_le_loadAll (List.mem_of_getElem? hcase)

theorem Rationed.put {plans : Dict Nat CasePlan} (h : Rationed k loop plans) (index : Nat)
    {plan : CasePlan} (hplan : loadAll k plan.statements ≤ loadAll k loop.cases) :
    Rationed k loop (plans.put index plan) := by
  intro i p hp
  by_cases hi : i = index
  · rw [hi, Dict.get?_put_self] at hp
    cases hp
    exact hplan
  · rw [Dict.get?_put_of_ne _ hi] at hp
    exact h i p hp

theorem loadAll_emitted (k : Nat) (plans : Dict Nat CasePlan) (index : Nat) (plan : CasePlan) :
    loadAll k (emitted plans index plan) = loadAll k plan.statements := by
  unfold emitted
  split
  · exact Node.loadAll_map_unnumbered k _
  · rfl

/-- A run emits the statements of no more cases than it may take. -/
theorem loadAll_run_le {values : List Sandbox.Value} {scopes : ScopeChain} {fuel : Nat} {started : Bool}
    {plans : Dict Nat CasePlan} {output out : List Node} (hplans : Rationed k loop plans)
    (h : run loop names values scopes fuel started plans output s = .ok out s') :
    loadAll k out ≤ loadAll k output + fuel * loadAll k loop.cases := by
  induction fuel generalizing started plans output s with
  | zero =>
    unfold run at h
    obtain ⟨next, s₁, -, h⟩ := bind_eq_ok.mp h
    cases next with
    | none =>
      cases h
      rw [Node.loadAll_reverse]
      exact Nat.le_add_right _ _
    | some index => cases h
  | succ fuel ih =>
    unfold run at h
    obtain ⟨next, s₁, -, h⟩ := bind_eq_ok.mp h
    cases next with
    | none =>
      cases h
      rw [Node.loadAll_reverse]
      exact Nat.le_add_right _ _
    | some index =>
      obtain ⟨plan, s₂, hplan, h⟩ := bind_eq_ok.mp h
      have hle := hplans.planOf hplan
      have houtput : loadAll k ((emitted plans index plan).reverse ++ output) ≤
          loadAll k output + loadAll k loop.cases := by
        rw [Node.loadAll_append, Node.loadAll_reverse, loadAll_emitted]
        omega
      obtain ⟨_, s₃, -, h⟩ := bind_eq_ok.mp h
      rw [Nat.succ_mul]
      split at h
      · cases h
        rw [Node.loadAll_reverse]
        omega
      · obtain ⟨_, s₄, -, h⟩ := bind_eq_ok.mp h
        have hrest := ih (hplans.put index hle) h
        omega

/-- The statements that stand for a loop count less than the loop. -/
theorem loadAll_unflatten_lt {n : Node} {readOutside : List Text → Bool} {out : List Node}
    (hloop : Loop.ofNode? n = some loop) (h : (unflatten loop readOutside k).run s = .ok out s') :
    loadAll k out < n.load k := by
  obtain ⟨values, s₁, -, -, hrun⟩ := unflatten_eq_ok h
  have hnone : Rationed k loop .empty := fun index plan hget => by cases hget
  have hout := loadAll_run_le hnone hrun
  have hcases := loadAll_cases_le (k := k) hloop
  obtain ⟨body, switch, hshape⟩ := shape_of_ofNode? hloop
  have hinit : Node.fill n.children .init = true := Node.fill_of_child? hshape.init
  have hmul := Nat.mul_le_mul_left k hcases
  rw [Node.load_eq, Node.ownLoad, Node.factor, hinit, if_pos rfl, if_pos rfl, Nat.succ_mul]
  rw [Node.loadAll_nil] at hout
  omega

end Dispatch

end Untangle
