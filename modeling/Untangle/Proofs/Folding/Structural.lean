import Untangle.Proofs.Analysis.Sweep
import Untangle.Proofs.Folding.Run
import Untangle.Proofs.Tree.Numbering

set_option autoImplicit false

/-!
# Folding as a recursion over trees

A tree is folded from the bottom up: the children first, and then the node, if it is an operator over two
literals.  The recursion fails at the first operator over two literals that has no value or is not one of
those that are folded.  What it gives has nothing left to fold, and it leaves such trees as they are.
-/

namespace Untangle

namespace Sandbox

/-! ## Literals do not depend on identities -/

variable (g : NodeId → NodeId)

theorem form_child?_relabel (n : Node) (r : Role) :
    ((n.relabel g).child? r).map Node.form = (n.child? r).map Node.form := by
  rw [Node.child?_relabel, Option.map_map]
  exact congrArg (Option.map · _) (funext fun c => Node.form_relabel g c)

@[simp] theorem isLiteral_relabel (n : Node) : isLiteral (n.relabel g) = isLiteral n := by
  unfold isLiteral
  rw [Node.form_relabel, form_child?_relabel]

@[simp] theorem denotedValue_relabel (n : Node) : denotedValue (n.relabel g) = denotedValue n := by
  unfold denotedValue
  rw [Node.form_relabel, form_child?_relabel]

theorem unnumbered_primitiveNode (v : Value) : (primitiveNode v).unnumbered = primitiveNode v := by
  cases v with
  | number x =>
    show (numberNode x).unnumbered = numberNode x
    unfold numberNode
    split
    · rfl
    · dsimp only
      split
      · split <;> rfl
      · split <;> rfl
  | _ => rfl

end Sandbox

namespace Rule.Folding

open Sandbox

variable (g : NodeId → NodeId)

theorem literalOperands?_relabel (n : Node) :
    literalOperands? (n.relabel g) =
      (literalOperands? n).map fun x => (x.1, x.2.1.relabel g, x.2.2.relabel g) := by
  unfold literalOperands?
  rw [Node.form_relabel, Node.child?_relabel, Node.child?_relabel]
  split
  · next hform hleft hright =>
    obtain ⟨l, hleft', rfl⟩ := Option.map_eq_some_iff.mp hleft
    obtain ⟨r, hright', rfl⟩ := Option.map_eq_some_iff.mp hright
    simp only [hform, hleft', hright', isLiteral_relabel]
    split <;> rfl
  · next hno =>
    split
    · next hform hleft hright =>
      exact absurd (congrArg (Option.map _) hright) (hno _ _ _ hform (congrArg (Option.map _) hleft))
    · rfl

theorem foldedValue_relabel (op : BinaryOp) (l r : Node) :
    foldedValue op (l.relabel g) (r.relabel g) = foldedValue op l r := by
  unfold foldedValue
  rw [denotedValue_relabel, denotedValue_relabel]

/-! ## The recursion -/

/-- Why a tree cannot be folded. -/
inductive Halt where
  /-- Two literals stand under an operator that is not folded. -/
  | unfoldable (op : BinaryOp) (n : Node)
  /-- The value of an operator cannot be computed. -/
  | fault (f : Fault)

/-- The tree of the value, if a node is an operator over two literals. -/
def reduce (n : Node) : Except Halt Node :=
  match literalOperands? n with
  | none => .ok n
  | some (op, l, r) =>
    if isFoldable op then
      match foldedValue op l r with
      | .ok v => .ok ((primitiveNode v).inRole n.role)
      | .error f => .error (.fault f)
    else .error (.unfoldable op n)

theorem reduce_of_operands {n l r : Node} {op : BinaryOp} {v : Value}
    (h : literalOperands? n = some (op, l, r)) (hop : isFoldable op = true)
    (hv : foldedValue op l r = .ok v) : reduce n = .ok ((primitiveNode v).inRole n.role) := by
  simp only [reduce, h, hop, if_true, hv]

theorem reduce_of_fault {n l r : Node} {op : BinaryOp} {f : Fault}
    (h : literalOperands? n = some (op, l, r)) (hop : isFoldable op = true)
    (hf : foldedValue op l r = .error f) : reduce n = .error (.fault f) := by
  simp only [reduce, h, hop, if_true, hf]

/-- What the node itself is reported for. -/
theorem operands_of_reduce {n m : Node} {op : BinaryOp} (h : reduce n = .error (.unfoldable op m)) :
    isFoldable op = false ∧ ∃ l r, literalOperands? m = some (op, l, r) := by
  unfold reduce at h
  split at h
  · cases h
  · next l r hsome =>
    split at h
    · split at h <;> cases h
    · next hop =>
      cases h
      exact ⟨by simpa using hop, l, r, hsome⟩

mutual

/-- Folds a tree from the bottom up.  A property whose value is another node then is written out. -/
def foldTree : Node → Except Halt Node
  | .mk i r f cs => do
    let cs' ← foldTrees cs
    reduce (.mk i r (f.after cs cs') cs')

/-- Folds some trees one after the other. -/
def foldTrees : List Node → Except Halt (List Node)
  | [] => .ok []
  | c :: cs => do
    let c' ← foldTree c
    return c' :: (← foldTrees cs)

end

/-- What becomes of a tree that is folded. -/
theorem foldTree_eq_ok {i : NodeId} {r : Role} {f : Form} {cs : List Node} {m : Node} :
    foldTree (.mk i r f cs) = .ok m ↔
      ∃ cs', foldTrees cs = .ok cs' ∧ reduce (.mk i r (f.after cs cs') cs') = .ok m := by
  rw [foldTree]
  exact except_bind_eq_ok

theorem foldTrees_eq_ok {cs ms : List Node} :
    foldTrees cs = .ok ms ↔ List.Forall₂ (fun c m => foldTree c = .ok m) cs ms := by
  induction cs generalizing ms with
  | nil =>
    rw [List.forall₂_nil_left_iff]
    constructor
    · intro h
      cases h
      rfl
    · rintro rfl
      rfl
  | cons c cs ih =>
    rw [foldTrees, except_bind_eq_ok, List.forall₂_cons_left_iff]
    constructor
    · rintro ⟨m, hm, h⟩
      obtain ⟨ms', hms, h⟩ := except_bind_eq_ok.mp h
      cases h
      exact ⟨m, ms', hm, ih.mp hms, rfl⟩
    · rintro ⟨m, ms', hm, hms, rfl⟩
      exact ⟨m, hm, except_bind_eq_ok.mpr ⟨ms', ih.mpr hms, rfl⟩⟩

/-- A tree that is not folded because one of its children is not. -/
theorem foldTrees_eq_error {past rest : List Node} {c : Node} {h : Halt}
    (hpast : ∀ d ∈ past, ∃ m, foldTree d = .ok m) (hc : foldTree c = .error h) :
    foldTrees (past ++ c :: rest) = .error h := by
  induction past with
  | nil =>
    rw [List.nil_append, foldTrees, hc]
    rfl
  | cons d past ih =>
    obtain ⟨m, hm⟩ := hpast d List.mem_cons_self
    rw [List.cons_append, foldTrees, hm, ih fun e he => hpast e (List.mem_cons_of_mem d he)]
    rfl

/-- What the recursion reports is an operator over two literals that is not folded. -/
theorem operands_of_unfoldable (n : Node) {op : BinaryOp} {m : Node}
    (h : foldTree n = .error (.unfoldable op m)) :
    isFoldable op = false ∧ ∃ l r, literalOperands? m = some (op, l, r) := by
  refine Node.rec
    (motive_1 := fun n => foldTree n = .error (.unfoldable op m) →
      isFoldable op = false ∧ ∃ l r, literalOperands? m = some (op, l, r))
    (motive_2 := fun cs => foldTrees cs = .error (.unfoldable op m) →
      isFoldable op = false ∧ ∃ l r, literalOperands? m = some (op, l, r)) ?_ ?_ ?_ n h
  · intro i r f cs ih h
    rw [foldTree] at h
    cases hcs : foldTrees cs with
    | error halt =>
      rw [hcs] at h
      cases h
      exact ih hcs
    | ok cs' =>
      rw [hcs] at h
      exact operands_of_reduce h
  · intro h
    cases h
  · intro c cs ih ihs h
    rw [foldTrees] at h
    cases hc : foldTree c with
    | error halt =>
      rw [hc] at h
      cases h
      exact ih hc
    | ok c' =>
      rw [hc] at h
      cases hcs : foldTrees cs with
      | error halt =>
        rw [hcs] at h
        cases h
        exact ihs hcs
      | ok cs' =>
        rw [hcs] at h
        cases h

/-! ## What is folded -/

/-- A tree without operators over two literals. -/
def Folded (n : Node) : Prop := ∀ d : Node, d.Inside n → literalOperands? d = none

theorem literalOperands?_of_handles {n : Node} (h : handles n.form = false) :
    literalOperands? n = none := by
  unfold literalOperands?
  split
  · next hform _ _ =>
    rw [hform] at h
    cases h
  · rfl

theorem Plain.folded {n : Node} (h : Plain n) : Folded n :=
  fun _ hd => literalOperands?_of_handles (h.handles hd)

theorem Folded.of_children {n : Node} (hself : literalOperands? n = none)
    (hbelow : ∀ c ∈ n.children, Folded c) : Folded n := by
  intro d hd
  cases hd with
  | self => exact hself
  | within hc hd => exact hbelow _ hc d hd

theorem folded_relabel_iff {n : Node} : Folded (n.relabel g) ↔ Folded n := by
  constructor
  · intro h d hd
    have hnone := h _ ((Node.inside_relabel_iff g).mpr ⟨d, hd, rfl⟩)
    rw [literalOperands?_relabel] at hnone
    exact Option.map_eq_none_iff.mp hnone
  · intro h d hd
    obtain ⟨e, he, rfl⟩ := (Node.inside_relabel_iff g).mp hd
    rw [literalOperands?_relabel, h e he]
    rfl

theorem reduce_cases {n m : Node} (h : reduce n = .ok m) :
    (literalOperands? n = none ∧ m = n) ∨
      ∃ op l r v, literalOperands? n = some (op, l, r) ∧ isFoldable op = true ∧
        foldedValue op l r = .ok v ∧ m = (primitiveNode v).inRole n.role := by
  unfold reduce at h
  split at h
  · next hnone =>
    cases h
    exact .inl ⟨hnone, rfl⟩
  · next op l r hsome =>
    split at h
    · next hop =>
      split at h
      · next v hv =>
        cases h
        exact .inr ⟨op, l, r, v, hsome, hop, hv, rfl⟩
      · cases h
    · cases h

theorem folded_of_foldTree (n : Node) {m : Node} (h : foldTree n = .ok m) : Folded m := by
  refine Node.rec (motive_1 := fun n => ∀ m, foldTree n = .ok m → Folded m)
    (motive_2 := fun cs => ∀ ms, foldTrees cs = .ok ms → ∀ m ∈ ms, Folded m) ?_ ?_ ?_ n m h
  · intro i r f cs ih m h
    obtain ⟨cs', hcs, hreduce⟩ := foldTree_eq_ok.mp h
    rcases reduce_cases hreduce with ⟨hnone, rfl⟩ | ⟨_, _, _, v, -, -, -, rfl⟩
    · exact .of_children hnone (ih cs' hcs)
    · exact ((plain_primitiveNode v).inRole _).folded
  · intro ms h m hm
    cases h
    cases hm
  · intro c cs ih ihs ms h m hm
    obtain ⟨m', ms', hm', hms', rfl⟩ := List.forall₂_cons_left_iff.mp (foldTrees_eq_ok.mp h)
    rcases List.mem_cons.mp hm with rfl | hm
    · exact ih _ hm'
    · exact ihs ms' (foldTrees_eq_ok.mpr hms') m hm

/-- A tree that is folded stays as it is. -/
theorem foldTree_of_folded {n : Node} (h : Folded n) : foldTree n = .ok n := by
  refine Node.rec (motive_1 := fun n => Folded n → foldTree n = .ok n)
    (motive_2 := fun cs => (∀ c ∈ cs, Folded c) → foldTrees cs = .ok cs) ?_ ?_ ?_ n h
  · intro i r f cs ih h
    have hcs := ih fun c hc d hd => h d (.within hc hd)
    have hself := h _ (.self _)
    refine foldTree_eq_ok.mpr ⟨cs, hcs, ?_⟩
    rw [Form.after, Node.valueGone_self]
    simp only [Bool.false_eq_true, if_false]
    rw [reduce, hself]
  · exact fun _ => rfl
  · intro c cs ih ihs h
    rw [foldTrees, ih (h c List.mem_cons_self), ihs fun d hd => h d (List.mem_cons_of_mem c hd)]
    rfl

/-! ## What stays -/

theorem handles_of_recast {f f' : Form} (h : f.Recast f') : handles f' = handles f := by
  cases h <;> rfl

/-- A node that is no operator is none afterwards. -/
theorem handles_of_foldTree {n m : Node} (hn : handles n.form = false) (h : foldTree n = .ok m) :
    handles m.form = false := by
  obtain ⟨i, r, f, cs⟩ := n
  obtain ⟨cs', -, hreduce⟩ := foldTree_eq_ok.mp h
  have hafter : handles (f.after cs cs') = false :=
    (handles_of_recast (f.recast_after cs cs')).trans hn
  rcases reduce_cases hreduce with ⟨-, rfl⟩ | ⟨_, _, _, _, hsome, -, -, rfl⟩
  · exact hafter
  · have hnone := literalOperands?_of_handles (n := .mk i r (f.after cs cs') cs') hafter
    cases hnone.symm.trans hsome

theorem role_of_reduce {n m : Node} (h : reduce n = .ok m) : m.role = n.role := by
  rcases reduce_cases h with ⟨-, rfl⟩ | ⟨_, _, _, v, -, -, -, rfl⟩
  · rfl
  · exact Node.role_inRole _ _

theorem role_of_foldTree {n m : Node} (h : foldTree n = .ok m) : m.role = n.role := by
  obtain ⟨i, r, f, cs⟩ := n
  obtain ⟨cs', -, hreduce⟩ := foldTree_eq_ok.mp h
  show m.role = (Node.mk i r (f.after cs cs') cs').role
  exact role_of_reduce hreduce

theorem roles_of_foldTrees {cs ms : List Node} (h : foldTrees cs = .ok ms) :
    ms.map Node.role = cs.map Node.role := by
  have hall := foldTrees_eq_ok.mp h
  clear h
  induction hall with
  | nil => rfl
  | cons hm _ ih => rw [List.map_cons, List.map_cons, role_of_foldTree hm, ih]

theorem slots_of_recast {f f' : Form} (h : f.Recast f') : f'.slots = f.slots := by
  cases h <;> rfl

theorem isOrdered_primitiveNode (v : Value) : (primitiveNode v).isOrdered = true := by
  cases v with
  | number x =>
    show (numberNode x).isOrdered = true
    unfold numberNode
    split
    · rfl
    · dsimp only
      split
      · split <;> rfl
      · split <;> rfl
  | _ => rfl

theorem isOrdered_inRole (n : Node) (r : Role) : (n.inRole r).isOrdered = n.isOrdered := by
  cases n
  rfl

/-- Children stay in the slots in which they stand. -/
theorem isOrdered_of_foldTree (n : Node) {m : Node} (hn : n.isOrdered = true) (h : foldTree n = .ok m) :
    m.isOrdered = true := by
  refine Node.rec (motive_1 := fun n => ∀ m, n.isOrdered = true → foldTree n = .ok m → m.isOrdered = true)
    (motive_2 := fun cs => ∀ ms, (∀ c ∈ cs, c.isOrdered = true) → foldTrees cs = .ok ms →
      ∀ m ∈ ms, m.isOrdered = true) ?_ ?_ ?_ n m hn h
  · intro i r f cs ih m hn h
    obtain ⟨cs', hcs, hreduce⟩ := foldTree_eq_ok.mp h
    rcases reduce_cases hreduce with ⟨-, rfl⟩ | ⟨_, _, _, v, -, -, -, rfl⟩
    · have hbelow := ih cs' (fun c hc => Node.isOrdered_child hn hc) hcs
      have hself : Node.fillsInOrder (.mk i r f cs) = true :=
        Node.everywhere_iff.mp hn _ (.self _)
      refine Node.everywhere_iff.mpr ((Node.forall_inside_mk).mpr ⟨?_, ?_⟩)
      · show Node.takesSlots (f.after cs cs').slots (cs'.map Node.role) = true
        rw [slots_of_recast (f.recast_after cs cs'), roles_of_foldTrees hcs]
        exact hself
      · exact fun c hc => Node.everywhere_iff.mp (hbelow c hc)
    · rw [isOrdered_inRole]
      exact isOrdered_primitiveNode v
  · intro ms _ h m hm
    cases h
    cases hm
  · intro c cs ih ihs ms hcs h m hm
    obtain ⟨m', ms', hm', hms', rfl⟩ := List.forall₂_cons_left_iff.mp (foldTrees_eq_ok.mp h)
    rcases List.mem_cons.mp hm with rfl | hm
    · exact ih _ (hcs c List.mem_cons_self) hm'
    · exact ihs ms' (fun d hd => hcs d (List.mem_cons_of_mem c hd)) (foldTrees_eq_ok.mpr hms') m hm

theorem depth_inRole (n : Node) (r : Role) : (n.inRole r).depth = n.depth := by
  cases n
  rfl

theorem depth_primitiveNode_le (v : Value) : (primitiveNode v).depth ≤ 2 := by
  cases v with
  | number x =>
    show (numberNode x).depth ≤ 2
    have hmagnitude : (magnitudeNode x).depth = 1 := by
      unfold magnitudeNode
      split <;> rfl
    have hminus : (Node.unary .minus (magnitudeNode x)).depth = 1 + (magnitudeNode x).depth := by
      show 1 + max ((magnitudeNode x).inRole .argument).depth 0 = _
      rw [depth_inRole, Nat.max_zero]
    rw [numberNode_eq]
    split
    · exact Nat.le_succ 1
    · split
      · rw [hminus, hmagnitude]
      · rw [hmagnitude]
        exact Nat.le_succ 1
  | _ => exact Nat.le_succ 1

theorem two_le_depth_of_operands {n : Node} {x : BinaryOp × Node × Node}
    (h : literalOperands? n = some x) : 2 ≤ n.depth := by
  unfold literalOperands? at h
  split at h
  · next l r hform hleft hright =>
    have hlt := Node.depth_lt_of_mem (Node.mem_of_child? hleft).1
    have hpos := Node.depth_pos l
    omega
  · cases h

/-- A tree that is folded is not deeper than before. -/
theorem depth_of_foldTree (n : Node) {m : Node} (h : foldTree n = .ok m) : m.depth ≤ n.depth := by
  refine Node.rec (motive_1 := fun n => ∀ m, foldTree n = .ok m → m.depth ≤ n.depth)
    (motive_2 := fun cs => ∀ ms, foldTrees cs = .ok ms → Node.depthAll ms ≤ Node.depthAll cs) ?_ ?_ ?_ n m h
  · intro i r f cs ih m h
    obtain ⟨cs', hcs, hreduce⟩ := foldTree_eq_ok.mp h
    have hbelow : (Node.mk i r (f.after cs cs') cs').depth ≤ (Node.mk i r f cs).depth :=
      Nat.add_le_add_left (ih cs' hcs) 1
    rcases reduce_cases hreduce with ⟨-, rfl⟩ | ⟨_, _, _, v, hsome, -, -, rfl⟩
    · exact hbelow
    · rw [depth_inRole]
      exact Nat.le_trans (depth_primitiveNode_le v)
        (Nat.le_trans (two_le_depth_of_operands hsome) hbelow)
  · intro ms h
    cases h
    exact Nat.le_refl _
  · intro c cs ih ihs ms h
    obtain ⟨m', ms', hm', hms', rfl⟩ := List.forall₂_cons_left_iff.mp (foldTrees_eq_ok.mp h)
    have hle := ih m' hm'
    have hle' := ihs ms' (foldTrees_eq_ok.mpr hms')
    simp only [Node.depthAll]
    omega

end Rule.Folding

end Untangle
