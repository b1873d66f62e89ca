import Untangle.Proofs.Sandbox.Headstart
import Untangle.Proofs.Sandbox.Primitive
import Untangle.Proofs.Tree.Code

set_option autoImplicit false

/-!
# Expressions that only look

Literals, names, members and operators on these look at variables and objects and change none.  What their
evaluation costs is steps, and nothing else, so that evaluated again they come to the same.
-/

namespace Untangle

/-- Whether an expression of this form changes nothing by itself. -/
def Form.looks : Form → Bool
  | .literal _ | .identifier _ | .thisExpression | .member _ | .binary _ | .logical _ | .conditional
  | .sequence | .template | .templateElement _ _ _ => true
  | .unary op => op != .delete
  | _ => false

/-- Whether an expression only looks at variables and objects. -/
def Node.looks (n : Node) : Bool := n.everywhere fun d => d.form.looks

theorem Node.looks_form {n : Node} (h : n.looks = true) : n.form.looks = true :=
  Node.everywhere_iff.mp h n (.self n)

theorem Node.looks_of_mem {n c : Node} (h : n.looks = true) (hc : c ∈ n.children) : c.looks = true :=
  Node.everywhere_iff.mpr fun d hd => Node.everywhere_iff.mp h d (.within hc hd)

theorem Node.looks_child? {n c : Node} {r : Role} (h : n.looks = true) (hc : n.child? r = some c) :
    c.looks = true := Node.looks_of_mem h (Node.mem_of_child? hc).1

namespace Sandbox

variable {α β : Type} {m m' : Machine} {scopes : ScopeChain} {depth : Nat}

theorem Machine.spend_zero (m : Machine) : m.spend 0 = m := rfl

/-! ## Computations that cost steps only -/

/-- A computation that takes some steps and does nothing else, if it has a result. -/
def Frugal (c : Run α) : Prop := ∀ m a m', c m = .ok a m' → ∃ k, m' = m.spend k

namespace Frugal

theorem same {c : Run α} (h : ∀ m a m', c m = .ok a m' → m' = m) : Frugal c :=
  fun m a m' hrun => ⟨0, h m a m' hrun⟩

theorem never {c : Run α} (h : ∀ m, ∃ e m', c m = .error e m') : Frugal c := by
  intro m a m' hrun
  obtain ⟨e, m'', herror⟩ := h m
  cases hrun.symm.trans herror

theorem pure (a : α) : Frugal (Pure.pure a : Run α) := same fun _ _ _ h => by cases h; rfl

theorem throw (e : Abrupt) : Frugal (MonadExcept.throw e : Run α) := never fun m => ⟨e, m, rfl⟩

theorem get : Frugal (MonadState.get : Run Machine) := same fun _ _ _ h => by cases h; rfl

theorem bind {c : Run α} {f : α → Run β} (hc : Frugal c) (hf : ∀ a, Frugal (f a)) :
    Frugal (c >>= f) := by
  intro m b m' hrun
  obtain ⟨a, m₁, ha, hb⟩ := bind_eq_ok.mp hrun
  obtain ⟨j, rfl⟩ := hc m a m₁ ha
  obtain ⟨k, rfl⟩ := hf a _ b m' hb
  exact ⟨j + k, m.spend_spend j k⟩

theorem reading (f : Heap → Conv α) : Frugal (Run.reading f) := same fun _ _ _ h => reading_inv h

theorem cell (r : Ref) : Frugal (Run.cell r) := get.bind fun _ => pure _

theorem raise (kind : String) (message : Text) : Frugal (Run.raise kind message : Run α) :=
  never fun _ => ⟨_, _, rfl⟩

theorem fail (f : Failure) : Frugal (Run.fail f : Run α) := throw _

theorem tick : Frugal Run.tick := by
  intro m a m' hrun
  rw [tick_eq] at hrun
  split at hrun
  · cases hrun
  · cases hrun
    exact ⟨1, rfl⟩

theorem part (n : Node) (r : Role) : Frugal (Run.part n r) := by
  unfold Run.part
  split
  · exact pure _
  · exact throw _

theorem literalValue (l : Literal) : Frugal (Run.literalValue l) := by
  unfold Run.literalValue
  split
  · exact pure _
  · exact pure _
  · exact pure _
  · exact pure _
  · split
    · exact pure _
    · exact throw _
  · exact fail _

theorem lookup (scopes : ScopeChain) (name : Text) : Frugal (Run.lookup scopes name) := by
  refine get.bind fun m => ?_
  split
  · exact pure _
  · exact raise _ _

theorem thisValue (scopes : ScopeChain) : Frugal (Run.thisValue scopes) := by
  refine get.bind fun m => ?_
  split
  · exact pure _
  · exact pure _

theorem getProperty (v : Value) (key : Text) : Frugal (Run.getProperty v key) := by
  unfold Run.getProperty
  split
  · exact raise _ _
  · exact raise _ _
  · exact reading _
  · exact pure _
  · exact pure _
  · refine (cell _).bind fun c => (reading _).bind fun has => ?_
    split
    · exact reading _
    · exact pure _

theorem binaryOperation (op : BinaryOp) (l r : Value) : Frugal (Run.binaryOperation op l r) := by
  unfold Run.binaryOperation
  split
  · split
    · exact (reading _).bind fun _ => (cell _).bind fun _ => (reading _).bind fun _ => pure _
    · exact raise _ _
  · exact reading _

end Frugal

/-! ## Evaluation -/

/-- The parts of an expression cost steps only. -/
def Evaluator.FrugalFor (ev : Evaluator) (scopes : ScopeChain) : Prop :=
  ∀ n : Node, n.looks = true → Frugal (ev.expression n scopes)

namespace Frugal

variable {ev : Evaluator} {n : Node}

/-- A part of an expression that only looks is evaluated. -/
theorem partValue (hev : ev.FrugalFor scopes) (hn : n.looks = true) (r : Role) {k : Value → Run β}
    (hk : ∀ v, Frugal (k v)) : Frugal (Run.part n r >>= fun c => ev.expression c scopes >>= k) := by
  cases hc : n.child? r with
  | none =>
    refine never fun m => ⟨.fault .missingPart, m, ?_⟩
    refine bind_of_error ?_
    unfold Run.part
    rw [hc]
    rfl
  | some c =>
    have heq : Run.part n r = Pure.pure c := by
      unfold Run.part
      rw [hc]
    rw [heq, pure_bind]
    exact (hev c (Node.looks_child? hn hc)).bind hk

theorem partExpression (hev : ev.FrugalFor scopes) (hn : n.looks = true) (r : Role) :
    Frugal (Run.part n r >>= fun c => ev.expression c scopes) := by
  have h := partValue hev hn r fun v => Frugal.pure v
  simpa using h

theorem memberKey (hev : ev.FrugalFor scopes) (hn : n.looks = true) (computed : Bool) :
    Frugal (Run.memberKey ev computed n scopes) := by
  unfold Run.memberKey
  split
  · exact partValue hev hn .property fun v => reading _
  · refine (part _ _).bind fun p => ?_
    split
    · exact pure _
    · exact throw _

theorem memberValue (hev : ev.FrugalFor scopes) (hn : n.looks = true) (computed : Bool) :
    Frugal (Run.memberValue ev computed n scopes) :=
  partValue hev hn .object fun v => (memberKey hev hn computed).bind fun key => getProperty v key

theorem logicalValue (hev : ev.FrugalFor scopes) (hn : n.looks = true) (op : LogicalOp) :
    Frugal (Run.logicalValue ev op n scopes) := by
  refine partValue hev hn .left fun l => ?_
  split
  · exact pure _
  · exact partExpression hev hn .right
  · exact fail _

theorem typeofValue (hev : ev.FrugalFor scopes) (hn : n.looks = true) :
    Frugal (Run.typeofValue ev n scopes) := by
  have hkind : Frugal (ev.expression n scopes >>= fun v =>
      MonadState.get >>= fun m : Machine => Pure.pure (Value.string (typeOf m.heap v))) :=
    (hev n hn).bind fun v => get.bind fun m => pure _
  unfold Run.typeofValue
  split
  · refine (get.bind fun _ => pure _ : Frugal (Run.isBound scopes _)).bind fun bound => ?_
    split
    · exact hkind
    · exact pure _
  · exact hkind

theorem unaryValue (hev : ev.FrugalFor scopes) (hn : n.looks = true) {op : UnaryOp} (hop : op ≠ .delete) :
    Frugal (Run.unaryValue ev op n scopes) := by
  unfold Run.unaryValue
  split
  · exact typeofValue hev hn
  · exact absurd rfl hop
  · refine (hev n hn).bind fun v => ?_
    split
    · exact (reading _).bind fun _ => pure _
    · exact (reading _).bind fun _ => pure _
    · exact pure _
    · exact (reading _).bind fun _ => pure _
    · exact pure _
    · exact fail _

theorem sequenceValue (hev : ev.FrugalFor scopes) {es : List Node} (hes : ∀ e ∈ es, e.looks = true)
    (v : Value) : Frugal (Run.sequenceValue ev scopes es v) := by
  induction es generalizing v with
  | nil => exact pure v
  | cons e es ih =>
    exact (hev e (hes e List.mem_cons_self)).bind fun w =>
      ih (fun d hd => hes d (List.mem_cons_of_mem e hd)) w

theorem templateValue (hev : ev.FrugalFor scopes) {qs es : List Node} (hes : ∀ e ∈ es, e.looks = true)
    (acc : Text) : Frugal (Run.templateValue ev scopes qs es acc) := by
  induction qs generalizing es acc with
  | nil => exact pure acc
  | cons q qs ih =>
    unfold Run.templateValue
    split
    · split
      · next e es =>
        exact (hev e (hes e List.mem_cons_self)).bind fun v => (reading _).bind fun t =>
          ih (fun d hd => hes d (List.mem_cons_of_mem e hd)) _
      · exact ih (fun d hd => by cases hd) _
    · exact fail _

end Frugal

theorem looks_childrenAt {n : Node} (h : n.looks = true) (r : Role) :
    ∀ c ∈ n.childrenAt r, c.looks = true :=
  fun _ hc => Node.looks_of_mem h (List.mem_filter.mp hc).1

theorem frugal_evaluateExpression {ev : Evaluator} (hev : ev.FrugalFor scopes) {n : Node}
    (hn : n.looks = true) : Frugal (Run.evaluateExpression ev n scopes) := by
  have hform := Node.looks_form hn
  refine Frugal.tick.bind fun _ => ?_
  generalize n.form = f at hform ⊢
  cases f with
  | literal l => exact .literalValue l
  | identifier name => exact .lookup scopes name
  | thisExpression => exact .thisValue scopes
  | member computed => exact .memberValue hev hn computed
  | binary op =>
    exact .partValue hev hn .left fun l => .partValue hev hn .right fun r => .binaryOperation op l r
  | logical op => exact .logicalValue hev hn op
  | conditional =>
    refine .partValue hev hn .test fun v => ?_
    split
    · exact .partExpression hev hn .consequent
    · exact .partExpression hev hn .alternate
  | sequence => exact .sequenceValue hev (looks_childrenAt hn .expressions) _
  | template => exact (Frugal.templateValue hev (looks_childrenAt hn .expressions) _).bind fun _ => .pure _
  | templateElement _ _ _ => exact .fail _
  | unary op =>
    have hop : op ≠ .delete := by
      rintro rfl
      cases hform
    intro m v m' hrun
    obtain ⟨c, m₁, hc, hv⟩ := bind_eq_ok.mp hrun
    cases hchild : n.child? .argument with
    | none =>
      unfold Run.part at hc
      rw [hchild] at hc
      cases hc
    | some d =>
      cases (part_of_child? hchild m).symm.trans hc
      exact Frugal.unaryValue hev (Node.looks_child? hn hchild) hop m v m' hv
  | _ => cases hform

/-- An expression that only looks costs steps, and nothing else. -/
theorem frugal_expression (depth : Nat) (scopes : ScopeChain) : (evaluator depth).FrugalFor scopes := by
  induction depth with
  | zero => exact fun n _ => .throw _
  | succ depth ih => exact fun n hn => frugal_evaluateExpression ih hn

end Sandbox

end Untangle
