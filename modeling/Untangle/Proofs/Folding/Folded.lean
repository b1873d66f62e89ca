import Untangle.Proofs.Folding.Arithmetic
import Untangle.Proofs.Tree.Numbering

set_option autoImplicit false

/-!
# Folded arithmetic

The tree of the value of an operator is evaluated to that value, in fewer steps and no deeper than the
operator.  So is everything around it that is evaluated in the same way; an operator whose value cannot
be computed stops in the same way when it is run.
-/

namespace Untangle.Rule.Folding

open Sandbox

/-! ## Evaluations that come to the same -/

namespace Course

/-- An evaluation that comes to the same as another one, in no more steps and no deeper. -/
structure Improves (x y : Course) : Prop where
  result : x.result = y.result
  steps : x.steps ≤ y.steps
  nesting : x.nesting ≤ y.nesting

namespace Improves

variable {x x' y y' z : Course}

theorem refl (x : Course) : x.Improves x := ⟨rfl, Nat.le_refl _, Nat.le_refl _⟩

theorem trans (h : x.Improves y) (h' : y.Improves z) : x.Improves z :=
  ⟨h.result.trans h'.result, Nat.le_trans h.steps h'.steps, Nat.le_trans h.nesting h'.nesting⟩

theorem inside (h : x.Improves y) : x.inside.Improves y.inside :=
  ⟨h.result, Nat.succ_le_succ h.steps, Nat.succ_le_succ h.nesting⟩

theorem andThen {f g : Value → Course} (h : x.Improves y) (hf : ∀ v, (f v).Improves (g v)) :
    (x.andThen f).Improves (y.andThen g) := by
  have hsteps := h.steps
  have hnesting := h.nesting
  unfold Course.andThen
  rw [h.result]
  cases y.result with
  | ok v =>
    have hsteps' := (hf v).steps
    have hnesting' := (hf v).nesting
    exact ⟨(hf v).result, by simp only; omega, by simp only; omega⟩
  | error e => exact ⟨rfl, hsteps, hnesting⟩

theorem unary (h : x.Improves y) (f : Value → Conv Value) : (x.unary f).Improves (y.unary f) :=
  (h.andThen fun _ => .refl _).inside

theorem binary (h : x.Improves x') (h' : y.Improves y') (f : Value → Value → Conv Value) :
    (x.binary y f).Improves (x'.binary y' f) :=
  (h.andThen fun _ => h'.andThen fun _ => .refl _).inside

/-- Where there is room for an evaluation there is room for a better one, which ends in the same way. -/
theorem fits {depth : Nat} {m : Machine} (h : x.Improves y) (hy : y.Fits depth m) :
    x.Fits depth m :=
  ⟨Nat.le_trans (Nat.add_le_add_left h.steps _) hy.1, Nat.le_trans h.nesting hy.2⟩

end Improves

/-- An operator whose operands are evaluated to values takes a step more than both, and it takes them one
deeper. -/
theorem binary_of_ok {x y : Course} {f : Value → Value → Conv Value} {v w : Value}
    (hx : x.result = .ok v) (hy : y.result = .ok w) :
    (x.binary y f).steps = x.steps + y.steps + 1 ∧
      (x.binary y f).nesting = max x.nesting y.nesting + 1 := by
  unfold binary inside andThen
  rw [hx]
  simp only
  rw [hy]
  simp [done]

end Course

/-! ## Identities and slots -/

theorem Evaluates.inRole {n : Node} {x : Course} (h : Evaluates n x) (r : Role) :
    Evaluates (n.inRole r) x := by
  cases h with
  | literal hl => exact .literal hl
  | nan => exact .nan
  | infinity => exact .infinity
  | minus hrole hc => exact .minus hrole hc
  | binary hop hleft hright ha hb => exact .binary hop hleft hright ha hb

/-- New identities do not change how an expression is evaluated. -/
theorem Evaluates.adopt {n : Node} {x : Course} (h : Evaluates n x) (next : NodeId) :
    Evaluates (n.adopt next).1 x := by
  induction h generalizing next with
  | literal hl =>
    unfold Node.adopt
    split <;> exact .literal hl
  | nan =>
    unfold Node.adopt
    split <;> exact .nan
  | infinity =>
    unfold Node.adopt
    split <;> exact .infinity
  | @minus i r c x hrole _ ih =>
    unfold Node.adopt
    split <;> exact .minus ((Node.role_adopt c _).trans hrole) (ih _)
  | @binary i r op a b x y hop hleft hright _ _ iha ihb =>
    unfold Node.adopt
    split <;>
      exact .binary hop ((Node.role_adopt a _).trans hleft) ((Node.role_adopt b _).trans hright)
        (iha _) (ihb _)

/-! ## Trees of values -/

/-- The tree of the magnitude of a number. -/
def magnitudeNode (x : Float) : Node :=
  if Binary64.isInfinite x then .ident "Infinity" else .literal (.number (.real x.abs))

theorem numberNode_eq (x : Float) :
    numberNode x =
      if Binary64.isNaN x then .ident "NaN"
      else if Binary64.isNegative x then .unary .minus (magnitudeNode x) else magnitudeNode x := rfl

theorem evaluates_magnitudeNode (x : Float) :
    Evaluates (magnitudeNode x) (.leaf (.ok (.number x.abs))) := by
  unfold magnitudeNode
  split
  · next hinfinite =>
    rw [Binary64.abs_of_isInfinite hinfinite]
    exact .infinity
  · exact .literal rfl

/-- An evaluation to a value that is cheaper than that of any operator on two operands. -/
structure Cheap (n : Node) (v : Value) (z : Course) : Prop where
  evaluates : Evaluates n z
  result : z.result = .ok v
  steps : z.steps ≤ 2
  nesting : z.nesting ≤ 2

theorem Cheap.leaf {n : Node} {v : Value} (h : Evaluates n (.leaf (.ok v))) :
    Cheap n v (.leaf (.ok v)) := ⟨h, rfl, Nat.le_succ 1, Nat.le_succ 1⟩

theorem cheap_numberNode (x : Float) : ∃ z, Cheap (numberNode x) (.number x) z := by
  rw [numberNode_eq]
  split
  · next hnan =>
    rw [Binary64.eq_nan_of_isNaN hnan]
    exact ⟨_, .leaf .nan⟩
  · split
    · next hnegative =>
      have hrole : ((magnitudeNode x).inRole .argument).role = .argument := by
        cases magnitudeNode x
        rfl
      have hminus := Evaluates.minus (i := 0) (r := .top) hrole
        ((evaluates_magnitudeNode x).inRole .argument)
      refine ⟨_, hminus, ?_, Nat.le_refl 2, Nat.le_refl 2⟩
      rw [Course.result_unary]
      show (Except.ok (Value.number (-x.abs)) : Conv Value) = _
      rw [Binary64.neg_abs_of_isNegative hnegative]
    · next hpositive =>
      have hmagnitude := evaluates_magnitudeNode x
      rw [Binary64.abs_of_not_isNegative (by simpa using hpositive)] at hmagnitude
      exact ⟨_, .leaf hmagnitude⟩

/-- A value with a tree is what its tree is evaluated to. -/
theorem cheap_primitiveNode {v : Value} (hv : v.isWritable = true) :
    ∃ z, Cheap (primitiveNode v) v z := by
  cases v with
  | null => exact ⟨_, .leaf (.literal rfl)⟩
  | bool b => exact ⟨_, .leaf (.literal rfl)⟩
  | string t => exact ⟨_, .leaf (.literal rfl)⟩
  | number x => exact cheap_numberNode x
  | _ => cases hv

/-! ## One operator -/

/-- What denotes a value is evaluated to it. -/
theorem Evaluates.result_of_isLiteral {n : Node} {x : Course} (h : Evaluates n x)
    (hn : isLiteral n = true) : x.result = (denotedValue n).mapError .fault := by
  cases h with
  | literal hl => rfl
  | nan => cases hn
  | infinity => cases hn
  | binary => cases hn
  | @minus i r c y hrole hc =>
    have hchild : Node.child? (.mk i r (.unary .minus) [c]) .argument = some c := by
      simp [Node.child?, Node.children, hrole]
    rw [Course.result_unary]
    unfold isLiteral at hn
    unfold denotedValue
    rw [hchild] at hn ⊢
    -- Only a number stands behind the sign of what denotes a value.
    cases hc with
    | @literal j q l hl =>
      cases l with
      | number k =>
        have hliteral : literalOf (.number k) = do return .number (← numeralValue k) := rfl
        show ((literalOf (.number k)).mapError Abrupt.fault >>= negative) =
          (do return negated (← literalOf (.number k)) : Except Fault Value).mapError Abrupt.fault
        rw [hliteral]
        cases numeralValue k <;> rfl
      | _ => cases hn
    | _ => cases hn

/-- Every expression takes a step, and one level of depth. -/
theorem Evaluates.one_le {n : Node} {x : Course} (h : Evaluates n x) :
    1 ≤ x.steps ∧ 1 ≤ x.nesting := by
  obtain ⟨y, rfl⟩ : ∃ y : Course, x = y.inside := by
    cases h with
    | minus => exact ⟨_, rfl⟩
    | binary => exact ⟨_, rfl⟩
    | _ => exact ⟨_, rfl⟩
  exact ⟨Nat.le_add_left 1 _, Nat.le_add_left 1 _⟩

theorem foldedValue_eq {op : BinaryOp} {a b : Node} {x y : Course} (hop : isFoldable op = true)
    (ha : Evaluates a x) (hb : Evaluates b y) (hla : isLiteral a = true) (hlb : isLiteral b = true) :
    (foldedValue op a b).mapError Abrupt.fault = (x.binary y (pureOperation #[] op)).result := by
  have hx := ha.result_of_isLiteral hla
  have hy := hb.result_of_isLiteral hlb
  rw [Course.result_binary, hx, hy]
  unfold foldedValue
  cases hv : denotedValue a with
  | error f => rfl
  | ok v =>
    cases hw : denotedValue b with
    | error f => rfl
    | ok w =>
      rw [hv] at hx
      rw [hw] at hy
      have hsteady := steady_pureOperation #[] #[] hop
        (isObject_of_isWritable (ha.steady.result v hx))
        (isObject_of_isWritable (hb.steady.result w hy))
      dsimp only [bind, Except.bind]
      show Except.mapError Abrupt.fault _ = pureOperation #[] op v w
      cases hu : pureOperation #[] op v w with
      | ok u => rfl
      | error e =>
        cases hsteady.stop e hu
        rfl

/-- The value of an operator is written as a tree that is evaluated to the same, and better. -/
theorem improves_folded {op : BinaryOp} {i : NodeId} {r : Role} {a b : Node} {z : Course} {v : Value}
    (h : Evaluates (.mk i r (.binary op) [a, b]) z) (hla : isLiteral a = true)
    (hlb : isLiteral b = true) (hv : foldedValue op a b = .ok v) :
    ∃ y, Evaluates (primitiveNode v) y ∧ y.Improves z := by
  have hsteady := h.steady
  cases h with
  | @binary _ _ _ _ _ x y hop hleft hright ha hb =>
    have hresult := foldedValue_eq hop ha hb hla hlb
    rw [hv] at hresult
    obtain ⟨z, hz⟩ := cheap_primitiveNode (hsteady.result v hresult.symm)
    obtain ⟨u, hx, hrest⟩ := except_bind_eq_ok.mp
      ((Course.result_binary _ _ _).symm.trans hresult.symm)
    obtain ⟨w, hy, -⟩ := except_bind_eq_ok.mp hrest
    obtain ⟨hsteps, hnesting⟩ := Course.binary_of_ok (f := pureOperation #[] op) hx hy
    have hzsteps := hz.steps
    have hznesting := hz.nesting
    obtain ⟨hxsteps, hxnesting⟩ := ha.one_le
    obtain ⟨hysteps, -⟩ := hb.one_le
    exact ⟨z, hz.evaluates, hz.result.trans hresult, by omega, by omega⟩

end Untangle.Rule.Folding
