import Untangle.Proofs.Computation
import Untangle.Sandbox.Global
import Untangle.Sandbox.Literal

set_option autoImplicit false

/-!
# Running literals

What denotes a value evaluates to it: a literal in one step, a number with a minus sign in two.
-/

namespace Untangle.Sandbox

/-! ## Steps and parts -/

theorem tick_eq (m : Machine) :
    Run.tick m =
      if m.steps + 1 > m.maxSteps then
        .error (.limit (.steps m.maxSteps)) { m with steps := m.steps + 1 }
      else .ok () { m with steps := m.steps + 1 } := by
  show (if _ then _ else _ : Run Unit) _ = _
  split <;> rfl

theorem tick_of_room {m : Machine} (h : m.steps < m.maxSteps) :
    Run.tick m = .ok () { m with steps := m.steps + 1 } := by
  rw [tick_eq, if_neg (Nat.not_lt.mpr h)]

theorem reading_eq {α : Type} (f : Heap → Conv α) (m : Machine) :
    Run.reading f m =
      match f m.heap with
      | .ok a => .ok a m
      | .error e => .error e m := by
  show (match f m.heap with | .ok a => pure a | .error e => throw e : Run α) m = _
  cases f m.heap <;> rfl

theorem reading_inv {α : Type} {f : Heap → Conv α} {m m' : Machine} {a : α}
    (h : Run.reading f m = .ok a m') : m' = m := by
  rw [reading_eq] at h
  cases hx : f m.heap with
  | ok b =>
    rw [hx] at h
    cases h
    rfl
  | error e =>
    rw [hx] at h
    cases h

theorem part_of_child? {n k : Node} {r : Role} (h : n.child? r = some k) (m : Machine) :
    Run.part n r m = .ok k m := by
  unfold Run.part
  rw [h]
  rfl

/-- A scope that has a variable is one of those that are looked at. -/
theorem mem_of_findScope {m : Machine} {scopes : ScopeChain} {name : Text} {f : FrameId}
    (h : m.findScope name scopes = some f) : f ∈ scopes := by
  induction scopes with
  | nil => cases h
  | cons g scopes ih =>
    unfold Machine.findScope at h
    split at h
    · cases h
      exact List.mem_cons_self
    · exact List.mem_cons_of_mem g (ih h)

theorem lookup_of_findScope {m : Machine} {scopes : ScopeChain} {name : Text} {f : FrameId}
    (h : m.findScope name scopes = some f) :
    Run.lookup scopes name m = .ok (m.variable f name) m := by
  unfold Run.lookup
  rw [bind_of_ok (show (get : Run Machine) m = .ok m m from rfl), h]
  rfl

theorem lookup_of_unbound {m : Machine} {scopes : ScopeChain} {name : Text}
    (h : m.findScope name scopes = none) :
    Run.lookup scopes name m = Run.raise "ReferenceError" (name ++ Text.of " is not defined") m := by
  unfold Run.lookup
  rw [bind_of_ok (show (get : Run Machine) m = .ok m m from rfl), h]

/-! ## Literals -/

theorem literalValue_of_literalOf {l : Literal} {v : Value} (hregex : l.isRegex = false)
    (h : literalOf l = .ok v) (m : Machine) : Run.literalValue l m = .ok v m := by
  cases l with
  | null => cases h; rfl
  | bool b => cases h; rfl
  | string t => cases h; rfl
  | regex p f => cases hregex
  | number n =>
    cases n with
    | real x => cases h; rfl
    | whole n =>
      simp only [literalOf, numeralValue] at h
      simp only [Run.literalValue]
      cases hx : Binary64.ofInt? n with
      | none => rw [hx] at h; cases h
      | some x =>
        rw [hx] at h
        cases h
        rfl

theorem literalValue_of_error {l : Literal} {f : Fault} (h : literalOf l = .error f) (m : Machine) :
    Run.literalValue l m = .error (.fault f) m := by
  cases l with
  | number n =>
    cases n with
    | real x => cases h
    | whole n =>
      simp only [literalOf, numeralValue] at h
      simp only [Run.literalValue]
      cases hx : Binary64.ofInt? n with
      | some x => rw [hx] at h; cases h
      | none =>
        rw [hx] at h
        cases h
        rfl
  | _ => cases h

theorem expression_literal {t : Node} {l : Literal} {v : Value} {m : Machine} {depth : Nat}
    {c : ScopeChain} (hform : t.form = .literal l) (hregex : l.isRegex = false)
    (hv : literalOf l = .ok v) (hroom : m.steps < m.maxSteps) :
    (evaluator (depth + 1)).expression t c m = .ok v { m with steps := m.steps + 1 } := by
  show Run.evaluateExpression (evaluator depth) t c m = _
  unfold Run.evaluateExpression
  rw [bind_of_ok (tick_of_room hroom)]
  simp only [hform]
  exact literalValue_of_literalOf hregex hv _

theorem expression_minus {t a : Node} {l : Literal} {v : Value} {m : Machine} {depth : Nat}
    {c : ScopeChain} (hform : t.form = .unary .minus) (harg : t.child? .argument = some a)
    (haform : a.form = .literal l) (hnumber : l.isNumber = true) (hv : literalOf l = .ok v)
    (hroom : m.steps + 2 ≤ m.maxSteps) :
    (evaluator (depth + 2)).expression t c m =
      .ok (negated v) { m with steps := m.steps + 2 } := by
  obtain ⟨x, rfl⟩ : ∃ x, v = .number x := by
    cases l with
    | number n =>
      obtain ⟨x, -, hx⟩ := except_bind_eq_ok.mp hv
      cases hx
      exact ⟨x, rfl⟩
    | _ => cases hnumber
  have hregex : l.isRegex = false := by
    cases l with
    | regex p f => cases hnumber
    | _ => rfl
  show Run.evaluateExpression (evaluator (depth + 1)) t c m = _
  unfold Run.evaluateExpression
  rw [bind_of_ok (tick_of_room (by omega))]
  simp only [hform]
  rw [bind_of_ok (part_of_child? harg _)]
  unfold Run.unaryValue
  simp only
  rw [bind_of_ok (expression_literal haform hregex hv (by simp only; omega))]
  rfl

/-- What denotes a value evaluates to it, in one step or two. -/
theorem expression_of_isLiteral {t : Node} {v : Value} {m : Machine} {depth : Nat}
    {c : ScopeChain} (hlit : isLiteral t = true) (hv : denotedValue t = .ok v)
    (hroom : m.steps + 2 ≤ m.maxSteps) :
    ∃ a ≤ 2, (evaluator (depth + 2)).expression t c m = .ok v { m with steps := m.steps + a } := by
  unfold isLiteral at hlit
  unfold denotedValue at hv
  split at hlit
  · next l hform =>
    rw [hform] at hv
    refine ⟨1, by omega, ?_⟩
    exact expression_literal hform (by simpa using hlit) hv (by omega)
  · next hform =>
    rw [hform] at hv
    simp only at hv
    split at hlit
    · next l harg =>
      rw [harg] at hv
      obtain ⟨w, hw, hv⟩ := except_bind_eq_ok.mp hv
      cases hv
      obtain ⟨a, ha, haform⟩ := Option.map_eq_some_iff.mp harg
      refine ⟨2, by omega, ?_⟩
      exact expression_minus hform ha haform hlit hw hroom
    · cases hlit
  · cases hlit

end Untangle.Sandbox
