import Untangle.Proofs.Unwrapping.Call
import Untangle.Proofs.Unwrapping.Selection

set_option autoImplicit false

/-!
# Operands

Up to its operands a call of a member does nothing but take steps: it looks up the function, and then it
evaluates its arguments from the left to the right, as an operation does.
-/

namespace Untangle.Sandbox

open Rule.Evaluation

variable {m m' : Machine} {depth : Nat} {scopes : ScopeChain}

/-! ## Functions that are called -/

/-- A call of a member of a name. -/
structure MemberCall (call callee : Node) (name : Text) : Prop where
  form : call.form = .call
  callee_eq : call.child? .callee = some callee
  member : ∃ computed, callee.form = .member computed
  target : (callee.child? .object).bind Node.name? = some name

theorem memberKey_eq {callee : Node} {computed : Bool} {key : Text}
    (hform : callee.form = .member computed) (hkey : callee.memberName? = some key)
    (hend : Unstopped (Run.memberKey (evaluator depth) computed callee scopes m)) :
    ∃ k, Run.memberKey (evaluator depth) computed callee scopes m = .ok key (m.spend k) := by
  unfold Node.memberName? at hkey
  unfold Run.memberKey at hend ⊢
  cases hproperty : callee.child? .property with
  | none =>
    rw [hform, hproperty] at hkey
    cases computed <;> cases hkey
  | some p =>
    rw [hform, hproperty] at hkey
    cases computed with
    | false =>
      refine ⟨0, ?_⟩
      show Run.partName callee .property m = _
      unfold Run.partName
      simp only at hkey
      rw [bind_of_ok (part_of_child? hproperty m), hkey]
      rfl
    | true =>
      refine ⟨1, ?_⟩
      simp only [if_true] at hend ⊢
      rw [bind_of_ok (part_of_child? hproperty m)] at hend ⊢
      simp only at hkey
      split at hkey
      · next t hliteral =>
        cases hkey
        have hfirst := hend.first
        obtain ⟨d, rfl, -⟩ := hfirst.expression
        rw [bind_of_ok (expression_literal hliteral rfl rfl hfirst.room)]
        rfl
      · cases hkey

theorem getProperty_of_get? {r : Ref} {key : Text} {v : Value} {d : Dict Text Value}
    (hcell : m.cell r = ⟨.plain, d⟩) (hget : d.get? key = some v) :
    Run.getProperty (.object r) key m = .ok v m := by
  have hhas : (m.cell r).has key = .ok true := by
    rw [hcell]
    unfold Cell.has Dict.contains
    rw [hget]
    rfl
  have hget' : (m.cell r).get key = .ok v := by
    rw [hcell]
    unfold Cell.get
    rw [hget]
    rfl
  show (Run.reading (fun _ => (m.cell r).has key) >>= fun b =>
    if b = true then Run.reading fun _ => (m.cell r).get key
    else pure (Run.inheritedProperty (m.cell r) key)) m = _
  rw [bind_of_ok (by rw [reading_eq, hhas]), if_pos rfl, reading_eq, hget']

/-- Calls a value, if it can be called. -/
def applied (ev : Evaluator) (f this : Value) (args : List Value) : Run Value := do
  if (← get).heap.isCallable f then ev.call f this args else Run.notCallable f

/-- A call of a member evaluates its arguments and calls the function that the member is. -/
theorem expression_memberCall {call callee : Node} {name key : Text} (hcall : MemberCall call callee name)
    (hkey : callee.memberName? = some key) {g : FrameId} {r : Ref} {d : Dict Text Value} {f : Value}
    (hscope : m.findScope name scopes = some g) (hvalue : m.variable g name = .object r)
    (hcell : m.cell r = ⟨.plain, d⟩) (hget : d.get? key = some f)
    (hend : Unstopped ((evaluator (depth + 1)).expression call scopes m)) :
    ∃ k, (evaluator (depth + 1)).expression call scopes m =
      (do
        let args ← Run.evaluateList (evaluator depth) scopes (call.childrenAt .arguments)
        applied (evaluator depth) f (.object r) args) (m.spend (k + 1)) := by
  obtain ⟨computed, hmember⟩ := hcall.member
  obtain ⟨target, htarget, hname⟩ := Option.bind_eq_some_iff.mp hcall.target
  have heq : (evaluator (depth + 1)).expression call scopes m =
      Run.evaluateExpression (evaluator depth) call scopes m := rfl
  rw [heq] at hend ⊢
  unfold Run.evaluateExpression at hend ⊢
  obtain ⟨-, htick⟩ := hend.tick
  rw [htick] at hend ⊢
  simp only [hcall.form] at hend ⊢
  unfold Run.callValue at hend ⊢
  rw [bind_of_ok (part_of_child? hcall.callee_eq _)] at hend ⊢
  simp only [hmember] at hend ⊢
  rw [bind_of_ok (part_of_child? htarget _)] at hend ⊢
  have hobject : (evaluator depth).expression target scopes (m.spend 1) =
      .ok (.object r) (m.spend 2) := by
    rw [expression_name hname (f := g) (by simpa using hscope) hend.first, m.variable_spend, hvalue]
    rfl
  rw [bind_of_ok hobject] at hend ⊢
  obtain ⟨k, hk⟩ := memberKey_eq hmember hkey hend.first
  have hproperty : Run.getProperty (.object r) key (m.spend (2 + k)) = .ok f (m.spend (2 + k)) :=
    getProperty_of_get? hcell hget
  rw [bind_of_ok hk, m.spend_spend, bind_of_ok hproperty] at hend ⊢
  refine ⟨1 + k, ?_⟩
  rw [show 1 + k + 1 = 2 + k by omega]
  rfl

/-! ## Operands from the left to the right -/

/-- What can stand on either side of an operator and among arguments alike: neither a list opened up nor
an element left out. -/
structure IsOperand (e : Node) : Prop where
  present : e.form ≠ .hole
  single : e.form ≠ .spread

/-- Where an operand stands makes no difference. -/
theorem expression_inRole (e : Node) (r : Role) (depth : Nat) (scopes : ScopeChain) :
    (evaluator depth).expression (e.inRole r) scopes = (evaluator depth).expression e scopes := by
  cases depth with
  | zero => rfl
  | succ depth =>
    cases e with
    | mk i role f cs => cases f <;> rfl

theorem evaluateList_cons (ev : Evaluator) {e : Node} (he : IsOperand e) (rest : List Node) :
    Run.evaluateList ev scopes (e :: rest) = (do
      let v ← ev.expression e scopes
      let vs ← Run.evaluateList ev scopes rest
      return v :: vs) := by
  conv => lhs; unfold Run.evaluateList
  split
  · next hform => exact absurd hform he.present
  · next hform => exact absurd hform he.single
  · rfl

theorem evaluateList_two (ev : Evaluator) {x y : Node} (hx : IsOperand x) (hy : IsOperand y)
    (k : List Value → Run Value) :
    (Run.evaluateList ev scopes [x, y] >>= k) = (do
      let v ← ev.expression x scopes
      let w ← ev.expression y scopes
      k [v, w]) := by
  have hnone : Run.evaluateList ev scopes [] = pure [] := rfl
  rw [evaluateList_cons ev hx, evaluateList_cons ev hy, hnone]
  simp only [bind_assoc, pure_bind]

/-- The operation on two operands evaluates them from the left to the right. -/
theorem expression_binary (op : BinaryOp) {l r : Node}
    (hend : Unstopped ((evaluator (depth + 1)).expression (.binary op l r) scopes m)) :
    (evaluator (depth + 1)).expression (.binary op l r) scopes m =
      (do
        let v ← (evaluator depth).expression l scopes
        let w ← (evaluator depth).expression r scopes
        Run.binaryOperation op v w) (m.spend 1) := by
  have heq : (evaluator (depth + 1)).expression (.binary op l r) scopes m =
      Run.evaluateExpression (evaluator depth) (.binary op l r) scopes m := rfl
  rw [heq] at hend ⊢
  unfold Run.evaluateExpression at hend ⊢
  obtain ⟨-, htick⟩ := hend.tick
  rw [htick, ← expression_inRole l .left, ← expression_inRole r .right]
  have hleft : (Node.binary op l r).child? .left = some (l.inRole .left) := by
    cases l
    rfl
  have hright : (Node.binary op l r).child? .right = some (r.inRole .right) := by
    cases l
    cases r
    rfl
  have hform : (Node.binary op l r).form = .binary op := rfl
  simp only [hform]
  rw [bind_of_ok (part_of_child? hleft _)]
  cases hv : (evaluator depth).expression (l.inRole .left) scopes (m.spend 1) with
  | error e m₁ => rw [bind_of_error hv, bind_of_error hv]
  | ok v m₁ => rw [bind_of_ok hv, bind_of_ok hv, bind_of_ok (part_of_child? hright _)]

/-! ## Operands without effects -/

theorem literalValue_inv {l : Literal} {v : Value} (h : Run.literalValue l m = .ok v m') : m' = m := by
  unfold Run.literalValue at h
  cases l with
  | number n =>
    cases n with
    | real x =>
      cases h
      rfl
    | whole n =>
      simp only at h
      cases hx : Binary64.ofInt? n with
      | none =>
        rw [hx] at h
        cases h
      | some x =>
        rw [hx] at h
        cases h
        rfl
  | regex p f => cases h
  | _ =>
    cases h
    rfl

/-- The value of a literal or of a name costs some steps, and nothing else. -/
theorem expression_simple_inv {e : Node} (he : isSimple e = true) {v : Value}
    (hrun : (evaluator depth).expression e scopes m = .ok v m') : ∃ k, m' = m.spend k := by
  have hliteral : ∀ {depth : Nat} {n : Node} {l : Literal} {v : Value} {m m' : Machine},
      n.form = .literal l → (evaluator depth).expression n scopes m = .ok v m' → m' = m.spend 1 :=
    fun hform hrun => literalValue_inv (expression_literal_inv hform hrun)
  have hend := unstopped_ok hrun
  obtain ⟨d, rfl, heq⟩ := hend.expression
  unfold isSimple isLiteral at he
  generalize hform : e.form = form at he
  cases form with
  | literal l => exact ⟨1, hliteral hform hrun⟩
  | identifier name =>
    have hname : e.name? = some name := by
      unfold Node.name?
      rw [hform]
    cases hscope : m.findScope name scopes with
    | some f =>
      rw [expression_name hname hscope hend] at hrun
      cases hrun
      exact ⟨1, rfl⟩
    | none =>
      rw [heq] at hrun hend
      unfold Run.evaluateExpression at hrun hend
      rw [hend.tick.2] at hrun
      simp only [hform] at hrun
      rw [lookup_of_unbound ((m.findScope_spend ..).trans hscope)] at hrun
      cases hrun
  | unary op =>
    cases op with
    | minus =>
      simp only at he
      split at he
      · next l hargument =>
        obtain ⟨a, ha, haform⟩ := Option.map_eq_some_iff.mp hargument
        rw [heq] at hrun hend
        unfold Run.evaluateExpression at hrun hend
        rw [hend.tick.2] at hrun
        simp only [hform] at hrun
        rw [bind_of_ok (part_of_child? ha _)] at hrun
        obtain ⟨v, m₁, hv, hrest⟩ := bind_eq_ok.mp hrun
        obtain ⟨x, m₂, hx, hlast⟩ := bind_eq_ok.mp hrest
        cases hlast
        refine ⟨2, ?_⟩
        rw [reading_inv hx, hliteral haform hv]
        rfl
      · cases he
    | _ => cases he
  | _ => cases he

end Untangle.Sandbox
