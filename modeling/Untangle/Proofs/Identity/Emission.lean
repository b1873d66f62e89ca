import Untangle.Proofs.Dispatch.Agreement
import Untangle.Proofs.Identity.Numbered
import Untangle.Proofs.Unwrapping.Outcome

set_option autoImplicit false

/-!
# Trees that rules put in

The tree of a value is new.  The operator that stands for a call of its wrapper has the arguments of the
call as they are.  A loop that is taken apart gives the statements of a case as they are when it takes the
case for the first time, and new copies afterwards.
-/

namespace Untangle

open Node (AreNew MadeOf identitiesAll)

/-! ## Trees of values -/

namespace Node

variable {n : Node} {ns ms : List Node}

theorem AreNew.nil : AreNew [] := fun k hk => by cases hk

theorem AreNew.cons (hn : AreNew [n]) (hns : AreNew ns) : AreNew (n :: ns) := by
  intro k hk
  rw [identitiesAll_cons, List.mem_append] at hk
  obtain hk | hk := hk
  · exact hn k (by rwa [identitiesAll_cons, identitiesAll_nil, List.append_nil])
  · exact hns k hk

/-- Copies have no identities. -/
theorem areNew_unnumbered (ns : List Node) : AreNew (ns.map unnumbered) := by
  have hone : ∀ n : Node, AreNew [n.unnumbered] := by
    intro n
    refine Node.rec (motive_1 := fun n => AreNew [n.unnumbered])
      (motive_2 := fun ns => AreNew (unnumberedAll ns)) ?_ AreNew.nil (fun _ _ => AreNew.cons) n
    intro i r f cs ih k hk
    obtain rfl | hk := List.mem_cons.mp (show k ∈ 0 :: (identitiesAll (unnumberedAll cs) ++ []) from hk)
    · rfl
    · rw [List.append_nil] at hk
      exact ih k hk
  induction ns with
  | nil => exact .nil
  | cons n ns ih => exact (hone n).cons ih

end Node

namespace Sandbox

theorem areNew_numberNode (x : Float) : AreNew [numberNode x] := by
  unfold numberNode
  split
  · exact Node.areNew_leaf _
  · simp only
    have hmagnitude : AreNew [if Binary64.isInfinite x then .ident "Infinity"
        else .literal (.number (.real x.abs))] := by
      split <;> exact Node.areNew_leaf _
    split
    · exact (hmagnitude.inRole .argument).make _
    · exact hmagnitude

theorem areNew_primitiveNode (v : Value) : AreNew [primitiveNode v] := by
  cases v with
  | number x => exact areNew_numberNode x
  | _ => exact Node.areNew_leaf _

section Values

variable {h : Heap} {fuel : Nat} {ns : List Node} {P : Node → Prop}
  (hvalue : ∀ {v : Value} {n : Node}, valueNodeGo h fuel v = .ok n → P n)

include hvalue

theorem forall_elementNodes {vs : List Value} (hns : elementNodes h fuel vs = .ok ns) : ∀ n ∈ ns, P n := by
  induction vs generalizing ns with
  | nil =>
    unfold elementNodes at hns
    cases hns
    exact fun _ hn => by cases hn
  | cons v vs ih =>
    unfold elementNodes at hns
    obtain ⟨n, hn, hns⟩ := except_bind_eq_ok.mp hns
    obtain ⟨ns, hrest, hns⟩ := except_bind_eq_ok.mp hns
    cases hns
    exact List.forall_mem_cons.mpr ⟨hvalue hn, ih hrest⟩

theorem forall_propertyNodes {es : List (Text × Value)} (hns : propertyNodes h fuel es = .ok ns) :
    ∀ p ∈ ns, ∃ key n, p = .property .plain (keyNode key) false n false false ∧ P n := by
  induction es generalizing ns with
  | nil =>
    unfold propertyNodes at hns
    cases hns
    exact fun _ hn => by cases hn
  | cons e es ih =>
    unfold propertyNodes at hns
    obtain ⟨n, hn, hns⟩ := except_bind_eq_ok.mp hns
    obtain ⟨ns, hrest, hns⟩ := except_bind_eq_ok.mp hns
    cases hns
    exact List.forall_mem_cons.mpr ⟨⟨e.1, n, rfl, hvalue hn⟩, ih hrest⟩

end Values

/-- What holds of the trees of primitive values, and of arrays and objects made of trees of which it holds,
holds of the trees of all values. -/
theorem valueNodeGo_induct (h : Heap) {P : Node → Prop} (hprimitive : ∀ v, P (primitiveNode v))
    (harray : ∀ ns, (∀ n ∈ ns, P n) → P (.array ns))
    (hobject : ∀ ps, (∀ p ∈ ps, ∃ key n,
      p = Node.property .plain (keyNode key) false n false false ∧ P n) → P (.object ps))
    (fuel : Nat) {v : Value} {n : Node} (hn : valueNodeGo h fuel v = .ok n) : P n := by
  induction fuel generalizing v n with
  | zero =>
    unfold valueNodeGo at hn
    cases hn
  | succ fuel ih =>
    unfold valueNodeGo at hn
    split at hn
    · simp only at hn
      split at hn
      · obtain ⟨ns, hns, hn⟩ := except_bind_eq_ok.mp hn
        cases hn
        exact harray ns (forall_elementNodes ih hns)
      · obtain ⟨ns, hns, hn⟩ := except_bind_eq_ok.mp hn
        cases hn
        exact hobject ns (forall_propertyNodes ih hns)
      · cases hn
      · cases hn
    · cases hn
      exact hprimitive v

theorem areNew_valueNodeGo (h : Heap) (fuel : Nat) {v : Value} {n : Node}
    (hn : valueNodeGo h fuel v = .ok n) : AreNew [n] := by
  have hall : ∀ {ns : List Node}, (∀ n ∈ ns, AreNew [n]) → AreNew ns := by
    intro ns hns
    induction ns with
    | nil => exact .nil
    | cons n ns ih =>
      exact (hns n List.mem_cons_self).cons (ih fun m hm => hns m (List.mem_cons_of_mem n hm))
  refine valueNodeGo_induct h areNew_primitiveNode (fun ns hns => ((hall hns).inRole .elements).make _)
    (fun ps hps => ((hall fun p hp => ?_).inRole .properties).make _) fuel hn
  obtain ⟨key, n, rfl, hvalue⟩ := hps p hp
  have hkey : AreNew [keyNode key] := by
    unfold keyNode
    split <;> exact Node.areNew_leaf _
  exact ((hkey.inRole .key).cons (hvalue.inRole .value)).make _

end Sandbox

namespace Rule.Evaluation

/-- The tree that may stand for a call is that of a value. -/
theorem exists_of_valueTree? {h : Sandbox.Heap} {v : Option Sandbox.Value} {n : Node}
    (hn : valueTree? h v = .ok (some n)) : ∃ value, Sandbox.valueNode h value = .ok n := by
  unfold valueTree? at hn
  split at hn
  · cases hn
  · cases hn
  · cases hn
  · split at hn
    · cases hn
    · split at hn
      · next hvalue =>
        cases hn
        exact ⟨_, hvalue⟩
      · cases hn
      · cases hn

theorem areNew_valueTree? {h : Sandbox.Heap} {v : Option Sandbox.Value} {n : Node}
    (hn : valueTree? h v = .ok (some n)) : AreNew [n] := by
  obtain ⟨value, hvalue⟩ := exists_of_valueTree? hn
  exact Sandbox.areNew_valueNodeGo h _ hvalue

/-- The operator of a wrapper has the arguments of the call. -/
theorem madeOf_unwrapped? {w : Wrapper} {call n : Node}
    (hn : unwrapped? w (call.childrenAt .arguments) = some n) : MadeOf [n] call := by
  have hargs := Node.identitiesAll_childrenAt_sublist_children call .arguments
  obtain ⟨l, r, heq, -, -, horder⟩ := Sandbox.unwrapped_inv hn
  rw [heq] at hargs
  have hbinary : ∀ x y : Node, (∀ k, (identitiesAll [x, y]).count k = (identitiesAll [l, r]).count k) →
      MadeOf [.binary w.op x y] call := by
    intro x y hsame
    have hoperands : MadeOf (Node.at1 .left x ++ Node.at1 .right y) call := by
      intro k _
      have hle := hargs.count_le k
      rw [← hsame k] at hle
      simpa [Node.at1] using hle
    exact hoperands.make _
  obtain ⟨-, rfl⟩ | ⟨-, -, -, rfl⟩ := horder
  · exact hbinary l r fun k => rfl
  · refine hbinary r l fun k => ?_
    simp only [Node.identitiesAll_cons, Node.identitiesAll_nil, List.count_append]
    omega

end Rule.Evaluation

/-! ## Statements of dispatch loops -/

namespace Dispatch

open Sandbox (Registry ScopeChain)

variable {loop : Loop} {names : List Text} {s s' : Registry} {k : NodeId}

/-- The `switch` of a loop stands in its body. -/
theorem Shape.inside {n body switch : Node} (h : Shape n loop body switch) : switch.Inside body := by
  have hlisted : switch ∈ body.childrenAt .body → switch.Inside body := fun hmem =>
    .child (Node.mem_childrenAt.mp hmem).1
  cases h.inner with
  | bare => exact .self _
  | block _ hchildren => exact hlisted (hchildren ▸ List.mem_cons_self)
  | closed _ hchildren => exact hlisted (hchildren ▸ List.mem_cons_self)

/-- The cases of a loop stand in the loop. -/
theorem inside_of_cases {n c : Node} (h : Loop.ofNode? n = some loop) (hc : c ∈ loop.cases) :
    c.Inside n := by
  obtain ⟨body, switch, hshape⟩ := shape_of_ofNode? h
  rw [← hshape.cases] at hc
  exact (Node.Inside.child (Node.mem_childrenAt.mp hc).1).trans
    (hshape.inside.trans (.child (Node.mem_of_child? hshape.body).1))

/-- The nodes of the cases of a loop are nodes below the loop. -/
theorem cases_sublist {n : Node} (h : Loop.ofNode? n = some loop) :
    (identitiesAll loop.cases).Sublist (identitiesAll n.children) := by
  obtain ⟨body, switch, hshape⟩ := shape_of_ofNode? h
  have hbody : body.identities.Sublist (identitiesAll n.children) :=
    Node.identities_sublist_of_mem (Node.mem_of_child? hshape.body).1
  rw [← hshape.cases]
  exact (Node.identitiesAll_childrenAt_sublist switch .cases).trans
    (hshape.inside.identities_sublist.trans hbody)

/-- The statements that a case keeps are statements of it. -/
theorem statements_sublist {gate : Sandbox.Gate} {case : Node} {isLast : Bool} {plan : CasePlan}
    (h : CasePlan.ofCase gate names case isLast = .ok plan) :
    plan.statements.Sublist (case.childrenAt .consequent) := by
  obtain ⟨kept, hsplit, hending⟩ := ofCase_eq_ok h
  have hkept : kept.Sublist (case.childrenAt .consequent) := by
    generalize plan.continues = continues at hending
    cases hending with
    | continues heq => exact heq ▸ List.sublist_append_left kept _
    | breaks heq => exact heq ▸ List.sublist_append_left kept _
    | runsOut heq => exact heq ▸ List.Sublist.refl _
  rw [(split_eq_ok hsplit).1]
  exact List.filter_sublist.trans hkept

theorem identitiesAll_statements_sublist {case : Node} {plan : CasePlan}
    (h : plan.statements.Sublist (case.childrenAt .consequent)) :
    (identitiesAll plan.statements).Sublist case.identities :=
  (Node.identitiesAll_sublist h).trans (Node.identitiesAll_childrenAt_sublist case .consequent)

/-- What was emitted so far: nodes of cases that have a plan, each of them once, and copies. -/
structure Spent (loop : Loop) (plans : Dict Nat CasePlan) (output : List Node) : Prop where
  once : ∀ k, 0 < k → (identitiesAll output).count k ≤ 1
  planned : ∀ k, 0 < k → k ∈ identitiesAll output → ∃ index case,
    plans.contains index = true ∧ loop.cases[index]? = some case ∧ k ∈ case.identities

theorem Spent.empty (loop : Loop) : Spent loop .empty [] :=
  ⟨fun _ _ => Nat.zero_le _, fun _ _ hk => by cases hk⟩

/-- What was emitted for cases of a loop with distinct identities is made of the cases. -/
theorem Spent.count_le {plans : Dict Nat CasePlan} {output : List Node} (h : Spent loop plans output)
    (hk : 0 < k) : (identitiesAll output).count k ≤ (identitiesAll loop.cases).count k := by
  by_cases hmem : k ∈ identitiesAll output
  · obtain ⟨index, case, -, hcase, hin⟩ := h.planned k hk hmem
    have hpos : 0 < (identitiesAll loop.cases).count k :=
      List.count_pos_iff.mpr (Node.mem_identitiesAll.mpr ⟨case, List.mem_of_getElem? hcase, hin⟩)
    exact Nat.le_trans (h.once k hk) hpos
  · rw [List.count_eq_zero_of_not_mem hmem]
    exact Nat.zero_le _

theorem contains_put {plans : Dict Nat CasePlan} {index i : Nat} {plan : CasePlan}
    (h : plans.contains i = true ∨ i = index) : (plans.put index plan).contains i = true := by
  unfold Dict.contains at h ⊢
  by_cases hi : i = index
  · rw [hi, Dict.get?_put_self]
    rfl
  · rw [Dict.get?_put_of_ne _ hi]
    exact h.resolve_right hi

/-- A case that is taken for the first time gives its statements, one that is taken again gives
copies. -/
theorem Spent.emitted {plans : Dict Nat CasePlan} {output : List Node} {index : Nat} {plan : CasePlan}
    (h : Spent loop plans output) (hdistinct : (identitiesAll loop.cases).Nodup)
    (hplan : plans.contains index = false → ∃ case, loop.cases[index]? = some case ∧
      (identitiesAll plan.statements).Sublist case.identities) :
    Spent loop (plans.put index plan) ((Dispatch.emitted plans index plan).reverse ++ output) := by
  have hreverse := fun ns : List Node => Node.perm_identitiesAll ns.reverse_perm
  have hold : ∀ k, 0 < k → k ∈ identitiesAll output → ∃ i case,
      (plans.put index plan).contains i = true ∧ loop.cases[i]? = some case ∧ k ∈ case.identities := by
    intro k hk hmem
    obtain ⟨i, case, hi, hcase⟩ := h.planned k hk hmem
    exact ⟨i, case, contains_put (.inl hi), hcase⟩
  unfold Dispatch.emitted
  cases hcontains : plans.contains index with
  | true =>
    have hnew : ∀ k, 0 < k → k ∉ identitiesAll (plan.statements.map Node.unnumbered).reverse :=
      fun k hk hmem => Nat.ne_of_gt hk (Node.areNew_unnumbered _ k ((hreverse _).mem_iff.mp hmem))
    refine ⟨fun k hk => ?_, fun k hk hmem => ?_⟩
    · rw [if_pos rfl, Node.identitiesAll_append, List.count_append,
        List.count_eq_zero_of_not_mem (hnew k hk), Nat.zero_add]
      exact h.once k hk
    · rw [if_pos rfl, Node.identitiesAll_append, List.mem_append] at hmem
      exact hold k hk (hmem.resolve_left (hnew k hk))
  | false =>
    obtain ⟨case, hcase, hstatements⟩ := hplan hcontains
    have honce : case.identities.Nodup := Node.nodup_of_mem hdistinct (List.mem_of_getElem? hcase)
    refine ⟨fun k hk => ?_, fun k hk hmem => ?_⟩
    · rw [if_neg Bool.false_ne_true, Node.identitiesAll_append, List.count_append,
        (hreverse _).count_eq]
      by_cases hin : k ∈ identitiesAll plan.statements
      · -- No plan was made of this case yet, so that nothing of it was emitted.
        have hout : k ∉ identitiesAll output := by
          intro hmem
          obtain ⟨i, other, hi, hother, hk'⟩ := h.planned k hk hmem
          cases Node.index_unique hdistinct hother hcase hk' (hstatements.subset hin)
          rw [hcontains] at hi
          cases hi
        rw [List.count_eq_zero_of_not_mem hout, Nat.add_zero]
        exact Nat.le_trans (hstatements.count_le k) (List.nodup_iff_count_le_one.mp honce k)
      · rw [List.count_eq_zero_of_not_mem hin, Nat.zero_add]
        exact h.once k hk
    · rw [if_neg Bool.false_ne_true, Node.identitiesAll_append, List.mem_append,
        (hreverse _).mem_iff] at hmem
      obtain hmem | hmem := hmem
      · exact ⟨index, case, contains_put (.inr rfl), hcase, hstatements.subset hmem⟩
      · exact hold k hk hmem

/-- A plan that is made now is that of a case. -/
theorem planOf_case {plans : Dict Nat CasePlan} {index : Nat} {plan : CasePlan}
    (h : planOf loop names plans index s = .ok plan s') (hnone : plans.get? index = none) :
    ∃ case, loop.cases[index]? = some case ∧ plan.statements.Sublist (case.childrenAt .consequent) := by
  unfold planOf at h
  rw [hnone] at h
  obtain ⟨g, s₁, -, h⟩ := bind_eq_ok.mp h
  obtain ⟨hcase, -⟩ := check_eq_ok h
  rw [List.getD_eq_getElem?_getD] at hcase
  cases hat : loop.cases[index]? with
  | none =>
    rw [hat] at hcase
    cases hcase
  | some case =>
    rw [hat] at hcase
    exact ⟨case, rfl, statements_sublist hcase⟩

/-- What a run emits. -/
theorem spent_of_run (hdistinct : (identitiesAll loop.cases).Nodup) {values : List Sandbox.Value}
    {scopes : ScopeChain} {fuel : Nat} {started : Bool} {plans : Dict Nat CasePlan}
    {output out : List Node} (hspent : Spent loop plans output)
    (h : run loop names values scopes fuel started plans output s = .ok out s') :
    ∃ plans' output', Spent loop plans' output' ∧ out = output'.reverse := by
  induction fuel generalizing started plans output s with
  | zero =>
    unfold run at h
    obtain ⟨next, s₁, -, h⟩ := bind_eq_ok.mp h
    cases next with
    | none =>
      cases h
      exact ⟨plans, output, hspent, rfl⟩
    | some index => cases h
  | succ fuel ih =>
    unfold run at h
    obtain ⟨next, s₁, -, h⟩ := bind_eq_ok.mp h
    cases next with
    | none =>
      cases h
      exact ⟨plans, output, hspent, rfl⟩
    | some index =>
      obtain ⟨plan, s₂, hplan, h⟩ := bind_eq_ok.mp h
      have hemitted := hspent.emitted hdistinct fun hnone => by
        unfold Dict.contains at hnone
        obtain ⟨case, hcase, hstatements⟩ :=
          planOf_case hplan (Option.isNone_iff_eq_none.mp (by simpa using hnone))
        exact ⟨case, hcase, identitiesAll_statements_sublist hstatements⟩
      obtain ⟨_, s₃, -, h⟩ := bind_eq_ok.mp h
      split at h
      · cases h
        exact ⟨_, _, hemitted, rfl⟩
      · obtain ⟨_, s₄, -, h⟩ := bind_eq_ok.mp h
        exact ih hemitted h

/-- The statements that stand for a loop are made of the loop. -/
theorem madeOf_unflatten {n : Node} {readOutside : List Text → Bool} {maxDispatches : Nat}
    {out : List Node} (hloop : Loop.ofNode? n = some loop) (hdistinct : n.identities.Nodup)
    (h : (unflatten loop readOutside maxDispatches).run s = .ok out s') : MadeOf out n := by
  obtain ⟨values, s₁, -, -, hrun⟩ := unflatten_eq_ok h
  have hcases := cases_sublist hloop
  obtain ⟨plans, output, hspent, rfl⟩ :=
    spent_of_run ((Node.nodup_identitiesAll hdistinct).sublist hcases) (.empty loop) hrun
  intro k hk
  rw [(Node.perm_identitiesAll output.reverse_perm).count_eq]
  exact Nat.le_trans (hspent.count_le hk) (hcases.count_le k)

end Dispatch

end Untangle
