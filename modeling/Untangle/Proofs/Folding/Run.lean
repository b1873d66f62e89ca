import Untangle.Proofs.Analysis.Visit
import Untangle.Proofs.Folding.Folded
import Untangle.Rule.Chain

set_option autoImplicit false

/-!
# What folding makes of arithmetic

Expressions are folded from the inside out: an operator whose operands became literals is replaced by
the tree of its value.  The rule does just that in its tour, or ends the run at an operator whose value
cannot be computed.
-/

namespace Untangle.Rule.Folding

open Analysis Sandbox TourM

/-! ## Folding -/

/-- What folding makes of an expression, after what it makes of the operands. -/
inductive FoldsOver (operand : Node → Node → Prop) : Node → Node → Prop
  | leaf {n : Node} (hn : n.children = []) : FoldsOver operand n n
  | minus {i : NodeId} {r : Role} {c c' : Node} (hc : operand c c') :
      FoldsOver operand (.mk i r (.unary .minus) [c]) (.mk i r (.unary .minus) [c'])
  | kept {i : NodeId} {r : Role} {op : BinaryOp} {x x' y y' : Node} (hx : operand x x')
      (hy : operand y y') (hlit : (isLiteral x' && isLiteral y') = false) :
      FoldsOver operand (.mk i r (.binary op) [x, y]) (.mk i r (.binary op) [x', y'])
  | folded {i : NodeId} {r : Role} {op : BinaryOp} {x x' y y' : Node} {v : Value} (hx : operand x x')
      (hy : operand y y') (hleft : isLiteral x' = true) (hright : isLiteral y' = true)
      (hv : foldedValue op x' y' = .ok v) (next : NodeId) :
      FoldsOver operand (.mk i r (.binary op) [x, y]) (((primitiveNode v).adopt next).1.inRole r)

/-- What folding makes of an expression, going down a number of levels. -/
def Folds : Nat → Node → Node → Prop
  | 0 => FoldsOver Eq
  | depth + 1 => FoldsOver (Folds depth)

theorem folds_iff {depth : Nat} {n n' : Node} :
    Folds depth n n' ↔ FoldsOver (Under Folds depth) n n' := by
  cases depth <;> rfl

theorem FoldsOver.role {operand : Node → Node → Prop} {n n' : Node} (h : FoldsOver operand n n') :
    n'.role = n.role := by
  cases h with
  | folded => exact Node.role_inRole _ _
  | _ => rfl

theorem Folds.role {depth : Nat} {n n' : Node} (h : Folds depth n n') : n'.role = n.role :=
  (folds_iff.mp h).role

/-- A folded expression is evaluated as the expression is, and better. -/
theorem FoldsOver.improves {operand : Node → Node → Prop} {n n' : Node} {x : Course}
    (h : FoldsOver operand n n') (hn : Evaluates n x)
    (hoperand : ∀ c c' z, operand c c' → Evaluates c z →
      c'.role = c.role ∧ ∃ y, Evaluates c' y ∧ y.Improves z) :
    ∃ y, Evaluates n' y ∧ y.Improves x := by
  cases h with
  | leaf => exact ⟨x, hn, .refl x⟩
  | minus hc =>
    cases hn with
    | minus hrole hn =>
      obtain ⟨hsame, y, hy, himproves⟩ := hoperand _ _ _ hc hn
      exact ⟨_, .minus (hsame.trans hrole) hy, himproves.unary _⟩
  | kept hx hy =>
    cases hn with
    | binary hop hleft hright ha hb =>
      obtain ⟨hsame, z, hz, himproves⟩ := hoperand _ _ _ hx ha
      obtain ⟨hsame', z', hz', himproves'⟩ := hoperand _ _ _ hy hb
      exact ⟨_, .binary hop (hsame.trans hleft) (hsame'.trans hright) hz hz',
        himproves.binary himproves' _⟩
  | @folded i r op _ _ _ _ v hx hy hlit hlit' hv next =>
    cases hn with
    | binary hop hleft hright ha hb =>
      obtain ⟨hsame, z, hz, himproves⟩ := hoperand _ _ _ hx ha
      obtain ⟨hsame', z', hz', himproves'⟩ := hoperand _ _ _ hy hb
      have hinner := Evaluates.binary (i := i) (r := r) hop (hsame.trans hleft)
        (hsame'.trans hright) hz hz'
      obtain ⟨y, hy, hbetter⟩ := improves_folded hinner hlit hlit' hv
      exact ⟨y, (hy.adopt next).inRole r, hbetter.trans (himproves.binary himproves' _)⟩

theorem Folds.improves {depth : Nat} {n n' : Node} {x : Course} (h : Folds depth n n')
    (hn : Evaluates n x) : ∃ y, Evaluates n' y ∧ y.Improves x := by
  induction depth generalizing n n' x with
  | zero =>
    refine FoldsOver.improves h hn fun c c' z hc hz => ?_
    cases hc
    exact ⟨rfl, z, hz, .refl z⟩
  | succ depth ih => exact FoldsOver.improves h hn fun c c' z hc hz => ⟨Folds.role hc, ih hc hz⟩

theorem Under.improves {depth : Nat} {n n' : Node} {x : Course} (h : Under Folds depth n n')
    (hn : Evaluates n x) : n'.role = n.role ∧ ∃ y, Evaluates n' y ∧ y.Improves x := by
  cases depth with
  | zero =>
    cases h
    exact ⟨rfl, x, hn, .refl x⟩
  | succ depth => exact ⟨Folds.role h, Folds.improves h hn⟩

/-! ## Trees of values are not folded again -/

/-- A literal, a name, or one behind a sign. -/
inductive Plain : Node → Prop
  | leaf {i : NodeId} {r : Role} {f : Form} (hf : handles f = false) : Plain (.mk i r f [])
  | minus {i : NodeId} {r : Role} {c : Node} (hc : Plain c) : Plain (.mk i r (.unary .minus) [c])

theorem Plain.inRole {n : Node} (h : Plain n) (r : Role) : Plain (n.inRole r) := by
  cases h with
  | leaf hf => exact .leaf hf
  | minus hc => exact .minus hc

theorem Plain.adopt {n : Node} (h : Plain n) (next : NodeId) : Plain (n.adopt next).1 := by
  induction h generalizing next with
  | leaf hf =>
    unfold Node.adopt
    split <;> exact .leaf hf
  | minus _ ih =>
    unfold Node.adopt
    split <;> exact .minus (ih _)

theorem Plain.handles {n d : Node} (h : Plain n) (hd : d.Inside n) : handles d.form = false := by
  induction h with
  | leaf hf =>
    cases hd with
    | self => exact hf
    | within hc => cases hc
  | minus _ ih =>
    cases hd with
    | self => rfl
    | within hc hd =>
      cases List.mem_singleton.mp hc
      exact ih hd

theorem plain_numberNode (x : Float) : Plain (numberNode x) := by
  have hmagnitude : Plain (magnitudeNode x) := by
    unfold magnitudeNode
    split <;> exact .leaf rfl
  rw [numberNode_eq]
  split
  · exact .leaf rfl
  · split
    · exact .minus (hmagnitude.inRole .argument)
    · exact hmagnitude

theorem plain_primitiveNode (v : Value) : Plain (primitiveNode v) := by
  cases v with
  | number x => exact plain_numberNode x
  | _ => exact .leaf rfl

/-! ## The rule in a tour -/

/-- The tour of the rule alone. -/
def visitor : Visitor RuleError RuleState := ⟨[], [handler]⟩

variable {i p : SiteId} {n parent : Node} {t : Tour RuleState} {op : BinaryOp}

theorem ignores_of_handles {f : Form} (hf : handles f = false) : visitor.Ignores f := by
  refine ⟨fun h hmem => ?_, fun h hmem => ?_⟩
  · cases hmem
  · cases List.mem_singleton.mp hmem
    exact hf

/-- The tree of a value is visited without any effect. -/
theorem Plain.idle (hplain : Plain n) (hn : Stands t.analysis i n) (fuel visits : Nat) :
    Idle (visit visitor fuel visits i) t :=
  visit_idle hn (fun _ hd => ignores_of_handles (hplain.handles hd)) fuel visits

theorem literalOperands?_binary {j : NodeId} {r : Role} {x y : Node} (hleft : x.role = .left)
    (hright : y.role = .right) :
    literalOperands? (.mk j r (.binary op) [x, y]) =
      if isLiteral x && isLiteral y then some (op, x, y) else none := by
  have hx : Node.child? (.mk j r (.binary op) [x, y]) .left = some x := by
    simp [Node.child?, Node.children, hleft]
  have hy : Node.child? (.mk j r (.binary op) [x, y]) .right = some y := by
    simp [Node.child?, Node.children, hleft, hright]
  unfold literalOperands?
  rw [hx, hy]
  rfl

/-- What the rule does to two literals under an operator that is folded. -/
def fold (i : SiteId) (op : BinaryOp) (l r : Node) : RuleM Unit := do
  let v ← RuleM.convert (foldedValue op l r)
  RuleM.edit fun a => a.replace i (primitiveNode v)
  RuleM.record .binaryFolded 1

theorem act_of_none (hn : Stands t.analysis i n) (h : literalOperands? n = none) :
    act i t = .ok () t := by
  unfold act RuleM.nodeAt
  rw [ask_bind, hn.nodeAt, h]
  rfl

theorem act_of_some {l r : Node} (hn : Stands t.analysis i n)
    (h : literalOperands? n = some (op, l, r)) (hop : isFoldable op = true) :
    act i t = fold i op l r t := by
  unfold act RuleM.nodeAt
  rw [ask_bind, hn.nodeAt, h]
  simp only [hop]
  rfl

theorem fold_of_error {l r : Node} {f : Fault} (h : foldedValue op l r = .error f) :
    fold i op l r t = .error (.fault f) t := by
  unfold fold
  rw [h]
  rfl

theorem edit_of_ok {f : Analysis → Except Refusal Analysis} {a : Analysis}
    (h : f t.analysis = .ok a) : RuleM.edit f t = .ok () { t with analysis := a } := by
  unfold RuleM.edit
  rw [bind_of_ok (show (get : RuleM _) t = .ok t t from rfl), h]
  rfl

/-- The site moves on to the tree of the value. -/
theorem fold_of_ok {l r : Node} {v : Value} (hn : Alone t.analysis i p parent n)
    (hrole : n.role ≠ .value) (h : foldedValue op l r = .ok v) :
    ∃ t' new next, fold i op l r t = .ok () t' ∧
      new = ((primitiveNode v).adopt next).1.inRole n.role ∧
      Stands t'.analysis i new ∧ Turns t.analysis t'.analysis i n new := by
  obtain ⟨a, ha, hstands, hturns⟩ := hn.replace hrole (primitiveNode v)
  refine ⟨{ t with analysis := a, state := { t.state with stats := t.state.stats.add .binaryFolded 1 } },
    _, t.analysis.next, ?_, rfl, hstands, hturns⟩
  unfold fold
  rw [h]
  exact bind_of_ok (edit_of_ok ha)

/-! ## Visits -/

/-- The run ended at an operator whose value cannot be computed, nor can that of the expression. -/
structure TooLarge (x : Course) (e : RuleError) : Prop where
  fault : e = .fault .tooLarge
  result : x.result = .error (.fault .tooLarge)

theorem FoldsOver.binary {operand : Node → Node → Prop} {j : NodeId} {r : Role} {x x' y y' n' : Node}
    (h : FoldsOver Eq (.mk j r (.binary op) [x', y']) n') (hx : operand x x') (hy : operand y y') :
    FoldsOver operand (.mk j r (.binary op) [x, y]) n' := by
  cases h with
  | leaf hn => cases hn
  | kept hx' hy' hlit =>
    cases hx'
    cases hy'
    exact .kept hx hy hlit
  | folded hx' hy' hleft hright hv next =>
    cases hx'
    cases hy'
    exact .folded hx hy hleft hright hv next

/-- On leaving an operator whose operands were visited, it is folded if they are literals. -/
theorem leave_binary {j : NodeId} {r : Role} {x y : Node} {z : Course}
    (hn : Alone t.analysis i p parent (.mk j r (.binary op) [x, y])) (hrole : r ≠ .value)
    (hz : Evaluates (.mk j r (.binary op) [x, y]) z) (fuel visits : Nat) :
    Ends (leave visitor fuel visits i (.mk j r (.binary op) [x, y]) t)
      (fun _ t' => ∃ n', FoldsOver Eq (.mk j r (.binary op) [x, y]) n' ∧
        Turns t.analysis t'.analysis i (.mk j r (.binary op) [x, y]) n') (TooLarge z) := by
  have honly : (visitor.onLeaving.filter fun h => h.handles (.binary op)) = [handler] := rfl
  have hsteady := hz.steady
  cases hz with
  | @binary _ _ _ _ _ zx zy hop hleft hright hzx hzy =>
    have hoperands : literalOperands? (.mk j r (.binary op) [x, y]) = _ :=
      literalOperands?_binary hleft hright
    cases hlit : isLiteral x && isLiteral y with
    | false =>
      rw [hlit] at hoperands
      rw [leave_of_ok hn.stands honly (act_of_none hn.stands hoperands) hn.stands,
        if_neg (by simp)]
      exact ⟨_, .kept rfl rfl hlit, ((Extends.refl t.analysis).alters i _).turns⟩
    | true =>
      rw [hlit] at hoperands
      rw [Bool.and_eq_true] at hlit
      have hact := act_of_some hn.stands hoperands hop
      cases hv : foldedValue op x y with
      | error f =>
        have hresult := foldedValue_eq hop hzx hzy hlit.1 hlit.2
        rw [hv] at hresult
        cases hsteady.stop (.fault f) hresult.symm
        rw [leave_of_error hn.stands honly (hact.trans (fold_of_error hv))]
        exact ⟨rfl, hresult.symm⟩
      | ok v =>
        obtain ⟨t', new, next, hfold, hnew, hstands, hturns⟩ := fold_of_ok hn hrole hv
        have hfolds : FoldsOver Eq (.mk j r (.binary op) [x, y]) new :=
          hnew ▸ .folded rfl rfl hlit.1 hlit.2 hv next
        have hplain : Plain new := hnew ▸ ((plain_primitiveNode v).adopt next).inRole r
        rw [leave_of_ok hn.stands honly (hact.trans hfold) hstands]
        split
        · exact (hplain.idle hstands fuel visits).mono
            (fun _ _ hextends => ⟨new, hfolds, hturns.extended hextends⟩) fun _ hfalse => hfalse.elim
        · exact ⟨new, hfolds, hturns⟩

theorem Evaluates.isHole {n : Node} {x : Course} (h : Evaluates n x) : n.isHole = false := by
  cases h <;> rfl

theorem Evaluates.filled {n : Node} {x : Course} (h : Evaluates n x) : Filled n := by
  cases h with
  | minus hrole hc =>
    exact ⟨.cons hrole.symm .nil, List.nodup_singleton _,
      fun c hmem => List.mem_singleton.mp hmem ▸ hc.isHole⟩
  | binary _ hleft hright ha hb =>
    refine ⟨.cons hleft.symm (.cons hright.symm .nil), ?_, fun c hmem => ?_⟩
    · simp [Node.children, hleft, hright]
    · obtain rfl | rfl := List.mem_pair.mp hmem
      · exact ha.isHole
      · exact hb.isHole
  | _ => exact ⟨.nil, List.nodup_nil, fun _ h => by cases h⟩

theorem TooLarge.unary {z : Course} {e : RuleError} (h : TooLarge z e) (f : Value → Conv Value) :
    TooLarge (z.unary f) e := by
  refine ⟨h.fault, ?_⟩
  rw [Course.result_unary, h.result]
  rfl

theorem TooLarge.left {z : Course} {e : RuleError} (h : TooLarge z e) (z' : Course)
    (f : Value → Value → Conv Value) : TooLarge (z.binary z' f) e := by
  refine ⟨h.fault, ?_⟩
  rw [Course.result_binary, h.result]
  rfl

/-- The operand on the left fails in no other way than the one on the right. -/
theorem TooLarge.right {m : Node} {z z' : Course} {e : RuleError} (h : TooLarge z' e)
    (hm : Evaluates m z) (f : Value → Value → Conv Value) : TooLarge (z.binary z' f) e := by
  refine ⟨h.fault, ?_⟩
  rw [Course.result_binary]
  cases hz : z.result with
  | ok v =>
    show (z'.result >>= f v) = _
    rw [h.result]
    rfl
  | error e' =>
    cases hm.steady.stop e' hz
    rfl

theorem TooLarge.improved {y z : Course} {e : RuleError} (h : TooLarge y e)
    (hz : y.Improves z) : TooLarge z e := ⟨h.fault, hz.result ▸ h.result⟩

theorem Visits.failing {v : Visitor RuleError RuleState} {fuel : Nat} {P : Node → Node → Prop} {c : Node}
    {err err' : RuleError → Prop} (h : Visits v fuel P err c) (herr : ∀ e, err e → err' e) :
    Visits v fuel P err' c :=
  fun t i p parent hc => (h t i p parent hc).mono (fun _ _ hok => hok) herr

/-- On leaving what is not folded nothing happens. -/
theorem leave_of_not_handled {n' : Node} {t' : Tour RuleState} {fuel depth : Nat} {visits : Nat}
    {err : RuleError → Prop} (hform : handles n.form = false) (hfolds : Folds depth n n')
    (halters : Alters t.analysis t'.analysis i n n') :
    Ends (leave visitor fuel visits i n t')
      (fun _ t' => ∃ n', Folds depth n n' ∧ n'.role = n.role ∧ Turns t.analysis t'.analysis i n n')
      err := by
  rw [leave_eq (ignores_of_handles hform).onLeaving]
  exact ⟨n', hfolds, hfolds.role, halters.turns⟩

/-- A visit folds an expression, or ends the run. -/
theorem Evaluates.visits {n : Node} {x : Course} (h : Evaluates n x) (hrole : n.role ≠ .value)
    (fuel : Nat) : Visits visitor fuel (Folds fuel) (TooLarge x) n := by
  induction fuel using Nat.strongRecOn generalizing n x with
  | ind fuel ih =>
    intro t i p parent hn
    have hentry : ∀ h ∈ visitor.onEntry, h.handles n.form = false := fun h hmem => by cases hmem
    have hstands := hn.stands
    have hfilled := h.filled
    cases h with
    | minus hargument hc =>
      refine visit_filled (P := Folds) hstands hentry hfilled (fun k hk c hmem => ?_) _
        fun t' done hdone halters => ?_
      · cases List.mem_singleton.mp hmem
        have hvisits := ih k (by omega) hc (by rw [hargument]; decide)
        exact Visits.failing hvisits fun _ he => he.unary _
      · obtain ⟨c', _, hc', hnil, rfl⟩ := List.forall₂_cons_left_iff.mp hdone
        cases hnil
        exact leave_of_not_handled rfl (folds_iff.mpr (.minus hc')) halters
    | @binary j r op a b zx zy hop hleft hright ha hb =>
      refine visit_filled (P := Folds) hstands hentry hfilled (fun k hk c hmem => ?_) _
        fun t' done hdone halters => ?_
      · obtain rfl | rfl := List.mem_pair.mp hmem
        · exact Visits.failing (ih k (by omega) ha (by rw [hleft]; decide)) fun _ he => he.left ..
        · exact Visits.failing (ih k (by omega) hb (by rw [hright]; decide)) fun _ he => he.right ha _
      · obtain ⟨a', _, ha', hrest, rfl⟩ := List.forall₂_cons_left_iff.mp hdone
        obtain ⟨b', _, hb', hnil, rfl⟩ := List.forall₂_cons_left_iff.mp hrest
        cases hnil
        obtain ⟨hsame, za, hza, hbetter⟩ := Under.improves ha' ha
        obtain ⟨hsame', zb, hzb, hbetter'⟩ := Under.improves hb' hb
        obtain ⟨parent', hn'⟩ := halters.alone hn
        have hinner := Evaluates.binary (i := j) (r := r) hop (hsame.trans hleft)
          (hsame'.trans hright) hza hzb
        refine (leave_binary hn' hrole hinner _ _).mono (fun _ t'' hok => ?_) fun e he => ?_
        · obtain ⟨n', hn', hturns⟩ := hok
          have hfolds := folds_iff.mpr (hn'.binary ha' hb')
          exact ⟨n', hfolds, hfolds.role, halters.trans_turns hn.known hturns⟩
        · exact he.improved (hbetter.binary hbetter' _)
    | _ =>
      refine visit_filled (P := Folds) hstands hentry hfilled (fun k hk c hmem => by cases hmem) _
        fun t' done hdone halters => ?_
      cases hdone
      exact leave_of_not_handled rfl (folds_iff.mpr (.leaf rfl)) halters

/-! ## Scripts -/

/-- A script that consists of one expression. -/
def script (i j : NodeId) (directive : Option Text) (e : Node) : Node :=
  .mk i .top .program [.mk j .body (.expressionStatement directive) [e]]

/-- What folding makes of a statement that consists of an expression. -/
inductive FoldsIn (depth : Nat) : Node → Node → Prop
  | mk {j : NodeId} {r : Role} {directive : Option Text} {e e' : Node} (he : Under Folds depth e e') :
      FoldsIn depth (.mk j r (.expressionStatement directive) [e])
        (.mk j r (.expressionStatement directive) [e'])

variable {e : Node} {x : Course}

theorem Evaluates.filled_statement (he : Evaluates e x) (hrole : e.role = .expression) (j : NodeId)
    (r : Role) (directive : Option Text) : Filled (.mk j r (.expressionStatement directive) [e]) :=
  ⟨.cons hrole.symm .nil, List.nodup_singleton _,
    fun _ hmem => List.mem_singleton.mp hmem ▸ he.isHole⟩

theorem Evaluates.visits_statement (he : Evaluates e x) (hrole : e.role = .expression) (j : NodeId)
    (r : Role) (directive : Option Text) (fuel : Nat) :
    Visits visitor fuel (FoldsIn fuel) (TooLarge x) (.mk j r (.expressionStatement directive) [e]) := by
  intro t i p parent hn
  refine visit_filled (P := Folds) hn.stands (fun h hmem => by cases hmem)
    (he.filled_statement hrole j r directive) (fun k _ _ hmem => ?_) _ fun t' done hdone halters => ?_
  · cases List.mem_singleton.mp hmem
    exact he.visits (by rw [hrole]; decide) k
  · obtain ⟨e', _, he', hnil, rfl⟩ := List.forall₂_cons_left_iff.mp hdone
    cases hnil
    rw [leave_eq (ignores_of_handles rfl).onLeaving]
    exact ⟨_, .mk he', rfl, halters.turns⟩

/-- The tour of a script folds its expression, or ends at an operator whose value cannot be
computed. -/
theorem run_script (he : Evaluates e x) (hrole : e.role = .expression) {i j : NodeId}
    {directive : Option Text} {a : Analysis} (ha : a.program = script i j directive e)
    (state : RuleState) :
    (∃ t e', visitor.run a state = .ok t ∧ t.analysis.program = script i j directive e' ∧
      Folds (tourDepth - 2) e e') ∨
    (visitor.run a state = .error (.fault .tooLarge) ∧ x.result = .error (.fault .tooLarge)) := by
  have hroot := stands_root a
  have hway := way_of_root (congrArg Site.above
    (site_addSite a ⟨a.program.id, none, .top, false, 0, false⟩))
  have hvisit : Ends (visit visitor tourDepth maxVisits a.sites.size
      ⟨(a.addSite ⟨a.program.id, none, .top, false, 0, false⟩).2, 0, state⟩)
      (fun _ t => ∃ e', t.analysis.program = script i j directive e' ∧ Folds (tourDepth - 2) e e')
      (TooLarge x) := by
    refine visit_filled (P := FoldsIn) hroot (fun h hmem => by cases hmem) ?_
      (fun k _ c hmem => ?_) _ fun t' done hdone halters => ?_
    · rw [ha]
      exact ⟨.cons rfl .nil, List.nodup_singleton _, fun c hmem => List.mem_singleton.mp hmem ▸ rfl⟩
    · rw [ha] at hmem
      cases List.mem_singleton.mp hmem
      exact he.visits_statement hrole j .body directive k
    · rw [ha] at hdone
      obtain ⟨s', _, hs', hnil, rfl⟩ := List.forall₂_cons_left_iff.mp hdone
      cases hnil
      cases hs' with
      | @mk _ _ _ _ e' he' =>
        obtain ⟨g, -, hg, hprogram⟩ := halters.program
        rw [leave_eq (ignores_of_handles (by rw [ha]; rfl)).onLeaving]
        refine ⟨e', ?_, he'⟩
        rw [hprogram, hway]
        refine hg.trans ?_
        rw [ha]
        rfl
  obtain ⟨t, hrun, e', hprogram, hfolds⟩ | ⟨f, hrun, rfl, hresult⟩ := run_of_ends hvisit
  · exact .inl ⟨t, e', hrun, hprogram, hfolds⟩
  · exact .inr ⟨hrun, hresult⟩

end Untangle.Rule.Folding
