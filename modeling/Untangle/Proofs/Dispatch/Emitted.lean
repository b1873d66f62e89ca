import Untangle.Proofs.Dispatch.Outside
import Untangle.Proofs.Dispatch.Stopping

set_option autoImplicit false

/-!
# Statements that take the place of a loop

A loop that is taken apart leaves statements of its cases behind, or copies of them.  None of them leaves
the place where it stands, functions inside of it apart, and none of them names a dispatch variable, in
functions neither.

The check of a case looks at its statements once, when the case is taken for the first time.  What it finds
out is kept by the plan of the case, so that it holds of all statements of a course of any length.

The main theorem, `emitted_statements_clean`, is about one act of the rule, in any state that a tour may be
in, and about names at any depth.  It says where each statement comes from, but not that the statements are
those that the loop runs.
-/

namespace Untangle

namespace Node

/-! ## What stands in a tree -/

/-- A node stands in a tree, and all nodes around it in the tree have forms of a certain kind. -/
inductive StandsIn (around : Form → Bool) : Node → Node → Prop
  | self (n : Node) : StandsIn around n n
  | child {d c n : Node} (hform : around n.form = true) (hc : c ∈ n.children)
      (h : StandsIn around d c) : StandsIn around d n

/-- Nothing stands in an element that is left out. -/
def hasInside (f : Form) : Bool := !f.isHole

/-- What stands in a function does not belong to what is around the function. -/
def isOpen (f : Form) : Bool := !f.isHole && !f.isFunction

variable {around : Form → Bool} {d n : Node}

/-- What stands in a copy is a copy of what stands in the tree. -/
theorem StandsIn.of_unnumbered (h : StandsIn around d n.unnumbered) :
    ∃ e, StandsIn around e n ∧ d = e.unnumbered := by
  generalize hcopy : n.unnumbered = m at h
  induction h generalizing n with
  | self => exact ⟨n, .self n, hcopy.symm⟩
  | child hform hc _ ih =>
    subst hcopy
    rw [form_unnumbered] at hform
    rw [children_unnumbered] at hc
    obtain ⟨c, hc, hsame⟩ := List.mem_map.mp hc
    obtain ⟨e, he, hd⟩ := ih hsame
    exact ⟨e, .child hform hc he, hd⟩

theorem walkShallowAll_eq_flatMap (ns : List Node) : walkShallowAll ns = ns.flatMap walkShallow := by
  induction ns with
  | nil => rfl
  | cons n ns ih => rw [walkShallowAll, ih, List.flatMap_cons]

/-- A walk comes to all nodes. -/
theorem StandsIn.mem_walk (h : StandsIn hasInside d n) (hd : d.form.isHole = false) : d ∈ n.walk := by
  induction h with
  | self =>
    obtain ⟨i, r, f, cs⟩ := d
    change f.isHole = false at hd
    simp [walk, hd]
  | @child c n hform hc _ ih =>
    obtain ⟨i, r, f, cs⟩ := n
    have hinside : f.isHole = false := by simpa [hasInside, form] using hform
    simp only [walk, hinside, Bool.false_eq_true, if_false, walkAll_eq_flatMap]
    exact List.mem_cons_of_mem _ (List.mem_flatMap.mpr ⟨c, hc, ih⟩)

/-- A walk that stays outside of functions comes to all nodes that have no function around them. -/
theorem StandsIn.mem_walkShallow (h : StandsIn isOpen d n) (hd : d.form.isHole = false) :
    d ∈ n.walkShallow := by
  induction h with
  | self =>
    obtain ⟨i, r, f, cs⟩ := d
    change f.isHole = false at hd
    unfold walkShallow
    cases f.isFunction <;> simp [hd]
  | @child c n hform hc _ ih =>
    obtain ⟨i, r, f, cs⟩ := n
    obtain ⟨hhole, hfunction⟩ : f.isHole = false ∧ f.isFunction = false := by
      simpa [isOpen, form] using hform
    simp only [walkShallow, hhole, hfunction, Bool.false_eq_true, if_false, walkShallowAll_eq_flatMap]
    exact List.mem_cons_of_mem _ (List.mem_flatMap.mpr ⟨c, hc, ih⟩)

/-- A node stands in a tree outside of the functions in the tree; the tree may be a function itself. -/
def Outside (d n : Node) : Prop := d = n ∨ ∃ c ∈ n.children, StandsIn isOpen d c

theorem Outside.of_unnumbered (h : Outside d n.unnumbered) : ∃ e, Outside e n ∧ d = e.unnumbered := by
  rcases h with rfl | ⟨c, hc, hd⟩
  · exact ⟨n, .inl rfl, rfl⟩
  · rw [children_unnumbered] at hc
    obtain ⟨k, hk, rfl⟩ := List.mem_map.mp hc
    obtain ⟨e, he, hsame⟩ := hd.of_unnumbered
    exact ⟨e, .inr ⟨k, hk, he⟩, hsame⟩

theorem Outside.mem_walkOutsideFunctions (h : Outside d n) (hd : d.form.isHole = false) :
    d ∈ n.walkOutsideFunctions := by
  unfold walkOutsideFunctions
  rcases h with rfl | ⟨c, hc, h⟩
  · exact List.mem_cons_self
  · rw [walkShallowAll_eq_flatMap]
    exact List.mem_cons_of_mem _ (List.mem_flatMap.mpr ⟨c, hc, h.mem_walkShallow hd⟩)

end Node

namespace Dispatch

open Sandbox
open Node (StandsIn Outside)

/-! ## Clean statements -/

/-- A statement neither leaves its place nor names one of some variables. -/
structure Harmless (names : List Text) (s : Node) : Prop where
  stays : ∀ d, Outside d s → isExit d.form = false
  silent : ∀ d name, StandsIn Node.hasInside d s → d.form = .identifier name → name ∉ names

/-- A harmless statement that is a statement of some cases, or a copy of one. -/
structure Clean (names : List Text) (cases : List Node) (s : Node) : Prop where
  origin : ∃ c ∈ cases, ∃ o ∈ c.childrenAt .consequent, s = o ∨ s = o.unnumbered
  harmless : Harmless names s

variable {gate : Gate} {names : List Text} {cases : List Node} {s : Node}

theorem Harmless.unnumbered (h : Harmless names s) : Harmless names s.unnumbered := by
  constructor
  · intro d hd
    obtain ⟨e, he, rfl⟩ := hd.of_unnumbered
    rw [Node.form_unnumbered]
    exact h.stays e he
  · intro d name hd hform
    obtain ⟨e, he, rfl⟩ := hd.of_unnumbered
    rw [Node.form_unnumbered] at hform
    exact h.silent e name he hform

/-- A copy of a clean statement is clean. -/
theorem Clean.unnumbered (h : Clean names cases s) : Clean names cases s.unnumbered := by
  obtain ⟨⟨c, hc, o, ho, horigin⟩, hharmless⟩ := h
  refine ⟨⟨c, hc, o, ho, .inr ?_⟩, hharmless.unnumbered⟩
  rcases horigin with rfl | rfl
  · rfl
  · exact Node.unnumbered_unnumbered o

theorem isExit_of_isHole {f : Form} (h : f.isHole = true) : isExit f = false := by
  cases f with
  | hole => rfl
  | _ => cases h

/-- What a check of a statement has found out. -/
theorem harmless_of_check (hexit : (s.walkOutsideFunctions.any fun m => isExit m.form) = false)
    (hmentions : mentions s names = false) : Harmless names s := by
  constructor
  · intro d hd
    cases hhole : d.form.isHole with
    | true => exact isExit_of_isHole hhole
    | false =>
      have hnone := List.any_eq_false.mp hexit d (hd.mem_walkOutsideFunctions hhole)
      simpa using hnone
  · intro d name hd hform hname
    have hmem : d ∈ s.walk := hd.mem_walk (by rw [hform]; rfl)
    have hnone := List.any_eq_false.mp hmentions d hmem
    apply hnone
    simp [Node.name?, hform, hname]

/-! ## Plans -/

/-- The statements that stay were checked. -/
theorem harmless_of_split {ns statements updates : List Node}
    (h : split gate names ns = .ok (statements, updates)) :
    ∀ s ∈ statements, s ∈ ns ∧ Harmless names s := by
  induction ns generalizing statements updates with
  | nil =>
    cases h
    simp
  | cons n ns ih =>
    have hlater : ∀ {statements updates : List Node}, split gate names ns = .ok (statements, updates) →
        ∀ s ∈ statements, s ∈ n :: ns ∧ Harmless names s := by
      intro statements updates hrest s hs
      obtain ⟨hmem, hharmless⟩ := ih hrest s hs
      exact ⟨List.mem_cons_of_mem n hmem, hharmless⟩
    unfold split at h
    cases hexit : n.walkOutsideFunctions.any fun m => isExit m.form with
    | true =>
      rw [hexit] at h
      cases h
    | false =>
      simp only [hexit, Bool.false_eq_true, if_false] at h
      cases hupdate : isUpdate names n with
      | true =>
        rw [hupdate] at h
        obtain ⟨_, -, h⟩ := except_bind_eq_ok.mp h
        obtain ⟨⟨ss, us⟩, hrest, h⟩ := except_bind_eq_ok.mp h
        cases h
        exact hlater hrest
      | false =>
        simp only [hupdate, Bool.false_eq_true, if_false] at h
        cases hmentions : mentions n names with
        | true =>
          rw [hmentions] at h
          cases h
        | false =>
          simp only [hmentions, Bool.false_eq_true, if_false] at h
          obtain ⟨⟨ss, us⟩, hrest, h⟩ := except_bind_eq_ok.mp h
          cases h
          intro s hs
          rcases List.mem_cons.mp hs with rfl | hs
          · exact ⟨List.mem_cons_self, harmless_of_check hexit hmentions⟩
          · exact hlater hrest s hs

theorem Ending.subset {consequent kept : List Node} {isLast continues : Bool}
    (h : Ending consequent isLast kept continues) : kept ⊆ consequent := by
  cases h with
  | continues h _ | breaks h _ => simp [h]
  | runsOut h _ => simp [h]

/-- The statements that a plan keeps are clean. -/
theorem clean_of_ofCase {case : Node} {isLast : Bool} {plan : CasePlan} (hcase : case ∈ cases)
    (h : CasePlan.ofCase gate names case isLast = .ok plan) :
    ∀ s ∈ plan.statements, Clean names cases s := by
  obtain ⟨kept, hsplit, hending⟩ := ofCase_eq_ok h
  intro s hs
  obtain ⟨hmem, hharmless⟩ := harmless_of_split hsplit s hs
  exact ⟨⟨case, hcase, s, hending.subset hmem, .inl rfl⟩, hharmless⟩

/-- A plan that was made is the plan of a case that there is. -/
theorem mem_cases_of_ofCase {index : Nat} {isLast : Bool} {plan : CasePlan}
    (h : CasePlan.ofCase gate names (cases.getD index (.leaf .hole)) isLast = .ok plan) :
    cases.getD index (.leaf .hole) ∈ cases := by
  by_cases hindex : index < cases.length
  · rw [List.getD_eq_getElem?_getD, List.getElem?_eq_getElem hindex]
    exact List.getElem_mem hindex
  · rw [List.getD_eq_getElem?_getD, List.getElem?_eq_none (Nat.le_of_not_lt hindex)] at h
    cases h

/-! ## Courses -/

/-- All plans that are known have clean statements only. -/
def KeepsClean (names : List Text) (cases : List Node) (plans : Dict Nat CasePlan) : Prop :=
  ∀ i p, plans.get? i = some p → ∀ s ∈ p.statements, Clean names cases s

variable {loop : Loop} {plans : Dict Nat CasePlan} {r r' : Registry}

theorem KeepsClean.planOf {index : Nat} {plan : CasePlan} (h : KeepsClean names loop.cases plans)
    (hplan : planOf loop names plans index r = .ok plan r') :
    ∀ s ∈ plan.statements, Clean names loop.cases s := by
  unfold Dispatch.planOf at hplan
  cases hget : plans.get? index with
  | some p =>
    rw [hget] at hplan
    cases hplan
    exact h index _ hget
  | none =>
    rw [hget] at hplan
    obtain ⟨g, r₁, -, hplan⟩ := bind_eq_ok.mp hplan
    obtain ⟨hcase, -⟩ := check_eq_ok hplan
    exact clean_of_ofCase (mem_cases_of_ofCase hcase) hcase

theorem KeepsClean.put {index : Nat} {plan : CasePlan} (h : KeepsClean names cases plans)
    (hplan : ∀ s ∈ plan.statements, Clean names cases s) :
    KeepsClean names cases (plans.put index plan) := by
  intro i p hget
  by_cases hi : i = index
  · subst hi
    rw [Dict.get?_put_self] at hget
    cases hget
    exact hplan
  · rw [Dict.get?_put_of_ne _ hi] at hget
    exact h i p hget

/-- A case that is taken again gives copies. -/
theorem clean_of_emitted {index : Nat} {plan : CasePlan}
    (hplan : ∀ s ∈ plan.statements, Clean names cases s) :
    ∀ s ∈ emitted plans index plan, Clean names cases s := by
  intro s hs
  unfold emitted at hs
  split at hs
  · obtain ⟨o, ho, rfl⟩ := List.mem_map.mp hs
    exact (hplan o ho).unnumbered
  · exact hplan s hs

/-- The cases that a course takes give clean statements only. -/
theorem Course.clean {values : List Value} {scopes : ScopeChain} {started : Bool} {ds : List Taken}
    {f : Finish} (h : Course loop names values scopes started plans r ds f r')
    (hplans : KeepsClean names loop.cases plans) :
    ∀ s ∈ written plans ds, Clean names loop.cases s := by
  induction h with
  | ends => simp [written]
  | leaves _ hplan _ _ =>
    have hclean := hplans.planOf hplan
    intro s hs
    rw [written, written, List.append_nil] at hs
    exact clean_of_emitted hclean s hs
  | takes _ hplan _ _ _ _ ih =>
    have hclean := hplans.planOf hplan
    intro s hs
    rw [written] at hs
    rcases List.mem_append.mp hs with hs | hs
    · exact clean_of_emitted hclean s hs
    · exact ih (hplans.put hclean) s hs

/-- The statements that a trial gives are clean. -/
theorem clean_of_unflatten {readOutside : List Text → Bool} {maxDispatches : Nat} {out : List Node}
    (h : (unflatten loop readOutside maxDispatches).run r = .ok out r') :
    ∀ s ∈ out, Clean (stateNames loop.init) loop.cases s := by
  obtain ⟨values, r₁, -, -, hrun⟩ := unflatten_eq_ok h
  obtain ⟨ds, f, hcourse, -, rfl⟩ := course_of_run hrun
  refine hcourse.clean ?_
  intro i p hget
  cases hget

end Dispatch

namespace Rule.Unflattening

variable {settings : Settings} {i : SiteId} {t t' : Tour RuleState}

theorem edit_eq_ok {f : Analysis → Except Refusal Analysis}
    (h : RuleM.edit f t = .ok () t') : f t.analysis = .ok t'.analysis := by
  obtain ⟨_, t₁, hget, h⟩ := bind_eq_ok.mp h
  cases hget
  cases hf : f t.analysis with
  | error e =>
    simp only [hf] at h
    cases h
  | ok a =>
    simp only [hf] at h
    cases h
    rfl

/-- **The statements that take the place of a loop are clean.**  Whenever a `for` statement is visited and
the program is not left as it is, the statement is a `switch` in a loop, and what is put in its place, one
after the other, are statements of the cases of the `switch` or copies of them, which have no `break`,
`continue`, `return` or `throw` outside of functions and in which no dispatch variable is named. -/
theorem emitted_statements_clean (hact : act settings i t = .ok () t') :
    (t'.analysis = t.analysis ∧
        t'.state.stats.get? .loopsUnflattened = t.state.stats.get? .loopsUnflattened) ∨
      ∃ loop body switch statements,
        Dispatch.Shape (t.analysis.nodeAt i) loop body switch ∧
        t.analysis.replaceMany i statements = .ok t'.analysis ∧
        ∀ s ∈ statements,
          Dispatch.Clean (Dispatch.stateNames loop.init) (switch.childrenAt .cases) s := by
  unfold act RuleM.nodeAt at hact
  rw [TourM.ask_bind] at hact
  cases hloop : Dispatch.Loop.ofNode? (t.analysis.nodeAt i) with
  | none =>
    rw [hloop] at hact
    cases hact
    exact .inl ⟨rfl, rfl⟩
  | some loop =>
    rw [hloop] at hact
    simp only at hact
    rw [TourM.ask_bind] at hact
    obtain ⟨r, t₁, hsandbox, hact⟩ := bind_eq_ok.mp hact
    rw [withSandbox_eq] at hsandbox
    cases hsandbox
    generalize hrun : EStateM.run _ t.provided = result at hact
    cases result with
    | ok statements store =>
      obtain ⟨body, switch, hshape⟩ := Dispatch.shape_of_ofNode? hloop
      obtain ⟨_, t₂, hedit, hrecord⟩ := bind_eq_ok.mp hact
      cases hrecord
      refine .inr ⟨loop, body, switch, statements, hshape, edit_eq_ok hedit, ?_⟩
      · rw [hshape.cases]
        exact Dispatch.clean_of_unflatten hrun
    | error stop store =>
      cases stop with
      | obstacle o =>
        cases hact
        exact .inl ⟨rfl, Dict.get?_put_of_ne _ (by decide) _⟩
      | unprintable r => cases hact
      | fault f => cases hact

/-- The loop with a test gives way to clean statements. -/
theorem testedLoop_emits_clean :
    ∃ t', act default (testedAnalysis.sites.size + 1) testedTour = .ok () t' ∧
      ∃ loop body switch statements,
        Dispatch.Shape testedLoop loop body switch ∧
        testedTour.analysis.replaceMany (testedAnalysis.sites.size + 1) statements = .ok t'.analysis ∧
        ∀ s ∈ statements,
          Dispatch.Clean (Dispatch.stateNames loop.init) (switch.childrenAt .cases) s := by
  obtain ⟨t', hact, hcount⟩ := testedTour_takesApart
  refine ⟨t', hact, ?_⟩
  rcases emitted_statements_clean hact with ⟨-, hsame⟩ | hclean
  · exact absurd hsame hcount
  · rwa [nodeAt_testedTour] at hclean

end Rule.Unflattening

end Untangle
