import Mathlib.Data.List.Forall2
import Untangle.Proofs.Computation
import Untangle.Proofs.Tree.Code
import Untangle.Rule.Dispatch

set_option autoImplicit false

/-!
# Shapes of dispatch loops and plans of their cases

What is known about a loop that has the shape of a dispatch loop, about the values that its cases test
for, and about the plan of a case.
-/

namespace Untangle

namespace Dispatch

open Sandbox

/-! ## Loops -/

/-- The `switch` of a dispatch loop in the body of the loop. -/
inductive Body (loop : Loop) (switch : Node) : Node → Prop
  | bare : loop.closing = false → Body loop switch switch
  | block {body : Node} : body.form = .blockStatement → body.childrenAt .body = [switch] →
      loop.closing = false → Body loop switch body
  | closed {body last : Node} : body.form = .blockStatement →
      body.childrenAt .body = [switch, last] → isBareBreak last = true → loop.closing = true →
      Body loop switch body

/-- A node that has the shape of a dispatch loop. -/
structure Shape (n : Node) (loop : Loop) (body switch : Node) : Prop where
  init : n.child? .init = some loop.init
  test : n.child? .test = loop.test
  update : n.child? .update = loop.update
  inner : Body loop switch body
  body : n.child? .body = some body
  form : switch.form = .switchStatement
  discriminant : switch.child? .discriminant = some loop.discriminant
  cases : switch.childrenAt .cases = loop.cases

theorem isSwitch_iff {n : Node} : isSwitch n = true ↔ n.form = .switchStatement := by
  unfold isSwitch
  split
  · next h => simp [h]
  · next h => simpa using h

theorem switchOf?_eq_some {body switch : Node} {closing : Bool}
    (h : switchOf? body = some (switch, closing)) :
    switch.form = .switchStatement ∧
      ((switch = body ∧ closing = false) ∨
        (body.form = .blockStatement ∧ body.childrenAt .body = [switch] ∧ closing = false) ∨
        ∃ last, body.form = .blockStatement ∧ body.childrenAt .body = [switch, last] ∧
          isBareBreak last = true ∧ closing = true) := by
  unfold switchOf? at h
  split at h
  · next hform =>
    cases h
    exact ⟨hform, .inl ⟨rfl, rfl⟩⟩
  · next hform =>
    split at h
    · next s hbody =>
      split at h
      · next hswitch =>
        cases h
        exact ⟨isSwitch_iff.mp hswitch, .inr (.inl ⟨hform, hbody, rfl⟩)⟩
      · cases h
    · next s last hbody =>
      split at h
      · next hboth =>
        cases h
        simp only [Bool.and_eq_true] at hboth
        exact ⟨isSwitch_iff.mp hboth.1, .inr (.inr ⟨last, hform, hbody, hboth.2, rfl⟩)⟩
      · cases h
    · cases h
  · cases h

theorem shape_of_ofNode? {n : Node} {loop : Loop} (h : Loop.ofNode? n = some loop) :
    ∃ body switch, Shape n loop body switch := by
  unfold Loop.ofNode? at h
  simp only [Option.bind_eq_bind, Option.bind_eq_some_iff] at h
  obtain ⟨init, hinit, body, hbody, ⟨switch, closing⟩, hswitch, discriminant, hdisc, hloop⟩ := h
  cases hloop
  obtain ⟨hform, hbare | hblock | hclosed⟩ := switchOf?_eq_some hswitch
  · obtain ⟨rfl, rfl⟩ := hbare
    exact ⟨switch, switch, hinit, rfl, rfl, .bare rfl, hbody, hform, hdisc, rfl⟩
  · obtain ⟨hblock, hchildren, rfl⟩ := hblock
    exact ⟨body, switch, hinit, rfl, rfl, .block hblock hchildren rfl, hbody, hform, hdisc, rfl⟩
  · obtain ⟨last, hblock, hchildren, hlast, rfl⟩ := hclosed
    exact ⟨body, switch, hinit, rfl, rfl, .closed hblock hchildren hlast rfl, hbody, hform, hdisc,
      rfl⟩

/-! ## Tests of cases -/

/-- A case tests for a value. -/
def TestsFor (c : Node) (v : Value) : Prop :=
  ∃ t, c.child? .test = some t ∧ isLiteral t = true ∧ denotedValue t = .ok v

theorem literal_eq_ok {t : Node} {v : Value} (h : literal t = .ok v) : denotedValue t = .ok v := by
  unfold literal at h
  split at h
  · next hdenoted =>
    cases h
    exact hdenoted
  · cases h

theorem forall₂_testsFor {cases : List Node} {values : List Value}
    (hsome : ∀ c ∈ cases, (c.child? .test).isSome = true)
    (hliteral : ∀ c ∈ cases, ∀ t, c.child? .test = some t → isLiteral t = true)
    (hvalues : (cases.filterMap fun c => c.child? .test).mapM literal = .ok values) :
    List.Forall₂ TestsFor cases values := by
  induction cases generalizing values with
  | nil =>
    cases hvalues
    exact .nil
  | cons c cases ih =>
    obtain ⟨t, ht⟩ := Option.isSome_iff_exists.mp (hsome c List.mem_cons_self)
    have hcons : (c :: cases).filterMap (fun c => c.child? .test) =
        t :: cases.filterMap fun c => c.child? .test := List.filterMap_cons_some ht
    rw [hcons, List.mapM_cons] at hvalues
    cases hv : literal t with
    | error e => rw [hv] at hvalues; cases hvalues
    | ok v =>
      rw [hv] at hvalues
      cases hvs : (cases.filterMap fun c => c.child? .test).mapM literal with
      | error e => rw [hvs] at hvalues; cases hvalues
      | ok vs =>
        rw [hvs] at hvalues
        cases hvalues
        refine .cons ⟨t, ht, hliteral c List.mem_cons_self t ht, literal_eq_ok hv⟩ ?_
        exact ih (fun d hd => hsome d (List.mem_cons_of_mem c hd))
          (fun d hd => hliteral d (List.mem_cons_of_mem c hd)) hvs

theorem tests_eq_ok {cases : List Node} {values : List Value} (h : tests cases = .ok values) :
    List.Forall₂ TestsFor cases values := by
  unfold tests at h
  simp only [List.filterMap_map] at h
  split at h
  · cases h
  · next hnone =>
    split at h
    · cases h
    · next hall =>
      refine forall₂_testsFor ?_ ?_ h
      · intro c hc
        by_contra hnot
        refine hnone (List.any_eq_true.mpr ⟨_, List.mem_map_of_mem hc, ?_⟩)
        simpa using hnot
      · intro c hc t ht
        simp only [Bool.not_eq_true', Bool.not_eq_false, List.all_eq_true] at hall
        exact hall t (List.mem_filterMap.mpr ⟨c, hc, ht⟩)

/-! ## Plans -/

/-- A statement that a plan keeps or runs does not leave its place. -/
theorem not_jump_of_split {n : Node}
    (h : (n.walkOutsideFunctions.any fun m => isExit m.form) = false) :
    isBareBreak n = false ∧ isBareContinue n = false := by
  have hform : isExit n.form = false := by
    unfold Node.walkOutsideFunctions at h
    rw [List.any_cons, Bool.or_eq_false_iff] at h
    exact h.1
  constructor
  · unfold isBareBreak
    split
    · next hbreak => rw [hbreak] at hform; cases hform
    · rfl
  · unfold isBareContinue
    split
    · next hcontinue => rw [hcontinue] at hform; cases hform
    · rfl

/-- The statements of a case are split by whether they set dispatch variables. -/
theorem split_eq_ok {gate : Gate} {names : List Text} {ns statements updates : List Node}
    (h : split gate names ns = .ok (statements, updates)) :
    statements = ns.filter (fun n => !isUpdate names n) ∧ updates = ns.filter (isUpdate names) ∧
      ∀ n ∈ ns, isBareBreak n = false ∧ isBareContinue n = false := by
  induction ns generalizing statements updates with
  | nil =>
    cases h
    exact ⟨rfl, rfl, by simp⟩
  | cons n ns ih =>
    unfold split at h
    cases hexit : n.walkOutsideFunctions.any fun m => isExit m.form with
    | true =>
      rw [hexit] at h
      cases h
    | false =>
      simp only [hexit, Bool.false_eq_true, if_false] at h
      have hall : ∀ {rest : List Node}, (∀ k ∈ rest, isBareBreak k = false ∧ isBareContinue k = false) →
          ∀ k ∈ n :: rest, isBareBreak k = false ∧ isBareContinue k = false := by
        intro rest hrest k hk
        obtain rfl | hk := List.mem_cons.mp hk
        · exact not_jump_of_split hexit
        · exact hrest k hk
      cases hupdate : isUpdate names n with
      | true =>
        rw [hupdate] at h
        obtain ⟨_, -, h⟩ := except_bind_eq_ok.mp h
        obtain ⟨⟨ss, us⟩, hrest, h⟩ := except_bind_eq_ok.mp h
        cases h
        obtain ⟨rfl, rfl, hjumps⟩ := ih hrest
        exact ⟨by simp [hupdate], by simp [hupdate], hall hjumps⟩
      | false =>
        simp only [hupdate, Bool.false_eq_true, if_false] at h
        split at h
        · cases h
        · obtain ⟨⟨ss, us⟩, hrest, h⟩ := except_bind_eq_ok.mp h
          cases h
          obtain ⟨rfl, rfl, hjumps⟩ := ih hrest
          exact ⟨by simp [hupdate], by simp [hupdate], hall hjumps⟩

/-- How the statements of a case end. -/
inductive Ending (consequent : List Node) (isLast : Bool) (kept : List Node) : Bool → Prop
  | continues {j : Node} : consequent = kept ++ [j] → isBareContinue j = true →
      Ending consequent isLast kept true
  | breaks {j : Node} : consequent = kept ++ [j] → isBareBreak j = true →
      Ending consequent isLast kept false
  | runsOut : consequent = kept → isLast = true → Ending consequent isLast kept false

theorem ofCase_eq_ok {gate : Gate} {names : List Text} {case : Node} {isLast : Bool}
    {plan : CasePlan} (h : CasePlan.ofCase gate names case isLast = .ok plan) :
    ∃ kept, split gate names kept = .ok (plan.statements, plan.updates) ∧
      Ending (case.childrenAt .consequent) isLast kept plan.continues := by
  unfold CasePlan.ofCase at h
  simp only at h
  split at h
  · cases h
  · next last hlast =>
    have hbody : case.childrenAt .consequent = (case.childrenAt .consequent).dropLast ++ [last] :=
      (List.dropLast_append_getLast? last hlast).symm
    cases hcontinue : isBareContinue last with
    | true =>
      simp only [hcontinue, Bool.true_or, if_true, pure_bind] at h
      obtain ⟨⟨ss, us⟩, hsplit, h⟩ := except_bind_eq_ok.mp h
      cases h
      exact ⟨_, hsplit, .continues hbody hcontinue⟩
    | false =>
      cases hbreak : isBareBreak last with
      | true =>
        simp only [hcontinue, hbreak, Bool.or_true, if_true, pure_bind] at h
        obtain ⟨⟨ss, us⟩, hsplit, h⟩ := except_bind_eq_ok.mp h
        cases h
        exact ⟨_, hsplit, .breaks hbody hbreak⟩
      | false =>
        simp only [hcontinue, hbreak, Bool.or_false, Bool.false_eq_true, if_false] at h
        cases isLast with
        | true =>
          simp only [if_true, pure_bind] at h
          obtain ⟨⟨ss, us⟩, hsplit, h⟩ := except_bind_eq_ok.mp h
          cases h
          exact ⟨_, hsplit, .runsOut rfl rfl⟩
        | false => cases h

end Dispatch

end Untangle
