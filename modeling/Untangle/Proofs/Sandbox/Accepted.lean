import Untangle.Proofs.Tree.Grammar
import Untangle.Sandbox.Registry

set_option autoImplicit false

/-!
# Accepted code

A well-formed tree that the sandbox has nothing against consists of nodes that the sandbox knows, each of
them where it belongs: expressions are evaluated, statements are executed, and what is declared, assigned
or caught has a name.  One kind of node passes the check and is evaluated nowhere: the spread of an object
inside of an object literal, which is let through as if it stood in a list.
-/

namespace Untangle

open Sandbox

namespace Node

/-- The functions of a tree stand in some trees as they stand in it, if they do at all. -/
def Current (trees : List Node) (n : Node) : Prop :=
  ∀ d : Node, d.Inside n → d.form.isFunction = true → d.present trees = d

/-- Well-formed code that the sandbox has nothing against, as it stands in some trees. -/
structure Validated (trees : List Node) (n : Node) : Prop where
  wellFormed : n.WellFormed
  valid : validate n = none
  current : n.Current trees

/-- An object literal of the code spreads an object. -/
def SpreadsObject (n : Node) : Prop :=
  ∃ d p : Node, d.Inside n ∧ d.form = .objectExpression ∧ p ∈ d.children ∧ p.form = .spread

/-- Code all of whose nodes are what the grammar has in their slots, and nothing that the sandbox
refuses; its object literals spread objects only where that is known. -/
structure Accepted (trees : List Node) (spreads : Prop) (n : Node) : Prop where
  regular : ∀ d : Node, d.Inside n → d.isRegular = true
  passed : ∀ d : Node, d.Inside n → d.form.isHole = false → objection d = none
  current : n.Current trees
  spread : n.SpreadsObject → spreads

variable {trees : List Node} {spreads : Prop} {c n : Node}

/-- A part of trees whose identities are distinct stands in them as it is. -/
theorem current_of_inside {root : Node} (hdistinct : (identitiesAll trees).Nodup)
    (hroot : root ∈ trees) (hn : n.Inside root) : n.Current trees :=
  fun _ hd _ => present_eq_self hdistinct hroot (hd.trans hn)

/-- No node of a tree that was validated is one that the sandbox refuses. -/
theorem Validated.accepted (hn : n.Validated trees) (hspread : n.SpreadsObject → spreads) :
    n.Accepted trees spreads where
  regular := hn.wellFormed.regular
  passed d hd hhole :=
    List.findSome?_eq_none_iff.mp hn.valid d (mem_walk_of_inside hn.wellFormed.regular hd hhole)
  current := hn.current
  spread := hspread

namespace Accepted

theorem child (h : n.Accepted trees spreads) (hc : c ∈ n.children) : c.Accepted trees spreads where
  regular d hd := h.regular d (hd.trans (.child hc))
  passed d hd := h.passed d (hd.trans (.child hc))
  current d hd := h.current d (hd.trans (.child hc))
  spread := fun ⟨d, p, hd, hp⟩ => h.spread ⟨d, p, hd.trans (.child hc), hp⟩

/-- Accepted code is accepted in every slot, if nothing else stands in its place there. -/
theorem inRole (h : n.Accepted trees spreads) {r : Role}
    (hpresent : (n.inRole r).present trees = n.inRole r) : (n.inRole r).Accepted trees spreads where
  regular d hd := by
    obtain rfl | hd := inside_inRole hd
    · have hself := h.regular n (.self n)
      cases n
      exact hself
    · exact h.regular d hd
  passed d hd hhole := by
    obtain rfl | hd := inside_inRole hd
    · have hself := h.passed n (.self n)
      cases n
      exact hself hhole
    · exact h.passed d hd hhole
  current d hd hfunction := by
    obtain rfl | hd := inside_inRole hd
    · exact hpresent
    · exact h.current d hd hfunction
  spread := fun ⟨d, p, hd, hform, hp⟩ => h.spread <| by
    obtain rfl | hd := inside_inRole hd
    · rw [form_inRole] at hform
      exact ⟨n, p, .self n, hform, children_inRole n r ▸ hp⟩
    · exact ⟨d, p, hd, hform, hp⟩

/-- A part is what the grammar has in its slot. -/
theorem fits (h : n.Accepted trees spreads) (hc : c ∈ n.children) :
    c.fits (n.form.category c.role) = true :=
  fits_of_isRegular (h.regular n (.self n)) hc

theorem objection_eq_none (h : n.Accepted trees spreads) (hhole : n.form.isHole = false) :
    objection n = none := h.passed n (.self n) hhole

end Accepted

/-! ## Forms -/

/-- The sandbox refuses all forms but those that it evaluates or executes and those of parts. -/
theorem known_of_objection (h : objection n = none) :
    evaluates n.form = true ∨ executes n.form = true ∨ isAuxiliary n.form = true := by
  unfold objection at h
  split at h
  · next hform => exact .inr (.inl (by rw [hform]; rfl))
  · next hform => exact .inl (by rw [hform]; rfl)
  · next hform => exact .inl (by rw [hform]; rfl)
  · cases h
  · next hform => exact .inr (.inl (by rw [hform]; rfl))
  · next hform => exact .inr (.inl (by rw [hform]; rfl))
  · split at h
    · next hknown =>
      rw [Bool.or_eq_true, Bool.or_eq_true] at hknown
      exact or_assoc.mp hknown
    · cases h

/-- An expression is of a form that the sandbox evaluates, unless it is of one that it refuses. -/
theorem evaluates_of_isExpression {f : Form} (hf : f.isExpression = true)
    (hknown : evaluates f = true ∨ executes f = true ∨ isAuxiliary f = true) :
    evaluates f = true := by
  obtain h | h | h := hknown
  · exact h
  · unfold executes at h
    split at h
    all_goals first
      | cases hf
      | cases h
  · unfold isAuxiliary at h
    split at h
    all_goals first
      | cases hf
      | cases h

/-- A statement is of a form that the sandbox executes, unless it is of one that it refuses. -/
theorem executes_of_isStatementLike {f : Form} (hf : f.isStatementLike = true)
    (hknown : evaluates f = true ∨ executes f = true ∨ isAuxiliary f = true) :
    executes f = true := by
  obtain h | h | h := hknown
  · unfold evaluates at h
    split at h
    all_goals first
      | cases hf
      | cases h
  · exact h
  · unfold isAuxiliary at h
    split at h
    all_goals first
      | cases hf
      | cases h

namespace Accepted

theorem evaluates (h : n.Accepted trees spreads) (hn : n.form.isExpression = true) :
    evaluates n.form = true := by
  refine evaluates_of_isExpression hn (known_of_objection (h.objection_eq_none ?_))
  cases hform : n.form with
  | hole =>
    rw [hform] at hn
    cases hn
  | _ => rfl

theorem executes (h : n.Accepted trees spreads) (hn : n.form.isStatementLike = true) :
    executes n.form = true := by
  refine executes_of_isStatementLike hn (known_of_objection (h.objection_eq_none ?_))
  cases hform : n.form with
  | hole =>
    rw [hform] at hn
    cases hn
  | _ => rfl

/-- The sandbox refuses patterns. -/
theorem isPattern_eq_false (h : n.Accepted trees spreads) : n.form.isPattern = false := by
  cases hform : n.form with
  | arrayPattern | objectPattern =>
    have hnone := h.objection_eq_none (by rw [hform]; rfl)
    unfold objection at hnone
    rw [hform] at hnone
    cases hnone
  | _ => rfl

/-- What is declared has a name. -/
theorem exists_name (h : n.Accepted trees spreads) (hn : n.form.isBinding = true) :
    ∃ name, n.form = .identifier name := by
  cases hform : n.form with
  | identifier name => exact ⟨name, rfl⟩
  | arrayPattern | objectPattern =>
    have hpattern := h.isPattern_eq_false
    rw [hform] at hpattern
    cases hpattern
  | _ =>
    rw [hform] at hn
    cases hn

theorem name?_ne_none (h : n.Accepted trees spreads) (hn : n.form.isBinding = true) : n.name? ≠ none := by
  obtain ⟨name, hform⟩ := h.exists_name hn
  simp [name?, hform]

/-- What is assigned to is a variable or a member. -/
theorem isReference (h : n.Accepted trees spreads) (hn : n.fits .target = true) :
    n.form.isReference = true :=
  (Bool.or_eq_true_iff.mp hn).resolve_right (by rw [h.isPattern_eq_false]; exact Bool.false_ne_true)

/-- A function is not one that can stop and go on. -/
theorem not_suspending (h : n.Accepted trees spreads) {flags : FunctionFlags}
    (hform : n.form = .functionDeclaration flags ∨ n.form = .functionExpression flags ∨
      n.form = .arrowFunction flags) : (flags.generator || flags.isAsync) = false := by
  have hhole : n.form.isHole = false := by
    obtain heq | heq | heq := hform
    all_goals
      rw [heq]
      rfl
  have hnone := h.objection_eq_none hhole
  unfold objection at hnone
  obtain heq | heq | heq := hform
  all_goals
    rw [heq] at hnone
    cases hflags : flags.generator || flags.isAsync with
    | false => rfl
    | true =>
      simp only [hflags, if_true] at hnone
      cases hnone

/-- No literal is a regular expression. -/
theorem not_regex (h : n.Accepted trees spreads) (pattern flags : Text) :
    n.form ≠ .literal (.regex pattern flags) := by
  intro hform
  have hnone := h.objection_eq_none (by rw [hform]; rfl)
  unfold objection at hnone
  rw [hform] at hnone
  cases hnone

/-- Jumps have no labels. -/
theorem child?_label (h : n.Accepted trees spreads)
    (hform : n.form = .breakStatement ∨ n.form = .continueStatement) : n.child? .label = none := by
  have hhole : n.form.isHole = false := by
    obtain heq | heq := hform
    all_goals
      rw [heq]
      rfl
  have hnone := h.objection_eq_none hhole
  unfold objection at hnone
  obtain heq | heq := hform
  all_goals
    rw [heq] at hnone
    cases hlabel : n.child? .label with
    | none => rfl
    | some label =>
      simp only [hlabel, Option.isSome_some, if_true] at hnone
      cases hnone

end Accepted

end Node

end Untangle
