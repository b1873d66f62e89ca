import Untangle.Proofs.Analysis.Replacement
import Untangle.Proofs.Scoping.Occurrences

set_option autoImplicit false

/-!
# Scopes that stand for those of the tree

An analysis numbers the scopes that it opens and keeps the names of each.  Here the invariant is given
that ties them to the tree: every scope was opened by a node that opens one, and every name is declared
in its scope by some node.  A new scope, a new name, and whatever touches neither keep it.
-/

namespace Untangle

namespace Analysis

variable {root : Node} {a a' a'' : Analysis} {o : Occurrence} {i : SiteId} {k outer inner : ScopeId}
  {around : List Enclosure}

/-! ## Scopes and enclosures -/

/-- A scope that was opened by a node. -/
structure OpenedBy (a : Analysis) (n : Node) (k : ScopeId) : Prop where
  known : k < a.scopes.size
  node : (a.scope k).node = n.id

/-- A scope that stands for the innermost of the scopes around a node, as its parents stand for the
outer ones.  Classes open no scope. -/
inductive Represents (a : Analysis) : List Enclosure → ScopeId → Prop
  | outermost {e : Enclosure} {k : ScopeId} (hopened : OpenedBy a e.opener k)
      (hkind : (a.scope k).kind.isFunction = true) (hparent : (a.scope k).parent = none)
      (hclass : e.opener.form.isClassExpression = false) : Represents a [e] k
  | inner {e : Enclosure} {around : List Enclosure} {k p : ScopeId} (hopened : OpenedBy a e.opener k)
      (hkind : (a.scope k).kind.isFunction = e.opener.form.isFunction)
      (hparent : (a.scope k).parent = some p) (hlt : p < k)
      (hclass : e.opener.form.isClassExpression = false) (houter : Represents a around p) :
      Represents a (e :: around) k
  | unopened {e : Enclosure} {around : List Enclosure} {k : ScopeId}
      (hclass : e.opener.form.isClassExpression = true) (houter : Represents a around k) :
      Represents a (e :: around) k

namespace Represents

theorem ne_nil (h : Represents a around k) : around ≠ [] := by
  cases h <;> exact List.cons_ne_nil _ _

theorem known (h : Represents a around k) : k < a.scopes.size := by
  induction h with
  | outermost hopened _ _ _ => exact hopened.known
  | inner hopened _ _ _ _ _ _ => exact hopened.known
  | unopened _ _ ih => exact ih

theorem lexicalHost (h : Represents a around k) :
    ∃ e, lexicalHost around = some e ∧ OpenedBy a e.opener k := by
  unfold Untangle.lexicalHost
  induction h with
  | outermost hopened _ _ hclass => exact ⟨_, List.find?_cons_of_pos (by rw [hclass]; rfl), hopened⟩
  | inner hopened _ _ _ hclass _ _ => exact ⟨_, List.find?_cons_of_pos (by rw [hclass]; rfl), hopened⟩
  | unopened hclass _ ih => rwa [List.find?_cons_of_neg (by rw [hclass]; exact Bool.false_ne_true)]

theorem functionHost_cons {e : Enclosure} (h : around ≠ []) :
    functionHost (e :: around) =
      if e.opener.form.isFunction then some e else functionHost around := by
  cases around with
  | nil => exact absurd rfl h
  | cons e' around => rw [functionHost]; exact h

theorem functionHost (h : Represents a around k) :
    ∃ e, functionHost around = some e ∧ OpenedBy a e.opener (a.functionScope k) := by
  induction h with
  | @outermost e k hopened hkind _ _ =>
    refine ⟨e, rfl, ?_⟩
    rw [functionScope]
    simp only [hkind, if_true]
    exact hopened
  | @inner e around k p hopened hkind hparent hlt _ houter ih =>
    rw [functionHost_cons houter.ne_nil, functionScope]
    cases hform : e.opener.form.isFunction with
    | true =>
      simp only [hkind, hform, if_true]
      exact ⟨e, rfl, hopened⟩
    | false =>
      simp only [hkind, hform, hparent, hlt, if_true, Bool.false_eq_true, if_false]
      exact ih
  | @unopened e around k hclass houter ih =>
    have hform : e.opener.form.isFunction = false := by
      unfold Form.isClassExpression at hclass
      split at hclass
      · next hform => rw [hform]; rfl
      · cases hclass
    rw [functionHost_cons houter.ne_nil, hform]
    exact ih

/-- The scope in which the names of a declaration are declared. -/
theorem host (h : Represents a around k) (kind : VariableKind) :
    ∃ e, kind.host around = some e ∧
      OpenedBy a e.opener (match kind with | .var => a.functionScope k | _ => k) := by
  cases kind with
  | var => exact h.functionHost
  | lexical => exact h.lexicalHost
  | constant => exact h.lexicalHost

end Represents

/-! ## The invariant of the pass -/

/-- A node of the program that has a scope of the analysis. -/
def HasScope (o : Occurrence) : Prop :=
  o.node.form.opensScope o.parent = true ∧ o.node.form.isClassExpression = false

/-- Whatever was opened or declared was so by a node of the program that opens it or declares it. -/
structure Founded (root : Node) (a : Analysis) : Prop where
  scopes : ∀ k < a.scopes.size, a.opened.get? (a.scope k).node = some k
  opened : ∀ id k, a.opened.get? id = some k → ∃ o, Occurrence.Of root o ∧ o.node.id = id ∧
    HasScope o ∧ ∀ part, Represents a (⟨o.node, part⟩ :: o.around) k
  names : ∀ k name b, (a.scope k).bindings.get? name = some b →
    b < a.bindings.size ∧ (a.binding b).name = name ∧ (a.binding b).scope = k
  bindings : ∀ b < a.bindings.size, ∃ e : Enclosure, e.Binds root (a.binding b).name ∧
    OpenedBy a e.opener (a.binding b).scope ∧
    (a.scope (a.binding b).scope).bindings.get? (a.binding b).name = some b
  declared : ∀ id b, a.declared.get? id = some b → b < a.bindings.size ∧
    ∃ o d e name, Occurrence.Of root o ∧ o.Declares d e name ∧ d.id = id ∧
      OpenedBy a e.opener (a.binding b).scope
  reads : ∀ b, (a.binding b).reads = .empty
  resolved : ∀ id, a.resolved.get? id = none
  writes : ∀ b, ∀ i ∈ (a.binding b).writes.values,
    ∃ o d e name, Occurrence.Of root o ∧ o.Declares d e name ∧ a.At i d.id

/-- Scopes and names that there are stay. -/
structure Widens (a a' : Analysis) : Prop where
  further : Extends a a'
  size : a.scopes.size ≤ a'.scopes.size
  scopes : ∀ k < a.scopes.size, (a'.scope k).node = (a.scope k).node ∧
    (a'.scope k).parent = (a.scope k).parent ∧ (a'.scope k).kind = (a.scope k).kind
  opened : ∀ id k, a.opened.get? id = some k → a'.opened.get? id = some k
  names : ∀ k < a.scopes.size, ∀ name, ((a.scope k).bindings.get? name).isSome →
    ((a'.scope k).bindings.get? name).isSome

theorem Extends.at (h : Extends a a') {id : NodeId} (hi : a.At i id) : a'.At i id := by
  obtain ⟨s, hs, hid⟩ := hi
  exact ⟨s, (h.sites i (Array.getElem?_eq_some_iff.mp hs).1).trans hs, hid⟩

namespace Widens

theorem refl (a : Analysis) : Widens a a :=
  ⟨.refl a, Nat.le_refl _, fun _ _ => ⟨rfl, rfl, rfl⟩, fun _ _ h => h, fun _ _ _ h => h⟩

theorem trans (h : Widens a a') (h' : Widens a' a'') : Widens a a'' := by
  refine ⟨h.further.trans h'.further, Nat.le_trans h.size h'.size, fun k hk => ?_,
    fun id k hk => h'.opened id k (h.opened id k hk), fun k hk name hname =>
      h'.names k (Nat.lt_of_lt_of_le hk h.size) name (h.names k hk name hname)⟩
  obtain ⟨hnode, hparent, hkind⟩ := h.scopes k hk
  obtain ⟨hnode', hparent', hkind'⟩ := h'.scopes k (Nat.lt_of_lt_of_le hk h.size)
  exact ⟨hnode'.trans hnode, hparent'.trans hparent, hkind'.trans hkind⟩

theorem openedBy (h : Widens a a') {n : Node} (hk : OpenedBy a n k) : OpenedBy a' n k :=
  ⟨Nat.lt_of_lt_of_le hk.known h.size, (h.scopes k hk.known).1.trans hk.node⟩

theorem represents (h : Widens a a') (hk : Represents a around k) : Represents a' around k := by
  induction hk with
  | outermost hopened hkind hparent hclass =>
    obtain ⟨-, hparent', hkind'⟩ := h.scopes _ hopened.known
    exact .outermost (h.openedBy hopened) (hkind' ▸ hkind) (hparent'.trans hparent) hclass
  | inner hopened hkind hparent hlt hclass _ ih =>
    obtain ⟨-, hparent', hkind'⟩ := h.scopes _ hopened.known
    exact .inner (h.openedBy hopened) (hkind' ▸ hkind) (hparent'.trans hparent) hlt hclass ih
  | unopened hclass _ ih => exact .unopened hclass ih

end Widens

/-- A step of the pass. -/
structure Onward (root : Node) (a a' : Analysis) : Prop where
  founded : Founded root a'
  widens : Widens a a'

namespace Onward

theorem refl (h : Founded root a) : Onward root a a := ⟨h, .refl a⟩

theorem trans (h : Onward root a a') (h' : Onward root a' a'') : Onward root a a'' :=
  ⟨h'.founded, h.widens.trans h'.widens⟩

/-- One step after the other, each of which has something done that stays done. -/
theorem foldl {γ : Type} {f : Analysis → γ → Analysis} {xs : List γ} (done : γ → Analysis → Prop)
    (h : Founded root a)
    (hf : ∀ a', Onward root a a' → ∀ x ∈ xs, Onward root a' (f a' x) ∧ done x (f a' x))
    (hdone : ∀ x b b', Widens b b' → done x b → done x b') :
    Onward root a (xs.foldl f a) ∧ ∀ x ∈ xs, done x (xs.foldl f a) := by
  induction xs generalizing a with
  | nil => exact ⟨.refl h, fun _ h => (List.not_mem_nil h).elim⟩
  | cons x xs ih =>
    obtain ⟨hstep, hx⟩ := hf a (.refl h) x List.mem_cons_self
    obtain ⟨hrest, hxs⟩ := ih hstep.founded fun a' ha' y hy =>
      hf a' (hstep.trans ha') y (List.mem_cons_of_mem x hy)
    refine ⟨hstep.trans hrest, fun y hy => ?_⟩
    obtain rfl | hy := List.mem_cons.mp hy
    · exact hdone y _ _ hrest.widens hx
    · exact hxs y hy

end Onward

/-! ## What opens no scope -/

/-- A site at which a node stands that declares a name. -/
def Declarer (root : Node) (a : Analysis) (i : SiteId) : Prop :=
  ∃ o d e name, Occurrence.Of root o ∧ o.Declares d e name ∧ a.At i d.id

/-- A name is declared in the scope that a node opened. -/
def Holds (a : Analysis) (n : Node) (name : Text) : Prop :=
  ∃ k, OpenedBy a n k ∧ ((a.scope k).bindings.get? name).isSome

theorem Widens.holds (h : Widens a a') {n : Node} {name : Text} (hn : Holds a n name) :
    Holds a' n name := by
  obtain ⟨k, hk, hname⟩ := hn
  exact ⟨k, h.openedBy hk, h.names k hk.known name hname⟩

/-- Scopes, names and declarations stay, and only declarations are recorded. -/
theorem onward_of_same (h : Founded root a) (hfurther : Extends a a') (hscopes : a'.scopes = a.scopes)
    (hopened : a'.opened = a.opened) (hdeclared : a'.declared = a.declared)
    (hresolved : a'.resolved = a.resolved) (hsize : a'.bindings.size = a.bindings.size)
    (hsame : ∀ b, (a'.binding b).name = (a.binding b).name ∧ (a'.binding b).scope = (a.binding b).scope ∧
      (a'.binding b).reads = (a.binding b).reads)
    (hwrites : ∀ b, ∀ i ∈ (a'.binding b).writes.values,
      i ∈ (a.binding b).writes.values ∨ Declarer root a i) : Onward root a a' := by
  have hscope : ∀ k, a'.scope k = a.scope k := fun k => by rw [scope, hscopes, scope]
  have hwidens : Widens a a' := by
    refine ⟨hfurther, hscopes ▸ Nat.le_refl _, fun k _ => ?_, fun _ _ hk => hopened ▸ hk,
      fun k _ _ hname => ?_⟩
    · rw [hscope]
      exact ⟨rfl, rfl, rfl⟩
    · rwa [hscope]
  refine ⟨⟨fun k hk => ?_, fun id k hk => ?_, fun k name b hb => ?_, fun b hb => ?_,
    fun id b hb => ?_, fun b => (hsame b).2.2.trans (h.reads b), hresolved ▸ h.resolved,
    fun b i hi => ?_⟩, hwidens⟩
  · rw [hopened, hscope]
    exact h.scopes k (hscopes ▸ hk)
  · rw [hopened] at hk
    obtain ⟨o, ho, hid, hhas, hrep⟩ := h.opened id k hk
    exact ⟨o, ho, hid, hhas, fun part => hwidens.represents (hrep part)⟩
  · rw [hscope] at hb
    rw [hsize, (hsame b).1, (hsame b).2.1]
    exact h.names k name b hb
  · obtain ⟨e, hbinds, hk, hb⟩ := h.bindings b (hsize ▸ hb)
    rw [(hsame b).1, (hsame b).2.1, hscope]
    exact ⟨e, hbinds, hwidens.openedBy hk, hb⟩
  · rw [hdeclared] at hb
    obtain ⟨hlt, o, d, e, name, ho, hd, hid, hk⟩ := h.declared id b hb
    rw [hsize, (hsame b).2.1]
    exact ⟨hlt, o, d, e, name, ho, hd, hid, hwidens.openedBy hk⟩
  · have hat : Declarer root a i := (hwrites b i hi).elim (h.writes b i) id
    obtain ⟨o, d, e, name, ho, hd, hi⟩ := hat
    exact ⟨o, d, e, name, ho, hd, hfurther.at hi⟩

theorem onward_addSite (h : Founded root a) (s : Site) : Onward root a (a.addSite s).2 :=
  onward_of_same h (extends_addSite a s) rfl rfl rfl rfl rfl (fun _ => ⟨rfl, rfl, rfl⟩) fun _ _ hi => .inl hi

theorem onward_modifyBinding {f : Binding → Binding} {b : BindingId} (h : Founded root a)
    (hsame : ∀ x, (f x).name = x.name ∧ (f x).scope = x.scope ∧ (f x).reads = x.reads)
    (hwrites : ∀ x, ∀ i ∈ (f x).writes.values, i ∈ x.writes.values ∨ Declarer root a i) :
    Onward root a (a.modifyBinding b f) := by
  refine onward_of_same h (.of_eq rfl rfl rfl) rfl rfl rfl rfl (Array.size_modify ..) (fun b' => ?_)
    fun b' i hi => ?_
  · obtain heq | heq := binding_modifyBinding a b b' f
    · rw [heq]
      exact hsame _
    · rw [heq]
      exact ⟨rfl, rfl, rfl⟩
  · obtain heq | heq := binding_modifyBinding a b b' f
    · exact hwrites _ i (heq ▸ hi)
    · exact .inl (heq ▸ hi)

theorem onward_addWrite (h : Founded root a) (hi : Declarer root a i) (b : BindingId) :
    Onward root a (a.addWrite b i) := by
  refine onward_modifyBinding h (fun _ => ⟨rfl, rfl, rfl⟩) fun x j hj => ?_
  obtain rfl | hj := Dict.mem_values_put hj
  · exact .inr hi
  · exact .inl hj

theorem scope_modifyScope (a : Analysis) {k : ScopeId} (hk : k < a.scopes.size) (f : Scope → Scope)
    (j : ScopeId) : (a.modifyScope k f).scope j = if k = j then f (a.scope j) else a.scope j := by
  simp only [scope, modifyScope, Array.getD_eq_getD_getElem?, Array.getElem?_modify]
  split
  · next heq =>
    subst heq
    rw [Array.getElem?_eq_getElem hk]
    rfl
  · rfl

/-- The analysis with a new name in a scope. -/
def withName (a : Analysis) (k : ScopeId) (kind : BindingKind) (i : SiteId) (name : Text) : Analysis :=
  { a with
    bindings := a.bindings.push ⟨name, kind, i, k, .empty, .empty⟩
    declared := a.declared.put (a.site i).node a.bindings.size
  : Analysis }.modifyScope k fun s => { s with bindings := s.bindings.put name a.bindings.size }

section NewName

variable {kind : BindingKind} {name : Text}

theorem binding_withName (b : BindingId) :
    (a.withName k kind i name).binding b =
      if b = a.bindings.size then ⟨name, kind, i, k, .empty, .empty⟩ else a.binding b := by
  simp only [binding, withName, modifyScope, Array.getD_eq_getD_getElem?, Array.getElem?_push]
  split <;> rfl

theorem binding_withName_of_lt {b : BindingId} (hb : b < a.bindings.size) :
    (a.withName k kind i name).binding b = a.binding b := by
  rw [binding_withName, if_neg (Nat.ne_of_lt hb)]

theorem binding_withName_self :
    (a.withName k kind i name).binding a.bindings.size = ⟨name, kind, i, k, .empty, .empty⟩ := by
  rw [binding_withName, if_pos rfl]

theorem size_withName : (a.withName k kind i name).bindings.size = a.bindings.size + 1 :=
  Array.size_push ..

theorem scope_withName (hk : k < a.scopes.size) (j : ScopeId) :
    (a.withName k kind i name).scope j =
      if k = j then { a.scope j with bindings := (a.scope j).bindings.put name a.bindings.size }
      else a.scope j :=
  scope_modifyScope _ hk _ j

/-- The new name has the new binding in its scope, and no other name another one. -/
theorem get?_withName (hk : k < a.scopes.size) (j : ScopeId) (name' : Text) :
    ((a.withName k kind i name).scope j).bindings.get? name' =
      if k = j ∧ name' = name then some a.bindings.size else (a.scope j).bindings.get? name' := by
  rw [scope_withName hk]
  by_cases hj : k = j
  · by_cases hname : name' = name
    · rw [if_pos hj, if_pos ⟨hj, hname⟩, hname]
      exact Dict.get?_put_self ..
    · rw [if_pos hj, if_neg fun h => hname h.2]
      exact Dict.get?_put_of_ne _ hname _
  · rw [if_neg hj, if_neg fun h => hj h.1]

theorem declared_withName (id : NodeId) :
    (a.withName k kind i name).declared.get? id =
      if id = (a.site i).node then some a.bindings.size else a.declared.get? id := by
  split
  · next h => exact h ▸ Dict.get?_put_self ..
  · next h => exact Dict.get?_put_of_ne a.declared h _

theorem widens_withName (hk : k < a.scopes.size) : Widens a (a.withName k kind i name) := by
  refine ⟨.of_eq rfl rfl rfl, Nat.le_of_eq (Array.size_modify ..).symm, fun j _ => ?_,
    fun _ _ h => h, fun j _ name' hname => ?_⟩
  · rw [scope_withName hk]
    split <;> exact ⟨rfl, rfl, rfl⟩
  · rw [get?_withName hk]
    split
    · rfl
    · exact hname

/-- What was bound is bound as it was, the new name in the scope that did not have it. -/
theorem Founded.names_withName (h : Founded root a) (hk : k < a.scopes.size) {j : ScopeId}
    {name' : Text} {b : BindingId}
    (hb : ((a.withName k kind i name).scope j).bindings.get? name' = some b) :
    b < (a.withName k kind i name).bindings.size ∧
      ((a.withName k kind i name).binding b).name = name' ∧
      ((a.withName k kind i name).binding b).scope = j := by
  rw [get?_withName hk] at hb
  rw [size_withName]
  split at hb
  · next hnew =>
    obtain rfl := Option.some.inj hb
    rw [binding_withName_self]
    exact ⟨Nat.lt_succ_self _, hnew.2.symm, hnew.1⟩
  · obtain ⟨hlt, hname, hscope⟩ := h.names j name' b hb
    rw [binding_withName_of_lt hlt]
    exact ⟨Nat.lt_succ_of_lt hlt, hname, hscope⟩

/-- A name that a scope did not have. -/
theorem onward_withName {d : Node} {e : Enclosure} (h : Founded root a) (ho : Occurrence.Of root o)
    (hd : o.Declares d e name) (hat : a.At i d.id) (hk : OpenedBy a e.opener k)
    (hnone : (a.scope k).bindings.get? name = none) : Onward root a (a.withName k kind i name) := by
  have hwidens : Widens a (a.withName k kind i name) := widens_withName hk.known
  refine ⟨⟨fun j hj => ?_, fun id j hj => ?_, fun j name' b hb => h.names_withName hk.known hb,
    fun b hb => ?_, fun id b hb => ?_, fun b => ?_, h.resolved, fun b j hj => ?_⟩, hwidens⟩
  · have hj' : j < a.scopes.size := by
      rwa [withName, modifyScope, Array.size_modify] at hj
    rw [(hwidens.scopes j hj').1]
    exact h.scopes j hj'
  · obtain ⟨o, ho, hid, hhas, hrep⟩ := h.opened id j hj
    exact ⟨o, ho, hid, hhas, fun part => hwidens.represents (hrep part)⟩
  · rw [size_withName] at hb
    obtain hb | rfl := Nat.lt_succ_iff_lt_or_eq.mp hb
    · obtain ⟨e', hbinds, hopened, hname⟩ := h.bindings b hb
      have hother : ¬ (k = (a.binding b).scope ∧ (a.binding b).name = name) := by
        rintro ⟨hscope, heq⟩
        rw [← hscope, heq, hnone] at hname
        cases hname
      rw [binding_withName_of_lt hb, get?_withName hk.known, if_neg hother]
      exact ⟨e', hbinds, hwidens.openedBy hopened, hname⟩
    · rw [binding_withName_self, get?_withName hk.known, if_pos ⟨rfl, rfl⟩]
      exact ⟨e, ⟨o, d, ho, hd⟩, hwidens.openedBy hk, rfl⟩
  · rw [declared_withName] at hb
    rw [size_withName]
    split at hb
    · next hid =>
      obtain rfl := Option.some.inj hb
      rw [binding_withName_self]
      exact ⟨Nat.lt_succ_self _, o, d, e, name, ho, hd, (hid.trans hat.node_eq).symm, hwidens.openedBy hk⟩
    · obtain ⟨hlt, o', d', e', name', ho', hd', hid, hopened⟩ := h.declared id b hb
      rw [binding_withName_of_lt hlt]
      exact ⟨Nat.lt_succ_of_lt hlt, o', d', e', name', ho', hd', hid, hwidens.openedBy hopened⟩
  · rw [binding_withName]
    split
    · rfl
    · exact h.reads b
  · rw [binding_withName] at hj
    split at hj
    · cases hj
    · exact h.writes b j hj

end NewName

/-! ## Opened scopes -/

theorem scopeKind?_isSome (f p : Form) :
    (scopeKind? f (some p)).isSome = (f.opensScope (some p) && !f.isClassExpression) := by
  cases f with
  | blockStatement => cases p <;> rfl
  | _ => rfl

theorem isFunction_of_scopeKind? {f : Form} {parent : Option Form} {kind : ScopeKind}
    (h : scopeKind? f parent = some kind) : kind.isFunction = f.isFunction := by
  unfold scopeKind? at h
  split at h
  case h_4 =>
    split at h
    all_goals first
      | cases h; rfl
      | cases h
  all_goals first
    | cases h; rfl
    | cases h

section NewScope

variable {kind : ScopeKind} {id : NodeId}

theorem scope_openScope_new (kind : ScopeKind) (id : NodeId) (houter : outer < a.scopes.size) :
    (a.openScope kind id outer).2.scope a.scopes.size = ⟨kind, id, some outer, .empty, []⟩ := by
  have hne : outer ≠ a.scopes.size := Nat.ne_of_lt houter
  simp only [scope, openScope, modifyScope, Array.getD_eq_getD_getElem?, Array.getElem?_modify,
    if_neg hne, Array.getElem?_push_size, Option.getD_some]

theorem scope_openScope_old (kind : ScopeKind) (id : NodeId) (outer : ScopeId) {j : ScopeId}
    (hj : j ≠ a.scopes.size) :
    ∃ children, (a.openScope kind id outer).2.scope j = { a.scope j with children := children } := by
  simp only [scope, openScope, modifyScope, Array.getD_eq_getD_getElem?, Array.getElem?_modify,
    Array.getElem?_push, if_neg hj]
  split
  · cases a.scopes[j]? with
    | none => exact ⟨_, rfl⟩
    | some s => exact ⟨s.children ++ [a.scopes.size], rfl⟩
  · exact ⟨_, rfl⟩

theorem size_openScope : (a.openScope kind id outer).2.scopes.size = a.scopes.size + 1 := by
  simp [openScope, modifyScope]

theorem widens_openScope (hfresh : a.opened.get? id = none) :
    Widens a (a.openScope kind id outer).2 := by
  refine ⟨.of_eq rfl rfl rfl, Nat.le_of_lt (Nat.lt_of_lt_of_eq (Nat.lt_succ_self _) size_openScope.symm),
    fun k hk => ?_, fun id' k hk => ?_, fun k hk name hname => ?_⟩
  · obtain ⟨children, hscope⟩ := scope_openScope_old kind id outer (Nat.ne_of_lt hk)
    rw [hscope]
    exact ⟨rfl, rfl, rfl⟩
  · have hne : id' ≠ id := by
      rintro rfl
      cases hfresh.symm.trans hk
    exact (Dict.get?_put_of_ne a.opened hne _).trans hk
  · obtain ⟨children, hscope⟩ := scope_openScope_old kind id outer (Nat.ne_of_lt hk)
    rwa [hscope]

/-- A scope that was not open. -/
theorem onward_openScope (h : Founded root a) (ho : Occurrence.Of root o) (hhas : HasScope o)
    (hrep : Represents a o.around outer) (hfresh : a.opened.get? o.node.id = none)
    (hkind : kind.isFunction = o.node.form.isFunction) :
    Onward root a (a.openScope kind o.node.id outer).2 ∧
      ∀ part, Represents (a.openScope kind o.node.id outer).2 (⟨o.node, part⟩ :: o.around)
        a.scopes.size := by
  have hwidens : Widens a (a.openScope kind o.node.id outer).2 := widens_openScope hfresh
  have hnew := scope_openScope_new kind o.node.id hrep.known
  have hput : (a.openScope kind o.node.id outer).2.opened.get? o.node.id = some a.scopes.size :=
    Dict.get?_put_self ..
  have hold : ∀ {j}, j < a.scopes.size → (a.openScope kind o.node.id outer).2.scope j =
      { a.scope j with children := ((a.openScope kind o.node.id outer).2.scope j).children } := by
    intro j hj
    obtain ⟨children, hscope⟩ := scope_openScope_old kind o.node.id outer (Nat.ne_of_lt hj)
    rw [hscope]
  have hlt : a.scopes.size < (a.openScope kind o.node.id outer).2.scopes.size := by
    rw [size_openScope]
    exact Nat.lt_succ_self _
  have hopened : ∀ part, Represents (a.openScope kind o.node.id outer).2 (⟨o.node, part⟩ :: o.around)
      a.scopes.size := by
    intro part
    refine .inner ⟨hlt, ?_⟩ ?_ ?_ hrep.known hhas.2 (hwidens.represents hrep)
    · rw [hnew]
    · rw [hnew]
      exact hkind
    · rw [hnew]
  refine ⟨⟨⟨fun j hj => ?_, fun id j hj => ?_, fun j name b hb => ?_, fun b hb => ?_,
    fun id b hb => ?_, h.reads, h.resolved, fun b j hj => h.writes b j hj⟩, hwidens⟩, hopened⟩
  · rw [size_openScope] at hj
    obtain hj | rfl := Nat.lt_succ_iff_lt_or_eq.mp hj
    · rw [(hwidens.scopes j hj).1]
      exact hwidens.opened _ _ (h.scopes j hj)
    · rw [hnew]
      exact hput
  · by_cases heq : id = o.node.id
    · subst heq
      cases hj.symm.trans hput
      exact ⟨o, ho, rfl, hhas, hopened⟩
    · have hj' : a.opened.get? id = some j := (Dict.get?_put_of_ne a.opened heq _).symm.trans hj
      obtain ⟨o', ho', hid, hhas', hrep'⟩ := h.opened id j hj'
      exact ⟨o', ho', hid, hhas', fun part => hwidens.represents (hrep' part)⟩
  · by_cases heq : j = a.scopes.size
    · subst heq
      rw [hnew] at hb
      cases hb
    · obtain ⟨children, hscope⟩ := scope_openScope_old kind o.node.id outer heq
      rw [hscope] at hb
      exact h.names j name b hb
  · obtain ⟨e, hbinds, hk, hget⟩ := h.bindings b hb
    refine ⟨e, hbinds, hwidens.openedBy hk, ?_⟩
    show ((a.openScope kind o.node.id outer).2.scope (a.binding b).scope).bindings.get? _ = _
    rw [hold hk.known]
    exact hget
  · obtain ⟨hb', o', d, e, name, ho', hd, hid, hk⟩ := h.declared id b hb
    exact ⟨hb', o', d, e, name, ho', hd, hid, hwidens.openedBy hk⟩

end NewScope

/-- The scopes in which the children of a node are evaluated are those that stand for the scopes around
them. -/
def Houses (a : Analysis) (o : Occurrence) (outer inner : ScopeId) : Prop :=
  ∀ r, Represents a (o.aroundAt r) (childScope o.node.form r outer inner)

theorem Widens.houses (h : Widens a a') (hk : Houses a o outer inner) : Houses a' o outer inner :=
  fun r => h.represents (hk r)

/-- A node of a form that can stand below others: with the form of its parent. -/
theorem houses_of (hrep : Represents a o.around outer)
    (hopened : HasScope o → ∀ part, Represents a (⟨o.node, part⟩ :: o.around) inner)
    (hnone : ¬ HasScope o → inner = outer) : Houses a o outer inner := by
  intro r
  have hinner : o.node.form.opensScope o.parent = true →
      Represents a (⟨o.node, o.node.form.partAt r⟩ :: o.around) inner := by
    intro hopens
    by_cases hclass : o.node.form.isClassExpression = true
    · rw [hnone fun hhas => absurd hhas.2 (by rw [hclass]; exact Bool.noConfusion)]
      exact .unopened hclass hrep
    · exact hopened ⟨hopens, by simpa using hclass⟩ _
  have houter : o.node.form.opensScope o.parent = false → inner = outer := fun hopens =>
    hnone fun hhas => absurd hhas.1 (by rw [hopens]; exact Bool.noConfusion)
  by_cases hname : (∃ flags, o.node.form = .functionDeclaration flags) ∧ r = .id
  · obtain ⟨⟨flags, hform⟩, rfl⟩ := hname
    unfold Occurrence.aroundAt childScope
    rw [hform]
    exact hrep
  · have hscope : childScope o.node.form r outer inner = inner := by
      unfold childScope
      split
      · next flags hform => exact absurd ⟨⟨flags, hform⟩, rfl⟩ hname
      · rfl
    rw [hscope]
    unfold Occurrence.aroundAt
    split
    · next flags hform => exact absurd ⟨⟨flags, hform⟩, rfl⟩ hname
    · split
      · next hopens => exact hinner hopens
      · next hopens =>
        rw [houter (by simpa using hopens)]
        exact hrep

end Analysis

end Untangle
