import Mathlib.Data.List.Sort
import Untangle.Proofs.Scoping.Recording

set_option autoImplicit false

/-!
# The tree of scopes

A scope gets its number when the first pass comes to the node that opens it, and it is entered among the
scopes of its parent.  Since the pass is through with the scopes inside of one before it opens the next
one beside it, the parent of a new scope is always around the scope that was opened last.  This alone is
the invariant: from it follow the order in which a walk comes to the scopes, and that whoever goes outwards
from one of them arrives.

The main theorem is `scopeTree_ofProgram`, for scripts in which names stand where the grammar has names.
-/

namespace Untangle

/-- Whether the name of a declared function is an identifier.  It stands in the scope around the function,
so that nothing in it may open a scope there after that of the function. -/
def Node.hasPlainName (n : Node) : Bool :=
  match n.form with
  | .functionDeclaration _ =>
    (n.childrenAt .id).all fun c => (c.form matches .identifier _) && c.children.isEmpty
  | _ => true

/-- Whether names of a kind belong to the function around their declaration. -/
def BindingKind.isOfFunction : BindingKind → Bool
  | .variable .var | .param | .ownName => true
  | _ => false

namespace Analysis

variable {root : Node} {a a' a'' : Analysis} {i : SiteId} {j k p outer inner : ScopeId} {b : BindingId}
  {name : Text} {kind : BindingKind} {ids ids' : List NodeId}

/-! ## Scopes around scopes -/

/-- A scope is around another one, or it is this one. -/
inductive Surrounds (a : Analysis) (j : ScopeId) : ScopeId → Prop
  | self : Surrounds a j j
  | outward {p k : ScopeId} (hparent : (a.scope k).parent = some p) (houter : Surrounds a j p) :
      Surrounds a j k

namespace Surrounds

theorem trans (h : Surrounds a j p) (h' : Surrounds a p k) : Surrounds a j k := by
  induction h' with
  | self => exact h
  | outward hparent _ ih => exact .outward hparent ih

/-- What is inside of a scope is inside of one of its children. -/
theorem exists_child (h : Surrounds a j k) :
    k = j ∨ ∃ c, (a.scope c).parent = some j ∧ Surrounds a c k := by
  induction h with
  | self => exact .inl rfl
  | outward hparent _ ih =>
    rcases ih with rfl | ⟨c, hc, hinside⟩
    · exact .inr ⟨_, hparent, .self⟩
    · exact .inr ⟨c, hc, .outward hparent hinside⟩

end Surrounds

/-! ## The invariant -/

/-- A scope in which names of a kind may be declared. -/
def Hosts (a : Analysis) (k : ScopeId) (kind : BindingKind) : Prop :=
  k < a.scopes.size ∧ (kind.isOfFunction = true → (a.scope k).kind.isFunction = true)

/-- The parent of each scope but the outermost is around the scope that was opened before it, the children
of a scope are those that have it as their parent, and each name stands in a scope for its kind. -/
structure Nested (a : Analysis) : Prop where
  known : 0 < a.scopes.size
  outermost : (a.scope 0).parent = none
  program : (a.scope 0).kind = .program
  parents : ∀ k, k + 1 < a.scopes.size → ∃ p, (a.scope (k + 1)).parent = some p ∧ Surrounds a p k
  children : ∀ p < a.scopes.size, (a.scope p).children =
    (List.range a.scopes.size).filter fun k => (a.scope k).parent == some p
  bindings : ∀ b < a.bindings.size, Hosts a (a.binding b).scope (a.binding b).kind

/-- The scope that was opened last is in a given one, or is this one. -/
def Current (a : Analysis) (k : ScopeId) : Prop :=
  k < a.scopes.size ∧ Surrounds a k (a.scopes.size - 1)

namespace Nested

theorem le_of_surrounds (h : Nested a) (hk : k < a.scopes.size) (hjk : Surrounds a j k) : j ≤ k := by
  induction k using Nat.strongRecOn generalizing j with
  | ind k ih =>
    cases hjk with
    | self => exact Nat.le_refl _
    | @outward p _ hparent houter =>
      cases k with
      | zero => cases h.outermost.symm.trans hparent
      | succ k =>
        obtain ⟨q, hq, hqk⟩ := h.parents k hk
        cases hq.symm.trans hparent
        have hpk : p ≤ k := ih k (Nat.lt_succ_self k) (Nat.lt_of_succ_lt hk) hqk
        have hjp : j ≤ p :=
          ih p (Nat.lt_succ_of_le hpk) (Nat.lt_of_le_of_lt hpk (Nat.lt_of_succ_lt hk)) houter
        exact Nat.le_succ_of_le (Nat.le_trans hjp hpk)

theorem parent_lt (h : Nested a) (hk : k < a.scopes.size) (hparent : (a.scope k).parent = some p) :
    p < k := by
  cases k with
  | zero => cases h.outermost.symm.trans hparent
  | succ k =>
    obtain ⟨q, hq, hqk⟩ := h.parents k hk
    cases hq.symm.trans hparent
    exact Nat.lt_succ_of_le (h.le_of_surrounds (Nat.lt_of_succ_lt hk) hqk)

theorem exists_parent (h : Nested a) (hk : k < a.scopes.size) (hpos : 0 < k) :
    ∃ p, p < k ∧ (a.scope k).parent = some p := by
  cases k with
  | zero => cases hpos
  | succ k =>
    obtain ⟨p, hp, -⟩ := h.parents k hk
    exact ⟨p, h.parent_lt hk hp, hp⟩

theorem mem_children (h : Nested a) (hp : p < a.scopes.size) :
    k ∈ (a.scope p).children ↔ k < a.scopes.size ∧ (a.scope k).parent = some p := by
  rw [h.children p hp, List.mem_filter, List.mem_range, beq_iff_eq]

/-- All scopes are inside of the outermost one. -/
theorem surrounds_zero (h : Nested a) (hk : k < a.scopes.size) : Surrounds a 0 k := by
  induction k using Nat.strongRecOn with
  | ind k ih =>
    rcases Nat.eq_zero_or_pos k with rfl | hpos
    · exact .self
    · obtain ⟨p, hlt, hp⟩ := h.exists_parent hk hpos
      exact .outward hp (ih p hlt (Nat.lt_trans hlt hk))

/-- The scopes inside of one have their numbers without a gap. -/
theorem surrounds_between (h : Nested a) (hk : k < a.scopes.size) (hik : Surrounds a p k)
    (hij : p ≤ j) (hjk : j ≤ k) : Surrounds a p j := by
  induction k with
  | zero =>
    obtain rfl := Nat.le_zero.mp hjk
    exact hik
  | succ k ih =>
    rcases Nat.lt_or_eq_of_le hjk with hlt | rfl
    · refine ih (Nat.lt_of_succ_lt hk) ?_ (Nat.le_of_lt_succ hlt)
      cases hik with
      | self => exact absurd (Nat.lt_of_le_of_lt hij hlt) (Nat.lt_irrefl _)
      | @outward q _ hparent houter =>
        obtain ⟨q', hq', hq'k⟩ := h.parents k hk
        cases hq'.symm.trans hparent
        exact houter.trans hq'k
    · exact hik

/-- Where the parents of the scopes are the same, so are the scopes around them. -/
theorem surrounds_congr (h : Nested a)
    (hsame : ∀ k < a.scopes.size, (a'.scope k).parent = (a.scope k).parent) (hk : k < a.scopes.size)
    (hjk : Surrounds a j k) : Surrounds a' j k := by
  induction hjk with
  | self => exact .self
  | outward hparent _ ih =>
    exact .outward ((hsame _ hk).trans hparent) (ih (Nat.lt_trans (h.parent_lt hk hparent) hk))

end Nested

/-! ## Walks -/

/-- A walk through some scopes: each of them, then whatever a walk through its children comes to. -/
inductive Walks (a : Analysis) : List ScopeId → List ScopeId → Prop
  | done : Walks a [] []
  | into {k : ScopeId} {ks below after : List ScopeId} (hbelow : Walks a (a.scope k).children below)
      (hafter : Walks a ks after) : Walks a (k :: ks) (k :: (below ++ after))

namespace Nested

/-- With fuel for the scopes from one on, there is fuel for those from a child of it on. -/
theorem fuel_child (h : Nested a) {fuel : Nat} {c : ScopeId} (hj : j < a.scopes.size)
    (hfuel : a.scopes.size ≤ j + (fuel + 1)) (hc : c ∈ (a.scope j).children) :
    c < a.scopes.size ∧ (a.scope c).parent = some j ∧ a.scopes.size ≤ c + fuel := by
  obtain ⟨hc, hparent⟩ := (h.mem_children hj).mp hc
  have hjc : j + 1 + fuel ≤ c + fuel := Nat.add_le_add_right (h.parent_lt hc hparent) fuel
  rw [Nat.add_right_comm] at hjc
  exact ⟨hc, hparent, Nat.le_trans hfuel hjc⟩

/-- With fuel for the scopes that there are, a walk comes to its end. -/
theorem walks_scopesWithin (h : Nested a) {fuel : Nat} {ks : List ScopeId}
    (hks : ∀ k ∈ ks, k < a.scopes.size ∧ a.scopes.size ≤ k + fuel) :
    Walks a ks (ks.flatMap (a.scopesWithin fuel)) := by
  induction fuel generalizing ks with
  | zero =>
    cases ks with
    | nil => exact .done
    | cons k ks =>
      obtain ⟨hlt, hle⟩ := hks k List.mem_cons_self
      exact absurd hlt (Nat.not_lt_of_le hle)
  | succ fuel ih =>
    induction ks with
    | nil => exact .done
    | cons k ks ihks =>
      obtain ⟨hlt, hle⟩ := hks k List.mem_cons_self
      rw [List.flatMap_cons]
      refine .into (ih fun c hc => ?_) (ihks fun k' hk' => hks k' (List.mem_cons_of_mem k hk'))
      obtain ⟨hc, -, hle⟩ := h.fuel_child hlt hle hc
      exact ⟨hc, hle⟩

theorem mem_scopesWithin (h : Nested a) {fuel : Nat} (hj : j < a.scopes.size)
    (hfuel : a.scopes.size ≤ j + fuel) :
    k ∈ a.scopesWithin fuel j ↔ k < a.scopes.size ∧ Surrounds a j k := by
  induction fuel generalizing j with
  | zero => exact absurd hj (Nat.not_lt_of_le hfuel)
  | succ fuel ih =>
    rw [scopesWithin, List.mem_cons, List.mem_flatMap]
    constructor
    · rintro (rfl | ⟨c, hc, hk⟩)
      · exact ⟨hj, .self⟩
      · obtain ⟨hc, hparent, hle⟩ := h.fuel_child hj hfuel hc
        obtain ⟨hk, hck⟩ := (ih hc hle).mp hk
        exact ⟨hk, Surrounds.trans (.outward hparent .self) hck⟩
    · rintro ⟨hk, hjk⟩
      rcases hjk.exists_child with rfl | ⟨c, hparent, hck⟩
      · exact .inl rfl
      · have hc : c < a.scopes.size := Nat.lt_of_le_of_lt (h.le_of_surrounds hk hck) hk
        have hmem : c ∈ (a.scope j).children := (h.mem_children hj).mpr ⟨hc, hparent⟩
        obtain ⟨-, -, hle⟩ := h.fuel_child hj hfuel hmem
        exact .inr ⟨c, hmem, (ih hc hle).mpr ⟨hk, hck⟩⟩

/-- The scopes inside of one of two siblings have lower numbers than those inside of the other. -/
theorem lt_of_siblings (h : Nested a) {c c' x y : ScopeId} (hcc' : c < c')
    (hc : (a.scope c).parent = some p) (hc' : (a.scope c').parent = some p) (hx : x < a.scopes.size)
    (hy : y < a.scopes.size) (hcx : Surrounds a c x) (hc'y : Surrounds a c' y) : x < y := by
  refine Nat.lt_of_lt_of_le (Nat.lt_of_not_le fun hle => ?_) (h.le_of_surrounds hy hc'y)
  have hltc' : c' < a.scopes.size := Nat.lt_of_le_of_lt hle hx
  have hltc : c < a.scopes.size := Nat.lt_trans hcc' hltc'
  -- Otherwise the younger sibling would be inside of the elder one, and so would be their parent.
  cases h.surrounds_between hx hcx (Nat.le_of_lt hcc') hle with
  | self => exact Nat.lt_irrefl _ hcc'
  | @outward q _ hparent houter =>
    cases hc'.symm.trans hparent
    have hcp : c ≤ p := h.le_of_surrounds (Nat.lt_trans (h.parent_lt hltc hc) hltc) houter
    exact Nat.not_lt_of_le hcp (h.parent_lt hltc hc)

theorem pairwise_scopesWithin (h : Nested a) {fuel : Nat} (hj : j < a.scopes.size)
    (hfuel : a.scopes.size ≤ j + fuel) : (a.scopesWithin fuel j).Pairwise (· < ·) := by
  induction fuel generalizing j with
  | zero => exact absurd hj (Nat.not_lt_of_le hfuel)
  | succ fuel ih =>
    rw [scopesWithin, List.pairwise_cons, List.pairwise_flatMap]
    refine ⟨fun x hx => ?_, fun c hc => ?_, ?_⟩
    · obtain ⟨c, hc, hx⟩ := List.mem_flatMap.mp hx
      obtain ⟨hc, hparent, hle⟩ := h.fuel_child hj hfuel hc
      obtain ⟨hx, hcx⟩ := (h.mem_scopesWithin hc hle).mp hx
      exact Nat.lt_of_lt_of_le (h.parent_lt hc hparent) (h.le_of_surrounds hx hcx)
    · obtain ⟨hc, -, hle⟩ := h.fuel_child hj hfuel hc
      exact ih hc hle
    · have hsorted : (a.scope j).children.Pairwise (· < ·) := by
        rw [h.children j hj]
        exact List.pairwise_lt_range.filter _
      refine hsorted.imp_of_mem fun {c c'} hc hc' hlt x hx y hy => ?_
      obtain ⟨hc, hparent, hle⟩ := h.fuel_child hj hfuel hc
      obtain ⟨hc', hparent', hle'⟩ := h.fuel_child hj hfuel hc'
      obtain ⟨hx, hcx⟩ := (h.mem_scopesWithin hc hle).mp hx
      obtain ⟨hy, hc'y⟩ := (h.mem_scopesWithin hc' hle').mp hy
      exact h.lt_of_siblings hlt hparent hparent' hx hy hcx hc'y

/-- A walk from the outermost scope comes to the scopes in the order of their numbers. -/
theorem scopesWithin_zero (h : Nested a) {fuel : Nat} (hfuel : a.scopes.size ≤ fuel) :
    a.scopesWithin fuel 0 = List.range a.scopes.size := by
  have hle : a.scopes.size ≤ 0 + fuel := by rwa [Nat.zero_add]
  refine (h.pairwise_scopesWithin h.known hle).eq_of_mem_iff List.pairwise_lt_range fun k => ?_
  rw [h.mem_scopesWithin h.known hle, List.mem_range]
  exact ⟨fun hk => hk.1, fun hk => ⟨hk, h.surrounds_zero hk⟩⟩

theorem walks_zero (h : Nested a) : Walks a [0] (List.range a.scopes.size) := by
  have hwalk : Walks a [0] ([0].flatMap (a.scopesWithin a.scopes.size)) := by
    refine h.walks_scopesWithin fun k hk => ?_
    cases List.mem_singleton.mp hk
    exact ⟨h.known, Nat.le_add_left _ _⟩
  rwa [List.flatMap_singleton, h.scopesWithin_zero (Nat.le_refl _)] at hwalk

end Nested

/-! ## Ways outwards -/

/-- The loop that goes outwards until it is at the scope of a function ends, at a scope. -/
inductive EndsAt (a : Analysis) : ScopeId → ScopeId → Prop
  | here {k : ScopeId} (hkind : (a.scope k).kind.isFunction = true) : EndsAt a k k
  | outward {k p r : ScopeId} (hkind : (a.scope k).kind.isFunction = false)
      (hparent : (a.scope k).parent = some p) (hrest : EndsAt a p r) : EndsAt a k r

/-- The loop that goes outwards until a scope has a name ends, with its binding or without one. -/
inductive Sees (a : Analysis) (name : Text) : ScopeId → Option BindingId → Prop
  | here {k : ScopeId} {b : BindingId} (hget : (a.scope k).bindings.get? name = some b) :
      Sees a name k (some b)
  | nowhere {k : ScopeId} (hget : (a.scope k).bindings.get? name = none)
      (hparent : (a.scope k).parent = none) : Sees a name k none
  | outward {k p : ScopeId} {found : Option BindingId} (hget : (a.scope k).bindings.get? name = none)
      (hparent : (a.scope k).parent = some p) (hrest : Sees a name p found) : Sees a name k found

namespace Nested

theorem endsAt (h : Nested a) (hk : k < a.scopes.size) : EndsAt a k (a.functionScope k) := by
  induction k using Nat.strongRecOn with
  | ind k ih =>
    rw [functionScope.eq_def]
    cases hkind : (a.scope k).kind.isFunction with
    | true =>
      simp only [hkind, if_true]
      exact .here hkind
    | false =>
      rcases Nat.eq_zero_or_pos k with rfl | hpos
      · rw [h.program] at hkind
        cases hkind
      · obtain ⟨p, hlt, hparent⟩ := h.exists_parent hk hpos
        simp only [hkind, hparent, if_pos hlt, Bool.false_eq_true, if_false]
        exact .outward hkind hparent (ih p hlt (Nat.lt_trans hlt hk))

theorem sees (h : Nested a) (name : Text) (hk : k < a.scopes.size) :
    Sees a name k (a.lookup name k) := by
  induction k using Nat.strongRecOn with
  | ind k ih =>
    rw [lookup_eq]
    cases hget : (a.scope k).bindings.get? name with
    | some b => exact .here hget
    | none =>
      rcases Nat.eq_zero_or_pos k with rfl | hpos
      · simp only [h.outermost]
        exact .nowhere hget h.outermost
      · obtain ⟨p, hlt, hparent⟩ := h.exists_parent hk hpos
        simp only [hparent, if_pos hlt]
        exact .outward hget hparent (ih p hlt (Nat.lt_trans hlt hk))

end Nested

theorem EndsAt.isFunction {r : ScopeId} (h : EndsAt a k r) : (a.scope r).kind.isFunction = true := by
  induction h with
  | here hkind => exact hkind
  | outward _ _ _ ih => exact ih

theorem EndsAt.surrounds {r : ScopeId} (h : EndsAt a k r) : Surrounds a r k := by
  induction h with
  | here _ => exact .self
  | outward _ hparent _ ih => exact .outward hparent ih

/-- Variables may be declared in the scope of the function around any scope. -/
theorem Nested.hosts_functionScope (h : Nested a) (hk : k < a.scopes.size) (kind : BindingKind) :
    Hosts a (a.functionScope k) kind := by
  have hend := h.endsAt hk
  exact ⟨Nat.lt_of_le_of_lt (h.le_of_surrounds hk hend.surrounds) hk, fun _ => hend.isFunction⟩

/-! ## What opens no scope -/

/-- Scopes, and where names of which kind are declared, stay. -/
structure Keeps (a a' : Analysis) : Prop where
  scopes : a'.scopes = a.scopes
  opened : a'.opened = a.opened
  size : a'.bindings.size = a.bindings.size
  bindings : ∀ b, (a'.binding b).name = (a.binding b).name ∧ (a'.binding b).kind = (a.binding b).kind ∧
    (a'.binding b).scope = (a.binding b).scope

namespace Keeps

theorem refl (a : Analysis) : Keeps a a := ⟨rfl, rfl, rfl, fun _ => ⟨rfl, rfl, rfl⟩⟩

theorem trans (h : Keeps a a') (h' : Keeps a' a'') : Keeps a a'' := by
  refine ⟨h'.scopes.trans h.scopes, h'.opened.trans h.opened, h'.size.trans h.size, fun b => ?_⟩
  obtain ⟨hname, hkind, hscope⟩ := h.bindings b
  obtain ⟨hname', hkind', hscope'⟩ := h'.bindings b
  exact ⟨hname'.trans hname, hkind'.trans hkind, hscope'.trans hscope⟩

theorem scope_eq (h : Keeps a a') (k : ScopeId) : a'.scope k = a.scope k := by
  rw [scope, h.scopes, scope]

end Keeps

theorem keeps_addSite (a : Analysis) (s : Site) : Keeps a (a.addSite s).2 :=
  ⟨rfl, rfl, rfl, fun _ => ⟨rfl, rfl, rfl⟩⟩

theorem keeps_modifyBinding (a : Analysis) (b : BindingId) {f : Binding → Binding}
    (hf : ∀ x, (f x).name = x.name ∧ (f x).kind = x.kind ∧ (f x).scope = x.scope) :
    Keeps a (a.modifyBinding b f) := by
  refine ⟨rfl, rfl, Array.size_modify .., fun b' => ?_⟩
  rcases binding_modifyBinding a b b' f with heq | heq
  · rw [heq]
    exact hf _
  · rw [heq]
    exact ⟨rfl, rfl, rfl⟩

theorem keeps_addWrite (a : Analysis) (b : BindingId) (i : SiteId) : Keeps a (a.addWrite b i) :=
  keeps_modifyBinding a b fun _ => ⟨rfl, rfl, rfl⟩

theorem keeps_addRead (a : Analysis) (b : BindingId) (i : SiteId) : Keeps a (a.addRead b i) :=
  keeps_modifyBinding a b fun _ => ⟨rfl, rfl, rfl⟩

/-- The scopes stay but for their names, and further names stand in scopes for their kinds. -/
structure Fills (a a' : Analysis) : Prop where
  size : a'.scopes.size = a.scopes.size
  opened : a'.opened = a.opened
  scopes : ∀ k, (a'.scope k).kind = (a.scope k).kind ∧ (a'.scope k).parent = (a.scope k).parent ∧
    (a'.scope k).children = (a.scope k).children
  bindings : (∀ b < a.bindings.size, Hosts a (a.binding b).scope (a.binding b).kind) →
    ∀ b < a'.bindings.size, Hosts a' (a'.binding b).scope (a'.binding b).kind

namespace Fills

theorem refl (a : Analysis) : Fills a a := ⟨rfl, rfl, fun _ => ⟨rfl, rfl, rfl⟩, fun h => h⟩

theorem trans (h : Fills a a') (h' : Fills a' a'') : Fills a a'' := by
  refine ⟨h'.size.trans h.size, h'.opened.trans h.opened, fun k => ?_,
    fun hbindings => h'.bindings (h.bindings hbindings)⟩
  obtain ⟨hkind, hparent, hchildren⟩ := h.scopes k
  obtain ⟨hkind', hparent', hchildren'⟩ := h'.scopes k
  exact ⟨hkind'.trans hkind, hparent'.trans hparent, hchildren'.trans hchildren⟩

/-- One step after the other. -/
theorem foldl {γ : Type} {f : Analysis → γ → Analysis} {xs : List γ} (h : Fills a a')
    (hf : ∀ a', Fills a a' → ∀ x ∈ xs, Fills a' (f a' x)) : Fills a (xs.foldl f a') := by
  induction xs generalizing a' with
  | nil => exact h
  | cons x xs ih =>
    exact ih (h.trans (hf a' h x List.mem_cons_self)) fun a'' h'' y hy =>
      hf a'' h'' y (List.mem_cons_of_mem x hy)

theorem hosts (h : Fills a a') (hk : Hosts a k kind) : Hosts a' k kind := by
  refine ⟨h.size ▸ hk.1, fun hkind => ?_⟩
  rw [(h.scopes k).1]
  exact hk.2 hkind

theorem surrounds (h : Fills a a') (hjk : Surrounds a j k) : Surrounds a' j k := by
  induction hjk with
  | self => exact .self
  | outward hparent _ ih => exact .outward ((h.scopes _).2.1.trans hparent) ih

theorem nested (h : Fills a a') (ha : Nested a) : Nested a' := by
  refine ⟨h.size ▸ ha.known, (h.scopes 0).2.1.trans ha.outermost, (h.scopes 0).1.trans ha.program,
    fun k hk => ?_, fun p hp => ?_, h.bindings ha.bindings⟩
  · obtain ⟨p, hp, hpk⟩ := ha.parents k (h.size ▸ hk)
    exact ⟨p, (h.scopes _).2.1.trans hp, h.surrounds hpk⟩
  · rw [(h.scopes p).2.2, ha.children p (h.size ▸ hp), h.size]
    exact List.filter_congr fun k _ => by rw [(h.scopes k).2.1]

theorem current (h : Fills a a') (hk : Current a k) : Current a' k := by
  refine ⟨h.size ▸ hk.1, ?_⟩
  rw [h.size]
  exact h.surrounds hk.2

end Fills

theorem Keeps.fills (h : Keeps a a') : Fills a a' := by
  refine ⟨by rw [h.scopes], h.opened, fun k => ?_, fun hbindings b hb => ?_⟩
  · rw [h.scope_eq]
    exact ⟨rfl, rfl, rfl⟩
  · obtain ⟨hlt, hkind⟩ := hbindings b (h.size ▸ hb)
    rw [(h.bindings b).2.1, (h.bindings b).2.2]
    refine ⟨by rwa [h.scopes], fun hof => ?_⟩
    rw [h.scope_eq]
    exact hkind hof

theorem fills_withName (hk : Hosts a k kind) : Fills a (a.withName k kind i name) := by
  have hscopes : ∀ j, ((a.withName k kind i name).scope j).kind = (a.scope j).kind ∧
      ((a.withName k kind i name).scope j).parent = (a.scope j).parent ∧
      ((a.withName k kind i name).scope j).children = (a.scope j).children := by
    intro j
    rw [scope_withName hk.1]
    split <;> exact ⟨rfl, rfl, rfl⟩
  have hsize : (a.withName k kind i name).scopes.size = a.scopes.size := Array.size_modify ..
  have hhosts : ∀ {j kind'}, Hosts a j kind' → Hosts (a.withName k kind i name) j kind' := by
    intro j kind' hj
    refine ⟨hsize ▸ hj.1, fun hkind => ?_⟩
    rw [(hscopes j).1]
    exact hj.2 hkind
  refine ⟨hsize, rfl, hscopes, fun hbindings b hb => ?_⟩
  rw [size_withName] at hb
  rcases Nat.lt_succ_iff_lt_or_eq.mp hb with hb | rfl
  · rw [binding_withName_of_lt hb]
    exact hhosts (hbindings b hb)
  · rw [binding_withName_self]
    exact hhosts hk

theorem fills_declareName (hk : Hosts a k kind) (i : SiteId) (name : Text) :
    Fills a (a.declareName k kind i name) := by
  unfold declareName
  simp only
  split
  · refine (keeps_modifyBinding a _ fun _ => ?_).fills
    exact ⟨rfl, rfl, rfl⟩
  · split
    · exact (keeps_addWrite a _ i).fills
    · exact fills_withName hk

theorem fills_declarePattern (hk : Hosts a k kind) (i : SiteId) (pattern : Node) (listed : Bool) :
    Fills a (a.declarePattern i pattern listed k kind) :=
  (keeps_addSite a _).fills.foldl fun _ h name _ => fills_declareName (h.hosts hk) _ name

theorem keeps_writtenByLoop (a : Analysis) (k : ScopeId) (i : SiteId) (name : Text) :
    Keeps a (a.writtenByLoop k i name) := by
  unfold writtenByLoop
  split
  · exact keeps_addWrite a _ i
  · exact .refl a

/-- The names of a declarator, written again where a loop does so. -/
theorem fills_variables (hk : Hosts a k kind) (i : SiteId) (loopHead : Bool) (names : List Text) :
    Fills a (names.foldl (fun a name =>
      let a := a.declareName k kind i name
      if loopHead then a.writtenByLoop k i name else a) a) := by
  refine .foldl (.refl a) fun a' h name _ => ?_
  have hname := fills_declareName (h.hosts hk) i name
  simp only
  split
  · exact hname.trans (keeps_writtenByLoop ..).fills
  · exact hname

/-- A scope in which names may be declared that belong to a block. -/
theorem hosts_of_lt (hk : k < a.scopes.size) (hkind : kind.isOfFunction = false) : Hosts a k kind :=
  ⟨hk, fun hof => by cases hkind.symm.trans hof⟩

/-- Only a variable belongs to a function; it goes to the one around. -/
theorem fills_declareVariable (h : Nested a) (houter : outer < a.scopes.size) (i : SiteId)
    (kind : VariableKind) (loopHead : Bool) (declarator : Node) :
    Fills a (a.declareVariable i kind loopHead outer declarator) := by
  have hsite := (keeps_addSite a ⟨declarator.id, some i, declarator.role, true, outer, false⟩).fills
  unfold declareVariable
  cases kind with
  | var => exact hsite.trans (fills_variables (hsite.hosts (h.hosts_functionScope houter _)) ..)
  | lexical => exact hsite.trans (fills_variables (hsite.hosts (hosts_of_lt houter rfl)) ..)
  | constant => exact hsite.trans (fills_variables (hsite.hosts (hosts_of_lt houter rfl)) ..)

theorem fills_declareParameters (hk : ∀ kind, Hosts a k kind) (i : SiteId) (form : Form)
    (children : List Node) : Fills a (a.declareParameters i form k children) := by
  unfold declareParameters
  refine .foldl ?_ fun a' h pattern _ => fills_declarePattern (h.hosts (hk _)) i pattern true
  split
  · exact fills_declarePattern (hk _) ..
  · exact .refl a

theorem fills_declareHere (h : Nested a) (houter : outer < a.scopes.size) (hinner : inner < a.scopes.size)
    {form : Form} (hform : form.isFunction = true → (a.scope inner).kind.isFunction = true) (i : SiteId)
    (parent : Option Form) (children : List Node) :
    Fills a (a.declareHere i form parent outer inner children) := by
  have hparameters : form.isFunction = true → ∀ kind, Hosts a inner kind :=
    fun hfunction _ => ⟨hinner, fun _ => hform hfunction⟩
  unfold declareHere
  split
  · exact .foldl (.refl a) fun a' h' declarator _ =>
      fills_declareVariable (h'.nested h) (h'.size ▸ houter) ..
  · cases (children.find? fun c => c.role == .id).bind Node.name? with
    | none => exact fills_declareParameters (hparameters rfl) ..
    | some name =>
      have hname : Fills a (a.declareName outer .hoisted i name) :=
        fills_declareName (hosts_of_lt houter rfl) i name
      exact hname.trans (fills_declareParameters (fun kind => hname.hosts (hparameters rfl kind)) ..)
  · exact fills_declareParameters (hparameters rfl) ..
  · exact fills_declareParameters (hparameters rfl) ..
  · split
    · exact fills_declareName (hosts_of_lt houter rfl) ..
    · exact .refl a
  · split
    · exact fills_declarePattern (hosts_of_lt hinner rfl) ..
    · exact .refl a
  · exact .refl a

/-! ## What opens scopes -/

/-- New scopes are opened inside of a given one, by nodes of given identities. -/
structure Deepens (ids : List NodeId) (outer : ScopeId) (a a' : Analysis) : Prop where
  nested : Nested a'
  size : a.scopes.size ≤ a'.scopes.size
  kinds : ∀ k < a.scopes.size, (a'.scope k).kind = (a.scope k).kind
  parents : ∀ k < a.scopes.size, (a'.scope k).parent = (a.scope k).parent
  inside : ∀ k, a.scopes.size ≤ k → k < a'.scopes.size → Surrounds a' outer k
  opened : ∀ id, id ∉ ids → a'.opened.get? id = a.opened.get? id

theorem Fills.deepens (h : Fills a a') (ha : Nested a) (ids : List NodeId) (outer : ScopeId) :
    Deepens ids outer a a' :=
  ⟨h.nested ha, Nat.le_of_eq h.size.symm, fun k _ => (h.scopes k).1, fun k _ => (h.scopes k).2.1,
    fun _ hle hlt => absurd (h.size ▸ hlt) (Nat.not_lt_of_le hle), fun _ _ => by rw [h.opened]⟩

theorem Fills.trans_deepens (h : Fills a a') (h' : Deepens ids outer a' a'') :
    Deepens ids outer a a'' :=
  ⟨h'.nested, h.size ▸ h'.size, fun k hk => (h'.kinds k (h.size ▸ hk)).trans (h.scopes k).1,
    fun k hk => (h'.parents k (h.size ▸ hk)).trans (h.scopes k).2.1,
    fun k hle => h'.inside k (h.size ▸ hle), fun id hid => h.opened ▸ h'.opened id hid⟩

namespace Deepens

theorem mono (h : Deepens ids outer a a') (hids : ∀ id ∈ ids, id ∈ ids') : Deepens ids' outer a a' :=
  ⟨h.nested, h.size, h.kinds, h.parents, h.inside, fun id hid => h.opened id fun hmem => hid (hids id hmem)⟩

/-- The scopes around one that there is stay around it. -/
theorem surrounds (h : Deepens ids outer a a') (ha : Nested a) (hk : k < a.scopes.size)
    (hjk : Surrounds a j k) : Surrounds a' j k :=
  ha.surrounds_congr h.parents hk hjk

theorem trans (h : Deepens ids outer a a') (h' : Deepens ids' inner a' a'')
    (hinner : inner < a'.scopes.size) (hsurrounds : Surrounds a' outer inner) :
    Deepens (ids ++ ids') outer a a'' := by
  refine ⟨h'.nested, Nat.le_trans h.size h'.size, fun k hk => ?_, fun k hk => ?_, fun k hle hlt => ?_,
    fun id hid => ?_⟩
  · exact (h'.kinds k (Nat.lt_of_lt_of_le hk h.size)).trans (h.kinds k hk)
  · exact (h'.parents k (Nat.lt_of_lt_of_le hk h.size)).trans (h.parents k hk)
  · rcases Nat.lt_or_ge k a'.scopes.size with hk | hk
    · exact h'.surrounds h.nested hk (h.inside k hle hk)
    · exact (h'.surrounds h.nested hinner hsurrounds).trans (h'.inside k hk hlt)
  · rw [List.mem_append, not_or] at hid
    exact (h'.opened id hid.2).trans (h.opened id hid.1)

/-- What was opened last before is around what was opened since, or is still the last. -/
theorem current (h : Deepens ids outer a a') (ha : Nested a) (houter : Current a outer) :
    Current a' outer := by
  refine ⟨Nat.lt_of_lt_of_le houter.1 h.size, ?_⟩
  have hpos : 0 < a'.scopes.size := h.nested.known
  rcases Nat.lt_or_ge (a'.scopes.size - 1) a.scopes.size with hlt | hge
  · have heq : a'.scopes.size - 1 = a.scopes.size - 1 :=
      Nat.le_antisymm (Nat.le_sub_one_of_lt hlt) (Nat.sub_le_sub_right h.size 1)
    rw [heq]
    exact h.surrounds ha (Nat.sub_one_lt_of_lt houter.1) houter.2
  · exact h.inside _ hge (Nat.sub_one_lt_of_lt hpos)

end Deepens

section NewScope

variable {opening : ScopeKind} {id : NodeId}

/-- The scopes that there are stay where they are. -/
theorem kept_openScope (hk : k < a.scopes.size) :
    ((a.openScope opening id outer).2.scope k).parent = (a.scope k).parent ∧
      ((a.openScope opening id outer).2.scope k).kind = (a.scope k).kind := by
  obtain ⟨children, hscope⟩ := scope_openScope_old opening id outer (Nat.ne_of_lt hk)
  rw [hscope]
  exact ⟨rfl, rfl⟩

/-- A new scope comes last among the scopes of its parent. -/
theorem children_openScope (hk : k < a.scopes.size) :
    ((a.openScope opening id outer).2.scope k).children =
      if outer = k then (a.scope k).children ++ [a.scopes.size] else (a.scope k).children := by
  simp only [scope, openScope, modifyScope, Array.getD_eq_getD_getElem?, Array.getElem?_modify,
    Array.getElem?_push, if_neg (Nat.ne_of_lt hk)]
  split
  · rw [Array.getElem?_eq_getElem hk]
    rfl
  · rfl

/-- A scope inside of which the last one was opened gets another one inside. -/
theorem nested_openScope (h : Nested a) (houter : Current a outer) :
    Nested (a.openScope opening id outer).2 := by
  have hnew := scope_openScope_new opening id houter.1
  have hsize : (a.openScope opening id outer).2.scopes.size = a.scopes.size + 1 := size_openScope
  have hold : ∀ {k}, k < a.scopes.size →
      ((a.openScope opening id outer).2.scope k).parent = (a.scope k).parent :=
    fun hk => (kept_openScope hk).1
  refine ⟨?_, (hold h.known).trans h.outermost, ((kept_openScope h.known).2).trans h.program,
    fun k hk => ?_, fun p hp => ?_, fun b hb => ?_⟩
  · rw [hsize]
    exact Nat.succ_pos _
  · rw [hsize] at hk
    have hlt : k < a.scopes.size := Nat.lt_of_succ_lt_succ hk
    rcases Nat.lt_succ_iff_lt_or_eq.mp hk with hk | hk
    · obtain ⟨p, hp, hpk⟩ := h.parents k hk
      exact ⟨p, (hold hk).trans hp, h.surrounds_congr (fun _ => hold) hlt hpk⟩
    · refine ⟨outer, by rw [hk, hnew], h.surrounds_congr (fun _ => hold) hlt ?_⟩
      have hlast : k = a.scopes.size - 1 := by rw [← hk]; rfl
      exact hlast ▸ houter.2
  · rw [hsize] at hp ⊢
    rw [List.range_succ, List.filter_append]
    have hparents : (List.range a.scopes.size).filter
        (fun k => ((a.openScope opening id outer).2.scope k).parent == some p) =
        (List.range a.scopes.size).filter fun k => (a.scope k).parent == some p :=
      List.filter_congr fun k hk => by rw [hold (List.mem_range.mp hk)]
    have hlast : [a.scopes.size].filter
        (fun k => ((a.openScope opening id outer).2.scope k).parent == some p) =
        if outer = p then [a.scopes.size] else [] := by
      simp [List.filter_singleton, hnew]
    rw [hparents, hlast]
    rcases Nat.lt_succ_iff_lt_or_eq.mp hp with hp | rfl
    · rw [children_openScope hp, h.children p hp]
      split
      · rfl
      · rw [List.append_nil]
    · have hnone : (List.range a.scopes.size).filter
          (fun k => (a.scope k).parent == some a.scopes.size) = [] := by
        rw [List.filter_eq_nil_iff]
        intro k hk heq
        have hk : k < a.scopes.size := List.mem_range.mp hk
        exact Nat.lt_asymm hk (h.parent_lt hk (eq_of_beq heq))
      simp [hnew, hnone, Nat.ne_of_lt houter.1]
  · obtain ⟨hlt, hkind⟩ := h.bindings b hb
    refine ⟨Nat.lt_of_lt_of_eq (Nat.lt_succ_of_lt hlt) hsize.symm, fun hof => ?_⟩
    exact (congrArg ScopeKind.isFunction (kept_openScope hlt).2).trans (hkind hof)

theorem deepens_openScope (h : Nested a) (houter : Current a outer) :
    Deepens [id] outer a (a.openScope opening id outer).2 := by
  have hsize : (a.openScope opening id outer).2.scopes.size = a.scopes.size + 1 := size_openScope
  refine ⟨nested_openScope h houter, ?_, fun k hk => (kept_openScope hk).2,
    fun k hk => (kept_openScope hk).1, fun k hle hlt => ?_, fun id' hid => ?_⟩
  · rw [hsize]
    exact Nat.le_succ _
  · rw [hsize] at hlt
    obtain rfl := Nat.le_antisymm (Nat.le_of_lt_succ hlt) hle
    exact .outward (by rw [scope_openScope_new opening id houter.1]) .self
  · exact Dict.get?_put_of_ne a.opened (fun heq => hid (List.mem_singleton.mpr heq)) _

end NewScope

/-- The scope of a node that had none: its own one, or the one around. -/
theorem deepens_ensureScope {id : NodeId} (h : Nested a) (houter : Current a outer)
    (hfresh : a.opened.get? id = none) (form : Form) (parent : Option Form) :
    let r := a.ensureScope id form parent outer
    Deepens [id] outer a r.2 ∧ Current r.2 (r.1.getD outer) ∧
      Surrounds r.2 outer (r.1.getD outer) ∧
      (form.isFunction = true → (r.2.scope (r.1.getD outer)).kind.isFunction = true) := by
  have hnone : a.scopeOpenedBy? id = none := hfresh
  unfold ensureScope
  rw [hnone]
  cases hkind : scopeKind? form parent with
  | none =>
    refine ⟨(Fills.refl a).deepens h _ _, houter, .self, fun hform => ?_⟩
    cases form with
    | functionDeclaration | functionExpression | arrowFunction => cases hkind
    | _ => cases hform
  | some opening =>
    have hnew := scope_openScope_new opening id houter.1
    have hsize : (a.openScope opening id outer).2.scopes.size = a.scopes.size + 1 := size_openScope
    refine ⟨deepens_openScope h houter, ⟨?_, ?_⟩, .outward (p := outer) ?_ .self, fun hform => ?_⟩
    · exact Nat.lt_of_lt_of_eq (Nat.lt_succ_self _) hsize.symm
    · rw [hsize]
      exact .self
    · exact congrArg Scope.parent hnew
    · exact (congrArg (fun s => s.kind.isFunction) hnew).trans ((isFunction_of_scopeKind? hkind).trans hform)

/-! ## The pass -/

/-- A pass over nodes that have not been taken up opens scopes inside of the one that they are evaluated
in. -/
def OpensInside (ids : List NodeId) (outer : ScopeId) (f : Analysis → Analysis) : Prop :=
  ∀ a, Nested a → Current a outer → (∀ id ∈ ids, a.opened.get? id = none) → Deepens ids outer a (f a)

/-- The name of a function opens no scope and declares nothing. -/
theorem declare_identifier (a : Analysis) (i : SiteId) (parent : Option Form) (outer : ScopeId) {n : Node}
    (hform : ∃ name, n.form = .identifier name) (hchildren : n.children = []) :
    a.declare i parent outer n = a := by
  obtain ⟨name, hform⟩ := hform
  have hensure : (a.ensureScope n.id n.form parent outer).2 = a := by
    unfold ensureScope
    rw [hform]
    split <;> rfl
  rw [declare_eq, hensure, hform, hchildren]
  rfl

/-- Whoever is not evaluated in the inner scope is the name of a declared function. -/
theorem childScope_or_identifier {n c : Node} (hn : n.hasPlainName = true) (hc : c ∈ n.children)
    (outer inner : ScopeId) :
    childScope n.form c.role outer inner = inner ∨
      (∃ name, c.form = .identifier name) ∧ c.children = [] := by
  unfold childScope
  split
  · next flags hform hrole =>
    unfold Node.hasPlainName at hn
    rw [hform] at hn
    have hplain := List.all_eq_true.mp hn c (Node.mem_childrenAt.mpr ⟨hc, hrole⟩)
    rw [Bool.and_eq_true] at hplain
    refine .inr ⟨?_, List.isEmpty_iff.mp hplain.2⟩
    split at hplain
    · next name hc => exact ⟨name, hc⟩
    · cases hplain.1
  · exact .inl rfl

/-- Nodes one after the other, if the pass does its work at each of them. -/
theorem opensInside_declareAll {form : Form} {cs : List Node} (hids : (Node.identitiesAll cs).Nodup)
    (hcs : ∀ c ∈ cs, ∀ i parent outer, OpensInside c.identities outer fun a => a.declare i parent outer c)
    (i : SiteId) (outer : ScopeId)
    (hscope : ∀ c ∈ cs, childScope form c.role outer inner = inner ∨
      (∃ name, c.form = .identifier name) ∧ c.children = []) :
    OpensInside (Node.identitiesAll cs) inner fun a => a.declareAll i form outer inner cs := by
  induction cs with
  | nil => exact fun a h _ _ => (Fills.refl a).deepens h _ _
  | cons c cs ih =>
    intro a h hinner hfresh
    rw [Node.identitiesAll] at hids hfresh ⊢
    obtain ⟨hidsc, hidscs, hdisjoint⟩ := List.nodup_append.mp hids
    have hrest := ih hidscs (fun d hd => hcs d (List.mem_cons_of_mem c hd))
      fun d hd => hscope d (List.mem_cons_of_mem c hd)
    have hfreshcs : ∀ id ∈ Node.identitiesAll cs, a.opened.get? id = none := fun id hid =>
      hfresh id (List.mem_append_right _ hid)
    have hright : ∀ {a' : Analysis}, Deepens (Node.identitiesAll cs) inner a a' →
        Deepens (c.identities ++ Node.identitiesAll cs) inner a a' := fun h' =>
      h'.mono fun id hid => List.mem_append_right _ hid
    show Deepens _ inner a (a.declareAll i form outer inner (c :: cs))
    cases hhole : c.isHole with
    | true =>
      rw [declareAll_hole hhole]
      exact hright (hrest a h hinner hfreshcs)
    | false =>
      rw [declareAll_cons hhole]
      have hsite := (keeps_addSite a ⟨c.id, some i, c.role, form.isListed c.role,
        childScope form c.role outer inner, false⟩).fills
      rcases hscope c List.mem_cons_self with heq | ⟨hform, hchildren⟩
      · rw [heq] at hsite ⊢
        have hchild := hsite.trans_deepens (hcs c List.mem_cons_self a.sites.size (some form) inner _
          (hsite.nested h) (hsite.current hinner) fun id hid => hfresh id (List.mem_append_left _ hid))
        have hcurrent := hchild.current h hinner
        have hothers := hrest _ hchild.nested hcurrent fun id hid => by
          have hne : id ∉ c.identities := fun hmem => hdisjoint id hmem id hid rfl
          rw [hchild.opened id hne]
          exact hfreshcs id hid
        exact hchild.trans hothers hcurrent.1 .self
      · rw [declare_identifier _ _ _ _ hform hchildren]
        exact hright (hsite.trans_deepens (hrest _ (hsite.nested h) (hsite.current hinner) hfreshcs))

/-- A node, if the pass does its work below: it opens its scope, declares its names in scopes that there
are, and goes on below in its scope. -/
theorem opensInside_node {n : Node} (hname : n.hasPlainName = true) (hids : n.identities.Nodup)
    (hchildren : ∀ c ∈ n.children, ∀ i parent outer,
      OpensInside c.identities outer fun a => a.declare i parent outer c)
    (i : SiteId) (parent : Option Form) (outer : ScopeId) :
    OpensInside n.identities outer fun a => a.declare i parent outer n := by
  intro a h houter hfresh
  rw [Node.identities_eq] at hids hfresh ⊢
  obtain ⟨hid, hids⟩ := List.nodup_cons.mp hids
  obtain ⟨hopen, hcurrent, hinside, hkind⟩ :=
    deepens_ensureScope h houter (hfresh n.id List.mem_cons_self) n.form parent
  have hhere := fills_declareHere hopen.nested (Nat.lt_of_lt_of_le houter.1 hopen.size) hcurrent.1 hkind
    i parent n.children
  have hbelow := opensInside_declareAll hids hchildren i outer
    (fun c hc => childScope_or_identifier hname hc outer _) _ (hhere.nested hopen.nested)
    (hhere.current hcurrent) fun id hmem => by
      have hne : id ∉ [n.id] := fun heq => hid (List.mem_singleton.mp heq ▸ hmem)
      rw [hhere.opened, hopen.opened id hne]
      exact hfresh id (List.mem_cons_of_mem n.id hmem)
  show Deepens (n.id :: Node.identitiesAll n.children) outer a (a.declare i parent outer n)
  rw [declare_eq]
  exact hopen.trans (hhere.trans_deepens hbelow) hcurrent.1 hinside

/-- The pass over a tree. -/
theorem opensInside_declare (n : Node) (hnames : ∀ d : Node, d.Inside n → d.hasPlainName = true)
    (hids : n.identities.Nodup) (i : SiteId) (parent : Option Form) (outer : ScopeId) :
    OpensInside n.identities outer fun a => a.declare i parent outer n := by
  induction hsize : n.size using Nat.strongRecOn generalizing n i parent outer with
  | ind size ih =>
    refine opensInside_node (hnames n (.self n)) hids (fun c hc i parent outer => ?_) i parent outer
    rw [Node.identities_eq] at hids
    exact ih c.size (hsize ▸ Node.size_lt_of_mem_children hc) c (fun d hd => hnames d (hd.trans (.child hc)))
      (Node.nodup_of_mem (List.nodup_cons.mp hids).2 hc) i parent outer rfl

/-! ## References -/

/-- What an identifier reads is put at its place. -/
theorem Keeps.read (h : Keeps a a') (b : BindingId) (i : SiteId) (resolved : Dict NodeId BindingId) :
    Keeps a { a'.addRead b i with resolved := resolved } := by
  have hread := h.trans (keeps_addRead a' b i)
  exact ⟨hread.scopes, hread.opened, hread.size, hread.bindings⟩

theorem keeps_addReference (a : Analysis) (i : SiteId) (u : Usage) (name : Text) :
    Keeps a (a.addReference i u name) := by
  unfold addReference
  split
  · exact .refl a
  · split
    · exact keeps_addWrite ..
    · simp only
      split
      · -- What the identifier read before is taken back.
        refine Keeps.read (keeps_modifyBinding a _ fun _ => ?_) ..
        exact ⟨rfl, rfl, rfl⟩
      · exact Keeps.read (.refl a) ..
    · exact .refl a

theorem keeps_resolve (a : Analysis) (i : SiteId) (u : Usage) (n : Node) : Keeps a (a.resolve i u n) := by
  refine Node.rec
    (motive_1 := fun n => ∀ (a : Analysis) (i : SiteId) (u : Usage), Keeps a (a.resolve i u n))
    (motive_2 := fun cs => ∀ (a : Analysis) (i : SiteId) (u : Usage) (form : Form)
      (outer inner : ScopeId), Keeps a (a.resolveAll i u form outer inner cs))
    ?_ ?_ ?_ n a i u
  · intro id role form cs ih a i u
    unfold resolve
    split
    · exact .refl a
    · exact keeps_addReference ..
    · exact ih ..
  · intro a i u form outer inner
    exact .refl a
  · intro c cs ihc ihcs a i u form outer inner
    cases c with
    | mk id role f children =>
      unfold resolveAll
      split
      · exact ihcs ..
      · exact (keeps_addSite a _).trans ((ihc ..).trans (ihcs ..))

/-! ## Programs -/

/-- The scopes of an analysis are a tree, numbered in the order of a walk, with the names in their
places. -/
structure ScopeTree (a : Analysis) : Prop where
  /-- A walk from the outermost scope comes to all scopes, in the order of their numbers. -/
  walk : Walks a [0] (List.range a.scopes.size)
  allScopes : a.allScopes = List.range a.scopes.size
  outermost : 0 < a.scopes.size ∧ (a.scope 0).parent = none ∧ (a.scope 0).kind = .program
  /-- Each other scope has a parent, among whose children it is listed once. -/
  listed : ∀ k < a.scopes.size, 0 < k →
    ∃ p < k, (a.scope k).parent = some p ∧ (a.scope p).children.count k = 1
  /-- Whatever is listed is a scope, and is so by its parent. -/
  children : ∀ p < a.scopes.size, ∀ k ∈ (a.scope p).children,
    k < a.scopes.size ∧ (a.scope k).parent = some p
  /-- Each binding stands under its name in its scope. -/
  stored : ∀ b < a.bindings.size, (a.binding b).scope < a.scopes.size ∧
    (a.scope (a.binding b).scope).bindings.get? (a.binding b).name = some b
  /-- What stands in a scope is a binding of the name and of the scope. -/
  names : ∀ k name b, (a.scope k).bindings.get? name = some b →
    b < a.bindings.size ∧ (a.binding b).name = name ∧ (a.binding b).scope = k
  /-- Variables, parameters and own names stand in the scopes of functions, or of the program. -/
  kinds : ∀ b < a.bindings.size, (a.binding b).kind.isOfFunction = true →
    (a.scope (a.binding b).scope).kind.isFunction = true
  functionScope : ∀ k < a.scopes.size, EndsAt a k (a.functionScope k)
  lookup : ∀ name, ∀ k < a.scopes.size, Sees a name k (a.lookup name k)

theorem nested_start (root : Node) : Nested (start root) := by
  refine ⟨Nat.zero_lt_one, rfl, rfl, fun k hk => ?_, fun p hp => ?_, fun b hb => ?_⟩
  · exact absurd (Nat.lt_of_succ_lt_succ hk) (Nat.not_lt_zero k)
  · cases Nat.lt_one_iff.mp hp
    rfl
  · exact absurd hb (Nat.not_lt_zero b)

/-- The first pass over a script. -/
theorem nested_declare (hroot : Script root) (hnames : root.everywhere Node.hasPlainName = true) :
    Nested ((start root).declare 0 none 0 root) := by
  have hnames := Node.everywhere_iff.mp hnames
  have hids := hroot.identities
  rw [Node.identities_eq] at hids
  obtain ⟨hid, hids⟩ := List.nodup_cons.mp hids
  have hpass : OpensInside (Node.identitiesAll root.children) 0 fun a =>
      a.declareAll 0 root.form 0 0 root.children := by
    refine opensInside_declareAll hids (fun c hc => ?_) 0 0 fun c hc =>
      childScope_or_identifier (hnames root (.self root)) hc 0 0
    exact opensInside_declare c (fun d hd => hnames d (hd.trans (.child hc))) (Node.nodup_of_mem hids hc)
  rw [declare_root hroot]
  refine (hpass (start root) (nested_start root) ⟨Nat.zero_lt_one, .self⟩ fun id hmem => ?_).nested
  have hne : id ≠ root.id := fun heq => hid (heq ▸ hmem)
  exact Dict.get?_put_of_ne .empty hne 0

theorem Nested.listed (h : Nested a) (hk : k < a.scopes.size) (hpos : 0 < k) :
    ∃ p < k, (a.scope k).parent = some p ∧ (a.scope p).children.count k = 1 := by
  obtain ⟨p, hlt, hparent⟩ := h.exists_parent hk hpos
  have hp : p < a.scopes.size := Nat.lt_trans hlt hk
  have hnodup : (a.scope p).children.Nodup := by
    rw [h.children p hp]
    exact List.nodup_range.filter _
  exact ⟨p, hlt, hparent, List.count_eq_one_of_mem hnodup ((h.mem_children hp).mpr ⟨hk, hparent⟩)⟩

/-- The scopes of a script are numbered in the order of a walk through them, each is listed once by its
parent, each name stands in its scope, those that belong to functions in a scope of a function or the
program, and whoever goes outwards comes to an end. -/
theorem scopeTree_ofProgram (hroot : Script root)
    (hnames : root.everywhere Node.hasPlainName = true) : ScopeTree (ofProgram root) := by
  have hfounded := (settled_declare hroot).founded
  have hkeeps := keeps_resolve ((start root).declare 0 none 0 root) 0 .read root
  rw [← ofProgram_eq] at hkeeps
  have h : Nested (ofProgram root) := hkeeps.fills.nested (nested_declare hroot hnames)
  refine ⟨h.walks_zero, h.scopesWithin_zero (Nat.le_refl _), ⟨h.known, h.outermost, h.program⟩,
    fun k hk => h.listed hk, fun p hp k => (h.mem_children hp).mp, fun b hb => ⟨(h.bindings b hb).1, ?_⟩,
    fun k name b hb => ?_, fun b hb => (h.bindings b hb).2, fun k => h.endsAt, fun name k => h.sees name⟩
  · obtain ⟨-, -, -, hget⟩ := hfounded.bindings b (hkeeps.size ▸ hb)
    rw [(hkeeps.bindings b).1, (hkeeps.bindings b).2.2, hkeeps.scope_eq]
    exact hget
  · rw [hkeeps.scope_eq] at hb
    rw [hkeeps.size, (hkeeps.bindings b).1, (hkeeps.bindings b).2.2]
    exact hfounded.names k name b hb

/-- `{ { var x; } } function f(y) { }` -/
def beside : Node :=
  .mk 1 .top .program
    [.mk 2 .body .blockStatement
      [.mk 3 .body .blockStatement
        [.mk 4 .body (.variableDeclaration .var)
          [.mk 5 .declarations .variableDeclarator [.mk 6 .id (.identifier (Text.of "x")) []]]]],
     .mk 7 .body (.functionDeclaration ⟨false, false, false⟩)
      [.mk 8 .id (.identifier (Text.of "f")) [], .mk 9 .params (.identifier (Text.of "y")) [],
       .mk 10 .body .blockStatement []]]

theorem scopeTree_beside :
    Script beside ∧ beside.everywhere Node.hasPlainName = true ∧ ScopeTree (ofProgram beside) := by
  have hscript : Script beside := ⟨rfl, by decide, by decide⟩
  have hnames : beside.everywhere Node.hasPlainName = true := by decide
  exact ⟨hscript, hnames, scopeTree_ofProgram hscript hnames⟩

/-- The function has the last number, and is listed after the outer block. -/
example : (ofProgram beside).allScopes = [0, 1, 2, 3] ∧ ((ofProgram beside).scope 0).children = [1, 3] ∧
    ((ofProgram beside).scope 1).children = [2] := by
  decide +kernel

end Analysis

end Untangle
