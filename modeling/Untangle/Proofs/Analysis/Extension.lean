import Untangle.Proofs.Analysis.References

set_option autoImplicit false

/-!
# What taking up a tree leaves alone

The two passes open scopes, declare names, record reads and writes, and make new sites.  They change
neither the program nor the sites that there are, so that the ways of these sites lead to the same
nodes, and they give no identities.
-/

namespace Untangle

namespace Analysis

/-- An analysis of the same program with further sites. -/
structure Extends (a a' : Analysis) : Prop where
  program : a'.program = a.program
  next : a'.next = a.next
  sites : ∀ i < a.sites.size, a'.sites[i]? = a.sites[i]?

namespace Extends

variable {a a' a'' : Analysis} {i : SiteId}

theorem refl (a : Analysis) : Extends a a := ⟨rfl, rfl, fun _ _ => rfl⟩

theorem size_le (h : Extends a a') : a.sites.size ≤ a'.sites.size := by
  refine Nat.le_of_not_lt fun hlt => ?_
  have hkept := h.sites _ hlt
  rw [Array.getElem?_eq_none (Nat.le_refl _), Array.getElem?_eq_getElem hlt] at hkept
  cases hkept

theorem trans (h : Extends a a') (h' : Extends a' a'') : Extends a a'' :=
  ⟨h'.program.trans h.program, h'.next.trans h.next, fun i hi =>
    (h'.sites i (Nat.lt_of_lt_of_le hi h.size_le)).trans (h.sites i hi)⟩

/-- Whatever is neither the program nor a site nor gives identities may change. -/
theorem of_eq (hprogram : a'.program = a.program) (hnext : a'.next = a.next)
    (hsites : a'.sites = a.sites) : Extends a a' :=
  ⟨hprogram, hnext, fun i _ => by rw [hsites]⟩

theorem site_eq (h : Extends a a') (hi : i < a.sites.size) : a'.site i = a.site i := by
  simp only [site, Array.getD_eq_getD_getElem?, h.sites i hi]

/-- One change after the other. -/
theorem foldl {γ : Type} {f : Analysis → γ → Analysis} (hf : ∀ a x, Extends a (f a x)) (xs : List γ)
    (a : Analysis) : Extends a (xs.foldl f a) := by
  induction xs generalizing a with
  | nil => exact .refl a
  | cons x xs ih => exact (hf a x).trans (ih _)

end Extends

theorem extends_addSite (a : Analysis) (s : Site) : Extends a (a.addSite s).2 := by
  refine ⟨rfl, rfl, fun i hi => ?_⟩
  simp only [addSite, Array.getElem?_push]
  rw [if_neg (Nat.ne_of_lt hi)]

theorem extends_addWrite (a : Analysis) (b : BindingId) (i : SiteId) : Extends a (a.addWrite b i) :=
  .of_eq rfl rfl rfl

/-! ## Declarations -/

theorem extends_ensureScope (a : Analysis) (node : NodeId) (form : Form) (parent : Option Form)
    (outer : ScopeId) : Extends a (a.ensureScope node form parent outer).2 := by
  unfold ensureScope
  split
  · exact .refl a
  · split
    · exact .of_eq rfl rfl rfl
    · exact .refl a

theorem extends_declareName (a : Analysis) (scope : ScopeId) (kind : BindingKind) (i : SiteId)
    (name : Text) : Extends a (a.declareName scope kind i name) := by
  unfold declareName
  simp only
  split
  · exact .of_eq rfl rfl rfl
  · split
    · exact extends_addWrite ..
    · exact .of_eq rfl rfl rfl

theorem extends_declarePattern (a : Analysis) (i : SiteId) (pattern : Node) (listed : Bool)
    (scope : ScopeId) (kind : BindingKind) :
    Extends a (a.declarePattern i pattern listed scope kind) :=
  (extends_addSite a _).trans (.foldl (fun _ _ => extends_declareName ..) _ _)

theorem extends_writtenByLoop (a : Analysis) (scope : ScopeId) (i : SiteId) (name : Text) :
    Extends a (a.writtenByLoop scope i name) := by
  unfold writtenByLoop
  split
  · exact extends_addWrite ..
  · exact .refl a

theorem extends_declareVariable (a : Analysis) (i : SiteId) (kind : VariableKind) (loopHead : Bool)
    (outer : ScopeId) (declarator : Node) :
    Extends a (a.declareVariable i kind loopHead outer declarator) := by
  refine (extends_addSite a _).trans (.foldl (fun a' name => ?_) _ _)
  simp only
  split
  · exact (extends_declareName ..).trans (extends_writtenByLoop ..)
  · exact extends_declareName ..

theorem extends_declareParameters (a : Analysis) (i : SiteId) (form : Form) (own : ScopeId)
    (children : List Node) : Extends a (a.declareParameters i form own children) := by
  unfold declareParameters
  refine .trans ?_ (.foldl (fun _ _ => extends_declarePattern ..) _ _)
  split
  · exact extends_declarePattern ..
  · exact .refl a

theorem extends_declareHere (a : Analysis) (i : SiteId) (form : Form) (parent : Option Form)
    (outer inner : ScopeId) (children : List Node) :
    Extends a (a.declareHere i form parent outer inner children) := by
  unfold declareHere
  split
  · exact .foldl (fun _ _ => extends_declareVariable ..) _ _
  · refine .trans ?_ (extends_declareParameters ..)
    split
    · exact extends_declareName ..
    · exact .refl a
  · exact extends_declareParameters ..
  · exact extends_declareParameters ..
  · split
    · exact extends_declareName ..
    · exact .refl a
  · split
    · exact extends_declarePattern ..
    · exact .refl a
  · exact .refl a

theorem extends_declare (a : Analysis) (i : SiteId) (parent : Option Form) (outer : ScopeId)
    (n : Node) : Extends a (a.declare i parent outer n) := by
  refine Node.rec
    (motive_1 := fun n => ∀ (a : Analysis) (i : SiteId) (parent : Option Form) (outer : ScopeId),
      Extends a (a.declare i parent outer n))
    (motive_2 := fun cs => ∀ (a : Analysis) (i : SiteId) (form : Form) (outer inner : ScopeId),
      Extends a (a.declareAll i form outer inner cs))
    ?_ ?_ ?_ n a i parent outer
  · intro id role form cs ih a i parent outer
    unfold declare
    exact (extends_ensureScope ..).trans ((extends_declareHere ..).trans (ih ..))
  · intro a i form outer inner
    exact .refl a
  · intro c cs ihc ihcs a i form outer inner
    cases c with
    | mk id role f children =>
      unfold declareAll
      split
      · exact ihcs ..
      · exact (extends_addSite a _).trans ((ihc ..).trans (ihcs ..))

/-! ## References -/

theorem extends_addReference (a : Analysis) (i : SiteId) (u : Usage) (name : Text) :
    Extends a (a.addReference i u name) := by
  unfold addReference
  split
  · exact .refl a
  · split
    · exact extends_addWrite ..
    · simp only
      split <;> exact .of_eq rfl rfl rfl
    · exact .refl a

theorem extends_resolve (a : Analysis) (i : SiteId) (u : Usage) (n : Node) :
    Extends a (a.resolve i u n) := by
  refine Node.rec
    (motive_1 := fun n => ∀ (a : Analysis) (i : SiteId) (u : Usage), Extends a (a.resolve i u n))
    (motive_2 := fun cs => ∀ (a : Analysis) (i : SiteId) (u : Usage) (form : Form)
      (outer inner : ScopeId), Extends a (a.resolveAll i u form outer inner cs))
    ?_ ?_ ?_ n a i u
  · intro id role form cs ih a i u
    unfold resolve
    split
    · exact .refl a
    · exact extends_addReference ..
    · exact ih ..
  · intro a i u form outer inner
    exact .refl a
  · intro c cs ihc ihcs a i u form outer inner
    cases c with
    | mk id role f children =>
      unfold resolveAll
      split
      · exact ihcs ..
      · exact (extends_addSite a _).trans ((ihc ..).trans (ihcs ..))

theorem extends_register (a : Analysis) (i : SiteId) : Extends a (a.register i) :=
  (extends_declare ..).trans (extends_resolve ..)

theorem extends_ofProgram (program : Node) : Extends (start program) (ofProgram program) :=
  extends_register (start program) 0

end Analysis

end Untangle
