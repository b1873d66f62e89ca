import Untangle.Proofs.Scoping.Scopes

set_option autoImplicit false

/-!
# What taking up a tree keeps of the records

Every site is younger than the one above it, and the passes over a tree that was put in keep it so.  They
record reads of the identifiers of this tree only: other identifiers stay recorded where they are.
-/

namespace Untangle

namespace Analysis

variable {a a' a'' : Analysis} {i : SiteId} {K K' : NodeId → Prop}

/-- Beyond the sites that there are, there is none above. -/
theorem above_of_size_le {k : SiteId} (h : a.sites.size ≤ k) : (a.site k).above = none := by
  rw [site, Array.getD_eq_getD_getElem?, Array.getElem?_eq_none h]
  rfl

/-- Every site is younger than the one above it. -/
def Ordered (a : Analysis) : Prop := ∀ k p, (a.site k).above = some p → p < k

theorem Ordered.of_sites (h : Ordered a) (hsites : a'.sites = a.sites) : Ordered a' := by
  intro k p hp
  rw [site, hsites] at hp
  exact h k p hp

theorem Ordered.addSite (h : Ordered a) {s : Site} (hs : ∀ p, s.above = some p → p < a.sites.size) :
    Ordered (a.addSite s).2 := by
  intro k p hp
  obtain hk | rfl | hk := Nat.lt_trichotomy k a.sites.size
  · rw [(extends_addSite a s).site_eq hk] at hp
    exact h k p hp
  · rw [site_addSite] at hp
    exact hs p hp
  · have hsize : (a.addSite s).2.sites.size ≤ k := by
      show (a.sites.push s).size ≤ k
      rw [Array.size_push]
      exact hk
    rw [above_of_size_le hsize] at hp
    cases hp

/-- A new site at which a node stands is not retired. -/
theorem retired_addSite {s : Site} {k : SiteId} (hs : s.retired = false)
    (hk : ((a.addSite s).2.site k).retired = true) : (a.site k).retired = true := by
  obtain hlt | rfl | hgt := Nat.lt_trichotomy k a.sites.size
  · rwa [(extends_addSite a s).site_eq hlt] at hk
  · rw [site_addSite, hs] at hk
    cases hk
  · have hsize : (a.addSite s).2.sites.size ≤ k := by
      show (a.sites.push s).size ≤ k
      rw [Array.size_push]
      exact hgt
    rw [site, Array.getD_eq_getD_getElem?, Array.getElem?_eq_none hsize] at hk
    cases hk

/-- What is bound was declared at a site that there is. -/
def Seated (a : Analysis) : Prop := ∀ b < a.bindings.size, (a.binding b).site < a.sites.size

/-- Sites are added below those that there are, and reads of some nodes are recorded. -/
structure TakesUp (K : NodeId → Prop) (a a' : Analysis) : Prop where
  size : a.sites.size ≤ a'.sites.size
  ordered : Ordered a → Ordered a'
  retired : ∀ k, (a'.site k).retired = true → (a.site k).retired = true
  tops : ∀ k < a'.sites.size, (a'.site k).above = none → k < a.sites.size ∧ (a.site k).above = none
  attic : a'.attic = a.attic
  seated : Seated a → Seated a'
  reads : ∀ b id j, ¬ K id → (a.binding b).reads.get? id = some j →
    (a'.binding b).reads.get? id = some j

namespace TakesUp

theorem refl (K : NodeId → Prop) (a : Analysis) : TakesUp K a a :=
  ⟨Nat.le_refl _, fun h => h, fun _ h => h, fun _ hk htop => ⟨hk, htop⟩, rfl, fun h => h,
    fun _ _ _ _ h => h⟩

theorem trans (h : TakesUp K a a') (h' : TakesUp K a' a'') : TakesUp K a a'' :=
  ⟨Nat.le_trans h.size h'.size, fun hord => h'.ordered (h.ordered hord),
    fun k hk => h.retired k (h'.retired k hk), fun k hk htop =>
      have hbefore := h'.tops k hk htop
      h.tops k hbefore.1 hbefore.2,
    h'.attic.trans h.attic, fun hseated => h'.seated (h.seated hseated),
    fun b id j hid hj => h'.reads b id j hid (h.reads b id j hid hj)⟩

theorem mono (h : TakesUp K a a') (hK : ∀ id, K id → K' id) : TakesUp K' a a' :=
  ⟨h.size, h.ordered, h.retired, h.tops, h.attic, h.seated, fun b id j hid hj =>
    h.reads b id j (fun hk => hid (hK id hk)) hj⟩

/-- Whatever is no site and no binding and was not taken out may change. -/
theorem of_eq (hsites : a'.sites = a.sites) (hbindings : a'.bindings = a.bindings)
    (hattic : a'.attic = a.attic) : TakesUp K a a' :=
  ⟨Nat.le_of_eq (congrArg Array.size hsites).symm, fun h => h.of_sites hsites, fun k hk => by
    rwa [site, hsites] at hk, fun k hk htop => by
    rw [site, hsites] at htop
    exact ⟨hsites ▸ hk, htop⟩, hattic, fun h b hb => by
    rw [binding, hbindings, hsites]
    exact h b (hbindings ▸ hb), fun b id j _ hj => by rwa [binding, hbindings]⟩

theorem addSite (K : NodeId → Prop) (a : Analysis) {s : Site}
    {p : SiteId} (hp : s.above = some p) (hlt : p < a.sites.size) (hretired : s.retired = false) :
    TakesUp K a (a.addSite s).2 := by
  refine ⟨(extends_addSite a s).size_le, fun h => h.addSite fun q hq => ?_,
    fun _ => retired_addSite hretired, fun k hk htop => ?_, rfl,
    fun h b hb => Nat.lt_of_lt_of_le (h b hb) (extends_addSite a s).size_le, fun _ _ _ _ h => h⟩
  · rw [hp] at hq
    cases hq
    exact hlt
  · have hsize : k < a.sites.size + 1 := Nat.lt_of_lt_of_eq hk (Array.size_push s)
    obtain hold | rfl := Nat.lt_or_eq_of_le (Nat.le_of_lt_succ hsize)
    · rw [(extends_addSite a s).site_eq hold] at htop
      exact ⟨hold, htop⟩
    · rw [site_addSite, hp] at htop
      cases htop

theorem addSiteBelow (K : NodeId → Prop) (a : Analysis) (hi : i < a.sites.size) (c : Node)
    (listed : Bool) (scope : ScopeId) : TakesUp K a (a.addSiteBelow i c listed scope).2 :=
  .addSite K a rfl hi rfl

theorem modifyBinding (a : Analysis) (b : BindingId) {f : Binding → Binding}
    (hsite : ∀ x, (f x).site = x.site ∨ (f x).site < a.sites.size)
    (hf : ∀ x id, ¬ K id → (f x).reads.get? id = x.reads.get? id) :
    TakesUp K a (a.modifyBinding b f) := by
  refine ⟨Nat.le_refl _, fun h => h.of_sites rfl, fun _ h => h, fun _ hk htop => ⟨hk, htop⟩, rfl,
    fun h b' hb' => ?_, fun b' id j hid hj => ?_⟩
  · have hknown : (a.binding b').site < a.sites.size :=
      h b' (Nat.lt_of_lt_of_eq hb' (Array.size_modify ..))
    obtain heq | heq := binding_modifyBinding a b b' f
    · rw [heq]
      exact (hsite (a.binding b')).elim (fun hsame => hsame ▸ hknown) id
    · rw [heq]
      exact hknown
  · obtain heq | heq := binding_modifyBinding a b b' f
    · rw [heq, hf _ id hid]
      exact hj
    · rw [heq]
      exact hj

theorem addWrite (K : NodeId → Prop) (a : Analysis) (b : BindingId) (i : SiteId) :
    TakesUp K a (a.addWrite b i) := .modifyBinding a b (fun _ => .inl rfl) fun _ _ _ => rfl

/-- One change after the other, all of them at a site that there is. -/
theorem foldl {γ : Type} {f : Analysis → γ → Analysis}
    (hf : ∀ a x, i < a.sites.size → TakesUp K a (f a x)) (xs : List γ) (hi : i < a.sites.size) :
    TakesUp K a (xs.foldl f a) := by
  induction xs generalizing a with
  | nil => exact .refl K a
  | cons x xs ih =>
    have hx := hf a x hi
    exact hx.trans (ih (Nat.lt_of_lt_of_le hi hx.size))

/-! ## Declarations -/

section Declarations

variable (K) (hi : i < a.sites.size)

theorem ensureScope (a : Analysis) (node : NodeId) (form : Form) (parent : Option Form)
    (outer : ScopeId) : TakesUp K a (a.ensureScope node form parent outer).2 := by
  unfold Analysis.ensureScope
  split
  · exact .refl K a
  · split
    · exact .of_eq rfl rfl rfl
    · exact .refl K a

theorem writtenByLoop (a : Analysis) (scope : ScopeId) (i : SiteId) (name : Text) :
    TakesUp K a (a.writtenByLoop scope i name) := by
  unfold Analysis.writtenByLoop
  split
  · exact .addWrite K a _ i
  · exact .refl K a

include hi

theorem withName (k : ScopeId) (kind : BindingKind) (name : Text) :
    TakesUp K a (a.withName k kind i name) := by
  refine ⟨Nat.le_refl _, fun h => h.of_sites rfl, fun _ h => h, fun _ hk htop => ⟨hk, htop⟩, rfl,
    fun h b hb => ?_, fun b id j _ hj => ?_⟩
  · rw [binding_withName]
    split
    · exact hi
    · next hne =>
      rw [size_withName] at hb
      exact h b (Nat.lt_of_le_of_ne (Nat.le_of_lt_succ hb) hne)
  · rw [binding_withName]
    split
    · next hb =>
      -- A binding that there was not has no reads.
      rw [hb, binding, Array.getD_eq_getD_getElem?, Array.getElem?_eq_none (Nat.le_refl _)] at hj
      cases hj
    · exact hj

theorem declareName (scope : ScopeId) (kind : BindingKind) (name : Text) :
    TakesUp K a (a.declareName scope kind i name) := by
  unfold Analysis.declareName
  simp only
  split
  · exact .modifyBinding a _ (fun _ => .inr hi) fun _ _ _ => rfl
  · split
    · exact .addWrite K a _ i
    · exact .withName K hi scope kind name

theorem declarePattern (pattern : Node) (listed : Bool) (scope : ScopeId) (kind : BindingKind) :
    TakesUp K a (a.declarePattern i pattern listed scope kind) := by
  have hsite := TakesUp.addSiteBelow K a hi pattern listed scope
  exact hsite.trans (.foldl (fun _ _ hj => .declareName K hj ..) _ (known_addSiteBelow ..))

theorem declareVariable (kind : VariableKind) (loopHead : Bool) (outer : ScopeId) (declarator : Node) :
    TakesUp K a (a.declareVariable i kind loopHead outer declarator) := by
  have hsite := TakesUp.addSiteBelow K a hi declarator true outer
  refine hsite.trans (.foldl (fun a' name hj => ?_) _ (known_addSiteBelow ..))
  simp only
  split
  · exact (declareName K hj ..).trans (writtenByLoop K ..)
  · exact declareName K hj ..

theorem declareParameters (form : Form) (own : ScopeId) (children : List Node) :
    TakesUp K a (a.declareParameters i form own children) := by
  unfold Analysis.declareParameters
  dsimp only
  split
  · next name _ =>
    have hname := declarePattern K hi name false own .ownName
    exact hname.trans
      (.foldl (fun _ _ hi' => declarePattern K hi' ..) _ (Nat.lt_of_lt_of_le hi hname.size))
  · exact .foldl (fun _ _ hi' => declarePattern K hi' ..) _ hi

theorem declareHere (form : Form) (parent : Option Form) (outer inner : ScopeId)
    (children : List Node) : TakesUp K a (a.declareHere i form parent outer inner children) := by
  unfold Analysis.declareHere
  split
  · exact .foldl (fun _ _ hi' => declareVariable K hi' ..) _ hi
  · dsimp only
    split
    · next name _ =>
      have hname := declareName K hi outer .hoisted name
      exact hname.trans (declareParameters K (Nat.lt_of_lt_of_le hi hname.size) ..)
    · exact declareParameters K hi ..
  · exact declareParameters K hi ..
  · exact declareParameters K hi ..
  · split
    · exact declareName K hi ..
    · exact .refl K a
  · split
    · exact declarePattern K hi ..
    · exact .refl K a
  · exact .refl K a

end Declarations

theorem declare (K : NodeId → Prop) (hi : i < a.sites.size) (parent : Option Form) (outer : ScopeId)
    (n : Node) : TakesUp K a (a.declare i parent outer n) := by
  refine Node.rec
    (motive_1 := fun n => ∀ (a : Analysis) (i : SiteId) (parent : Option Form) (outer : ScopeId),
      i < a.sites.size → TakesUp K a (a.declare i parent outer n))
    (motive_2 := fun cs => ∀ (a : Analysis) (i : SiteId) (form : Form) (outer inner : ScopeId),
      i < a.sites.size → TakesUp K a (a.declareAll i form outer inner cs))
    ?_ ?_ ?_ n a i parent outer hi
  · intro id role form cs ih a i parent outer hi
    unfold Analysis.declare
    have hscope := ensureScope K a id form parent outer
    have hi' := Nat.lt_of_lt_of_le hi hscope.size
    have hhere := declareHere K hi' form parent outer
      ((a.ensureScope id form parent outer).1.getD outer) cs
    exact (hscope.trans hhere).trans (ih _ i form outer _ (Nat.lt_of_lt_of_le hi' hhere.size))
  · intro a i form outer inner _
    exact .refl K a
  · intro c cs ihc ihcs a i form outer inner hi
    cases c with
    | mk id role f children =>
      unfold Analysis.declareAll
      split
      · exact ihcs _ _ _ _ _ hi
      · have hsite := TakesUp.addSiteBelow K a hi (.mk id role f children) (form.isListed role)
          (childScope form role outer inner)
        have hchild := ihc _ a.sites.size (some form) (childScope form role outer inner)
          (known_addSite a ⟨id, some i, role, form.isListed role, childScope form role outer inner, false⟩)
        have hboth := hsite.trans hchild
        exact hboth.trans (ihcs _ i form outer inner (Nat.lt_of_lt_of_le hi hboth.size))

/-! ## References -/

theorem addRead {id : NodeId} (hid : (a.site i).node = id) (b : BindingId) (r : Dict NodeId BindingId) :
    TakesUp (· = id) a { a.addRead b i with resolved := r } := by
  subst hid
  have hread : TakesUp (· = (a.site i).node) a (a.addRead b i) :=
    modifyBinding a b (fun _ => .inl rfl) fun x _ hid => Dict.get?_put_of_ne x.reads hid i
  exact hread.trans (.of_eq rfl rfl rfl)

theorem addReference (a : Analysis) (i : SiteId) (u : Usage) (name : Text) :
    TakesUp (· = (a.site i).node) a (a.addReference i u name) := by
  unfold Analysis.addReference
  split
  · exact .refl _ a
  · split
    · exact .addWrite _ a _ i
    · simp only
      split
      · next b' _ =>
        have herase : TakesUp (· = (a.site i).node) a (a.modifyBinding b' fun x =>
            { x with reads := x.reads.erase (a.site i).node }) :=
          modifyBinding a b' (fun _ => .inl rfl) fun x _ hid => Dict.get?_erase_of_ne x.reads hid
        have hsame : ((a.modifyBinding b' fun x =>
            { x with reads := x.reads.erase (a.site i).node }).site i).node = (a.site i).node := rfl
        exact herase.trans (addRead hsame _ _)
      · exact addRead rfl _ _
    · exact .refl _ a

/-- Reads of the nodes of a tree are recorded, and of no others. -/
theorem resolve {n : Node} (hi : i < a.sites.size) (hnode : (a.site i).node = n.id) (u : Usage) :
    TakesUp (· ∈ n.identities) a (a.resolve i u n) := by
  refine Node.rec
    (motive_1 := fun n => ∀ (a : Analysis) (i : SiteId) (u : Usage), i < a.sites.size →
      (a.site i).node = n.id → TakesUp (· ∈ n.identities) a (a.resolve i u n))
    (motive_2 := fun cs => ∀ (a : Analysis) (i : SiteId) (u : Usage) (form : Form)
      (outer inner : ScopeId), i < a.sites.size →
      TakesUp (· ∈ Node.identitiesAll cs) a (a.resolveAll i u form outer inner cs))
    ?_ ?_ ?_ n a i u hi hnode
  · intro id role form cs ih a i u hi hnode
    unfold Analysis.resolve
    split
    · exact .refl _ a
    · refine (addReference a i u _).mono fun k hk => ?_
      rw [hk, hnode]
      exact List.mem_cons_self
    · exact (ih _ i u form _ _ hi).mono fun k hk => List.mem_cons_of_mem id hk
  · intro a i u form outer inner _
    exact .refl _ a
  · intro c cs ihc ihcs a i u form outer inner hi
    cases c with
    | mk id role f children =>
      unfold Analysis.resolveAll
      split
      · exact (ihcs _ _ _ _ _ _ hi).mono fun k hk => List.mem_append_right _ hk
      · let s : Site := ⟨id, some i, role, form.isListed role, childScope form role outer inner, false⟩
        have hsite : TakesUp (· ∈ Node.identitiesAll (.mk id role f children :: cs)) a (a.addSite s).2 :=
          .addSiteBelow _ a hi (.mk id role f children) (form.isListed role)
            (childScope form role outer inner)
        have hchild := ihc _ a.sites.size (u.ofChild form role f) (known_addSite a s)
          (congrArg Site.node (site_addSite a s))
        have hboth := hsite.trans (hchild.mono fun k hk => List.mem_append_left _ hk)
        exact hboth.trans
          ((ihcs _ i u form outer inner (Nat.lt_of_lt_of_le hi hboth.size)).mono fun k hk =>
            List.mem_append_right _ hk)

/-- A tree is taken up at a site that leads to it. -/
theorem register (hi : i < a.sites.size) (hnode : (a.site i).node = (a.nodeAt i).id) :
    TakesUp (· ∈ (a.nodeAt i).identities) a (a.register i) := by
  have hdeclare := TakesUp.declare (· ∈ (a.nodeAt i).identities) hi
    ((a.site i).above.map fun p => (a.nodeAt p).form) (a.site i).scope (a.nodeAt i)
  refine hdeclare.trans (.resolve (Nat.lt_of_lt_of_le hi hdeclare.size) ?_ .read)
  rw [(extends_declare ..).site_eq hi]
  exact hnode

end TakesUp

/-- The nodes of a program are taken up when it is analysed. -/
theorem takesUp_ofProgram (root : Node) :
    TakesUp (· ∈ root.identities) (start root) (ofProgram root) := by
  have hnode : (start root).nodeAt 0 = root := by
    unfold nodeAt attachedNode?
    rw [way_of_root (i := 0) (a := start root) rfl]
    rfl
  have hregister := TakesUp.register (a := start root) (i := 0) Nat.zero_lt_one (by rw [hnode]; rfl)
  rwa [hnode] at hregister

/-- The sites of a program that was just analysed. -/
theorem ordered_ofProgram (root : Node) : Ordered (ofProgram root) := by
  have hsite : (start root).site 0 = ⟨root.id, none, .top, false, 0, false⟩ := rfl
  have hstart : Ordered (start root) := by
    intro k p hp
    cases k with
    | zero =>
      rw [hsite] at hp
      cases hp
    | succ k =>
      rw [above_of_size_le (Nat.succ_le_succ (Nat.zero_le k) : (start root).sites.size ≤ k + 1)] at hp
      cases hp
  exact (takesUp_ofProgram root).ordered hstart

theorem seated_ofProgram (root : Node) : Seated (ofProgram root) :=
  (takesUp_ofProgram root).seated fun b hb => absurd hb (Nat.not_lt_zero b)

end Analysis

end Untangle
