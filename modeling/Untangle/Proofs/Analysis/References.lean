import Untangle.Proofs.Analysis.Usage

set_option autoImplicit false

/-!
# What an analysis records

The places at which a binding is read and written are collected by two passes.  The first one records
declarations as writes, if the name was declared before; the second one records identifiers by what
happens to them.  Here both passes are followed through the tree: whatever they record stands at a node
of the program that is read, written or declares.

The main theorem is `names_unrecorded`.  Names of members to which something is assigned are the exception:
they are recorded as reads, if there is a declaration of that name.
-/

namespace Untangle

namespace Analysis

/-! ## Records -/

/-- A node that can be recorded as a declaration. -/
def Declares (program c : Node) : Prop :=
  c.Inside program ∧
    (c.role ∈ [Role.declarations, .params, .param, .id] ∨
      (∃ flags, c.form = .functionDeclaration flags) ∨ c.form = .classDeclaration)

/-- A node that can be recorded as a write. -/
def Writes (program c : Node) : Prop := Used program .write c ∨ Declares program c

/-- A node that can be recorded as a read: a name that is read. -/
def Reads (program c : Node) : Prop := Used program .read c ∧ ∃ name, c.form = .identifier name

/-- The identity of the node that stands at a site. -/
def At (a : Analysis) (i : SiteId) (k : NodeId) : Prop := ∃ s, a.sites[i]? = some s ∧ s.node = k

theorem At.node_eq {a : Analysis} {i : SiteId} {k : NodeId} (h : a.At i k) : (a.site i).node = k := by
  obtain ⟨s, hs, rfl⟩ := h
  simp [site, hs]

/-- Sites stay, and whatever is recorded anew stands at a node that is read or written. -/
structure Grows (program : Node) (a a' : Analysis) : Prop where
  sites : ∀ i k, a.At i k → a'.At i k
  reads : ∀ b, ∀ i ∈ (a'.binding b).reads.values,
    i ∈ (a.binding b).reads.values ∨ ∃ c, Reads program c ∧ a'.At i c.id
  writes : ∀ b, ∀ i ∈ (a'.binding b).writes.values,
    i ∈ (a.binding b).writes.values ∨ ∃ c, Writes program c ∧ a'.At i c.id

namespace Grows

variable {program : Node} {a a' a'' : Analysis}

theorem refl (program : Node) (a : Analysis) : Grows program a a :=
  ⟨fun _ _ h => h, fun _ _ h => .inl h, fun _ _ h => .inl h⟩

theorem trans (h : Grows program a a') (h' : Grows program a' a'') : Grows program a a'' := by
  refine ⟨fun i k hi => h'.sites i k (h.sites i k hi), fun b i hi => ?_, fun b i hi => ?_⟩
  · obtain hi | hnew := h'.reads b i hi
    · obtain hi | ⟨c, hc, hat⟩ := h.reads b i hi
      · exact .inl hi
      · exact .inr ⟨c, hc, h'.sites _ _ hat⟩
    · exact .inr hnew
  · obtain hi | hnew := h'.writes b i hi
    · obtain hi | ⟨c, hc, hat⟩ := h.writes b i hi
      · exact .inl hi
      · exact .inr ⟨c, hc, h'.sites _ _ hat⟩
    · exact .inr hnew

/-- Whatever is neither a site nor a binding may change. -/
theorem of_eq (hsites : a'.sites = a.sites) (hbindings : a'.bindings = a.bindings) :
    Grows program a a' := by
  have hbinding : ∀ b, a'.binding b = a.binding b := fun b => by rw [binding, hbindings, binding]
  refine ⟨fun i k h => ?_, fun b i hi => ?_, fun b i hi => ?_⟩
  · rwa [At, hsites]
  · exact .inl (hbinding b ▸ hi)
  · exact .inl (hbinding b ▸ hi)

/-- One change after the other. -/
theorem foldl {γ : Type} {f : Analysis → γ → Analysis} {xs : List γ} (h : Grows program a a')
    (hf : ∀ a', Grows program a a' → ∀ x ∈ xs, Grows program a' (f a' x)) :
    Grows program a (xs.foldl f a') := by
  induction xs generalizing a' with
  | nil => exact h
  | cons x xs ih =>
    exact ih (h.trans (hf a' h x List.mem_cons_self)) fun a' h y hy =>
      hf a' h y (List.mem_cons_of_mem x hy)

end Grows

variable {program n c : Node} {a : Analysis} {i : SiteId} {b : BindingId}

theorem binding_modifyBinding (a : Analysis) (b b' : BindingId) (f : Binding → Binding) :
    (a.modifyBinding b f).binding b' = f (a.binding b') ∨
      (a.modifyBinding b f).binding b' = a.binding b' := by
  simp only [binding, modifyBinding, Array.getD_eq_getD_getElem?, Array.getElem?_modify]
  split
  · cases a.bindings[b']? with
    | none => exact .inr rfl
    | some x => exact .inl rfl
  · exact .inr rfl

theorem grows_modifyBinding {f : Binding → Binding}
    (hreads : ∀ x, ∀ i ∈ (f x).reads.values,
      i ∈ x.reads.values ∨ ∃ c, Reads program c ∧ a.At i c.id)
    (hwrites : ∀ x, ∀ i ∈ (f x).writes.values,
      i ∈ x.writes.values ∨ ∃ c, Writes program c ∧ a.At i c.id) :
    Grows program a (a.modifyBinding b f) := by
  refine ⟨fun _ _ h => h, fun b' i hi => ?_, fun b' i hi => ?_⟩
  · obtain h | h := binding_modifyBinding a b b' f
    · exact hreads _ i (h ▸ hi)
    · exact .inl (h ▸ hi)
  · obtain h | h := binding_modifyBinding a b b' f
    · exact hwrites _ i (h ▸ hi)
    · exact .inl (h ▸ hi)

theorem grows_addWrite (hat : a.At i c.id) (hc : Writes program c) :
    Grows program a (a.addWrite b i) := by
  refine grows_modifyBinding (fun _ _ h => .inl h) fun x j hj => ?_
  obtain rfl | hj := Dict.mem_values_put hj
  · exact .inr ⟨c, hc, hat⟩
  · exact .inl hj

theorem grows_addRead (hat : a.At i c.id) (hc : Reads program c) :
    Grows program a (a.addRead b i) := by
  refine grows_modifyBinding (fun x j hj => ?_) fun _ _ h => .inl h
  obtain rfl | hj := Dict.mem_values_put hj
  · exact .inr ⟨c, hc, hat⟩
  · exact .inl hj

theorem grows_addSite (program : Node) (a : Analysis) (s : Site) :
    Grows program a (a.addSite s).2 := by
  refine ⟨fun i k h => ?_, fun _ _ h => .inl h, fun _ _ h => .inl h⟩
  obtain ⟨s', hs', hk⟩ := h
  refine ⟨s', ?_, hk⟩
  have hlt := (Array.getElem?_eq_some_iff.mp hs').1
  simp only [addSite, Array.getElem?_push]
  rw [if_neg (Nat.ne_of_lt hlt)]
  exact hs'

theorem at_addSite (a : Analysis) (s : Site) : (a.addSite s).2.At (a.addSite s).1 s.node :=
  ⟨s, by simp [addSite], rfl⟩

/-- A new binding has no records. -/
theorem grows_pushBinding {a' : Analysis} {x : Binding} (hsites : a'.sites = a.sites)
    (hbindings : a'.bindings = a.bindings.push x) (hreads : x.reads = .empty)
    (hwrites : x.writes = .empty) : Grows program a a' := by
  have hbinding : ∀ b, a'.binding b = x ∨ a'.binding b = a.binding b := by
    intro b
    simp only [binding, hbindings, Array.getD_eq_getD_getElem?, Array.getElem?_push]
    split
    · exact .inl rfl
    · exact .inr rfl
  refine ⟨fun i k h => ?_, fun b i hi => ?_, fun b i hi => ?_⟩
  · rwa [At, hsites]
  · obtain h | h := hbinding b
    · rw [h, hreads] at hi
      cases hi
    · exact .inl (h ▸ hi)
  · obtain h | h := hbinding b
    · rw [h, hwrites] at hi
      cases hi
    · exact .inl (h ▸ hi)

/-! ## Declarations -/

theorem grows_ensureScope (program : Node) (a : Analysis) (node : NodeId) (form : Form)
    (parent : Option Form) (outer : ScopeId) : Grows program a (a.ensureScope node form parent outer).2 := by
  unfold ensureScope
  split
  · exact .refl _ _
  · split
    · exact .of_eq rfl rfl
    · exact .refl _ _

theorem grows_declareName (hat : a.At i c.id) (hc : Declares program c) (scope : ScopeId)
    (kind : BindingKind) (name : Text) : Grows program a (a.declareName scope kind i name) := by
  unfold declareName
  simp only
  split
  · exact grows_modifyBinding (fun _ _ h => .inl h) fun _ _ h => .inl h
  · split
    · exact grows_addWrite hat (.inr hc)
    · exact grows_pushBinding (x := ⟨name, kind, i, scope, .empty, .empty⟩) rfl rfl rfl rfl

/-- What is done for some names at a new site. -/
theorem grows_addSite_foldl {γ : Type} {f : Analysis → γ → Analysis} {xs : List γ} {s : Site}
    (hf : ∀ a', a'.At (a.addSite s).1 s.node → ∀ x ∈ xs, Grows program a' (f a' x)) :
    Grows program a (xs.foldl f (a.addSite s).2) :=
  (grows_addSite program a s).trans
    (.foldl (.refl _ _) fun a' h => hf a' (h.sites _ _ (at_addSite a s)))

theorem grows_declarePattern (hc : Declares program c) (i : SiteId) (listed : Bool)
    (scope : ScopeId) (kind : BindingKind) :
    Grows program a (a.declarePattern i c listed scope kind) :=
  grows_addSite_foldl fun _ hat name _ => grows_declareName hat hc scope kind name

theorem grows_writtenByLoop (hat : a.At i c.id) (hc : Declares program c) (scope : ScopeId)
    (name : Text) : Grows program a (a.writtenByLoop scope i name) := by
  unfold writtenByLoop
  split
  · exact grows_addWrite hat (.inr hc)
  · exact .refl _ _

theorem grows_declareVariable (hc : Declares program c) (i : SiteId) (kind : VariableKind)
    (loopHead : Bool) (outer : ScopeId) :
    Grows program a (a.declareVariable i kind loopHead outer c) := by
  refine grows_addSite_foldl fun a' hat name _ => ?_
  have hdeclare : ∀ target, Grows program a' (a'.declareName target (.variable kind) _ name) :=
    fun target => grows_declareName hat hc target _ name
  simp only
  split
  · exact (hdeclare _).trans (grows_writtenByLoop ((hdeclare _).sites _ _ hat) hc _ name)
  · exact hdeclare _

/-- Children in the slots of declarations declare. -/
theorem declares_of_role {cs : List Node} (hcs : ∀ c ∈ cs, c.Inside program) {r : Role}
    (hr : r ∈ [Role.declarations, .params, .param, .id]) (hc : c ∈ cs)
    (hrole : (c.role == r) = true) : Declares program c :=
  ⟨hcs c hc, .inl (eq_of_beq hrole ▸ hr)⟩

theorem grows_declareParameters {cs : List Node} (hcs : ∀ c ∈ cs, c.Inside program) (i : SiteId)
    (form : Form) (own : ScopeId) : Grows program a (a.declareParameters i form own cs) := by
  unfold declareParameters
  refine .foldl ?_ fun a' _ p hp => ?_
  · split
    · next name hname =>
      have hrole := List.find?_some hname
      exact grows_declarePattern
        (declares_of_role hcs (by decide) (List.mem_of_find?_eq_some hname) hrole) ..
    · exact .refl _ _
  · obtain ⟨hp, hrole⟩ := List.mem_filter.mp hp
    exact grows_declarePattern (declares_of_role hcs (by decide) hp hrole) ..

theorem grows_declareHere (hn : n.Inside program) (hat : a.At i n.id) (parent : Option Form)
    (outer inner : ScopeId) :
    Grows program a (a.declareHere i n.form parent outer inner n.children) := by
  have hcs : ∀ c ∈ n.children, c.Inside program := fun c hc => (Node.Inside.child hc).trans hn
  unfold declareHere
  split
  · refine .foldl (.refl _ _) fun a' _ d hd => ?_
    obtain ⟨hd, hrole⟩ := List.mem_filter.mp hd
    exact grows_declareVariable (declares_of_role hcs (by decide) hd hrole) ..
  · next flags hform =>
    refine .trans ?_ (grows_declareParameters hcs ..)
    split
    · exact grows_declareName hat ⟨hn, .inr (.inl ⟨flags, hform⟩)⟩ ..
    · exact .refl _ _
  · exact grows_declareParameters hcs ..
  · exact grows_declareParameters hcs ..
  · next hform =>
    split
    · exact grows_declareName hat ⟨hn, .inr (.inr hform)⟩ ..
    · exact .refl _ _
  · split
    · next p hp =>
      have hrole := List.find?_some hp
      exact grows_declarePattern
        (declares_of_role hcs (by decide) (List.mem_of_find?_eq_some hp) hrole) ..
    · exact .refl _ _
  · exact .refl _ _

/-- The first pass records declarations. -/
theorem grows_declare (hn : n.Inside program) (hat : a.At i n.id) (parent : Option Form)
    (outer : ScopeId) : Grows program a (a.declare i parent outer n) := by
  refine Node.rec
    (motive_1 := fun n => ∀ (a : Analysis) (i : SiteId) (parent : Option Form) (outer : ScopeId),
      n.Inside program → a.At i n.id → Grows program a (a.declare i parent outer n))
    (motive_2 := fun cs => ∀ (a : Analysis) (i : SiteId) (form : Form) (outer inner : ScopeId),
      (∀ c ∈ cs, c.Inside program) → Grows program a (a.declareAll i form outer inner cs))
    ?_ ?_ ?_ n a i parent outer hn hat
  · intro id role form cs ih a i parent outer hn hat
    unfold declare
    have hscope := grows_ensureScope program a id form parent outer
    have hhere := grows_declareHere hn (hscope.sites _ _ hat) parent outer
      ((a.ensureScope id form parent outer).1.getD outer)
    exact hscope.trans
      (hhere.trans (ih _ i form outer _ fun c hc => (Node.Inside.child hc).trans hn))
  · intro a i form outer inner _
    exact .refl _ _
  · intro c cs ihc ihcs a i form outer inner hcs
    have hrest : ∀ c ∈ cs, c.Inside program := fun d hd => hcs d (List.mem_cons_of_mem c hd)
    cases c with
    | mk id role f children =>
      unfold declareAll
      split
      · exact ihcs a i form outer inner hrest
      · let s : Site := ⟨id, some i, role, form.isListed role, childScope form role outer inner, false⟩
        have hsite := grows_addSite program a s
        have hchild := ihc (a.addSite s).2 (a.addSite s).1 (some form)
          (childScope form role outer inner) (hcs _ List.mem_cons_self) (at_addSite a s)
        exact hsite.trans (hchild.trans (ihcs _ i form outer inner hrest))

/-! ## References -/

theorem grows_addReference {u : Usage} {name : Text} (hc : Used program u c)
    (hname : c.form = .identifier name) (hat : a.At i c.id) :
    Grows program a (a.addReference i u name) := by
  unfold addReference
  split
  · exact .refl _ _
  · split
    · exact grows_addWrite hat (.inl hc)
    · have hread : ∀ {a' : Analysis} (b : BindingId), a'.At i c.id → Grows program a'
          { a'.addRead b i with resolved := (a'.addRead b i).resolved.put (a.site i).node b } :=
        fun b hat => (grows_addRead hat ⟨hc, name, hname⟩).trans (.of_eq rfl rfl)
      simp only
      split
      · refine .trans ?_ (hread _ hat)
        exact grows_modifyBinding (fun x j hj => .inl (Dict.mem_values_erase hj)) fun _ _ h => .inl h
      · exact hread _ hat
    · exact .refl _ _

/-- The second pass records identifiers by what happens to them. -/
theorem grows_resolve {u : Usage} (hn : Used program u n) (hat : a.At i n.id) :
    Grows program a (a.resolve i u n) := by
  refine Node.rec
    (motive_1 := fun n => ∀ (a : Analysis) (i : SiteId) (u : Usage),
      Used program u n → a.At i n.id → Grows program a (a.resolve i u n))
    (motive_2 := fun cs => ∀ (a : Analysis) (i : SiteId) (u : Usage) (n : Node)
      (outer inner : ScopeId), Used program u n → (∀ name, n.form ≠ .identifier name) →
      (∀ c ∈ cs, c ∈ n.children) → Grows program a (a.resolveAll i u n.form outer inner cs))
    ?_ ?_ ?_ n a i u hn hat
  · intro id role form cs ih a i u hn hat
    unfold resolve
    split
    · exact .refl _ _
    · exact grows_addReference hn rfl hat
    · next hname => exact ih a i u (.mk id role form cs) _ _ hn hname fun c hc => hc
  · intro a i u n outer inner _ _ _
    exact .refl _ _
  · intro c cs ihc ihcs a i u n outer inner hn hinner hcs
    have hrest : ∀ d ∈ cs, d ∈ n.children := fun d hd => hcs d (List.mem_cons_of_mem c hd)
    cases c with
    | mk id role f children =>
      unfold resolveAll
      split
      · exact ihcs a i u n outer inner hn hinner hrest
      · let s : Site :=
          ⟨id, some i, role, n.form.isListed role, childScope n.form role outer inner, false⟩
        have hsite := grows_addSite program a s
        have hchild := ihc (a.addSite s).2 (a.addSite s).1 (u.ofChild n.form role f)
          (.child hn hinner (hcs _ List.mem_cons_self)) (at_addSite a s)
        exact hsite.trans (hchild.trans (ihcs _ i u n outer inner hn hinner hrest))

/-- A tree that was put at a site is taken up. -/
theorem grows_register (hat : a.At i (a.nodeAt i).id) : Grows (a.nodeAt i) a (a.register i) := by
  unfold register
  have hdeclare := grows_declare (.self (a.nodeAt i)) hat
    ((a.site i).above.map fun p => (a.nodeAt p).form) (a.site i).scope
  exact hdeclare.trans (grows_resolve .root (hdeclare.sites _ _ hat))

/-! ## Programs -/

/-- The analysis of a program before the two passes. -/
def start (program : Node) : Analysis :=
  { program := program
    next := program.size + 1
    sites := #[⟨program.id, none, .top, false, 0, false⟩]
    scopes := #[⟨.program, program.id, none, .empty, []⟩]
    bindings := #[]
    opened := Dict.empty.put program.id 0
    declared := .empty
    resolved := .empty
    attic := [] }

theorem nodeAt_start (program : Node) : (start program).nodeAt 0 = program := by
  have hway : (start program).way 0 = [] := by
    unfold way wayOnto
    rfl
  have hattached : (start program).attachedNode? 0 = some program := by
    unfold attachedNode?
    rw [hway]
    rfl
  unfold nodeAt
  rw [hattached]

theorem ofProgram_eq (program : Node) :
    ofProgram program =
      ((start program).declare 0 none 0 program).resolve 0 .read program := by
  show (start program).register 0 = _
  unfold register
  rw [nodeAt_start]
  rfl

/-- All that the analysis of a program records stands at nodes that are read, written or declare. -/
theorem grows_ofProgram (program : Node) : Grows program (start program) (ofProgram program) := by
  have hat : (start program).At 0 program.id := ⟨_, rfl, rfl⟩
  have hdeclare := grows_declare (.self program) hat none 0
  rw [ofProgram_eq]
  exact hdeclare.trans (grows_resolve .root (hdeclare.sites _ _ hat))

/-- The nodes at which a binding is read. -/
def readNodes (a : Analysis) (b : BindingId) : List NodeId :=
  (a.references b).map fun i => (a.site i).node

/-- The nodes at which a binding is written again. -/
def writeNodes (a : Analysis) (b : BindingId) : List NodeId :=
  (a.violations b).map fun i => (a.site i).node

theorem used_of_mem_readNodes {k : NodeId} (h : k ∈ (ofProgram program).readNodes b) :
    ∃ c, Used program .read c ∧ c.id = k := by
  obtain ⟨i, hi, rfl⟩ := List.mem_map.mp h
  obtain hold | ⟨c, ⟨hc, -⟩, hat⟩ := (grows_ofProgram program).reads b i (List.mem_filter.mp hi).1
  · cases hold
  · exact ⟨c, hc, hat.node_eq.symm⟩

theorem writes_of_mem_writeNodes {k : NodeId} (h : k ∈ (ofProgram program).writeNodes b) :
    ∃ c, Writes program c ∧ c.id = k := by
  obtain ⟨i, hi, rfl⟩ := List.mem_map.mp h
  obtain hold | ⟨c, hc, hat⟩ := (grows_ofProgram program).writes b i (List.mem_filter.mp hi).1
  · cases hold
  · exact ⟨c, hc, hat.node_eq.symm⟩

/-- Mere names do not declare. -/
theorem not_declares_of_namesAt {f : Form} {name : Text} (hname : f.namesAt c.role)
    (hc : c.form = .identifier name) : ¬ Declares program c := by
  rintro ⟨-, hrole | ⟨flags, hform⟩ | hform⟩
  · unfold Form.namesAt at hname
    split at hname
    all_goals simp_all
  · rw [hc] at hform
    cases hform
  · rw [hc] at hform
    cases hform

/-- Names that are not expressions are recorded nowhere: the name of a property that is not computed,
the key of a property or a method that is not computed, and labels are neither read nor written, and a
name in declaring position is not read.  The names of members to which something is assigned are the
exception. -/
theorem names_unrecorded (hprogram : Grammatical program) (b : BindingId) :
    (∀ n c : Node, n.Inside program → c ∈ n.children → (∃ name, c.form = .identifier name) →
      n.form.namesAt c.role → (n.form.isMember → ¬ Target program n) →
      c.id ∉ (ofProgram program).readNodes b ∧ c.id ∉ (ofProgram program).writeNodes b) ∧
    ∀ c : Node, Declared program c → c.id ∉ (ofProgram program).readNodes b := by
  constructor
  · rintro n c hn hc ⟨name, hform⟩ hname hmember
    have hinside : c.Inside program := (Node.Inside.child hc).trans hn
    have hskip : ∀ {u}, Used program u c → u = .skip := fun h =>
      h.eq_skip_of_namesAt hprogram hn hc hname hmember
    constructor
    · intro hread
      obtain ⟨d, hd, hid⟩ := used_of_mem_readNodes hread
      cases Node.Inside.eq_of_id hprogram.identities hd.inside hinside hid
      cases hskip hd
    · intro hwrite
      obtain ⟨d, hd | hd, hid⟩ := writes_of_mem_writeNodes hwrite
      · cases Node.Inside.eq_of_id hprogram.identities hd.inside hinside hid
        cases hskip hd
      · cases Node.Inside.eq_of_id hprogram.identities hd.1 hinside hid
        exact not_declares_of_namesAt hname hform hd
  · intro c hc hread
    obtain ⟨d, hd, hid⟩ := used_of_mem_readNodes hread
    cases Node.Inside.eq_of_id hprogram.identities hd.inside hc.inside hid
    obtain h | h := hd.eq_declare_or_skip hprogram hc
    · cases h
    · cases h

/-- `y.a` -/
def memberInit : Node :=
  .mk 5 .init (.member false)
    [.mk 6 .object (.identifier (Text.of "y")) [], .mk 7 .property (.identifier (Text.of "a")) []]

/-- `a = y.a` -/
def memberDeclarator : Node :=
  .mk 3 .declarations .variableDeclarator
    [.mk 4 .id (.identifier (Text.of "a")) [], memberInit]

/-- `var a = y.a; a;` -/
def readMember : Node :=
  .mk 1 .top .program
    [.mk 2 .body (.variableDeclaration .var) [memberDeclarator],
     .mk 8 .body (.expressionStatement none) [.mk 9 .expression (.identifier (Text.of "a")) []]]

theorem form_of_target_readMember {n : Node} (h : Target readMember n) :
    n.form.isTarget ∧ ¬ n.form.isMember := by
  refine form_of_target (P := fun f => f.isTarget ∧ ¬ f.isMember) ?_ h
  unfold readMember memberDeclarator memberInit
  simp only [Node.forall_inside_mk, List.forall_mem_cons, List.not_mem_nil, false_implies,
    implies_true, and_true, Node.children, Node.form, Node.role]
  decide

theorem grammatical_readMember : Grammatical readMember :=
  ⟨by decide, fun _ h => (form_of_target_readMember h).1⟩

/-- The name of the property and the declared name are not recorded; the name that is read is. -/
theorem readMember_unrecorded :
    Grammatical readMember ∧
      (7 ∉ (ofProgram readMember).readNodes 0 ∧ 7 ∉ (ofProgram readMember).writeNodes 0) ∧
      4 ∉ (ofProgram readMember).readNodes 0 ∧ 9 ∈ (ofProgram readMember).readNodes 0 := by
  have hdeclarator : memberDeclarator.Inside readMember :=
    .within List.mem_cons_self (.child List.mem_cons_self)
  have hinit : memberInit.Inside readMember :=
    (Node.Inside.child (List.mem_cons_of_mem _ List.mem_cons_self)).trans hdeclarator
  obtain ⟨hnames, hdeclared⟩ := names_unrecorded grammatical_readMember 0
  refine ⟨grammatical_readMember, ?_, ?_, by decide +kernel⟩
  · exact hnames memberInit _ hinit (List.mem_cons_of_mem _ List.mem_cons_self) ⟨_, rfl⟩ rfl
      fun _ h => (form_of_target_readMember h).2 rfl
  · exact hdeclared _ (.slot hdeclarator List.mem_cons_self rfl)

/-- `var a; y.a = a;` -/
def writtenMember : Node :=
  .mk 1 .top .program
    [.mk 2 .body (.variableDeclaration .var)
      [.mk 3 .declarations .variableDeclarator [.mk 4 .id (.identifier (Text.of "a")) []]],
     .mk 5 .body (.expressionStatement none)
      [.mk 6 .expression (.assignment .plain)
        [.mk 7 .left (.member false)
          [.mk 8 .object (.identifier (Text.of "y")) [],
           .mk 9 .property (.identifier (Text.of "a")) []],
         .mk 10 .right (.identifier (Text.of "a")) []]]]

/-- The name of a property that is written counts as a read of the variable of that name. -/
example : (ofProgram writtenMember).readNodes 0 = [9, 10] := by decide +kernel

end Analysis

end Untangle
