import Untangle.Proofs.Scoping.Scopes

set_option autoImplicit false

/-!
# What the pass for declarations builds

The first pass of an analysis opens a scope for each node that opens one, and declares each name in the
scope to which it belongs.  That it does nothing else is the invariant of the scopes; that it misses
nothing follows because it comes to every node and what it has declared stays.
-/

namespace Untangle

namespace Analysis

variable {root : Node} {a a' : Analysis} {o : Occurrence} {i : SiteId} {k outer inner : ScopeId}

/-! ## Names -/

/-- A declaration declares its name in the scope to which it belongs, or finds it there. -/
theorem onward_declareName (hroot : Script root) {d : Node} {e : Enclosure} {name : Text}
    (h : Founded root a) (ho : Occurrence.Of root o) (hd : o.Declares d e name) (hat : a.At i d.id)
    (hk : OpenedBy a e.opener k) (kind : BindingKind) :
    Onward root a (a.declareName k kind i name) ∧
      Holds (a.declareName k kind i name) e.opener name := by
  unfold declareName
  simp only
  split
  · next b hb =>
    obtain ⟨hb, hname⟩ := Option.filter_eq_some_iff.mp hb
    have hstep := onward_modifyBinding (a := a) (b := b) (f := fun x => { x with site := i }) h
      (fun _ => ⟨rfl, rfl, rfl⟩) fun _ _ hi => .inl hi
    refine ⟨hstep, hstep.widens.holds ?_⟩
    -- The node declared the name before, and so in the same scope.
    obtain ⟨hlt, o', d', e', name', ho', hd', hid, hopened⟩ :=
      h.declared _ b (Option.filter_eq_some_iff.mp hb).1
    have hopener := hd.opener_unique hroot ho ho' hd' (hat.node_eq.symm.trans hid.symm)
    obtain ⟨-, -, -, hget⟩ := h.bindings b hlt
    rw [eq_of_beq hname] at hget
    exact ⟨_, hopener ▸ hopened, by rw [hget]; rfl⟩
  · split
    · next b hb =>
      have hstep := onward_addWrite h ⟨o, d, e, name, ho, hd, hat⟩ b
      exact ⟨hstep, hstep.widens.holds ⟨k, hk, by rw [hb]; rfl⟩⟩
    · next hnone =>
      have hstep : Onward root a (a.withName k kind i name) := onward_withName h ho hd hat hk hnone
      refine ⟨hstep, k, hstep.widens.openedBy hk, ?_⟩
      show (((a.withName k kind i name).scope k).bindings.get? name).isSome = true
      rw [scope_withName hk.known, if_pos rfl]
      simp

/-- What is declared by one node. -/
theorem onward_names {d : Node} {e : Enclosure} {names : List Text} {f : Analysis → Text → Analysis}
    (h : Founded root a) (hat : a.At i d.id) (hk : OpenedBy a e.opener k)
    (hd : ∀ name ∈ names, o.Declares d e name)
    (hf : ∀ a', Founded root a' → a'.At i d.id → OpenedBy a' e.opener k → ∀ name,
      o.Declares d e name → Onward root a' (f a' name) ∧ Holds (f a' name) e.opener name) :
    Onward root a (names.foldl f a) ∧ ∀ name ∈ names, Holds (names.foldl f a) e.opener name :=
  Onward.foldl (fun name a' => Holds a' e.opener name) h
    (fun a' ha' name hname => hf a' ha'.founded (ha'.widens.further.at hat) (ha'.widens.openedBy hk) name
      (hd name hname))
    fun _ _ _ hwidens => hwidens.holds

theorem onward_declarePattern (hroot : Script root) {d : Node} {e : Enclosure} (h : Founded root a)
    (ho : Occurrence.Of root o) (hk : OpenedBy a e.opener k)
    (hd : ∀ name ∈ d.patternNames, o.Declares d e name) (i : SiteId) (listed : Bool)
    (kind : BindingKind) :
    Onward root a (a.declarePattern i d listed k kind) ∧
      ∀ name ∈ d.patternNames, Holds (a.declarePattern i d listed k kind) e.opener name := by
  have hsite := onward_addSite h ⟨d.id, some i, d.role, listed, k, false⟩
  obtain ⟨hnames, hholds⟩ := onward_names hsite.founded (at_addSite a _)
    (hsite.widens.openedBy hk) hd fun a' h' hat' hk' name hname =>
      onward_declareName hroot h' ho hname hat' hk' kind
  exact ⟨hsite.trans hnames, hholds⟩

theorem onward_writtenByLoop (h : Founded root a) (hi : Declarer root a i) (k : ScopeId)
    (name : Text) : Onward root a (a.writtenByLoop k i name) := by
  unfold writtenByLoop
  split
  · exact onward_addWrite h hi _
  · exact .refl h

/-- The names of a declarator are declared in one scope. -/
theorem onward_declarator (hroot : Script root) {d : Node} {e : Enclosure} (h : Founded root a)
    (ho : Occurrence.Of root o) (hk : OpenedBy a e.opener k)
    (hd : ∀ name ∈ Occurrence.variableNames d, o.Declares d e name) (hat : a.At i d.id)
    (kind : BindingKind) (loopHead : Bool) {declare : Analysis → Text → Analysis}
    (hdeclare : ∀ a' name, declare a' name =
      if loopHead then (a'.declareName k kind i name).writtenByLoop k i name
      else a'.declareName k kind i name) :
    Onward root a ((Occurrence.variableNames d).foldl declare a) ∧
      ∀ name ∈ Occurrence.variableNames d,
        Holds ((Occurrence.variableNames d).foldl declare a) e.opener name := by
  refine onward_names h hat hk hd fun a' h' hat' hk' name hname => ?_
  obtain ⟨hstep, hholds⟩ := onward_declareName hroot h' ho hname hat' hk' kind
  rw [hdeclare]
  split
  · have hloop := onward_writtenByLoop hstep.founded
      ⟨o, d, e, name, ho, hname, hstep.widens.further.at hat'⟩ k name
    exact ⟨hstep.trans hloop, hloop.widens.holds hholds⟩
  · exact ⟨hstep, hholds⟩

theorem onward_declareVariable (hroot : Script root) {d : Node} {kind : VariableKind}
    (h : Founded root a) (ho : Occurrence.Of root o) (hform : o.node.form = .variableDeclaration kind)
    (hd : d ∈ o.node.childrenAt .declarations) (hrep : Represents a o.around outer) (i : SiteId)
    (loopHead : Bool) :
    Onward root a (a.declareVariable i kind loopHead outer d) ∧
      ∀ e name, kind.host o.around = some e → name ∈ Occurrence.variableNames d →
        Holds (a.declareVariable i kind loopHead outer d) e.opener name := by
  obtain ⟨e, he, hk⟩ := hrep.host kind
  have hsite := onward_addSite h ⟨d.id, some i, d.role, true, outer, false⟩
  obtain ⟨hnames, hholds⟩ := onward_declarator hroot hsite.founded ho (hsite.widens.openedBy hk)
    (fun name hname => .declarator hform hd hname he) (at_addSite a _) (.variable kind) loopHead
    fun _ _ => rfl
  refine ⟨hsite.trans hnames, fun e' name he' hname => ?_⟩
  cases he.symm.trans he'
  exact hholds name hname

/-! ## Nodes -/

/-- A pattern of parameters, of what is caught, or the own name of a function. -/
theorem onward_headPattern (hroot : Script root) {d : Node} (h : Founded root a)
    (ho : Occurrence.Of root o) (hk : OpenedBy a o.node k) (hd : d ∈ o.headPatterns) (i : SiteId)
    (listed : Bool) (kind : BindingKind) :
    Onward root a (a.declarePattern i d listed k kind) ∧
      ∀ name ∈ d.patternNames, Holds (a.declarePattern i d listed k kind) o.node name :=
  onward_declarePattern (e := ⟨o.node, .head⟩) hroot h ho hk (fun _ hname => .pattern hd hname) i listed
    kind

theorem onward_declareParameters (hroot : Script root) (h : Founded root a)
    (ho : Occurrence.Of root o) (hk : OpenedBy a o.node k) (hform : o.node.form.isFunction = true)
    (i : SiteId) :
    Onward root a (a.declareParameters i o.node.form k o.node.children) ∧
      ∀ d ∈ o.headPatterns, ∀ name ∈ d.patternNames,
        Holds (a.declareParameters i o.node.form k o.node.children) o.node name := by
  have hparams : ∀ {a'}, Onward root a a' → (∀ d ∈ o.node.childrenAt .params, d ∈ o.headPatterns) →
      Onward root a' ((o.node.childrenAt .params).foldl
        (fun a p => a.declarePattern i p true k .param) a') ∧
      ∀ d ∈ o.node.childrenAt .params, ∀ name ∈ d.patternNames, Holds ((o.node.childrenAt .params).foldl
        (fun a p => a.declarePattern i p true k .param) a') o.node name := fun ha' hmem =>
    Onward.foldl (fun (d : Node) a' => ∀ name ∈ d.patternNames, Holds a' o.node name) ha'.founded
      (fun a'' ha'' d hd => onward_headPattern hroot ha''.founded ho
        ((ha'.trans ha'').widens.openedBy hk) (hmem d hd) i true .param)
      fun _ _ _ hwidens hd name hname => hwidens.holds (hd name hname)
  unfold declareParameters
  split
  · next flags own hfunction hown =>
    have hpatterns : o.headPatterns = [own] ++ o.node.childrenAt .params := by
      unfold Occurrence.headPatterns Node.child?
      rw [hfunction, hown]
      rfl
    have hmem : own ∈ o.headPatterns := by
      rw [hpatterns]
      exact List.mem_append_left _ List.mem_cons_self
    obtain ⟨hstep, hnames⟩ := onward_headPattern hroot h ho hk hmem i false .ownName
    obtain ⟨hrest, hholds⟩ := hparams hstep fun d hd => hpatterns ▸ List.mem_append_right _ hd
    refine ⟨hstep.trans hrest, fun d hd name hname => ?_⟩
    rw [hpatterns] at hd
    obtain hd | hd := List.mem_append.mp hd
    · rw [List.mem_singleton.mp hd] at hname
      exact hrest.widens.holds (hnames name hname)
    · exact hholds d hd name hname
  · next hnone =>
    have hpatterns : o.headPatterns = o.node.childrenAt .params := by
      unfold Occurrence.headPatterns
      split
      · next flags hfunction =>
        cases hown : o.node.child? .id with
        | none => rfl
        | some own => exact absurd hown (hnone flags own hfunction)
      · rfl
      · rfl
      · next hcatch =>
        rw [hcatch] at hform
        cases hform
      · next hother hother' hother'' _ =>
        unfold Form.isFunction at hform
        split at hform
        · next flags hf => exact absurd hf (hother' flags)
        · next flags hf => exact absurd hf (hother flags)
        · next flags hf => exact absurd hf (hother'' flags)
        · cases hform
    rw [hpatterns]
    exact hparams (.refl h) fun d hd => hpatterns ▸ hd

/-- A function or a class that is a statement. -/
theorem onward_statement (hroot : Script root) (h : Founded root a) (ho : Occurrence.Of root o)
    (hform : o.node.form.isNamedStatement = true) (hat : a.At i o.node.id)
    (hrep : Represents a o.around outer) (kind : BindingKind) :
    Onward root a (match (o.node.child? .id).bind Node.name? with
      | some name => a.declareName outer kind i name
      | none => a) ∧
    ∀ e name, (o.node.child? .id).bind Node.name? = some name → lexicalHost o.around = some e →
      Holds (match (o.node.child? .id).bind Node.name? with
        | some name => a.declareName outer kind i name
        | none => a) e.opener name := by
  obtain ⟨e, he, hk⟩ := hrep.lexicalHost
  cases hname : (o.node.child? .id).bind Node.name? with
  | none => exact ⟨.refl h, fun _ _ hname' _ => by cases hname'⟩
  | some name =>
    obtain ⟨hstep, hholds⟩ :=
      onward_declareName hroot h ho (.statement hform hname he) hat hk kind
    refine ⟨hstep, fun e' name' hname' he' => ?_⟩
    cases hname'
    cases he.symm.trans he'
    exact hholds

/-- Whatever a node declares is declared. -/
def HoldsAll (a : Analysis) (o : Occurrence) : Prop :=
  ∀ d e name, o.Declares d e name → Holds a e.opener name

theorem Widens.holdsAll (h : Widens a a') (ho : HoldsAll a o) : HoldsAll a' o :=
  fun d e name hd => h.holds (ho d e name hd)

theorem onward_variables (hroot : Script root) (h : Founded root a) (ho : Occurrence.Of root o)
    {kind : VariableKind} (hform : o.node.form = .variableDeclaration kind)
    (hrep : Represents a o.around outer) (i : SiteId) (loopHead : Bool) :
    Onward root a ((o.node.childrenAt .declarations).foldl
      (fun a d => a.declareVariable i kind loopHead outer d) a) ∧
    HoldsAll ((o.node.childrenAt .declarations).foldl
      (fun a d => a.declareVariable i kind loopHead outer d) a) o := by
  obtain ⟨hstep, hholds⟩ := Onward.foldl
    (fun (d : Node) a' => ∀ e name, kind.host o.around = some e →
      name ∈ Occurrence.variableNames d → Holds a' e.opener name) h
    (fun a' ha' d (hd : d ∈ o.node.childrenAt .declarations) =>
      onward_declareVariable hroot ha'.founded ho hform hd (ha'.widens.represents hrep) i loopHead)
    fun _ _ _ hwidens hd e name he hname => hwidens.holds (hd e name he hname)
  refine ⟨hstep, fun d e name hd => ?_⟩
  cases hd with
  | declarator hform' hd hname he =>
    cases hform.symm.trans hform'
    exact hholds d hd e name he hname
  | statement hform' _ _ =>
    rw [hform] at hform'
    cases hform'
  | pattern hd _ =>
    have howns := (Occurrence.slot_of_headPatterns hd).2.2
    rw [hform] at howns
    cases howns

/-- A function that is an expression declares its head alone. -/
theorem onward_function (hroot : Script root) (h : Founded root a) (ho : Occurrence.Of root o)
    (hk : OpenedBy a o.node k) (hform : o.node.form.isFunction = true)
    (hexpression : o.node.form.isNamedStatement = false) (i : SiteId) :
    Onward root a (a.declareParameters i o.node.form k o.node.children) ∧
      HoldsAll (a.declareParameters i o.node.form k o.node.children) o := by
  obtain ⟨hstep, hpatterns⟩ := onward_declareParameters hroot h ho hk hform i
  refine ⟨hstep, fun d e name hd => ?_⟩
  cases hd with
  | declarator hform' _ _ _ =>
    rw [hform'] at hform
    cases hform
  | statement hform' _ _ => cases hform'.symm.trans hexpression
  | pattern hd hname => exact hpatterns d hd name hname

theorem onward_caught (hroot : Script root) (h : Founded root a) (ho : Occurrence.Of root o)
    (hform : o.node.form = .catchClause) (hk : OpenedBy a o.node k) (i : SiteId) :
    Onward root a (match o.node.child? .param with
      | some p => a.declarePattern i p false k .caught
      | none => a) ∧
    HoldsAll (match o.node.child? .param with
      | some p => a.declarePattern i p false k .caught
      | none => a) o := by
  have hpatterns : o.headPatterns = (o.node.child? .param).toList := by
    unfold Occurrence.headPatterns
    rw [hform]
  have hall : ∀ {a' : Analysis}, (∀ p ∈ (o.node.child? .param).toList, ∀ name ∈ p.patternNames,
      Holds a' o.node name) → HoldsAll a' o := by
    intro a' hholds d e name hd
    cases hd with
    | declarator hform' _ _ _ => cases hform.symm.trans hform'
    | statement hform' _ _ =>
      rw [hform] at hform'
      cases hform'
    | pattern hd hname => exact hholds d (hpatterns ▸ hd) name hname
  cases hp : o.node.child? .param with
  | none =>
    refine ⟨.refl h, hall fun p hmem => ?_⟩
    rw [hp] at hmem
    cases hmem
  | some p =>
    have hmem : p ∈ o.headPatterns := by
      rw [hpatterns, hp]
      exact List.mem_cons_self
    obtain ⟨hstep, hholds⟩ := onward_headPattern hroot h ho hk hmem i false .caught
    refine ⟨hstep, hall fun p' hmem' => ?_⟩
    rw [hp] at hmem'
    rw [List.mem_singleton.mp hmem']
    exact hholds

/-- What a node declares is declared when the pass has come to it. -/
theorem onward_declareHere (hroot : Script root) (h : Founded root a) (ho : Occurrence.Of root o)
    (hat : a.At i o.node.id) (hrep : Represents a o.around outer)
    (hk : o.node.form.ownsBlock = true → OpenedBy a o.node inner) :
    Onward root a (a.declareHere i o.node.form o.parent outer inner o.node.children) ∧
      HoldsAll (a.declareHere i o.node.form o.parent outer inner o.node.children) o := by
  unfold declareHere
  split
  · next kind hform =>
    exact onward_variables hroot h ho hform hrep i (isLoopHead (a.site i).role o.parent)
  · next flags hform =>
    obtain ⟨hstep, hholds⟩ := onward_statement hroot h ho (by rw [hform]; rfl) hat hrep .hoisted
    obtain ⟨hparams, hpatterns⟩ := onward_declareParameters hroot hstep.founded ho
      (hstep.widens.openedBy (hk (by rw [hform]; rfl))) (by rw [hform]; rfl) i
    refine ⟨hstep.trans hparams, fun d e name hd => ?_⟩
    cases hd with
    | declarator hform' _ _ _ => cases hform.symm.trans hform'
    | statement _ hname he => exact hparams.widens.holds (hholds e name hname he)
    | pattern hd hname => exact hpatterns d hd name hname
  · next flags hform =>
    exact onward_function hroot h ho (hk (by rw [hform]; rfl)) (by rw [hform]; rfl)
      (by rw [hform]; rfl) i
  · next flags hform =>
    exact onward_function hroot h ho (hk (by rw [hform]; rfl)) (by rw [hform]; rfl)
      (by rw [hform]; rfl) i
  · next hform =>
    obtain ⟨hstep, hholds⟩ :=
      onward_statement hroot h ho (by rw [hform]; rfl) hat hrep (.variable .lexical)
    refine ⟨hstep, fun d e name hd => ?_⟩
    cases hd with
    | declarator hform' _ _ _ => cases hform.symm.trans hform'
    | statement _ hname he => exact hholds e name hname he
    | pattern hd _ =>
      have howns := (Occurrence.slot_of_headPatterns hd).2.2
      rw [hform] at howns
      cases howns
  · next hform => exact onward_caught hroot h ho hform (hk (by rw [hform]; rfl)) i
  · next hdeclaration hfunctionDeclaration hfunctionExpression harrow hclass hcatch =>
    refine ⟨.refl h, fun d e name hd => ?_⟩
    cases hd with
    | declarator hform _ _ _ => exact absurd hform (hdeclaration _)
    | statement hform _ _ =>
      unfold Form.isNamedStatement at hform
      split at hform
      · next flags heq => exact absurd heq (hfunctionDeclaration flags)
      · next heq => exact absurd heq hclass
      · cases hform
    | pattern hd _ =>
      unfold Occurrence.headPatterns at hd
      split at hd
      · next flags hform => exact absurd hform (hfunctionExpression flags)
      · next flags hform => exact absurd hform (hfunctionDeclaration flags)
      · next flags hform => exact absurd hform (harrow flags)
      · next hform => exact absurd hform hcatch
      · cases hd

/-- The scope of a node is open when the pass has come to it. -/
theorem onward_ensureScope (hroot : Script root) (h : Founded root a) (ho : Occurrence.Of root o)
    {p : Form} (hparent : o.parent = some p) (hrep : Represents a o.around outer) :
    let r := a.ensureScope o.node.id o.node.form o.parent outer
    Onward root a r.2 ∧ Houses r.2 o outer (r.1.getD outer) ∧
      (HasScope o → OpenedBy r.2 o.node (r.1.getD outer)) := by
  have hsome := scopeKind?_isSome o.node.form p
  rw [← hparent] at hsome
  have hhas : (scopeKind? o.node.form o.parent).isSome = true ↔ HasScope o := by
    rw [hsome, Bool.and_eq_true, Bool.not_eq_true']
    rfl
  unfold ensureScope
  split
  · next k hk =>
    obtain ⟨o', ho', hid, hhas', hrep'⟩ := h.opened _ k hk
    cases ho'.unique_of_id hroot.identities ho hid
    refine ⟨.refl h, houses_of hrep (fun _ => hrep') fun hnone => absurd hhas' hnone, fun _ => ?_⟩
    obtain ⟨e, he, hk⟩ := (hrep' .body).lexicalHost
    rw [lexicalHost, List.find?_cons_of_pos (by rw [hhas'.2]; rfl)] at he
    cases he
    exact hk
  · next hfresh =>
    split
    · next kind hkind =>
      have hhas := hhas.mp (by rw [hkind]; rfl)
      obtain ⟨hstep, hopened⟩ :=
        onward_openScope h ho hhas hrep hfresh (isFunction_of_scopeKind? hkind)
      refine ⟨hstep, houses_of (hstep.widens.represents hrep) (fun _ => hopened)
        fun hnone => absurd hhas hnone, fun _ => ?_⟩
      obtain ⟨e, he, hk⟩ := (hopened .body).lexicalHost
      rw [lexicalHost, List.find?_cons_of_pos (by rw [hhas.2]; rfl)] at he
      cases he
      exact hk
    · next hkind =>
      have hnone : ¬ HasScope o := fun hhas' => by
        rw [← hhas, hkind] at hhas'
        cases hhas'
      exact ⟨.refl h, houses_of hrep (fun hhas => absurd hhas hnone) fun _ => rfl,
        fun hhas => absurd hhas hnone⟩

/-! ## The whole pass -/

theorem declare_eq (a : Analysis) (i : SiteId) (parent : Option Form) (outer : ScopeId) (n : Node) :
    a.declare i parent outer n =
      ((a.ensureScope n.id n.form parent outer).2.declareHere i n.form parent outer
        ((a.ensureScope n.id n.form parent outer).1.getD outer) n.children).declareAll i n.form outer
        ((a.ensureScope n.id n.form parent outer).1.getD outer) n.children := by
  cases n with
  | mk id role form cs => rw [declare]; rfl

theorem declareAll_hole {c : Node} (hc : c.isHole = true) (form : Form) (rest : List Node) :
    a.declareAll i form outer inner (c :: rest) = a.declareAll i form outer inner rest := by
  cases c with
  | mk id role f cs =>
    rw [declareAll]
    exact if_pos hc

theorem declareAll_cons {c : Node} (hc : c.isHole = false) (form : Form) (rest : List Node) :
    a.declareAll i form outer inner (c :: rest) =
      ((a.addSite ⟨c.id, some i, c.role, form.isListed c.role, childScope form c.role outer inner,
        false⟩).2.declare a.sites.size (some form) (childScope form c.role outer inner) c).declareAll i
        form outer inner rest := by
  cases c with
  | mk id role f cs =>
    rw [declareAll]
    exact if_neg (by simpa [Node.isHole, Node.form] using hc)

theorem declareAll_append (form : Form) (before rest : List Node) :
    a.declareAll i form outer inner (before ++ rest) =
      (a.declareAll i form outer inner before).declareAll i form outer inner rest := by
  induction before generalizing a with
  | nil => rw [List.nil_append, declareAll]
  | cons c before ih =>
    rw [List.cons_append]
    cases hc : c.isHole with
    | true => rw [declareAll_hole hc, declareAll_hole hc, ih]
    | false => rw [declareAll_cons hc, declareAll_cons hc, ih]

/-- What the pass does at a child before it goes on below: the scope is open and the names are declared. -/
theorem onward_child (hroot : Script root) {c : Node} (h : Founded root a) (ho : Occurrence.Of root o)
    (hc : c ∈ o.node.children) (hhole : c.isHole = false) (hhouses : Houses a o outer inner)
    (i : SiteId) :
    ∃ a' inner', Onward root a a' ∧ a'.At a.sites.size c.id ∧
      Houses a' (o.child c) (childScope o.node.form c.role outer inner) inner' ∧
      HoldsAll a' (o.child c) ∧
      (HasScope (o.child c) → OpenedBy a' c inner') ∧
      (a.addSite ⟨c.id, some i, c.role, o.node.form.isListed c.role,
        childScope o.node.form c.role outer inner, false⟩).2.declare a.sites.size (some o.node.form)
        (childScope o.node.form c.role outer inner) c =
      a'.declareAll a.sites.size c.form (childScope o.node.form c.role outer inner) inner' c.children := by
  have hchild : Occurrence.Of root (o.child c) := .child ho hc hhole
  have hsite := onward_addSite h ⟨c.id, some i, c.role, o.node.form.isListed c.role,
    childScope o.node.form c.role outer inner, false⟩
  have hat := at_addSite a ⟨c.id, some i, c.role, o.node.form.isListed c.role,
    childScope o.node.form c.role outer inner, false⟩
  obtain ⟨hopen, hhouses', hopened⟩ := onward_ensureScope hroot hsite.founded hchild rfl
    (hsite.widens.represents (hhouses c.role))
  have hrep := (hsite.trans hopen).widens.represents (hhouses c.role)
  have howns : (o.child c).node.form.ownsBlock = true → HasScope (o.child c) := by
    intro howns
    unfold Form.ownsBlock at howns
    split at howns
    · next hform => exact ⟨by rw [hform]; rfl, by rw [hform]; rfl⟩
    · unfold Form.isFunction at howns
      split at howns
      · next hform => exact ⟨by rw [hform]; rfl, by rw [hform]; rfl⟩
      · next hform => exact ⟨by rw [hform]; rfl, by rw [hform]; rfl⟩
      · next hform => exact ⟨by rw [hform]; rfl, by rw [hform]; rfl⟩
      · cases howns
  obtain ⟨hhere, hholds⟩ := onward_declareHere hroot hopen.founded hchild
    (hopen.widens.further.at hat) hrep fun hform => hopened (howns hform)
  exact ⟨_, _, (hsite.trans hopen).trans hhere, (hopen.trans hhere).widens.further.at hat,
    hhere.widens.houses hhouses', hholds, fun hhas => hhere.widens.openedBy (hopened hhas),
    declare_eq ..⟩

/-- The pass keeps the invariant below a node. -/
theorem onward_declareAll (hroot : Script root) (cs : List Node) (h : Founded root a)
    (ho : Occurrence.Of root o) (hcs : ∀ c ∈ cs, c ∈ o.node.children)
    (hhouses : Houses a o outer inner) (i : SiteId) :
    Onward root a (a.declareAll i o.node.form outer inner cs) := by
  induction hsize : o.node.size using Nat.strongRecOn generalizing a o i outer inner cs with
  | ind size ih =>
    induction cs generalizing a with
    | nil =>
      rw [declareAll]
      exact .refl h
    | cons c cs ihcs =>
      have hc := hcs c List.mem_cons_self
      have hrest : ∀ d ∈ cs, d ∈ o.node.children := fun d hd => hcs d (List.mem_cons_of_mem c hd)
      cases hhole : c.isHole with
      | true =>
        rw [declareAll_hole hhole]
        exact ihcs h hrest hhouses
      | false =>
        obtain ⟨a', inner', hstep, -, hhouses', -, -, heq⟩ :=
          onward_child hroot h ho hc hhole hhouses i
        have hbelow := ih c.size (hsize ▸ Node.size_lt_of_mem_children hc) (o := o.child c)
          c.children hstep.founded (.child ho hc hhole) (fun _ hd => hd) hhouses' a.sites.size rfl
        rw [declareAll_cons hhole, heq]
        have hwhole := hstep.trans hbelow
        exact hwhole.trans (ihcs hwhole.founded hrest (hwhole.widens.houses hhouses))

/-- The pass has come to a node, and goes on below it. -/
def Comes (root : Node) (final : Analysis) (o : Occurrence) : Prop :=
  ∃ a i outer inner, Founded root a ∧ Houses a o outer inner ∧
    HoldsAll a o ∧ (HasScope o → OpenedBy a o.node inner) ∧
    Widens (a.declareAll i o.node.form outer inner o.node.children) final

/-- The pass comes to every node. -/
theorem comes_child (hroot : Script root) {c : Node} (ho : Occurrence.Of root o)
    (hc : c ∈ o.node.children) (hhole : c.isHole = false) (h : Comes root a o) :
    Comes root a (o.child c) := by
  obtain ⟨a₀, i, outer, inner, hfounded, hhouses, -, -, hfinal⟩ := h
  obtain ⟨before, after, hsplit⟩ := List.append_of_mem hc
  rw [hsplit, declareAll_append] at hfinal
  have hbefore := onward_declareAll hroot before hfounded ho
    (fun d hd => hsplit ▸ List.mem_append_left _ hd) hhouses i
  obtain ⟨a', inner', hstep, -, hhouses', hholds, hopened, heq⟩ :=
    onward_child hroot hbefore.founded ho hc hhole (hbefore.widens.houses hhouses) i
  rw [declareAll_cons hhole, heq] at hfinal
  have hbelow := onward_declareAll hroot (o := o.child c) c.children hstep.founded
    (.child ho hc hhole) (fun _ hd => hd) hhouses' (a₀.declareAll i o.node.form outer inner before).sites.size
  have hafter := onward_declareAll hroot after hbelow.founded ho
    (fun d hd => hsplit ▸ List.mem_append_right _ (List.mem_cons_of_mem c hd))
    (((hbefore.trans hstep).trans hbelow).widens.houses hhouses) i
  exact ⟨a', _, _, inner', hstep.founded, hhouses', hholds, hopened, hafter.widens.trans hfinal⟩

/-! ## Programs -/

theorem scope_start (root : Node) (k : ScopeId) :
    (start root).scope k = if k = 0 then ⟨.program, root.id, none, .empty, []⟩ else default := by
  cases k with
  | zero => rfl
  | succ k => rfl

theorem represents_start (hroot : Script root) (part : Part) :
    Represents (start root) [⟨root, part⟩] 0 :=
  .outermost ⟨Nat.zero_lt_one, rfl⟩ rfl rfl (by rw [hroot.program]; rfl)

theorem hasScope_root (hroot : Script root) : HasScope ⟨root, none, []⟩ := by
  constructor
  · show root.form.opensScope none = true
    rw [hroot.program]
    rfl
  · show root.form.isClassExpression = false
    rw [hroot.program]
    rfl

theorem founded_start (hroot : Script root) : Founded root (start root) := by
  have hopened : ∀ id k, (start root).opened.get? id = some k → id = root.id ∧ k = 0 := by
    intro id k hk
    by_cases heq : id = root.id
    · subst heq
      exact ⟨rfl, Option.some.inj (hk.symm.trans (Dict.get?_put_self ..))⟩
    · cases hk.symm.trans (Dict.get?_put_of_ne Dict.empty heq 0)
  refine ⟨fun k hk => ?_, fun id k hk => ?_, fun k name b hb => ?_, fun b hb => ?_,
    fun id b hb => ?_, fun b => rfl, fun id => rfl, fun b i hi => ?_⟩
  · cases Nat.lt_one_iff.mp hk
    exact Dict.get?_put_self ..
  · obtain ⟨rfl, rfl⟩ := hopened id k hk
    exact ⟨_, .root, rfl, hasScope_root hroot, represents_start hroot⟩
  · rw [scope_start] at hb
    split at hb <;> cases hb
  · exact absurd hb (Nat.not_lt_zero b)
  · cases hb
  · cases hi

/-- The pass at the whole program. -/
theorem declare_root (hroot : Script root) :
    (start root).declare 0 none 0 root = (start root).declareAll 0 root.form 0 0 root.children := by
  have hopened : (start root).scopeOpenedBy? root.id = some 0 := Dict.get?_put_self ..
  have hensure : (start root).ensureScope root.id root.form none 0 = (some 0, start root) := by
    unfold ensureScope
    rw [hopened]
  rw [declare_eq, hensure]
  simp only [Option.getD_some, declareHere, hroot.program]

/-- What the pass leaves: its invariant, all scopes that the nodes of the program open, and all names
that they declare. -/
structure Settled (root : Node) (a : Analysis) : Prop where
  founded : Founded root a
  holds : ∀ o, Occurrence.Of root o → HoldsAll a o
  opened : ∀ o, Occurrence.Of root o → HasScope o → ∃ k, OpenedBy a o.node k
  further : Extends (start root) a

/-- The scope of the program is the one in which its children are evaluated. -/
theorem houses_root (hroot : Script root) (h : ∀ part, Represents a [⟨root, part⟩] inner)
    (outer : ScopeId) : Houses a ⟨root, none, []⟩ outer inner := by
  intro r
  have haround : Occurrence.aroundAt ⟨root, none, []⟩ r = [⟨root, root.form.partAt r⟩] := by
    unfold Occurrence.aroundAt
    rw [hroot.program]
    rfl
  have hscope : childScope root.form r outer inner = inner := by
    rw [hroot.program]
    rfl
  rw [haround]
  show Represents _ _ (childScope root.form r outer inner)
  rw [hscope]
  exact h _

theorem settled_declare (hroot : Script root) :
    Settled root ((start root).declare 0 none 0 root) := by
  have hhouses := houses_root hroot (represents_start hroot) 0
  have hall : HoldsAll (start root) ⟨root, none, []⟩ := by
    intro d e name hd
    cases hd with
    | declarator _ _ _ he => cases VariableKind.mem_of_host he
    | statement _ _ he => cases he
    | pattern hd _ =>
      unfold Occurrence.headPatterns at hd
      rw [hroot.program] at hd
      cases hd
  have hpass := onward_declareAll hroot root.children (founded_start hroot) .root (fun _ hc => hc)
    hhouses 0
  have hcomes : ∀ o, Occurrence.Of root o → Comes root ((start root).declare 0 none 0 root) o := by
    intro o ho
    induction ho with
    | root =>
      exact ⟨start root, 0, 0, 0, founded_start hroot, hhouses,
        hall, fun _ => ⟨Nat.zero_lt_one, rfl⟩, declare_root hroot ▸ .refl _⟩
    | child ho hc hhole ih => exact comes_child hroot ho hc hhole ih
  have hfinal : ∀ {o}, Occurrence.Of root o → ∃ a₀ inner, HoldsAll a₀ o ∧
      (HasScope o → OpenedBy a₀ o.node inner) ∧
      Widens a₀ ((start root).declare 0 none 0 root) := by
    intro o ho
    obtain ⟨a₀, i, outer, inner, hfounded, hhouses, hholds, hopened, hfinal⟩ := hcomes o ho
    have hbelow := onward_declareAll hroot o.node.children hfounded ho (fun _ hc => hc) hhouses i
    exact ⟨a₀, inner, hholds, hopened, hbelow.widens.trans hfinal⟩
  have hstart : Onward root (start root) ((start root).declare 0 none 0 root) :=
    declare_root hroot ▸ hpass
  refine ⟨hstart.founded, fun o ho => ?_, fun o ho hhas => ?_, hstart.widens.further⟩
  · obtain ⟨a₀, inner, hholds, -, hwidens⟩ := hfinal ho
    exact hwidens.holdsAll hholds
  · obtain ⟨a₀, inner, -, hopened, hwidens⟩ := hfinal ho
    exact ⟨inner, hwidens.openedBy (hopened hhas)⟩

end Analysis

end Untangle
