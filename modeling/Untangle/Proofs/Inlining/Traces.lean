import Untangle.Proofs.Dispatch.Outside
import Untangle.Proofs.Identity.Names
import Untangle.Proofs.Inlining.Trees
import Untangle.Proofs.Sandbox.Primitive
import Untangle.Proofs.Tours.Outcome

set_option autoImplicit false

/-!
# What has become of a program

Nodes that gave way are named by their identities at first: `Becomes` relates the two trees, and `Traces` adds
what an analysis still knows of the nodes at first.  The numbers of sites stay, each site still belongs to its
node unless that node gave way, and a binding is read where it was read at first, as long as it is there.
Each action of inlining keeps the traces: a name gives way to the tree of a value, and a declarator or a
declaration to nothing.
-/

namespace Untangle

open Node (Becomes Copies Kept SwapsAmong identitiesAll)
open Sandbox (primitiveNode)

namespace Analysis

variable {root : Node} {a a' b : Analysis} {i p r : SiteId} {x y : BindingId} {k : NodeId} {n : Node}
  {name : Text}

/-! ## What a new analysis records -/

/-- What is recorded as a read is a name, which is recorded for one binding only. -/
theorem exists_read (hroot : Script root) (hr : r ∈ ((ofProgram root).binding x).reads.values) :
    ∃ o, Occurrence.Of root o ∧ (∃ name, o.node.form = .identifier name) ∧
      (ofProgram root).At r o.node.id ∧
      (∃ j, ReadAt (ofProgram root) x o.node.id j ((ofProgram root).way j)) ∧
      ∀ y, o.node.id ∈ (ofProgram root).readNodes y ↔ y = x := by
  obtain ⟨a₀, hs, hrecorded, hpass⟩ := exists_settled hroot
  obtain ⟨hwrite, -⟩ | ⟨o, ho, hused, hrefers, hat⟩ := hrecorded.sound .read (.inl rfl) x r hr
  · cases hwrite
  obtain ⟨name, k, hname, hk, hx⟩ := id hrefers
  obtain ⟨j, m, hj, hm, hid⟩ := records_of_refers hroot hs hpass ho (.inl rfl) hused hrefers
  refine ⟨o, ho, ⟨name, hname⟩, hat,
    ⟨j, hj, hm.known, hm.node.trans hid, hm.retired, rfl, m, hm.follow, hid⟩, fun y => ?_⟩
  have hmem := mem_usedNodes_iff_refers (b := y) hroot hs hrecorded hpass ho hname (.inl rfl) hused
  exact hmem.trans ⟨fun h => h.unique hs.founded hrefers, fun h => h ▸ hrefers⟩

/-- The sites at which a binding is read are those of its reads. -/
theorem node_mem_readNodes (hroot : Script root) (hr : r ∈ ((ofProgram root).binding x).reads.values) :
    r < (ofProgram root).sites.size ∧ ((ofProgram root).site r).node ∈ (ofProgram root).readNodes x := by
  obtain ⟨o, -, -, hat, -, hunique⟩ := exists_read hroot hr
  obtain ⟨hknown, hnode⟩ := at_iff.mp hat
  exact ⟨hknown, hnode ▸ (hunique x).mpr rfl⟩

/-- What reads a binding is a name, which reads no other. -/
theorem exists_name_of_read (hroot : Script root) (hk : k ∈ (ofProgram root).readNodes x) :
    ∃ o, Occurrence.Of root o ∧ (∃ name, o.node.form = .identifier name) ∧ o.node.id = k ∧
      (∃ j, ReadAt (ofProgram root) x k j ((ofProgram root).way j)) ∧
      ∀ y, k ∈ (ofProgram root).readNodes y ↔ y = x := by
  obtain ⟨r, hr, -, rfl⟩ := mem_usedNodes (u := .read).mp hk
  obtain ⟨o, ho, hname, hat, hread, hunique⟩ := exists_read hroot hr
  rw [← hat.node_eq] at hread hunique
  exact ⟨o, ho, hname, hat.node_eq.symm, hread, hunique⟩

/-- The names of a scope are those of their bindings. -/
theorem name_of_get? (hroot : Script root) {s : ScopeId}
    (h : ((ofProgram root).scope s).bindings.get? name = some x) :
    x < (ofProgram root).bindings.size ∧ ((ofProgram root).binding x).name = name := by
  obtain ⟨a₀, hs, hrecorded, -⟩ := exists_settled hroot
  rw [scope, hrecorded.same.scopes] at h
  obtain ⟨hlt, hname, -⟩ := hs.founded.names s name x h
  exact ⟨hrecorded.same.size ▸ hlt, (hrecorded.same.bindings x).1.trans hname⟩

/-- No scope has the name. -/
def Unnamed (a : Analysis) (name : Text) : Prop := ∀ s, (a.scope s).bindings.get? name = none

/-- A name that no identifier declares is one of no scope. -/
theorem unnamed_of_undeclared (hroot : Script root)
    (hname : ∀ c, Declared root c → c.form ≠ .identifier name) : Unnamed (ofProgram root) name := by
  intro s
  cases hget : ((ofProgram root).scope s).bindings.get? name with
  | none => rfl
  | some x =>
    obtain ⟨hlt, heq⟩ := name_of_get? hroot hget
    exact absurd heq ((unbound_of_undeclared hroot hname).1 x hlt)

/-- A lookup finds what some scope has under the name. -/
theorem exists_get?_of_lookup {s : ScopeId} (h : a.lookup name s = some x) :
    ∃ s', (a.scope s').bindings.get? name = some x := by
  induction s using Nat.strongRecOn with
  | ind s ih =>
    rw [lookup_eq] at h
    split at h
    · next hget => exact ⟨s, hget.trans h⟩
    · split at h
      · cases h
      · split at h
        · next hlt => exact ih _ hlt h
        · cases h

theorem Unnamed.lookup (h : Unnamed a name) (s : ScopeId) : a.lookup name s = none := by
  cases hfound : a.lookup name s with
  | none => rfl
  | some x =>
    obtain ⟨s', hget⟩ := exists_get?_of_lookup hfound
    cases hget.symm.trans (h s')

end Analysis

/-! ## Trees of values are taken up -/

/-- The forms of which trees of primitive values consist. -/
def Form.isPrimitive : Form → Bool
  | .literal _ | .identifier _ | .unary _ => true
  | _ => false

/-- A tree in which nothing is declared and no name is read of a binding. -/
structure Node.Unbound (a : Analysis) (n : Node) : Prop where
  forms : ∀ d : Node, d.Inside n → d.form.isPrimitive = true
  names : ∀ d : Node, d.Inside n → ∀ name, d.form = .identifier name → a.Unnamed name

namespace Analysis

/-- The scopes and what is recorded for the bindings stay. -/
def SameRecords (a a' : Analysis) : Prop := a'.bindings = a.bindings ∧ a'.scopes = a.scopes

theorem SameRecords.trans {a a' a'' : Analysis} (h : SameRecords a a') (h' : SameRecords a' a'') :
    SameRecords a a'' := ⟨h'.1.trans h.1, h'.2.trans h.2⟩

theorem sameRecords_ensureScope (a : Analysis) (id : NodeId) {f : Form} (hf : f.isPrimitive = true)
    (parent : Option Form) (outer : ScopeId) : SameRecords a (a.ensureScope id f parent outer).2 := by
  unfold ensureScope
  split
  · exact ⟨rfl, rfl⟩
  · have hkind : scopeKind? f parent = none := by
      cases f with
      | literal | identifier | unary => rfl
      | _ => cases hf
    rw [hkind]
    exact ⟨rfl, rfl⟩

theorem declareHere_primitive (a : Analysis) (i : SiteId) {f : Form} (hf : f.isPrimitive = true)
    (parent : Option Form) (outer inner : ScopeId) (cs : List Node) :
    a.declareHere i f parent outer inner cs = a := by
  cases f with
  | literal | identifier | unary => rfl
  | _ => cases hf

/-- Such a tree declares nothing. -/
theorem sameRecords_declare {n : Node} (hn : ∀ d : Node, d.Inside n → d.form.isPrimitive = true)
    (a : Analysis) (i : SiteId) (parent : Option Form) (outer : ScopeId) :
    SameRecords a (a.declare i parent outer n) := by
  refine Node.rec
    (motive_1 := fun n => (∀ d : Node, d.Inside n → d.form.isPrimitive = true) →
      ∀ (a : Analysis) (i : SiteId) (parent : Option Form) (outer : ScopeId),
        SameRecords a (a.declare i parent outer n))
    (motive_2 := fun cs => (∀ c ∈ cs, ∀ d : Node, d.Inside c → d.form.isPrimitive = true) →
      ∀ (a : Analysis) (i : SiteId) (form : Form) (outer inner : ScopeId),
        SameRecords a (a.declareAll i form outer inner cs)) ?_ ?_ ?_ n hn a i parent outer
  · intro id role f cs ih hn a i parent outer
    have hf : f.isPrimitive = true := hn _ (.self _)
    rw [declare]
    dsimp only
    rw [declareHere_primitive _ _ hf]
    exact (sameRecords_ensureScope a id hf parent outer).trans (ih (fun c hc d hd => hn d (.within hc hd)) ..)
  · intro _ a i form outer inner
    exact ⟨rfl, rfl⟩
  · intro c cs ihc ihcs hcs a i form outer inner
    have hrest := ihcs fun d hd => hcs d (List.mem_cons_of_mem _ hd)
    obtain ⟨id, role, f, ds⟩ := c
    rw [declareAll]
    split
    · exact hrest ..
    · dsimp only
      refine SameRecords.trans ?_ (hrest ..)
      exact SameRecords.trans (⟨rfl, rfl⟩ : SameRecords a (a.addSite _).2)
        (ihc (fun d hd => hcs _ List.mem_cons_self d hd) ..)

/-- Such a tree reads nothing of what is declared. -/
theorem sameRecords_resolve {n : Node} {a₀ : Analysis} (hn : n.Unbound a₀) {a : Analysis}
    (ha : SameRecords a₀ a) (i : SiteId) (u : Usage) : SameRecords a₀ (a.resolve i u n) := by
  refine Node.rec
    (motive_1 := fun n => n.Unbound a₀ → ∀ (a : Analysis), SameRecords a₀ a →
      ∀ (i : SiteId) (u : Usage), SameRecords a₀ (a.resolve i u n))
    (motive_2 := fun cs => (∀ c ∈ cs, c.Unbound a₀) → ∀ (a : Analysis), SameRecords a₀ a →
      ∀ (i : SiteId) (u : Usage) (form : Form) (outer inner : ScopeId),
        SameRecords a₀ (a.resolveAll i u form outer inner cs)) ?_ ?_ ?_ n hn a ha i u
  · intro id role f cs ih hn a ha i u
    have hbelow : ∀ c ∈ cs, c.Unbound a₀ := fun c hc =>
      ⟨fun d hd => hn.forms d (.within hc hd), fun d hd => hn.names d (.within hc hd)⟩
    by_cases hu : u = .skip
    · subst hu
      rw [resolve_skip]
      exact ha
    cases f with
    | identifier name =>
      rw [resolve_identifier hu rfl]
      have hunnamed : a.Unnamed name := by
        intro s
        rw [scope, ha.2]
        exact hn.names _ (.self _) name rfl s
      unfold addReference
      rw [hunnamed.lookup]
      exact ha
    | _ =>
      rw [resolve_inner hu fun name h => by cases h]
      exact ih hbelow a ha ..
  · intro _ a ha i u form outer inner
    exact ha
  · intro c cs ihc ihcs hcs a ha i u form outer inner
    have hrest := ihcs fun d hd => hcs d (List.mem_cons_of_mem _ hd)
    cases hhole : c.isHole with
    | true =>
      rw [resolveAll_hole hhole]
      exact hrest a ha ..
    | false =>
      rw [resolveAll_cons hhole]
      refine hrest _ (ihc (hcs c List.mem_cons_self) _ ?_ ..) ..
      exact ha.trans ⟨rfl, rfl⟩

/-- Taking such a tree up records nothing. -/
theorem sameRecords_register {a : Analysis} {i : SiteId} (hn : (a.nodeAt i).Unbound a) :
    SameRecords a (a.register i) :=
  sameRecords_resolve hn (sameRecords_declare hn.forms a i _ _) i .read

end Analysis

namespace Sandbox

/-- The names by which numbers are written. -/
def numberNames : List Text := [Text.of "NaN", Text.of "Infinity"]

/-- A node that stands for a number or a name of one. -/
def IsMark (d : Node) : Prop :=
  d.form.isPrimitive = true ∧ ∀ name, d.form = .identifier name → name ∈ numberNames

theorem IsMark.of_form {d d' : Node} (h : IsMark d) (hform : d'.form = d.form) : IsMark d' := by
  unfold IsMark at h ⊢
  rwa [hform]

theorem isMark_leaf {f : Form} (hf : f.isPrimitive = true)
    (hname : ∀ name, f = .identifier name → name ∈ numberNames) {d : Node} (hd : d.Inside (.leaf f)) :
    IsMark d := by
  cases hd with
  | self => exact ⟨hf, hname⟩
  | within hc => cases hc

/-- The tree of a number consists of a literal or a name, and a minus sign perhaps. -/
theorem isMark_numberNode (x : Float) {d : Node} (hd : d.Inside (numberNode x)) : IsMark d := by
  have hname : ∀ {s : String}, Text.of s ∈ numberNames → ∀ {d : Node}, d.Inside (.ident s) → IsMark d :=
    fun hs _ hd => isMark_leaf rfl (fun name h => by cases h; exact hs) hd
  unfold numberNode at hd
  split at hd
  · exact hname List.mem_cons_self hd
  · have hmagnitude : ∀ {d : Node}, d.Inside (if Binary64.isInfinite x then .ident "Infinity"
        else .literal (.number (.real x.abs))) → IsMark d := by
      intro d hd
      split at hd
      · exact hname (List.mem_cons_of_mem _ List.mem_cons_self) hd
      · exact isMark_leaf rfl (fun name h => by cases h) hd
    simp only at hd
    split at hd
    · cases hd with
      | self => exact ⟨rfl, fun name h => by cases h⟩
      | within hc hd =>
        cases List.mem_singleton.mp hc
        obtain rfl | hd := Node.inside_inRole hd
        · exact (hmagnitude (.self _)).of_form (Node.form_inRole ..)
        · exact hmagnitude hd
    · exact hmagnitude hd

theorem isMark_primitiveNode {v : Value} (hv : v.isWritable = true) {d : Node}
    (hd : d.Inside (primitiveNode v)) : IsMark d := by
  cases v with
  | number x => exact isMark_numberNode x hd
  | undefined | object => cases hv
  | _ => exact isMark_leaf rfl (fun name h => by cases h) hd

end Sandbox

/-! ## Copies -/

namespace Node

theorem unnumbered_inRole (n : Node) (r : Role) : (n.inRole r).unnumbered = n.unnumbered.inRole r := by
  cases n
  rfl

/-- What is adopted in a slot are copies. -/
theorem map_adoptAll (ns : List Node) (next : NodeId) (r : Role) :
    ((adoptAll ns next).1.map (inRole r)).map unnumbered = ns.map fun e => (e.inRole r).unnumbered := by
  induction ns generalizing next with
  | nil => rfl
  | cons n ns ih =>
    show ((n.adopt next).1.inRole r).unnumbered :: _ = _
    rw [unnumbered_inRole, unnumbered_adopt, ← unnumbered_inRole, List.map_cons, ih]

end Node

namespace Analysis

variable {root : Node} {gives : NodeId → Option (List Node)} {a a' b : Analysis} {i p r : SiteId}
  {old : Node} {news trees : List Node}

theorem copies_adoptAll (ha : Numbered a) (hnew : Node.AreNew trees) {next : NodeId} (hnext : next ≤ a.next)
    (r : Role) : Copies next r trees ((Node.adoptAll trees a.next).1.map (Node.inRole r)) where
  same := Node.map_adoptAll trees a.next r
  identities k hk := by
    rw [Node.identitiesAll_map_inRole] at hk
    exact Nat.le_trans hnext (new_adoptAll ha hnew k hk)

/-! ## What has become of a program -/

/-- The analysis with which a run on a program starts. -/
def opening (root : Node) : Analysis :=
  ((ofProgram root).addSite ⟨(ofProgram root).program.id, none, .top, false, 0, false⟩).2

theorem extends_opening (root : Node) : Extends (ofProgram root) (opening root) := extends_addSite _ _

theorem program_opening (root : Node) : (opening root).program = root :=
  ((extends_ofProgram root).trans (extends_opening root)).program

/-- The nodes of the program are older than all others. -/
theorem given_opening (hroot : Sound (opening root)) {k : NodeId} (hk : k ∈ root.identities) :
    0 < k ∧ k < (ofProgram root).next :=
  hroot.numbered.given k (by rwa [program_opening])

/-- Nothing was taken out so far. -/
theorem atticNumbered_opening (root : Node) : AtticNumbered (opening root) := by
  intro n hn
  rw [show (opening root).attic = [] from (takesUp_ofProgram root).attic] at hn
  cases hn

/-- An analysis of what has become of a program when nodes gave way, in which nothing is recorded that was
not at first.  Sites have moved on to new nodes only. -/
structure Traces (root : Node) (gives : NodeId → Option (List Node)) (a : Analysis) : Prop where
  remains : Remains (opening root) a
  size : (ofProgram root).sites.size ≤ a.sites.size
  bindings : a.bindings = (ofProgram root).bindings
  names : Forgets (ofProgram root) a
  sites : ∀ s < (ofProgram root).sites.size, (a.site s).node ≠ ((ofProgram root).site s).node →
    (ofProgram root).next ≤ (a.site s).node ∧ gives ((ofProgram root).site s).node ≠ none
  tree : Becomes gives (ofProgram root).next [root] [a.program]

theorem traces_opening (hroot : Sound (opening root)) : Traces root (fun _ => none) (opening root) where
  remains := .refl hroot
  size := (extends_opening root).size_le
  bindings := rfl
  names _ _ _ h := h
  sites s hs hne := absurd (congrArg Site.node ((extends_opening root).site_eq hs)) hne
  tree := by
    rw [program_opening]
    exact Node.becomes_refl _ _

namespace Traces

variable (h : Traces root gives a)

include h

theorem binding_eq (x : BindingId) : a.binding x = (ofProgram root).binding x := by
  rw [binding, h.bindings]
  rfl

theorem next_le : (ofProgram root).next ≤ a.next := h.remains.next

/-- What nodes give way to that are not there any more does not matter. -/
theorem congr {gives' : NodeId → Option (List Node)} (hsame : ∀ k ∈ root.identities,
      gives' k = gives k ∨ gives k = none ∧ k ∉ a.program.identities)
    (hmore : ∀ k, gives k ≠ none → gives' k ≠ none) : Traces root gives' a where
  remains := h.remains
  size := h.size
  bindings := h.bindings
  names := h.names
  sites s hs hne := (h.sites s hs hne).imp_right (hmore _)
  tree := by
    have hone : ∀ n : Node, identitiesAll [n] = n.identities := fun n => List.append_nil _
    refine h.tree.congr fun k hk => ?_
    rw [hone] at hk ⊢
    exact hsame k hk

/-- An old node stood in the program. -/
theorem exists_kept {n : Node} (hn : n.Inside a.program) (hold : n.id < (ofProgram root).next) :
    ∃ d : Node, d.Inside root ∧ Kept gives (ofProgram root).next d n := by
  obtain ⟨e, he, d, hd, hkept⟩ | ⟨hnew, -⟩ := h.tree.inside List.mem_cons_self hn
  · cases List.mem_singleton.mp he
    exact ⟨d, hd, hkept⟩
  · exact absurd hold (Nat.not_lt.mpr hnew)

variable (hroot : Sound (opening root))

include hroot

/-- Further sites change nothing. -/
theorem extended (hextends : Extends a a') (htakes : TakesUp (fun _ => False) a a')
    (hsame : SameRecords a a') : Traces root gives a' where
  remains := h.remains.trans hroot (remains_of_extends h.remains.sound hextends htakes)
  size := Nat.le_trans h.size hextends.size_le
  bindings := hsame.1.trans h.bindings
  names s name x hx := by
    rw [scope, hsame.2] at hx
    exact h.names s name x hx
  sites s hs := by
    rw [hextends.site_eq (Nat.lt_of_lt_of_le hs h.size)]
    exact h.sites s hs
  tree := hextends.program ▸ h.tree

/-- A node gives way to copies of some trees. -/
theorem exchanged (hx : Exchanges a b i p old news) (hremains : Remains a a')
    (hextends : Extends b a') (hsame : SameRecords b a') (hold : old.id < (ofProgram root).next)
    (hcopies : Copies (ofProgram root).next old.role trees (news.map (Node.inRole old.role)))
    (hsite : (b.site i).node = (a.site i).node ∨ a.next ≤ (b.site i).node) :
    Traces root (Function.update gives old.id (some trees)) a' where
  remains := h.remains.trans hroot hremains
  size := Nat.le_trans h.size (hx.size ▸ hextends.size_le)
  bindings := (hsame.1.trans hx.bindings).trans h.bindings
  names s name x hget := by
    rw [scope, hsame.2] at hget
    exact h.names s name x (hx.names s name x hget)
  sites s hs hne := by
    have hgives : ∀ {k : NodeId}, gives k ≠ none → Function.update gives old.id (some trees) k ≠ none := by
      intro k hk
      by_cases heq : k = old.id
      · rw [heq, Function.update_self]
        exact Option.some_ne_none _
      · rwa [Function.update_of_ne heq]
    rw [hextends.site_eq (hx.size ▸ Nat.lt_of_lt_of_le hs h.size)] at hne ⊢
    by_cases hi : s = i
    · subst hi
      obtain hstays | hnew := hsite
      · rw [hstays] at hne ⊢
        exact (h.sites s hs hne).imp_right hgives
      · refine ⟨Nat.le_trans h.next_le hnew, ?_⟩
        have hsame : (a.site s).node = ((ofProgram root).site s).node := by
          by_contra hne
          exact absurd (hx.id_old ▸ hold) (Nat.not_lt.mpr (h.sites s hs hne).1)
        rw [← hsame, ← hx.id_old, Function.update_self]
        exact Option.some_ne_none _
    · rw [hx.others s hi] at hne ⊢
      exact (h.sites s hs hne).imp_right hgives
  tree := by
    rw [hextends.program]
    have hids : (root.identities ++ []).Nodup := by
      rw [List.append_nil]
      exact program_opening root ▸ hroot.numbered.distinct
    exact h.tree.swapped hids hold hcopies (.inside [] (hx.swaps h.remains.sound.numbered))

/-- A name gives way to the tree of a value. -/
theorem replaced {v : Sandbox.Value} (hv : v.isWritable = true)
    (hnames : ∀ name ∈ Sandbox.numberNames, (ofProgram root).Unnamed name)
    (hr : (a.site r).node < (ofProgram root).next)
    (hok : a.replace r (Sandbox.primitiveNode v) = .ok a') :
    Traces root (Function.update gives (a.site r).node (some [Sandbox.primitiveNode v])) a' := by
  have ha := h.remains.sound
  have hnew := Sandbox.areNew_primitiveNode v
  have hremains := remains_replace ha (.new hnew) hok
  obtain ⟨b, p, old, hx, hsite, hretired, rfl⟩ := exists_exchange_replace ha (.new hnew) hok
  have hextends := extends_register b r
  have hb : Numbered b := hremains.sound.numbered.of_eq hextends.program.symm hextends.next.symm
  have hattached := hx.attachedNode?_new ha hb List.mem_cons_self (.refl b)
    (ha.ordered r p hx.above) (by
      rw [hsite]
      exact ⟨hx.above, rfl, rfl, hretired⟩)
  have hnode : b.nodeAt r = ((Sandbox.primitiveNode v).adopt a.next).1.inRole (a.site r).role := by
    unfold nodeAt
    rw [hattached]
  have hmarks : ∀ d : Node, d.Inside (b.nodeAt r) → Sandbox.IsMark d := by
    intro d hd
    rw [hnode] at hd
    obtain rfl | hd := Node.inside_inRole hd
    · refine (Sandbox.isMark_primitiveNode hv (.self _)).of_form ?_
      rw [Node.form_inRole, Node.form_adopt]
    · obtain ⟨d₀, k, hd₀, -, rfl⟩ := Node.inside_adopt hd
      exact (Sandbox.isMark_primitiveNode hv hd₀).of_form (Node.form_adopt d₀ k)
  have hunbound : (b.nodeAt r).Unbound b := by
    refine ⟨fun d hd => (hmarks d hd).1, fun d hd name hform s => ?_⟩
    cases hget : (b.scope s).bindings.get? name with
    | none => rfl
    | some x =>
      have hfirst := h.names s name x (hx.names s name x hget)
      cases hfirst.symm.trans (hnames name ((hmarks d hd).2 name hform) s)
  have hunnumbered : (Sandbox.primitiveNode v).id = 0 :=
    hnew _ (List.mem_append_left _ (Node.Inside.self _).id_mem)
  rw [← hx.id_old] at hr ⊢
  refine h.exchanged hroot hx hremains hextends (sameRecords_register hunbound) hr ?_ (.inr ?_)
  · exact copies_adoptAll ha.numbered hnew h.next_le old.role
  · rw [hsite]
    exact Nat.le_of_eq (Node.adopt_of_unnumbered hunnumbered a.next).1.symm

/-- A node is taken out. -/
theorem takenOut (hok : a.removeOne i = .ok a') :
    ∃ old rest, a.attachedNode? i = some old ∧ old.Inside a.program ∧ old.id = (a.site i).node ∧
      StaysBehind old rest ∧ (old.id < (ofProgram root).next →
        Traces root (Function.update gives old.id (some rest)) a') := by
  have ha := h.remains.sound
  obtain ⟨p, old, rest, hx, hrest, hsite⟩ := exists_exchange_removeOne ha hok
  obtain ⟨_, _, _, heditable, -, -⟩ := removeOne_eq_ok hok
  have hremains := remains_removeOne ha hok
  refine ⟨old, rest, hx.attached ha.ordered (retired_of_editable heditable),
    Node.inside_of_follow hx.found, hx.id_old, hrest, fun hold => ?_⟩
  refine h.exchanged hroot hx hremains (.refl a') ⟨rfl, rfl⟩ hold ?_ (.inl ?_)
  · exact copies_adoptAll ha.numbered hrest.areNew h.next_le old.role
  · rw [hsite]

end Traces

/-- A declaration may go after its declarator. -/
theorem remove_inv (hok : a.remove i = .ok a') :
    ∃ b, a.removeOne i = .ok b ∧ (a' = b ∨
      ∃ p, isEmptyDeclaration (b.nodeAt p) = true ∧ b.removeOne p = .ok a') := by
  unfold remove at hok
  obtain ⟨b, hfirst, hok⟩ := except_bind_eq_ok.mp hok
  refine ⟨b, hfirst, ?_⟩
  split at hok
  · next p _ _ =>
    split at hok
    · next hempty => exact .inr ⟨p, hempty, hok⟩
    · exact .inl (Except.ok.inj hok).symm
  · exact .inl (Except.ok.inj hok).symm

/-! ## Reads of a variable -/

variable {root d : Node} {gives : NodeId → Option (List Node)} {a a' b c : Analysis} {i r : SiteId}
  {x : BindingId} {v : Sandbox.Value} {k : Nat}

/-- All reads of a variable give way to its value. -/
def givingReads (root : Node) (gives : NodeId → Option (List Node)) (b : BindingId) (v : Sandbox.Value) :
    NodeId → Option (List Node) := fun k =>
  if k ∈ (ofProgram root).readNodes b then some [primitiveNode v] else gives k

/-- A way along which all nodes are old is the one that there was. -/
theorem Exchanges.way_of_old {p : SiteId} {old : Node} {news : List Node} (h : Exchanges a b i p old news)
    (ha : Ordered a) (hnew : a.next ≤ (b.site i).node) {j : SiteId} (hw : ∀ s ∈ b.way j, s.node < a.next) :
    b.way j = a.way j := by
  induction j using Nat.strongRecOn with
  | ind j ih =>
    by_cases hj : j = i
    · subst hj
      have habove : (b.site j).above = some p := h.moved.1.trans h.above
      rw [way_of_above habove (ha j p h.above)] at hw
      have hold := hw _ (List.mem_append_right _ List.mem_cons_self)
      exact absurd hold (Nat.not_lt.mpr hnew)
    · have hsite := h.others j hj
      cases habove : (a.site j).above with
      | none => rw [way_of_root habove, way_of_root ((congrArg Site.above hsite).trans habove)]
      | some q =>
        have hlt := ha j q habove
        have habove' := (congrArg Site.above hsite).trans habove
        rw [way_of_above habove' hlt] at hw ⊢
        rw [way_of_above habove hlt, hsite, ih q hlt fun s hs => hw s (List.mem_append_left _ hs)]

/-- A site that leads to its node while reads give way led to it before. -/
theorem attached_of_replace (ha : Sound a) (hi : i < a.sites.size) (hgiven : (a.site i).node < a.next)
    (hok : a.replace r (primitiveNode v) = .ok a') (hattached : a'.attachedNode? i ≠ none) :
    a.attachedNode? i ≠ none := by
  by_cases hir : i = r
  · obtain ⟨old, p, heditable⟩ := editable_of_replace hok
    rw [hir, (editable_eq_ok heditable).1]
    exact Option.some_ne_none _
  have hbefore := fun m => replaced_follow_before (w := a'.way i) (m := m) ha (areNew_value v) hok
  have hnew := next_le_node ha (areNew_value v) hok
  obtain ⟨b, p, old, hx, -, -, rfl⟩ := exists_exchange_replace ha (.new (areNew_value v)) hok
  have hextends := extends_register b r
  have hsite : (b.register r).site i = a.site i :=
    (hextends.site_eq (hx.size ▸ hi)).trans (hx.others i hir)
  rw [hextends.site_eq (hx.size ▸ hx.known)] at hnew
  unfold attachedNode? at hattached ⊢
  rw [hsite] at hattached
  split at hattached
  · exact absurd rfl hattached
  next hretired =>
  rw [if_neg hretired]
  obtain ⟨m, hm⟩ := Option.ne_none_iff_exists'.mp hattached
  cases habove : (a.site i).above with
  | none =>
    rw [way_of_root habove]
    exact Option.some_ne_none _
  | some q =>
    have hid : m.id = (a.site i).node := by
      rw [way_of_above ((congrArg Site.above hsite).trans habove) (ha.ordered i q habove), hsite] at hm
      exact Node.id_of_follow hm
    obtain ⟨n, hn, -⟩ := hbefore m hm (hid ▸ hgiven)
    rw [hextends.way_eq (hx.size ▸ hi)] at hn
    have hold : ∀ s ∈ b.way i, s.node < a.next := fun s hs =>
      (ha.numbered.given s.node ((Node.identitiesAll_children_sublist _).subset
        (Node.mem_identities_of_follow hn hs))).2
    rw [hx.way_of_old ha.ordered hnew hold] at hn
    rw [hn]
    exact Option.some_ne_none _

theorem attached_of_inlines (h : Initializes k a b i) (ha : Sound a) (hi : i < a.sites.size)
    (hreads : Inlines v b c) (hattached : c.attachedNode? i ≠ none) : b.attachedNode? i ≠ none := by
  induction hreads with
  | refl => exact hattached
  | @tail b' c hbefore hstep ih =>
    obtain ⟨r, hok⟩ := hstep
    have hinit := h.inlines ha hi hbefore
    exact ih (attached_of_replace hinit.remains.sound (Nat.lt_of_lt_of_le hi hinit.stays.size)
      hinit.given hok hattached)

/-- What can be taken out when reads have given way was there before. -/
theorem attached_of_removed {init : Node} (ha : Sound a) (hattic : AtticNumbered a) (hi : Rooted a i)
    (hinit : (a.nodeAt i).child? .init = some init) (hreads : Inlines v a b) (hok : b.remove i = .ok c) :
    Remains a b ∧ (a.site i).above ≠ none ∧ a.attachedNode? i ≠ none := by
  have hstays : Stays a b := by
    clear hok
    induction hreads with
    | refl => exact .refl a
    | tail _ hstep ih =>
      obtain ⟨r, hstep⟩ := hstep
      exact ih.trans (stays_replace hstep)
  obtain ⟨b', hfirst, -⟩ := except_bind_eq_ok.mp hok
  obtain ⟨old, p, -, heditable, -, -⟩ := removeOne_eq_ok hfirst
  obtain ⟨hold, hp⟩ := editable_eq_ok heditable
  have habove : (a.site i).above = some p := (hstays.above i hi.known).symm.trans hp
  have hstart := initializes_of_init (k := 0) ha hattic habove (Node.fill_of_child? hinit)
  refine ⟨(hstart.inlines ha hi.known hreads).remains, by rw [habove]; nofun, ?_⟩
  exact attached_of_inlines hstart ha hi.known hreads (by rw [hold]; nofun)

/-- The places in which a variable is read are those where it was read at first, as long as none of them
gave way. -/
theorem Traces.references (h : Traces root gives a) (hroot : Script root)
    (hstays : ∀ k ∈ (ofProgram root).readNodes x, gives k = none) (hr : r ∈ a.references x) :
    r < a.sites.size ∧ (a.site r).node ∈ (ofProgram root).readNodes x := by
  have hvalue : r ∈ ((ofProgram root).binding x).reads.values := by
    rw [← h.binding_eq]
    exact (List.mem_filter.mp hr).1
  obtain ⟨hknown, hmem⟩ := node_mem_readNodes hroot hvalue
  refine ⟨Nat.lt_of_lt_of_le hknown h.size, ?_⟩
  by_cases hsame : (a.site r).node = ((ofProgram root).site r).node
  · rwa [hsame]
  · exact absurd (hstays _ hmem) (h.sites r hknown hsame).2

theorem Traces.nodup_references (h : Traces root gives a) (hroot : Script root) (x : BindingId) :
    (a.references x).Nodup := by
  obtain ⟨a₀, -, hrecorded, -⟩ := exists_settled hroot
  rw [Analysis.references, h.binding_eq]
  exact (hrecorded.nodup_reads x).filter _

/-- When all that could be found has given way, no read is left. -/
theorem Traces.givingReads (ha : Traces root gives a) (hroot : Script root) (hstart : Sound (opening root))
    (hstays : ∀ k ∈ (ofProgram root).readNodes x, gives k = none) (hremains : Remains a b)
    (hb : Traces root (fun k => if k ∈ a.readNodes x then some [primitiveNode v] else gives k) b) :
    Traces root (Analysis.givingReads root gives x v) b := by
  have hbefore : ∀ k ∈ a.readNodes x, k ∈ (ofProgram root).readNodes x := by
    intro k hk
    obtain ⟨r, hr, rfl⟩ := List.mem_map.mp hk
    exact (ha.references hroot hstays hr).2
  have hprogram : (ofProgram root).program = root := (extends_ofProgram root).program
  refine hb.congr (fun k hk => ?_) fun k hk => ?_
  · unfold Analysis.givingReads
    by_cases hread : k ∈ (ofProgram root).readNodes x
    · rw [if_pos hread]
      by_cases hfound : k ∈ a.readNodes x
      · rw [if_pos hfound]
        exact .inl rfl
      · rw [if_neg hfound]
        refine .inr ⟨hstays k hread, fun hmem => hfound ?_⟩
        obtain ⟨o, ho, -, rfl, ⟨j, hat⟩, -⟩ := exists_name_of_read hroot hread
        obtain ⟨hpos, hold⟩ := given_opening hstart hk
        have hthere := hremains.gone o.node.id hpos (Nat.lt_of_lt_of_le hold ha.next_le) hmem
        have hone : ∀ n : Node, identitiesAll [n] = n.identities := fun n => List.append_nil _
        have hplace : o.InPlace root a := fun m hm hin => by
          have hmem := ha.tree.around (by rw [hone]; exact hroot.identities) hold
            (by rwa [hone]) List.mem_cons_self hin hm.id_mem
          rwa [hone] at hmem
        have hundisturbed := undisturbed_of_inPlace hroot hat ho.inside hplace
        have hopening : ReadAt (opening root) x o.node.id j _ :=
          hat.extended (extends_opening root) hat.recorded
        exact (ha.remains.reads _ _ _ _ hopening hundisturbed).mem_readNodes
    · rw [if_neg hread, if_neg fun hfound => hread (hbefore k hfound)]
      exact .inl rfl
  · unfold Analysis.givingReads
    by_cases hread : k ∈ (ofProgram root).readNodes x
    · rw [if_pos hread]
      exact Option.some_ne_none _
    · rw [if_neg hread]
      rwa [if_neg fun hfound => hread (hbefore k hfound)] at hk

end Analysis

end Untangle
