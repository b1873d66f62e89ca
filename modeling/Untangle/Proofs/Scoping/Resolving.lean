import Untangle.Proofs.Scoping.Recording

set_option autoImplicit false

/-!
# What the pass for references records

The second pass looks up each name that is read or written from the scope in which it stands, and comes to
all of them.  So a name is recorded with the declaration that it designates, and nowhere else.

The main theorem is `reference_recorded`, about a new analysis of a script.  Static scoping is given in
`Designates`, apart from the passes; the records agree with it unless a head and a body share a scope.
-/

namespace Untangle

namespace Analysis

variable {root : Node} {a₀ a a' : Analysis} {o : Occurrence} {i : SiteId} {outer inner : ScopeId}
  {u : Usage} {b : BindingId} {name : Text}

/-! ## The pass -/

theorem resolve_identifier {n : Node} (hu : u ≠ .skip) (hname : n.form = .identifier name) :
    a.resolve i u n = a.addReference i u name := by
  cases n with
  | mk id role form cs =>
    cases hname
    rw [resolve]
    exact fun h => hu h

theorem resolve_skip (n : Node) : a.resolve i .skip n = a := by
  cases n with
  | mk id role form cs => rw [resolve]

theorem resolve_inner {n : Node} (hu : u ≠ .skip) (hname : ∀ name, n.form ≠ .identifier name) :
    a.resolve i u n = a.resolveAll i u n.form (a.site i).scope
      ((a.scopeOpenedBy? n.id).getD (a.site i).scope) n.children := by
  cases n with
  | mk id role form cs =>
    rw [resolve]
    · rfl
    · exact fun h => hu h
    · exact hname

theorem resolveAll_hole {c : Node} (hc : c.isHole = true) (form : Form) (rest : List Node) :
    a.resolveAll i u form outer inner (c :: rest) = a.resolveAll i u form outer inner rest := by
  cases c with
  | mk id role f cs =>
    rw [resolveAll]
    exact if_pos hc

theorem resolveAll_cons {c : Node} (hc : c.isHole = false) (form : Form) (rest : List Node) :
    a.resolveAll i u form outer inner (c :: rest) =
      ((a.addSiteBelow i c (form.isListed c.role) (childScope form c.role outer inner)).2.resolve
        a.sites.size (u.ofChild form c.role c.form) c).resolveAll i u form outer inner rest := by
  cases c with
  | mk id role f cs =>
    rw [resolveAll]
    exact if_neg (by simpa [Node.isHole, Node.form] using hc)

theorem resolveAll_append (form : Form) (before rest : List Node) :
    a.resolveAll i u form outer inner (before ++ rest) =
      (a.resolveAll i u form outer inner before).resolveAll i u form outer inner rest := by
  induction before generalizing a with
  | nil => rw [List.nil_append, resolveAll]
  | cons c before ih =>
    rw [List.cons_append]
    cases hc : c.isHole with
    | true => rw [resolveAll_hole hc, resolveAll_hole hc, ih]
    | false => rw [resolveAll_cons hc, resolveAll_cons hc, ih]

/-- The pass stands at a node and goes on below it. -/
structure Amid (root : Node) (a₀ a : Analysis) (o : Occurrence) (i : SiteId) (u : Usage)
    (outer inner : ScopeId) : Prop where
  recorded : Recorded root a₀ a
  of : Occurrence.Of root o
  used : Used root u o.node
  unnamed : ∀ name, o.node.form ≠ .identifier name
  stands : Stands a i o.node
  houses : Houses a₀ o outer inner

theorem Amid.step (h : Amid root a₀ a o i u outer inner) (hrecorded : Recorded root a₀ a')
    (hremembers : Remembers a a') : Amid root a₀ a' o i u outer inner :=
  ⟨hrecorded, h.of, h.used, h.unnamed, hremembers.further.stands h.stands, h.houses⟩

/-- The scopes in which the children of a node are evaluated. -/
theorem Settled.houses (hroot : Script root) (hs : Settled root a₀) (h : SameNames a₀ a)
    (ho : Occurrence.Of root o) (hrep : Represents a₀ o.around outer) :
    Houses a₀ o outer ((a.scopeOpenedBy? o.node.id).getD outer) := by
  have hfound : ∀ k, a₀.opened.get? o.node.id = some k → HasScope o ∧
      ∀ part, Represents a₀ (⟨o.node, part⟩ :: o.around) k := by
    intro k hk
    obtain ⟨o', ho', hid, hhas, hrep'⟩ := hs.founded.opened _ k hk
    cases ho'.unique_of_id hroot.identities ho hid
    exact ⟨hhas, hrep'⟩
  unfold scopeOpenedBy?
  rw [h.opened]
  cases hopened : a₀.opened.get? o.node.id with
  | some k =>
    obtain ⟨hhas, hrep'⟩ := hfound k hopened
    exact houses_of hrep (fun _ => hrep') fun hnone => absurd hhas hnone
  | none =>
    refine houses_of hrep (fun hhas => ?_) fun _ => rfl
    obtain ⟨k, hk⟩ := hs.opened o ho hhas
    cases hopened.symm.trans (hk.node ▸ hs.founded.scopes k hk.known)

/-- The scope of the program. -/
theorem Settled.exists_root (hroot : Script root) (hs : Settled root a₀) :
    ∃ k, a₀.opened.get? root.id = some k ∧ ∀ part, Represents a₀ [⟨root, part⟩] k := by
  obtain ⟨k, hk⟩ := hs.opened _ .root (hasScope_root hroot)
  have hopened := hs.founded.scopes k hk.known
  rw [hk.node] at hopened
  obtain ⟨o, ho, hid, -, hrep⟩ := hs.founded.opened _ k hopened
  cases ho.unique_of_id hroot.identities .root hid
  exact ⟨k, hopened, hrep⟩

theorem Settled.exists_houses (hroot : Script root) (hs : Settled root a₀)
    (ho : Occurrence.Of root o) : ∃ outer inner, Houses a₀ o outer inner := by
  induction ho with
  | root =>
    obtain ⟨k, -, hrep⟩ := hs.exists_root hroot
    exact ⟨k, k, houses_root hroot hrep k⟩
  | child hp hc hhole ih =>
    obtain ⟨outer, inner, hhouses⟩ := ih
    exact ⟨_, _, hs.houses hroot (.refl a₀) (.child hp hc hhole) (hhouses _)⟩

/-- The scopes around a name stand for those of the tree. -/
theorem Settled.exists_represents (hroot : Script root) (hs : Settled root a₀)
    (ho : Occurrence.Of root o) (hname : o.node.form = .identifier name) :
    ∃ k, Represents a₀ o.around k := by
  cases ho with
  | root => cases hname.symm.trans hroot.program
  | child hp hc hhole =>
    obtain ⟨outer, inner, hhouses⟩ := hs.exists_houses hroot hp
    exact ⟨_, hhouses _⟩

section Below

variable {c : Node} (hroot : Script root) (hs : Settled root a₀)
  (h : Amid root a₀ a o i u outer inner) (hc : c ∈ o.node.children) (hhole : c.isHole = false)

include h hc

/-- The site of a child. -/
theorem Amid.site (hids : root.identities.Nodup) (listed : Bool) (scope : ScopeId) :
    Recorded root a₀ (a.addSiteBelow i c listed scope).2 ∧
      Remembers a (a.addSiteBelow i c listed scope).2 ∧
      Stands (a.addSiteBelow i c listed scope).2 a.sites.size c ∧
      ((a.addSiteBelow i c listed scope).2.site a.sites.size).scope = scope := by
  obtain ⟨hrecorded, hremembers⟩ := recorded_addSite h.recorded ⟨c.id, some i, c.role, listed, scope, false⟩
  have hsite := site_addSiteBelow a i c listed scope
  obtain ⟨d, hd, hstands⟩ := h.stands.below hc listed scope
  have hinside : ∀ {d}, d ∈ o.node.children → d.Inside root := fun hd =>
    (Node.Inside.child hd).trans h.of.inside
  have hid : d.id = c.id := by rw [← hstands.node, hsite]
  cases Node.Inside.eq_of_id hids (hinside hd) (hinside hc) hid
  exact ⟨hrecorded, hremembers, hstands, congrArg Site.scope hsite⟩

theorem Amid.used_child : Used root (u.ofChild o.node.form c.role c.form) c :=
  .child h.used h.unnamed hc

include hroot hs hhole

/-- The pass goes on below a child that is no name and is not passed over. -/
theorem Amid.child (hu : u.ofChild o.node.form c.role c.form ≠ .skip)
    (hname : ∀ name, c.form ≠ .identifier name) (listed : Bool) :
    ∃ inner', Amid root a₀ (a.addSiteBelow i c listed (childScope o.node.form c.role outer inner)).2
        (o.child c) a.sites.size (u.ofChild o.node.form c.role c.form)
        (childScope o.node.form c.role outer inner) inner' ∧
      (a.addSiteBelow i c listed (childScope o.node.form c.role outer inner)).2.resolve a.sites.size
        (u.ofChild o.node.form c.role c.form) c =
      (a.addSiteBelow i c listed (childScope o.node.form c.role outer inner)).2.resolveAll a.sites.size
        (u.ofChild o.node.form c.role c.form) c.form (childScope o.node.form c.role outer inner) inner'
        c.children := by
  obtain ⟨hrecorded, -, hstands, hscope⟩ :=
    h.site hc hroot.identities listed (childScope o.node.form c.role outer inner)
  have hchild : Occurrence.Of root (o.child c) := .child h.of hc hhole
  refine ⟨_, ⟨hrecorded, hchild, h.used_child hc, hname, hstands,
    hs.houses hroot hrecorded.same hchild (h.houses c.role)⟩, ?_⟩
  rw [resolve_inner hu hname, hscope]
  rfl

/-- What the pass makes of a child, if what it makes of the nodes below is known. -/
theorem Amid.resolve_child
    (hbelow : ∀ {a' : Analysis} {j : SiteId} {u' : Usage} {outer' inner' : ScopeId},
      Amid root a₀ a' (o.child c) j u' outer' inner' →
      Recorded root a₀ (a'.resolveAll j u' c.form outer' inner' c.children) ∧
        Remembers a' (a'.resolveAll j u' c.form outer' inner' c.children)) (listed : Bool) :
    Recorded root a₀ ((a.addSiteBelow i c listed (childScope o.node.form c.role outer inner)).2.resolve
        a.sites.size (u.ofChild o.node.form c.role c.form) c) ∧
      Remembers a ((a.addSiteBelow i c listed (childScope o.node.form c.role outer inner)).2.resolve
        a.sites.size (u.ofChild o.node.form c.role c.form) c) := by
  obtain ⟨hrecorded, hremembers, hstands, hscope⟩ :=
    h.site hc hroot.identities listed (childScope o.node.form c.role outer inner)
  by_cases hskip : u.ofChild o.node.form c.role c.form = .skip
  · rw [hskip, resolve_skip]
    exact ⟨hrecorded, hremembers⟩
  · by_cases hname : ∃ name, c.form = .identifier name
    · obtain ⟨name, hname⟩ := hname
      rw [resolve_identifier hskip hname]
      by_cases huse : u.ofChild o.node.form c.role c.form = .read ∨
          u.ofChild o.node.form c.role c.form = .write
      · have hrep : Represents a₀ (o.child c).around ((a.addSiteBelow i c listed
            (childScope o.node.form c.role outer inner)).2.site a.sites.size).scope := by
          rw [hscope]
          exact h.houses c.role
        obtain ⟨hrecorded', hremembers', -⟩ := recorded_addReference hroot hs hrecorded
          (.child h.of hc hhole) huse hname (h.used_child hc) hstands hrep
        exact ⟨hrecorded', hremembers.trans hremembers'⟩
      · have hdeclare : u.ofChild o.node.form c.role c.form = .declare := by
          cases hu : u.ofChild o.node.form c.role c.form with
          | read => exact absurd (.inl hu) huse
          | write => exact absurd (.inr hu) huse
          | declare => rfl
          | skip => exact absurd hu hskip
        rw [hdeclare, addReference_declare]
        exact ⟨hrecorded, hremembers⟩
    · obtain ⟨inner', hamid, heq⟩ :=
        h.child hroot hs hc hhole hskip (fun name hform => hname ⟨name, hform⟩) listed
      obtain ⟨hrecorded', hremembers'⟩ := hbelow hamid
      rw [heq]
      exact ⟨hrecorded', hremembers.trans hremembers'⟩

end Below

/-- What the pass records below a node, it records soundly. -/
theorem recorded_resolveAll (hroot : Script root) (hs : Settled root a₀) (cs : List Node)
    (h : Amid root a₀ a o i u outer inner) (hcs : ∀ c ∈ cs, c ∈ o.node.children) :
    Recorded root a₀ (a.resolveAll i u o.node.form outer inner cs) ∧
      Remembers a (a.resolveAll i u o.node.form outer inner cs) := by
  induction hsize : o.node.size using Nat.strongRecOn generalizing a o i u outer inner cs with
  | ind size ih =>
    induction cs generalizing a with
    | nil =>
      rw [resolveAll]
      exact ⟨h.recorded, .refl a⟩
    | cons c cs ihcs =>
      have hc := hcs c List.mem_cons_self
      have hrest : ∀ d ∈ cs, d ∈ o.node.children := fun d hd => hcs d (List.mem_cons_of_mem c hd)
      cases hhole : c.isHole with
      | true =>
        rw [resolveAll_hole hhole]
        exact ihcs h hrest
      | false =>
        rw [resolveAll_cons hhole]
        obtain ⟨hrecorded, hremembers⟩ := h.resolve_child hroot hs hc hhole
          (fun hbelow => ih c.size (hsize ▸ Node.size_lt_of_mem_children hc) c.children hbelow
            (fun _ hd => hd) rfl)
          (o.node.form.isListed c.role)
        obtain ⟨hrecorded', hremembers'⟩ := ihcs (h.step hrecorded hremembers) hrest
        exact ⟨hrecorded', hremembers.trans hremembers'⟩

/-- The pass has come to a node, and goes on below it. -/
def Resolves (root : Node) (a₀ final : Analysis) (o : Occurrence) (u : Usage) : Prop :=
  ∃ a i outer inner, Amid root a₀ a o i u outer inner ∧
    Remembers (a.resolveAll i u o.node.form outer inner o.node.children) final

/-- How the pass comes to a child. -/
theorem Resolves.before_child (hroot : Script root) (hs : Settled root a₀) {c : Node}
    (h : Resolves root a₀ a' o u) (hc : c ∈ o.node.children) (hhole : c.isHole = false) :
    ∃ a i outer inner, Amid root a₀ a o i u outer inner ∧
      Remembers ((a.addSiteBelow i c (o.node.form.isListed c.role)
        (childScope o.node.form c.role outer inner)).2.resolve a.sites.size
        (u.ofChild o.node.form c.role c.form) c) a' := by
  obtain ⟨a, i, outer, inner, hamid, hfinal⟩ := h
  obtain ⟨before, after, hsplit⟩ := List.append_of_mem hc
  obtain ⟨hrecorded, hremembers⟩ := recorded_resolveAll hroot hs before hamid fun d hd =>
    hsplit ▸ List.mem_append_left _ hd
  have hbefore := hamid.step hrecorded hremembers
  rw [hsplit, resolveAll_append, resolveAll_cons hhole] at hfinal
  obtain ⟨hrecorded', hremembers'⟩ := hbefore.resolve_child hroot hs hc hhole
    (fun hbelow => recorded_resolveAll hroot hs c.children hbelow fun _ hd => hd)
    (o.node.form.isListed c.role)
  obtain ⟨-, hafter⟩ := recorded_resolveAll hroot hs after (hbefore.step hrecorded' hremembers')
    fun d hd => hsplit ▸ List.mem_append_right _ (List.mem_cons_of_mem c hd)
  exact ⟨_, i, outer, inner, hbefore, hafter.trans hfinal⟩

/-- The way of the pass to a child leads through its parent. -/
theorem used_parent (hids : root.identities.Nodup) {n c : Node} (hn : n.Inside root)
    (hc : c ∈ n.children) (h : Used root u c) (hu : u ≠ .skip) :
    ∃ v, Used root v n ∧ v ≠ .skip ∧ (∀ name, n.form ≠ .identifier name) ∧
      u = v.ofChild n.form c.role c.form := by
  cases h with
  | root => exact absurd hc hn.not_child
  | @child v p _ hp hunnamed hc' =>
    cases Node.Inside.parent_unique hids hn hp.inside hc hc'
    refine ⟨v, hp, ?_, hunnamed, rfl⟩
    rintro rfl
    exact hu rfl

/-- The pass comes to every node that is not passed over and is no name. -/
theorem resolves_of_used (hroot : Script root) (hs : Settled root a₀)
    (h : Resolves root a₀ a ⟨root, none, []⟩ .read) (ho : Occurrence.Of root o)
    (hused : Used root u o.node) (hu : u ≠ .skip) (hname : ∀ name, o.node.form ≠ .identifier name) :
    Resolves root a₀ a o u := by
  induction ho generalizing u with
  | root =>
    cases hused with
    | root => exact h
    | child hp _ hc => exact absurd hc hp.inside.not_child
  | @child p c hp hc hhole ih =>
    obtain ⟨v, hv, hskip, hunnamed, rfl⟩ := used_parent hroot.identities hp.inside hc hused hu
    obtain ⟨a', i, outer, inner, hamid, hfinal⟩ :=
      (ih hv hskip hunnamed).before_child hroot hs hc hhole
    obtain ⟨inner', hamid', heq⟩ :=
      hamid.child hroot hs hc hhole hu hname (p.node.form.isListed c.role)
    exact ⟨_, _, _, inner', hamid', heq ▸ hfinal⟩

/-- A name that is read or written is recorded with what it refers to. -/
theorem records_of_refers (hroot : Script root) (hs : Settled root a₀)
    (h : Resolves root a₀ a ⟨root, none, []⟩ .read) (ho : Occurrence.Of root o)
    (hu : u = .read ∨ u = .write) (hused : Used root u o.node) (hrefers : Refers a₀ o b) :
    Records a u b o.node.id := by
  have hskip : u ≠ .skip := by
    rintro rfl
    obtain h | h := hu <;> cases h
  obtain ⟨name, k, hname, hk⟩ := hrefers
  cases ho with
  | root => cases hname.symm.trans hroot.program
  | @child p c hp hc hhole =>
    obtain ⟨v, hv, hskip', hunnamed, rfl⟩ := used_parent hroot.identities hp.inside hc hused hskip
    obtain ⟨a', i, outer, inner, hamid, hfinal⟩ :=
      (resolves_of_used hroot hs h hp hv hskip' hunnamed).before_child hroot hs hc hhole
    obtain ⟨hrecorded, -, hstands, hscope⟩ := hamid.site hc hroot.identities
      (p.node.form.isListed c.role) (childScope p.node.form c.role outer inner)
    rw [resolve_identifier (n := c) hskip hname] at hfinal
    have hrep : Represents a₀ (p.child c).around ((a'.addSiteBelow i c (p.node.form.isListed c.role)
        (childScope p.node.form c.role outer inner)).2.site a'.sites.size).scope := by
      rw [hscope]
      exact hamid.houses c.role
    obtain ⟨-, -, hrecords⟩ := recorded_addReference hroot hs hrecorded (.child hp hc hhole) hu hname
      hused hstands hrep
    exact hfinal.records _ hu b _ (hrecords b ⟨name, k, hname, hk⟩)

/-! ## Programs -/

theorem stands_start (root : Node) : Stands (start root) 0 root := by
  refine ⟨Nat.zero_lt_one, rfl, rfl, ?_⟩
  rw [way_of_root rfl]
  rfl

/-- Before the pass nothing but declarations is recorded. -/
theorem recorded_settled (hs : Settled root a) : Recorded root a a := by
  refine ⟨.refl a, fun u hu b i hi => ?_, fun b => ?_, fun id b hb => ?_⟩
  · obtain rfl | rfl := hu
    · have hnone : (a.binding b).reads.values = [] := by
        rw [hs.founded.reads]
        rfl
      exact absurd (hnone ▸ hi : i ∈ []) List.not_mem_nil
    · exact .inl ⟨rfl, hs.founded.writes b i hi⟩
  · rw [hs.founded.reads]
    exact ⟨.nil, fun _ he => by cases he⟩
  · cases (hs.founded.resolved id).symm.trans hb

/-- What the second pass leaves. -/
theorem exists_settled (hroot : Script root) :
    ∃ a₀, Settled root a₀ ∧ Recorded root a₀ (ofProgram root) ∧
      Resolves root a₀ (ofProgram root) ⟨root, none, []⟩ .read := by
  have hs := settled_declare hroot
  have hunnamed : ∀ name, root.form ≠ .identifier name := by
    rw [hroot.program]
    intro name h
    cases h
  obtain ⟨k, hopened, hrep⟩ := hs.exists_root hroot
  have hamid : Amid root ((start root).declare 0 none 0 root) ((start root).declare 0 none 0 root)
      ⟨root, none, []⟩ 0 .read (((start root).declare 0 none 0 root).site 0).scope k :=
    ⟨recorded_settled hs, .root, .root, hunnamed, hs.further.stands (stands_start root),
      houses_root hroot hrep _⟩
  have heq : ofProgram root = ((start root).declare 0 none 0 root).resolveAll 0 .read root.form
      (((start root).declare 0 none 0 root).site 0).scope k root.children := by
    rw [ofProgram_eq, resolve_inner (by decide) hunnamed]
    unfold scopeOpenedBy?
    rw [hopened]
    rfl
  refine ⟨_, hs, ?_, _, _, _, _, hamid, heq ▸ .refl _⟩
  rw [heq]
  exact (recorded_resolveAll hroot hs root.children hamid fun _ hc => hc).1

/-- The nodes at which a binding is read, or written. -/
def usedNodes (a : Analysis) (u : Usage) (b : BindingId) : List NodeId :=
  match u with
  | .write => a.writeNodes b
  | _ => a.readNodes b

theorem mem_usedNodes {id : NodeId} :
    id ∈ a.usedNodes u b ↔ ∃ i ∈ (a.records u b).values, a.isAttached i = true ∧ (a.site i).node = id := by
  have hnodes : a.usedNodes u b =
      ((a.records u b).values.filter a.isAttached).map fun i => (a.site i).node := by
    cases u <;> rfl
  rw [hnodes, List.mem_map]
  constructor
  · rintro ⟨i, hi, hid⟩
    obtain ⟨hi, hattached⟩ := List.mem_filter.mp hi
    exact ⟨i, hi, hattached, hid⟩
  · rintro ⟨i, hi, hattached, hid⟩
    exact ⟨i, List.mem_filter.mpr ⟨hi, hattached⟩, hid⟩

/-- What a function or a catch clause declares is not written. -/
theorem ofChild_ne_write {f : Form} {r : Role} (h : f.declaresAt r = true) (v : Usage) (child : Form) :
    v.ofChild f r child ≠ .write := by
  have hpattern : ∀ v, Usage.ofPatternChild v f r = .read := by
    intro v
    unfold Form.declaresAt at h
    split at h
    all_goals first
      | rfl
      | cases h
  cases v with
  | read =>
    obtain hread | hread := Usage.ofReadChild_of_declaresAt h child <;>
      · show Usage.ofReadChild f r child ≠ _
        rw [hread]
        decide
  | skip => exact Usage.noConfusion
  | write =>
    show Usage.ofPatternChild .write f r ≠ _
    rw [hpattern]
    decide
  | declare =>
    show Usage.ofPatternChild .declare f r ≠ _
    rw [hpattern]
    decide

/-- A name that is written is no declaration. -/
theorem not_written_of_declares (hroot : Script root) (ho : Occurrence.Of root o) {d : Node}
    {e : Enclosure} {name name' : Text} (hd : o.Declares d e name) (hname : d.form = .identifier name') :
    ¬ Used root .write d := by
  intro hused
  cases hd with
  | declarator hform hd _ _ =>
    cases hname.symm.trans (hroot.form_of_declarations ho.inside hform hd)
  | statement hform _ _ =>
    rw [hname] at hform
    cases hform
  | pattern hd _ =>
    obtain ⟨hc, hdeclares, -⟩ := Occurrence.slot_of_headPatterns hd
    obtain ⟨v, -, -, -, hv⟩ := used_parent hroot.identities ho.inside hc hused (by decide)
    exact ofChild_ne_write hdeclares v d.form hv.symm

/-- A name is recorded exactly with what it refers to. -/
theorem mem_usedNodes_iff_refers (hroot : Script root) (hs : Settled root a₀)
    (h : Recorded root a₀ a) (hpass : Resolves root a₀ a ⟨root, none, []⟩ .read)
    (ho : Occurrence.Of root o) (hname : o.node.form = .identifier name) (hu : u = .read ∨ u = .write)
    (hused : Used root u o.node) : o.node.id ∈ a.usedNodes u b ↔ Refers a₀ o b := by
  constructor
  · intro hmem
    obtain ⟨i, hi, -, hid⟩ := mem_usedNodes.mp hmem
    obtain ⟨rfl, o', d, e, name', ho', hd, hat⟩ | ⟨o', ho', -, hrefers, hat⟩ := h.sound u hu b i hi
    · have hnode := Node.Inside.eq_of_id hroot.identities (hd.inside ho').1 ho.inside
        (hat.node_eq.symm.trans hid)
      subst hnode
      exact absurd hused (not_written_of_declares hroot ho' hd hname)
    · cases ho'.unique_of_id hroot.identities ho (hat.node_eq.symm.trans hid)
      exact hrefers
  · intro hrefers
    obtain ⟨i, n, hi, hn, hid⟩ := records_of_refers hroot hs hpass ho hu hused hrefers
    exact mem_usedNodes.mpr ⟨i, Dict.mem_values_of_get? hi, hn.isAttached, hn.node.trans hid⟩

theorem SameNames.bindingOf (h : SameNames a₀ a) {n : Node} (hb : BindingOf a₀ n name b) :
    BindingOf a n name b := by
  obtain ⟨hknown, hname, hopened, hnode⟩ := hb
  refine ⟨h.size ▸ hknown, (h.bindings b).1.trans hname, ?_, ?_⟩
  · rw [h.scopes, (h.bindings b).2]
    exact hopened
  · rw [(h.bindings b).2, scope, h.scopes]
    exact hnode

/-- Each name that is read or written is recorded with one declaration and no other: the one in the
innermost scope around that declares the name; a name that no scope around declares is recorded nowhere.
Variables and parameters belong to the function, `let`, `const`, functions and classes to their block, what
is caught to its clause, and what cases declare to their `switch`.  This is the declaration that static
scoping designates unless a scope in whose head the name stands declares it in the body, or the name comes
without a declaration. -/
theorem reference_recorded (hroot : Script root) (ho : Occurrence.Of root o)
    (hname : o.node.form = .identifier name) (hu : u = .read ∨ u = .write)
    (hused : Used root u o.node) :
    ((∃ s b, Innermost (fun e => e.HasName root name) o.around s ∧
        BindingOf (ofProgram root) s name b ∧
        ∀ b', o.node.id ∈ (ofProgram root).usedNodes u b' ↔ b' = b) ∨
      (∀ s, ¬ Innermost (fun e => e.HasName root name) o.around s) ∧
        ∀ b', o.node.id ∉ (ofProgram root).usedNodes u b') ∧
    (Unaffected root name o.around → ∀ s,
      Designates root name o.around s ↔ Innermost (fun e => e.HasName root name) o.around s) := by
  refine ⟨?_, fun hclear s => hclear.designates_iff s⟩
  obtain ⟨a₀, hs, hrecorded, hpass⟩ := exists_settled hroot
  have hmem := fun b' =>
    mem_usedNodes_iff_refers (b := b') hroot hs hrecorded hpass ho hname hu hused
  obtain ⟨k, hk⟩ := hs.exists_represents hroot ho hname
  obtain ⟨s, b, hs', hb, hbinding⟩ | ⟨hnone, hb⟩ :=
    lookup_innermost hroot hs name (fun e he => ho.opener_inside he) hk
  · refine .inl ⟨s, b, hs', hrecorded.same.bindingOf hbinding, fun b' => (hmem b').trans ?_⟩
    have hrefers : Refers a₀ o b := ⟨name, k, hname, hk, hb⟩
    exact ⟨fun h => h.unique hs.founded hrefers, fun h => h ▸ hrefers⟩
  · refine .inr ⟨hnone, fun b' h => ?_⟩
    obtain ⟨name', k', hname', hk', hb'⟩ := (hmem b').mp h
    cases hname.symm.trans hname'
    cases hk'.unique hs.founded hk
    cases hb.symm.trans hb'

/-- `return x;` -/
def returning : Node :=
  .mk 9 .body .returnStatement [.mk 10 .argument (.identifier (Text.of "x")) []]

/-- `function f(x) { return x; }` -/
def shadowing : Node :=
  .mk 5 .body (.functionDeclaration ⟨false, false, false⟩)
    [.mk 6 .id (.identifier (Text.of "f")) [], .mk 7 .params (.identifier (Text.of "x")) [],
     .mk 8 .body .blockStatement [returning]]

/-- `var x; function f(x) { return x; }` -/
def shadowed : Node :=
  .mk 1 .top .program
    [.mk 2 .body (.variableDeclaration .var)
      [.mk 3 .declarations .variableDeclarator [.mk 4 .id (.identifier (Text.of "x")) []]],
     shadowing]

/-- The name that is returned. -/
def returned : Occurrence :=
  ((((⟨shadowed, none, []⟩ : Occurrence).child shadowing).child
    (.mk 8 .body .blockStatement [returning])).child returning).child
    (.mk 10 .argument (.identifier (Text.of "x")) [])

theorem script_shadowed : Script shadowed := ⟨rfl, by decide, by decide⟩

/-- The name is the parameter, not the variable outside. -/
theorem returned_recorded :
    Script shadowed ∧ Occurrence.Of shadowed returned ∧
      returned.node.form = .identifier (Text.of "x") ∧ Used shadowed .read returned.node ∧
      Designates shadowed (Text.of "x") returned.around shadowing ∧
      ∃ b, BindingOf (ofProgram shadowed) shadowing (Text.of "x") b ∧
        ∀ b', returned.node.id ∈ (ofProgram shadowed).usedNodes .read b' ↔ b' = b := by
  have hfunction : Occurrence.Of shadowed ((⟨shadowed, none, []⟩ : Occurrence).child shadowing) :=
    .child .root (List.mem_cons_of_mem _ List.mem_cons_self) rfl
  have hof : Occurrence.Of shadowed returned :=
    .child (.child (.child hfunction (List.mem_cons_of_mem _ (List.mem_cons_of_mem _ List.mem_cons_self))
      rfl) List.mem_cons_self rfl) List.mem_cons_self rfl
  have hinner : ∀ {n : Node}, n.name? = none → ∀ name, n.form ≠ .identifier name := by
    intro n h name hform
    simp [Node.name?, hform] at h
  have hshadowing : Used shadowed .read shadowing :=
    Used.child .root (hinner rfl) (List.mem_cons_of_mem _ List.mem_cons_self)
  have hblock : Used shadowed .read (.mk 8 .body .blockStatement [returning]) :=
    hshadowing.child (hinner rfl) (List.mem_cons_of_mem _ (List.mem_cons_of_mem _ List.mem_cons_self))
  have hreturning : Used shadowed .read returning := hblock.child (hinner rfl) List.mem_cons_self
  have hused : Used shadowed .read returned.node := hreturning.child (hinner rfl) List.mem_cons_self
  have hbinds : Enclosure.Binds shadowed ⟨shadowing, .head⟩ (Text.of "x") :=
    ⟨_, .mk 7 .params (.identifier (Text.of "x")) [], hfunction,
      .pattern List.mem_cons_self List.mem_cons_self⟩
  have hdesignates : Designates shadowed (Text.of "x") returned.around shadowing :=
    .here (.inr (.inl hbinds))
  have hinnermost : Innermost (fun e => e.HasName shadowed (Text.of "x")) returned.around shadowing :=
    .here ⟨.head, hbinds⟩
  refine ⟨script_shadowed, hof, rfl, hused, hdesignates, ?_⟩
  obtain ⟨⟨s, b, hs, hbinding, hrecorded⟩ | ⟨hnone, -⟩, -⟩ :=
    reference_recorded script_shadowed hof rfl (.inl rfl) hused
  · rw [hs.unique hinnermost] at hbinding
    exact ⟨b, hbinding, hrecorded⟩
  · exact absurd hinnermost (hnone _)

/-- `var x; switch (x) { case 1: let x; }` -/
def switched : Node :=
  .mk 1 .top .program
    [.mk 2 .body (.variableDeclaration .var)
      [.mk 3 .declarations .variableDeclarator [.mk 4 .id (.identifier (Text.of "x")) []]],
     .mk 5 .body .switchStatement
      [.mk 6 .discriminant (.identifier (Text.of "x")) [],
       .mk 7 .cases .switchCase
        [.mk 8 .test (.literal (.number (.whole 1))) [],
         .mk 9 .consequent (.variableDeclaration .lexical)
          [.mk 10 .declarations .variableDeclarator [.mk 11 .id (.identifier (Text.of "x")) []]]]]]

/-- The value that is switched on stands in the head, and is recorded with what the cases declare. -/
example : (ofProgram switched).readNodes 0 = [] ∧ (ofProgram switched).readNodes 1 = [6] := by
  decide +kernel

end Analysis

end Untangle
