import Untangle.Analysis.Edit
import Untangle.Proofs.Analysis.Extension
import Untangle.Proofs.Tree.Change

set_option autoImplicit false

/-!
# Changes through sites

A site leads to its node along the sites above it.  A change of what stands below the node leaves the
site where it is; a replacement moves the site on to the new node.  Either way the program is the old one
with a change at the end of the way of the site.
-/

namespace Untangle

namespace Analysis

variable {a a' a'' : Analysis} {i p : SiteId} {parent n n' n'' c c' : Node}

/-! ## Ways -/

theorem wayOnto_eq (a : Analysis) (i : SiteId) (w : Way) : a.wayOnto i w = a.way i ++ w := by
  have happend : ∀ v w : Way, a.wayOnto i (v ++ w) = a.wayOnto i v ++ w := by
    induction i using Nat.strongRecOn with
    | ind i ih =>
      intro v w
      rw [wayOnto, wayOnto]
      cases habove : (a.site i).above with
      | none => simp
      | some p =>
        simp only
        split
        · next hlt => exact ih p hlt (_ :: v) w
        · rfl
  exact happend [] w

theorem way_of_root (h : (a.site i).above = none) : a.way i = [] := by
  unfold way
  rw [wayOnto, h]

theorem way_of_above (h : (a.site i).above = some p) (hlt : p < i) :
    a.way i = a.way p ++ [⟨(a.site i).role, (a.site i).node⟩] := by
  rw [way, wayOnto, h]
  simp only [if_pos hlt]
  exact wayOnto_eq a p _

/-- The way of a site depends on this site and older ones. -/
theorem way_congr (h : ∀ k ≤ i, a'.site k = a.site k) : a'.way i = a.way i := by
  induction i using Nat.strongRecOn with
  | ind i ih =>
    have hsite := h i (Nat.le_refl i)
    cases habove : (a.site i).above with
    | none => rw [way_of_root habove, way_of_root (hsite ▸ habove)]
    | some p =>
      by_cases hlt : p < i
      · rw [way_of_above habove hlt, way_of_above (hsite ▸ habove) hlt, hsite,
          ih p hlt fun k hk => h k (Nat.le_of_lt (Nat.lt_of_le_of_lt hk hlt))]
      · rw [way, wayOnto, way, wayOnto, hsite, habove]
        simp only [if_neg hlt]

theorem Extends.way_eq (h : Extends a a') (hi : i < a.sites.size) : a'.way i = a.way i :=
  way_congr fun _ hk => h.site_eq (Nat.lt_of_le_of_lt hk hi)

/-! ## Nodes of sites -/

/-- A node that stands at a site. -/
structure Stands (a : Analysis) (i : SiteId) (n : Node) : Prop where
  known : i < a.sites.size
  node : (a.site i).node = n.id
  retired : (a.site i).retired = false
  follow : a.program.follow (a.way i) = some n

theorem Stands.attachedNode? (h : Stands a i n) : a.attachedNode? i = some n := by
  unfold Analysis.attachedNode?
  rw [h.retired]
  exact h.follow

theorem Stands.nodeAt (h : Stands a i n) : a.nodeAt i = n := by
  unfold Analysis.nodeAt
  rw [h.attachedNode?]

theorem Stands.isAttached (h : Stands a i n) : a.isAttached i = true := by
  unfold Analysis.isAttached
  rw [h.attachedNode?]
  rfl

/-- A node that stands at a site, alone in a slot of the node of the site above. -/
structure Alone (a : Analysis) (i p : SiteId) (parent n : Node) : Prop where
  known : i < a.sites.size
  above : (a.site i).above = some p
  younger : p < i
  role : (a.site i).role = n.role
  node : (a.site i).node = n.id
  retired : (a.site i).retired = false
  found : a.program.follow (a.way p) = some parent
  slot : parent.childrenAt n.role = [n]

theorem Alone.way_eq (h : Alone a i p parent n) : a.way i = a.way p ++ [⟨n.role, n.id⟩] := by
  rw [way_of_above h.above h.younger, h.role, h.node]

theorem Alone.stands (h : Alone a i p parent n) : Stands a i n := by
  refine ⟨h.known, h.node, h.retired, ?_⟩
  rw [h.way_eq, Node.follow_append, h.found]
  exact (Node.follow_step _ _).trans (Node.find?_of_childrenAt h.slot)

theorem extends_addSiteBelow (a : Analysis) (i : SiteId) (c : Node) (listed : Bool)
    (scope : ScopeId) : Extends a (a.addSiteBelow i c listed scope).2 := extends_addSite a _

theorem site_addSite (a : Analysis) (s : Site) : (a.addSite s).2.site a.sites.size = s := by
  simp [site, addSite]

theorem known_addSite (a : Analysis) (s : Site) : a.sites.size < (a.addSite s).2.sites.size := by
  show _ < (a.sites.push s).size
  rw [Array.size_push]
  exact Nat.lt_succ_self _

/-- A new site at which the program stands. -/
theorem stands_root (a : Analysis) :
    Stands (a.addSite ⟨a.program.id, none, .top, false, 0, false⟩).2 a.sites.size a.program := by
  have hsite := site_addSite a ⟨a.program.id, none, .top, false, 0, false⟩
  refine ⟨known_addSite .., congrArg Site.node hsite, congrArg Site.retired hsite, ?_⟩
  rw [way_of_root (congrArg Site.above hsite)]
  rfl

theorem site_addSiteBelow (a : Analysis) (i : SiteId) (c : Node) (listed : Bool) (scope : ScopeId) :
    (a.addSiteBelow i c listed scope).2.site a.sites.size =
      ⟨c.id, some i, c.role, listed, scope, false⟩ := site_addSite a _

theorem known_addSiteBelow (a : Analysis) (i : SiteId) (c : Node) (listed : Bool) (scope : ScopeId) :
    a.sites.size < (a.addSiteBelow i c listed scope).2.sites.size := known_addSite a _

theorem way_addSiteBelow (c : Node) (listed : Bool) (scope : ScopeId) (hi : i < a.sites.size) :
    (a.addSiteBelow i c listed scope).2.way a.sites.size = a.way i ++ [⟨c.role, c.id⟩] := by
  have hsite := site_addSiteBelow a i c listed scope
  rw [way_of_above (congrArg Site.above hsite) hi, (extends_addSiteBelow ..).way_eq hi, hsite]

/-- The site of a child that is alone in its slot. -/
theorem Stands.alone (h : Stands a i n) (hc : n.childrenAt c.role = [c]) (listed : Bool)
    (scope : ScopeId) : Alone (a.addSiteBelow i c listed scope).2 a.sites.size i n c := by
  have hsite := site_addSiteBelow a i c listed scope
  refine ⟨known_addSiteBelow .., congrArg Site.above hsite, h.known, congrArg Site.role hsite,
    congrArg Site.node hsite, congrArg Site.retired hsite, ?_, hc⟩
  rw [(extends_addSiteBelow ..).way_eq h.known]
  exact h.follow

/-- A new site below a node leads to a child. -/
theorem Stands.below (h : Stands a i n) (hc : c ∈ n.children) (listed : Bool) (scope : ScopeId) :
    ∃ d ∈ n.children, Stands (a.addSiteBelow i c listed scope).2 a.sites.size d := by
  have hsite := site_addSiteBelow a i c listed scope
  obtain ⟨d, hd⟩ : ∃ d, n.children.find? (⟨c.role, c.id⟩ : Step).leadsTo = some d :=
    Option.isSome_iff_exists.mp (List.find?_isSome.mpr ⟨c, hc, Node.leadsTo_self c⟩)
  have hlead := List.find?_some hd
  simp only [Step.leadsTo, Bool.and_eq_true, beq_iff_eq] at hlead
  refine ⟨d, List.mem_of_find?_eq_some hd, known_addSiteBelow .., ?_, congrArg Site.retired hsite, ?_⟩
  · rw [hsite, hlead.2]
  · rw [way_addSiteBelow c listed scope h.known, Node.follow_append]
    show (a.program.follow (a.way i)).bind _ = _
    rw [h.follow]
    exact (Node.follow_step _ _).trans hd

/-! ## Changes -/

/-- A change of what stands below the node of a site. -/
structure Alters (a a' : Analysis) (i : SiteId) (n n' : Node) : Prop where
  program : ∃ g, Node.Keeps g ∧ g n = n' ∧ a'.program = a.program.changeAt g (a.way i)
  sites : ∀ k < a.sites.size, a'.sites[k]? = a.sites[k]?

/-- A change of the node of a site, which may be replaced. -/
structure Turns (a a' : Analysis) (i : SiteId) (n n' : Node) : Prop where
  program : ∃ g, g n = n' ∧ a'.program = a.program.changeAt g (a.way i)
  size : a.sites.size ≤ a'.sites.size
  sites : ∀ k < a.sites.size, k ≠ i → a'.sites[k]? = a.sites[k]?

theorem Extends.alters (h : Extends a a') (i : SiteId) (n : Node) : Alters a a' i n n :=
  ⟨⟨fun m => m, Node.keeps_refl, rfl, by rw [Node.changeAt_refl, h.program]⟩, h.sites⟩

/-- The sites that there were lead on. -/
theorem Alters.sites_extend (h : Alters a a' i n n') :
    Extends { a with program := a'.program, next := a'.next } a' := ⟨rfl, rfl, h.sites⟩

theorem Alters.size_le (h : Alters a a' i n n') : a.sites.size ≤ a'.sites.size :=
  h.sites_extend.size_le

theorem Alters.site_eq (h : Alters a a' i n n') {k : SiteId} (hk : k < a.sites.size) :
    a'.site k = a.site k := h.sites_extend.site_eq hk

theorem Alters.way_eq (h : Alters a a' i n n') {k : SiteId} (hk : k < a.sites.size) :
    a'.way k = a.way k :=
  way_congr fun _ hle => h.site_eq (Nat.lt_of_le_of_lt hle hk)

theorem Alters.turns (h : Alters a a' i n n') : Turns a a' i n n' := by
  obtain ⟨g, -, hn, hprogram⟩ := h.program
  exact ⟨⟨g, hn, hprogram⟩, h.size_le, fun k hk _ => h.sites k hk⟩

theorem Alters.trans (h : Alters a a' i n n') (hi : i < a.sites.size) (h' : Alters a' a'' i n' n'') :
    Alters a a'' i n n'' := by
  obtain ⟨g, hkeeps, rfl, hprogram⟩ := h.program
  obtain ⟨g', hkeeps', rfl, hprogram'⟩ := h'.program
  refine ⟨⟨g' ∘ g, hkeeps'.comp hkeeps, rfl, ?_⟩, fun k hk => ?_⟩
  · rw [hprogram', h.way_eq hi, hprogram, Node.changeAt_changeAt hkeeps]
  · exact (h'.sites k (Nat.lt_of_lt_of_le hk h.size_le)).trans (h.sites k hk)

/-- A node is replaced after what stands below it was changed. -/
theorem Alters.trans_turns (h : Alters a a' i n n') (hi : i < a.sites.size)
    (h' : Turns a' a'' i n' n'') : Turns a a'' i n n'' := by
  obtain ⟨g, hkeeps, rfl, hprogram⟩ := h.program
  obtain ⟨g', rfl, hprogram'⟩ := h'.program
  refine ⟨⟨g' ∘ g, rfl, ?_⟩, Nat.le_trans h.size_le h'.size, fun k hk hne => ?_⟩
  · rw [hprogram', h.way_eq hi, hprogram, Node.changeAt_changeAt hkeeps]
  · exact (h'.sites k (Nat.lt_of_lt_of_le hk h.size_le) hne).trans (h.sites k hk)

theorem Turns.extended (h : Turns a a' i n n') (h' : Extends a' a'') : Turns a a'' i n n' := by
  obtain ⟨g, hn, hprogram⟩ := h.program
  exact ⟨⟨g, hn, h'.program.trans hprogram⟩, Nat.le_trans h.size h'.size_le, fun k hk hne =>
    (h'.sites k (Nat.lt_of_lt_of_le hk h.size)).trans (h.sites k hk hne)⟩

theorem Alters.stands (h : Alters a a' i n n') (hn : Stands a i n) : Stands a' i n' := by
  obtain ⟨g, hkeeps, rfl, hprogram⟩ := h.program
  have hsite := h.site_eq hn.known
  refine ⟨Nat.lt_of_lt_of_le hn.known h.size_le, ?_, ?_, ?_⟩
  · rw [hsite, hn.node, (hkeeps n).1]
  · rw [hsite, hn.retired]
  · rw [h.way_eq hn.known, hprogram, Node.follow_changeAt hkeeps, hn.follow]
    rfl

theorem Extends.stands (h : Extends a a') (hn : Stands a i n) : Stands a' i n :=
  (h.alters i n).stands hn

theorem Alters.alone (h : Alters a a' i n n') (hn : Alone a i p parent n) :
    ∃ parent', Alone a' i p parent' n' := by
  obtain ⟨g, hkeeps, rfl, hprogram⟩ := h.program
  have hsite := h.site_eq hn.known
  have hp : p < a.sites.size := Nat.lt_trans hn.younger hn.known
  refine ⟨parent.changeChild ⟨n.role, n.id⟩ g, ?_⟩
  refine ⟨Nat.lt_of_lt_of_le hn.known h.size_le, ?_, hn.younger, ?_, ?_, ?_, ?_, ?_⟩
  · rw [hsite, hn.above]
  · rw [hsite, hn.role, (hkeeps n).2]
  · rw [hsite, hn.node, (hkeeps n).1]
  · rw [hsite, hn.retired]
  · rw [h.way_eq hp, hprogram, hn.way_eq, Node.changeAt_step,
      Node.follow_changeAt (Node.keeps_changeChild _ _), hn.found]
    rfl
  · have hslot : (parent.changeChild ⟨n.role, n.id⟩ g).childrenAt n.role = [g n] := by
      rw [Node.childrenAt_changeChild (fun c _ => (hkeeps c).2), hn.slot]
      simp [Node.leadsTo_self]
    rw [(hkeeps n).2, hslot]

/-- What becomes of a child becomes of the node above. -/
theorem Turns.alters {before after : List Node} {listed : Bool} {scope : ScopeId}
    (h : Turns (a.addSiteBelow i c listed scope).2 a' a.sites.size c c') (hi : i < a.sites.size)
    (hn : n.children = before ++ c :: after) (hbefore : ∀ d ∈ before, d.role ≠ c.role)
    (hafter : ∀ d ∈ after, d.role ≠ c.role) :
    Alters a a' i n (n.withChildren (before ++ c' :: after)) := by
  have hextends := extends_addSiteBelow a i c listed scope
  obtain ⟨g, rfl, hprogram⟩ := h.program
  refine ⟨⟨Node.changeChild ⟨c.role, c.id⟩ g, Node.keeps_changeChild _ _,
    Node.changeChild_of_roles hn hbefore hafter g, ?_⟩, fun k hk => ?_⟩
  · rw [hprogram, way_addSiteBelow c listed scope hi, Node.changeAt_step]
    rfl
  · exact (h.sites k (Nat.lt_of_lt_of_le hk hextends.size_le) (Nat.ne_of_lt hk)).trans
      (hextends.sites k hk)

/-! ## Replacing -/

theorem site_modifySite (a : Analysis) (i : SiteId) {k : SiteId} (f : Site → Site)
    (hk : k < a.sites.size) :
    (a.modifySite i f).site k = if i = k then f (a.site k) else a.site k := by
  simp only [site, modifySite, Array.getD_eq_getD_getElem?, Array.getElem?_modify,
    Array.getElem?_eq_getElem hk]
  split <;> rfl

theorem valueReplaced_of_ne {r : Role} (h : r ≠ .value) (n : Node) : n.valueReplaced r = n := by
  unfold Node.valueReplaced
  split
  · exact absurd rfl h
  · rfl

/-- The analysis after the node of a site gave way to another one, which is not taken up yet. -/
def exchange (a : Analysis) (i p : SiteId) (n new : Node) (next : NodeId) : Analysis :=
  { a with
    next := next
    program := a.program.changeAt
      (Node.changeChild ⟨n.role, n.id⟩ fun _ => new.inRole n.role) (a.way p)
    sites := a.sites.modify i fun s => { s with node := new.id }
    attic := n :: a.attic }

theorem Alone.replace_eq (h : Alone a i p parent n) (hrole : n.role ≠ .value) (new : Node) :
    a.replace i new =
      .ok ((a.exchange i p n (new.adopt a.next).1 (new.adopt a.next).2).register i) := by
  have heditable : a.editable i .replace = .ok (n, p) := by
    unfold editable
    rw [h.stands.attachedNode?, h.above]
  have hsubstitute : ∀ (a : Analysis) (new : Node), (a.site i).role = n.role →
      (a.site i).node = n.id →
      (a.substitute i p n [new] fun m =>
        if (a.site i).listed then m else m.valueReplaced (a.site i).role) =
      { a with
        program := a.program.changeAt
          (Node.changeChild ⟨n.role, n.id⟩ fun _ => new.inRole n.role) (a.way p)
        attic := n :: a.attic } := by
    intro a new hsame hnode
    unfold substitute
    simp only [hsame, hnode, Node.replaceChild_singleton, valueReplaced_of_ne hrole, ite_self]
  let b : Analysis := { a with next := (new.adopt a.next).2 }
  have hway : b.way p = a.way p := way_congr fun _ _ => rfl
  have hexchange : (b.substitute i p n [(new.adopt a.next).1] fun m =>
      if (b.site i).listed then m else m.valueReplaced (b.site i).role).modifySite i
        (fun s => { s with node := (new.adopt a.next).1.id }) =
      a.exchange i p n (new.adopt a.next).1 (new.adopt a.next).2 := by
    rw [hsubstitute b _ h.role h.node, hway]
    rfl
  unfold replace
  rw [heditable]
  exact congrArg (fun b : Analysis => Except.ok (b.register i)) hexchange

theorem Alone.turns_exchange (h : Alone a i p parent n) (new : Node) (next : NodeId) :
    Turns a (a.exchange i p n new next) i n (new.inRole n.role) := by
  refine ⟨⟨fun _ => new.inRole n.role, rfl, ?_⟩, ?_, fun k _ hne => ?_⟩
  · rw [h.way_eq, Node.changeAt_step]
    rfl
  · exact Nat.le_of_eq Array.size_modify.symm
  · show (a.sites.modify i _)[k]? = _
    rw [Array.getElem?_modify, if_neg (Ne.symm hne)]

theorem Alone.stands_exchange (h : Alone a i p parent n) (new : Node) (next : NodeId) :
    Stands (a.exchange i p n new next) i (new.inRole n.role) := by
  have hsite : (a.exchange i p n new next).site i = { a.site i with node := new.id } :=
    (site_modifySite a i _ h.known).trans (if_pos rfl)
  have hway : (a.exchange i p n new next).way p = a.way p := by
    refine way_congr fun k hk => ?_
    have hlt : k < i := Nat.lt_of_le_of_lt hk h.younger
    exact (site_modifySite a i _ (Nat.lt_trans hlt h.known)).trans (if_neg (Nat.ne_of_gt hlt))
  have hrole : (new.inRole n.role).role = n.role := by
    cases new
    rfl
  have hid : (new.inRole n.role).id = new.id := by
    cases new
    rfl
  have hslot : (parent.changeChild ⟨n.role, n.id⟩ fun _ => new.inRole n.role).childrenAt
      (new.inRole n.role).role = [new.inRole n.role] := by
    rw [Node.childrenAt_changeChild, hrole, h.slot]
    · simp [Node.leadsTo_self]
    · intro c hc
      simp only [Step.leadsTo, Bool.and_eq_true, beq_iff_eq] at hc
      rw [hrole, hc.1]
  refine ⟨?_, ?_, ?_, ?_⟩
  · show i < (a.sites.modify i _).size
    rw [Array.size_modify]
    exact h.known
  · rw [hsite, hid]
  · rw [hsite]
    exact h.retired
  · rw [way_of_above ((congrArg Site.above hsite).trans h.above) h.younger, hway, hsite]
    show Node.follow (a.way p ++ [⟨(a.site i).role, new.id⟩]) (Node.changeAt _ (a.way p) a.program) = _
    rw [Node.follow_append, Node.follow_changeAt (Node.keeps_changeChild _ _), h.found]
    refine (Node.follow_step _ _).trans ?_
    have hfind := Node.find?_of_childrenAt hslot
    rw [hrole, hid] at hfind
    rw [h.role]
    exact hfind

/-- A node that is alone in its slot is replaced by a new one, at which its site stands then. -/
theorem Alone.replace (h : Alone a i p parent n) (hrole : n.role ≠ .value) (new : Node) :
    ∃ a', a.replace i new = .ok a' ∧ Stands a' i ((new.adopt a.next).1.inRole n.role) ∧
      Turns a a' i n ((new.adopt a.next).1.inRole n.role) := by
  have htaken := extends_register
    (a.exchange i p n (new.adopt a.next).1 (new.adopt a.next).2) i
  exact ⟨_, h.replace_eq hrole new, htaken.stands (h.stands_exchange ..),
    (h.turns_exchange ..).extended htaken⟩

end Analysis

end Untangle
