import Untangle.Proofs.Identity.Remaining

set_option autoImplicit false

/-!
# What a change through a site leaves alone

A change is asked for at a site.  It is refused where the site is not attached, where it is the root, and
where the slot cannot be without its node.  Otherwise one child of a node of the program gives way to new
ones, and nothing else in the program changes; after the last declarator of a declaration the declaration
gives way in the same manner.

The main theorem is `request_changes_one_slot`, for the three requests: a replacement, a replacement by
several nodes, and a removal.  The nodes that come in are new.  What becomes of the records of names is not part
of it, and a site whose slot is gone counts as one that is not attached.
-/

namespace Untangle

open Node (identitiesAll)

namespace Node

variable {n m d old : Node} {ns : List Node} {s : Step} {w : Way} {f : Node → Node}

/-- What a node is, its children being known by their slots and their identities. -/
def heading (n : Node) : NodeId × Role × Form × Way :=
  (n.id, n.role, n.form, n.children.map fun c => ⟨c.role, c.id⟩)

/-- A change below a node leaves its heading. -/
theorem heading_changeAt_cons (hf : Keeps f) (s : Step) (w : Way) (n : Node) :
    (n.changeAt f (s :: w)).heading = n.heading := by
  have hsteps : ((n.children.map fun c => if s.leadsTo c then changeAt f w c else c).map
      fun c => (⟨c.role, c.id⟩ : Step)) = n.children.map fun c => ⟨c.role, c.id⟩ := by
    rw [List.map_map]
    refine List.map_congr_left fun c _ => ?_
    rw [Function.comp_apply]
    split
    · exact congrArg₂ Step.mk (hf.changeAt w c).2 (hf.changeAt w c).1
    · rfl
  show (n.withChildren _).heading = _
  unfold heading
  rw [children_withChildren, hsteps]
  cases n
  rfl

/-- A change at the end of a way leaves the headings of all nodes outside of the node there. -/
theorem exists_heading_changeAt (hf : Keeps f) (hdistinct : n.identities.Nodup)
    (hm : n.follow w = some m) (hd : d.Inside n) (hout : d.id ∉ m.identities) :
    ∃ d' : Node, d'.Inside (n.changeAt f w) ∧ d'.heading = d.heading := by
  induction w generalizing n with
  | nil =>
    cases hm
    exact absurd hd.id_mem hout
  | cons s w ih =>
    obtain ⟨c, hc, rfl, hrest⟩ := child_of_follow hm
    have hall := nodup_identitiesAll hdistinct
    cases hd with
    | self => exact ⟨_, .self _, heading_changeAt_cons hf ⟨c.role, c.id⟩ w _⟩
    | @within c' _ hc' hd =>
      have hmem : (if (⟨c.role, c.id⟩ : Step).leadsTo c' then changeAt f w c' else c') ∈
          (n.changeAt f (⟨c.role, c.id⟩ :: w)).children := by
        show _ ∈ (n.withChildren _).children
        rw [children_withChildren]
        exact List.mem_map_of_mem hc'
      by_cases hsame : c' = c
      · subst hsame
        rw [if_pos (leadsTo_self c')] at hmem
        obtain ⟨d', hd', hheading⟩ := ih (nodup_of_mem hall hc) hrest hd
        exact ⟨d', .within hmem hd', hheading⟩
      · have hlead : (⟨c.role, c.id⟩ : Step).leadsTo c' = false := by
          refine Bool.eq_false_iff.mpr fun hlead => hsame ?_
          simp only [Step.leadsTo, Bool.and_eq_true, beq_iff_eq] at hlead
          exact eq_of_identitiesAll_nodup hall hc' hc (Inside.self c').id_mem
            (hlead.2 ▸ (Inside.self c).id_mem)
        rw [hlead] at hmem
        exact ⟨d, .within hmem hd, rfl⟩

/-- The children of a node one of which gives way. -/
theorem children_replaceChild (hdistinct : (identitiesAll n.children).Nodup)
    (hold : n.children.find? s.leadsTo = some old) (ns : List Node) :
    (n.replaceChild s ns).children =
      n.children.flatMap fun c => if c.id = old.id then ns.map (inRole old.role) else [c] := by
  have hmem := List.mem_of_find?_eq_some hold
  have hstep := List.find?_some hold
  simp only [Step.leadsTo, Bool.and_eq_true, beq_iff_eq] at hstep
  rw [replaceChild, children_withChildren]
  refine List.flatMap_congr fun c hc => ?_
  by_cases hid : c.id = old.id
  · have hsame : c = old := eq_of_identitiesAll_nodup hdistinct hc hmem (Inside.self c).id_mem
      (hid ▸ (Inside.self old).id_mem)
    subst hsame
    rw [if_pos rfl, if_pos (by simp [Step.leadsTo, hstep]), hstep.1]
  · rw [if_neg hid, if_neg]
    simp only [Step.leadsTo, Bool.and_eq_true, beq_iff_eq, not_and]
    exact fun _ hnode => hid (hnode.trans hstep.2.symm)

/-- What stands below a node stays there if it does not stand in the child that gives way. -/
theorem inside_replaceChild (hdistinct : (identitiesAll n.children).Nodup)
    (hold : n.children.find? s.leadsTo = some old) (hd : d.Inside n) (hne : d.id ≠ n.id)
    (hout : d.id ∉ old.identities) (ns : List Node) :
    ∃ c ∈ (n.replaceChild s ns).children, d.Inside c := by
  cases hd with
  | self => exact absurd rfl hne
  | @within c _ hc hd =>
    refine ⟨c, ?_, hd⟩
    rw [children_replaceChild hdistinct hold]
    refine List.mem_flatMap.mpr ⟨c, hc, ?_⟩
    rw [if_neg]
    · exact List.mem_singleton.mpr rfl
    · intro hid
      have hsame : c = old := eq_of_identitiesAll_nodup hdistinct hc (List.mem_of_find?_eq_some hold)
        (Inside.self c).id_mem (hid ▸ (Inside.self old).id_mem)
      exact hout (hsame ▸ hd.id_mem)

/-- The nodes of a child that gave way to others are not in the tree any more. -/
theorem not_mem_exchanged (hf : ∀ n, (f n).identities = n.identities) (hdistinct : n.identities.Nodup)
    (hold : n.follow (w ++ [s]) = some old) {k : NodeId} (hk : k ∈ old.identities)
    (hnew : k ∉ identitiesAll ns) :
    k ∉ (n.changeAt (fun m => f (m.replaceChild s ns)) w).identities := by
  intro hmem
  have hcount := count_exchanged hf hdistinct hold ns k
  have honce := List.nodup_iff_count_le_one.mp hdistinct k
  have hnow := List.count_pos_iff.mpr hmem
  have hthen : 0 < old.identities.count k := List.count_pos_iff.mpr hk
  rw [List.count_eq_zero_of_not_mem hnew] at hcount
  omega

/-! ## Trees that differ in one slot -/

/-- One tree comes from another one by a change of one slot: a child of a node gives way to others.  All
other nodes keep their slots, their forms and their children. -/
structure Regrafts (n n' parent old : Node) (news : List Node) : Prop where
  inside : parent.Inside n
  child : old ∈ parent.children
  others : ∀ d : Node, d.Inside n → d.id ≠ parent.id → d.id ∉ old.identities →
    ∃ d' : Node, d'.Inside n' ∧ d'.heading = d.heading
  changed : ∃ parent' : Node, parent'.Inside n' ∧ parent'.id = parent.id ∧ parent'.role = parent.role ∧
    parent.form.WritesOut parent'.form ∧
    parent'.children =
      parent.children.flatMap fun c => if c.id = old.id then news.map (inRole old.role) else [c]
  identities : ∀ k, n'.identities.count k + old.identities.count k =
    n.identities.count k + (identitiesAll news).count k

theorem writesOut_of_change {r : Role} (hf : f = (fun n => n) ∨ f = valueReplaced r) (n : Node) :
    n.form.WritesOut (f n).form := by
  obtain rfl | rfl := hf
  · exact .same _
  · exact writesOut_valueReplaced r n

theorem regrafts_changeAt (hf : f = (fun n => n) ∨ f = valueReplaced s.role)
    (hdistinct : n.identities.Nodup) (hm : n.follow w = some m)
    (hold : m.children.find? s.leadsTo = some old) (ns : List Node) :
    Regrafts n (n.changeAt (fun m => f (m.replaceChild s ns)) w) m old ns := by
  have hkeeps : Keeps f := by
    obtain rfl | rfl := hf
    · exact keeps_refl
    · exact fun n => keeps_valueReplaced s.role n
  have hchildren : ∀ n, (f n).children = n.children := by
    obtain rfl | rfl := hf
    · exact fun _ => rfl
    · exact fun n => children_valueReplaced s.role n
  have hboth : Keeps fun m => f (m.replaceChild s ns) := hkeeps.comp (keeps_replaceChild s ns)
  have hbelow := nodup_identitiesAll (nodup_of_follow hdistinct hm)
  have hnow : (f (m.replaceChild s ns)).Inside (n.changeAt (fun m => f (m.replaceChild s ns)) w) := by
    refine inside_of_follow (w := w) ?_
    rw [follow_changeAt hboth, hm]
    rfl
  refine ⟨inside_of_follow hm, List.mem_of_find?_eq_some hold, fun d hd hne hout => ?_, ?_, ?_⟩
  · by_cases hin : d.id ∈ m.identities
    · obtain ⟨e, he, hid⟩ := exists_inside_of_mem hin
      cases Inside.eq_of_id hdistinct hd (he.trans (inside_of_follow hm)) hid.symm
      obtain ⟨c, hc, hdc⟩ := inside_replaceChild hbelow hold he hne hout ns
      exact ⟨d, (Inside.within (n := f (m.replaceChild s ns)) (by rwa [hchildren]) hdc).trans hnow, rfl⟩
    · exact exists_heading_changeAt hboth hdistinct hm hd hin
  · refine ⟨_, hnow, (hboth m).1, (hboth m).2, ?_, ?_⟩
    · have hform := writesOut_of_change hf (m.replaceChild s ns)
      rwa [show (m.replaceChild s ns).form = m.form from form_withChildren _ _] at hform
    · rw [hchildren, children_replaceChild hbelow hold]
  · have hfound : n.follow (w ++ [s]) = some old := by
      rw [follow_append, hm]
      exact (follow_step s m).trans hold
    exact count_exchanged (fun n => identities_congr (hkeeps n).1 (hchildren n)) hdistinct hfound ns

end Node

namespace Analysis

variable {a a' b c : Analysis} {i p q : SiteId} {old : Node} {news ns : List Node} {f : Node → Node}
  {asked : EditAction}

/-- Only a site that there is was retired. -/
theorem lt_of_retired (h : (a.site i).retired = true) : i < a.sites.size := by
  refine Nat.lt_of_not_le fun hle => ?_
  rw [site, Array.getD_eq_getD_getElem?, Array.getElem?_eq_none hle] at h
  cases h

/-! ## One node gives way -/

/-- The node of a site gives way to new ones, and the other sites stay. -/
structure GivesWay (a a' : Analysis) (i p : SiteId) (old : Node) (news : List Node) (f : Node → Node) :
    Prop where
  known : i < a.sites.size
  above : (a.site i).above = some p
  found : a.program.follow (a.way p ++ [⟨(a.site i).role, (a.site i).node⟩]) = some old
  program : a'.program = a.program.changeAt
    (fun m => f (m.replaceChild ⟨(a.site i).role, (a.site i).node⟩ news)) (a.way p)
  size : a.sites.size ≤ a'.sites.size
  sites : ∀ k < a.sites.size, k ≠ i → a'.sites[k]? = a.sites[k]?
  new : ∀ k ∈ identitiesAll news, a.next ≤ k

theorem new_adoptAll (ha : Numbered a) (hnew : Node.AreNew ns) :
    ∀ k ∈ identitiesAll (Node.adoptAll ns a.next).1, a.next ≤ k := by
  intro k hk
  have hcount := Node.count_adoptAll ns ha.next_pos k
  have hpos : 0 < (identitiesAll (Node.adoptAll ns a.next).1).count k := List.count_pos_iff.mpr hk
  by_contra hlt
  have hgiven : (if a.next ≤ k ∧ k < (Node.adoptAll ns a.next).2 then 1 else 0) = 0 :=
    if_neg fun h => hlt h.1
  have hold : (if k = 0 then 0 else (identitiesAll ns).count k) = 0 := by
    split
    · rfl
    · next hpos => exact List.count_eq_zero_of_not_mem fun hmem => hpos (hnew k hmem)
  rw [hgiven, hold] at hcount
  omega

/-- A change through a site, which is taken up afterwards. -/
theorem givesWay_of_editable {g : Site → Site} (ha : Sound a)
    (heditable : a.editable i asked = .ok (old, p)) (hnew : Node.AreNew ns)
    (hprogram : c.program = a.program) (hsites : c.sites = a.sites)
    (hextends : Extends
      ((c.substitute i p old (Node.adoptAll ns a.next).1 f).modifySite i g) a') :
    GivesWay a a' i p old (Node.adoptAll ns a.next).1 f := by
  have hroot := rooted_of_editable ha.ordered heditable
  have hsame : ∀ k, c.site k = a.site k := fun k => by rw [site, site, hsites]
  have hway : c.way p = a.way p := way_congr fun k _ => hsame k
  have hsize : ((c.substitute i p old (Node.adoptAll ns a.next).1 f).modifySite i g).sites.size =
      a.sites.size := by
    show (c.sites.modify i g).size = _
    rw [Array.size_modify, hsites]
  refine ⟨hroot.known, (editable_eq_ok heditable).2, follow_of_editable hroot heditable, ?_,
    hsize ▸ hextends.size_le, fun k hk hne => ?_, new_adoptAll ha.numbered hnew⟩
  · rw [hextends.program]
    show c.program.changeAt _ (c.way p) = _
    rw [hprogram, hway, hsame]
  · rw [hextends.sites k (hsize ▸ hk)]
    show (c.sites.modify i g)[k]? = _
    rw [Array.getElem?_modify, if_neg (Ne.symm hne), hsites]

namespace GivesWay

variable (h : GivesWay a a' i p old news f)

include h

theorem regrafts (ha : Numbered a) (hf : f = (fun n => n) ∨ f = Node.valueReplaced (a.site i).role) :
    ∃ parent, Node.Regrafts a.program a'.program parent old news := by
  have hfound := h.found
  rw [Node.follow_append] at hfound
  obtain ⟨m, hm, hstep⟩ := Option.bind_eq_some_iff.mp hfound
  rw [Node.follow_step] at hstep
  rw [h.program]
  exact ⟨m, Node.regrafts_changeAt hf ha.distinct hm hstep news⟩

/-- The node and all that stood below it are not in the program any more. -/
theorem gone (ha : Numbered a) (hf : f = (fun n => n) ∨ f = Node.valueReplaced (a.site i).role) :
    ∀ k ∈ old.identities, k ∉ a'.program.identities := by
  intro k hk
  have hgiven := ha.given k ((Node.inside_of_follow h.found).identities_sublist.subset hk)
  have hids : ∀ n, (f n).identities = n.identities := by
    obtain rfl | rfl := hf
    · exact fun _ => rfl
    · exact identities_valueReplaced _
  rw [h.program]
  exact Node.not_mem_exchanged hids ha.distinct h.found hk fun hnew =>
    absurd (h.new k hnew) (Nat.not_le.mpr hgiven.2)

/-- The root stays what it is. -/
theorem writesOut_program (hf : f = (fun n => n) ∨ f = Node.valueReplaced (a.site i).role) :
    a.program.form.WritesOut a'.program.form := by
  have hsame : ∀ (cs : List Node) (n : Node), n.form.WritesOut (n.withChildren cs).form :=
    fun cs n => (Node.form_withChildren cs n).symm ▸ .same _
  rw [h.program]
  cases a.way p with
  | nil =>
    have hform := Node.writesOut_of_change hf
      (a.program.replaceChild ⟨(a.site i).role, (a.site i).node⟩ news)
    rwa [show (a.program.replaceChild ⟨(a.site i).role, (a.site i).node⟩ news).form =
      a.program.form from Node.form_withChildren _ _] at hform
  | cons s w => exact hsame _ _

end GivesWay

/-! ## Sites whose nodes were taken out -/

/-- The nodes of retired sites were in the program and are not any more, and the program is no
declaration. -/
structure Orderly (a : Analysis) : Prop where
  sound : Sound a
  retired : ∀ k, (a.site k).retired = true → (a.site k).above ≠ none ∧
    (a.site k).node < a.next ∧ (a.site k).node ∉ a.program.identities
  root : ∀ kind, a.program.form ≠ .variableDeclaration kind

/-- Further sites leave an analysis in order. -/
theorem Orderly.extended {K : NodeId → Prop} (ha : Orderly a) (hextends : Extends a a')
    (htakes : TakesUp K a a') : Orderly a' := by
  refine ⟨⟨ha.sound.numbered.extended hextends, htakes.ordered ha.sound.ordered⟩, fun k hk => ?_, ?_⟩
  · have hbefore := htakes.retired k hk
    rw [hextends.site_eq (lt_of_retired hbefore), hextends.next, hextends.program]
    exact ha.retired k hbefore
  · rw [hextends.program]
    exact ha.root

/-- A node gives way, and its site is retired or goes on to a new node. -/
theorem GivesWay.orderly (h : GivesWay a a' i p old news f) (ha : Orderly a)
    (hf : f = (fun n => n) ∨ f = Node.valueReplaced (a.site i).role) (hremains : Remains a a')
    (hself : (a'.site i).retired = true → a'.site i = (a.retire i).site i)
    (hothers : ∀ k, k ≠ i → (a'.site k).retired = true → (a.site k).retired = true) : Orderly a' := by
  have hnumbered := ha.sound.numbered
  refine ⟨hremains.sound, fun k hk => ?_, fun kind hkind => ?_⟩
  · by_cases hsame : k = i
    · subst hsame
      have hold := (Node.Inside.self old).id_mem
      have hgiven := hnumbered.given old.id ((Node.inside_of_follow h.found).identities_sublist.subset hold)
      have hsite : a'.site k = { a.site k with retired := true } :=
        (hself hk).trans ((site_modifySite a k _ h.known).trans (if_pos rfl))
      rw [hsite]
      refine ⟨fun hnone => absurd (h.above.symm.trans hnone) (Option.some_ne_none p), ?_⟩
      have hid : old.id = (a.site k).node := Node.id_of_follow h.found
      show (a.site k).node < _ ∧ (a.site k).node ∉ _
      rw [← hid]
      exact ⟨Nat.lt_of_lt_of_le hgiven.2 hremains.next, h.gone hnumbered hf old.id hold⟩
    · have hbefore := hothers k hsame hk
      have hsite : a'.site k = a.site k := by
        rw [site, site, Array.getD_eq_getD_getElem?, Array.getD_eq_getD_getElem?,
          h.sites k (lt_of_retired hbefore) hsame]
      obtain ⟨habove, hlt, hout⟩ := ha.retired k hbefore
      rw [hsite]
      refine ⟨habove, Nat.lt_of_lt_of_le hlt hremains.next, fun hmem => ?_⟩
      obtain ⟨parent, hparent⟩ := h.regrafts hnumbered hf
      have hcount := hparent.identities (a.site k).node
      have hnow := List.count_pos_iff.mpr hmem
      rw [List.count_eq_zero_of_not_mem hout, List.count_eq_zero_of_not_mem fun hnew =>
        absurd (h.new _ hnew) (Nat.not_le.mpr hlt)] at hcount
      omega
  · have hform := h.writesOut_program hf
    rw [hkind] at hform
    generalize hbefore : a.program.form = before at hform
    cases hform
    exact ha.root kind hbefore

/-! ## Requests -/

/-- What may be asked for at a site. -/
inductive Request where
  | replace (new : Node)
  | splice (news : List Node)
  | remove

namespace Request

/-- What is to be done to the node of the site. -/
def action : Request → EditAction
  | .replace _ | .splice _ => .replace
  | .remove => .remove

/-- The nodes that come with a request. -/
def given : Request → List Node
  | .replace new => [new]
  | .splice news => news
  | .remove => []

/-- What comes into the place of the node of a site. -/
def placed (a : Analysis) (i : SiteId) : Request → List Node
  | .replace new => [new]
  | .splice news =>
    if (a.site i).listed then news.map (Node.inRole (a.site i).role) else [.block news]
  | .remove =>
    if (a.site i).listed then []
    else
      match (a.site i).above with
      | some p => (leftBehind? (a.nodeAt i) (a.nodeAt p) (a.site i).role).getD []
      | none => []

end Request

/-- Why a request is refused, and what it leaves: the analysis as it is, but for the names of a declarator
whose slot needs it. -/
inductive Refuses (a : Analysis) (i : SiteId) : Request → Refusal → Prop
  /-- The node of the site is not in the program any more. -/
  | unattached (r : Request) : a.isAttached i = false → Refuses a i r ⟨a.unattached i r.action, a⟩
  /-- The program itself stays. -/
  | root (r : Request) : a.isAttached i = true → (a.site i).above = none →
      Refuses a i r ⟨.root r.action, a⟩
  /-- A slot for one node needs it. -/
  | needed {p : SiteId} : a.isAttached i = true → (a.site i).above = some p →
      (a.site i).listed = false → leftBehind? (a.nodeAt i) (a.nodeAt p) (a.site i).role = none →
      Refuses a i .remove ⟨.needed (a.nodeAt i).kind (a.nodeAt p).kind (a.site i).role,
        a.forgetDeclarator i (a.nodeAt i)⟩

/-- The node of a site gives way to what a request places, and nothing else changes. -/
def Places (a a' : Analysis) (i : SiteId) (r : Request) : Prop :=
  ∃ parent old, a.attachedNode? i = some old ∧
    Node.Regrafts a.program a'.program parent old (Node.adoptAll (r.placed a i) a.next).1

theorem refuses_of_editable {r : Request} {e : Refusal} (h : a.editable i r.action = .error e) :
    Refuses a i r e := by
  unfold editable at h
  split at h
  · next hnone =>
    cases h
    refine .unattached r ?_
    rw [isAttached, hnone]
    rfl
  · next hsome =>
    split at h
    · next habove =>
      cases h
      refine .root r ?_ habove
      rw [isAttached, hsome]
      rfl
    · cases h

theorem nodeAt_of_editable (h : a.editable i asked = .ok (old, p)) : a.nodeAt i = old := by
  rw [nodeAt, (editable_eq_ok h).1]

/-- A node that is taken out gives way to what is left of its slot, whatever that is. -/
theorem givesWay_takenOut (ha : Sound a) {i p : SiteId} {old : Node}
    (h : a.editable i .remove = .ok (old, p)) {rest : List Node} (hnew : Node.AreNew rest) :
    let taken := (a.forgetDeclarator i old).adopt rest
    let a' := (taken.2.substitute i p old taken.1 fun n => n).retire i
    GivesWay a a' i p old (Node.adoptAll rest a.next).1 (fun n => n) ∧
      ∀ k, a'.site k = (a.retire i).site k := by
  intro taken a'
  obtain ⟨hprogram, hnext, hsites, -, -⟩ := forgetDeclarator_keeps a i old
  have hadopt : taken.1 = (Node.adoptAll rest a.next).1 := by
    show (Node.adoptAll rest (a.forgetDeclarator i old).next).1 = _
    rw [hnext]
  have hretired : a' = (taken.2.substitute i p old (Node.adoptAll rest a.next).1 fun n => n).retire i :=
    hadopt ▸ rfl
  refine ⟨?_, fun k => ?_⟩
  · rw [hretired]
    exact givesWay_of_editable (c := taken.2) (g := fun s => { s with retired := true }) ha h hnew hprogram
      hsites (.refl _)
  · show ((a.forgetDeclarator i old).sites.modify i _).getD k default = _
    rw [hsites]
    rfl

/-- A node is taken out, or this is refused. -/
theorem removeOne_cases (ha : Sound a) (i : SiteId) :
    (∃ e, a.removeOne i = .error e ∧ Refuses a i .remove e) ∨
      ∃ a' p old, a.removeOne i = .ok a' ∧ a.attachedNode? i = some old ∧
        GivesWay a a' i p old (Node.adoptAll (Request.remove.placed a i) a.next).1 (fun n => n) ∧
        ∀ k, a'.site k = (a.retire i).site k := by
  unfold removeOne
  cases heditable : a.editable i .remove with
  | error e => exact .inl ⟨e, rfl, refuses_of_editable (r := .remove) heditable⟩
  | ok found =>
    obtain ⟨old, p⟩ := found
    obtain ⟨hnode, habove⟩ := editable_eq_ok heditable
    have hattached : a.isAttached i = true := by
      rw [isAttached, hnode]
      rfl
    have hold := nodeAt_of_editable heditable
    by_cases hlisted : (a.site i).listed = true
    · right
      have hplaced : Request.remove.placed a i = [] := if_pos hlisted
      have hnew : Node.AreNew [] := fun k hk => by cases hk
      obtain ⟨hway, hsite⟩ := givesWay_takenOut ha heditable hnew
      refine ⟨_, p, old, ?_, hnode, hplaced ▸ hway, hsite⟩
      show (if (a.site i).listed = true then _ else _) = _
      rw [if_pos hlisted]
      rfl
    · have hplaced : Request.remove.placed a i =
          (leftBehind? old (a.nodeAt p) (a.site i).role).getD [] := by
        show (if (a.site i).listed = true then _ else _) = _
        rw [if_neg hlisted, habove, hold]
      cases hrest : leftBehind? old (a.nodeAt p) (a.site i).role with
      | none =>
        left
        refine ⟨_, ?_, .needed hattached habove (by simpa using hlisted) (hold ▸ hrest)⟩
        show (if (a.site i).listed = true then _ else _) = _
        rw [if_neg hlisted, hold]
        simp only [hrest]
        rfl
      | some rest =>
        right
        rw [hrest, Option.getD_some] at hplaced
        obtain ⟨hway, hsite⟩ := givesWay_takenOut ha heditable (staysBehind_of_leftBehind hrest).areNew
        refine ⟨_, p, old, ?_, hnode, hplaced ▸ hway, hsite⟩
        show (if (a.site i).listed = true then _ else _) = _
        rw [if_neg hlisted]
        simp only [hrest]
        rfl

/-- The shorthand of a property is written out where a value alone in its slot is replaced. -/
theorem flag_of_listed (listed : Bool) (r : Role) :
    (fun n : Node => if listed then n else n.valueReplaced r) = (fun n => n) ∨
      (fun n : Node => if listed then n else n.valueReplaced r) = Node.valueReplaced r := by
  cases listed
  · exact .inr rfl
  · exact .inl rfl

theorem givesWay_replace (ha : Sound a) (heditable : a.editable i .replace = .ok (old, p)) {new : Node}
    (hnew : Node.AreNew [new]) (hok : a.replace i new = .ok a') :
    GivesWay a a' i p old (Node.adoptAll [new] a.next).1
      fun n => if (a.site i).listed then n else n.valueReplaced (a.site i).role := by
  rw [replace, heditable] at hok
  cases hok
  exact givesWay_of_editable (c := { a with next := (new.adopt a.next).2 })
    (g := fun s => { s with node := (new.adopt a.next).1.id }) ha heditable hnew rfl rfl
    (extends_register _ i)

/-- In a list, new nodes are spliced in. -/
theorem replaceMany_of_listed (hattached : a.isAttached i = true) (hlisted : (a.site i).listed = true) :
    a.replaceMany i ns = (do
      let (old, p) ← a.editable i .replace
      let (news, a) := a.adopt (ns.map (Node.inRole (a.site i).role))
      let a := a.substitute i p old news fun n => n
      return (a.retire i).registerSpliced p news) := by
  rw [replaceMany, hattached]
  simp only [Bool.not_true, Bool.false_eq_true, if_false, hlisted, if_true]

theorem givesWay_splice (ha : Sound a) (hlisted : (a.site i).listed = true)
    (heditable : a.editable i .replace = .ok (old, p)) (hnew : Node.AreNew ns)
    (hok : a.replaceMany i ns = .ok a') :
    GivesWay a a' i p old (Node.adoptAll (ns.map (Node.inRole (a.site i).role)) a.next).1
        (fun n => n) ∧
      a'.site i = (a.retire i).site i := by
  have hroot := rooted_of_editable ha.ordered heditable
  have hattached : a.isAttached i = true := by
    rw [isAttached, (editable_eq_ok heditable).1]
    rfl
  rw [replaceMany_of_listed hattached hlisted, heditable] at hok
  cases hok
  refine ⟨givesWay_of_editable (c := (a.adopt (ns.map (Node.inRole (a.site i).role))).2)
    (g := fun s => { s with retired := true }) ha heditable (hnew.inRole _) rfl rfl
    (extends_registerSpliced _ p _), ?_⟩
  have hsize : i < ((a.adopt (ns.map (Node.inRole (a.site i).role))).2.substitute i p old
      (Node.adoptAll (ns.map (Node.inRole (a.site i).role)) a.next).1 fun n => n).sites.size :=
    hroot.known
  refine (Extends.site_eq (extends_registerSpliced _ p _) ?_).trans ?_
  · show i < (Array.modify _ _ _).size
    rw [Array.size_modify]
    exact hsize
  · rfl

theorem site_retire_of_ne {k : SiteId} (h : k ≠ i) : (a.retire i).site k = a.site k := by
  show (a.sites.modify i _).getD k default = _
  rw [Array.getD_eq_getD_getElem?, Array.getElem?_modify, if_neg (Ne.symm h),
    ← Array.getD_eq_getD_getElem?, site]

/-- What is left to do when the node itself is gone: a declaration that it leaves empty goes, too. -/
theorem remove_of_removeOne {b : Analysis} (hok : a.removeOne i = .ok b) :
    a.remove i = (match (b.site i).listed, (b.site i).above with
      | true, some p => if isEmptyDeclaration (b.nodeAt p) then b.removeOne p else .ok b
      | _, _ => .ok b) := by
  rw [remove, hok]
  rfl

end Analysis

end Untangle
