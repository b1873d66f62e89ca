import Untangle.Proofs.Tours.Lowering

set_option autoImplicit false

/-!
# What an action of a rule comes to

An action that comes to its end leaves the program as it is, or lowers its load.  In the latter case the
node of the site was taken out, or it gave way to a node that can be visited again less often; the sites
above keep their nodes.

Inlining is the one action that changes nodes at other sites: reads anywhere in the program give way to the
value of the variable.  A read cannot stand above the declarator that is taken out afterwards, because what
stands below a node that gave way is gone.
-/

namespace Untangle

open Node (identitiesAll load loadAll)

/-- How often a node of a form may be replaced in a row: a call becomes an operator, and an operator
becomes a value. -/
def Form.rank : Form → Nat
  | .call => 2
  | .binary _ | .forStatement => 1
  | _ => 0

theorem Form.rank_le (f : Form) : f.rank ≤ 2 := by
  unfold rank
  split <;> omega

/-! ## Nodes by their identities -/

namespace Node

variable {n d : Node}

/-- What stands around a node with an identity holds it. -/
theorem inside_of_id_mem {root : Node} (hdistinct : root.identities.Nodup) (hd : d.Inside root)
    (hn : n.Inside root) (hid : d.id ∈ n.identities) : d.Inside n := by
  obtain ⟨e, he, heq⟩ := exists_inside_of_mem hid
  cases Inside.eq_of_id hdistinct hd (he.trans hn) heq.symm
  exact he

end Node

namespace Analysis

variable {a a' b c : Analysis} {i j p r : SiteId} {old new n m : Node} {ns news : List Node} {w : Way}
  {k : Nat}

/-! ## Sites above a site -/

/-- A site stands above another one. -/
def Above (a : Analysis) : SiteId → SiteId → Prop :=
  Relation.TransGen fun p j => (a.site j).above = some p

theorem Above.lt (h : Above a j i) (ha : Ordered a) : j < i := by
  induction h with
  | single hstep => exact ha _ _ hstep
  | tail _ hstep ih => exact Nat.lt_trans ih (ha _ _ hstep)

theorem Above.stays (h : Above a j i) (ha : Ordered a) (hi : i < a.sites.size) (hstays : Stays a a') :
    Above a' j i := by
  induction h with
  | single hstep => exact .single ((hstays.above _ hi).trans hstep)
  | tail _ hstep ih =>
    exact (ih (Nat.lt_trans (ha _ _ hstep) hi)).tail ((hstays.above _ hi).trans hstep)

/-- The way to a site goes through the sites above it. -/
theorem Above.step_mem (h : Above a j i) (ha : Ordered a) (hj : (a.site j).above = some p) :
    (⟨(a.site j).role, (a.site j).node⟩ : Step) ∈ a.way i := by
  have hself : (⟨(a.site j).role, (a.site j).node⟩ : Step) ∈ a.way j := by
    rw [way_of_above hj (ha _ _ hj)]
    exact List.mem_append_right _ List.mem_cons_self
  induction h with
  | single hstep =>
    rw [way_of_above hstep (ha _ _ hstep)]
    exact List.mem_append_left _ hself
  | tail _ hstep ih =>
    rw [way_of_above hstep (ha _ _ hstep)]
    exact List.mem_append_left _ ih

theorem follow_of_attachedNode? (h : a.attachedNode? i = some n) : a.program.follow (a.way i) = some n := by
  unfold attachedNode? at h
  split at h
  · cases h
  · exact h

/-- The node of an attached site below the root is the one that the site names. -/
theorem id_of_attachedNode? (h : a.attachedNode? i = some n) (hp : (a.site i).above = some p)
    (ha : Ordered a) : n.id = (a.site i).node := by
  have hfollow := follow_of_attachedNode? h
  rw [way_of_above hp (ha _ _ hp)] at hfollow
  exact Node.id_of_follow hfollow

/-! ## One node gives way -/

/-- A node that gave way took what stood below it with it: a way that leads to an older node led there
before. -/
theorem Exchanges.follow_before (h : Exchanges a b i p old news) (ha : Numbered a) (hb : Numbered b)
    (hnew : ∀ k ∈ identitiesAll news, a.next ≤ k) (hm : b.program.follow w = some m)
    (hlt : m.id < a.next) : ∃ n, a.program.follow w = some n ∧ n.id = m.id := by
  have hnow : m.id ∈ b.program.identities := (Node.inside_of_follow hm).id_mem
  obtain ⟨d, hd, hid⟩ := Node.exists_inside_of_mem
    (h.mem_of_mem ha (hb.given m.id hnow).1 hlt hnow)
  obtain ⟨w₀, hw₀⟩ := hd.exists_follow ha.distinct
  have hold := Node.inside_of_follow h.found
  have hundisturbed : Undisturbed b w₀ := by
    intro s hs
    by_contra hgone
    obtain ⟨c, hc, e, he, hde, heid⟩ := Node.exists_around_of_follow hw₀ hs
    have heinside := he.trans (.child hc)
    have hein : e.id ∈ old.identities := by
      have hcount := h.count_eq ha s.node
      have hthere : 0 < a.program.identities.count s.node :=
        List.count_pos_iff.mpr (heid ▸ heinside.id_mem)
      rw [List.count_eq_zero_of_not_mem hgone] at hcount
      rw [heid]
      exact List.count_pos_iff.mp (by omega)
    -- The older node would have been taken out with what stands around it.
    have hdin : m.id ∈ old.identities := by
      rw [← hid]
      exact (hde.trans (Node.inside_of_id_mem ha.distinct heinside hold hein)).id_mem
    have hcount := h.count_eq ha m.id
    have honce := List.nodup_iff_count_le_one.mp ha.distinct m.id
    have hpos : 0 < b.program.identities.count m.id := List.count_pos_iff.mpr hnow
    have hcovered : 0 < old.identities.count m.id := List.count_pos_iff.mpr hdin
    rw [List.count_eq_zero_of_not_mem fun hmem => Nat.not_le.mpr hlt (hnew _ hmem)] at hcount
    omega
  obtain ⟨m', hm', hid'⟩ := h.leads ha hb hw₀ hundisturbed
  cases hb.one_place hm hm' (hid.symm.trans hid'.symm)
  exact ⟨d, hw₀, hid⟩

/-- What is known of a replacement by a new node. -/
structure Renews (a a' : Analysis) (i : SiteId) (new : Node) : Prop where
  remains : Remains a a'
  stays : Stays a a'
  others : ∀ k < a.sites.size, k ≠ i → (a'.site k).node = (a.site k).node
  attached : ∃ n, a'.attachedNode? i = some n ∧ n.form = new.form

theorem renews_replace (ha : Sound a) (hsuits : Suits a i [new]) (hok : a.replace i new = .ok a') :
    Renews a a' i new := by
  have hremains := remains_replace ha hsuits hok
  obtain ⟨b, p, old, hx, hsite, hretired, rfl⟩ := exists_exchange_replace ha hsuits hok
  have hextends := extends_register b i
  have hb : Numbered b := hremains.sound.numbered.of_eq hextends.program.symm hextends.next.symm
  have hknown : i < b.sites.size := hx.size ▸ hx.known
  refine ⟨hremains, stays_replace hok, fun k hk hne => ?_, ?_⟩
  · rw [hextends.site_eq (hx.size ▸ hk), hx.others k hne]
  · refine ⟨_, hx.attachedNode?_new ha hb List.mem_cons_self hextends (ha.ordered i p hx.above) ?_, ?_⟩
    · rw [hextends.site_eq hknown, hsite]
      exact ⟨hx.above, rfl, rfl, hretired⟩
    · rw [Node.form_inRole, Node.form_adopt]

/-- Where several statements are put into the place of a node, its site is retired or has a block. -/
theorem spliced_replaceMany (ha : Sound a) (hsuits : Suits a i ns) (hok : a.replaceMany i ns = .ok a') :
    (∀ k < a.sites.size, k ≠ i → (a'.site k).node = (a.site k).node) ∧
      ((a'.site i).retired = true ∨ ∃ n, a'.attachedNode? i = some n ∧ n.form = .blockStatement) := by
  obtain ⟨b, p, old, news, -, hx, -, hsite, -, rfl⟩ | ⟨-, hok⟩ :=
    exists_exchange_replaceMany ha hsuits hok
  · have hextends := extends_registerSpliced b p news
    refine ⟨fun k hk hne => ?_, .inl ?_⟩
    · rw [hextends.site_eq (hx.size ▸ hk), hx.others k hne]
    · rw [hextends.site_eq (hx.size ▸ hx.known), hsite]
  · have hrenews := renews_replace ha hsuits.block hok
    exact ⟨hrenews.others, .inr hrenews.attached⟩

theorem node_retire (a : Analysis) (i k : SiteId) : ((a.retire i).site k).node = (a.site k).node := by
  by_cases hk : k < a.sites.size
  · rw [retire, site_modifySite a i _ hk]
    split <;> rfl
  · have hsize : (a.retire i).sites.size = a.sites.size := Array.size_modify
    rw [site, site, Array.getD_eq_getD_getElem?, Array.getD_eq_getD_getElem?,
      Array.getElem?_eq_none (Nat.le_of_not_lt hk),
      Array.getElem?_eq_none (hsize ▸ Nat.le_of_not_lt hk)]

theorem retired_retire (h : i < a.sites.size) : ((a.retire i).site i).retired = true := by
  rw [retire, site_modifySite a i _ h, if_pos rfl]

theorem retired_retire_of_retired (h : (a.site i).retired = true) (j : SiteId) :
    ((a.retire j).site i).retired = true := by
  rw [retire, site_modifySite a j _ (lt_of_retired h)]
  split
  · rfl
  · exact h

/-- Taking a node out leaves all sites at their nodes, and retires the site. -/
theorem sites_of_remove (ha : Sound a) (hok : a.remove i = .ok a') :
    (∀ k, (a'.site k).node = (a.site k).node) ∧ (a'.site i).retired = true := by
  obtain ⟨e, herror, -⟩ | ⟨b, p, old, hfirst, -, hgives, hsites⟩ := removeOne_cases ha i
  · rw [remove, herror] at hok
    cases hok
  rw [remove_of_removeOne hfirst] at hok
  have hnode : ∀ k, (b.site k).node = (a.site k).node := fun k => by rw [hsites, node_retire]
  have hretired : (b.site i).retired = true := by
    rw [hsites]
    exact retired_retire hgives.known
  split at hok
  · next q _ _ =>
    split at hok
    · obtain ⟨e, herror, -⟩ | ⟨b', p', old', hsecond, -, -, hsites'⟩ :=
        removeOne_cases (remains_removeOne ha hfirst).sound q
      · rw [herror] at hok
        cases hok
      · cases hsecond.symm.trans hok
        refine ⟨fun k => ?_, ?_⟩
        · rw [hsites', node_retire, hnode]
        · rw [hsites']
          exact retired_retire_of_retired hretired q
    · cases hok
      exact ⟨hnode, hretired⟩
  · cases hok
    exact ⟨hnode, hretired⟩

/-! ## Replacements by new nodes -/

theorem editable_of_replace (hok : a.replace i new = .ok a') :
    ∃ old p, a.editable i .replace = .ok (old, p) := by
  unfold replace at hok
  obtain ⟨⟨old, p⟩, heditable, -⟩ := except_bind_eq_ok.mp hok
  exact ⟨old, p, heditable⟩

/-- The node of an attached site below the root has been given its identity. -/
theorem node_lt_next (ha : Sound a) (h : a.attachedNode? i = some n) (hp : (a.site i).above = some p) :
    (a.site i).node < a.next := by
  rw [← id_of_attachedNode? h hp ha.ordered]
  exact (ha.numbered.given _ (Node.inside_of_follow (follow_of_attachedNode? h)).id_mem).2

/-- A new node is younger than all nodes that there were. -/
theorem next_le_node (ha : Sound a) (hnew : Node.AreNew [new]) (hok : a.replace i new = .ok a') :
    a.next ≤ (a'.site i).node := by
  obtain ⟨b, p, old, hx, hsite, -, rfl⟩ := exists_exchange_replace ha (.new hnew) hok
  rw [(extends_register b i).site_eq (hx.size ▸ hx.known), hsite]
  refine new_adoptAll ha.numbered hnew _ ?_
  exact Node.mem_identitiesAll.mpr ⟨_, List.mem_cons_self, (Node.Inside.self _).id_mem⟩

theorem replaced_follow_before (ha : Sound a) (hnew : Node.AreNew [new]) (hok : a.replace i new = .ok a')
    (hm : a'.program.follow w = some m) (hlt : m.id < a.next) :
    ∃ n, a.program.follow w = some n ∧ n.id = m.id := by
  have hsound := (remains_replace ha (.new hnew) hok).sound
  obtain ⟨b, p, old, hx, -, -, rfl⟩ := exists_exchange_replace ha (.new hnew) hok
  have hextends := extends_register b i
  have hb : Numbered b := hsound.numbered.of_eq hextends.program.symm hextends.next.symm
  rw [hextends.program] at hm
  exact hx.follow_before ha.numbered hb (new_adoptAll ha.numbered hnew) hm hlt

end Analysis

/-- A node keeps its children in their slots, and a child that is replaced leaves its slot filled. -/
theorem Node.Regrafts.fill {n n' parent old new d d' : Node} {r : Role}
    (h : Regrafts n n' parent old [new]) (hdistinct : n.identities.Nodup)
    (hdistinct' : n'.identities.Nodup) (hd : d.Inside n) (hout : d.id ∉ old.identities)
    (hd' : d'.Inside n') (hid : d'.id = d.id) (hfill : Node.fill d.children r = true) :
    Node.fill d'.children r = true := by
  obtain ⟨c, hc, rfl⟩ := fill_iff.mp hfill
  by_cases hparent : d.id = parent.id
  · cases Inside.eq_of_id hdistinct hd h.inside hparent
    obtain ⟨parent', hinside, hsame, -, -, hchildren⟩ := h.changed
    cases Inside.eq_of_id hdistinct' hd' hinside (hid.trans hsame.symm)
    rw [hchildren]
    by_cases hold : c.id = old.id
    · have heq : c = old := Inside.eq_of_id hdistinct ((Inside.child hc).trans hd)
        ((Inside.child h.child).trans hd) hold
      refine fill_iff.mpr ⟨new.inRole old.role, List.mem_flatMap.mpr ⟨c, hc, ?_⟩, ?_⟩
      · rw [if_pos hold]
        exact List.mem_singleton.mpr rfl
      · rw [role_inRole, heq]
    · refine fill_iff.mpr ⟨c, List.mem_flatMap.mpr ⟨c, hc, ?_⟩, rfl⟩
      rw [if_neg hold]
      exact List.mem_singleton.mpr rfl
  · obtain ⟨d'', hinside, hheading⟩ := h.others d hd hparent hout
    have hsame : d''.id = d.id := congrArg Prod.fst hheading
    cases Inside.eq_of_id hdistinct' hd' hinside (hid.trans hsame.symm)
    have hsteps : (d'.children.map fun c => (⟨c.role, c.id⟩ : Step)) =
        d.children.map fun c => ⟨c.role, c.id⟩ := congrArg (fun x => x.2.2.2) hheading
    have hmem : (⟨c.role, c.id⟩ : Step) ∈ d'.children.map fun c => (⟨c.role, c.id⟩ : Step) :=
      hsteps ▸ List.mem_map_of_mem hc
    obtain ⟨c', hc', hstep⟩ := List.mem_map.mp hmem
    exact fill_iff.mpr ⟨c', hc', congrArg Step.role hstep⟩

namespace Analysis

variable {a a' b c : Analysis} {i j p r : SiteId} {new n : Node} {k : Nat} {v : Sandbox.Value}

/-! ## Reads that give way to a value -/

/-- Some reads of a variable give way to its value, one after the other. -/
def Inlines (v : Sandbox.Value) : Analysis → Analysis → Prop :=
  Relation.ReflTransGen fun b c => ∃ r, b.replace r (Sandbox.primitiveNode v) = .ok c

theorem areNew_value (v : Sandbox.Value) : Node.AreNew [Sandbox.primitiveNode v] :=
  Sandbox.areNew_primitiveNode v

/-- The way to a site was cut at a site above it: the node there is younger than the node of the site and
than all nodes that stand around it. -/
def Severed (a : Analysis) (j i : SiteId) : Prop :=
  ∃ bound, (a.site i).node < bound ∧ bound ≤ (a.site j).node ∧ bound ≤ a.next ∧
    (a.site j).above ≠ none ∧
    ∀ w m, a.program.follow w = some m → m.id < bound → ∀ s ∈ w, s.node < bound

theorem Severed.not_attached (h : Severed a j i) (ha : Ordered a) (habove : Above a j i) :
    a.attachedNode? i = none := by
  obtain ⟨bound, hnode, hyounger, -, hj, haround⟩ := h
  obtain ⟨q, hq⟩ := Option.ne_none_iff_exists'.mp hj
  obtain ⟨p, hp⟩ : ∃ p, (a.site i).above = some p := by
    cases habove with
    | single hstep => exact ⟨_, hstep⟩
    | tail _ hstep => exact ⟨_, hstep⟩
  refine Option.eq_none_iff_forall_not_mem.mpr fun n hn => ?_
  have hid := id_of_attachedNode? hn hp ha
  have hlt := haround _ n (follow_of_attachedNode? hn) (hid ▸ hnode) _ (habove.step_mem ha hq)
  exact Nat.lt_irrefl _ (Nat.lt_of_lt_of_le hlt hyounger)

/-- A replacement at a site above cuts the way. -/
theorem severed_of_replace (ha : Sound a) (habove : Above a j i) (hnode : (a.site i).node < a.next)
    (hi : i < a.sites.size) (hok : a.replace j (Sandbox.primitiveNode v) = .ok a') : Severed a' j i := by
  have hrenews := renews_replace ha (.new (areNew_value v)) hok
  have hlt := habove.lt ha.ordered
  obtain ⟨old, p, heditable⟩ := editable_of_replace hok
  refine ⟨a.next, ?_, next_le_node ha (areNew_value v) hok, hrenews.remains.next, ?_,
    fun w m hm hid s hs => ?_⟩
  · rw [hrenews.others i hi (Nat.ne_of_gt hlt)]
    exact hnode
  · rw [hrenews.stays.above j (Nat.lt_trans hlt hi), (editable_eq_ok heditable).2]
    exact Option.some_ne_none p
  · obtain ⟨n, hn, -⟩ := replaced_follow_before ha (areNew_value v) hok hm hid
    exact (ha.numbered.given _ ((Node.identitiesAll_children_sublist _).subset
      (Node.mem_identities_of_follow hn hs))).2

/-- A way that was cut stays so. -/
theorem Severed.replace (h : Severed a j i) (ha : Sound a) (habove : Above a j i)
    (hi : i < a.sites.size) (hok : a.replace r (Sandbox.primitiveNode v) = .ok a') : Severed a' j i := by
  have hrenews := renews_replace ha (.new (areNew_value v)) hok
  have hj := Nat.lt_trans (habove.lt ha.ordered) hi
  obtain ⟨old, p, heditable⟩ := editable_of_replace hok
  have hne : i ≠ r := by
    rintro rfl
    cases (editable_eq_ok heditable).1.symm.trans (h.not_attached ha.ordered habove)
  obtain ⟨bound, hnode, hyounger, hbound, hroot, haround⟩ := h
  refine ⟨bound, ?_, ?_, Nat.le_trans hbound hrenews.remains.next, ?_, fun w m hm hid => ?_⟩
  · rwa [hrenews.others i hi hne]
  · by_cases hjr : j = r
    · rw [hjr]
      exact Nat.le_trans hbound (next_le_node ha (areNew_value v) hok)
    · rwa [hrenews.others j hj hjr]
  · rwa [hrenews.stays.above j hj]
  · obtain ⟨n, hn, hsame⟩ :=
      replaced_follow_before ha (areNew_value v) hok hm (Nat.lt_of_lt_of_le hid hbound)
    exact haround w n hn (hsame ▸ hid)

/-- What is known of a declarator and of a site above it while reads give way. -/
structure Initializes (k : Nat) (a b : Analysis) (i : SiteId) : Prop where
  remains : Remains a b
  stays : Stays a b
  given : (b.site i).node < b.next
  load : b.program.load k < a.program.load k ∨ b.program.load k ≤ a.program.load k ∧
    ∀ d : Node, d.Inside b.program → d.id = (b.site i).node → Node.fill d.children .init = true
  above : ∀ j, Above a j i → (b.site j).node = (a.site j).node ∨ Severed b j i

theorem one_le_load (h : Node.fill n.children .init = true) : 1 ≤ n.load k := by
  rw [Node.load_eq, Node.ownLoad, h, if_pos rfl]
  omega

/-- The declarator keeps its initializer while reads give way. -/
theorem Initializes.replace (h : Initializes k a b i) (ha : Sound a) (hi : i < a.sites.size)
    (hok : b.replace r (Sandbox.primitiveNode v) = .ok c) : Initializes k a c i := by
  have hb := h.remains.sound
  have hib : i < b.sites.size := Nat.lt_of_lt_of_le hi h.stays.size
  have hrenews := renews_replace hb (.new (areNew_value v)) hok
  obtain ⟨old, p, heditable⟩ := editable_of_replace hok
  obtain ⟨hold, hp⟩ := editable_eq_ok heditable
  obtain ⟨old', hold', hfollows⟩ := follows_replace (k := k) hb hok
  cases hold.symm.trans hold'
  rw [Sandbox.load_primitiveNode] at hfollows
  have hle := hfollows.le (Nat.zero_le _)
  refine ⟨h.remains.trans ha hrenews.remains, h.stays.trans hrenews.stays, ?_, ?_, fun j hj => ?_⟩
  · by_cases hir : i = r
    · obtain ⟨n, hn, -⟩ := hrenews.attached
      rw [hir]
      refine node_lt_next (p := p) hrenews.remains.sound hn ?_
      rw [hrenews.stays.above r (hir ▸ hib)]
      exact hp
    · rw [hrenews.others i hib hir]
      exact Nat.lt_of_lt_of_le h.given hrenews.remains.next
  · obtain hlt | ⟨hsame, hinit⟩ := h.load
    · exact .inl (Nat.lt_of_le_of_lt hle hlt)
    by_cases hir : i = r
    · -- The declarator itself gives way.
      subst hir
      have hfill := hinit old (Node.inside_of_follow (follow_of_attachedNode? hold))
        (id_of_attachedNode? hold hp hb.ordered)
      exact .inl (Nat.lt_of_lt_of_le (hfollows.lt (one_le_load hfill)) hsame)
    · refine .inr ⟨Nat.le_trans hle hsame, fun d' hd' hid => ?_⟩
      rw [hrenews.others i hib hir] at hid
      have hthere := hd'.id_mem
      obtain ⟨d, hd, hsameid⟩ := Node.exists_inside_of_mem (hrenews.remains.gone d'.id
        (hrenews.remains.sound.numbered.given _ hthere).1 (hid ▸ h.given) hthere)
      have hflag := flag_of_listed (b.site r).listed (b.site r).role
      have hgives := givesWay_replace hb heditable (areNew_value v) hok
      obtain ⟨parent, hregrafts⟩ := hgives.regrafts hb.numbered hflag
      refine hregrafts.fill hb.numbered.distinct hrenews.remains.sound.numbered.distinct hd ?_ hd'
        hsameid.symm (hinit d hd (hsameid.trans hid))
      exact fun hmem => hgives.gone hb.numbered hflag _ hmem (hsameid ▸ hthere)
  · have habove := hj.stays ha.ordered hi h.stays
    obtain hsame | hsevered := h.above j hj
    · by_cases hjr : j = r
      · subst hjr
        exact .inr (severed_of_replace hb habove h.given hib hok)
      · rw [hrenews.others j (Nat.lt_trans (habove.lt hb.ordered) hib) hjr]
        exact .inl hsame
    · exact .inr (hsevered.replace hb habove hib hok)

theorem Initializes.inlines (h : Initializes k a b i) (ha : Sound a) (hi : i < a.sites.size)
    (hreads : Inlines v b c) : Initializes k a c i := by
  induction hreads with
  | refl => exact h
  | tail _ hstep ih =>
    obtain ⟨r, hok⟩ := hstep
    exact ih.replace ha hi hok

/-- A node that is found by its identity, at its site or anywhere else, has been given it. -/
theorem initializes_of_init (ha : Sound a) (hattic : AtticNumbered a) (hp : (a.site i).above = some p)
    (hinit : Node.fill (a.nodeAt i).children .init = true) : Initializes k a a i := by
  have hnode : (a.site i).node < a.next ∧ ∀ d : Node, d.Inside a.program → d.id = (a.site i).node →
      Node.fill d.children .init = true := by
    cases hattached : a.attachedNode? i with
    | some n =>
      have hn : a.nodeAt i = n := by
        rw [nodeAt, hattached]
      refine ⟨node_lt_next ha hattached hp, fun d hd hid => ?_⟩
      rw [hn] at hinit
      rwa [Node.Inside.eq_of_id ha.numbered.distinct hd
        (Node.inside_of_follow (follow_of_attachedNode? hattached))
        (hid.trans (id_of_attachedNode? hattached hp ha.ordered).symm)]
    | none =>
      have hn : a.nodeAt i = (a.find? (a.site i).node).getD (.leaf .hole) := by
        rw [nodeAt, hattached]
      rw [hn] at hinit
      cases hprogram : a.program.findId (a.site i).node with
      | some n =>
        rw [find?, hprogram] at hinit
        obtain ⟨hinside, hid⟩ := Node.inside_of_findId hprogram
        refine ⟨hid ▸ (ha.numbered.given _ hinside.id_mem).2, fun d hd hsame => ?_⟩
        rwa [Node.Inside.eq_of_id ha.numbered.distinct hd hinside (hsame.trans hid.symm)]
      | none =>
        rw [find?, hprogram] at hinit
        cases hgone : a.attic.findSome? (Node.findId (a.site i).node) with
        | none =>
          simp only [hgone] at hinit
          cases hinit
        | some n =>
          obtain ⟨x, hx, hfound⟩ := List.exists_of_findSome?_eq_some hgone
          obtain ⟨hinside, hid⟩ := Node.inside_of_findId hfound
          refine ⟨hid ▸ ((hattic x hx).2 _ hinside.id_mem).2, fun d hd hsame => ?_⟩
          exact absurd (hsame ▸ hd.id_mem) (Node.not_mem_of_findId hprogram)
  exact ⟨.refl ha, .refl a, hnode.1, .inr ⟨Nat.le_refl _, hnode.2⟩, fun _ _ => .inl rfl⟩

end Analysis

/-! ## Computations of rules that end -/

/-- Where the program is analysed so, a computation that ends leaves an analysis with a property. -/
def Yields {α : Type} (a : Analysis) (m : RuleM α) (P : Analysis → Prop) : Prop :=
  ∀ t : Tour RuleState, t.analysis = a → TourM.Ends (m t) (fun _ t' => P t'.analysis) fun _ => True

namespace Yields

variable {α β : Type} {a : Analysis} {P Q : Analysis → Prop} {i : SiteId}

theorem bind {m : RuleM α} {k : α → RuleM β} (hm : Yields a m P)
    (hk : ∀ x b, P b → Yields b (k x) Q) : Yields a (m >>= k) Q := fun t ht =>
  TourM.Ends.bind (hm t ht) fun x t' ht' => hk x _ ht' t' rfl

theorem pure (h : P a) (x : α) : Yields a (pure x : RuleM α) P := fun _ ht => by
  subst ht
  exact h

theorem throw (e : RuleError) : Yields a (throw e : RuleM α) P := fun _ _ => trivial

/-- What follows a result that is known. -/
theorem settle_bind {r : Except RuleError α} {k : α → RuleM β} (hk : ∀ x, r = .ok x → Yields a (k x) P) :
    Yields a (RuleM.settle r >>= k) P := by
  cases r with
  | ok x => exact hk x rfl
  | error e => exact .throw e

theorem edit {f : Analysis → Except Refusal Analysis} (hf : ∀ b, f a = .ok b → P b) :
    Yields a (RuleM.edit f) P := by
  rintro t rfl
  cases hrun : RuleM.edit f t with
  | ok x t' => exact hf _ (Rule.Evaluation.edit_inv hrun)
  | error e t' => trivial

/-- What leaves the program as it is may come first. -/
theorem after {m : RuleM α} {k : α → RuleM β} (hm : Still m) (hk : ∀ x, Yields a (k x) P) :
    Yields a (m >>= k) P := by
  intro t ht
  have hleft := hm a t ht
  cases hrun : m t with
  | ok x t' =>
    rw [hrun] at hleft
    rw [bind_of_ok hrun]
    exact hk x t' hleft
  | error e t' =>
    rw [bind_of_error hrun]
    trivial

theorem still {m : RuleM α} (hm : Still m) (h : P a) : Yields a m P := by
  intro t ht
  have hleft := hm a t ht
  revert hleft
  cases m t with
  | ok x t' =>
    intro hleft
    show P t'.analysis
    rwa [show t'.analysis = a from hleft]
  | error e t' => exact fun _ => trivial

theorem nodeAt_bind {k : Node → RuleM β} (hk : Yields a (k (a.nodeAt i)) P) :
    Yields a (RuleM.nodeAt i >>= k) P := by
  rintro t rfl
  exact hk t rfl

theorem ask_bind {f : Analysis → α} {k : α → RuleM β} (hk : Yields a (k (f a)) P) :
    Yields a (TourM.ask f >>= k) P := by
  rintro t rfl
  exact hk t rfl

theorem withSandbox_bind {f : Sandbox.Registry → α × Sandbox.Registry} {k : α → RuleM β}
    (hk : ∀ s, Yields a (k (f s).1) P) : Yields a (RuleM.withSandbox f >>= k) P := fun t ht =>
  hk t.provided (t.withSandbox (f t.provided).2) ht

theorem and {m : RuleM α} (h : Yields a m P) (h' : Yields a m Q) : Yields a m fun b => P b ∧ Q b := by
  intro t ht
  have hends := h t ht
  have hends' := h' t ht
  revert hends hends'
  cases m t with
  | ok x t' => exact fun hP hQ => ⟨hP, hQ⟩
  | error e t' => exact fun _ _ => trivial

theorem convert_bind {r : Except Sandbox.Fault α} {k : α → RuleM β}
    (hk : ∀ x, r = .ok x → Yields a (k x) P) : Yields a (RuleM.convert r >>= k) P := by
  cases r with
  | ok x => exact hk x rfl
  | error f => exact fun _ _ => trivial

end Yields

/-! ## Actions -/

section Actions

open Analysis (Above AtticNumbered Inlines Rooted Sound)

variable {a a' : Analysis} {i : SiteId} {k : Nat} {handles : Form → Bool}

/-- What an action on nodes of some forms comes to if it does something. -/
structure Lowered (k : Nat) (handles : Form → Bool) (a : Analysis) (i : SiteId) (a' : Analysis) :
    Prop where
  load : a'.program.load k < a.program.load k
  above : ∀ j, Above a j i → (a'.site j).node = (a.site j).node
  site : (a'.site i).retired = true ∨
    ∃ n, a'.attachedNode? i = some n ∧ ∀ f, handles f = true → n.form.rank < f.rank

/-- What an action on nodes of some forms comes to. -/
def Turned (k : Nat) (handles : Form → Bool) (a : Analysis) (i : SiteId) (a' : Analysis) : Prop :=
  a' = a ∨ Lowered k handles a i a'

theorem nodeAt_of_attachedNode? {n : Node} (h : a.attachedNode? i = some n) : a.nodeAt i = n := by
  rw [Analysis.nodeAt, h]

theorem lowered_replace {new : Node} (ha : Sound a) (hi : Rooted a i)
    (hsuits : Analysis.Suits a i [new]) (hload : new.load k < (a.nodeAt i).load k)
    (hrank : ∀ f, handles f = true → new.form.rank < f.rank) (hok : a.replace i new = .ok a') :
    Lowered k handles a i a' := by
  have hrenews := Analysis.renews_replace ha hsuits hok
  obtain ⟨old, hold, hfollows⟩ := Analysis.follows_replace (k := k) ha hok
  rw [nodeAt_of_attachedNode? hold] at hload
  refine ⟨hfollows.lt hload, fun j hj => ?_, ?_⟩
  · have hlt := hj.lt ha.ordered
    exact hrenews.others j (Nat.lt_trans hlt hi.known) (Nat.ne_of_lt hlt)
  · obtain ⟨n, hn, hform⟩ := hrenews.attached
    exact .inr ⟨n, hn, fun f hf => hform ▸ hrank f hf⟩

theorem rank_primitiveNode (v : Sandbox.Value) : (Sandbox.primitiveNode v).form.rank = 0 := by
  cases v with
  | number x =>
    show (Sandbox.numberNode x).form.rank = 0
    unfold Sandbox.numberNode
    split
    · rfl
    · simp only
      split
      · rfl
      · split <;> rfl
  | _ => rfl

theorem yields_folding (ha : Sound a) (hi : Rooted a i) :
    Yields a (Rule.Folding.act i) (Turned k Rule.Folding.handles a i) := by
  unfold Rule.Folding.act
  refine .nodeAt_bind ?_
  split
  · exact .pure (.inl rfl) ()
  next op l r hoperands =>
  simp only
  split
  · exact .after (Still.code _) fun _ => .throw _
  refine .after (Still.convert _) fun v => ?_
  refine Yields.bind (.edit fun b hok => ?_) fun _ b hb => .still (Still.record _ _) hb
  have hform : (a.nodeAt i).form = .binary op := by
    unfold Rule.Folding.literalOperands? at hoperands
    split at hoperands
    · next hform _ _ =>
      split at hoperands
      · cases hoperands
        exact hform
      · cases hoperands
    · cases hoperands
  refine .inr (lowered_replace ha hi (.new (Sandbox.areNew_primitiveNode v)) ?_ (fun f hf => ?_) hok)
  · rw [Sandbox.load_primitiveNode, Node.load_eq, Node.ownLoad, hform]
    simp only [Node.formLoad]
    omega
  · rw [rank_primitiveNode]
    cases f with
    | binary _ => exact Nat.zero_lt_one
    | _ => cases hf

theorem rank_valueTree? {h : Sandbox.Heap} {v : Option Sandbox.Value} {n : Node}
    (hn : Rule.Evaluation.valueTree? h v = .ok (some n)) : n.form.rank = 0 := by
  have hvalue : ∀ fuel v n, Sandbox.valueNodeGo h fuel v = .ok n → n.form.rank = 0 := by
    intro fuel v n hn
    cases fuel with
    | zero =>
      unfold Sandbox.valueNodeGo at hn
      cases hn
    | succ fuel =>
      unfold Sandbox.valueNodeGo at hn
      split at hn
      · simp only at hn
        split at hn
        · obtain ⟨_, -, hn⟩ := except_bind_eq_ok.mp hn
          cases hn
          rfl
        · obtain ⟨_, -, hn⟩ := except_bind_eq_ok.mp hn
          cases hn
          rfl
        · cases hn
        · cases hn
      · cases hn
        exact rank_primitiveNode v
  unfold Rule.Evaluation.valueTree? at hn
  split at hn
  · cases hn
  · cases hn
  · cases hn
  · split at hn
    · cases hn
    · split at hn
      · next htree =>
        cases hn
        exact hvalue _ _ _ htree
      · cases hn
      · cases hn

theorem rank_of_handles_call {f : Form} (hf : Rule.Evaluation.handles f = true) : f.rank = 2 := by
  cases f with
  | call => rfl
  | _ => cases hf

theorem yields_evaluate (ha : Sound a) (hi : Rooted a i)
    (hcallee : Node.fill (a.nodeAt i).children .callee = true) :
    Yields a (Rule.Evaluation.evaluate i (a.nodeAt i)) (Turned k Rule.Evaluation.handles a i) := by
  unfold Rule.Evaluation.evaluate
  refine .after Still.get fun t => ?_
  split
  · exact .pure (.inl rfl) ()
  refine .after (Still.code _) fun source => .after (Still.withSandbox _) fun r =>
    .after (Still.contained r) fun v => .after Still.get fun t' => .settle_bind fun tree hn => ?_
  cases tree with
  | none => exact .still (Still.record _ _) (.inl rfl)
  | some n =>
    refine Yields.bind (.edit fun b hok => ?_) fun _ b hb => .still (Still.record _ _) hb
    refine .inr (lowered_replace ha hi (.new (Rule.Evaluation.areNew_valueTree? hn)) ?_
      (fun f hf => ?_) hok)
    · have hle := Node.loadAll_add_two_le (k := k) hcallee
      rw [Rule.Evaluation.load_valueTree? hn]
      omega
    · rw [rank_valueTree? hn, rank_of_handles_call hf]
      exact Nat.zero_lt_two

theorem yields_callOfMember (ha : Sound a) (hi : Rooted a i)
    (hcallee : Node.fill (a.nodeAt i).children .callee = true) (callee : Node) (name : Text) :
    Yields a (Rule.Evaluation.callOfMember i (a.nodeAt i) callee name)
      (Turned k Rule.Evaluation.handles a i) := by
  have hstop : Yields a (pure () : RuleM Unit) (Turned k Rule.Evaluation.handles a i) :=
    .pure (.inl rfl) ()
  unfold Rule.Evaluation.callOfMember
  refine .after Still.get fun t => ?_
  simp only
  split
  · split
    · exact yields_evaluate ha hi hcallee
    · exact hstop
  split
  · refine .after (Still.convert _) fun value => ?_
    split
    · next n hn =>
      obtain ⟨w, -, hunwrapped⟩ := Option.bind_eq_some_iff.mp hn
      refine Yields.bind (.edit fun b hok => ?_) fun _ b hb => .still (Still.record _ _) hb
      refine .inr (lowered_replace ha hi
        (.made hi (Rule.Evaluation.madeOf_unwrapped? hunwrapped))
        (Rule.Evaluation.load_unwrapped? hcallee hunwrapped) (fun f hf => ?_) hok)
      rw [rank_of_handles_call hf]
      obtain ⟨l, r, -, -, -, ⟨-, rfl⟩ | ⟨-, -, -, rfl⟩⟩ := Sandbox.unwrapped_inv hunwrapped
      · exact Nat.one_lt_two
      · exact Nat.one_lt_two
    · exact hstop
  · exact hstop

theorem yields_evaluation (ha : Sound a) (hi : Rooted a i) :
    Yields a (Rule.Evaluation.act i) (Turned k Rule.Evaluation.handles a i) := by
  have hstop : Yields a (pure () : RuleM Unit) (Turned k Rule.Evaluation.handles a i) :=
    .pure (.inl rfl) ()
  unfold Rule.Evaluation.act
  refine .nodeAt_bind ?_
  split
  · exact hstop
  next callee hchild =>
  have hcallee := Node.fill_of_child? hchild
  have hevaluate := yields_evaluate (k := k) ha hi hcallee
  split
  · unfold Rule.Evaluation.callOfName
    refine .after Still.get fun t => ?_
    split
    · split
      · exact hevaluate
      · exact hstop
    · refine .after (Still.registerFunction _ _ _) fun r => ?_
      simp only
      split
      · exact hevaluate
      · exact hstop
  · split
    · exact hevaluate
    · split
      · exact yields_callOfMember ha hi hcallee _ _
      · exact hstop
  · exact hstop

theorem yields_unflattening (ha : Sound a) (settings : Settings) (hi : Rooted a i) :
    Yields a (Rule.Unflattening.act settings i)
      (Turned settings.maxDispatchSteps Rule.Unflattening.handles a i) := by
  unfold Rule.Unflattening.act
  refine .nodeAt_bind ?_
  split
  · exact .pure (.inl rfl) ()
  next loop hloop =>
  refine .ask_bind ?_
  refine Yields.withSandbox_bind fun s => ?_
  split
  · next statements hstatements =>
    refine Yields.bind (.edit fun b hok => ?_) fun _ b hb => .still (Still.record _ _) hb
    split at hstatements
    · next hrun =>
      cases hstatements
      have hdistinct := Analysis.nodup_nodeAt ha.numbered (Analysis.attached_of_replaceMany hok)
      have hmade := Dispatch.madeOf_unflatten hloop hdistinct hrun
      obtain ⟨hothers, hsite⟩ := Analysis.spliced_replaceMany ha (.made hi hmade) hok
      obtain ⟨old, hold, hfollows⟩ := Analysis.follows_replaceMany ha hok
      have hload := Dispatch.loadAll_unflatten_lt hloop hrun
      rw [nodeAt_of_attachedNode? hold] at hload
      refine .inr ⟨hfollows.lt hload, fun j hj => ?_, hsite.imp_right ?_⟩
      · have hlt := hj.lt ha.ordered
        exact hothers j (Nat.lt_trans hlt hi.known) (Nat.ne_of_lt hlt)
      · rintro ⟨n, hn, hform⟩
        refine ⟨n, hn, fun f hf => ?_⟩
        rw [hform]
        cases f with
        | forStatement => exact Nat.zero_lt_one
        | _ => cases hf
    · cases hstatements
  · exact .after (Still.record _ _) fun _ => .pure (.inl rfl) ()
  · exact .throw _
  · exact .throw _

theorem yields_replaceReads (v : Sandbox.Value) (rs : List SiteId) :
    Yields a (Rule.Inlining.replaceReads (Sandbox.primitiveNode v) rs) (Inlines v a) := by
  induction rs generalizing a with
  | nil => exact .pure .refl ()
  | cons r rs ih =>
    refine Yields.bind (.edit fun b hok => hok) fun _ b hok t ht => ?_
    exact (ih t ht).mono (fun _ _ h => .head ⟨r, hok⟩ h) fun _ h => h

/-- The declarator goes after its reads have given way. -/
theorem lowered_inlined {b : Analysis} {v : Sandbox.Value} (ha : Sound a) (hattic : AtticNumbered a)
    (hi : Rooted a i) (hinit : Node.fill (a.nodeAt i).children .init = true) (hreads : Inlines v a b)
    (hok : b.remove i = .ok a') : Lowered k handles a i a' := by
  have hstays : Analysis.Stays a b := by
    clear hok
    induction hreads with
    | refl => exact .refl a
    | tail _ hstep ih =>
      obtain ⟨r, hstep⟩ := hstep
      exact ih.trans (Analysis.stays_replace hstep)
  obtain ⟨old, p, heditable⟩ : ∃ old p, b.editable i .remove = .ok (old, p) := by
    unfold Analysis.remove at hok
    obtain ⟨c, hfirst, -⟩ := except_bind_eq_ok.mp hok
    obtain ⟨old, p, -, heditable, -⟩ := Analysis.removeOne_eq_ok hfirst
    exact ⟨old, p, heditable⟩
  obtain ⟨hold, hp⟩ := Analysis.editable_eq_ok heditable
  have habove : (a.site i).above = some p := (hstays.above i hi.known).symm.trans hp
  have hfinal := (Analysis.initializes_of_init (k := k) ha hattic habove hinit).inlines ha hi.known
    hreads
  have hb := hfinal.remains.sound
  obtain ⟨hsites, hretired⟩ := Analysis.sites_of_remove hb hok
  refine ⟨?_, fun j hj => ?_, .inl hretired⟩
  · obtain ⟨old', hold', hfollows⟩ := Analysis.follows_remove (k := k) hb hok
    cases hold.symm.trans hold'
    obtain hlt | ⟨hle, hfill⟩ := hfinal.load
    · exact Nat.lt_of_le_of_lt (hfollows.le (Nat.zero_le _)) hlt
    · have hload := Analysis.one_le_load (k := k)
        (hfill old (Node.inside_of_follow (Analysis.follow_of_attachedNode? hold))
          (Analysis.id_of_attachedNode? hold hp hb.ordered))
      exact Nat.lt_of_lt_of_le (hfollows.lt hload) hle
  · rw [hsites]
    obtain hsame | hsevered := hfinal.above j hj
    · exact hsame
    · have hnone := hsevered.not_attached hb.ordered (hj.stays ha.ordered hi.known hstays)
      cases hold.symm.trans hnone

theorem yields_inlining (ha : Sound a) (hattic : AtticNumbered a) (hi : Rooted a i) :
    Yields a (Rule.Inlining.act i) (Turned k Rule.Inlining.handles a i) := by
  have hstop : Yields a (pure () : RuleM Unit) (Turned k Rule.Inlining.handles a i) :=
    .pure (.inl rfl) ()
  have hrecord : ∀ (c d : Counter) (x y : Nat) (b : Analysis), Turned k Rule.Inlining.handles a i b →
      Yields b (RuleM.record c x >>= fun _ => RuleM.record d y) (Turned k Rule.Inlining.handles a i) :=
    fun c d x y b hb => .after (Still.record c x) fun _ => .still (Still.record d y) hb
  unfold Rule.Inlining.act
  refine .nodeAt_bind ?_
  refine .ask_bind ?_
  refine .ask_bind ?_
  simp only
  split
  · next init _ hchild =>
    have hinit := Node.fill_of_child? hchild
    unfold Rule.Inlining.inlineLiteral
    refine .ask_bind ?_
    split
    · exact hstop
    simp only
    split
    · exact hstop
    refine .after (Still.convert _) fun value => ?_
    refine Yields.bind (yields_replaceReads value _) fun _ b hreads => ?_
    refine Yields.bind (.edit fun c hok => ?_) fun _ c hc => hrecord _ _ _ _ c hc
    exact .inr (lowered_inlined ha hattic hi hinit hreads hok)
  · next hplan =>
    have hinit : Node.fill (a.nodeAt i).children .init = true := by
      unfold Rule.Inlining.plan at hplan
      split at hplan
      · next hchild => exact Node.fill_of_child? hchild
      · cases hplan
    unfold Rule.Inlining.moveFunction
    refine .after (Still.withSandbox _) fun r => .after (Still.contained r) fun moved => ?_
    split
    · refine Yields.bind (.edit fun c hok => ?_) fun _ c hc => hrecord _ _ _ _ c hc
      exact .inr (lowered_inlined (v := .undefined) ha hattic hi hinit .refl hok)
    · exact hstop
  · exact hstop

/-- An action of a rule at a site that is there leaves the program as it is, or lowers its load. -/
theorem turned_of_handler {settings : Settings} {rules : List RuleName} {h : Handler RuleError RuleState}
    (hmem : h ∈ (RuleName.visitor settings rules).handlers) (ha : Sound a) (hattic : AtticNumbered a)
    (hi : Rooted a i) : Yields a (h.act i) (Turned settings.maxDispatchSteps h.handles a i) := by
  obtain rfl | rfl | rfl | rfl := handler_cases hmem
  · exact yields_inlining ha hattic hi
  · exact yields_folding ha hi
  · exact yields_evaluation ha hi
  · exact yields_unflattening ha settings hi

end Actions

end Untangle
