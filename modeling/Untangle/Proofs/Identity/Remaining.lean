import Untangle.Proofs.Identity.Throughout
import Untangle.Proofs.Scoping.Upkeep
import Untangle.Proofs.Tree.Multiplicity

set_option autoImplicit false

/-!
# Reads that stay recorded

A read is recorded at a site, and the way of the site leads to the identifier.  A change of the program puts
something in the place of one node and moves one site on.  A way that does not go through the node leads on,
and what is taken up afterwards does not come to it.  As nodes that were taken out never come back, a read
stays recorded as long as the identifier and all nodes around it are in the program.
-/

namespace Untangle

open Node (identitiesAll)

namespace Analysis

variable {a a' a'' b : Analysis} {i p j : SiteId} {x : BindingId} {id : NodeId} {w : Way} {old n : Node}
  {news : List Node}

/-! ## Recorded reads -/

/-- A read that is recorded at a site, to which a way leads. -/
structure ReadAt (a : Analysis) (x : BindingId) (id : NodeId) (j : SiteId) (w : Way) : Prop where
  recorded : (a.binding x).reads.get? id = some j
  known : j < a.sites.size
  node : (a.site j).node = id
  retired : (a.site j).retired = false
  way : a.way j = w
  leads : ∃ n, a.program.follow w = some n ∧ n.id = id

theorem ReadAt.mem_readNodes (h : ReadAt a x id j w) : id ∈ a.readNodes x := by
  obtain ⟨n, hn, -⟩ := h.leads
  have hattached : a.isAttached j = true := by
    unfold isAttached attachedNode?
    rw [h.retired, h.way, if_neg Bool.false_ne_true, hn]
    rfl
  refine List.mem_map.mpr ⟨j, List.mem_filter.mpr ⟨?_, hattached⟩, h.node⟩
  exact Dict.mem_values_of_get? h.recorded

/-- Further sites leave a read as it is, if it stays recorded. -/
theorem ReadAt.extended (h : ReadAt a x id j w) (hextends : Extends a a')
    (hrecorded : (a'.binding x).reads.get? id = some j) : ReadAt a' x id j w := by
  have hsite := hextends.site_eq h.known
  refine ⟨hrecorded, Nat.lt_of_lt_of_le h.known hextends.size_le, ?_, ?_, ?_, ?_⟩
  · rw [hsite]
    exact h.node
  · rw [hsite]
    exact h.retired
  · rw [hextends.way_eq h.known]
    exact h.way
  · rw [hextends.program]
    exact h.leads

/-- None of the nodes along a way has been taken out. -/
def Undisturbed (a : Analysis) (w : Way) : Prop := ∀ s ∈ w, s.node ∈ a.program.identities

/-! ## One exchange -/

/-- No scope gets a name. -/
def Forgets (a b : Analysis) : Prop :=
  ∀ s name x, (b.scope s).bindings.get? name = some x → (a.scope s).bindings.get? name = some x

/-- A node gives way to others, which are new or stood below it, and its site moves on. -/
structure Exchanges (a b : Analysis) (i p : SiteId) (old : Node) (news : List Node) : Prop where
  known : i < a.sites.size
  above : (a.site i).above = some p
  found : a.program.follow (a.way p ++ [⟨(a.site i).role, (a.site i).node⟩]) = some old
  made : ∀ k, 0 < k → k < a.next →
    (identitiesAll news).count k ≤ (identitiesAll old.children).count k
  program : ∃ f, Node.Keeps f ∧ (∀ n, (f n).children = n.children) ∧
    (∀ n : Node, n.form.WritesOut (f n).form) ∧ b.program = a.program.changeAt
      (fun m => f (m.replaceChild ⟨(a.site i).role, (a.site i).node⟩ news)) (a.way p)
  size : b.sites.size = a.sites.size
  others : ∀ k, k ≠ i → b.site k = a.site k
  moved : (b.site i).above = (a.site i).above ∧ (b.site i).role = (a.site i).role
  bindings : b.bindings = a.bindings
  names : Forgets a b
  attic : b.attic = old :: a.attic
  next : a.next ≤ b.next

namespace Exchanges

variable (h : Exchanges a b i p old news)

include h

theorem binding_eq (x : BindingId) : b.binding x = a.binding x := by
  rw [binding, h.bindings]
  rfl

theorem ordered (ha : Ordered a) : Ordered b := by
  intro k q hq
  by_cases hk : k = i
  · subst hk
    exact ha k q (h.moved.1.symm.trans hq)
  · rw [h.others k hk] at hq
    exact ha k q hq

theorem id_old : old.id = (a.site i).node := Node.id_of_follow h.found

section Numbers

variable (ha : Numbered a)

include ha

theorem count_eq (k : NodeId) :
    b.program.identities.count k + old.identities.count k =
      a.program.identities.count k + (identitiesAll news).count k := by
  obtain ⟨f, hkeeps, hchildren, -, hprogram⟩ := h.program
  rw [hprogram]
  exact Node.count_exchanged (fun n => Node.identities_congr (hkeeps n).1 (hchildren n)) ha.distinct
    h.found news k

/-- Nodes that are not in the program do not come back. -/
theorem mem_of_mem {k : NodeId} (hpos : 0 < k) (hk : k < a.next) (hmem : k ∈ b.program.identities) :
    k ∈ a.program.identities := by
  have hcount := h.count_eq ha k
  have hmade := h.made k hpos hk
  have hbelow := (Node.identitiesAll_children_sublist old).count_le k
  have hnow : 0 < b.program.identities.count k := List.count_pos_iff.mpr hmem
  exact List.count_pos_iff.mp (by omega)

/-- The node that gave way is not in the program any more. -/
theorem old_gone : old.id ∉ b.program.identities := by
  intro hmem
  have hinside := Node.inside_of_follow h.found
  obtain ⟨hpos, hlt⟩ := ha.given old.id hinside.id_mem
  have hcount := h.count_eq ha old.id
  have hmade := h.made old.id hpos hlt
  have honce := List.nodup_iff_count_le_one.mp ha.distinct old.id
  have hnow : 0 < b.program.identities.count old.id := List.count_pos_iff.mpr hmem
  rw [Node.identities_eq old, List.count_cons_self] at hcount
  omega

/-- The way to a node whose surroundings are all there does not go through the one that gave way. -/
theorem not_prefix (hw : Undisturbed b w) :
    ¬ a.way p ++ [⟨(a.site i).role, (a.site i).node⟩] <+: w := by
  rintro ⟨u, rfl⟩
  have hstep := hw ⟨(a.site i).role, (a.site i).node⟩
    (List.mem_append_left u (List.mem_append_right _ List.mem_cons_self))
  exact h.old_gone ha (h.id_old ▸ hstep)

/-- The way of a site stays as long as the nodes along it are there. -/
theorem way_eq (hordered : Ordered a) (hw : Undisturbed b (a.way j)) : b.way j = a.way j := by
  induction j using Nat.strongRecOn with
  | ind j ih =>
    by_cases hj : j = i
    · subst hj
      have habove := h.above
      have hwhole : a.way p ++ [⟨(a.site j).role, (a.site j).node⟩] <+: a.way j :=
        ⟨[], (List.append_nil _).trans (way_of_above habove (hordered j p habove)).symm⟩
      exact absurd hwhole (h.not_prefix ha hw)
    · have hsite := h.others j hj
      cases habove : (a.site j).above with
      | none => rw [way_of_root habove, way_of_root ((congrArg Site.above hsite).trans habove)]
      | some q =>
        have hlt := hordered j q habove
        rw [way_of_above habove hlt] at hw ⊢
        rw [way_of_above ((congrArg Site.above hsite).trans habove) hlt, hsite,
          ih q hlt fun s hs => hw s (List.mem_append_left _ hs)]

/-- A node whose surroundings are all there is none of those that were put in. -/
theorem not_mem_news (hn : a.program.follow w = some n) (hw : Undisturbed b w) :
    n.id ∉ identitiesAll news := by
  intro hmem
  obtain ⟨hpos, hlt⟩ := ha.given n.id (Node.inside_of_follow hn).id_mem
  have hmade := Nat.lt_of_lt_of_le (List.count_pos_iff.mpr hmem) (h.made n.id hpos hlt)
  have hin := (Node.identitiesAll_children_sublist old).subset (List.count_pos_iff.mp hmade)
  exact h.not_prefix ha hw (Node.prefix_of_follow ha.distinct h.found hn hin)

variable (hb : Numbered b)

include hb

/-- A way leads on as long as the nodes along it are there. -/
theorem leads (hn : a.program.follow w = some n) (hw : Undisturbed b w) :
    ∃ m, b.program.follow w = some m ∧ m.id = n.id := by
  obtain ⟨f, hkeeps, hchildren, -, hprogram⟩ := h.program
  have hdistinct := hb.distinct
  rw [hprogram] at hdistinct ⊢
  exact Node.follow_exchange hkeeps hchildren hdistinct hn (h.not_prefix ha hw)

theorem readAt (hordered : Ordered a) (hread : ReadAt a x id j w) (hw : Undisturbed b w) :
    ReadAt b x id j w := by
  obtain ⟨n, hn, hid⟩ := hread.leads
  have hj : j ≠ i := by
    rintro rfl
    have hwhole := Node.prefix_of_follow ha.distinct h.found hn (by
      rw [hid, ← hread.node, ← h.id_old]
      exact (Node.Inside.self old).id_mem)
    exact h.not_prefix ha hw hwhole
  have hsite := h.others j hj
  obtain ⟨m, hm, hsame⟩ := h.leads ha hb hn hw
  refine ⟨?_, ?_, ?_, ?_, ?_, m, hm, hsame.trans hid⟩
  · rw [h.binding_eq]
    exact hread.recorded
  · rw [h.size]
    exact hread.known
  · rw [hsite]
    exact hread.node
  · rw [hsite]
    exact hread.retired
  · rw [← hread.way] at hw
    rw [h.way_eq ha hordered hw]
    exact hread.way

end Numbers

/-- The new nodes stand where the old one stood. -/
theorem follow_new (hb : Numbered b) (hn : n ∈ news) :
    b.program.follow (a.way p ++ [⟨(a.site i).role, n.id⟩]) = some (n.inRole (a.site i).role) := by
  obtain ⟨f, hkeeps, hchildren, -, hprogram⟩ := h.program
  have hfound := h.found
  rw [Node.follow_append] at hfound
  obtain ⟨m, hm, hstep⟩ := Option.bind_eq_some_iff.mp hfound
  have hparent : b.program.follow (a.way p) =
      some (f (m.replaceChild ⟨(a.site i).role, (a.site i).node⟩ news)) := by
    have hboth := hkeeps.comp (Node.keeps_replaceChild ⟨(a.site i).role, (a.site i).node⟩ news)
    rw [hprogram]
    refine (Node.follow_changeAt hboth (a.way p) a.program).trans ?_
    rw [hm]
    rfl
  have hmem : n.inRole (a.site i).role ∈
      (f (m.replaceChild ⟨(a.site i).role, (a.site i).node⟩ news)).children := by
    rw [Node.follow_step] at hstep
    rw [hchildren, Node.replaceChild, Node.children_withChildren]
    refine List.mem_flatMap.mpr ⟨old, List.mem_of_find?_eq_some hstep, ?_⟩
    rw [if_pos (List.find?_some hstep)]
    exact List.mem_map_of_mem hn
  have hall := Node.nodup_identitiesAll (Node.nodup_of_follow hb.distinct hparent)
  have hlast := Node.follow_cons hall hmem []
  rw [Node.role_inRole, Node.id_inRole] at hlast
  rw [Node.follow_append, hparent]
  exact hlast

/-- Ways of sites above the one that moves on stay. -/
theorem way_above (hordered : Ordered a) : b.way p = a.way p :=
  way_congr fun k hk => h.others k
    (Nat.ne_of_lt (Nat.lt_of_le_of_lt hk (hordered i p h.above)))

end Exchanges

/-! ## Changes -/

/-- Nodes of an analysis are told apart, and its sites are younger than those above them. -/
structure Sound (a : Analysis) : Prop where
  numbered : Numbered a
  ordered : Ordered a

/-- The nodes of every tree that was taken out are told apart. -/
def AtticNumbered (a : Analysis) : Prop :=
  ∀ n ∈ a.attic, n.identities.Nodup ∧ ∀ k ∈ n.identities, 0 < k ∧ k < a.next

theorem AtticNumbered.of_eq (h : AtticNumbered a) (hattic : a'.attic = a.attic)
    (hnext : a'.next = a.next) : AtticNumbered a' := by
  unfold AtticNumbered
  rw [hattic, hnext]
  exact h

/-- A site above which there is none is one of the program. -/
def Topped (a : Analysis) : Prop :=
  ∀ k < a.sites.size, (a.site k).above = none → (a.site k).node = a.program.id

theorem Topped.takenUp {K : NodeId → Prop} (h : Topped a) (hextends : Extends a a')
    (htakes : TakesUp K a a') : Topped a' := by
  intro k hk htop
  obtain ⟨hbefore, htop⟩ := htakes.tops k hk htop
  rw [hextends.site_eq hbefore, hextends.program]
  exact h k hbefore htop

/-- Nodes that were taken out do not come back, and reads in undisturbed places stay recorded. -/
structure Remains (a a' : Analysis) : Prop where
  sound : Sound a'
  next : a.next ≤ a'.next
  topped : Topped a → Topped a'
  attic : AtticNumbered a → AtticNumbered a'
  gone : ∀ k, 0 < k → k < a.next → k ∈ a'.program.identities → k ∈ a.program.identities
  reads : ∀ x id j w, ReadAt a x id j w → Undisturbed a' w → ReadAt a' x id j w

theorem Remains.refl (ha : Sound a) : Remains a a :=
  ⟨ha, Nat.le_refl _, fun h => h, fun h => h, fun _ _ _ h => h, fun _ _ _ _ h _ => h⟩

theorem Remains.trans (ha : Sound a) (h : Remains a a') (h' : Remains a' a'') : Remains a a'' := by
  refine ⟨h'.sound, Nat.le_trans h.next h'.next, fun htopped => h'.topped (h.topped htopped),
    fun hattic => h'.attic (h.attic hattic), fun k hpos hk hmem => ?_, fun x id j w hread hw => ?_⟩
  · exact h.gone k hpos hk (h'.gone k hpos (Nat.lt_of_lt_of_le hk h.next) hmem)
  · obtain ⟨n, hn, -⟩ := hread.leads
    refine h'.reads x id j w (h.reads x id j w hread fun s hs => ?_) hw
    have hgiven := ha.numbered.given s.node ((Node.identitiesAll_children_sublist _).subset
      (Node.mem_identities_of_follow hn hs))
    exact h'.gone s.node hgiven.1 (Nat.lt_of_lt_of_le hgiven.2 h.next) (hw s hs)

/-- Further sites leave everything as it is. -/
theorem remains_of_extends (ha : Sound a) (hextends : Extends a a')
    (htakes : TakesUp (fun _ => False) a a') : Remains a a' := by
  refine ⟨⟨ha.numbered.extended hextends, htakes.ordered ha.ordered⟩,
    Nat.le_of_eq hextends.next.symm, fun h => h.takenUp hextends htakes,
    fun h => h.of_eq htakes.attic hextends.next, fun k _ _ hmem => ?_, fun x id j w hread _ =>
      hread.extended hextends (htakes.reads x id j (fun h => h) hread.recorded)⟩
  rwa [hextends.program] at hmem

/-- The nodes of what gives way were told apart in the program. -/
theorem Exchanges.atticNumbered (h : Exchanges a b i p old news) (ha : Numbered a)
    (hattic : AtticNumbered a) : AtticNumbered b := by
  intro n hn
  rw [h.attic] at hn
  obtain rfl | hn := List.mem_cons.mp hn
  · have hinside := Node.inside_of_follow h.found
    refine ⟨ha.distinct.sublist hinside.identities_sublist, fun k hk => ?_⟩
    obtain ⟨hpos, hlt⟩ := ha.given k (hinside.identities_sublist.subset hk)
    exact ⟨hpos, Nat.lt_of_lt_of_le hlt h.next⟩
  · obtain ⟨hdistinct, hgiven⟩ := hattic n hn
    exact ⟨hdistinct, fun k hk => ⟨(hgiven k hk).1, Nat.lt_of_lt_of_le (hgiven k hk).2 h.next⟩⟩

/-- The root is never exchanged. -/
theorem Exchanges.topped (h : Exchanges a b i p old news) (htopped : Topped a) : Topped b := by
  intro k hk htop
  have hne : k ≠ i := by
    rintro rfl
    rw [h.moved.1, h.above] at htop
    cases htop
  obtain ⟨f, hkeeps, -, -, hprogram⟩ := h.program
  have hroot := (hkeeps.comp (Node.keeps_replaceChild ⟨(a.site i).role, (a.site i).node⟩ news)).changeAt
    (a.way p) a.program
  rw [h.others k hne] at htop ⊢
  rw [hprogram]
  exact (htopped k (h.size ▸ hk) htop).trans hroot.1.symm

/-- An exchange after which the new nodes are taken up. -/
theorem Exchanges.remains (h : Exchanges a b i p old news) (ha : Sound a) (ha' : Numbered a')
    (hextends : Extends b a') (htakes : TakesUp (· ∈ identitiesAll news) b a') : Remains a a' := by
  have hb : Numbered b := ha'.of_eq hextends.program.symm hextends.next.symm
  refine ⟨⟨ha', htakes.ordered (h.ordered ha.ordered)⟩, ?_, fun htopped =>
    (h.topped htopped).takenUp hextends htakes, fun hattic =>
    (h.atticNumbered ha.numbered hattic).of_eq htakes.attic hextends.next, fun k hpos hk hmem => ?_,
    fun x id j w hread hw => ?_⟩
  · rw [hextends.next]
    exact h.next
  · rw [hextends.program] at hmem
    exact h.mem_of_mem ha.numbered hpos hk hmem
  · obtain ⟨n, hn, hid⟩ := hread.leads
    have hwb : Undisturbed b w := fun s hs => by
      have hmem := hw s hs
      rwa [hextends.program] at hmem
    have hkept := h.readAt ha.numbered hb ha.ordered hread hwb
    refine hkept.extended hextends (htakes.reads x id j ?_ hkept.recorded)
    rw [← hid]
    exact h.not_mem_news ha.numbered hn hwb

/-! ## The changes of the rules are exchanges -/

theorem rooted_of_editable {action : EditAction} (ha : Ordered a)
    (h : a.editable i action = .ok (old, p)) : Rooted a i := by
  refine ⟨Nat.lt_of_not_le fun hle => ?_, ha i⟩
  have habove := (editable_eq_ok h).2
  rw [above_of_size_le hle] at habove
  cases habove

theorem retired_of_editable {action : EditAction} (h : a.editable i action = .ok (old, p)) :
    (a.site i).retired = false := by
  have hnode := (editable_eq_ok h).1
  unfold attachedNode? at hnode
  cases hretired : (a.site i).retired with
  | false => rfl
  | true =>
    rw [hretired] at hnode
    cases hnode

/-- What is put in is made of what stood below, apart from new nodes. -/
theorem made_of_madeOf {ns : List Node} (ha : Numbered a) (hmade : Node.MadeOf ns old) {k : NodeId}
    (hpos : 0 < k) (hk : k < a.next) :
    (identitiesAll (Node.adoptAll ns a.next).1).count k ≤ (identitiesAll old.children).count k := by
  rw [Node.count_adoptAll ns ha.next_pos, if_neg (Nat.ne_of_gt hpos),
    if_neg fun h => Nat.not_lt.mpr h.1 hk]
  exact hmade k hpos

/-- A change through a site, before what was put in is taken up. -/
theorem exchanges_of_editable {action : EditAction} {ns : List Node} {f : Node → Node}
    {g : Site → Site} {c : Analysis} (ha : Sound a) (heditable : a.editable i action = .ok (old, p))
    (hmade : Node.MadeOf ns old) (hkeeps : Node.Keeps f) (hchildren : ∀ n, (f n).children = n.children)
    (hforms : ∀ n : Node, n.form.WritesOut (f n).form)
    (hg : ∀ s, (g s).above = s.above ∧ (g s).role = s.role) (hprogram : c.program = a.program)
    (hsites : c.sites = a.sites) (hnext : c.next = (Node.adoptAll ns a.next).2)
    (hbindings : c.bindings = a.bindings) (hnames : Forgets a c) (hattic : c.attic = a.attic) :
    Exchanges a ((c.substitute i p old (Node.adoptAll ns a.next).1 f).modifySite i g) i p old
        (Node.adoptAll ns a.next).1 ∧
      ((c.substitute i p old (Node.adoptAll ns a.next).1 f).modifySite i g).site i = g (a.site i) := by
  have hroot := rooted_of_editable ha.ordered heditable
  have hsame : ∀ k, c.site k = a.site k := fun k => by rw [site, site, hsites]
  have hway : c.way p = a.way p := way_congr fun k _ => hsame k
  have hsite : ∀ k, ((c.substitute i p old (Node.adoptAll ns a.next).1 f).modifySite i g).site k =
      (a.modifySite i g).site k := fun k => by
    show (c.sites.modify i g).getD k default = (a.sites.modify i g).getD k default
    rw [hsites]
  have hmoved : ((c.substitute i p old (Node.adoptAll ns a.next).1 f).modifySite i g).site i =
      g (a.site i) := by
    rw [hsite, site_modifySite a i g hroot.known, if_pos rfl]
  refine ⟨⟨hroot.known, (editable_eq_ok heditable).2, follow_of_editable hroot heditable,
    fun k hpos hk => made_of_madeOf ha.numbered hmade hpos hk, ⟨f, hkeeps, hchildren, hforms, ?_⟩, ?_,
    fun k hk => ?_, hmoved ▸ hg (a.site i), hbindings, hnames, congrArg (old :: ·) hattic, ?_⟩, hmoved⟩
  · show c.program.changeAt _ (c.way p) = _
    rw [hprogram, hway, hsame]
  · show (c.sites.modify i g).size = _
    rw [Array.size_modify, hsites]
  · rw [hsite, site, site, modifySite, Array.getD_eq_getD_getElem?, Array.getElem?_modify,
      if_neg (Ne.symm hk), Array.getD_eq_getD_getElem?]
  · show a.next ≤ c.next
    rw [hnext]
    exact Node.le_adoptAll ns a.next

theorem keeps_valueReplaced (listed : Bool) (r : Role) :
    Node.Keeps (fun n => if listed then n else n.valueReplaced r) := by
  intro n
  cases listed
  · exact Node.keeps_valueReplaced r n
  · exact ⟨rfl, rfl⟩

theorem children_valueReplaced (listed : Bool) (r : Role) (n : Node) :
    (if listed then n else n.valueReplaced r).children = n.children := by
  cases listed
  · exact Node.children_valueReplaced r n
  · rfl

theorem writesOut_unlessListed (listed : Bool) (r : Role) (n : Node) :
    n.form.WritesOut (if listed then n else n.valueReplaced r).form := by
  cases listed
  · exact Node.writesOut_valueReplaced r n
  · exact .same _

/-- A node that was put in stands at every site that names it below the site above. -/
theorem Exchanges.attachedNode?_new (h : Exchanges a b i p old news) (ha : Sound a) (hb : Numbered b)
    (hn : n ∈ news) (hextends : Extends b a') (hj : p < j)
    (hsite : (a'.site j).above = some p ∧ (a'.site j).role = (a.site i).role ∧
      (a'.site j).node = n.id ∧ (a'.site j).retired = false) :
    a'.attachedNode? j = some (n.inRole (a.site i).role) := by
  obtain ⟨habove, hrole, hnode, hretired⟩ := hsite
  have hknown : p < b.sites.size := by
    rw [h.size]
    exact Nat.lt_trans (ha.ordered i p h.above) h.known
  have hway : a'.way j = a.way p ++ [⟨(a.site i).role, n.id⟩] := by
    rw [way_of_above habove hj, hextends.way_eq hknown, h.way_above ha.ordered, hrole, hnode]
  unfold attachedNode?
  rw [hretired, hway, hextends.program, h.follow_new hb hn]
  rfl

/-- A node that was put in is taken up at such a site. -/
theorem Exchanges.takesUp_new (h : Exchanges a b i p old news) (ha : Sound a) (hb : Numbered b)
    (hn : n ∈ news) (hextends : Extends b a') (hknown : j < a'.sites.size) (hj : p < j)
    (hsite : (a'.site j).above = some p ∧ (a'.site j).role = (a.site i).role ∧
      (a'.site j).node = n.id ∧ (a'.site j).retired = false) :
    TakesUp (· ∈ identitiesAll news) a' (a'.register j) := by
  have hnode : a'.nodeAt j = n.inRole (a.site i).role := by
    unfold nodeAt
    rw [h.attachedNode?_new ha hb hn hextends hj hsite]
  refine (TakesUp.register hknown ?_).mono fun k hk => ?_
  · rw [hnode, Node.id_inRole]
    exact hsite.2.2.1
  · rw [hnode, Node.identities_inRole] at hk
    exact Node.mem_identitiesAll.mpr ⟨n, hn, hk⟩

/-- A replacement is an exchange, after which the new node is taken up. -/
theorem exists_exchange_replace (ha : Sound a) {new : Node} (hsuits : Suits a i [new])
    (hok : a.replace i new = .ok a') :
    ∃ b p old, Exchanges a b i p old [(new.adopt a.next).1] ∧
      b.site i = { a.site i with node := (new.adopt a.next).1.id } ∧ (a.site i).retired = false ∧
      a' = b.register i := by
  unfold replace at hok
  obtain ⟨⟨old, p⟩, heditable, hok⟩ := except_bind_eq_ok.mp hok
  have hmade := hsuits.madeOf heditable
    (follow_of_editable (rooted_of_editable ha.ordered heditable) heditable)
  obtain ⟨hx, hsite⟩ := exchanges_of_editable ha heditable hmade
    (keeps_valueReplaced (a.site i).listed (a.site i).role)
    (children_valueReplaced (a.site i).listed (a.site i).role)
    (writesOut_unlessListed (a.site i).listed (a.site i).role)
    (c := { a with next := (new.adopt a.next).2 })
    (g := fun s => { s with node := (new.adopt a.next).1.id })
    (fun _ => ⟨rfl, rfl⟩) rfl rfl rfl rfl (fun _ _ _ hx => hx) rfl
  exact ⟨_, p, old, hx, hsite, retired_of_editable heditable, (Except.ok.inj hok).symm⟩

/-- Replacing a node keeps the reads elsewhere recorded. -/
theorem remains_replace (ha : Sound a) {new : Node} (hsuits : Suits a i [new])
    (hok : a.replace i new = .ok a') : Remains a a' := by
  have ha' := numbered_replace ha.numbered hsuits hok
  obtain ⟨b, p, old, hx, hsite, hretired, rfl⟩ := exists_exchange_replace ha hsuits hok
  have hextends := extends_register b i
  have hb : Numbered b := ha'.of_eq hextends.program.symm hextends.next.symm
  refine hx.remains ha ha' hextends (hx.takesUp_new ha hb List.mem_cons_self (.refl b)
    (hx.size ▸ hx.known) (ha.ordered i p hx.above) ?_)
  rw [hsite]
  exact ⟨hx.above, rfl, rfl, hretired⟩

/-- Nodes that are put in a list are taken up one after the other. -/
theorem takesUp_registerSpliced (hx : Exchanges a b i p old news) (ha : Sound a) (hb : Numbered b)
    (hrole : ∀ n ∈ news, n.role = (a.site i).role) {ns : List Node} (hns : ∀ n ∈ ns, n ∈ news)
    (hextends : Extends b a') : TakesUp (· ∈ identitiesAll news) a' (a'.registerSpliced p ns) := by
  have hp : p < b.sites.size := by
    rw [hx.size]
    exact Nat.lt_trans (ha.ordered i p hx.above) hx.known
  induction ns generalizing a' with
  | nil => exact .refl _ a'
  | cons n ns ih =>
    have hn := hns n List.mem_cons_self
    have hp' : p < a'.sites.size := Nat.lt_of_lt_of_le hp hextends.size_le
    have hsite := site_addSiteBelow a' p n true (a'.site p).scope
    have hbelow := extends_addSiteBelow a' p n true (a'.site p).scope
    have htakes := hx.takesUp_new ha hb hn (hextends.trans hbelow)
      (known_addSiteBelow a' p n true (a'.site p).scope) hp' (by
        rw [hsite]
        exact ⟨rfl, hrole n hn, rfl, rfl⟩)
    have hfirst := (TakesUp.addSiteBelow _ a' hp' n true (a'.site p).scope).trans htakes
    exact hfirst.trans (ih (fun m hm => hns m (List.mem_cons_of_mem n hm))
      (hextends.trans (hbelow.trans (extends_register _ _))))

theorem role_of_mem_adoptAll {ns : List Node} {r : Role} (hr : ∀ n ∈ ns, n.role = r) {next : NodeId}
    (hn : n ∈ (Node.adoptAll ns next).1) : n.role = r := by
  induction ns generalizing next with
  | nil => cases hn
  | cons m ns ih =>
    obtain rfl | hn := List.mem_cons.mp hn
    · exact (Node.role_adopt m next).trans (hr m List.mem_cons_self)
    · exact ih (fun m hm => hr m (List.mem_cons_of_mem _ hm)) hn

/-- Statements that are put in a list are an exchange, after which they are taken up; elsewhere they are
put in a block. -/
theorem exists_exchange_replaceMany (ha : Sound a) {ns : List Node} (hsuits : Suits a i ns)
    (hok : a.replaceMany i ns = .ok a') :
    (∃ b p old news, news = (Node.adoptAll (ns.map (Node.inRole (a.site i).role)) a.next).1 ∧
      Exchanges a b i p old news ∧ (∀ n ∈ news, n.role = (a.site i).role) ∧
      b.site i = { a.site i with retired := true } ∧ (a.site i).retired = false ∧
      a' = b.registerSpliced p news) ∨
      (a.site i).listed = false ∧ a.replace i (.block ns) = .ok a' := by
  unfold replaceMany at hok
  split at hok
  · cases hok
  simp only at hok
  split at hok
  · obtain ⟨⟨old, p⟩, heditable, hok⟩ := except_bind_eq_ok.mp hok
    have hmade := (hsuits.inRole (a.site i).role).madeOf heditable
      (follow_of_editable (rooted_of_editable ha.ordered heditable) heditable)
    obtain ⟨hx, hsite⟩ := exchanges_of_editable ha heditable hmade Node.keeps_refl (fun _ => rfl)
      (fun _ => .same _) (c := (a.adopt (ns.map (Node.inRole (a.site i).role))).2)
      (g := fun s => { s with retired := true }) (fun _ => ⟨rfl, rfl⟩) rfl rfl rfl rfl
      (fun _ _ _ hx => hx) rfl
    refine .inl ⟨_, p, old, _, rfl, hx, fun n hn => role_of_mem_adoptAll (fun m hm => ?_) hn, hsite,
      retired_of_editable heditable, (Except.ok.inj hok).symm⟩
    obtain ⟨m, -, rfl⟩ := List.mem_map.mp hm
    exact Node.role_inRole m _
  · next hlisted => exact .inr ⟨Bool.eq_false_iff.mpr hlisted, hok⟩

/-- Putting statements in the place of a node keeps the reads elsewhere recorded. -/
theorem remains_replaceMany (ha : Sound a) {ns : List Node} (hsuits : Suits a i ns)
    (hok : a.replaceMany i ns = .ok a') : Remains a a' := by
  obtain ⟨b, p, old, news, -, hx, hrole, -, -, rfl⟩ | ⟨-, hok⟩ :=
    exists_exchange_replaceMany ha hsuits hok
  · have ha' := numbered_replaceMany ha.numbered hsuits hok
    have hextends := extends_registerSpliced b p news
    have hb : Numbered b := ha'.of_eq hextends.program.symm hextends.next.symm
    exact hx.remains ha ha' hextends
      (takesUp_registerSpliced hx ha hb hrole (fun _ hn => hn) (.refl b))
  · exact remains_replace ha hsuits.block hok

/-- Forgetting names leaves everything else as it is. -/
theorem forgetDeclarator_keeps (a : Analysis) (i : SiteId) (n : Node) :
    (a.forgetDeclarator i n).program = a.program ∧ (a.forgetDeclarator i n).next = a.next ∧
      (a.forgetDeclarator i n).sites = a.sites ∧ (a.forgetDeclarator i n).bindings = a.bindings ∧
      (a.forgetDeclarator i n).attic = a.attic := by
  have hfold : ∀ {f : Analysis → Text → Analysis}, (∀ c x, (f c x).program = c.program ∧
      (f c x).next = c.next ∧ (f c x).sites = c.sites ∧ (f c x).bindings = c.bindings ∧
      (f c x).attic = c.attic) →
      ∀ (xs : List Text) (c : Analysis), (xs.foldl f c).program = c.program ∧
        (xs.foldl f c).next = c.next ∧ (xs.foldl f c).sites = c.sites ∧
        (xs.foldl f c).bindings = c.bindings ∧ (xs.foldl f c).attic = c.attic := by
    intro f hf xs
    induction xs with
    | nil => exact fun c => ⟨rfl, rfl, rfl, rfl, rfl⟩
    | cons x xs ih =>
      intro c
      obtain ⟨hprogram, hnext, hsites, hbindings, hattic⟩ := hf c x
      obtain ⟨hprogram', hnext', hsites', hbindings', hattic'⟩ := ih (f c x)
      exact ⟨hprogram'.trans hprogram, hnext'.trans hnext, hsites'.trans hsites,
        hbindings'.trans hbindings, hattic'.trans hattic⟩
  unfold forgetDeclarator
  split
  · refine hfold (fun c name => ?_) _ a
    split
    · split <;> exact ⟨rfl, rfl, rfl, rfl, rfl⟩
    · exact ⟨rfl, rfl, rfl, rfl, rfl⟩
  · exact ⟨rfl, rfl, rfl, rfl, rfl⟩

theorem forgets_forgetDeclarator (a : Analysis) (i : SiteId) (n : Node) :
    Forgets a (a.forgetDeclarator i n) := by
  have hfold : ∀ {f : Analysis → Text → Analysis}, (∀ c x, Forgets c (f c x)) →
      ∀ (xs : List Text) (c : Analysis), Forgets c (xs.foldl f c) := by
    intro f hf xs
    induction xs with
    | nil => exact fun _ _ _ _ hx => hx
    | cons y xs ih => exact fun c s name x hx => hf c y s name x (ih (f c y) s name x hx)
  have herase : ∀ (c : Analysis) (k : ScopeId) (y : Text),
      Forgets c (c.modifyScope k fun s => { s with bindings := s.bindings.erase y }) := by
    intro c k y s name x hx
    simp only [scope, modifyScope, Array.getD_eq_getD_getElem?, Array.getElem?_modify] at hx ⊢
    split at hx
    · next heq =>
      cases hs : c.scopes[s]? with
      | none =>
        rw [hs] at hx
        exact hx
      | some found =>
        rw [hs] at hx
        exact Dict.get?_of_get?_erase hx
    · exact hx
  unfold forgetDeclarator
  split
  · refine hfold (fun c y => ?_) _ a
    split
    · split
      · exact herase c _ y
      · exact fun _ _ _ hx => hx
    · exact fun _ _ _ hx => hx
  · exact fun _ _ _ hx => hx

/-- Taking a node out is an exchange for what stays behind. -/
theorem exists_exchange_removeOne (ha : Sound a) (hok : a.removeOne i = .ok a') :
    ∃ p old rest, Exchanges a a' i p old (Node.adoptAll rest a.next).1 ∧ StaysBehind old rest ∧
      a'.site i = { a.site i with retired := true } := by
  obtain ⟨n, p, rest, heditable, hrest, rfl⟩ := removeOne_eq_ok hok
  obtain ⟨hprogram, hnext, hsites, hbindings, hattic⟩ := forgetDeclarator_keeps a i n
  have hadopt : ((a.forgetDeclarator i n).adopt rest).1 = (Node.adoptAll rest a.next).1 := by
    unfold adopt
    rw [hnext]
  have hfirst : ((a.forgetDeclarator i n).adopt rest).2.next = (Node.adoptAll rest a.next).2 := by
    unfold adopt
    rw [hnext]
  rw [hadopt]
  obtain ⟨hx, hsite⟩ := exchanges_of_editable ha heditable (hrest.areNew.madeOf n) Node.keeps_refl
    (fun _ => rfl) (fun _ => .same _) (c := ((a.forgetDeclarator i n).adopt rest).2)
    (g := fun s => { s with retired := true }) (fun _ => ⟨rfl, rfl⟩) hprogram hsites hfirst hbindings
    (forgets_forgetDeclarator a i n) hattic
  exact ⟨p, n, rest, hx, hrest, hsite⟩

/-- Taking a node out keeps the reads elsewhere recorded. -/
theorem remains_removeOne (ha : Sound a) (hok : a.removeOne i = .ok a') : Remains a a' := by
  obtain ⟨p, old, rest, hx, -, -⟩ := exists_exchange_removeOne ha hok
  exact hx.remains ha (numbered_removeOne ha.numbered hok) (.refl _) (.refl _ _)

theorem remains_of_fitting (ha : Sound a) (h : Fitting a a') : Remains a a' := by
  cases h with
  | replaced i new hsuits hok => exact remains_replace ha hsuits hok
  | spliced i news hsuits hok => exact remains_replaceMany ha hsuits hok
  | takenOut i hok => exact remains_removeOne ha hok

theorem remains_of_proceeds (ha : Sound a) (h : Proceeds a a') : Remains a a' := by
  induction h with
  | refl => exact .refl ha
  | tail _ hlast ih => exact ih.trans ha (remains_of_fitting ih.sound hlast)

end Analysis

/-! ## Runs -/

open Analysis (Remains Sound TakesUp)

variable {settings : Settings} {rules : List RuleName} {t t' : Tour RuleState}

/-- Wherever a run comes to, reads in undisturbed places are recorded as before. -/
theorem Reaches.remains (h : Reaches (RuleName.visitor settings rules) t t') (ht : Sound t.analysis) :
    Remains t.analysis t'.analysis := by
  induction h with
  | here => exact .refl ht
  | counted _ ih => exact ih
  | @sited t' i child listed scope _ hi ih =>
    exact ih.trans ht (Analysis.remains_of_extends ih.sound
      (Analysis.extends_addSiteBelow t'.analysis i child listed scope)
      (.addSiteBelow _ _ hi.known child listed scope))
  | acted _ hmem hi hact ih =>
    have hleft := proceeds_of_handler hmem ih.sound.numbered hi
    rw [hact] at hleft
    exact ih.trans ht (Analysis.remains_of_proceeds ih.sound hleft)

/-- A tour starts with such an analysis. -/
theorem sound_tour {σ : Type} (n : Node) (state : σ) :
    Sound (Tour.start (.ofProgram (n.number 1).1) state).analysis := by
  refine ⟨(Analysis.Numbered.ofProgram n).extended (Analysis.extends_addSite _ _), ?_⟩
  refine (Analysis.ordered_ofProgram (n.number 1).1).addSite fun p hp => ?_
  cases hp

/-- A run of rules starts with such an analysis. -/
theorem sound_start (n : Node) (settings : Settings) (store : Sandbox.Machine) :
    Sound (settings.start (.ofProgram (n.number 1).1) store).analysis := sound_tour n _

/-- A run of rules starts at a site of the program. -/
theorem topped_start (n : Node) (settings : Settings) (store : Sandbox.Machine) :
    Analysis.Topped (settings.start (.ofProgram (n.number 1).1) store).analysis := by
  have hfirst : Analysis.Topped (Analysis.start (n.number 1).1) := by
    intro k hk _
    cases Nat.lt_one_iff.mp hk
    rfl
  have hprogram := hfirst.takenUp (Analysis.extends_ofProgram (n.number 1).1)
    (Analysis.takesUp_ofProgram (n.number 1).1)
  intro k hk htop
  have hextends := Analysis.extends_addSite (Analysis.ofProgram (n.number 1).1)
    ⟨(Analysis.ofProgram (n.number 1).1).program.id, none, .top, false, 0, false⟩
  obtain hold | rfl := Nat.lt_or_eq_of_le (Nat.le_of_lt_succ (Nat.lt_of_lt_of_eq hk (Array.size_push _)))
  · rw [show (settings.start (.ofProgram (n.number 1).1) store).analysis.site k = _ from
      hextends.site_eq hold] at htop ⊢
    exact hprogram k hold htop
  · exact congrArg Site.node (Analysis.site_addSite _ _)

/-- Nothing was taken out of a program that was just analysed. -/
theorem atticNumbered_start (n : Node) (settings : Settings) (store : Sandbox.Machine) :
    Analysis.AtticNumbered (settings.start (.ofProgram (n.number 1).1) store).analysis := by
  intro m hm
  rw [show (settings.start (.ofProgram (n.number 1).1) store).analysis.attic = [] from
    (Analysis.takesUp_ofProgram (n.number 1).1).attic] at hm
  cases hm

end Untangle
