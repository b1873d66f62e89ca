import Untangle.Proofs.Dispatch.Emitted
import Untangle.Proofs.Identity.Remaining
import Untangle.Proofs.Scoping.Binders

set_option autoImplicit false

/-!
# Names that a run leaves undeclared

A rule puts trees of values, arguments of calls and statements of loops in the place of expressions, loops
and reads.  None of these stands where a name is declared, and what is put in declares no name that was not
declared before.  So a name that the program does not declare is never declared, and the identifiers of
that name, those that rules write included, are read of no binding.

The main theorem is `undeclared_throughout`, at every moment of a run of any rules.  It is about names that
no identifier declares at the beginning; a name that is declared somewhere may capture what is put in.
-/

namespace Untangle

open Node (Grafts Salvages identitiesAll)

namespace Analysis

variable {root : Node} {a a' a'' b : Analysis} {i j p : SiteId} {old : Node} {news : List Node}

/-! ## Sites at which nothing is declared -/

/-- A site with a node that declares nothing. -/
def Clear (a : Analysis) (j : SiteId) : Prop :=
  ∃ k, a.At j k ∧ k < a.next ∧ ∀ c, Declared a.program c ∨ Listed a.program c → c.id ≠ k

theorem at_iff {k : NodeId} : a.At j k ↔ j < a.sites.size ∧ (a.site j).node = k := by
  constructor
  · rintro ⟨s, hs, rfl⟩
    exact ⟨(Array.getElem?_eq_some_iff.mp hs).1, At.node_eq ⟨s, hs, rfl⟩⟩
  · rintro ⟨hlt, rfl⟩
    refine ⟨a.sites[j], Array.getElem?_eq_getElem hlt, ?_⟩
    simp [site, hlt]

theorem Clear.extended (h : Clear a j) (hextends : Extends a a') : Clear a' j := by
  obtain ⟨k, hat, hk, hclear⟩ := h
  refine ⟨k, hextends.at hat, ?_, ?_⟩
  · rwa [hextends.next]
  · rwa [hextends.program]

/-- An analysis of a program that declares what another one declares, in which reads are recorded where
nothing is declared. -/
structure Named (root : Node) (a : Analysis) : Prop where
  sound : Sound a
  plain : Plain a.program
  declared : ∀ c, Declared a.program c → ∃ d, Declared root d ∧ d.Resembles c
  reads : ∀ x, ∀ j ∈ (a.binding x).reads.values, Clear a j

/-- Such an analysis stays one, and sites stay clear. -/
structure Carries (root : Node) (a a' : Analysis) : Prop where
  named : Named root a'
  clear : ∀ j, Clear a j → Clear a' j

theorem Carries.refl (ha : Named root a) : Carries root a a := ⟨ha, fun _ h => h⟩

/-- Nothing happens. -/
theorem Named.stays (ha : Named root a) : ∀ b, b = a → Carries root a b := by
  rintro _ rfl
  exact .refl ha

theorem Carries.trans (h : Carries root a a') (h' : Carries root a' a'') : Carries root a a'' :=
  ⟨h'.named, fun j hj => h'.clear j (h.clear j hj)⟩

/-! ## One exchange -/

namespace Exchanges

variable (h : Exchanges a b i p old news)

include h

theorem attached (hordered : Ordered a) (hretired : (a.site i).retired = false) :
    a.attachedNode? i = some old := by
  unfold attachedNode?
  rw [hretired, way_of_above h.above (hordered i p h.above), h.found]
  rfl

theorem swaps (ha : Numbered a) : Node.Swaps old news a.program b.program := by
  obtain ⟨f, hkeeps, hchildren, hforms, hprogram⟩ := h.program
  have hfound := h.found
  rw [Node.follow_append] at hfound
  obtain ⟨m, hm, hstep⟩ := Option.bind_eq_some_iff.mp hfound
  rw [Node.follow_step] at hstep
  rw [hprogram]
  exact Node.swaps_changeAt hkeeps hchildren hforms ha.distinct hm hstep news

/-- What stands in a new slot stands in the changed program. -/
theorem inside_new (hb : Numbered b) {e : Node} (he : e ∈ news) :
    (e.inRole (a.site i).role).Inside b.program :=
  Node.inside_of_follow (h.follow_new hb he)

theorem role_old : old.role = (a.site i).role := by
  have hfound := h.found
  rw [Node.follow_append] at hfound
  obtain ⟨m, -, hstep⟩ := Option.bind_eq_some_iff.mp hfound
  rw [Node.follow_step] at hstep
  have hlead := List.find?_some hstep
  simp only [Step.leadsTo, Bool.and_eq_true, beq_iff_eq] at hlead
  exact hlead.1

section Grafted

variable (ha : Numbered a) (hgrafts : Grafts (a.next ≤ ·) a.program old news)

include ha hgrafts

/-- What is declared after the change was declared before, or is new. -/
theorem declared_before {c' : Node} (hc : Declared b.program c' ∨ Listed b.program c') :
    (∃ c, (Declared a.program c ∨ Listed a.program c) ∧ c'.id = c.id) ∨
      a.next ≤ c'.id ∧ ∃ e ∈ news, c'.id ∈ identitiesAll e.children := by
  obtain hc | hc := hc
  · obtain ⟨c, hc, -, hid⟩ := (h.swaps ha).declared hgrafts hc
    exact hid.imp_left fun hid => ⟨c, .inl hc, hid⟩
  · obtain ⟨c, hc, -, hid⟩ := (h.swaps ha).listed hgrafts hc
    exact hid.imp_left fun hid => ⟨c, .inr hc, hid⟩

variable (hb : Numbered b)

include hb

/-- Sites stay clear, if the one of the node that gives way stays there or goes on to the only new node. -/
theorem clear (hsite : (b.site i).node = (a.site i).node ∨
      ∃ e, news = [e] ∧ (b.site i).node = e.id ∧ a.next ≤ e.id) (hj : Clear a j) : Clear b j := by
  obtain ⟨k, hat, hk, hclear⟩ := hj
  obtain ⟨hknown, hnode⟩ := at_iff.mp hat
  have hstays : (b.site j).node = k → Clear b j := fun hsame => by
    refine ⟨k, at_iff.mpr ⟨h.size ▸ hknown, hsame⟩, Nat.lt_of_lt_of_le hk h.next, fun c' hc' => ?_⟩
    obtain ⟨c, hc, hid⟩ | ⟨hnew, -⟩ := h.declared_before ha hgrafts hc'
    · exact hid ▸ hclear c hc
    · exact Nat.ne_of_gt (Nat.lt_of_lt_of_le hk hnew)
  by_cases hi : j = i
  · subst hi
    obtain hsame | ⟨e, rfl, hid, hnew⟩ := hsite
    · exact hstays (hsame.trans hnode)
    · have hin := h.inside_new hb List.mem_cons_self
      have hgiven := hb.given e.id (Node.id_inRole e _ ▸ hin.id_mem)
      refine ⟨e.id, at_iff.mpr ⟨h.size ▸ hknown, hid⟩, hgiven.2, fun c' hc' => ?_⟩
      obtain ⟨c, hc, hsame⟩ | ⟨-, e', he', hbelow⟩ := h.declared_before ha hgrafts hc'
      · have hinside : c.Inside a.program := hc.elim Placed.inside Placed.inside
        exact hsame ▸ Nat.ne_of_lt (Nat.lt_of_lt_of_le (ha.given c.id hinside.id_mem).2 hnew)
      · cases List.mem_singleton.mp he'
        have honce := hb.distinct.sublist hin.identities_sublist
        rw [Node.identities_inRole, Node.identities_eq] at honce
        exact fun heq => (List.nodup_cons.mp honce).1 (heq ▸ hbelow)
  · exact hstays ((congrArg Site.node (h.others j hi)).trans hnode)

/-- An exchange after which names in the new nodes are recorded as read. -/
theorem carries (hnamed : Named root a) (hsite : (b.site i).node = (a.site i).node ∨
      ∃ e, news = [e] ∧ (b.site i).node = e.id ∧ a.next ≤ e.id) (hsound : Sound a')
    (hextends : Extends b a') (hreads : ∀ x, ∀ j ∈ (a'.binding x).reads.values,
      j ∈ (b.binding x).reads.values ∨
        ∃ e ∈ news, ∃ c, Reads (e.inRole (a.site i).role) c ∧ a'.At j c.id) : Carries root a a' := by
  have hswaps := h.swaps ha
  have hclear : ∀ j, Clear a j → Clear a' j := fun j hj =>
    (h.clear ha hgrafts hb hsite hj).extended hextends
  refine ⟨⟨hsound, ?_, fun c' hc' => ?_, fun x j hj => ?_⟩, hclear⟩
  · rw [hextends.program]
    exact hswaps.plain hgrafts hnamed.plain
  · rw [hextends.program] at hc'
    obtain ⟨c, hc, hresembles, -⟩ := hswaps.declared hgrafts hc'
    obtain ⟨d, hd, hfirst⟩ := hnamed.declared c hc
    exact ⟨d, hd, hfirst.trans hresembles⟩
  · obtain hold | ⟨e, he, c, hc, hat⟩ := hreads x j hj
    · rw [h.binding_eq] at hold
      exact hclear j (hnamed.reads x j hold)
    · rw [← h.role_old] at hc
      have hin := h.inside_new hb he
      rw [← h.role_old] at hin
      refine ⟨c.id, hat, ?_, fun c' hc' => ?_⟩
      · rw [hextends.next]
        exact (hb.given c.id (hc.1.inside.trans hin).id_mem).2
      · rw [hextends.program] at hc'
        exact hswaps.id_ne_of_reads hgrafts ha.distinct hb.distinct hnamed.plain he hc hc'

end Grafted

end Exchanges

/-! ## Changes -/

/-- What is put in is adopted in a slot. -/
theorem salvages_adopted {ns : List Node} {At : Form → Role → Form → Prop} {n : Node} {r : Role}
    (h : ∀ e ∈ ns, Salvages At (· = 0) n e) (next : NodeId) :
    ∀ e ∈ (Node.adoptAll (ns.map (Node.inRole r)) next).1, Salvages At (next ≤ ·) n e :=
  fun e he => Salvages.of_mem_adoptAll (fun e he => by
    obtain ⟨d, hd, rfl⟩ := List.mem_map.mp he
    exact (h d hd).inRole r) he

/-- A node of the program stands at a site. -/
structure Found (a : Analysis) (i : SiteId) (old : Node) : Prop where
  attached : a.attachedNode? i = some old
  inside : old.Inside a.program
  id : old.id = (a.site i).node

theorem Found.nodeAt (h : Found a i old) : a.nodeAt i = old := by
  unfold Analysis.nodeAt
  rw [h.attached]

theorem Exchanges.foundAt (h : Exchanges a b i p old news) (hordered : Ordered a)
    (hretired : (a.site i).retired = false) : Found a i old :=
  ⟨h.attached hordered hretired, Node.inside_of_follow h.found, h.id_old⟩

/-- A new tree takes the place of a node. -/
theorem carries_replace (ha : Named root a) {new : Node} (hsuits : Suits a i [new]) (hnew : new.id = 0)
    (hgrafts : ∀ old, Found a i old → Grafts (a.next ≤ ·) a.program old [(new.adopt a.next).1])
    (hok : a.replace i new = .ok a') : Carries root a a' := by
  have hsound := (remains_replace ha.sound hsuits hok).sound
  obtain ⟨b, p, old, hx, hsite, hretired, rfl⟩ := exists_exchange_replace ha.sound hsuits hok
  have hextends := extends_register b i
  have hb : Numbered b := hsound.numbered.of_eq hextends.program.symm hextends.next.symm
  have hid := (Node.adopt_of_unnumbered hnew a.next).1
  have hattached := hx.attachedNode?_new ha.sound hb List.mem_cons_self (.refl b)
    (ha.sound.ordered i p hx.above) (by
      rw [hsite]
      exact ⟨hx.above, rfl, rfl, hretired⟩)
  have hnode : b.nodeAt i = (new.adopt a.next).1.inRole (a.site i).role := by
    unfold nodeAt
    rw [hattached]
  have hat : b.At i (b.nodeAt i).id := by
    refine at_iff.mpr ⟨hx.size ▸ hx.known, ?_⟩
    rw [hnode, Node.id_inRole, hsite]
  refine hx.carries ha.sound.numbered (hgrafts old (hx.foundAt ha.sound.ordered hretired)) hb ha
    (.inr ⟨_, rfl, congrArg Site.node hsite, Nat.le_of_eq hid.symm⟩) hsound hextends fun x j hj => ?_
  obtain hold | ⟨c, hc, hat'⟩ := (grows_register hat).reads x j hj
  · exact .inl hold
  · exact .inr ⟨_, List.mem_cons_self, c, hnode ▸ hc, hat'⟩

/-- What is adopted has no part that it did not have. -/
theorem child?_adopt {n : Node} {r : Role} (h : n.child? r = none) (next : NodeId) :
    (n.adopt next).1.child? r = none :=
  (Node.resembles_of_unnumbered (Node.unnumbered_adopt n next)).child?_eq_none h

/-- A new expression takes the place of a node that declares nothing. -/
theorem carries_expression (ha : Named root a) {new : Node} (hsuits : Suits a i [new]) (hnew : new.id = 0)
    (hform : new.form.isSubstitute = true) (hbody : new.child? .body = none)
    (hold : ∀ old, Found a i old → ¬ Declared a.program old ∧ ¬ Listed a.program old)
    (hsalvages : ∀ old, Found a i old → ∀ {At}, Enduring At → Salvages At (· = 0) a.program new)
    (hok : a.replace i new = .ok a') : Carries root a a' := by
  refine carries_replace ha hsuits hnew (fun old hfound => ?_) hok
  refine Node.grafts_substitutes (hold old hfound) (fun e he => ?_) fun hAt e he => ?_
  · cases List.mem_singleton.mp he
    rw [Node.form_adopt]
    exact ⟨hform, child?_adopt hbody a.next⟩
  · cases List.mem_singleton.mp he
    exact (hsalvages old hfound hAt).adopt a.next

/-- What is recorded as read when nodes are taken up one after the other. -/
theorem reads_registerSpliced (hx : Exchanges a b i p old news) (ha : Sound a) (hb : Numbered b)
    (hrole : ∀ n ∈ news, n.role = (a.site i).role) {ns : List Node} (hns : ∀ n ∈ ns, n ∈ news)
    (hextends : Extends b a') (x : BindingId) :
    ∀ j ∈ ((a'.registerSpliced p ns).binding x).reads.values, j ∈ (a'.binding x).reads.values ∨
      ∃ e ∈ news, ∃ c, Reads (e.inRole (a.site i).role) c ∧ (a'.registerSpliced p ns).At j c.id := by
  have hp : p < b.sites.size := by
    rw [hx.size]
    exact Nat.lt_trans (ha.ordered i p hx.above) hx.known
  induction ns generalizing a' with
  | nil => exact fun j hj => .inl hj
  | cons n ns ih =>
    have hn := hns n List.mem_cons_self
    have hp' : p < a'.sites.size := Nat.lt_of_lt_of_le hp hextends.size_le
    have hsite := site_addSiteBelow a' p n true (a'.site p).scope
    have hbelow := extends_addSiteBelow a' p n true (a'.site p).scope
    have hknown := known_addSiteBelow a' p n true (a'.site p).scope
    have hattached := hx.attachedNode?_new ha hb hn (hextends.trans hbelow) hp' (by
      rw [hsite]
      exact ⟨rfl, hrole n hn, rfl, rfl⟩)
    have hnode : (a'.addSiteBelow p n true (a'.site p).scope).2.nodeAt a'.sites.size =
        n.inRole (a.site i).role := by
      unfold nodeAt
      rw [hattached]
    have hat : (a'.addSiteBelow p n true (a'.site p).scope).2.At a'.sites.size
        ((a'.addSiteBelow p n true (a'.site p).scope).2.nodeAt a'.sites.size).id := by
      refine at_iff.mpr ⟨hknown, ?_⟩
      rw [hnode, Node.id_inRole, hsite]
    have hregister := extends_register (a'.addSiteBelow p n true (a'.site p).scope).2 a'.sites.size
    intro j hj
    obtain hold | hnew := ih (fun m hm => hns m (List.mem_cons_of_mem n hm))
      (hextends.trans (hbelow.trans hregister)) j hj
    · obtain hold | ⟨c, hc, hat'⟩ := (grows_register hat).reads x j hold
      · exact .inl hold
      · exact .inr ⟨n, hn, c, hnode ▸ hc, (extends_registerSpliced _ p ns).at hat'⟩
    · exact .inr hnew

/-- A loop gives way to statements. -/
theorem carries_replaceMany (ha : Named root a) {ns : List Node} (hsuits : Suits a i ns)
    (hbody : (a.nodeAt i).child? .body ≠ none)
    (hsalvages : ∀ old, Found a i old → ∀ {At}, Enduring At →
      ∀ n ∈ ns, Salvages At (· = 0) a.program n)
    (hok : a.replaceMany i ns = .ok a') : Carries root a a' := by
  have hsound := (remains_replaceMany ha.sound hsuits hok).sound
  obtain ⟨b, p, old, news, rfl, hx, hrole, hsite, hretired, rfl⟩ | ⟨-, hok⟩ :=
    exists_exchange_replaceMany ha.sound hsuits hok
  · have hfound := hx.foundAt ha.sound.ordered hretired
    have hextends := extends_registerSpliced b p
      (Node.adoptAll (ns.map (Node.inRole (a.site i).role)) a.next).1
    have hb : Numbered b := hsound.numbered.of_eq hextends.program.symm hextends.next.symm
    have hgrafts : Grafts (a.next ≤ ·) a.program old
        (Node.adoptAll (ns.map (Node.inRole (a.site i).role)) a.next).1 :=
      Node.grafts_statements ha.plain (hfound.nodeAt ▸ hbody) fun hAt =>
        salvages_adopted (hsalvages old hfound hAt) a.next
    exact hx.carries ha.sound.numbered hgrafts hb ha (.inl (by rw [hsite])) hsound hextends
      fun x => reads_registerSpliced hx ha.sound hb hrole (fun _ hn => hn) (.refl b) x
  · refine carries_replace ha hsuits.block rfl (fun old hfound => ?_) hok
    refine Node.grafts_statements ha.plain (hfound.nodeAt ▸ hbody) fun hAt e he => ?_
    cases List.mem_singleton.mp he
    refine (Node.salvages_make hAt rfl fun d hd => ?_).adopt a.next
    obtain ⟨n, hn, rfl⟩ := List.mem_map.mp hd
    exact (hsalvages old hfound hAt n hn).inRole .body

/-- A node is taken out. -/
theorem carries_removeOne (ha : Named root a) (hok : a.removeOne i = .ok a') : Carries root a a' := by
  have hsound := (remains_removeOne ha.sound hok).sound
  obtain ⟨p, old, rest, hx, hrest, hsite⟩ := exists_exchange_removeOne ha.sound hok
  have hgrafts : Grafts (a.next ≤ ·) a.program old (Node.adoptAll rest a.next).1 := by
    obtain rfl | ⟨hform, rfl⟩ := hrest
    · exact Node.grafts_nil
    · refine Node.grafts_substitutes (ha.plain.undeclared (Form.isNaming_of_isStatementLike hform)
        fun heq => ?_) (fun e he => ?_) fun hAt e he => ?_
      · rw [heq] at hform
        cases hform
      · cases List.mem_singleton.mp he
        exact ⟨rfl, rfl⟩
      · exact Salvages.of_mem_adoptAll (fun e he => by
          cases List.mem_singleton.mp he
          exact Node.salvages_leaf hAt rfl) he
  exact hx.carries ha.sound.numbered hgrafts hsound.numbered ha (.inl (by rw [hsite])) hsound
    (.refl a') fun x j hj => .inl hj

theorem carries_remove (ha : Named root a) (hok : a.remove i = .ok a') : Carries root a a' := by
  unfold remove at hok
  obtain ⟨b, hfirst, hok⟩ := except_bind_eq_ok.mp hok
  have hb := carries_removeOne ha hfirst
  split at hok
  · split at hok
    · exact hb.trans (carries_removeOne hb.named hok)
    · cases hok
      exact hb
  · cases hok
    exact hb

end Analysis

/-! ## Trees of values -/

namespace Node

variable {n : Node} {ns : List Node}

/-- A node has no part in a slot that none of its parts is put in. -/
theorem child?_make {f : Form} {r : Role} (h : ∀ c ∈ ns, c.role ≠ r) : (make f ns).child? r = none :=
  List.find?_eq_none.mpr fun c hc hrole => h c hc (eq_of_beq hrole)

/-- Nothing is declared or assigned in a tree. -/
def Inert (n : Node) : Prop := ∀ d : Node, d.Inside n → d.form.handsOut = false

theorem inert_make {f : Form} (hf : f.handsOut = false) (h : ∀ c ∈ ns, Inert c) : Inert (make f ns) := by
  intro d hd
  cases hd with
  | self => exact hf
  | within hc hd => exact h _ hc d hd

theorem inert_leaf {f : Form} (hf : f.handsOut = false) : Inert (leaf f) :=
  inert_make hf fun _ hc => by cases hc

theorem Inert.inRole (h : Inert n) (r : Role) : Inert (n.inRole r) := by
  intro d hd
  obtain rfl | hd := inside_inRole hd
  · rw [form_inRole]
    exact h n (.self n)
  · exact h d hd

/-- In such a tree there are no such slots. -/
theorem Inert.salvages (h : Inert n) {At : Form → Role → Form → Prop} (hAt : Enduring At)
    (isNew : NodeId → Prop) (root : Node) : Salvages At isNew root n := by
  intro c hc
  exfalso
  induction hc with
  | slot hp _ hat => exact Bool.false_ne_true ((h _ hp).symm.trans (hAt.handsOut hat))
  | part _ _ _ ih => exact ih

end Node

/-- A new tree of a value. -/
structure Node.IsValue (n : Node) : Prop where
  id : n.id = 0
  form : n.form.isSubstitute = true
  body : n.child? .body = none
  inert : n.Inert

namespace Sandbox

open Node (IsValue)

theorem isValue_leaf {f : Form} (hf : f.isSubstitute = true) (hinert : f.handsOut = false) :
    IsValue (.leaf f) := ⟨rfl, hf, rfl, Node.inert_leaf hinert⟩

theorem isValue_numberNode (x : Float) : IsValue (numberNode x) := by
  unfold numberNode
  split
  · exact isValue_leaf rfl rfl
  · simp only
    have hmagnitude : IsValue (if Binary64.isInfinite x then .ident "Infinity"
        else .literal (.number (.real x.abs))) := by
      split <;> exact isValue_leaf rfl rfl
    split
    · refine ⟨rfl, rfl, Node.child?_make fun c hc => ?_, Node.inert_make rfl fun c hc => ?_⟩
      · cases List.mem_singleton.mp hc
        rw [Node.role_inRole]
        decide
      · cases List.mem_singleton.mp hc
        exact hmagnitude.inert.inRole .argument
    · exact hmagnitude

theorem isValue_primitiveNode (v : Value) : IsValue (primitiveNode v) := by
  cases v with
  | number x => exact isValue_numberNode x
  | _ => exact isValue_leaf rfl rfl

theorem isValue_valueNodeGo (h : Heap) (fuel : Nat) {v : Value} {n : Node}
    (hn : valueNodeGo h fuel v = .ok n) : IsValue n := by
  have hlisted : ∀ {ns : List Node} {r : Role}, (∀ n ∈ ns, n.Inert) → ∀ n ∈ Node.atMany r ns, n.Inert := by
    intro ns r hns n hn
    obtain ⟨m, hm, rfl⟩ := List.mem_map.mp hn
    exact (hns m hm).inRole r
  have hbody : ∀ {r : Role} {f : Form}, r ≠ .body → ∀ ns,
      (Node.make f (Node.atMany r ns)).child? .body = none := by
    intro r f hr ns
    refine Node.child?_make fun c hc => ?_
    obtain ⟨m, -, rfl⟩ := List.mem_map.mp hc
    rwa [Node.role_inRole]
  refine valueNodeGo_induct h isValue_primitiveNode
    (fun ns hns =>
      ⟨rfl, rfl, hbody (by decide) ns, Node.inert_make rfl (hlisted fun n hn => (hns n hn).inert)⟩)
    (fun ps hps =>
      ⟨rfl, rfl, hbody (by decide) ps, Node.inert_make rfl (hlisted fun p hp => ?_)⟩) fuel hn
  obtain ⟨key, n, rfl, hvalue⟩ := hps p hp
  have hkey : (keyNode key).Inert := by
    unfold keyNode
    split <;> exact Node.inert_leaf rfl
  refine Node.inert_make rfl fun c hc => ?_
  obtain rfl | hc := List.mem_cons.mp hc
  · exact hkey.inRole .key
  · cases List.mem_singleton.mp hc
    exact hvalue.inert.inRole .value

end Sandbox

/-! ## Actions -/

open Analysis (Carries Clear Found Named)
open Node (IsValue)

section Actions

variable {root : Node} {a : Analysis} {i : SiteId} (ha : Named root a)

include ha

/-- The tree of a value takes the place of a node that declares nothing. -/
theorem Analysis.carries_value {a' : Analysis} {n : Node} (hnew : Node.AreNew [n]) (hn : IsValue n)
    (hclear : ∀ old, Found a i old → ¬ Declared a.program old ∧ ¬ Listed a.program old)
    (hok : a.replace i n = .ok a') : Carries root a a' :=
  carries_expression ha (.new hnew) hn.id hn.form hn.body hclear
    (fun _ _ _ hAt => hn.inert.salvages hAt _ a.program) hok

theorem ensures_carries_folding : Ensures (· = a) (Rule.Folding.act i) (Carries root a) := by
  have hstay := ha.stays
  unfold Rule.Folding.act
  refine .nodeAt_bind ?_
  split
  · exact .pure hstay ()
  next op l r hoperands =>
  simp only
  split
  · exact (Still.code _).andThen (fun _ => .throw hstay _) hstay
  refine (Still.convert _).andThen (fun v => ?_) hstay
  refine Ensures.bind (Q := Carries root a) (.edit (fun b b' hb hok => ?_) hstay)
    (fun _ => (Still.record _ _).ensures) fun _ h => h
  subst hb
  refine Analysis.carries_value ha (Sandbox.areNew_primitiveNode v) (Sandbox.isValue_primitiveNode v)
    (fun old hold => ?_) hok
  have hform : old.form = .binary op := by
    rw [hold.nodeAt] at hoperands
    unfold Rule.Folding.literalOperands? at hoperands
    split at hoperands
    · next hform _ _ =>
      split at hoperands
      · cases hoperands
        exact hform
      · cases hoperands
    · cases hoperands
  exact ha.plain.undeclared (by rw [hform]; rfl) (by rw [hform]; exact Form.noConfusion)

theorem ensures_carries_evaluate (hcallee : (a.nodeAt i).child? .callee ≠ none) (call : Node) :
    Ensures (· = a) (Rule.Evaluation.evaluate i call) (Carries root a) := by
  have hstay := ha.stays
  unfold Rule.Evaluation.evaluate
  refine Still.get.andThen (fun t => ?_) hstay
  split
  · exact .pure hstay ()
  refine (Still.code call).andThen (fun source => ?_) hstay
  refine (Still.withSandbox _).andThen (fun r => ?_) hstay
  refine (Still.contained r).andThen (fun v => ?_) hstay
  refine Still.get.andThen (fun t' => ?_) hstay
  refine Ensures.settle_bind (fun tree hn => ?_) hstay
  cases tree with
  | none => exact (Still.record _ _).leads hstay
  | some n =>
    refine Ensures.bind (Q := Carries root a) (.edit (fun b b' hb hok => ?_) hstay)
      (fun _ => (Still.record _ _).ensures) fun _ h => h
    subst hb
    obtain ⟨value, hvalue⟩ := Rule.Evaluation.exists_of_valueTree? hn
    exact Analysis.carries_value ha (Rule.Evaluation.areNew_valueTree? hn)
      (Sandbox.isValue_valueNodeGo _ _ hvalue)
      (fun old hold => ha.plain.undeclared_of_callee (hold.nodeAt ▸ hcallee)) hok

/-- The operator of a wrapper takes the place of the call. -/
theorem ensures_carries_callOfMember (hi : Analysis.Rooted a i) {callee : Node}
    (hcallee : (a.nodeAt i).child? .callee ≠ none) (name : Text) :
    Ensures (· = a) (Rule.Evaluation.callOfMember i (a.nodeAt i) callee name) (Carries root a) := by
  have hstay := ha.stays
  have hstop : Ensures (· = a) (pure () : RuleM Unit) (Carries root a) := .pure hstay ()
  unfold Rule.Evaluation.callOfMember
  refine Still.get.andThen (fun t => ?_) hstay
  simp only
  split
  · split
    · exact ensures_carries_evaluate ha hcallee _
    · exact hstop
  split
  · refine (Still.convert _).andThen (fun value => ?_) hstay
    split
    · next n hn =>
      obtain ⟨w, -, hunwrapped⟩ := Option.bind_eq_some_iff.mp hn
      refine Ensures.bind (Q := Carries root a) (.edit (fun b b' hb hok => ?_) hstay)
        (fun _ => (Still.record _ _).ensures) fun _ h => h
      subst hb
      have hmade := Rule.Evaluation.madeOf_unwrapped? hunwrapped
      obtain ⟨l, r, hargs, -, -, horder⟩ := Sandbox.unwrapped_inv hunwrapped
      have hbinary : ∀ x y : Node, x ∈ [l, r] → y ∈ [l, r] → n = .binary w.op x y →
          Carries root b b' := by
        rintro x y hx hy rfl
        have hroles : ∀ c ∈ Node.at1 .left x ++ Node.at1 .right y, c.role ≠ .body := by
          simp [Node.at1, Node.role_inRole]
        refine Analysis.carries_expression ha (.made hi hmade) rfl rfl (Node.child?_make hroles)
          (fun old hold => ha.plain.undeclared_of_callee (hold.nodeAt ▸ hcallee))
          (fun old hold _ hAt => ?_) hok
        have hin : ∀ z ∈ [l, r], z.Inside b.program := fun z hz => by
          rw [← hargs, hold.nodeAt] at hz
          exact (Node.Inside.child (Node.mem_childrenAt.mp hz).1).trans hold.inside
        refine Node.salvages_make hAt rfl fun d hd => ?_
        obtain hd | hd := List.mem_append.mp hd
        · cases List.mem_singleton.mp hd
          exact (Node.salvages_of_inside (hin x hx)).inRole .left
        · cases List.mem_singleton.mp hd
          exact (Node.salvages_of_inside (hin y hy)).inRole .right
      obtain ⟨-, heq⟩ | ⟨-, -, -, heq⟩ := horder
      · exact hbinary l r List.mem_cons_self (List.mem_cons_of_mem _ List.mem_cons_self) heq
      · exact hbinary r l (List.mem_cons_of_mem _ List.mem_cons_self) List.mem_cons_self heq
    · exact hstop
  · exact hstop

theorem ensures_carries_evaluation (hi : Analysis.Rooted a i) :
    Ensures (· = a) (Rule.Evaluation.act i) (Carries root a) := by
  have hstay := ha.stays
  have hstop : Ensures (· = a) (pure () : RuleM Unit) (Carries root a) := .pure hstay ()
  unfold Rule.Evaluation.act
  refine .nodeAt_bind ?_
  split
  · exact hstop
  next callee hchild =>
  have hcallee : (a.nodeAt i).child? .callee ≠ none := by
    rw [hchild]
    exact Option.some_ne_none callee
  have hevaluate : ∀ n, Ensures (· = a) (Rule.Evaluation.evaluate i n) (Carries root a) := fun n =>
    ensures_carries_evaluate ha hcallee n
  split
  · unfold Rule.Evaluation.callOfName
    refine Still.get.andThen (fun t => ?_) hstay
    split
    · split
      · exact hevaluate _
      · exact hstop
    · refine (Still.registerFunction _ _ _).andThen (fun r => ?_) hstay
      simp only
      split
      · exact hevaluate _
      · exact hstop
  · split
    · exact hevaluate _
    · split
      · exact ensures_carries_callOfMember ha hi hcallee _
      · exact hstop
  · exact hstop

omit ha in
/-- Reads are replaced by values, one after the other. -/
theorem ensures_carries_replaceReads (value : Sandbox.Value) {rs : List SiteId}
    (hclear : ∀ r ∈ rs, Clear a r) :
    Ensures (Carries root a) (Rule.Inlining.replaceReads (Sandbox.primitiveNode value) rs)
      (Carries root a) := by
  induction rs with
  | nil => exact .pure (fun _ h => h) ()
  | cons r rs ih =>
    refine Ensures.bind (.edit (fun b b' hb hok => ?_) fun _ h => h)
      (fun _ => ih fun r hr => hclear r (List.mem_cons_of_mem _ hr)) fun _ h => h
    refine hb.trans (Analysis.carries_value hb.named (Sandbox.areNew_primitiveNode value)
      (Sandbox.isValue_primitiveNode value) (fun old hold => ?_) hok)
    obtain ⟨k, hat, -, hk⟩ := hb.clear r (hclear r List.mem_cons_self)
    have hid : old.id = k := hold.id.trans hat.node_eq
    exact ⟨fun h => hk old (.inl h) hid, fun h => hk old (.inr h) hid⟩

theorem ensures_carries_inlining : Ensures (· = a) (Rule.Inlining.act i) (Carries root a) := by
  have hstay := ha.stays
  have hsame : ∀ b, Carries root a b → Carries root a b := fun _ h => h
  have hstop : Ensures (· = a) (pure () : RuleM Unit) (Carries root a) := .pure hstay ()
  have hremove : Ensures (Carries root a) (RuleM.edit fun b => b.remove i) (Carries root a) :=
    .edit (fun b b' hb hok => hb.trans (Analysis.carries_remove hb.named hok)) hsame
  unfold Rule.Inlining.act
  refine .nodeAt_bind ?_
  refine .ask_bind (.ask_bind ?_)
  simp only
  split
  · unfold Rule.Inlining.inlineLiteral
    refine .ask_bind ?_
    split
    · exact hstop
    next b _ =>
    simp only
    split
    · exact hstop
    refine (Still.convert _).andThen (fun value => ?_) hstay
    refine Ensures.bind (Q := Carries root a) ?_ (fun _ => ?_) hsame
    · exact (ensures_carries_replaceReads value fun r hr =>
        ha.reads b r (List.mem_filter.mp hr).1).weaken hstay
    · refine hremove.bind (fun _ => ?_) hsame
      exact (Still.record _ _).andThen (fun _ => (Still.record _ _).ensures) hsame
  · unfold Rule.Inlining.moveFunction
    refine (Still.withSandbox _).andThen (fun r => ?_) hstay
    refine (Still.contained r).andThen (fun moved => ?_) hstay
    split
    · refine (hremove.weaken hstay).bind (fun _ => ?_) hsame
      exact (Still.record _ _).andThen (fun _ => (Still.record _ _).ensures) hsame
    · exact hstop
  · exact hstop

theorem ensures_carries_unflattening (settings : Settings) (hi : Analysis.Rooted a i) :
    Ensures (· = a) (Rule.Unflattening.act settings i) (Carries root a) := by
  have hstay := ha.stays
  unfold Rule.Unflattening.act
  refine .nodeAt_bind ?_
  split
  · exact .pure hstay ()
  next loop hloop =>
  refine (Still.ask _).andThen (fun b => ?_) hstay
  refine Ensures.withSandbox_bind fun s => ?_
  split
  · next statements hstatements =>
    refine Ensures.bind (Q := Carries root a) (.edit (fun b b' hb hok => ?_) hstay)
      (fun _ => (Still.record _ _).ensures) fun _ h => h
    subst hb
    have hdistinct :=
      Analysis.nodup_nodeAt ha.sound.numbered (Analysis.attached_of_replaceMany hok)
    obtain ⟨body, switch, hshape⟩ := Dispatch.shape_of_ofNode? hloop
    have hbody : (b.nodeAt i).child? .body ≠ none := by
      rw [hshape.body]
      exact Option.some_ne_none body
    split at hstatements
    · next hrun =>
      cases hstatements
      refine Analysis.carries_replaceMany ha (.made hi (Dispatch.madeOf_unflatten hloop hdistinct hrun))
        hbody (fun old hold _ _ s hs => ?_) hok
      obtain ⟨c, hc, o, ho, horigin⟩ := (Dispatch.clean_of_unflatten hrun s hs).origin
      have hin : o.Inside b.program := by
        have hcase := Dispatch.inside_of_cases hloop hc
        rw [hold.nodeAt] at hcase
        exact (Node.Inside.child (Node.mem_childrenAt.mp ho).1).trans (hcase.trans hold.inside)
      obtain rfl | rfl := horigin
      · exact Node.salvages_of_inside hin
      · exact Node.salvages_copy hin
    · cases hstatements
  · exact (Still.record _ _).leads hstay
  · exact .throw hstay _
  · exact .throw hstay _

end Actions

/-! ## Runs -/

variable {settings : Settings} {rules : List RuleName} {root : Node} {t t' : Tour RuleState}

/-- What a handler does at a site that is there. -/
theorem carries_of_handler {h : Handler RuleError RuleState}
    (hmem : h ∈ (RuleName.visitor settings rules).handlers) (ht : Named root t.analysis) {i : SiteId}
    (hi : Analysis.Rooted t.analysis i) :
    TourM.Leaves (h.act i t) fun t' => Carries root t.analysis t'.analysis := by
  obtain rfl | rfl | rfl | rfl := handler_cases hmem
  · exact ensures_carries_inlining ht t rfl
  · exact ensures_carries_folding ht t rfl
  · exact ensures_carries_evaluation ht hi t rfl
  · exact ensures_carries_unflattening ht settings hi t rfl

/-- Wherever a run comes to, the program declares what it declared. -/
theorem Reaches.named (h : Reaches (RuleName.visitor settings rules) t t') (ht : Named root t.analysis) :
    Named root t'.analysis := by
  induction h with
  | here => exact ht
  | counted _ ih => exact ih
  | @sited t' i child listed scope _ hi ih =>
    have hextends := Analysis.extends_addSiteBelow t'.analysis i child listed scope
    refine ⟨(Analysis.remains_of_extends ih.sound hextends
      (.addSiteBelow _ _ hi.known child listed scope)).sound, ?_, ?_, fun x j hj => ?_⟩
    · rw [hextends.program]
      exact ih.plain
    · rw [hextends.program]
      exact ih.declared
    · exact (ih.reads x j hj).extended hextends
  | acted _ hmem hi hact ih =>
    have hleft := carries_of_handler hmem ih hi
    rw [hact] at hleft
    exact hleft.named

/-- A run starts with such an analysis. -/
theorem named_start (n : Node) (settings : Settings) (store : Sandbox.Machine)
    (hplain : Plain (n.number 1).1) :
    Named (n.number 1).1 (settings.start (.ofProgram (n.number 1).1) store).analysis := by
  have hsound := sound_start n settings store
  have hextends : Analysis.Extends (Analysis.start (n.number 1).1)
      (settings.start (.ofProgram (n.number 1).1) store).analysis :=
    (Analysis.extends_ofProgram _).trans (Analysis.extends_addSite _ _)
  have hprogram : (settings.start (.ofProgram (n.number 1).1) store).analysis.program =
      (n.number 1).1 := hextends.program
  have hdistinct := hsound.numbered.distinct
  have hgiven := hsound.numbered.given
  rw [hprogram] at hdistinct hgiven
  refine ⟨hsound, ?_, fun c hc => ?_, fun x j hj => ?_⟩
  · rwa [hprogram]
  · rw [hprogram] at hc
    exact ⟨c, hc, .refl c⟩
  · obtain hnone | ⟨c, hc, hat⟩ := (Analysis.grows_ofProgram (n.number 1).1).reads x j hj
    · cases hnone
    · refine ⟨c.id, (Analysis.extends_addSite _ _).at hat, (hgiven c.id hc.1.inside.id_mem).2,
        fun c' hc' hid => ?_⟩
      rw [hprogram] at hc'
      cases Node.Inside.eq_of_id hdistinct (hc'.elim Placed.inside Placed.inside) hc.1.inside hid
      obtain hc' | hc' := hc'
      · obtain heq | heq := hc.1.eq_declare_or_skip (hplain.grammatical hdistinct) hc'
        · cases heq
        · cases heq
      · obtain ⟨name, hname⟩ := hc.2
        cases hname.symm.trans (hplain.declarators _ hc').1

/-- A name that was not declared has no binding in a new analysis, and is read of none. -/
theorem Analysis.Named.unbound {a : Analysis} (h : Named root a) {name : Text}
    (hname : ∀ c, Declared root c → c.form ≠ .identifier name) :
    let b := Analysis.ofProgram a.program
    (∀ x < b.bindings.size, (b.binding x).name ≠ name) ∧
      ∀ o, Occurrence.Of a.program o → o.node.form = .identifier name → ∀ x,
        o.node.id ∉ b.readNodes x := by
  refine Analysis.unbound_of_undeclared (h.plain.script h.sound.numbered.distinct) fun c hc hform => ?_
  obtain ⟨d, hd, hresembles⟩ := h.declared c hc
  refine hname d hd ?_
  have hsame := hresembles.form
  rw [hform] at hsame
  generalize d.form = f at hsame ⊢
  cases hsame
  rfl

/-- **Names that a program does not declare stay undeclared.**  At every moment of a run of some rules, a
name that no identifier of the parsed program declares has no binding in a new analysis of the program as it
is then, and no identifier of that name is read of a binding.  In particular `NaN`, `Infinity` and
`undefined`, which stand for values that are put in, are read of nothing if the program declares no such
names. -/
theorem undeclared_throughout (n : Node) (settings : Settings) (rules : List RuleName)
    (store : Sandbox.Machine) (hplain : Plain (n.number 1).1) (name : Text)
    (hname : ∀ c, Declared (n.number 1).1 c → c.form ≠ .identifier name) (t : Tour RuleState)
    (ht : Reaches (RuleName.visitor settings rules)
      (settings.start (.ofProgram (n.number 1).1) store) t) :
    let a := Analysis.ofProgram t.analysis.program
    (∀ b < a.bindings.size, (a.binding b).name ≠ name) ∧
      ∀ o, Occurrence.Of t.analysis.program o → o.node.form = .identifier name → ∀ b,
        o.node.id ∉ a.readNodes b :=
  (ht.named (named_start n settings store hplain)).unbound hname

/-! ## A value that is written with a name -/

/-- `[undefined]` -/
def unsetList : Node :=
  .mk 8 .argument .arrayExpression [.mk 9 .elements (.identifier (Text.of "undefined")) []]

/-- `function () { return [undefined]; }` set to `f` -/
def unsetDeclarator : Node :=
  .mk 3 .declarations .variableDeclarator
    [.mk 4 .id (.identifier (Text.of "f")) [],
     .mk 5 .init (.functionExpression ⟨false, false, false⟩)
      [.mk 6 .body .blockStatement [.mk 7 .body .returnStatement [unsetList]]]]

/-- `var f = function () { return [undefined]; };` -/
def unsetDeclaration : Node := .mk 2 .body (.variableDeclaration .var) [unsetDeclarator]

/-- `f()` -/
def unsetCall : Node := .mk 11 .expression .call [.mk 12 .callee (.identifier (Text.of "f")) []]

/-- `f();` -/
def unsetStatement : Node := .mk 10 .body (.expressionStatement none) [unsetCall]

/-- `var f = function () { return [undefined]; }; f();` -/
def unsetScript : Node := .mk 1 .top .program [unsetDeclaration, unsetStatement]

/-- The site of the program in a run on the script. -/
def unsetRoot : SiteId := (Analysis.ofProgram unsetScript).sites.size

/-- The start of a run on the script. -/
def unsetStart : Tour RuleState := (default : Settings).start (.ofProgram unsetScript) .bare

/-- The run comes to the declarator. -/
def unsetTour : Tour RuleState := unsetStart.descended unsetRoot unsetDeclaration unsetDeclarator true

/-- What inlining makes of the declarator. -/
def unsetInlined : Tour RuleState := Tour.afterwards (Rule.Inlining.act (unsetRoot + 2) unsetTour)

/-- The run comes to the call. -/
def unsetMoved : Tour RuleState := unsetInlined.descended unsetRoot unsetStatement unsetCall false

/-- Whether an evaluation comes to an array of one element that is not set. -/
def comesToUnset (r : Except Sandbox.Abrupt (Option Sandbox.Value) × Sandbox.Registry) : Bool :=
  match r.1 with
  | .ok (some (.object k)) =>
    match (r.2.machine.heap.getD k default).body with
    | .array es => match es.toList with
      | [.undefined] => true
      | _ => false
    | _ => false
  | _ => false

theorem valueTree?_unset {r : Except Sandbox.Abrupt (Option Sandbox.Value) × Sandbox.Registry}
    (h : comesToUnset r = true) : ∃ k, r.1 = .ok (some (.object k)) ∧
      Rule.Evaluation.valueTree? r.2.machine.heap (some (.object k)) =
        .ok (some (.array [.ident "undefined"])) := by
  unfold comesToUnset at h
  split at h
  · next k hvalue =>
    split at h
    · next es hbody =>
      split at h
      · next hlist =>
        refine ⟨k, hvalue, ?_⟩
        rw [Array.getD_eq_getD_getElem?] at hbody
        unfold Rule.Evaluation.valueTree? Sandbox.valueNode Sandbox.nestingBound
        simp [Sandbox.valueNodeGo, Sandbox.elementNodes, Sandbox.Heap.isCallable, hbody, hlist,
          Sandbox.primitiveNode]
        rfl
      · cases h
    · cases h
  · cases h

/-- A visit of a statement and then of a child of it. -/
theorem reaches_descended {root i : SiteId} (h : Reaches (RuleName.visitor settings rules) t t')
    (hroot : Analysis.Rooted t'.analysis root) (n c : Node) (listed : Bool)
    (hi : i = t'.analysis.sites.size + 1) :
    Reaches (RuleName.visitor settings rules) t (t'.descended root n c listed) ∧
      Analysis.Rooted (t'.descended root n c listed).analysis i := by
  subst hi
  have hfirst := rooted_addSiteBelow hroot n true 0
  have hsize : (t'.analysis.addSiteBelow root n true 0).2.sites.size = t'.analysis.sites.size + 1 :=
    Array.size_push _
  refine ⟨.sited _ c listed 0 (.sited root n true 0 h hroot) hfirst, ?_⟩
  rw [← hsize]
  exact rooted_addSiteBelow hfirst c listed 0

theorem plain_unsetScript : Plain (unsetScript.number 1).1 := plain_of_isPlain rfl (by decide)

/-- The function is moved, and its call is replaced by the array that it returns: the name that is written
there is read of nothing. -/
theorem unset_uncaptured : ∃ t,
    Reaches (RuleName.visitor default RuleName.all) unsetStart t ∧
    Plain (unsetScript.number 1).1 ∧
    (∀ c, Declared (unsetScript.number 1).1 c → c.form ≠ .identifier (Text.of "undefined")) ∧
    (t.analysis.program.walk.filterMap fun n => n.name?) = [Text.of "undefined"] ∧
    ∀ o, Occurrence.Of t.analysis.program o → o.node.form = .identifier (Text.of "undefined") → ∀ b,
      o.node.id ∉ (Analysis.ofProgram t.analysis.program).readNodes b := by
  have hname : ∀ c, Declared (unsetScript.number 1).1 c → c.form ≠ .identifier (Text.of "undefined") := by
    intro c hc hform
    have hother := forall_placed (P := fun c => c.name? != some (Text.of "undefined")) (by decide) hc
    rw [Node.name?, hform] at hother
    simp at hother
  have hreached : Reaches (RuleName.visitor default RuleName.all) unsetStart unsetMoved ∧
      Analysis.Rooted unsetMoved.analysis (unsetRoot + 4) := by
    have hroot := rooted_start default (Analysis.ofProgram unsetScript) .bare
    have hstart := (sound_start unsetScript default .bare).numbered
    obtain ⟨hfirst, hi⟩ := reaches_descended (i := unsetRoot + 2) .here hroot unsetDeclaration
      unsetDeclarator true (by decide +kernel)
    have hmoved : Reaches (RuleName.visitor default RuleName.all) unsetStart unsetInlined :=
      .acted hfirst (List.mem_append_left _ List.mem_cons_self) hi
        (eq_ok_afterwards (by decide +kernel))
    exact reaches_descended hmoved (hroot.stays (hmoved.numbered hstart).2) _ _ _ (by decide +kernel)
  obtain ⟨k, hvalue, htree⟩ := valueTree?_unset (r := unsetMoved.provided.evaluate
    (unsetMoved.analysis.nodeAt (unsetRoot + 4)) (Text.of "f()")) (by decide +kernel)
  have hnames : (unsetMoved.analysis.replace (unsetRoot + 4) (.array [.ident "undefined"])).toOption.map
      (fun a => a.program.walk.filterMap Node.name?) = some [Text.of "undefined"] := by decide +kernel
  cases hreplace : unsetMoved.analysis.replace (unsetRoot + 4) (.array [.ident "undefined"]) with
  | error e =>
    rw [hreplace] at hnames
    cases hnames
  | ok a =>
    rw [hreplace] at hnames
    obtain ⟨t, hrun, -, -, rfl⟩ := call_replaces (i := unsetRoot + 4) (Text.of "f")
      (by decide +kernel) (by decide +kernel) (by decide +kernel) (by decide +kernel)
      (by decide +kernel) (Prod.ext hvalue rfl) htree hreplace
    have ht : Reaches (RuleName.visitor default RuleName.all) unsetStart t :=
      .acted hreached.1 (List.mem_append_right _
        (List.mem_flatMap.mpr ⟨.calls, by decide, List.mem_singleton.mpr rfl⟩)) hreached.2 hrun
    exact ⟨t, ht, plain_unsetScript, hname, Option.some.inj hnames,
      (undeclared_throughout unsetScript default RuleName.all .bare plain_unsetScript
        (Text.of "undefined") hname t ht).2⟩

end Untangle
