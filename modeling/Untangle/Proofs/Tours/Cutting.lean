import Untangle.Proofs.Identity.Locality

set_option autoImplicit false

/-!
# Changes that cut a node out

Nodes are taken out, or new ones are put into their place in a list.  Either way the node of a site is cut
out, with all that stands below it, and the site is retired; with the last declarator of a declaration the
declaration is cut out as well.  What was changed inside of the node before does not matter then.
-/

namespace Untangle

open Node (identitiesAll)

namespace Node

variable {s : Step} {w : Way} {f : Node → Node}

/-- A change of a child that gives way is lost. -/
theorem replaceChild_changeChild (hf : Keeps f) (s : Step) (ns : List Node) (n : Node) :
    (n.changeChild s f).replaceChild s ns = n.replaceChild s ns := by
  unfold replaceChild changeChild
  rw [children_withChildren, List.flatMap_map, withChildren_withChildren]
  congr 1
  refine List.flatMap_congr fun c _ => ?_
  by_cases hlead : s.leadsTo c = true
  · rw [if_pos hlead, hf.leadsTo, if_pos hlead, if_pos hlead]
  · rw [if_neg hlead, if_neg hlead]

theorem changeAt_replaceChild_changeAt (hf : Keeps f) (s : Step) (w : Way) (ns : List Node) (n : Node) :
    (n.changeAt f (w ++ [s])).changeAt (replaceChild s ns) w = n.changeAt (replaceChild s ns) w := by
  rw [changeAt_step, changeAt_changeAt (keeps_changeChild s f)]
  congr 1
  funext m
  exact replaceChild_changeChild hf s ns m

end Node

namespace Analysis

variable {a a' b c : Analysis} {i p q : SiteId} {n n' m : Node} {news ns : List Node}

/-! ## What is cut out -/

/-- Two analyses with the same program and the same sites. -/
structure SameTree (a a' : Analysis) : Prop where
  program : a'.program = a.program
  next : a'.next = a.next
  sites : a'.sites = a.sites

theorem SameTree.refl (a : Analysis) : SameTree a a := ⟨rfl, rfl, rfl⟩

theorem SameTree.trans (h : SameTree a b) (h' : SameTree b c) : SameTree a c :=
  ⟨h'.program.trans h.program, h'.next.trans h.next, h'.sites.trans h.sites⟩

theorem SameTree.extends (h : SameTree a a') : Extends a a' :=
  ⟨h.program, h.next, fun k _ => by rw [h.sites]⟩

/-- The node of a site is cut out: new ones have come into its place, if any, and the site is retired. -/
structure Cut (a a' : Analysis) (i p : SiteId) (news : List Node) : Prop where
  above : (a.site i).above = some p
  program : a'.program =
    a.program.changeAt (Node.replaceChild ⟨(a.site i).role, (a.site i).node⟩ news) (a.way p)
  retired : (a'.site i).retired = true
  new : ∀ k ∈ identitiesAll news, a.next ≤ k

/-- The node of a site is cut out, or the declaration around it whose last declarator it was. -/
inductive Gone (a a' : Analysis) (i : SiteId) : Prop
  | slot {p : SiteId} {news : List Node} : Cut a a' i p news → a.sites.size ≤ a'.sites.size →
      (∀ k < a.sites.size, k ≠ i → a'.sites[k]? = a.sites[k]?) → Gone a a' i
  | declaration {p q : SiteId} {m : Node} {news : List Node} : (a.site i).above = some p →
      (a'.site i).retired = true → a.program.follow (a.way p) = some m →
      isEmptyDeclaration (m.replaceChild ⟨(a.site i).role, (a.site i).node⟩ []) = true →
      Cut a a' p q news → a.sites.size ≤ a'.sites.size →
      (∀ k < a.sites.size, k ≠ i → k ≠ p → a'.sites[k]? = a.sites[k]?) → Gone a a' i

namespace Gone

theorem retired (h : Gone a a' i) : (a'.site i).retired = true := by
  cases h with
  | slot hcut _ _ => exact hcut.retired
  | declaration _ hretired _ _ _ _ _ => exact hretired

theorem not_attached (h : Gone a a' i) : a'.isAttached i = false := by
  rw [isAttached, attachedNode?, h.retired]
  rfl

end Gone

/-- The nodes of what is cut out are not in the program any more. -/
theorem Cut.not_mem (h : Cut a a' i p news) (ha : Sound a)
    (hn : a.program.follow (a.way i) = some n) {k : NodeId} (hk : k ∈ n.identities) :
    k ∉ a'.program.identities := by
  have hgiven := ha.numbered.given k ((Node.inside_of_follow hn).identities_sublist.subset hk)
  rw [way_of_above h.above (ha.ordered i p h.above)] at hn
  rw [h.program]
  exact Node.not_mem_exchanged (f := fun n => n) (fun _ => rfl) ha.numbered.distinct hn hk fun hnew =>
    absurd (h.new k hnew) (Nat.not_le.mpr hgiven.2)

theorem Gone.not_mem (h : Gone a a' i) (ha : Sound a) (hn : Stands a i n) {k : NodeId}
    (hk : k ∈ n.identities) : k ∉ a'.program.identities := by
  cases h with
  | slot hcut _ _ => exact hcut.not_mem ha hn.follow hk
  | @declaration p q m _ habove _ hm _ hcut _ _ =>
    have hway := hn.follow
    rw [way_of_above habove (ha.ordered i p habove), Node.follow_append, hm] at hway
    exact hcut.not_mem ha hm ((Node.inside_of_follow hway).identities_sublist.subset hk)

/-- What was changed below a node before does not matter when it is cut out. -/
theorem Gone.after_alters (ha : Sound a) (hi : i < a.sites.size) (halters : Alters a b i n n')
    (hnext : a.next ≤ b.next) (h : Gone b a' i) : Gone a a' i := by
  obtain ⟨g, hkeeps, -, hprogram⟩ := halters.program
  have hsites : ∀ {k}, k < a.sites.size → b.site k = a.site k := halters.site_eq
  have hway : ∀ {k}, k < a.sites.size → b.way k = a.way k := halters.way_eq
  have hlater : ∀ {k}, k < a.sites.size → k < b.sites.size := fun hk =>
    Nat.lt_of_lt_of_le hk halters.size_le
  cases h with
  | @slot p news hcut hsize hrest =>
    have habove : (a.site i).above = some p := hsites hi ▸ hcut.above
    have hlt := ha.ordered i p habove
    refine .slot ⟨habove, ?_, hcut.retired, fun k hk => Nat.le_trans hnext (hcut.new k hk)⟩
      (Nat.le_trans halters.size_le hsize) fun k hk hne =>
        (hrest k (hlater hk) hne).trans (halters.sites k hk)
    rw [hcut.program, hsites hi, hway (Nat.lt_trans hlt hi), hprogram, way_of_above habove hlt]
    exact Node.changeAt_replaceChild_changeAt hkeeps _ _ _ _
  | @declaration p q m news habove hretired hm hempty hcut hsize hrest =>
    rw [hsites hi] at habove hempty
    have hlt := ha.ordered i p habove
    have hp := Nat.lt_trans hlt hi
    have hway' := way_of_above habove hlt
    have hbelow : Node.Keeps (Node.changeChild ⟨(a.site i).role, (a.site i).node⟩ g) :=
      Node.keeps_changeChild _ _
    rw [hway'] at hprogram
    rw [hway hp, hprogram, Node.changeAt_step, Node.follow_changeAt hbelow] at hm
    obtain ⟨m₀, hm₀, rfl⟩ := Option.map_eq_some_iff.mp hm
    rw [Node.replaceChild_changeChild hkeeps] at hempty
    have habove' : (a.site p).above = some q := hsites hp ▸ hcut.above
    have hlt' := ha.ordered p q habove'
    refine .declaration habove hretired hm₀ hempty
      ⟨habove', ?_, hcut.retired, fun k hk => Nat.le_trans hnext (hcut.new k hk)⟩
      (Nat.le_trans halters.size_le hsize) fun k hk hne hne' =>
        (hrest k (hlater hk) hne hne').trans (halters.sites k hk)
    rw [hcut.program, hsites hp, hway (Nat.lt_trans hlt' hp), hprogram, Node.changeAt_step,
      way_of_above habove' hlt']
    exact Node.changeAt_replaceChild_changeAt hbelow _ _ _ _

/-! ## What prunes -/

/-- All that is done to the tree at a site is that its node is taken out, or that new nodes are put into
its place in a list; nothing is said about scopes and names. -/
inductive Prunes (a : Analysis) (i : SiteId) : Analysis → Prop
  | kept : Prunes a i a
  | takenOut {a' : Analysis} : a.remove i = .ok a' → Prunes a i a'
  | spliced {a' : Analysis} (news : List Node) : (a.site i).listed = true → Node.AreNew news →
      a.replaceMany i news = .ok a' → Prunes a i a'
  | beside {b c : Analysis} : Prunes a i b → SameTree b c → Prunes a i c

theorem Gone.sameTree (h : Gone a b i) (hsame : SameTree b c) : Gone a c i := by
  have hsite : ∀ k, c.site k = b.site k := fun k => by rw [site, site, hsame.sites]
  cases h with
  | slot hcut hsize hrest =>
    refine .slot ⟨hcut.above, hsame.program.trans hcut.program, ?_, hcut.new⟩ ?_ fun k hk hne => ?_
    · rw [hsite, hcut.retired]
    · rwa [hsame.sites]
    · rw [hsame.sites, hrest k hk hne]
  | declaration habove hretired hm hempty hcut hsize hrest =>
    refine .declaration habove ?_ hm hempty
      ⟨hcut.above, hsame.program.trans hcut.program, ?_, hcut.new⟩ ?_ fun k hk hne hne' => ?_
    · rw [hsite, hretired]
    · rw [hsite, hcut.retired]
    · rwa [hsame.sites]
    · rw [hsame.sites, hrest k hk hne hne']

/-- A node that gave way through a retired site is cut out. -/
theorem GivesWay.cut (h : GivesWay a a' i p n news fun n => n) (hretired : (a'.site i).retired = true) :
    Cut a a' i p news := ⟨h.above, h.program, hretired, h.new⟩

theorem gone_of_remove (ha : Sound a) (hok : a.remove i = .ok a') :
    Gone a a' i := by
  obtain ⟨e, herror, -⟩ | ⟨b, p, old, hfirst, hnode, hgives, hsites⟩ := removeOne_cases ha i
  · rw [remove, herror] at hok
    cases hok
  rw [remove_of_removeOne hfirst] at hok
  have hsite : b.site i = { a.site i with retired := true } :=
    (hsites i).trans ((site_modifySite a i _ hgives.known).trans (if_pos rfl))
  have hretired : (b.site i).retired = true := congrArg Site.retired hsite
  have hcut := hgives.cut hretired
  have hlast : Gone a b i := .slot hcut hgives.size hgives.sites
  split at hok
  · next q hlisted habove =>
    split at hok
    · next hempty =>
      -- The declaration above gives way, too, in the tree from which the declarator is cut out.
      rw [hsite] at hlisted habove
      cases hgives.above.symm.trans habove
      have hothers : ∀ {k}, k < i → b.site k = a.site k := fun hk => by
        rw [hsites, site_retire_of_ne (Nat.ne_of_lt hk)]
      have hlt := ha.ordered i p hgives.above
      have hways : ∀ {k}, k < i → b.way k = a.way k := fun hk =>
        way_congr fun j hj => hothers (Nat.lt_of_le_of_lt hj hk)
      have hb := (remains_removeOne ha hfirst).sound
      obtain ⟨e, herror, -⟩ | ⟨a'', r, old', hsecond, hnode', hgives', hsites'⟩ := removeOne_cases hb p
      · rw [herror] at hok
        cases hok
      cases hsecond.symm.trans hok
      have habove' := hothers hlt ▸ hgives'.above
      have hlt' := ha.ordered p r habove'
      have hfound := hgives.found
      rw [Node.follow_append] at hfound
      obtain ⟨m, hm, -⟩ := Option.bind_eq_some_iff.mp hfound
      have hrest : Request.remove.placed a i = [] := if_pos hlisted
      have hparent : b.nodeAt p = m.replaceChild ⟨(a.site i).role, (a.site i).node⟩ [] := by
        have hthere := hgives'.found
        rw [← way_of_above hgives'.above (hb.ordered p r hgives'.above), hways hlt, hgives.program,
          hrest, Node.follow_changeAt (Node.keeps_replaceChild _ _), hm] at hthere
        rw [nodeAt, hnode', ← Option.some.inj hthere]
        rfl
      rw [hparent] at hempty
      have hretired' : (a'.site p).retired = true := by
        rw [hsites']
        exact congrArg Site.retired ((site_modifySite b p _ hgives'.known).trans (if_pos rfl))
      have hcut' : Cut a a' p r (Node.adoptAll (Request.remove.placed b p) b.next).1 := by
        refine ⟨habove', ?_, hretired', fun k hk =>
          Nat.le_trans (remains_removeOne ha hfirst).next (hgives'.new k hk)⟩
        rw [hgives'.program, hothers hlt, hways (Nat.lt_trans hlt' hlt), hgives.program,
          way_of_above habove' hlt']
        exact Node.changeAt_replaceChild_changeAt (Node.keeps_replaceChild _ _) _ _ _ _
      refine .declaration hgives.above ?_ hm hempty hcut'
        (Nat.le_trans hgives.size hgives'.size) fun k hk hne hne' => ?_
      · rw [hsites', site_retire_of_ne (Nat.ne_of_gt hlt), hretired]
      · exact (hgives'.sites k (Nat.lt_of_lt_of_le hk hgives.size) hne').trans (hgives.sites k hk hne)
    · cases hok
      exact hlast
  · cases hok
    exact hlast

theorem gone_of_splice (ha : Sound a) (hlisted : (a.site i).listed = true) (hnew : Node.AreNew ns)
    (hok : a.replaceMany i ns = .ok a') : Gone a a' i := by
  obtain ⟨old, p, heditable⟩ : ∃ old p, a.editable i .replace = .ok (old, p) := by
    have hmany := hok
    rw [replaceMany, attached_of_replaceMany hok] at hmany
    simp only [Bool.not_true, Bool.false_eq_true, if_false, hlisted, if_true] at hmany
    obtain ⟨⟨old, p⟩, heditable, -⟩ := except_bind_eq_ok.mp hmany
    exact ⟨old, p, heditable⟩
  obtain ⟨hgives, hsite⟩ := givesWay_splice ha hlisted heditable hnew hok
  refine .slot (hgives.cut ?_) hgives.size hgives.sites
  rw [hsite]
  exact congrArg Site.retired ((site_modifySite a i _ hgives.known).trans (if_pos rfl))

/-- What prunes leaves the tree as it is, or cuts the node of the site out. -/
theorem sameTree_or_gone (ha : Sound a) (h : Prunes a i a') : SameTree a a' ∨ Gone a a' i := by
  induction h with
  | kept => exact .inl (.refl a)
  | takenOut hok => exact .inr (gone_of_remove ha hok)
  | spliced news hlisted hnew hok => exact .inr (gone_of_splice ha hlisted hnew hok)
  | beside _ hsame ih =>
    obtain h | h := ih
    · exact .inl (h.trans hsame)
    · exact .inr (h.sameTree hsame)

/-! ## What stays of the tree -/

/-- An analysis that was changed: no node that had left the program has come back. -/
structure Ages (a a' : Analysis) : Prop where
  sound : Sound a'
  next : a.next ≤ a'.next
  size : a.sites.size ≤ a'.sites.size
  gone : ∀ k, 0 < k → k < a.next → k ∈ a'.program.identities → k ∈ a.program.identities

theorem Ages.refl (ha : Sound a) : Ages a a := ⟨ha, Nat.le_refl _, Nat.le_refl _, fun _ _ _ h => h⟩

theorem Ages.trans (h : Ages a b) (h' : Ages b c) : Ages a c :=
  ⟨h'.sound, Nat.le_trans h.next h'.next, Nat.le_trans h.size h'.size, fun k hpos hk hmem =>
    h.gone k hpos hk (h'.gone k hpos (Nat.lt_of_lt_of_le hk h.next) hmem)⟩

theorem Remains.ages (h : Remains a a') (hstays : Stays a a') : Ages a a' :=
  ⟨h.sound, h.next, hstays.size, h.gone⟩

theorem SameTree.ages (h : SameTree a a') (ha : Sound a) : Ages a a' := by
  refine ⟨⟨ha.numbered.of_eq h.program h.next, ha.ordered.of_sites h.sites⟩, ?_, ?_, fun k _ _ hk => ?_⟩
  · rw [h.next]
  · rw [h.sites]
  · rwa [h.program] at hk

theorem ages_of_addSiteBelow (ha : Sound a) (hi : i < a.sites.size) (c : Node) (listed : Bool)
    (scope : ScopeId) : Ages a (a.addSiteBelow i c listed scope).2 :=
  have hextends := extends_addSiteBelow a i c listed scope
  (remains_of_extends ha hextends (.addSiteBelow _ a hi c listed scope)).ages hextends.stays

theorem ages_of_prunes (ha : Sound a) (h : Prunes a i a') : Ages a a' := by
  induction h with
  | kept => exact .refl ha
  | takenOut hok =>
    have hproceeds := proceeds_remove hok
    exact (remains_of_proceeds ha hproceeds).ages (hproceeds.undergoes ha.numbered).stays
  | spliced news _ hnew hok =>
    exact (remains_replaceMany ha (.new hnew) hok).ages (stays_replaceMany hok)
  | beside _ hsame ih => exact ih.trans (hsame.ages ih.sound)

end Analysis

end Untangle
