import Mathlib.Logic.Relation
import Untangle.Proofs.Analysis.Siblings
import Untangle.Proofs.Computation
import Untangle.Proofs.Tree.Multiplicity

set_option autoImplicit false

/-!
# Programs whose nodes are told apart

Every node of an analysed program has an identity of its own, which was given before.  A change of the
program keeps it that way if what it puts in is new, or made of the nodes that it takes out, each of them
used once.
-/

namespace Untangle

namespace Node

variable {ns ms : List Node} {n old : Node}

/-- No node of some trees has an identity yet. -/
def AreNew (ns : List Node) : Prop := ∀ k ∈ identitiesAll ns, k = 0

/-- Some trees are made of nodes below another one, each of them used once at most, and of new ones. -/
def MadeOf (ns : List Node) (old : Node) : Prop :=
  ∀ k, 0 < k → (identitiesAll ns).count k ≤ (identitiesAll old.children).count k

theorem MadeOf.count_le (h : MadeOf ns old) {k : NodeId} (hk : 0 < k) :
    (identitiesAll ns).count k ≤ old.identities.count k :=
  Nat.le_trans (h k hk) ((identitiesAll_children_sublist old).count_le k)

theorem AreNew.madeOf (h : AreNew ns) (old : Node) : MadeOf ns old := by
  intro k hk
  rw [List.count_eq_zero_of_not_mem fun hmem => Nat.ne_of_gt hk (h k hmem)]
  exact Nat.zero_le _

theorem areNew_leaf (f : Form) : AreNew [leaf f] := by
  intro k hk
  simpa [leaf, make, identities, identitiesAll] using hk

/-- Nodes that are put into slots of a new node. -/
theorem identitiesAll_make (f : Form) (cs : List Node) :
    identitiesAll [make f cs] = 0 :: identitiesAll cs := List.append_nil _

theorem AreNew.make (h : AreNew ns) (f : Form) : AreNew [make f ns] := by
  intro k hk
  rw [identitiesAll_make] at hk
  obtain rfl | hk := List.mem_cons.mp hk
  · rfl
  · exact h k hk

theorem MadeOf.make (h : MadeOf ns old) (f : Form) : MadeOf [Node.make f ns] old := by
  intro k hk
  rw [identitiesAll_make, List.count_cons_of_ne (Nat.ne_of_lt hk)]
  exact h k hk

theorem MadeOf.inRole (h : MadeOf ns old) (r : Role) : MadeOf (ns.map (Node.inRole r)) old := by
  unfold MadeOf
  rwa [identitiesAll_map_inRole]

theorem AreNew.inRole (h : AreNew ns) (r : Role) : AreNew (ns.map (Node.inRole r)) := by
  unfold AreNew
  rwa [identitiesAll_map_inRole]

end Node

namespace Analysis

variable {a a' a'' : Analysis} {i p : SiteId} {n old : Node} {ns : List Node} {action : EditAction}

/-! ## The invariant -/

/-- Every node of the program has an identity of its own, which was given before. -/
structure Numbered (a : Analysis) : Prop where
  distinct : a.program.identities.Nodup
  given : ∀ k ∈ a.program.identities, 0 < k ∧ k < a.next

theorem numbered_of_count
    (h : ∀ k, a.program.identities.count k ≤ if 0 < k ∧ k < a.next then 1 else 0) : Numbered a := by
  refine ⟨List.nodup_iff_count_le_one.mpr fun k => Nat.le_trans (h k) ?_, fun k hk => ?_⟩
  · split
    · exact Nat.le_refl 1
    · exact Nat.zero_le 1
  · have hpos := Nat.lt_of_lt_of_le (List.count_pos_iff.mpr hk) (h k)
    split at hpos
    · next hgiven => exact hgiven
    · cases hpos

namespace Numbered

theorem count_le (h : Numbered a) (k : NodeId) :
    a.program.identities.count k ≤ if 0 < k ∧ k < a.next then 1 else 0 := by
  split
  · exact List.nodup_iff_count_le_one.mp h.distinct k
  · next hgiven => exact Nat.le_of_eq (List.count_eq_zero_of_not_mem fun hk => hgiven (h.given k hk))

theorem next_pos (h : Numbered a) : 0 < a.next := by
  have hroot := h.given a.program.id (Node.Inside.self a.program).id_mem
  exact Nat.lt_trans hroot.1 hroot.2

theorem of_eq (h : Numbered a) (hprogram : a'.program = a.program) (hnext : a'.next = a.next) :
    Numbered a' := by
  refine ⟨?_, ?_⟩
  · rw [hprogram]
    exact h.distinct
  · rw [hprogram, hnext]
    exact h.given

theorem extended (h : Numbered a) (hextends : Extends a a') : Numbered a' :=
  h.of_eq hextends.program hextends.next

/-- No node stands at two places of the program. -/
theorem one_place (h : Numbered a) {w w' : Way} {m : Node} (hn : a.program.follow w = some n)
    (hm : a.program.follow w' = some m) (hid : n.id = m.id) : w = w' :=
  Node.way_unique h.distinct hn hm hid

/-- A tree that is numbered from one on is the program of such an analysis. -/
theorem ofProgram (n : Node) : Numbered (.ofProgram (n.number 1).1) := by
  have hids := (n.identities_number 1).1
  have hstart : Numbered (start (n.number 1).1) := by
    refine ⟨?_, fun k hk => ?_⟩
    · show (n.number 1).1.identities.Nodup
      rw [hids]
      exact List.nodup_range'
    · change k ∈ (n.number 1).1.identities at hk
      show 0 < k ∧ k < (n.number 1).1.size + 1
      rw [hids, List.mem_range'_1] at hk
      rw [Node.size_number, Nat.add_comm]
      exact hk
  exact hstart.extended (extends_ofProgram _)

/-- A child of the node at the end of a way gives way to nodes that are made of it. -/
theorem exchanged (h : Numbered a) {f : Node → Node} (hf : ∀ n, (f n).identities = n.identities)
    {w : Way} {s : Step} (hmade : ∀ c, a.program.follow (w ++ [s]) = some c → Node.MadeOf ns c)
    (hprogram : a'.program =
      a.program.changeAt (fun m => f (m.replaceChild s (Node.adoptAll ns a.next).1)) w)
    (hnext : a'.next = (Node.adoptAll ns a.next).2) : Numbered a' := by
  have hle := Node.le_adoptAll ns a.next
  have hpos := h.next_pos
  refine numbered_of_count fun k => ?_
  have hold := h.count_le k
  obtain ⟨c, hc, hcount⟩ | hcount :=
    Node.count_exchange hf h.distinct w s (Node.adoptAll ns a.next).1
  · have hnow := hcount k
    rw [← hprogram, Node.count_adoptAll ns h.next_pos] at hnow
    have hmade := fun hk => (hmade c hc).count_le (k := k) hk
    clear hcount hf
    grind
  · rw [hprogram, hcount]
    grind

end Numbered

/-! ## Changes through sites -/

/-- A site that is there, below an older one. -/
structure Rooted (a : Analysis) (i : SiteId) : Prop where
  known : i < a.sites.size
  younger : ∀ p, (a.site i).above = some p → p < i

/-- Some trees may be put in the place of the node of a site: they are new, or made of the node. -/
inductive Suits (a : Analysis) (i : SiteId) (ns : List Node) : Prop
  | new : Node.AreNew ns → Suits a i ns
  | made : Rooted a i → Node.MadeOf ns (a.nodeAt i) → Suits a i ns

theorem editable_eq_ok (h : a.editable i action = .ok (n, p)) :
    a.attachedNode? i = some n ∧ (a.site i).above = some p := by
  unfold editable at h
  split at h
  · cases h
  · next hnode =>
    split at h
    · cases h
    · next habove =>
      cases h
      exact ⟨hnode, habove⟩

/-- The node that is changed is the one to which the site leads. -/
theorem follow_of_editable (hi : Rooted a i) (h : a.editable i action = .ok (n, p)) :
    a.program.follow (a.way p ++ [⟨(a.site i).role, (a.site i).node⟩]) = some n := by
  obtain ⟨hnode, habove⟩ := editable_eq_ok h
  unfold attachedNode? at hnode
  split at hnode
  · cases hnode
  · rwa [way_of_above habove (hi.younger p habove)] at hnode

theorem Suits.madeOf (h : Suits a i ns) (heditable : a.editable i action = .ok (n, p)) {c : Node}
    (hc : a.program.follow (a.way p ++ [⟨(a.site i).role, (a.site i).node⟩]) = some c) :
    Node.MadeOf ns c := by
  cases h with
  | new h => exact h.madeOf c
  | made hi h =>
    rw [follow_of_editable hi heditable] at hc
    cases hc
    have hnode : a.nodeAt i = n := by
      unfold nodeAt
      rw [(editable_eq_ok heditable).1]
    rwa [hnode] at h

/-- The node of a site gives way to trees that may be put in its place. -/
theorem Numbered.substituted (h : Numbered a) (hsuits : Suits a i ns)
    (heditable : a.editable i action = .ok (old, p)) {f : Node → Node}
    (hf : ∀ n, (f n).identities = n.identities) {b : Analysis} (hprogram : b.program = a.program)
    (hsites : b.sites = a.sites) (hnext : b.next = (Node.adoptAll ns a.next).2) :
    Numbered (b.substitute i p old (Node.adoptAll ns a.next).1 f) := by
  have hsite : ∀ k, b.site k = a.site k := fun k => by rw [site, site, hsites]
  have hway : b.way p = a.way p := way_congr fun k _ => hsite k
  refine h.exchanged hf (fun c hc => hsuits.madeOf heditable hc) ?_ hnext
  show b.program.changeAt _ (b.way p) = _
  rw [hprogram, hway, hsite]

theorem identities_valueReplaced (r : Role) (n : Node) :
    (n.valueReplaced r).identities = n.identities :=
  Node.identities_congr (Node.keeps_valueReplaced r n).1 (Node.children_valueReplaced r n)

/-- Replacing a node keeps the nodes apart. -/
theorem numbered_replace (h : Numbered a) {new : Node} (hsuits : Suits a i [new])
    (hok : a.replace i new = .ok a') : Numbered a' := by
  unfold replace at hok
  obtain ⟨⟨old, p⟩, heditable, hok⟩ := except_bind_eq_ok.mp hok
  cases hok
  have hf : ∀ n : Node, (if (a.site i).listed then n else n.valueReplaced (a.site i).role).identities =
      n.identities := by
    intro n
    split
    · rfl
    · exact identities_valueReplaced _ n
  have hsubstituted := h.substituted (b := { a with next := (new.adopt a.next).2 }) hsuits heditable hf
    rfl rfl rfl
  refine Numbered.extended ?_ (extends_register _ i)
  exact hsubstituted.of_eq rfl rfl

theorem extends_registerSpliced (a : Analysis) (p : SiteId) (ns : List Node) :
    Extends a (a.registerSpliced p ns) :=
  .foldl (fun _ _ => (extends_addSiteBelow ..).trans (extends_register ..)) ns a

theorem Suits.inRole (h : Suits a i ns) (r : Role) : Suits a i (ns.map (Node.inRole r)) := by
  cases h with
  | new hnew => exact .new (hnew.inRole r)
  | made hi hmade => exact .made hi (hmade.inRole r)

theorem Suits.block (h : Suits a i ns) : Suits a i [.block ns] := by
  cases h with
  | new hnew => exact .new ((hnew.inRole _).make _)
  | made hi hmade => exact .made hi ((hmade.inRole _).make _)

/-- Putting several statements in the place of a node keeps the nodes apart. -/
theorem numbered_replaceMany (h : Numbered a) (hsuits : Suits a i ns)
    (hok : a.replaceMany i ns = .ok a') : Numbered a' := by
  unfold replaceMany at hok
  split at hok
  · cases hok
  simp only at hok
  split at hok
  · obtain ⟨⟨old, p⟩, heditable, hok⟩ := except_bind_eq_ok.mp hok
    cases hok
    have hsubstituted := h.substituted (b := (a.adopt (ns.map (Node.inRole (a.site i).role))).2)
      (hsuits.inRole (a.site i).role) heditable (f := fun n => n) (fun _ => rfl) rfl rfl rfl
    refine Numbered.extended ?_ (extends_registerSpliced _ p _)
    exact hsubstituted.of_eq rfl rfl
  · exact numbered_replace h hsuits.block hok

theorem attached_of_replaceMany (hok : a.replaceMany i ns = .ok a') : a.isAttached i = true := by
  unfold replaceMany at hok
  cases hattached : a.isAttached i with
  | true => rfl
  | false =>
    rw [hattached] at hok
    cases hok

/-- The node of an attached site is one of the program. -/
theorem nodup_nodeAt (h : Numbered a) (hattached : a.isAttached i = true) :
    (a.nodeAt i).identities.Nodup := by
  unfold isAttached at hattached
  obtain ⟨n, hn⟩ := Option.isSome_iff_exists.mp hattached
  have hnode : a.nodeAt i = n := by
    unfold nodeAt
    rw [hn]
  unfold attachedNode? at hn
  split at hn
  · cases hn
  · rw [hnode]
    exact Node.nodup_of_follow h.distinct hn

theorem extends_forgetDeclarator (a : Analysis) (i : SiteId) (n : Node) :
    Extends a (a.forgetDeclarator i n) := by
  unfold forgetDeclarator
  split
  · refine .foldl (fun a name => ?_) _ a
    split
    · split
      · exact .of_eq rfl rfl rfl
      · exact .refl a
    · exact .refl a
  · exact .refl a

/-- What stays in the place of a node: nothing, or an empty statement where a statement stood. -/
def StaysBehind (n : Node) (rest : List Node) : Prop :=
  rest = [] ∨ n.form.isStatementLike = true ∧ rest = [.leaf .emptyStatement]

theorem StaysBehind.areNew {rest : List Node} (h : StaysBehind n rest) : Node.AreNew rest := by
  obtain rfl | ⟨-, rfl⟩ := h
  · exact fun k hk => by cases hk
  · exact Node.areNew_leaf _

theorem staysBehind_of_leftBehind {parent : Node} {r : Role} (h : leftBehind? n parent r = some ns) :
    StaysBehind n ns := by
  unfold leftBehind? at h
  split at h
  all_goals first
    | exact .inl (Option.some.inj h).symm
    | split at h
      · next hform => exact .inr ⟨hform, (Option.some.inj h).symm⟩
      · cases h

/-- A node is taken out by putting new nodes in its place. -/
theorem removeOne_eq_ok (h : a.removeOne i = .ok a') :
    ∃ n p rest, a.editable i .remove = .ok (n, p) ∧ StaysBehind n rest ∧
      a' = (((a.forgetDeclarator i n).adopt rest).2.substitute i p n
        ((a.forgetDeclarator i n).adopt rest).1 fun n => n).retire i := by
  unfold removeOne at h
  obtain ⟨⟨n, p⟩, heditable, h⟩ := except_bind_eq_ok.mp h
  simp only [pure_bind] at h
  split at h
  · cases h
    exact ⟨n, p, [], heditable, .inl rfl, rfl⟩
  · split at h
    · next rest hrest =>
      cases h
      exact ⟨n, p, rest, heditable, staysBehind_of_leftBehind hrest, rfl⟩
    · cases h

/-- Taking a node out keeps the nodes apart. -/
theorem numbered_removeOne (h : Numbered a) (hok : a.removeOne i = .ok a') : Numbered a' := by
  obtain ⟨n, p, rest, -, hrest, rfl⟩ := removeOne_eq_ok hok
  have hsubstituted : Numbered (((a.forgetDeclarator i n).adopt rest).2.substitute i p n
      ((a.forgetDeclarator i n).adopt rest).1 fun n => n) :=
    (h.extended (extends_forgetDeclarator a i n)).exchanged (f := fun n => n) (fun _ => rfl)
      (fun c _ => hrest.areNew.madeOf c) rfl rfl
  exact hsubstituted.of_eq rfl rfl

/-! ## Sites above sites -/

/-- The sites that there are stay below the same sites. -/
structure Stays (a a' : Analysis) : Prop where
  size : a.sites.size ≤ a'.sites.size
  above : ∀ k < a.sites.size, (a'.site k).above = (a.site k).above

theorem Stays.refl (a : Analysis) : Stays a a := ⟨Nat.le_refl _, fun _ _ => rfl⟩

theorem Stays.trans (h : Stays a a') (h' : Stays a' a'') : Stays a a'' :=
  ⟨Nat.le_trans h.size h'.size, fun k hk =>
    (h'.above k (Nat.lt_of_lt_of_le hk h.size)).trans (h.above k hk)⟩

theorem Rooted.stays (h : Rooted a i) (hstays : Stays a a') : Rooted a' i :=
  ⟨Nat.lt_of_lt_of_le h.known hstays.size, fun p hp =>
    h.younger p ((hstays.above i h.known).symm.trans hp)⟩

theorem Extends.stays (h : Extends a a') : Stays a a' :=
  ⟨h.size_le, fun _ hk => congrArg Site.above (h.site_eq hk)⟩

theorem Stays.of_sites (h : a'.sites = a.sites) : Stays a a' :=
  ⟨Nat.le_of_eq (congrArg Array.size h).symm, fun k _ => by rw [site, site, h]⟩

theorem stays_modifySite (a : Analysis) (i : SiteId) {f : Site → Site}
    (hf : ∀ s, (f s).above = s.above) : Stays a (a.modifySite i f) := by
  refine ⟨Nat.le_of_eq Array.size_modify.symm, fun k hk => ?_⟩
  rw [site_modifySite a i f hk]
  split
  · exact hf _
  · rfl

theorem stays_replace {new : Node} (hok : a.replace i new = .ok a') : Stays a a' := by
  unfold replace at hok
  obtain ⟨⟨old, p⟩, -, hok⟩ := except_bind_eq_ok.mp hok
  cases hok
  refine .trans ?_ (extends_register _ i).stays
  refine .trans ?_ (stays_modifySite _ i fun _ => rfl)
  exact .of_sites rfl

theorem stays_replaceMany (hok : a.replaceMany i ns = .ok a') : Stays a a' := by
  unfold replaceMany at hok
  split at hok
  · cases hok
  simp only at hok
  split at hok
  · obtain ⟨⟨old, p⟩, -, hok⟩ := except_bind_eq_ok.mp hok
    cases hok
    refine .trans ?_ (extends_registerSpliced _ p _).stays
    refine .trans ?_ (stays_modifySite _ i fun _ => rfl)
    exact .of_sites rfl
  · exact stays_replace hok

theorem stays_removeOne (hok : a.removeOne i = .ok a') : Stays a a' := by
  obtain ⟨n, p, rest, -, -, rfl⟩ := removeOne_eq_ok hok
  refine (extends_forgetDeclarator a i n).stays.trans ?_
  refine .trans ?_ (stays_modifySite _ i fun _ => rfl)
  exact .of_sites rfl

/-! ## Changes one after the other -/

/-- One change of the program: nodes are put in the place of one, or one is taken out. -/
inductive Change (a a' : Analysis) : Prop
  | replaced (i : SiteId) (new : Node) : a.replace i new = .ok a' → Change a a'
  | spliced (i : SiteId) (news : List Node) : a.replaceMany i news = .ok a' → Change a a'
  | takenOut (i : SiteId) : a.removeOne i = .ok a' → Change a a'

theorem Change.stays (h : Change a a') : Stays a a' := by
  cases h with
  | replaced i new hok => exact stays_replace hok
  | spliced i news hok => exact stays_replaceMany hok
  | takenOut i hok => exact stays_removeOne hok

/-- The program is changed step by step, and after every step its nodes are told apart. -/
def Undergoes (a a' : Analysis) : Prop :=
  Relation.ReflTransGen (fun a a' => Change a a' ∧ Numbered a') a a'

theorem Undergoes.numbered (h : Undergoes a a') (ha : Numbered a) : Numbered a' := by
  induction h with
  | refl => exact ha
  | tail _ hlast _ => exact hlast.2

theorem Undergoes.stays (h : Undergoes a a') : Stays a a' := by
  induction h with
  | refl => exact .refl a
  | tail _ hlast ih => exact ih.trans hlast.1.stays

/-! ## Changes by trees that may be put in -/

/-- One change of the program, by trees that may be put in. -/
inductive Fitting (a a' : Analysis) : Prop
  | replaced (i : SiteId) (new : Node) : Suits a i [new] → a.replace i new = .ok a' → Fitting a a'
  | spliced (i : SiteId) (news : List Node) : Suits a i news → a.replaceMany i news = .ok a' →
      Fitting a a'
  | takenOut (i : SiteId) : a.removeOne i = .ok a' → Fitting a a'

theorem Fitting.change (h : Fitting a a') : Change a a' := by
  cases h with
  | replaced i new _ hok => exact .replaced i new hok
  | spliced i news _ hok => exact .spliced i news hok
  | takenOut i hok => exact .takenOut i hok

theorem Fitting.numbered (h : Fitting a a') (ha : Numbered a) : Numbered a' := by
  cases h with
  | replaced i new hsuits hok => exact numbered_replace ha hsuits hok
  | spliced i news hsuits hok => exact numbered_replaceMany ha hsuits hok
  | takenOut i hok => exact numbered_removeOne ha hok

/-- The program is changed step by step, by trees that may be put in. -/
def Proceeds (a a' : Analysis) : Prop := Relation.ReflTransGen Fitting a a'

/-- Such changes keep the nodes apart. -/
theorem Proceeds.undergoes (h : Proceeds a a') (ha : Numbered a) : Undergoes a a' := by
  induction h with
  | refl => exact .refl
  | tail _ hlast ih => exact ih.tail ⟨hlast.change, hlast.numbered (ih.numbered ha)⟩

/-- A declaration that goes with its last declarator goes after it. -/
theorem proceeds_remove (hok : a.remove i = .ok a') : Proceeds a a' := by
  unfold remove at hok
  obtain ⟨b, hfirst, hok⟩ := except_bind_eq_ok.mp hok
  have hb : Proceeds a b := .single (.takenOut i hfirst)
  split at hok
  · split at hok
    · exact hb.tail (.takenOut _ hok)
    · cases hok
      exact hb
  · cases hok
    exact hb

end Analysis

end Untangle
