import Mathlib.Logic.Function.Basic
import Untangle.Proofs.Analysis.Placement

set_option autoImplicit false

/-!
# Trees in which nodes gave way

Some nodes of a tree give way to copies of other trees, which have new identities; all others stay as they
are, apart from properties that are written out.  What becomes of a tree is determined by what its nodes give
way to, up to the new identities.  One change after the other leads to such a tree again.
-/

namespace Untangle.Node

variable {gives gives' : NodeId → Option (List Node)} {next k : NodeId} {n m old : Node}
  {ns ms ms' news trees : List Node} {r : Role}

/-- Copies of some trees in a slot, with new identities. -/
structure Copies (next : NodeId) (r : Role) (trees ns : List Node) : Prop where
  same : ns.map unnumbered = trees.map fun e => (e.inRole r).unnumbered
  identities : ∀ k ∈ identitiesAll ns, next ≤ k

/-- What becomes of some trees when nodes of theirs give way to copies of other trees. -/
inductive Becomes (gives : NodeId → Option (List Node)) (next : NodeId) : List Node → List Node → Prop
  | nil : Becomes gives next [] []
  | kept {i : NodeId} {r : Role} {f f' : Form} {cs cs' ns ms : List Node} (hgives : gives i = none)
      (hform : f.WritesOut f') (hcs : Becomes gives next cs cs') (hns : Becomes gives next ns ms) :
      Becomes gives next (.mk i r f cs :: ns) (.mk i r f' cs' :: ms)
  | given {n : Node} {trees es ns ms : List Node} (hgives : gives n.id = some trees)
      (hcopies : Copies next n.role trees es) (hns : Becomes gives next ns ms) :
      Becomes gives next (n :: ns) (es ++ ms)

/-- Nothing gives way. -/
theorem becomes_refl (next : NodeId) (ns : List Node) : Becomes (fun _ => none) next ns ns := by
  refine Node.rec_1 (motive_1 := fun n => ∀ {ns : List Node}, Becomes (fun _ => none) next ns ns →
    Becomes (fun _ => none) next (n :: ns) (n :: ns))
    (motive_2 := fun ns => Becomes (fun _ => none) next ns ns) ?_ .nil ?_ ns
  · intro i r f cs ih ns hns
    exact .kept rfl (.same f) ih hns
  · intro n ns ihn ihns
    exact ihn ihns

namespace Becomes

/-- Nodes with old identities are those that did not give way. -/
theorem mem_of_mem (h : Becomes gives next ns ms) (hk : k < next) (hmem : k ∈ identitiesAll ms) :
    k ∈ identitiesAll ns ∧ gives k = none := by
  induction h with
  | nil => cases hmem
  | @kept i r f f' cs cs' ns ms hgives hform hcs hns ihcs ihns =>
    obtain hmem | hmem := List.mem_append.mp hmem
    · obtain rfl | hmem := List.mem_cons.mp hmem
      · exact ⟨List.mem_append_left _ List.mem_cons_self, hgives⟩
      · obtain ⟨hcs, hnone⟩ := ihcs hmem
        exact ⟨List.mem_append_left _ (List.mem_cons_of_mem _ hcs), hnone⟩
    · obtain ⟨hns, hnone⟩ := ihns hmem
      exact ⟨List.mem_append_right _ hns, hnone⟩
  | @given n trees es ns ms hgives hcopies hns ihns =>
    rw [identitiesAll_append] at hmem
    obtain hmem | hmem := List.mem_append.mp hmem
    · exact absurd hk (Nat.not_lt.mpr (hcopies.identities k hmem))
    · obtain ⟨hns, hnone⟩ := ihns hmem
      exact ⟨List.mem_append_right _ hns, hnone⟩

/-- A node that gave way is not there any more. -/
theorem gone (h : Becomes gives next ns ms) (hk : k < next) (hgives : gives k = some trees) :
    k ∉ identitiesAll ms := by
  intro hmem
  cases hgives.symm.trans (h.mem_of_mem hk hmem).2

/-- What nodes give way to matters for those only that are still there, or give way. -/
theorem congr (h : Becomes gives next ns ms)
    (hsame : ∀ k ∈ identitiesAll ns, gives' k = gives k ∨ gives k = none ∧ k ∉ identitiesAll ms) :
    Becomes gives' next ns ms := by
  induction h with
  | nil => exact .nil
  | @kept i r f f' cs cs' ns ms hgives hform hcs hns ihcs ihns =>
    refine .kept ?_ hform (ihcs fun k hk => ?_) (ihns fun k hk => ?_)
    · obtain heq | ⟨-, hgone⟩ := hsame i (List.mem_append_left _ List.mem_cons_self)
      · exact heq.trans hgives
      · exact absurd (List.mem_append_left _ List.mem_cons_self) hgone
    · refine (hsame k (List.mem_append_left _ (List.mem_cons_of_mem _ hk))).imp_right fun h => ?_
      exact ⟨h.1, fun hmem => h.2 (List.mem_append_left _ (List.mem_cons_of_mem _ hmem))⟩
    · refine (hsame k (List.mem_append_right _ hk)).imp_right fun h => ?_
      exact ⟨h.1, fun hmem => h.2 (List.mem_append_right _ hmem)⟩
  | @given n trees es ns ms hgives hcopies hns ihns =>
    refine .given ?_ hcopies (ihns fun k hk => ?_)
    · obtain heq | ⟨hnone, -⟩ := hsame n.id (List.mem_append_left _ (Inside.self n).id_mem)
      · exact heq.trans hgives
      · cases hnone.symm.trans hgives
    · refine (hsame k (List.mem_append_right _ hk)).imp_right fun h => ?_
      rw [identitiesAll_append] at h
      exact ⟨h.1, fun hmem => h.2 (List.mem_append_right _ hmem)⟩

end Becomes

/-! ## One change -/

/-- A list of trees in which one tree, or a node of it, gives way to others. -/
inductive SwapsAmong (old : Node) (news : List Node) : List Node → List Node → Prop
  | here (ns : List Node) : SwapsAmong old news (old :: ns) (news.map (inRole old.role) ++ ns)
  | inside {n n' : Node} (ns : List Node) (h : Swaps old news n n') :
      SwapsAmong old news (n :: ns) (n' :: ns)
  | later {ns ns' : List Node} (n : Node) (h : SwapsAmong old news ns ns') :
      SwapsAmong old news (n :: ns) (n :: ns')

namespace SwapsAmong

theorem append_left (h : SwapsAmong old news ns ms) (before : List Node) :
    SwapsAmong old news (before ++ ns) (before ++ ms) := by
  induction before with
  | nil => exact h
  | cons n before ih => exact .later n ih

/-- The tree that gives way, or holds the node that does, stands in one part of the list. -/
theorem append_inv {es : List Node} (h : SwapsAmong old news (es ++ ns) ms) :
    (∃ es', SwapsAmong old news es es') ∨ ∃ ms', ms = es ++ ms' ∧ SwapsAmong old news ns ms' := by
  induction es generalizing ms with
  | nil => exact .inr ⟨ms, rfl, h⟩
  | cons e es ih =>
    cases h with
    | here => exact .inl ⟨_, .here es⟩
    | inside _ h => exact .inl ⟨_, .inside es h⟩
    | later _ h =>
      obtain ⟨es', hes⟩ | ⟨ms', rfl, hns⟩ := ih h
      · exact .inl ⟨_, .later e hes⟩
      · exact .inr ⟨ms', rfl, hns⟩

theorem id_mem (h : SwapsAmong old news ns ms) : old.id ∈ identitiesAll ns := by
  induction h with
  | here ns => exact List.mem_append_left _ (Inside.self old).id_mem
  | inside ns h =>
    obtain ⟨p, -, hp, -, hold, -⟩ := h.parent
    exact List.mem_append_left _ ((Inside.child hold).trans hp).id_mem
  | later n h ih => exact List.mem_append_right _ ih

end SwapsAmong

/-- Where a node below gives way, so it is among the children. -/
theorem Swaps.among {n' : Node} (h : Swaps old news n n') : SwapsAmong old news n.children n'.children := by
  cases h with
  | here hid hrole hform hold hnew =>
    rw [hold, hnew, List.append_assoc]
    exact SwapsAmong.append_left (.here _) _
  | deeper hid hrole hform hold hnew h =>
    rw [hold, hnew]
    exact SwapsAmong.append_left (.inside _ h) _

/-- After one change more, the node gave way as well. -/
theorem Becomes.swapped (h : Becomes gives next ns ms) (hids : (identitiesAll ns).Nodup)
    (hold : old.id < next) (hcopies : Copies next old.role trees (news.map (inRole old.role)))
    (hswaps : SwapsAmong old news ms ms') :
    Becomes (Function.update gives old.id (some trees)) next ns ms' := by
  have hothers : ∀ {ns ms : List Node}, Becomes gives next ns ms → old.id ∉ identitiesAll ns →
      Becomes (Function.update gives old.id (some trees)) next ns ms := by
    intro ns ms h hnot
    refine h.congr fun k hk => .inl ?_
    have hne : k ≠ old.id := fun heq => hnot (heq ▸ hk)
    exact Function.update_of_ne hne _ _
  induction h generalizing ms' with
  | nil => cases hswaps
  | @kept i r f f' cs cs' ns ms hgives hform hcs hns ihcs ihns =>
    obtain ⟨hhead, hrest, hapart⟩ := List.nodup_append.mp hids
    obtain ⟨hi, hbelow⟩ := List.nodup_cons.mp hhead
    cases hswaps with
    | here =>
      refine .given (n := .mk i r f cs) (Function.update_self ..) hcopies (hothers hns fun hmem => ?_)
      exact hapart i List.mem_cons_self i hmem rfl
    | @inside _ n' _ h =>
      have hmem := (hcs.mem_of_mem hold h.among.id_mem).1
      have hne : i ≠ old.id := fun heq => hi (heq ▸ hmem)
      obtain ⟨j, r', f'', cs''⟩ := n'
      obtain ⟨hid, hrole⟩ := h.kept
      cases (show j = i from hid)
      cases (show r' = r from hrole)
      refine .kept ((Function.update_of_ne hne _ _).trans hgives) (hform.trans h.resembles.form)
        (ihcs hbelow h.among) (hothers hns fun hmem' => ?_)
      exact hapart _ (List.mem_cons_of_mem _ hmem) _ hmem' rfl
    | later _ h =>
      have hmem := (hns.mem_of_mem hold h.id_mem).1
      have hnot : old.id ∉ (Node.mk i r f cs).identities := fun hmem' => hapart _ hmem' _ hmem rfl
      have hne : i ≠ old.id := fun heq => hnot (heq ▸ List.mem_cons_self)
      exact .kept ((Function.update_of_ne hne _ _).trans hgives) hform
        (hothers hcs fun hmem' => hnot (List.mem_cons_of_mem _ hmem')) (ihns hrest h)
  | @given n trees' es ns ms hgives hes hns ihns =>
    obtain ⟨hhead, hrest, hapart⟩ := List.nodup_append.mp hids
    obtain ⟨es', h⟩ | ⟨ms', rfl, h⟩ := hswaps.append_inv
    · exact absurd hold (Nat.not_lt.mpr (hes.identities _ h.id_mem))
    · have hmem := (hns.mem_of_mem hold h.id_mem).1
      have hne : n.id ≠ old.id := fun heq => hapart _ (Inside.self n).id_mem _ hmem heq
      exact .given ((Function.update_of_ne hne _ _).trans hgives) hes (ihns hrest h)

/-! ## What is still there -/

/-- A node that did not give way. -/
structure Kept (gives : NodeId → Option (List Node)) (next : NodeId) (n m : Node) : Prop where
  stays : gives n.id = none
  id : m.id = n.id
  form : n.form.WritesOut m.form
  children : Becomes gives next n.children m.children

/-- Only properties are written out. -/
theorem Kept.form_eq {f : Form} (h : Kept gives next n m) (hm : m.form = f)
    (hf : ∀ computed kind method, f ≠ .property computed kind method false) : n.form = f := by
  have hform := h.form
  rw [hm] at hform
  generalize n.form = g at hform
  cases hform with
  | same => rfl
  | property => exact absurd rfl (hf _ _ _)

theorem resembles_inRole (n : Node) (r : Role) : n.Resembles (n.inRole r) := by
  obtain ⟨id, r', f, cs⟩ := n
  exact ⟨.same f, fun d hd => ⟨d, hd, rfl⟩⟩

theorem Inside.unnumbered (h : n.Inside m) : n.unnumbered.Inside m.unnumbered := by
  induction h with
  | self => exact .self _
  | within hc _ ih =>
    refine .within ?_ ih
    rw [children_unnumbered]
    exact List.mem_map_of_mem hc

namespace Becomes

/-- The trees are those that did not give way, and copies, in the same slots. -/
theorem mem (h : Becomes gives next ns ms) (hm : m ∈ ms) :
    ∃ n ∈ ns, n.role = m.role ∧ (Kept gives next n m ∨ (∀ k ∈ m.identities, next ≤ k) ∧
      ∃ trees, gives n.id = some trees ∧ ∃ t ∈ trees, m.unnumbered = (t.inRole n.role).unnumbered) := by
  induction h with
  | nil => cases hm
  | @kept i r f f' cs cs' ns ms hgives hform hcs hns ihcs ihns =>
    obtain rfl | hm := List.mem_cons.mp hm
    · exact ⟨_, List.mem_cons_self, rfl, .inl ⟨hgives, rfl, hform, hcs⟩⟩
    · obtain ⟨n, hn, h⟩ := ihns hm
      exact ⟨n, List.mem_cons_of_mem _ hn, h⟩
  | @given n trees es ns ms hgives hcopies hns ihns =>
    obtain hm | hm := List.mem_append.mp hm
    · have hcopy := List.mem_map_of_mem (f := unnumbered) hm
      rw [hcopies.same] at hcopy
      obtain ⟨t, ht, hsame⟩ := List.mem_map.mp hcopy
      refine ⟨n, List.mem_cons_self, ?_, .inr ⟨fun k hk => ?_, trees, hgives, t, ht, hsame.symm⟩⟩
      · rw [← role_inRole t n.role, ← role_unnumbered, hsame, role_unnumbered]
      · exact hcopies.identities k (mem_identitiesAll.mpr ⟨m, hm, hk⟩)
    · obtain ⟨n, hn, h⟩ := ihns hm
      exact ⟨n, List.mem_cons_of_mem _ hn, h⟩

/-- A node of the trees is one that was there and did not give way, or one of a copy. -/
theorem inside (h : Becomes gives next ns ms) {e : Node} (he : e ∈ ms) (hm : m.Inside e) :
    (∃ d ∈ ns, ∃ n : Node, n.Inside d ∧ Kept gives next n m) ∨ next ≤ m.id ∧
      ∃ k trees, gives k = some trees ∧ ∃ t ∈ trees, ∃ d : Node, d.Inside t ∧ d.Resembles m := by
  induction hm generalizing ns ms with
  | self =>
    obtain ⟨n, hn, -, hkept | ⟨hnew, trees, hgives, t, ht, hsame⟩⟩ := h.mem he
    · exact .inl ⟨n, hn, n, .self n, hkept⟩
    · refine .inr ⟨hnew _ (Inside.self _).id_mem, n.id, trees, hgives, t, ht, t, .self t, ?_⟩
      exact (resembles_inRole t n.role).trans (resembles_of_unnumbered hsame)
  | within hc hm ih =>
    obtain ⟨n, hn, -, hkept | ⟨hnew, trees, hgives, t, ht, hsame⟩⟩ := h.mem he
    · obtain ⟨d, hd, n', hn', hkept'⟩ | hcopy := ih hkept.children hc
      · exact .inl ⟨n, hn, n', hn'.trans (.child hd), hkept'⟩
      · exact .inr hcopy
    · have hcopy : m.unnumbered.Inside (t.inRole n.role).unnumbered := hsame ▸ (hm.trans (.child hc)).unnumbered
      obtain ⟨d, hd, hsame'⟩ := hcopy.of_unnumbered
      have hresembles := resembles_of_unnumbered hsame'
      refine .inr ⟨hnew _ (hm.trans (.child hc)).id_mem, n.id, trees, hgives, t, ht, ?_⟩
      obtain rfl | hd := inside_inRole hd
      · exact ⟨t, .self t, (resembles_inRole t n.role).trans hresembles⟩
      · exact ⟨d, hd, hresembles⟩

/-- What stands around a node that is still there is still there. -/
theorem around (h : Becomes gives next ns ms) (hids : (identitiesAll ns).Nodup) (hk : k < next)
    (hmem : k ∈ identitiesAll ms) {d : Node} (hd : d ∈ ns) (hm : m.Inside d) (hkm : k ∈ m.identities) :
    m.id ∈ identitiesAll ms := by
  induction h generalizing d with
  | nil => cases hd
  | @kept i r f f' cs cs' ns ms hgives hform hcs hns ihcs ihns =>
    obtain ⟨hhead, hrest, hapart⟩ := List.nodup_append.mp hids
    obtain ⟨hi, hbelow⟩ := List.nodup_cons.mp hhead
    obtain rfl | hd := List.mem_cons.mp hd
    · cases hm with
      | self => exact List.mem_append_left _ List.mem_cons_self
      | within hc hm =>
        have hkcs : k ∈ identitiesAll cs := mem_identitiesAll.mpr ⟨_, hc, hm.identities_sublist.subset hkm⟩
        obtain hmem | hmem := List.mem_append.mp hmem
        · obtain rfl | hmem := List.mem_cons.mp hmem
          · exact absurd hkcs hi
          · exact List.mem_append_left _ (List.mem_cons_of_mem _ (ihcs hbelow hmem hc hm))
        · exact absurd rfl (hapart k (List.mem_cons_of_mem _ hkcs) k (hns.mem_of_mem hk hmem).1)
    · have hkns : k ∈ identitiesAll ns := mem_identitiesAll.mpr ⟨d, hd, hm.identities_sublist.subset hkm⟩
      obtain hmem | hmem := List.mem_append.mp hmem
      · refine absurd rfl (hapart k ?_ k hkns)
        obtain rfl | hmem := List.mem_cons.mp hmem
        · exact List.mem_cons_self
        · exact List.mem_cons_of_mem _ (hcs.mem_of_mem hk hmem).1
      · exact List.mem_append_right _ (ihns hrest hmem hd hm)
  | @given n trees es ns ms hgives hes hns ihns =>
    obtain ⟨hhead, hrest, hapart⟩ := List.nodup_append.mp hids
    rw [identitiesAll_append] at hmem ⊢
    obtain hmem | hmem := List.mem_append.mp hmem
    · exact absurd hk (Nat.not_lt.mpr (hes.identities k hmem))
    obtain rfl | hd := List.mem_cons.mp hd
    · exact absurd rfl (hapart k (hm.identities_sublist.subset hkm) k (hns.mem_of_mem hk hmem).1)
    · exact List.mem_append_right _ (ihns hrest hmem hd hm)

/-- Where no tree of a slot is left, all of them gave way to nothing. -/
theorem emptied (h : Becomes gives next ns ms) (hnone : ∀ m ∈ ms, m.role ≠ r) :
    ∀ n ∈ ns, n.role = r → gives n.id = some [] := by
  intro d hd hrole
  induction h with
  | nil => cases hd
  | @kept i r' f f' cs cs' ns ms hgives hform hcs hns ihcs ihns =>
    obtain rfl | hd := List.mem_cons.mp hd
    · exact absurd hrole (hnone (.mk i r' f' cs') List.mem_cons_self)
    · exact ihns (fun m hm => hnone m (List.mem_cons_of_mem _ hm)) hd
  | @given n trees es ns ms hgives hcopies hns ihns =>
    obtain rfl | hd := List.mem_cons.mp hd
    · cases es with
      | nil =>
        have hsame := hcopies.same
        rw [hgives, List.map_eq_nil_iff.mp hsame.symm]
      | cons e es =>
        refine absurd ?_ (hnone e List.mem_cons_self)
        cases htrees : trees with
        | nil => 
          have hsame := hcopies.same
          rw [htrees] at hsame
          cases hsame
        | cons t trees =>
          have hsame := hcopies.same
          rw [htrees] at hsame
          have hhead := (List.cons.inj hsame).1
          rw [← role_unnumbered e, hhead, role_unnumbered]
          cases t
          exact hrole
    · exact ihns (fun m hm => hnone m (List.mem_append_right _ hm)) hd

end Becomes

end Untangle.Node
