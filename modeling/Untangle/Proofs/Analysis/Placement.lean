import Untangle.Proofs.Analysis.Siblings
import Untangle.Proofs.Analysis.Usage
import Untangle.Proofs.Tree.Multiplicity

set_option autoImplicit false

/-!
# What stands in the slots of an edited tree

Certain slots declare, and to certain slots something is assigned.  When a child of a node gives way to
other nodes, whatever stands in such a slot afterwards stood there before, or it has come with the new nodes.
-/

namespace Untangle

/-! ## Slots of forms -/

namespace Form

/-- Forms with slots that declare or to which something is assigned. -/
def handsOut : Form → Bool
  | .variableDeclaration _ | .variableDeclarator => true
  | .functionDeclaration _ | .functionExpression _ | .arrowFunction _ => true
  | .classDeclaration | .classExpression | .catchClause => true
  | .assignment _ | .update _ _ | .forInStatement | .forOfStatement => true
  | _ => false

variable {f f' g g' : Form} {r : Role}

theorem WritesOut.trans {f'' : Form} (h : f.WritesOut f') (h' : f'.WritesOut f'') : f.WritesOut f'' := by
  cases h with
  | same => exact h'
  | property computed kind method shorthand =>
    cases h' with
    | same => exact .property ..
    | property => exact .property ..

theorem WritesOut.declaresAt_eq (h : f.WritesOut f') : f'.declaresAt r = f.declaresAt r := by
  cases h <;> rfl

theorem WritesOut.partsAt_eq (h : f.WritesOut f') : f'.partsAt r = f.partsAt r := by
  cases h <;> rfl

end Form

/-- Slots that do not depend on whether properties are written out, and of which only some forms have
any. -/
structure Enduring (At : Form → Role → Form → Prop) : Prop where
  writesOut : ∀ {f f' : Form} {r : Role} {c c' : Form}, f.WritesOut f' → c.WritesOut c' → At f' r c' →
    At f r c
  handsOut : ∀ {f : Form} {r : Role} {c : Form}, At f r c → f.handsOut = true

/-- What stands in such a slot of a part of a tree stands in one of the tree. -/
theorem Placed.trans {n m c : Node} {At : Form → Role → Form → Prop} (h : Placed m At c)
    (hm : m.Inside n) : Placed n At c := by
  induction h with
  | slot hn hc hat => exact .slot (hn.trans hm) hc hat
  | part _ hc hpart ih => exact .part ih hc hpart

/-- Whether all children in some slots, and all parts of patterns, pass a test. -/
def Node.passesAt (root : Node) (g : Form → Role → Bool) (P : Node → Bool) : Bool :=
  root.everywhere fun p => p.children.all fun c => !(g p.form c.role || p.form.partsAt c.role) || P c

/-- What holds of all children in some slots, and of all parts of patterns, holds of all that stands there. -/
theorem forall_placed {root n : Node} {g : Form → Role → Bool} {P : Node → Bool}
    (h : root.passesAt g P = true) (hn : Placed root (fun f r _ => g f r = true) n) : P n = true := by
  have hslot : ∀ {p c : Node}, p.Inside root → c ∈ p.children →
      (g p.form c.role = true ∨ p.form.partsAt c.role = true) → P c = true := by
    intro p c hp hc hat
    have hone := List.all_eq_true.mp (Node.everywhere_iff.mp h p hp) c hc
    simpa [Bool.or_eq_true_iff.mpr hat] using hone
  cases hn with
  | slot hp hc hat => exact hslot hp hc (.inl hat)
  | part hp hc hpart => exact hslot hp.inside hc (.inr hpart)

namespace Node

variable {n n' m c c' d d' e old : Node} {news ns : List Node} {r : Role} {w : Way} {s : Step}
  {At : Form → Role → Form → Prop}

/-! ## Trees that differ by a child -/

/-- One tree comes from another one by giving a child of a node away for others. -/
inductive Swaps (old : Node) (news : List Node) : Node → Node → Prop
  | here {n n' : Node} {before after : List Node} (hid : n'.id = n.id) (hrole : n'.role = n.role)
      (hform : n.form.WritesOut n'.form) (hold : n.children = before ++ old :: after)
      (hnew : n'.children = before ++ news.map (inRole old.role) ++ after) : Swaps old news n n'
  | deeper {n n' c c' : Node} {before after : List Node} (hid : n'.id = n.id) (hrole : n'.role = n.role)
      (hform : n'.form = n.form) (hold : n.children = before ++ c :: after)
      (hnew : n'.children = before ++ c' :: after) (h : Swaps old news c c') : Swaps old news n n'

/-- A change at the end of a way by which one child gives way. -/
theorem swaps_changeAt {f : Node → Node} (hkeeps : Keeps f)
    (hchildren : ∀ n, (f n).children = n.children) (hforms : ∀ n : Node, n.form.WritesOut (f n).form)
    (hdistinct : n.identities.Nodup) (hm : n.follow w = some m)
    (hold : m.children.find? s.leadsTo = some old) (news : List Node) :
    Swaps old news n (n.changeAt (fun m => f (m.replaceChild s news)) w) := by
  induction w generalizing n with
  | nil =>
    cases hm
    obtain ⟨before, after, hsplit, hlead, hbefore, hafter⟩ :=
      split_of_find? (nodup_identitiesAll hdistinct) hold
    have hrole : s.role = old.role := by
      simp only [Step.leadsTo, Bool.and_eq_true, beq_iff_eq] at hlead
      exact hlead.1.symm
    have hchanged := hkeeps.comp (keeps_replaceChild s news) m
    have hform := hforms (m.replaceChild s news)
    rw [show (m.replaceChild s news).form = m.form from form_withChildren _ _] at hform
    refine .here hchanged.1 hchanged.2 hform hsplit ?_
    · rw [changeAt_nil, hchildren, replaceChild, children_withChildren, hsplit, List.flatMap_append,
        List.flatMap_cons, if_pos hlead, flatMap_of_not_leadsTo (f := fun _ => _) hbefore,
        flatMap_of_not_leadsTo (f := fun _ => _) hafter, hrole, List.append_assoc]
  | cons t w ih =>
    rw [follow_cons_eq] at hm
    obtain ⟨c, hc, hm⟩ := Option.bind_eq_some_iff.mp hm
    obtain ⟨before, after, hsplit, hlead, hbefore, hafter⟩ :=
      split_of_find? (nodup_identitiesAll hdistinct) hc
    have hbelow := nodup_of_mem (nodup_identitiesAll hdistinct)
      (hsplit ▸ List.mem_append_right before List.mem_cons_self)
    have hrole : (n.changeAt (fun m => f (m.replaceChild s news)) (t :: w)).role = n.role := by
      cases n
      rfl
    have hchildren : (n.changeAt (fun m => f (m.replaceChild s news)) (t :: w)).children =
        before ++ c.changeAt (fun m => f (m.replaceChild s news)) w :: after := by
      show (n.withChildren _).children = _
      rw [children_withChildren, hsplit, List.map_append, List.map_cons, if_pos hlead,
        map_of_not_leadsTo hbefore, map_of_not_leadsTo hafter]
    exact .deeper (id_withChildren _ _) hrole (form_withChildren _ _) hsplit hchildren (ih hbelow hm)

/-- A node has the form of another one, flags apart, and no children in slots in which that has none. -/
structure Resembles (c c' : Node) : Prop where
  form : c.form.WritesOut c'.form
  roles : ∀ d' ∈ c'.children, ∃ d ∈ c.children, d.role = d'.role

theorem Resembles.refl (c : Node) : c.Resembles c := ⟨.same _, fun d hd => ⟨d, hd, rfl⟩⟩

theorem Resembles.trans {c'' : Node} (h : c.Resembles c') (h' : c'.Resembles c'') :
    c.Resembles c'' := by
  refine ⟨h.form.trans h'.form, fun d'' hd'' => ?_⟩
  obtain ⟨d', hd', hrole'⟩ := h'.roles d'' hd''
  obtain ⟨d, hd, hrole⟩ := h.roles d' hd'
  exact ⟨d, hd, hrole.trans hrole'⟩

namespace Swaps

theorem kept (h : Swaps old news n n') : n'.id = n.id ∧ n'.role = n.role := by
  cases h with
  | here hid hrole => exact ⟨hid, hrole⟩
  | deeper hid hrole => exact ⟨hid, hrole⟩

theorem resembles (h : Swaps old news n n') : n.Resembles n' := by
  cases h with
  | here hid hrole hform hold hnew =>
    refine ⟨hform, fun d hd => ?_⟩
    rw [hnew, List.append_assoc, List.mem_append, List.mem_append] at hd
    rw [hold]
    obtain hd | hd | hd := hd
    · exact ⟨d, List.mem_append_left _ hd, rfl⟩
    · obtain ⟨e, -, rfl⟩ := List.mem_map.mp hd
      exact ⟨old, List.mem_append_right _ List.mem_cons_self, (role_inRole e _).symm⟩
    · exact ⟨d, List.mem_append_right _ (List.mem_cons_of_mem _ hd), rfl⟩
  | @deeper n n' c c' before after hid hrole hform hold hnew h =>
    refine ⟨hform ▸ .same _, fun d hd => ?_⟩
    rw [hnew, List.mem_append, List.mem_cons] at hd
    rw [hold]
    obtain hd | rfl | hd := hd
    · exact ⟨d, List.mem_append_left _ hd, rfl⟩
    · exact ⟨c, List.mem_append_right _ List.mem_cons_self, h.kept.2.symm⟩
    · exact ⟨d, List.mem_append_right _ (List.mem_cons_of_mem _ hd), rfl⟩

/-- The children of a node in which a child gave way, somewhere below: new nodes, nodes as they were, and one
that was changed. -/
theorem child (h : Swaps old news n n') (hc : c' ∈ n'.children) :
    (∃ e ∈ news, c' = e.inRole old.role ∧ old ∈ n.children) ∨ c' ∈ n.children ∨
      ∃ c ∈ n.children, Swaps old news c c' := by
  cases h with
  | here hid hrole hform hold hnew =>
    rw [hnew, List.append_assoc, List.mem_append, List.mem_append] at hc
    rw [hold]
    obtain hc | hc | hc := hc
    · exact .inr (.inl (List.mem_append_left _ hc))
    · obtain ⟨e, he, rfl⟩ := List.mem_map.mp hc
      exact .inl ⟨e, he, rfl, List.mem_append_right _ List.mem_cons_self⟩
    · exact .inr (.inl (List.mem_append_right _ (List.mem_cons_of_mem _ hc)))
  | @deeper n n' c d' before after hid hrole hform hold hnew h =>
    rw [hnew, List.mem_append, List.mem_cons] at hc
    rw [hold]
    obtain hc | rfl | hc := hc
    · exact .inr (.inl (List.mem_append_left _ hc))
    · exact .inr (.inr ⟨c, List.mem_append_right _ List.mem_cons_self, h⟩)
    · exact .inr (.inl (List.mem_append_right _ (List.mem_cons_of_mem _ hc)))

/-- The node of which a child gave way. -/
theorem parent (h : Swaps old news n n') : ∃ p p' : Node, p.Inside n ∧ p'.Inside n' ∧ old ∈ p.children ∧
    p'.id = p.id ∧ p.form.WritesOut p'.form ∧ ∀ e ∈ news, e.inRole old.role ∈ p'.children := by
  induction h with
  | @here n n' before after hid hrole hform hold hnew =>
    refine ⟨n, n', .self n, .self n', ?_, hid, hform, fun e he => ?_⟩
    · rw [hold]
      exact List.mem_append_right _ List.mem_cons_self
    · rw [hnew, List.append_assoc]
      exact List.mem_append_right _ (List.mem_append_left _ (List.mem_map_of_mem he))
  | @deeper n n' c c' before after hid hrole hform hold hnew h ih =>
    obtain ⟨p, p', hp, hp', hrest⟩ := ih
    refine ⟨p, p', .within ?_ hp, .within ?_ hp', hrest⟩
    · rw [hold]
      exact List.mem_append_right _ List.mem_cons_self
    · rw [hnew]
      exact List.mem_append_right _ List.mem_cons_self

/-- What stands in the tree afterwards: new nodes with what is inside of them, nodes as they were, and those
around the change. -/
theorem inside (h : Swaps old news n n') (hd : d'.Inside n') :
    (∃ e ∈ news, d'.Inside (e.inRole old.role)) ∨ d'.Inside n ∨ ∃ d, d.Inside n ∧ Swaps old news d d' := by
  induction hd generalizing n with
  | self => exact .inr (.inr ⟨n, .self n, h⟩)
  | within hc hd ih =>
    obtain ⟨e, he, rfl, -⟩ | hc | ⟨c, hc, hswaps⟩ := h.child hc
    · exact .inl ⟨e, he, hd⟩
    · exact .inr (.inl (.within hc hd))
    · obtain hnew | hsame | ⟨d, hd, hswaps⟩ := ih hswaps
      · exact .inl hnew
      · exact .inr (.inl (.within hc hsame))
      · exact .inr (.inr ⟨d, .within hc hd, hswaps⟩)

end Swaps

/-! ## Slots of a kind -/

/-- In which slot a tree stands does not matter for what is inside of it. -/
theorem placed_inRole (h : Placed (e.inRole r) At c) : Placed e At c := by
  induction h with
  | slot hn hc hat =>
    obtain rfl | hn := inside_inRole hn
    · cases e
      exact .slot (.self _) hc hat
    · exact .slot hn hc hat
  | part _ hc hpart ih => exact .part ih hc hpart

/-- What stands in such a slot of a new node stands in one inside of its parts. -/
theorem placed_make (hAt : Enduring At) {f : Form} (hf : f.handsOut = false) (h : Placed (make f ns) At c) :
    ∃ d ∈ ns, Placed d At c := by
  induction h with
  | slot hn hc hat =>
    cases hn with
    | self =>
      rw [show (make f ns).form = f from rfl] at hat
      rw [hAt.handsOut hat] at hf
      cases hf
    | within hd hn => exact ⟨_, hd, .slot hn hc hat⟩
  | part _ hc hpart ih =>
    obtain ⟨d, hd, hn⟩ := ih
    exact ⟨d, hd, .part hn hc hpart⟩

/-- A node would stand in a slot of a kind if it stood in the place of another one. -/
def Takes (At : Form → Role → Form → Prop) (n old e : Node) : Prop :=
  ∃ p : Node, p.Inside n ∧ old ∈ p.children ∧
    (At p.form old.role e.form ∨ Placed n At p ∧ p.form.partsAt old.role = true)

/-- What stands in a slot of a kind after a child gave way: nodes inside of the new ones, the new ones
themselves, and what stood there before. -/
theorem Swaps.placed (hAt : Enduring At) (h : Swaps old news n n')
    (hparts : ∀ e ∈ news, Takes At n old e → ∀ r, e.form.partsAt r = false) (hc : Placed n' At c') :
    (∃ e ∈ news, Placed e At c') ∨ (∃ e ∈ news, c' = e.inRole old.role ∧ Takes At n old e) ∨
      ∃ c, Placed n At c ∧ (c' = c ∨ Swaps old news c c') := by
  induction hc with
  | @slot m' c' hm hc hat =>
    obtain ⟨e, he, hm⟩ | hm | ⟨m, hm, hswaps⟩ := h.inside hm
    · exact .inl ⟨e, he, placed_inRole (.slot hm hc hat)⟩
    · exact .inr (.inr ⟨c', .slot hm hc hat, .inl rfl⟩)
    · have hform := hswaps.resembles.form
      obtain ⟨e, he, rfl, hold⟩ | hc | ⟨c, hc, hbelow⟩ := hswaps.child hc
      · rw [role_inRole, form_inRole] at hat
        exact .inr (.inl ⟨e, he, rfl, m, hm, hold, .inl (hAt.writesOut hform (.same _) hat)⟩)
      · exact .inr (.inr ⟨c', .slot hm hc (hAt.writesOut hform (.same _) hat), .inl rfl⟩)
      · rw [hbelow.kept.2] at hat
        exact .inr (.inr ⟨c, .slot hm hc (hAt.writesOut hform hbelow.resembles.form hat), .inr hbelow⟩)
  | @part m' c' hm hc hpart ih =>
    obtain ⟨e, he, hm⟩ | ⟨e, he, rfl, htakes⟩ | ⟨m, hm, rfl | hswaps⟩ := ih
    · exact .inl ⟨e, he, .part hm hc hpart⟩
    · rw [form_inRole, hparts e he htakes] at hpart
      cases hpart
    · exact .inr (.inr ⟨c', .part hm hc hpart, .inl rfl⟩)
    · rw [hswaps.resembles.form.partsAt_eq] at hpart
      obtain ⟨e, he, rfl, hold⟩ | hc | ⟨c, hc, hbelow⟩ := hswaps.child hc
      · rw [role_inRole] at hpart
        exact .inr (.inl ⟨e, he, rfl, m, hm.inside, hold, .inr ⟨hm, hpart⟩⟩)
      · exact .inr (.inr ⟨c', .part hm hc hpart, .inl rfl⟩)
      · rw [hbelow.kept.2] at hpart
        exact .inr (.inr ⟨c, .part hm hc hpart, .inr hbelow⟩)

/-- What stands in a slot stands below the root. -/
theorem mem_identitiesAll_of_placed (h : Placed n At c) : c.id ∈ identitiesAll n.children := by
  have hbelow : ∀ {p c : Node}, p.Inside n → c ∈ p.children → c.id ∈ identitiesAll n.children := by
    intro p c hp hc
    cases hp with
    | self => exact mem_identitiesAll.mpr ⟨c, hc, (Inside.self c).id_mem⟩
    | within hd hp =>
      exact mem_identitiesAll.mpr ⟨_, hd, ((Inside.child hc).trans hp).id_mem⟩
  cases h with
  | slot hp hc _ => exact hbelow hp hc
  | part hp hc _ => exact hbelow hp.inside hc

/-- Every other node of a tree is the child of one. -/
theorem Inside.exists_parent (h : d.Inside n) (hne : d ≠ n) : ∃ p : Node, p.Inside n ∧ d ∈ p.children := by
  induction h with
  | self => exact absurd rfl hne
  | @within c n hc h ih =>
    by_cases hsame : d = c
    · exact ⟨n, .self n, hsame ▸ hc⟩
    · obtain ⟨p, hp, hd⟩ := ih hsame
      exact ⟨p, .within hc hp, hd⟩

/-- What stands in such a slot below a node stands in one of the node, unless the node does so itself. -/
theorem placed_within (hids : n.identities.Nodup) (h : Placed n At c) (hc : c.Inside e) (he : e.Inside n) :
    Placed e At c ∨ Placed n At e := by
  -- A node strictly below another one has its parent there.
  have hparent : ∀ {p c : Node}, p.Inside n → c ∈ p.children → c.Inside e → c ≠ e → p.Inside e := by
    intro p c hp hc hin hne
    obtain ⟨p', hp', hc'⟩ := hin.exists_parent hne
    exact Inside.parent_unique hids hp (hp'.trans he) hc hc' ▸ hp'
  induction h with
  | @slot p c hp hmem hat =>
    by_cases hsame : c = e
    · exact .inr (hsame ▸ .slot hp hmem hat)
    · exact .inl (.slot (hparent hp hmem hc hsame) hmem hat)
  | @part p c hp hmem hpart ih =>
    by_cases hsame : c = e
    · exact .inr (hsame ▸ .part hp hmem hpart)
    · exact (ih (hparent hp.inside hmem hc hsame)).imp_left fun hp' => .part hp' hmem hpart

/-! ## New nodes -/

theorem exists_of_mem_adoptAll {next : NodeId} (h : c' ∈ (adoptAll ns next).1) :
    ∃ c ∈ ns, ∃ k, next ≤ k ∧ c' = (c.adopt k).1 := by
  induction ns generalizing next with
  | nil => cases h
  | cons c ns ih =>
    obtain rfl | h := List.mem_cons.mp h
    · exact ⟨c, List.mem_cons_self, next, Nat.le_refl _, rfl⟩
    · obtain ⟨d, hd, k, hk, rfl⟩ := ih h
      exact ⟨d, List.mem_cons_of_mem _ hd, k, Nat.le_trans (le_adoptAll [c] next) hk, rfl⟩

theorem exists_of_mem_adopt {next : NodeId} (h : c' ∈ (n.adopt next).1.children) :
    ∃ c ∈ n.children, ∃ k, next ≤ k ∧ c' = (c.adopt k).1 := by
  cases n with
  | mk i r f cs =>
    unfold adopt at h
    split at h
    · obtain ⟨c, hc, k, hk, rfl⟩ := exists_of_mem_adoptAll h
      exact ⟨c, hc, k, Nat.le_of_succ_le hk, rfl⟩
    · exact exists_of_mem_adoptAll h

theorem inside_adopt {next : NodeId} (h : d'.Inside (n.adopt next).1) :
    ∃ (d : Node) (k : NodeId), d.Inside n ∧ next ≤ k ∧ d' = (d.adopt k).1 := by
  generalize hn : (n.adopt next).1 = n' at h
  induction h generalizing n next with
  | self => exact ⟨n, next, .self n, Nat.le_refl _, hn.symm⟩
  | within hc _ ih =>
    subst hn
    obtain ⟨c, hmem, k, hk, rfl⟩ := exists_of_mem_adopt hc
    obtain ⟨d, k', hd, hk', rfl⟩ := ih rfl
    exact ⟨d, k', .within hmem hd, Nat.le_trans hk hk', rfl⟩

theorem placed_adopt {next : NodeId} (h : Placed (n.adopt next).1 At c') :
    ∃ c k, Placed n At c ∧ next ≤ k ∧ c' = (c.adopt k).1 := by
  induction h with
  | slot hm hc hat =>
    obtain ⟨m, k, hin, hk, rfl⟩ := inside_adopt hm
    obtain ⟨c, hmem, k', hk', rfl⟩ := exists_of_mem_adopt hc
    rw [form_adopt, form_adopt, role_adopt] at hat
    exact ⟨c, k', .slot hin hmem hat, Nat.le_trans hk hk', rfl⟩
  | part _ hc hpart ih =>
    obtain ⟨m, k, hplaced, hk, rfl⟩ := ih
    obtain ⟨c, hmem, k', hk', rfl⟩ := exists_of_mem_adopt hc
    rw [form_adopt, role_adopt] at hpart
    exact ⟨c, k', .part hplaced hmem hpart, Nat.le_trans hk hk', rfl⟩

theorem placed_unnumbered (h : Placed n.unnumbered At c') : ∃ c, Placed n At c ∧ c' = c.unnumbered := by
  have hchild : ∀ {m c' : Node}, c' ∈ m.unnumbered.children → ∃ c ∈ m.children, c' = c.unnumbered := by
    intro m c' hc
    rw [children_unnumbered] at hc
    obtain ⟨c, hmem, rfl⟩ := List.mem_map.mp hc
    exact ⟨c, hmem, rfl⟩
  induction h with
  | slot hm hc hat =>
    obtain ⟨m, hin, rfl⟩ := hm.of_unnumbered
    obtain ⟨c, hmem, rfl⟩ := hchild hc
    rw [form_unnumbered, form_unnumbered, role_unnumbered] at hat
    exact ⟨c, .slot hin hmem hat, rfl⟩
  | part _ hc hpart ih =>
    obtain ⟨m, hplaced, rfl⟩ := ih
    obtain ⟨c, hmem, rfl⟩ := hchild hc
    rw [form_unnumbered, role_unnumbered] at hpart
    exact ⟨c, .part hplaced hmem hpart, rfl⟩

/-- What is adopted is a copy of what it was. -/
theorem unnumbered_adopt (n : Node) (next : NodeId) : (n.adopt next).1.unnumbered = n.unnumbered := by
  refine Node.rec (motive_1 := fun n => ∀ next, (n.adopt next).1.unnumbered = n.unnumbered)
    (motive_2 := fun ns => ∀ next, unnumberedAll (adoptAll ns next).1 = unnumberedAll ns) ?_
    (fun _ => rfl) ?_ n next
  · intro i r f cs ih next
    unfold adopt
    split
    · exact congrArg (mk 0 r f) (ih (next + 1))
    · exact congrArg (mk 0 r f) (ih next)
  · intro c cs ihc ihcs next
    exact congrArg₂ List.cons (ihc next) (ihcs _)

theorem id_adopt (n : Node) (next : NodeId) :
    n.id ≠ 0 ∧ (n.adopt next).1.id = n.id ∨ n.id = 0 ∧ (n.adopt next).1.id = next := by
  by_cases h : n.id = 0
  · exact .inr ⟨h, (adopt_of_unnumbered h next).1⟩
  · refine .inl ⟨h, ?_⟩
    cases n with
    | mk i r f cs =>
      have hzero : (i == 0) = false := beq_eq_false_iff_ne.mpr h
      unfold adopt
      rw [hzero]
      rfl

theorem resembles_of_unnumbered (h : c'.unnumbered = c.unnumbered) : c.Resembles c' := by
  have hform : c'.form = c.form := by rw [← form_unnumbered, h, form_unnumbered]
  refine ⟨hform ▸ .same _, fun d' hd' => ?_⟩
  have hmem : d'.unnumbered ∈ c.unnumbered.children := by
    rw [← h, children_unnumbered]
    exact List.mem_map_of_mem hd'
  rw [children_unnumbered] at hmem
  obtain ⟨d, hd, hsame⟩ := List.mem_map.mp hmem
  refine ⟨d, hd, ?_⟩
  rw [← role_unnumbered, hsame, role_unnumbered]

/-- Whatever stands in slots of a kind inside of a tree stands in such slots inside of another tree, or is a
copy of what does, with a new identity. -/
def Salvages (At : Form → Role → Form → Prop) (isNew : NodeId → Prop) (n e : Node) : Prop :=
  ∀ c, Placed e At c → ∃ d, Placed n At d ∧ c.unnumbered = d.unnumbered ∧ (c.id = d.id ∨ isNew c.id)

variable {isNew : NodeId → Prop}

theorem salvages_of_inside (h : e.Inside n) : Salvages At isNew n e :=
  fun c hc => ⟨c, hc.trans h, rfl, .inl rfl⟩

theorem salvages_copy (h : e.Inside n) : Salvages At (· = 0) n e.unnumbered := by
  intro c hc
  obtain ⟨d, hd, rfl⟩ := placed_unnumbered hc
  refine ⟨d, hd.trans h, unnumbered_unnumbered d, .inr ?_⟩
  cases d
  rfl

theorem Salvages.inRole (h : Salvages At isNew n e) (r : Role) : Salvages At isNew n (e.inRole r) :=
  fun c hc => h c (placed_inRole hc)

theorem salvages_make (hAt : Enduring At) {f : Form} (hf : f.handsOut = false)
    (h : ∀ d ∈ ns, Salvages At isNew n d) : Salvages At isNew n (make f ns) := by
  intro c hc
  obtain ⟨d, hd, hc⟩ := placed_make hAt hf hc
  exact h d hd c hc

theorem salvages_leaf (hAt : Enduring At) {f : Form} (hf : f.handsOut = false) :
    Salvages At isNew n (leaf f) :=
  salvages_make hAt hf fun d hd => by cases hd

/-- What is adopted gets new identities, if any. -/
theorem Salvages.adopt (h : Salvages At (· = 0) n e) (next : NodeId) :
    Salvages At (next ≤ ·) n (e.adopt next).1 := by
  intro c' hc
  obtain ⟨c, k, hplaced, hk, rfl⟩ := placed_adopt hc
  obtain ⟨d, hd, hsame, hid⟩ := h c hplaced
  refine ⟨d, hd, (unnumbered_adopt c k).trans hsame, ?_⟩
  obtain ⟨hpos, hkept⟩ | ⟨hzero, hnew⟩ := id_adopt c k
  · exact .inl (hkept.trans (hid.resolve_right hpos))
  · exact .inr (hnew.symm ▸ hk)

theorem Salvages.of_mem_adoptAll (h : ∀ e ∈ ns, Salvages At (· = 0) n e) {next : NodeId}
    (he : e ∈ (adoptAll ns next).1) : Salvages At (next ≤ ·) n e := by
  obtain ⟨d, hd, k, hk, rfl⟩ := exists_of_mem_adoptAll he
  intro c hc
  obtain ⟨m, hm, hsame, hid⟩ := (h d hd).adopt k c hc
  exact ⟨m, hm, hsame, hid.imp_right (Nat.le_trans hk)⟩

end Node

end Untangle
