import Mathlib.Data.List.Forall2
import Untangle.Proofs.Analysis.Siblings
import Untangle.Proofs.Analysis.Visit

set_option autoImplicit false

/-!
# Visits of all children

What a visit makes of every child of a node is what the node has for children when the tour has gone through
its slots.  An element of a list is found by the number of elements from it to the end, and a visit leaves
the elements behind it as they are, so that none is left out and none comes twice.  A tour that fails does so
at the first child whose visit fails, in the order of the slots.
-/

namespace Untangle

theorem Form.nodup_slots (f : Form) : (f.slots.map Slot.role).Nodup := by
  cases f <;> simp [slots, single, many]

/-- No list of nodes stands in the slot for the value of a property. -/
theorem Form.replacedAt_of_listed {f : Form} {s : Slot} (hs : s ∈ f.slots) (hlisted : s.listed = true) :
    f.replacedAt s.role = f := by
  by_cases hrole : s.role = .value
  · rw [hrole]
    cases f with
    | property =>
      simp only [slots, single, List.mem_cons, List.not_mem_nil, or_false] at hs
      rcases hs with rfl | rfl <;> cases hlisted
    | _ => rfl
  · exact replacedAt_of_ne hrole f

namespace Node

variable {n n' c c' : Node} {r : Role} {front back before after : List Node}

/-- The children around an element of a slot, and what the slot has of them. -/
theorem exists_around (h : n.childrenAt r = front ++ c :: back) :
    ∃ before after, n.children = before ++ c :: after ∧
      before.filter (fun d => d.role == r) = front ∧ after.filter (fun d => d.role == r) = back := by
  unfold childrenAt at h
  obtain ⟨before, rest, hchildren, hfront, hrest⟩ := List.filter_eq_append_iff.mp h
  obtain ⟨between, after, hsplit, hnone, -, hback⟩ := List.filter_eq_cons_iff.mp hrest
  refine ⟨before ++ between, after, by rw [hchildren, hsplit, List.append_assoc], ?_, hback⟩
  rw [List.filter_append, hfront, List.filter_eq_nil_iff.mpr fun d hd => by simpa using hnone d hd,
    List.append_nil]

theorem childrenAt_around (h : n.children = before ++ c :: after) (r : Role) :
    n.childrenAt r = before.filter (fun d => d.role == r) ++
      ((if c.role == r then [c] else []) ++ after.filter fun d => d.role == r) := by
  unfold childrenAt
  rw [h, List.filter_append, List.filter_cons]
  split <;> rfl

end Node

/-! ## Lists of children that change -/

/-- Two relations between lists, one after the other. -/
theorem forall₂_trans {α β γ : Type} {R : α → β → Prop} {S : β → γ → Prop} {T : α → γ → Prop}
    {xs : List α} {ys : List β} {zs : List γ} (h : List.Forall₂ R xs ys) (h' : List.Forall₂ S ys zs)
    (htrans : ∀ x y z, R x y → S y z → T x z) : List.Forall₂ T xs zs := by
  induction h generalizing zs with
  | nil =>
    cases h'
    exact .nil
  | cons hxy _ ih =>
    cases h' with
    | cons hyz hrest => exact .cons (htrans _ _ _ hxy hyz) (ih hrest)

/-- A relation between lists for the elements that there are. -/
theorem forall₂_of_mem {α β : Type} {R S : α → β → Prop} {xs : List α} {ys : List β}
    (h : List.Forall₂ R xs ys) (himp : ∀ x ∈ xs, ∀ y, R x y → S x y) : List.Forall₂ S xs ys := by
  induction h with
  | nil => exact .nil
  | @cons x y xs ys hxy _ ih =>
    exact .cons (himp x List.mem_cons_self y hxy) (ih fun z hz => himp z (List.mem_cons_of_mem x hz))

/-- A relation between lists that are alike around one element. -/
theorem forall₂_around {α : Type} {R : α → α → Prop} {before after : List α} {x y : α}
    (hothers : ∀ z ∈ before ++ after, R z z) (hxy : R x y) :
    List.Forall₂ R (before ++ x :: after) (before ++ y :: after) :=
  List.rel_append (List.forall₂_same.mpr fun z hz => hothers z (List.mem_append_left _ hz))
    (.cons hxy (List.forall₂_same.mpr fun z hz => hothers z (List.mem_append_right _ hz)))

/-- What is related to the elements around one element. -/
theorem forall₂_split {α β : Type} {R : α → β → Prop} {before after : List α} {x : α} {zs : List β}
    (h : List.Forall₂ R (before ++ x :: after) zs) :
    ∃ before' y after', zs = before' ++ y :: after' ∧ List.Forall₂ R before before' ∧ R x y ∧
      List.Forall₂ R after after' := by
  induction before generalizing zs with
  | nil =>
    obtain ⟨y, after', hxy, hafter, rfl⟩ := List.forall₂_cons_left_iff.mp h
    exact ⟨[], y, after', rfl, .nil, hxy, hafter⟩
  | cons z before ih =>
    obtain ⟨w, rest, hzw, hrest, rfl⟩ := List.forall₂_cons_left_iff.mp h
    obtain ⟨before', y, after', rfl, hbefore, hxy, hafter⟩ := ih hrest
    exact ⟨w :: before', y, after', rfl, .cons hzw hbefore, hxy, hafter⟩

namespace Node

/-- A node in the place of another one: the node itself, changed below, or one that was not there. -/
structure Renewed (bound : NodeId) (c c' : Node) : Prop where
  role : c'.role = c.role
  id : c'.id = c.id ∨ bound ≤ c'.id

/-- Whether a value is not the one any more that stood there. -/
def valueGone (cs cs' : List Node) : Bool :=
  (cs.zip cs').any fun p => p.1.role == .value && p.2.id != p.1.id

variable {bound bound' : NodeId} {cs cs' cs'' : List Node}

theorem valueGone_self (cs : List Node) : valueGone cs cs = false := by
  induction cs with
  | nil => rfl
  | cons c cs ih =>
    have hcons : valueGone (c :: cs) (c :: cs) =
        ((c.role == .value && c.id != c.id) || valueGone cs cs) := rfl
    simp [hcons, ih]

/-- One node of many gives way. -/
theorem valueGone_around (before after : List Node) (c c' : Node) :
    valueGone (before ++ c :: after) (before ++ c' :: after) = valueGone [c] [c'] := by
  induction before with
  | nil =>
    have hcons : valueGone (c :: after) (c' :: after) =
        ((c.role == .value && c'.id != c.id) || valueGone after after) := rfl
    have hone : valueGone [c] [c'] = ((c.role == .value && c'.id != c.id) || false) := rfl
    rw [List.nil_append, List.nil_append, hcons, hone, valueGone_self]
  | cons d before ih =>
    have hcons : valueGone (d :: before ++ c :: after) (d :: before ++ c' :: after) =
        ((d.role == .value && d.id != d.id) ||
          valueGone (before ++ c :: after) (before ++ c' :: after)) := rfl
    rw [hcons, ih]
    simp

/-- What gave way does not come back. -/
theorem valueGone_trans (hlow : ∀ c ∈ cs, c.id < bound) (hbound : bound ≤ bound')
    (h : List.Forall₂ (Renewed bound) cs cs') (h' : List.Forall₂ (Renewed bound') cs' cs'') :
    valueGone cs cs'' = (valueGone cs cs' || valueGone cs' cs'') := by
  induction h generalizing cs'' with
  | nil =>
    cases h'
    rfl
  | @cons c c' cs cs' hc _ ih =>
    obtain ⟨c'', cs'', hc', hrest, rfl⟩ := List.forall₂_cons_left_iff.mp h'
    have hlt := hlow c List.mem_cons_self
    have hgone : (c''.id != c.id) = (c'.id != c.id || c''.id != c'.id) := by
      rcases hc.id with hid | hid
      · simp [hid]
      · have hne' : c'.id ≠ c.id := Nat.ne_of_gt (Nat.lt_of_lt_of_le hlt hid)
        have hne : c''.id ≠ c.id := by
          rcases hc'.id with hid' | hid'
          · rw [hid']
            exact hne'
          · exact Nat.ne_of_gt (Nat.lt_of_lt_of_le hlt (Nat.le_trans hbound hid'))
        rw [bne_iff_ne.mpr hne, bne_iff_ne.mpr hne', Bool.true_or]
    have hcons : ∀ (x y : Node) (xs ys : List Node), valueGone (x :: xs) (y :: ys) =
        ((x.role == .value && y.id != x.id) || valueGone xs ys) := fun _ _ _ _ => rfl
    rw [hcons, hcons, hcons, ih (fun d hd => hlow d (List.mem_cons_of_mem c hd)) hrest, hgone, hc.role]
    cases c.role == Role.value <;> cases c'.id != c.id <;> cases c''.id != c'.id <;> simp

end Node

/-- The form of a node some of whose children gave way. -/
def Form.after (f : Form) (cs cs' : List Node) : Form :=
  if Node.valueGone cs cs' then f.replacedAt .value else f

theorem Form.recast_after (f : Form) (cs cs' : List Node) : f.Recast (f.after cs cs') := by
  unfold after
  split
  · exact f.recast_replacedAt .value
  · exact .same f

theorem Form.replacedAt_value_idem (f : Form) :
    (f.replacedAt .value).replacedAt .value = f.replacedAt .value := by
  cases f <;> rfl

/-- A form that does not change on a replacement does not do so after another one. -/
theorem Form.replacedAt_after {f : Form} {r : Role} (h : f.replacedAt r = f) (cs cs' : List Node) :
    (f.after cs cs').replacedAt r = f.after cs cs' := by
  unfold after
  split
  · by_cases hr : r = .value
    · rw [hr, replacedAt_value_idem]
    · exact replacedAt_of_ne hr _
  · exact h

namespace TourM

open Analysis
open Node (Renewed valueGone)

variable {ε σ : Type} {v : Visitor ε σ} {bound : NodeId} {Q : Node → Prop} {err : ε → Prop}
  {a a' a'' : Analysis} {i j : SiteId} {n n' n'' c c' : Node} {before after front back : List Node}
  {t : Tour σ}

/-! ## Nodes whose children are visited -/

/-- A node at a site whose children have different identities. -/
structure Tended (a : Analysis) (i : SiteId) (n : Node) : Prop where
  stands : Stands a i n
  distinct : (n.children.map Node.id).Nodup
  numbered : ∀ c ∈ n.children, c.id < a.next

/-- A node some of whose children were visited. -/
structure Progress (a a' : Analysis) (i : SiteId) (n n' : Node) : Prop where
  tended : Tended a' i n'
  alters : Alters a a' i n n'
  renewed : List.Forall₂ (Renewed a.next) n.children n'.children
  form : n'.form = n.form.after n.children n'.children
  next : a.next ≤ a'.next

theorem Progress.recast (h : Progress a a' i n n') : n.form.Recast n'.form :=
  h.form ▸ n.form.recast_after _ _

theorem Progress.refl (h : Tended a i n) : Progress a a i n n := by
  refine ⟨h, (Extends.refl a).alters i n, List.forall₂_same.mpr fun c _ => ⟨rfl, .inl rfl⟩, ?_,
    Nat.le_refl _⟩
  rw [Form.after, Node.valueGone_self]
  rfl

theorem Progress.trans (hn : Tended a i n) (h : Progress a a' i n n') (h' : Progress a' a'' i n' n'') :
    Progress a a'' i n n'' := by
  refine ⟨h'.tended, h.alters.trans hn.stands.known h'.alters, ?_, ?_, Nat.le_trans h.next h'.next⟩
  · refine forall₂_trans h.renewed h'.renewed fun c c' c'' hc hc' => ⟨hc'.role.trans hc.role, ?_⟩
    rcases hc'.id with heq | hnew
    · rw [heq]
      exact hc.id
    · exact .inr (Nat.le_trans h.next hnew)
  · have hgone := Node.valueGone_trans hn.numbered h.next h.renewed h'.renewed
    rw [h'.form, h.form, Form.after, Form.after, Form.after, hgone]
    cases valueGone n.children n'.children <;> cases valueGone n'.children n''.children <;>
      simp [Form.replacedAt_value_idem]

theorem Tended.apart (h : Tended a i n) (hc : n.children = before ++ c :: after) :
    ∀ d ∈ before ++ after, d.id ≠ c.id := by
  have hdistinct := h.distinct
  rw [hc, List.map_append, List.map_cons, List.nodup_middle, List.nodup_cons, ← List.map_append]
    at hdistinct
  exact fun d hd heq => hdistinct.1 (List.mem_map.mpr ⟨d, hd, heq⟩)

/-- What a visit at the site of a child made of the child and of the node above. -/
structure Swept (Q : Node → Prop) (a a' : Analysis) (j i : SiteId) (n c : Node)
    (before after : List Node) (n' c' : Node) : Prop where
  done : Q c'
  role : c'.role = c.role
  id : c'.id = c.id ∨ a.next ≤ c'.id ∧ c'.id < a'.next
  next : a.next ≤ a'.next
  shifts : Shifts a a' j i n n'
  children : n'.children = before ++ c' :: after
  form : n'.form = n.form.after [c] [c']

theorem Swept.imp {Q' : Node → Prop} (h : Swept Q a a' j i n c before after n' c')
    (himp : ∀ d, Q d → Q' d) : Swept Q' a a' j i n c before after n' c' :=
  ⟨himp c' h.done, h.role, h.id, h.next, h.shifts, h.children, h.form⟩

/-- A change of what stands below a child leaves the child where it is. -/
theorem swept_of_alters {p : SiteId} {parent : Node} (hn : Among a i p parent n before after)
    (halters : Alters a a' i n n') (hnext : a.next ≤ a'.next) (hdone : Q n') :
    Swept Q a a' i p parent n before after (parent.withChildren (before ++ n' :: after)) n' := by
  have hkept : n'.id = n.id ∧ n'.role = n.role := by
    obtain ⟨g, hkeeps, rfl, -⟩ := halters.program
    exact hkeeps n
  refine ⟨hdone, hkept.2, .inl hkept.1, hnext, (hn.alters halters).shifts i,
    Node.children_withChildren _ _, ?_⟩
  rw [Node.form_withChildren]
  simp [Form.after, valueGone, hkept.1]

/-- What was made of a child after what stands below it was changed. -/
theorem Swept.of_altered {p : SiteId} {parent parent' : Node} (hn : Among a i p parent n before after)
    (halters : Alters a a' i n n') (hnext : a.next ≤ a'.next)
    (h : Swept Q a' a'' i p (parent.withChildren (before ++ n' :: after)) n' before after parent' n'') :
    Swept Q a a'' i p parent n before after parent' n'' := by
  obtain ⟨hid, hrole⟩ : n'.id = n.id ∧ n'.role = n.role := by
    obtain ⟨g, hkeeps, rfl, -⟩ := halters.program
    exact hkeeps n
  have hform := h.form
  have hsame : valueGone [n'] [n''] = valueGone [n] [n''] := by simp [valueGone, hid, hrole]
  rw [Node.form_withChildren, Form.after, hsame] at hform
  refine ⟨h.done, h.role.trans hrole, ?_, Nat.le_trans hnext h.next,
    (hn.alters halters).trans_shifts (Nat.lt_trans hn.younger hn.known) h.shifts, h.children, hform⟩
  exact h.id.imp (fun heq => heq.trans hid) fun hfresh => ⟨Nat.le_trans hnext hfresh.1, hfresh.2⟩

/-- Sites that are made later do not matter. -/
theorem Swept.extended {p : SiteId} {parent parent' : Node}
    (h : Swept Q a a' i p parent n before after parent' n') (hextends : Extends a' a'') :
    Swept Q a a'' i p parent n before after parent' n' := by
  have hnext := hextends.next
  refine ⟨h.done, h.role, ?_, hnext ▸ h.next, h.shifts.extended hextends, h.children, h.form⟩
  rw [hnext]
  exact h.id

/-- A visit gives a child a property wherever it stands among siblings, or fails in a certain way. -/
def Sweeps (v : Visitor ε σ) (bound : NodeId) (fuel : Nat) (Q : Node → Prop) (err : ε → Prop)
    (c : Node) : Prop :=
  ∀ (t : Tour σ) (j i : SiteId) (n : Node) (before after : List Node),
    Among t.analysis j i n c before after →
    ((t.analysis.site j).listed = true → n.form.replacedAt c.role = n.form) →
    (∀ d ∈ n.children, d.id < t.analysis.next) → bound ≤ t.analysis.next →
    Ends (visit v fuel maxVisits j t)
      (fun _ t' => ∃ n' c', Swept Q t.analysis t'.analysis j i n c before after n' c') err

/-- The identity of what stands in the place of a child is not that of a sibling. -/
theorem Tended.progress {listed : Bool} {scope : ScopeId} (h : Tended a i n)
    (hc : n.children = before ++ c :: after)
    (hswept : Swept Q (a.addSiteBelow i c listed scope).2 a' a.sites.size i n c before after n' c') :
    Progress a a' i n n' := by
  have halters := hswept.shifts.alters h.stands.known
  have hnext : a.next ≤ a'.next := hswept.next
  have hnumbered : ∀ d ∈ before ++ after, d.id < a.next := by
    intro d hd
    refine h.numbered d ?_
    rw [hc]
    obtain hd | hd := List.mem_append.mp hd
    · exact List.mem_append_left _ hd
    · exact List.mem_append_right _ (List.mem_cons_of_mem _ hd)
  have hcnumbered : c.id < a.next := h.numbered c (hc ▸ by simp)
  have hapart : ∀ d ∈ before ++ after, d.id ≠ c'.id := by
    intro d hd
    obtain heq | ⟨hfresh, -⟩ := hswept.id
    · rw [heq]
      exact h.apart hc d hd
    · exact Nat.ne_of_lt (Nat.lt_of_lt_of_le (hnumbered d hd) hfresh)
  refine ⟨⟨halters.stands h.stands, ?_, ?_⟩, halters, ?_, ?_, hnext⟩
  · have hdistinct := h.distinct
    rw [hc, List.map_append, List.map_cons, List.nodup_middle, List.nodup_cons, ← List.map_append]
      at hdistinct
    rw [hswept.children, List.map_append, List.map_cons, List.nodup_middle, List.nodup_cons,
      ← List.map_append]
    refine ⟨fun hmem => ?_, hdistinct.2⟩
    obtain ⟨d, hd, heq⟩ := List.mem_map.mp hmem
    exact hapart d hd heq
  · intro d hd
    rw [hswept.children] at hd
    obtain hd | hd := List.mem_append.mp hd
    · exact Nat.lt_of_lt_of_le (hnumbered d (List.mem_append_left _ hd)) hnext
    · obtain rfl | hd := List.mem_cons.mp hd
      · obtain heq | ⟨-, hlt⟩ := hswept.id
        · rw [heq]
          exact Nat.lt_of_lt_of_le hcnumbered hnext
        · exact hlt
      · exact Nat.lt_of_lt_of_le (hnumbered d (List.mem_append_right _ hd)) hnext
  · rw [hc, hswept.children]
    exact forall₂_around (fun d _ => ⟨rfl, .inl rfl⟩) ⟨hswept.role, hswept.id.imp_right And.left⟩
  · rw [hswept.form, hc, hswept.children, Form.after, Form.after, Node.valueGone_around]

/-! ## Slots -/

/-- A child that has the property when the tour has gone past it. -/
def Yields (v : Visitor ε σ) (bound : NodeId) (fuel : Nat) (Q : Node → Prop) (err : ε → Prop)
    (c : Node) : Prop :=
  (c.isHole = true → Q c) ∧ (c.isHole = false → Sweeps v bound fuel Q err c)

/-- The first of some children that fails, all before it becoming something. -/
def FailsAt (P : Node → Node → Prop) (fails : Node → ε → Prop) (cs : List Node) (e : ε) : Prop :=
  ∃ past c rest, cs = past ++ c :: rest ∧ (∀ d ∈ past, ∃ d', P d d') ∧ fails c e

variable {P : Node → Node → Prop} {fails : Node → ε → Prop}

theorem FailsAt.of_head {e : ε} (h : fails c e) (cs : List Node) : FailsAt P fails (c :: cs) e :=
  ⟨[], c, cs, rfl, fun _ hd => (List.not_mem_nil hd).elim, h⟩

theorem FailsAt.append {cs cs' : List Node} {e : ε} (h : FailsAt P fails cs e) :
    FailsAt P fails (cs ++ cs') e := by
  obtain ⟨past, c, rest, rfl, hpast, hfails⟩ := h
  exact ⟨past, c, rest ++ cs', by simp, hpast, hfails⟩

theorem FailsAt.later {cs : List Node} {e : ε} (cs' : List Node) (hdone : ∀ d ∈ cs', ∃ d', P d d')
    (h : FailsAt P fails cs e) : FailsAt P fails (cs' ++ cs) e := by
  obtain ⟨past, c, rest, rfl, hpast, hfails⟩ := h
  refine ⟨cs' ++ past, c, rest, by simp, fun d hd => ?_, hfails⟩
  rcases List.mem_append.mp hd with hd | hd
  · exact hdone d hd
  · exact hpast d hd

/-- What becomes of children some of which are visited. -/
def Becomes (P : Node → Node → Prop) (visited : Node → Prop) (d d' : Node) : Prop :=
  (visited d → P d d') ∧ (¬ visited d → d' = d)

/-- One more child was visited before the others. -/
theorem becomes_cons {ds : List Node} (hothers : ∀ d ∈ before ++ after, d ≠ c) (hc : P c c')
    (hgone : c' ∉ back) (h : List.Forall₂ (Becomes P (· ∈ back)) (before ++ c' :: after) ds) :
    List.Forall₂ (Becomes P (· ∈ c :: back)) (before ++ c :: after) ds := by
  obtain ⟨before', y, after', rfl, hbefore, hy, hafter⟩ := forall₂_split h
  cases hy.2 hgone
  have hmore : ∀ {cs cs' : List Node}, (∀ d ∈ cs, d ∈ before ++ after) →
      List.Forall₂ (Becomes P (· ∈ back)) cs cs' →
      List.Forall₂ (Becomes P (· ∈ c :: back)) cs cs' := by
    intro cs cs' hcs hdone
    refine forall₂_of_mem hdone fun d hd d' hbecomes => ⟨fun hmem => ?_, fun hnot => ?_⟩
    · rcases List.mem_cons.mp hmem with rfl | hmem
      · exact absurd rfl (hothers d (hcs d hd))
      · exact hbecomes.1 hmem
    · exact hbecomes.2 fun hmem => hnot (List.mem_cons_of_mem c hmem)
  exact List.rel_append (hmore (fun d hd => List.mem_append_left _ hd) hbefore)
    (.cons ⟨fun _ => hc, fun hnot => absurd List.mem_cons_self hnot⟩
      (hmore (fun d hd => List.mem_append_right _ hd) hafter))

theorem fromEnd?_append (front back : List Node) (c : Node) :
    fromEnd? (front ++ c :: back) (back.length + 1) = some c := by
  unfold fromEnd?
  simp

/-- The elements of a slot that are still to come are visited one after the other. -/
theorem visitItems_yield {fuel : Nat} {slot : Slot} (hn : Tended t.analysis i n)
    (hbound : bound ≤ t.analysis.next) (hsplit : n.childrenAt slot.role = front ++ back)
    (hslot : slot.listed = true → n.form.replacedAt slot.role = n.form)
    (hback : ∀ d ∈ back, Yields v bound fuel (P d) (fails d) d) (scope : ScopeId) :
    Ends (visitItems v (fuel + 1) i slot scope back.length t)
      (fun _ t' => ∃ n', Progress t.analysis t'.analysis i n n' ∧
        List.Forall₂ (Becomes P (· ∈ back)) n.children n'.children) (FailsAt P fails back) := by
  induction back generalizing t n front with
  | nil =>
    rw [List.length_nil, visitItems]
    exact ⟨n, .refl hn, List.forall₂_same.mpr fun d _ => ⟨fun h => (List.not_mem_nil h).elim, fun _ => rfl⟩⟩
  | cons c back ih =>
    obtain ⟨hhole, hsweeps⟩ := hback c List.mem_cons_self
    have hrest : ∀ d ∈ back, Yields v bound fuel (P d) (fails d) d :=
      fun d hd => hback d (List.mem_cons_of_mem c hd)
    have hfound : fromEnd? (n.childrenAt slot.role) (back.length + 1) = some c := by
      rw [hsplit]
      exact fromEnd?_append front back c
    obtain ⟨before, after, hchildren, hfilter, hfilter'⟩ := Node.exists_around hsplit
    have hapart := hn.apart hchildren
    have hothers : ∀ d ∈ before ++ after, d ≠ c := fun d hd heq => hapart d hd (congrArg Node.id heq)
    have hmem : ∀ d ∈ back, d ∈ before ++ after := by
      intro d hd
      rw [← hfilter'] at hd
      exact List.mem_append_right _ (List.mem_filter.mp hd).1
    rw [List.length_cons]
    cases hc : c.isHole with
    | true =>
      rw [visitItems_of_hole hn.stands hfound hc]
      have hsplit' : n.childrenAt slot.role = (front ++ [c]) ++ back := by
        rw [hsplit, List.append_assoc]
        rfl
      refine (ih hn hbound hsplit' hslot hrest).mono (fun _ t' ht' => ?_) fun e he => ?_
      · obtain ⟨n', hprogress, hdone⟩ := ht'
        rw [hchildren] at hdone ⊢
        exact ⟨n', hprogress, becomes_cons hothers (hhole hc) (fun h => hothers c (hmem c h) rfl) hdone⟩
      · exact he.later [c] fun d hd => ⟨c, List.mem_singleton.mp hd ▸ hhole hc⟩
    | false =>
      rw [visitItems_of_element hn.stands hfound hc]
      have hamong := hn.stands.among hchildren hapart slot.listed scope
      have hrole : c.role = slot.role := by
        have hmem : c ∈ n.childrenAt slot.role := hsplit ▸ by simp
        exact eq_of_beq (List.mem_filter.mp hmem).2
      have hlisted : ((t.analysis.addSiteBelow i c slot.listed scope).2.site
          t.analysis.sites.size).listed = slot.listed :=
        congrArg Site.listed (site_addSiteBelow t.analysis i c slot.listed scope)
      have hvisit := hsweeps hc { t with analysis := (t.analysis.addSiteBelow i c slot.listed scope).2 }
        t.analysis.sites.size i n before after hamong (fun h => hrole ▸ hslot (hlisted ▸ h)) hn.numbered
        hbound
      refine Ends.bind (hvisit.mono (fun _ _ h => h) fun e he => FailsAt.of_head he back)
        fun _ t' ht' => ?_
      obtain ⟨n', c', hswept⟩ := ht'
      have hprogress := hn.progress hchildren hswept
      have hsplit' : n'.childrenAt slot.role = (front ++ [c']) ++ back := by
        rw [Node.childrenAt_around hswept.children, hfilter, hfilter', hswept.role,
          if_pos (beq_iff_eq.mpr hrole), List.append_assoc]
      have hslot' : slot.listed = true → n'.form.replacedAt slot.role = n'.form := by
        intro h
        rw [hprogress.form]
        exact Form.replacedAt_after (hslot h) _ _
      refine (ih hprogress.tended (Nat.le_trans hbound hprogress.next) hsplit' hslot' hrest).mono
        (fun _ t'' ht'' => ?_) fun e he => ?_
      · obtain ⟨n'', hprogress', hdone⟩ := ht''
        rw [hswept.children] at hdone
        rw [hchildren]
        refine ⟨n'', hprogress.trans hn hprogress', becomes_cons hothers hswept.done (fun h => ?_) hdone⟩
        have hdistinct := hprogress.tended.apart hswept.children
        exact hdistinct c' (hmem c' h) rfl
      · exact he.later [c] fun d hd => ⟨c', List.mem_singleton.mp hd ▸ hswept.done⟩

/-- A slot all of whose nodes stay. -/
theorem childrenAt_congr {r : Role}
    (h : List.Forall₂ (fun d d' => d'.role = d.role ∧ (d.role = r → d' = d)) n.children n'.children) :
    n.childrenAt r = n'.childrenAt r := by
  unfold Node.childrenAt
  generalize n.children = cs at h
  generalize n'.children = cs' at h
  induction h with
  | nil => rfl
  | cons hd _ ih =>
    obtain ⟨hrole, hsame⟩ := hd
    rw [List.filter_cons, List.filter_cons, hrole, ih]
    split
    · next hr => rw [hsame (eq_of_beq hr)]
    · rfl

theorem exists_of_forall₂ {α β : Type} {R : α → β → Prop} {xs : List α} {ys : List β} {x : α}
    (h : List.Forall₂ R xs ys) (hx : x ∈ xs) : ∃ y ∈ ys, R x y := by
  induction h with
  | nil => cases hx
  | cons hxy _ ih =>
    rcases List.mem_cons.mp hx with rfl | hx
    · exact ⟨_, List.mem_cons_self, hxy⟩
    · obtain ⟨y, hy, hR⟩ := ih hx
      exact ⟨y, List.mem_cons_of_mem _ hy, hR⟩

/-- One more slot was gone through before the others. -/
theorem becomes_slot {r : Role} {rs : List Role} {cs cs' cs'' : List Node} (hr : r ∉ rs)
    (h : List.Forall₂ (fun d d' => d'.role = d.role ∧ Becomes P (·.role = r) d d') cs cs')
    (h' : List.Forall₂ (Becomes P (·.role ∈ rs)) cs' cs'') :
    List.Forall₂ (Becomes P (·.role ∈ r :: rs)) cs cs'' := by
  refine forall₂_trans h h' ?_
  rintro d d' d'' ⟨hrole, hvisited, hkept⟩ ⟨hvisited', hkept'⟩
  refine ⟨fun hmem => ?_, fun hnot => ?_⟩
  · by_cases hslot : d.role = r
    · have hlast : d'' = d' := hkept' (show d'.role ∉ rs by rw [hrole, hslot]; exact hr)
      rw [hlast]
      exact hvisited hslot
    · cases hkept hslot
      exact hvisited' ((List.mem_cons.mp hmem).resolve_left hslot)
  · have hslot : d.role ≠ r := fun heq => hnot (List.mem_cons.mpr (.inl heq))
    cases hkept hslot
    exact hkept' fun hmem => hnot (List.mem_cons_of_mem r hmem)

/-- Slots are gone through one after the other. -/
theorem visitSlots_yield {fuel : Nat} {slots : List Slot} (hn : Tended t.analysis i n)
    (hbound : bound ≤ t.analysis.next) (hslots : (slots.map Slot.role).Nodup)
    (hlisted : ∀ s ∈ slots, s.listed = true → n.form.replacedAt s.role = n.form)
    (hyield : ∀ s ∈ slots, ∀ d ∈ n.childrenAt s.role, Yields v bound fuel (P d) (fails d) d)
    (form : Form) (outer inner : ScopeId) :
    Ends (visitSlots v (fuel + 1) i n.id form outer inner slots t)
      (fun _ t' => ∃ n', Progress t.analysis t'.analysis i n n' ∧
        List.Forall₂ (Becomes P (·.role ∈ slots.map Slot.role)) n.children n'.children)
      (FailsAt P fails (slots.flatMap fun s => n.childrenAt s.role)) := by
  induction slots generalizing t n with
  | nil =>
    rw [visitSlots]
    exact ⟨n, .refl hn,
      List.forall₂_same.mpr fun d _ => ⟨fun h => (List.not_mem_nil h).elim, fun _ => rfl⟩⟩
  | cons slot rest ih =>
    rw [List.map_cons, List.nodup_cons] at hslots
    rw [visitSlots, ask_bind, hn.stands.nodeAt, List.flatMap_cons]
    refine Ends.bind ((visitItems_yield hn hbound (List.nil_append _).symm
      (hlisted slot List.mem_cons_self) (hyield slot List.mem_cons_self) _).mono (fun _ _ h => h)
        fun _ he => he.append) fun _ t' ht' => ?_
    obtain ⟨n', hprogress, hdone⟩ := ht'
    have hid : n'.id = n.id := by
      obtain ⟨g, hkeeps, hg, -⟩ := hprogress.alters.program
      rw [← hg, (hkeeps n).1]
    have hne : ∀ s ∈ rest, s.role ≠ slot.role := fun s hs heq =>
      hslots.1 (List.mem_map.mpr ⟨s, hs, heq⟩)
    have hinSlot : ∀ {d : Node}, d ∈ n.childrenAt slot.role → d.role = slot.role := fun hd =>
      eq_of_beq (List.mem_filter.mp hd).2
    have hothers : ∀ s ∈ rest, n'.childrenAt s.role = n.childrenAt s.role := by
      intro s hs
      refine (childrenAt_congr (List.Forall₂.mp ?_ hprogress.renewed hdone)).symm
      exact fun d d' hd hbecomes => ⟨hd.role, fun hrole => hbecomes.2 fun hmem =>
        hne s hs (hrole.symm.trans (hinSlot hmem))⟩
    have hpast : ∀ d ∈ n.childrenAt slot.role, ∃ d', P d d' := by
      intro d hd
      obtain ⟨d', -, hd'⟩ := exists_of_forall₂ hdone (List.mem_filter.mp hd).1
      exact ⟨d', hd'.1 hd⟩
    rw [← hid, bind_of_ok (isCurrent_eq hprogress.tended.stands)]
    refine (ih hprogress.tended (Nat.le_trans hbound hprogress.next) hslots.2 (fun s hs h => ?_)
      fun s hs d hd => ?_).mono (fun _ t'' ht'' => ?_) fun e he => ?_
    · rw [hprogress.form]
      exact Form.replacedAt_after (hlisted s (List.mem_cons_of_mem _ hs) h) _ _
    · rw [hothers s hs] at hd
      exact hyield s (List.mem_cons_of_mem _ hs) d hd
    · obtain ⟨n'', hprogress', hdone'⟩ := ht''
      have hvisited := forall₂_of_mem (List.Forall₂.mp (fun _ _ => And.intro) hprogress.renewed hdone)
        fun d hd d' h => (⟨h.1.role, fun hrole => h.2.1 (List.mem_filter.mpr ⟨hd, beq_iff_eq.mpr hrole⟩),
          fun hrole => h.2.2 fun hmem => hrole (hinSlot hmem)⟩ :
            d'.role = d.role ∧ Becomes P (·.role = slot.role) d d')
      exact ⟨n'', hprogress.trans hn hprogress', becomes_slot hslots.1 hvisited hdone'⟩
    · have hsame : (rest.flatMap fun s => n'.childrenAt s.role) =
          rest.flatMap fun s => n.childrenAt s.role := List.flatMap_congr hothers
      rw [hsame] at he
      exact he.later _ hpast

/-- Every child has become what its visit makes of it when the tour has gone through the slots of a node,
if the slots are those in which the children stand, and if there is depth left for the children. -/
theorem visitSlots_all {fuel : Nat} (hn : Tended t.analysis i n) (hbound : bound ≤ t.analysis.next)
    (hslotted : ∀ c ∈ n.children, c.role ∈ n.form.slots.map Slot.role)
    (hdepth : fuel = 0 → n.children = [])
    (hyield : ∀ fuel', fuel = fuel' + 1 → ∀ c ∈ n.children, Yields v bound fuel' (P c) (fails c) c)
    (outer inner : ScopeId) :
    Ends (visitSlots v fuel i n.id n.form outer inner n.form.slots t)
      (fun _ t' => ∃ n', Progress t.analysis t'.analysis i n n' ∧
        List.Forall₂ P n.children n'.children)
      (FailsAt P fails (n.form.slots.flatMap fun s => n.childrenAt s.role)) := by
  cases fuel with
  | zero =>
    rw [visitSlots_zero]
    refine ⟨n, .refl hn, ?_⟩
    rw [hdepth rfl]
    exact .nil
  | succ fuel =>
    refine (visitSlots_yield hn hbound n.form.nodup_slots (fun s hs h => Form.replacedAt_of_listed hs h)
      (fun s _ d hd => hyield fuel rfl d (List.mem_filter.mp hd).1) n.form outer inner).mono
      (fun _ t' ht' => ?_) fun _ h => h
    obtain ⟨n', hprogress, hdone⟩ := ht'
    exact ⟨n', hprogress, forall₂_of_mem hdone fun d hd _ h => h.1 (hslotted d hd)⟩

end TourM

end Untangle
