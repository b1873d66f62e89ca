import Untangle.Proofs.Analysis.Replacement
import Untangle.Proofs.Tree.Identities

set_option autoImplicit false

/-!
# Changes among siblings

A child of a node is known among its siblings by its identity.  What becomes of it becomes of the node
above: the children before it and after it stay, and so does the form of the node, except that a property
whose value is replaced has its key written out from then on.
-/

namespace Untangle

/-! ## Forms of nodes whose children are replaced -/

/-- A form that is another one, or that of a property with another shorthand mark. -/
inductive Form.Recast : Form → Form → Prop
  | same (f : Form) : Recast f f
  | property {computed method shorthand shorthand' : Bool} {kind : PropertyKind} :
      Recast (.property computed kind method shorthand) (.property computed kind method shorthand')

/-- The form of a node after the node in a slot gave way: a property whose value did is written out. -/
def Form.replacedAt : Role → Form → Form
  | .value, .property computed kind method _ => .property computed kind method false
  | _, f => f

theorem Form.recast_replacedAt (r : Role) (f : Form) : f.Recast (f.replacedAt r) := by
  unfold replacedAt
  split
  · exact .property
  · exact .same _

/-- Only values of properties matter. -/
theorem Form.replacedAt_of_ne {r : Role} (h : r ≠ .value) (f : Form) : f.replacedAt r = f := by
  unfold replacedAt
  split
  · exact absurd rfl h
  · rfl

namespace Node

variable {n c : Node} {before after : List Node}

theorem keeps_valueReplaced (r : Role) : Keeps (valueReplaced r) := by
  rintro ⟨i, role, f, cs⟩
  unfold valueReplaced
  split <;> exact ⟨rfl, rfl⟩

theorem children_valueReplaced (r : Role) (n : Node) : (n.valueReplaced r).children = n.children := by
  cases n
  unfold valueReplaced
  split <;> rfl

theorem writesOut_valueReplaced (r : Role) (n : Node) :
    n.form.WritesOut (n.valueReplaced r).form := by
  unfold valueReplaced
  split
  · next hform =>
    rw [hform]
    cases n
    exact .property ..
  · exact .same _

theorem form_valueReplaced (r : Role) (n : Node) : (n.valueReplaced r).form = n.form.replacedAt r := by
  obtain ⟨i, role, f, cs⟩ := n
  unfold valueReplaced
  split
  · next hform =>
    rw [hform]
    rfl
  · next hother =>
    unfold Form.replacedAt
    split
    · next hform => exact absurd rfl (hother _ _ _ _ hform)
    · rfl

/-- A child whose identity its siblings do not have is found by it. -/
theorem find?_among (hn : n.children = before ++ c :: after)
    (hbefore : ∀ d ∈ before, d.id ≠ c.id) :
    n.children.find? (⟨c.role, c.id⟩ : Step).leadsTo = some c := by
  have hnone : before.find? (⟨c.role, c.id⟩ : Step).leadsTo = none :=
    List.find?_eq_none.mpr fun d hd => by simp [Step.leadsTo, hbefore d hd]
  rw [hn, List.find?_append, hnone, List.find?_cons_of_pos (leadsTo_self c)]
  rfl

/-- A child whose identity its siblings do not have is changed alone. -/
theorem changeChild_among (hn : n.children = before ++ c :: after)
    (hothers : ∀ d ∈ before ++ after, d.id ≠ c.id) (f : Node → Node) :
    changeChild ⟨c.role, c.id⟩ f n = n.withChildren (before ++ f c :: after) := by
  have hother : ∀ {ds : List Node}, (∀ d ∈ ds, d ∈ before ++ after) →
      ds.map (fun d => if (⟨c.role, c.id⟩ : Step).leadsTo d then f d else d) = ds := by
    intro ds hds
    refine (List.map_congr_left fun d hd => ?_).trans (List.map_id ds)
    rw [if_neg (by simp [Step.leadsTo, hothers d (hds d hd)])]
    rfl
  rw [changeChild, hn, List.map_append, List.map_cons, if_pos (leadsTo_self c),
    hother fun d hd => List.mem_append_left _ hd, hother fun d hd => List.mem_append_right _ hd]

end Node

namespace Analysis

variable {a a' : Analysis} {i p : SiteId} {parent n n' : Node} {before after : List Node}

/-! ## Children among their siblings -/

/-- A node that stands at a site, among other children of the node of the site above. -/
structure Among (a : Analysis) (i p : SiteId) (parent n : Node) (before after : List Node) :
    Prop where
  known : i < a.sites.size
  above : (a.site i).above = some p
  younger : p < i
  role : (a.site i).role = n.role
  node : (a.site i).node = n.id
  retired : (a.site i).retired = false
  found : a.program.follow (a.way p) = some parent
  children : parent.children = before ++ n :: after
  apart : ∀ d ∈ before ++ after, d.id ≠ n.id

namespace Among

theorem way_eq (h : Among a i p parent n before after) : a.way i = a.way p ++ [⟨n.role, n.id⟩] := by
  rw [way_of_above h.above h.younger, h.role, h.node]

theorem stands (h : Among a i p parent n before after) : Stands a i n := by
  refine ⟨h.known, h.node, h.retired, ?_⟩
  rw [h.way_eq, Node.follow_append, h.found]
  exact (Node.follow_step _ _).trans
    (Node.find?_among h.children fun d hd => h.apart d (List.mem_append_left _ hd))

/-- What becomes of a child becomes of the node above. -/
theorem alters (h : Among a i p parent n before after) (hn : Alters a a' i n n') :
    Alters a a' p parent (parent.withChildren (before ++ n' :: after)) := by
  obtain ⟨g, -, rfl, hprogram⟩ := hn.program
  refine ⟨⟨Node.changeChild ⟨n.role, n.id⟩ g, Node.keeps_changeChild _ _,
    Node.changeChild_among h.children h.apart g, ?_⟩, hn.sites⟩
  rw [hprogram, h.way_eq, Node.changeAt_step]

/-- A change of what stands below a child leaves it among its siblings. -/
theorem altered (h : Among a i p parent n before after) (hn : Alters a a' i n n') :
    Among a' i p (parent.withChildren (before ++ n' :: after)) n' before after := by
  have hp : p < a.sites.size := Nat.lt_trans h.younger h.known
  have hparent := h.alters hn
  obtain ⟨g, hkeeps, rfl, -⟩ := hn.program
  obtain ⟨g', hkeeps', hg', hprogram⟩ := hparent.program
  have hsite := hn.site_eq h.known
  refine ⟨Nat.lt_of_lt_of_le h.known hn.size_le, ?_, h.younger, ?_, ?_, ?_, ?_,
    Node.children_withChildren _ _, fun d hd => ?_⟩
  · rw [hsite, h.above]
  · rw [hsite, h.role, (hkeeps n).2]
  · rw [hsite, h.node, (hkeeps n).1]
  · rw [hsite, h.retired]
  · rw [hn.way_eq hp, hprogram, Node.follow_changeAt hkeeps', h.found, ← hg']
    rfl
  · rw [(hkeeps n).1]
    exact h.apart d hd

end Among

/-- The site of a child among its siblings. -/
theorem Stands.among (h : Stands a i n) {c : Node} (hc : n.children = before ++ c :: after)
    (hothers : ∀ d ∈ before ++ after, d.id ≠ c.id) (listed : Bool) (scope : ScopeId) :
    Among (a.addSiteBelow i c listed scope).2 a.sites.size i n c before after := by
  have hsite := site_addSiteBelow a i c listed scope
  refine ⟨known_addSiteBelow .., congrArg Site.above hsite, h.known, congrArg Site.role hsite,
    congrArg Site.node hsite, congrArg Site.retired hsite, ?_, hc, hothers⟩
  rw [(extends_addSiteBelow ..).way_eq h.known]
  exact h.follow

/-! ## Changes through the site of a child -/

/-- A change of what stands below the node of a site, in which the site of a child may move on. -/
structure Shifts (a a' : Analysis) (i p : SiteId) (parent parent' : Node) : Prop where
  program : ∃ g, Node.Keeps g ∧ g parent = parent' ∧ a'.program = a.program.changeAt g (a.way p)
  size : a.sites.size ≤ a'.sites.size
  sites : ∀ k < a.sites.size, k ≠ i → a'.sites[k]? = a.sites[k]?

variable {a'' : Analysis} {parent' parent'' : Node}

theorem Alters.shifts (h : Alters a a' p parent parent') (i : SiteId) :
    Shifts a a' i p parent parent' := ⟨h.program, h.size_le, fun k hk _ => h.sites k hk⟩

theorem Alters.trans_shifts (h : Alters a a' p parent parent') (hp : p < a.sites.size)
    (h' : Shifts a' a'' i p parent' parent'') : Shifts a a'' i p parent parent'' := by
  obtain ⟨g, hkeeps, rfl, hprogram⟩ := h.program
  obtain ⟨g', hkeeps', rfl, hprogram'⟩ := h'.program
  refine ⟨⟨g' ∘ g, hkeeps'.comp hkeeps, rfl, ?_⟩, Nat.le_trans h.size_le h'.size,
    fun k hk hne => ?_⟩
  · rw [hprogram', h.way_eq hp, hprogram, Node.changeAt_changeAt hkeeps]
  · exact (h'.sites k (Nat.lt_of_lt_of_le hk h.size_le) hne).trans (h.sites k hk)

theorem Shifts.extended (h : Shifts a a' i p parent parent') (h' : Extends a' a'') :
    Shifts a a'' i p parent parent' := by
  obtain ⟨g, hkeeps, hg, hprogram⟩ := h.program
  exact ⟨⟨g, hkeeps, hg, h'.program.trans hprogram⟩, Nat.le_trans h.size h'.size_le,
    fun k hk hne => (h'.sites k (Nat.lt_of_lt_of_le hk h.size)).trans (h.sites k hk hne)⟩

/-- Sites that there were before that of the child stay. -/
theorem Shifts.alters {c : Node} {listed : Bool} {scope : ScopeId} (hp : p < a.sites.size)
    (h : Shifts (a.addSiteBelow p c listed scope).2 a' a.sites.size p parent parent') :
    Alters a a' p parent parent' := by
  have hextends := extends_addSiteBelow a p c listed scope
  obtain ⟨g, hkeeps, hg, hprogram⟩ := h.program
  refine ⟨⟨g, hkeeps, hg, ?_⟩, fun k hk => ?_⟩
  · rw [hprogram, hextends.way_eq hp]
    rfl
  · exact (h.sites k (Nat.lt_of_lt_of_le hk hextends.size_le) (Nat.ne_of_lt hk)).trans
      (hextends.sites k hk)

/-! ## Replacing -/

/-- The analysis after a child gave way to another node, which is not taken up yet. -/
def supplant (a : Analysis) (i p : SiteId) (n new : Node) (next : NodeId) : Analysis :=
  { a with
    next := next
    program := a.program.changeAt (fun m =>
      let m := Node.changeChild ⟨n.role, n.id⟩ (fun _ => new.inRole n.role) m
      if (a.site i).listed then m else m.valueReplaced n.role) (a.way p)
    sites := a.sites.modify i fun s => { s with node := new.id }
    attic := n :: a.attic }

namespace Among

variable (h : Among a i p parent n before after)

include h

theorem replace_eq (new : Node) :
    a.replace i new =
      .ok ((a.supplant i p n (new.adopt a.next).1 (new.adopt a.next).2).register i) := by
  have heditable : a.editable i .replace = .ok (n, p) := by
    unfold editable
    rw [h.stands.attachedNode?, h.above]
  let b : Analysis := { a with next := (new.adopt a.next).2 }
  have hway : b.way p = a.way p := way_congr fun _ _ => rfl
  have hsupplant : (b.substitute i p n [(new.adopt a.next).1] fun m =>
      if (b.site i).listed then m else m.valueReplaced (b.site i).role).modifySite i
        (fun s => { s with node := (new.adopt a.next).1.id }) =
      a.supplant i p n (new.adopt a.next).1 (new.adopt a.next).2 := by
    unfold substitute
    simp only [Node.replaceChild_singleton, hway]
    unfold supplant
    rw [← h.role, ← h.node]
    rfl
  unfold replace
  rw [heditable]
  exact congrArg (fun b : Analysis => Except.ok (b.register i)) hsupplant

/-- The node above has the new child in the place of the old one. -/
theorem exists_supplant (new : Node) (next : NodeId) :
    ∃ g, Node.Keeps g ∧
      ((g parent).children = before ++ new.inRole n.role :: after ∧
        (g parent).form =
          if (a.site i).listed then parent.form else parent.form.replacedAt n.role) ∧
      (a.supplant i p n new next).program = a.program.changeAt g (a.way p) := by
  let g : Node → Node := fun m =>
    let m := Node.changeChild ⟨n.role, n.id⟩ (fun _ => new.inRole n.role) m
    if (a.site i).listed then m else m.valueReplaced n.role
  have hchanged := Node.changeChild_among h.children h.apart fun _ => new.inRole n.role
  refine ⟨g, fun m => ?_, ?_, rfl⟩
  · have hkeeps := Node.keeps_changeChild ⟨n.role, n.id⟩ (fun _ => new.inRole n.role) m
    show (ite _ _ _ : Node).id = _ ∧ (ite _ _ _ : Node).role = _
    split
    · exact hkeeps
    · have hvalue := Node.keeps_valueReplaced n.role
        (Node.changeChild ⟨n.role, n.id⟩ (fun _ => new.inRole n.role) m)
      exact ⟨hvalue.1.trans hkeeps.1, hvalue.2.trans hkeeps.2⟩
  · show (ite _ _ _ : Node).children = _ ∧ (ite _ _ _ : Node).form = _
    rw [hchanged]
    split
    · rw [Node.children_withChildren, Node.form_withChildren]
      exact ⟨rfl, rfl⟩
    · rw [Node.children_valueReplaced, Node.children_withChildren, Node.form_valueReplaced,
        Node.form_withChildren]
      exact ⟨rfl, rfl⟩

theorem stands_supplant (new : Node) (next : NodeId)
    (hfresh : ∀ d ∈ before ++ after, d.id ≠ new.id) :
    Stands (a.supplant i p n new next) i (new.inRole n.role) := by
  have hsite : (a.supplant i p n new next).site i = { a.site i with node := new.id } :=
    (site_modifySite a i _ h.known).trans (if_pos rfl)
  have hway : (a.supplant i p n new next).way p = a.way p := by
    refine way_congr fun k hk => ?_
    have hlt : k < i := Nat.lt_of_le_of_lt hk h.younger
    exact (site_modifySite a i _ (Nat.lt_trans hlt h.known)).trans (if_neg (Nat.ne_of_gt hlt))
  refine ⟨?_, ?_, ?_, ?_⟩
  · show i < (a.sites.modify i _).size
    rw [Array.size_modify]
    exact h.known
  · rw [hsite, Node.id_inRole]
  · rw [hsite]
    exact h.retired
  · obtain ⟨g, hkeeps, hg, hprogram⟩ := h.exists_supplant new next
    rw [way_of_above ((congrArg Site.above hsite).trans h.above) h.younger, hway, hsite, hprogram,
      Node.follow_append, Node.follow_changeAt hkeeps, h.found]
    refine (Node.follow_step _ _).trans ?_
    have hfind := Node.find?_among hg.1 fun d hd => by
      rw [Node.id_inRole]
      exact hfresh d (List.mem_append_left _ hd)
    rw [Node.role_inRole, Node.id_inRole] at hfind
    rw [h.role]
    exact hfind

/-- A child is replaced by a node whose identity no sibling has, and its site moves on. -/
theorem replace (new : Node)
    (hfresh : ∀ d ∈ before ++ after, d.id ≠ (new.adopt a.next).1.id) :
    ∃ a' parent', a.replace i new = .ok a' ∧
      Stands a' i ((new.adopt a.next).1.inRole n.role) ∧ Shifts a a' i p parent parent' ∧
      parent'.children = before ++ (new.adopt a.next).1.inRole n.role :: after ∧
      parent'.form =
        (if (a.site i).listed then parent.form else parent.form.replacedAt n.role) ∧
      a'.next = (new.adopt a.next).2 := by
  have htaken := extends_register
    (a.supplant i p n (new.adopt a.next).1 (new.adopt a.next).2) i
  obtain ⟨g, hkeeps, ⟨hchildren, hform⟩, hprogram⟩ :=
    h.exists_supplant (new.adopt a.next).1 (new.adopt a.next).2
  refine ⟨_, g parent, h.replace_eq new, htaken.stands (h.stands_supplant _ _ hfresh),
    Shifts.extended ⟨⟨g, hkeeps, rfl, hprogram⟩, ?_, fun k _ hne => ?_⟩ htaken, hchildren, hform,
    htaken.next⟩
  · exact Nat.le_of_eq Array.size_modify.symm
  · show (a.sites.modify i _)[k]? = _
    rw [Array.getElem?_modify, if_neg (Ne.symm hne)]

end Among

end Analysis

end Untangle
