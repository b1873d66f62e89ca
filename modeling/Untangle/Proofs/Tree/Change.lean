import Untangle.Proofs.Tree.Identities
import Untangle.Tree.Edit

set_option autoImplicit false

/-!
# Changes at the end of a way

A change at the end of a way is a change of one child after the other.  As long as it keeps the identity
and the slot of the node, the way leads to the node that it made, and a further change can be made
there.
-/

namespace Untangle

/-- A form stays, or it is that of a property whose name is written out from now on. -/
inductive Form.WritesOut : Form → Form → Prop
  | same (f : Form) : WritesOut f f
  | property (computed : Bool) (kind : PropertyKind) (method shorthand : Bool) :
      WritesOut (.property computed kind method shorthand) (.property computed kind method false)

namespace Node

variable {f g : Node → Node} {s : Step} {c n : Node}

/-- A change that leaves the identity and the slot of every node as they are. -/
def Keeps (f : Node → Node) : Prop := ∀ n, (f n).id = n.id ∧ (f n).role = n.role

/-- The node with the child to which a step goes changed. -/
def changeChild (s : Step) (f : Node → Node) (n : Node) : Node :=
  n.withChildren (n.children.map fun c => if s.leadsTo c then f c else c)

theorem keeps_refl : Keeps fun m => m := fun _ => ⟨rfl, rfl⟩

theorem Keeps.comp (hg : Keeps g) (hf : Keeps f) : Keeps (g ∘ f) := fun n =>
  ⟨(hg (f n)).1.trans (hf n).1, (hg (f n)).2.trans (hf n).2⟩

theorem keeps_changeChild (s : Step) (f : Node → Node) : Keeps (changeChild s f) := by
  rintro ⟨i, r, form, cs⟩
  exact ⟨rfl, rfl⟩

theorem Keeps.leadsTo (hf : Keeps f) (s : Step) (c : Node) : s.leadsTo (f c) = s.leadsTo c := by
  unfold Step.leadsTo
  rw [(hf c).1, (hf c).2]

@[simp] theorem children_withChildren (cs : List Node) (n : Node) :
    (n.withChildren cs).children = cs := by
  cases n
  rfl

theorem children_changeChild (s : Step) (f : Node → Node) (n : Node) :
    (changeChild s f n).children = n.children.map fun c => if s.leadsTo c then f c else c :=
  children_withChildren _ _

@[simp] theorem id_withChildren (cs : List Node) (n : Node) : (n.withChildren cs).id = n.id := by
  cases n
  rfl

theorem form_withChildren (cs : List Node) (n : Node) : (n.withChildren cs).form = n.form := by
  cases n
  rfl

@[simp] theorem withChildren_withChildren (cs cs' : List Node) (n : Node) :
    (n.withChildren cs).withChildren cs' = n.withChildren cs' := by
  cases n
  rfl

theorem withChildren_children (n : Node) : n.withChildren n.children = n := by
  cases n
  rfl

/-! ## Ways -/

theorem follow_cons_eq (s : Step) (w : Way) (n : Node) :
    follow (s :: w) n = (n.children.find? s.leadsTo).bind (follow w) := by
  rw [follow]
  cases n.children.find? s.leadsTo <;> rfl

theorem follow_append (w w' : Way) (n : Node) :
    follow (w ++ w') n = (follow w n).bind (follow w') := by
  induction w generalizing n with
  | nil => rfl
  | cons s w ih =>
    rw [List.cons_append, follow_cons_eq, follow_cons_eq]
    cases n.children.find? s.leadsTo with
    | none => rfl
    | some c => exact ih c

theorem follow_step (s : Step) (n : Node) : follow [s] n = n.children.find? s.leadsTo := by
  rw [follow_cons_eq]
  cases n.children.find? s.leadsTo <;> rfl

theorem changeAt_append (f : Node → Node) (w w' : Way) (n : Node) :
    changeAt f (w ++ w') n = changeAt (changeAt f w') w n := by
  induction w generalizing n with
  | nil => rfl
  | cons s w ih =>
    show changeChild s (changeAt f (w ++ w')) n = changeChild s (changeAt (changeAt f w') w) n
    rw [funext ih]

/-- A change at the end of a way changes a child of what stands one step before it. -/
theorem changeAt_step (f : Node → Node) (w : Way) (s : Step) (n : Node) :
    changeAt f (w ++ [s]) n = changeAt (changeChild s f) w n := changeAt_append f w [s] n

theorem Keeps.changeAt (hf : Keeps f) : ∀ w : Way, Keeps (Node.changeAt f w)
  | [] => hf
  | s :: w => keeps_changeChild s (Node.changeAt f w)

/-- A changed child is found where the child was found. -/
theorem find?_changeChild (hf : Keeps f) (s s' : Step) (n : Node) :
    (changeChild s f n).children.find? s'.leadsTo =
      (n.children.find? s'.leadsTo).map fun c => if s.leadsTo c then f c else c := by
  rw [children_changeChild, List.find?_map]
  congr 2
  funext c
  show s'.leadsTo (if s.leadsTo c then f c else c) = s'.leadsTo c
  split
  · exact hf.leadsTo s' c
  · rfl

/-- The way leads to the node that the change made. -/
theorem follow_changeAt (hf : Keeps f) (w : Way) (n : Node) :
    follow w (changeAt f w n) = (follow w n).map f := by
  induction w generalizing n with
  | nil => rfl
  | cons s w ih =>
    rw [show changeAt f (s :: w) n = changeChild s (changeAt f w) n from rfl, follow_cons_eq,
      follow_cons_eq, find?_changeChild (hf.changeAt w)]
    cases hc : n.children.find? s.leadsTo with
    | none => rfl
    | some c =>
      have hlead : s.leadsTo c = true := List.find?_some hc
      show follow w (if s.leadsTo c then changeAt f w c else c) = (follow w c).map f
      rw [if_pos hlead]
      exact ih c

/-- Two changes at the end of a way are one. -/
theorem changeAt_changeAt (hf : Keeps f) (g : Node → Node) (w : Way) (n : Node) :
    changeAt g w (changeAt f w n) = changeAt (g ∘ f) w n := by
  induction w generalizing n with
  | nil => rfl
  | cons s w ih =>
    show changeChild s (changeAt g w) (changeChild s (changeAt f w) n) =
      changeChild s (changeAt (g ∘ f) w) n
    rw [changeChild, children_changeChild, List.map_map, ← funext ih]
    cases n with
    | mk i r form cs =>
      show Node.mk i r form _ = Node.mk i r form _
      congr 2
      funext c
      show (if s.leadsTo (if s.leadsTo c then changeAt f w c else c) then
          changeAt g w (if s.leadsTo c then changeAt f w c else c)
        else if s.leadsTo c then changeAt f w c else c) = _
      cases hc : s.leadsTo c with
      | true => simp [(hf.changeAt w).leadsTo, hc]
      | false => simp [hc]

theorem changeAt_refl (w : Way) (n : Node) : changeAt (fun m => m) w n = n := by
  induction w generalizing n with
  | nil => rfl
  | cons s w ih =>
    show n.withChildren (n.children.map fun c => if s.leadsTo c then changeAt (fun m => m) w c else c) = n
    rw [funext ih]
    simp [withChildren_children]

/-! ## Nodes alone in their slots -/

/-- A node that is alone in its slot is found by its identity. -/
theorem find?_of_childrenAt (h : n.childrenAt c.role = [c]) :
    n.children.find? (⟨c.role, c.id⟩ : Step).leadsTo = some c := by
  have hfind : (n.childrenAt c.role).find? (fun d => d.id == c.id) = some c := by
    rw [h]
    simp
  rw [childrenAt, List.find?_filter] at hfind
  refine Eq.trans ?_ hfind
  congr 1
  funext d
  rw [Bool.eq_iff_iff]
  simp [Step.leadsTo]

/-- A changed child stays in its slot. -/
theorem childrenAt_changeChild (hf : ∀ c, s.leadsTo c = true → (f c).role = c.role) (r : Role)
    (n : Node) :
    (changeChild s f n).childrenAt r =
      (n.childrenAt r).map fun c => if s.leadsTo c then f c else c := by
  unfold childrenAt
  rw [children_changeChild, List.filter_map]
  congr 2
  funext c
  show ((if s.leadsTo c then f c else c).role == r) = (c.role == r)
  split
  · next hc => rw [hf c hc]
  · rfl

theorem leadsTo_self (c : Node) : (⟨c.role, c.id⟩ : Step).leadsTo c = true := by
  simp [Step.leadsTo]

/-- Among children of other slots one child is changed alone. -/
theorem changeChild_of_roles {before after : List Node} (hn : n.children = before ++ c :: after)
    (hbefore : ∀ d ∈ before, d.role ≠ c.role) (hafter : ∀ d ∈ after, d.role ≠ c.role)
    (f : Node → Node) :
    changeChild ⟨c.role, c.id⟩ f n = n.withChildren (before ++ f c :: after) := by
  have hother : ∀ {ds : List Node}, (∀ d ∈ ds, d.role ≠ c.role) →
      ds.map (fun d => if (⟨c.role, c.id⟩ : Step).leadsTo d then f d else d) = ds := by
    intro ds hds
    refine (List.map_congr_left fun d hd => ?_).trans (List.map_id ds)
    rw [if_neg (by simp [Step.leadsTo, hds d hd])]
    rfl
  rw [changeChild, hn, List.map_append, List.map_cons, hother hbefore, hother hafter,
    if_pos (leadsTo_self c)]

/-- One node in the place of a child is a change of the child. -/
theorem replaceChild_singleton (s : Step) (new n : Node) :
    replaceChild s [new] n = changeChild s (fun _ => new.inRole s.role) n := by
  unfold replaceChild changeChild
  congr 1
  rw [← List.flatMap_singleton' (n.children.map _), List.flatMap_map]
  congr 1
  funext c
  cases s.leadsTo c <;> rfl

end Node

end Untangle
