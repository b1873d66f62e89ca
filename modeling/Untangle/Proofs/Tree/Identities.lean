import Mathlib.Data.List.Nodup
import Untangle.Tree.Node

set_option autoImplicit false

/-!
# Nodes inside of a tree

A node stands inside of a tree if it is the tree or stands inside of one of its children.  In a tree
whose identities are distinct, a node is known by its identity.
-/

namespace Untangle

namespace Node

/-- A node that is another one or stands somewhere below it, left-out elements of arrays included. -/
inductive Inside : Node → Node → Prop
  | self (n : Node) : Inside n n
  | within {d c n : Node} (hc : c ∈ n.children) (h : Inside d c) : Inside d n

theorem Inside.trans {d e n : Node} (hd : d.Inside e) (he : e.Inside n) : d.Inside n := by
  induction he with
  | self => exact hd
  | within hc _ ih => exact .within hc ih

theorem Inside.child {c n : Node} (hc : c ∈ n.children) : c.Inside n := .within hc (.self c)

/-- What holds of all nodes of a tree holds of the tree and of all nodes of its children. -/
theorem forall_inside_mk {P : Node → Prop} {i : NodeId} {r : Role} {f : Form} {cs : List Node} :
    (∀ d : Node, d.Inside (.mk i r f cs) → P d) ↔
      P (.mk i r f cs) ∧ ∀ c ∈ cs, ∀ d : Node, d.Inside c → P d := by
  constructor
  · intro h
    exact ⟨h _ (.self _), fun c hc d hd => h d (.within hc hd)⟩
  · rintro ⟨hself, hbelow⟩ d hd
    cases hd with
    | self => exact hself
    | within hc hd => exact hbelow _ hc d hd

/-! ## Slots -/

theorem role_inRole (n : Node) (r : Role) : (n.inRole r).role = r := by
  cases n
  rfl

theorem form_inRole (n : Node) (r : Role) : (n.inRole r).form = n.form := by
  cases n
  rfl

theorem id_inRole (n : Node) (r : Role) : (n.inRole r).id = n.id := by
  cases n
  rfl

theorem children_inRole (n : Node) (r : Role) : (n.inRole r).children = n.children := by
  cases n
  rfl

/-- What stands inside of a node does not depend on the slot of the node. -/
theorem inside_inRole {d n : Node} {r : Role} (h : d.Inside (n.inRole r)) :
    d = n.inRole r ∨ d.Inside n := by
  cases h with
  | self => exact .inl rfl
  | within hc h => exact .inr (.within (children_inRole n r ▸ hc) h)

theorem mem_childrenAt {c n : Node} {r : Role} : c ∈ n.childrenAt r ↔ c ∈ n.children ∧ c.role = r := by
  rw [childrenAt, List.mem_filter, beq_iff_eq]

theorem mem_of_child? {c n : Node} {r : Role} (h : n.child? r = some c) :
    c ∈ n.children ∧ c.role = r := by
  have hrole := List.find?_some h
  exact ⟨List.mem_of_find?_eq_some h, eq_of_beq hrole⟩

/-! ## Sizes -/

theorem size_lt_of_mem_children {c n : Node} (hc : c ∈ n.children) : c.size < n.size := by
  have hall : ∀ cs : List Node, c ∈ cs → c.size ≤ sizeAll cs := by
    intro cs
    induction cs with
    | nil => exact fun h => by cases h
    | cons d cs ih =>
      intro h
      rw [sizeAll]
      obtain rfl | h := List.mem_cons.mp h
      · exact Nat.le_add_right _ _
      · exact Nat.le_trans (ih h) (Nat.le_add_left _ _)
  cases n with
  | mk i r f cs =>
    have hle := hall cs hc
    rw [size]
    omega

theorem Inside.size_le {d n : Node} (h : d.Inside n) : d.size ≤ n.size := by
  induction h with
  | self => exact Nat.le_refl _
  | within hc _ ih => exact Nat.le_of_lt (Nat.lt_of_le_of_lt ih (size_lt_of_mem_children hc))

/-- No node stands below itself. -/
theorem Inside.not_child {c n : Node} (h : n.Inside c) : c ∉ n.children := fun hc =>
  Nat.lt_irrefl _ (Nat.lt_of_lt_of_le (size_lt_of_mem_children hc) h.size_le)

/-! ## Identities -/

mutual

/-- The identities of a tree in pre-order, those of left-out elements of arrays included. -/
def identities : Node → List NodeId
  | .mk i _ _ cs => i :: identitiesAll cs

/-- The identities of some trees. -/
def identitiesAll : List Node → List NodeId
  | [] => []
  | c :: cs => identities c ++ identitiesAll cs

end

theorem identities_eq (n : Node) : n.identities = n.id :: identitiesAll n.children := by
  cases n with
  | mk i r f cs => rfl

theorem mem_identitiesAll {i : NodeId} {cs : List Node} :
    i ∈ identitiesAll cs ↔ ∃ c ∈ cs, i ∈ c.identities := by
  induction cs with
  | nil => simp [identitiesAll]
  | cons c cs ih => simp [identitiesAll, ih]

/-- The identity of a node is one of those of every tree around it. -/
theorem Inside.id_mem {d n : Node} (h : d.Inside n) : d.id ∈ n.identities := by
  induction h with
  | self =>
    rw [identities_eq]
    exact List.mem_cons_self
  | within hc _ ih =>
    rw [identities_eq]
    exact List.mem_cons_of_mem _ (mem_identitiesAll.mpr ⟨_, hc, ih⟩)

/-- Children with an identity in common are the same child. -/
theorem eq_of_identitiesAll_nodup {cs : List Node} (h : (identitiesAll cs).Nodup) {c c' : Node}
    (hc : c ∈ cs) (hc' : c' ∈ cs) {i : NodeId} (hi : i ∈ c.identities) (hi' : i ∈ c'.identities) :
    c = c' := by
  induction cs with
  | nil => cases hc
  | cons e cs ih =>
    obtain ⟨-, hrest, hapart⟩ := List.nodup_append.mp h
    have hapart' : ∀ x ∈ cs, i ∈ e.identities → i ∉ x.identities := fun x hx hie hix =>
      hapart i hie i (mem_identitiesAll.mpr ⟨x, hx, hix⟩) rfl
    obtain rfl | hmem := List.mem_cons.mp hc
    · obtain rfl | hc' := List.mem_cons.mp hc'
      · rfl
      · exact absurd hi' (hapart' c' hc' hi)
    · obtain rfl | hmem' := List.mem_cons.mp hc'
      · exact absurd hi (hapart' c hmem hi')
      · exact ih hrest hmem hmem'

theorem nodup_of_mem {cs : List Node} (h : (identitiesAll cs).Nodup) {c : Node} (hc : c ∈ cs) :
    c.identities.Nodup := by
  induction cs with
  | nil => cases hc
  | cons e cs ih =>
    obtain ⟨hself, hrest, -⟩ := List.nodup_append.mp h
    obtain rfl | hc := List.mem_cons.mp hc
    · exact hself
    · exact ih hrest hc

/-- In a tree with distinct identities, nodes are known by them. -/
theorem Inside.eq_of_id {n d e : Node} (hn : n.identities.Nodup) (hd : d.Inside n)
    (he : e.Inside n) (hid : d.id = e.id) : d = e := by
  induction hd with
  | self =>
    cases he with
    | self => rfl
    | within hc he =>
      rw [identities_eq] at hn
      have hmem := mem_identitiesAll.mpr ⟨_, hc, he.id_mem⟩
      rw [← hid] at hmem
      exact absurd hmem (List.nodup_cons.mp hn).1
  | within hc hd ih =>
    rw [identities_eq] at hn
    obtain ⟨hfresh, hall⟩ := List.nodup_cons.mp hn
    cases he with
    | self =>
      have hmem := mem_identitiesAll.mpr ⟨_, hc, hd.id_mem⟩
      rw [hid] at hmem
      exact absurd hmem hfresh
    | within hc' he =>
      have hmem := he.id_mem
      rw [← hid] at hmem
      cases eq_of_identitiesAll_nodup hall hc hc' hd.id_mem hmem
      exact ih (nodup_of_mem hall hc) he

/-- In a tree with distinct identities, a node stands below one other node at most. -/
theorem Inside.parent_unique {root n p c : Node} (hroot : root.identities.Nodup)
    (hn : n.Inside root) (hp : p.Inside root) (hc : c ∈ n.children) (hc' : c ∈ p.children) :
    n = p := by
  have hbelow : ∀ {d q : Node}, d.Inside q → c ∈ d.children → c.id ∈ q.identities :=
    fun hd hmem => (Inside.trans (.child hmem) hd).id_mem
  induction hn with
  | self =>
    cases hp with
    | self => rfl
    | within hq hp =>
      rw [identities_eq] at hroot
      have hall := (List.nodup_cons.mp hroot).2
      cases eq_of_identitiesAll_nodup hall hc hq (Inside.self c).id_mem (hbelow hp hc')
      exact absurd hc' hp.not_child
  | within hq hn ih =>
    rw [identities_eq] at hroot
    have hall := (List.nodup_cons.mp hroot).2
    cases hp with
    | self =>
      cases eq_of_identitiesAll_nodup hall hc' hq (Inside.self c).id_mem (hbelow hn hc)
      exact absurd hc hn.not_child
    | within hq' hp =>
      cases eq_of_identitiesAll_nodup hall hq hq' (hbelow hn hc) (hbelow hp hc')
      exact ih (nodup_of_mem hall hq) hp

/-! ## Nodes by their identities -/

theorem findId_spec (k : NodeId) (n : Node) :
    (∀ m, n.findId k = some m → m.Inside n ∧ m.id = k) ∧ (n.findId k = none → k ∉ n.identities) := by
  refine Node.rec
    (motive_1 := fun n => (∀ m, n.findId k = some m → m.Inside n ∧ m.id = k) ∧
      (n.findId k = none → k ∉ n.identities))
    (motive_2 := fun cs => (∀ m, findIdAll k cs = some m → ∃ c ∈ cs, m.Inside c ∧ m.id = k) ∧
      (findIdAll k cs = none → k ∉ identitiesAll cs)) ?_ ?_ ?_ n
  · intro i r f cs ih
    unfold findId
    by_cases hi : i = k
    · rw [if_pos (by simpa using hi)]
      refine ⟨fun m hm => ?_, fun h => by cases h⟩
      cases hm
      exact ⟨.self _, hi⟩
    · rw [if_neg (by simpa using hi)]
      refine ⟨fun m hm => ?_, fun hnone hk => ?_⟩
      · obtain ⟨c, hc, hin, hid⟩ := ih.1 m hm
        exact ⟨.within hc hin, hid⟩
      · obtain rfl | hk := List.mem_cons.mp hk
        · exact hi rfl
        · exact ih.2 hnone hk
  · exact ⟨fun m hm => (by cases hm), fun _ hk => (by cases hk)⟩
  · intro c cs ihc ihcs
    unfold findIdAll
    cases hc : findId k c with
    | some found =>
      refine ⟨fun m hm => ?_, fun h => by cases h⟩
      cases hm
      exact ⟨c, List.mem_cons_self, ihc.1 _ hc⟩
    | none =>
      refine ⟨fun m hm => ?_, fun hnone hk => ?_⟩
      · obtain ⟨c', hc', hfound⟩ := ihcs.1 m hm
        exact ⟨c', List.mem_cons_of_mem _ hc', hfound⟩
      · obtain hk | hk := List.mem_append.mp hk
        · exact ihc.2 hc hk
        · exact ihcs.2 hnone hk

theorem inside_of_findId {n m : Node} {k : NodeId} (h : n.findId k = some m) :
    m.Inside n ∧ m.id = k := (findId_spec k n).1 m h

theorem not_mem_of_findId {n : Node} {k : NodeId} (h : n.findId k = none) : k ∉ n.identities :=
  (findId_spec k n).2 h

end Node

end Untangle
