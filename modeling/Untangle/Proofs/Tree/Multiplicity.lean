import Mathlib.Data.List.Flatten
import Untangle.Proofs.Tree.Change
import Untangle.Proofs.Tree.Numbering

set_option autoImplicit false

/-!
# How often nodes occur

A node occurs in a tree as often as its identity does.  A change at the end of a way adds what the node
there gains and takes away what it loses; a child that gives way to some nodes takes its own nodes along.
New nodes that are adopted occur once, and all others as often as before.
-/

namespace Untangle

namespace Node

variable {n m c : Node} {ns : List Node} {k : NodeId} {s : Step} {w : Way}

/-! ## Identities of lists of nodes -/

@[simp] theorem identitiesAll_nil : identitiesAll [] = [] := rfl

@[simp] theorem identitiesAll_cons (n : Node) (ns : List Node) :
    identitiesAll (n :: ns) = n.identities ++ identitiesAll ns := rfl

theorem identitiesAll_eq_flatMap (ns : List Node) : identitiesAll ns = ns.flatMap identities := by
  induction ns with
  | nil => rfl
  | cons n ns ih => rw [identitiesAll_cons, ih, List.flatMap_cons]

@[simp] theorem identitiesAll_append (ns ms : List Node) :
    identitiesAll (ns ++ ms) = identitiesAll ns ++ identitiesAll ms := by
  simp only [identitiesAll_eq_flatMap, List.flatMap_append]

theorem perm_identitiesAll {ns ms : List Node} (h : ns.Perm ms) :
    (identitiesAll ns).Perm (identitiesAll ms) := by
  simp only [identitiesAll_eq_flatMap]
  exact h.flatMap_right identities

@[simp] theorem identities_inRole (n : Node) (r : Role) : (n.inRole r).identities = n.identities := by
  cases n
  rfl

@[simp] theorem identitiesAll_map_inRole (ns : List Node) (r : Role) :
    identitiesAll (ns.map (inRole r)) = identitiesAll ns := by
  simp [identitiesAll_eq_flatMap, List.flatMap_map]

@[simp] theorem identities_withChildren (n : Node) (cs : List Node) :
    (n.withChildren cs).identities = n.id :: identitiesAll cs := by
  cases n
  rfl

theorem identities_congr (hid : m.id = n.id) (hchildren : m.children = n.children) :
    m.identities = n.identities := by
  rw [identities_eq, identities_eq, hid, hchildren]

theorem nodup_identitiesAll (h : n.identities.Nodup) : (identitiesAll n.children).Nodup := by
  rw [identities_eq] at h
  exact (List.nodup_cons.mp h).2

/-! ## Nodes inside -/

theorem identitiesAll_sublist {ns ms : List Node} (h : ns.Sublist ms) :
    (identitiesAll ns).Sublist (identitiesAll ms) := by
  simp only [identitiesAll_eq_flatMap]
  exact h.flatMap identities

theorem identitiesAll_children_sublist (n : Node) :
    (identitiesAll n.children).Sublist n.identities := by
  rw [identities_eq]
  exact List.sublist_cons_self _ _

theorem identities_sublist_of_mem (hc : c ∈ ns) : c.identities.Sublist (identitiesAll ns) := by
  have hchild := identitiesAll_sublist (List.singleton_sublist.mpr hc)
  rwa [identitiesAll_cons, identitiesAll_nil, List.append_nil] at hchild

theorem Inside.identities_sublist {d : Node} (h : d.Inside n) :
    d.identities.Sublist n.identities := by
  induction h with
  | self => exact .refl _
  | within hc _ ih =>
    exact ih.trans ((identities_sublist_of_mem hc).trans (identitiesAll_children_sublist _))

/-- The nodes of a slot are nodes below the node. -/
theorem identitiesAll_childrenAt_sublist_children (n : Node) (r : Role) :
    (identitiesAll (n.childrenAt r)).Sublist (identitiesAll n.children) :=
  identitiesAll_sublist List.filter_sublist

/-- The nodes of a slot are nodes of the tree. -/
theorem identitiesAll_childrenAt_sublist (n : Node) (r : Role) :
    (identitiesAll (n.childrenAt r)).Sublist n.identities :=
  (identitiesAll_childrenAt_sublist_children n r).trans (identitiesAll_children_sublist n)

/-- Trees with distinct identities that have a node in common are the same one. -/
theorem index_unique (hdistinct : (identitiesAll ns).Nodup) {i j : Nat} (hn : ns[i]? = some n)
    (hm : ns[j]? = some m) (hkn : k ∈ n.identities) (hkm : k ∈ m.identities) : i = j := by
  rw [identitiesAll_eq_flatMap, List.nodup_flatMap] at hdistinct
  have hapart := List.pairwise_iff_getElem.mp hdistinct.2
  obtain ⟨hi, rfl⟩ := List.getElem?_eq_some_iff.mp hn
  obtain ⟨hj, rfl⟩ := List.getElem?_eq_some_iff.mp hm
  obtain hlt | heq | hlt := Nat.lt_trichotomy i j
  · exact absurd hkm (hapart i j hi hj hlt hkn)
  · exact heq
  · exact absurd hkn (hapart j i hj hi hlt hkm)

/-! ## Children that are changed or replaced -/

/-- Among nodes with distinct identities a step leads to one child and to no other. -/
theorem split_of_find? {cs : List Node} (hdistinct : (identitiesAll cs).Nodup)
    (hc : cs.find? s.leadsTo = some c) :
    ∃ before after, cs = before ++ c :: after ∧ s.leadsTo c = true ∧
      (∀ d ∈ before, s.leadsTo d = false) ∧ ∀ d ∈ after, s.leadsTo d = false := by
  obtain ⟨hlead, before, after, rfl, hbefore⟩ := List.find?_eq_some_iff_append.mp hc
  refine ⟨before, after, rfl, hlead, fun d hd => by simpa using hbefore d hd, fun d hd => ?_⟩
  by_contra hd'
  have hdlead : s.leadsTo d = true := by simpa using hd'
  simp only [Step.leadsTo, Bool.and_eq_true, beq_iff_eq] at hlead hdlead
  rw [identitiesAll_append, identitiesAll_cons] at hdistinct
  have hrest := (List.nodup_append.mp (List.nodup_append.mp hdistinct).2.1).2.2
  exact hrest c.id (Inside.self c).id_mem d.id (mem_identitiesAll.mpr ⟨d, hd, (Inside.self d).id_mem⟩)
    (hlead.2.trans hdlead.2.symm)

theorem flatMap_of_not_leadsTo {cs : List Node} {f : Node → List Node}
    (h : ∀ d ∈ cs, s.leadsTo d = false) :
    (cs.flatMap fun d => if s.leadsTo d then f d else [d]) = cs := by
  induction cs with
  | nil => rfl
  | cons d cs ih =>
    rw [List.flatMap_cons, ih fun e he => h e (List.mem_cons_of_mem d he), h d List.mem_cons_self]
    rfl

theorem map_of_not_leadsTo {cs : List Node} {f : Node → Node} (h : ∀ d ∈ cs, s.leadsTo d = false) :
    (cs.map fun d => if s.leadsTo d then f d else d) = cs := by
  refine (List.map_congr_left fun d hd => ?_).trans (List.map_id cs)
  rw [h d hd]
  rfl

/-- Where a step leads nowhere, nothing is replaced. -/
theorem replaceChild_of_none (h : n.children.find? s.leadsTo = none) (ns : List Node) :
    n.replaceChild s ns = n := by
  unfold replaceChild
  rw [flatMap_of_not_leadsTo fun d hd => by simpa using List.find?_eq_none.mp h d hd,
    withChildren_children]

/-- A child gives way to some nodes. -/
theorem count_replaceChild (hdistinct : n.identities.Nodup) (hc : n.children.find? s.leadsTo = some c)
    (ns : List Node) (k : NodeId) :
    (n.replaceChild s ns).identities.count k + c.identities.count k =
      n.identities.count k + (identitiesAll ns).count k := by
  obtain ⟨before, after, hchildren, hlead, hbefore, hafter⟩ :=
    split_of_find? (nodup_identitiesAll hdistinct) hc
  have hreplaced : (n.children.flatMap fun d =>
      if s.leadsTo d then ns.map (inRole s.role) else [d]) =
        before ++ (ns.map (inRole s.role) ++ after) := by
    rw [hchildren, List.flatMap_append, List.flatMap_cons, flatMap_of_not_leadsTo hbefore,
      flatMap_of_not_leadsTo hafter, if_pos hlead]
  unfold replaceChild
  rw [hreplaced, identities_withChildren, identities_eq n, hchildren]
  simp only [identitiesAll_append, identitiesAll_cons, identitiesAll_map_inRole, List.count_append,
    List.count_cons]
  omega

/-! ## Changes at the end of a way -/

/-- The first step of a way leads to a child. -/
theorem child_of_follow (h : n.follow (s :: w) = some m) :
    ∃ c ∈ n.children, s = ⟨c.role, c.id⟩ ∧ c.follow w = some m := by
  unfold follow at h
  split at h
  · next c hc =>
    have hlead := List.find?_some hc
    simp only [Step.leadsTo, Bool.and_eq_true, beq_iff_eq] at hlead
    refine ⟨c, List.mem_of_find?_eq_some hc, ?_, h⟩
    rw [hlead.1, hlead.2]
  · cases h

theorem inside_of_follow (h : n.follow w = some m) : m.Inside n := by
  induction w generalizing n with
  | nil =>
    cases h
    exact .self m
  | cons s w ih =>
    obtain ⟨c, hc, -, hm⟩ := child_of_follow h
    exact .within hc (ih hm)

/-- The nodes at the ends of ways of a tree with distinct identities have distinct identities. -/
theorem nodup_of_follow (hdistinct : n.identities.Nodup) (h : n.follow w = some m) :
    m.identities.Nodup := hdistinct.sublist (inside_of_follow h).identities_sublist

/-- In a tree with distinct identities a node stands at one place only. -/
theorem way_unique {w' : Way} {m' : Node} (hdistinct : n.identities.Nodup) (h : n.follow w = some m)
    (h' : n.follow w' = some m') (hid : m.id = m'.id) : w = w' := by
  have hmem : ∀ {c m : Node} {w : Way}, c.follow w = some m → m.id ∈ c.identities :=
    fun h => (inside_of_follow h).id_mem
  -- No node below another one has the identity of that one.
  have hroot : ∀ {n c m : Node} {w : Way}, n.identities.Nodup → c ∈ n.children →
      c.follow w = some m → m.id ≠ n.id := by
    intro n c m w hn hc hm heq
    rw [identities_eq, List.nodup_cons] at hn
    exact hn.1 (mem_identitiesAll.mpr ⟨c, hc, heq ▸ hmem hm⟩)
  induction w generalizing n w' with
  | nil =>
    cases h
    cases w' with
    | nil => rfl
    | cons s' w' =>
      obtain ⟨c, hc, -, hm⟩ := child_of_follow h'
      exact absurd hid.symm (hroot hdistinct hc hm)
  | cons s w ih =>
    obtain ⟨c, hc, rfl, hm⟩ := child_of_follow h
    cases w' with
    | nil =>
      cases h'
      exact absurd hid (hroot hdistinct hc hm)
    | cons s' w' =>
      obtain ⟨c', hc', rfl, hm'⟩ := child_of_follow h'
      have hall := nodup_identitiesAll hdistinct
      cases eq_of_identitiesAll_nodup hall hc hc' (hmem hm) (hid ▸ hmem hm')
      rw [ih (nodup_of_mem hall hc) hm hm']

/-- A way that leads nowhere changes nothing. -/
theorem changeAt_of_none {f : Node → Node} (hdistinct : n.identities.Nodup)
    (h : n.follow w = none) : n.changeAt f w = n := by
  induction w generalizing n with
  | nil => cases h
  | cons s w ih =>
    show n.withChildren (n.children.map fun c => if s.leadsTo c then changeAt f w c else c) = n
    unfold follow at h
    split at h
    · next c hc =>
      obtain ⟨before, after, hchildren, -, hbefore, hafter⟩ :=
        split_of_find? (nodup_identitiesAll hdistinct) hc
      have hmem := List.mem_of_find?_eq_some hc
      have hsame : (n.children.map fun c => if s.leadsTo c then changeAt f w c else c) =
          n.children := by
        rw [hchildren, List.map_append, List.map_cons, map_of_not_leadsTo hbefore,
          map_of_not_leadsTo hafter, ih (nodup_of_mem (nodup_identitiesAll hdistinct) hmem) h, ite_self]
      rw [hsame, withChildren_children]
    · next hc =>
      rw [map_of_not_leadsTo fun d hd => by simpa using List.find?_eq_none.mp hc d hd,
        withChildren_children]

/-- A change at the end of a way changes the numbers by what it does to the node there. -/
theorem count_changeAt {f : Node → Node} (hdistinct : n.identities.Nodup) (h : n.follow w = some m)
    (k : NodeId) :
    (n.changeAt f w).identities.count k + m.identities.count k =
      n.identities.count k + (f m).identities.count k := by
  induction w generalizing n with
  | nil =>
    cases h
    exact Nat.add_comm _ _
  | cons s w ih =>
    unfold follow at h
    split at h
    · next c hc =>
      obtain ⟨before, after, hchildren, hlead, hbefore, hafter⟩ :=
        split_of_find? (nodup_identitiesAll hdistinct) hc
      have hmem := List.mem_of_find?_eq_some hc
      have hbelow := ih (nodup_of_mem (nodup_identitiesAll hdistinct) hmem) h
      show (n.withChildren (n.children.map fun c =>
        if s.leadsTo c then changeAt f w c else c)).identities.count k + _ = _
      rw [identities_withChildren, identities_eq n, hchildren, List.map_append, List.map_cons,
        map_of_not_leadsTo hbefore, map_of_not_leadsTo hafter, if_pos hlead]
      simp only [identitiesAll_append, identitiesAll_cons, List.count_append, List.count_cons]
      omega
    · cases h

/-- The nodes of a child that gives way go, and the new ones come. -/
theorem count_exchanged {f : Node → Node} (hf : ∀ n, (f n).identities = n.identities)
    (hdistinct : n.identities.Nodup) (hc : n.follow (w ++ [s]) = some c) (ns : List Node) (k : NodeId) :
    (n.changeAt (fun m => f (m.replaceChild s ns)) w).identities.count k + c.identities.count k =
      n.identities.count k + (identitiesAll ns).count k := by
  rw [follow_append] at hc
  obtain ⟨m, hm, hc⟩ := Option.bind_eq_some_iff.mp hc
  rw [follow_step] at hc
  have hchange := count_changeAt (f := fun m => f (m.replaceChild s ns)) hdistinct hm k
  have hchild := count_replaceChild (nodup_of_follow hdistinct hm) hc ns k
  rw [hf] at hchange
  omega

/-- What a change of the node at the end of a way does by giving one of its children away: nothing at
all, or the nodes of the child go and the new ones come. -/
theorem count_exchange {f : Node → Node} (hf : ∀ n, (f n).identities = n.identities)
    (hdistinct : n.identities.Nodup) (w : Way) (s : Step) (ns : List Node) :
    (∃ c, n.follow (w ++ [s]) = some c ∧ ∀ k,
      (n.changeAt (fun m => f (m.replaceChild s ns)) w).identities.count k + c.identities.count k =
        n.identities.count k + (identitiesAll ns).count k) ∨
    ∀ k, (n.changeAt (fun m => f (m.replaceChild s ns)) w).identities.count k =
      n.identities.count k := by
  cases hc : n.follow (w ++ [s]) with
  | some c => exact .inl ⟨c, rfl, count_exchanged hf hdistinct hc ns⟩
  | none =>
    right
    intro k
    cases hm : n.follow w with
    | none => rw [changeAt_of_none hdistinct hm]
    | some m =>
      have hnone : m.children.find? s.leadsTo = none := by
        rw [← follow_step, ← hc, follow_append, hm]
        rfl
      have hcount := count_changeAt (f := fun m => f (m.replaceChild s ns)) hdistinct hm k
      rw [hf, replaceChild_of_none hnone] at hcount
      omega

/-! ## New identities -/

/-- Nodes without identity get those from the first one on, each of them once; the other nodes keep
theirs. -/
theorem count_adoptAll (ns : List Node) {next : NodeId} (hnext : 0 < next) (k : NodeId) :
    (identitiesAll (adoptAll ns next).1).count k =
      (if k = 0 then 0 else (identitiesAll ns).count k) +
        if next ≤ k ∧ k < (adoptAll ns next).2 then 1 else 0 := by
  refine Node.rec_1
    (motive_1 := fun n => ∀ next, 0 < next → (n.adopt next).1.identities.count k =
      (if k = 0 then 0 else n.identities.count k) +
        if next ≤ k ∧ k < (n.adopt next).2 then 1 else 0)
    (motive_2 := fun ns => ∀ next, 0 < next → (identitiesAll (adoptAll ns next).1).count k =
      (if k = 0 then 0 else (identitiesAll ns).count k) +
        if next ≤ k ∧ k < (adoptAll ns next).2 then 1 else 0) ?_ ?_ ?_ ns next hnext
  · intro i r f cs ih next hnext
    unfold adopt
    split
    · next hi =>
      have hbelow := ih (next + 1) (Nat.succ_pos next)
      have hle := le_adoptAll cs (next + 1)
      show (next :: identitiesAll (adoptAll cs (next + 1)).1).count k =
        (if k = 0 then 0 else (i :: identitiesAll cs).count k) +
          if next ≤ k ∧ k < (adoptAll cs (next + 1)).2 then 1 else 0
      rw [beq_iff_eq] at hi
      grind
    · next hi =>
      have hbelow := ih next hnext
      show (i :: identitiesAll (adoptAll cs next).1).count k =
        (if k = 0 then 0 else (i :: identitiesAll cs).count k) +
          if next ≤ k ∧ k < (adoptAll cs next).2 then 1 else 0
      rw [beq_iff_eq] at hi
      grind
  · intro next _
    show 0 = (if k = 0 then 0 else 0) + if next ≤ k ∧ k < next then 1 else 0
    grind
  · intro c cs ihc ihcs next hnext
    have hlec : next ≤ (c.adopt next).2 := by
      have hle := le_adoptAll [c] next
      exact hle
    have hlecs := le_adoptAll cs (c.adopt next).2
    have hc := ihc next hnext
    have hcs := ihcs (c.adopt next).2 (Nat.lt_of_lt_of_le hnext hlec)
    show ((c.adopt next).1.identities ++
      identitiesAll (adoptAll cs (c.adopt next).2).1).count k =
        (if k = 0 then 0 else (c.identities ++ identitiesAll cs).count k) +
          if next ≤ k ∧ k < (adoptAll cs (c.adopt next).2).2 then 1 else 0
    rw [List.count_append, List.count_append, hc, hcs]
    grind

end Node

/-! ## Ways past a change

In a tree with distinct identities every node has one way.  A child that gives way to others takes the ways
through it along; all other ways lead on, to nodes of the same identities. -/

namespace Node

variable {n m c d : Node} {ns cs : List Node} {s : Step} {v w : Way}

/-- A child is found by its step if no other child has its identity. -/
theorem find?_of_mem (hdistinct : (identitiesAll cs).Nodup) (hc : c ∈ cs) :
    cs.find? (⟨c.role, c.id⟩ : Step).leadsTo = some c := by
  obtain ⟨d, hd⟩ : ∃ d, cs.find? (⟨c.role, c.id⟩ : Step).leadsTo = some d :=
    Option.isSome_iff_exists.mp (List.find?_isSome.mpr ⟨c, hc, leadsTo_self c⟩)
  have hlead := List.find?_some hd
  simp only [Step.leadsTo, Bool.and_eq_true, beq_iff_eq] at hlead
  have hsame : c.id ∈ d.identities := hlead.2 ▸ (Inside.self d).id_mem
  rw [hd, eq_of_identitiesAll_nodup hdistinct (List.mem_of_find?_eq_some hd) hc hsame
    (Inside.self c).id_mem]

/-- A way through a child goes on as a way of the child. -/
theorem follow_cons (hdistinct : (identitiesAll n.children).Nodup) (hc : c ∈ n.children) (w : Way) :
    n.follow (⟨c.role, c.id⟩ :: w) = c.follow w := by
  rw [follow, find?_of_mem hdistinct hc]

/-- A way leads to every node inside. -/
theorem Inside.exists_follow (h : d.Inside n) (hdistinct : n.identities.Nodup) :
    ∃ w, n.follow w = some d := by
  induction h with
  | self => exact ⟨[], rfl⟩
  | @within c n hc _ ih =>
    have hall := nodup_identitiesAll hdistinct
    obtain ⟨w, hw⟩ := ih (nodup_of_mem hall hc)
    exact ⟨⟨c.role, c.id⟩ :: w, (follow_cons hall hc w).trans hw⟩

theorem exists_inside_of_mem {k : NodeId} (h : k ∈ n.identities) : ∃ d : Node, d.Inside n ∧ d.id = k := by
  refine Node.rec (motive_1 := fun n => k ∈ n.identities → ∃ d : Node, d.Inside n ∧ d.id = k)
    (motive_2 := fun cs => k ∈ identitiesAll cs → ∃ c ∈ cs, ∃ d : Node, d.Inside c ∧ d.id = k)
    ?_ ?_ ?_ n h
  · intro i r f cs ih hk
    obtain rfl | hk := List.mem_cons.mp hk
    · exact ⟨_, .self _, rfl⟩
    · obtain ⟨c, hc, d, hd, hid⟩ := ih hk
      exact ⟨d, .within hc hd, hid⟩
  · intro hk
    cases hk
  · intro c cs ihc ihcs hk
    obtain hk | hk := List.mem_append.mp hk
    · obtain ⟨d, hd, hid⟩ := ihc hk
      exact ⟨c, List.mem_cons_self, d, hd, hid⟩
    · obtain ⟨c', hc', hd⟩ := ihcs hk
      exact ⟨c', List.mem_cons_of_mem c hc', hd⟩

/-- The nodes along a way are those around the node to which it leads. -/
theorem exists_around_of_follow (h : n.follow w = some m) (hs : s ∈ w) :
    ∃ c ∈ n.children, ∃ d : Node, d.Inside c ∧ m.Inside d ∧ d.id = s.node := by
  induction w generalizing n with
  | nil => cases hs
  | cons s' w ih =>
    obtain ⟨c, hc, rfl, hm⟩ := child_of_follow h
    refine ⟨c, hc, ?_⟩
    obtain rfl | hs := List.mem_cons.mp hs
    · exact ⟨c, .self c, inside_of_follow hm, rfl⟩
    · obtain ⟨c', hc', d, hd, hin, hid⟩ := ih hm hs
      exact ⟨d, hd.trans (.child hc'), hin, hid⟩

theorem mem_identities_of_follow (h : n.follow w = some m) (hs : s ∈ w) :
    s.node ∈ identitiesAll n.children := by
  obtain ⟨c, hc, d, hd, -, hid⟩ := exists_around_of_follow h hs
  exact mem_identitiesAll.mpr ⟨c, hc, hid ▸ hd.id_mem⟩

/-- The last step of a way names the node to which it leads. -/
theorem id_of_follow (h : n.follow (w ++ [s]) = some m) : m.id = s.node := by
  rw [follow_append] at h
  obtain ⟨p, -, hstep⟩ := Option.bind_eq_some_iff.mp h
  rw [follow_step] at hstep
  have hlead := List.find?_some hstep
  simp only [Step.leadsTo, Bool.and_eq_true, beq_iff_eq] at hlead
  exact hlead.2

/-- The way to a node goes through every node around it. -/
theorem prefix_of_follow (hdistinct : n.identities.Nodup) (hc : n.follow v = some c)
    (hm : n.follow w = some m) (hin : m.id ∈ c.identities) : v <+: w := by
  obtain ⟨d, hd, hid⟩ := exists_inside_of_mem hin
  obtain ⟨u, hu⟩ := hd.exists_follow (nodup_of_follow hdistinct hc)
  have hway : n.follow (v ++ u) = some d := by
    rw [follow_append, hc]
    exact hu
  exact ⟨u, way_unique hdistinct hway hm hid⟩

theorem keeps_replaceChild (s : Step) (ns : List Node) : Keeps (replaceChild s ns) := by
  rintro ⟨i, r, f, cs⟩
  exact ⟨rfl, rfl⟩

theorem mem_replaceChild (hd : d ∈ n.children) (hs : s ≠ ⟨d.role, d.id⟩) :
    d ∈ (n.replaceChild s ns).children := by
  have hlead : s.leadsTo d = false := by
    refine Bool.eq_false_iff.mpr fun hlead => hs ?_
    simp only [Step.leadsTo, Bool.and_eq_true, beq_iff_eq] at hlead
    rw [hlead.1, hlead.2]
  rw [replaceChild, children_withChildren]
  refine List.mem_flatMap.mpr ⟨d, hd, ?_⟩
  rw [hlead]
  exact List.mem_singleton.mpr rfl

/-- A way that does not go through the child that gives way leads on. -/
theorem follow_exchange {f : Node → Node} (hkeeps : Keeps f)
    (hchildren : ∀ n, (f n).children = n.children)
    (hdistinct : (n.changeAt (fun m => f (m.replaceChild s ns)) v).identities.Nodup)
    (hm : n.follow w = some m) (hpast : ¬ v ++ [s] <+: w) :
    ∃ m', (n.changeAt (fun m => f (m.replaceChild s ns)) v).follow w = some m' ∧ m'.id = m.id := by
  have hboth : Keeps fun m => f (m.replaceChild s ns) := hkeeps.comp (keeps_replaceChild s ns)
  induction v generalizing n w with
  | nil =>
    have hall := nodup_identitiesAll hdistinct
    cases w with
    | nil =>
      cases hm
      exact ⟨_, rfl, (hboth m).1⟩
    | cons s' w =>
      obtain ⟨d, hd, rfl, hrest⟩ := child_of_follow hm
      have hne : s ≠ ⟨d.role, d.id⟩ := by
        rintro rfl
        exact hpast ⟨w, rfl⟩
      have hmem : d ∈ (f (n.replaceChild s ns)).children := by
        rw [hchildren]
        exact mem_replaceChild hd hne
      exact ⟨m, (follow_cons hall hmem w).trans hrest, rfl⟩
  | cons s₀ v ih =>
    have hall := nodup_identitiesAll hdistinct
    cases w with
    | nil =>
      cases hm
      exact ⟨_, rfl, (hboth.changeAt (s₀ :: v) m).1⟩
    | cons s' w =>
      obtain ⟨d, hd, rfl, hrest⟩ := child_of_follow hm
      let g : Node → Node := changeAt (fun m => f (m.replaceChild s ns)) v
      have hmem : (if s₀.leadsTo d then g d else d) ∈ (changeChild s₀ g n).children := by
        rw [children_changeChild]
        exact List.mem_map_of_mem hd
      change (identitiesAll (changeChild s₀ g n).children).Nodup at hall
      show ∃ m', (changeChild s₀ g n).follow _ = some m' ∧ m'.id = m.id
      split at hmem
      · next hlead =>
        have hsame := hboth.changeAt v d
        have hstep : s₀ = ⟨d.role, d.id⟩ := by
          simp only [Step.leadsTo, Bool.and_eq_true, beq_iff_eq] at hlead
          rw [hlead.1, hlead.2]
        have hpast' : ¬ v ++ [s] <+: w := by
          rintro ⟨u, rfl⟩
          exact hpast ⟨u, by rw [hstep, List.cons_append, List.cons_append]⟩
        obtain ⟨m', hm', hid⟩ := ih (nodup_of_mem hall hmem) hrest hpast'
        refine ⟨m', ?_, hid⟩
        have hway := follow_cons hall hmem w
        rw [hsame.1, hsame.2] at hway
        exact hway.trans hm'
      · exact ⟨m, (follow_cons hall hmem w).trans hrest, rfl⟩

end Node

end Untangle
