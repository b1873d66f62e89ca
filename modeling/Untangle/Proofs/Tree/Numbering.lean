import Mathlib.Data.List.TakeWhile
import Untangle.Proofs.Tree.Code
import Untangle.Tree.Edit

set_option autoImplicit false

/-!
# Numbered trees

A tree whose nodes are numbered has the numbers from the first one on, each of them once, and is otherwise
the tree that it was.  New nodes get numbers that no node has had.

What a tree is does not depend on the identities of its nodes.  Nodes that were made later than others are
told apart from them by their identities; with these forgotten, a tree that was changed is compared with one
that was built.
-/

namespace Untangle

namespace Node

/-! ## Numbers of nodes -/

theorem identities_number (n : Node) (next : NodeId) :
    (n.number next).1.identities = List.range' next n.size ∧ (n.number next).2 = next + n.size := by
  refine Node.rec
    (motive_1 := fun n => ∀ next, (n.number next).1.identities = List.range' next n.size ∧
      (n.number next).2 = next + n.size)
    (motive_2 := fun cs => ∀ next,
      identitiesAll (numberAll cs next).1 = List.range' next (sizeAll cs) ∧
        (numberAll cs next).2 = next + sizeAll cs) ?_ ?_ ?_ n next
  · intro i r f cs ih next
    obtain ⟨hids, hnext⟩ := ih (next + 1)
    refine ⟨?_, ?_⟩
    · show next :: identitiesAll (numberAll cs (next + 1)).1 = List.range' next (1 + sizeAll cs)
      rw [hids, Nat.add_comm 1, List.range'_succ]
    · show (numberAll cs (next + 1)).2 = next + (1 + sizeAll cs)
      rw [hnext, Nat.add_assoc]
  · exact fun next => ⟨rfl, rfl⟩
  · intro c cs ihc ihcs next
    obtain ⟨hids, hnext⟩ := ihc next
    obtain ⟨hids', hnext'⟩ := ihcs (c.number next).2
    refine ⟨?_, ?_⟩
    · show (c.number next).1.identities ++ identitiesAll (numberAll cs (c.number next).2).1 = _
      rw [hids, hids', hnext, sizeAll, List.range'_append_1]
    · show (numberAll cs (c.number next).2).2 = _
      rw [hnext', hnext, sizeAll, Nat.add_assoc]

theorem size_number (n : Node) (next : NodeId) : (n.number next).1.size = n.size := by
  refine Node.rec (motive_1 := fun n => ∀ next, (n.number next).1.size = n.size)
    (motive_2 := fun cs => ∀ next, sizeAll (numberAll cs next).1 = sizeAll cs) ?_ ?_ ?_ n next
  · intro i r f cs ih next
    show 1 + sizeAll (numberAll cs (next + 1)).1 = 1 + sizeAll cs
    rw [ih]
  · exact fun next => rfl
  · intro c cs ihc ihcs next
    show (c.number next).1.size + sizeAll (numberAll cs (c.number next).2).1 =
      c.size + sizeAll cs
    rw [ihc, ihcs]

theorem depth_number (n : Node) (next : NodeId) : (n.number next).1.depth = n.depth := by
  refine Node.rec (motive_1 := fun n => ∀ next, (n.number next).1.depth = n.depth)
    (motive_2 := fun cs => ∀ next, depthAll (numberAll cs next).1 = depthAll cs) ?_ ?_ ?_ n next
  · intro i r f cs ih next
    show 1 + depthAll (numberAll cs (next + 1)).1 = 1 + depthAll cs
    rw [ih]
  · exact fun next => rfl
  · intro c cs ihc ihcs next
    show max (c.number next).1.depth (depthAll (numberAll cs (c.number next).2).1) =
      max c.depth (depthAll cs)
    rw [ihc, ihcs]

theorem role_adopt (n : Node) (next : NodeId) : (n.adopt next).1.role = n.role := by
  obtain ⟨i, r, f, cs⟩ := n
  unfold adopt
  split <;> rfl

theorem form_adopt (n : Node) (next : NodeId) : (n.adopt next).1.form = n.form := by
  obtain ⟨i, r, f, cs⟩ := n
  unfold adopt
  split <;> rfl

theorem le_adoptAll (cs : List Node) (next : NodeId) : next ≤ (adoptAll cs next).2 := by
  refine Node.rec_1 (motive_1 := fun n => ∀ next, next ≤ (n.adopt next).2)
    (motive_2 := fun cs => ∀ next, next ≤ (adoptAll cs next).2) ?_ ?_ ?_ cs next
  · intro i r f cs ih next
    unfold adopt
    split
    · exact Nat.le_trans (Nat.le_succ next) (ih (next + 1))
    · exact ih next
  · exact fun next => Nat.le_refl next
  · intro c cs ihc ihcs next
    exact Nat.le_trans (ihc next) (ihcs (c.adopt next).2)

/-- A node without identity gets the next one. -/
theorem adopt_of_unnumbered {n : Node} (h : n.id = 0) (next : NodeId) :
    (n.adopt next).1.id = next ∧ next < (n.adopt next).2 := by
  obtain ⟨k, r, f, cs⟩ := n
  cases h
  have hle := le_adoptAll cs (next + 1)
  exact ⟨rfl, hle⟩

/-! ## Slots -/

/-- Whether the children of a node stand in slots of its form. -/
def fillsSlots (n : Node) : Bool :=
  n.children.all fun c => (n.form.slots.map Slot.role).contains c.role

/-- Whether all nodes of a tree have their children in slots of their forms. -/
def isSlotted (n : Node) : Bool := n.everywhere fillsSlots

theorem isSlotted_number (n : Node) (next : NodeId) :
    (n.number next).1.isSlotted = n.isSlotted ∧ (n.number next).1.role = n.role := by
  refine Node.rec
    (motive_1 := fun n => ∀ next, (n.number next).1.everywhere fillsSlots = n.everywhere fillsSlots ∧
      (n.number next).1.role = n.role)
    (motive_2 := fun cs => ∀ next,
      everywhereAll fillsSlots (numberAll cs next).1 = everywhereAll fillsSlots cs ∧
        (numberAll cs next).1.map Node.role = cs.map Node.role) ?_ ?_ ?_ n next
  · intro i r f cs ih next
    obtain ⟨hbelow, hroles⟩ := ih (next + 1)
    refine ⟨?_, rfl⟩
    have hfills : ∀ (k : NodeId) (ds : List Node), fillsSlots (.mk k r f ds) =
        (ds.map Node.role).all (f.slots.map Slot.role).contains :=
      fun k ds => by rw [List.all_map]; rfl
    show (fillsSlots (.mk next r f (numberAll cs (next + 1)).1) &&
      everywhereAll fillsSlots (numberAll cs (next + 1)).1) =
        (fillsSlots (.mk i r f cs) && everywhereAll fillsSlots cs)
    rw [hfills, hfills, hbelow, hroles]
  · exact fun next => ⟨rfl, rfl⟩
  · intro c cs ihc ihcs next
    obtain ⟨hc, hrole⟩ := ihc next
    obtain ⟨hcs, hroles⟩ := ihcs (c.number next).2
    refine ⟨?_, ?_⟩
    · show ((c.number next).1.everywhere fillsSlots &&
        everywhereAll fillsSlots (numberAll cs (c.number next).2).1) =
          (c.everywhere fillsSlots && everywhereAll fillsSlots cs)
      rw [hc, hcs]
    · show (c.number next).1.role :: (numberAll cs (c.number next).2).1.map Node.role = _
      rw [hrole, hroles]
      rfl

theorem role_mem_slots {n c : Node} (h : n.isSlotted = true) (hc : c ∈ n.children) :
    c.role ∈ n.form.slots.map Slot.role := by
  have hself := everywhere_iff.mp h n (.self n)
  exact List.contains_iff_mem.mp (List.all_eq_true.mp hself c hc)

theorem isSlotted_child {n c : Node} (h : n.isSlotted = true) (hc : c ∈ n.children) :
    c.isSlotted = true :=
  everywhere_iff.mpr fun d hd => everywhere_iff.mp h d (.within hc hd)

/-! ## Depths -/

theorem depth_lt_of_mem {n c : Node} (hc : c ∈ n.children) : c.depth < n.depth := by
  have hall : ∀ {cs : List Node}, c ∈ cs → c.depth ≤ depthAll cs := by
    intro cs h
    induction cs with
    | nil => cases h
    | cons d cs ih =>
      rw [depthAll]
      obtain rfl | h := List.mem_cons.mp h
      · exact Nat.le_max_left _ _
      · exact Nat.le_trans (ih h) (Nat.le_max_right _ _)
  obtain ⟨i, r, f, cs⟩ := n
  have hle : c.depth ≤ depthAll cs := hall hc
  rw [depth]
  omega

theorem depth_pos (n : Node) : 0 < n.depth := by
  cases n
  rw [depth]
  omega

/-- Children of a tree with different identities have different identities. -/
theorem nodup_children {n : Node} (h : n.identities.Nodup) : (n.children.map Node.id).Nodup := by
  have hall : ∀ {cs : List Node}, (identitiesAll cs).Nodup → (cs.map Node.id).Nodup := by
    intro cs hcs
    induction cs with
    | nil => exact List.nodup_nil
    | cons c cs ih =>
      obtain ⟨-, hrest, hapart⟩ := List.nodup_append.mp hcs
      refine List.nodup_cons.mpr ⟨fun hmem => ?_, ih hrest⟩
      obtain ⟨d, hd, heq⟩ := List.mem_map.mp hmem
      have hid : c.id ∈ d.identities := heq ▸ (Inside.self d).id_mem
      exact hapart _ (Inside.self c).id_mem _ (mem_identitiesAll.mpr ⟨d, hd, hid⟩) rfl
  rw [identities_eq] at h
  exact hall (List.nodup_cons.mp h).2

/-! ## Other identities -/

mutual

/-- The tree with other identities. -/
def relabel (g : NodeId → NodeId) : Node → Node
  | .mk i r f cs => .mk (g i) r f (relabelAll g cs)

/-- The trees with other identities. -/
def relabelAll (g : NodeId → NodeId) : List Node → List Node
  | [] => []
  | c :: cs => relabel g c :: relabelAll g cs

end

theorem relabelAll_eq_map (g : NodeId → NodeId) (ns : List Node) :
    relabelAll g ns = ns.map (relabel g) := by
  induction ns with
  | nil => rfl
  | cons n ns ih => rw [relabelAll, ih, List.map_cons]

variable {n : Node} (g : NodeId → NodeId)

@[simp] theorem form_relabel (n : Node) : (n.relabel g).form = n.form := by
  cases n
  rfl

@[simp] theorem role_relabel (n : Node) : (n.relabel g).role = n.role := by
  cases n
  rfl

@[simp] theorem id_relabel (n : Node) : (n.relabel g).id = g n.id := by
  cases n
  rfl

@[simp] theorem children_relabel (n : Node) : (n.relabel g).children = n.children.map (relabel g) := by
  cases n with
  | mk i r f cs => exact relabelAll_eq_map g cs

@[simp] theorem relabel_inRole (n : Node) (r : Role) : (n.inRole r).relabel g = (n.relabel g).inRole r := by
  cases n
  rfl

theorem inSlot_relabel (r : Role) :
    (fun c : Node => c.role == r) ∘ relabel g = fun c => c.role == r :=
  funext fun c => congrArg (· == r) (role_relabel g c)

@[simp] theorem child?_relabel (n : Node) (r : Role) :
    (n.relabel g).child? r = (n.child? r).map (relabel g) := by
  rw [child?, child?, children_relabel, List.find?_map, inSlot_relabel]

theorem relabel_relabel (h : NodeId → NodeId) (n : Node) :
    (n.relabel g).relabel h = n.relabel (h ∘ g) := by
  refine Node.rec (motive_1 := fun n => (n.relabel g).relabel h = n.relabel (h ∘ g))
    (motive_2 := fun ns => relabelAll h (relabelAll g ns) = relabelAll (h ∘ g) ns) ?_ ?_ ?_ n
  · intro i r f cs ih
    simp only [relabel, ih, Function.comp]
  · rfl
  · intro c cs ih ihs
    simp only [relabelAll, ih, ihs]

/-- A copy without identities is the tree with the identity zero everywhere. -/
theorem unnumbered_eq_relabel (n : Node) : n.unnumbered = n.relabel fun _ => 0 := by
  refine Node.rec (motive_1 := fun n => n.unnumbered = n.relabel fun _ => 0)
    (motive_2 := fun ns => unnumberedAll ns = relabelAll (fun _ => 0) ns) ?_ ?_ ?_ n
  · intro i r f cs ih
    simp only [relabel, unnumbered, ih]
  · rfl
  · intro c cs ih ihs
    simp only [relabelAll, unnumberedAll, ih, ihs]

@[simp] theorem unnumbered_relabel (n : Node) : (n.relabel g).unnumbered = n.unnumbered := by
  rw [unnumbered_eq_relabel, unnumbered_eq_relabel, relabel_relabel]
  rfl

@[simp] theorem form_number (n : Node) (next : NodeId) : (n.number next).1.form = n.form := by
  cases n
  rfl

@[simp] theorem unnumbered_number (n : Node) (next : NodeId) :
    (n.number next).1.unnumbered = n.unnumbered := by
  refine Node.rec (motive_1 := fun n => ∀ next, (n.number next).1.unnumbered = n.unnumbered)
    (motive_2 := fun ns => ∀ next, unnumberedAll (numberAll ns next).1 = unnumberedAll ns) ?_ ?_ ?_ n next
  · intro i r f cs ih next
    simp only [number, unnumbered, ih]
  · exact fun next => rfl
  · intro c cs ih ihs next
    simp only [numberAll, unnumberedAll, ih, ihs]

/-- What stands in a tree with other identities. -/
theorem inside_relabel_iff {d : Node} :
    d.Inside (n.relabel g) ↔ ∃ e : Node, e.Inside n ∧ d = e.relabel g := by
  constructor
  · intro h
    generalize hcopy : n.relabel g = m at h
    induction h generalizing n with
    | self => exact ⟨n, .self n, hcopy.symm⟩
    | within hc _ ih =>
      rw [← hcopy, children_relabel] at hc
      obtain ⟨c, hc, hsame⟩ := List.mem_map.mp hc
      obtain ⟨e, he, hd⟩ := ih hsame
      exact ⟨e, .within hc he, hd⟩
  · rintro ⟨e, he, rfl⟩
    induction he with
    | self => exact .self _
    | within hc _ ih =>
      refine .within ?_ ih
      rw [children_relabel]
      exact List.mem_map_of_mem hc

theorem depth_relabel (n : Node) : (n.relabel g).depth = n.depth := by
  refine Node.rec (motive_1 := fun n => (n.relabel g).depth = n.depth)
    (motive_2 := fun ns => depthAll (relabelAll g ns) = depthAll ns) ?_ ?_ ?_ n
  · intro i r f cs ih
    simp only [relabel, depth, ih]
  · rfl
  · intro c cs ih ihs
    simp only [relabelAll, depthAll, ih, ihs]

/-- A check that does not look at identities. -/
theorem everywhere_relabel {p : Node → Bool} (hp : ∀ d : Node, p (d.relabel g) = p d) (n : Node) :
    (n.relabel g).everywhere p = n.everywhere p := by
  rw [Bool.eq_iff_iff, everywhere_iff, everywhere_iff]
  constructor
  · intro h d hd
    rw [← hp]
    exact h _ ((inside_relabel_iff g).mpr ⟨d, hd, rfl⟩)
  · intro h d hd
    obtain ⟨e, he, rfl⟩ := (inside_relabel_iff g).mp hd
    rw [hp]
    exact h e he

/-! ## Nodes that are new -/

/-- The tree in which all nodes that were made from a number on have no identity. -/
def forgetNew (bound : NodeId) (n : Node) : Node := n.relabel fun i => if i < bound then i else 0

theorem forgetNew_mk (bound i : NodeId) (r : Role) (f : Form) (cs : List Node) :
    (mk i r f cs).forgetNew bound =
      .mk (if i < bound then i else 0) r f (cs.map (forgetNew bound)) :=
  congrArg (Node.mk _ r f) (relabelAll_eq_map _ cs)

/-- In a tree without new nodes there is nothing to forget. -/
theorem forgetNew_of_old {bound : NodeId} (h : ∀ i ∈ n.identities, i < bound) : n.forgetNew bound = n := by
  refine Node.rec
    (motive_1 := fun n => (∀ i ∈ n.identities, i < bound) → n.forgetNew bound = n)
    (motive_2 := fun ns => (∀ i ∈ identitiesAll ns, i < bound) → ns.map (forgetNew bound) = ns)
    ?_ ?_ ?_ n h
  · intro i r f cs ih hids
    rw [identities] at hids
    rw [forgetNew_mk, if_pos (hids i List.mem_cons_self), ih fun j hj => hids j (List.mem_cons_of_mem _ hj)]
  · exact fun _ => rfl
  · intro c cs ih ihs hids
    rw [identitiesAll] at hids
    rw [List.map_cons, ih fun j hj => hids j (List.mem_append_left _ hj),
      ihs fun j hj => hids j (List.mem_append_right _ hj)]

/-- A tree without identities that is taken up has new identities only. -/
theorem forgetNew_adopt {bound next : NodeId} (hbound : bound ≤ next) (hn : n.unnumbered = n) :
    (n.adopt next).1.forgetNew bound = n := by
  have hall : ∀ next, bound ≤ next → (n.unnumbered.adopt next).1.forgetNew bound = n.unnumbered := by
    refine Node.rec
      (motive_1 := fun n => ∀ next, bound ≤ next →
        (n.unnumbered.adopt next).1.forgetNew bound = n.unnumbered)
      (motive_2 := fun ns => ∀ next, bound ≤ next →
        (adoptAll (unnumberedAll ns) next).1.map (forgetNew bound) = unnumberedAll ns) ?_ ?_ ?_ n
    · intro i r f cs ih next hbound
      have hnew : ¬ next < bound := Nat.not_lt.mpr hbound
      simp only [unnumbered, adopt, forgetNew, relabel, beq_self_eq_true, if_true, if_neg hnew,
        relabelAll_eq_map]
      exact congrArg (Node.mk 0 r f) (ih (next + 1) (Nat.le_succ_of_le hbound))
    · exact fun next _ => rfl
    · intro c cs ih ihs next hbound
      have hle : next ≤ (c.unnumbered.adopt next).2 := by
        have hall := le_adoptAll [c.unnumbered] next
        exact hall
      simp only [unnumberedAll, adoptAll, List.map_cons, ih next hbound,
        ihs _ (Nat.le_trans hbound hle)]
  have h := hall next hbound
  rwa [hn] at h

/-- A tree is known if nothing in it is new. -/
theorem eq_of_forgetNew {bound : NodeId} {m : Node} (h : n.forgetNew bound = m)
    (hm : ∀ i ∈ m.identities, i ≠ 0) : n = m := by
  have hall : (∀ i ∈ (n.forgetNew bound).identities, i ≠ 0) → n.forgetNew bound = n := by
    refine Node.rec
      (motive_1 := fun n => (∀ i ∈ (n.forgetNew bound).identities, i ≠ 0) → n.forgetNew bound = n)
      (motive_2 := fun ns => (∀ i ∈ identitiesAll (ns.map (forgetNew bound)), i ≠ 0) →
        ns.map (forgetNew bound) = ns) ?_ ?_ ?_ n
    · intro i r f cs ih hids
      rw [forgetNew_mk, identities] at hids
      have hkept : (if i < bound then i else 0) = i := by
        split
        · rfl
        · next hnew => exact absurd (if_neg hnew) (hids _ List.mem_cons_self)
      rw [forgetNew_mk, hkept, ih fun j hj => hids j (List.mem_cons_of_mem _ hj)]
    · exact fun _ => rfl
    · intro c cs ih ihs hids
      rw [List.map_cons, identitiesAll] at hids
      rw [List.map_cons, ih fun j hj => hids j (List.mem_append_left _ hj),
        ihs fun j hj => hids j (List.mem_append_right _ hj)]
  rw [← hall (h ▸ hm), h]

/-! ## Children in the order of the slots -/

/-- Whether nodes in some slots come slot by slot. -/
def takesSlots : List Slot → List Role → Bool
  | [], rs => rs.isEmpty
  | s :: ss, rs => takesSlots ss (rs.dropWhile (· == s.role))

/-- Whether the children of a node stand in the slots of its form, slot by slot. -/
def fillsInOrder (n : Node) : Bool := takesSlots n.form.slots (n.children.map role)

/-- Whether all nodes of a tree have their children in the slots of their forms, slot by slot. -/
def isOrdered (n : Node) : Bool := n.everywhere fillsInOrder

theorem flatMap_filter_of_takesSlots {ss : List Slot} {cs : List Node} (hdistinct : (ss.map Slot.role).Nodup)
    (h : takesSlots ss (cs.map role) = true) :
    (ss.flatMap fun s => cs.filter fun c => c.role == s.role) = cs := by
  induction ss generalizing cs with
  | nil =>
    rw [takesSlots, List.isEmpty_iff, List.map_eq_nil_iff] at h
    rw [h]
    rfl
  | cons s ss ih =>
    rw [List.map_cons, List.nodup_cons] at hdistinct
    rw [takesSlots, List.dropWhile_map] at h
    generalize hrest : cs.dropWhile ((· == s.role) ∘ role) = rest at h
    generalize htaken : cs.takeWhile ((· == s.role) ∘ role) = taken
    have hcs : cs = taken ++ rest := by
      rw [← htaken, ← hrest]
      exact List.takeWhile_append_dropWhile.symm
    have hlater := ih hdistinct.2 h
    have hfirst : ∀ c ∈ taken, c.role = s.role := by
      intro c hc
      rw [← htaken] at hc
      have hrole := List.mem_takeWhile_imp hc
      exact eq_of_beq hrole
    have hothers : ∀ c ∈ rest, c.role ∈ ss.map Slot.role := by
      intro c hc
      rw [← hlater] at hc
      obtain ⟨s', hs', hc⟩ := List.mem_flatMap.mp hc
      exact List.mem_map.mpr ⟨s', hs', (eq_of_beq (List.mem_filter.mp hc).2).symm⟩
    have hhead : cs.filter (fun c => c.role == s.role) = taken := by
      rw [hcs, List.filter_append, List.filter_eq_self.mpr fun c hc => by simp [hfirst c hc],
        List.filter_eq_nil_iff.mpr, List.append_nil]
      intro c hc
      have hne : c.role ≠ s.role := fun heq => hdistinct.1 (heq ▸ hothers c hc)
      simpa using hne
    have htail : ∀ s' ∈ ss, cs.filter (fun c => c.role == s'.role) =
        rest.filter fun c => c.role == s'.role := by
      intro s' hs'
      rw [hcs, List.filter_append, List.filter_eq_nil_iff.mpr, List.nil_append]
      intro c hc
      have hne : c.role ≠ s'.role := fun heq =>
        hdistinct.1 (List.mem_map.mpr ⟨s', hs', heq.symm.trans (hfirst c hc)⟩)
      simpa using hne
    rw [List.flatMap_cons, hhead, List.flatMap_congr htail, hlater, hcs]

/-- The children of a node slot by slot. -/
theorem flatMap_childrenAt {n : Node} (hdistinct : (n.form.slots.map Slot.role).Nodup)
    (h : n.isOrdered = true) : (n.form.slots.flatMap fun s => n.childrenAt s.role) = n.children :=
  flatMap_filter_of_takesSlots hdistinct (everywhere_iff.mp h n (.self n))

theorem mem_of_takesSlots {ss : List Slot} {rs : List Role} (h : takesSlots ss rs = true) {r : Role}
    (hr : r ∈ rs) : r ∈ ss.map Slot.role := by
  induction ss generalizing rs with
  | nil =>
    rw [takesSlots, List.isEmpty_iff] at h
    rw [h] at hr
    cases hr
  | cons s ss ih =>
    rw [← List.takeWhile_append_dropWhile (p := (· == s.role)) (l := rs)] at hr
    rw [List.map_cons, List.mem_cons]
    rcases List.mem_append.mp hr with hr | hr
    · have hrole := List.mem_takeWhile_imp hr
      exact .inl (eq_of_beq hrole)
    · exact .inr (ih h hr)

theorem isSlotted_of_isOrdered (h : n.isOrdered = true) : n.isSlotted = true := by
  refine everywhere_iff.mpr fun d hd => ?_
  have hfills := everywhere_iff.mp h d hd
  refine List.all_eq_true.mpr fun c hc => List.contains_iff_mem.mpr ?_
  exact mem_of_takesSlots hfills (List.mem_map_of_mem hc)

theorem isOrdered_child {c : Node} (h : n.isOrdered = true) (hc : c ∈ n.children) :
    c.isOrdered = true :=
  everywhere_iff.mpr fun d hd => everywhere_iff.mp h d (.within hc hd)

theorem isOrdered_relabel (n : Node) : (n.relabel g).isOrdered = n.isOrdered := by
  refine everywhere_relabel g (fun d => ?_) n
  unfold fillsInOrder
  rw [form_relabel, children_relabel, List.map_map]
  exact congrArg _ (List.map_congr_left fun c _ => role_relabel g c)

theorem isOrdered_number (n : Node) (next : NodeId) : (n.number next).1.isOrdered = n.isOrdered := by
  rw [← isOrdered_relabel (fun _ => 0) (n.number next).1, ← unnumbered_eq_relabel, unnumbered_number,
    unnumbered_eq_relabel, isOrdered_relabel]

end Node

end Untangle
