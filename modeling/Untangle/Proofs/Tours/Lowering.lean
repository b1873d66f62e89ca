import Untangle.Proofs.Tours.Load

set_option autoImplicit false

/-!
# Rules lower the load

An action of a rule that comes to its end leaves the program as it is, or lowers its load.  What gives way
weighs more than what comes in its place, and the load of a tree follows those of its parts.
-/

namespace Untangle

open Node (identitiesAll load loadAll)

/-! ## Parts and wholes -/

/-- A whole follows a part of it: where the part does not get heavier neither does the whole, and where the
part gets lighter so does the whole. -/
structure Follows (part part' whole whole' : Nat) : Prop where
  le : part' ≤ part → whole' ≤ whole
  lt : part' < part → whole' < whole

theorem Follows.trans_le {part part' whole whole' whole'' : Nat} (h : Follows part part' whole whole')
    (hle : whole'' ≤ whole') : Follows part part' whole whole'' :=
  ⟨fun hpart => Nat.le_trans hle (h.le hpart), fun hpart => Nat.lt_of_le_of_lt hle (h.lt hpart)⟩

namespace Node

variable {n m c c' old : Node} {cs ds ns : List Node} {s : Step} {w : Way} {f : Node → Node}
  {k o x : Nat}

/-- The load of a node follows that of its children, if it keeps its form and no slot gets filled. -/
theorem follows_children {i j : NodeId} {r r' : Role} {form : Form}
    (hroles : ∀ d ∈ ds, ∃ c ∈ cs, c.role = d.role) (h : Follows o x (loadAll k cs) (loadAll k ds)) :
    Follows o x ((Node.mk i r form cs).load k) ((Node.mk j r' form ds).load k) := by
  have hfill : ∀ s, fill cs s = false → fill ds s = false := fun s hnone =>
    Bool.eq_false_iff.mpr fun hsome => Bool.eq_false_iff.mp hnone (fill_of_roles hroles hsome)
  have hown : ownLoad form ds ≤ ownLoad form cs := by
    have hcallee := hfill .callee
    have hinit := hfill .init
    unfold ownLoad
    revert hcallee hinit
    cases fill cs .callee <;> cases fill cs .init <;> cases fill ds .callee <;> cases fill ds .init <;>
      simp [Nat.add_assoc]
  have hfactor : factor k ds ≤ factor k cs := by
    have hinit := hfill .init
    unfold factor
    revert hinit
    cases fill cs .init <;> cases fill ds .init <;> simp
  have hone := one_le_factor k cs
  rw [load, load]
  refine ⟨fun hle => ?_, fun hlt => ?_⟩
  · have hmul := Nat.mul_le_mul hfactor (h.le hle)
    omega
  · have hmul := Nat.mul_le_mul_right (loadAll k ds) hfactor
    have hstrict := Nat.mul_lt_mul_of_pos_left (h.lt hlt) hone
    omega

theorem follows_append (h : Follows o x (loadAll k cs) (loadAll k ds)) (before after : List Node) :
    Follows o x (loadAll k (before ++ (cs ++ after))) (loadAll k (before ++ (ds ++ after))) := by
  simp only [loadAll_append]
  exact ⟨fun hle => by have := h.le hle; omega, fun hlt => by have := h.lt hlt; omega⟩

/-- The load of a tree follows that of a child that gives way. -/
theorem follows_replaceChild (hdistinct : (identitiesAll n.children).Nodup)
    (hold : n.children.find? s.leadsTo = some old) (ns : List Node) :
    Follows (old.load k) (loadAll k ns) (n.load k) ((n.replaceChild s ns).load k) := by
  obtain ⟨i, r, form, cs⟩ := n
  obtain ⟨before, after, hchildren, hlead, hbefore, hafter⟩ := split_of_find? hdistinct hold
  simp only [children] at hchildren
  have hrole : old.role = s.role := by
    simp only [Step.leadsTo, Bool.and_eq_true, beq_iff_eq] at hlead
    exact hlead.1
  have hnow : (Node.mk i r form cs).replaceChild s ns =
      .mk i r form (before ++ (ns.map (inRole s.role) ++ after)) := by
    show (Node.mk i r form cs).withChildren _ = _
    simp only [children, hchildren, List.flatMap_append, List.flatMap_cons, hlead, if_true,
      flatMap_of_not_leadsTo hbefore, flatMap_of_not_leadsTo hafter]
    rfl
  rw [hnow, hchildren, ← List.singleton_append]
  refine follows_children (fun d hd => ?_) (follows_append ?_ before after)
  · simp only [List.mem_append, List.mem_map] at hd
    obtain hd | ⟨e, -, rfl⟩ | hd := hd
    · exact ⟨d, by simp [hd], rfl⟩
    · exact ⟨old, by simp, hrole.trans (role_inRole e s.role).symm⟩
    · exact ⟨d, by simp [hd], rfl⟩
  · rw [loadAll_map_inRole, loadAll_cons, loadAll_nil, Nat.add_zero]
    exact ⟨fun h => h, fun h => h⟩

/-- The load of a tree follows that of a node inside of it that is changed. -/
theorem follows_changeAt (hf : Keeps f) (hdistinct : n.identities.Nodup) (hm : n.follow w = some m)
    (h : Follows o x (m.load k) ((f m).load k)) : Follows o x (n.load k) ((n.changeAt f w).load k) := by
  induction w generalizing n with
  | nil =>
    cases hm
    exact h
  | cons s w ih =>
    rw [follow_cons_eq] at hm
    obtain ⟨c, hc, hrest⟩ := Option.bind_eq_some_iff.mp hm
    obtain ⟨i, r, form, cs⟩ := n
    have hall := nodup_identitiesAll hdistinct
    have hbelow := ih (nodup_of_mem hall (List.mem_of_find?_eq_some hc)) hrest
    obtain ⟨before, after, hchildren, hlead, hbefore, hafter⟩ := split_of_find? hall hc
    simp only [children] at hchildren
    have hnow : (Node.mk i r form cs).changeAt f (s :: w) =
        .mk i r form (before ++ ([c.changeAt f w] ++ after)) := by
      show (Node.mk i r form cs).withChildren _ = _
      simp only [children, hchildren, List.map_append, List.map_cons, hlead, if_true,
        map_of_not_leadsTo hbefore, map_of_not_leadsTo hafter]
      rfl
    rw [hnow, hchildren, ← List.singleton_append]
    refine follows_children (fun d hd => ?_) (follows_append ?_ before after)
    · simp only [List.mem_append, List.mem_singleton] at hd
      obtain hd | rfl | hd := hd
      · exact ⟨d, by simp [hd], rfl⟩
      · exact ⟨c, by simp, (hf.changeAt w c).2.symm⟩
      · exact ⟨d, by simp [hd], rfl⟩
    · simpa only [loadAll_cons, loadAll_nil, Nat.add_zero] using hbelow

theorem load_valueReplaced (r : Role) (n : Node) : (n.valueReplaced r).load k = n.load k := by
  unfold valueReplaced
  split
  · next hform =>
    obtain ⟨i, r, f, cs⟩ := n
    cases hform
    rfl
  · rfl

end Node

/-! ## Changes through sites -/

namespace Analysis

variable {a a' b c : Analysis} {i p : SiteId} {old new n : Node} {ns news : List Node} {f : Node → Node}
  {k : Nat} {action : EditAction}

theorem follows_substitute (ha : Sound a) (heditable : a.editable i action = .ok (old, p))
    (hkeeps : Node.Keeps f) (hload : ∀ n, (f n).load k = n.load k) (hprogram : c.program = a.program)
    (hsites : c.sites = a.sites) (news : List Node) :
    Follows (old.load k) (loadAll k news) (a.program.load k)
      ((c.substitute i p old news f).program.load k) := by
  have hsame : ∀ j, c.site j = a.site j := fun j => by rw [site, site, hsites]
  have hway : c.way p = a.way p := way_congr fun j _ => hsame j
  have hfound := follow_of_editable (rooted_of_editable ha.ordered heditable) heditable
  rw [Node.follow_append] at hfound
  obtain ⟨m, hm, hold⟩ := Option.bind_eq_some_iff.mp hfound
  rw [Node.follow_step] at hold
  have hchild := Node.follows_replaceChild (k := k)
    (Node.nodup_identitiesAll (Node.nodup_of_follow ha.numbered.distinct hm)) hold news
  rw [← hload (m.replaceChild _ news)] at hchild
  show Follows _ _ _ ((c.program.changeAt _ (c.way p)).load k)
  rw [hprogram, hway, hsame]
  exact Node.follows_changeAt (f := fun m => f (m.replaceChild _ news))
    (hkeeps.comp (Node.keeps_replaceChild _ news)) ha.numbered.distinct hm hchild

/-- The load of the program follows that of a node that is replaced. -/
theorem follows_replace (ha : Sound a) (hok : a.replace i new = .ok a') :
    ∃ old, a.attachedNode? i = some old ∧
      Follows (old.load k) (new.load k) (a.program.load k) (a'.program.load k) := by
  unfold replace at hok
  obtain ⟨⟨old, p⟩, heditable, hok⟩ := except_bind_eq_ok.mp hok
  cases hok
  refine ⟨old, (editable_eq_ok heditable).1, ?_⟩
  have hload : ∀ n : Node, (if (a.site i).listed then n else n.valueReplaced (a.site i).role).load k =
      n.load k := by
    intro n
    split
    · rfl
    · exact Node.load_valueReplaced _ n
  have hfollows := follows_substitute (c := { a with next := (new.adopt a.next).2 }) ha heditable
    (keeps_valueReplaced (a.site i).listed (a.site i).role) hload rfl rfl [(new.adopt a.next).1]
  rw [Node.loadAll_cons, Node.loadAll_nil, Nat.add_zero, Node.load_adopt] at hfollows
  rw [(extends_register _ i).program]
  exact hfollows

/-- The load of the program follows that of a node in whose place several statements are put. -/
theorem follows_replaceMany (ha : Sound a) (hok : a.replaceMany i ns = .ok a') :
    ∃ old, a.attachedNode? i = some old ∧
      Follows (old.load k) (loadAll k ns) (a.program.load k) (a'.program.load k) := by
  unfold replaceMany at hok
  split at hok
  · cases hok
  simp only at hok
  split at hok
  · obtain ⟨⟨old, p⟩, heditable, hok⟩ := except_bind_eq_ok.mp hok
    cases hok
    refine ⟨old, (editable_eq_ok heditable).1, ?_⟩
    have hfollows := follows_substitute (k := k)
      (c := (a.adopt (ns.map (Node.inRole (a.site i).role))).2) ha heditable Node.keeps_refl
      (fun _ => rfl) rfl rfl (Node.adoptAll (ns.map (Node.inRole (a.site i).role)) a.next).1
    rw [Node.loadAll_adoptAll, Node.loadAll_map_inRole] at hfollows
    rw [(extends_registerSpliced _ p _).program]
    exact hfollows
  · obtain ⟨old, hold, hfollows⟩ := follows_replace (k := k) ha hok
    refine ⟨old, hold, ?_⟩
    rwa [show (Node.block ns).load k = loadAll k ns from
      Node.load_make_inRole _ (fun op h => by cases h) (by decide) (by decide) ns] at hfollows

theorem loadAll_leftBehind {parent : Node} {r : Role} (h : leftBehind? n parent r = some ns) :
    loadAll k ns = 0 := by
  unfold leftBehind? at h
  split at h
  all_goals first
    | cases h
      rfl
    | split at h
      · cases h
        exact (Nat.add_zero _).trans (Node.load_leaf _ fun op h => by cases h)
      · cases h

/-- The load of the program follows that of a node that is taken out. -/
theorem follows_removeOne (ha : Sound a) (hok : a.removeOne i = .ok a') :
    ∃ old, a.attachedNode? i = some old ∧
      Follows (old.load k) 0 (a.program.load k) (a'.program.load k) := by
  obtain ⟨old, p, rest, heditable, hrest, rfl⟩ : ∃ old p rest, a.editable i .remove = .ok (old, p) ∧
      loadAll k rest = 0 ∧ a' = (((a.forgetDeclarator i old).adopt rest).2.substitute i p old
        ((a.forgetDeclarator i old).adopt rest).1 fun n => n).retire i := by
    unfold removeOne at hok
    obtain ⟨⟨old, p⟩, heditable, hok⟩ := except_bind_eq_ok.mp hok
    simp only [pure_bind] at hok
    split at hok
    · cases hok
      exact ⟨old, p, [], heditable, rfl, rfl⟩
    · split at hok
      · next rest hrest =>
        cases hok
        exact ⟨old, p, rest, heditable, loadAll_leftBehind hrest, rfl⟩
      · cases hok
  obtain ⟨hprogram, -, hsites, -, -⟩ := forgetDeclarator_keeps a i old
  have hfollows := follows_substitute (k := k) (c := ((a.forgetDeclarator i old).adopt rest).2) ha
    heditable Node.keeps_refl (fun _ => rfl) hprogram hsites ((a.forgetDeclarator i old).adopt rest).1
  have hnothing : loadAll k ((a.forgetDeclarator i old).adopt rest).1 = 0 :=
    (Node.loadAll_adoptAll k rest _).trans hrest
  rw [hnothing] at hfollows
  exact ⟨old, (editable_eq_ok heditable).1, hfollows⟩

theorem follows_remove (ha : Sound a) (hok : a.remove i = .ok a') :
    ∃ old, a.attachedNode? i = some old ∧
      Follows (old.load k) 0 (a.program.load k) (a'.program.load k) := by
  unfold remove at hok
  obtain ⟨b, hfirst, hok⟩ := except_bind_eq_ok.mp hok
  obtain ⟨old, hold, hfollows⟩ := follows_removeOne (k := k) ha hfirst
  refine ⟨old, hold, ?_⟩
  split at hok
  · split at hok
    · obtain ⟨_, -, hrest⟩ := follows_removeOne (k := k) (remains_removeOne ha hfirst).sound hok
      exact hfollows.trans_le (hrest.le (Nat.zero_le _))
    · cases hok
      exact hfollows
  · cases hok
    exact hfollows

end Analysis

end Untangle
