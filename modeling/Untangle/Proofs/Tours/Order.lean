import Mathlib
import Untangle.Proofs.Analysis.Sweep
import Untangle.Proofs.Analysis.Visit
import Untangle.Proofs.Tours.Cutting
import Untangle.Proofs.Tree.Numbering

set_option autoImplicit false

/-!
# The order of a tour that prunes

While a tour goes through the tree its handlers may cut out the nodes at which they act.  A tour that takes
notes tells in which order it comes to nodes and leaves them; as far as the nodes that are still there at
the end are concerned, this is the order of the tree with which it started.

The main theorem is `surviving_nodes_visited_once`, for all visitors whose handlers only prune and for
programs that are no deeper than the tour goes.  Nothing is said of nodes that were cut out.
-/

namespace Untangle

open Node (identitiesAll)

/-! ## Notes -/

/-- What a tour notes down. -/
inductive Note where
  | entered (node : NodeId)
  | left (node : NodeId)
  deriving DecidableEq, Repr

/-- The node of which something is noted down. -/
def Note.node : Note → NodeId
  | .entered i | .left i => i

namespace Node

mutual

/-- The notes of a tour through a tree that does not change: a node is entered before its children and left
after them. -/
def itinerary : Node → List Note
  | .mk i _ _ cs => .entered i :: (itineraryAll cs ++ [.left i])

/-- The notes of a tour through some trees, left-out elements apart. -/
def itineraryAll : List Node → List Note
  | [] => []
  | c :: cs => (if c.isHole then [] else itinerary c) ++ itineraryAll cs

end

theorem itinerary_eq (n : Node) :
    n.itinerary = .entered n.id :: (itineraryAll n.children ++ [.left n.id]) := by
  cases n
  rw [itinerary]
  rfl

@[simp] theorem itineraryAll_nil : itineraryAll [] = [] := rfl

theorem itineraryAll_append (cs ds : List Node) :
    itineraryAll (cs ++ ds) = itineraryAll cs ++ itineraryAll ds := by
  induction cs with
  | nil => rfl
  | cons c cs ih => rw [List.cons_append, itineraryAll, itineraryAll, ih, List.append_assoc]

/-- Notes are about nodes of the tree. -/
theorem node_mem_of_itinerary {n : Node} {e : Note} (he : e ∈ n.itinerary) : e.node ∈ n.identities := by
  refine Node.rec (motive_1 := fun n => ∀ e ∈ n.itinerary, e.node ∈ n.identities)
    (motive_2 := fun cs => ∀ e ∈ itineraryAll cs, e.node ∈ identitiesAll cs) ?_ ?_ ?_ n e he
  · intro i r f cs ih e he
    rw [itinerary, List.mem_cons, List.mem_append, List.mem_singleton] at he
    obtain rfl | he | rfl := he
    · exact List.mem_cons_self
    · exact List.mem_cons_of_mem i (ih e he)
    · exact List.mem_cons_self
  · intro e he
    cases he
  · intro c cs ihc ihcs e he
    rw [itineraryAll, List.mem_append] at he
    obtain he | he := he
    · split at he
      · cases he
      · exact List.mem_append_left _ (ihc e he)
    · exact List.mem_append_right _ (ihcs e he)

theorem node_mem_of_itineraryAll {cs : List Node} {e : Note} (he : e ∈ itineraryAll cs) :
    e.node ∈ identitiesAll cs := by
  induction cs with
  | nil => cases he
  | cons c cs ih =>
    rw [itineraryAll, List.mem_append] at he
    obtain he | he := he
    · split at he
      · cases he
      · exact List.mem_append_left _ (node_mem_of_itinerary he)
    · exact List.mem_append_right _ (ih he)

theorem count_itinerary_le (n : Node) (k : NodeId) :
    n.itinerary.count (.entered k) ≤ n.identities.count k ∧
      n.itinerary.count (.left k) ≤ n.identities.count k := by
  refine Node.rec
    (motive_1 := fun n => n.itinerary.count (.entered k) ≤ n.identities.count k ∧
      n.itinerary.count (.left k) ≤ n.identities.count k)
    (motive_2 := fun cs => (itineraryAll cs).count (.entered k) ≤ (identitiesAll cs).count k ∧
      (itineraryAll cs).count (.left k) ≤ (identitiesAll cs).count k) ?_ ?_ ?_ n
  · rintro i r f cs ⟨hentered, hleft⟩
    rw [itinerary, identities]
    simp only [List.count_cons, List.count_append, List.count_nil, beq_iff_eq, Note.entered.injEq,
      Note.left.injEq, reduceCtorEq, if_false]
    omega
  · exact ⟨Nat.le_refl _, Nat.le_refl _⟩
  · rintro c cs ⟨hentered, hleft⟩ ⟨hentered', hleft'⟩
    rw [itineraryAll, identitiesAll]
    simp only [List.count_append]
    split
    · simp only [List.count_nil]
      omega
    · omega

theorem mem_itineraryAll {c : Node} {cs : List Node} {e : Note} (hc : c ∈ cs) (hhole : c.isHole = false)
    (he : e ∈ c.itinerary) : e ∈ itineraryAll cs := by
  induction cs with
  | nil => cases hc
  | cons d cs ih =>
    rw [itineraryAll]
    obtain rfl | hc := List.mem_cons.mp hc
    · rw [hhole]
      exact List.mem_append_left _ he
    · exact List.mem_append_right _ (ih hc)

/-- Nothing stands below an element that is left out. -/
theorem children_of_isHole {n : Node} (hordered : n.isOrdered = true) (hhole : n.isHole = true) :
    n.children = [] := by
  have hform : n.form = .hole := by
    unfold isHole Form.isHole at hhole
    split at hhole
    · next hform => exact hform
    · cases hhole
  rw [← flatMap_childrenAt n.form.nodup_slots hordered, hform]
  rfl

/-- All nodes of a tree are entered and left. -/
theorem mem_itinerary {d n : Node} (hordered : n.isOrdered = true) (hd : d.Inside n)
    (hhole : d.isHole = false) : .entered d.id ∈ n.itinerary ∧ .left d.id ∈ n.itinerary := by
  induction hd with
  | self =>
    rw [itinerary_eq]
    exact ⟨List.mem_cons_self,
      List.mem_cons_of_mem _ (List.mem_append_right _ (List.mem_singleton_self _))⟩
  | @within c n hc hd ih =>
    have hchild := isOrdered_child hordered hc
    have hthere : c.isHole = false := by
      refine Bool.eq_false_iff.mpr fun hc' => ?_
      cases hd with
      | self => exact absurd (hhole.symm.trans hc') Bool.false_ne_true
      | within hmem _ =>
        rw [children_of_isHole hchild hc'] at hmem
        cases hmem
    have hmem : ∀ e ∈ c.itinerary, e ∈ n.itinerary := by
      intro e he
      rw [itinerary_eq]
      exact List.mem_cons_of_mem _ (List.mem_append_left _ (mem_itineraryAll hc hthere he))
    exact ⟨hmem _ (ih hchild).1, hmem _ (ih hchild).2⟩

/-- In a tree whose nodes are told apart each of them is entered and left once. -/
theorem count_itinerary {d n : Node} (hdistinct : n.identities.Nodup) (hordered : n.isOrdered = true)
    (hd : d.Inside n) (hhole : d.isHole = false) :
    n.itinerary.count (.entered d.id) = 1 ∧ n.itinerary.count (.left d.id) = 1 := by
  obtain ⟨hentered, hleft⟩ := mem_itinerary hordered hd hhole
  have honce := List.nodup_iff_count_le_one.mp hdistinct d.id
  obtain ⟨hle, hle'⟩ := count_itinerary_le n d.id
  have hpos := List.count_pos_iff.mpr hentered
  have hpos' := List.count_pos_iff.mpr hleft
  omega

/-! ## Slots in which one element changes -/

section Elements

variable {n c : Node} {f : Node → Node} {front back before after : List Node}

theorem not_leadsTo_around (hdistinct : (identitiesAll n.children).Nodup)
    (hn : n.children = before ++ c :: after) :
    (∀ d ∈ before, (⟨c.role, c.id⟩ : Step).leadsTo d = false) ∧
      ∀ d ∈ after, (⟨c.role, c.id⟩ : Step).leadsTo d = false := by
  have hmem : c ∈ n.children := by
    rw [hn]
    exact List.mem_append_right _ List.mem_cons_self
  obtain ⟨before', after', hn', -, hbefore, hafter⟩ :=
    split_of_find? hdistinct (find?_of_mem hdistinct hmem)
  have hperm : (before ++ after).Perm (before' ++ after') := by
    refine List.Perm.cons_inv (a := c) ?_
    rw [hn] at hn'
    exact List.perm_middle.symm.trans (hn' ▸ List.perm_middle)
  have hall : ∀ d ∈ before ++ after, (⟨c.role, c.id⟩ : Step).leadsTo d = false := by
    intro d hd
    obtain hd | hd := List.mem_append.mp (hperm.mem_iff.mp hd)
    · exact hbefore d hd
    · exact hafter d hd
  exact ⟨fun d hd => hall d (List.mem_append_left _ hd), fun d hd => hall d (List.mem_append_right _ hd)⟩

/-- An element of a slot is changed in its place. -/
theorem childrenAt_changed (hdistinct : (identitiesAll n.children).Nodup)
    (h : n.childrenAt c.role = front ++ c :: back) (hf : (f c).role = c.role) :
    (n.changeChild ⟨c.role, c.id⟩ f).childrenAt c.role = front ++ f c :: back ∧
      ∀ r, r ≠ c.role → (n.changeChild ⟨c.role, c.id⟩ f).childrenAt r = n.childrenAt r := by
  obtain ⟨before, after, hn, rfl, rfl⟩ := exists_around h
  obtain ⟨hbefore, hafter⟩ := not_leadsTo_around hdistinct hn
  have hchildren : (n.changeChild ⟨c.role, c.id⟩ f).children = before ++ f c :: after := by
    rw [children_changeChild, hn, List.map_append, List.map_cons, map_of_not_leadsTo hbefore,
      map_of_not_leadsTo hafter, if_pos (leadsTo_self c)]
  refine ⟨?_, fun r hr => ?_⟩
  · rw [childrenAt_around hchildren, hf, if_pos (beq_self_eq_true _)]
    rfl
  · rw [childrenAt_around hchildren, childrenAt_around hn, hf, if_neg (by simpa using Ne.symm hr),
      if_neg (by simpa using Ne.symm hr)]

/-- An element of a slot gives way to others. -/
theorem childrenAt_replaced (hdistinct : (identitiesAll n.children).Nodup)
    (h : n.childrenAt c.role = front ++ c :: back) (ns : List Node) :
    (n.replaceChild ⟨c.role, c.id⟩ ns).childrenAt c.role =
        front ++ (ns.map (inRole c.role) ++ back) ∧
      ∀ r, r ≠ c.role → (n.replaceChild ⟨c.role, c.id⟩ ns).childrenAt r = n.childrenAt r := by
  obtain ⟨before, after, hn, rfl, rfl⟩ := exists_around h
  obtain ⟨hbefore, hafter⟩ := not_leadsTo_around hdistinct hn
  have hchildren : (n.replaceChild ⟨c.role, c.id⟩ ns).children =
      before ++ (ns.map (inRole c.role) ++ after) := by
    rw [replaceChild, children_withChildren, hn, List.flatMap_append, List.flatMap_cons,
      flatMap_of_not_leadsTo hbefore, flatMap_of_not_leadsTo hafter, if_pos (leadsTo_self c)]
  have hroles : ∀ r, (ns.map (inRole c.role)).filter (fun d => d.role == r) =
      if c.role == r then ns.map (inRole c.role) else [] := by
    intro r
    rw [List.filter_map]
    have hsame : ((fun d : Node => d.role == r) ∘ inRole c.role) = fun _ => c.role == r := by
      funext d
      exact congrArg (· == r) (role_inRole d c.role)
    rw [hsame]
    cases c.role == r
    · simp
    · simp
  refine ⟨?_, fun r hr => ?_⟩
  · rw [childrenAt, hchildren, List.filter_append, List.filter_append, hroles,
      if_pos (beq_self_eq_true _)]
  · rw [childrenAt_around hn, childrenAt, hchildren, List.filter_append, List.filter_append, hroles,
      if_neg (by simpa using Ne.symm hr), if_neg (by simpa using Ne.symm hr)]

end Elements

end Node

/-! ## Visitors that take notes -/

section Visitors

variable {ε σ : Type}

/-- A tour beside which there are notes. -/
def Tour.beside (notes : List Note) (t : Tour σ) : Tour (σ × List Note) :=
  ⟨t.analysis, t.visited, (t.state, notes)⟩

/-- A tour without its notes. -/
def Tour.bare (t : Tour (σ × List Note)) : Tour σ := ⟨t.analysis, t.visited, t.state.1⟩

/-- A handler beside which notes are kept. -/
def Handler.beside (h : Handler ε σ) : Handler ε (σ × List Note) where
  handles := h.handles
  act i t :=
    match h.act i t.bare with
    | .ok _ t' => .ok () (t'.beside t.state.2)
    | .error e t' => .error e (t'.beside t.state.2)

/-- A handler that notes something down about every node. -/
def Handler.noting (what : NodeId → Note) : Handler ε (σ × List Note) where
  handles _ := true
  act i := modify fun t =>
    { t with state := (t.state.1, t.state.2 ++ [what (t.analysis.site i).node]) }

/-- A visitor that notes down when it comes to a node, before its handlers act, and when it leaves one. -/
def Visitor.noted (v : Visitor ε σ) : Visitor ε (σ × List Note) where
  onEntry := .noting .entered :: v.onEntry.map Handler.beside
  onLeaving := .noting .left :: v.onLeaving.map Handler.beside

/-- All that the handlers of a visitor do to the tree is to prune it. -/
def Visitor.Prunes (v : Visitor ε σ) : Prop :=
  ∀ h ∈ v.handlers, ∀ i t,
    TourM.Ends (h.act i t) (fun _ t' => t.analysis.Prunes i t'.analysis) fun _ => True

end Visitors

namespace TourM

open Analysis

variable {ε σ : Type} {v : Visitor ε σ} {i j : SiteId} {n n' c : Node} {cs ds : List Node}
  {t t' t'' : Tour (σ × List Note)}

theorem Ends.and {ε σ α : Type} {r : EStateM.Result ε (Tour σ) α} {ok ok' : α → Tour σ → Prop}
    {err err' : ε → Prop} (h : Ends r ok err) (h' : Ends r ok' err') :
    Ends r (fun x t => ok x t ∧ ok' x t) fun e => err e ∧ err' e := by
  cases r with
  | ok x t => exact ⟨h, h'⟩
  | error e t => exact ⟨h, h'⟩

/-! ## Handlers -/

/-- A handler of the visitor itself prunes and takes no notes. -/
theorem ends_beside (hv : v.Prunes) {h : Handler ε σ} (hmem : h ∈ v.handlers) (i : SiteId)
    (t : Tour (σ × List Note)) :
    Ends (h.beside.act i t) (fun _ t' => t'.state.2 = t.state.2 ∧ t.analysis.Prunes i t'.analysis)
      fun _ => True := by
  have hprunes := hv h hmem i t.bare
  cases hact : h.act i t.bare with
  | ok x t' =>
    have hbeside : h.beside.act i t = .ok () (t'.beside t.state.2) := by
      simp only [Handler.beside, hact]
    rw [hact] at hprunes
    rw [hbeside]
    exact ⟨rfl, hprunes⟩
  | error e t' =>
    have hbeside : h.beside.act i t = .error e (t'.beside t.state.2) := by
      simp only [Handler.beside, hact]
    rw [hbeside]
    exact trivial

/-- A visit ages the program. -/
theorem journey_ages (hv : v.Prunes) :
    Journey v.noted (fun t i => Sound t.analysis ∧ i < t.analysis.sites.size)
      (fun t t' => Sound t.analysis → Ages t.analysis t'.analysis) fun _ _ => True where
  refl _ := .refl
  trans h h' ht := (h ht).trans (h' (h ht).sound)
  fails _ _ := trivial
  keeps h ht := ⟨(h ht.1).sound, Nat.lt_of_lt_of_le ht.2 (h ht.1).size⟩
  counted _ := .refl
  sited _ i child listed scope hi ht := ages_of_addSiteBelow ht hi.2 child listed scope
  below t i child listed scope hi :=
    ⟨(ages_of_addSiteBelow hi.1 hi.2 child listed scope).sound, known_addSiteBelow ..⟩
  acted t i h hmem hi := by
    have hcases : (∃ what, h = .noting what) ∨ ∃ h' ∈ v.handlers, h = h'.beside := by
      obtain hmem | hmem := List.mem_append.mp hmem
      · obtain rfl | hmem := List.mem_cons.mp hmem
        · exact .inl ⟨_, rfl⟩
        · obtain ⟨h', hh', rfl⟩ := List.mem_map.mp hmem
          exact .inr ⟨h', List.mem_append_left _ hh', rfl⟩
      · obtain rfl | hmem := List.mem_cons.mp hmem
        · exact .inl ⟨_, rfl⟩
        · obtain ⟨h', hh', rfl⟩ := List.mem_map.mp hmem
          exact .inr ⟨h', List.mem_append_right _ hh', rfl⟩
    obtain ⟨what, rfl⟩ | ⟨h', hh', rfl⟩ := hcases
    · exact fun ht => .refl ht
    · exact (ends_beside hv hh' i t).mono (fun _ t' ht' ht => ages_of_prunes ht ht'.2) fun _ h => h

/-- Handlers that act one after the other leave the tree as it is, or one of them cuts the node out. -/
theorem runHandlers_prunes (hv : v.Prunes) {hs : List (Handler ε σ)} (hmem : ∀ h ∈ hs, h ∈ v.handlers)
    (ht : Sound t.analysis) (hn : Stands t.analysis i n) :
    Ends (runHandlers i n.id (hs.map Handler.beside) t)
      (fun changed t' => t'.state.2 = t.state.2 ∧
        if changed then Gone t.analysis t'.analysis i else SameTree t.analysis t'.analysis)
      fun _ => True := by
  induction hs generalizing t with
  | nil => exact ⟨rfl, .refl _⟩
  | cons h hs ih =>
    rw [List.map_cons]
    unfold runHandlers
    refine Ends.bind (ends_beside hv (hmem h List.mem_cons_self) i t) fun _ t₁ hbeside => ?_
    obtain ⟨hnotes, hprunes⟩ := hbeside
    obtain hsame | hgone := sameTree_or_gone ht hprunes
    · have hn₁ := hsame.extends.stands hn
      rw [bind_of_ok (hasChanged_eq hn₁ n.id), bne_self_eq_false]
      refine (ih (fun h hh => hmem h (List.mem_cons_of_mem _ hh)) (hsame.ages ht).sound hn₁).mono
        (fun changed t' hrest => ⟨hrest.1.trans hnotes, ?_⟩) fun _ h => h
      have htree := hrest.2
      cases changed with
      | true =>
        exact htree.after_alters ht hn.known (hsame.extends.alters i n) (Nat.le_of_eq hsame.next.symm)
      | false => exact hsame.trans htree
    · have hchanged : hasChanged (ε := ε) i n.id t₁ = .ok true t₁ := by
        refine congrArg (EStateM.Result.ok · t₁) ?_
        show ((t₁.analysis.site i).retired || _) = true
        rw [hgone.retired]
        rfl
      rw [bind_of_ok hchanged]
      exact ⟨hnotes, hgone⟩

/-- Something is noted down about the node before the handlers act. -/
theorem runHandlers_noted (hv : v.Prunes) (what : NodeId → Note) (hs : List (Handler ε σ))
    (hmem : ∀ h ∈ hs, h ∈ v.handlers) (ht : Sound t.analysis) (hn : Stands t.analysis i n) :
    Ends (runHandlers i n.id (.noting what :: hs.map Handler.beside) t)
      (fun changed t' => t'.state.2 = t.state.2 ++ [what n.id] ∧
        if changed then Gone t.analysis t'.analysis i else SameTree t.analysis t'.analysis)
      fun _ => True := by
  let t₁ : Tour (σ × List Note) := { t with state := (t.state.1, t.state.2 ++ [what n.id]) }
  have hnoted : (Handler.noting (ε := ε) what).act i t = .ok () t₁ := by
    show EStateM.Result.ok () { t with
      state := (t.state.1, t.state.2 ++ [what (t.analysis.site i).node]) } = _
    rw [hn.node]
  have hn₁ : Stands t₁.analysis i n := hn
  unfold runHandlers
  rw [bind_of_ok hnoted, bind_of_ok (hasChanged_eq hn₁ n.id), bne_self_eq_false]
  exact runHandlers_prunes hv hmem ht hn

/-- The handlers that act on a node, after what is noted down. -/
theorem filter_noted (what : NodeId → Note) (hs : List (Handler ε σ)) (f : Form) :
    (Handler.noting what :: hs.map Handler.beside).filter (fun h => h.handles f) =
      .noting what :: (hs.filter fun h => h.handles f).map Handler.beside := by
  rw [List.filter_cons_of_pos rfl, List.filter_map]
  rfl

/-! ## What was noted down -/

/-- Whether something is noted down about a node that is in the program. -/
def present (a : Analysis) (e : Note) : Bool := decide (e.node ∈ a.program.identities)

/-- What was noted down on the way from one tour to another is about some nodes, and as far as these are
still in the program it is what is expected. -/
def Notes (t t' : Tour (σ × List Note)) (ids : List NodeId) (expected : List Note) : Prop :=
  ∃ es, t'.state.2 = t.state.2 ++ es ∧ (∀ e ∈ es, e.node ∈ ids) ∧
    es.filter (present t'.analysis) = expected.filter (present t'.analysis)

/-- All that was noted down on the way is about some nodes. -/
def About (t t' : Tour (σ × List Note)) (ids : List NodeId) : Prop :=
  ∃ es, t'.state.2 = t.state.2 ++ es ∧ ∀ e ∈ es, e.node ∈ ids

theorem About.snoc {ids : List NodeId} {e : Note} (h : About t t' ids)
    (hlast : t''.state.2 = t'.state.2 ++ [e]) (he : e.node ∈ ids) : About t t'' ids := by
  obtain ⟨es, hes, hids⟩ := h
  refine ⟨es ++ [e], by rw [hlast, hes, List.append_assoc], fun e' he' => ?_⟩
  obtain he' | he' := List.mem_append.mp he'
  · exact hids e' he'
  · rw [List.mem_singleton.mp he']
    exact he

/-- Nothing is expected of nodes that are not there any more. -/
theorem About.of_gone {ids : List NodeId} {x : List Note} (h : About t t' ids)
    (hgone : ∀ k ∈ ids, k ∉ t'.analysis.program.identities) (hx : ∀ e ∈ x, e.node ∈ ids) :
    Notes t t' ids x := by
  obtain ⟨es, hes, hids⟩ := h
  have hnone : ∀ zs : List Note, (∀ e ∈ zs, e.node ∈ ids) → zs.filter (present t'.analysis) = [] :=
    fun zs hzs => List.filter_eq_nil_iff.mpr fun e he => by simpa [present] using hgone e.node (hzs e he)
  exact ⟨es, hes, hids, (hnone es hids).trans (hnone x hx).symm⟩

/-- Nodes that have an identity were in the program once. -/
def Given (a : Analysis) (ids : List NodeId) : Prop := ∀ k ∈ ids, 0 < k ∧ k < a.next

theorem given_of_stands (ht : Sound t.analysis) (hn : Stands t.analysis i n) :
    Given t.analysis n.identities := fun k hk =>
  ht.numbered.given k ((Node.inside_of_follow hn.follow).identities_sublist.subset hk)

theorem Given.mono {a : Analysis} {ids ids' : List NodeId} (h : Given a ids') (hsub : ids ⊆ ids') :
    Given a ids := fun k hk => h k (hsub hk)

theorem Given.later {a a' : Analysis} {ids : List NodeId} (h : Given a ids) (hages : Ages a a') :
    Given a' ids := fun k hk => ⟨(h k hk).1, Nat.lt_of_lt_of_le (h k hk).2 hages.next⟩

theorem filter_later {a a' : Analysis} {ids : List NodeId} {es : List Note} (hages : Ages a a')
    (hgiven : Given a ids) (hes : ∀ e ∈ es, e.node ∈ ids) :
    es.filter (present a') = (es.filter (present a)).filter (present a') := by
  rw [List.filter_filter]
  refine List.filter_congr fun e he => ?_
  obtain ⟨hpos, hlt⟩ := hgiven e.node (hes e he)
  by_cases hthere : e.node ∈ a'.program.identities
  · simp [present, hthere, hages.gone e.node hpos hlt hthere]
  · simp [present, hthere]

namespace Notes

variable {ids ids' : List NodeId} {x y : List Note}

theorem nothing (h : t'.state.2 = t.state.2) (ids : List NodeId) : Notes t t' ids [] :=
  ⟨[], by rw [h, List.append_nil], fun e he => (by cases he), rfl⟩

theorem mono (h : Notes t t' ids x) (hsub : ids ⊆ ids') : Notes t t' ids' x := by
  obtain ⟨es, hes, hids, hx⟩ := h
  exact ⟨es, hes, fun e he => hsub (hids e he), hx⟩

theorem trans (h : Notes t t' ids x) (h' : Notes t' t'' ids' y) (hages : Ages t'.analysis t''.analysis)
    (hgiven : Given t'.analysis ids) (hx : ∀ e ∈ x, e.node ∈ ids) :
    Notes t t'' (ids ++ ids') (x ++ y) := by
  obtain ⟨es, hes, hids, hfilter⟩ := h
  obtain ⟨es', hes', hids', hfilter'⟩ := h'
  refine ⟨es ++ es', by rw [hes', hes, List.append_assoc], fun e he => ?_, ?_⟩
  · obtain he | he := List.mem_append.mp he
    · exact List.mem_append_left _ (hids e he)
    · exact List.mem_append_right _ (hids' e he)
  · rw [List.filter_append, List.filter_append, hfilter', filter_later hages hgiven hids,
      filter_later hages hgiven hx, hfilter]

theorem about (h : Notes t t' ids x) : About t t' ids := by
  obtain ⟨es, hes, hids, -⟩ := h
  exact ⟨es, hes, hids⟩

/-- Something is noted down first. -/
theorem cons {e : Note} (hfirst : t'.state.2 = t.state.2 ++ [e]) (h : Notes t' t'' ids x)
    (he : e.node ∈ ids) : Notes t t'' ids (e :: x) := by
  obtain ⟨es, hes, hids, hfilter⟩ := h
  refine ⟨e :: es, by rw [hes, hfirst, List.append_assoc]; rfl, fun e' he' => ?_, ?_⟩
  · obtain rfl | he' := List.mem_cons.mp he'
    · exact he
    · exact hids e' he'
  · rw [List.filter_cons, List.filter_cons, hfilter]

end Notes

/-! ## Visits -/

/-- What becomes of a node while it is visited. -/
def Trimmed (a a' : Analysis) (i : SiteId) (n : Node) : Prop :=
  (∃ n', Alters a a' i n n') ∨ Gone a a' i

theorem Trimmed.after_alters {a b a' : Analysis} (ha : Sound a) (hi : i < a.sites.size)
    (halters : Alters a b i n n') (hnext : a.next ≤ b.next) (h : Trimmed b a' i n') :
    Trimmed a a' i n := by
  obtain ⟨n'', halters'⟩ | hgone := h
  · exact .inl ⟨n'', halters.trans hi halters'⟩
  · exact .inr (hgone.after_alters ha hi halters hnext)

/-- A visit of a node notes down what is expected, and cuts the node out or changes what is below. -/
def Trims (v : Visitor ε σ) (fuel : Nat) (c : Node) : Prop :=
  ∀ (t : Tour (σ × List Note)) (j : SiteId), Sound t.analysis → Stands t.analysis j c →
    Ends (visit v.noted fuel maxVisits j t)
      (fun _ t' => Notes t t' c.identities c.itinerary ∧
        Trimmed t.analysis t'.analysis j c)
      fun _ => True

/-- What becomes of a node while one of its slots is gone through. -/
def Slotwise (a a' : Analysis) (i : SiteId) (n : Node) (r : Role) : Prop :=
  (∃ n', Alters a a' i n n' ∧ n'.form = n.form ∧ ∀ r', r' ≠ r → n'.childrenAt r' = n.childrenAt r') ∨
    Gone a a' i

/-- A new site leads to the element for which it is made. -/
theorem stands_below (ht : Sound t.analysis) (hn : Stands t.analysis i n) (hc : c ∈ n.children)
    (listed : Bool) (scope : ScopeId) :
    Stands (t.analysis.addSiteBelow i c listed scope).2 t.analysis.sites.size c := by
  have hsite := site_addSiteBelow t.analysis i c listed scope
  refine ⟨known_addSiteBelow .., congrArg Site.node hsite, congrArg Site.retired hsite, ?_⟩
  rw [way_addSiteBelow c listed scope hn.known, Node.follow_append]
  show (t.analysis.program.follow (t.analysis.way i)).bind _ = _
  rw [hn.follow]
  have hdistinct := Node.nodup_of_follow ht.numbered.distinct hn.follow
  exact (Node.follow_step _ _).trans (Node.find?_of_mem (Node.nodup_identitiesAll hdistinct) hc)

/-- What becomes of an element becomes of the node in whose slot it stands. -/
theorem slotwise_of_element {front back : List Node} {listed : Bool} {scope : ScopeId} {a' : Analysis}
    (ht : Sound t.analysis) (hn : Stands t.analysis i n)
    (hsplit : n.childrenAt c.role = front ++ c :: back)
    (h : Trimmed (t.analysis.addSiteBelow i c listed scope).2 a' t.analysis.sites.size c) :
    (∃ n' front', Alters t.analysis a' i n n' ∧ n'.form = n.form ∧
        n'.childrenAt c.role = front' ++ back ∧
        ∀ r, r ≠ c.role → n'.childrenAt r = n.childrenAt r) ∨
      (isEmptyDeclaration (n.replaceChild ⟨c.role, c.id⟩ []) = true ∧ Gone t.analysis a' i) := by
  have hextends := extends_addSiteBelow t.analysis i c listed scope
  have hsite := site_addSiteBelow t.analysis i c listed scope
  have hway := hextends.way_eq hn.known
  have hdistinct := Node.nodup_identitiesAll (Node.nodup_of_follow ht.numbered.distinct hn.follow)
  have habove : ∀ {p}, ((t.analysis.addSiteBelow i c listed scope).2.site
      t.analysis.sites.size).above = some p → p = i := fun hp => by
    rw [hsite] at hp
    exact (Option.some.inj hp).symm
  have hlt : ∀ {k}, k < t.analysis.sites.size → k < (t.analysis.addSiteBelow i c listed scope).2.sites.size :=
    fun hk => Nat.lt_of_lt_of_le hk hextends.size_le
  obtain ⟨c', halters⟩ | hgone := h
  · obtain ⟨g, hkeeps, rfl, hprogram⟩ := halters.program
    obtain ⟨hslot, hothers⟩ := Node.childrenAt_changed hdistinct hsplit (hkeeps c).2
    refine .inl ⟨_, front ++ [g c], ⟨⟨_, Node.keeps_changeChild _ _, rfl, ?_⟩, fun k hk => ?_⟩,
      Node.form_withChildren _ _, ?_, hothers⟩
    · rw [hprogram, way_addSiteBelow c listed scope hn.known, Node.changeAt_step]
      rfl
    · exact (halters.sites k (hlt hk)).trans (hextends.sites k hk)
    · rw [hslot, List.append_assoc]
      rfl
  cases hgone with
  | @slot p news hcut hsize hsites =>
    cases habove hcut.above
    have hprogram := hcut.program
    rw [hsite, hway] at hprogram
    obtain ⟨hslot, hothers⟩ := Node.childrenAt_replaced hdistinct hsplit news
    refine .inl ⟨_, front ++ news.map (Node.inRole c.role),
      ⟨⟨_, Node.keeps_replaceChild _ news, rfl, hprogram⟩, fun k hk => ?_⟩,
      Node.form_withChildren _ _, ?_, hothers⟩
    · exact (hsites k (hlt hk) (Nat.ne_of_lt hk)).trans (hextends.sites k hk)
    · rw [hslot, List.append_assoc]
  | @declaration p q m news hp hretired hm hempty hcut hsize hsites =>
    cases habove hp
    right
    rw [hway, hextends.program, hn.follow] at hm
    cases hm
    rw [hsite] at hempty
    have hup : (t.analysis.site i).above = some q := by
      rw [← hextends.site_eq hn.known]
      exact hcut.above
    have hq := ht.ordered i q hup
    have hprogram := hcut.program
    rw [hextends.site_eq hn.known, hextends.way_eq (Nat.lt_trans hq hn.known)] at hprogram
    have hcut' : Cut t.analysis a' i q news := ⟨hup, hprogram, hcut.retired, hcut.new⟩
    refine ⟨hempty, .slot hcut' (Nat.le_trans hextends.size_le hsize) fun k hk hne => ?_⟩
    exact (hsites k (hlt hk) (Nat.ne_of_lt hk) hne).trans (hextends.sites k hk)

/-- A slot from which the last declarator is cut out has no further elements. -/
theorem nil_of_isEmptyDeclaration {front back : List Node} {slot : Slot} (hslot : slot ∈ n.form.slots)
    (hdistinct : (identitiesAll n.children).Nodup) (hrole : c.role = slot.role)
    (hsplit : n.childrenAt slot.role = front ++ c :: back)
    (hempty : isEmptyDeclaration (n.replaceChild ⟨c.role, c.id⟩ []) = true) : back = [] := by
  have hform : (n.replaceChild ⟨c.role, c.id⟩ []).form = n.form := Node.form_withChildren _ _
  unfold isEmptyDeclaration at hempty
  rw [hform] at hempty
  split at hempty
  · next kind hkind =>
    rw [hkind] at hslot
    have hdeclarations : slot.role = .declarations := by
      cases List.mem_singleton.mp hslot
      rfl
    rw [← hrole] at hsplit
    have hleft := (Node.childrenAt_replaced hdistinct hsplit []).1
    rw [hrole, hdeclarations] at hleft
    rw [hrole, hdeclarations, hleft, List.isEmpty_iff] at hempty
    simpa using (List.append_eq_nil_iff.mp hempty).2
  · cases hempty

variable {fuel : Nat}

/-- The elements of a slot that are still to come are visited one after the other, whatever becomes of
them. -/
theorem visitItems_trims (hv : v.Prunes) {slot : Slot} (hslot : slot ∈ n.form.slots)
    (ht : Sound t.analysis) (hn : Stands t.analysis i n) {front back : List Node}
    (hsplit : n.childrenAt slot.role = front ++ back) (hback : ∀ c ∈ back, Trims v fuel c)
    (scope : ScopeId) :
    Ends (visitItems v.noted (fuel + 1) i slot scope back.length t)
      (fun _ t' => Notes t t' (identitiesAll back) (Node.itineraryAll back) ∧
        Slotwise t.analysis t'.analysis i n slot.role) fun _ => True := by
  induction back generalizing t n front with
  | nil =>
    rw [List.length_nil, visitItems]
    exact ⟨.nothing rfl _, .inl ⟨n, (Extends.refl _).alters i n, rfl, fun _ _ => rfl⟩⟩
  | cons c back ih =>
    have hrest : ∀ d ∈ back, Trims v fuel d := fun d hd => hback d (List.mem_cons_of_mem c hd)
    have hfound : fromEnd? (n.childrenAt slot.role) (back.length + 1) = some c := by
      rw [hsplit]
      exact fromEnd?_append front back c
    obtain ⟨hmem, hrole⟩ := Node.mem_childrenAt.mp (mem_of_fromEnd? hfound)
    rw [List.length_cons]
    cases hhole : c.isHole with
    | true =>
      rw [visitItems_of_hole hn hfound hhole]
      have hsplit' : n.childrenAt slot.role = (front ++ [c]) ++ back := by
        rw [hsplit, List.append_assoc]
        rfl
      refine (ih hslot ht hn hsplit' hrest).mono (fun _ t' hback => ⟨?_, hback.2⟩) fun _ h => h
      rw [Node.itineraryAll, hhole]
      exact hback.1.mono (List.subset_append_right _ _)
    | false =>
      rw [visitItems_of_element hn hfound hhole]
      have hstands := stands_below ht hn hmem slot.listed scope
      have hages := ages_of_addSiteBelow ht hn.known c slot.listed scope
      have hgiven := (given_of_stands ht hn).mono
        ((Node.identities_sublist_of_mem hmem).trans (Node.identitiesAll_children_sublist n)).subset
      let t₀ : Tour (σ × List Note) :=
        { t with analysis := (t.analysis.addSiteBelow i c slot.listed scope).2 }
      have hvisit := (hback c List.mem_cons_self t₀ _ hages.sound hstands).and
        ((journey_ages hv).visit fuel maxVisits t.analysis.sites.size t₀ ⟨hages.sound, hstands.known⟩)
      refine Ends.bind (hvisit.mono (fun _ _ h => h) fun _ _ => trivial) fun _ t₁ h => ?_
      obtain ⟨⟨hfirst, hout⟩, haged⟩ := h
      have hages₁ : Ages t.analysis t₁.analysis := hages.trans (haged hages.sound)
      have hnotes : Notes t t₁ c.identities c.itinerary := hfirst
      rw [Node.itineraryAll, hhole, if_neg Bool.false_ne_true]
      obtain ⟨n₁, front', halters, hform, hsplit₁, hothers⟩ | ⟨hempty, hgone⟩ :=
        slotwise_of_element ht hn (hrole ▸ hsplit) hout
      · rw [hrole] at hsplit₁ hothers
        have hn₁ := halters.stands hn
        have hitems := (ih (hform ▸ hslot) hages₁.sound hn₁ hsplit₁ hrest).and
          ((journey_ages hv).visitItems (fun fuel' _ j => (journey_ages hv).visit fuel' maxVisits j)
            slot scope back.length t₁ ⟨hages₁.sound, hn₁.known⟩)
        refine hitems.mono (fun _ t' h => ?_) fun _ _ => trivial
        obtain ⟨⟨hlater, hslotwise⟩, haged'⟩ := h
        refine ⟨hnotes.trans hlater (haged' hages₁.sound) (hgiven.later hages₁) fun _ he =>
          Node.node_mem_of_itinerary he, ?_⟩
        obtain ⟨n', halters', hform', hothers'⟩ | hgone := hslotwise
        · exact .inl ⟨n', halters.trans hn.known halters', hform'.trans hform, fun r hr =>
            (hothers' r hr).trans (hothers r hr)⟩
        · exact .inr (hgone.after_alters ht hn.known halters hages₁.next)
      · have hnil : back = [] := by
          refine nil_of_isEmptyDeclaration hslot ?_ hrole hsplit hempty
          exact Node.nodup_identitiesAll (Node.nodup_of_follow ht.numbered.distinct hn.follow)
        subst hnil
        rw [List.length_nil, visitItems]
        rw [Node.itineraryAll_nil, List.append_nil]
        exact ⟨hnotes.mono (List.subset_append_left _ _), .inr hgone⟩

theorem isCurrent_of_gone {a : Analysis} (h : Gone a t.analysis i) (node : NodeId) :
    isCurrent (ε := ε) i node t = .ok false t := by
  refine congrArg (EStateM.Result.ok · t) ?_
  show (_ && t.analysis.isAttached i) = false
  rw [h.not_attached, Bool.and_false]

theorem goesOn_of_gone {a : Analysis} (h : Gone a t.analysis i) :
    goesOn (ε := ε) i t = .ok false t := by
  refine congrArg (EStateM.Result.ok · t) ?_
  show (!(t.analysis.site i).retired) = false
  rw [h.retired]
  rfl

/-- Slots are gone through one after the other, as long as the node is there. -/
theorem visitSlots_trims (hv : v.Prunes) {slots : List Slot} (hslots : ∀ s ∈ slots, s ∈ n.form.slots)
    (hdistinct : (slots.map Slot.role).Nodup) (ht : Sound t.analysis) (hn : Stands t.analysis i n)
    (hbelow : ∀ s ∈ slots, ∀ c ∈ n.childrenAt s.role, Trims v fuel c) (form : Form)
    (outer inner : ScopeId) :
    Ends (visitSlots v.noted (fuel + 1) i n.id form outer inner slots t)
      (fun _ t' => Notes t t' (identitiesAll (slots.flatMap fun s => n.childrenAt s.role))
          (Node.itineraryAll (slots.flatMap fun s => n.childrenAt s.role)) ∧
        Trimmed t.analysis t'.analysis i n) fun _ => True := by
  induction slots generalizing t n with
  | nil =>
    rw [visitSlots]
    exact ⟨.nothing rfl _, .inl ⟨n, (Extends.refl _).alters i n⟩⟩
  | cons slot rest ih =>
    rw [List.map_cons, List.nodup_cons] at hdistinct
    have hslot := hslots slot List.mem_cons_self
    have hitems := (visitItems_trims hv hslot ht hn (List.nil_append _).symm
      (hbelow slot List.mem_cons_self) (childScope form slot.role outer inner)).and
        ((journey_ages hv).visitItems (fun fuel' _ j => (journey_ages hv).visit fuel' maxVisits j)
          slot (childScope form slot.role outer inner) (n.childrenAt slot.role).length t ⟨ht, hn.known⟩)
    rw [visitSlots, ask_bind, hn.nodeAt, List.flatMap_cons]
    refine Ends.bind (hitems.mono (fun _ _ h => h) fun _ _ => trivial) fun _ t₁ h => ?_
    obtain ⟨⟨hnotes, hslotwise⟩, haged⟩ := h
    have hages := haged ht
    have hgiven := given_of_stands ht hn
    have hsub : ∀ r, identitiesAll (n.childrenAt r) ⊆ n.identities := fun r =>
      (Node.identitiesAll_childrenAt_sublist n r).subset
    obtain ⟨n₁, halters, hform, hothers⟩ | hgone := hslotwise
    · have hn₁ := halters.stands hn
      have hid : n₁.id = n.id := by
        obtain ⟨g, hkeeps, rfl, -⟩ := halters.program
        exact (hkeeps n).1
      have hsame : ∀ s ∈ rest, n₁.childrenAt s.role = n.childrenAt s.role := fun s hs =>
        hothers s.role fun heq => hdistinct.1 (heq ▸ List.mem_map_of_mem hs)
      have hlist : (rest.flatMap fun s => n₁.childrenAt s.role) =
          rest.flatMap fun s => n.childrenAt s.role := List.flatMap_congr hsame
      have hrest := (ih (fun s hs => hform ▸ hslots s (List.mem_cons_of_mem _ hs)) hdistinct.2
        hages.sound hn₁ (fun s hs c hc =>
          hbelow s (List.mem_cons_of_mem _ hs) c (hsame s hs ▸ hc))).and
        ((journey_ages hv).visitSlots (fun fuel' _ j => (journey_ages hv).visit fuel' maxVisits j)
          n₁.id form outer inner rest t₁ ⟨hages.sound, hn₁.known⟩)
      rw [← hid, bind_of_ok (isCurrent_eq hn₁)]
      refine hrest.mono (fun _ t' h => ?_) fun _ _ => trivial
      obtain ⟨⟨hlater, htrimmed⟩, haged'⟩ := h
      rw [hlist] at hlater
      rw [Node.identitiesAll_append, Node.itineraryAll_append]
      exact ⟨hnotes.trans hlater (haged' hages.sound) ((hgiven.mono (hsub slot.role)).later hages)
        fun _ he => Node.node_mem_of_itineraryAll he, htrimmed.after_alters ht hn.known halters hages.next⟩
    · rw [bind_of_ok (isCurrent_of_gone hgone n.id)]
      refine ⟨(hnotes.mono ?_).about.of_gone (fun k hk => hgone.not_mem ht hn ?_) fun e he =>
        Node.node_mem_of_itineraryAll he, .inr hgone⟩
      · rw [Node.identitiesAll_append]
        exact List.subset_append_left _ _
      · obtain ⟨c, hc, hkc⟩ := Node.mem_identitiesAll.mp hk
        have hchild : c ∈ n.children := by
          obtain hc | hc := List.mem_append.mp hc
          · exact (Node.mem_childrenAt.mp hc).1
          · obtain ⟨s, -, hc⟩ := List.mem_flatMap.mp hc
            exact (Node.mem_childrenAt.mp hc).1
        exact (Node.Inside.child hchild).identities_sublist.subset hkc

/-- The children of a node are visited in the order in which they stand, if there is depth left for
them. -/
theorem visitSlots_all_trims (hv : v.Prunes) (hordered : n.isOrdered = true)
    (hdepth : fuel = 0 → n.children = [])
    (hbelow : ∀ fuel', fuel = fuel' + 1 → ∀ c ∈ n.children, Trims v fuel' c)
    (ht : Sound t.analysis) (hn : Stands t.analysis i n) (outer inner : ScopeId) :
    Ends (visitSlots v.noted fuel i n.id n.form outer inner n.form.slots t)
      (fun _ t' => Notes t t' (identitiesAll n.children) (Node.itineraryAll n.children) ∧
        Trimmed t.analysis t'.analysis i n) fun _ => True := by
  cases fuel with
  | zero =>
    rw [visitSlots_zero, hdepth rfl]
    exact ⟨.nothing rfl _, .inl ⟨n, (Extends.refl _).alters i n⟩⟩
  | succ fuel =>
    have hslots := visitSlots_trims hv (fun s hs => hs) n.form.nodup_slots ht hn
      (fun s _ c hc => hbelow fuel rfl c (Node.mem_childrenAt.mp hc).1) n.form outer inner
    rwa [Node.flatMap_childrenAt n.form.nodup_slots hordered] at hslots

/-- The second half of a round: the children are visited, and the node is left if it is still there. -/
theorem descend_trims (hv : v.Prunes) (hordered : n.isOrdered = true)
    (hdepth : fuel = 0 → n.children = [])
    (hbelow : ∀ fuel', fuel = fuel' + 1 → ∀ c ∈ n.children, Trims v fuel' c)
    (ht : Sound t.analysis) (hn : Stands t.analysis i n) :
    Ends (descend v.noted fuel i n t)
      (fun again t' => again = false ∧
        Notes t t' n.identities (Node.itineraryAll n.children ++ [.left n.id]) ∧
        Trimmed t.analysis t'.analysis i n) fun _ => True := by
  have hsub : identitiesAll n.children ⊆ n.identities :=
    (Node.identitiesAll_children_sublist n).subset
  have hself : n.id ∈ n.identities := (Node.Inside.self n).id_mem
  have hexpected : ∀ e ∈ Node.itineraryAll n.children ++ [.left n.id], e.node ∈ n.identities := by
    intro e he
    obtain he | he := List.mem_append.mp he
    · exact hsub (Node.node_mem_of_itineraryAll he)
    · rw [List.mem_singleton.mp he]
      exact hself
  have hslots := fun outer inner => (visitSlots_all_trims hv hordered hdepth hbelow ht hn outer inner).and
    ((journey_ages hv).visitSlots (fun fuel' _ j => (journey_ages hv).visit fuel' maxVisits j)
      n.id n.form outer inner n.form.slots t ⟨ht, hn.known⟩)
  unfold descend
  rw [ask_bind, ask_bind]
  refine Ends.bind ((hslots _ _).mono (fun _ _ h => h) fun _ _ => trivial) fun _ t₁ h => ?_
  obtain ⟨⟨hnotes, htrimmed⟩, haged⟩ := h
  have hages := haged ht
  rw [ask_bind]
  obtain ⟨n₁, halters⟩ | hgone := htrimmed
  · have hn₁ := halters.stands hn
    have hid : n₁.id = n.id := by
      obtain ⟨g, hkeeps, rfl, -⟩ := halters.program
      exact (hkeeps n).1
    have hleaving := runHandlers_noted hv .left (v.onLeaving.filter fun h => h.handles n.form)
      (fun h hh => List.mem_append_right _ (List.mem_filter.mp hh).1) hages.sound hn₁
    rw [hid] at hleaving
    rw [if_pos hn₁.isAttached, Visitor.noted, filter_noted]
    refine Ends.bind hleaving fun left t₂ ⟨hleft, htree⟩ => ?_
    cases left with
    | true =>
      have hgone : Gone t.analysis t₂.analysis i := htree.after_alters ht hn.known halters hages.next
      have hstop := goesOn_of_gone (ε := ε) hgone
      show Ends (goesOn i t₂) _ _
      rw [hstop]
      exact ⟨rfl, ((hnotes.mono hsub).about.snoc hleft hself).of_gone
        (fun k hk => hgone.not_mem ht hn hk) hexpected, .inr hgone⟩
    | false =>
      have hlast : Notes t₁ t₂ n.identities [.left n.id] :=
        ⟨[.left n.id], hleft, fun e he => List.mem_singleton.mp he ▸ hself, rfl⟩
      have hboth := hnotes.trans hlast (htree.ages hages.sound)
        (((given_of_stands ht hn).mono hsub).later hages) fun _ he => Node.node_mem_of_itineraryAll he
      refine ⟨rfl, hboth.mono (List.append_subset.mpr ⟨hsub, List.Subset.refl _⟩), .inl ⟨n₁, ?_⟩⟩
      exact halters.trans hn.known (htree.extends.alters i n₁)
  · have hdetached := hgone.not_attached
    rw [hdetached]
    exact ⟨rfl, (hnotes.mono hsub).about.of_gone (fun k hk => hgone.not_mem ht hn hk) hexpected, .inr hgone⟩

/-- A round of a visit enters the node, goes on below it if it is still there, and is the last one. -/
theorem pass_trims (hv : v.Prunes) (hordered : n.isOrdered = true)
    (hdepth : fuel = 0 → n.children = [])
    (hbelow : ∀ fuel', fuel = fuel' + 1 → ∀ c ∈ n.children, Trims v fuel' c)
    (ht : Sound t.analysis) (hn : Stands t.analysis i n) :
    Ends (pass v.noted fuel i t)
      (fun again t' => again = false ∧ Notes t t' n.identities n.itinerary ∧
        Trimmed t.analysis t'.analysis i n) fun _ => True := by
  have hself : n.id ∈ n.identities := (Node.Inside.self n).id_mem
  unfold pass
  rw [modify_bind, ask_bind]
  have hentering := runHandlers_noted hv (t := { t with visited := t.visited + 1 }) .entered
    (v.onEntry.filter fun h => h.handles n.form)
    (fun h hh => List.mem_append_left _ (List.mem_filter.mp hh).1) ht hn
  rw [hn.nodeAt, Visitor.noted, filter_noted]
  refine Ends.bind hentering fun changed t₁ ⟨hentered, htree⟩ => ?_
  cases changed with
  | true =>
    have hgone : Gone t.analysis t₁.analysis i := htree
    show Ends (goesOn i t₁) _ _
    rw [goesOn_of_gone hgone]
    have habout : About t t₁ n.identities :=
      ⟨[.entered n.id], hentered, fun e he => List.mem_singleton.mp he ▸ hself⟩
    exact ⟨rfl, habout.of_gone (fun k hk => hgone.not_mem ht hn hk) fun _ he =>
      Node.node_mem_of_itinerary he, .inr hgone⟩
  | false =>
    have hsame : SameTree t.analysis t₁.analysis := htree
    refine (descend_trims hv hordered hdepth hbelow (hsame.ages ht).sound
      (hsame.extends.stands hn)).mono (fun again t' ⟨hagain, hnotes, htrimmed⟩ => ⟨hagain, ?_, ?_⟩)
        fun _ h => h
    · rw [Node.itinerary_eq]
      exact hnotes.cons hentered hself
    · exact htrimmed.after_alters ht hn.known (hsame.extends.alters i n) (Nat.le_of_eq hsame.next.symm)

/-- A visit has one round, in which the children are visited so. -/
theorem trims_of_below (hv : v.Prunes) (hordered : c.isOrdered = true)
    (hdepth : fuel = 0 → c.children = [])
    (hbelow : ∀ fuel', fuel = fuel' + 1 → ∀ d ∈ c.children, Trims v fuel' d) : Trims v fuel c := by
  intro t j ht hn
  unfold maxVisits
  rw [visit_succ]
  refine Ends.bind (pass_trims hv hordered hdepth hbelow ht hn) fun again t' h => ?_
  obtain ⟨rfl, hvisited⟩ := h
  exact hvisited

/-- Every node is visited so, if the tour may go deep enough. -/
theorem trims_of_depth (hv : v.Prunes) (fuel : Nat) {c : Node} (hordered : c.isOrdered = true)
    (hdepth : c.depth ≤ fuel + 1) : Trims v fuel c := by
  induction fuel generalizing c with
  | zero =>
    refine trims_of_below hv hordered (fun _ => ?_) fun fuel' h => by cases h
    refine List.eq_nil_iff_forall_not_mem.mpr fun d hd => ?_
    have hlt := Node.depth_lt_of_mem hd
    have hpos := Node.depth_pos d
    omega
  | succ fuel ih =>
    refine trims_of_below hv hordered (fun h => by cases h) fun fuel' h d hd => ?_
    cases h
    refine ih (Node.isOrdered_child hordered hd) ?_
    have hlt := Node.depth_lt_of_mem hd
    omega

end TourM

/-! ## The tour through a program -/

/-- A tour starts at the program. -/
theorem stands_tour {σ : Type} (n : Node) (state : σ) :
    Analysis.Stands (Tour.start (.ofProgram (n.number 1).1) state).analysis
      (Analysis.ofProgram (n.number 1).1).sites.size (n.number 1).1 := by
  have hprogram : (Analysis.ofProgram (n.number 1).1).program = (n.number 1).1 :=
    (Analysis.extends_ofProgram _).program
  exact (congrArg (Analysis.Stands _ _) hprogram).mp
    (Analysis.stands_root (Analysis.ofProgram (n.number 1).1))

/-- **Surviving nodes are visited once, in order.**  A visitor whose handlers only take out the nodes at
which they act, or put new nodes into their places in a list, goes through a program of any shape, as far
down as it reaches.  Unless a handler fails, what is noted down about the nodes that are still in the
program at the end is what a tour through the program at the start notes down about them: a node is entered
before its children and left after them, and siblings come one after the other.  In particular every such
node is entered exactly once and left exactly once. -/
theorem surviving_nodes_visited_once {ε σ : Type} (v : Visitor ε σ) (hv : v.Prunes) (n : Node)
    (hordered : n.isOrdered = true) (depth : Nat) (hdepth : n.depth ≤ depth + 1) (state : σ) :
    let program := (n.number 1).1
    let a := Analysis.ofProgram program
    let start : Tour (σ × List Note) := .start a (state, [])
    (∃ t, TourM.visit v.noted depth maxVisits a.sites.size start = .ok () t ∧
      t.state.2.filter (TourM.present t.analysis) =
        program.itinerary.filter (TourM.present t.analysis) ∧
      ∀ d : Node, d.Inside program → d.isHole = false → d.id ∈ t.analysis.program.identities →
        t.state.2.count (.entered d.id) = 1 ∧ t.state.2.count (.left d.id) = 1) ∨
    ∃ e t, TourM.visit v.noted depth maxVisits a.sites.size start = .error e t ∧
      TourM.Fails v.noted start e := by
  intro program a start
  have hsound : Analysis.Sound start.analysis := sound_tour n (state, [])
  have hroot : Analysis.Stands start.analysis a.sites.size program := stands_tour n (state, [])
  have hordered' : program.isOrdered = true := (Node.isOrdered_number n 1).trans hordered
  have hdepth' : program.depth ≤ depth + 1 := (Node.depth_number n 1).symm ▸ hdepth
  have hdistinct : program.identities.Nodup := by
    rw [(n.identities_number 1).1]
    exact List.nodup_range'
  have hends := (TourM.trims_of_depth hv depth hordered' hdepth' start a.sites.size hsound hroot).and
    ((TourM.journey_passes v.noted).visit depth maxVisits a.sites.size start trivial)
  revert hends
  cases hvisit : TourM.visit v.noted depth maxVisits a.sites.size start with
  | error e t => exact fun hends => .inr ⟨e, t, rfl, hends.2⟩
  | ok x t =>
    rintro ⟨⟨⟨es, hes, -, hfilter⟩, -⟩, -⟩
    have hnotes : t.state.2 = es := hes.trans (List.nil_append es)
    rw [← hnotes] at hfilter
    refine .inl ⟨t, rfl, hfilter, fun d hd hhole hthere => ?_⟩
    obtain ⟨hentered, hleft⟩ := Node.count_itinerary hdistinct hordered' hd hhole
    have hcount : ∀ e : Note, e.node = d.id → t.state.2.count e = program.itinerary.count e := by
      intro e he
      have hpresent : TourM.present t.analysis e = true := decide_eq_true (he ▸ hthere)
      rw [← List.count_filter hpresent, hfilter, List.count_filter hpresent]
    exact ⟨(hcount _ rfl).trans hentered, (hcount _ rfl).trans hleft⟩

/-! ## Two handlers that prune -/

/-- A change of the program as an action. -/
def TourM.edit {σ : Type} (f : Analysis → Except Refusal Analysis) : TourM Refusal σ Unit :=
  fun t =>
    match f t.analysis with
    | .ok a => .ok () { t with analysis := a }
    | .error e => .error e t

/-- Nodes of some forms are taken out. -/
def Handler.removing {σ : Type} (handles : Form → Bool) : Handler Refusal σ :=
  ⟨handles, fun i => TourM.edit fun a => a.remove i⟩

/-- New nodes are put into the places of nodes of some forms that stand in lists. -/
def Handler.splicing {σ : Type} (handles : Form → Bool) (news : List Node) : Handler Refusal σ :=
  ⟨handles, fun i => TourM.edit fun a =>
    if (a.site i).listed then a.replaceMany i news else .ok a⟩

theorem TourM.ends_edit {σ : Type} {f : Analysis → Except Refusal Analysis} {i : SiteId}
    (hf : ∀ a a', f a = .ok a' → a.Prunes i a') (t : Tour σ) :
    TourM.Ends (TourM.edit f t) (fun _ t' => t.analysis.Prunes i t'.analysis) fun _ => True := by
  unfold TourM.edit
  cases hresult : f t.analysis with
  | ok a => exact hf _ _ hresult
  | error e => trivial

theorem prunes_of_removing {σ : Type} (handles : Form → Bool) (i : SiteId) (t : Tour σ) :
    TourM.Ends ((Handler.removing handles).act i t) (fun _ t' => t.analysis.Prunes i t'.analysis)
      fun _ => True :=
  TourM.ends_edit (f := fun a => a.remove i) (fun _ _ => .takenOut) t

theorem prunes_of_splicing {σ : Type} (handles : Form → Bool) {news : List Node}
    (hnew : Node.AreNew news) (i : SiteId) (t : Tour σ) :
    TourM.Ends ((Handler.splicing handles news).act i t)
      (fun _ t' => t.analysis.Prunes i t'.analysis) fun _ => True := by
  refine TourM.ends_edit (f := fun a => if (a.site i).listed then a.replaceMany i news else .ok a)
    (fun a a' h => ?_) t
  split at h
  · next hlisted => exact .spliced news hlisted hnew h
  · cases h
    exact .kept

/-- Whether a form is that of a declarator. -/
def Form.declares : Form → Bool
  | .variableDeclarator => true
  | _ => false

/-- Whether a form is that of an empty statement. -/
def Form.saysNothing : Form → Bool
  | .emptyStatement => true
  | _ => false

/-- Declarators are taken out when the tour comes to them, and two debugger statements are put into the
place of an empty statement when it leaves one. -/
def clearing : Visitor Refusal Unit where
  onEntry := [.removing Form.declares]
  onLeaving := [.splicing Form.saysNothing [.leaf .debuggerStatement, .leaf .debuggerStatement]]

theorem clearing_prunes : clearing.Prunes := by
  intro h hmem i t
  have hnew : Node.AreNew [.leaf .debuggerStatement, .leaf .debuggerStatement] := by
    intro k hk
    simpa [Node.leaf, Node.make, Node.identities, Node.identitiesAll] using hk
  obtain rfl | hmem := List.mem_cons.mp hmem
  · exact prunes_of_removing _ i t
  · obtain rfl := List.mem_singleton.mp hmem
    exact prunes_of_splicing _ hnew i t

/-- `; var p; debugger;` -/
def untidyScript : Node :=
  Node.program [.leaf .emptyStatement,
    Node.variableDeclaration .var [Node.variableDeclarator (Node.ident (Text.of "p")) none],
    .leaf .debuggerStatement]

/-- The end of a tour that clears it. -/
def untidyRun : EStateM.Result Refusal (Tour (Unit × List Note)) Unit :=
  TourM.visit clearing.noted 3 maxVisits (Analysis.ofProgram (untidyScript.number 1).1).sites.size
    (.start (.ofProgram (untidyScript.number 1).1) ((), []))

set_option maxRecDepth 100000 in
theorem identities_untidyRun :
    (match untidyRun with
      | .ok () t => t.analysis.program.identities
      | .error _ _ => []) = [1, 7, 8, 6] := by cbv

/-- The empty statement gives way to two statements and the declaration goes with its only declarator; the
statement behind them is visited once. -/
theorem untidyScript_cleared_in_order :
    clearing.Prunes ∧ untidyScript.isOrdered = true ∧ untidyScript.depth ≤ 3 + 1 ∧
      ∃ t, untidyRun = .ok () t ∧ t.analysis.program.identities = [1, 7, 8, 6] ∧
        t.state.2.filter (TourM.present t.analysis) = [.entered 1, .entered 6, .left 6, .left 1] := by
  have hordered : untidyScript.isOrdered = true := by decide +kernel
  have hdepth : untidyScript.depth ≤ 3 + 1 := by decide +kernel
  refine ⟨clearing_prunes, hordered, hdepth, ?_⟩
  have hrun := identities_untidyRun
  obtain ⟨t, ht, hnotes, -⟩ | ⟨e, t, ht, -⟩ :=
    surviving_nodes_visited_once clearing clearing_prunes untidyScript hordered 3 hdepth ()
  · rw [untidyRun, ht] at hrun
    have hidentities : t.analysis.program.identities = [1, 7, 8, 6] := hrun
    refine ⟨t, ht, hidentities, hnotes.trans ?_⟩
    unfold TourM.present
    rw [hidentities]
    decide +kernel
  · rw [untidyRun, ht] at hrun
    cases hrun

end Untangle
