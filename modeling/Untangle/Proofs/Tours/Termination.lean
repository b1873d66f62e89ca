import Untangle.Proofs.Tours.Revisits
import Untangle.Proofs.Unwrapping.Outcome

set_option autoImplicit false

/-!
# Tours come to an end

How deep a tour goes is bounded by fuel.  A tour through a program needs some fuel only: with more of it
the tour comes to the same program, or to the same error.

Where rules leave the program as it is a tour goes down the tree, and below a site that is not attached any
more it goes down the trees that were taken out, towards those taken out last.  Where rules change the
program its load gets lower, and whatever is visited again is visited in a program of a lower load.

The main theorem is `revisits_bounded`, for every choice of rules.  The bounds that it speaks of are those
of the tour; the recursion limit of the machine that runs the tour is not modelled.
-/

namespace Untangle

open Analysis (Extends Rooted Sound)

/-! ## Computations with enough fuel -/

/-- A computation needs some fuel only. -/
def Settles {ε σ α : Type} (m : Nat → TourM ε σ α) (t : Tour σ) : Prop :=
  ∃ depth, ∀ fuel, depth ≤ fuel → m fuel t = m depth t

namespace Settles

variable {ε σ α β : Type} {m m' : Nat → TourM ε σ α} {t t' : Tour σ}

theorem const (m : TourM ε σ α) (t : Tour σ) : Settles (fun _ => m) t := ⟨0, fun _ _ => rfl⟩

theorem congr (h : Settles m' t') (heq : ∀ fuel, m fuel t = m' fuel t') : Settles m t := by
  obtain ⟨depth, h⟩ := h
  exact ⟨depth, fun fuel hle => by rw [heq, heq, h fuel hle]⟩

theorem succ (h : Settles m t) : Settles (fun fuel => m (fuel + 1)) t := by
  obtain ⟨depth, h⟩ := h
  refine ⟨depth, fun fuel hle => ?_⟩
  exact (h (fuel + 1) (Nat.le_succ_of_le hle)).trans (h (depth + 1) (Nat.le_succ depth)).symm

theorem of_succ (h : Settles (fun fuel => m (fuel + 1)) t) : Settles m t := by
  obtain ⟨depth, h⟩ := h
  refine ⟨depth + 1, fun fuel hle => ?_⟩
  obtain ⟨fuel, rfl⟩ := Nat.exists_eq_add_of_le' (Nat.le_trans (Nat.le_add_left 1 depth) hle)
  exact h fuel (Nat.le_of_succ_le_succ hle)

theorem bind {k : Nat → α → TourM ε σ β} (hm : Settles m t)
    (hk : ∀ fuel x t', m fuel t = .ok x t' → Settles (fun fuel => k fuel x) t') :
    Settles (fun fuel => m fuel >>= k fuel) t := by
  obtain ⟨depth, hm⟩ := hm
  cases hres : m depth t with
  | ok x t' =>
    obtain ⟨depth', hk⟩ := hk depth x t' hres
    refine ⟨max depth depth', fun fuel hle => ?_⟩
    have hfirst : depth ≤ max depth depth' := Nat.le_max_left ..
    have hsecond : depth' ≤ max depth depth' := Nat.le_max_right ..
    have hlast := (hk fuel (Nat.le_trans hsecond hle)).trans (hk _ hsecond).symm
    show (m fuel >>= k fuel) t = (m (max depth depth') >>= k (max depth depth')) t
    rw [bind_of_ok ((hm fuel (Nat.le_trans hfirst hle)).trans hres),
      bind_of_ok ((hm _ hfirst).trans hres)]
    exact hlast
  | error e t' =>
    refine ⟨depth, fun fuel hle => ?_⟩
    show (m fuel >>= k fuel) t = (m depth >>= k depth) t
    rw [bind_of_error ((hm fuel hle).trans hres), bind_of_error hres]

end Settles

/-! ## The nodes that sites lead to -/

namespace Node

/-- A search in several trees that finds a node finds a child of it in the same tree, or in an earlier
one. -/
theorem findSome?_child {trees : List Node} {n c : Node} {k : NodeId}
    (hdistinct : ∀ x ∈ trees, x.identities.Nodup) (hn : trees.findSome? (findId k) = some n)
    (hc : c ∈ n.children) :
    ∃ m, trees.findSome? (findId c.id) = some m ∧
      (trees.findIdx (fun x => (x.findId c.id).isSome) < trees.findIdx (fun x => (x.findId k).isSome) ∨
        trees.findIdx (fun x => (x.findId c.id).isSome) = trees.findIdx (fun x => (x.findId k).isSome) ∧
          m = c) := by
  induction trees with
  | nil => cases hn
  | cons x trees ih =>
    rw [List.findSome?_cons] at hn ⊢
    rw [List.findIdx_cons, List.findIdx_cons]
    cases hchild : x.findId c.id with
    | some m =>
      refine ⟨m, rfl, ?_⟩
      cases hparent : x.findId k with
      | some n' =>
        rw [hparent] at hn
        cases hn
        obtain ⟨hinside, hid⟩ := inside_of_findId hchild
        have hbelow := (Inside.child hc).trans (inside_of_findId hparent).1
        exact .inr ⟨rfl, Inside.eq_of_id (hdistinct x List.mem_cons_self) hinside hbelow hid⟩
      | none => exact .inl (Nat.succ_pos _)
    | none =>
      cases hparent : x.findId k with
      | some n' =>
        rw [hparent] at hn
        cases hn
        have hbelow := (Inside.child hc).trans (inside_of_findId hparent).1
        exact absurd hbelow.id_mem (not_mem_of_findId hchild)
      | none =>
        rw [hparent] at hn
        obtain ⟨m, hm, hplace⟩ := ih (fun y hy => hdistinct y (List.mem_cons_of_mem x hy)) hn
        exact ⟨m, hm, hplace.imp Nat.succ_lt_succ fun ⟨heq, hsame⟩ => ⟨congrArg Nat.succ heq, hsame⟩⟩

end Node

namespace Analysis

variable {a a' a'' : Analysis} {i : SiteId} {c n : Node}

theorem find?_eq (a : Analysis) (k : NodeId) :
    a.find? k = (a.program :: a.attic).findSome? (Node.findId k) := by
  rw [List.findSome?_cons, find?]
  cases a.program.findId k <;> rfl

/-- How far a site is from the program: how many trees are searched for its node, if it is not attached. -/
def removal (a : Analysis) (i : SiteId) : Nat :=
  if a.isAttached i then 0
  else (a.program :: a.attic).findIdx (fun x => (x.findId (a.site i).node).isSome) + 1

/-- Further sites only. -/
structure Calm (a a' : Analysis) : Prop where
  extended : Extends a a'
  attic : a'.attic = a.attic

theorem Calm.trans (h : Calm a a') (h' : Calm a' a'') : Calm a a'' :=
  ⟨h.extended.trans h'.extended, h'.attic.trans h.attic⟩

theorem Calm.attachedNode?_eq (h : Calm a a') (hi : i < a.sites.size) :
    a'.attachedNode? i = a.attachedNode? i := by
  rw [attachedNode?, attachedNode?, h.extended.site_eq hi, h.extended.way_eq hi, h.extended.program]

theorem Calm.nodeAt_eq (h : Calm a a') (hi : i < a.sites.size) : a'.nodeAt i = a.nodeAt i := by
  rw [nodeAt, nodeAt, h.attachedNode?_eq hi, find?_eq, find?_eq, h.extended.program, h.attic,
    h.extended.site_eq hi]

theorem Calm.removal_eq (h : Calm a a') (hi : i < a.sites.size) : a'.removal i = a.removal i := by
  rw [removal, removal, isAttached, isAttached, h.attachedNode?_eq hi, h.extended.program, h.attic,
    h.extended.site_eq hi]

theorem calm_addSiteBelow (a : Analysis) (i : SiteId) (c : Node) (listed : Bool) (scope : ScopeId) :
    Calm a (a.addSiteBelow i c listed scope).2 := ⟨extends_addSiteBelow a i c listed scope, rfl⟩

/-- The site of a child is as far from the program as that of its parent, and leads to the child, or it is
nearer to the program. -/
theorem Ready.removal_child (hi : a.Ready i) (hc : c ∈ (a.nodeAt i).children) (listed : Bool)
    (scope : ScopeId) :
    (a.addSiteBelow i c listed scope).2.removal a.sites.size < a.removal i ∨
      (a.addSiteBelow i c listed scope).2.removal a.sites.size = a.removal i ∧
        (a.addSiteBelow i c listed scope).2.nodeAt a.sites.size = c := by
  have hsite := site_addSiteBelow a i c listed scope
  have hcalm := calm_addSiteBelow a i c listed scope
  have hway := way_addSiteBelow c listed scope hi.rooted.known
  generalize (a.addSiteBelow i c listed scope).2 = a' at hsite hcalm hway ⊢
  cases hattached : a.attachedNode? i with
  | some n =>
    rw [nodeAt, hattached] at hc
    have hfollow := follow_of_attachedNode? hattached
    have hdistinct := Node.nodup_of_follow hi.sound.numbered.distinct hfollow
    have hchild : a'.attachedNode? a.sites.size = some c := by
      unfold attachedNode?
      rw [hsite, hway, hcalm.extended.program, Node.follow_append, hfollow]
      exact Node.follow_cons (Node.nodup_identitiesAll hdistinct) hc []
    refine .inr ⟨?_, by rw [nodeAt, hchild]⟩
    rw [removal, removal, isAttached, isAttached, hchild, hattached]
    rfl
  | none =>
    rw [nodeAt, hattached] at hc
    cases hchild : a'.attachedNode? a.sites.size with
    | some m =>
      rw [removal, removal, isAttached, isAttached, hchild, hattached]
      exact .inl (Nat.succ_pos _)
    | none =>
      cases hfound : a.find? (a.site i).node with
      | none =>
        rw [hfound] at hc
        cases hc
      | some n =>
        rw [hfound] at hc
        rw [find?_eq] at hfound
        have hdistinct : ∀ x ∈ a.program :: a.attic, x.identities.Nodup := by
          intro x hx
          obtain rfl | hx := List.mem_cons.mp hx
          · exact hi.sound.numbered.distinct
          · exact (hi.attic x hx).1
        obtain ⟨m, hm, hplace⟩ := Node.findSome?_child hdistinct hfound hc
        rw [removal, removal, isAttached, isAttached, hchild, hattached, nodeAt, hchild, hsite, find?_eq,
          hcalm.extended.program, hcalm.attic, hm]
        exact hplace.imp Nat.succ_lt_succ fun hsame => ⟨congrArg Nat.succ hsame.1, hsame.2⟩

end Analysis

/-! ## Tours with enough fuel -/

variable {settings : Settings} {rules : List RuleName} {t t' : Tour RuleState} {i : SiteId}

open Analysis (Calm)

/-- A run leaves the program as it is, apart from sites, or lowers its load. -/
theorem Reaches.calm_or_lower (h : Reaches (RuleName.visitor settings rules) t t')
    (ht : Sound t.analysis) (hattic : t.analysis.AtticNumbered) :
    Calm t.analysis t'.analysis ∨
      t'.analysis.program.load settings.maxDispatchSteps <
        t.analysis.program.load settings.maxDispatchSteps := by
  induction h with
  | here => exact .inl ⟨.refl _, rfl⟩
  | counted _ ih => exact ih
  | @sited t' i child listed scope _ _ ih =>
    exact ih.imp_left fun hcalm => hcalm.trans (Analysis.calm_addSiteBelow t'.analysis i child listed scope)
  | acted hreaches hmem hi hact ih =>
    have hremains := hreaches.remains ht
    have hturned := turned_of_handler hmem hremains.sound (hremains.attic hattic) hi _ rfl
    rw [hact] at hturned
    obtain hsame | hlowered := hturned
    · rwa [hsame]
    · refine .inr ?_
      obtain hcalm | hlower := ih
      · rw [← hcalm.extended.program]
        exact hlowered.load
      · exact Nat.lt_trans hlowered.load hlower

theorem reaches_of_goes {α : Type} {m : TourM RuleError RuleState α} {x : α}
    (hgoes : TourM.Goes (fun t i => t.analysis.Numbered ∧ Rooted t.analysis i)
      (Reaches (RuleName.visitor settings rules)) (Breaks (RuleName.visitor settings rules)) i m)
    (hi : t.analysis.Ready i) (hm : m t = .ok x t') : Reaches (RuleName.visitor settings rules) t t' := by
  have hends := hgoes t ⟨hi.sound.numbered, hi.rooted⟩
  rwa [hm] at hends

section Children

/-- The children of a site are visited with enough fuel, wherever a run comes to. -/
def ChildrenSettle (v : Visitor RuleError RuleState) (i : SiteId) (t : Tour RuleState) : Prop :=
  ∀ t', Reaches v t t' → ∀ c ∈ (t'.analysis.nodeAt i).children, ∀ listed scope,
    Settles (fun fuel => TourM.visitChild v fuel i c listed scope) t'

theorem ChildrenSettle.mono {v : Visitor RuleError RuleState} (h : ChildrenSettle v i t)
    (hreaches : Reaches v t t') : ChildrenSettle v i t' := fun t'' h'' => h t'' (hreaches.trans h'')

theorem settles_visitItems (hi : t.analysis.Ready i)
    (hchildren : ChildrenSettle (RuleName.visitor settings rules) i t) (slot : Slot) (scope : ScopeId)
    (remaining : Nat) :
    Settles (fun fuel => TourM.visitItems (RuleName.visitor settings rules) fuel i slot scope remaining)
      t := by
  induction remaining generalizing t with
  | zero =>
    refine (Settles.const (pure ()) t).congr fun fuel => ?_
    unfold TourM.visitItems
    rfl
  | succ remaining ih =>
    refine .of_succ ?_
    cases hlast : TourM.fromEnd? ((t.analysis.nodeAt i).childrenAt slot.role) (remaining + 1) with
    | none =>
      refine (Settles.const (pure ()) t).congr fun fuel => ?_
      rw [TourM.visitItems, TourM.ask_bind, hlast]
    | some c =>
      have hc : c ∈ (t.analysis.nodeAt i).children :=
        (Node.mem_childrenAt.mp (TourM.mem_of_fromEnd? hlast)).1
      by_cases hhole : c.isHole = true
      · refine (ih hi hchildren).succ.congr fun fuel => ?_
        rw [TourM.visitItems, TourM.ask_bind, hlast]
        simp only [hhole, Bool.not_true, Bool.false_eq_true, if_false]
      · have hchild := hchildren t .here c hc slot.listed scope
        refine (hchild.bind (k := fun fuel _ => TourM.visitItems (RuleName.visitor settings rules)
          (fuel + 1) i slot scope remaining) fun fuel _ t' hvisited => ?_).congr fun fuel => ?_
        · have hjourney := journey_reaches settings rules
          have hreaches := reaches_of_goes
            (hjourney.visitChild (hjourney.visit fuel maxVisits) c slot.listed scope) hi hvisited
          exact (ih (hreaches.ready hi) (hchildren.mono hreaches)).succ
        · rw [TourM.visitItems, TourM.ask_bind, hlast]
          simp only [hhole, Bool.not_false, if_true, TourM.visitChild, bind_assoc]

theorem settles_visitSlots (hi : t.analysis.Ready i)
    (hchildren : ChildrenSettle (RuleName.visitor settings rules) i t) (node : NodeId) (form : Form)
    (outer inner : ScopeId) (slots : List Slot) :
    Settles (fun fuel =>
      TourM.visitSlots (RuleName.visitor settings rules) fuel i node form outer inner slots) t := by
  induction slots generalizing t with
  | nil =>
    refine (Settles.const (pure ()) t).congr fun fuel => ?_
    unfold TourM.visitSlots
    rfl
  | cons slot rest ih =>
    have hitems := settles_visitItems hi hchildren slot (Analysis.childScope form slot.role outer inner)
      ((t.analysis.nodeAt i).childrenAt slot.role).length
    refine (hitems.bind (k := fun fuel _ => do
      if ← TourM.isCurrent i node then
        TourM.visitSlots (RuleName.visitor settings rules) fuel i node form outer inner rest)
      fun fuel _ t' hvisited => ?_).congr fun fuel => ?_
    · have hjourney := journey_reaches settings rules
      have hreaches := reaches_of_goes (hjourney.visitItems
        (fun fuel' _ => hjourney.visit fuel' maxVisits) slot _ _) hi hvisited
      have hrest := ih (hreaches.ready hi) (hchildren.mono hreaches)
      cases hcurrent : (t'.analysis.site i).node == node && t'.analysis.isAttached i with
      | true =>
        refine hrest.congr fun fuel => ?_
        rw [TourM.isCurrent, TourM.ask_bind, hcurrent]
        rfl
      | false =>
        refine (Settles.const (pure ()) t').congr fun fuel => ?_
        rw [TourM.isCurrent, TourM.ask_bind, hcurrent]
        rfl
    · rw [TourM.visitSlots, TourM.ask_bind]

theorem settles_descend (hi : t.analysis.Ready i)
    (hchildren : ChildrenSettle (RuleName.visitor settings rules) i t) (n : Node) :
    Settles (fun fuel => TourM.descend (RuleName.visitor settings rules) fuel i n) t := by
  have hslots := settles_visitSlots hi hchildren n.id n.form (t.analysis.site i).scope
    ((t.analysis.scopeOpenedBy? n.id).getD (t.analysis.site i).scope) n.form.slots
  refine (hslots.bind (k := fun _ _ => do
    if ← TourM.ask fun a => a.isAttached i then
      if ← TourM.runHandlers i n.id ((RuleName.visitor settings rules).onLeaving.filter fun h =>
        h.handles n.form) then TourM.goesOn i
      else return false
    else return false) fun _ _ t' _ => .const _ t').congr fun fuel => ?_
  rw [TourM.descend, TourM.ask_bind, TourM.ask_bind]

theorem settles_pass (hi : t.analysis.Ready i)
    (hchildren : ChildrenSettle (RuleName.visitor settings rules) i t) :
    Settles (fun fuel => TourM.pass (RuleName.visitor settings rules) fuel i) t := by
  let n := t.analysis.nodeAt i
  have hcounted : Reaches (RuleName.visitor settings rules) t { t with visited := t.visited + 1 } :=
    .counted .here
  have hentry : Settles (fun fuel => do
      if ← TourM.runHandlers i n.id ((RuleName.visitor settings rules).onEntry.filter fun h =>
        h.handles n.form) then TourM.goesOn i
      else TourM.descend (RuleName.visitor settings rules) fuel i n)
      { t with visited := t.visited + 1 } := by
    refine (Settles.const _ _).bind fun _ changed t' hacted => ?_
    cases changed with
    | true => exact .const _ t'
    | false =>
      have hjourney := journey_reaches settings rules
      have hreaches := reaches_of_goes (t := { t with visited := t.visited + 1 })
        (hjourney.picked n fun h hh => List.mem_append_left _ hh) (hcounted.ready hi) hacted
      exact settles_descend (hreaches.ready hi) (hchildren.mono (hcounted.trans hreaches)) n
  refine hentry.congr fun fuel => ?_
  rw [TourM.pass, TourM.modify_bind, TourM.ask_bind]

end Children

/-- A visit needs some fuel only. -/
theorem settles_visit {t : Tour RuleState} {i : SiteId} (hi : t.analysis.Ready i) (visits : Nat) :
    Settles (fun fuel => TourM.visit (RuleName.visitor settings rules) fuel visits i) t := by
  cases visits with
  | zero =>
    refine (Settles.const (pure ()) t).congr fun fuel => ?_
    unfold TourM.visit
    rfl
  | succ visits =>
    have hchildren : ChildrenSettle (RuleName.visitor settings rules) i t := by
      intro t' hreaches c hc listed scope
      have hi' := hreaches.ready hi
      have hcalm := hreaches.calm_or_lower hi.sound hi.attic
      have hplace := hi'.removal_child hc listed scope
      have hsize := Node.size_lt_of_mem_children hc
      refine (settles_visit (t := { t' with
        analysis := (t'.analysis.addSiteBelow i c listed scope).2 }) (i := t'.analysis.sites.size)
        (hi'.sited c listed scope) maxVisits).congr fun fuel => rfl
    refine ((settles_pass hi hchildren).bind (k := fun fuel again =>
      if again then TourM.visit (RuleName.visitor settings rules) fuel visits i else pure ())
      fun fuel again t' hpass => ?_).congr fun fuel => ?_
    · cases again with
      | false => exact .const _ t'
      | true =>
        have hcalm := (reaches_of_pass hi hpass).calm_or_lower hi.sound hi.attic
        have hrank := rank_of_pass hi hpass
        exact settles_visit ((reaches_of_pass hi hpass).ready hi) visits
    · rw [TourM.visit_succ]
termination_by (t.analysis.program.load settings.maxDispatchSteps, t.analysis.removal i,
  (t.analysis.nodeAt i).size)
decreasing_by
  · obtain hcalm | hlower := hcalm
    · -- The child is nearer to the program, or smaller.
      have hsame : t'.analysis.program.load settings.maxDispatchSteps =
          t.analysis.program.load settings.maxDispatchSteps :=
        congrArg (Node.load settings.maxDispatchSteps) hcalm.extended.program
      rw [hcalm.removal_eq hi.rooted.known] at hplace
      rw [hcalm.nodeAt_eq hi.rooted.known] at hsize
      obtain hnearer | ⟨hbeside, hchild⟩ := hplace
      · exact Prod.lex_def.mpr (.inr ⟨hsame, .left _ _ hnearer⟩)
      · refine Prod.lex_def.mpr (.inr ⟨hsame, Prod.lex_def.mpr (.inr ⟨hbeside, ?_⟩)⟩)
        show ((t'.analysis.addSiteBelow i c listed scope).2.nodeAt t'.analysis.sites.size).size < _
        rwa [hchild]
    · exact .left _ _ hlower
  · -- The node of a site that is visited again is not the one that it had.
    obtain hcalm | hlower := hcalm
    · rw [hcalm.nodeAt_eq hi.rooted.known] at hrank
      exact absurd hrank (Nat.lt_irrefl _)
    · exact .left _ _ hlower

/-- **Tours come to an end.**  Wherever a run of some rules on a parsed program comes to, a site is visited
three times in a row at most: rounds that end with the site to be visited again follow each other twice at
most.  So no tour is cut off by a bound on the visits in a row that allows three of them.  And a visit of
the site comes to an end, with a program or with an error: there is a depth such that with this or any
larger bound on the depth, and with any such bound on the visits, it comes to the same.  In particular this
holds of the site of the program, with which the run starts. -/
theorem revisits_bounded (n : Node) (settings : Settings) (rules : List RuleName)
    (store : Sandbox.Machine) :
    let a := Analysis.ofProgram (n.number 1).1
    let v := RuleName.visitor settings rules
    let t₀ := settings.start a store
    Rooted t₀.analysis a.sites.size ∧ ∀ t, Reaches v t₀ t → ∀ i, Rooted t.analysis i →
      (∀ fuel k t', TourM.Rounds v fuel i k t t' → k ≤ 2) ∧
        (∀ fuel, ∀ visits ≥ 3, TourM.visit v fuel visits i t = TourM.visit v fuel 3 i t) ∧
        ∃ depth r, ∀ fuel ≥ depth, ∀ visits ≥ 3, TourM.visit v fuel visits i t = r := by
  intro a v t₀
  refine ⟨rooted_start settings a store, fun t ht i hroot => ?_⟩
  have hi := ready_of_reaches n store ht hroot
  have hrank := Form.rank_le (t.analysis.nodeAt i).form
  have hcut : ∀ fuel, ∀ visits ≥ 3, TourM.visit v fuel visits i t = TourM.visit v fuel 3 i t :=
    fun fuel visits hvisits => visit_eq_of_rank_lt hi (by omega) (by omega)
  refine ⟨fun fuel k t' hrounds => Nat.le_trans (rounds_le_rank hi hrounds) hrank, hcut, ?_⟩
  obtain ⟨depth, hdepth⟩ := settles_visit hi 3
  exact ⟨depth, _, fun fuel hfuel visits hvisits => (hcut fuel visits hvisits).trans (hdepth fuel hfuel)⟩

/-- A run of all rules on `var o = { f: function (a, b) { return a === b; } }; o.f('p', 'q');` -/
def wrapperStart : Tour RuleState :=
  (default : Settings).start (.ofProgram (Rule.Evaluation.wrapperScript.number 1).1) .bare

/-- The tour after a round at the call, if it is to be visited again. -/
def wrapperRound (t : Tour RuleState) : Option (Tour RuleState) :=
  match TourM.passAlone (RuleName.visitor default RuleName.all) 40 t with
  | .ok true t' => some t'
  | _ => none

theorem pass_of_wrapperRound {t t' : Tour RuleState} (h : wrapperRound t = some t') :
    TourM.pass (RuleName.visitor default RuleName.all) 0 40 t = .ok true t' := by
  rw [TourM.pass_zero]
  unfold wrapperRound at h
  split at h
  · next hpass =>
    cases h
    exact hpass
  · cases h

/-- The call gives way to the comparison, which gives way to its value: the site is visited three times. -/
theorem wrapperCall_visited_thrice :
    (∃ t, TourM.Rounds (RuleName.visitor default RuleName.all) 0 40 2 wrapperStart t) ∧
      (∀ fuel k t, TourM.Rounds (RuleName.visitor default RuleName.all) fuel 40 k wrapperStart t → k ≤ 2) ∧
        ∃ depth r, ∀ fuel ≥ depth,
          TourM.visit (RuleName.visitor default RuleName.all) fuel maxVisits 40 wrapperStart = r := by
  have hsome : ((wrapperRound wrapperStart).bind wrapperRound).isSome = true := by decide +kernel
  obtain ⟨t₂, hboth⟩ := Option.isSome_iff_exists.mp hsome
  obtain ⟨t₁, hfirst, hsecond⟩ := Option.bind_eq_some_iff.mp hboth
  have hknown : 40 < wrapperStart.analysis.sites.size := by decide +kernel
  have hroot : Rooted wrapperStart.analysis 40 :=
    ⟨hknown, fun p hp => (sound_start _ default .bare).ordered 40 p hp⟩
  obtain ⟨hrounds, -, depth, r, hr⟩ :=
    (revisits_bounded Rule.Evaluation.wrapperScript default RuleName.all .bare).2 wrapperStart .here 40
      hroot
  exact ⟨⟨t₂, .again (pass_of_wrapperRound hfirst) (.again (pass_of_wrapperRound hsecond) (.none t₂))⟩,
    hrounds, depth, r, fun fuel hfuel => hr fuel hfuel maxVisits (by decide)⟩

end Untangle
