import Untangle.Proofs.Analysis.Visit
import Untangle.Proofs.Tours.Outcome

set_option autoImplicit false

/-!
# Visits of a site in a row

A site is visited again after a handler replaced its node.  What comes in the place of a node can be
replaced less often than the node itself: a call becomes an operator, an operator becomes a value.  Sites
below may lower the program too, but leave the node of the site, for which reason the site is visited three
times at most before the tour goes on.
-/

namespace Untangle

open Analysis (Above Extends Rooted Sound Stays)

/-- A site in an analysis at which rules may act. -/
structure Analysis.Ready (a : Analysis) (i : SiteId) : Prop where
  sound : Sound a
  attic : a.AtticNumbered
  topped : a.Topped
  rooted : Rooted a i

variable {settings : Settings} {rules : List RuleName} {t t' t'' : Tour RuleState} {i j : SiteId} {f : Form}
  {node : NodeId}

theorem Reaches.ready (h : Reaches (RuleName.visitor settings rules) t t') (hi : t.analysis.Ready i) :
    t'.analysis.Ready i :=
  have hremains := h.remains hi.sound
  ⟨hremains.sound, hremains.attic hi.attic, hremains.topped hi.topped,
    hi.rooted.stays (h.numbered hi.sound.numbered).2⟩

/-- Sites that a run has come to are ready. -/
theorem ready_of_reaches (n : Node) (store : Sandbox.Machine)
    (h : Reaches (RuleName.visitor settings rules)
      (settings.start (.ofProgram (n.number 1).1) store) t) (hi : Rooted t.analysis i) :
    t.analysis.Ready i :=
  have hremains := h.remains (sound_start n settings store)
  ⟨hremains.sound, hremains.attic (atticNumbered_start n settings store),
    hremains.topped (topped_start n settings store), hi⟩

/-- The node of a site is the one that the site names, unless there is no such node. -/
theorem Analysis.Ready.id_nodeAt {a : Analysis} (hi : a.Ready i) (hform : (a.nodeAt i).form ≠ .hole) :
    (a.site i).node = (a.nodeAt i).id := by
  unfold nodeAt at hform ⊢
  cases hattached : a.attachedNode? i with
  | some n =>
    cases habove : (a.site i).above with
    | some p => exact (Analysis.id_of_attachedNode? hattached habove hi.sound.ordered).symm
    | none =>
      have hfollow := Analysis.follow_of_attachedNode? hattached
      rw [Analysis.way_of_root habove] at hfollow
      cases hfollow
      exact hi.topped i hi.rooted.known habove
  | none =>
    rw [hattached] at hform
    cases hfound : a.find? (a.site i).node with
    | none =>
      rw [hfound] at hform
      exact absurd rfl hform
    | some n =>
      unfold find? at hfound
      split at hfound
      · next hprogram =>
        cases hfound
        exact (Node.inside_of_findId hprogram).2.symm
      · obtain ⟨x, -, hx⟩ := List.exists_of_findSome?_eq_some hfound
        exact (Node.inside_of_findId hx).2.symm

/-! ## Handlers at a site -/

/-- The node of a site was taken out, or gave way to one that can be replaced less often. -/
def Spent (f : Form) (i : SiteId) (a : Analysis) : Prop :=
  (a.site i).retired = true ∨ ∃ n, a.attachedNode? i = some n ∧ n.form.rank < f.rank

theorem spent_of_acted {h : Handler RuleError RuleState}
    (hmem : h ∈ (RuleName.visitor settings rules).handlers) (hf : h.handles f = true)
    (hi : t.analysis.Ready i) :
    TourM.Ends (h.act i t) (fun _ t' => t'.analysis = t.analysis ∨ Spent f i t'.analysis)
      fun _ => True := by
  refine (turned_of_handler hmem hi.sound hi.attic hi.rooted t rfl).mono (fun _ t' hturned => ?_)
    fun _ _ => trivial
  obtain hsame | hlowered := hturned
  · exact .inl hsame
  · obtain hretired | ⟨n, hn, hrank⟩ := hlowered.site
    · exact .inr (.inl hretired)
    · exact .inr (.inr ⟨n, hn, hrank f hf⟩)

/-- No rule acts on a hole. -/
theorem ne_hole_of_handles {h : Handler RuleError RuleState}
    (hmem : h ∈ (RuleName.visitor settings rules).handlers) (hf : h.handles f = true) : f ≠ .hole := by
  rintro rfl
  obtain rfl | rfl | rfl | rfl := handler_cases hmem <;> cases hf

/-- Handlers of a form that change the node of a site leave it spent, and otherwise leave the site named
as it was. -/
theorem spent_or_named {hs : List (Handler RuleError RuleState)}
    (hmem : ∀ h ∈ hs, h ∈ (RuleName.visitor settings rules).handlers)
    (hf : ∀ h ∈ hs, h.handles f = true) (hi : t.analysis.Ready i)
    (hnode : f ≠ .hole → (t.analysis.site i).node = node) :
    TourM.Ends (TourM.runHandlers i node hs t) (fun changed t' => t'.analysis.Ready i ∧
      if changed then Spent f i t'.analysis else f ≠ .hole → (t'.analysis.site i).node = node)
      fun _ => True := by
  induction hs generalizing t with
  | nil => exact ⟨hi, hnode⟩
  | cons h hs ih =>
    have hhere := hmem h List.mem_cons_self
    have hhandles := hf h List.mem_cons_self
    have hacted := spent_of_acted hhere hhandles hi
    unfold TourM.runHandlers
    cases hact : h.act i t with
    | error e t' =>
      rw [bind_of_error hact]
      trivial
    | ok _ t' =>
      rw [hact] at hacted
      have hi' : t'.analysis.Ready i := Reaches.ready (.acted .here hhere hi.rooted hact) hi
      rw [bind_of_ok hact]
      unfold TourM.hasChanged
      simp only [bind_assoc, pure_bind]
      rw [TourM.ask_bind]
      split
      · next hchanged =>
        refine ⟨hi', ?_⟩
        show Spent f i t'.analysis
        obtain hsame | hspent := hacted
        · rw [hsame, hnode (ne_hole_of_handles hhere hhandles), bne_self_eq_false,
            Bool.or_false] at hchanged
          rw [hsame]
          exact .inl hchanged
        · exact hspent
      · next hsame =>
        rw [Bool.not_eq_true, Bool.or_eq_false_iff] at hsame
        exact ih (fun h' hh' => hmem h' (List.mem_cons_of_mem h hh'))
          (fun h' hh' => hf h' (List.mem_cons_of_mem h hh')) hi' fun _ => bne_eq_false_iff_eq.mp hsame.2

theorem picked_spent_or_named {n : Node} {hs : List (Handler RuleError RuleState)}
    (hmem : ∀ h ∈ hs, h ∈ (RuleName.visitor settings rules).handlers) (hi : t.analysis.Ready i)
    (hnode : n.form ≠ .hole → (t.analysis.site i).node = n.id) :
    TourM.Ends (TourM.runHandlers i n.id (hs.filter fun h => h.handles n.form) t)
      (fun changed t' => t'.analysis.Ready i ∧ if changed then Spent n.form i t'.analysis
        else n.form ≠ .hole → (t'.analysis.site i).node = n.id) fun _ => True :=
  spent_or_named (fun h hh => hmem h (List.mem_filter.mp hh).1)
    (fun _ hh => (List.mem_filter.mp hh).2) hi hnode

/-! ## Sites below -/

/-- A run goes on, and a site keeps its node. -/
def Passing (v : Visitor RuleError RuleState) (i : SiteId) (t t' : Tour RuleState) : Prop :=
  Reaches v t t' ∧ (t'.analysis.site i).node = (t.analysis.site i).node

theorem passing_sited {v : Visitor RuleError RuleState} (hi : i < t.analysis.sites.size)
    (hj : Rooted t.analysis j) (c : Node) (listed : Bool) (scope : ScopeId) :
    Passing v i t { t with analysis := (t.analysis.addSiteBelow j c listed scope).2 } :=
  ⟨.sited j c listed scope .here hj,
    congrArg Site.node ((Analysis.extends_addSiteBelow t.analysis j c listed scope).site_eq hi)⟩

theorem Analysis.Ready.sited {a : Analysis} (hi : a.Ready i) (c : Node) (listed : Bool)
    (scope : ScopeId) : (a.addSiteBelow i c listed scope).2.Ready a.sites.size := by
  have hextends := Analysis.extends_addSiteBelow a i c listed scope
  have htakes := Analysis.TakesUp.addSiteBelow (fun _ => False) a hi.rooted.known c listed scope
  have hremains := Analysis.remains_of_extends hi.sound hextends htakes
  exact ⟨hremains.sound, hremains.attic hi.attic, hremains.topped hi.topped,
    rooted_addSiteBelow hi.rooted c listed scope⟩

theorem above_addSiteBelow {a : Analysis} (c : Node) (listed : Bool) (scope : ScopeId) :
    ((a.addSiteBelow j c listed scope).2.site a.sites.size).above = some j :=
  congrArg Site.above (Analysis.site_addSiteBelow a j c listed scope)

/-- Whatever rules do at the sites below a site, its node stays. -/
theorem journey_below (settings : Settings) (rules : List RuleName) (i : SiteId) :
    TourM.Journey (RuleName.visitor settings rules)
      (fun t j => t.analysis.Ready j ∧ Above t.analysis i j)
      (Passing (RuleName.visitor settings rules) i) fun _ _ => True where
  refl _ := ⟨.here, rfl⟩
  trans h h' := ⟨h.1.trans h'.1, h'.2.trans h.2⟩
  fails _ := fun _ => trivial
  keeps h := fun ⟨hj, habove⟩ =>
    ⟨h.1.ready hj, habove.stays hj.sound.ordered hj.rooted.known (h.1.numbered hj.sound.numbered).2⟩
  counted _ := ⟨.counted .here, rfl⟩
  sited t j c listed scope hj :=
    passing_sited (Nat.lt_trans (hj.2.lt hj.1.sound.ordered) hj.1.rooted.known) hj.1.rooted c listed scope
  below t j c listed scope hj :=
    ⟨hj.1.sited c listed scope,
      (hj.2.stays hj.1.sound.ordered hj.1.rooted.known
        (Analysis.extends_addSiteBelow t.analysis j c listed scope).stays).tail
        (above_addSiteBelow c listed scope)⟩
  acted t j h hmem hj := by
    have hturned := turned_of_handler hmem hj.1.sound hj.1.attic hj.1.rooted t rfl
    cases hact : h.act j t with
    | error e t' => trivial
    | ok _ t' =>
      rw [hact] at hturned
      refine ⟨.acted .here hmem hj.1.rooted hact, ?_⟩
      obtain hsame | hlowered := hturned
      · rw [hsame]
      · exact hlowered.above i hj.2

/-- The children of a site are visited, and its node stays. -/
theorem passing_visitSlots (fuel : Nat) (form : Form) (outer inner : ScopeId) (slots : List Slot)
    (hi : t.analysis.Ready i) :
    TourM.Ends (TourM.visitSlots (RuleName.visitor settings rules) fuel i node form outer inner slots t)
      (fun _ => Passing (RuleName.visitor settings rules) i t) fun _ => True := by
  have hbelow := journey_below settings rules i
  have hcontinues : TourM.Continues (fun (t : Tour RuleState) i => t.analysis.Ready i)
      (Passing (RuleName.visitor settings rules) i) fun (_ : Tour RuleState) (_ : RuleError) => True :=
    ⟨hbelow.refl, hbelow.trans, fun _ _ => trivial, fun h hj => h.1.ready hj⟩
  refine hcontinues.visitSlots (fun fuel' _ c listed scope t hi => ?_) node form outer inner slots t hi
  have hfirst : Passing (RuleName.visitor settings rules) i t
      { t with analysis := (t.analysis.addSiteBelow i c listed scope).2 } :=
    passing_sited hi.rooted.known hi.rooted c listed scope
  exact (hbelow.visit fuel' maxVisits t.analysis.sites.size _
    ⟨hi.sited c listed scope, .single (above_addSiteBelow c listed scope)⟩).mono
      (fun _ _ => hbelow.trans hfirst) fun _ _ => trivial

/-! ## Rounds -/

/-- Where the node of a site is to be visited again it can be replaced less often. -/
theorem rank_of_goesOn (h : Spent f i t.analysis) :
    TourM.Ends (TourM.goesOn (ε := RuleError) i t) (fun again t' => again = true →
      (t'.analysis.nodeAt i).form.rank < f.rank) fun _ => True := by
  intro hagain
  obtain hretired | ⟨n, hn, hrank⟩ := h
  · rw [Bool.not_eq_true'] at hagain
    cases hagain.symm.trans hretired
  · rw [nodeAt_of_attachedNode? hn]
    exact hrank

/-- A round that ends with the site to be visited again leaves there a node that can be replaced less
often. -/
theorem rank_of_pass {fuel : Nat} (hi : t.analysis.Ready i)
    (hpass : TourM.pass (RuleName.visitor settings rules) fuel i t = .ok true t') :
    (t'.analysis.nodeAt i).form.rank < (t.analysis.nodeAt i).form.rank := by
  generalize hn : t.analysis.nodeAt i = n
  have hends : TourM.Ends (TourM.pass (RuleName.visitor settings rules) fuel i t)
      (fun again t' => again = true → (t'.analysis.nodeAt i).form.rank < n.form.rank) fun _ => True := by
    unfold TourM.pass
    rw [TourM.modify_bind, TourM.ask_bind]
    simp only [hn]
    have hnamed : n.form ≠ .hole → (t.analysis.site i).node = n.id := fun hform => by
      rw [← hn] at hform ⊢
      exact hi.id_nodeAt hform
    refine TourM.Ends.bind (picked_spent_or_named (fun h hh => List.mem_append_left _ hh) hi hnamed)
      fun changed t₁ ⟨hi₁, hchanged⟩ => ?_
    cases changed with
    | true => exact rank_of_goesOn hchanged
    | false =>
      unfold TourM.descend
      simp only [Bool.false_eq_true, if_false]
      rw [TourM.ask_bind, TourM.ask_bind]
      refine TourM.Ends.bind (passing_visitSlots fuel n.form _ _ _ hi₁) fun _ t₂ ⟨hreaches, hkept⟩ => ?_
      rw [TourM.ask_bind]
      split
      · refine TourM.Ends.bind (picked_spent_or_named (fun h hh => List.mem_append_right _ hh)
          (hreaches.ready hi₁) fun hform => hkept.trans (hchanged hform)) fun changed t₃ ⟨_, hchanged⟩ => ?_
        cases changed with
        | true => exact rank_of_goesOn hchanged
        | false => exact fun h => by cases h
      · exact fun h => by cases h
  rw [hpass] at hends
  exact hends rfl

/-- A round comes to tours that the run comes to. -/
theorem reaches_of_pass {fuel : Nat} {again : Bool} (hi : t.analysis.Ready i)
    (hpass : TourM.pass (RuleName.visitor settings rules) fuel i t = .ok again t') :
    Reaches (RuleName.visitor settings rules) t t' := by
  have hgoes := (journey_reaches settings rules).pass fuel i t ⟨hi.sound.numbered, hi.rooted⟩
  rwa [hpass] at hgoes

/-- A site is visited again as often as its node can be replaced, at most. -/
theorem rounds_le_rank {fuel k : Nat} (hi : t.analysis.Ready i)
    (h : TourM.Rounds (RuleName.visitor settings rules) fuel i k t t') :
    k ≤ (t.analysis.nodeAt i).form.rank := by
  induction h with
  | none t => exact Nat.zero_le _
  | again hpass _ ih =>
    have hrank := rank_of_pass hi hpass
    have hrest := ih ((reaches_of_pass hi hpass).ready hi)
    omega

/-- More visits than the node of a site can be replaced, and one, change nothing. -/
theorem visit_eq_of_rank_lt {fuel visits visits' : Nat} (hi : t.analysis.Ready i)
    (h : (t.analysis.nodeAt i).form.rank < visits) (h' : (t.analysis.nodeAt i).form.rank < visits') :
    TourM.visit (RuleName.visitor settings rules) fuel visits i t =
      TourM.visit (RuleName.visitor settings rules) fuel visits' i t := by
  induction visits generalizing t visits' with
  | zero => exact absurd h (Nat.not_lt_zero _)
  | succ visits ih =>
    obtain ⟨visits', rfl⟩ := Nat.exists_eq_add_of_le' (Nat.zero_lt_of_lt h')
    rw [TourM.visit_succ, TourM.visit_succ]
    cases hpass : TourM.pass (RuleName.visitor settings rules) fuel i t with
    | error e t' => rw [bind_of_error hpass, bind_of_error hpass]
    | ok again t' =>
      rw [bind_of_ok hpass, bind_of_ok hpass]
      cases again with
      | false => rfl
      | true =>
        have hrank := rank_of_pass hi hpass
        exact ih ((reaches_of_pass hi hpass).ready hi) (by omega) (by omega)

end Untangle
