import Untangle.Proofs.Analysis.Visit

set_option autoImplicit false

/-!
# The course of a tour

A tour counts visits, makes sites and lets handlers act, one thing after the other.  What holds at its
start and is kept by each of these holds of every tour that it passes, whatever its handlers do to the
program and however it ends.
-/

namespace Untangle

/-- All handlers of a visitor. -/
def Visitor.handlers {ε σ : Type} (v : Visitor ε σ) : List (Handler ε σ) := v.onEntry ++ v.onLeaving

/-- The tour with which a run starts: at the site of the program. -/
def Tour.start {σ : Type} (a : Analysis) (state : σ) : Tour σ :=
  ⟨(a.addSite ⟨a.program.id, none, .top, false, 0, false⟩).2, 0, state⟩

namespace TourM

open Analysis

variable {ε σ α β : Type} {v : Visitor ε σ} {t t' t'' : Tour σ}

/-- A tour that another one may pass through on its way. -/
inductive Passes (v : Visitor ε σ) (t : Tour σ) : Tour σ → Prop
  | here : Passes v t t
  | counted {t' : Tour σ} : Passes v t t' → Passes v t { t' with visited := t'.visited + 1 }
  | sited {t' : Tour σ} (i : SiteId) (child : Node) (listed : Bool) (scope : ScopeId) : Passes v t t' →
      Passes v t { t' with analysis := (t'.analysis.addSiteBelow i child listed scope).2 }
  | acted {t' t'' : Tour σ} {h : Handler ε σ} {i : SiteId} : Passes v t t' → h ∈ v.handlers →
      h.act i t' = .ok () t'' → Passes v t t''

theorem Passes.trans (h : Passes v t t') (h' : Passes v t' t'') : Passes v t t'' := by
  induction h' with
  | here => exact h
  | counted _ ih => exact .counted ih
  | sited i child listed scope _ ih => exact .sited i child listed scope ih
  | acted _ hmem hact ih => exact .acted ih hmem hact

/-- A tour may come to a failure: one of its handlers fails on the way. -/
def Fails (v : Visitor ε σ) (t : Tour σ) (e : ε) : Prop :=
  ∃ t' t'', ∃ h ∈ v.handlers, ∃ i, Passes v t t' ∧ h.act i t' = .error e t''

/-! ## What a visit does, from what handlers do -/

/-- A relation between tours that holds over one thing after the other, as far as these happen at sites
of which something is known; it stays known of them. -/
structure Continues (K : Tour σ → SiteId → Prop) (R : Tour σ → Tour σ → Prop)
    (E : Tour σ → ε → Prop) : Prop where
  refl : ∀ t, R t t
  trans : ∀ {t t' t''}, R t t' → R t' t'' → R t t''
  fails : ∀ {t t' e}, R t t' → E t' e → E t e
  keeps : ∀ {t t' i}, R t t' → K t i → K t' i

/-- A computation at a site does nothing but what a tour does. -/
def Goes (K : Tour σ → SiteId → Prop) (R : Tour σ → Tour σ → Prop) (E : Tour σ → ε → Prop) (i : SiteId)
    (m : TourM ε σ α) : Prop := ∀ t, K t i → Ends (m t) (fun _ => R t) (E t)

/-- A child is visited at a site of its own. -/
def visitChild (v : Visitor ε σ) (fuel : Nat) (i : SiteId) (c : Node) (listed : Bool) (scope : ScopeId) :
    TourM ε σ Unit := siteBelow i c listed scope >>= visit v fuel maxVisits

namespace Continues

variable {K : Tour σ → SiteId → Prop} {R : Tour σ → Tour σ → Prop} {E : Tour σ → ε → Prop}
  (hc : Continues K R E) {i : SiteId} {fuel : Nat}

include hc

theorem pure (x : α) : Goes K R E i (pure x : TourM ε σ α) := fun t _ => hc.refl t

theorem ask (f : Analysis → α) : Goes K R E i (ask f : TourM ε σ α) := fun t _ => hc.refl t

theorem bind {m : TourM ε σ α} {k : α → TourM ε σ β} (hm : Goes K R E i m)
    (hk : ∀ x, Goes K R E i (k x)) : Goes K R E i (m >>= k) := by
  intro t hi
  refine Ends.bind (hm t hi) fun x t' ht' => ?_
  exact (hk x t' (hc.keeps ht' hi)).mono (fun _ _ => hc.trans ht') fun _ => hc.fails ht'

theorem visitItems (hchild : ∀ fuel', fuel = fuel' + 1 → ∀ c listed scope,
      Goes K R E i (visitChild v fuel' i c listed scope))
    (slot : Slot) (scope : ScopeId) (remaining : Nat) :
    Goes K R E i (visitItems v fuel i slot scope remaining) := by
  induction remaining with
  | zero =>
    unfold TourM.visitItems
    exact hc.pure ()
  | succ remaining ih =>
    cases fuel with
    | zero =>
      unfold TourM.visitItems
      exact hc.pure ()
    | succ fuel =>
      unfold TourM.visitItems
      refine hc.bind (hc.ask _) fun n => ?_
      split
      · exact hc.pure ()
      · next c hlast =>
        split
        · have hthen := hc.bind (hchild fuel rfl c slot.listed scope) fun _ => ih
          rwa [visitChild, bind_assoc] at hthen
        · exact ih

theorem visitSlots (hchild : ∀ fuel', fuel = fuel' + 1 → ∀ c listed scope,
      Goes K R E i (visitChild v fuel' i c listed scope))
    (node : NodeId) (form : Form) (outer inner : ScopeId) (slots : List Slot) :
    Goes K R E i (visitSlots v fuel i node form outer inner slots) := by
  induction slots with
  | nil =>
    unfold TourM.visitSlots
    exact hc.pure ()
  | cons slot rest ih =>
    unfold TourM.visitSlots
    refine hc.bind (hc.ask _) fun n => hc.bind (hc.visitItems hchild slot _ _) fun _ =>
      hc.bind (hc.ask _) fun here => ?_
    split
    · exact ih
    · exact hc.pure ()

end Continues

/-- Such a relation that holds over everything that a tour does. -/
structure Journey (v : Visitor ε σ) (K : Tour σ → SiteId → Prop) (R : Tour σ → Tour σ → Prop)
    (E : Tour σ → ε → Prop) : Prop extends Continues K R E where
  counted : ∀ t, R t { t with visited := t.visited + 1 }
  sited : ∀ t i child listed scope, K t i →
    R t { t with analysis := (t.analysis.addSiteBelow i child listed scope).2 }
  below : ∀ t i child listed scope, K t i →
    K { t with analysis := (t.analysis.addSiteBelow i child listed scope).2 } t.analysis.sites.size
  acted : ∀ t i, ∀ h ∈ v.handlers, K t i → Ends (h.act i t) (fun _ => R t) (E t)

namespace Journey

variable {K : Tour σ → SiteId → Prop} {R : Tour σ → Tour σ → Prop} {E : Tour σ → ε → Prop}
  (hv : Journey v K R E) {i : SiteId}

include hv

theorem hasChanged (node : NodeId) : Goes K R E i (hasChanged i node : TourM ε σ Bool) :=
  hv.bind (hv.ask _) fun _ => hv.pure _

theorem runHandlers (node : NodeId) {hs : List (Handler ε σ)} (hmem : ∀ h ∈ hs, h ∈ v.handlers) :
    Goes K R E i (runHandlers i node hs) := by
  induction hs with
  | nil => exact hv.pure false
  | cons h hs ih =>
    unfold TourM.runHandlers
    refine hv.bind (fun t => hv.acted t i h (hmem h List.mem_cons_self)) fun _ =>
      hv.bind (hv.hasChanged node) fun changed => ?_
    split
    · exact hv.pure true
    · exact ih fun h' hh' => hmem h' (List.mem_cons_of_mem h hh')

/-- Handlers that are picked by the form of a node are handlers of the visitor. -/
theorem picked (n : Node) {hs : List (Handler ε σ)} (hmem : ∀ h ∈ hs, h ∈ v.handlers) :
    Goes K R E i (TourM.runHandlers i n.id (hs.filter fun h => h.handles n.form)) :=
  hv.runHandlers n.id fun h hh => hmem h (List.mem_filter.mp hh).1

/-- A child is visited as any site is. -/
theorem visitChild {fuel : Nat} (hvisit : ∀ j, Goes K R E j (visit v fuel maxVisits j)) (c : Node)
    (listed : Bool) (scope : ScopeId) : Goes K R E i (visitChild v fuel i c listed scope) := by
  intro t hi
  have hsited : Ends (siteBelow i c listed scope t : EStateM.Result ε (Tour σ) SiteId)
      (fun j t' => R t t' ∧ K t' j) (E t) :=
    ⟨hv.sited t i c listed scope hi, hv.below t i c listed scope hi⟩
  refine Ends.bind hsited fun j t' ⟨ht', hj⟩ => ?_
  exact (hvisit j t' hj).mono (fun _ _ => hv.trans ht') fun _ => hv.fails ht'

variable {fuel : Nat}

theorem visitItems
    (hvisit : ∀ fuel', fuel = fuel' + 1 → ∀ j, Goes K R E j (visit v fuel' maxVisits j))
    (slot : Slot) (scope : ScopeId) (remaining : Nat) :
    Goes K R E i (visitItems v fuel i slot scope remaining) :=
  hv.toContinues.visitItems (fun fuel' h => hv.visitChild (hvisit fuel' h)) slot scope remaining

theorem visitSlots
    (hvisit : ∀ fuel', fuel = fuel' + 1 → ∀ j, Goes K R E j (visit v fuel' maxVisits j))
    (node : NodeId) (form : Form) (outer inner : ScopeId) (slots : List Slot) :
    Goes K R E i (visitSlots v fuel i node form outer inner slots) :=
  hv.toContinues.visitSlots (fun fuel' h => hv.visitChild (hvisit fuel' h)) node form outer inner slots

/-- A round goes on as the visits one level below do. -/
theorem pass_of_below
    (hvisit : ∀ fuel', fuel = fuel' + 1 → ∀ j, Goes K R E j (visit v fuel' maxVisits j)) :
    Goes K R E i (pass v fuel i) := by
  unfold TourM.pass
  refine hv.bind (fun t _ => hv.counted t) fun _ => hv.bind (hv.ask _) fun n =>
    hv.bind (hv.picked n fun h hh => List.mem_append_left _ hh) fun changed => ?_
  split
  · exact hv.ask _
  unfold TourM.descend
  refine hv.bind (hv.ask _) fun outer => hv.bind (hv.ask _) fun inner =>
    hv.bind (hv.visitSlots hvisit n.id n.form _ _ _) fun _ => hv.bind (hv.ask _) fun attached => ?_
  split
  · refine hv.bind (hv.picked n fun h hh => List.mem_append_right _ hh) fun changed => ?_
    split
    · exact hv.ask _
    · exact hv.pure _
  · exact hv.pure _

/-- A visit goes on as those one level below do. -/
theorem visit_of_below
    (hvisit : ∀ fuel', fuel = fuel' + 1 → ∀ j, Goes K R E j (visit v fuel' maxVisits j))
    (visits : Nat) : Goes K R E i (visit v fuel visits i) := by
  induction visits with
  | zero =>
    unfold TourM.visit
    exact hv.pure ()
  | succ visits ih =>
    rw [visit_succ]
    refine hv.bind (hv.pass_of_below hvisit) fun again => ?_
    split
    · exact ih
    · exact hv.pure ()

theorem visit (fuel visits : Nat) (i : SiteId) : Goes K R E i (visit v fuel visits i) := by
  induction fuel generalizing visits i with
  | zero => exact hv.visit_of_below (fun fuel' h => by cases h) visits
  | succ fuel ih =>
    refine hv.visit_of_below (fun fuel' h j => ?_) visits
    cases h
    exact ih maxVisits j

theorem pass (fuel : Nat) (i : SiteId) : Goes K R E i (pass v fuel i) :=
  hv.pass_of_below fun fuel' _ j => hv.visit fuel' maxVisits j

/-- What a run comes to is what the visit of its program does. -/
theorem run {a : Analysis} {state : σ} (hroot : K (.start a state) a.sites.size) :
    (∃ t, v.run a state = .ok t ∧ R (.start a state) t) ∨
      ∃ e, v.run a state = .error e ∧ E (.start a state) e :=
  run_of_ends (hv.visit tourDepth maxVisits a.sites.size (.start a state) hroot)

end Journey

/-- Tours pass from one to the next whatever is known of the sites. -/
theorem journey_passes (v : Visitor ε σ) :
    Journey v (fun _ _ => True) (Passes v) (Fails v) where
  refl _ := .here
  trans := Passes.trans
  fails hpass := fun ⟨t₁, t₂, h, hmem, i, hfirst, hact⟩ => ⟨t₁, t₂, h, hmem, i, hpass.trans hfirst, hact⟩
  keeps _ _ := trivial
  counted _ := .counted .here
  sited _ i child listed scope _ := .sited i child listed scope .here
  below _ _ _ _ _ _ := trivial
  acted t i h hmem _ := by
    cases hact : h.act i t with
    | ok x t' => exact .acted .here hmem hact
    | error e t' => exact ⟨t, t', h, hmem, i, .here, hact⟩

/-- A run passes the tour that it ends with, or fails where a handler does. -/
theorem run_course (v : Visitor ε σ) (a : Analysis) (state : σ) :
    (∃ t, v.run a state = .ok t ∧ Passes v (.start a state) t) ∨
      ∃ e, v.run a state = .error e ∧ Fails v (.start a state) e :=
  (journey_passes v).run trivial

/-- A run that ends passes the tour that it ends with. -/
theorem passes_of_run {a : Analysis} {state : σ} (h : v.run a state = .ok t) :
    Passes v (.start a state) t := by
  obtain ⟨t', ht', hpass⟩ | ⟨e, he, -⟩ := run_course v a state
  · rw [h] at ht'
    cases ht'
    exact hpass
  · rw [h] at he
    cases he

/-! ## What holds along the way -/

/-- Neither a count nor a new site, nor what a handler does, takes a property away. -/
structure Lasting (v : Visitor ε σ) (P : Tour σ → Prop) : Prop where
  counted : ∀ t, P t → P { t with visited := t.visited + 1 }
  sited : ∀ (t : Tour σ) i child listed scope, P t →
    P { t with analysis := (t.analysis.addSiteBelow i child listed scope).2 }
  acted : ∀ t t', ∀ h ∈ v.handlers, ∀ i, h.act i t = .ok () t' → P t → P t'

theorem Passes.keeps {P : Tour σ → Prop} (hpass : Passes v t t') (hlasting : Lasting v P) (h : P t) :
    P t' := by
  induction hpass with
  | here => exact h
  | counted _ ih => exact hlasting.counted _ ih
  | sited i child listed scope _ ih => exact hlasting.sited _ i child listed scope ih
  | acted _ hmem hact ih => exact hlasting.acted _ _ _ hmem _ hact ih

end TourM

end Untangle
