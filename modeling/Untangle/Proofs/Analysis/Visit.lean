import Mathlib.Data.List.Forall2
import Untangle.Analysis.Tour
import Untangle.Proofs.Analysis.Replacement
import Untangle.Proofs.Computation
import Untangle.Proofs.Tree.Identities

set_option autoImplicit false

/-!
# What a tour does to the nodes it visits

A visit goes through the slots of a node before the handlers act on leaving it.  Where no handler acts it
only makes sites.  Where every slot has one child, the children become what their visits make of them,
one after the other, and everything else stays.

A site is visited in rounds: handlers act on entry, the children are visited, handlers act on leaving.  A
round ends with the node visited again if one of the handlers replaced it.
-/

namespace Untangle

/-- No handler of a visitor acts on nodes of a form. -/
structure Visitor.Ignores {ε σ : Type} (v : Visitor ε σ) (f : Form) : Prop where
  onEntry : ∀ h ∈ v.onEntry, h.handles f = false
  onLeaving : ∀ h ∈ v.onLeaving, h.handles f = false

namespace TourM

open Analysis

variable {ε σ α β : Type} {v : Visitor ε σ} {i p : SiteId} {n c parent : Node} {t : Tour σ}

/-! ## Ends of computations -/

/-- How a computation on a tour may end. -/
def Ends (r : EStateM.Result ε (Tour σ) α) (ok : α → Tour σ → Prop) (err : ε → Prop) : Prop :=
  match r with
  | .ok x t => ok x t
  | .error e _ => err e

theorem Ends.mono {r : EStateM.Result ε (Tour σ) α} {ok ok' : α → Tour σ → Prop}
    {err err' : ε → Prop} (h : Ends r ok err) (hok : ∀ x t, ok x t → ok' x t)
    (herr : ∀ e, err e → err' e) : Ends r ok' err' := by
  cases r with
  | ok x t => exact hok x t h
  | error e t => exact herr e h

theorem Ends.bind {m : TourM ε σ α} {k : α → TourM ε σ β} {ok : α → Tour σ → Prop}
    {ok' : β → Tour σ → Prop} {err : ε → Prop} (h : Ends (m t) ok err)
    (hk : ∀ x t', ok x t' → Ends (k x t') ok' err) : Ends ((m >>= k) t) ok' err := by
  cases hm : m t with
  | ok x t' =>
    rw [hm] at h
    rw [bind_of_ok hm]
    exact hk x t' h
  | error e t' =>
    rw [hm] at h
    rw [bind_of_error hm]
    exact h

theorem ask_bind (f : Analysis → α) (k : α → TourM ε σ β) (t : Tour σ) :
    (ask f >>= k) t = k (f t.analysis) t := rfl

theorem modify_bind (f : Tour σ → Tour σ) (k : Unit → TourM ε σ β) (t : Tour σ) :
    ((modify f : TourM ε σ Unit) >>= k) t = k () (f t) := rfl

theorem isCurrent_eq (hn : Stands t.analysis i n) : isCurrent (ε := ε) i n.id t = .ok true t := by
  refine congrArg (EStateM.Result.ok · t) ?_
  simp [hn.node, hn.isAttached]

theorem hasChanged_eq (hn : Stands t.analysis i n) (k : NodeId) :
    hasChanged (ε := ε) i k t = .ok (n.id != k) t := by
  refine congrArg (EStateM.Result.ok · t) ?_
  show ((t.analysis.site i).retired || (t.analysis.site i).node != k) = _
  rw [hn.retired, hn.node]
  rfl

/-- A tour ends as the visit of the program does. -/
theorem run_of_ends {a : Analysis} {state : σ} {ok : Tour σ → Prop} {err : ε → Prop}
    (h : Ends (visit v tourDepth maxVisits a.sites.size
      ⟨(a.addSite ⟨a.program.id, none, .top, false, 0, false⟩).2, 0, state⟩) (fun _ => ok) err) :
    (∃ t, v.run a state = .ok t ∧ ok t) ∨ ∃ e, v.run a state = .error e ∧ err e := by
  unfold Visitor.run Visitor.go EStateM.run
  simp only [addSite] at h ⊢
  revert h
  generalize visit v tourDepth maxVisits a.sites.size _ = r
  intro h
  cases r with
  | ok _ t => exact .inl ⟨t, rfl, h⟩
  | error e _ => exact .inr ⟨e, rfl, h⟩

/-! ## Visits without handlers on entry -/

/-- The end of a visit: the handlers on leaving act if the node is still there. -/
def leave (v : Visitor ε σ) (fuel visits : Nat) (i : SiteId) (n : Node) : TourM ε σ Unit := do
  if !(← ask fun a => a.isAttached i) then return
  if ← runHandlers i n.id (v.onLeaving.filter fun h => h.handles n.form) then
    if (← ask fun a => a.site i).retired then return
    visit v fuel visits i

/-- Where nothing acts on entry a visit goes through the slots and leaves the node. -/
theorem visit_eq (hn : Stands t.analysis i n) (hentry : ∀ h ∈ v.onEntry, h.handles n.form = false)
    (fuel visits : Nat) :
    visit v fuel (visits + 1) i t =
      (visitSlots v fuel i n.id n.form (t.analysis.site i).scope
        ((t.analysis.scopeOpenedBy? n.id).getD (t.analysis.site i).scope) n.form.slots >>= fun _ =>
        leave v fuel visits i n) { t with visited := t.visited + 1 } := by
  have hfilter : (v.onEntry.filter fun h => h.handles n.form) = [] :=
    List.filter_eq_nil_iff.mpr fun h hmem => by simp [hentry h hmem]
  rw [visit, modify_bind, ask_bind, hn.nodeAt, hfilter]
  rfl

/-- Nothing happens on leaving a node that no handler acts on. -/
theorem leave_eq (hleaving : ∀ h ∈ v.onLeaving, h.handles n.form = false) (fuel visits : Nat) :
    leave v fuel visits i n t = .ok () t := by
  have hfilter : (v.onLeaving.filter fun h => h.handles n.form) = [] :=
    List.filter_eq_nil_iff.mpr fun h hmem => by simp [hleaving h hmem]
  unfold leave
  rw [ask_bind, hfilter]
  cases t.analysis.isAttached i <;> rfl

/-- What follows a handler that is the only one to act on leaving a node. -/
theorem leave_of_ok {h : Handler ε σ} {n' : Node} {t' : Tour σ} (hn : Stands t.analysis i n)
    (honly : (v.onLeaving.filter fun h => h.handles n.form) = [h]) (hact : h.act i t = .ok () t')
    (hn' : Stands t'.analysis i n') (fuel visits : Nat) :
    leave v fuel visits i n t =
      if n'.id != n.id then visit v fuel visits i t' else .ok () t' := by
  have hrun : runHandlers i n.id [h] t = .ok (n'.id != n.id) t' := by
    unfold runHandlers
    rw [bind_of_ok hact, bind_of_ok (hasChanged_eq hn' _)]
    cases n'.id != n.id <;> rfl
  unfold leave
  rw [ask_bind, hn.isAttached, honly]
  refine (bind_of_ok hrun).trans ?_
  cases n'.id != n.id with
  | false => rfl
  | true =>
    show (ask _ >>= _) t' = _
    rw [ask_bind, hn'.retired]
    rfl

theorem leave_of_error {h : Handler ε σ} {e : ε} {t' : Tour σ} (hn : Stands t.analysis i n)
    (honly : (v.onLeaving.filter fun h => h.handles n.form) = [h]) (hact : h.act i t = .error e t')
    (fuel visits : Nat) : leave v fuel visits i n t = .error e t' := by
  have hrun : runHandlers i n.id [h] t = .error e t' := by
    unfold runHandlers
    exact bind_of_error hact
  unfold leave
  rw [ask_bind, hn.isAttached, honly]
  exact bind_of_error hrun

theorem visitSlots_zero (v : Visitor ε σ) (i : SiteId) (node : NodeId) (form : Form)
    (outer inner : ScopeId) (slots : List Slot) (t : Tour σ) :
    visitSlots v 0 i node form outer inner slots t = .ok () t := by
  induction slots with
  | nil =>
    rw [visitSlots]
    rfl
  | cons slot rest ih =>
    have hitems : ∀ scope remaining, visitItems v 0 i slot scope remaining t = .ok () t := by
      intro scope remaining
      cases remaining with
      | zero =>
        rw [visitItems]
        rfl
      | succ k =>
        rw [visitItems]
        · rfl
        · exact Nat.succ_ne_zero k
    rw [visitSlots, ask_bind, bind_of_ok (hitems _ _)]
    unfold isCurrent
    rw [ask_bind]
    split
    · exact ih
    · rfl

/-! ## Visits where nothing acts -/

theorem mem_of_fromEnd? {ns : List Node} {remaining : Nat} (h : fromEnd? ns remaining = some c) :
    c ∈ ns := by
  unfold fromEnd? at h
  split at h
  · exact List.mem_of_getElem? h
  · cases h

theorem visitItems_of_hole (hn : Stands t.analysis i n) {slot : Slot} {remaining : Nat}
    (hc : fromEnd? (n.childrenAt slot.role) (remaining + 1) = some c) (hhole : c.isHole = true)
    (fuel : Nat) (scope : ScopeId) :
    visitItems v (fuel + 1) i slot scope (remaining + 1) t =
      visitItems v (fuel + 1) i slot scope remaining t := by
  rw [visitItems, ask_bind, hn.nodeAt, hc]
  show (if (!c.isHole) = true then _ else _ : TourM ε σ Unit) t = _
  rw [hhole]
  rfl

/-- An element is visited at a new site. -/
theorem visitItems_of_element (hn : Stands t.analysis i n) {slot : Slot} {remaining : Nat}
    (hc : fromEnd? (n.childrenAt slot.role) (remaining + 1) = some c) (hhole : c.isHole = false)
    (fuel : Nat) (scope : ScopeId) :
    visitItems v (fuel + 1) i slot scope (remaining + 1) t =
      (visit v fuel maxVisits t.analysis.sites.size >>= fun _ =>
        visitItems v (fuel + 1) i slot scope remaining)
        { t with analysis := (t.analysis.addSiteBelow i c slot.listed scope).2 } := by
  rw [visitItems, ask_bind, hn.nodeAt, hc]
  show (if (!c.isHole) = true then _ else _ : TourM ε σ Unit) t = _
  rw [hhole]
  rfl

/-- The computation only makes sites. -/
def Idle (m : TourM ε σ Unit) (t : Tour σ) : Prop :=
  Ends (m t) (fun _ t' => Extends t.analysis t'.analysis) fun _ => False

theorem Idle.pure (t : Tour σ) : Idle (pure () : TourM ε σ Unit) t := Extends.refl t.analysis

theorem visitItems_idle {fuel : Nat} (hn : Stands t.analysis i n) (slot : Slot) (scope : ScopeId)
    (hvisit : ∀ t j, ∀ d ∈ n.children, Stands t.analysis j d → Idle (visit v fuel maxVisits j) t)
    (remaining : Nat) : Idle (visitItems v (fuel + 1) i slot scope remaining) t := by
  induction remaining generalizing t with
  | zero =>
    rw [visitItems]
    exact .pure t
  | succ remaining ih =>
    unfold Idle
    cases hc : fromEnd? (n.childrenAt slot.role) (remaining + 1) with
    | none =>
      rw [visitItems, ask_bind, hn.nodeAt, hc]
      exact Extends.refl t.analysis
    | some c =>
      cases hhole : c.isHole with
      | true =>
        rw [visitItems_of_hole hn hc hhole]
        exact ih hn
      | false =>
        rw [visitItems_of_element hn hc hhole]
        have hsite := extends_addSiteBelow t.analysis i c slot.listed scope
        obtain ⟨d, hd, hstands⟩ :=
          hn.below (List.mem_filter.mp (mem_of_fromEnd? hc)).1 slot.listed scope
        refine Ends.bind (hvisit _ _ d hd hstands) fun _ t' ht' => ?_
        exact (ih (ht'.stands (hsite.stands hn))).mono
          (fun _ _ ht'' => hsite.trans (ht'.trans ht'')) fun _ hfalse => hfalse

theorem visitSlots_idle {fuel : Nat} (hn : Stands t.analysis i n) (form : Form)
    (outer inner : ScopeId)
    (hvisit : ∀ t j, ∀ d ∈ n.children, Stands t.analysis j d → Idle (visit v fuel maxVisits j) t)
    (slots : List Slot) : Idle (visitSlots v (fuel + 1) i n.id form outer inner slots) t := by
  induction slots generalizing t with
  | nil =>
    rw [visitSlots]
    exact .pure t
  | cons slot rest ih =>
    unfold Idle
    rw [visitSlots, ask_bind]
    refine Ends.bind (visitItems_idle hn slot _ hvisit _) fun _ t' ht' => ?_
    rw [bind_of_ok (isCurrent_eq (ht'.stands hn))]
    exact (ih (ht'.stands hn)).mono (fun _ _ ht'' => ht'.trans ht'') fun _ hfalse => hfalse

/-- Where no handler acts on any node of a tree, a visit of it only makes sites. -/
theorem visit_idle (hn : Stands t.analysis i n) (hidle : ∀ d : Node, d.Inside n → v.Ignores d.form)
    (fuel visits : Nat) : Idle (visit v fuel visits i) t := by
  induction fuel generalizing visits t i n with
  | zero =>
    cases visits with
    | zero =>
      rw [visit]
      exact .pure t
    | succ visits =>
      have hself := hidle n (.self n)
      unfold Idle
      rw [visit_eq hn hself.onEntry, bind_of_ok (visitSlots_zero ..), leave_eq hself.onLeaving]
      exact Extends.refl t.analysis
  | succ fuel ih =>
    cases visits with
    | zero =>
      rw [visit]
      exact .pure t
    | succ visits =>
      have hself := hidle n (.self n)
      unfold Idle
      rw [visit_eq hn hself.onEntry]
      refine Ends.bind (visitSlots_idle (t := { t with visited := t.visited + 1 }) hn _ _ _
        (fun t j d hd hstands => ?_) _) fun _ t' ht' => ?_
      · exact ih hstands (fun e he => hidle e (he.trans (.child hd))) maxVisits
      · rw [leave_eq hself.onLeaving]
        exact ht'

/-! ## Visits of nodes with one child in every slot -/

/-- What visits make of a node wherever it is alone in its slot, and how they fail. -/
def Visits (v : Visitor ε σ) (fuel : Nat) (P : Node → Node → Prop) (err : ε → Prop) (c : Node) :
    Prop :=
  ∀ (t : Tour σ) (i p : SiteId) (parent : Node), Alone t.analysis i p parent c →
    Ends (visit v fuel maxVisits i t)
      (fun _ t' => ∃ c', P c c' ∧ c'.role = c.role ∧ Turns t.analysis t'.analysis i c c') err

variable {P : Node → Node → Prop} {err : ε → Prop}

theorem childrenAt_of_roles {before after : List Node} (hn : n.children = before ++ c :: after)
    (hbefore : ∀ d ∈ before, d.role ≠ c.role) (hafter : ∀ d ∈ after, d.role ≠ c.role) :
    n.childrenAt c.role = [c] := by
  have hnone : ∀ {ds : List Node}, (∀ d ∈ ds, d.role ≠ c.role) →
      (ds.filter fun d => d.role == c.role) = [] :=
    fun hds => List.filter_eq_nil_iff.mpr fun d hd => by simp [hds d hd]
  rw [Node.childrenAt, hn, List.filter_append, hnone hbefore, List.nil_append,
    List.filter_cons_of_pos (by simp), hnone hafter]

/-- A slot with one child is visited. -/
theorem visitItems_single {fuel : Nat} {slot : Slot} (hn : Stands t.analysis i n)
    (hslot : slot.role = c.role) {before after : List Node}
    (hchildren : n.children = before ++ c :: after) (hbefore : ∀ d ∈ before, d.role ≠ c.role)
    (hafter : ∀ d ∈ after, d.role ≠ c.role) (hhole : c.isHole = false)
    (hvisit : Visits v fuel P err c) (scope : ScopeId) :
    Ends (visitItems v (fuel + 1) i slot scope (n.childrenAt slot.role).length t)
      (fun _ t' => ∃ c', P c c' ∧ c'.role = c.role ∧
        Alters t.analysis t'.analysis i n (n.withChildren (before ++ c' :: after))) err := by
  have hsingle := childrenAt_of_roles hchildren hbefore hafter
  have hlast : fromEnd? (n.childrenAt slot.role) (0 + 1) = some c := by
    rw [hslot, hsingle]
    rfl
  rw [show (n.childrenAt slot.role).length = 0 + 1 by rw [hslot, hsingle]; rfl,
    visitItems_of_element hn hlast hhole]
  refine Ends.bind (hvisit _ _ i n (hn.alone hsingle _ _)) fun _ t' ht' => ?_
  obtain ⟨c', hc', hrole, hturns⟩ := ht'
  rw [visitItems]
  exact ⟨c', hc', hrole, hturns.alters hn.known hchildren hbefore hafter⟩

/-- Slots with one child each are visited one after the other. -/
theorem visitSlots_each {fuel : Nat} {slots : List Slot} {before todo : List Node}
    (hn : Stands t.analysis i n) (hchildren : n.children = before ++ todo)
    (hslots : List.Forall₂ (fun (s : Slot) (c : Node) => s.role = c.role) slots todo)
    (hbefore : ∀ d ∈ before, ∀ c ∈ todo, d.role ≠ c.role) (hroles : (todo.map Node.role).Nodup)
    (hvisit : ∀ c ∈ todo, c.isHole = false ∧ Visits v fuel P err c) (form : Form)
    (outer inner : ScopeId) :
    Ends (visitSlots v (fuel + 1) i n.id form outer inner slots t)
      (fun _ t' => ∃ done, List.Forall₂ P todo done ∧
        Alters t.analysis t'.analysis i n (n.withChildren (before ++ done))) err := by
  induction hslots generalizing before t n with
  | nil =>
    rw [visitSlots]
    refine ⟨[], .nil, ?_⟩
    rw [← hchildren, Node.withChildren_children]
    exact (Extends.refl t.analysis).alters i n
  | @cons slot c rest after hslot _ ih =>
    rw [List.map_cons, List.nodup_cons] at hroles
    have hafter : ∀ d ∈ after, d.role ≠ c.role := fun d hd heq =>
      hroles.1 (List.mem_map.mpr ⟨d, hd, heq⟩)
    obtain ⟨hhole, hc⟩ := hvisit c List.mem_cons_self
    rw [visitSlots, ask_bind, hn.nodeAt]
    refine Ends.bind (visitItems_single hn hslot hchildren
      (fun d hd => hbefore d hd c List.mem_cons_self) hafter hhole hc _) fun _ t' ht' => ?_
    obtain ⟨c', hc', hrole, halters⟩ := ht'
    have hn' := halters.stands hn
    have hid : (n.withChildren (before ++ c' :: after)).id = n.id := Node.id_withChildren _ n
    rw [← hid, bind_of_ok (isCurrent_eq hn')]
    have hsplit : (n.withChildren (before ++ c' :: after)).children = (before ++ [c']) ++ after := by
      simp
    refine (ih hn' hsplit (fun d hd e he => ?_) hroles.2
      fun e he => hvisit e (List.mem_cons_of_mem c he)).mono (fun _ t'' ht'' => ?_) fun _ h => h
    · obtain hd | hd := List.mem_append.mp hd
      · exact hbefore d hd e (List.mem_cons_of_mem c he)
      · rw [List.mem_singleton.mp hd, hrole]
        exact (hafter e he).symm
    · obtain ⟨done, hdone, halters'⟩ := ht''
      refine ⟨c' :: done, .cons hc' hdone, ?_⟩
      simpa using halters.trans hn.known halters'

/-- What visits make of children, which are not visited at all if no depth is left. -/
def Under (P : Nat → Node → Node → Prop) : Nat → Node → Node → Prop
  | 0 => Eq
  | fuel + 1 => P fuel

/-- The children that fill the slots of a node, one each. -/
structure Filled (n : Node) : Prop where
  slots : List.Forall₂ (fun (s : Slot) (c : Node) => s.role = c.role) n.form.slots n.children
  roles : (n.children.map Node.role).Nodup
  present : ∀ c ∈ n.children, c.isHole = false

/-- The children that fill the slots of a node become what their visits make of them, before the node
is left. -/
theorem visit_filled {P : Nat → Node → Node → Prop} {fuel : Nat} (hn : Stands t.analysis i n)
    (hentry : ∀ h ∈ v.onEntry, h.handles n.form = false) (hfilled : Filled n)
    (hvisit : ∀ fuel', fuel = fuel' + 1 → ∀ c ∈ n.children, Visits v fuel' (P fuel') err c)
    (visits : Nat) {ok : Unit → Tour σ → Prop}
    (hleave : ∀ t' done, List.Forall₂ (Under P fuel) n.children done →
      Alters t.analysis t'.analysis i n (n.withChildren done) →
      Ends (leave v fuel visits i n t') ok err) :
    Ends (visit v fuel (visits + 1) i t) ok err := by
  rw [visit_eq hn hentry]
  cases fuel with
  | zero =>
    rw [bind_of_ok (visitSlots_zero ..)]
    refine hleave _ n.children (List.forall₂_same.mpr fun _ _ => rfl) ?_
    rw [Node.withChildren_children]
    exact (Extends.refl t.analysis).alters i n
  | succ fuel =>
    refine Ends.bind (visitSlots_each (t := { t with visited := t.visited + 1 }) hn
      (List.nil_append n.children).symm hfilled.slots (fun _ h => by cases h) hfilled.roles
      (fun c hc => ⟨hfilled.present c hc, hvisit fuel rfl c hc⟩) _ _ _) fun _ t' ht' => ?_
    obtain ⟨done, hdone, halters⟩ := ht'
    exact hleave t' done hdone halters

end TourM

/-! ## Rounds of a visit -/

namespace TourM

open Analysis

variable {ε σ : Type}

/-- Whether a node is to be visited again after one of its handlers changed it: it was replaced and not
taken out. -/
def goesOn (i : SiteId) : TourM ε σ Bool := ask fun a => !(a.site i).retired

/-- The second half of a round: the children of a node are visited, and handlers act on leaving it. -/
def descend (v : Visitor ε σ) (fuel : Nat) (i : SiteId) (n : Node) : TourM ε σ Bool := do
  let outer := (← ask fun a => a.site i).scope
  let inner := (← ask fun a => a.scopeOpenedBy? n.id).getD outer
  visitSlots v fuel i n.id n.form outer inner n.form.slots
  if ← ask fun a => a.isAttached i then
    if ← runHandlers i n.id (v.onLeaving.filter fun h => h.handles n.form) then goesOn i
    else return false
  else return false

/-- One round of a visit.  It tells whether the site is to be visited again. -/
def pass (v : Visitor ε σ) (fuel : Nat) (i : SiteId) : TourM ε σ Bool := do
  modify fun t => { t with visited := t.visited + 1 }
  let n ← ask fun a => a.nodeAt i
  if ← runHandlers i n.id (v.onEntry.filter fun h => h.handles n.form) then goesOn i
  else descend v fuel i n

/-- A round that does not come to the children. -/
def passAlone (v : Visitor ε σ) (i : SiteId) : TourM ε σ Bool := do
  modify fun t => { t with visited := t.visited + 1 }
  let n ← ask fun a => a.nodeAt i
  if ← runHandlers i n.id (v.onEntry.filter fun h => h.handles n.form) then goesOn i
  else if ← ask fun a => a.isAttached i then
    if ← runHandlers i n.id (v.onLeaving.filter fun h => h.handles n.form) then goesOn i
    else return false
  else return false

theorem pass_zero (v : Visitor ε σ) (i : SiteId) : pass v 0 i = passAlone v i := by
  unfold pass passAlone
  refine congrArg _ (funext fun _ => congrArg _ (funext fun n => congrArg _ (funext fun changed => ?_)))
  cases changed with
  | true => rfl
  | false =>
    funext t
    unfold descend
    simp only [Bool.false_eq_true, if_false]
    rw [ask_bind, ask_bind, bind_of_ok (visitSlots_zero v i n.id n.form _ _ _ t)]

/-- Rounds in a row, each of which ends with the site to be visited again. -/
inductive Rounds (v : Visitor ε σ) (fuel : Nat) (i : SiteId) : Nat → Tour σ → Tour σ → Prop
  | none (t : Tour σ) : Rounds v fuel i 0 t t
  | again {k : Nat} {t t' t'' : Tour σ} : pass v fuel i t = .ok true t' → Rounds v fuel i k t' t'' →
      Rounds v fuel i (k + 1) t t''

/-- A visit is a round, and the visits that follow it. -/
theorem visit_succ (v : Visitor ε σ) (fuel visits : Nat) (i : SiteId) :
    visit v fuel (visits + 1) i = (do if ← pass v fuel i then visit v fuel visits i) := by
  have hagain : (do if (← ask fun a => a.site i).retired then return else visit v fuel visits i) =
      (do if ← goesOn i then visit v fuel visits i : TourM ε σ Unit) := by
    funext t
    unfold goesOn
    rw [ask_bind, ask_bind]
    cases (t.analysis.site i).retired <;> rfl
  rw [visit]
  unfold pass
  simp only [bind_assoc]
  refine congrArg _ (funext fun _ => congrArg _ (funext fun n => congrArg _ (funext fun changed => ?_)))
  cases changed with
  | true => exact hagain
  | false =>
    unfold descend
    simp only [bind_assoc, Bool.false_eq_true, if_false]
    refine congrArg _ (funext fun _ => congrArg _ (funext fun _ => congrArg _ (funext fun _ =>
      congrArg _ (funext fun attached => ?_))))
    cases attached with
    | false => exact (pure_bind _ _).symm
    | true =>
      simp only [Bool.not_true, Bool.false_eq_true, if_false, if_true, bind_assoc]
      refine congrArg _ (funext fun left => ?_)
      cases left with
      | false => exact (pure_bind _ _).symm
      | true => exact hagain

end TourM

end Untangle
