import Untangle.Analysis.Edit

set_option autoImplicit false

/-!
# Tours

A tour goes through the program depth first.  Handlers act on the sites it comes to, before the
children (on entry) and after them (on leaving), and may change the program.  When a handler replaces
the node of the site the remaining handlers are left out and the new node is visited from scratch, a
bounded number of times; when it takes the node out the tour goes on behind it.

In a list the elements that are still to come are counted from the end, so that elements which
handlers put in or take out neither come twice nor make others be left out.
-/

namespace Untangle

/-- The state of a tour: the program, the number of visits, and a state of the handlers. -/
structure Tour (σ : Type) where
  analysis : Analysis
  visited : Nat
  state : σ

/-- A computation on a tour. -/
abbrev TourM (ε σ : Type) := EStateM ε (Tour σ)

/-- What is done to nodes of some forms. -/
structure Handler (ε σ : Type) where
  handles : Form → Bool
  act : SiteId → TourM ε σ Unit

/-- The handlers of a tour. -/
structure Visitor (ε σ : Type) where
  onEntry : List (Handler ε σ)
  onLeaving : List (Handler ε σ)

/-- How often one slot is visited before the tour goes on. -/
def maxVisits : Nat := 50

namespace TourM

variable {ε σ : Type}

/-- Looks something up in the analysis. -/
def ask {α : Type} (f : Analysis → α) : TourM ε σ α := do return f (← get).analysis

/-- Changes the analysis. -/
def changeAnalysis (f : Analysis → Analysis) : TourM ε σ Unit :=
  modify fun t => { t with analysis := f t.analysis }

/-- A new site below another one. -/
def siteBelow (i : SiteId) (child : Node) (listed : Bool) (scope : ScopeId) : TourM ε σ SiteId :=
  modifyGet fun t =>
    let (j, a) := t.analysis.addSiteBelow i child listed scope
    (j, { t with analysis := a })

/-- Whether a site has lost a node. -/
def hasChanged (i : SiteId) (node : NodeId) : TourM ε σ Bool := do
  let s ← ask fun a => a.site i
  return s.retired || s.node != node

/-- Runs handlers until one of them changes the node, and tells whether one did. -/
def runHandlers (i : SiteId) (node : NodeId) : List (Handler ε σ) → TourM ε σ Bool
  | [] => return false
  | h :: hs => do
    h.act i
    if ← hasChanged i node then return true
    runHandlers i node hs

/-- Whether a tour that is at the children of a node can go on with them. -/
def isCurrent (i : SiteId) (node : NodeId) : TourM ε σ Bool :=
  ask fun a => (a.site i).node == node && a.isAttached i

/-- The element of a list with a number of elements from it to the end. -/
def fromEnd? (ns : List Node) (remaining : Nat) : Option Node :=
  if remaining ≤ ns.length then ns[ns.length - remaining]? else none

mutual

/-- Visits a site, at most `visits` times in a row; `fuel` bounds the depth. -/
def visit (v : Visitor ε σ) (fuel visits : Nat) (i : SiteId) : TourM ε σ Unit :=
  match visits with
  | 0 => return
  | visits' + 1 => do
    modify fun t => { t with visited := t.visited + 1 }
    let n ← ask fun a => a.nodeAt i
    if ← runHandlers i n.id (v.onEntry.filter fun h => h.handles n.form) then
      if (← ask fun a => a.site i).retired then return
      visit v fuel visits' i
    else
      let outer := (← ask fun a => a.site i).scope
      let inner := (← ask fun a => a.scopeOpenedBy? n.id).getD outer
      visitSlots v fuel i n.id n.form outer inner n.form.slots
      if !(← ask fun a => a.isAttached i) then return
      if ← runHandlers i n.id (v.onLeaving.filter fun h => h.handles n.form) then
        if (← ask fun a => a.site i).retired then return
        visit v fuel visits' i
termination_by (fuel, 2, visits)

/-- Visits the children of a node slot by slot, as long as the node is there. -/
def visitSlots (v : Visitor ε σ) (fuel : Nat) (i : SiteId) (node : NodeId) (form : Form)
    (outer inner : ScopeId) (slots : List Slot) : TourM ε σ Unit :=
  match slots with
  | [] => return
  | slot :: rest => do
    let scope := Analysis.childScope form slot.role outer inner
    let n ← ask fun a => a.nodeAt i
    visitItems v fuel i slot scope (n.childrenAt slot.role).length
    if ← isCurrent i node then visitSlots v fuel i node form outer inner rest
termination_by (fuel, 1, slots.length)

/-- Visits the last elements of a slot. -/
def visitItems (v : Visitor ε σ) (fuel : Nat) (i : SiteId) (slot : Slot) (scope : ScopeId)
    (remaining : Nat) : TourM ε σ Unit :=
  match fuel, remaining with
  | _, 0 => return
  | 0, _ => return
  | fuel' + 1, remaining' + 1 => do
    let n ← ask fun a => a.nodeAt i
    match fromEnd? (n.childrenAt slot.role) (remaining' + 1) with
    | none => return
    | some child =>
      if !child.isHole then
        let j ← siteBelow i child slot.listed scope
        visit v fuel' maxVisits j
      visitItems v (fuel' + 1) i slot scope remaining'
termination_by (fuel, 0, remaining)

end

end TourM

/-- How deep a tour goes. -/
def tourDepth : Nat := 20000

/-- Goes through the program of an analysis.  The tour is kept even if a failure ends it. -/
def Visitor.go {ε σ : Type} (v : Visitor ε σ) (a : Analysis) (state : σ) :
    EStateM.Result ε (Tour σ) Unit :=
  let (root, a) := a.addSite ⟨a.program.id, none, .top, false, 0, false⟩
  (TourM.visit v tourDepth maxVisits root).run ⟨a, 0, state⟩

/-- The tour through the program of an analysis, if it comes to its end. -/
def Visitor.run {ε σ : Type} (v : Visitor ε σ) (a : Analysis) (state : σ) : Except ε (Tour σ) :=
  match v.go a state with
  | .ok _ t => .ok t
  | .error e _ => .error e

end Untangle
