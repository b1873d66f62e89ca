import Untangle.Rule.Evaluation
import Untangle.Rule.Folding
import Untangle.Rule.Inlining
import Untangle.Rule.Unflattening

set_option autoImplicit false

/-!
# The chain of rules

All rules act in one tour.  Inlining acts on entry, the others on leaving, so that they see what became
of the parts of a node.
-/

namespace Untangle

namespace RuleName

/-- The handlers of a rule on entry. -/
def onEntry : RuleName → List (Handler RuleError RuleState)
  | .declarations => [Rule.Inlining.handler]
  | _ => []

/-- The handlers of a rule on leaving. -/
def onLeaving (settings : Settings) : RuleName → List (Handler RuleError RuleState)
  | .declarations => []
  | .binary => [Rule.Folding.handler]
  | .calls => [Rule.Evaluation.handler]
  | .loops => [Rule.Unflattening.handler settings]

/-- The handlers of some rules that are not disabled, in the order in which they act. -/
def visitor (settings : Settings) (rules : List RuleName) : Visitor RuleError RuleState :=
  let active := (inOrder rules).filter fun r => !settings.disabledRules.contains r
  ⟨active.flatMap onEntry, active.flatMap (onLeaving settings)⟩

end RuleName

/-- Goes through an analysed program with some rules, on a new sandbox on the store of a machine. -/
def rulesTour (settings : Settings) (rules : List RuleName) (a : Analysis)
    (store : Sandbox.Machine) : EStateM.Result RuleError (Tour RuleState) Unit :=
  let sandbox := Sandbox.Registry.onStore settings.gate store settings.maxEvalSteps
    settings.maxCallDepth
  (RuleName.visitor settings rules).go a ⟨sandbox, .empty⟩

/-- The tour with the number of its visits among the counters. -/
def Tour.counted (t : Tour RuleState) : Tour RuleState :=
  { t with state := { t.state with stats := t.state.stats.add .nodesVisited t.visited } }

/-- The store that a tour leaves, with the trees in which its functions find their code. -/
def Tour.store (t : Tour RuleState) : Sandbox.Machine :=
  { t.state.sandbox.machine with trees := t.analysis.program :: t.analysis.attic }

/-- Applies some rules to an analysed program, on a new sandbox on the store of a machine. -/
def applyRules (settings : Settings) (rules : List RuleName) (a : Analysis)
    (store : Sandbox.Machine) : Except RuleError (Tour RuleState) :=
  match rulesTour settings rules a store with
  | .ok _ t => .ok t.counted
  | .error e _ => .error e

theorem applyRules_eq (settings : Settings) (rules : List RuleName) (a : Analysis)
    (store : Sandbox.Machine) :
    applyRules settings rules a store = (do
      let t ← (RuleName.visitor settings rules).run a
        ⟨.onStore settings.gate store settings.maxEvalSteps settings.maxCallDepth, .empty⟩
      return t.counted) := by
  unfold applyRules Visitor.run
  cases h : rulesTour settings rules a store with
  | ok x t =>
    unfold rulesTour at h
    rw [h]
    rfl
  | error e t =>
    unfold rulesTour at h
    rw [h]
    rfl

end Untangle
