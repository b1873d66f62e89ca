import Untangle.Proofs.Sandbox.Reached
import Untangle.Proofs.Sandbox.SplitScope

set_option autoImplicit false

/-!
# What a trial of a dispatch loop evaluates

A trial runs the parts of a loop one by one in the sandbox, each with a budget of its own: the
initializer, and then in every round the test, the discriminant, the updates of a case and the update of
the loop.  Here the parts are listed together with the machines they run on, and the trial is taken apart
into them.
-/

namespace Untangle.Dispatch

open Sandbox

/-! ## Evaluations -/

/-- The parts of a loop that a trial runs. -/
inductive Stage where
  | init
  | test (t : Node)
  /-- The discriminant; `started` if a case was taken before. -/
  | discriminant (started : Bool)
  /-- A statement of a case that sets dispatch variables. -/
  | update (s : Node)
  /-- The part of the loop that comes after a round. -/
  | advance (u : Node)

/-- What is run for a part of a loop, with constructs nested to a depth at most. -/
def Stage.code (loop : Loop) (scopes : ScopeChain) (depth : Nat) : Stage → Run Value
  | .init =>
    match loop.init.form with
    | .variableDeclaration _ => do
      (evaluator depth).statement loop.init scopes
      return .undefined
    | _ => (evaluator depth).expression loop.init scopes
  | .test t | .advance t => (evaluator depth).expression t scopes
  | .discriminant _ => (evaluator depth).expression loop.discriminant scopes
  | .update s => do
    (evaluator depth).statement s scopes
    return .undefined

/-- A part of a loop and the machine that it runs on. -/
structure Evaluation where
  stage : Stage
  machine : Machine

/-- The machine with other limits. -/
def withLimits (m : Machine) (maxSteps maxDepth : Nat) : Machine :=
  { m with maxSteps := maxSteps, maxDepth := maxDepth }

/-- The limits of a sandbox do not act on an evaluation: under higher ones it ends in the same way. -/
def Evaluation.Undisturbed (loop : Loop) (scopes : ScopeChain) (s : Registry) (e : Evaluation) : Prop :=
  ∀ maxSteps maxDepth depth, s.machine.maxSteps ≤ maxSteps → s.machine.maxDepth ≤ maxDepth →
    nestingLimit ≤ depth → ∀ v m, e.stage.code loop scopes nestingLimit e.machine = .ok v m →
      e.stage.code loop scopes depth (withLimits e.machine maxSteps maxDepth) =
        .ok v (withLimits m maxSteps maxDepth)

/-- The evaluations of the updates of a case. -/
def updateEvaluations (scopes : ScopeChain) : List Node → Registry → List Evaluation
  | [], _ => []
  | u :: us, s =>
    ⟨.update u, s.machine.renewed⟩ :: updateEvaluations scopes us (after (probe (Run.execute u scopes)) s)

/-- The evaluations that decide how a round goes on. -/
def headEvaluations (loop : Loop) (scopes : ScopeChain) (started : Bool) (s : Registry) :
    List Evaluation :=
  (loop.test.toList.map fun t => ⟨.test t, s.machine.renewed⟩) ++
    match testFails loop scopes s with
    | .ok false s₁ => [⟨.discriminant started, s₁.machine.renewed⟩]
    | _ => []

/-- Whether a loop ends after a case. -/
def leaves (loop : Loop) (plan : CasePlan) : Bool := loop.closing && !plan.continues

/-- The evaluations after a case is chosen. -/
def caseEvaluations (loop : Loop) (scopes : ScopeChain) (plan : CasePlan) (s : Registry) :
    List Evaluation :=
  updateEvaluations scopes plan.updates s ++
    if leaves loop plan then []
    else loop.update.toList.map fun u =>
      ⟨.advance u, (after (runUpdates scopes plan.updates) s).machine.renewed⟩

/-- The evaluations of a run from a test on. -/
def evaluations (loop : Loop) (names : List Text) (values : List Value) (scopes : ScopeChain) :
    Nat → Bool → Dict Nat CasePlan → Registry → List Evaluation
  | 0, started, _, s => headEvaluations loop scopes started s
  | fuel + 1, started, plans, s =>
    headEvaluations loop scopes started s ++
      match nextCase loop values scopes started s with
      | .ok (some index) s₁ =>
        match planOf loop names plans index s₁ with
        | .ok plan s₂ =>
          caseEvaluations loop scopes plan s₂ ++
            if leaves loop plan then []
            else evaluations loop names values scopes fuel true (plans.put index plan)
              (after (do runUpdates scopes plan.updates; runUpdate loop scopes) s₂)
        | .error _ _ => []
      | _ => []

/-- The scopes that a trial runs in. -/
def trialScopes (s : Registry) : ScopeChain := s.machine.frames.size :: s.machine.globalChain

/-- The sandbox with the scopes of a trial. -/
def trialStart (s : Registry) : Registry := after (probe Run.scratch) s

/-- The evaluations of a trial. -/
def trial (loop : Loop) (maxDispatches : Nat) (s : Registry) : List Evaluation :=
  match tests loop.cases with
  | .error _ => []
  | .ok values =>
    ⟨.init, (trialStart s).machine.renewed⟩ ::
      evaluations loop (stateNames loop.init) values (trialScopes s) maxDispatches false .empty
        (after (runInit loop.init (trialScopes s)) (trialStart s))

/-- The number of the case that tests for a value. -/
def caseFor? (loop : Loop) (v : Value) : Option Nat :=
  match tests loop.cases with
  | .error _ => none
  | .ok values => values.findIdx? (strictEquals v)

/-! ## Parts that end -/

theorem probe_eq_ok {α : Type} {c : Run α} {s s' : Registry} {a : α} (h : probe c s = .ok a s') :
    c s.machine = .ok a s'.machine ∧ s'.gate = s.gate := by
  cases hc : c s.machine with
  | ok b m =>
    rw [probe_of_ok hc] at h
    cases h
    exact ⟨rfl, rfl⟩
  | error e m =>
    obtain ⟨stop, hstop⟩ := probe_of_error hc
    rw [hstop] at h
    cases h

theorem after_of_ok {α : Type} {p : Probe α} {s s' : Registry} {a : α} (h : p s = .ok a s') :
    after p s = s' := by
  unfold after EStateM.run
  rw [h]

theorem evaluate_eq_ok {n : Node} {scopes : ScopeChain} {s s' : Registry} {v : Value}
    (h : probe (Run.evaluate n scopes) s = .ok v s') :
    (evaluator nestingLimit).expression n scopes s.machine.renewed = .ok v s'.machine ∧
      s'.gate = s.gate :=
  ⟨Machine.fresh_eq_ok.mp (probe_eq_ok h).1, (probe_eq_ok h).2⟩

/-- The test of a loop, if there is one, comes out as given. -/
inductive Tested (loop : Loop) (scopes : ScopeChain) (outcome : Bool) (s s' : Registry) : Prop
  | missing : loop.test = none → outcome = true → s' = s → Tested loop scopes outcome s s'
  | evaluated {t : Node} {v : Value} : loop.test = some t →
      (Stage.test t).code loop scopes nestingLimit s.machine.renewed = .ok v s'.machine →
      toBoolean v = outcome → s'.gate = s.gate → Tested loop scopes outcome s s'

theorem testFails_eq_ok {loop : Loop} {scopes : ScopeChain} {s s' : Registry} {fails : Bool}
    (h : testFails loop scopes s = .ok fails s') : Tested loop scopes (!fails) s s' := by
  unfold testFails at h
  cases htest : loop.test with
  | none =>
    rw [htest] at h
    cases h
    exact .missing htest rfl rfl
  | some t =>
    rw [htest] at h
    obtain ⟨v, s₁, hv, h⟩ := bind_eq_ok.mp h
    cases h
    obtain ⟨hcode, hgate⟩ := evaluate_eq_ok hv
    exact .evaluated htest hcode (by simp) hgate

/-- How a round begins: the loop ends, or the discriminant leads to a case. -/
inductive Chosen (loop : Loop) (values : List Value) (scopes : ScopeChain) (started : Bool)
    (s s' : Registry) : Option Nat → Prop
  | testFails : Tested loop scopes false s s' → Chosen loop values scopes started s s' none
  | ends {s₁ : Registry} {v : Value} :
      Dispatch.testFails loop scopes s = .ok false s₁ →
      (Stage.discriminant started).code loop scopes nestingLimit s₁.machine.renewed =
        .ok v s'.machine →
      s'.gate = s₁.gate → started = true →
      toBoolean v = false ∨ (values.findIdx? (strictEquals v) = none ∧ loop.closing = true) →
      Chosen loop values scopes started s s' none
  | takes {s₁ : Registry} {v : Value} {index : Nat} :
      Dispatch.testFails loop scopes s = .ok false s₁ →
      (Stage.discriminant started).code loop scopes nestingLimit s₁.machine.renewed =
        .ok v s'.machine →
      s'.gate = s₁.gate → values.findIdx? (strictEquals v) = some index →
      Chosen loop values scopes started s s' (some index)

theorem nextCase_eq_ok {loop : Loop} {values : List Value} {scopes : ScopeChain} {started : Bool}
    {s s' : Registry} {next : Option Nat}
    (h : nextCase loop values scopes started s = .ok next s') :
    Chosen loop values scopes started s s' next := by
  unfold nextCase at h
  obtain ⟨fails, s₁, htest, h⟩ := bind_eq_ok.mp h
  cases fails with
  | true =>
    cases h
    exact .testFails (testFails_eq_ok htest)
  | false =>
    obtain ⟨v, s₂, hv, h⟩ := bind_eq_ok.mp h
    obtain ⟨hcode, hgate⟩ := evaluate_eq_ok hv
    cases hfalsy : started && !toBoolean v with
    | true =>
      rw [hfalsy] at h
      cases h
      simp only [Bool.and_eq_true, Bool.not_eq_true'] at hfalsy
      exact .ends htest hcode hgate hfalsy.1 (.inl hfalsy.2)
    | false =>
      rw [hfalsy] at h
      cases hfind : values.findIdx? (strictEquals v) with
      | some index =>
        rw [hfind] at h
        cases h
        exact .takes htest hcode hgate hfind
      | none =>
        rw [hfind] at h
        cases hend : started && loop.closing with
        | true =>
          rw [hend] at h
          cases h
          simp only [Bool.and_eq_true] at hend
          exact .ends htest hcode hgate hend.1 (.inr ⟨hfind, hend.2⟩)
        | false =>
          rw [hend] at h
          cases h

theorem runUpdate_eq_ok {loop : Loop} {scopes : ScopeChain} {s s' : Registry}
    (h : runUpdate loop scopes s = .ok () s') :
    (loop.update = none ∧ s' = s) ∨
    ∃ u v, loop.update = some u ∧
      (Stage.advance u).code loop scopes nestingLimit s.machine.renewed = .ok v s'.machine ∧
      s'.gate = s.gate := by
  unfold runUpdate at h
  cases hupdate : loop.update with
  | none =>
    rw [hupdate] at h
    cases h
    exact .inl ⟨rfl, rfl⟩
  | some u =>
    rw [hupdate] at h
    obtain ⟨v, s₁, hv, h⟩ := bind_eq_ok.mp h
    cases h
    obtain ⟨hcode, hgate⟩ := evaluate_eq_ok hv
    exact .inr ⟨u, v, rfl, hcode, hgate⟩

/-- A statement that sets dispatch variables ends. -/
theorem execute_eq_ok (loop : Loop) {names : List Text} {u : Node} {scopes : ScopeChain}
    {s s' : Registry} (hu : isUpdate names u = true)
    (h : probe (Run.execute u scopes) s = .ok () s') :
    (Stage.update u).code loop scopes nestingLimit s.machine.renewed = .ok .undefined s'.machine ∧
      s'.gate = s.gate := by
  obtain ⟨hrun, hgate⟩ := probe_eq_ok h
  refine ⟨?_, hgate⟩
  have hform : ∃ d, u.form = .expressionStatement d := by
    unfold isUpdate at hu
    split at hu
    · next hform _ => exact ⟨_, hform⟩
    · cases hu
  obtain ⟨d, hform⟩ := hform
  unfold Run.execute at hrun
  rw [hform] at hrun
  exact bind_eq_ok.mpr ⟨(), s'.machine, Machine.fresh_eq_ok.mp hrun, rfl⟩

end Untangle.Dispatch
