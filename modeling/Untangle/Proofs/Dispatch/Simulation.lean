import Untangle.Proofs.Dispatch.Round

set_option autoImplicit false

/-!
# Trials agree with runs

The trial of a dispatch loop gives the statements that the loop executes.

The two are compared round by round, under a pairing of their machines; the condition that no limit acts on
the trial and the one on values that are false are assumed of each event.
-/

namespace Untangle.Dispatch

open Sandbox Pairing

namespace KeepsStep

variable {α β : Type} {s : Registry} {scopes : ScopeChain} {m m₁ m₂ : Machine}

theorem result (a : α) : KeepsStep s scopes m m 0 (fun _ _ _ _ => pure a) (.ok a) [] :=
  fun _ _ _ _ _ _ m' _ _ hstep _ => ⟨m', rfl, hstep, Nat.le_refl _, rfl⟩

/-- One part of the run after the other. -/
theorem bind {cost₁ cost₂ : Nat} {code₁ : FrameId → Effect → Nat → ScopeChain → Run α}
    {k : FrameId → Effect → Nat → ScopeChain → α → Run β} {a : α} {r : Except Abrupt β}
    {ns₁ ns₂ : List Node} (h₁ : KeepsStep s scopes m m₁ cost₁ code₁ (.ok a) ns₁)
    (h₂ : KeepsStep s scopes m₁ m₂ cost₂ (fun w e d c => k w e d c a) r ns₂) :
    KeepsStep s scopes m m₂ (cost₁ + cost₂) (fun w e d c => code₁ w e d c >>= k w e d c) r
      (ns₁ ++ ns₂) := by
  intro limits world effect chains c depth m' hc hdepth hstep hroom
  obtain ⟨m₁', hrun₁, hstep₁, hused₁, hworld₁⟩ :=
    h₁ limits world effect chains c depth m' hc hdepth hstep (hroom.fewer (Nat.le_add_right _ _))
  obtain ⟨m₂', hrun₂, hstep₂, hused₂, hworld₂⟩ :=
    h₂ limits world effect chains c depth m₁' hc hdepth hstep₁ (hroom.later hused₁)
  refine ⟨m₂', ?_, hstep₂, by omega, ?_⟩
  · show (code₁ world effect depth c >>= k world effect depth c) m' = _
    rw [bind_of_ok hrun₁]
    exact hrun₂
  · rw [hworld₂, hworld₁, worldAfter, worldAfter, worldAfter, List.foldl_append]

/-- The cost may be given generously. -/
theorem generous {cost cost' : Nat} {code : FrameId → Effect → Nat → ScopeChain → Run α}
    {r : Except Abrupt α} {ns : List Node} (h : KeepsStep s scopes m m₁ cost code r ns)
    (hle : cost ≤ cost') : KeepsStep s scopes m m₁ cost' code r ns := by
  intro limits world effect chains c depth m' hc hdepth hstep hroom
  obtain ⟨m₁', hrun, hstep', hused, hworld⟩ :=
    h limits world effect chains c depth m' hc hdepth hstep (hroom.fewer hle)
  exact ⟨m₁', hrun, hstep', by omega, hworld⟩

/-- Only what statements do to a world counts. -/
theorem relabel {cost : Nat} {code : FrameId → Effect → Nat → ScopeChain → Run α}
    {r : Except Abrupt α} {ns ns' : List Node} (h : KeepsStep s scopes m m₁ cost code r ns)
    (hsame : ∀ effect w, worldAfter effect ns' w = worldAfter effect ns w) :
    KeepsStep s scopes m m₁ cost code r ns' := by
  intro limits world effect chains c depth m' hc hdepth hstep hroom
  obtain ⟨m₁', hrun, hstep', hused, hworld⟩ :=
    h limits world effect chains c depth m' hc hdepth hstep hroom
  exact ⟨m₁', hrun, hstep', hused, hworld.trans (hsame effect _).symm⟩

/-- Constructs may be nested deeper. -/
theorem nested {cost : Nat} {code : FrameId → Effect → Nat → ScopeChain → Run α}
    {r : Except Abrupt α} {ns : List Node} (h : KeepsStep s scopes m m₁ cost code r ns) (more : Nat) :
    KeepsStep s scopes m m₁ cost (fun w e d c => code w e (d + more) c) r ns :=
  fun limits world effect chains c depth m' hc hdepth =>
    h limits world effect chains c (depth + more) m' hc (Nat.le_add_right_of_le hdepth)

/-- The evaluation of an expression that the trial evaluates as well. -/
theorem expression {loop : Loop} {stage : Stage} {n : Node} {v : Value} (names : List Text)
    (hcode : ∀ depth, stage.code loop scopes depth = (evaluator depth).expression n scopes)
    (hquiet : Evaluation.Undisturbed loop scopes s ⟨stage, m.renewed⟩)
    (hrun : stage.code loop scopes nestingLimit m.renewed = .ok v m₁) :
    KeepsStep s scopes m m₁ m₁.steps
      (fun world effect depth c => (loopEvaluator names world effect depth).expression n c) (.ok v)
      [] := by
  intro limits world effect chains c depth m' hc hdepth hstep hroom
  obtain ⟨m₁', hrun', hstep', hused, hworld⟩ :=
    hstep.evaluate ((evaluator depth).expression n c) hquiet hrun
      (fun σ ls hchains => by
        rw [hcode depth]
        exact (evaluator_faithful depth).expression σ ls n scopes c (hchains c hc))
      hroom.steps hroom.depth hdepth
  refine ⟨m₁', ?_, hstep', Nat.le_of_eq hused, hworld⟩
  show (loopEvaluator names world effect depth).expression n c m' = _
  rw [loopEvaluator_expression]
  exact hrun'

end KeepsStep

/-! ## The parts of a round -/

section

variable {loop : Loop} {names : List Text} {s : Registry} {scopes : ScopeChain} {m m₁ : Machine}

theorem test_keepsStep {s₁ s₂ : Registry} {outcome : Bool} (names : List Text)
    (h : Tested loop scopes outcome s₁ s₂)
    (hquiet : ∀ t, loop.test = some t →
      Evaluation.Undisturbed loop scopes s ⟨.test t, s₁.machine.renewed⟩) :
    KeepsStep s scopes s₁.machine s₂.machine s₂.machine.steps
      (fun world effect depth c =>
        Run.testHolds (loopEvaluator names world effect depth) loop.test c) (.ok outcome) [] := by
  cases h with
  | missing hnone houtcome hsame =>
    subst houtcome
    subst hsame
    rw [hnone]
    exact (KeepsStep.result true).generous (Nat.zero_le _)
  | @evaluated t v hsome hcode houtcome _ =>
    subst houtcome
    rw [hsome]
    exact (KeepsStep.expression names (fun _ => rfl) (hquiet t hsome) hcode).bind
      (k := fun _ _ _ _ v => pure (toBoolean v)) (KeepsStep.result _)

theorem advance_keepsStep {s₁ s₂ : Registry} (names : List Text)
    (h : runUpdate loop scopes s₁ = .ok () s₂)
    (hquiet : ∀ u, loop.update = some u →
      Evaluation.Undisturbed loop scopes s ⟨.advance u, s₁.machine.renewed⟩) :
    KeepsStep s scopes s₁.machine s₂.machine s₂.machine.steps
      (fun world effect depth c => do
        match loop.update with
        | some u => let _ ← (loopEvaluator names world effect depth).expression u c
        | none => pure ()
        return true) (.ok true) [] := by
  obtain ⟨hnone, hsame⟩ | ⟨u, v, hsome, hcode, -⟩ := runUpdate_eq_ok h
  · subst hsame
    rw [hnone]
    exact (KeepsStep.result true).generous (Nat.zero_le _)
  · rw [hsome]
    exact (KeepsStep.expression names (fun _ => rfl) (hquiet u hsome) hcode).bind
      (k := fun _ _ _ _ _ => pure true) (KeepsStep.result _)

theorem loopEvaluator_switch {switch : Node} (hform : switch.form = .switchStatement)
    (world : FrameId) (effect : Effect) (depth : Nat) (c : ScopeChain) :
    (loopEvaluator names world effect (depth + 1)).statement switch c =
      Run.executeStatement (caseEvaluator names world effect depth) switch c := by
  show (if isSwitch switch then _ else _) = _
  rw [if_pos (isSwitch_iff.mpr hform)]

theorem loopEvaluator_statement {n : Node} (hform : n.form ≠ .switchStatement)
    (world : FrameId) (effect : Effect) (depth : Nat) (c : ScopeChain) :
    (loopEvaluator names world effect (depth + 1)).statement n c =
      Run.executeStatement (loopEvaluator names world effect depth) n c := by
  show (if isSwitch n then _ else _) = _
  rw [if_neg fun h => hform (isSwitch_iff.mp h)]

/-- A block runs its statements in a scope of its own. -/
theorem block_keepsStep {body : Node} {statements ns : List Node} {r : Except Abrupt Unit}
    {cost : Nat} (hform : body.form = .blockStatement) (hchildren : body.childrenAt .body = statements)
    (hhoist : ∀ c m', Run.hoist c statements m' = .ok () m')
    (h : KeepsStep s scopes m m₁ cost
      (fun world effect depth c =>
        Run.runAll (loopEvaluator names world effect (depth + 1)) c statements) r ns) :
    KeepsStep s scopes m m₁ (1 + cost)
      (fun world effect depth c => (loopEvaluator names world effect (depth + 2)).statement body c)
      r ns := by
  intro limits world effect chains c depth m' hc hdepth hstep hroom
  have hsteps := hroom.steps
  obtain ⟨htick, hstep₁⟩ := hstep.tick (by omega)
  obtain ⟨hstep₂, hworld₂⟩ := hstep₁.block hc
  have hroom₂ : Room s limits
      { m' with steps := m'.steps + 1, frames := m'.frames.push blankFrame } cost :=
    hroom.later (Nat.le_refl _)
  obtain ⟨m₃', hrun₃, hstep₃, hused₃, hworld₃⟩ :=
    h limits world effect _ _ depth _ List.mem_cons_self hdepth hstep₂ hroom₂
  refine ⟨m₃', ?_, hstep₃.fewer fun d hd => List.mem_cons_of_mem _ hd, ?_, ?_⟩
  · show (loopEvaluator names world effect (depth + 2)).statement body c m' = _
    rw [loopEvaluator_statement (by simp [hform])]
    unfold Run.executeStatement
    rw [bind_of_ok htick]
    simp only [hform, Run.runBlock, hchildren]
    rw [bind_of_ok (rfl : Run.blockScope c { m' with steps := m'.steps + 1 } = .ok _ _)]
    rw [bind_of_ok (hhoist _ _)]
    exact hrun₃
  · simp only at hused₃
    omega
  · rw [hworld₃, hworld₂]
    rfl

theorem hoist_of_no_function {statements : List Node}
    (h : ∀ n ∈ statements, ∀ flags, n.form ≠ .functionDeclaration flags) (c : ScopeChain)
    (m : Machine) : Run.hoist c statements m = .ok () m := by
  induction statements with
  | nil => rfl
  | cons n statements ih =>
    have hrest := ih fun k hk => h k (List.mem_cons_of_mem n hk)
    have hn := h n List.mem_cons_self
    unfold Run.hoist
    split
    · next flags hform => exact absurd hform (hn flags)
    · exact hrest

/-- The body of a loop runs the `switch`, and the `break` after it if there is one. -/
theorem body_keepsStep {switch body : Node} {cost : Nat} {continues : Bool} {ns : List Node}
    (hbody : Body loop switch body) (hform : switch.form = .switchStatement)
    (h : KeepsStep s scopes m m₁ cost
      (fun world effect depth c =>
        Run.executeStatement (caseEvaluator names world effect depth) switch c)
      (caseOutcome continues) ns) :
    KeepsStep s scopes m m₁ (1 + (cost + 1))
      (fun world effect depth c => (loopEvaluator names world effect (depth + 2)).statement body c)
      (bodyOutcome loop continues) ns := by
  cases hbody with
  | bare hclosing =>
    refine KeepsStep.generous ?_ (by omega : cost ≤ 1 + (cost + 1))
    intro limits world effect chains c depth m' hc hdepth hstep hroom
    obtain ⟨m₁', hrun, hrest⟩ :=
      h limits world effect chains c (depth + 1) m' hc (Nat.le_succ_of_le hdepth) hstep hroom
    refine ⟨m₁', ?_, hrest⟩
    show (loopEvaluator names world effect (depth + 2)).statement switch c m' = _
    rw [loopEvaluator_switch hform,
      show bodyOutcome loop continues = caseOutcome continues by simp [bodyOutcome, caseOutcome, hclosing]]
    exact hrun
  | block hblock hchildren hclosing =>
    refine block_keepsStep hblock hchildren ?_ (KeepsStep.generous ?_ (Nat.le_succ cost))
    · exact hoist_of_no_function (by simp [hform])
    intro limits world effect chains c depth m' hc hdepth hstep hroom
    obtain ⟨m₁', hrun, hrest⟩ := h limits world effect chains c depth m' hc hdepth hstep hroom
    refine ⟨m₁', ?_, hrest⟩
    show (do (loopEvaluator names world effect (depth + 1)).statement switch c; pure ()) m' = _
    rw [loopEvaluator_switch hform]
    cases continues with
    | true =>
      rw [bind_of_error hrun]
      rfl
    | false =>
      rw [bind_of_ok hrun]
      simp [bodyOutcome, hclosing, ended, pure, EStateM.pure]
  | @closed _ last hblock hchildren hlast hclosing =>
    have hlastForm : last.form = .breakStatement := by
      unfold isBareBreak at hlast
      split at hlast
      · assumption
      · cases hlast
    refine block_keepsStep hblock hchildren ?_ ?_
    · exact hoist_of_no_function (by simp [hform, hlastForm])
    intro limits world effect chains c depth m' hc hdepth hstep hroom
    obtain ⟨m₁', hrun, hstep₁, hused₁, hworld₁⟩ :=
      h limits world effect chains c depth m' hc hdepth hstep (hroom.fewer (Nat.le_succ cost))
    cases continues with
    | true =>
      refine ⟨m₁', ?_, hstep₁, by omega, hworld₁⟩
      show (do
        (loopEvaluator names world effect (depth + 1)).statement switch c
        Run.runAll (loopEvaluator names world effect (depth + 1)) c [last]) m' = _
      rw [loopEvaluator_switch hform, bind_of_error hrun]
      rfl
    | false =>
      have hsteps := (hroom.later hused₁).steps
      have hmax := hstep₁.maxSteps (by omega)
      refine ⟨{ m₁' with steps := m₁'.steps + 1 }, ?_, hstep₁.spend (by omega), ?_, hworld₁⟩
      · show (do
          (loopEvaluator names world effect (depth + 1)).statement switch c
          Run.runAll (loopEvaluator names world effect (depth + 1)) c [last]) m' = _
        rw [loopEvaluator_switch hform, bind_of_ok hrun]
        have hjump : (loopEvaluator names world effect (depth + 1)).statement last c m₁' =
            .error .broken { m₁' with steps := m₁'.steps + 1 } := by
          rw [loopEvaluator_statement (by simp [hlastForm])]
          exact jump_of_isBareBreak hlast (by omega)
        rw [Run.runAll, bind_of_error hjump]
        simp [bodyOutcome, hclosing, ended]
      · simp only
        omega

/-! ## Rounds -/

/-- What a round does after the body. -/
def afterBody (ev : Evaluator) (loop : Loop) (c : ScopeChain) (more : Bool) : Run Bool := do
  if !more then return false
  match loop.update with
  | some u => let _ ← ev.expression u c
  | none => pure ()
  return true

/-- What a round does after the test. -/
def afterTest (ev : Evaluator) (loop : Loop) (body : Node) (c : ScopeChain) (holds : Bool) :
    Run Bool := do
  if !holds then return false
  afterBody ev loop c (← Run.runRound ev body c)

/-- A round of a loop. -/
def loopRound (ev : Evaluator) (loop : Loop) (body : Node) (c : ScopeChain) : Run Bool := do
  afterTest ev loop body c (← Run.testHolds ev loop.test c)

/-- After a round that ends as given, the loop goes on unless a `break` has left it. -/
theorem runRound_keepsStep {body : Node} {cost : Nat} {continues : Bool} {ns : List Node}
    (h : KeepsStep s scopes m m₁ cost
      (fun world effect depth c => (loopEvaluator names world effect (depth + 2)).statement body c)
      (bodyOutcome loop continues) ns) :
    KeepsStep s scopes m m₁ cost
      (fun world effect depth c => Run.runRound (loopEvaluator names world effect (depth + 2)) body c)
      (.ok !(loop.closing && !continues)) ns := by
  intro limits world effect chains c depth m' hc hdepth hstep hroom
  obtain ⟨m₁', hrun, hrest⟩ := h limits world effect chains c depth m' hc hdepth hstep hroom
  refine ⟨m₁', ?_, hrest⟩
  show EStateM.tryCatch (do
      (loopEvaluator names world effect (depth + 2)).statement body c
      return true) _ m' = _
  unfold EStateM.tryCatch
  cases continues with
  | true =>
    rw [bind_of_error hrun]
    simp only [Bool.not_true, Bool.and_false, Bool.not_false]
    rfl
  | false =>
    cases hclosing : loop.closing with
    | true =>
      simp only [bodyOutcome, hclosing, Bool.false_eq_true, if_false, if_true] at hrun
      rw [bind_of_error hrun]
      rfl
    | false =>
      simp only [bodyOutcome, hclosing, Bool.false_eq_true, if_false] at hrun
      rw [bind_of_ok hrun]
      rfl

/-- A round that is the last one because the test fails. -/
theorem round_of_testFails {body : Node} {s₁ s₂ : Registry} (names : List Text)
    (h : Tested loop scopes false s₁ s₂)
    (hquiet : ∀ t, loop.test = some t →
      Evaluation.Undisturbed loop scopes s ⟨.test t, s₁.machine.renewed⟩) :
    ∃ cost, KeepsStep s scopes s₁.machine s₂.machine cost
      (fun world effect depth c => loopRound (loopEvaluator names world effect (depth + 2)) loop body c)
      (.ok false) [] :=
  ⟨_, ((test_keepsStep names h hquiet).nested 2).bind
    (k := fun world effect depth c =>
      afterTest (loopEvaluator names world effect (depth + 2)) loop body c)
    (KeepsStep.result false)⟩

/-- A round in which the body runs: the loop goes on with its update, or ends. -/
theorem round_of_body {body : Node} {s₁ s₂ s₃ : Registry} {cost : Nat} {continues : Bool}
    {ns : List Node} (s₄ : Registry) (htest : Tested loop scopes true s₁ s₂)
    (hquiet : ∀ t, loop.test = some t →
      Evaluation.Undisturbed loop scopes s ⟨.test t, s₁.machine.renewed⟩)
    (hbody : KeepsStep s scopes s₂.machine s₃.machine cost
      (fun world effect depth c => (loopEvaluator names world effect (depth + 2)).statement body c)
      (bodyOutcome loop continues) ns)
    (hafter : if loop.closing && !continues then s₄ = s₃
      else runUpdate loop scopes s₃ = .ok () s₄ ∧ ∀ u, loop.update = some u →
        Evaluation.Undisturbed loop scopes s ⟨.advance u, s₃.machine.renewed⟩) :
    ∃ cost, KeepsStep s scopes s₁.machine s₄.machine cost
      (fun world effect depth c => loopRound (loopEvaluator names world effect (depth + 2)) loop body c)
      (.ok !(loop.closing && !continues)) ns := by
  have hrest : ∃ cost, KeepsStep s scopes s₃.machine s₄.machine cost
      (fun world effect depth c =>
        afterBody (loopEvaluator names world effect (depth + 2)) loop c !(loop.closing && !continues))
      (.ok !(loop.closing && !continues)) [] := by
    cases hends : loop.closing && !continues with
    | true =>
      simp only [hends, if_true] at hafter
      subst hafter
      exact ⟨0, KeepsStep.result false⟩
    | false =>
      simp only [hends, Bool.false_eq_true, if_false] at hafter
      exact ⟨_, (advance_keepsStep names hafter.1 hafter.2).nested 2⟩
  obtain ⟨cost', hrest⟩ := hrest
  have hboth := (runRound_keepsStep hbody).bind
    (k := fun world effect depth c => afterBody (loopEvaluator names world effect (depth + 2)) loop c)
    hrest
  rw [List.append_nil] at hboth
  exact ⟨_, ((test_keepsStep names htest hquiet).nested 2).bind
    (k := fun world effect depth c =>
      afterTest (loopEvaluator names world effect (depth + 2)) loop body c) hboth⟩

/-- The rounds of a loop of which the first is the last. -/
theorem rounds_of_last {round : FrameId → Effect → Nat → ScopeChain → Run Bool} {cost fuel : Nat}
    {ns : List Node} (h : KeepsStep s scopes m m₁ cost round (.ok false) ns) (hfuel : 0 < fuel) :
    KeepsStep s scopes m m₁ cost (fun w e d c => Run.rounds (round w e d c) fuel) (.ok ()) ns := by
  obtain ⟨fuel, rfl⟩ : ∃ k, fuel = k + 1 := ⟨fuel - 1, by omega⟩
  have hboth := h.bind (k := fun w e d c more => if more then Run.rounds (round w e d c) fuel else pure ())
    (KeepsStep.result ())
  rw [List.append_nil] at hboth
  exact hboth

/-- The rounds of a loop of which the first is followed by others. -/
theorem rounds_of_more {m₂ : Machine} {round : FrameId → Effect → Nat → ScopeChain → Run Bool}
    {cost cost' fuel : Nat} {ns ns' : List Node}
    (h : KeepsStep s scopes m m₁ cost round (.ok true) ns)
    (hrest : KeepsStep s scopes m₁ m₂ cost' (fun w e d c => Run.rounds (round w e d c) fuel) (.ok ())
      ns') :
    KeepsStep s scopes m m₂ (cost + cost') (fun w e d c => Run.rounds (round w e d c) (fuel + 1))
      (.ok ()) (ns ++ ns') :=
  h.bind (k := fun w e d c more => if more then Run.rounds (round w e d c) fuel else pure ()) hrest

end

/-! ## The run of a loop -/

section

variable {loop : Loop} {names : List Text} {values : List Value} {s : Registry} {scopes : ScopeChain}

/-- The plans that a trial remembers are those of its cases. -/
def Remembers (gate : Gate) (loop : Loop) (names : List Text) (plans : Dict Nat CasePlan) : Prop :=
  ∀ i p, plans.get? i = some p →
    CasePlan.ofCase gate names (loop.cases.getD i (.leaf .hole)) (i + 1 == loop.cases.length) = .ok p

theorem planOf_eq_ok {plans : Dict Nat CasePlan} {index : Nat} {plan : CasePlan} {s₁ s₂ : Registry}
    (hplans : Remembers s₁.gate loop names plans)
    (h : planOf loop names plans index s₁ = .ok plan s₂) :
    s₂ = s₁ ∧ CasePlan.ofCase s₁.gate names (loop.cases.getD index (.leaf .hole))
      (index + 1 == loop.cases.length) = .ok plan := by
  unfold planOf at h
  cases hget : plans.get? index with
  | some p =>
    rw [hget] at h
    cases h
    exact ⟨rfl, hplans index _ hget⟩
  | none =>
    rw [hget] at h
    obtain ⟨g, s₃, hg, h⟩ := bind_eq_ok.mp h
    cases hg
    cases hcase : CasePlan.ofCase s₁.gate names (loop.cases.getD index (.leaf .hole))
        (index + 1 == loop.cases.length) with
    | error e =>
      simp only [hcase] at h
      cases h
    | ok p =>
      simp only [hcase] at h
      cases h
      exact ⟨rfl, rfl⟩

theorem Remembers.put {gate : Gate} {plans : Dict Nat CasePlan} {index : Nat} {plan : CasePlan}
    (h : Remembers gate loop names plans)
    (hplan : CasePlan.ofCase gate names (loop.cases.getD index (.leaf .hole))
      (index + 1 == loop.cases.length) = .ok plan) :
    Remembers gate loop names (plans.put index plan) := by
  intro i p hget
  by_cases hi : i = index
  · subst hi
    rw [Dict.get?_put_self] at hget
    cases hget
    exact hplan
  · rw [Dict.get?_put_of_ne _ hi] at hget
    exact h i p hget

theorem Tested.gate {outcome : Bool} {s₁ s₂ : Registry} (h : Tested loop scopes outcome s₁ s₂) :
    s₂.gate = s₁.gate := by
  cases h with
  | missing _ _ hsame => rw [hsame]
  | evaluated _ _ _ hgate => exact hgate

theorem gate_of_nextCase {started : Bool} {index : Nat} {s₁ s₂ : Registry}
    (h : nextCase loop values scopes started s₁ = .ok (some index) s₂) : s₂.gate = s₁.gate := by
  cases nextCase_eq_ok h with
  | takes htest _ hgate _ => exact hgate.trans (testFails_eq_ok htest).gate

theorem gate_of_runUpdate {s₁ s₂ : Registry} (h : runUpdate loop scopes s₁ = .ok () s₂) :
    s₂.gate = s₁.gate := by
  obtain ⟨-, rfl⟩ | ⟨u, v, -, -, hgate⟩ := runUpdate_eq_ok h
  · rfl
  · exact hgate

theorem gate_of_runUpdates {us : List Node} {s₁ s₂ : Registry}
    (h : runUpdates scopes us s₁ = .ok () s₂) : s₂.gate = s₁.gate := by
  induction us generalizing s₁ with
  | nil =>
    cases h
    rfl
  | cons u us ih =>
    obtain ⟨_, s₃, hu, h⟩ := bind_eq_ok.mp h
    rw [ih h, (probe_eq_ok hu).2]

theorem worldAfter_emitted (effect : Effect) (plans : Dict Nat CasePlan) (index : Nat)
    (plan : CasePlan) (w : Frame) :
    worldAfter effect (emitted plans index plan) w = worldAfter effect plan.statements w := by
  unfold emitted worldAfter
  split
  · rw [List.foldl_map]
    simp only [Node.unnumbered_unnumbered]
  · rfl

/-- A falsy discriminant after the first dispatch ends a loop as an unmatched one does. -/
def FalsyEnds (loop : Loop) (scopes : ScopeChain) (e : Evaluation) : Prop :=
  e.stage = .discriminant true → ∀ v m, e.stage.code loop scopes nestingLimit e.machine = .ok v m →
    toBoolean v = false → caseFor? loop v = none ∧ loop.closing = true

theorem mem_headEvaluations_test {started : Bool} {s₁ : Registry} {t : Node}
    (h : loop.test = some t) :
    ⟨.test t, s₁.machine.renewed⟩ ∈ headEvaluations loop scopes started s₁ := by
  simp [headEvaluations, h]

theorem mem_headEvaluations_discriminant {started : Bool} {s₁ s₂ : Registry}
    (h : testFails loop scopes s₁ = .ok false s₂) :
    ⟨.discriminant started, s₂.machine.renewed⟩ ∈ headEvaluations loop scopes started s₁ := by
  simp [headEvaluations, h]

/-- A round that the trial ends. -/
theorem round_of_none {n body switch : Node} (hshape : Shape n loop body switch)
    (hvalues : tests loop.cases = .ok values) (names : List Text) {started : Bool}
    {s₁ s₂ : Registry} (h : nextCase loop values scopes started s₁ = .ok none s₂)
    (hquiet : ∀ e ∈ headEvaluations loop scopes started s₁, e.Undisturbed loop scopes s)
    (hfalsy : ∀ e ∈ headEvaluations loop scopes started s₁, FalsyEnds loop scopes e) :
    ∃ cost, KeepsStep s scopes s₁.machine s₂.machine cost
      (fun world effect depth c => loopRound (loopEvaluator names world effect (depth + 2)) loop body c)
      (.ok false) [] := by
  have hquietTest : ∀ t, loop.test = some t →
      Evaluation.Undisturbed loop scopes s ⟨.test t, s₁.machine.renewed⟩ :=
    fun t ht => hquiet _ (mem_headEvaluations_test ht)
  cases nextCase_eq_ok h with
  | testFails htest => exact round_of_testFails names htest hquietTest
  | @ends s₃ v htest hcode _ hstarted hend =>
    have hmem : ⟨.discriminant started, s₃.machine.renewed⟩ ∈
        headEvaluations loop scopes started s₁ := mem_headEvaluations_discriminant htest
    have hnone : values.findIdx? (strictEquals v) = none ∧ loop.closing = true := by
      obtain hfalse | hnone := hend
      · subst hstarted
        have hends := hfalsy _ hmem rfl v _ hcode hfalse
        simpa [caseFor?, hvalues] using hends
      · exact hnone
    obtain ⟨cost, hswitch⟩ := switch_none names hshape.form hshape.discriminant hshape.cases
      (tests_eq_ok hvalues)
      (hquiet _ hmem) hcode hnone.1
    have hround := round_of_body s₂ (testFails_eq_ok htest) hquietTest
      (body_keepsStep hshape.inner hshape.form hswitch) (by simp [hnone.2])
    simpa [hnone.2] using hround

/-- A round in which the trial takes a case. -/
theorem round_of_some {n body switch : Node} (hshape : Shape n loop body switch)
    (hvalues : tests loop.cases = .ok values) {started : Bool} {index : Nat}
    {plan : CasePlan} {gate : Gate} {s₁ s₂ s₃ : Registry} (s₄ : Registry)
    (h : nextCase loop values scopes started s₁ = .ok (some index) s₂)
    (hplan : CasePlan.ofCase gate names (loop.cases.getD index (.leaf .hole))
      (index + 1 == loop.cases.length) = .ok plan)
    (hupdates : runUpdates scopes plan.updates s₂ = .ok () s₃)
    (hafter : if leaves loop plan then s₄ = s₃ else runUpdate loop scopes s₃ = .ok () s₄)
    (hquiet : ∀ e ∈ headEvaluations loop scopes started s₁, e.Undisturbed loop scopes s)
    (hquiet' : ∀ e ∈ caseEvaluations loop scopes plan s₂, e.Undisturbed loop scopes s) :
    ∃ cost, KeepsStep s scopes s₁.machine s₄.machine cost
      (fun world effect depth c => loopRound (loopEvaluator names world effect (depth + 2)) loop body c)
      (.ok !leaves loop plan) plan.statements := by
  have hquietTest : ∀ t, loop.test = some t →
      Evaluation.Undisturbed loop scopes s ⟨.test t, s₁.machine.renewed⟩ :=
    fun t ht => hquiet _ (mem_headEvaluations_test ht)
  cases nextCase_eq_ok h with
  | @takes s₀ v _ htest hcode _ hfind =>
    have hmem : ⟨.discriminant started, s₀.machine.renewed⟩ ∈
        headEvaluations loop scopes started s₁ := mem_headEvaluations_discriminant htest
    obtain ⟨cost, hswitch⟩ := switch_some hshape.form hshape.discriminant hshape.cases
      (tests_eq_ok hvalues)
      (hquiet _ hmem) hcode hfind hplan hupdates
      fun e he => hquiet' e (List.mem_append_left _ he)
    refine round_of_body s₄ (testFails_eq_ok htest) hquietTest
      (body_keepsStep hshape.inner hshape.form hswitch) ?_
    show if leaves loop plan then _ else _
    cases hleaves : leaves loop plan with
    | true => simpa [hleaves] using hafter
    | false =>
      simp only [hleaves, Bool.false_eq_true, if_false] at hafter ⊢
      refine ⟨hafter, fun u hu => hquiet' _ ?_⟩
      simp [caseEvaluations, hleaves, hu, after_of_ok hupdates]

/-- The trial of a loop from a test on gives the statements that the rounds of the loop execute. -/
theorem run_keepsStep {n body switch : Node} (hshape : Shape n loop body switch)
    (hvalues : tests loop.cases = .ok values) {fuel : Nat} {started : Bool}
    {plans : Dict Nat CasePlan} {output out : List Node} {s₁ s₂ : Registry}
    (hplans : Remembers s₁.gate loop names plans)
    (hrun : run loop names values scopes fuel started plans output s₁ = .ok out s₂)
    (hquiet : ∀ e ∈ evaluations loop names values scopes fuel started plans s₁,
      e.Undisturbed loop scopes s)
    (hfalsy : ∀ e ∈ evaluations loop names values scopes fuel started plans s₁,
      FalsyEnds loop scopes e) :
    ∃ rest cost, out = output.reverse ++ rest ∧ ∀ rounds, cost ≤ rounds →
      KeepsStep s scopes s₁.machine s₂.machine cost
        (fun world effect depth c =>
          Run.rounds (loopRound (loopEvaluator names world effect (depth + 2)) loop body c) rounds)
        (.ok ()) rest := by
  induction fuel generalizing started plans output s₁ with
  | zero =>
    obtain ⟨next, s₃, hnext, hrun⟩ := bind_eq_ok.mp hrun
    cases next with
    | some index => cases hrun
    | none =>
      cases hrun
      obtain ⟨cost, hround⟩ := round_of_none hshape hvalues names hnext hquiet hfalsy
      refine ⟨[], cost + 1, by simp, fun rounds hrounds => ?_⟩
      exact (rounds_of_last hround (by omega)).generous (Nat.le_succ cost)
  | succ fuel ih =>
    obtain ⟨next, s₃, hnext, hrun⟩ := bind_eq_ok.mp hrun
    unfold evaluations at hquiet hfalsy
    rw [hnext] at hquiet hfalsy
    cases next with
    | none =>
      cases hrun
      obtain ⟨cost, hround⟩ := round_of_none hshape hvalues names hnext
        (fun e he => hquiet e (List.mem_append_left _ he))
        (fun e he => hfalsy e (List.mem_append_left _ he))
      refine ⟨[], cost + 1, by simp, fun rounds hrounds => ?_⟩
      exact (rounds_of_last hround (by omega)).generous (Nat.le_succ cost)
    | some index =>
      obtain ⟨plan, s₄, hplan, hrest⟩ := bind_eq_ok.mp hrun
      obtain ⟨_, s₅, hupdates, hends⟩ := bind_eq_ok.mp hrest
      simp only [hplan] at hquiet hfalsy
      have hgate := gate_of_nextCase hnext
      rw [← hgate] at hplans
      obtain ⟨rfl, hcase⟩ := planOf_eq_ok hplans hplan
      have hemitted : ∀ effect w, worldAfter effect (emitted plans index plan) w =
          worldAfter effect plan.statements w :=
        fun effect w => worldAfter_emitted effect plans index plan w
      have hquietHead : ∀ e ∈ headEvaluations loop scopes started s₁,
          e.Undisturbed loop scopes s := fun e he => hquiet e (List.mem_append_left _ he)
      have hquietCase : ∀ e ∈ caseEvaluations loop scopes plan s₄, e.Undisturbed loop scopes s :=
        fun e he => hquiet e (List.mem_append_right _ (List.mem_append_left _ he))
      cases hleaves : leaves loop plan with
      | true =>
        have hleft : (loop.closing && !plan.continues) = true := hleaves
        rw [hleft] at hends
        cases hends
        obtain ⟨cost, hround⟩ := round_of_some hshape hvalues s₂ hnext hcase hupdates
          (by simp [hleaves]) hquietHead hquietCase
        rw [hleaves] at hround
        refine ⟨emitted plans index plan, cost + 1, by simp, fun rounds hrounds => ?_⟩
        exact ((rounds_of_last hround (by omega)).generous (Nat.le_succ cost)).relabel hemitted
      | false =>
        have hstays : (loop.closing && !plan.continues) = false := hleaves
        rw [hstays] at hends
        obtain ⟨_, s₆, hupdate, hgoes⟩ := bind_eq_ok.mp hends
        have hafter : after (do runUpdates scopes plan.updates; runUpdate loop scopes) s₄ = s₆ :=
          after_of_ok (bind_eq_ok.mpr ⟨(), s₅, hupdates, hupdate⟩)
        simp only [hleaves, Bool.false_eq_true, if_false, hafter] at hquiet hfalsy
        obtain ⟨cost, hround⟩ := round_of_some hshape hvalues s₆ hnext hcase hupdates
          (by simpa [hleaves] using hupdate) hquietHead hquietCase
        rw [hleaves] at hround
        have hplans' : Remembers s₆.gate loop names (plans.put index plan) := by
          rw [gate_of_runUpdate hupdate, gate_of_runUpdates hupdates]
          exact hplans.put hcase
        obtain ⟨rest, cost', hout, hrounds⟩ := ih hplans' hgoes
          (fun e he => hquiet e (List.mem_append_right _ (List.mem_append_right _ he)))
          (fun e he => hfalsy e (List.mem_append_right _ (List.mem_append_right _ he)))
        refine ⟨emitted plans index plan ++ rest, cost + cost' + 1, ?_, fun rounds hcost => ?_⟩
        · rw [hout]
          simp
        · obtain ⟨rounds, rfl⟩ : ∃ k, rounds = k + 1 := ⟨rounds - 1, by omega⟩
          exact (rounds_of_more (hround.relabel hemitted) (hrounds rounds (by omega))).generous
            (Nat.le_succ _)

end

end Untangle.Dispatch
