import Mathlib.Data.List.TakeWhile
import Untangle.Proofs.Dispatch.Observed
import Untangle.Proofs.Sandbox.Literal

set_option autoImplicit false

/-!
# One round of a dispatch loop

A round of the run: it tests, evaluates the discriminant, finds the case, executes the statements of the
case and leaves it by a jump or at its end.  Each part is shown to keep step with the trial.
-/

namespace Untangle.Dispatch

open Sandbox Pairing

/-! ## Cases -/

/-- The cases that a `switch` executes are those from the first one that tests for the value on. -/
theorem matchingCases_of_testsFor (ev : Evaluator) (v : Value) (c : ScopeChain) {cases : List Node}
    {values : List Value} {m : Machine}
    (hev : ∀ t w m, isLiteral t = true → denotedValue t = .ok w → m.steps + 2 ≤ m.maxSteps →
      ∃ a ≤ 2, ev.expression t c m = .ok w { m with steps := m.steps + a })
    (htests : List.Forall₂ TestsFor cases values)
    (hroom : m.steps + 2 * cases.length ≤ m.maxSteps) :
    ∃ a ≤ 2 * cases.length, Run.matchingCases ev v c cases m =
      .ok ((values.findIdx? (strictEquals v)).map cases.drop)
        { m with steps := m.steps + a } := by
  induction htests generalizing m with
  | nil => exact ⟨0, Nat.le_refl _, rfl⟩
  | @cons k w cases values hk _ ih =>
    obtain ⟨t, ht, hlit, hw⟩ := hk
    rw [List.length_cons] at hroom
    obtain ⟨a, ha, hrun⟩ := hev t w m hlit hw (by omega)
    unfold Run.matchingCases
    simp only [ht]
    rw [bind_of_ok hrun, List.findIdx?_cons]
    cases heq : strictEquals v w with
    | true =>
      refine ⟨a, by rw [List.length_cons]; omega, ?_⟩
      rfl
    | false =>
      have hroom' : ({ m with steps := m.steps + a } : Machine).steps + 2 * cases.length ≤
          ({ m with steps := m.steps + a } : Machine).maxSteps := by
        simp only
        omega
      obtain ⟨b, hb, hrest⟩ := ih hroom'
      refine ⟨a + b, by rw [List.length_cons]; omega, ?_⟩
      simp only [Bool.false_eq_true, if_false]
      rw [hrest, Nat.add_assoc, Option.map_map]
      rfl

/-- The limits of a run leave room for some steps and for what a sandbox allows a trial. -/
structure Room (s : Registry) (limits : Limits) (m' : Machine) (cost : Nat) : Prop where
  steps : m'.steps + cost + s.machine.maxSteps ≤ limits.steps
  depth : s.machine.maxDepth ≤ limits.depth

theorem Room.later {s : Registry} {limits : Limits} {m' m₁' : Machine} {cost rest : Nat}
    (h : Room s limits m' (cost + rest)) (hle : m₁'.steps ≤ m'.steps + cost) :
    Room s limits m₁' rest := by
  refine ⟨?_, h.depth⟩
  have := h.steps
  omega

theorem Room.fewer {s : Registry} {limits : Limits} {m' : Machine} {cost cost' : Nat}
    (h : Room s limits m' cost) (hle : cost' ≤ cost) : Room s limits m' cost' := by
  refine ⟨?_, h.depth⟩
  have := h.steps
  omega

theorem form_of_isUpdate {names : List Text} {n : Node} (h : isUpdate names n = true) :
    ∃ d, n.form = .expressionStatement d := by
  unfold isUpdate at h
  split at h
  · next hform _ => exact ⟨_, hform⟩
  · cases h

/-- Statements that are expressions declare nothing, so that they may run in any chain. -/
theorem follows_expressionStatement {σ : Pairing} {ls : Links} {n : Node} {d : Option Text}
    {c c' : ScopeChain} (hform : n.form = .expressionStatement d) (hc : Chains σ ls c c')
    (depth : Nat) :
    Follows σ ls Same ((evaluator depth).statement n c) ((evaluator depth).statement n c') := by
  cases depth with
  | zero => exact .stop (.same _)
  | succ depth =>
    show Follows σ ls Same (Run.executeStatement (evaluator depth) n c)
      (Run.executeStatement (evaluator depth) n c')
    unfold Run.executeStatement
    rw [hform]
    exact Follows.tick.andThen fun _ _ hext =>
      (evaluator_faithful depth).partThen (hc.mono hext) n .expression fun _ _ _ => .ret ()

/-- What a list of statements does to a world. -/
def worldAfter (effect : Effect) (ns : List Node) (w : Frame) : Frame :=
  ns.foldl (fun w n => effect n.unnumbered w) w

/-- A result or a stop, with the machine that it leaves. -/
def ended {α : Type} (r : Except Abrupt α) (m : Machine) : EStateM.Result Abrupt Machine α :=
  match r with
  | .ok a => .ok a m
  | .error e => .error e m

/-- A part of the run keeps step with the trial, which gets from one machine to another: it ends in a
given way and does to the world what a list of statements does. -/
def KeepsStep {α : Type} (s : Registry) (scopes : ScopeChain) (m m₁ : Machine) (cost : Nat)
    (code : FrameId → Effect → Nat → ScopeChain → Run α) (r : Except Abrupt α) (ns : List Node) :
    Prop :=
  ∀ (limits : Limits) (world : FrameId) (effect : Effect) (chains : List ScopeChain)
    (c : ScopeChain) (depth : Nat) (m' : Machine), c ∈ chains → nestingLimit ≤ depth →
    InStep limits world scopes chains m m' → Room s limits m' cost →
    ∃ m₁', code world effect depth c m' = ended r m₁' ∧
      InStep limits world scopes chains m₁ m₁' ∧ m₁'.steps ≤ m'.steps + cost ∧
      m₁'.frame world = worldAfter effect ns (m'.frame world)

/-- The statements of a case before its end: those that set dispatch variables keep step with the trial,
the others act on the world. -/
theorem runAll_kept {loop : Loop} {names : List Text} {s s₁ s₂ : Registry} {scopes : ScopeChain}
    {ns : List Node} (hjumps : ∀ n ∈ ns, isBareBreak n = false ∧ isBareContinue n = false)
    (hrun : runUpdates scopes (ns.filter (isUpdate names)) s₁ = .ok () s₂)
    (hquiet : ∀ e ∈ updateEvaluations scopes (ns.filter (isUpdate names)) s₁,
      e.Undisturbed loop scopes s) :
    ∃ cost, ∀ (limits : Limits) (world : FrameId) (effect : Effect) (chains : List ScopeChain)
      (c : ScopeChain) (depth : Nat) (m' : Machine) (rest : List Node), c ∈ chains →
      nestingLimit ≤ depth → InStep limits world scopes chains s₁.machine m' →
      Room s limits m' cost →
      ∃ m₁', Run.runAll (caseEvaluator names world effect depth) c (ns ++ rest) m' =
          Run.runAll (caseEvaluator names world effect depth) c rest m₁' ∧
        InStep limits world scopes chains s₂.machine m₁' ∧ m₁'.steps ≤ m'.steps + cost ∧
        m₁'.frame world =
          worldAfter effect (ns.filter fun n => !isUpdate names n) (m'.frame world) := by
  induction ns generalizing s₁ with
  | nil =>
    cases hrun
    exact ⟨0, fun _ _ _ _ _ _ m' _ _ _ hstep _ => ⟨m', rfl, hstep, Nat.le_refl _, rfl⟩⟩
  | cons n ns ih =>
    have hjumps' := fun k hk => hjumps k (List.mem_cons_of_mem n hk)
    cases hupdate : isUpdate names n with
    | true =>
      rw [List.filter_cons_of_pos hupdate] at hrun hquiet
      obtain ⟨_, s₃, hexecute, hrest⟩ := bind_eq_ok.mp hrun
      obtain ⟨hcode, -⟩ := execute_eq_ok loop hupdate hexecute
      have hafter : after (probe (Run.execute n scopes)) s₁ = s₃ := after_of_ok hexecute
      unfold updateEvaluations at hquiet
      rw [hafter] at hquiet
      obtain ⟨cost, hcost⟩ := ih hjumps' hrest fun e he => hquiet e (List.mem_cons_of_mem _ he)
      refine ⟨s₃.machine.steps + cost, ?_⟩
      intro limits world effect chains c depth m' rest hc hdepth hstep hroom
      obtain ⟨d, hform⟩ := form_of_isUpdate hupdate
      have hfirst := hroom.fewer (Nat.le_add_right s₃.machine.steps cost)
      obtain ⟨m₁', hrun', hstep', hused, hworld⟩ :=
        hstep.evaluate (do (evaluator depth).statement n c; return .undefined)
          (hquiet _ List.mem_cons_self) hcode
          (fun σ ls hchains => (follows_expressionStatement hform (hchains c hc) depth).andThen
            fun _ _ _ => .ret _) hfirst.steps hfirst.depth hdepth
      obtain ⟨_, m₂', hstatement, hend⟩ := bind_eq_ok.mp hrun'
      cases hend
      obtain ⟨m₂', hrest', hstep'', hused', hworld'⟩ :=
        hcost _ _ effect _ c depth _ rest hc hdepth hstep' (hroom.later (Nat.le_of_eq hused))
      refine ⟨m₂', ?_, hstep'', by omega, ?_⟩
      · have hsteers : steers names n = true := by simp [steers, hupdate]
        have hcase : (caseEvaluator names world effect depth).statement n c m' = .ok () m₁' := by
          simp only [caseEvaluator, hsteers, if_true]
          exact hstatement
        rw [List.cons_append, Run.runAll, bind_of_ok hcase]
        exact hrest'
      · rw [hworld', hworld, List.filter_cons_of_neg (by simp [hupdate])]
    | false =>
      rw [List.filter_cons_of_neg (by simp [hupdate])] at hrun hquiet
      obtain ⟨cost, hcost⟩ := ih hjumps' hrun hquiet
      refine ⟨cost, ?_⟩
      intro limits world effect chains c depth m' rest hc hdepth hstep hroom
      obtain ⟨hbreak, hcontinue⟩ := hjumps n List.mem_cons_self
      have hsteers : steers names n = false := by simp [steers, hupdate, hbreak, hcontinue]
      obtain ⟨hstep', hworld⟩ := hstep.act (effect n.unnumbered)
      have hroom' : Room s limits { m' with
          frames := m'.frames.modify world (effect n.unnumbered) } cost :=
        ⟨hroom.steps, hroom.depth⟩
      obtain ⟨m₂', hrest', hstep'', hused', hworld'⟩ :=
        hcost _ _ effect _ c depth _ rest hc hdepth hstep' hroom'
      refine ⟨m₂', ?_, hstep'', hused', ?_⟩
      · have hcase : (caseEvaluator names world effect depth).statement n c m' =
            .ok () { m' with frames := m'.frames.modify world (effect n.unnumbered) } := by
          simp only [caseEvaluator, hsteers, Bool.false_eq_true, if_false]
          rfl
        rw [List.cons_append, Run.runAll, bind_of_ok hcase]
        exact hrest'
      · rw [hworld', hworld, List.filter_cons_of_pos (by simp [hupdate])]
        rfl

/-! ## Ends of cases -/

theorem jump_of_isBareBreak {ev : Evaluator} {n : Node} {c : ScopeChain} {m : Machine}
    (h : isBareBreak n = true) (hroom : m.steps < m.maxSteps) :
    Run.executeStatement ev n c m = .error .broken { m with steps := m.steps + 1 } := by
  unfold isBareBreak at h
  split at h
  · next hform =>
    unfold Run.executeStatement
    rw [bind_of_ok (tick_of_room hroom)]
    have hlabel : (n.child? .label).isSome = false := by simpa using h
    simp only [hform, Run.runJump, hlabel, Bool.false_eq_true, if_false]
    rfl
  · cases h

theorem jump_of_isBareContinue {ev : Evaluator} {n : Node} {c : ScopeChain} {m : Machine}
    (h : isBareContinue n = true) (hroom : m.steps < m.maxSteps) :
    Run.executeStatement ev n c m = .error .continued { m with steps := m.steps + 1 } := by
  unfold isBareContinue at h
  split at h
  · next hform =>
    unfold Run.executeStatement
    rw [bind_of_ok (tick_of_room hroom)]
    have hlabel : (n.child? .label).isSome = false := by simpa using h
    simp only [hform, Run.runJump, hlabel, Bool.false_eq_true, if_false]
    rfl
  · cases h

/-- What a `switch` makes of the end of its statements: a `break` ends the `switch` only. -/
def caught : EStateM.Result Abrupt Machine Unit → EStateM.Result Abrupt Machine Unit
  | .error .broken m => .ok () m
  | r => r

theorem tryCatch_eq_caught (c : Run Unit) (m : Machine) :
    (tryCatch c fun e =>
      match e with
      | .broken => return
      | e => throw e : Run Unit) m = caught (c m) := by
  show EStateM.tryCatch c _ m = _
  unfold EStateM.tryCatch
  cases c m with
  | ok a m₁ => rfl
  | error e m₁ => cases e <;> rfl

/-- How a `switch` ends after a case. -/
def caseOutcome (continues : Bool) : Except Abrupt Unit :=
  if continues then .error .continued else .ok ()

/-- The end of a case: a jump, or the end of the last case. -/
theorem runAll_ending (names : List Text) (s : Registry) (scopes : ScopeChain)
    {consequent kept later : List Node} {isLast continues : Bool}
    (hending : Ending consequent isLast kept continues) (hlater : isLast = true → later = []) :
    ∃ rest, consequent ++ later = kept ++ rest ∧
      ∀ (limits : Limits) (world : FrameId) (effect : Effect) (chains : List ScopeChain)
        (c : ScopeChain) (depth : Nat) (m m' : Machine), nestingLimit ≤ depth →
        InStep limits world scopes chains m m' → Room s limits m' 1 →
        ∃ m₁', caught (Run.runAll (caseEvaluator names world effect depth) c rest m') =
            ended (caseOutcome continues) m₁' ∧
          InStep limits world scopes chains m m₁' ∧ m₁'.steps ≤ m'.steps + 1 ∧
          m₁'.frame world = m'.frame world := by
  -- A jump ends the run of the statements after one more step.
  have hjump : ∀ {j : Node} {e : Abrupt} {continues : Bool} {rest : List Node},
      steers names j = true →
      (∀ (ev : Evaluator) (c : ScopeChain) (m : Machine), m.steps < m.maxSteps →
        Run.executeStatement ev j c m = .error e { m with steps := m.steps + 1 }) →
      (∀ m, caught (.error e m) = ended (caseOutcome continues) m) →
      ∀ (limits : Limits) (world : FrameId) (effect : Effect) (chains : List ScopeChain)
        (c : ScopeChain) (depth : Nat) (m m' : Machine), nestingLimit ≤ depth →
        InStep limits world scopes chains m m' → Room s limits m' 1 →
        ∃ m₁', caught (Run.runAll (caseEvaluator names world effect depth) c (j :: rest) m') =
            ended (caseOutcome continues) m₁' ∧
          InStep limits world scopes chains m m₁' ∧ m₁'.steps ≤ m'.steps + 1 ∧
          m₁'.frame world = m'.frame world := by
    intro j e continues rest hsteers hexecute hcaught limits world effect chains c depth m m' hdepth
      hstep hroom
    have hle : m'.steps + 1 ≤ limits.steps := by
      have := hroom.steps
      omega
    have hmax := hstep.maxSteps (Nat.le_of_succ_le hle)
    obtain ⟨depth, rfl⟩ : ∃ k, depth = k + 1 :=
      ⟨depth - 1, by have : 0 < nestingLimit := by decide
                     omega⟩
    have hstatement : (caseEvaluator names world effect (depth + 1)).statement j c m' =
        .error e { m' with steps := m'.steps + 1 } := by
      simp only [caseEvaluator, hsteers, if_true]
      exact hexecute (evaluator depth) c m' (by omega)
    refine ⟨{ m' with steps := m'.steps + 1 }, ?_, hstep.spend hle, Nat.le_refl _, rfl⟩
    rw [Run.runAll, bind_of_error hstatement]
    exact hcaught _
  cases hending with
  | @continues j hbody hcontinue =>
    refine ⟨j :: later, by rw [hbody]; simp, hjump (e := .continued)
      (by simp [steers, hcontinue]) ?_ fun _ => rfl⟩
    exact fun ev c m hroom => jump_of_isBareContinue hcontinue hroom
  | @breaks j hbody hbreak =>
    refine ⟨j :: later, by rw [hbody]; simp, hjump (e := .broken)
      (by simp [steers, hbreak]) ?_ fun _ => rfl⟩
    exact fun ev c m hroom => jump_of_isBareBreak hbreak hroom
  | runsOut hbody hlast =>
    refine ⟨[], by rw [hbody, hlater hlast], ?_⟩
    intro limits world effect chains c depth m m' _ hstep _
    exact ⟨m', rfl, hstep, Nat.le_succ _, rfl⟩

/-! ## The switch -/

/-- A step of the run alone. -/
theorem InStep.tick {limits : Limits} {world : FrameId} {scopes : ScopeChain}
    {chains : List ScopeChain} {m m' : Machine} (h : InStep limits world scopes chains m m')
    (hle : m'.steps + 1 ≤ limits.steps) :
    Run.tick m' = .ok () { m' with steps := m'.steps + 1 } ∧
      InStep limits world scopes chains m { m' with steps := m'.steps + 1 } := by
  have hmax := h.maxSteps (Nat.le_of_succ_le hle)
  exact ⟨tick_of_room (by omega), h.spend hle⟩

/-- What a `switch` does with the cases that are taken. -/
def runTaken (ev : Evaluator) (c : ScopeChain) (taken : List Node) : Run Unit := do
  if taken.isEmpty then return
  let inner ← Run.blockScope c
  tryCatch (Run.runAll ev inner (taken.flatMap fun k => k.childrenAt .consequent)) fun e =>
    match e with
    | .broken => return
    | e => throw e

theorem testsFor_of_mem {cases : List Node} {values : List Value} {k : Node}
    (h : List.Forall₂ TestsFor cases values) (hk : k ∈ cases) : ∃ w, TestsFor k w := by
  induction h with
  | nil => cases hk
  | cons hw _ ih =>
    obtain rfl | hk := List.mem_cons.mp hk
    · exact ⟨_, hw⟩
    · exact ih hk

section

variable {loop : Loop} {s : Registry} {scopes : ScopeChain} {switch : Node} {values : List Value}

/-- The discriminant of the run and the search for a case. -/
theorem switch_head (names : List Text) {started : Bool} {s₁ s₂ : Registry} {v : Value}
    (hform : switch.form = .switchStatement)
    (hdisc : switch.child? .discriminant = some loop.discriminant)
    (hcases : switch.childrenAt .cases = loop.cases) (htests : List.Forall₂ TestsFor loop.cases values)
    (hquiet : Evaluation.Undisturbed loop scopes s ⟨.discriminant started, s₁.machine.renewed⟩)
    (hcode : (Stage.discriminant started).code loop scopes nestingLimit s₁.machine.renewed =
      .ok v s₂.machine)
    {limits : Limits} {world : FrameId} (effect : Effect) {chains : List ScopeChain}
    {c : ScopeChain} {depth : Nat} {m' : Machine} (hc : c ∈ chains) (hdepth : nestingLimit ≤ depth)
    (hstep : InStep limits world scopes chains s₁.machine m')
    (hroom : Room s limits m' (1 + s₂.machine.steps + 2 * loop.cases.length)) :
    ∃ m₁', Run.executeStatement (caseEvaluator names world effect depth) switch c m' =
        runTaken (caseEvaluator names world effect depth) c
          (((values.findIdx? (strictEquals v)).map loop.cases.drop).getD
            (Run.defaultCases loop.cases)) m₁' ∧
      InStep limits world scopes chains s₂.machine m₁' ∧
      m₁'.steps ≤ m'.steps + (1 + s₂.machine.steps + 2 * loop.cases.length) ∧
      m₁'.frame world = m'.frame world := by
  have hsteps := hroom.steps
  obtain ⟨htick, hstep₁⟩ := hstep.tick (by omega)
  obtain ⟨m₂', hrun, hstep₂, hused, hworld⟩ :=
    hstep₁.evaluate ((caseEvaluator names world effect depth).expression loop.discriminant c)
      hquiet hcode
      (fun σ ls hchains => (evaluator_faithful depth).expression σ ls _ scopes c (hchains c hc))
      (by simp only; omega) hroom.depth hdepth
  simp only at hused
  obtain ⟨depth, rfl⟩ : ∃ k, depth = k + 2 :=
    ⟨depth - 2, by have : 2 ≤ nestingLimit := by decide
                   omega⟩
  have hmax := hstep₂.maxSteps (by omega)
  obtain ⟨a, ha, hmatch⟩ := matchingCases_of_testsFor (m := m₂')
    (caseEvaluator names world effect (depth + 2)) v c
    (fun t w m hlit hw hroom => expression_of_isLiteral hlit hw hroom) htests (by omega)
  refine ⟨{ m₂' with steps := m₂'.steps + a }, ?_, hstep₂.spend (by omega), ?_, hworld⟩
  · unfold Run.executeStatement
    rw [bind_of_ok htick]
    simp only [hform]
    unfold Run.runSwitch
    rw [bind_of_ok (part_of_child? hdisc _)]
    rw [bind_of_ok hrun]
    simp only [hcases]
    rw [bind_of_ok hmatch]
    rfl
  · simp only
    omega

/-- How the body of a loop ends after a case. -/
def bodyOutcome (loop : Loop) (continues : Bool) : Except Abrupt Unit :=
  if continues then .error .continued else if loop.closing then .error .broken else .ok ()

/-- No case is taken. -/
theorem switch_none (names : List Text) {started : Bool} {s₁ s₂ : Registry} {v : Value}
    (hform : switch.form = .switchStatement)
    (hdisc : switch.child? .discriminant = some loop.discriminant)
    (hcases : switch.childrenAt .cases = loop.cases) (htests : List.Forall₂ TestsFor loop.cases values)
    (hquiet : Evaluation.Undisturbed loop scopes s ⟨.discriminant started, s₁.machine.renewed⟩)
    (hcode : (Stage.discriminant started).code loop scopes nestingLimit s₁.machine.renewed =
      .ok v s₂.machine)
    (hnone : values.findIdx? (strictEquals v) = none) :
    ∃ cost, KeepsStep s scopes s₁.machine s₂.machine cost
      (fun world effect depth c =>
        Run.executeStatement (caseEvaluator names world effect depth) switch c)
      (caseOutcome false) [] := by
  refine ⟨1 + s₂.machine.steps + 2 * loop.cases.length, ?_⟩
  intro limits world effect chains c depth m' hc hdepth hstep hroom
  obtain ⟨m₁', hrun, hrest⟩ :=
    switch_head names hform hdisc hcases htests hquiet hcode effect hc hdepth hstep hroom
  refine ⟨m₁', ?_, hrest⟩
  have hdefault : Run.defaultCases loop.cases = [] := by
    unfold Run.defaultCases
    rw [List.dropWhile_eq_nil_iff]
    intro k hk
    obtain ⟨w, t, ht, -⟩ := testsFor_of_mem htests hk
    simp [ht]
  show Run.executeStatement (caseEvaluator names world effect depth) switch c m' = _
  rw [hrun, hnone, Option.map_none, Option.getD_none, hdefault]
  rfl

/-- The taken cases run in a scope of their own. -/
theorem runTaken_cons (ev : Evaluator) (c : ScopeChain) (k : Node) (ks : List Node) (m : Machine) :
    runTaken ev c (k :: ks) m =
      caught (Run.runAll ev (m.frames.size :: c)
        (k.childrenAt .consequent ++ ks.flatMap fun k => k.childrenAt .consequent)
        { m with frames := m.frames.push blankFrame }) := by
  rw [← tryCatch_eq_caught]
  rfl

/-- A case is taken: its updates keep step with the trial, its other statements act on the world. -/
theorem switch_some {names : List Text} {started : Bool} {s₁ s₂ s₃ : Registry} {v : Value}
    {index : Nat} {plan : CasePlan} {gate : Gate} (hform : switch.form = .switchStatement)
    (hdisc : switch.child? .discriminant = some loop.discriminant)
    (hcases : switch.childrenAt .cases = loop.cases) (htests : List.Forall₂ TestsFor loop.cases values)
    (hquiet : Evaluation.Undisturbed loop scopes s ⟨.discriminant started, s₁.machine.renewed⟩)
    (hcode : (Stage.discriminant started).code loop scopes nestingLimit s₁.machine.renewed =
      .ok v s₂.machine)
    (hfind : values.findIdx? (strictEquals v) = some index)
    (hplan : CasePlan.ofCase gate names (loop.cases.getD index (.leaf .hole))
      (index + 1 == loop.cases.length) = .ok plan)
    (hupdates : runUpdates scopes plan.updates s₂ = .ok () s₃)
    (hquiet' : ∀ e ∈ updateEvaluations scopes plan.updates s₂, e.Undisturbed loop scopes s) :
    ∃ cost, KeepsStep s scopes s₁.machine s₃.machine cost
      (fun world effect depth c =>
        Run.executeStatement (caseEvaluator names world effect depth) switch c)
      (caseOutcome plan.continues) plan.statements := by
  obtain ⟨kept, hsplit, hending⟩ := ofCase_eq_ok hplan
  obtain ⟨hstatements, hkept, hjumps⟩ := split_eq_ok hsplit
  rw [hkept] at hupdates hquiet'
  -- The case is the first of those that are taken.
  have hlt : index < loop.cases.length := by
    have hvalues := (List.findIdx?_eq_some_iff_getElem.mp hfind).1
    rwa [← htests.length_eq] at hvalues
  have hdrop : loop.cases.drop index =
      loop.cases.getD index (.leaf .hole) :: loop.cases.drop (index + 1) := by
    rw [List.drop_eq_getElem_cons hlt, List.getD_eq_getElem?_getD, List.getElem?_eq_getElem hlt,
      Option.getD_some]
  have hlater : (index + 1 == loop.cases.length) = true →
      (loop.cases.drop (index + 1)).flatMap (fun k => k.childrenAt .consequent) = [] := by
    intro hlast
    rw [List.drop_eq_nil_of_le (Nat.le_of_eq (beq_iff_eq.mp hlast).symm)]
    rfl
  obtain ⟨rest, hrest, hend⟩ := runAll_ending names s scopes hending hlater
  obtain ⟨cost, hcost⟩ := runAll_kept hjumps hupdates hquiet'
  refine ⟨1 + s₂.machine.steps + 2 * loop.cases.length + (cost + 1), ?_⟩
  intro limits world effect chains c depth m' hc hdepth hstep hroom
  obtain ⟨m₁', hrun, hstep₁, hused₁, hworld₁⟩ :=
    switch_head names hform hdisc hcases htests hquiet hcode effect hc hdepth hstep
      (hroom.fewer (Nat.le_add_right _ _))
  obtain ⟨hstep₂, hworld₂⟩ := hstep₁.block hc
  have hroom₂ : Room s limits { m₁' with frames := m₁'.frames.push blankFrame } (cost + 1) := by
    have hroom₁ := hroom.later hused₁
    exact ⟨hroom₁.steps, hroom₁.depth⟩
  obtain ⟨m₃', hrun₃, hstep₃, hused₃, hworld₃⟩ :=
    hcost limits world effect _ _ depth _ rest List.mem_cons_self hdepth hstep₂
      (hroom₂.fewer (Nat.le_succ _))
  obtain ⟨m₄', hrun₄, hstep₄, hused₄, hworld₄⟩ :=
    hend limits world effect _ (m₁'.frames.size :: c) depth _ _ hdepth hstep₃ (hroom₂.later hused₃)
  refine ⟨m₄', ?_, hstep₄.fewer fun d hd => List.mem_cons_of_mem _ hd, ?_, ?_⟩
  · show Run.executeStatement (caseEvaluator names world effect depth) switch c m' = _
    rw [hrun, hfind, Option.map_some, Option.getD_some, hdrop, runTaken_cons, hrest, hrun₃]
    exact hrun₄
  · simp only at hused₃
    omega
  · rw [hworld₄, hworld₃, hworld₂, hworld₁, hstatements]

end

end Untangle.Dispatch
