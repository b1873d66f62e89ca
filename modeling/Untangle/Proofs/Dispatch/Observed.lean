import Untangle.Proofs.Dispatch.Plan
import Untangle.Proofs.Dispatch.Trial

set_option autoImplicit false

/-!
# Loops that run as a whole

A dispatch loop may be run as any other statement.  To tell which statements of its cases it executes,
those that have nothing to do with the dispatch are taken as single steps that change nothing but a
world, which is a scope that no code sees.

Such a run is compared with a trial of the loop.  The two are in step when their machines are paired
after the machine of the trial has been given the budget that the run has left.
-/

namespace Untangle.Dispatch

open Sandbox Pairing

/-! ## Observation -/

/-- What statements do to a world. -/
abbrev Effect := Node → Frame → Frame

/-- Whether a statement of a case concerns the dispatch: it sets dispatch variables, or it leaves the
case. -/
def steers (names : List Text) (n : Node) : Bool :=
  isUpdate names n || isBareBreak n || isBareContinue n

/-- A statement as a single step that changes the world. -/
def worldStep (world : FrameId) (effect : Effect) (n : Node) : Run Unit :=
  modify fun m => { m with frames := m.frames.modify world (effect n.unnumbered) }

/-- The meaning of the statements of a case. -/
def caseEvaluator (names : List Text) (world : FrameId) (effect : Effect) (depth : Nat) : Evaluator :=
  { evaluator depth with
    statement := fun n scopes =>
      if steers names n then (evaluator depth).statement n scopes else worldStep world effect n }

/-- The meaning of code in which the cases of `switch` statements act on a world. -/
def loopEvaluator (names : List Text) (world : FrameId) (effect : Effect) : Nat → Evaluator
  | 0 => evaluator 0
  | depth + 1 =>
    { evaluator (depth + 1) with
      statement := fun n scopes =>
        if isSwitch n then Run.executeStatement (caseEvaluator names world effect depth) n scopes
        else Run.executeStatement (loopEvaluator names world effect depth) n scopes }

/-- Limits of a run. -/
structure Limits where
  steps : Nat
  depth : Nat
  nesting : Nat

/-- A machine with a world as its last scope, and with limits of its own. -/
def withWorld (m : Machine) (w : Frame) (limits : Limits) : Machine :=
  { m with
    frames := m.frames.push w, steps := 0, depth := 0, maxSteps := limits.steps
    maxDepth := limits.depth }

/-- The run of a loop in scopes of its own, observed through its effect on a world. -/
def observe (names : List Text) (effect : Effect) (n : Node) (m : Machine) (w : Frame)
    (limits : Limits) : EStateM.Result Abrupt Machine Unit :=
  (do
    let scopes ← Run.scratch
    (loopEvaluator names m.frames.size effect limits.nesting).statement n scopes)
    (withWorld m w limits)

theorem loopEvaluator_expression (names : List Text) (world : FrameId) (effect : Effect)
    (depth : Nat) : (loopEvaluator names world effect depth).expression = (evaluator depth).expression := by
  cases depth <;> rfl

/-! ## Runs in step with a trial -/

/-- The machine of a trial with the budget that a run has left. -/
def paced (m : Machine) (limits : Limits) (used : Nat) : Machine :=
  { m with steps := 0, depth := 0, maxSteps := limits.steps - used, maxDepth := limits.depth }

/-- A run is in step with a trial: their machines are paired, and code of the trial sees the same
variables as code of the run in some chains. -/
def InStep (limits : Limits) (world : FrameId) (scopes : ScopeChain) (chains : List ScopeChain)
    (m m' : Machine) : Prop :=
  ∃ σ ls, Related σ ls (paced m limits m'.steps) m' ∧ (∀ c ∈ chains, Chains σ ls scopes c) ∧
    world ∉ σ.blanks ∧ (world, m'.frame world) ∈ σ.kept

variable {limits : Limits} {world : FrameId} {scopes : ScopeChain} {chains : List ScopeChain}
  {m m' : Machine}

namespace InStep

theorem maxSteps (h : InStep limits world scopes chains m m') (hle : m'.steps ≤ limits.steps) :
    m'.maxSteps = limits.steps := by
  obtain ⟨σ, ls, hrel, -⟩ := h
  have hsteps := hrel.steps
  have hbudget := hrel.budget
  have hbudget' := hrel.budget'
  simp only [paced] at hsteps hbudget
  omega

theorem fewer {chains' : List ScopeChain} (h : InStep limits world scopes chains m m')
    (hsub : chains' ⊆ chains) : InStep limits world scopes chains' m m' := by
  obtain ⟨σ, ls, hrel, hchains, hworld⟩ := h
  exact ⟨σ, ls, hrel, fun c hc => hchains c (hsub hc), hworld⟩

/-- The run spends steps that the trial does not. -/
theorem spend (h : InStep limits world scopes chains m m') {steps : Nat}
    (hle : m'.steps + steps ≤ limits.steps) :
    InStep limits world scopes chains m { m' with steps := m'.steps + steps } := by
  have hmax := h.maxSteps (by omega)
  obtain ⟨σ, ls, hrel, hchains, hblank, hkept⟩ := h
  have hrel' := hrel.retime (m'.steps + steps) (limits.steps - (m'.steps + steps)) (by omega)
  exact ⟨_, ls, hrel', fun c hc => (hchains c hc).adapt rfl fun _ hg => hg, hblank, hkept⟩

/-- The run gets an empty scope in front of a chain. -/
theorem block (h : InStep limits world scopes chains m m') {c : ScopeChain} (hc : c ∈ chains) :
    InStep limits world scopes ((m'.frames.size :: c) :: chains) m
        { m' with frames := m'.frames.push blankFrame } ∧
      ({ m' with frames := m'.frames.push blankFrame } : Machine).frame world = m'.frame world := by
  obtain ⟨σ, ls, hrel, hchains, hblank, hkept⟩ := h
  have hlt := (hrel.kept hkept).1
  have hworld : ({ m' with frames := m'.frames.push blankFrame } : Machine).frame world =
      m'.frame world := by
    rw [frame_push, if_neg (Nat.ne_of_lt hlt)]
  refine ⟨⟨_, ls, hrel.blank, ?_, ?_, ?_⟩, hworld⟩
  · have hold : ∀ d ∈ chains, Chains (σ.blanking m'.frames.size) ls scopes d :=
      fun d hd => (hchains d hd).adapt rfl fun _ hg => List.mem_cons_of_mem _ hg
    intro d hd
    obtain rfl | hd := List.mem_cons.mp hd
    · exact .blank List.mem_cons_self (hold c hc)
    · exact hold d hd
  · intro hmem
    obtain heq | hmem := List.mem_cons.mp hmem
    · exact Nat.ne_of_lt hlt heq
    · exact hblank hmem
  · rw [hworld]
    exact List.mem_cons_of_mem _ hkept

/-- A statement acts on the world. -/
theorem act (h : InStep limits world scopes chains m m') (g : Frame → Frame) :
    InStep limits world scopes chains m { m' with frames := m'.frames.modify world g } ∧
      ({ m' with frames := m'.frames.modify world g } : Machine).frame world =
        g (m'.frame world) := by
  obtain ⟨σ, ls, hrel, hchains, hblank, hkept⟩ := h
  have hworld : ({ m' with frames := m'.frames.modify world g } : Machine).frame world =
      g (m'.frame world) := by
    rw [frame_modify, if_pos ⟨rfl, (hrel.kept hkept).1⟩]
  refine ⟨⟨_, ls, hrel.record hkept hblank g, ?_, hblank, ?_⟩, hworld⟩
  · exact fun c hc => (hchains c hc).adapt rfl fun _ hg => hg
  · rw [hworld]
    exact List.mem_cons_self

/-- After code has run on both machines, the trial begins to count anew. -/
theorem of_related {σ : Pairing} {ls : Links} {used : Nat}
    (hrel : Related σ ls (withLimits m (limits.steps - used) limits.depth) m') (hshift : σ.shift = used)
    (hdepth : σ.depth = 0) (hroom : used + m.steps ≤ limits.steps)
    (hchains : ∀ c ∈ chains, Chains σ ls scopes c) (hblank : world ∉ σ.blanks)
    (hkept : (world, m'.frame world) ∈ σ.kept) :
    m'.steps = used + m.steps ∧ InStep limits world scopes chains m m' := by
  have hsteps : m'.steps = m.steps + σ.shift := hrel.steps
  have hbudget : limits.steps - used = σ.budget := hrel.budget
  have hbudget' := hrel.budget'
  have hzero : m.depth = 0 := hrel.depth.trans hdepth
  have hnext := hrel.retime m'.steps (limits.steps - m'.steps) (by omega)
  have hpaced : ({ withLimits m (limits.steps - used) limits.depth with
      steps := 0, maxSteps := limits.steps - m'.steps } : Machine) = paced m limits m'.steps := by
    simp only [withLimits, paced, hzero]
  rw [hpaced] at hnext
  refine ⟨by omega, _, ls, hnext, ?_, hblank, hkept⟩
  exact fun c hc => (hchains c hc).adapt rfl fun _ hg => hg

/-- What the trial evaluates, the run evaluates in the same way. -/
theorem evaluate {loop : Loop} {s : Registry} {stage : Stage} {v : Value} {m₁ : Machine}
    {depth : Nat} (h : InStep limits world scopes chains m m') (code : Run Value)
    (hquiet : Evaluation.Undisturbed loop scopes s ⟨stage, m.renewed⟩)
    (hrun : stage.code loop scopes nestingLimit m.renewed = .ok v m₁)
    (hfollows : ∀ σ ls, (∀ c ∈ chains, Chains σ ls scopes c) →
      Follows σ ls Same (stage.code loop scopes depth) code)
    (hsteps : m'.steps + m₁.steps + s.machine.maxSteps ≤ limits.steps)
    (hdepth : s.machine.maxDepth ≤ limits.depth) (hnesting : nestingLimit ≤ depth) :
    ∃ m₁', code m' = .ok v m₁' ∧ InStep limits world scopes chains m₁ m₁' ∧
      m₁'.steps = m'.steps + m₁.steps ∧ m₁'.frame world = m'.frame world := by
  obtain ⟨σ, ls, hrel, hchains, hblank, hkept⟩ := h
  have hshift : σ.shift = m'.steps := by
    have hsteps : m'.steps = 0 + σ.shift := hrel.steps
    omega
  have hcode := hquiet (limits.steps - m'.steps) limits.depth depth (by omega) hdepth hnesting v m₁ hrun
  obtain ⟨v', m₁', ls', hrun', hext, hrel', rfl⟩ := (hfollows σ ls hchains).of_ok hrel hcode
  have hworld : m₁'.frame world = m'.frame world := (hrel'.kept hkept).2
  obtain ⟨hused, hstep⟩ := of_related hrel' hshift hrel.depth.symm (by omega)
    (fun c hc => (hchains c hc).mono hext) hblank (by rw [hworld]; exact hkept)
  exact ⟨m₁', hrun', hstep, hused, hworld⟩

end InStep

end Untangle.Dispatch
