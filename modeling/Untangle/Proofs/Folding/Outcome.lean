import Untangle.Proofs.Folding.Run
import Untangle.Proofs.Sandbox.Startup
import Untangle.Proofs.Sandbox.WellScoped

set_option autoImplicit false

/-!
# Folding keeps what an expression comes to

A script of one expression is folded, and the expression and what became of it are evaluated on a new
machine.  Both end with the same value or the same failure, unless the expression that was not folded
reaches a limit of the machine.

The main theorem is `folding_keeps_outcome`, for all expressions of literals, unary minus and operators
that are folded, and for all machines.  Limits are left out because they tell the two apart
(`limits_observe_folding`): what became of the expression needs fewer steps.
-/

namespace Untangle.Rule.Folding

open Sandbox

/-! ## New machines -/

theorem lookup_of_bindings {m m' : Machine} (hframes : m'.frames = m.frames) {f : FrameId} {name : Text}
    {v : Value} (h : (m.frame f).bindings.get? name = some v) :
    Run.lookup [f] name m' = .ok v m' := by
  have hframe : m'.frame f = m.frame f := by
    unfold Machine.frame
    rw [hframes]
  have hscope : m'.findScope name [f] = some f := by
    unfold Machine.findScope Dict.contains
    rw [hframe, h]
    rfl
  have hvalue : m'.variable f name = v := by
    unfold Machine.variable
    rw [hframe, h]
    rfl
  rw [lookup_of_findScope hscope, hvalue]

/-- On a new machine the names of the numbers that have no literal stand for them. -/
theorem numbersNamed_restart (m : Machine) (maxSteps maxDepth : Nat) {m' : Machine}
    (hframes : m'.frames = (m.restart maxSteps maxDepth).frames) :
    NumbersNamed m' (m.restart maxSteps maxDepth).globalChain := by
  obtain ⟨vs, hvs, hbindings⟩ := bindings_restart m maxSteps maxDepth
  have hnodup : (vs.map (·.1)).Nodup := by
    rw [hvs.names]
    decide
  have hfound : ∀ {name : Text} {v : Value}, (name, v) ∈ vs → ∀ k,
      Run.lookup (m.restart maxSteps maxDepth).globalChain name { m' with steps := k } =
        .ok v { m' with steps := k } := by
    intro name v hmem k
    have hsame : ({ m' with steps := k } : Machine).frames = (m.restart maxSteps maxDepth).frames :=
      hframes
    exact lookup_of_bindings hsame (hbindings ▸ Dict.get?_ofList hnodup hmem)
  exact ⟨hfound hvs.nan, hfound hvs.infinity⟩

theorem frames_renewed (m : Machine) : m.renewed.frames = m.frames := rfl

/-! ## Outcomes -/

/-- What the evaluation of an expression in the global scope comes to. -/
def outcome (m : Machine) (n : Node) : Except Abrupt Value :=
  match (Run.evaluate n m.globalChain).run m with
  | .ok v _ => .ok v
  | .error e _ => .error e

/-- An evaluation that ends at a limit of the machine. -/
def ReachesLimit (m : Machine) (n : Node) : Prop := ∃ l, outcome m n = .error (.limit l)

theorem fresh_of_error {α : Type} {c : Run α} {m m' : Machine} {e : Abrupt}
    (h : c m.renewed = .error e m') (he : (∃ f, e = .fault f) ∨ ∃ l, e = .limit l) :
    Run.fresh c m = .error e m' := by
  show EStateM.tryCatch c _ m.renewed = _
  unfold EStateM.tryCatch
  rw [h]
  obtain ⟨f, rfl⟩ | ⟨l, rfl⟩ := he <;> rfl

variable {n e : Node} {x : Course}

/-- With room for it, what evaluates comes to its result; without, it reaches a limit. -/
theorem Evaluates.outcome_eq (h : Evaluates n x) {m : Machine}
    (hm : NumbersNamed m.renewed m.globalChain) :
    (x.Fits nestingLimit m.renewed → outcome m n = x.result) ∧
      (¬ x.Fits nestingLimit m.renewed → ReachesLimit m n) := by
  have hdescribes := h.describes hm nestingLimit
  unfold ReachesLimit outcome EStateM.run Run.evaluate
  constructor
  · intro hfits
    have hrun := hdescribes.room hfits
    unfold Course.answer at hrun
    cases hx : x.result with
    | ok v =>
      rw [hx] at hrun
      rw [Machine.fresh_eq_ok.mpr hrun]
    | error e =>
      rw [hx] at hrun
      rw [fresh_of_error hrun (.inl ⟨_, h.steady.stop e hx⟩)]
  · intro hno
    obtain ⟨l, m', hrun⟩ := hdescribes.noRoom hno
    exact ⟨l, by rw [fresh_of_error hrun (.inr ⟨l, rfl⟩)]⟩

/-- What is evaluated better comes to the same, unless the other one reaches a limit. -/
theorem Course.Improves.outcome_eq {n' : Node} {y : Course} (h : y.Improves x)
    (hn : Evaluates n x) (hn' : Evaluates n' y) {m : Machine}
    (hm : NumbersNamed m.renewed m.globalChain) :
    ReachesLimit m n ∨ outcome m n' = outcome m n := by
  obtain ⟨hroom, hno⟩ := hn.outcome_eq hm
  by_cases hfits : x.Fits nestingLimit m.renewed
  · right
    rw [hroom hfits, (hn'.outcome_eq hm).1 (h.fits hfits), h.result]
  · exact .inl (hno hfits)

/-! ## The rule -/

theorem visitor_eq {settings : Settings} (hactive : RuleName.binary ∉ settings.disabledRules) :
    RuleName.visitor settings [.binary] = visitor := by
  have horder : RuleName.inOrder [.binary] = [.binary] := by decide
  unfold RuleName.visitor
  rw [horder, List.filter_cons_of_pos (by simpa using hactive)]
  rfl

/-- The rule makes of a script what its tour makes of it. -/
theorem applyRules_script {settings : Settings} (hactive : RuleName.binary ∉ settings.disabledRules)
    (hx : Evaluates e x) (hrole : e.role = .expression) (i j : NodeId) (directive : Option Text)
    (store : Machine) :
    (∃ t e', applyRules settings [.binary] (.ofProgram (script i j directive e)) store = .ok t ∧
      t.analysis.program = script i j directive e' ∧ Folds (tourDepth - 2) e e') ∨
    (applyRules settings [.binary] (.ofProgram (script i j directive e)) store =
      .error (.fault .tooLarge) ∧ x.result = .error (.fault .tooLarge)) := by
  rw [applyRules_eq, visitor_eq hactive]
  obtain ⟨t, e', hrun, hprogram, hfolds⟩ | ⟨hrun, hresult⟩ :=
    run_script hx hrole (Analysis.extends_ofProgram (script i j directive e)).program
      ⟨Registry.onStore settings.gate store settings.maxEvalSteps settings.maxCallDepth, .empty⟩
  · rw [hrun]
    exact .inl ⟨_, e', rfl, hprogram, hfolds⟩
  · rw [hrun]
    exact .inr ⟨rfl, hresult⟩

/-- A script of one expression is folded.  On every new machine the folded expression comes to what the
expression comes to: the same value, NaN, the infinities and the sign of zero included.  Where a number
is too large for an operator to be folded, the rule ends with the failure with which the evaluation of
the expression ends.  The one exception is an expression whose evaluation reaches a limit of the machine,
because what became of it needs fewer steps and is nested less deeply. -/
theorem folding_keeps_outcome {settings : Settings}
    (hactive : RuleName.binary ∉ settings.disabledRules) (i j : NodeId) (directive : Option Text)
    (he : Arithmetic e) (hrole : e.role = .expression) (store : Machine) :
    (∃ t e', applyRules settings [.binary] (.ofProgram (script i j directive e)) store = .ok t ∧
      t.analysis.program = script i j directive e' ∧
      ∀ (other : Machine) (maxSteps maxDepth : Nat),
        ReachesLimit (other.restart maxSteps maxDepth) e ∨
          outcome (other.restart maxSteps maxDepth) e' = outcome (other.restart maxSteps maxDepth) e) ∨
    (∃ f, applyRules settings [.binary] (.ofProgram (script i j directive e)) store =
        .error (.fault f) ∧
      ∀ (other : Machine) (maxSteps maxDepth : Nat),
        ReachesLimit (other.restart maxSteps maxDepth) e ∨
          outcome (other.restart maxSteps maxDepth) e = .error (.fault f)) := by
  obtain ⟨x, hx⟩ := he.evaluates
  have hnamed : ∀ (other : Machine) (maxSteps maxDepth : Nat),
      NumbersNamed (other.restart maxSteps maxDepth).renewed
        (other.restart maxSteps maxDepth).globalChain :=
    fun other maxSteps maxDepth => numbersNamed_restart other maxSteps maxDepth (frames_renewed _)
  obtain ⟨t, e', hok, hprogram, hfolds⟩ | ⟨herror, hresult⟩ :=
    applyRules_script hactive hx hrole i j directive store
  · obtain ⟨y, hy, hbetter⟩ := hfolds.improves hx
    exact .inl ⟨t, e', hok, hprogram, fun other maxSteps maxDepth =>
      hbetter.outcome_eq hx hy (hnamed other maxSteps maxDepth)⟩
  · refine .inr ⟨.tooLarge, herror, fun other maxSteps maxDepth => ?_⟩
    obtain ⟨hroom, hno⟩ := hx.outcome_eq (hnamed other maxSteps maxDepth)
    by_cases hfits : x.Fits nestingLimit (other.restart maxSteps maxDepth).renewed
    · exact .inr ((hroom hfits).trans hresult)
    · exact .inl (hno hfits)

/-- `('a' - 2) + (2 - 5) * 0`: NaN, and a zero with the sign of -3. -/
def nestedSum : Node :=
  .binary .add
    (.binary .sub (.literal (.string "a")) (.literal (.number (.whole 2))))
    (.binary .mul
      (.binary .sub (.literal (.number (.whole 2))) (.literal (.number (.whole 5))))
      (.literal (.number (.whole 0))))

/-- The expression in a statement, behind the numbers of the program and of the statement. -/
def readSum : Node := ((nestedSum.inRole .expression).number 3).1

theorem arithmetic_readSum : Arithmetic readSum :=
  .binary rfl rfl rfl
    (.binary rfl rfl rfl (.literal rfl) (.literal rfl))
    (.binary rfl rfl rfl (.binary rfl rfl rfl (.literal rfl) (.literal rfl)) (.literal rfl))

/-- A script that is folded comes to what it came to, with NaN and a negative zero in it. -/
theorem nestedSum_keeps_outcome :
    RuleName.binary ∉ ({} : Settings).disabledRules ∧ Arithmetic readSum ∧ readSum.role = .expression ∧
      ((∃ t e', applyRules {} [.binary] (.ofProgram (script 1 2 none readSum)) .bare = .ok t ∧
        t.analysis.program = script 1 2 none e' ∧
        ∀ (other : Machine) (maxSteps maxDepth : Nat),
          ReachesLimit (other.restart maxSteps maxDepth) readSum ∨
            outcome (other.restart maxSteps maxDepth) e' =
              outcome (other.restart maxSteps maxDepth) readSum) ∨
      (∃ f, applyRules {} [.binary] (.ofProgram (script 1 2 none readSum)) .bare = .error (.fault f) ∧
        ∀ (other : Machine) (maxSteps maxDepth : Nat),
          ReachesLimit (other.restart maxSteps maxDepth) readSum ∨
            outcome (other.restart maxSteps maxDepth) readSum = .error (.fault f))) := by
  have hactive : RuleName.binary ∉ ({} : Settings).disabledRules := by decide
  exact ⟨hactive, arithmetic_readSum, rfl,
    folding_keeps_outcome hactive 1 2 none arithmetic_readSum rfl .bare⟩

/-! ## Limits -/

/-- A sum of empty texts: one text, or two sums with half as many texts each. -/
def textSum : Nat → NodeId → Role → Node
  | 0, i, r => .mk i r (.literal (.string [])) []
  | k + 1, i, r =>
    .mk i r (.binary .add) [textSum k (i + 1) .left, textSum k (i + 2 ^ (k + 1)) .right]

theorem role_textSum (k : Nat) (i : NodeId) (r : Role) : (textSum k i r).role = r := by
  cases k <;> rfl

theorem add_texts (t u : Text) :
    pureOperation #[] .add (.string t) (.string u) = .ok (.string (t ++ u)) := by
  show addValues #[] (.string t) (.string u) = _
  unfold addValues
  rw [toPrimitive_of_primitive _ rfl, toPrimitive_of_primitive _ rfl]
  rfl

/-- The texts and the signs of a sum. -/
def textSumSteps : Nat → Nat
  | 0 => 1
  | k + 1 => 2 * textSumSteps k + 1

/-- A sum takes a step for each text and each sign. -/
theorem evaluates_textSum (k : Nat) (i : NodeId) (r : Role) :
    ∃ x, Evaluates (textSum k i r) x ∧ x.result = .ok (.string []) ∧ x.steps = textSumSteps k := by
  induction k generalizing i r with
  | zero => exact ⟨_, .literal rfl, rfl, rfl⟩
  | succ k ih =>
    obtain ⟨x, hx, hxresult, hxsteps⟩ := ih (i + 1) .left
    obtain ⟨y, hy, hyresult, hysteps⟩ := ih _ .right
    refine ⟨_, .binary rfl (role_textSum ..) (role_textSum ..) hx hy, ?_, ?_⟩
    · rw [Course.result_binary, hxresult, hyresult]
      exact add_texts [] []
    · rw [(Course.binary_of_ok hxresult hyresult).1, textSumSteps]
      omega

/-- A sum is folded into one text, if the tour goes deep enough. -/
theorem folds_textSum {k depth : Nat} {i : NodeId} {r : Role} {n' : Node}
    (h : Folds depth (textSum k i r) n') (hk : k ≤ depth) :
    ∃ j, n' = .mk j r (.literal (.string [])) [] := by
  induction k generalizing depth i r n' with
  | zero =>
    cases folds_iff.mp h
    exact ⟨i, rfl⟩
  | succ k ih =>
    cases depth with
    | zero => cases hk
    | succ depth =>
      cases h with
      | leaf hchildren => cases hchildren
      | kept hx hy hlit =>
        obtain ⟨_, rfl⟩ := ih hx (Nat.le_of_succ_le_succ hk)
        obtain ⟨_, rfl⟩ := ih hy (Nat.le_of_succ_le_succ hk)
        cases hlit
      | @folded _ _ _ _ _ _ _ v hx hy _ _ hv next =>
        obtain ⟨j, rfl⟩ := ih hx (Nat.le_of_succ_le_succ hk)
        obtain ⟨l, rfl⟩ := ih hy (Nat.le_of_succ_le_succ hk)
        have hvalue : foldedValue .add (.mk j .left (.literal (.string [])) [])
            (.mk l .right (.literal (.string [])) []) = .ok (.string []) := by
          have hdenoted : ∀ (i : NodeId) (r : Role),
              denotedValue (.mk i r (.literal (.string [])) []) = .ok (.string []) := fun _ _ => rfl
          unfold foldedValue
          rw [hdenoted, hdenoted]
          dsimp only [bind, Except.bind]
          rw [add_texts]
          rfl
        cases hv.symm.trans hvalue
        exact ⟨next, rfl⟩

/-- On a machine that does not allow the steps that a sum takes, the sum reaches the limit, and the text
into which it is folded does not. -/
theorem textSum_exceeds {k maxSteps maxDepth : Nat} (hk : k ≤ tourDepth - 2) (hone : 1 ≤ maxSteps)
    (hfew : maxSteps < textSumSteps k)
    (hsteps : (Machine.create maxSteps maxDepth).renewed.maxSteps = maxSteps) :
    ∃ t e', applyRules {} [.binary] (.ofProgram (script 1 2 none (textSum k 3 .expression))) .bare =
        .ok t ∧ t.analysis.program = script 1 2 none e' ∧
      outcome (.create maxSteps maxDepth) e' = .ok (.string []) ∧
      ReachesLimit (.create maxSteps maxDepth) (textSum k 3 .expression) := by
  have hnamed : NumbersNamed (Machine.create maxSteps maxDepth).renewed
      (Machine.create maxSteps maxDepth).globalChain :=
    numbersNamed_restart .bare maxSteps maxDepth (frames_renewed _)
  have hactive : RuleName.binary ∉ ({} : Settings).disabledRules := by decide
  obtain ⟨x, hx, hresult, htaken⟩ := evaluates_textSum k 3 .expression
  obtain ⟨t, e', hok, hprogram, hfolds⟩ | ⟨-, hfault⟩ :=
    applyRules_script hactive hx (role_textSum ..) 1 2 none .bare
  · refine ⟨t, e', hok, hprogram, ?_, ?_⟩
    · obtain ⟨j, rfl⟩ := folds_textSum hfolds hk
      have htext : Evaluates (.mk j .expression (.literal (.string [])) [])
          (.leaf (.ok (.string []))) := .literal rfl
      refine (htext.outcome_eq hnamed).1 ⟨?_, by decide⟩
      rw [hsteps]
      exact hone
    · refine (hx.outcome_eq hnamed).2 fun hfits => ?_
      have hroom : 0 + x.steps ≤ (Machine.create maxSteps maxDepth).renewed.maxSteps := hfits.1
      rw [hsteps] at hroom
      omega
  · cases hresult.symm.trans hfault

/-- A limit tells an expression from what it is folded into: `'' + ''` where two steps are allowed, and a
sum of 65536 texts with the limits by default. -/
theorem limits_observe_folding :
    (∃ t e', applyRules {} [.binary] (.ofProgram (script 1 2 none (textSum 1 3 .expression))) .bare =
        .ok t ∧ t.analysis.program = script 1 2 none e' ∧
      outcome (.create 2 200) e' = .ok (.string []) ∧
      ReachesLimit (.create 2 200) (textSum 1 3 .expression)) ∧
    ∃ t e', applyRules {} [.binary] (.ofProgram (script 1 2 none (textSum 16 3 .expression))) .bare =
        .ok t ∧ t.analysis.program = script 1 2 none e' ∧
      outcome (.create 100000 200) e' = .ok (.string []) ∧
      ReachesLimit (.create 100000 200) (textSum 16 3 .expression) :=
  ⟨textSum_exceeds (by decide) (by decide) (by decide) (by decide +kernel),
    textSum_exceeds (by decide) (by decide) (by decide) (by decide +kernel)⟩

end Untangle.Rule.Folding
