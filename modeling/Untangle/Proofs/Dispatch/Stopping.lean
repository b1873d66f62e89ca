import Untangle.Proofs.Dispatch.Agreement
import Untangle.Proofs.Number.Sign

set_option autoImplicit false

/-!
# Loops that end with a value that is false

The course of a trial is given as a relation that knows no fuel and collects no statements: the rounds
of the loop one after the other, each with the value of the discriminant and the case that it leads to, and
the way in which they end.  A trial that gives statements has exactly one course (`Course.unique`), and the
statements are those of its cases (`course_of_run`, `run_of_course`).

The main result is `falsy_stop_takes_case_first_or_never`.  A loop is taken to end as soon as its
discriminant is false, without a look at the cases: where one of them tests for this very value, the
course took it as its first case or not at all, and the rounds that it would begin are lost.  That the loop
itself goes on with this case is not stated here; under the condition that no case tests for the value, the
loop and its course agree (`unflatten_executes`).

The trial runs in the sandbox of the run: a course depends on the limits of the sandbox, and a loop whose
parts do not come to values has none.
-/

namespace Untangle.Dispatch

open Sandbox

/-! ## Courses -/

/-- How a loop ends. -/
inductive Finish where
  /-- Its test fails. -/
  | testFails
  /-- The discriminant is false after a case was taken. -/
  | falsy (v : Value)
  /-- No case tests for the discriminant, and a `break` follows the `switch`. -/
  | unmatched (v : Value)
  /-- A case leaves the loop. -/
  | leaves

/-- How a round begins. -/
inductive Turn where
  | ends (f : Finish)
  | takes (v : Value) (index : Nat)

/-- The number of the case that is taken. -/
def Turn.index? : Turn → Option Nat
  | .ends _ => none
  | .takes _ index => some index

/-- A case that is taken: the value of the discriminant, the number of the case and what it does. -/
structure Taken where
  value : Value
  index : Nat
  plan : CasePlan

/-- The statements of the cases that are taken, given the plans that are known before. -/
def written : Dict Nat CasePlan → List Taken → List Node
  | _, [] => []
  | plans, d :: ds => emitted plans d.index d.plan ++ written (plans.put d.index d.plan) ds

section

variable (loop : Loop) (names : List Text) (values : List Value) (scopes : ScopeChain)

/-- The discriminant comes to a value in a round whose test does not fail. -/
def Discriminates (s : Registry) (v : Value) (s' : Registry) : Prop :=
  ∃ s₁, Dispatch.testFails loop scopes s = .ok false s₁ ∧
    probe (Run.evaluate loop.discriminant scopes) s₁ = .ok v s'

/-- The beginning of a round; `started` tells whether a case was taken before. -/
inductive Turns (started : Bool) (s s' : Registry) : Turn → Prop
  | testFails : Dispatch.testFails loop scopes s = .ok true s' → Turns started s s' (.ends .testFails)
  | falsy {v : Value} : Discriminates loop scopes s v s' → started = true → toBoolean v = false →
      Turns started s s' (.ends (.falsy v))
  | unmatched {v : Value} : Discriminates loop scopes s v s' → started = true → toBoolean v = true →
      values.findIdx? (strictEquals v) = none → loop.closing = true →
      Turns started s s' (.ends (.unmatched v))
  | takes {v : Value} {index : Nat} : Discriminates loop scopes s v s' →
      (started = true → toBoolean v = true) → values.findIdx? (strictEquals v) = some index →
      Turns started s s' (.takes v index)

/-- The rounds from a test on, until the loop ends. -/
inductive Course : Bool → Dict Nat CasePlan → Registry → List Taken → Finish → Registry → Prop
  | ends {started : Bool} {plans : Dict Nat CasePlan} {s s' : Registry} {f : Finish} :
      Turns loop values scopes started s s' (.ends f) → Course started plans s [] f s'
  | leaves {started : Bool} {plans : Dict Nat CasePlan} {s s₁ s₂ s' : Registry} {d : Taken} :
      Turns loop values scopes started s s₁ (.takes d.value d.index) →
      planOf loop names plans d.index s₁ = .ok d.plan s₂ →
      runUpdates scopes d.plan.updates s₂ = .ok () s' → Dispatch.leaves loop d.plan = true →
      Course started plans s [d] .leaves s'
  | takes {started : Bool} {plans : Dict Nat CasePlan} {s s₁ s₂ s₃ s₄ s' : Registry} {d : Taken}
      {ds : List Taken} {f : Finish} :
      Turns loop values scopes started s s₁ (.takes d.value d.index) →
      planOf loop names plans d.index s₁ = .ok d.plan s₂ →
      runUpdates scopes d.plan.updates s₂ = .ok () s₃ → Dispatch.leaves loop d.plan = false →
      runUpdate loop scopes s₃ = .ok () s₄ →
      Course true (plans.put d.index d.plan) s₄ ds f s' →
      Course started plans s (d :: ds) f s'

end

section

variable {loop : Loop} {names : List Text} {values : List Value} {scopes : ScopeChain}
  {started : Bool} {plans : Dict Nat CasePlan} {s s' : Registry}

theorem Discriminates.unique {v v' : Value} {s'' : Registry} (h : Discriminates loop scopes s v s')
    (h' : Discriminates loop scopes s v' s'') : v = v' ∧ s' = s'' := by
  obtain ⟨s₁, htest, hv⟩ := h
  obtain ⟨s₁', htest', hv'⟩ := h'
  cases htest.symm.trans htest'
  cases hv.symm.trans hv'
  exact ⟨rfl, rfl⟩

theorem Discriminates.not_testFails {v : Value} {s'' : Registry}
    (h : Discriminates loop scopes s v s') : testFails loop scopes s ≠ .ok true s'' := by
  obtain ⟨s₁, htest, -⟩ := h
  intro htest'
  cases htest.symm.trans htest'

/-- The choice of a case is the beginning of a round without the reason why a loop ends. -/
theorem exists_turn_of_nextCase {next : Option Nat}
    (h : nextCase loop values scopes started s = .ok next s') :
    ∃ turn, Turns loop values scopes started s s' turn ∧ turn.index? = next := by
  unfold nextCase at h
  obtain ⟨fails, s₁, htest, h⟩ := bind_eq_ok.mp h
  cases fails with
  | true =>
    cases h
    exact ⟨_, .testFails htest, rfl⟩
  | false =>
    obtain ⟨v, s₂, hv, h⟩ := bind_eq_ok.mp h
    have hdisc : Discriminates loop scopes s v s₂ := ⟨s₁, htest, hv⟩
    cases hfalsy : started && !toBoolean v with
    | true =>
      rw [hfalsy] at h
      cases h
      simp only [Bool.and_eq_true, Bool.not_eq_true'] at hfalsy
      exact ⟨_, .falsy hdisc hfalsy.1 hfalsy.2, rfl⟩
    | false =>
      rw [hfalsy] at h
      have htrue : started = true → toBoolean v = true := by simpa using hfalsy
      cases hfind : values.findIdx? (strictEquals v) with
      | some index =>
        rw [hfind] at h
        cases h
        exact ⟨_, .takes hdisc htrue hfind, rfl⟩
      | none =>
        rw [hfind] at h
        cases hend : started && loop.closing with
        | true =>
          rw [hend] at h
          cases h
          simp only [Bool.and_eq_true] at hend
          exact ⟨_, .unmatched hdisc hend.1 (htrue hend.1) hfind hend.2, rfl⟩
        | false =>
          rw [hend] at h
          cases h

theorem Turns.nextCase {turn : Turn} (h : Turns loop values scopes started s s' turn) :
    Dispatch.nextCase loop values scopes started s = .ok turn.index? s' := by
  unfold Dispatch.nextCase
  rw [bind_eq_ok]
  cases h with
  | testFails htest => exact ⟨true, s', htest, rfl⟩
  | falsy hdisc hstarted hfalse =>
    obtain ⟨s₁, htest, hv⟩ := hdisc
    refine ⟨false, s₁, htest, bind_eq_ok.mpr ⟨_, s', hv, ?_⟩⟩
    simp only [hstarted, hfalse]
    rfl
  | unmatched hdisc hstarted htrue hfind hclosing =>
    obtain ⟨s₁, htest, hv⟩ := hdisc
    refine ⟨false, s₁, htest, bind_eq_ok.mpr ⟨_, s', hv, ?_⟩⟩
    simp only [hstarted, htrue, hfind, hclosing]
    rfl
  | @takes v index hdisc htrue hfind =>
    obtain ⟨s₁, htest, hv⟩ := hdisc
    refine ⟨false, s₁, htest, bind_eq_ok.mpr ⟨v, s', hv, ?_⟩⟩
    have hfalsy : (started && !toBoolean v) = false := by simpa using htrue
    simp only [hfalsy, hfind]
    rfl

theorem Turns.unique {turn turn' : Turn} {s'' : Registry}
    (h : Turns loop values scopes started s s' turn)
    (h' : Turns loop values scopes started s s'' turn') : turn = turn' ∧ s' = s'' := by
  cases h with
  | testFails htest =>
    cases h' with
    | testFails htest' =>
      cases htest.symm.trans htest'
      exact ⟨rfl, rfl⟩
    | falsy hdisc' => exact absurd htest hdisc'.not_testFails
    | unmatched hdisc' => exact absurd htest hdisc'.not_testFails
    | takes hdisc' => exact absurd htest hdisc'.not_testFails
  | falsy hdisc hstarted hfalse =>
    cases h' with
    | testFails htest' => exact absurd htest' hdisc.not_testFails
    | falsy hdisc' =>
      obtain ⟨rfl, rfl⟩ := hdisc.unique hdisc'
      exact ⟨rfl, rfl⟩
    | unmatched hdisc' _ htrue =>
      obtain ⟨rfl, rfl⟩ := hdisc.unique hdisc'
      cases hfalse.symm.trans htrue
    | takes hdisc' htrue =>
      obtain ⟨rfl, rfl⟩ := hdisc.unique hdisc'
      cases hfalse.symm.trans (htrue hstarted)
  | unmatched hdisc hstarted htrue hfind =>
    cases h' with
    | testFails htest' => exact absurd htest' hdisc.not_testFails
    | falsy hdisc' _ hfalse =>
      obtain ⟨rfl, rfl⟩ := hdisc.unique hdisc'
      cases hfalse.symm.trans htrue
    | unmatched hdisc' =>
      obtain ⟨rfl, rfl⟩ := hdisc.unique hdisc'
      exact ⟨rfl, rfl⟩
    | takes hdisc' _ hfind' =>
      obtain ⟨rfl, rfl⟩ := hdisc.unique hdisc'
      cases hfind.symm.trans hfind'
  | takes hdisc htrue hfind =>
    cases h' with
    | testFails htest' => exact absurd htest' hdisc.not_testFails
    | falsy hdisc' hstarted hfalse =>
      obtain ⟨rfl, rfl⟩ := hdisc.unique hdisc'
      cases hfalse.symm.trans (htrue hstarted)
    | unmatched hdisc' _ _ hfind' =>
      obtain ⟨rfl, rfl⟩ := hdisc.unique hdisc'
      cases hfind.symm.trans hfind'
    | takes hdisc' _ hfind' =>
      obtain ⟨rfl, rfl⟩ := hdisc.unique hdisc'
      cases hfind.symm.trans hfind'
      exact ⟨rfl, rfl⟩

/-- The case of a round, what it does and how it leaves the variables are determined. -/
theorem Turns.same_case {s₁ s₂ s₃ s₁' s₂' s₃' : Registry} {d d' : Taken}
    (hturn : Turns loop values scopes started s s₁ (.takes d.value d.index))
    (hplan : planOf loop names plans d.index s₁ = .ok d.plan s₂)
    (hupdates : runUpdates scopes d.plan.updates s₂ = .ok () s₃)
    (hturn' : Turns loop values scopes started s s₁' (.takes d'.value d'.index))
    (hplan' : planOf loop names plans d'.index s₁' = .ok d'.plan s₂')
    (hupdates' : runUpdates scopes d'.plan.updates s₂' = .ok () s₃') : d = d' ∧ s₃ = s₃' := by
  rcases d with ⟨v, i, plan⟩
  rcases d' with ⟨v', i', plan'⟩
  obtain ⟨hsame, rfl⟩ := hturn.unique hturn'
  cases hsame
  cases hplan.symm.trans hplan'
  cases hupdates.symm.trans hupdates'
  exact ⟨rfl, rfl⟩

/-- A loop takes one course at most. -/
theorem Course.unique {ds ds' : List Taken} {f f' : Finish} {s'' : Registry}
    (h : Course loop names values scopes started plans s ds f s')
    (h' : Course loop names values scopes started plans s ds' f' s'') :
    ds = ds' ∧ f = f' ∧ s' = s'' := by
  induction h generalizing ds' f' s'' with
  | ends hturn =>
    cases h' with
    | ends hturn' =>
      obtain ⟨hsame, rfl⟩ := hturn.unique hturn'
      cases hsame
      exact ⟨rfl, rfl, rfl⟩
    | leaves hturn' => cases (hturn.unique hturn').1
    | takes hturn' => cases (hturn.unique hturn').1
  | leaves hturn hplan hupdates hleaves =>
    cases h' with
    | ends hturn' => cases (hturn.unique hturn').1
    | leaves hturn' hplan' hupdates' =>
      obtain ⟨rfl, rfl⟩ := hturn.same_case hplan hupdates hturn' hplan' hupdates'
      exact ⟨rfl, rfl, rfl⟩
    | takes hturn' hplan' hupdates' hstays =>
      obtain ⟨rfl, rfl⟩ := hturn.same_case hplan hupdates hturn' hplan' hupdates'
      cases hleaves.symm.trans hstays
  | takes hturn hplan hupdates hstays hadvance _ ih =>
    cases h' with
    | ends hturn' => cases (hturn.unique hturn').1
    | leaves hturn' hplan' hupdates' hleaves =>
      obtain ⟨rfl, rfl⟩ := hturn.same_case hplan hupdates hturn' hplan' hupdates'
      cases hleaves.symm.trans hstays
    | takes hturn' hplan' hupdates' _ hadvance' hrest' =>
      obtain ⟨rfl, rfl⟩ := hturn.same_case hplan hupdates hturn' hplan' hupdates'
      cases hadvance.symm.trans hadvance'
      obtain ⟨rfl, rfl, rfl⟩ := ih hrest'
      exact ⟨rfl, rfl, rfl⟩

end

/-! ## What a run writes -/

section

variable {loop : Loop} {names : List Text} {values : List Value} {scopes : ScopeChain}

/-- A run that gives statements follows a course, and the statements are those of the cases taken. -/
theorem course_of_run {fuel : Nat} {started : Bool} {plans : Dict Nat CasePlan}
    {output out : List Node} {s s' : Registry}
    (h : run loop names values scopes fuel started plans output s = .ok out s') :
    ∃ ds f, Course loop names values scopes started plans s ds f s' ∧ ds.length ≤ fuel ∧
      out = output.reverse ++ written plans ds := by
  induction fuel generalizing started plans output s with
  | zero =>
    unfold run at h
    obtain ⟨next, s₁, hnext, h⟩ := bind_eq_ok.mp h
    cases next with
    | some index => cases h
    | none =>
      cases h
      obtain ⟨turn, hturn, hnone⟩ := exists_turn_of_nextCase hnext
      cases turn with
      | takes v index => cases hnone
      | ends f => exact ⟨[], f, .ends hturn, Nat.le_refl 0, (List.append_nil _).symm⟩
  | succ fuel ih =>
    unfold run at h
    obtain ⟨next, s₁, hnext, h⟩ := bind_eq_ok.mp h
    obtain ⟨turn, hturn, hindex⟩ := exists_turn_of_nextCase hnext
    cases turn with
    | ends f =>
      cases hindex
      cases h
      exact ⟨[], f, .ends hturn, Nat.zero_le _, (List.append_nil _).symm⟩
    | takes v index =>
      cases hindex
      obtain ⟨plan, s₂, hplan, h⟩ := bind_eq_ok.mp h
      obtain ⟨_, s₃, hupdates, h⟩ := bind_eq_ok.mp h
      cases hleaves : leaves loop plan with
      | true =>
        rw [leaves] at hleaves
        simp only [hleaves, if_true] at h
        cases h
        refine ⟨[⟨v, index, plan⟩], .leaves, .leaves hturn hplan hupdates hleaves, by simp, ?_⟩
        simp [written]
      | false =>
        rw [leaves] at hleaves
        simp only [hleaves, Bool.false_eq_true, if_false] at h
        obtain ⟨_, s₄, hadvance, h⟩ := bind_eq_ok.mp h
        obtain ⟨ds, f, hcourse, hlength, rfl⟩ := ih h
        refine ⟨⟨v, index, plan⟩ :: ds, f, .takes hturn hplan hupdates hleaves hadvance hcourse, ?_, ?_⟩
        · simpa using hlength
        · simp [written]

/-- A course that takes no more cases than allowed is what a run follows. -/
theorem run_of_course {started : Bool} {plans : Dict Nat CasePlan} {s s' : Registry} {ds : List Taken}
    {f : Finish} (h : Course loop names values scopes started plans s ds f s') {fuel : Nat}
    (hfuel : ds.length ≤ fuel) (output : List Node) :
    run loop names values scopes fuel started plans output s =
      .ok (output.reverse ++ written plans ds) s' := by
  induction h generalizing fuel output with
  | ends hturn =>
    have hnext := hturn.nextCase
    rw [written, List.append_nil]
    cases fuel <;> exact bind_of_ok hnext
  | @leaves _ plans _ _ _ _ d hturn hplan hupdates hleaves =>
    have hnext := hturn.nextCase
    cases fuel with
    | zero => cases hfuel
    | succ fuel =>
      rw [leaves] at hleaves
      unfold run
      rw [bind_of_ok hnext]
      simp only [Turn.index?]
      rw [bind_of_ok hplan, bind_of_ok hupdates]
      simp only [hleaves, if_true, written, List.append_nil]
      rw [List.reverse_append, List.reverse_reverse]
      rfl
  | @takes _ plans _ _ _ _ _ _ d ds _ hturn hplan hupdates hstays hadvance _ ih =>
    have hnext := hturn.nextCase
    cases fuel with
    | zero => cases hfuel
    | succ fuel =>
      rw [leaves] at hstays
      unfold run
      rw [bind_of_ok hnext]
      simp only [Turn.index?]
      rw [bind_of_ok hplan, bind_of_ok hupdates]
      simp only [hstays, Bool.false_eq_true, if_false]
      rw [bind_of_ok hadvance, ih (Nat.le_of_succ_le_succ hfuel)]
      simp [written]

end

/-! ## Where a course stops -/

/-- The course of the trial of a loop in a sandbox. -/
def Follows (loop : Loop) (s : Registry) (ds : List Taken) (f : Finish) (s' : Registry) : Prop :=
  ∃ values, tests loop.cases = .ok values ∧
    ∃ s₁, runInit loop.init (trialScopes s) (trialStart s) = .ok () s₁ ∧
      Course loop (stateNames loop.init) values (trialScopes s) false .empty s₁ ds f s'

/-- A case is taken because it is the first one that tests for the discriminant. -/
def Taken.Matches (values : List Value) (d : Taken) : Prop :=
  ∃ w, values[d.index]? = some w ∧ strictEquals d.value w = true

section

variable {loop : Loop} {names : List Text} {values : List Value} {scopes : ScopeChain}
  {started : Bool} {plans : Dict Nat CasePlan} {s s' : Registry}

theorem matches_of_turns {d : Taken}
    (h : Turns loop values scopes started s s' (.takes d.value d.index)) : d.Matches values := by
  rcases h with _ | _ | _ | ⟨-, -, hfind⟩
  obtain ⟨hlt, hequal, -⟩ := List.findIdx?_eq_some_iff_getElem.mp hfind
  exact ⟨values[d.index], List.getElem?_eq_getElem hlt, hequal⟩

/-- Every case that is taken tests for the discriminant, which is true after the first case. -/
theorem Course.takes_true {ds : List Taken} {f : Finish}
    (h : Course loop names values scopes started plans s ds f s') :
    ∀ i d, ds[i]? = some d → d.Matches values ∧ (started = true ∨ 0 < i → toBoolean d.value = true) := by
  have hhead : ∀ {started : Bool} {s s' : Registry} {d : Taken},
      Turns loop values scopes started s s' (.takes d.value d.index) →
        started = true → toBoolean d.value = true := by
    intro started s s' d hturn hstarted
    rcases hturn with _ | _ | _ | ⟨-, htrue, -⟩
    exact htrue hstarted
  induction h with
  | ends => intro i d hd; cases hd
  | leaves hturn =>
    intro i d hd
    cases i with
    | zero =>
      cases hd
      exact ⟨matches_of_turns hturn, fun hor => hhead hturn (by simpa using hor)⟩
    | succ i => cases hd
  | takes hturn _ _ _ _ _ ih =>
    intro i d hd
    cases i with
    | zero =>
      cases hd
      exact ⟨matches_of_turns hturn, fun hor => hhead hturn (by simpa using hor)⟩
    | succ i =>
      obtain ⟨hmatches, htrue⟩ := ih i d hd
      exact ⟨hmatches, fun _ => htrue (.inl rfl)⟩

/-- A value that ends a loop is false, and a case was taken before. -/
theorem Course.falsy {ds : List Taken} {v : Value}
    (h : Course loop names values scopes started plans s ds (.falsy v) s') :
    toBoolean v = false ∧ (started = true ∨ ds ≠ []) := by
  generalize hf : Finish.falsy v = f at h
  induction h with
  | ends hturn =>
    cases hf
    rcases hturn with _ | ⟨-, hstarted, hfalse⟩
    exact ⟨hfalse, .inl hstarted⟩
  | leaves => cases hf
  | takes _ _ _ _ _ _ ih => exact ⟨(ih hf).1, .inr (List.cons_ne_nil _ _)⟩

end

/-- The case at a place tests for the value at this place. -/
theorem testsFor_getElem? {cases : List Node} {values : List Value} (h : List.Forall₂ TestsFor cases values)
    {i : Nat} {w : Value} (hw : values[i]? = some w) : ∃ c, cases[i]? = some c ∧ TestsFor c w := by
  induction h generalizing i with
  | nil => cases hw
  | cons htests _ ih =>
    cases i with
    | zero =>
      cases hw
      exact ⟨_, rfl, htests⟩
    | succ i => exact ih hw

/-- A case tests for one value. -/
theorem TestsFor.unique {c : Node} {v w : Value} (h : TestsFor c v) (h' : TestsFor c w) : v = w := by
  obtain ⟨t, ht, -, hv⟩ := h
  obtain ⟨t', ht', -, hw⟩ := h'
  cases ht.symm.trans ht'
  exact Except.ok.inj (hv.symm.trans hw)

/-- A loop that is taken apart has exactly one course, and the statements are those of the cases that are
taken.  Every such case tests for the discriminant, and a case that is not the first one has a test that is
true.  If the loop ends because the discriminant became false, then a case was taken before, and a case that
tests for this value was taken as the first one or never. -/
theorem falsy_stop_takes_case_first_or_never {loop : Loop} {readOutside : List Text → Bool}
    {maxDispatches : Nat} {s s' : Registry} {out : List Node}
    (hrun : (unflatten loop readOutside maxDispatches).run s = .ok out s') :
    ∃ ds f, Follows loop s ds f s' ∧
      (∀ ds' f' s'', Follows loop s ds' f' s'' → ds' = ds ∧ f' = f ∧ s'' = s') ∧
      out = written .empty ds ∧ ds.length ≤ maxDispatches ∧
      (∀ i d, ds[i]? = some d → ∃ c w, loop.cases[d.index]? = some c ∧ TestsFor c w ∧
        strictEquals d.value w = true ∧ (0 < i → toBoolean w = true)) ∧
      ∀ v, f = .falsy v → ds ≠ [] ∧ toBoolean v = false ∧
        ∀ c w, TestsFor c w → strictEquals v w = true →
          ∀ i d, ds[i]? = some d → loop.cases[d.index]? = some c → i = 0 := by
  obtain ⟨values, s₁, hvalues, hinit, hrun⟩ := unflatten_eq_ok hrun
  obtain ⟨ds, f, hcourse, hlength, hout⟩ := course_of_run hrun
  have htaken : ∀ i d, ds[i]? = some d → ∃ c w, loop.cases[d.index]? = some c ∧ TestsFor c w ∧
      strictEquals d.value w = true ∧ (0 < i → toBoolean w = true) := by
    intro i d hd
    obtain ⟨⟨w, hw, hequal⟩, htrue⟩ := hcourse.takes_true i d hd
    obtain ⟨c, hc, htests⟩ := testsFor_getElem? (tests_eq_ok hvalues) hw
    refine ⟨c, w, hc, htests, hequal, ?_⟩
    intro hi
    rw [← toBoolean_of_strictEquals hequal]
    exact htrue (.inr hi)
  refine ⟨ds, f, ⟨values, hvalues, s₁, hinit, hcourse⟩, ?_, hout, hlength, htaken, ?_⟩
  · rintro ds' f' s'' ⟨values', hvalues', s₁', hinit', hcourse'⟩
    cases hvalues.symm.trans hvalues'
    cases hinit.symm.trans hinit'
    obtain ⟨rfl, rfl, rfl⟩ := hcourse.unique hcourse'
    exact ⟨rfl, rfl, rfl⟩
  · rintro v rfl
    obtain ⟨hfalse, hstarted⟩ := hcourse.falsy
    refine ⟨hstarted.resolve_left (by simp), hfalse, ?_⟩
    intro c w htests hequal i d hd hc
    -- A later case has a test that is true, and this one equals a value that is false.
    obtain ⟨c', w', hc', htests', -, htrue⟩ := htaken i d hd
    cases hc.symm.trans hc'
    cases htests.unique htests'
    refine Nat.eq_zero_of_not_pos fun hi => ?_
    have hfalse' : toBoolean w = false := by rw [← toBoolean_of_strictEquals hequal, hfalse]
    cases (htrue hi).symm.trans hfalse'

/-! ## A loop that ends with the value of a case that was never taken -/

/-- The loop
`for (s = true;;) { switch (s) { case true: f(); s = null; continue; case null: g(); s = true; continue; } break; }`. -/
def relayLoop : Node :=
  let set := fun l => Node.assignment .plain (Node.ident "s") (Node.literal l)
  let call := fun name => Node.expressionStatement none (Node.call (Node.ident name) [])
  let case := fun test name next => Node.switchCase (some (Node.literal test))
    [call name, Node.expressionStatement none (set next), Node.continueStatement none]
  let switch := Node.switchStatement (Node.ident "s")
    [case (.bool true) "f" .null, case .null "g" (.bool true)]
  Node.forStatement (some (set (.bool true))) none none (Node.block [switch, Node.breakStatement none])

/-- Its parts. -/
def relay : Loop := (Loop.ofNode? relayLoop).get (by decide)

/-- What the first case of the loop does. -/
def relayPlan : CasePlan :=
  ((CasePlan.ofCase .default [Text.of "s"] (relay.cases.getD 0 (.leaf .hole)) false).toOption).getD
    ⟨[], [], false⟩

/-- A new sandbox with room for the steps of an update. -/
def roomySandbox : Registry := .onStore .default .bare 50 10

/-- A computation ends with a truth value, or with `null`. -/
def truthOf? (r : EStateM.Result Stop Registry Value) : Option (Option Bool) :=
  match r with
  | .ok (.bool b) _ => some (some b)
  | .ok .null _ => some none
  | _ => none

/-- A computation ends. -/
def hasEnded {α : Type} (r : EStateM.Result Stop Registry α) : Bool :=
  match r with
  | .ok _ _ => true
  | .error _ _ => false

theorem ok_of_truthOf? {p : Probe Value} {s : Registry} {b : Option Bool}
    (h : truthOf? (p s) = some b) : p s = .ok (b.elim .null .bool) (after p s) := by
  unfold truthOf? at h
  split at h
  · next hok =>
    cases h
    rw [after_of_ok hok, hok]
    rfl
  · next hok =>
    cases h
    rw [after_of_ok hok, hok]
    rfl
  · cases h

theorem ok_of_hasEnded {p : Probe Unit} {s : Registry} (h : hasEnded (p s) = true) :
    p s = .ok () (after p s) := by
  unfold hasEnded at h
  split at h
  · next hok => rw [after_of_ok hok, hok]
  · cases h

/-- The discriminant of the loop. -/
def relayDiscriminant : Probe Value :=
  probe (Run.evaluate relay.discriminant (trialScopes roomySandbox))

/-- The sandbox after the initializer. -/
def relayStarted : Registry :=
  after (runInit relay.init (trialScopes roomySandbox)) (trialStart roomySandbox)

/-- The sandbox after the first case. -/
def relayOnce : Registry :=
  after (runUpdates (trialScopes roomySandbox) relayPlan.updates) (after relayDiscriminant relayStarted)

/-- No part of a trial changes the gate. -/
theorem lasts_gate (gate : Gate) : Lasts fun _ s => s.gate = gate := by
  constructor
  · intro scopes n s hs
    rw [after_probe]
    exact hs
  · intro scopes n s hs
    rw [after_probe]
    exact hs

theorem planOf_relay {s : Registry} (hgate : s.gate = .default) :
    planOf relay [Text.of "s"] .empty 0 s = .ok relayPlan s := by
  unfold planOf
  have hnew : (Dict.empty : Dict Nat CasePlan).get? 0 = none := rfl
  simp only [hnew]
  rw [bind_of_ok (rfl : (get : Probe Registry) s = .ok s s), hgate]
  rfl

/-- The first case is taken, and then the loop ends with the value that the second one tests for. -/
theorem relay_follows : Follows relay roomySandbox [⟨.bool true, 0, relayPlan⟩] (.falsy .null)
    (after relayDiscriminant relayOnce) := by
  have hinit : runInit relay.init (trialScopes roomySandbox) (trialStart roomySandbox) =
      .ok () relayStarted := ok_of_hasEnded (by decide +kernel)
  have hfirst : relayDiscriminant relayStarted = .ok (.bool true) _ :=
    ok_of_truthOf? (b := some true) (by decide +kernel)
  have honce : runUpdates (trialScopes roomySandbox) relayPlan.updates
      (after relayDiscriminant relayStarted) = .ok () relayOnce := ok_of_hasEnded (by decide +kernel)
  have hlast : relayDiscriminant relayOnce = .ok .null _ :=
    ok_of_truthOf? (b := none) (by decide +kernel)
  have hlasts := lasts_gate .default
  have hgate : relayStarted.gate = .default :=
    hlasts.runInit relay.init _ (probe_eq_ok (probe_scratch roomySandbox)).2
  have hgate₁ := hlasts.evaluate (trialScopes roomySandbox) relay.discriminant _ hgate
  refine ⟨[.bool true, .null], rfl, relayStarted, hinit, ?_⟩
  refine .takes (.takes ⟨_, rfl, hfirst⟩ (by simp) rfl) (planOf_relay hgate₁) honce rfl rfl ?_
  exact .ends (.falsy ⟨_, rfl, hlast⟩ rfl rfl)

/-- The loop is taken apart. -/
theorem relay_replaced :
    (unflatten relay (fun _ => false) 10).run roomySandbox =
      .ok (written .empty [⟨.bool true, 0, relayPlan⟩]) (after relayDiscriminant relayOnce) := by
  obtain ⟨values, hvalues, s₁, hinit, hcourse⟩ := relay_follows
  have hrun := run_of_course hcourse (show _ ≤ 10 by decide) []
  have hcheck : check (requireDeterministic roomySandbox.gate (relay.init ::
      relay.test.toList ++ relay.update.toList ++ [relay.discriminant])) roomySandbox =
        .ok () roomySandbox := rfl
  have htests : check (tests relay.cases) roomySandbox = .ok values roomySandbox := by
    rw [hvalues]
    rfl
  have hnames : stateNames relay.init = [Text.of "s"] := rfl
  rw [hnames] at hrun
  unfold EStateM.run unflatten
  simp only [hnames, List.isEmpty_cons, Bool.false_eq_true, if_false]
  rw [bind_of_ok (rfl : (get : Probe Registry) roomySandbox = .ok _ _), bind_of_ok hcheck,
    bind_of_ok htests, bind_of_ok (probe_scratch roomySandbox), bind_of_ok hinit]
  exact hrun

/-- The course of the loop: it ends with the value for which the second case tests, and this case was not
taken. -/
theorem relay_drops_second_case :
    ∃ out s', (unflatten relay (fun _ => false) 10).run roomySandbox = .ok out s' ∧
      ∃ (ds : List Taken) (c : Node), Follows relay roomySandbox ds (.falsy .null) s' ∧ out = written .empty ds ∧
        relay.cases[1]? = some c ∧ TestsFor c .null ∧
        ∀ (i : Nat) (d : Taken), ds[i]? = some d → relay.cases[d.index]? ≠ some c := by
  obtain ⟨ds, f, hfollows, hunique, hout, -, -, hfalsy⟩ :=
    falsy_stop_takes_case_first_or_never relay_replaced
  obtain ⟨rfl, rfl, -⟩ := hunique _ _ _ relay_follows
  have htests : TestsFor (relay.cases.getD 1 (.leaf .hole)) .null := ⟨_, rfl, rfl, rfl⟩
  have hfirst : ∀ c, relay.cases[0]? = some c → TestsFor c (.bool true) := by
    intro c hc
    cases hc
    exact ⟨_, rfl, rfl, rfl⟩
  refine ⟨_, _, relay_replaced, _, _, relay_follows, rfl, rfl, htests, fun i d hd hc => ?_⟩
  obtain rfl : i = 0 := (hfalsy _ rfl).2.2 _ _ htests rfl i d hd hc
  cases hd
  cases (hfirst _ hc).unique htests

end Untangle.Dispatch
