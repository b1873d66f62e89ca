import Untangle.Proofs.Sandbox.Limits

set_option autoImplicit false

/-!
# How many functions run inside of each other

A machine counts the calls it is in and refuses to go deeper than its limit.  The count is compared with
another one, which is kept outside of the machine: code is run by a meaning that knows how many bodies
of functions are being run, and that does something else in place of a body that would be one too many.
What it would do then makes no difference to any run, however calls are made and left: that body never
runs.

A function counts from the start of its body.  The default values of its parameters are evaluated before
and still count for the caller, so that any number of functions can wait for the default values of each
other.

The main theorem is `bodies_within_limit`, for every program.  What is bounded is the number of bodies, and
not the number of calls.
-/

namespace Untangle.Sandbox

/-! ## Meanings that count -/

/-- Code means the same as outside of functions, but the bodies of functions are run by another meaning, if
there may be one more of them. -/
def Meaning.counting (beyond : Node → ScopeChain → Run Value) (bound active : Nat)
    (outside inside : Evaluator) : Meaning :=
  { outside with
    body := fun n scopes =>
      Run.deeper (if active < bound then Run.runBody inside n scopes else beyond n scopes) }

/-- The meaning of code inside of a number of bodies of functions.  Where there would be more of them than
a bound, the body is not run but something else is. -/
def watched (beyond : Node → ScopeChain → Run Value) (bound : Nat) : Nat → Nat → Evaluator
  | 0, _ => evaluator 0
  | depth + 1, active =>
    { expression := fun n scopes m =>
        Run.evaluateExpression (watched beyond bound depth active) n scopes m
      statement := fun n scopes m =>
        Run.executeStatement (watched beyond bound depth active) n scopes m
      call := fun f this args m =>
        Run.callAs
          (.counting beyond bound active (watched beyond bound depth active)
            (watched beyond bound depth (active + 1)))
          f this args m }

namespace Run

/-- Evaluates an expression with a new budget, by a given meaning of code. -/
def evaluateBy (ev : Evaluator) (n : Node) (scopes : ScopeChain) : Run Value :=
  fresh (ev.expression n scopes)

/-- Executes a statement, or declares one variable of a declaration, with a new budget, by a given meaning
of code. -/
def executeBy (ev : Evaluator) (n : Node) (scopes : ScopeChain) : Run Unit :=
  match n.form with
  | .variableDeclarator => fresh do declareVariable ev n scopes (← varScope scopes)
  | _ => fresh (ev.statement n scopes)

end Run

theorem evaluate_eq_evaluateBy (n : Node) (scopes : ScopeChain) :
    Run.evaluate n scopes = Run.evaluateBy (evaluator nestingLimit) n scopes := rfl

theorem execute_eq_executeBy (n : Node) (scopes : ScopeChain) :
    Run.execute n scopes = Run.executeBy (evaluator nestingLimit) n scopes := rfl

/-! ## The same count inside and outside of the machine -/

/-- A machine that has counted a number of calls. -/
structure Machine.Inside (active bound : Nat) (m : Machine) : Prop where
  depth : m.depth = active
  maxDepth : m.maxDepth = bound

/-- Two computations that do the same on machines that have counted a number of calls, and leave the
count as it is. -/
def Agree {α : Type} (active bound : Nat) (c c' : Run α) : Prop :=
  ∀ m, m.Inside active bound → c' m = c m ∧ (stateOf (c m)).Inside active bound

/-- Two meanings of all code that agree inside of a number of calls. -/
structure Evaluator.Agree (active bound : Nat) (ev ev' : Evaluator) : Prop where
  expression : ∀ n scopes, Sandbox.Agree active bound (ev.expression n scopes)
    (ev'.expression n scopes)
  statement : ∀ n scopes, Sandbox.Agree active bound (ev.statement n scopes)
    (ev'.statement n scopes)
  call : ∀ f this args, Sandbox.Agree active bound (ev.call f this args) (ev'.call f this args)

/-- The policy under which all code may run, with what is known of calls that the limit lets pass. -/
def Policy.any (room : Prop) : Policy where
  Fit _ _ := True
  Room := room
  part _ _ := trivial
  slot _ _ := trivial
  inner _ _ := trivial
  present _ _ := trivial

theorem Policy.good_any (room : Prop) (m : Machine) : (Policy.any room).Good m :=
  ⟨trivial, fun _ => ⟨fun _ _ _ _ => ⟨trivial, .inr fun _ => trivial⟩, fun _ _ => trivial⟩⟩

namespace Agree

variable {α β : Type} {active bound : Nat} {m : Machine}

theorem of_ok {c c' : Run α} (h : Agree active bound c c') (hm : m.Inside active bound) {a : α}
    {m₁ : Machine} (hrun : c m = .ok a m₁) : c' m = .ok a m₁ ∧ m₁.Inside active bound := by
  obtain ⟨heq, hinside⟩ := h m hm
  rw [hrun] at heq hinside
  exact ⟨heq, hinside⟩

theorem of_error {c c' : Run α} (h : Agree active bound c c') (hm : m.Inside active bound)
    {x : Abrupt} {m₁ : Machine} (hrun : c m = .error x m₁) :
    c' m = .error x m₁ ∧ m₁.Inside active bound := by
  obtain ⟨heq, hinside⟩ := h m hm
  rw [hrun] at heq hinside
  exact ⟨heq, hinside⟩

/-- A computation that leaves the count as it is agrees with itself. -/
theorem of_depth {c : Run α} (h : ∀ m, (stateOf (c m)).depth = m.depth ∧
    (stateOf (c m)).maxDepth = m.maxDepth) : Agree active bound c c :=
  fun m hm => ⟨rfl, (h m).1.trans hm.depth, (h m).2.trans hm.maxDepth⟩

theorem bind {c c' : Run α} {k k' : α → Run β} (hc : Agree active bound c c')
    (hk : ∀ a, Agree active bound (k a) (k' a)) : Agree active bound (c >>= k) (c' >>= k') := by
  intro m hm
  cases hrun : c m with
  | ok a m₁ =>
    obtain ⟨hrun', hm₁⟩ := hc.of_ok hm hrun
    rw [bind_of_ok hrun, bind_of_ok hrun']
    exact hk a m₁ hm₁
  | error x m₁ =>
    obtain ⟨hrun', hm₁⟩ := hc.of_error hm hrun
    rw [bind_of_error hrun, bind_of_error hrun']
    exact ⟨rfl, hm₁⟩

theorem guarded {c c' : Run α} {handler handler' : Abrupt → Run α} (hc : Agree active bound c c')
    (hhandler : ∀ x, Agree active bound (handler x) (handler' x)) :
    Agree active bound (tryCatch c handler) (tryCatch c' handler') := by
  intro m hm
  cases hrun : c m with
  | ok a m₁ =>
    obtain ⟨hrun', hm₁⟩ := hc.of_ok hm hrun
    rw [tryCatch_of_ok hrun, tryCatch_of_ok hrun']
    exact ⟨rfl, hm₁⟩
  | error x m₁ =>
    obtain ⟨hrun', hm₁⟩ := hc.of_error hm hrun
    rw [tryCatch_of_error hrun, tryCatch_of_error hrun']
    exact hhandler x m₁ hm₁

theorem thenAlways {c c' : Run α} {after after' : Run Unit} (hc : Agree active bound c c')
    (hafter : Agree active bound after after') :
    Agree active bound (Run.thenAlways c after) (Run.thenAlways c' after') := by
  intro m hm
  obtain ⟨heq, hinside⟩ := hc m hm
  obtain ⟨heq', hinside'⟩ := hafter _ hinside
  refine ⟨?_, ?_⟩
  · rw [thenAlways_eq, thenAlways_eq, heq, heq']
  · rw [stateOf_thenAlways]
    exact hinside'

theorem rounds {round round' : Run Bool} (hround : Agree active bound round round') (fuel : Nat) :
    Agree active bound (Run.rounds round fuel) (Run.rounds round' fuel) := by
  induction fuel with
  | zero => exact .of_depth fun _ => ⟨rfl, rfl⟩
  | succ fuel ih =>
    refine hround.bind fun more => ?_
    split
    · exact ih
    · exact .of_depth fun _ => ⟨rfl, rfl⟩

/-- Calls that the limit refuses are refused by both; of the others it is known that there is room. -/
theorem entered {c c' : Run α} (hc : active < bound → Agree active bound c c') :
    Agree active bound (Run.entered c) (Run.entered c') := by
  intro m hm
  have hrun : Run.entered c m = _ := entered_eq c m
  have hrun' : Run.entered c' m = _ := entered_eq c' m
  rw [hrun, hrun']
  split
  · exact ⟨rfl, hm⟩
  · next hroom =>
    rw [hm.depth, hm.maxDepth] at hroom
    exact hc (Nat.lt_of_not_ge hroom) m hm

/-- One call deeper the count is one higher, and it is as before when the call is left. -/
theorem deeper {c c' : Run α} (hc : Agree (active + 1) bound c c') :
    Agree active bound (Run.deeper c) (Run.deeper c') := by
  intro m hm
  have hm₁ : Machine.Inside (active + 1) bound { m with depth := m.depth + 1 } :=
    ⟨congrArg (· + 1) hm.depth, hm.maxDepth⟩
  obtain ⟨heq, hinside⟩ := hc _ hm₁
  have hrun : Run.deeper c m = _ := deeper_eq c m
  have hrun' : Run.deeper c' m = _ := deeper_eq c' m
  rw [hrun, hrun']
  refine ⟨?_, ?_⟩
  · rw [thenAlways_eq, thenAlways_eq, heq]
  · rw [stateOf_thenAlways]
    refine ⟨?_, hinside.maxDepth⟩
    show (stateOf (c { m with depth := m.depth + 1 })).depth - 1 = active
    rw [hinside.depth]
    rfl

/-- What is built alike agrees if the code inside does. -/
theorem of_built {e e' : Meaning} {inner : Option ScopeChain}
    (hev : Evaluator.Agree active bound e.toEvaluator e'.toEvaluator)
    (hbody : active < bound → ∀ n scopes, Agree active bound (e.body n scopes) (e'.body n scopes))
    {c c' : Run α} (h : Built (.any (active < bound)) e e' inner c c') :
    Agree active bound c c' := by
  induction h with
  | result a => exact .of_depth fun _ => ⟨rfl, rfl⟩
  | stop _ => exact .of_depth fun _ => ⟨rfl, rfl⟩
  | look _ _ ih => exact fun m hm => ih m (Policy.good_any _ m) m hm
  | allocate _ => exact .of_depth fun _ => ⟨rfl, rfl⟩
  | setCell _ _ => exact .of_depth fun _ => ⟨rfl, rfl⟩
  | declare _ v => exact .of_depth fun _ => ⟨rfl, rfl⟩
  | scope _ _ _ ih =>
    exact (of_depth fun _ => ⟨rfl, rfl⟩).bind fun f => ih f fun _ => trivial
  | @target _ kind scopes _ _ _ ih =>
    refine (of_depth fun m => ?_).bind fun f => ih f fun _ => trivial
    unfold Run.declarationScope
    split
    · exact ⟨rfl, rfl⟩
    · cases scopes <;> exact ⟨rfl, rfl⟩
  | tick =>
    refine .of_depth fun m => ?_
    rw [tick_eq]
    split <;> exact ⟨rfl, rfl⟩
  | expression _ => exact hev.expression _ _
  | statement _ => exact hev.statement _ _
  | call _ args => exact hev.call _ _ args
  | body hroom _ => exact hbody hroom _ _
  | bind _ _ ihc ihk => exact ihc.bind ihk
  | guarded _ _ _ ihc ihhandler => exact ihc.guarded fun x => ihhandler x trivial
  | finalized _ _ _ ih => exact ih.thenAlways (hev.statement _ _)
  | loop _ _ ih => exact fun m hm => ih.rounds _ m hm
  | entered _ ih => exact .entered ih

/-- What is built alike without bodies of functions agrees if the code inside does. -/
theorem of_bodiless {ev ev' : Evaluator} (hev : ev.Agree active bound ev')
    (inner : Option ScopeChain) {c c' : Run α}
    (h : Built (.any (active < bound)) ev.bodiless ev'.bodiless inner c c') :
    Agree active bound c c' := by
  have hbody : active < bound → ∀ n scopes,
      Agree active bound (ev.bodiless.body n scopes) (ev'.bodiless.body n scopes) :=
    fun _ _ _ => .of_depth fun _ => ⟨rfl, rfl⟩
  exact of_built hev hbody h

theorem fresh {c c' : Run α} (hc : Agree 0 bound c c') {m : Machine} (hm : m.maxDepth = bound) :
    Run.fresh c' m = Run.fresh c m := by
  refine (guarded hc (fun x => ?_) { m with steps := 0, depth := 0 } ⟨rfl, hm⟩).1
  refine .of_depth fun m => ?_
  cases x <;> exact ⟨rfl, rfl⟩

end Agree

/-- Executions by meanings that agree do what agrees, with a new budget. -/
theorem Evaluator.Agree.exists_executeBy {bound : Nat} {ev ev' : Evaluator}
    (hev : ev.Agree 0 bound ev') (n : Node) (scopes : ScopeChain) :
    ∃ c c', Run.executeBy ev n scopes = Run.fresh c ∧ Run.executeBy ev' n scopes = Run.fresh c' ∧
      Sandbox.Agree 0 bound c c' := by
  unfold Run.executeBy
  split
  · refine ⟨_, _, rfl, rfl, .of_bodiless hev (some scopes) (.varScope fun f hf => ?_)⟩
    exact .declareVariable (fun _ _ => trivial) (fun _ _ => trivial) fun name _ => hf name
  · exact ⟨_, _, rfl, rfl, hev.statement n scopes⟩

/-- Inside of as many calls as the machine has counted, code means the same if bodies of functions are
counted from outside. -/
theorem agree_watched (beyond : Node → ScopeChain → Run Value) (bound depth active : Nat) :
    (evaluator depth).Agree active bound (watched beyond bound depth active) := by
  induction depth generalizing active with
  | zero =>
    exact
      { expression := fun _ _ => .of_depth fun _ => ⟨rfl, rfl⟩
        statement := fun _ _ => .of_depth fun _ => ⟨rfl, rfl⟩
        call := fun _ _ _ => .of_depth fun _ => ⟨rfl, rfl⟩ }
  | succ depth ih =>
    refine ⟨fun n scopes => ?_, fun n scopes => ?_, fun f this args => ?_⟩
    · exact .of_bodiless (ih active) none (.evaluateExpression trivial)
    · exact .of_bodiless (ih active) (some scopes)
        (.executeStatement (evaluator_advances depth) trivial)
    · have h : Built (.any (active < bound)) (evaluator depth).meaning
          (.counting beyond bound active (watched beyond bound depth active)
            (watched beyond bound depth (active + 1))) none _ _ :=
        .callAs f this trivial args
      refine .of_built (ih active) (fun hroom n scopes => .deeper ?_) h
      -- There is room for one more body, and inside of it one more is counted.
      rw [if_pos hroom]
      exact .of_bodiless (ih (active + 1)) (some scopes) (.runBody trivial)

/-- At no moment of a run are more bodies of functions being run than the machine allows calls inside of
each other: a run ends in the same way, and on the same machine, whatever would be done in place of a
body that is one too many. -/
theorem bodies_within_limit (beyond : Node → ScopeChain → Run Value) (n : Node) (scopes : ScopeChain)
    (m : Machine) :
    Run.evaluateBy (watched beyond m.maxDepth nestingLimit 0) n scopes m = Run.evaluate n scopes m ∧
      Run.executeBy (watched beyond m.maxDepth nestingLimit 0) n scopes m =
        Run.execute n scopes m := by
  have hev := agree_watched beyond m.maxDepth nestingLimit 0
  obtain ⟨c, c', heq, heq', hagree⟩ := hev.exists_executeBy n scopes
  rw [evaluate_eq_evaluateBy, execute_eq_executeBy, heq, heq']
  exact ⟨(hev.expression n scopes).fresh rfl, hagree.fresh rfl⟩

/-- `(function (a = (function () { return true; })()) { return a; })()` -/
def defaultCall : Node :=
  .mk 0 .top .call
    [.mk 1 .callee (.functionExpression ⟨false, false, false⟩)
      [.mk 2 .params .assignmentPattern
        [.mk 3 .left (.identifier (Text.of "a")) [],
         .mk 4 .right .call
          [.mk 5 .callee (.functionExpression ⟨false, false, false⟩)
            [.mk 6 .body .blockStatement
              [.mk 7 .body .returnStatement [.mk 8 .argument (.literal (.bool true)) []]]]]],
       .mk 9 .body .blockStatement
        [.mk 10 .body .returnStatement [.mk 11 .argument (.identifier (Text.of "a")) []]]]]

/-- A function that waits for a default value does not count: the function that gives the value is called
although the limit is a single call.  Where no body may run, the other thing is done. -/
example : boolOf? (Run.evaluate defaultCall [0] (blankMachine 20 1)) = some true ∧
    boolOf? (Run.evaluateBy (watched (fun _ _ => pure (.bool false)) 0 nestingLimit 0) defaultCall [0]
      (blankMachine 20 1)) = some false := by
  decide +kernel

end Untangle.Sandbox
