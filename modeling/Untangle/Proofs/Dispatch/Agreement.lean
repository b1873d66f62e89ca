import Untangle.Proofs.Dispatch.Entry
import Untangle.Proofs.Sandbox.Startup

set_option autoImplicit false

/-!
# Loops that are taken apart

A dispatch loop that is taken apart gives the statements that its run executes, in their order.  Two
conditions are needed.  The limits of the sandbox must not act on the parts that the trial runs: a trial
whose parts stop at a limit inside of code that catches the stop may end all the same.  And block
variables without a value must be unset where they are declared, since a trial declares them in the scope
that takes assignments to names that nothing declares.

The main theorem is `unflatten_executes`, for every loop that is taken apart in a sandbox of a run and any
number of dispatches: there is a bound from which on, with any higher limits, the statement ends and
executes exactly the statements that it is replaced by.  Both conditions are places at which the two differ
otherwise, and a third one, that no case which could follow tests for the false value that ends the loop, is
the subject of `falsy_stop_takes_case_first_or_never`.
-/

namespace Untangle.Dispatch

open Sandbox Pairing

/-! ## Executed statements -/

/-- A loop executes exactly some statements of its cases that do not concern the dispatch: its run ends,
and it acts on all worlds as the statements do, one after the other. -/
def Executes (names : List Text) (n : Node) (m : Machine) (limits : Limits) (ns : List Node) : Prop :=
  ∀ (effect : Effect) (w : Frame),
    ∃ m', observe names effect n m w limits = .ok () m' ∧
      m'.frame m.frames.size = worldAfter effect ns w

/-- A world that counts. -/
def counter (i : Nat) : Frame := ⟨⟨List.replicate i ([], .undefined)⟩, false, false⟩

/-- A world that no longer counts. -/
def stopped : Frame := ⟨.empty, true, true⟩

@[simp]
theorem size_counter (i : Nat) : (counter i).bindings.size = i := by
  simp [counter, Dict.size]

theorem counter_injective {i j : Nat} (h : counter i = counter j) : i = j := by
  rw [← size_counter i, h, size_counter]

theorem stopped_ne_counter (i : Nat) : stopped ≠ counter i := by
  intro h
  cases congrArg Frame.isFunction h

open Classical in
/-- Counts statements as long as they are those of a list. -/
noncomputable def expecting (ns : List Node) : Effect := fun n w =>
  let i := w.bindings.size
  if w = counter i ∧ ns[i]? = some n then counter (i + 1) else stopped

theorem expecting_counter {ns : List Node} {n : Node} {i : Nat} (h : ns[i]? = some n) :
    expecting ns n (counter i) = counter (i + 1) := by
  simp [expecting, h]

theorem expecting_other {ns : List Node} {n : Node} {i : Nat} (h : ns[i]? ≠ some n) :
    expecting ns n (counter i) = stopped := by
  simp [expecting, h]

theorem expecting_stopped (ns : List Node) (n : Node) : expecting ns n stopped = stopped := by
  have hne := stopped_ne_counter stopped.bindings.size
  simp [expecting, hne]

theorem foldl_expecting_stopped (ns ks : List Node) :
    ks.foldl (fun w n => expecting ns n w) stopped = stopped := by
  induction ks with
  | nil => rfl
  | cons k ks ih => rw [List.foldl_cons, expecting_stopped, ih]

/-- The count comes to the length of the list only if all statements are those of the list. -/
theorem foldl_expecting {ns ks : List Node} {i : Nat} (hi : i ≤ ns.length) :
    ks.foldl (fun w n => expecting ns n w) (counter i) = counter ns.length ↔ ks = ns.drop i := by
  induction ks generalizing i with
  | nil =>
    rw [List.foldl_nil, eq_comm (a := []), List.drop_eq_nil_iff]
    constructor
    · intro h
      exact Nat.le_of_eq (counter_injective h).symm
    · intro h
      rw [Nat.le_antisymm h hi]
  | cons k ks ih =>
    rw [List.foldl_cons]
    by_cases hk : ns[i]? = some k
    · obtain ⟨hlt, hget⟩ := List.getElem?_eq_some_iff.mp hk
      rw [expecting_counter hk, ih hlt, List.drop_eq_getElem_cons hlt, hget, List.cons.injEq]
      exact (and_iff_right rfl).symm
    · rw [expecting_other hk, foldl_expecting_stopped]
      constructor
      · intro h
        exact absurd h (stopped_ne_counter _)
      · intro h
        have hhead : (ns.drop i)[0]? = some k := by rw [← h]; rfl
        rw [List.getElem?_drop, Nat.add_zero] at hhead
        exact absurd hhead hk

/-- The statements that a loop executes are determined up to their numbers. -/
theorem Executes.unique {names : List Text} {n : Node} {m : Machine} {limits : Limits}
    {ns ns' : List Node} (h : Executes names n m limits ns) (h' : Executes names n m limits ns') :
    ns.map Node.unnumbered = ns'.map Node.unnumbered := by
  let expected := ns.map Node.unnumbered
  obtain ⟨m₁, hrun, hworld⟩ := h (expecting expected) (counter 0)
  obtain ⟨m₁', hrun', hworld'⟩ := h' (expecting expected) (counter 0)
  rw [hrun] at hrun'
  cases hrun'
  have hfold : ∀ ks : List Node, worldAfter (expecting expected) ks (counter 0) =
      (ks.map Node.unnumbered).foldl (fun w n => expecting expected n w) (counter 0) := by
    intro ks
    rw [worldAfter, List.foldl_map]
  have hcount : (ns.map Node.unnumbered).foldl (fun w n => expecting expected n w) (counter 0) =
      counter expected.length := (foldl_expecting (Nat.zero_le _)).mpr rfl
  rw [hworld, hfold, hfold, hcount] at hworld'
  exact ((foldl_expecting (Nat.zero_le _)).mp hworld'.symm).symm

/-! ## The run of a loop -/

theorem check_eq_ok {α : Type} {r : Except Stop α} {s s' : Registry} {a : α}
    (h : check r s = .ok a s') : r = .ok a ∧ s' = s := by
  cases r with
  | error e => cases h
  | ok b =>
    cases h
    exact ⟨rfl, rfl⟩

theorem probe_scratch (s : Registry) : probe Run.scratch s = .ok (trialScopes s) (trialStart s) := by
  have hscratch : Run.scratch s.machine = .ok (trialScopes s) (s.machine.after Run.scratch) := rfl
  have hprobe := probe_of_ok hscratch
  rw [hprobe, trialStart, after_of_ok hprobe]

/-- A loop that is taken apart goes through a trial. -/
theorem unflatten_eq_ok {loop : Loop} {readOutside : List Text → Bool} {maxDispatches : Nat}
    {s s' : Registry} {out : List Node}
    (h : (unflatten loop readOutside maxDispatches).run s = .ok out s') :
    ∃ values s₁, tests loop.cases = .ok values ∧
      runInit loop.init (trialScopes s) (trialStart s) = .ok () s₁ ∧
      run loop (stateNames loop.init) values (trialScopes s) maxDispatches false .empty [] s₁ =
        .ok out s' := by
  unfold unflatten EStateM.run at h
  simp only at h
  split at h
  · cases h
  split at h
  · cases h
  obtain ⟨g, s₁, hget, h₁⟩ := bind_eq_ok.mp h
  cases hget
  obtain ⟨_, s₂, hcheck, h₂⟩ := bind_eq_ok.mp h₁
  obtain ⟨-, rfl⟩ := check_eq_ok hcheck
  obtain ⟨values, s₃, htests, h₃⟩ := bind_eq_ok.mp h₂
  obtain ⟨hvalues, rfl⟩ := check_eq_ok htests
  rw [bind_of_ok (probe_scratch _)] at h₃
  obtain ⟨_, s₁, hinit, hrun⟩ := bind_eq_ok.mp h₃
  exact ⟨values, s₁, hvalues, hinit, hrun⟩

/-- A `for` statement runs its initializer and then its rounds. -/
theorem observe_of_rounds {names : List Text} {effect : Effect} {n body switch : Node} {loop : Loop}
    {m m₁ m₂ : Machine} {w : Frame} {limits : Limits} {depth : Nat} (hform : n.form = .forStatement)
    (hshape : Shape n loop body switch) (hnesting : limits.nesting = depth + 3)
    (hsteps : 1 ≤ limits.steps)
    (hinit : Run.runInit (loopEvaluator names m.frames.size effect (depth + 2)) (some loop.init)
      (loopScopes m) (loopStart m w limits) = .ok () m₁)
    (hrounds : Run.repeatRounds (loopRound (loopEvaluator names m.frames.size effect (depth + 2)) loop
      body (loopScopes m)) m₁ = .ok () m₂) :
    observe names effect n m w limits = .ok () m₂ := by
  have hscratch : Run.scratch (withWorld m w limits) = .ok ((m.frames.size + 1) :: m.globalChain)
      { withWorld m w limits with frames := (m.frames.push w).push ⟨.empty, true, true⟩ } := by
    rw [← Array.size_push w]
    rfl
  have htick : Run.tick
      { withWorld m w limits with frames := (m.frames.push w).push ⟨.empty, true, true⟩ } = .ok ()
        { withWorld m w limits with
          frames := (m.frames.push w).push ⟨.empty, true, true⟩, steps := 1 } :=
    tick_of_room hsteps
  have hblock : Run.blockScope ((m.frames.size + 1) :: m.globalChain)
      { withWorld m w limits with
        frames := (m.frames.push w).push ⟨.empty, true, true⟩, steps := 1 } =
        .ok (loopScopes m) (loopStart m w limits) := by
    have hsize : ((m.frames.push w).push ⟨.empty, true, true⟩).size = m.frames.size + 2 := by simp
    rw [loopScopes, ← hsize]
    rfl
  have hbody : Run.part n .body m₁ = .ok body m₁ := by
    unfold Run.part
    rw [hshape.body]
    rfl
  unfold observe
  rw [bind_of_ok hscratch, hnesting, loopEvaluator_statement (by simp [hform])]
  unfold Run.executeStatement
  rw [bind_of_ok htick]
  simp only [hform]
  unfold Run.runFor
  rw [bind_of_ok hblock, hshape.init, bind_of_ok hinit, bind_of_ok hbody, hshape.test, hshape.update]
  exact hrounds

/-! ## A loop with two dispatches -/

/-- The loop `for (let s = 'a', t;;) { switch (s) { case 'a': f(); s = 'b'; continue; case 'b': g(); s = null;
continue; } break; }`. -/
def twoStatesLoop : Node :=
  let state := Node.ident "s"
  let text := fun (name : Text) => Node.literal (.string name)
  let call := fun (name : Text) => Node.expressionStatement none (.call (.ident name) [])
  let set := fun value => Node.expressionStatement none (.assignment .plain state value)
  let case := fun test name next =>
    Node.switchCase (some test) [call name, set next, .continueStatement none]
  let switch := Node.switchStatement state
    [case (text "a") "f" (text "b"), case (text "b") "g" (.literal .null)]
  let init := Node.variableDeclaration .lexical
    [.variableDeclarator state (some (text "a")), .variableDeclarator (.ident "t") none]
  Node.forStatement (some init) none none (.block [switch, .breakStatement none])

/-- Its parts. -/
def twoStates : Loop := (Loop.ofNode? twoStatesLoop).get (by decide)

section

variable {m : Machine} {f : FrameId} {c : ScopeChain}

/-- The machine after an evaluation that sets the state. -/
def stateSet (m : Machine) (f : FrameId) (steps : Nat) (v : Value) : Machine :=
  declared { m with steps := steps } f (Text.of "s") v

/-- The first scope has the state. -/
def HasState (m : Machine) (f : FrameId) (v : Value) : Prop :=
  f < m.frames.size ∧ (m.frame f).bindings.get? (Text.of "s") = some v

theorem hasState_stateSet (hf : f < m.frames.size) (steps : Nat) (v : Value) :
    HasState (stateSet m f steps v) f v := by
  have hf' : f < ({ m with steps := steps } : Machine).frames.size := hf
  refine ⟨(size_declared _ f _ v).symm ▸ hf', ?_⟩
  rw [stateSet, frame_declared_self _ hf']
  exact Dict.get?_put_self _ _ _

theorem HasState.findScope {v : Value} (h : HasState m f v) : m.findScope (Text.of "s") (f :: c) = some f := by
  unfold Machine.findScope Dict.contains
  rw [h.2]
  rfl

/-- The declarator of the state. -/
def stateDeclarator : Node :=
  (Node.variableDeclarator (Node.ident "s") (some (Node.literal (.string "a")))).inRole .declarations

theorem declare_state (hroom : 2 ≤ m.maxSteps) (depth : Nat) :
    Run.declareVariable (evaluator (depth + 1)) stateDeclarator (f :: c) f { m with steps := 1 } =
      .ok () (stateSet m f 2 (.string "a")) := by
  have hvalue : (evaluator (depth + 1)).expression ((Node.literal (.string "a")).inRole .init) (f :: c)
      { m with steps := 1 } = .ok (.string "a") { m with steps := 2 } :=
    expression_literal rfl rfl rfl (by simp only; omega)
  exact declareVariable_of_init rfl rfl hvalue

theorem after_declare_state (hsteps : m.steps = 0) (hroom : 2 ≤ m.maxSteps) (depth : Nat) :
    m.after (do Run.tick; Run.declareAll (evaluator (depth + 1)) (f :: c) f [stateDeclarator]) =
      stateSet m f 2 (.string "a") := by
  have htick : Run.tick m = .ok () { m with steps := 1 } := by
    rw [tick_of_room (by omega), hsteps]
  exact Machine.after_of_ok ((bind_of_ok htick).trans (bind_of_ok (declare_state hroom depth)))

/-- In a new scope nothing but the state is declared then. -/
theorem get?_stateSet_other (hframe : m.frame f = ⟨.empty, true, true⟩) (hf : f < m.frames.size) (steps : Nat)
    (v : Value) : ((stateSet m f steps v).frame f).bindings.get? (Text.of "t") = none := by
  have hf' : f < ({ m with steps := steps } : Machine).frames.size := hf
  rw [stateSet, frame_declared_self _ hf']
  show ((m.frame f).bindings.put (Text.of "s") v).get? (Text.of "t") = none
  rw [hframe]
  rfl

/-- The state and the variable without a value are declared in the first scope. -/
theorem init_twoStates (hsteps : m.steps = 0) (hroom : 2 ≤ m.maxSteps)
    (hframe : m.frame f = ⟨.empty, true, true⟩) (hf : f < m.frames.size) (depth : Nat) :
    Stage.init.code twoStates (f :: c) (depth + 3) m =
      .ok .undefined (declared (stateSet m f 2 (.string "a")) f (Text.of "t") .undefined) := by
  have htick : Run.tick m = .ok () { m with steps := 1 } := by
    rw [tick_of_room (by omega), hsteps]
  have hstate := declare_state (f := f) (c := c) hroom (depth + 1)
  have hfree : ((stateSet m f 2 (.string "a")).frame f).bindings.contains (Text.of "t") = false := by
    unfold Dict.contains
    rw [get?_stateSet_other hframe hf]
    rfl
  have hother : Run.declareVariable (evaluator (depth + 2))
      ((Node.variableDeclarator (Node.ident "t") none).inRole .declarations) (f :: c) f
      (stateSet m f 2 (.string "a")) =
        .ok () (declared (stateSet m f 2 (.string "a")) f (Text.of "t") .undefined) :=
    declareVariable_of_unbound rfl rfl hfree
  have hall : Run.declareAll (evaluator (depth + 2)) (f :: c) f (twoStates.init.childrenAt .declarations)
      { m with steps := 1 } =
        .ok () (declared (stateSet m f 2 (.string "a")) f (Text.of "t") .undefined) :=
    (bind_of_ok hstate).trans (bind_of_ok hother)
  show (do
    Run.executeStatement (evaluator (depth + 2)) twoStates.init (f :: c)
    return Value.undefined) m = _
  have hform : twoStates.init.form = .variableDeclaration .lexical := rfl
  rw [executeStatement_block _ hform (by decide), bind_assoc, bind_of_ok htick, bind_of_ok hall]
  rfl

theorem discriminant_twoStates {v : Value} (hsteps : m.steps = 0) (hroom : 1 ≤ m.maxSteps)
    (hstate : HasState m f v) (started : Bool) (depth : Nat) :
    (Stage.discriminant started).code twoStates (f :: c) (depth + 3) m = .ok v { m with steps := 1 } := by
  have htick : Run.tick m = .ok () { m with steps := 1 } := by
    rw [tick_of_room (by omega), hsteps]
  have hstate' : HasState { m with steps := 1 } f v := hstate
  show Run.evaluateExpression (evaluator (depth + 2)) twoStates.discriminant (f :: c) m = _
  unfold Run.evaluateExpression
  rw [bind_of_ok htick]
  show Run.lookup (f :: c) (Text.of "s") { m with steps := 1 } = _
  unfold Run.lookup
  rw [bind_of_ok (rfl : (get : Run Machine) _ = .ok _ _), hstate'.findScope]
  show EStateM.Result.ok (m.variable f (Text.of "s")) _ = _
  rw [Machine.variable, hstate.2]
  rfl

/-- A case sets the state to a literal. -/
theorem update_twoStates {old v : Value} {l : Literal} (hsteps : m.steps = 0) (hroom : 3 ≤ m.maxSteps)
    (hstate : HasState m f old) (hregex : l.isRegex = false) (hv : literalOf l = .ok v) (depth : Nat) :
    (Stage.update ((Node.expressionStatement none (.assignment .plain (.ident "s") (.literal l))).inRole
      .consequent)).code twoStates (f :: c) (depth + 3) m = .ok .undefined (stateSet m f 3 v) := by
  have htick : Run.tick m = .ok () { m with steps := 1 } := by
    rw [tick_of_room (by omega), hsteps]
  have htick' : Run.tick { m with steps := 1 } = .ok () { m with steps := 2 } :=
    tick_of_room (by simp only; omega)
  have hvalue : (evaluator (depth + 1)).expression ((Node.literal l).inRole .right) (f :: c)
      { m with steps := 2 } = .ok v { m with steps := 3 } :=
    expression_literal rfl hregex hv (by simp only; omega)
  have hstate' : HasState { m with steps := 3 } f old := hstate
  have hassign : Run.assign (f :: c) (Text.of "s") v { m with steps := 3 } = .ok () (stateSet m f 3 v) := by
    unfold Run.assign
    rw [bind_of_ok (rfl : (get : Run Machine) _ = .ok _ _), hstate'.findScope]
    rfl
  have hset : (evaluator (depth + 2)).expression
      ((Node.assignment .plain (.ident "s") (.literal l)).inRole .expression) (f :: c)
      { m with steps := 1 } = .ok v (stateSet m f 3 v) := by
    show (do
      Run.tick
      let x ← (evaluator (depth + 1)).expression ((Node.literal l).inRole .right) (f :: c)
      Run.assign (f :: c) (Text.of "s") x
      return x : Run Value) { m with steps := 1 } = _
    rw [bind_of_ok htick', bind_of_ok hvalue, bind_of_ok hassign]
    rfl
  have hexecute : (evaluator (depth + 3)).statement
      ((Node.expressionStatement none (.assignment .plain (.ident "s") (.literal l))).inRole .consequent)
      (f :: c) m = .ok () (stateSet m f 3 v) := by
    show (do
      Run.tick
      let _ ← (evaluator (depth + 2)).expression
        ((Node.assignment .plain (.ident "s") (.literal l)).inRole .expression) (f :: c) : Run Unit) m = _
    rw [bind_of_ok htick, bind_of_ok hset]
    rfl
  exact bind_of_ok hexecute

end

/-- The limits of a sandbox do not act on an evaluation that ends in one way as soon as there is room for it. -/
theorem undisturbed_of_room {loop : Loop} {scopes : ScopeChain} {s : Registry} {stage : Stage} {m w : Machine}
    {v : Value} (hroom : 3 ≤ s.machine.maxSteps) (hlimits : withLimits m s.machine.maxSteps s.machine.maxDepth = m)
    (hcode : ∀ maxSteps maxDepth depth, 3 ≤ maxSteps →
      stage.code loop scopes (depth + 3) (withLimits m maxSteps maxDepth) =
        .ok v (withLimits w maxSteps maxDepth)) :
    Evaluation.Undisturbed loop scopes s ⟨stage, m⟩ := by
  intro maxSteps maxDepth depth hsteps hdepth hnesting v' m' hrun
  have hlimit : nestingLimit = 20000 := rfl
  obtain ⟨depth, rfl⟩ : ∃ k, depth = k + 3 := ⟨depth - 3, by omega⟩
  have hfirst := hcode s.machine.maxSteps s.machine.maxDepth 19997 hroom
  rw [hlimits] at hfirst
  cases hrun.symm.trans hfirst
  exact hcode maxSteps maxDepth depth (by omega)

section

variable {s t : Registry} {v : Value}

/-- The sandbox after the initializer. -/
def stateStarted (s : Registry) : Registry :=
  { trialStart s with
    machine := declared (stateSet (trialStart s).machine.renewed s.machine.frames.size 2 (.string "a"))
      s.machine.frames.size "t" .undefined }

/-- The sandbox after the discriminant. -/
def stateRead (t : Registry) : Registry := { t with machine := { t.machine.renewed with steps := 1 } }

/-- The sandbox after a case that sets the state. -/
def stateHanded (s t : Registry) (v : Value) : Registry :=
  { t with machine := stateSet t.machine.renewed s.machine.frames.size 3 v }

theorem frame_trialStart (s : Registry) :
    (trialStart s).machine.renewed.frame s.machine.frames.size = ⟨.empty, true, true⟩ := by
  show ({ s.machine with frames := s.machine.frames.push ⟨.empty, true, true⟩ } : Machine).frame
    s.machine.frames.size = _
  rw [frame_push, if_pos rfl]

theorem lt_size_trialStart (s : Registry) :
    s.machine.frames.size < (trialStart s).machine.renewed.frames.size := by
  show s.machine.frames.size < (s.machine.frames.push _).size
  simp

theorem hasState_started (s : Registry) :
    HasState (stateStarted s).machine s.machine.frames.size (.string "a") := by
  obtain ⟨hsize, hstate⟩ := hasState_stateSet (lt_size_trialStart s) 2 (.string "a")
  refine ⟨(size_declared _ _ _ _).symm ▸ hsize, ?_⟩
  show ((declared _ _ _ _).frame _).bindings.get? _ = _
  rw [frame_declared_self _ hsize]
  exact (Dict.get?_put_of_ne _ (by decide) _).trans hstate

/-- A sandbox of the trial in which the state has a value. -/
structure Waits (s t : Registry) (v : Value) : Prop where
  state : HasState t.machine s.machine.frames.size v
  steps : t.machine.maxSteps = s.machine.maxSteps
  depth : t.machine.maxDepth = s.machine.maxDepth
  gate : t.gate = s.gate

theorem waits_started (s : Registry) : Waits s (stateStarted s) (.string "a") :=
  ⟨hasState_started s, rfl, rfl, (probe_eq_ok (probe_scratch s)).2⟩

theorem Waits.read (h : Waits s t v) : Waits s (stateRead t) v := ⟨h.state, h.steps, h.depth, h.gate⟩

theorem Waits.handed (h : Waits s t v) (w : Value) : Waits s (stateHanded s t w) w :=
  ⟨hasState_stateSet (m := t.machine.renewed) h.state.1 3 w, h.steps, h.depth, h.gate⟩

theorem runInit_twoStates (hroom : 3 ≤ s.machine.maxSteps) :
    runInit twoStates.init (trialScopes s) (trialStart s) = .ok () (stateStarted s) := by
  have hcode := init_twoStates (c := s.machine.globalChain) (m := (trialStart s).machine.renewed)
    rfl (by show 2 ≤ s.machine.maxSteps; omega) (frame_trialStart s) (lt_size_trialStart s) 19997
  obtain ⟨_, m₁, hrun, hend⟩ := bind_eq_ok.mp hcode
  cases hend
  exact probe_of_ok (Machine.fresh_eq_ok.mpr hrun)

theorem probe_state (h : Waits s t v) (hroom : 3 ≤ s.machine.maxSteps) :
    probe (Run.evaluate twoStates.discriminant (trialScopes s)) t = .ok v (stateRead t) := by
  have hcode := discriminant_twoStates (c := s.machine.globalChain) (m := t.machine.renewed)
    rfl (by show 1 ≤ t.machine.maxSteps; rw [h.steps]; omega) h.state true 19997
  exact probe_of_ok (Machine.fresh_eq_ok.mpr hcode)

/-- The texts for which the cases test. -/
def stateTests : List Value := [.string "a", .string "b"]

theorem nextCase_takes {started : Bool} {index : Nat} (h : Waits s t v)
    (hroom : 3 ≤ s.machine.maxSteps) (hv : toBoolean v = true)
    (hindex : stateTests.findIdx? (strictEquals v) = some index) :
    nextCase twoStates stateTests (trialScopes s) started t = .ok (some index) (stateRead t) := by
  unfold nextCase
  rw [bind_of_ok (rfl : testFails twoStates (trialScopes s) _ = .ok false _)]
  simp only [Bool.false_eq_true, if_false]
  rw [bind_of_ok (probe_state h hroom), hv, hindex]
  simp only [Bool.not_true, Bool.and_false, Bool.false_eq_true, if_false]
  rfl

theorem nextCase_ends (h : Waits s t v) (hroom : 3 ≤ s.machine.maxSteps) (hv : toBoolean v = false) :
    nextCase twoStates stateTests (trialScopes s) true t = .ok none (stateRead t) := by
  unfold nextCase
  rw [bind_of_ok (rfl : testFails twoStates (trialScopes s) _ = .ok false _)]
  simp only [Bool.false_eq_true, if_false]
  rw [bind_of_ok (probe_state h hroom), hv]
  rfl

/-- A case sets the state to a literal. -/
def stateUpdate (l : Literal) : Node :=
  (Node.expressionStatement none (.assignment .plain (.ident "s") (.literal l))).inRole .consequent

/-- A case of the loop gives a call. -/
def stateCall (name : Text) : Node :=
  (Node.expressionStatement none (.call (.ident name) [])).inRole .consequent

theorem runUpdates_twoStates {w : Value} {l : Literal} (h : Waits s t v)
    (hroom : 3 ≤ s.machine.maxSteps) (hregex : l.isRegex = false) (hw : literalOf l = .ok w) :
    runUpdates (trialScopes s) [stateUpdate l] t = .ok () (stateHanded s t w) := by
  have hcode := update_twoStates (c := s.machine.globalChain) (m := t.machine.renewed)
    rfl (by show 3 ≤ t.machine.maxSteps; rw [h.steps]; exact hroom) h.state hregex hw 19997
  obtain ⟨_, m₁, hrun, hend⟩ := bind_eq_ok.mp hcode
  cases hend
  exact bind_of_ok (probe_of_ok (Machine.fresh_eq_ok.mpr hrun))

/-- What a case does that calls a function and sets the state. -/
def statePlan (name : Text) (l : Literal) : CasePlan := ⟨[stateCall name], [stateUpdate l], true⟩

theorem planOf_twoStates {plans : Dict Nat CasePlan} {index : Nat} {plan : CasePlan} (h : Waits s t v)
    (hgate : s.gate = .default) (hnew : plans.get? index = none)
    (hcase : CasePlan.ofCase .default ["s", "t"] (twoStates.cases.getD index (.leaf .hole))
      (index + 1 == twoStates.cases.length) = .ok plan) :
    planOf twoStates ["s", "t"] plans index t = .ok plan t := by
  unfold planOf
  simp only [hnew]
  rw [bind_of_ok (rfl : (get : Probe Registry) t = .ok _ _), h.gate, hgate, hcase]
  rfl

/-- The sandbox after the first case. -/
def stateOnce (s : Registry) : Registry := stateHanded s (stateRead (stateStarted s)) (.string "b")

/-- The sandbox after the second case. -/
def stateTwice (s : Registry) : Registry := stateHanded s (stateRead (stateOnce s)) .null

theorem waits_once (s : Registry) : Waits s (stateOnce s) (.string "b") := (waits_started s).read.handed _

theorem waits_twice (s : Registry) : Waits s (stateTwice s) .null := (waits_once s).read.handed _

/-- What the first case does. -/
def firstPlan : CasePlan := statePlan "f" (.string "b")

/-- What the second case does. -/
def secondPlan : CasePlan := statePlan "g" .null

theorem ofCase_first : CasePlan.ofCase .default ["s", "t"] (twoStates.cases.getD 0 (.leaf .hole))
    (0 + 1 == twoStates.cases.length) = .ok firstPlan := rfl

theorem ofCase_second : CasePlan.ofCase .default ["s", "t"] (twoStates.cases.getD 1 (.leaf .hole))
    (1 + 1 == twoStates.cases.length) = .ok secondPlan := rfl

end

section

variable {s : Registry} (hroom : 3 ≤ s.machine.maxSteps) (hgate : s.gate = .default)

include hroom in
/-- Both cases are taken, and then the loop ends with `null`. -/
theorem nextCase_states :
    nextCase twoStates stateTests (trialScopes s) false (stateStarted s) =
        .ok (some 0) (stateRead (stateStarted s)) ∧
      nextCase twoStates stateTests (trialScopes s) true (stateOnce s) = .ok (some 1) (stateRead (stateOnce s)) ∧
      nextCase twoStates stateTests (trialScopes s) true (stateTwice s) = .ok none (stateRead (stateTwice s)) :=
  ⟨nextCase_takes (waits_started s) hroom rfl rfl, nextCase_takes (waits_once s) hroom rfl rfl,
    nextCase_ends (waits_twice s) hroom rfl⟩

include hroom in
theorem runUpdates_states :
    runUpdates (trialScopes s) firstPlan.updates (stateRead (stateStarted s)) = .ok () (stateOnce s) ∧
      runUpdates (trialScopes s) secondPlan.updates (stateRead (stateOnce s)) = .ok () (stateTwice s) :=
  ⟨runUpdates_twoStates (waits_started s).read hroom rfl rfl,
    runUpdates_twoStates (waits_once s).read hroom rfl rfl⟩

include hgate in
theorem planOf_states :
    planOf twoStates ["s", "t"] .empty 0 (stateRead (stateStarted s)) =
        .ok firstPlan (stateRead (stateStarted s)) ∧
      planOf twoStates ["s", "t"] (Dict.empty.put 0 firstPlan) 1 (stateRead (stateOnce s)) =
        .ok secondPlan (stateRead (stateOnce s)) :=
  ⟨planOf_twoStates (waits_started s).read hgate rfl ofCase_first,
    planOf_twoStates (waits_once s).read hgate rfl ofCase_second⟩

/-- The calls of both cases. -/
def stateCalls : List Node := [stateCall "f", stateCall "g"]

include hroom hgate in
/-- The loop gives the calls of both cases. -/
theorem unflatten_twoStates :
    (unflatten twoStates (fun _ => false) 2).run s = .ok stateCalls (stateRead (stateTwice s)) := by
  have hcheck : check (requireDeterministic s.gate (twoStates.init :: twoStates.test.toList ++
      twoStates.update.toList ++ [twoStates.discriminant])) s = .ok () s := by
    rw [hgate]
    rfl
  have htests : check (tests twoStates.cases) s = .ok stateTests s := rfl
  obtain ⟨hfirst, hsecond, hlast⟩ := nextCase_states hroom
  obtain ⟨honce, htwice⟩ := runUpdates_states hroom
  obtain ⟨hplan, hplan'⟩ := planOf_states hgate
  have hend : run twoStates ["s", "t"] stateTests (trialScopes s) 0 true
      ((Dict.empty.put 0 firstPlan).put 1 secondPlan) [stateCall "g", stateCall "f"] (stateTwice s) =
        .ok stateCalls (stateRead (stateTwice s)) := by
    unfold run
    rw [bind_of_ok hlast]
    rfl
  have hround : run twoStates ["s", "t"] stateTests (trialScopes s) 1 true (Dict.empty.put 0 firstPlan)
      [stateCall "f"] (stateOnce s) = .ok stateCalls (stateRead (stateTwice s)) := by
    unfold run
    rw [bind_of_ok hsecond]
    exact (bind_of_ok hplan').trans ((bind_of_ok htwice).trans hend)
  have hrun : run twoStates ["s", "t"] stateTests (trialScopes s) 2 false .empty [] (stateStarted s) =
      .ok stateCalls (stateRead (stateTwice s)) := by
    unfold run
    rw [bind_of_ok hfirst]
    exact (bind_of_ok hplan).trans ((bind_of_ok honce).trans hround)
  unfold EStateM.run unflatten
  have hnames : stateNames twoStates.init = [Text.of "s", Text.of "t"] := rfl
  simp only [hnames, List.isEmpty_cons, Bool.false_eq_true, if_false]
  rw [bind_of_ok (rfl : (get : Probe Registry) s = .ok s s), bind_of_ok hcheck, bind_of_ok htests,
    bind_of_ok (probe_scratch s), bind_of_ok (runInit_twoStates hroom)]
  exact hrun

include hroom hgate in
/-- What the trial evaluates: the initializer, the state and what sets it, twice, and the state that ends the
loop. -/
theorem trial_twoStates : trial twoStates 2 s =
    [⟨.init, (trialStart s).machine.renewed⟩,
      ⟨.discriminant false, (stateStarted s).machine.renewed⟩,
      ⟨.update (stateUpdate (.string "b")), (stateRead (stateStarted s)).machine.renewed⟩,
      ⟨.discriminant true, (stateOnce s).machine.renewed⟩,
      ⟨.update (stateUpdate .null), (stateRead (stateOnce s)).machine.renewed⟩,
      ⟨.discriminant true, (stateTwice s).machine.renewed⟩] := by
  obtain ⟨hfirst, hsecond, hlast⟩ := nextCase_states hroom
  obtain ⟨honce, htwice⟩ := runUpdates_states hroom
  obtain ⟨hplan, hplan'⟩ := planOf_states hgate
  have hupdated : ∀ {plan : CasePlan} {t t' : Registry},
      runUpdates (trialScopes s) plan.updates t = .ok () t' →
        after (do runUpdates (trialScopes s) plan.updates; runUpdate twoStates (trialScopes s)) t = t' :=
    fun h => after_of_ok ((bind_of_ok h).trans rfl)
  have hhead : ∀ (started : Bool) (t : Registry), headEvaluations twoStates (trialScopes s) started t =
      [⟨.discriminant started, t.machine.renewed⟩] := fun _ _ => rfl
  have hcase : ∀ (name : Text) (l : Literal) (t : Registry),
      caseEvaluations twoStates (trialScopes s) (statePlan name l) t =
        [⟨.update (stateUpdate l), t.machine.renewed⟩] := fun _ _ _ => rfl
  have hend : evaluations twoStates [Text.of "s", Text.of "t"] stateTests (trialScopes s) 0 true
      ((Dict.empty.put 0 firstPlan).put 1 secondPlan) (stateTwice s) =
        [⟨.discriminant true, (stateTwice s).machine.renewed⟩] := hhead _ _
  have hround : evaluations twoStates [Text.of "s", Text.of "t"] stateTests (trialScopes s) 1 true
      (Dict.empty.put 0 firstPlan) (stateOnce s) =
        [⟨.discriminant true, (stateOnce s).machine.renewed⟩,
          ⟨.update (stateUpdate .null), (stateRead (stateOnce s)).machine.renewed⟩,
          ⟨.discriminant true, (stateTwice s).machine.renewed⟩] := by
    unfold evaluations
    rw [hhead, hsecond]
    simp only [hplan']
    rw [hupdated htwice, hend]
    rfl
  have htests : tests twoStates.cases = .ok stateTests := rfl
  have hnames : stateNames twoStates.init = [Text.of "s", Text.of "t"] := rfl
  unfold trial
  rw [htests]
  simp only
  rw [after_of_ok (runInit_twoStates hroom), hnames]
  unfold evaluations
  rw [hhead, hfirst]
  simp only [hplan]
  rw [hupdated honce, hround]
  rfl

include hroom hgate in
/-- No limit acts on the trial. -/
theorem undisturbed_twoStates :
    ∀ e ∈ trial twoStates 2 s, e.Undisturbed twoStates (trialScopes s) s := by
  have hinit : Evaluation.Undisturbed twoStates (trialScopes s) s ⟨.init, (trialStart s).machine.renewed⟩ :=
    undisturbed_of_room (w := (stateStarted s).machine) hroom rfl fun maxSteps maxDepth depth h =>
      init_twoStates (m := withLimits (trialStart s).machine.renewed maxSteps maxDepth) rfl
        (Nat.le_of_succ_le h) (frame_trialStart s) (lt_size_trialStart s) depth
  have hread : ∀ {t : Registry} {v : Value} (started : Bool), Waits s t v →
      Evaluation.Undisturbed twoStates (trialScopes s) s ⟨.discriminant started, t.machine.renewed⟩ := by
    intro t v started h
    refine undisturbed_of_room (w := (stateRead t).machine) hroom ?_ fun maxSteps maxDepth depth hroom' =>
      discriminant_twoStates (m := withLimits t.machine.renewed maxSteps maxDepth) rfl
        (Nat.le_of_succ_le (Nat.le_of_succ_le hroom')) h.state started depth
    unfold withLimits Machine.renewed
    rw [← h.steps, ← h.depth]
  have hset : ∀ {t : Registry} {v w : Value} {l : Literal}, Waits s t v → l.isRegex = false →
      literalOf l = .ok w → Evaluation.Undisturbed twoStates (trialScopes s) s
        ⟨.update (stateUpdate l), t.machine.renewed⟩ := by
    intro t v w l h hregex hw
    refine undisturbed_of_room (w := (stateHanded s t w).machine) hroom ?_ fun maxSteps maxDepth depth hroom' =>
      update_twoStates (m := withLimits t.machine.renewed maxSteps maxDepth) rfl hroom' h.state hregex hw depth
    unfold withLimits Machine.renewed
    rw [← h.steps, ← h.depth]
  rw [trial_twoStates hroom hgate]
  intro e he
  simp only [List.mem_cons, List.not_mem_nil, or_false] at he
  obtain rfl | rfl | rfl | rfl | rfl | rfl := he
  · exact hinit
  · exact hread false (waits_started s)
  · exact hset (waits_started s).read rfl rfl
  · exact hread true (waits_once s)
  · exact hset (waits_once s).read rfl rfl
  · exact hread true (waits_twice s)

include hroom hgate in
/-- The state that ends the loop is `null`, for which no case tests, and a `break` follows the cases. -/
theorem falsyEnds_twoStates : ∀ e ∈ trial twoStates 2 s, FalsyEnds twoStates (trialScopes s) e := by
  have hread : ∀ {t : Registry} {v v' : Value} {m : Machine}, Waits s t v →
      (Stage.discriminant true).code twoStates (trialScopes s) nestingLimit t.machine.renewed = .ok v' m →
        v' = v := by
    intro t v v' m h hrun
    have hcode := discriminant_twoStates (c := s.machine.globalChain) (m := t.machine.renewed) rfl
      (by show 1 ≤ t.machine.maxSteps; rw [h.steps]; omega) h.state true 19997
    cases hrun.symm.trans hcode
    rfl
  rw [trial_twoStates hroom hgate]
  intro e he hstage v m hrun hv
  simp only [List.mem_cons, List.not_mem_nil, or_false] at he
  obtain rfl | rfl | rfl | rfl | rfl | rfl := he
  · cases hstage
  · cases hstage
  · cases hstage
  · cases hread (waits_once s) hrun
    cases hv
  · cases hstage
  · cases hread (waits_twice s) hrun
    exact ⟨rfl, rfl⟩

include hroom in
/-- The second variable is unset when it is declared. -/
theorem startsUnset_twoStates : StartsUnset twoStates s := by
  intro kind before d after name hform hkind hdecls hname hinit hbefore maxSteps maxDepth depth hsteps hdepth
    hnesting
  have hlimit : nestingLimit = 20000 := rfl
  obtain ⟨depth, rfl⟩ : ∃ k, depth = k + 1 := ⟨depth - 1, by omega⟩
  have hlist : twoStates.init.childrenAt .declarations =
      [stateDeclarator, (Node.variableDeclarator (Node.ident "t") none).inRole .declarations] := rfl
  rw [hlist] at hdecls
  match before, hdecls with
  | [], hdecls =>
    cases hdecls
    cases hinit
  | [_], hdecls =>
    cases hdecls
    cases hname
    have hother := get?_stateSet_other (m := withLimits (trialStart s).machine.renewed maxSteps maxDepth)
      (frame_trialStart s) (lt_size_trialStart s) 2 (.string "a")
    have hafter := after_declare_state (m := withLimits (trialStart s).machine.renewed maxSteps maxDepth)
      (f := s.machine.frames.size) (c := s.machine.globalChain) rfl (by show 2 ≤ maxSteps; omega) depth
    unfold Machine.variable
    rw [trialScopes, hafter, hother]
    rfl
  | _ :: _ :: before, hdecls => simp at hdecls
end

/-! ## What is executed -/

/-- A loop that is taken apart is given by the statements that it executes: for all limits that are high
enough, its run ends and executes exactly these statements in their order. -/
theorem unflatten_executes {n : Node} {loop : Loop} {readOutside : List Text → Bool}
    {maxDispatches : Nat} {s s' : Registry} {out : List Node} (hreached : s.Reached)
    (hform : n.form = .forStatement) (hloop : Loop.ofNode? n = some loop)
    (hrun : (unflatten loop readOutside maxDispatches).run s = .ok out s')
    (hquiet : ∀ e ∈ trial loop maxDispatches s, e.Undisturbed loop (trialScopes s) s)
    (hfalsy : ∀ e ∈ trial loop maxDispatches s, FalsyEnds loop (trialScopes s) e)
    (hunset : StartsUnset loop s) :
    ∃ bound, ∀ limits : Limits, bound ≤ limits.steps → bound ≤ limits.depth →
      bound ≤ limits.nesting →
      Executes (stateNames loop.init) n s.machine limits out := by
  obtain ⟨body, switch, hshape⟩ := shape_of_ofNode? hloop
  obtain ⟨values, s₁, hvalues, hinit, hrun⟩ := unflatten_eq_ok hrun
  obtain ⟨v, hcode⟩ := runInit_eq_ok hinit
  have htrial : trial loop maxDispatches s = ⟨.init, (trialStart s).machine.renewed⟩ ::
      evaluations loop (stateNames loop.init) values (trialScopes s) maxDispatches false .empty s₁ := by
    unfold trial
    rw [hvalues, after_of_ok hinit]
  rw [htrial] at hquiet hfalsy
  have hplans : Remembers s₁.gate loop (stateNames loop.init) .empty := fun i p h => by cases h
  obtain ⟨rest, cost, hout, hrounds⟩ := run_keepsStep hshape hvalues hplans hrun
    (fun e he => hquiet e (List.mem_cons_of_mem _ he))
    (fun e he => hfalsy e (List.mem_cons_of_mem _ he))
  rw [List.reverse_nil, List.nil_append] at hout
  subst hout
  refine ⟨1 + s₁.machine.steps + cost + s.machine.maxSteps + s.machine.maxDepth + nestingLimit + 3,
    fun limits hsteps hdepth hnesting effect w => ?_⟩
  obtain ⟨depth, hlevels⟩ : ∃ depth, limits.nesting = depth + 3 :=
    ⟨limits.nesting - 3, by omega⟩
  have hinitializes : Initializes loop s s₁.machine limits depth :=
    initializes hreached.wellScoped hunset (hquiet _ List.mem_cons_self) hcode (by omega) (by omega)
      (by omega)
  obtain ⟨m₁', hinit', hstep, hused, hworld⟩ := hinitializes (stateNames loop.init) effect w
  have hmax := hstep.maxSteps (by omega)
  obtain ⟨m₂', hrounds', -, -, hworld'⟩ := hrounds (m₁'.maxSteps + 2 - m₁'.steps) (by omega) limits
    s.machine.frames.size effect [loopScopes s.machine] (loopScopes s.machine) depth m₁'
    (List.mem_singleton.mpr rfl) (by omega) hstep ⟨by omega, by omega⟩
  refine ⟨m₂', ?_, ?_⟩
  · exact observe_of_rounds hform hshape hlevels (by omega) hinit' hrounds'
  · rw [hworld', hworld]

/-- A new sandbox. -/
def newSandbox : Registry := .onStore .default .bare 10 10

/-- The loop with two dispatches in a new sandbox: it ends with a state that is false, and a block variable
without a value is declared beside the state. -/
theorem twoStatesLoop_executes :
    newSandbox.Reached ∧ twoStatesLoop.form = .forStatement ∧
      Loop.ofNode? twoStatesLoop = some twoStates ∧
      (unflatten twoStates (fun _ => false) 2).run newSandbox =
        .ok stateCalls (stateRead (stateTwice newSandbox)) ∧
      (∀ e ∈ trial twoStates 2 newSandbox, e.Undisturbed twoStates (trialScopes newSandbox) newSandbox) ∧
      (∀ e ∈ trial twoStates 2 newSandbox, FalsyEnds twoStates (trialScopes newSandbox) e) ∧
      StartsUnset twoStates newSandbox ∧
      ∃ bound, ∀ limits : Limits, bound ≤ limits.steps → bound ≤ limits.depth →
        bound ≤ limits.nesting →
        Executes (stateNames twoStates.init) twoStatesLoop newSandbox.machine limits stateCalls := by
  have hroom : 3 ≤ newSandbox.machine.maxSteps := by
    show 3 ≤ (Machine.bare.restart 10 10).maxSteps
    decide +kernel
  have hreached : newSandbox.Reached := .opened _ _ _
  have hrun := unflatten_twoStates hroom rfl
  have hquiet := undisturbed_twoStates hroom rfl
  have hfalsy := falsyEnds_twoStates hroom rfl
  have hunset := startsUnset_twoStates hroom
  exact ⟨hreached, rfl, rfl, hrun, hquiet, hfalsy, hunset,
    unflatten_executes hreached rfl rfl hrun hquiet hfalsy hunset⟩

end Untangle.Dispatch
