import Untangle.Proofs.Computation
import Untangle.Proofs.Sandbox.Literal
import Untangle.Proofs.Sandbox.Pairing

set_option autoImplicit false

/-!
# What computations are composed of

The sandbox has few ways to touch a machine: it looks at the store, changes the store, pays for steps,
goes one call deeper, and runs code inside of code.  A computation is composed if it is built from these
alone, by sequences, handlers, finalizers and loops.  Whatever holds of each of the ways and is kept by
the ways of building holds of all code.

Counters and limits are told apart from the store: outside of steps, calls and loops nothing looks at
them.  Functions are told apart by their code, so that a property of code that is kept by its parts can
be followed through a run.
-/

namespace Untangle.Sandbox

/-! ## Counters and limits -/

/-- The counters of a machine and their limits. -/
structure Meter where
  steps : Nat
  depth : Nat
  maxSteps : Nat
  maxDepth : Nat

namespace Machine

/-- How far the limits of a machine are used up. -/
def meter (m : Machine) : Meter := ⟨m.steps, m.depth, m.maxSteps, m.maxDepth⟩

/-- The machine with other counters and limits. -/
def withMeter (m : Machine) (t : Meter) : Machine :=
  { m with steps := t.steps, depth := t.depth, maxSteps := t.maxSteps, maxDepth := t.maxDepth }

variable (m : Machine) (t : Meter)

@[simp] theorem withMeter_meter : m.withMeter m.meter = m := rfl

@[simp] theorem meter_withMeter : (m.withMeter t).meter = t := rfl

@[simp] theorem withMeter_global : (m.withMeter t).global = m.global := rfl

@[simp] theorem withMeter_frame (f : FrameId) : (m.withMeter t).frame f = m.frame f := rfl

@[simp] theorem withMeter_variable (f : FrameId) (name : Text) :
    (m.withMeter t).variable f name = m.variable f name := rfl

@[simp] theorem withMeter_findScope (name : Text) (c : ScopeChain) :
    (m.withMeter t).findScope name c = m.findScope name c := by
  induction c with
  | nil => rfl
  | cons f c ih => simp only [findScope, withMeter_frame, ih]

@[simp] theorem withMeter_firstScope (p : Frame → Bool) (c : ScopeChain) :
    (m.withMeter t).firstScope p c = m.firstScope p c := by
  induction c with
  | nil => rfl
  | cons f c ih => simp only [firstScope, withMeter_frame, ih]

end Machine

/-! ## Code -/

/-- A property of code that the parts of the code have too, and the code in any other slot. -/
structure Hereditary (Fit : Node → Prop) : Prop where
  part : ∀ n, Fit n → ∀ c ∈ n.children, Fit c
  slot : ∀ n, Fit n → ∀ r, Fit (n.inRole r)

theorem hereditary_true : Hereditary fun _ => True := ⟨fun _ _ _ _ => trivial, fun _ _ _ => trivial⟩

namespace Hereditary

variable {Fit : Node → Prop} {n c : Node} {r : Role}

theorem child? (h : Hereditary Fit) (hn : Fit n) (hc : n.child? r = some c) : Fit c :=
  h.part n hn c (List.mem_of_find?_eq_some hc)

theorem findId (h : Hereditary Fit) {i : NodeId} (hn : Fit n) (hc : n.findId i = some c) :
    Fit c := by
  refine Node.rec (motive_1 := fun n => Fit n → n.findId i = some c → Fit c)
    (motive_2 := fun ns => (∀ n ∈ ns, Fit n) → Node.findIdAll i ns = some c → Fit c)
    ?_ ?_ ?_ n hn hc
  · intro j r f cs ih hn hc
    unfold Node.findId at hc
    split at hc
    · cases hc
      exact hn
    · exact ih (fun c hc => h.part _ hn c hc) hc
  · intro _ hc
    cases hc
  · intro d ds ihd ihds hall hc
    unfold Node.findIdAll at hc
    split at hc
    · next hd =>
      cases hc
      exact ihd (hall d List.mem_cons_self) hd
    · exact ihds (fun n hn => hall n (List.mem_cons_of_mem d hn)) hc

end Hereditary

/-- An object whose code, if it is a function, has a property. -/
def Body.Fits (Fit : Node → Prop) (b : Body) : Prop :=
  ∀ code scopes name, b = .closure code scopes name → Fit code

/-- All code that a machine can come to by calls has a property. -/
structure Machine.Runs (Fit : Node → Prop) (m : Machine) : Prop where
  functions : ∀ r, (m.cell r).body.Fits Fit
  trees : ∀ t ∈ m.trees, Fit t

theorem Machine.runs_true (m : Machine) : m.Runs fun _ => True :=
  ⟨fun _ _ _ _ _ => trivial, fun _ _ => trivial⟩

/-! ## Composed computations -/

/-- A computation that is built from what the sandbox can do to a machine, given the meaning of the code
inside of the code that runs. -/
inductive Composed (Fit : Node → Prop) (ev : Evaluator) : {α : Type} → Run α → Prop
  | result {α : Type} (a : α) : Composed Fit ev (pure a)
  | stop {α : Type} (e : Abrupt) : Composed Fit ev (throw e : Run α)
  /-- Looks at the store, but not at counters and limits. -/
  | look {α : Type} {k : Machine → Run α} (hstore : ∀ m t, k (m.withMeter t) = k m)
      (hk : ∀ m, m.Runs Fit → Composed Fit ev (k m)) : Composed Fit ev (get >>= k)
  /-- Changes the store, but not the counters and limits. -/
  | change {α : Type} {f : Machine → α × Machine}
      (hstore : ∀ m t, f (m.withMeter t) = ((f m).1, (f m).2.withMeter t))
      (hruns : ∀ m, m.Runs Fit → (f m).2.Runs Fit) : Composed Fit ev (modifyGet f)
  | tick : Composed Fit ev Run.tick
  | expression {n : Node} (hn : Fit n) (scopes : ScopeChain) :
      Composed Fit ev (ev.expression n scopes)
  | statement {n : Node} (hn : Fit n) (scopes : ScopeChain) :
      Composed Fit ev (ev.statement n scopes)
  | call (f this : Value) (args : List Value) : Composed Fit ev (ev.call f this args)
  | bind {α β : Type} {c : Run α} {k : α → Run β} (hc : Composed Fit ev c)
      (hk : ∀ a, Composed Fit ev (k a)) : Composed Fit ev (c >>= k)
  /-- Catches some stops, but no limits. -/
  | guarded {α : Type} {c : Run α} {handler : Abrupt → Run α} (hc : Composed Fit ev c)
      (hlimit : ∀ l, handler (.limit l) = throw (.limit l))
      (hhandler : ∀ e, Composed Fit ev (handler e)) : Composed Fit ev (tryCatch c handler)
  /-- Runs a finalizer in any case. -/
  | finalized {α : Type} {c : Run α} {n f : Node} (hc : Composed Fit ev c) (hn : Fit n)
      (hf : n.child? .finalizer = some f) (hfit : Fit f) (scopes : ScopeChain) :
      Composed Fit ev (Run.thenAlways c (ev.statement f scopes))
  /-- Repeats a round that takes a step whenever the loop goes on. -/
  | loop {round : Run Bool} (hround : Composed Fit ev round)
      (hpaid : ∀ m m₁, round m = .ok true m₁ → m.steps < m₁.steps) :
      Composed Fit ev (Run.repeatRounds round)
  /-- Refuses to go deeper than the limit. -/
  | entered {α : Type} {c : Run α} (hc : Composed Fit ev c) :
      Composed Fit ev do
        let m ← get
        if m.depth ≥ m.maxDepth then throw (.limit (.depth m.maxDepth))
        c
  /-- Runs one call deeper. -/
  | deeper {α : Type} {c : Run α} (hc : Composed Fit ev c) :
      Composed Fit ev do
        modify fun m => { m with depth := m.depth + 1 }
        Run.thenAlways c (modify fun m => { m with depth := m.depth - 1 })

/-! ## Parts and the whole -/

section Parts

variable {α : Type} {m m₁ m₂ : Machine}

theorem tryCatch_of_ok {c : Run α} {handler : Abrupt → Run α} {a : α} (h : c m = .ok a m₁) :
    (tryCatch c handler) m = .ok a m₁ := by
  show EStateM.tryCatch c handler m = _
  unfold EStateM.tryCatch
  rw [h]

theorem tryCatch_of_error {c : Run α} {handler : Abrupt → Run α} {e : Abrupt}
    (h : c m = .error e m₁) : (tryCatch c handler) m = handler e m₁ := by
  show EStateM.tryCatch c handler m = _
  unfold EStateM.tryCatch
  rw [h]
  rfl

/-- The machine that a computation leaves. -/
def stateOf : EStateM.Result Abrupt Machine α → Machine
  | .ok _ m => m
  | .error _ m => m

/-- The ending of a computation, but on another machine. -/
def onMachine : EStateM.Result Abrupt Machine α → Machine → EStateM.Result Abrupt Machine α
  | .ok a _, m => .ok a m
  | .error e _, m => .error e m

/-- What is done in any case is done on the machine that is left, and its result is not used. -/
theorem thenAlways_eq (c : Run α) (after : Run Unit) (m : Machine) :
    Run.thenAlways c after m =
      match after (stateOf (c m)) with
      | .ok _ m₁ => onMachine (c m) m₁
      | .error e m₁ => .error e m₁ := by
  unfold Run.thenAlways
  cases c m <;> rfl

theorem stateOf_thenAlways (c : Run α) (after : Run Unit) (m : Machine) :
    stateOf (Run.thenAlways c after m) = stateOf (after (stateOf (c m))) := by
  rw [thenAlways_eq]
  cases after (stateOf (c m)) with
  | ok u m₁ => cases c m <;> rfl
  | error e m₁ => rfl

theorem entered_eq (c : Run α) (m : Machine) :
    (do
      let m ← get
      if m.depth ≥ m.maxDepth then throw (.limit (.depth m.maxDepth))
      c : Run α) m =
      if m.depth ≥ m.maxDepth then .error (.limit (.depth m.maxDepth)) m else c m := by
  show (if _ then _ else _ : Run α) _ = _
  split <;> rfl

theorem deeper_eq (c : Run α) (m : Machine) :
    (do
      modify fun m => { m with depth := m.depth + 1 }
      Run.thenAlways c (modify fun m => { m with depth := m.depth - 1 }) : Run α) m =
      Run.thenAlways c (modify fun m => { m with depth := m.depth - 1 })
        { m with depth := m.depth + 1 } := rfl

end Parts

/-! ## Steps are never given back -/

/-- Code never gives steps back, and every statement takes one unless a limit stops it. -/
structure Evaluator.Advances (ev : Evaluator) : Prop where
  expression : ∀ n scopes m, m.steps ≤ (stateOf (ev.expression n scopes m)).steps
  statement : ∀ n scopes m, m.steps ≤ (stateOf (ev.statement n scopes m)).steps
  call : ∀ f this args m, m.steps ≤ (stateOf (ev.call f this args m)).steps
  paid : ∀ n scopes m, m.steps < (stateOf (ev.statement n scopes m)).steps ∨
    ∃ l m₁, ev.statement n scopes m = .error (.limit l) m₁

/-- A change of the store leaves the counters and limits as they are. -/
theorem meter_of_change {α : Type} {f : Machine → α × Machine}
    (hstore : ∀ m t, f (m.withMeter t) = ((f m).1, (f m).2.withMeter t)) (m : Machine) :
    (f m).2.meter = m.meter := by
  have h := congrArg (fun p => p.2.meter) (hstore m m.meter)
  simpa using h

namespace Composed

variable {Fit : Node → Prop} {ev : Evaluator} {α : Type}

/-- Rounds that never give steps back do not either when they are repeated. -/
theorem steps_rounds {round : Run Bool} (h : ∀ m, m.steps ≤ (stateOf (round m)).steps) (fuel : Nat)
    (m : Machine) : m.steps ≤ (stateOf (Run.rounds round fuel m)).steps := by
  induction fuel generalizing m with
  | zero => exact Nat.le_refl _
  | succ fuel ih =>
    have hle := h m
    unfold Run.rounds
    cases hround : round m with
    | error e m₁ =>
      rw [bind_of_error hround]
      rwa [hround] at hle
    | ok more m₁ =>
      rw [bind_of_ok hround]
      rw [hround] at hle
      cases more with
      | true => exact Nat.le_trans hle (ih m₁)
      | false => exact hle

/-- Nothing gives steps back if the code inside does not. -/
theorem advances (hev : ev.Advances) {c : Run α} (h : Composed (fun _ => True) ev c) (m : Machine) :
    m.steps ≤ (stateOf (c m)).steps := by
  induction h generalizing m with
  | result a => exact Nat.le_refl _
  | stop e => exact Nat.le_refl _
  | look hstore hk ih => exact ih m m.runs_true m
  | change hstore hruns => exact Nat.le_of_eq (congrArg Meter.steps (meter_of_change hstore m)).symm
  | tick =>
    rw [tick_eq]
    split <;> exact Nat.le_succ _
  | expression hn scopes => exact hev.expression _ scopes m
  | statement hn scopes => exact hev.statement _ scopes m
  | call f this args => exact hev.call f this args m
  | @bind _ _ c k hc hk ihc ihk =>
    have hle := ihc m
    cases hrun : c m with
    | error e m₁ =>
      rw [bind_of_error hrun]
      rwa [hrun] at hle
    | ok a m₁ =>
      rw [bind_of_ok hrun]
      rw [hrun] at hle
      exact Nat.le_trans hle (ihk a m₁)
  | @guarded _ c handler hc hlimit hhandler ihc ihhandler =>
    have hle := ihc m
    cases hrun : c m with
    | ok a m₁ =>
      rw [tryCatch_of_ok hrun]
      rwa [hrun] at hle
    | error e m₁ =>
      rw [tryCatch_of_error hrun]
      rw [hrun] at hle
      exact Nat.le_trans hle (ihhandler e m₁)
  | @finalized _ c n f hc hn hf hfit scopes ihc =>
    have hle := ihc m
    rw [stateOf_thenAlways]
    exact Nat.le_trans hle (hev.statement f scopes _)
  | loop hround hpaid ih => exact steps_rounds ih _ m
  | @entered _ c hc ih =>
    rw [entered_eq]
    split
    · exact Nat.le_refl _
    · exact ih m
  | @deeper _ c hc ih =>
    rw [deeper_eq, stateOf_thenAlways]
    exact ih { m with depth := m.depth + 1 }

end Composed

namespace Composed

variable {Fit : Node → Prop} {ev : Evaluator} {α : Type}

theorem fail (f : Failure) : Composed Fit ev (Run.fail f : Run α) := .stop _

theorem allocate {c : Cell} (hc : c.body.Fits Fit) : Composed Fit ev (Run.allocate c) := by
  refine .change (fun _ _ => rfl) fun m hm => ⟨fun r => ?_, hm.trees⟩
  rw [Pairing.cell_push]
  split
  · exact hc
  · exact hm.functions r

theorem setCell (r : Ref) {c : Cell} (hc : c.body.Fits Fit) : Composed Fit ev (Run.setCell r c) := by
  refine .change (fun _ _ => rfl) fun m hm => ⟨fun q => ?_, hm.trees⟩
  rw [Pairing.cell_set]
  split
  · exact hc
  · exact hm.functions q

theorem newFrame (isFunction capturesGlobals : Bool) :
    Composed Fit ev (Run.newFrame isFunction capturesGlobals) :=
  .change (fun _ _ => rfl) fun _ hm => ⟨hm.functions, hm.trees⟩

theorem declare (f : FrameId) (name : Text) (v : Value) : Composed Fit ev (Run.declare f name v) :=
  .change (fun _ _ => rfl) fun _ hm => ⟨hm.functions, hm.trees⟩

theorem varScope (scopes : ScopeChain) : Composed Fit ev (Run.varScope scopes) :=
  .look (fun m t => by simp) fun _ _ => .result _

end Composed

end Untangle.Sandbox
