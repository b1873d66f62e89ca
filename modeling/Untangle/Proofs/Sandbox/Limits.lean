import Untangle.Proofs.Sandbox.BuiltEvaluator
import Untangle.Proofs.Tree.Identities

set_option autoImplicit false

/-!
# Limits

A machine stops code that takes too many steps or calls too deep.  Raising a limit changes no answer
that was reached below it: counters are only looked at where they are compared with their limits, so
that a run on the machine with higher limits does the same, step for step, until the first limit is
reached.

From there on the two runs have nothing to do with each other, and all depends on whether the first one
can go on.  Handlers catch no limits, but a finalizer may replace whatever it interrupts by a jump of
its own.  After the last step it cannot, since it would have to take a step to do so; the step budget is
therefore never observed.  Below the deepest call it can, and the call depth is only hidden from code
whose finalizers do not jump.

The main theorems are `budget_unobserved`, without conditions, and `depth_unobserved`, under the condition
that no finalizer in reach jumps (`CalmCode`).  Both are about runs that no limit stopped.
-/

namespace Untangle.Sandbox

/-- Limits of steps and of the depth of calls, and limits that are no tighter. -/
structure Raise where
  steps : Nat
  depth : Nat
  moreSteps : Nat
  moreDepth : Nat
  steps_le : steps ≤ moreSteps
  depth_le : depth ≤ moreDepth

/-- The machine with the raised limits. -/
def Machine.raise (m : Machine) (r : Raise) : Machine :=
  { m with maxSteps := r.moreSteps, maxDepth := r.moreDepth }

/-- The same ending on a machine that is changed. -/
def mapMachine {α : Type} (f : Machine → Machine) :
    EStateM.Result Abrupt Machine α → EStateM.Result Abrupt Machine α
  | .ok a m => .ok a (f m)
  | .error e m => .error e (f m)

/-- A statement that no run leaves by anything but a limit. -/
def Calm (n : Node) : Prop :=
  ∀ depth scopes m e m₁, (evaluator depth).statement n scopes m = .error e m₁ → ∃ l, e = .limit l

/-- No finalizer of some code jumps. -/
def CalmFinalizers (Fit : Node → Prop) : Prop :=
  ∀ n f, Fit n → n.child? .finalizer = some f → Calm f

/-- More steps than the machine allows have been taken. -/
def Machine.Spent (m : Machine) : Prop := m.maxSteps < m.steps

/-- A machine on the lower limits that runs code with some property. -/
structure Raise.Below (r : Raise) (Fit : Node → Prop) (m : Machine) : Prop where
  maxSteps : m.maxSteps = r.steps
  maxDepth : m.maxDepth = r.depth
  unspent : m.steps ≤ r.steps
  runs : m.Runs Fit

/-- How two runs end that differ in their limits: in the same way, or the first one at a limit from
which it cannot recover. -/
inductive Raise.Ends (r : Raise) (Fit : Node → Prop) {α : Type} :
    EStateM.Result Abrupt Machine α → EStateM.Result Abrupt Machine α → Prop
  | same {x : EStateM.Result Abrupt Machine α} (hbelow : r.Below Fit (stateOf x)) :
      Raise.Ends r Fit x (mapMachine (·.raise r) x)
  | limit {l : Limit} {m₁ : Machine} {other : EStateM.Result Abrupt Machine α}
      (hfinal : m₁.Spent ∨ CalmFinalizers Fit) : Raise.Ends r Fit (.error (.limit l) m₁) other

/-- A computation that does the same under raised limits, up to the first limit it reaches. -/
def Raise.Tolerated (r : Raise) (Fit : Node → Prop) {α : Type} (c : Run α) : Prop :=
  ∀ m, r.Below Fit m → r.Ends Fit (c m) (c (m.raise r))

/-- An ending that is not at a limit. -/
def Unstopped {α : Type} (x : EStateM.Result Abrupt Machine α) : Prop :=
  ∀ l m, x ≠ .error (.limit l) m

/-- All code does the same under raised limits, up to the first limit it reaches. -/
structure Raise.Tolerates (r : Raise) (Fit : Node → Prop) (ev : Evaluator) : Prop where
  expression : ∀ n scopes, Fit n → r.Tolerated Fit (ev.expression n scopes)
  statement : ∀ n scopes, Fit n → r.Tolerated Fit (ev.statement n scopes)
  call : ∀ f this args, r.Tolerated Fit (ev.call f this args)

/-! ## Statements on a spent machine -/

/-- A statement on a spent machine ends at once, at a limit, and the machine stays spent. -/
theorem statement_of_spent (depth : Nat) (n : Node) (scopes : ScopeChain) {m : Machine}
    (hm : m.Spent) :
    ∃ l m₁, (evaluator depth).statement n scopes m = .error (.limit l) m₁ ∧ m₁.Spent := by
  cases depth with
  | zero => exact ⟨.nesting, m, rfl, hm⟩
  | succ depth =>
    have hover : m.steps + 1 > m.maxSteps := Nat.lt_succ_of_lt hm
    have htick := tick_eq m
    rw [if_pos hover] at htick
    exact ⟨_, _, bind_of_error htick, hover⟩

/-! ## Parts -/

/-- What is done in any case, but cannot take the place of a limit. -/
def KeepsLimits (Fit : Node → Prop) (after : Run Unit) : Prop :=
  ∀ m, m.Spent ∨ CalmFinalizers Fit →
    ((stateOf (after m)).Spent ∨ CalmFinalizers Fit) ∧
      ∀ e m₁, after m = .error e m₁ → ∃ l, e = .limit l

/-- A finalizer cannot jump on a spent machine, and does not if it is calm. -/
theorem keepsLimits_finalizer {Fit : Node → Prop} {n f : Node} (depth : Nat) (scopes : ScopeChain)
    (hn : Fit n) (hf : n.child? .finalizer = some f) :
    KeepsLimits Fit ((evaluator depth).statement f scopes) := by
  rintro m (hspent | hcalm)
  · obtain ⟨l, m₁, hstop, hspent⟩ := statement_of_spent depth f scopes hspent
    rw [hstop]
    refine ⟨.inl hspent, fun e m₁ h => ⟨l, ?_⟩⟩
    cases h
    rfl
  · exact ⟨.inr hcalm, fun e m₁ h => hcalm n f hn hf depth scopes m e m₁ h⟩

namespace Raise

variable {r : Raise} {Fit : Node → Prop} {α β : Type} {m m₁ : Machine}

theorem stateOf_mapMachine (f : Machine → Machine) (x : EStateM.Result Abrupt Machine α) :
    stateOf (mapMachine f x) = f (stateOf x) := by
  cases x <;> rfl

/-- Apart from its code, only the counters and limits of a machine matter. -/
theorem Below.of_meter (h : r.Below Fit m) (hmeter : m₁.meter = m.meter) (hruns : m₁.Runs Fit) :
    r.Below Fit m₁ := by
  injection hmeter with hsteps _ hmaxSteps hmaxDepth
  exact ⟨hmaxSteps.trans h.maxSteps, hmaxDepth.trans h.maxDepth, hsteps ▸ h.unspent, hruns⟩

theorem Below.atDepth (h : r.Below Fit m) (depth : Nat) : r.Below Fit { m with depth := depth } :=
  ⟨h.maxSteps, h.maxDepth, h.unspent, ⟨h.runs.functions, h.runs.trees⟩⟩

theorem Ends.ok {a : α} (h : r.Below Fit m) : r.Ends Fit (.ok a m) (.ok a (m.raise r)) :=
  .same (x := .ok a m) h

theorem Ends.error {e : Abrupt} (h : r.Below Fit m) :
    r.Ends Fit (.error e m : EStateM.Result Abrupt Machine α) (.error e (m.raise r)) :=
  .same (x := .error e m) h

/-- Going on after a tolerated computation, in two ways that end alike from where it leads. -/
theorem Tolerated.goOn {c : Run α} {k k' : α → Run β} (hc : r.Tolerated Fit c)
    (hm : r.Below Fit m)
    (hk : ∀ a m₁, c m = .ok a m₁ → r.Below Fit m₁ → r.Ends Fit (k a m₁) (k' a (m₁.raise r))) :
    r.Ends Fit ((c >>= k) m) ((c >>= k') (m.raise r)) := by
  have hends := hc m hm
  generalize hrun' : c (m.raise r) = x' at hends
  cases hrun : c m with
  | ok a m₁ =>
    rw [hrun] at hends
    cases hends with
    | same hbelow =>
      rw [bind_of_ok hrun, bind_of_ok hrun']
      exact hk a m₁ hrun hbelow
  | error e m₁ =>
    rw [hrun] at hends
    rw [bind_of_error hrun]
    cases hends with
    | same hbelow =>
      rw [bind_of_error hrun']
      exact .error hbelow
    | limit hfinal => exact .limit hfinal

theorem Tolerated.bind {c : Run α} {k : α → Run β} (hc : r.Tolerated Fit c)
    (hk : ∀ a, r.Tolerated Fit (k a)) : r.Tolerated Fit (c >>= k) :=
  fun _ hm => hc.goOn hm fun a m₁ _ hbelow => hk a m₁ hbelow

theorem Tolerated.guarded {c : Run α} {handler : Abrupt → Run α} (hc : r.Tolerated Fit c)
    (hlimit : ∀ l, handler (.limit l) = throw (.limit l))
    (hhandler : ∀ e, r.Tolerated Fit (handler e)) : r.Tolerated Fit (tryCatch c handler) := by
  intro m hm
  have hends := hc m hm
  generalize hrun' : c (m.raise r) = x' at hends
  cases hrun : c m with
  | ok a m₁ =>
    rw [hrun] at hends
    cases hends with
    | same hbelow =>
      rw [tryCatch_of_ok hrun, tryCatch_of_ok hrun']
      exact .ok hbelow
  | error e m₁ =>
    rw [hrun] at hends
    rw [tryCatch_of_error hrun]
    cases hends with
    | same hbelow =>
      rw [tryCatch_of_error hrun']
      exact hhandler e m₁ hbelow
    | limit hfinal =>
      rw [hlimit]
      exact .limit hfinal

theorem Tolerated.look {k : Machine → Run α} (hstore : ∀ m t, k (m.withMeter t) = k m)
    (hk : ∀ m, m.Runs Fit → r.Tolerated Fit (k m)) : r.Tolerated Fit (get >>= k) := by
  intro m hm
  have hsame : k (m.raise r) = k m := hstore m ⟨m.steps, m.depth, r.moreSteps, r.moreDepth⟩
  show r.Ends Fit (k m m) (k (m.raise r) (m.raise r))
  rw [hsame]
  exact hk m hm.runs m hm

theorem Tolerated.change {f : Machine → α × Machine}
    (hstore : ∀ m t, f (m.withMeter t) = ((f m).1, (f m).2.withMeter t))
    (hruns : ∀ m, m.Runs Fit → (f m).2.Runs Fit) : r.Tolerated Fit (modifyGet f : Run α) := by
  intro m hm
  have hmeter := meter_of_change hstore m
  have hraised : f (m.raise r) = ((f m).1, (f m).2.raise r) := by
    injection hmeter with hsteps hdepth
    refine (hstore m ⟨m.steps, m.depth, r.moreSteps, r.moreDepth⟩).trans ?_
    unfold Machine.withMeter Machine.raise
    rw [hsteps, hdepth]
  show r.Ends Fit _ (EStateM.Result.ok (f (m.raise r)).1 (f (m.raise r)).2)
  rw [hraised]
  exact .ok (hm.of_meter hmeter (hruns m hm.runs))

theorem Tolerated.tick : r.Tolerated Fit Run.tick := by
  intro m hm
  rw [tick_eq, tick_eq]
  split
  · next hover => exact .limit (.inl hover)
  · next hroom =>
    have hroom' : ¬ (m.raise r).steps + 1 > (m.raise r).maxSteps := by
      have hle := r.steps_le
      have hmax := hm.maxSteps
      show ¬ m.steps + 1 > r.moreSteps
      omega
    rw [if_neg hroom']
    refine .ok (m := { m with steps := m.steps + 1 })
      ⟨hm.maxSteps, hm.maxDepth, ?_, ⟨hm.runs.functions, hm.runs.trees⟩⟩
    have hmax := hm.maxSteps
    show m.steps + 1 ≤ r.steps
    omega

/-- The check of the depth lets both runs pass, stops both, or stops the first one alone. -/
theorem Tolerated.entered (hhidden : r.depth = r.moreDepth ∨ CalmFinalizers Fit) {c : Run α}
    (hc : r.Tolerated Fit c) :
    r.Tolerated Fit
      (do
        let m ← get
        if m.depth ≥ m.maxDepth then throw (.limit (.depth m.maxDepth))
        c) := by
  intro m hm
  rw [entered_eq, entered_eq]
  have hdepth := hm.maxDepth
  split
  · next hdeep =>
    obtain heq | hcalm := hhidden
    · have hraised : (m.raise r).maxDepth = m.maxDepth := (hdepth.trans heq).symm
      have hdeep' : (m.raise r).depth ≥ m.maxDepth := hdeep
      rw [hraised, if_pos hdeep']
      exact .error hm
    · exact .limit (.inr hcalm)
  · next hshallow =>
    have hshallow' : ¬ (m.raise r).depth ≥ (m.raise r).maxDepth := by
      have hle := r.depth_le
      show ¬ m.depth ≥ r.moreDepth
      omega
    rw [if_neg hshallow']
    exact hc m hm

theorem tolerated_atDepth (f : Nat → Nat) :
    r.Tolerated Fit (modify fun m => { m with depth := f m.depth }) :=
  fun m hm => .ok (hm.atDepth (f m.depth))

/-- What is done in any case does the same after the same, and after a limit it must not jump. -/
theorem Tolerated.thenAlways {c : Run α} {after : Run Unit} (hc : r.Tolerated Fit c)
    (hafter : r.Tolerated Fit after) (hkeeps : KeepsLimits Fit after) :
    r.Tolerated Fit (Run.thenAlways c after) := by
  intro m hm
  rw [thenAlways_eq, thenAlways_eq]
  have hends := hc m hm
  generalize c m = x, c (m.raise r) = x' at hends
  cases hends with
  | same hbelow =>
    rw [stateOf_mapMachine]
    have hends := hafter _ hbelow
    generalize after (stateOf x) = y, after ((stateOf x).raise r) = y' at hends
    cases hends with
    | limit hfinal => exact .limit hfinal
    | same hbelow' =>
      cases y with
      | error e m₂ => exact .error hbelow'
      | ok u m₂ =>
        cases x with
        | ok a m₁ => exact .ok hbelow'
        | error e m₁ => exact .error hbelow'
  | @limit l m₁ _ hfinal =>
    obtain ⟨hstays, hjumps⟩ := hkeeps m₁ hfinal
    simp only [stateOf]
    cases hrun : after m₁ with
    | ok u m₂ =>
      rw [hrun] at hstays
      exact .limit hstays
    | error e m₂ =>
      rw [hrun] at hstays
      obtain ⟨l', rfl⟩ := hjumps e m₂ hrun
      exact .limit hstays

theorem Tolerated.deeper {c : Run α} (hc : r.Tolerated Fit c) :
    r.Tolerated Fit
      (do
        modify fun m => { m with depth := m.depth + 1 }
        Run.thenAlways c (modify fun m => { m with depth := m.depth - 1 })) := by
  refine (tolerated_atDepth (· + 1)).bind fun _ => hc.thenAlways (tolerated_atDepth (· - 1)) ?_
  exact fun m hfinal => ⟨hfinal, fun e m₁ h => by cases h⟩

/-- The rounds of a loop.  Every round that goes on takes a step, so that neither loop runs out of
rounds. -/
theorem Tolerated.rounds {round : Run Bool} (hround : r.Tolerated Fit round)
    (hpaid : ∀ m m₁, round m = .ok true m₁ → m.steps < m₁.steps) {fuel fuel' : Nat}
    (hfuel : fuel ≤ fuel') {m : Machine} (hm : r.Below Fit m) (hleft : r.steps - m.steps < fuel) :
    r.Ends Fit (Run.rounds round fuel m) (Run.rounds round fuel' (m.raise r)) := by
  induction fuel generalizing fuel' m with
  | zero => omega
  | succ fuel ih =>
    obtain ⟨fuel', rfl⟩ : ∃ k, fuel' = k + 1 := ⟨fuel' - 1, by omega⟩
    unfold Run.rounds
    refine hround.goOn hm fun more m₁ hrun hbelow => ?_
    cases more with
    | false => exact .ok hbelow
    | true =>
      have hlt := hpaid m m₁ hrun
      have hunspent := hbelow.unspent
      exact ih (by omega) hbelow (by omega)

theorem Tolerated.loop {round : Run Bool} (hround : r.Tolerated Fit round)
    (hpaid : ∀ m m₁, round m = .ok true m₁ → m.steps < m₁.steps) :
    r.Tolerated Fit (Run.repeatRounds round) := by
  intro m hm
  have hmax := hm.maxSteps
  have hle := r.steps_le
  have hfuel : m.maxSteps + 2 - m.steps ≤ r.moreSteps + 2 - m.steps := by omega
  have hleft : r.steps - m.steps < m.maxSteps + 2 - m.steps := by
    have hunspent := hm.unspent
    omega
  exact hround.rounds hpaid hfuel hm hleft

/-! ## Code under raised limits -/

variable {depth : Nat}

/-- Whatever is composed of tolerated code is tolerated. -/
theorem tolerated_of_composed (hev : r.Tolerates Fit (evaluator depth))
    (hhidden : r.depth = r.moreDepth ∨ CalmFinalizers Fit) {c : Run α}
    (h : Composed Fit (evaluator depth) c) : r.Tolerated Fit c := by
  induction h with
  | result a => exact fun _ hm => .ok hm
  | stop e => exact fun _ hm => .error hm
  | look hstore _ ih => exact .look hstore ih
  | change hstore hruns => exact .change hstore hruns
  | tick => exact .tick
  | expression hn scopes => exact hev.expression _ scopes hn
  | statement hn scopes => exact hev.statement _ scopes hn
  | call f this args => exact hev.call f this args
  | bind _ _ ihc ihk => exact ihc.bind ihk
  | guarded _ hlimit _ ihc ihhandler => exact ihc.guarded hlimit ihhandler
  | finalized _ hn hf hfit scopes ihc => 
    exact ihc.thenAlways (hev.statement _ scopes hfit) (keepsLimits_finalizer depth scopes hn hf)
  | loop _ hpaid ih => exact ih.loop hpaid
  | entered _ ih => exact ih.entered hhidden
  | deeper _ ih => exact ih.deeper

/-- Code is tolerated, however deep it is nested. -/
theorem tolerates_evaluator (hfit : Hereditary Fit)
    (hhidden : r.depth = r.moreDepth ∨ CalmFinalizers Fit) (depth : Nat) :
    r.Tolerates Fit (evaluator depth) := by
  induction depth with
  | zero =>
    exact
      { expression := fun _ _ _ _ hm => .error hm
        statement := fun _ _ _ _ hm => .error hm
        call := fun _ _ _ _ hm => .error hm }
  | succ depth ih =>
    exact
      { expression := fun n scopes hn =>
          tolerated_of_composed ih hhidden (.evaluateExpression hfit hn scopes)
        statement := fun n scopes hn =>
          tolerated_of_composed ih hhidden
            (.executeStatement (evaluator_advances depth) hfit hn scopes)
        call := fun f this args =>
          tolerated_of_composed ih hhidden (.callFunction hfit f this args) }

/-- A new budget, and a handler that lets limits pass. -/
theorem exists_fresh {c : Run α} (hc : Composed Fit (evaluator depth) c) :
    ∃ c', Composed Fit (evaluator depth) c' ∧
      ∀ m, Run.fresh c m = c' { m with steps := 0, depth := 0 } := by
  refine ⟨_, .guarded hc ?_ ?_, fun m => rfl⟩
  · exact fun _ => rfl
  · intro e
    split
    all_goals first
      | exact .fail _
      | exact .stop _

/-- With a new budget, what no limit stops does the same under raised limits. -/
theorem fresh_eq (hev : r.Tolerates Fit (evaluator depth))
    (hhidden : r.depth = r.moreDepth ∨ CalmFinalizers Fit) {c : Run α}
    (hc : Composed Fit (evaluator depth) c) (hsteps : m.maxSteps = r.steps)
    (hdepth : m.maxDepth = r.depth) (hruns : m.Runs Fit) (hend : Unstopped (Run.fresh c m)) :
    r.Below Fit (stateOf (Run.fresh c m)) ∧
      Run.fresh c (m.raise r) = mapMachine (·.raise r) (Run.fresh c m) := by
  obtain ⟨c', hc', hrun⟩ := exists_fresh hc
  have hbelow : r.Below Fit { m with steps := 0, depth := 0 } :=
    ⟨hsteps, hdepth, Nat.zero_le _, ⟨hruns.functions, hruns.trees⟩⟩
  have hends : r.Ends Fit (Run.fresh c m) (Run.fresh c (m.raise r)) := by
    rw [hrun, hrun]
    exact tolerated_of_composed hev hhidden hc' _ hbelow
  generalize Run.fresh c m = x, Run.fresh c (m.raise r) = x' at hends hend
  cases hends with
  | same hbelow => exact ⟨hbelow, rfl⟩
  | limit _ => exact absurd rfl (hend _ _)

variable {n : Node} {scopes : ScopeChain}

theorem evaluate_eq (hfit : Hereditary Fit) (hhidden : r.depth = r.moreDepth ∨ CalmFinalizers Fit)
    (hn : Fit n) (hsteps : m.maxSteps = r.steps) (hdepth : m.maxDepth = r.depth)
    (hruns : m.Runs Fit) (hend : Unstopped (Run.evaluate n scopes m)) :
    r.Below Fit (stateOf (Run.evaluate n scopes m)) ∧
      Run.evaluate n scopes (m.raise r) = mapMachine (·.raise r) (Run.evaluate n scopes m) :=
  fresh_eq (tolerates_evaluator hfit hhidden nestingLimit) hhidden (.expression hn scopes) hsteps
    hdepth hruns hend

/-- Statements and the declarations of single variables are composed alike. -/
theorem exists_execute (hfit : Hereditary Fit) (hn : Fit n) (scopes : ScopeChain) :
    ∃ c, Run.execute n scopes = Run.fresh c ∧ Composed Fit (evaluator nestingLimit) c := by
  unfold Run.execute
  split
  · refine ⟨_, rfl, ?_⟩
    exact (Composed.varScope scopes).bind fun f => .declareVariable hfit hn scopes f
  · exact ⟨_, rfl, .statement hn scopes⟩

theorem execute_eq (hfit : Hereditary Fit) (hhidden : r.depth = r.moreDepth ∨ CalmFinalizers Fit)
    (hn : Fit n) (hsteps : m.maxSteps = r.steps) (hdepth : m.maxDepth = r.depth)
    (hruns : m.Runs Fit) (hend : Unstopped (Run.execute n scopes m)) :
    r.Below Fit (stateOf (Run.execute n scopes m)) ∧
      Run.execute n scopes (m.raise r) = mapMachine (·.raise r) (Run.execute n scopes m) := by
  obtain ⟨c, heq, hc⟩ := exists_execute hfit hn scopes
  rw [heq] at hend ⊢
  exact fresh_eq (tolerates_evaluator hfit hhidden nestingLimit) hhidden hc hsteps hdepth hruns hend

end Raise

/-! ## The budget of steps -/

/-- The machine with another budget of steps. -/
def Machine.withBudget (m : Machine) (budget : Nat) : Machine := { m with maxSteps := budget }

/-- A larger budget changes nothing but itself about a run that no limit stopped: what it ends with, the
objects and the scopes it leaves are the same.  Nothing that the code does can tell budgets apart. -/
theorem budget_unobserved (n : Node) (scopes : ScopeChain) (m : Machine) {budget : Nat}
    (hbudget : m.maxSteps ≤ budget) :
    (Unstopped (Run.evaluate n scopes m) →
      Run.evaluate n scopes (m.withBudget budget) =
        mapMachine (·.withBudget budget) (Run.evaluate n scopes m)) ∧
    (Unstopped (Run.execute n scopes m) →
      Run.execute n scopes (m.withBudget budget) =
        mapMachine (·.withBudget budget) (Run.execute n scopes m)) := by
  let r : Raise := ⟨m.maxSteps, m.maxDepth, budget, m.maxDepth, hbudget, Nat.le_refl _⟩
  have hmap : ∀ {α : Type} {x : EStateM.Result Abrupt Machine α},
      r.Below (fun _ => True) (stateOf x) →
        mapMachine (·.raise r) x = mapMachine (·.withBudget budget) x := by
    intro α x hbelow
    have hdepth : (stateOf x).maxDepth = m.maxDepth := hbelow.maxDepth
    cases x <;> simp only [mapMachine, Machine.raise, Machine.withBudget, r, ← hdepth, stateOf]
  constructor
  · intro hend
    obtain ⟨hbelow, heq⟩ :=
      Raise.evaluate_eq (r := r) hereditary_true (.inl rfl) trivial rfl rfl m.runs_true hend
    exact heq.trans (hmap hbelow)
  · intro hend
    obtain ⟨hbelow, heq⟩ :=
      Raise.execute_eq (r := r) hereditary_true (.inl rfl) trivial rfl rfl m.runs_true hend
    exact heq.trans (hmap hbelow)

/-- A machine without objects, with an empty global scope. -/
def blankMachine (maxSteps maxDepth : Nat) : Machine :=
  { heap := #[], frames := #[⟨.empty, true, false⟩], global := 0, steps := 0, depth := 0,
    maxSteps := maxSteps, maxDepth := maxDepth, trees := [] }

/-- `(function () { try { return true; } finally { } })()` -/
def finalizedCall : Node :=
  .mk 0 .top .call
    [.mk 1 .callee (.functionExpression ⟨false, false, false⟩)
      [.mk 2 .body .blockStatement
        [.mk 3 .body .tryStatement
          [.mk 4 .block .blockStatement
            [.mk 5 .body .returnStatement [.mk 6 .argument (.literal (.bool true)) []]],
           .mk 7 .finalizer .blockStatement []]]]]

/-- `try { throw true; } finally { r = null; }` -/
def finalizedThrow : Node :=
  .mk 0 .top .tryStatement
    [.mk 1 .block .blockStatement
      [.mk 2 .body .throwStatement [.mk 3 .argument (.literal (.bool true)) []]],
     .mk 4 .finalizer .blockStatement
      [.mk 5 .body (.expressionStatement none)
        [.mk 6 .expression (.assignment .plain)
          [.mk 7 .left (.identifier (Text.of "r")) [], .mk 8 .right (.literal .null) []]]]]

/-- The boolean that an evaluation ends with. -/
def boolOf? : EStateM.Result Abrupt Machine Value → Option Bool
  | .ok (.bool b) _ => some b
  | _ => none

theorem exists_of_boolOf? {x : EStateM.Result Abrupt Machine Value} {b : Bool}
    (h : boolOf? x = some b) : ∃ m, x = .ok (.bool b) m := by
  unfold boolOf? at h
  split at h
  · cases h
    exact ⟨_, rfl⟩
  · cases h

/-- Whether no limit stops a run. -/
def isUnstopped {α : Type} : EStateM.Result Abrupt Machine α → Bool
  | .error (.limit _) _ => false
  | _ => true

theorem unstopped_of_isUnstopped {α : Type} {x : EStateM.Result Abrupt Machine α}
    (h : isUnstopped x = true) : Unstopped x := by
  rintro l m rfl
  cases h

theorem unstopped_ok {α : Type} {x : EStateM.Result Abrupt Machine α} {a : α} {m : Machine}
    (h : x = .ok a m) : Unstopped x := by
  rintro l m₁ rfl
  cases h

theorem unstopped_thrown {α : Type} {x : EStateM.Result Abrupt Machine α} {v : Value} {m : Machine}
    (h : x = .error (.thrown v) m) : Unstopped x := by
  rintro l m₁ rfl
  cases h

/-- A call that returns a value and a statement that throws one, with a budget of twenty steps and of a
thousand. -/
theorem finalized_withBudget :
    (blankMachine 20 1).maxSteps ≤ 1000 ∧
      (∃ m, Run.evaluate finalizedCall [0] (blankMachine 20 1) = .ok (.bool true) m ∧
        Run.evaluate finalizedCall [0] ((blankMachine 20 1).withBudget 1000) =
          .ok (.bool true) (m.withBudget 1000)) ∧
      ∃ m, Run.execute finalizedThrow [0] (blankMachine 20 1) = .error (.thrown (.bool true)) m ∧
        Run.execute finalizedThrow [0] ((blankMachine 20 1).withBudget 1000) =
          .error (.thrown (.bool true)) (m.withBudget 1000) := by
  have hbudget : (blankMachine 20 1).maxSteps ≤ 1000 := by decide
  obtain ⟨m, hcall⟩ :
      ∃ m, Run.evaluate finalizedCall [0] (blankMachine 20 1) = .ok (.bool true) m :=
    exists_of_boolOf? (by decide +kernel)
  obtain ⟨m', hthrow⟩ :
      ∃ m, Run.execute finalizedThrow [0] (blankMachine 20 1) = .error (.thrown (.bool true)) m :=
    ⟨_, rfl⟩
  refine ⟨hbudget, ⟨m, hcall, ?_⟩, ⟨m', hthrow, ?_⟩⟩
  · have h := (budget_unobserved finalizedCall [0] _ hbudget).1 (unstopped_ok hcall)
    rwa [hcall] at h
  · have h := (budget_unobserved finalizedThrow [0] _ hbudget).2 (unstopped_thrown hthrow)
    rwa [hthrow] at h

/-! ## The depth of calls -/

/-- The machine with another limit of the depth of calls. -/
def Machine.withDepthLimit (m : Machine) (bound : Nat) : Machine := { m with maxDepth := bound }

/-- Code without a finalizer that jumps. -/
def CalmCode (n : Node) : Prop :=
  ∀ d : Node, d.Inside n → ∀ f, d.child? .finalizer = some f → Calm f

theorem hereditary_calmCode : Hereditary CalmCode where
  part _ hn _ hc d hd := hn d (.within hc hd)
  slot n hn r d hd := by
    obtain rfl | hd := Node.inside_inRole hd
    · have hself := hn n (.self n)
      cases n
      exact hself
    · exact hn d hd

theorem calmFinalizers_calmCode : CalmFinalizers CalmCode := fun n f hn => hn n (.self n) f

/-- Where no finalizer jumps, a deeper limit of calls changes nothing but itself about an evaluation that
no limit stopped.  An evaluation that meets the limit of calls therefore ends with it. -/
theorem depth_unobserved {n : Node} (hn : CalmCode n) (scopes : ScopeChain) {m : Machine}
    (hm : m.Runs CalmCode) {bound : Nat} (hbound : m.maxDepth ≤ bound)
    (hend : Unstopped (Run.evaluate n scopes m)) :
    Run.evaluate n scopes (m.withDepthLimit bound) =
      mapMachine (·.withDepthLimit bound) (Run.evaluate n scopes m) := by
  let r : Raise := ⟨m.maxSteps, m.maxDepth, m.maxSteps, bound, Nat.le_refl _, hbound⟩
  obtain ⟨hbelow, heq⟩ := Raise.evaluate_eq (r := r) hereditary_calmCode
    (.inr calmFinalizers_calmCode) hn rfl rfl hm hend
  refine heq.trans ?_
  have hsteps : (stateOf (Run.evaluate n scopes m)).maxSteps = m.maxSteps := hbelow.maxSteps
  generalize Run.evaluate n scopes m = x at hsteps
  cases x <;>
    simp only [mapMachine, Machine.raise, Machine.withDepthLimit, r, ← hsteps, stateOf]

/-- A block without statements does nothing but take its step. -/
theorem calm_emptyBlock {n : Node} (hform : n.form = .blockStatement)
    (hbody : n.childrenAt .body = []) : Calm n := by
  intro depth scopes m e m₁ hrun
  cases depth with
  | zero =>
    cases hrun
    exact ⟨_, rfl⟩
  | succ depth =>
    change Run.executeStatement (evaluator depth) n scopes m = _ at hrun
    unfold Run.executeStatement at hrun
    rw [hform] at hrun
    have htick := tick_eq m
    split at htick
    · rw [bind_of_error htick] at hrun
      cases hrun
      exact ⟨_, rfl⟩
    · rw [bind_of_ok htick] at hrun
      simp only [hbody] at hrun
      cases hrun

theorem calmCode_finalizedCall : CalmCode finalizedCall := by
  have hcalm : Calm (.mk 7 .finalizer .blockStatement []) := calm_emptyBlock rfl rfl
  unfold CalmCode finalizedCall
  simp only [Node.forall_inside_mk, List.forall_mem_cons, List.not_mem_nil, false_implies,
    implies_true, and_true]
  simp [Node.child?, Node.children, Node.role, hcalm]

/-- The call that returns a value, with one call and with many calls inside of each other. -/
theorem finalizedCall_withDepthLimit :
    CalmCode finalizedCall ∧ (blankMachine 20 1).Runs CalmCode ∧ (blankMachine 20 1).maxDepth ≤ 200 ∧
      ∃ m, Run.evaluate finalizedCall [0] (blankMachine 20 1) = .ok (.bool true) m ∧
        Run.evaluate finalizedCall [0] ((blankMachine 20 1).withDepthLimit 200) =
          .ok (.bool true) (m.withDepthLimit 200) := by
  have hruns : (blankMachine 20 1).Runs CalmCode :=
    ⟨fun _ _ _ _ h => (by cases h), fun _ h => (by cases h)⟩
  have hbound : (blankMachine 20 1).maxDepth ≤ 200 := by decide
  obtain ⟨m, hcall⟩ :
      ∃ m, Run.evaluate finalizedCall [0] (blankMachine 20 1) = .ok (.bool true) m :=
    exists_of_boolOf? (by decide +kernel)
  refine ⟨calmCode_finalizedCall, hruns, hbound, m, hcall, ?_⟩
  have h := depth_unobserved calmCode_finalizedCall [0] hruns hbound (unstopped_ok hcall)
  rwa [hcall] at h

/-- `(function () { var r = false; try { (function () { })(); r = true; } finally { return r; } })()` -/
def jumpingFinalizer : Node :=
  .mk 0 .top .call
    [.mk 1 .callee (.functionExpression ⟨false, false, false⟩)
      [.mk 2 .body .blockStatement
        [.mk 3 .body (.variableDeclaration .var)
          [.mk 4 .declarations .variableDeclarator
            [.mk 5 .id (.identifier (Text.of "r")) [], .mk 6 .init (.literal (.bool false)) []]],
         .mk 7 .body .tryStatement
          [.mk 8 .block .blockStatement
            [.mk 9 .body (.expressionStatement none)
              [.mk 10 .expression .call
                [.mk 11 .callee (.functionExpression ⟨false, false, false⟩)
                  [.mk 12 .body .blockStatement []]]],
             .mk 13 .body (.expressionStatement none)
              [.mk 14 .expression (.assignment .plain)
                [.mk 15 .left (.identifier (Text.of "r")) [],
                 .mk 16 .right (.literal (.bool true)) []]]],
           .mk 17 .finalizer .blockStatement
            [.mk 18 .body .returnStatement
              [.mk 19 .argument (.identifier (Text.of "r")) []]]]]]]

/-- A finalizer that returns takes the place of the limit of calls, and its value shows the limit. -/
example : boolOf? (Run.evaluate jumpingFinalizer [0] (blankMachine 50 1)) = some false ∧
    boolOf? (Run.evaluate jumpingFinalizer [0] (blankMachine 50 2)) = some true := by
  decide +kernel

end Untangle.Sandbox
