import Untangle.Proofs.Sandbox.Limits

set_option autoImplicit false

/-!
# Steps that were taken before

Only the steps that are left count: a run that starts some steps later, with a budget that is larger by
as many, takes the same way, and both meet the limits at the same places.  With the same budget, a run
that starts later and is not stopped does the same as one that starts sooner.
-/

namespace Untangle.Sandbox

/-- The machine some steps later. -/
def Machine.spend (m : Machine) (k : Nat) : Machine := { m with steps := m.steps + k }

/-- The machine some steps later, with as many more to take. -/
def Machine.ahead (m : Machine) (k : Nat) : Machine :=
  { m with steps := m.steps + k, maxSteps := m.maxSteps + k }

/-- How two runs end of which the second is ahead: in the same way, or both at a limit. -/
inductive Abreast (k : Nat) {α : Type} :
    EStateM.Result Abrupt Machine α → EStateM.Result Abrupt Machine α → Prop
  | same (x : EStateM.Result Abrupt Machine α) : Abreast k x (mapMachine (·.ahead k) x)
  | limit (l l' : Limit) (m : Machine) :
      Abreast k (.error (.limit l) m) (.error (.limit l') (m.ahead k))

/-- A computation that does the same on a machine that is ahead. -/
def InStep (k : Nat) {α : Type} (c : Run α) : Prop := ∀ m, Abreast k (c m) (c (m.ahead k))

/-- All code does the same on a machine that is ahead. -/
structure Evaluator.InStep (k : Nat) (ev : Evaluator) : Prop where
  expression : ∀ n scopes, Sandbox.InStep k (ev.expression n scopes)
  statement : ∀ n scopes, Sandbox.InStep k (ev.statement n scopes)
  call : ∀ f this args, Sandbox.InStep k (ev.call f this args)

namespace InStep

variable {k : Nat} {α β : Type} {m : Machine}

theorem ahead_eq_withMeter (m : Machine) (k : Nat) :
    m.ahead k = m.withMeter ⟨m.steps + k, m.depth, m.maxSteps + k, m.maxDepth⟩ := rfl

theorem look {f : Machine → Run α} (hstore : ∀ m t, f (m.withMeter t) = f m)
    (hf : ∀ m, InStep k (f m)) : InStep k (get >>= f) := by
  intro m
  show Abreast k (f m m) (f (m.ahead k) (m.ahead k))
  rw [ahead_eq_withMeter, hstore]
  exact hf m m

theorem change {f : Machine → α × Machine}
    (hstore : ∀ m t, f (m.withMeter t) = ((f m).1, (f m).2.withMeter t)) :
    InStep k (modifyGet f : Run α) := by
  intro m
  have hmeter := meter_of_change hstore m
  have hahead : f (m.ahead k) = ((f m).1, (f m).2.ahead k) := by
    injection hmeter with hsteps hdepth hmaxSteps hmaxDepth
    rw [ahead_eq_withMeter, hstore, ahead_eq_withMeter, hsteps, hdepth, hmaxSteps, hmaxDepth]
  show Abreast k _ (EStateM.Result.ok (f (m.ahead k)).1 (f (m.ahead k)).2)
  rw [hahead]
  exact .same (.ok (f m).1 (f m).2)

theorem tick : InStep k Run.tick := by
  intro m
  rw [tick_eq, tick_eq]
  have hiff : (m.ahead k).steps + 1 > (m.ahead k).maxSteps ↔ m.steps + 1 > m.maxSteps := by
    show m.steps + k + 1 > m.maxSteps + k ↔ _
    omega
  have hlater : ({ m.ahead k with steps := (m.ahead k).steps + 1 } : Machine) =
      ({ m with steps := m.steps + 1 } : Machine).ahead k := by
    show ({ m with steps := m.steps + k + 1, maxSteps := m.maxSteps + k } : Machine) =
      { m with steps := m.steps + 1 + k, maxSteps := m.maxSteps + k }
    rw [Nat.add_right_comm]
  rw [hlater]
  by_cases hover : m.steps + 1 > m.maxSteps
  · rw [if_pos hover, if_pos (hiff.mpr hover)]
    exact .limit _ _ _
  · rw [if_neg hover, if_neg (hiff.not.mpr hover)]
    exact .same (.ok () { m with steps := m.steps + 1 })

theorem bind {c : Run α} {f : α → Run β} (hc : InStep k c) (hf : ∀ a, InStep k (f a)) :
    InStep k (c >>= f) := by
  intro m
  have habreast := hc m
  generalize hrun : c m = x, hrun' : c (m.ahead k) = x' at habreast
  cases habreast with
  | same =>
    cases x with
    | ok a m₁ =>
      rw [bind_of_ok hrun, bind_of_ok hrun']
      exact hf a m₁
    | error e m₁ =>
      rw [bind_of_error hrun, bind_of_error hrun']
      exact .same (.error e m₁)
  | limit l l' m₁ =>
    rw [bind_of_error hrun, bind_of_error hrun']
    exact .limit l l' m₁

theorem guarded {c : Run α} {handler : Abrupt → Run α} (hc : InStep k c)
    (hlimit : ∀ l, handler (.limit l) = throw (.limit l)) (hhandler : ∀ e, InStep k (handler e)) :
    InStep k (tryCatch c handler) := by
  intro m
  have habreast := hc m
  generalize hrun : c m = x, hrun' : c (m.ahead k) = x' at habreast
  cases habreast with
  | same =>
    cases x with
    | ok a m₁ =>
      rw [tryCatch_of_ok hrun, tryCatch_of_ok hrun']
      exact .same (.ok a m₁)
    | error e m₁ =>
      rw [tryCatch_of_error hrun, tryCatch_of_error hrun']
      exact hhandler e m₁
  | limit l l' m₁ =>
    rw [tryCatch_of_error hrun, tryCatch_of_error hrun', hlimit, hlimit]
    exact .limit l l' m₁

theorem stateOf_abreast {x x' : EStateM.Result Abrupt Machine α} (h : Abreast k x x') :
    stateOf x' = (stateOf x).ahead k := by
  cases h with
  | same => cases x <;> rfl
  | limit => rfl

theorem thenAlways {c : Run α} {after : Run Unit} (hc : InStep k c) (hafter : InStep k after) :
    InStep k (Run.thenAlways c after) := by
  intro m
  have habreast := hc m
  have hlast := hafter (stateOf (c m))
  rw [thenAlways_eq, thenAlways_eq, stateOf_abreast habreast]
  generalize c m = x, c (m.ahead k) = x' at habreast hlast
  generalize after (stateOf x) = y, after ((stateOf x).ahead k) = y' at hlast
  cases hlast with
  | limit l l' m₁ => exact .limit l l' m₁
  | same =>
    cases y with
    | error e m₁ => exact .same (.error e m₁)
    | ok u m₁ =>
      cases habreast with
      | limit l l' m₂ => exact .limit l l' m₁
      | same =>
        cases x with
        | ok a m₂ => exact .same (.ok a m₁)
        | error e m₂ => exact .same (.error e m₁)

theorem rounds {round : Run Bool} (hround : InStep k round) (fuel : Nat) :
    InStep k (Run.rounds round fuel) := by
  induction fuel with
  | zero => exact fun m => .same (.ok () m)
  | succ fuel ih =>
    refine hround.bind fun more => ?_
    cases more with
    | true => exact ih
    | false => exact fun m => .same (.ok () m)

/-- As many steps are left, and so as many rounds are to be run. -/
theorem repeatRounds {round : Run Bool} (hround : InStep k round) :
    InStep k (Run.repeatRounds round) := by
  intro m
  have hleft : (m.ahead k).maxSteps + 2 - (m.ahead k).steps = m.maxSteps + 2 - m.steps := by
    show m.maxSteps + k + 2 - (m.steps + k) = _
    omega
  show Abreast k (Run.rounds round (m.maxSteps + 2 - m.steps) m)
    (Run.rounds round ((m.ahead k).maxSteps + 2 - (m.ahead k).steps) (m.ahead k))
  rw [hleft]
  exact hround.rounds _ m

theorem entered {c : Run α} (hc : InStep k c) :
    InStep k (do
      let m ← get
      if m.depth ≥ m.maxDepth then throw (.limit (.depth m.maxDepth))
      c) := by
  intro m
  rw [entered_eq, entered_eq]
  show Abreast k _ (if m.depth ≥ m.maxDepth then _ else _)
  split
  · exact .limit _ _ _
  · exact hc m

theorem atDepth (f : Nat → Nat) :
    InStep k (modify fun m : Machine => { m with depth := f m.depth }) :=
  fun m => .same (.ok PUnit.unit { m with depth := f m.depth })

/-- Whatever is composed of code in step is in step. -/
theorem of_composed {ev : Evaluator} (hev : ev.InStep k) {c : Run α}
    (h : Composed (fun _ => True) ev c) : InStep k c := by
  induction h with
  | result a => exact fun m => .same (.ok a m)
  | stop e => exact fun m => .same (.error e m)
  | look hstore _ ih => exact .look hstore fun m => ih m m.runs_true
  | change hstore _ => exact .change hstore
  | tick => exact .tick
  | expression _ scopes => exact hev.expression _ scopes
  | statement _ scopes => exact hev.statement _ scopes
  | call f this args => exact hev.call f this args
  | bind _ _ ihc ihk => exact ihc.bind ihk
  | guarded _ hlimit _ ihc ihhandler => exact ihc.guarded hlimit ihhandler
  | finalized _ _ _ _ scopes ihc => exact ihc.thenAlways (hev.statement _ scopes)
  | loop _ _ ih => exact ih.repeatRounds
  | entered _ ih => exact ih.entered
  | deeper _ ih => exact (atDepth (· + 1)).bind fun _ => ih.thenAlways (atDepth (· - 1))

end InStep

/-- Code is in step, however deep it is nested. -/
theorem evaluator_inStep (k depth : Nat) : (evaluator depth).InStep k := by
  induction depth with
  | zero =>
    exact ⟨fun _ _ m => .limit _ _ m, fun _ _ m => .limit _ _ m, fun _ _ _ m => .limit _ _ m⟩
  | succ depth ih =>
    exact
      { expression := fun _ scopes =>
          .of_composed ih (.evaluateExpression hereditary_true trivial scopes)
        statement := fun _ scopes =>
          .of_composed ih (.executeStatement (evaluator_advances depth) hereditary_true trivial scopes)
        call := fun f this args => .of_composed ih (.callFunction hereditary_true f this args) }

theorem Machine.spend_spend (m : Machine) (j k : Nat) : (m.spend j).spend k = m.spend (j + k) :=
  congrArg (fun steps => { m with steps := steps }) (Nat.add_assoc m.steps j k)

@[simp] theorem Machine.findScope_spend (m : Machine) (k : Nat) (name : Text) (c : ScopeChain) :
    (m.spend k).findScope name c = m.findScope name c :=
  m.withMeter_findScope ⟨m.steps + k, m.depth, m.maxSteps, m.maxDepth⟩ name c

@[simp] theorem Machine.variable_spend (m : Machine) (k : Nat) (f : FrameId) (name : Text) :
    (m.spend k).variable f name = m.variable f name := rfl

/-! ## Runs that are not stopped -/

namespace Unstopped

variable {α β : Type} {m : Machine}

theorem first {c : Run α} {k : α → Run β} (h : Unstopped ((c >>= k) m)) : Unstopped (c m) := by
  rintro l m₁ hrun
  rw [bind_of_error hrun] at h
  exact h l m₁ rfl

theorem guarded {c : Run α} {handler : Abrupt → Run α}
    (hlimit : ∀ l, handler (.limit l) = throw (.limit l))
    (h : Unstopped (tryCatch c handler m)) : Unstopped (c m) := by
  rintro l m₁ hrun
  rw [tryCatch_of_error hrun, hlimit] at h
  exact h l m₁ rfl

theorem deeper {c : Run α}
    (h : Unstopped (Run.thenAlways c (modify fun m => { m with depth := m.depth - 1 }) m)) :
    Unstopped (c m) := by
  rintro l m₁ hrun
  rw [thenAlways_eq, hrun] at h
  exact h l _ rfl

theorem entered {c : Run α}
    (h : Unstopped ((do
      let m ← get
      if m.depth ≥ m.maxDepth then throw (.limit (.depth m.maxDepth))
      c : Run α) m)) :
    (do
      let m ← get
      if m.depth ≥ m.maxDepth then throw (.limit (.depth m.maxDepth))
      c : Run α) m = c m := by
  rw [entered_eq] at h ⊢
  split at h
  · exact absurd rfl (h _ _)
  · next hroom => rw [if_neg hroom]

/-- There was a step left for what is not stopped. -/
theorem tick {k : Unit → Run α} (h : Unstopped ((Run.tick >>= k) m)) :
    m.steps < m.maxSteps ∧ (Run.tick >>= k) m = k () (m.spend 1) := by
  by_cases hroom : m.steps < m.maxSteps
  · exact ⟨hroom, bind_of_ok (tick_of_room hroom)⟩
  · have hover : m.steps + 1 > m.maxSteps := by omega
    have hstop : Run.tick m = .error (.limit (.steps m.maxSteps)) { m with steps := m.steps + 1 } := by
      rw [tick_eq, if_pos hover]
    exact absurd hstop (h.first _ _)

/-- What is not stopped has a depth to go to. -/
theorem expression {depth : Nat} {n : Node} {scopes : ScopeChain}
    (h : Unstopped ((evaluator depth).expression n scopes m)) :
    ∃ d, depth = d + 1 ∧
      (evaluator depth).expression n scopes m = Run.evaluateExpression (evaluator d) n scopes m := by
  cases depth with
  | zero => exact absurd rfl (h _ _)
  | succ d => exact ⟨d, rfl, rfl⟩

theorem room {depth : Nat} {n : Node} {scopes : ScopeChain}
    (h : Unstopped ((evaluator depth).expression n scopes m)) : m.steps < m.maxSteps := by
  obtain ⟨d, rfl, heq⟩ := h.expression
  rw [heq] at h
  exact h.tick.1

theorem statement {depth : Nat} {n : Node} {scopes : ScopeChain}
    (h : Unstopped ((evaluator depth).statement n scopes m)) :
    ∃ d, depth = d + 1 ∧
      (evaluator depth).statement n scopes m = Run.executeStatement (evaluator d) n scopes m := by
  cases depth with
  | zero => exact absurd rfl (h _ _)
  | succ d => exact ⟨d, rfl, rfl⟩

end Unstopped

/-- An evaluation that starts some steps later and is not stopped does what one that starts sooner does,
and ends as many steps later. -/
theorem expression_spend {depth k : Nat} {n : Node} {scopes : ScopeChain} {m : Machine}
    (hend : Unstopped ((evaluator depth).expression n scopes (m.spend k))) :
    (evaluator depth).expression n scopes (m.spend k) =
      mapMachine (·.spend k) ((evaluator depth).expression n scopes m) := by
  have hroom : m.steps + k < m.maxSteps := hend.room
  -- In between stands a run that starts sooner, on a budget that is smaller by the steps.
  let small : Machine := { m with maxSteps := m.maxSteps - k }
  let r : Raise := ⟨m.maxSteps - k, m.maxDepth, m.maxSteps, m.maxDepth, Nat.sub_le _ _, Nat.le_refl _⟩
  have hbudget : m.maxSteps - k + k = m.maxSteps := Nat.sub_add_cancel (by omega)
  have hahead : small.ahead k = m.spend k := by
    show ({ m with steps := m.steps + k, maxSteps := m.maxSteps - k + k } : Machine) = _
    rw [hbudget]
    rfl
  have habreast := (evaluator_inStep k depth).expression n scopes small
  have hends : r.Ends (fun _ => True) ((evaluator depth).expression n scopes small)
      ((evaluator depth).expression n scopes m) :=
    (Raise.tolerates_evaluator hereditary_true (.inl rfl) depth).expression n scopes trivial small
      ⟨rfl, rfl, by show m.steps ≤ m.maxSteps - k; omega, small.runs_true⟩
  rw [hahead] at habreast
  generalize (evaluator depth).expression n scopes (m.spend k) = x' at habreast hend
  generalize (evaluator depth).expression n scopes small = x at habreast hends
  cases habreast with
  | limit l l' m₁ => exact absurd rfl (hend l' _)
  | same =>
    generalize (evaluator depth).expression n scopes m = y at hends
    cases hends with
    | limit _ => exact absurd rfl (hend _ _)
    | same hbelow =>
      have hstate : (stateOf x).ahead k = ((stateOf x).raise r).spend k := by
        have hsteps : (stateOf x).maxSteps = m.maxSteps - k := hbelow.maxSteps
        have hdepth : (stateOf x).maxDepth = m.maxDepth := hbelow.maxDepth
        simp only [Machine.ahead, Machine.raise, Machine.spend, r, hsteps, hbudget, ← hdepth]
      cases x with
      | ok a m₁ => exact congrArg (EStateM.Result.ok a) hstate
      | error e m₁ => exact congrArg (EStateM.Result.error e) hstate

end Untangle.Sandbox
