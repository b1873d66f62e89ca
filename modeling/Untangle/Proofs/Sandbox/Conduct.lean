import Untangle.Proofs.Sandbox.BuiltEvaluator
import Untangle.Sandbox.Global

set_option autoImplicit false

/-!
# What runs keep

If each step that a policy allows keeps a property of machines, every run of allowed code keeps it,
however the run ends, and stops only in the ways that the policy allows.

Statements declare variables in the function around them.  A chain of scopes shields some scopes if a
function stands in it before any of them does; the body of every function runs in such a chain.
-/

namespace Untangle.Sandbox

/-- No function of a machine comes to code with a property. -/
def Machine.FunctionsFree (m : Machine) (Bad : Node → Prop) : Prop :=
  ∀ r code scopes name, (m.cell r).body = .closure code scopes name → code.Free m.trees Bad

/-! ## Scopes in front of others -/

namespace Machine

/-- A chain in which a function stands before any of the scopes that are to be guarded. -/
def Shields (m : Machine) (guarded : FrameId → Prop) : ScopeChain → Prop
  | [] => False
  | f :: scopes => ¬ guarded f ∧ ((m.frame f).isFunction = true ∨ m.Shields guarded scopes)

/-- Scopes of functions stay what they are. -/
structure Before (m m₁ : Machine) : Prop where
  isFunction : ∀ f, (m.frame f).isFunction = true → (m₁.frame f).isFunction = true

variable {m m₁ m₂ : Machine} {guarded : FrameId → Prop}

theorem Before.refl (m : Machine) : m.Before m := ⟨fun _ h => h⟩

theorem Before.trans (h : m.Before m₁) (h' : m₁.Before m₂) : m.Before m₂ :=
  ⟨fun f hf => h'.isFunction f (h.isFunction f hf)⟩

theorem Shields.later {scopes : ScopeChain} (hscopes : m.Shields guarded scopes)
    (h : m.Before m₁) : m₁.Shields guarded scopes := by
  induction scopes with
  | nil => exact hscopes
  | cons f scopes ih =>
    obtain ⟨hne, hrest⟩ := hscopes
    exact ⟨hne, hrest.imp (h.isFunction f) ih⟩

theorem after_eq_stateOf {α : Type} (m : Machine) (c : Run α) : m.after c = stateOf (c m) := by
  unfold after EStateM.run
  cases c m <;> rfl

/-- The first function of a chain that shields some scopes is none of them. -/
theorem Shields.firstScope {scopes : ScopeChain} (hscopes : m.Shields guarded scopes) :
    ∃ f, m.firstScope (·.isFunction) scopes = some f ∧ ¬ guarded f := by
  induction scopes with
  | nil => exact hscopes.elim
  | cons f scopes ih =>
    obtain ⟨hne, hrest⟩ := hscopes
    unfold Machine.firstScope
    split
    · exact ⟨f, rfl, hne⟩
    · next hf => exact ih (hrest.resolve_left hf)

/-- A declaration finds a scope in any chain. -/
theorem exists_declarationScope (kind : VariableKind) (scopes : ScopeChain) (m : Machine) :
    ∃ f, Run.declarationScope kind scopes m = .ok f m := by
  unfold Run.declarationScope
  split
  · exact ⟨_, rfl⟩
  · cases scopes with
    | nil => exact ⟨_, rfl⟩
    | cons f scopes => exact ⟨f, rfl⟩

/-- A declaration in a chain that shields some scopes finds another one. -/
theorem Shields.declarationScope {scopes : ScopeChain} (hscopes : m.Shields guarded scopes)
    (kind : VariableKind) : ∃ f, Run.declarationScope kind scopes m = .ok f m ∧ ¬ guarded f := by
  unfold Run.declarationScope
  split
  · obtain ⟨f, hfirst, hne⟩ := hscopes.firstScope
    refine ⟨f, ?_, hne⟩
    show EStateM.Result.ok ((m.firstScope (·.isFunction) scopes).getD m.global) m = _
    rw [hfirst]
    rfl
  · cases scopes with
    | nil => exact hscopes.elim
    | cons f scopes => exact ⟨f, rfl, hscopes.1⟩

/-! ## Single steps -/

/-- A change of counters, limits and objects. -/
theorem Before.of_frames (hframes : m₁.frames = m.frames) : m.Before m₁ := by
  refine ⟨fun f hf => ?_⟩
  unfold frame
  rw [hframes]
  exact hf

/-- A scope is still there when another one is opened. -/
theorem lt_size_newFrame {f : FrameId} (hf : f < m.frames.size) (fr : Frame) :
    f < ({ m with frames := m.frames.push fr } : Machine).frames.size := by
  show f < (m.frames.push fr).size
  rw [Array.size_push]
  exact Nat.lt_succ_of_lt hf

theorem before_newFrame (m : Machine) (fr : Frame) :
    m.Before { m with frames := m.frames.push fr } := by
  refine ⟨fun f hf => ?_⟩
  have hlt : f ≠ m.frames.size := by
    rintro rfl
    rw [show m.frame m.frames.size = default by simp [frame, Array.getD_eq_getD_getElem?]] at hf
    cases hf
  rw [Pairing.frame_push, if_neg hlt]
  exact hf

theorem before_declared (m : Machine) (f : FrameId) (name : Text) (v : Value) :
    m.Before (Pairing.declared m f name v) := by
  refine ⟨fun g hg => ?_⟩
  rw [Pairing.frame_declared]
  split
  · exact hg
  · exact hg

end Machine

/-! ## Policies that last -/

/-- The steps that a policy allows keep what it says of machines. -/
structure Policy.Lasting (P : Policy) : Prop where
  room : P.Room
  fresh : ∀ {m : Machine}, P.Holds m → ¬ P.guarded m.frames.size
  own : ∀ {f : FrameId}, ¬ P.guarded f → ∀ name, P.Own f name
  meter : ∀ {m : Machine} (t : Meter), P.Holds m → P.Holds (m.withMeter t)
  allocate : ∀ {m : Machine} (c : Cell), P.Holds m → P.Holds { m with heap := m.heap.push c }
  setCell : ∀ {m : Machine} {r : Ref} (c : Cell), P.Holds m → P.Open r →
    P.Holds { m with heap := m.heap.setIfInBounds r c }
  newFrame : ∀ {m : Machine} (isFunction : Bool), P.Holds m →
    P.Holds { m with frames := m.frames.push ⟨.empty, isFunction, false⟩ }
  declare : ∀ {m : Machine} {f : FrameId} {name : Text} (v : Value), P.Holds m → P.Own f name →
    P.Holds (Pairing.declared m f name v)

namespace Policy

variable (P : Policy) {α β : Type}

/-- What a computation leaves that started on a machine. -/
structure Leaves (m : Machine) (x : EStateM.Result Abrupt Machine α) : Prop where
  good : P.Good (stateOf x)
  before : m.Before (stateOf x)
  stops : ∀ y m₁, x = .error y m₁ → P.Stops y

/-- A computation that keeps to a policy, if the scopes in which its statements run shield those that
are guarded. -/
def Kept (inner : Option ScopeChain) (c : Run α) : Prop :=
  ∀ m, P.Good m → (∀ scopes, inner = some scopes → m.Shields P.guarded scopes) → P.Leaves m (c m)

/-- All allowed code keeps to a policy. -/
structure Obeys (ev : Evaluator) : Prop where
  expression : ∀ {n : Node} {scopes : ScopeChain}, P.Fit n scopes →
    P.Kept none (ev.expression n scopes)
  statement : ∀ {n : Node} {scopes : ScopeChain}, P.Fit n scopes →
    P.Kept (some scopes) (ev.statement n scopes)
  call : ∀ {f this : Value}, P.CalledOn f this → ∀ args : List Value,
    P.Kept none (ev.call f this args)

variable {P} {inner : Option ScopeChain} {m m₁ : Machine}

theorem Leaves.ok (hm : P.Good m₁) (h : m.Before m₁) (a : α) : P.Leaves m (.ok a m₁) :=
  ⟨hm, h, fun _ _ heq => by cases heq⟩

theorem Leaves.error (hm : P.Good m₁) (h : m.Before m₁) {x : Abrupt} (hx : P.Stops x) :
    P.Leaves m (.error x m₁ : EStateM.Result Abrupt Machine α) :=
  ⟨hm, h, fun _ _ heq => by cases heq; exact hx⟩

theorem Leaves.from {x : EStateM.Result Abrupt Machine α} (hx : P.Leaves m₁ x)
    (h : m.Before m₁) : P.Leaves m x :=
  ⟨hx.good, h.trans hx.before, hx.stops⟩

/-- A computation that keeps to a policy leaves a machine on which code runs. -/
theorem Kept.after {c : Run α} (hc : P.Kept none c) (hm : P.Good m) : P.Good (m.after c) := by
  rw [Machine.after_eq_stateOf]
  exact (hc m hm fun _ h => by cases h).good

theorem Kept.stops {c : Run α} (hc : P.Kept none c) (hm : P.Good m) {x : Abrupt}
    (h : c m = .error x m₁) : P.Stops x :=
  (hc m hm fun _ h => by cases h).stops x m₁ h

/-- Expressions and calls do not depend on scopes. -/
theorem Kept.anywhere {c : Run α} (hc : P.Kept none c) : P.Kept inner c :=
  fun m hm _ => hc m hm fun _ h => by cases h

theorem Kept.look {k : Machine → Run α} (hk : ∀ m, P.Good m → P.Kept inner (k m)) :
    P.Kept inner (get >>= k) :=
  fun m hm hinner => hk m hm m hm hinner

theorem Kept.bind {c : Run α} {k : α → Run β} (hc : P.Kept inner c)
    (hk : ∀ a, P.Kept inner (k a)) : P.Kept inner (c >>= k) := by
  intro m hm hinner
  have hleaves := hc m hm hinner
  cases hrun : c m with
  | error x m₁ =>
    rw [hrun] at hleaves
    rw [bind_of_error hrun]
    exact .error hleaves.good hleaves.before (hleaves.stops x m₁ rfl)
  | ok a m₁ =>
    rw [hrun] at hleaves
    rw [bind_of_ok hrun]
    have hshields : ∀ scopes, inner = some scopes → m₁.Shields P.guarded scopes :=
      fun scopes h => (hinner scopes h).later hleaves.before
    exact (hk a m₁ hleaves.good hshields).from hleaves.before

theorem Kept.guarded {c : Run α} {handler : Abrupt → Run α} (hc : P.Kept inner c)
    (hhandler : ∀ x, P.Stops x → P.Kept inner (handler x)) :
    P.Kept inner (tryCatch c handler) := by
  intro m hm hinner
  have hleaves := hc m hm hinner
  cases hrun : c m with
  | ok a m₁ =>
    rw [hrun] at hleaves
    rw [tryCatch_of_ok hrun]
    exact hleaves
  | error x m₁ =>
    rw [hrun] at hleaves
    rw [tryCatch_of_error hrun]
    have hshields : ∀ scopes, inner = some scopes → m₁.Shields P.guarded scopes :=
      fun scopes h => (hinner scopes h).later hleaves.before
    exact (hhandler x (hleaves.stops x m₁ rfl) m₁ hleaves.good hshields).from hleaves.before

theorem Kept.thenAlways {c : Run α} {after : Run Unit} (hc : P.Kept inner c)
    (hafter : P.Kept inner after) : P.Kept inner (Run.thenAlways c after) := by
  intro m hm hinner
  have hleaves := hc m hm hinner
  have hshields : ∀ scopes, inner = some scopes → (stateOf (c m)).Shields P.guarded scopes :=
    fun scopes h => (hinner scopes h).later hleaves.before
  have hlast := (hafter _ hleaves.good hshields).from hleaves.before
  rw [thenAlways_eq]
  cases hrun : after (stateOf (c m)) with
  | error x m₁ =>
    rw [hrun] at hlast
    exact .error hlast.good hlast.before (hlast.stops x m₁ rfl)
  | ok u m₁ =>
    rw [hrun] at hlast
    cases hfirst : c m with
    | ok a m₂ => exact .ok hlast.good hlast.before a
    | error x m₂ => exact .error hlast.good hlast.before (hleaves.stops x m₂ hfirst)

theorem Kept.rounds {round : Run Bool} (hround : P.Kept inner round) (fuel : Nat) :
    P.Kept inner (Run.rounds round fuel) := by
  induction fuel with
  | zero => exact fun m hm _ => .ok hm (.refl m) ()
  | succ fuel ih =>
    refine hround.bind fun more => ?_
    split
    · exact ih
    · exact fun m hm _ => .ok hm (.refl m) ()

theorem Kept.entered {c : Run α} (hc : P.Kept inner c) : P.Kept inner (Run.entered c) := by
  intro m hm hinner
  have hrun : Run.entered c m = _ := entered_eq c m
  rw [hrun]
  split
  · exact .error hm (.refl m) (P.proper _ trivial)
  · exact hc m hm hinner

/-! ## Steps that a policy allows -/

section Steps

variable (hP : P.Lasting)

include hP

theorem Good.withMeter (hm : P.Good m) (t : Meter) : P.Good (m.withMeter t) :=
  ⟨hP.meter t hm.holds, hm.functions⟩

theorem kept_tick : P.Kept inner Run.tick := by
  intro m hm _
  have hgood : P.Good { m with steps := m.steps + 1 } :=
    hm.withMeter hP { m.meter with steps := m.steps + 1 }
  rw [tick_eq]
  split
  · exact .error hgood (.of_frames (m := m) rfl) (P.proper (.limit _) trivial)
  · exact .ok hgood (.of_frames (m := m) rfl) ()

theorem kept_allocate {c : Cell} (hc : ∀ r, P.Covers r c.body) : P.Kept inner (Run.allocate c) := by
  refine fun m hm _ => .ok ⟨hP.allocate c hm.holds, fun r => ?_⟩ (.of_frames (m := m) rfl) _
  rw [Pairing.cell_push]
  split
  · exact hc r
  · exact hm.functions r

theorem kept_setCell {r : Ref} {c : Cell} (hr : P.Open r) (hc : P.Covers r c.body) :
    P.Kept inner (Run.setCell r c) := by
  refine fun m hm _ => .ok ⟨hP.setCell c hm.holds hr, fun q => ?_⟩ (.of_frames (m := m) rfl) _
  rw [Pairing.cell_set]
  split
  · next h => exact h.1 ▸ hc
  · exact hm.functions q

theorem kept_declare {f : FrameId} {name : Text} (hf : P.Own f name) (v : Value) :
    P.Kept inner (Run.declare f name v) := fun m hm _ =>
  .ok ⟨hP.declare v hm.holds hf, hm.functions⟩ (m.before_declared f name v) ()

/-- A new scope is not guarded.  The scope of a function shields those that are, and a block does if the
scopes around it do. -/
theorem kept_scope {isFunction : Bool} {scopes : ScopeChain} {k : FrameId → Run α}
    (hinner : isFunction = true ∨ inner = some scopes)
    (hk : ∀ f, (∀ name, P.Own f name) → P.Kept (some (f :: scopes)) (k f)) :
    P.Kept inner (Run.newFrame isFunction false >>= k) := by
  intro m hm hshields
  have hne := hP.fresh hm.holds
  have hbefore := m.before_newFrame ⟨.empty, isFunction, false⟩
  have hchain : ({ m with frames := m.frames.push ⟨.empty, isFunction, false⟩ } : Machine).Shields
      P.guarded (m.frames.size :: scopes) := by
    refine ⟨hne, hinner.imp (fun h => ?_) fun h => (hshields scopes h).later hbefore⟩
    rw [Pairing.frame_push, if_pos rfl]
    exact h
  have hleaves := hk m.frames.size (hP.own hne) _
    ⟨hP.newFrame isFunction hm.holds, hm.functions⟩ fun c hc => by cases hc; exact hchain
  exact hleaves.from hbefore

/-- In scopes that shield those that are guarded, declarations belong to another one. -/
theorem kept_target {kind : VariableKind} {scopes : ScopeChain} {k : FrameId → Run α}
    (hk : ∀ f, (∀ name, P.Own f name) → P.Kept (some scopes) (k f)) :
    P.Kept (some scopes) (Run.declarationScope kind scopes >>= k) := by
  intro m hm hshields
  obtain ⟨f, hrun, hne⟩ := (hshields scopes rfl).declarationScope kind
  rw [bind_of_ok hrun]
  exact hk f (hP.own hne) m hm hshields

theorem kept_atDepth (f : Nat → Nat) :
    P.Kept inner (modify fun m : Machine => { m with depth := f m.depth }) := by
  intro m hm _
  have hgood : P.Good { m with depth := f m.depth } :=
    hm.withMeter hP { m.meter with depth := f m.depth }
  exact .ok hgood (.of_frames (m := m) rfl) PUnit.unit

theorem Kept.deeper {c : Run α} (hc : P.Kept inner c) : P.Kept inner (Run.deeper c) :=
  (kept_atDepth hP (· + 1)).bind fun _ => hc.thenAlways (kept_atDepth hP (· - 1))

/-! ## Runs -/

/-- Whatever is built from steps that a policy allows keeps to it. -/
theorem kept_of_built {e e' : Meaning} (he : P.Obeys e.toEvaluator)
    (hbody : ∀ n scopes, P.Fit n scopes → P.Kept (some scopes) (e.body n scopes)) {c c' : Run α}
    (h : Built P e e' inner c c') : P.Kept inner c := by
  induction h with
  | result a => exact fun m hm _ => .ok hm (.refl m) a
  | stop hx => exact fun m hm _ => .error hm (.refl m) hx
  | look _ _ ih => exact .look ih
  | allocate hc => exact kept_allocate hP hc
  | setCell hr hc => exact kept_setCell hP hr hc
  | declare hf v => exact kept_declare hP hf v
  | scope scopes hinner _ ih => exact kept_scope hP hinner ih
  | target kind _ ih => exact kept_target hP ih
  | tick => exact kept_tick hP
  | expression hn => exact (he.expression hn).anywhere
  | statement hn => exact he.statement hn
  | call hf args => exact (he.call hf args).anywhere
  | body _ hn => exact hbody _ _ hn
  | bind _ _ ihc ihk => exact ihc.bind ihk
  | guarded _ _ _ ihc ihhandler => exact ihc.guarded ihhandler
  | finalized _ hn hf ih => exact ih.thenAlways (he.statement (P.child? hn hf))
  | loop _ _ ih => exact fun m hm hinner => ih.rounds _ m hm hinner
  | entered _ ih => exact (ih hP.room).entered

/-- What is built without bodies of functions keeps to a policy. -/
theorem kept_of_bodiless {ev : Evaluator} (hev : P.Obeys ev) {c c' : Run α}
    (h : Built P ev.bodiless ev.bodiless inner c c') : P.Kept inner c :=
  kept_of_built hP hev (fun _ _ _ _ hm _ => .error hm (.refl _) (P.proper (.limit .nesting) trivial)) h

theorem kept_callFunction {ev : Evaluator} (hev : P.Obeys ev) {f this : Value} (hf : P.CalledOn f this)
    (args : List Value) : P.Kept none (Run.callFunction ev f this args) := by
  have h : Built P ev.meaning ev.meaning none _ _ := .callAs f this hf args
  rw [callFunction_eq]
  refine kept_of_built hP hev (fun n scopes hn => ?_) h
  have hbody : Built P ev.bodiless ev.bodiless (some scopes) _ _ := .runBody hn
  exact (kept_of_bodiless hP hev hbody).deeper hP

/-- All code keeps to a policy, however deep it is nested. -/
theorem obeys_evaluator (depth : Nat) : P.Obeys (evaluator depth) := by
  induction depth with
  | zero =>
    have hlimit : ∀ {α : Type} {inner : Option ScopeChain},
        P.Kept inner (throw (.limit .nesting) : Run α) :=
      fun m hm _ => .error hm (.refl m) (P.proper _ trivial)
    exact ⟨fun _ => hlimit, fun _ => hlimit, fun _ _ => hlimit⟩
  | succ depth ih =>
    refine ⟨fun hn => ?_, fun hn => ?_, fun hf args => kept_callFunction hP ih hf args⟩
    · exact kept_of_bodiless hP ih (.evaluateExpression hn)
    · exact kept_of_bodiless hP ih (.executeStatement (evaluator_advances depth) hn)

/-- What is built from code that is nested to a depth keeps to a policy. -/
theorem kept_of_depth (depth : Nat) {c c' : Run α}
    (h : Built P (evaluator depth).bodiless (evaluator depth).bodiless inner c c') :
    P.Kept inner c :=
  kept_of_bodiless hP (obeys_evaluator hP depth) h

theorem Kept.fresh {c : Run α} (hc : P.Kept inner c) : P.Kept inner (Run.fresh c) := by
  have hstop : ∀ x, P.Stops x → P.Kept inner (throw x : Run α) :=
    fun x hx m hm _ => .error hm (.refl m) hx
  intro m hm hinner
  have hgood : P.Good { m with steps := 0, depth := 0 } :=
    hm.withMeter hP { m.meter with steps := 0, depth := 0 }
  have hbefore : m.Before { m with steps := 0, depth := 0 } := .of_frames rfl
  refine Leaves.from (hc.guarded (fun x hx => ?_) _ hgood fun s hs => (hinner s hs).later hbefore)
    hbefore
  split
  all_goals first
    | exact hstop _ hx
    | exact hstop _ (P.proper _ trivial)

/-- Expressions keep to a policy. -/
theorem kept_evaluate {n : Node} {scopes : ScopeChain} (hn : P.Fit n scopes) :
    P.Kept none (Run.evaluate n scopes) :=
  ((obeys_evaluator hP nestingLimit).expression hn).fresh hP

/-- Statements, and declarations of single variables, keep to a policy in scopes that shield those
that are guarded. -/
theorem kept_execute {n : Node} {scopes : ScopeChain} (hn : P.Fit n scopes) :
    P.Kept (some scopes) (Run.execute n scopes) := by
  unfold Run.execute
  split
  · next hform =>
    refine (kept_of_depth hP nestingLimit (.varScope fun f hf => .declareVariable
      (fun _ hinit => P.child? hn hinit) ?_ fun name _ => hf name)).fresh hP
    exact fun hlack => P.lacking hn (Node.hasParts_of_lack hform rfl hlack)
  · exact ((obeys_evaluator hP nestingLimit).statement hn).fresh hP

end Steps

end Policy

end Untangle.Sandbox
