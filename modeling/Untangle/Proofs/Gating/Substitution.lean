import Untangle.Proofs.Gating.Handover
import Untangle.Proofs.Tree.Code

set_option autoImplicit false

/-!
# Values that the gate lets through

A call is replaced by its value only if its text has no marker.  The functions that the sandbox has by
then were handed to it with their texts, which had no marker either, except those that inlining moved
there: it hands over the functions of the program's variables without a text.

The main theorem, `evaluated_call_admitted`, holds for every choice of rules and markers and at every act
of a run.  It is about texts: what the gate lets through may still have effects.
-/

namespace Untangle

open Sandbox (Registry)

variable {t t' t'' : Tour RuleState} {i : SiteId} {id : NodeId}

/-- A handler of a visitor acts at a site. -/
def Acts (v : Visitor RuleError RuleState) (i : SiteId) (t t' : Tour RuleState) : Prop :=
  ∃ h ∈ v.handlers, h.act i t = .ok () t'

/-- Between two tours a declaration was taken up by an action: one that handed it over with the text
that it had then, which passes the gate, or one that moved it. -/
def Taken (v : Visitor RuleError RuleState) (g : Sandbox.Gate) (t t' : Tour RuleState)
    (id : NodeId) : Prop :=
  ∃ t₁ t₂ i, TourM.Passes v t t₁ ∧ Acts v i t₁ t₂ ∧ TourM.Passes v t₂ t' ∧
    ¬ t₁.Registers id ∧ t₂.Registers id ∧ (t₁.Presents g id ∨ t₁.Moves i id)

theorem Taken.trans {v : Visitor RuleError RuleState} {g : Sandbox.Gate} (h : Taken v g t t' id)
    (hpass : TourM.Passes v t' t'') : Taken v g t t'' id := by
  obtain ⟨t₁, t₂, i, hfirst, hact, hlast, hwhen⟩ := h
  exact ⟨t₁, t₂, i, hfirst, hact, hlast.trans hpass, hwhen⟩

/-- The tour with which the rules start. -/
def Settings.start (settings : Settings) (a : Analysis) (store : Sandbox.Machine) : Tour RuleState :=
  .start a ⟨.onStore settings.gate store settings.maxEvalSteps settings.maxCallDepth, .empty⟩

section Runs

variable {settings : Settings} {rules : List RuleName} {a : Analysis} {store : Sandbox.Machine}

/-- A run of the rules passes the tour that it ends with, but for the number of visits, which it notes
at the end. -/
theorem passes_of_applyRules (h : applyRules settings rules a store = .ok t) :
    ∃ t', TourM.Passes (RuleName.visitor settings rules) (settings.start a store) t' ∧
      t = { t' with state := { t'.state with
        stats := t'.state.stats.add .nodesVisited t'.visited } } := by
  rw [applyRules_eq] at h
  obtain ⟨t', hrun, hend⟩ := except_bind_eq_ok.mp h
  cases hend
  exact ⟨t', TourM.passes_of_run hrun, rfl⟩

/-- A run keeps its gate, and takes up what it has. -/
theorem gate_and_taken
    (h : TourM.Passes (RuleName.visitor settings rules) (settings.start a store) t) :
    t.state.sandbox.gate = settings.gate ∧ ∀ id, t.Registers id →
      Taken (RuleName.visitor settings rules) settings.gate (settings.start a store) t id := by
  induction h with
  | here => exact ⟨rfl, fun id hid => by cases hid⟩
  | counted _ ih => exact ⟨ih.1, fun id hid => (ih.2 id hid).trans (.counted .here)⟩
  | sited i child listed scope _ ih =>
    exact ⟨ih.1, fun id hid => (ih.2 id hid).trans (.sited i child listed scope .here)⟩
  | @acted t t' h i hpass hmem hact ih =>
    have hgated := gated_of_handler hmem hact
    refine ⟨hgated.gate.trans ih.1, fun id hid => ?_⟩
    by_cases hold : t.Registers id
    · exact (ih.2 id hold).trans (.acted .here hmem hact)
    · have hnew := (hgated.registered id hid).resolve_left hold
      rw [ih.1] at hnew
      exact ⟨t, t', i, hpass, ⟨h, hmem, hact⟩, .here, hold, hid, hnew⟩

/-- **Values pass the gate.**  Whenever a run replaces a call by its value, no marker stands in the text
of the call; and every declaration that the sandbox has then was taken up by an action of the run at
which no marker stood in its text, unless inlining moved the function of a variable of the program. -/
theorem evaluated_call_admitted {t' : Tour RuleState}
    (hpass : TourM.Passes (RuleName.visitor settings rules) (settings.start a store) t)
    (hact : Acts (RuleName.visitor settings rules) i t t') (hvalue : t'.evaluated ≠ t.evaluated) :
    settings.gate.Admits (t.analysis.nodeAt i) ∧ ∀ id, t'.Registers id →
      Taken (RuleName.visitor settings rules) settings.gate (settings.start a store) t' id := by
  obtain ⟨h, hmem, hrun⟩ := hact
  refine ⟨?_, (gate_and_taken (.acted hpass hmem hrun)).2⟩
  rw [← (gate_and_taken hpass).1]
  exact (gated_of_handler hmem hrun).evaluated.resolve_left hvalue

end Runs

/-! ## A call that is replaced -/

theorem valueTree?_string (h : Sandbox.Heap) (text : Text) :
    Rule.Evaluation.valueTree? h (some (.string text)) =
      .ok (some (Sandbox.primitiveNode (.string text))) := by
  unfold Rule.Evaluation.valueTree? Sandbox.valueNode Sandbox.nestingBound
  simp [Sandbox.valueNodeGo, Sandbox.Heap.isCallable]

/-- A call that reads nothing unknown, has a text, and comes to a value that has a tree is replaced. -/
theorem evaluate_replaces {call n : Node} {source : Text} {v : Sandbox.Value} {s : Registry}
    {a : Analysis} (hknown : Rule.Evaluation.readsUnknown t.analysis t.state.sandbox call = false)
    (hcode : call.code = .ok source)
    (hvalue : t.provided.evaluate call source = (.ok (some v), s))
    (htree : Rule.Evaluation.valueTree? s.machine.heap (some v) = .ok (some n))
    (hreplace : t.analysis.replace i n = .ok a) :
    ∃ t', Rule.Evaluation.evaluate i call t = .ok () t' ∧ t'.evaluated = t.evaluated + 1 ∧
      t'.state.sandbox = s ∧ t'.analysis = a := by
  have hprint : RuleM.code call t = .ok source t := by
    unfold RuleM.code
    rw [hcode]
    rfl
  have hsandbox : RuleM.withSandbox (fun s => s.evaluate call source) t =
      .ok (.ok (some v)) (t.withSandbox s) := by
    rw [withSandbox_eq, hvalue]
  have hedit : RuleM.edit (fun a => a.replace i n) (t.withSandbox s) =
      .ok () { t.withSandbox s with analysis := a } := by
    unfold RuleM.edit
    rw [bind_of_ok (show (get : RuleM _) (t.withSandbox s) = .ok _ _ from rfl)]
    dsimp only
    rw [show (t.withSandbox s).analysis.replace i n = .ok a from hreplace]
    rfl
  refine ⟨{ t with analysis := a, state := ⟨s, t.state.stats.add .callsEvaluated 1⟩ }, ?_, ?_, rfl, rfl⟩
  · unfold Rule.Evaluation.evaluate
    rw [bind_of_ok (show (get : RuleM _) t = .ok t t from rfl), if_neg (by simp [hknown]),
      bind_of_ok hprint, bind_of_ok hsandbox,
      bind_of_ok (show RuleM.contained (.ok (some v)) _ = .ok (some (some v)) _ from rfl),
      bind_of_ok (show (get : RuleM _) _ = .ok _ _ from rfl)]
    have hsettle : RuleM.settle (Rule.Evaluation.valueTree? s.machine.heap (some v)) (t.withSandbox s) =
        .ok (some n) (t.withSandbox s) := by
      rw [htree]
      rfl
    rw [bind_of_ok (show RuleM.settle (Rule.Evaluation.valueTree?
      (t.withSandbox s).state.sandbox.machine.heap ((some (some v)).getD none)) (t.withSandbox s) = _ from
        hsettle)]
    dsimp only
    rw [bind_of_ok hedit]
    rfl
  · simp [Tour.evaluated, Stats.add]

/-- Whether an action succeeds. -/
def hasSucceeded (r : EStateM.Result RuleError (Tour RuleState) Unit) : Bool :=
  match r with
  | .ok _ _ => true
  | .error _ _ => false

/-- The tour that an action leaves. -/
def Tour.afterwards (r : EStateM.Result RuleError (Tour RuleState) Unit) : Tour RuleState :=
  match r with
  | .ok _ t => t
  | .error _ t => t

/-- An action that succeeds leaves its tour. -/
theorem eq_ok_afterwards {r : EStateM.Result RuleError (Tour RuleState) Unit}
    (h : hasSucceeded r = true) : r = .ok () (Tour.afterwards r) := by
  cases r with
  | ok _ t => rfl
  | error e t => cases h

theorem exists_of_isOk {ε α : Type} {r : Except ε α} (h : r.isOk = true) : ∃ x, r = .ok x := by
  cases r with
  | ok x => exact ⟨x, rfl⟩
  | error e => cases h

/-- Whether a tree has a text. -/
def hasText (n : Node) (text : Text) : Bool :=
  match n.code with
  | .ok t => t == text
  | .error _ => false

theorem code_of_hasText {n : Node} {text : Text} (h : hasText n text = true) : n.code = .ok text := by
  unfold hasText at h
  split at h
  · next heq => rw [heq, eq_of_beq h]
  · cases h

/-- A call of a name that only the sandbox knows is replaced by its value. -/
theorem call_replaces (name : Text) {source : Text} {n : Node} {v : Sandbox.Value} {s : Registry} {a : Analysis}
    (hname : ((t.analysis.nodeAt i).child? .callee).bind Node.name? = some name)
    (hfree : t.analysis.lookup name (t.analysis.site i).scope = none)
    (hbuiltin : t.state.sandbox.isBuiltin name = true)
    (hknown : Rule.Evaluation.readsUnknown t.analysis t.state.sandbox (t.analysis.nodeAt i) = false)
    (htext : hasText (t.analysis.nodeAt i) source = true)
    (hvalue : t.provided.evaluate (t.analysis.nodeAt i) source = (.ok (some v), s))
    (htree : Rule.Evaluation.valueTree? s.machine.heap (some v) = .ok (some n))
    (hreplace : t.analysis.replace i n = .ok a) :
    ∃ t', Rule.Evaluation.act i t = .ok () t' ∧ t'.evaluated = t.evaluated + 1 ∧
      t'.state.sandbox = s ∧ t'.analysis = a := by
  obtain ⟨callee, hcallee, hname⟩ := Option.bind_eq_some_iff.mp hname
  obtain ⟨t', hrun, hrest⟩ := evaluate_replaces hknown (code_of_hasText htext) hvalue htree hreplace
  refine ⟨t', ?_, hrest⟩
  unfold Rule.Evaluation.act RuleM.nodeAt
  rw [TourM.ask_bind, hcallee]
  simp only [form_of_name? hname]
  unfold Rule.Evaluation.callOfName
  rw [bind_of_ok (show (get : RuleM _) _ = .ok _ _ from rfl), hfree]
  simp only
  rw [if_pos hbuiltin]
  exact hrun

/-- `function () { return 'Date'; }` set to `f` -/
def dateDeclarator : Node :=
  .mk 3 .declarations .variableDeclarator
    [.mk 4 .id (.identifier (Text.of "f")) [],
     .mk 5 .init (.functionExpression ⟨false, false, false⟩)
      [.mk 6 .body .blockStatement
        [.mk 7 .body .returnStatement [.mk 8 .argument (.literal (.string (Text.of "Date"))) []]]]]

/-- `var f = function () { return 'Date'; };` -/
def dateDeclaration : Node := .mk 2 .body (.variableDeclaration .var) [dateDeclarator]

/-- `f()` -/
def dateCall : Node := .mk 10 .expression .call [.mk 11 .callee (.identifier (Text.of "f")) []]

/-- `f();` -/
def dateStatement : Node := .mk 9 .body (.expressionStatement none) [dateCall]

/-- `var f = function () { return 'Date'; }; f();` -/
def dateScript : Node := .mk 1 .top .program [dateDeclaration, dateStatement]

/-- The tour with a site for a statement of the program and one for a child of it. -/
def Tour.descended (t : Tour RuleState) (root : SiteId) (n c : Node) (listed : Bool) :
    Tour RuleState :=
  let i := t.analysis.sites.size
  { t with analysis := ((t.analysis.addSiteBelow root n true 0).2.addSiteBelow i c listed 0).2 }

theorem passes_descended {v : Visitor RuleError RuleState} {root : SiteId} {n c : Node}
    {listed : Bool} (h : TourM.Passes v t t') :
    TourM.Passes v t (t'.descended root n c listed) :=
  .sited _ c listed 0 (.sited root n true 0 h)

/-- The site of the program in a run on the script. -/
def dateRoot : SiteId := (Analysis.ofProgram dateScript).sites.size

/-- A run of all rules comes to the declarator. -/
def dateTour : Tour RuleState :=
  ((default : Settings).start (.ofProgram dateScript) .bare).descended dateRoot dateDeclaration
    dateDeclarator true

/-- It moves the function, and comes to the call. -/
def movedTour : Tour RuleState :=
  (Tour.afterwards (Rule.Inlining.act (dateRoot + 2) dateTour)).descended dateRoot dateStatement
    dateCall false

/-- Whether an evaluation comes to a string. -/
def comesTo (r : Except Sandbox.Abrupt (Option Sandbox.Value)) (text : Text) : Bool :=
  match r with
  | .ok (some (.string t)) => t == text
  | _ => false

theorem dateTour_moves :
    Rule.Inlining.act (dateRoot + 2) dateTour =
      .ok () (Tour.afterwards (Rule.Inlining.act (dateRoot + 2) dateTour)) :=
  eq_ok_afterwards (by decide +kernel)

theorem movedTour_evaluates :
    ∃ t', Rule.Evaluation.act (dateRoot + 4) movedTour = .ok () t' ∧
      t'.evaluated = movedTour.evaluated + 1 ∧ t'.Registers 3 := by
  have hvalue : (movedTour.provided.evaluate (movedTour.analysis.nodeAt (dateRoot + 4))
      (Text.of "f()")).1 = .ok (some (.string (Text.of "Date"))) := by
    have hcomes : comesTo (movedTour.provided.evaluate (movedTour.analysis.nodeAt (dateRoot + 4))
      (Text.of "f()")).1 (Text.of "Date") = true := by decide +kernel
    unfold comesTo at hcomes
    split at hcomes
    · next heq => rw [heq, eq_of_beq hcomes]
    · cases hcomes
  obtain ⟨a, hreplace⟩ : ∃ a, movedTour.analysis.replace (dateRoot + 4)
      (Sandbox.primitiveNode (.string (Text.of "Date"))) = .ok a :=
    exists_of_isOk (by decide +kernel)
  obtain ⟨t', hrun, hcount, hsandbox, -⟩ := call_replaces (i := dateRoot + 4) (Text.of "f")
    (by decide +kernel) (by decide +kernel) (by decide +kernel) (by decide +kernel) (by decide +kernel)
    (Prod.ext hvalue rfl) (valueTree?_string _ _) hreplace
  refine ⟨t', hrun, hcount, ?_⟩
  rw [Tour.Registers, hsandbox]
  decide +kernel

/-- The call of a function that was moved is replaced by its value: the call itself has no marker, the
function was never asked for one. -/
theorem dateCall_admitted : ∃ t',
    TourM.Passes (RuleName.visitor default RuleName.all)
      ((default : Settings).start (.ofProgram dateScript) .bare) movedTour ∧
    Acts (RuleName.visitor default RuleName.all) (dateRoot + 4) movedTour t' ∧
    t'.evaluated ≠ movedTour.evaluated ∧ t'.Registers 3 ∧
    (default : Settings).gate.Admits (movedTour.analysis.nodeAt (dateRoot + 4)) ∧
    ∀ id, t'.Registers id → Taken (RuleName.visitor default RuleName.all) (default : Settings).gate
      ((default : Settings).start (.ofProgram dateScript) .bare) t' id := by
  obtain ⟨t', hrun, hcount, hregisters⟩ := movedTour_evaluates
  have hpass : TourM.Passes (RuleName.visitor default RuleName.all)
      ((default : Settings).start (.ofProgram dateScript) .bare) movedTour :=
    passes_descended (.acted (passes_descended .here) (List.mem_append_left _ List.mem_cons_self)
      dateTour_moves)
  have hact : Acts (RuleName.visitor default RuleName.all) (dateRoot + 4) movedTour t' :=
    ⟨Rule.Evaluation.handler, List.mem_append_right _
      (List.mem_flatMap.mpr ⟨.calls, by decide, List.mem_singleton.mpr rfl⟩), hrun⟩
  have hvalue : t'.evaluated ≠ movedTour.evaluated := by
    rw [hcount]
    exact Nat.succ_ne_self _
  exact ⟨t', hpass, hact, hvalue, hregisters, evaluated_call_admitted hpass hact hvalue⟩

end Untangle
