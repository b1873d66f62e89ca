import Untangle.Proofs.Dispatch.Simulation

set_option autoImplicit false

/-!
# The beginning of a dispatch loop

A trial runs the initializer of a loop in its scopes directly, while a `for` statement has a scope of its
own, to which block variables go.  Variables of `var` end up in the same scope both ways.  Block variables
are kept in two scopes, which makes a difference only for a variable without a value that an initializer
before it has set already.
-/

namespace Untangle.Dispatch

open Sandbox Pairing

/-- Block variables without a value have none yet when they are declared, as in a scope of their own. -/
def StartsUnset (loop : Loop) (s : Registry) : Prop :=
  ∀ kind before d after name, loop.init.form = .variableDeclaration kind → kind ≠ .var →
    loop.init.childrenAt .declarations = before ++ d :: after → declaredName? d = some name →
    d.child? .init = none → name ∉ declaredNames before →
    ∀ maxSteps maxDepth depth, s.machine.maxSteps ≤ maxSteps → s.machine.maxDepth ≤ maxDepth →
      nestingLimit ≤ depth →
      ((withLimits (trialStart s).machine.renewed maxSteps maxDepth).after do
        Run.tick
        Run.declareAll (evaluator depth) (trialScopes s) s.machine.frames.size before).variable
          s.machine.frames.size name = .undefined

/-- An initializer that declares variables runs as a statement. -/
theorem initCode_declaration {loop : Loop} {kind : VariableKind}
    (hform : loop.init.form = .variableDeclaration kind) (scopes : ScopeChain) (depth : Nat) :
    Stage.init.code loop scopes depth =
      (do (evaluator depth).statement loop.init scopes; return .undefined) := by
  unfold Stage.code
  rw [hform]

/-- Any other initializer runs as an expression. -/
theorem initCode_expression {loop : Loop}
    (hform : ∀ kind, loop.init.form ≠ .variableDeclaration kind) (scopes : ScopeChain) (depth : Nat) :
    Stage.init.code loop scopes depth = (evaluator depth).expression loop.init scopes := by
  simp only [Stage.code]

/-- The initializer of a trial ends. -/
theorem runInit_eq_ok {loop : Loop} {scopes : ScopeChain} {s s' : Registry}
    (h : runInit loop.init scopes s = .ok () s') :
    ∃ v, Stage.init.code loop scopes nestingLimit s.machine.renewed = .ok v s'.machine := by
  by_cases hdecl : ∃ kind, loop.init.form = .variableDeclaration kind
  · obtain ⟨kind, hform⟩ := hdecl
    unfold runInit Run.execute at h
    rw [hform] at h
    rw [initCode_declaration hform]
    have hrun := Machine.fresh_eq_ok.mp (probe_eq_ok h).1
    exact ⟨.undefined, bind_eq_ok.mpr ⟨(), s'.machine, hrun, rfl⟩⟩
  · have hform : ∀ kind, loop.init.form ≠ .variableDeclaration kind := fun k hk => hdecl ⟨k, hk⟩
    have hinit : runInit loop.init scopes =
        (do let _ ← probe (Run.evaluate loop.init scopes)) := by
      unfold runInit
      split
      · next kind hkind => exact absurd hkind (hform kind)
      · rfl
    rw [hinit] at h
    obtain ⟨v, s₁, hv, h⟩ := bind_eq_ok.mp h
    cases h
    rw [initCode_expression hform]
    exact ⟨v, (evaluate_eq_ok hv).1⟩

/-! ## The machines at the beginning -/

/-- The scopes of the rounds of a loop. -/
def loopScopes (m : Machine) : ScopeChain :=
  (m.frames.size + 2) :: (m.frames.size + 1) :: m.globalChain

/-- The machine on which the initializer of a loop runs. -/
def loopStart (m : Machine) (w : Frame) (limits : Limits) : Machine :=
  { withWorld m w limits with
    frames := ((m.frames.push w).push ⟨.empty, true, true⟩).push blankFrame, steps := 1 }

/-- The machine of the trial and that of the run at the beginning are paired in a way that lets code of
the trial see what code of the run sees. -/
structure Begins (s : Registry) (w : Frame) (limits : Limits) (σ : Pairing) (ls : Links) : Prop where
  related : Related σ ls (paced (trialStart s).machine limits 1) (loopStart s.machine w limits)
  chains : Chains σ ls (trialScopes s) (loopScopes s.machine)
  world : s.machine.frames.size ∉ σ.blanks
  kept : (s.machine.frames.size, w) ∈ σ.kept
  shift : σ.shift = 1

section

variable {s : Registry} {w : Frame} {limits : Limits}

/-- The machines before there are scopes for the loop. -/
theorem related_withWorld (hs : s.machine.WellScoped) (w : Frame) (limits : Limits) :
    ∃ σ ls, Related σ ls (paced s.machine limits 0) (withWorld s.machine w limits) ∧
      Chains σ ls s.machine.globalChain s.machine.globalChain ∧ σ.split = none ∧ σ.bound = [] ∧
      σ.blanks = [] ∧ (s.machine.frames.size, w) ∈ σ.kept := by
  have hpaced : (paced s.machine limits 0).WellScoped := ⟨hs.global, hs.closures⟩
  refine ⟨_, _, (related_self hpaced).keep w, ?_, rfl, rfl, rfl, List.mem_cons_self⟩
  have hglobal : ∀ f ∈ s.machine.globalChain, f < (paced s.machine limits 0).frames.size := by
    intro f hf
    cases List.mem_singleton.mp hf
    exact hs.global
  exact (chains_self hglobal).adapt rfl fun _ hg => hg

/-- The scope of the loop stays empty. -/
theorem begins_blank (hs : s.machine.WellScoped) (w : Frame) (limits : Limits)
    (hsteps : 1 ≤ limits.steps) : ∃ σ ls, Begins s w limits σ ls ∧ σ.split = none := by
  obtain ⟨σ, ls, hrel, hchains, hsplit, -, hblanks, hkept⟩ := related_withWorld hs w limits
  have hnot : ∀ f, ¬ σ.Splits f := by
    rintro f ⟨h, heq⟩
    rw [hsplit] at heq
    cases heq
  have hcount : ls.length = s.machine.frames.size := hrel.count
  have hsize : (withWorld s.machine w limits).frames.size = s.machine.frames.size + 1 := by
    simp [withWorld]
  have hnew := (hrel.newFrame ⟨.empty, true, true⟩).blank
  have hstart := hnew.retime 1 (limits.steps - 1) (Nat.sub_add_cancel hsteps).symm
  refine ⟨_, _, ⟨hstart, ?_, ?_, ?_, rfl⟩, hsplit⟩
  · have hlink : (ls ++ [(⟨(withWorld s.machine w limits).frames.size, true⟩ : Link)])[
        s.machine.frames.size]? = some ⟨s.machine.frames.size + 1, true⟩ := by
      rw [← hcount, List.getElem?_concat_length, hsize, hcount]
    have hhead : s.machine.frames.size + 2 =
        ((withWorld s.machine w limits).frames.push ⟨.empty, true, true⟩).size := by
      rw [Array.size_push, hsize]
    refine .blank ?_ (.whole hlink ?_ ?_)
    · rw [hhead]
      exact List.mem_cons_self
    · exact hnot _
    · exact (hchains.mono (List.prefix_append ls _)).adapt rfl fun _ hg =>
        List.mem_cons_of_mem _ hg
  · intro hmem
    obtain heq | hmem := List.mem_cons.mp hmem
    · rw [Array.size_push, hsize] at heq
      exact absurd heq (Nat.ne_of_lt (Nat.lt_succ_of_lt (Nat.lt_succ_self _)))
    · rw [hblanks] at hmem
      cases hmem
  · exact List.mem_cons_of_mem _ hkept

/-- The scope of the loop holds variables of the scope of the trial. -/
theorem begins_split (hs : s.machine.WellScoped) (w : Frame) (limits : Limits)
    (hsteps : 1 ≤ limits.steps) :
    ∃ (σ : Pairing) (ls : Links), Begins s w limits (σ.binding []) ls ∧
      σ.split = some (s.machine.frames.size, s.machine.frames.size + 2) ∧
      ls[s.machine.frames.size]? = some ⟨s.machine.frames.size + 1, true⟩ := by
  obtain ⟨σ, ls, hrel, hchains, hsplit, hbound, hblanks, hkept⟩ := related_withWorld hs w limits
  have hcount : ls.length = s.machine.frames.size := hrel.count
  have hsize : (withWorld s.machine w limits).frames.size = s.machine.frames.size + 1 := by
    simp [withWorld]
  have hnew := hrel.openSplit hsplit hbound ⟨.empty, true, true⟩ rfl
  have hstart := hnew.retime 1 (limits.steps - 1) (Nat.sub_add_cancel hsteps).symm
  simp only [hcount, hsize] at hstart
  have hlink : (ls ++ [(⟨s.machine.frames.size + 1, true⟩ : Link)])[s.machine.frames.size]? =
      some ⟨s.machine.frames.size + 1, true⟩ := by
    rw [← hcount, List.getElem?_concat_length]
  let τ := (σ.splitting s.machine.frames.size (s.machine.frames.size + 1 + 1)).rebased 1
    (limits.steps - 1)
  have hbinding : Related (τ.binding τ.bound) _ _ _ := hstart
  refine ⟨τ, _, ⟨hbinding.forget, ?_, ?_, hkept, rfl⟩, rfl, hlink⟩
  · have hglobal := hchains.splitting (l := ⟨s.machine.frames.size + 1, true⟩)
      (h := s.machine.frames.size + 1 + 1) hsplit
    rw [hcount] at hglobal
    exact .split rfl hlink (hglobal.adapt rfl fun _ hg => hg)
  · show s.machine.frames.size ∉ σ.blanks
    rw [hblanks]
    exact List.not_mem_nil

/-- What runs on both machines at the beginning leaves them in step. -/
theorem Begins.inStep {σ : Pairing} {ls ls' : Links} {m m' : Machine} (h : Begins s w limits σ ls)
    (hext : ls <+: ls') (hrel : Related σ ls' (withLimits m (limits.steps - 1) limits.depth) m')
    (hroom : 1 + m.steps ≤ limits.steps) :
    InStep limits s.machine.frames.size (trialScopes s) [loopScopes s.machine] m m' ∧
      m'.steps = 1 + m.steps ∧ m'.frame s.machine.frames.size = w := by
  have hworld : m'.frame s.machine.frames.size = w := (hrel.kept h.kept).2
  have hchains : ∀ c ∈ [loopScopes s.machine], Chains σ ls' (trialScopes s) c := by
    intro c hc
    cases List.mem_singleton.mp hc
    exact h.chains.mono hext
  obtain ⟨hused, hstep⟩ := InStep.of_related hrel h.shift h.related.depth.symm hroom hchains h.world
    (by rw [hworld]; exact h.kept)
  exact ⟨hstep, hused, hworld⟩

end

/-! ## Declarations -/

theorem declareAll_congr {ev ev' : Evaluator} (h : ev.expression = ev'.expression) (c : ScopeChain)
    (f : FrameId) (ds : List Node) : Run.declareAll ev c f ds = Run.declareAll ev' c f ds := by
  induction ds with
  | nil => rfl
  | cons d ds ih =>
    unfold Run.declareAll Run.declareVariable
    rw [h, ih]

/-- Variables of `var` go to the scope of the function. -/
theorem executeStatement_var (ev : Evaluator) {n : Node} (hform : n.form = .variableDeclaration .var)
    (c : ScopeChain) :
    Run.executeStatement ev n c = (do
      Run.tick
      Run.declareAll ev c (← Run.varScope c) (n.childrenAt .declarations)) := by
  unfold Run.executeStatement
  rw [hform]
  rfl

/-- Block variables go to the first scope. -/
theorem executeStatement_block (ev : Evaluator) {n : Node} {kind : VariableKind}
    (hform : n.form = .variableDeclaration kind) (hkind : kind ≠ .var) (f : FrameId)
    (c : ScopeChain) :
    Run.executeStatement ev n (f :: c) = (do
      Run.tick
      Run.declareAll ev (f :: c) f (n.childrenAt .declarations)) := by
  unfold Run.executeStatement
  rw [hform]
  cases kind with
  | var => exact absurd rfl hkind
  | lexical => rfl
  | constant => rfl

/-- An initializer that declares variables is a statement, whatever the meaning of cases is. -/
theorem runInit_declaration {n : Node} {kind : VariableKind}
    (hform : n.form = .variableDeclaration kind) (names : List Text) (world : FrameId)
    (effect : Effect) (depth : Nat) (f : FrameId) (c : ScopeChain) :
    Run.runInit (loopEvaluator names world effect (depth + 2)) (some n) (f :: c) =
      Run.executeStatement (evaluator (depth + 1)) n (f :: c) := by
  have hexpression := loopEvaluator_expression names world effect (depth + 1)
  have hstatement : Run.runInit (loopEvaluator names world effect (depth + 2)) (some n) (f :: c) =
      Run.executeStatement (loopEvaluator names world effect (depth + 1)) n (f :: c) := by
    unfold Run.runInit
    simp only [hform]
    exact loopEvaluator_statement (by simp [hform]) world effect (depth + 1) (f :: c)
  rw [hstatement]
  by_cases hkind : kind = .var
  · subst hkind
    rw [executeStatement_var _ hform, executeStatement_var _ hform]
    simp only [declareAll_congr hexpression]
  · rw [executeStatement_block _ hform hkind, executeStatement_block _ hform hkind,
      declareAll_congr hexpression]

theorem runInit_expression {n : Node} (hform : ∀ kind, n.form ≠ .variableDeclaration kind)
    (names : List Text) (world : FrameId) (effect : Effect) (depth : Nat) (c : ScopeChain) :
    Run.runInit (loopEvaluator names world effect depth) (some n) c =
      (do let _ ← (evaluator depth).expression n c) := by
  unfold Run.runInit
  simp only [loopEvaluator_expression]

/-! ## The initializer -/

/-- The initializer of the run ends in step with that of a trial, which leaves the given machine. -/
def Initializes (loop : Loop) (s : Registry) (m₁ : Machine) (limits : Limits) (depth : Nat) : Prop :=
  ∀ (names : List Text) (effect : Effect) (w : Frame),
    ∃ m₁', Run.runInit (loopEvaluator names s.machine.frames.size effect (depth + 2))
        (some loop.init) (loopScopes s.machine) (loopStart s.machine w limits) = .ok () m₁' ∧
      InStep limits s.machine.frames.size (trialScopes s) [loopScopes s.machine] m₁ m₁' ∧
      m₁'.steps = 1 + m₁.steps ∧ m₁'.frame s.machine.frames.size = w

section

variable {loop : Loop} {s : Registry} {v : Value} {m₁ : Machine} {limits : Limits} {depth : Nat}

theorem initializes_expression (hs : s.machine.WellScoped)
    (hform : ∀ kind, loop.init.form ≠ .variableDeclaration kind)
    (hcode : Stage.init.code loop (trialScopes s) (depth + 2) (paced (trialStart s).machine limits 1) =
      .ok v (withLimits m₁ (limits.steps - 1) limits.depth))
    (hsteps : 1 + m₁.steps ≤ limits.steps) : Initializes loop s m₁ limits depth := by
  intro names effect w
  obtain ⟨σ, ls, hbegins, -⟩ := begins_blank hs w limits (by omega)
  simp only [initCode_expression hform] at hcode
  obtain ⟨v', m₁', ls', hrun', hext, hrel, -⟩ :=
    ((evaluator_faithful (depth + 2)).expression σ ls loop.init _ _ hbegins.chains).of_ok
      hbegins.related hcode
  refine ⟨m₁', ?_, hbegins.inStep hext hrel hsteps⟩
  rw [runInit_expression hform, bind_of_ok hrun']
  rfl

theorem initializes_var (hs : s.machine.WellScoped)
    (hform : loop.init.form = .variableDeclaration .var)
    (hcode : Run.executeStatement (evaluator (depth + 1)) loop.init (trialScopes s)
      (paced (trialStart s).machine limits 1) =
        .ok () (withLimits m₁ (limits.steps - 1) limits.depth))
    (hsteps : 1 + m₁.steps ≤ limits.steps) : Initializes loop s m₁ limits depth := by
  intro names effect w
  obtain ⟨σ, ls, hbegins, hsplit⟩ := begins_blank hs w limits (by omega)
  have hfollows : Follows σ ls Same
      (Run.executeStatement (evaluator (depth + 1)) loop.init (trialScopes s))
      (Run.executeStatement (evaluator (depth + 1)) loop.init (loopScopes s.machine)) := by
    rw [executeStatement_var _ hform, executeStatement_var _ hform]
    refine Follows.tick.andThen fun _ _ hext => ?_
    refine (Follows.varScope (hbegins.chains.mono hext) (.inl hsplit)).bind fun _ f f' hext' hf => ?_
    obtain ⟨l, hl, hns, rfl⟩ := hf
    exact .declareAll (evaluator_faithful _) (hbegins.chains.mono (hext.trans hext')) hl hns _
  obtain ⟨_, m₁', ls', hrun', hext, hrel, -⟩ := hfollows.of_ok hbegins.related hcode
  refine ⟨m₁', ?_, hbegins.inStep hext hrel hsteps⟩
  rw [loopScopes, runInit_declaration hform]
  exact hrun'

theorem initializes_block {kind : VariableKind} (hs : s.machine.WellScoped)
    (hform : loop.init.form = .variableDeclaration kind) (hkind : kind ≠ .var)
    (hunset : StartsUnset loop s)
    (hcode : Run.executeStatement (evaluator (depth + 1)) loop.init (trialScopes s)
      (paced (trialStart s).machine limits 1) =
        .ok () (withLimits m₁ (limits.steps - 1) limits.depth))
    (hsteps : 1 + m₁.steps + s.machine.maxSteps ≤ limits.steps)
    (hdepth : s.machine.maxDepth ≤ limits.depth) (hnesting : nestingLimit ≤ depth) :
    Initializes loop s m₁ limits depth := by
  intro names effect w
  obtain ⟨σ, ls, hbegins, hsplit, hlink⟩ := begins_split hs w limits (by omega)
  rw [trialScopes, executeStatement_block _ hform hkind] at hcode
  obtain ⟨_, m₂, htick, hdeclare⟩ := bind_eq_ok.mp hcode
  have hticks : Follows (σ.binding []) ls Same Run.tick Run.tick := .tick
  obtain ⟨_, m₂', ls₂, htick', hext, hrel, -⟩ := hticks.of_ok hbegins.related htick
  have hfree : ∀ before d after name,
      loop.init.childrenAt .declarations = before ++ d :: after → declaredName? d = some name →
      d.child? .init = none → name ∈ [] ∨ name ∈ declaredNames before ∨
        (m₂.after (Run.declareAll (evaluator (depth + 1)) (trialScopes s) s.machine.frames.size
          before)).variable s.machine.frames.size name = .undefined := by
    intro before d after name hds hname hinit
    by_cases hmem : name ∈ declaredNames before
    · exact .inr (.inl hmem)
    · have hvalue := hunset kind before d after name hform hkind hds hname hinit hmem
        (limits.steps - 1) limits.depth (depth + 1) (by omega) hdepth (by omega)
      have hpaced : withLimits (trialStart s).machine.renewed (limits.steps - 1) limits.depth =
          paced (trialStart s).machine limits 1 := rfl
      rw [hpaced, Machine.after_bind_of_ok htick] at hvalue
      exact .inr (.inr hvalue)
  have hchains : Chains σ ls (trialScopes s) (loopScopes s.machine) :=
    hbegins.chains.adapt rfl fun _ hg => hg
  obtain ⟨m₁', ls₁, hdeclare', hext', hrel'⟩ := declareAll_split (evaluator_faithful (depth + 1))
    hsplit (getElem?_of_extends hext hlink) (hchains.mono hext) hrel hdeclare hfree
  refine ⟨m₁', ?_, hbegins.inStep (hext.trans hext') hrel' (by omega)⟩
  rw [loopScopes, runInit_declaration hform, executeStatement_block _ hform hkind,
    bind_of_ok htick']
  exact hdeclare'

/-- The initializer of the run keeps step with that of the trial. -/
theorem initializes (hs : s.machine.WellScoped) (hunset : StartsUnset loop s)
    (hquiet : Evaluation.Undisturbed loop (trialScopes s) s ⟨.init, (trialStart s).machine.renewed⟩)
    (hrun : Stage.init.code loop (trialScopes s) nestingLimit (trialStart s).machine.renewed =
      .ok v m₁)
    (hsteps : 1 + m₁.steps + s.machine.maxSteps ≤ limits.steps)
    (hdepth : s.machine.maxDepth ≤ limits.depth) (hnesting : nestingLimit ≤ depth) :
    Initializes loop s m₁ limits depth := by
  have hcode := hquiet (limits.steps - 1) limits.depth (depth + 2) (by omega) hdepth (by omega) v m₁
    hrun
  by_cases hdecl : ∃ kind, loop.init.form = .variableDeclaration kind
  · obtain ⟨kind, hform⟩ := hdecl
    rw [initCode_declaration hform] at hcode
    obtain ⟨_, m₂, hcode, hend⟩ := bind_eq_ok.mp hcode
    cases hend
    by_cases hkind : kind = .var
    · subst hkind
      exact initializes_var hs hform hcode (by omega)
    · exact initializes_block hs hform hkind hunset hcode hsteps hdepth hnesting
  · exact initializes_expression hs (fun k hk => hdecl ⟨k, hk⟩) hcode (by omega)

end

end Untangle.Dispatch
