import Untangle.Proofs.Computation
import Untangle.Proofs.Sandbox.PairedEvaluator
import Untangle.Sandbox.Global

set_option autoImplicit false

/-!
# Scopes of functions exist

The functions of a machine have chains of scopes that the machine has.  Such a machine is paired with
itself, and what runs on it keeps the property because it runs in the same way on both sides.
-/

namespace Untangle.Sandbox

/-- The scopes of all functions exist. -/
def Machine.ScopesExist (m : Machine) : Prop :=
  ∀ (r : Ref) (code : Node) (c : ScopeChain) (name : Text),
    (m.cell r).body = .closure code c name → ∀ f ∈ c, f < m.frames.size

/-- The global scope and the scopes of all functions exist. -/
structure Machine.WellScoped (m : Machine) : Prop where
  global : m.global < m.frames.size
  closures : m.ScopesExist

namespace Pairing

variable {α : Type} {σ : Pairing} {ls : Links} {m m' : Machine}

/-- The pairing of a machine with itself. -/
def alike (m : Machine) : Pairing :=
  { split := none, kept := [], blanks := [], bound := [], shift := 0, budget := m.maxSteps, depth := m.depth,
    maxDepth := m.maxDepth, trees := m.trees, global := m.global }

/-- Every scope as its own counterpart. -/
def selfLinks (m : Machine) : Links :=
  (List.range m.frames.size).map fun f => ⟨f, (m.frame f).isFunction⟩

theorem length_selfLinks (m : Machine) : (selfLinks m).length = m.frames.size := by
  simp [selfLinks]

theorem getElem?_selfLinks {f : FrameId} (hf : f < m.frames.size) :
    (selfLinks m)[f]? = some ⟨f, (m.frame f).isFunction⟩ := by
  simp [selfLinks, List.getElem?_range hf]

theorem lt_of_selfLinks {f : FrameId} {l : Link} (hl : (selfLinks m)[f]? = some l) :
    f < m.frames.size ∧ l = ⟨f, (m.frame f).isFunction⟩ := by
  have hf : f < m.frames.size := by
    rw [← length_selfLinks m]
    exact (List.getElem?_eq_some_iff.mp hl).1
  rw [getElem?_selfLinks hf] at hl
  exact ⟨hf, (Option.some.inj hl).symm⟩

theorem not_splits_alike (m : Machine) (f : FrameId) : ¬ (alike m).Splits f := by
  rintro ⟨h, hs⟩
  cases hs

/-- A chain of scopes that exist is its own counterpart. -/
theorem chains_self {c : ScopeChain} (hc : ∀ f ∈ c, f < m.frames.size) :
    Chains (alike m) (selfLinks m) c c := by
  induction c with
  | nil => exact .nil
  | cons f c ih =>
    have hf := getElem?_selfLinks (hc f List.mem_cons_self)
    exact .whole hf (not_splits_alike m f) (ih fun g hg => hc g (List.mem_cons_of_mem f hg))

/-- A machine whose scopes exist is paired with itself. -/
theorem related_self (h : m.WellScoped) : Related (alike m) (selfLinks m) m m where
  heapSize := rfl
  cells r := by
    refine ⟨?_, rfl⟩
    cases hb : (m.cell r).body with
    | plain => exact .plain
    | array es => exact .array es
    | native fn => exact .native fn
    | closure code c name => exact .closure code name (chains_self (h.closures r code c name hb))
  count := length_selfLinks m
  bounded hl := by
    obtain ⟨hf, rfl⟩ := lt_of_selfLinks hl
    exact hf
  injective hl hk heq := by
    obtain ⟨-, rfl⟩ := lt_of_selfLinks hl
    obtain ⟨-, rfl⟩ := lt_of_selfLinks hk
    exact heq
  isFunction hl := by
    obtain ⟨-, rfl⟩ := lt_of_selfLinks hl
    rfl
  whole hl _ := by
    obtain ⟨-, rfl⟩ := lt_of_selfLinks hl
    rfl
  parted hs := by cases hs
  splitBounded hs := by cases hs
  headBounded hs := by cases hs
  headApart hs := by cases hs
  kept hg := by cases hg
  keptApart hg := by cases hg
  keptNotHead hg := by cases hg
  blanks hg := by cases hg
  bound _ hs := by cases hs
  global := rfl
  globalLink := ⟨_, getElem?_selfLinks h.global, rfl⟩
  globalWhole := not_splits_alike m _
  steps := rfl
  budget := rfl
  budget' := rfl
  depth := rfl
  depth' := rfl
  maxDepth := rfl
  maxDepth' := rfl
  trees := rfl
  trees' := rfl

/-- The scopes of a chain with a counterpart exist. -/
theorem Chains.exist {c c' : ScopeChain} (hc : Chains σ ls c c') (hm : Related σ ls m m') :
    ∀ f ∈ c, f < m.frames.size := by
  induction hc with
  | nil => simp
  | blank _ _ ih => exact ih
  | whole hl _ _ ih =>
    intro f hf
    obtain rfl | hf := List.mem_cons.mp hf
    · exact hm.lt_of_link hl
    · exact ih f hf
  | split _ hl _ ih =>
    intro f hf
    obtain rfl | hf := List.mem_cons.mp hf
    · exact hm.lt_of_link hl
    · exact ih f hf

/-- The first of two paired machines has the scopes of its functions. -/
theorem Related.wellScoped (hm : Related σ ls m m') : m.WellScoped where
  global := by
    obtain ⟨l, hl, -⟩ := hm.globalLink
    rw [hm.global]
    exact hm.lt_of_link hl
  closures := by
    intro r code c name hb
    have hcell := (hm.cells r).body
    rw [hb] at hcell
    generalize (m'.cell r).body = b' at hcell
    cases hcell with
    | closure _ _ hc => exact hc.exist hm

end Pairing

namespace Machine

open Pairing

variable {α : Type} {m m' : Machine}

/-- A machine keeps its scopes, and the scopes of all its functions exist. -/
structure Grows (m m' : Machine) : Prop where
  scopes : m.frames.size ≤ m'.frames.size
  wellScoped : m'.WellScoped

/-- Scopes of a chain stay. -/
theorem Grows.exist (h : Grows m m') {c : ScopeChain} (hc : ∀ f ∈ c, f < m.frames.size) :
    ∀ f ∈ c, f < m'.frames.size :=
  fun f hf => Nat.lt_of_lt_of_le (hc f hf) h.scopes

/-- A computation that follows itself keeps the scopes. -/
theorem WellScoped.after (h : m.WellScoped) {c : Run α} {Q : Links → α → α → Prop}
    (hc : Follows (alike m) (selfLinks m) Q c c) : Grows m (m.after c) := by
  have hsize : ∀ {ls' : Links} {n n' : Machine}, selfLinks m <+: ls' →
      Related (alike m) ls' n n' → m.frames.size ≤ n.frames.size := by
    intro ls' n n' hext hn
    rw [← length_selfLinks m, ← hn.count]
    exact hext.length_le
  have hout := hc (selfLinks m) m m List.prefix_rfl (related_self h)
  unfold Machine.after EStateM.run
  obtain ⟨a, n, b, n', ls', hr, -, hext, hrel, -⟩ | ⟨e, n, e', n', ls', hr, -, hext, hrel, -⟩ :=
    hout.dest
  · rw [hr]
    exact ⟨hsize hext hrel, hrel.wellScoped⟩
  · rw [hr]
    exact ⟨hsize hext hrel, hrel.wellScoped⟩

/-- The machine with a budget that is not used. -/
def renewed (m : Machine) : Machine := { m with steps := 0, depth := 0 }

theorem WellScoped.renewed (h : m.WellScoped) : m.renewed.WellScoped := ⟨h.global, h.closures⟩

/-- A computation with a new budget ends as it does on a renewed machine, except that a jump that nothing
catches is a failure. -/
theorem fresh_cases (m : Machine) (c : Run α) :
    (∃ a m₁, c m.renewed = .ok a m₁ ∧ Run.fresh c m = .ok a m₁) ∨
    (∃ e e' m₁, c m.renewed = .error e m₁ ∧ Run.fresh c m = .error e' m₁) := by
  obtain ⟨handler, hrun, hhandler⟩ : ∃ handler : Abrupt → Run α,
      Run.fresh c m = EStateM.tryCatch c handler m.renewed ∧
        ∀ e m₁, ∃ e', handler e m₁ = .error e' m₁ := by
    refine ⟨_, rfl, fun e m₁ => ?_⟩
    cases e <;> exact ⟨_, rfl⟩
  rw [hrun]
  unfold EStateM.tryCatch
  cases c m.renewed with
  | ok a m₁ => exact .inl ⟨a, m₁, rfl, rfl⟩
  | error e m₁ =>
    obtain ⟨e', he'⟩ := hhandler e m₁
    exact .inr ⟨e, e', m₁, rfl, he'⟩

theorem fresh_eq_ok {c : Run α} {m m₁ : Machine} {a : α} :
    Run.fresh c m = .ok a m₁ ↔ c m.renewed = .ok a m₁ := by
  obtain ⟨a', m₁', hc, hfresh⟩ | ⟨e, e', m₁', hc, hfresh⟩ := fresh_cases m c
  · rw [hc, hfresh]
  · rw [hc, hfresh]
    constructor <;>
    · intro h
      cases h

/-- A computation with a new budget leaves the machine as it does without one on a renewed machine. -/
theorem after_fresh (m : Machine) (c : Run α) : m.after (Run.fresh c) = m.renewed.after c := by
  unfold Machine.after EStateM.run
  obtain ⟨a, m₁, hc, hfresh⟩ | ⟨e, e', m₁, hc, hfresh⟩ := fresh_cases m c
  · rw [hc, hfresh]
  · rw [hc, hfresh]

theorem WellScoped.fresh (h : m.WellScoped) {c : Run α} {Q : Links → α → α → Prop}
    (hc : Follows (alike m.renewed) (selfLinks m.renewed) Q c c) :
    Grows m (m.after (Run.fresh c)) := by
  rw [after_fresh]
  have hgrows := h.renewed.after hc
  exact ⟨hgrows.scopes, hgrows.wellScoped⟩

/-- Expressions that run in scopes that exist keep them. -/
theorem WellScoped.evaluate (h : m.WellScoped) {c : ScopeChain} (hc : ∀ f ∈ c, f < m.frames.size)
    (n : Node) : Grows m (m.after (Run.evaluate n c)) := by
  exact h.fresh ((evaluator_faithful nestingLimit).expression _ _ n c c (chains_self hc))

/-- A chain with a scope of its own is settled. -/
theorem settled_self {c : ScopeChain} (hc : ∀ f ∈ c, f < m.frames.size) (hne : c ≠ []) :
    Settled (alike m) (selfLinks m) c c := by
  refine ⟨chains_self hc, .inl rfl, ?_⟩
  obtain ⟨f, d, rfl⟩ := List.exists_cons_of_ne_nil hne
  exact ⟨f, _, d, d, rfl, rfl, getElem?_selfLinks (hc f List.mem_cons_self), not_splits_alike m f⟩

/-- Statements that run in scopes that exist keep them. -/
theorem WellScoped.execute (h : m.WellScoped) {c : ScopeChain} (hc : ∀ f ∈ c, f < m.frames.size)
    (hne : c ≠ []) (n : Node) : Grows m (m.after (Run.execute n c)) := by
  have hev := evaluator_faithful nestingLimit
  have hsettled : Settled (alike m.renewed) (selfLinks m.renewed) c c := settled_self hc hne
  unfold Run.execute
  split
  · refine h.fresh (Q := Same)
      ((Follows.varScope hsettled.chains hsettled.ready).bind fun ls f f' hext hf => ?_)
    obtain ⟨l, hl, hns, rfl⟩ := hf
    exact .declareVariable hev (hsettled.chains.mono hext) hl hns n
  · exact h.fresh (hev.statement _ _ n c c hsettled)

/-- A global variable is set. -/
theorem WellScoped.defineGlobal (h : m.WellScoped) (name : Text) (v : Value) :
    Grows m (m.after (Run.defineGlobal name v)) := by
  refine h.after (Q := Same) (Follows.machine.bind fun ls n n' hext hn => ?_)
  obtain ⟨l, hl, hl'⟩ := hn.globalLink
  rw [hn.global, hl']
  exact .declare hl hn.globalWhole name v

/-- New scopes for trying code out. -/
theorem WellScoped.scratch (h : m.WellScoped) :
    Grows m (m.after Run.scratch) ∧
      ∀ f ∈ m.frames.size :: m.globalChain, f < (m.after Run.scratch).frames.size := by
  have hgrows : Grows m (m.after Run.scratch) := by
    refine h.after (Q := fun _ _ _ => True) ((Follows.newFrame true true).bind fun _ _ _ _ _ => ?_)
    exact Follows.machine.bind fun _ _ _ _ _ => .result fun _ _ => trivial
  refine ⟨hgrows, ?_⟩
  have hsize : (m.after Run.scratch).frames.size = m.frames.size + 1 := by
    show (m.frames.push _).size = _
    simp
  intro f hf
  rw [hsize]
  obtain rfl | hf := List.mem_cons.mp hf
  · exact Nat.lt_succ_self _
  · cases List.mem_singleton.mp hf
    exact Nat.lt_succ_of_lt h.global

/-! ## New global scopes -/

theorem newNative_follows {σ : Pairing} {ls : Links} (fn : Native) :
    Follows σ ls Same (Run.newNative fn) (Run.newNative fn) := by
  unfold Run.newNative
  exact Follows.andThen (.allocate fun _ _ => ⟨.native fn, rfl⟩) fun _ _ _ => .ret _

theorem newNativeWith_follows {σ : Pairing} {ls : Links} (fn : Native) (key : Text) (v : Value) :
    Follows σ ls Same (Run.newNativeWith fn key v) (Run.newNativeWith fn key v) := by
  unfold Run.newNativeWith
  exact Follows.andThen (.allocate fun _ _ => ⟨.native fn, rfl⟩) fun _ _ _ => .ret _

theorem newGlobalFunctions_follows {σ : Pairing} {ls : Links} (fs : List GlobalFunction) :
    Follows σ ls Same (Run.newGlobalFunctions fs) (Run.newGlobalFunctions fs) := by
  unfold Run.newGlobalFunctions
  exact .mapList (fun f _ => (newNative_follows (.global f)).map fun v => (Text.of f.name, v)) fs

theorem newMath_follows {σ : Pairing} {ls : Links} :
    Follows σ ls Same Run.newMath Run.newMath := by
  unfold Run.newMath
  generalize Run.mathFunctions = fs
  have hfunctions : Follows σ ls Same
      (fs.mapM fun f => do return (Text.of f.name, ← Run.newNative (.math f)))
      (fs.mapM fun f => do return (Text.of f.name, ← Run.newNative (.math f))) := by
    refine .mapList (fun f _ => ?_) fs
    exact (newNative_follows (.math f)).map fun v => (Text.of f.name, v)
  exact hfunctions.andThen fun _ _ _ => .newObject _

theorem newGlobals_follows {σ : Pairing} {ls : Links} :
    Follows σ ls Same Run.newGlobals Run.newGlobals := by
  unfold Run.newGlobals
  generalize Run.globalFunctions = fs
  generalize Run.codecFunctions = codecs
  have hmath := @newMath_follows σ
  generalize Run.newMath = newMath at hmath ⊢
  refine Follows.andThen (newNative_follows _) fun _ fromCharCode _ => ?_
  refine Follows.andThen (newNativeWith_follows _ _ _) fun _ string _ => ?_
  refine Follows.andThen (newGlobalFunctions_follows fs) fun _ functions _ => ?_
  refine Follows.andThen hmath fun _ math _ => ?_
  exact Follows.andThen (newGlobalFunctions_follows codecs) fun _ codecs _ => .ret _

/-- Variables declared in the global scope. -/
theorem declareGlobals_follows {σ : Pairing} {ls : Links} {f : FrameId} {l : Link}
    (hl : ls[f]? = some l) (hns : ¬ σ.Splits f) (vs : List (Text × Value)) :
    Follows σ ls Same
      (forIn vs PUnit.unit fun x _ => do
        Run.declare f x.1 x.2
        pure (ForInStep.yield PUnit.unit))
      (forIn vs PUnit.unit fun x _ => do
        Run.declare l.target x.1 x.2
        pure (ForInStep.yield PUnit.unit)) := by
  induction vs generalizing ls with
  | nil => exact .ret _
  | cons v vs ih =>
    simp only [List.forIn_cons, bind_assoc, pure_bind]
    exact (Follows.declare hl hns v.1 v.2).andThen fun _ _ hext =>
      ih (getElem?_of_extends hext hl)

/-- A machine on the store of another one has the scopes of its functions. -/
theorem wellScoped_restart (h : m.ScopesExist) (maxSteps maxDepth : Nat) :
    (m.restart maxSteps maxDepth).WellScoped := by
  -- The new scope becomes the global one before anything else happens.
  let opened : Machine :=
    { m with
      steps := 0, depth := 0, maxSteps := maxSteps, maxDepth := maxDepth, trees := []
      frames := m.frames.push ⟨.empty, true, true⟩, global := m.frames.size }
  have hsize : opened.frames.size = m.frames.size + 1 := by simp [opened]
  have hopened : opened.WellScoped := by
    refine ⟨by rw [hsize]; exact Nat.lt_succ_self _, ?_⟩
    intro r code c name hb f hf
    rw [hsize]
    exact Nat.lt_succ_of_lt (h r code c name hb f hf)
  have hlink := getElem?_selfLinks hopened.global
  have hglobals := @newGlobals_follows (alike opened) (selfLinks opened)
  unfold Machine.restart Run.openGlobal
  generalize Run.newGlobals = newGlobals at hglobals ⊢
  have hrest : Grows opened (opened.after do
      forIn (← newGlobals) PUnit.unit fun x _ => do
        Run.declare m.frames.size x.1 x.2
        pure (ForInStep.yield PUnit.unit)
      pure ()) := by
    refine hopened.after (hglobals.andThen fun _ vs hext => Follows.andThen ?_ fun _ _ _ => .ret ())
    exact declareGlobals_follows (getElem?_of_extends hext hlink) (not_splits_alike opened _) vs
  exact hrest.wellScoped

end Machine

end Untangle.Sandbox
