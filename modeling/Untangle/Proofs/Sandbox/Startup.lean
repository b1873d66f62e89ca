import Mathlib.Data.List.Nodup
import Untangle.Proofs.Computation
import Untangle.Sandbox.Global

set_option autoImplicit false

/-!
# What the names of a new machine stand for

A machine is set up by computations that do nothing but make objects.  Its global scope has the built-in
variables and no other ones, and the names of the numbers that have no literal stand for these numbers.
-/

namespace Untangle

namespace Dict

variable {α β : Type} [BEq α] [LawfulBEq α] {k : α} {v : β}

theorem get?_foldl_put_of_notMem {es : List (α × β)} (h : k ∉ es.map (·.1)) (d : Dict α β) :
    (es.foldl (fun d e => d.put e.1 e.2) d).get? k = d.get? k := by
  induction es generalizing d with
  | nil => rfl
  | cons e es ih =>
    rw [List.map_cons, List.mem_cons, not_or] at h
    exact (ih h.2 _).trans (get?_put_of_ne d h.1 e.2)

theorem get?_foldl_put {es : List (α × β)} (hnodup : (es.map (·.1)).Nodup) (h : (k, v) ∈ es)
    (d : Dict α β) : (es.foldl (fun d e => d.put e.1 e.2) d).get? k = some v := by
  induction es generalizing d with
  | nil => cases h
  | cons e es ih =>
    rw [List.map_cons, List.nodup_cons] at hnodup
    obtain rfl | h := List.mem_cons.mp h
    · exact (get?_foldl_put_of_notMem hnodup.1 _).trans (get?_put_self d k v)
    · exact ih hnodup.2 h _

/-- Pairs with distinct keys are found in their dictionary. -/
theorem get?_ofList {es : List (α × β)} (hnodup : (es.map (·.1)).Nodup) (h : (k, v) ∈ es) :
    (ofList es).get? k = some v := get?_foldl_put hnodup h empty

end Dict

namespace Sandbox

/-! ## Computations that make objects -/

/-- The computation only makes objects, and its result has a property. -/
def Allocates {α : Type} (p : α → Prop) (c : Run α) : Prop :=
  ∀ m : Machine, ∃ a h, c m = .ok a { m with heap := h } ∧ p a

namespace Allocates

variable {α β : Type} {p : α → Prop} {q : β → Prop}

theorem pure {a : α} (h : p a) : Allocates p (pure a : Run α) := fun m => ⟨a, m.heap, rfl, h⟩

theorem bind {c : Run α} {k : α → Run β} (hc : Allocates p c) (hk : ∀ a, p a → Allocates q (k a)) :
    Allocates q (c >>= k) := by
  intro m
  obtain ⟨a, h, hrun, ha⟩ := hc m
  obtain ⟨b, h', hrun', hb⟩ := hk a ha { m with heap := h }
  exact ⟨b, h', (bind_of_ok hrun).trans hrun', hb⟩

theorem allocate (c : Cell) : Allocates (fun _ => True) (Run.allocate c) :=
  fun m => ⟨m.heap.size, m.heap.push c, rfl, trivial⟩

theorem newNative (fn : Native) : Allocates (fun _ => True) (Run.newNative fn) :=
  (allocate _).bind fun _ _ => .pure trivial

/-- New objects for some functions are named after them. -/
theorem mapList {γ : Type} {name : γ → Text} {c : γ → Run Value}
    (hc : ∀ x, Allocates (fun _ => True) (c x)) (xs : List γ) :
    Allocates (fun vs : List (Text × Value) => vs.map (·.1) = xs.map name)
      (xs.mapM fun x => do return (name x, ← c x)) := by
  induction xs with
  | nil => exact .pure rfl
  | cons x xs ih =>
    rw [List.mapM_cons]
    exact ((hc x).bind (q := fun v => v.1 = name x) fun _ _ => .pure rfl).bind fun v hv =>
      ih.bind fun vs hvs => .pure (by rw [List.map_cons, hv, hvs, List.map_cons])

theorem newMath : Allocates (fun _ => True) Run.newMath := by
  unfold Run.newMath
  exact (mapList (fun f => newNative (.math f)) Run.mathFunctions).bind fun _ _ =>
    (allocate _).bind fun _ _ => .pure trivial

end Allocates

/-! ## The global scope of a new machine -/

/-- The built-in variables with their values; the names of numbers that have no literal stand for
these. -/
structure Builtin (vs : List (Text × Value)) : Prop where
  names : vs.map (·.1) = builtinNames
  undefined : (Text.of "undefined", Value.undefined) ∈ vs
  nan : (Text.of "NaN", Value.number Binary64.nan) ∈ vs
  infinity : (Text.of "Infinity", Value.number Binary64.infinity) ∈ vs

theorem newGlobals_allocates : Allocates Builtin Run.newGlobals := by
  unfold Run.newGlobals
  refine (Allocates.newNative _).bind fun f _ => ?_
  refine Allocates.bind (p := fun _ => True) ((Allocates.allocate _).bind fun _ _ => .pure trivial)
    fun string _ => ?_
  refine (Allocates.mapList (fun f => .newNative (.global f)) Run.globalFunctions).bind
    fun functions hfunctions => ?_
  refine Allocates.newMath.bind fun math _ => ?_
  refine (Allocates.mapList (fun f => .newNative (.global f)) Run.codecFunctions).bind
    fun codecs hcodecs => .pure ⟨?_, ?_, ?_, ?_⟩
  · simp only [List.map_append, List.map_cons, List.map_nil, hfunctions, hcodecs]
    rfl
  · simp
  · simp
  · simp

/-- Variables that are declared in a scope are put into it one after the other. -/
theorem declareAll_ok {f : FrameId} {m : Machine} (hf : f < m.frames.size)
    (vs : List (Text × Value)) :
    ∃ m', (forIn vs PUnit.unit fun x _ => do
        Run.declare f x.1 x.2
        pure (ForInStep.yield PUnit.unit) : Run PUnit) m = .ok PUnit.unit m' ∧
      m'.global = m.global ∧ m'.steps = m.steps ∧ m'.maxSteps = m.maxSteps ∧
      (m'.frame f).bindings = vs.foldl (fun d e => d.put e.1 e.2) (m.frame f).bindings := by
  induction vs generalizing m with
  | nil => exact ⟨m, rfl, rfl, rfl, rfl, rfl⟩
  | cons v vs ih =>
    let declared : Machine :=
      { m with frames := m.frames.modify f fun fr => { fr with bindings := fr.bindings.put v.1 v.2 } }
    have hsize : f < declared.frames.size := by
      show f < (m.frames.modify f _).size
      rw [Array.size_modify]
      exact hf
    have hframe : (declared.frame f).bindings = (m.frame f).bindings.put v.1 v.2 := by
      simp [declared, Machine.frame, Array.getD_eq_getD_getElem?, Array.getElem?_modify,
        Array.getElem?_eq_getElem hf]
    obtain ⟨m', hrun, hglobal, hsteps, hmax, hbindings⟩ := ih hsize
    refine ⟨m', ?_, hglobal, hsteps, hmax, ?_⟩
    · simp only [List.forIn_cons, bind_assoc, pure_bind]
      have hdeclare : Run.declare f v.1 v.2 m = .ok () declared := rfl
      exact (bind_of_ok hdeclare).trans hrun
    · rw [hbindings, hframe]
      rfl

theorem Machine.after_of_ok {α : Type} {c : Run α} {m m' : Machine} {a : α} (h : c m = .ok a m') :
    m.after c = m' := by
  unfold Machine.after EStateM.run
  rw [h]

/-- A new machine has taken no steps, and its global scope has the built-in variables. -/
theorem restart_opens (m : Machine) (maxSteps maxDepth : Nat) :
    ∃ vs, Builtin vs ∧ (m.restart maxSteps maxDepth).steps = 0 ∧
      (m.restart maxSteps maxDepth).maxSteps = maxSteps ∧
      ((m.restart maxSteps maxDepth).frame (m.restart maxSteps maxDepth).global).bindings =
        .ofList vs := by
  -- The new scope becomes the global one before anything else happens.
  let opened : Machine :=
    { m with
      steps := 0, depth := 0, maxSteps := maxSteps, maxDepth := maxDepth, trees := []
      frames := m.frames.push ⟨.empty, true, true⟩, global := m.frames.size }
  obtain ⟨vs, h, hglobals, hbuiltin⟩ := newGlobals_allocates opened
  have hsize : m.frames.size < (opened.frames).size := by
    simp [opened]
  obtain ⟨m', hrun, hglobal, hsteps, hmax, hbindings⟩ :=
    declareAll_ok (m := { opened with heap := h }) hsize vs
  have hempty : (({ opened with heap := h } : Machine).frame m.frames.size).bindings = .empty := by
    simp [opened, Machine.frame]
  have hrestart : m.restart maxSteps maxDepth = m' := by
    unfold Machine.restart Run.openGlobal
    generalize Run.newGlobals = newGlobals at hglobals ⊢
    have hrest : (do
        forIn (← newGlobals) PUnit.unit fun x _ => do
          Run.declare m.frames.size x.1 x.2
          pure (ForInStep.yield PUnit.unit)
        pure () : Run Unit) opened = .ok () m' :=
      (bind_of_ok hglobals).trans (bind_of_ok hrun)
    exact Machine.after_of_ok hrest
  rw [hrestart, hglobal]
  exact ⟨vs, hbuiltin, hsteps, hmax, hbindings.trans (hempty ▸ rfl)⟩

/-- The global scope of a new machine has the built-in variables. -/
theorem bindings_restart (m : Machine) (maxSteps maxDepth : Nat) :
    ∃ vs, Builtin vs ∧
      ((m.restart maxSteps maxDepth).frame (m.restart maxSteps maxDepth).global).bindings =
        .ofList vs := by
  obtain ⟨vs, hvs, -, -, hbindings⟩ := restart_opens m maxSteps maxDepth
  exact ⟨vs, hvs, hbindings⟩

/-- A new machine has all of its steps left. -/
theorem budget_restart (m : Machine) (maxSteps maxDepth : Nat) :
    (m.restart maxSteps maxDepth).steps = 0 ∧ (m.restart maxSteps maxDepth).maxSteps = maxSteps := by
  obtain ⟨vs, -, hsteps, hmax, -⟩ := restart_opens m maxSteps maxDepth
  exact ⟨hsteps, hmax⟩

end Sandbox

end Untangle
