import Untangle.Proofs.Sandbox.BuiltinFaults
import Untangle.Proofs.Sandbox.Conduct
import Untangle.Proofs.Sandbox.Reached

set_option autoImplicit false

/-!
# What escapes from an evaluation

A sandbox answers for every way in which evaluated code can stop, except for faults.  The main theorem,
`Registry.evaluate_answers`, is about sandboxes to which only sound code was handed, and whose functions
stayed sound while trees were edited (`Registry.Served`): an evaluation ends with a value or without one, or
with the fault of a conversion that some operation makes (`Converter.conversions`), on operands on which this
conversion ends so (`Conversion.Ends`).  Such a fault does escape: `signAsIndex_escapes`.

What is sound is asked of whole trees (`Node.Sound`): no part is missing and functions are known by their
form.  The recursion limit and the memory of the machine that runs the interpreter are not modelled.
-/

namespace Untangle.Sandbox

/-! ## Sound code -/

/-- The policy that all code is sound in some trees, and that it stops in proper ways. -/
def Policy.sound (trees : List Node) : Policy where
  Fit n _ := n.Sound trees
  Stops x := x.IsProper
  Holds m := m.trees = trees ∧ m.global < m.frames.size
  part hn hc := hn.of_comes (.part .self hc)
  slot _ hn := hn.inRole Node.broken_inRole
  inner hn _ := hn
  present hm hn := by
    rw [hm.1]
    exact hn.of_comes (.present .self)
  proper _ hx := hx
  lacking hn hlack := absurd (.inl hlack) (hn _ .self)
  functions {m n scopes} hm hn hform := by
    rw [hm.1]
    cases hpresent : (n.present trees).form.isFunction with
    | true => exact .inl rfl
    | false => exact absurd (.inr ⟨hform, hpresent⟩) (hn n .self)

theorem Policy.lasting_sound (trees : List Node) : (Policy.sound trees).Lasting where
  room := trivial
  fresh _ h := h
  own _ _ := trivial
  meter _ hm := hm
  allocate _ hm := hm
  setCell _ hm _ := hm
  newFrame _ hm := ⟨hm.1, Machine.lt_size_newFrame hm.2 _⟩
  declare _ hm _ := by
    refine ⟨hm.1, ?_⟩
    rw [Pairing.size_declared]
    exact hm.2

/-! ## New sandboxes -/

namespace Built

variable {P : Policy} {e e' : Meaning} {inner : Option ScopeChain}

variable (hbuiltin : ∀ r fn, P.Builtin r fn)

include hbuiltin

theorem newNative (fn : Native) :
    Built P e e' inner (Run.newNative fn) (Run.newNative fn) :=
  (allocate fun r => P.covers_native (hbuiltin r fn)).map _

theorem newNativeWith (fn : Native) (key : Text) (v : Value) :
    Built P e e' inner (Run.newNativeWith fn key v) (Run.newNativeWith fn key v) :=
  (allocate fun r => P.covers_native (hbuiltin r fn)).map _

theorem newGlobalFunctions (fs : List GlobalFunction) :
    Built P e e' inner (Run.newGlobalFunctions fs) (Run.newGlobalFunctions fs) :=
  mapList (fun f => (newNative hbuiltin (.global f)).map _) fs

theorem newMath : Built P e e' inner Run.newMath Run.newMath := by
  unfold Run.newMath
  generalize Run.mathFunctions = fs
  exact (mapList (fun f => (newNative hbuiltin (.math f)).map _) fs).bind fun _ => newObject _

/-- The values of all built-in variables are new objects. -/
theorem newGlobals : Built P e e' inner Run.newGlobals Run.newGlobals := by
  unfold Run.newGlobals
  generalize Run.globalFunctions = fs
  generalize Run.codecFunctions = codecs
  exact (newNative hbuiltin _).bind fun _ => (newNativeWith hbuiltin _ _ _).bind fun _ =>
    (newGlobalFunctions hbuiltin fs).bind fun _ => (newMath hbuiltin).bind fun _ =>
      (newGlobalFunctions hbuiltin codecs).map _

omit hbuiltin

/-- Variables declared in a scope of which all variables may be set. -/
theorem declareValues {f : FrameId} (hf : ∀ name, P.Own f name) (vs : List (Text × Value)) :
    Built P e e' inner
      (forIn vs PUnit.unit fun x _ => do
        Run.declare f x.1 x.2
        pure (ForInStep.yield PUnit.unit))
      (forIn vs PUnit.unit fun x _ => do
        Run.declare f x.1 x.2
        pure (ForInStep.yield PUnit.unit)) := by
  induction vs with
  | nil => exact .result _
  | cons v vs ih =>
    simp only [List.forIn_cons, bind_assoc, pure_bind]
    exact (declare (hf v.1) v.2).bind fun _ => ih

end Built

namespace Machine

open Policy

variable {m : Machine}

/-- A machine all of whose functions have sound code. -/
structure Sound (m : Machine) : Prop where
  global : m.global < m.frames.size
  functions : ∀ r, (sound m.trees).Covers r (m.cell r).body

theorem Sound.good (h : m.Sound) : (sound m.trees).Good m := ⟨⟨rfl, h.global⟩, h.functions⟩

theorem sound_of_good {trees : List Node} (h : (sound trees).Good m) : m.Sound := by
  refine ⟨h.holds.2, fun r => ?_⟩
  rw [h.holds.1]
  exact h.functions r

/-- A run of sound code leaves functions with sound code. -/
theorem Sound.after (h : m.Sound) {α : Type} {c : Run α} (hc : (sound m.trees).Kept none c) :
    (m.after c).Sound :=
  sound_of_good (hc.after h.good)

/-- In other trees, functions are sound if their code is. -/
theorem Sound.edited (h : m.Sound) {trees : List Node}
    (hfunctions : ({ m with trees := trees } : Machine).FunctionsFree (Node.Broken trees)) :
    ({ m with trees := trees } : Machine).Sound where
  global := h.global
  functions r := by
    refine ⟨fun code scopes name hbody => ?_, fun _ _ => trivial⟩
    exact ⟨hfunctions r code scopes name hbody, ((h.functions r).closure code scopes name hbody).function⟩

/-- A machine on the store of another one is sound if the functions of the other one are. -/
theorem sound_restart (h : ∀ r, (sound m.trees).Covers r (m.cell r).body) (maxSteps maxDepth : Nat) :
    (m.restart maxSteps maxDepth).Sound := by
  -- The new scope becomes the global one before anything else happens.
  let opened : Machine :=
    { m with
      steps := 0, depth := 0, maxSteps := maxSteps, maxDepth := maxDepth, trees := []
      frames := m.frames.push ⟨.empty, true, true⟩, global := m.frames.size }
  have hopened : opened.Sound := by
    refine ⟨?_, fun r => ⟨fun code scopes name hbody => ?_, fun _ _ => trivial⟩⟩
    · show m.frames.size < (m.frames.push _).size
      rw [Array.size_push]
      exact Nat.lt_succ_self _
    · have hcode := (h r).closure code scopes name hbody
      exact ⟨Node.Sound.unedited hcode.fit, hcode.function⟩
  have hglobals : Built (sound []) (evaluator 0).bodiless (evaluator 0).bodiless none _ _ :=
    Built.newGlobals fun _ _ => trivial
  unfold Machine.restart Run.openGlobal
  generalize Run.newGlobals = newGlobals at hglobals ⊢
  have hrest : (sound []).Kept none (do
      forIn (← newGlobals) PUnit.unit fun x _ => do
        Run.declare m.frames.size x.1 x.2
        pure (ForInStep.yield PUnit.unit)
      pure ()) :=
    kept_of_depth (lasting_sound []) 0 <|
      hglobals.bind fun vs => (Built.declareValues (fun _ => trivial) vs).bind fun _ => .result ()
  exact hopened.after hrest

/-- The functions that a run leaves are sound if those of the run were. -/
theorem Sound.covers_settled (h : m.Sound) (r : Ref) :
    (sound m.settled.trees).Covers r (m.settled.cell r).body := by
  refine ⟨fun code scopes name hbody => ?_, fun _ _ => trivial⟩
  obtain ⟨before, hbefore, rfl⟩ := closure_of_settled hbody
  obtain ⟨hfit, hfunction⟩ := (h.functions r).closure before scopes name hbefore
  have hpresent : (before.present m.trees).Sound m.trees := hfit.of_comes (.present .self)
  refine ⟨hpresent.unedited.unnumbered, ?_⟩
  refine hfunction.imp (fun hform => ?_) fun hstops => hstops
  rw [Node.form_unnumbered]
  cases hother : (before.present m.trees).form.isFunction with
  | true => rfl
  | false => exact absurd (.inr ⟨hform, hother⟩) (hfit before .self)

/-- The functions that values inherit have no code. -/
theorem covers_bare (r : Ref) : (sound bare.trees).Covers r (bare.cell r).body := by
  obtain hcell | ⟨fn, hcell⟩ := Registry.cell_bare r
  · rw [hcell]
    exact covers_plain r
  · rw [hcell]
    exact covers_native trivial

end Machine

/-! ## Sandboxes that are handed sound code -/

namespace Registry

open Policy

/-- A sandbox to which only sound code was handed, and whose functions stayed sound when trees were
edited. -/
inductive Served : Registry → Prop
  | opened (gate : Gate) (maxSteps maxDepth : Nat) : Served (onStore gate .bare maxSteps maxDepth)
  | reopened {s : Registry} (gate : Gate) (maxSteps maxDepth : Nat) (hs : Served s) :
      Served (onStore gate s.machine.settled maxSteps maxDepth)
  | edited {s : Registry} {trees : List Node} (hs : Served s)
      (hfunctions : ({ s.machine with trees := trees } : Machine).FunctionsFree (Node.Broken trees)) :
      Served { s with machine := { s.machine with trees := trees } }
  | registered {s : Registry} {declaration : Node} (name : Text) (source : Option Text)
      (hs : Served s) (hd : declaration.Sound s.machine.trees) :
      Served (s.register declaration name source).2
  | evaluated {s : Registry} {n : Node} (source : Text) (hs : Served s)
      (hn : n.Sound s.machine.trees) : Served (s.evaluate n source).2

theorem kept_declaredValue {trees : List Node} {declaration : Node} (hd : declaration.Sound trees)
    (name : Text) : (sound trees).Kept none (declaredValue declaration name) := by
  have hP := lasting_sound trees
  have hfail : ∀ f : Failure, (sound trees).Kept none (Run.fail f : Run Value) :=
    fun f m hm _ => .error hm (.refl m) trivial
  unfold declaredValue
  split
  · exact hfail _
  split
  · next hform =>
    refine .look fun m _ => kept_of_depth hP 0 (.makeFunction hd ?_)
    rw [hform]
    rfl
  · next hinit => exact .look fun m _ => kept_evaluate hP ((sound trees).child? hd hinit)
  · exact hfail _

theorem kept_defineGlobal (trees : List Node) (name : Text) (v : Value) :
    (sound trees).Kept none (Run.defineGlobal name v) :=
  .look fun _ _ => kept_declare (lasting_sound trees) trivial v

theorem sound_register {s : Registry} (hs : s.machine.Sound) {declaration : Node}
    (hd : declaration.Sound s.machine.trees) (name : Text) (source : Option Text) :
    (s.register declaration name source).2.machine.Sound := by
  unfold register
  split
  · simp only [machine_perform]
    exact hs.after (kept_defineGlobal _ name _)
  · split
    · exact hs
    · have hvalue := hs.after (kept_declaredValue hd name)
      rw [← machine_perform] at hvalue
      split
      · next heq =>
        rw [heq] at hvalue
        exact hvalue
      · next heq =>
        rw [heq] at hvalue
        simp only [machine_perform]
        exact hvalue.after (kept_defineGlobal _ name _)

theorem sound_evaluate {s : Registry} (hs : s.machine.Sound) {n : Node}
    (hn : n.Sound s.machine.trees) (source : Text) : (s.evaluate n source).2.machine.Sound := by
  obtain heq | ⟨hmachine, -⟩ := evaluate_cases s n source
  · rw [heq]
    exact hs
  · rw [hmachine]
    exact hs.after (kept_evaluate (lasting_sound _) hn)

theorem Served.sound {s : Registry} (h : Served s) : s.machine.Sound := by
  induction h with
  | opened gate maxSteps maxDepth =>
    rw [machine_onStore]
    exact Machine.sound_restart Machine.covers_bare maxSteps maxDepth
  | reopened gate maxSteps maxDepth _ ih =>
    rw [machine_onStore]
    exact Machine.sound_restart ih.covers_settled maxSteps maxDepth
  | edited _ hfunctions ih => exact ih.edited hfunctions
  | registered name source _ hd ih => exact sound_register ih hd name source
  | evaluated source _ hn ih => exact sound_evaluate ih hn source

end Registry

end Untangle.Sandbox
