import Untangle.Proofs.Sandbox.Reached
import Untangle.Proofs.Sandbox.RealmEvaluator

set_option autoImplicit false

/-!
# The sandboxes of a run are complete

A new machine is complete: its objects are built-in functions, and its variables have them as values.
All that a sandbox does leaves it complete, and so is every sandbox that a run of the rules comes to.
-/

namespace Untangle.Sandbox

namespace Realm

variable {ρ : Realm} {J : Jump → Prop} {m m₁ : Machine} {α : Type} {Q : Machine → α → Prop}

/-- Names with values that are known. -/
def KnowsPairs (ρ : Realm) (m : Machine) (vs : List (Text × Value)) : Prop := ∀ p ∈ vs, ρ.Knows m p.2

theorem KnowsPairs.later {vs : List (Text × Value)} (h : ρ.KnowsPairs m vs) (h' : m.Becomes m₁) :
    ρ.KnowsPairs m₁ vs := fun p hp => (h p hp).later h'

theorem KnowsPairs.append {vs ws : List (Text × Value)} (h : ρ.KnowsPairs m vs)
    (h' : ρ.KnowsPairs m ws) : ρ.KnowsPairs m (vs ++ ws) :=
  fun p hp => (List.mem_append.mp hp).elim (h p) (h' p)

theorem KnowsPairs.cons {vs : List (Text × Value)} {name : Text} {v : Value} (hv : ρ.Knows m v)
    (h : ρ.KnowsPairs m vs) : ρ.KnowsPairs m ((name, v) :: vs) := List.forall_mem_cons.mpr ⟨hv, h⟩

theorem knowsPairs_nil (ρ : Realm) (m : Machine) : ρ.KnowsPairs m [] := fun _ hp => by cases hp

/-- A dictionary has the values of the pairs that were put. -/
theorem KnowsPairs.dict {vs : List (Text × Value)} (h : ρ.KnowsPairs m vs) :
    ρ.KnowsAll m (Dict.ofList vs).values := by
  have hput : ∀ (vs : List (Text × Value)) (d : Dict Text Value), ρ.KnowsPairs m vs →
      ρ.KnowsAll m d.values → ρ.KnowsAll m (vs.foldl (fun d e => d.put e.1 e.2) d).values := by
    intro vs
    induction vs with
    | nil => exact fun _ _ hd => hd
    | cons v vs ih =>
      exact fun d h hd => ih _ (fun p hp => h p (List.mem_cons_of_mem v hp))
        (hd.put (h v List.mem_cons_self) v.1)
  exact hput vs .empty h (knowsAll_nil ρ m)

namespace Maintains

theorem newNative (fn : Native) : ρ.Maintains J m ρ.Knows (Run.newNative fn) :=
  (allocate (c := ⟨.native fn, .empty⟩) (knowsAll_nil ρ m)
    (covers_of_ne fun _ _ _ h => by cases h)).map fun _ _ h => h

theorem newNativeWith (fn : Native) (key : Text) {v : Value} (hv : ρ.Knows m v) :
    ρ.Maintains J m ρ.Knows (Run.newNativeWith fn key v) :=
  (allocate (c := ⟨.native fn, .ofList [(key, v)]⟩) ((knowsAll_nil ρ m).cons hv)
    (covers_of_ne fun _ _ _ h => by cases h)).map fun _ _ h => h

/-- New built-in functions under their names. -/
theorem newNatives {γ : Type} (name : γ → Text) (fn : γ → Native) (l : List γ) :
    ρ.Maintains J m ρ.KnowsPairs (l.mapM fun x => do return (name x, ← Run.newNative (fn x))) :=
  mapList (P := fun m₁ (p : Text × Value) => ρ.Knows m₁ p.2)
    (fun _ x _ _ => (newNative (fn x)).map fun _ _ h => h) fun _ _ _ h hp => hp.later h

theorem newGlobalFunctions (fs : List GlobalFunction) :
    ρ.Maintains J m ρ.KnowsPairs (Run.newGlobalFunctions fs) := newNatives _ .global fs

theorem newMath : ρ.Maintains J m ρ.Knows Run.newMath := by
  unfold Run.newMath
  generalize Run.mathFunctions = fs
  refine (newNatives _ .math fs).bind fun m₁ vs _ hvs => newObject (KnowsPairs.dict ?_)
  have hnumber : ∀ x : Float, ρ.Knows m₁ (.number x) := fun x => knows_of_isObject rfl
  exact (((knowsPairs_nil ρ m₁).cons (hnumber _)).cons (hnumber _)).append hvs

theorem newGlobals : ρ.Maintains J m ρ.KnowsPairs Run.newGlobals := by
  have hmath : ∀ m₁ : Machine, ρ.Maintains J m₁ ρ.Knows Run.newMath := @newMath ρ J
  unfold Run.newGlobals
  generalize Run.newMath = newMath at hmath ⊢
  generalize Run.globalFunctions = fs
  generalize Run.codecFunctions = codecs
  refine (newNative _).bind fun m₁ f _ hf => (newNativeWith _ _ hf).bind fun m₂ string _ hstring => ?_
  refine (newGlobalFunctions fs).bind fun m₃ functions h₃ hfunctions => ?_
  refine (hmath m₃).bind fun m₄ math h₄ hmath => ?_
  refine (newGlobalFunctions codecs).bind fun m₅ codecs h₅ hcodecs => .result fun m₆ h₆ => ?_
  have hlast := h₅.trans h₆
  have hfirst := h₃.trans (h₄.trans hlast)
  have hnumber : ∀ x : Float, ρ.Knows m₆ (.number x) := fun x => knows_of_isObject rfl
  refine (((?_ : ρ.KnowsPairs m₆ _).append (hfunctions.later (h₄.trans hlast))).append
    ((knowsPairs_nil ρ m₆).cons (hmath.later hlast))).append (hcodecs.later h₆)
  exact ((((knowsPairs_nil ρ m₆).cons (hstring.later hfirst)).cons (hnumber _)).cons (hnumber _)).cons
    (knows_of_isObject rfl)

/-- Variables are declared one after the other. -/
theorem declareValues (f : FrameId) {vs : List (Text × Value)} (hvs : ρ.KnowsPairs m vs) :
    ρ.Maintains J m Any (forIn vs PUnit.unit fun x _ => do
      Run.declare f x.1 x.2
      pure (ForInStep.yield PUnit.unit)) := by
  induction vs generalizing m with
  | nil => exact .any _
  | cons v vs ih =>
    simp only [List.forIn_cons, bind_assoc, pure_bind]
    have hrest : ρ.KnowsPairs m vs := fun p hp => hvs p (List.mem_cons_of_mem v hp)
    exact (declare (hvs v List.mem_cons_self) f v.1).andThen fun m₁ _ h => ih (hrest.later h)

/-- Whatever runs on a complete machine leaves one. -/
theorem after {c : Run α} (hc : whole.Maintains J m Q c) (hm : m.Complete) :
    m.Becomes (m.after c) ∧ (m.after c).Complete := by
  have hreach := hc m (.refl m) (encloses_whole.mpr hm)
  unfold Machine.after EStateM.run
  cases hrun : c m with
  | ok a m₁ =>
    rw [hrun] at hreach
    exact ⟨hreach.1, encloses_whole.mp hreach.2.1⟩
  | error x m₁ =>
    rw [hrun] at hreach
    exact ⟨hreach.1, encloses_whole.mp hreach.2.1⟩

end Maintains

end Realm

namespace Machine

variable {m : Machine}

/-! ## New machines -/

/-- The functions that values inherit hold nothing. -/
theorem complete_bare : bare.Complete := by
  refine ⟨by simp [bare], fun r v hv => ?_, fun f v hv => ?_⟩
  · obtain hcell | ⟨fn, hcell⟩ := Registry.cell_bare r
    · rw [hcell] at hv
      cases hv
    · rw [hcell] at hv
      cases hv
  · have hframe : bare.frame f = default := rfl
    rw [hframe] at hv
    cases hv

theorem Complete.restart (hm : m.Complete) (maxSteps maxDepth : Nat) :
    (m.restart maxSteps maxDepth).Complete := by
  -- The new scope becomes the global one before anything else happens.
  let opened : Machine :=
    { m with
      steps := 0, depth := 0, maxSteps := maxSteps, maxDepth := maxDepth, trees := []
      frames := m.frames.push ⟨.empty, true, true⟩, global := m.frames.size }
  have hopened : opened.Complete := by
    refine ⟨hm.inherited, hm.objects, fun f v hv => ?_⟩
    have hframe : opened.frame f = if f = m.frames.size then ⟨.empty, true, true⟩ else m.frame f :=
      Pairing.frame_push m _ f
    rw [hframe] at hv
    split at hv
    · cases hv
    · exact hm.frames f v hv
  have hglobals := @Realm.Maintains.newGlobals .whole (fun _ => False) opened
  unfold Machine.restart Run.openGlobal
  generalize Run.newGlobals = newGlobals at hglobals ⊢
  have hrest : Realm.whole.Maintains (fun _ => False) opened Realm.Any (do
      forIn (← newGlobals) PUnit.unit fun x _ => do
        Run.declare m.frames.size x.1 x.2
        pure (ForInStep.yield PUnit.unit)
      pure ()) :=
    hglobals.bind fun m₁ vs _ hvs => (Realm.Maintains.declareValues m.frames.size hvs).andThen
      fun _ _ _ => .any ()
  exact (hrest.after hopened).2

/-- What a run leaves is complete. -/
theorem Complete.settled (hm : m.Complete) : m.settled.Complete := by
  have hheld : ∀ r, (m.settled.cell r).held = (m.cell r).held := by
    intro r
    rw [cell_settled]
    obtain ⟨code, scopes, name, hbody, heq⟩ | ⟨-, heq⟩ := (m.cell r).settled_cases m.trees
    · rw [heq, Cell.held, Cell.held, hbody]
      rfl
    · rw [heq]
  have hsize : m.settled.heap.size = m.heap.size := Array.size_map
  have hknows : ∀ v, m.Knows v → m.settled.Knows v := by
    intro v hv
    cases v with
    | object r =>
      show r < m.settled.heap.size
      rw [hsize]
      exact hv
    | _ => trivial
  refine ⟨by rw [hsize]; exact hm.inherited, fun r v hv => ?_, fun f v hv => hknows v (hm.frames f v hv)⟩
  rw [hheld] at hv
  exact hknows v (hm.objects r v hv)

end Machine

/-! ## Values for a sandbox -/

namespace Realm.Maintains

variable {J : Jump → Prop} {m : Machine}

theorem scratch : whole.Maintains J m Any Run.scratch :=
  (newFrame true true).andThen fun _ _ _ => .look fun _ _ _ => .any _

theorem defineGlobal (name : Text) {v : Value} (hv : whole.Knows m v) :
    whole.Maintains J m Any (Run.defineGlobal name v) :=
  .look fun m₁ h _ => .declare (hv.later h) m₁.global name

theorem declaredValue (declaration : Node) (name : Text) :
    whole.Maintains J m whole.Knows (Registry.declaredValue declaration name) := by
  unfold Registry.declaredValue
  split
  · exact .fail fun h => h.elim
  split
  · exact .look fun m₁ _ _ => .makeFunction (fun h => h.elim) (sees_whole m₁.globalChain)
  · exact .look fun m₁ _ _ => .evaluate (fun h => h.elim) (sees_whole m₁.globalChain)
  · exact .fail fun h => h.elim

end Realm.Maintains

end Untangle.Sandbox

namespace Untangle.Sandbox.Registry

/-- A sandbox with a complete machine that knows the registered values. -/
structure Whole (s : Registry) : Prop where
  machine : s.machine.Complete
  registered : s.machine.KnowsAll s.registered.values

variable {s : Registry} {J : Jump → Prop} {α : Type} {Q : Machine → α → Prop}

/-- Whatever runs in a sandbox leaves it whole. -/
theorem Whole.after (hs : s.Whole) {c : Run α} (hc : Realm.whole.Maintains J s.machine Q c) :
    ({ s with machine := s.machine.after c } : Registry).Whole := by
  obtain ⟨hbecomes, hcomplete⟩ := hc.after hs.machine
  exact ⟨hcomplete, hs.registered.later hbecomes⟩

theorem Whole.onStore {m : Machine} (hm : m.Complete) (gate : Gate) (maxSteps maxDepth : Nat) :
    (onStore gate m maxSteps maxDepth).Whole := by
  refine ⟨?_, fun v hv => (by cases hv)⟩
  rw [machine_onStore]
  exact hm.restart maxSteps maxDepth

theorem Whole.perform {s' : Registry} {result : Except Abrupt α} (hs : s.Whole) {c : Run α}
    (hc : Realm.whole.Maintains J s.machine Q c) (h : s.perform c = (result, s')) :
    s'.Whole ∧ s.machine.Becomes s'.machine ∧ ∀ a, result = .ok a → Q s'.machine a := by
  have hreach := hc s.machine (.refl _) (Realm.encloses_whole.mpr hs.machine)
  unfold Registry.perform EStateM.run at h
  cases hrun : c s.machine with
  | ok a m₁ =>
    rw [hrun] at h hreach
    cases h
    exact ⟨⟨Realm.encloses_whole.mp hreach.2.1, hs.registered.later hreach.1⟩, hreach.1,
      fun b hb => by cases hb; exact hreach.2.2⟩
  | error x m₁ =>
    rw [hrun] at h hreach
    cases h
    exact ⟨⟨Realm.encloses_whole.mp hreach.2.1, hs.registered.later hreach.1⟩, hreach.1,
      fun b hb => by cases hb⟩

theorem Whole.register (hs : s.Whole) (declaration : Node) (name : Text) (source : Option Text) :
    (s.register declaration name source).2.Whole := by
  unfold Registry.register
  split
  · next v hv =>
    have hvalue := Realm.knows_whole.mpr (hs.registered v (Dict.mem_values_of_get? hv))
    exact (hs.perform (J := fun _ => False) (.defineGlobal name hvalue) rfl).1
  · split
    · exact hs
    · split
      · next heq => exact (hs.perform (J := fun _ => False) (.declaredValue declaration name) heq).1
      · next v s' heq =>
        obtain ⟨hs', -, hvalue⟩ := hs.perform (J := fun _ => False) (.declaredValue declaration name) heq
        have hv := hvalue v rfl
        cases hdefine : s'.perform (Run.defineGlobal name v) with
        | mk result s'' =>
          obtain ⟨hs'', hbecomes, -⟩ := hs'.perform (J := fun _ => False) (.defineGlobal name hv) hdefine
          have hregistered := Realm.knowsAll_whole.mpr hs''.registered
          exact ⟨hs''.machine,
            Realm.knowsAll_whole.mp (hregistered.put (hv.later hbecomes) declaration.id)⟩

theorem Whole.evaluate (hs : s.Whole) (n : Node) (source : Text) : (s.evaluate n source).2.Whole := by
  unfold Registry.evaluate
  split
  · exact hs
  split
  · exact hs
  have hmaintains : Realm.whole.Maintains (fun _ => False) s.machine Realm.whole.Knows
      (Run.evaluate n s.machine.globalChain) :=
    .evaluate (fun h => h.elim) (Realm.sees_whole s.machine.globalChain)
  split
  · next heq => exact (hs.perform hmaintains heq).1
  · next heq =>
    have hs' := (hs.perform hmaintains heq).1
    split <;> exact hs'

theorem lasts_whole : Dispatch.Lasts fun _ => Whole := by
  refine ⟨fun scopes n s hs => ?_, fun scopes n s hs => ?_⟩
  · rw [Dispatch.after_probe]
    exact hs.after (J := fun _ => False) (.evaluate (fun h => h.elim) (Realm.sees_whole scopes))
  · rw [Dispatch.after_probe]
    exact hs.after (J := fun _ => False)
      (.execute (.inl fun h => h.elim) (fun h => h.elim) (Realm.sees_whole scopes))

/-- Every sandbox of a run is whole. -/
theorem Reached.whole (h : Reached s) : s.Whole := by
  induction h with
  | opened gate maxSteps maxDepth => exact .onStore Machine.complete_bare gate maxSteps maxDepth
  | reopened gate maxSteps maxDepth _ ih => exact .onStore ih.machine.settled gate maxSteps maxDepth
  | edited trees _ ih =>
    exact ⟨⟨ih.machine.inherited, ih.machine.objects, ih.machine.frames⟩, ih.registered⟩
  | registered declaration name source _ ih => exact ih.register declaration name source
  | evaluated n source _ ih => exact ih.evaluate n source
  | tried loop readOutside maxDispatches _ ih =>
    have hscratch : ∀ s : Registry, s.Whole →
        ({ s with machine := s.machine.after Run.scratch } : Registry).Whole :=
      fun _ hs => hs.after (J := fun _ => False) .scratch
    exact lasts_whole.unflatten hscratch (fun _ _ hs => hs) loop readOutside maxDispatches _ ih

end Untangle.Sandbox.Registry
