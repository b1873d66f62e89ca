import Untangle.Proofs.Sandbox.WellScoped
import Untangle.Proofs.Tree.Code
import Untangle.Rule.Dispatch
import Untangle.Sandbox.Global

set_option autoImplicit false

/-!
# The sandboxes of a run

A run of the rules starts with a sandbox on some store and uses it in three ways: declarations are
registered, expressions are evaluated, and dispatch loops are tried out.  In all sandboxes that come up
so, the scopes of all functions exist.
-/

/-! ## Stores that a run leaves

When a run is over, the functions that it left get copies of their code.  Everything else in the store
stays as it is. -/

namespace Untangle.Sandbox

/-- A function gets a copy of its present code; other objects stay. -/
theorem Cell.settled_cases (trees : List Node) (c : Cell) :
    (∃ code scopes name, c.body = .closure code scopes name ∧
      c.settled trees = { c with body := .closure (code.present trees).unnumbered scopes name }) ∨
    (∀ code scopes name, c.body ≠ .closure code scopes name) ∧ c.settled trees = c := by
  unfold Cell.settled
  split
  · next code scopes name hbody => exact .inl ⟨code, scopes, name, hbody, rfl⟩
  · next hother => exact .inr ⟨hother, rfl⟩

namespace Machine

theorem cell_settled (m : Machine) (r : Ref) : m.settled.cell r = (m.cell r).settled m.trees := by
  unfold cell settled
  rw [Array.getD_eq_getD_getElem?, Array.getElem?_map, Array.getD_eq_getD_getElem?]
  cases m.heap[r]? <;> rfl

/-- The functions that are left have the scopes that they had, and copies of their code. -/
theorem closure_of_settled {m : Machine} {r : Ref} {code : Node} {scopes : ScopeChain} {name : Text}
    (h : (m.settled.cell r).body = .closure code scopes name) :
    ∃ before, (m.cell r).body = .closure before scopes name ∧
      code = (before.present m.trees).unnumbered := by
  rw [cell_settled] at h
  obtain ⟨before, _, _, hbody, heq⟩ | ⟨hother, heq⟩ := (m.cell r).settled_cases m.trees
  · rw [heq] at h
    cases h
    exact ⟨before, hbody, rfl⟩
  · rw [heq] at h
    exact absurd h (hother code scopes name)

end Machine

end Untangle.Sandbox

/-! ## The three uses of a sandbox -/

namespace Untangle.Dispatch

open Sandbox

variable {α β : Type}

/-- The sandbox that a trial leaves, whether it ends or stops. -/
def after (p : Probe α) (s : Registry) : Registry :=
  match p.run s with
  | .ok _ s' => s'
  | .error _ s' => s'

/-- A trial that keeps a property of sandboxes. -/
def Keeps (I : Registry → Prop) (p : Probe α) : Prop := ∀ s, I s → I (after p s)

theorem Keeps.pure {I : Registry → Prop} (a : α) : Keeps I (pure a : Probe α) := fun _ hs => hs

theorem Keeps.stop {I : Registry → Prop} (e : Stop) : Keeps I (throw e : Probe α) := fun _ hs => hs

theorem Keeps.check {I : Registry → Prop} (r : Except Stop α) : Keeps I (check r) := by
  cases r with
  | ok a => exact .pure a
  | error e => exact .stop e

theorem Keeps.bind {I : Registry → Prop} {p : Probe α} {f : α → Probe β} (hp : Keeps I p)
    (hf : ∀ a, Keeps I (f a)) : Keeps I (p >>= f) := by
  intro s hs
  have hs' := hp s hs
  unfold after at hs' ⊢
  show I (match EStateM.bind p f s with | .ok _ s' => s' | .error _ s' => s')
  unfold EStateM.bind
  unfold EStateM.run at hs'
  cases hr : p s with
  | ok a s' =>
    rw [hr] at hs'
    exact hf a s' hs'
  | error e s' =>
    rw [hr] at hs'
    exact hs'

theorem after_bind_of_ok {p : Probe α} {f : α → Probe β} {s s' : Registry} {a : α}
    (h : p s = .ok a s') : after (p >>= f) s = after (f a) s' := by
  unfold after EStateM.run
  rw [bind_of_ok h]

theorem probe_of_ok {c : Run α} {s : Registry} {a : α} {m : Machine}
    (h : c s.machine = .ok a m) : probe c s = .ok a { s with machine := m } := by
  have hperform : s.perform c = (.ok a, { s with machine := m }) := by
    unfold Registry.perform EStateM.run
    rw [h]
  have hmodify : (modifyGet fun s => s.perform c : Probe (Except Abrupt α)) s =
      .ok (.ok a) { s with machine := m } := by
    show EStateM.Result.ok (s.perform c).1 (s.perform c).2 = _
    rw [hperform]
  unfold probe
  rw [bind_of_ok hmodify]
  rfl

theorem probe_of_error {c : Run α} {s : Registry} {e : Abrupt} {m : Machine}
    (h : c s.machine = .error e m) : ∃ stop, probe c s = .error stop { s with machine := m } := by
  have hperform : s.perform c = (.error e, { s with machine := m }) := by
    unfold Registry.perform EStateM.run
    rw [h]
  have hmodify : (modifyGet fun s => s.perform c : Probe (Except Abrupt α)) s =
      .ok (.error e) { s with machine := m } := by
    show EStateM.Result.ok (s.perform c).1 (s.perform c).2 = _
    rw [hperform]
  unfold probe
  rw [bind_of_ok hmodify]
  cases e <;> exact ⟨_, rfl⟩

/-- A trial leaves the machine as the code that it runs does, and nothing else changes. -/
theorem after_probe (c : Run α) (s : Registry) :
    after (probe c) s = { s with machine := s.machine.after c } := by
  unfold after Machine.after EStateM.run
  cases hc : c s.machine with
  | ok a m => rw [probe_of_ok hc]
  | error e m =>
    obtain ⟨stop, hstop⟩ := probe_of_error hc
    rw [hstop]

/-- The scopes of all functions, and those of a chain, exist. -/
structure Ready (scopes : ScopeChain) (s : Registry) : Prop where
  wellScoped : s.machine.WellScoped
  exist : ∀ f ∈ scopes, f < s.machine.frames.size
  nonempty : scopes ≠ []

theorem Ready.grows {scopes : ScopeChain} {s s' : Registry} (hs : Ready scopes s)
    (h : s.machine.Grows s'.machine) : Ready scopes s' :=
  ⟨h.wellScoped, h.exist hs.exist, hs.nonempty⟩

theorem keeps_evaluate {scopes : ScopeChain} (n : Node) :
    Keeps (Ready scopes) (probe (Run.evaluate n scopes)) := by
  intro s hs
  refine hs.grows ?_
  rw [after_probe]
  exact hs.wellScoped.evaluate hs.exist n

theorem keeps_execute {scopes : ScopeChain} (n : Node) :
    Keeps (Ready scopes) (probe (Run.execute n scopes)) := by
  intro s hs
  refine hs.grows ?_
  rw [after_probe]
  exact hs.wellScoped.execute hs.exist hs.nonempty n

/-- A property of sandboxes that evaluations and executions in some scopes keep. -/
structure Lasts (I : ScopeChain → Registry → Prop) : Prop where
  evaluate : ∀ scopes n, Keeps (I scopes) (probe (Run.evaluate n scopes))
  execute : ∀ scopes n, Keeps (I scopes) (probe (Run.execute n scopes))

namespace Lasts

variable {I : ScopeChain → Registry → Prop} {scopes : ScopeChain} (h : Lasts I)

include h

theorem runUpdates (ns : List Node) : Keeps (I scopes) (runUpdates scopes ns) := by
  induction ns with
  | nil => exact .pure ()
  | cons n ns ih => exact (h.execute scopes n).bind fun _ => ih

theorem testFails (loop : Loop) : Keeps (I scopes) (testFails loop scopes) := by
  unfold Dispatch.testFails
  split
  · exact .pure false
  · exact (h.evaluate scopes _).bind fun _ => .pure _

omit h in
theorem planOf (loop : Loop) (names : List Text) (plans : Dict Nat CasePlan) (index : Nat) :
    Keeps (I scopes) (planOf loop names plans index) := by
  unfold Dispatch.planOf
  split
  · exact .pure _
  · exact Keeps.bind (p := get) (fun _ hs => hs) fun _ => .check _

theorem runInit (init : Node) : Keeps (I scopes) (runInit init scopes) := by
  unfold Dispatch.runInit
  split
  · exact h.execute scopes init
  · exact (h.evaluate scopes init).bind fun _ => .pure ()

theorem nextCase (loop : Loop) (values : List Value) (started : Bool) :
    Keeps (I scopes) (nextCase loop values scopes started) := by
  refine (h.testFails loop).bind fun fails => ?_
  split
  · exact .pure none
  refine (h.evaluate scopes _).bind fun value => ?_
  split
  · exact .pure none
  split
  · exact .pure _
  · split
    · exact .pure none
    · exact .stop _

theorem runUpdate (loop : Loop) : Keeps (I scopes) (runUpdate loop scopes) := by
  unfold Dispatch.runUpdate
  split
  · exact .pure ()
  · exact (h.evaluate scopes _).bind fun _ => .pure ()

theorem run (loop : Loop) (names : List Text) (values : List Value) (fuel : Nat)
    (started : Bool) (plans : Dict Nat CasePlan) (output : List Node) :
    Keeps (I scopes) (run loop names values scopes fuel started plans output) := by
  induction fuel generalizing started plans output with
  | zero =>
    refine (h.nextCase loop values started).bind fun next => ?_
    cases next with
    | none => exact .pure _
    | some index => exact .stop _
  | succ fuel ih =>
    refine (h.nextCase loop values started).bind fun next => ?_
    cases next with
    | none => exact .pure _
    | some index =>
      refine (planOf loop names plans index).bind fun plan =>
        (h.runUpdates plan.updates).bind fun _ => ?_
      split
      · exact .pure _
      · exact (h.runUpdate loop).bind fun _ => ih _ _ _

/-- Trying a loop out keeps a property of sandboxes, if that is one in the scopes of the trial as well. -/
theorem unflatten {J : Registry → Prop}
    (hfirst : ∀ s, J s → I (s.machine.frames.size :: s.machine.globalChain)
      { s with machine := s.machine.after Run.scratch })
    (hlast : ∀ scopes s, I scopes s → J s) (loop : Loop) (readOutside : List Text → Bool)
    (maxDispatches : Nat) : Keeps J (unflatten loop readOutside maxDispatches) := by
  unfold Dispatch.unflatten
  simp only
  split
  · exact .stop _
  split
  · exact .stop _
  refine Keeps.bind (p := get) (fun _ hs => hs) fun s₀ => ?_
  refine (Keeps.check _).bind fun _ => (Keeps.check _).bind fun values => ?_
  intro s hs
  have hscratch : Run.scratch s.machine = .ok (s.machine.frames.size :: s.machine.globalChain)
      (s.machine.after Run.scratch) := rfl
  rw [after_bind_of_ok (probe_of_ok hscratch)]
  exact hlast _ _ ((h.runInit loop.init).bind
    (fun _ => h.run loop (stateNames loop.init) values maxDispatches false .empty []) _ (hfirst s hs))

end Lasts

theorem lasts_ready : Lasts Ready := ⟨fun _ n => keeps_evaluate n, fun _ n => keeps_execute n⟩

/-- Trying a loop out keeps the scopes of all functions. -/
theorem keeps_unflatten (loop : Loop) (readOutside : List Text → Bool) (maxDispatches : Nat) :
    Keeps (fun s => s.machine.WellScoped) (unflatten loop readOutside maxDispatches) := by
  refine lasts_ready.unflatten (fun s hs => ?_) (fun _ _ hs => hs.wellScoped) loop readOutside
    maxDispatches
  -- From here on the new scopes exist as well.
  obtain ⟨hgrows, hexist⟩ := hs.scratch
  exact ⟨hgrows.wellScoped, hexist, List.cons_ne_nil _ _⟩

end Untangle.Dispatch

namespace Untangle.Sandbox.Registry

open Pairing

/-- A sandbox that a run of the rules may come to. -/
inductive Reached : Registry → Prop
  | opened (gate : Gate) (maxSteps maxDepth : Nat) : Reached (onStore gate .bare maxSteps maxDepth)
  | reopened {s : Registry} (gate : Gate) (maxSteps maxDepth : Nat) :
      Reached s → Reached (onStore gate s.machine.settled maxSteps maxDepth)
  | edited {s : Registry} (trees : List Node) :
      Reached s → Reached { s with machine := { s.machine with trees := trees } }
  | registered {s : Registry} (declaration : Node) (name : Text) (source : Option Text) :
      Reached s → Reached (s.register declaration name source).2
  | evaluated {s : Registry} (n : Node) (source : Text) : Reached s → Reached (s.evaluate n source).2
  | tried {s : Registry} (loop : Dispatch.Loop) (readOutside : List Text → Bool)
      (maxDispatches : Nat) :
      Reached s → Reached (Dispatch.after (Dispatch.unflatten loop readOutside maxDispatches) s)

theorem machine_onStore (gate : Gate) (m : Machine) (maxSteps maxDepth : Nat) :
    (onStore gate m maxSteps maxDepth).machine = m.restart maxSteps maxDepth := by
  dsimp only [onStore]

theorem machine_perform {α : Type} (s : Registry) (c : Run α) :
    (s.perform c).2.machine = s.machine.after c := by
  unfold perform Machine.after
  cases c.run s.machine <;> rfl

theorem of_perform_error {α : Type} {s s' : Registry} {c : Run α} {x : Abrupt}
    (h : s.perform c = (.error x, s')) : ∃ m, c s.machine = .error x m := by
  unfold perform EStateM.run at h
  cases hrun : c s.machine with
  | ok a m =>
    rw [hrun] at h
    cases h
  | error y m =>
    rw [hrun] at h
    cases h
    exact ⟨m, rfl⟩

/-- Code that is refused is not evaluated; the machine is left as the evaluation leaves it, and what
escapes is a stop of the evaluation that the sandbox does not answer for. -/
theorem evaluate_cases (s : Registry) (n : Node) (source : Text) :
    s.evaluate n source = (.ok none, s) ∨
      (s.evaluate n source).2.machine = s.machine.after (Run.evaluate n s.machine.globalChain) ∧
        ∀ x, (s.evaluate n source).1 = .error x → isContained x = false ∧
          ∃ m, Run.evaluate n s.machine.globalChain s.machine = .error x m := by
  have hmachine := machine_perform s (Run.evaluate n s.machine.globalChain)
  unfold evaluate
  split
  · exact .inl rfl
  · split
    · exact .inl rfl
    · right
      split
      · next heq =>
        rw [heq] at hmachine
        exact ⟨hmachine, fun x hx => by cases hx⟩
      · next y s' heq =>
        rw [heq] at hmachine
        split
        · exact ⟨hmachine, fun x hx => by cases hx⟩
        · next hcontained =>
          refine ⟨hmachine, fun x hx => ?_⟩
          cases hx
          exact ⟨by simpa using hcontained, of_perform_error heq⟩

theorem wellScoped_declaredValue {m : Machine} (hm : m.WellScoped) (declaration : Node)
    (name : Text) : (m.after (declaredValue declaration name)).WellScoped := by
  have hglobal : ∀ f ∈ m.globalChain, f < m.frames.size := by
    intro f hf
    cases List.mem_singleton.mp hf
    exact hm.global
  unfold declaredValue
  split
  · exact hm
  split
  · exact (hm.after (.makeFunction (chains_self hglobal) declaration)).wellScoped
  · exact (hm.evaluate hglobal _).wellScoped
  · exact hm

theorem wellScoped_register {s : Registry} (hs : s.machine.WellScoped) (declaration : Node)
    (name : Text) (source : Option Text) :
    (s.register declaration name source).2.machine.WellScoped := by
  have hdefine : ∀ {m : Machine} (v : Value), m.WellScoped →
      (m.after (Run.defineGlobal name v)).WellScoped :=
    fun v hm => (hm.defineGlobal name v).wellScoped
  unfold register
  split
  · simp only [machine_perform]
    exact hdefine _ hs
  · split
    · exact hs
    · have hvalue := wellScoped_declaredValue hs declaration name
      rw [← machine_perform] at hvalue
      split
      · next heq =>
        rw [heq] at hvalue
        exact hvalue
      · next heq =>
        rw [heq] at hvalue
        simp only [machine_perform]
        exact hdefine _ hvalue

theorem wellScoped_evaluate {s : Registry} (hs : s.machine.WellScoped) (n : Node) (source : Text) :
    (s.evaluate n source).2.machine.WellScoped := by
  have hglobal : ∀ f ∈ s.machine.globalChain, f < s.machine.frames.size := by
    intro f hf
    cases List.mem_singleton.mp hf
    exact hs.global
  obtain heq | ⟨hmachine, -⟩ := evaluate_cases s n source
  · rw [heq]
    exact hs
  · rw [hmachine]
    exact (hs.evaluate hglobal n).wellScoped

/-- A store with nothing else in it has the functions that values inherit. -/
theorem cell_bare (r : Ref) :
    Machine.bare.cell r = default ∨ ∃ fn, Machine.bare.cell r = ⟨.native fn, .empty⟩ := by
  unfold Machine.cell Machine.bare
  rw [Array.getD_eq_getD_getElem?, List.getElem?_toArray, List.getElem?_map]
  cases Native.inherited[r]? with
  | none => exact .inl rfl
  | some fn => exact .inr ⟨fn, rfl⟩

/-- The functions that values inherit have no scopes. -/
theorem scopesExist_bare : Machine.bare.ScopesExist := by
  intro r code c name hb
  obtain hcell | ⟨fn, hcell⟩ := cell_bare r
  · rw [hcell] at hb
    cases hb
  · rw [hcell] at hb
    cases hb

theorem scopesExist_settled {m : Machine} (h : m.ScopesExist) : m.settled.ScopesExist := by
  intro r code scopes name hbody
  obtain ⟨before, hbefore, -⟩ := Machine.closure_of_settled hbody
  exact h r before scopes name hbefore

/-- In every sandbox of a run the scopes of all functions exist. -/
theorem Reached.wellScoped {s : Registry} (h : Reached s) : s.machine.WellScoped := by
  induction h with
  | opened gate maxSteps maxDepth =>
    rw [machine_onStore]
    exact Machine.wellScoped_restart scopesExist_bare maxSteps maxDepth
  | reopened gate maxSteps maxDepth _ ih =>
    rw [machine_onStore]
    exact Machine.wellScoped_restart (scopesExist_settled ih.closures) maxSteps maxDepth
  | edited trees _ ih => exact ⟨ih.global, ih.closures⟩
  | registered declaration name source _ ih => exact wellScoped_register ih declaration name source
  | evaluated n source _ ih => exact wellScoped_evaluate ih n source
  | tried loop readOutside maxDispatches _ ih =>
    exact Dispatch.keeps_unflatten loop readOutside maxDispatches _ ih

end Untangle.Sandbox.Registry
