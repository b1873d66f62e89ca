import Mathlib.Data.List.Dedup
import Untangle.Proofs.Gating.Registration
import Untangle.Proofs.Sandbox.Globals
import Untangle.Proofs.Sandbox.StoreReached
import Untangle.Rule.Evaluation

set_option autoImplicit false

/-!
# One entry for each declaration

Declarations of functions are handed to a sandbox in any order, again and again and under shared names, and
between that it evaluates code and the program changes.  A declaration has one entry at most, with a function
that never changes.  A name stands for the function of its declaration right after this was taken up, and a
declaration that is not taken up changes no variable and no entry.

The main theorem is `registrations`, over all sequences of registrations of functions, evaluations and
edits.  Declarations of variables are not part of it.
-/

namespace Untangle

namespace Sandbox

open Rule.Evaluation (declaredFunction?)

/-! ## Functions -/

/-- A value is a function of some code in some scopes. -/
def Machine.IsFunction (m : Machine) (v : Value) (code : Node) (scopes : ScopeChain) (name : Text) : Prop :=
  ∃ r, v = .object r ∧ (m.cell r).body = .closure code scopes name

/-- The variables of a machine are those of another one. -/
structure Machine.SameVariables (m m' : Machine) : Prop where
  frames : m'.frames = m.frames
  global : m'.global = m.global

/-- A computation has changed no variable; if it has ended, it has given a function. -/
def Made (m : Machine) : EStateM.Result Abrupt Machine Value → Prop
  | .ok v m' => m.SameVariables m' ∧ ∃ code scopes name, m'.IsFunction v code scopes name
  | .error _ m' => m.SameVariables m'

/-- A computation changes no variable; if it ends, it gives a function. -/
def MakesFunction (c : Run Value) : Prop := ∀ m, Made m (c m)

namespace Machine

variable {m m₁ m₂ : Machine}

theorem SameVariables.refl (m : Machine) : m.SameVariables m := ⟨rfl, rfl⟩

theorem SameVariables.trans (h : m.SameVariables m₁) (h' : m₁.SameVariables m₂) : m.SameVariables m₂ :=
  ⟨h'.frames.trans h.frames, h'.global.trans h.global⟩

theorem SameVariables.globalVariable? (h : m.SameVariables m₁) (x : Text) :
    m₁.globalVariable? x = m.globalVariable? x := by
  unfold Machine.globalVariable? frame
  rw [h.frames, h.global]

theorem IsFunction.later {v : Value} {code : Node} {scopes : ScopeChain} {name : Text}
    (hv : m.IsFunction v code scopes name) (h : m.Becomes m₁) : m₁.IsFunction v code scopes name := by
  obtain ⟨r, rfl, hbody⟩ := hv
  exact ⟨r, rfl, h.closure hbody⟩

end Machine

theorem Made.since {m m₁ : Machine} (h : m.SameVariables m₁) {r : EStateM.Result Abrupt Machine Value}
    (hr : Made m₁ r) : Made m r := by
  cases r with
  | ok v m' => exact ⟨h.trans hr.1, hr.2⟩
  | error e m' => exact h.trans hr

section

variable {code : Node} {scopes : ScopeChain} {c : Run Value}

theorem makesFunction_fail (f : Failure) : MakesFunction (Run.fail f) := fun m => .refl m

theorem makesFunction_makeFunction : MakesFunction (Run.makeFunction code scopes) := by
  intro m
  generalize hname : ((code.child? .id).bind Node.name?).getD [] = name
  have hrun : Run.makeFunction code scopes m =
      .ok (.object m.heap.size)
        { m with heap := m.heap.push ⟨.closure (code.inRole .top) scopes name, .empty⟩ } := by
    rw [← hname]
    rfl
  rw [hrun]
  refine ⟨⟨rfl, rfl⟩, code.inRole .top, scopes, name, m.heap.size, rfl, ?_⟩
  rw [Pairing.cell_push, if_pos rfl]

theorem makesFunction_functionValue (flags : FunctionFlags) :
    MakesFunction (Run.functionValue code flags scopes) := by
  unfold Run.functionValue
  split
  · exact makesFunction_fail _
  · exact makesFunction_makeFunction

theorem MakesFunction.after_tick (hc : MakesFunction c) : MakesFunction (Run.tick >>= fun _ => c) := by
  intro m
  have htick := tick_eq m
  split at htick
  · rw [bind_of_error htick]
    exact ⟨rfl, rfl⟩
  · rw [bind_of_ok htick]
    have hsame : m.SameVariables { m with steps := m.steps + 1 } := ⟨rfl, rfl⟩
    exact (hc _).since hsame

theorem MakesFunction.fresh (hc : MakesFunction c) : MakesFunction (Run.fresh c) := by
  intro m
  have hsame : m.SameVariables m.renewed := ⟨rfl, rfl⟩
  have hmade := (hc m.renewed).since hsame
  obtain ⟨v, m₁, hrun, hfresh⟩ | ⟨e, e', m₁, hrun, hfresh⟩ := Machine.fresh_cases m c
  · rw [hrun] at hmade
    rwa [hfresh]
  · rw [hrun] at hmade
    rwa [hfresh]

/-- A function as an expression gives that function, unless it stops. -/
theorem makesFunction_evaluate {n : Node} {flags : FunctionFlags}
    (hn : n.form = .functionExpression flags ∨ n.form = .arrowFunction flags) :
    MakesFunction (Run.evaluate n scopes) := by
  have hexpression : MakesFunction (Run.evaluateExpression (evaluator (nestingLimit - 1)) n scopes) := by
    unfold Run.evaluateExpression
    obtain hform | hform := hn
    · simp only [hform]
      exact (makesFunction_functionValue flags).after_tick
    · simp only [hform]
      exact (makesFunction_functionValue flags).after_tick
  exact hexpression.fresh

theorem declaredFunction?_cases {declaration : Node}
    (hfunction : (declaredFunction? declaration).isSome = true) :
    (∃ flags, declaration.form = .functionDeclaration flags) ∨
      declaration.form = .variableDeclarator ∧ ∃ init flags, declaration.child? .init = some init ∧
        (init.form = .functionExpression flags ∨ init.form = .arrowFunction flags) := by
  unfold declaredFunction? at hfunction
  split at hfunction
  · next flags hform => exact .inl ⟨flags, hform⟩
  · next hform =>
    obtain ⟨init, hinit⟩ := Option.isSome_iff_exists.mp hfunction
    obtain ⟨hinit, hkind⟩ := Option.filter_eq_some_iff.mp hinit
    right
    split at hkind
    · next flags hfunction => exact ⟨hform, init, flags, hinit, .inl hfunction⟩
    · next flags hfunction => exact ⟨hform, init, flags, hinit, .inr hfunction⟩
    · cases hkind
  · cases hfunction

/-- The value of a declaration that declares a function is one. -/
theorem makesFunction_declaredValue {declaration : Node}
    (hfunction : (declaredFunction? declaration).isSome = true) (name : Text) :
    MakesFunction (Registry.declaredValue declaration name) := by
  unfold Registry.declaredValue
  split
  · exact makesFunction_fail _
  · obtain ⟨flags, hform⟩ | ⟨hform, init, flags, hinit, hkind⟩ := declaredFunction?_cases hfunction
    · simp only [hform]
      exact fun m => makesFunction_makeFunction m
    · simp only [hform, hinit]
      exact fun m => makesFunction_evaluate hkind m

end

/-- The value that is given to a global variable is the value that it has. -/
theorem Machine.globalVariable?_defineGlobal {m : Machine} (hm : m.global < m.frames.size) (name : Text)
    (v : Value) : (m.after (Run.defineGlobal name v)).globalVariable? name = some v := by
  have hframe : (m.after (Run.defineGlobal name v)).frame m.global =
      Pairing.putVariable name v (m.frame m.global) := Pairing.frame_declared_self m hm name v
  show ((m.after (Run.defineGlobal name v)).frame m.global).bindings.get? name = some v
  rw [hframe]
  exact Dict.get?_put_self _ _ _

namespace Registry

/-! ## One registration -/

/-- A declaration that is registered takes the name again.  Any other one is refused, stops, or is entered
with its value. -/
theorem register_cases (s : Registry) (declaration : Node) (name : Text) (source : Option Text) :
    (∃ v, s.registered.get? declaration.id = some v ∧
      s.register declaration name source = (.ok true, (s.perform (Run.defineGlobal name v)).2)) ∨
    s.registered.get? declaration.id = none ∧
      (s.register declaration name source = (.ok false, s) ∨
      (∃ e s', s.perform (declaredValue declaration name) = (.error e, s') ∧
        s.register declaration name source = (.error e, s')) ∨
      ∃ v s', s.perform (declaredValue declaration name) = (.ok v, s') ∧
        s.register declaration name source =
          (.ok true, { (s'.perform (Run.defineGlobal name v)).2 with
            registered := (s'.perform (Run.defineGlobal name v)).2.registered.put declaration.id v })) := by
  unfold register
  split
  · next v hv => exact .inl ⟨v, hv, rfl⟩
  · next hnone =>
    refine .inr ⟨hnone, ?_⟩
    split
    · exact .inl rfl
    · split
      · next e s' heq => exact .inr (.inl ⟨e, s', heq, rfl⟩)
      · next v s' heq => exact .inr (.inr ⟨v, s', heq, rfl⟩)

/-- A declaration has an entry with a value: it had one before, or it gets its first one. -/
inductive Enters (s s' : Registry) (id : NodeId) (v : Value) : Prop
  | again : s.registered.get? id = some v → s'.registered = s.registered → Enters s s' id v
  | first : s.registered.get? id = none → s'.registered = s.registered.put id v → Enters s s' id v

variable {s s' : Registry} {id : NodeId} {v : Value}

theorem Enters.get? (h : Enters s s' id v) : s'.registered.get? id = some v := by
  cases h with
  | again hget heq => rwa [heq]
  | first _ heq => rw [heq, Dict.get?_put_self]

/-- What is entered stays. -/
theorem Enters.keeps (h : Enters s s' id v) {j : NodeId} {w : Value} (hj : s.registered.get? j = some w) :
    s'.registered.get? j = some w := by
  cases h with
  | again _ heq => rwa [heq]
  | first hnone heq =>
    have hne : j ≠ id := by
      rintro rfl
      cases hnone.symm.trans hj
    rwa [heq, Dict.get?_put_of_ne _ hne]

theorem Enters.keys (h : Enters s s' id v) (hnodup : s.registered.keys.Nodup) :
    s'.registered.keys.Nodup ∧ ∀ j, j ∈ s'.registered.keys ↔ j = id ∨ j ∈ s.registered.keys := by
  cases h with
  | again hget heq =>
    rw [heq]
    refine ⟨hnodup, fun j => (or_iff_right_of_imp ?_).symm⟩
    rintro rfl
    rw [Dict.mem_keys_iff, hget]
    rfl
  | first hnone heq =>
    rw [heq, Dict.keys_put_of_get?_eq_none hnone]
    have hnew : id ∉ s.registered.keys := by
      rw [Dict.mem_keys_iff, hnone]
      nofun
    refine ⟨List.nodup_append.mpr ⟨hnodup, List.nodup_singleton id, ?_⟩, fun j => ?_⟩
    · rintro j hj k hk rfl
      cases List.mem_singleton.mp hk
      exact hnew hj
    · rw [List.mem_append, List.mem_singleton, or_comm]

theorem becomes_register (hs : s.Whole) (declaration : Node) (name : Text) (source : Option Text) :
    s.machine.Becomes (s.register declaration name source).2.machine := by
  obtain ⟨v, hv, heq⟩ | ⟨-, heq | ⟨e, s', hrun, heq⟩ | ⟨v, s', hrun, heq⟩⟩ :=
    register_cases s declaration name source
  · rw [heq]
    have hvalue := Realm.knows_whole.mpr (hs.registered v (Dict.mem_values_of_get? hv))
    exact (hs.perform (J := fun _ => False) (.defineGlobal name hvalue) rfl).2.1
  · rw [heq]
    exact .refl _
  · rw [heq]
    exact (hs.perform (J := fun _ => False) (.declaredValue declaration name) hrun).2.1
  · rw [heq]
    obtain ⟨hs', hbecomes, hvalue⟩ := hs.perform (J := fun _ => False) (.declaredValue declaration name) hrun
    exact hbecomes.trans (hs'.perform (J := fun _ => False) (.defineGlobal name (hvalue v rfl)) rfl).2.1

theorem becomes_evaluate (hs : s.Whole) (n : Node) (source : Text) :
    s.machine.Becomes (s.evaluate n source).2.machine := by
  obtain heq | ⟨hmachine, -⟩ := evaluate_cases s n source
  · rw [heq]
    exact .refl _
  · rw [hmachine]
    have hmaintains : Realm.whole.Maintains (fun _ => False) s.machine Realm.whole.Knows
        (Run.evaluate n s.machine.globalChain) :=
      .evaluate (fun h => h.elim) (Realm.sees_whole s.machine.globalChain)
    exact (hmaintains.after hs.machine).1

/-- What a registration comes to for the declaration of a function.  Either it succeeds: the declaration has
an entry, its name stands for the value of that, and the value is a function if the entry is new.  Or it
fails, and entries and variables are what they were. -/
theorem register_function (hs : s.machine.WellScoped) {declaration : Node}
    (hfunction : (declaredFunction? declaration).isSome = true) (name : Text) (source : Option Text) :
    let after := s.register declaration name source
    (after.1 = .ok true ∧ ∃ v, Enters s after.2 declaration.id v ∧
      after.2.machine.globalVariable? name = some v ∧
      (s.registered.get? declaration.id = none →
        ∃ code scopes known, after.2.machine.IsFunction v code scopes known)) ∨
    after.1 ≠ .ok true ∧ after.2.registered = s.registered ∧ s.machine.SameVariables after.2.machine := by
  have hmade := makesFunction_declaredValue hfunction name s.machine
  have hperform : ∀ {result s'}, s.perform (declaredValue declaration name) = (result, s') →
      s'.registered = s.registered ∧ s.machine.SameVariables s'.machine ∧ ∀ v, result = .ok v →
        ∃ code scopes known, s'.machine.IsFunction v code scopes known := by
    intro result s' hrun
    unfold perform EStateM.run at hrun
    cases hvalue : declaredValue declaration name s.machine with
    | ok v m =>
      rw [hvalue] at hrun hmade
      cases hrun
      exact ⟨rfl, hmade.1, fun w hw => by cases hw; exact hmade.2⟩
    | error e m =>
      rw [hvalue] at hrun hmade
      cases hrun
      exact ⟨rfl, hmade, fun w hw => by cases hw⟩
  obtain ⟨v, hv, heq⟩ | ⟨hnone, heq | ⟨e, s', hrun, heq⟩ | ⟨v, s', hrun, heq⟩⟩ :=
    register_cases s declaration name source
  · rw [heq]
    refine .inl ⟨rfl, v, .again hv (same_perform s _).registered, ?_, fun hnone => ?_⟩
    · rw [machine_perform]
      exact Machine.globalVariable?_defineGlobal hs.global name v
    · cases hnone.symm.trans hv
  · rw [heq]
    exact .inr ⟨nofun, rfl, .refl _⟩
  · rw [heq]
    obtain ⟨hregistered, hsame, -⟩ := hperform hrun
    exact .inr ⟨nofun, hregistered, hsame⟩
  · rw [heq]
    obtain ⟨hregistered, hsame, hvalue⟩ := hperform hrun
    have hdefine := same_perform s' (Run.defineGlobal name v)
    have hglobal : s'.machine.global < s'.machine.frames.size := by
      rw [hsame.global, hsame.frames]
      exact hs.global
    refine .inl ⟨rfl, v, .first hnone ?_, ?_, fun _ => ?_⟩
    · show (s'.perform _).2.registered.put _ _ = _
      rw [hdefine.registered, hregistered]
    · show (s'.perform _).2.machine.globalVariable? name = _
      rw [machine_perform]
      exact Machine.globalVariable?_defineGlobal hglobal name v
    · obtain ⟨code, scopes, known, r, hr, hbody⟩ := hvalue v rfl
      refine ⟨code, scopes, known, r, hr, ?_⟩
      show ((s'.perform _).2.machine.cell r).body = _
      rw [machine_perform]
      exact hbody

/-! ## Calls one after the other -/

/-- What is done with a sandbox: a declaration is handed to it, it evaluates an expression, or the program
around it is changed. -/
inductive Call where
  | register (declaration : Node) (name : Text) (source : Option Text)
  | evaluate (n : Node) (source : Text)
  | edit (trees : List Node)

/-- Only declarations of functions are handed over. -/
def Call.OfFunction : Call → Prop
  | .register declaration _ _ => (declaredFunction? declaration).isSome = true
  | .evaluate _ _ | .edit _ => True

/-- The sandbox after a call, whether that ends or stops. -/
def afterCall (s : Registry) : Call → Registry
  | .register declaration name source => (s.register declaration name source).2
  | .evaluate n source => (s.evaluate n source).2
  | .edit trees => { s with machine := { s.machine with trees := trees } }

/-- The sandbox after calls one after the other. -/
def afterCalls (s : Registry) (calls : List Call) : Registry := calls.foldl afterCall s

/-- The declaration that a call registers with success. -/
def taken? (s : Registry) : Call → Option NodeId
  | .register declaration name source =>
    match (s.register declaration name source).1 with
    | .ok true => some declaration.id
    | _ => none
  | .evaluate _ _ | .edit _ => none

/-- The declarations that calls register with success, one for each such call. -/
def taken (s : Registry) : List Call → List NodeId
  | [] => []
  | c :: calls => (s.taken? c).toList ++ (s.afterCall c).taken calls

/-- Every declaration has one entry at most, and its value is a function. -/
structure Orderly (s : Registry) : Prop where
  reached : Reached s
  nodup : s.registered.keys.Nodup
  functions : ∀ id v, s.registered.get? id = some v →
    ∃ code scopes name, s.machine.IsFunction v code scopes name

/-- Entries and the functions in them are what they were. -/
structure Lasting (s s' : Registry) : Prop where
  entries : ∀ id v, s.registered.get? id = some v → s'.registered.get? id = some v
  functions : ∀ v code scopes name, s.machine.IsFunction v code scopes name →
    s'.machine.IsFunction v code scopes name

theorem Lasting.refl (s : Registry) : Lasting s s := ⟨fun _ _ h => h, fun _ _ _ _ h => h⟩

theorem Lasting.trans {s'' : Registry} (h : Lasting s s') (h' : Lasting s' s'') : Lasting s s'' :=
  ⟨fun id v hv => h'.entries id v (h.entries id v hv),
    fun v code scopes name hv => h'.functions v code scopes name (h.functions v code scopes name hv)⟩

/-- What is no registration with success leaves the entries alone. -/
theorem Orderly.of_registered_eq (hs : Orderly s) (hreached : Reached s')
    (hregistered : s'.registered = s.registered)
    (hfunctions : ∀ v code scopes name, s.machine.IsFunction v code scopes name →
      s'.machine.IsFunction v code scopes name) : Orderly s' ∧ Lasting s s' := by
  refine ⟨⟨hreached, by rw [hregistered]; exact hs.nodup, fun id v hv => ?_⟩,
    fun id v hv => by rwa [hregistered], hfunctions⟩
  rw [hregistered] at hv
  obtain ⟨code, scopes, name, hfunction⟩ := hs.functions id v hv
  exact ⟨code, scopes, name, hfunctions v code scopes name hfunction⟩

/-- A registration with success enters its declaration and leaves the other entries alone. -/
theorem Orderly.enters (hs : Orderly s) (hreached : Reached s') (henters : Enters s s' id v)
    (hvalue : s.registered.get? id = none → ∃ code scopes name, s'.machine.IsFunction v code scopes name)
    (hfunctions : ∀ v code scopes name, s.machine.IsFunction v code scopes name →
      s'.machine.IsFunction v code scopes name) : Orderly s' ∧ Lasting s s' := by
  have hkept : ∀ j w, s.registered.get? j = some w →
      ∃ code scopes name, s'.machine.IsFunction w code scopes name := by
    intro j w hw
    obtain ⟨code, scopes, name, hfunction⟩ := hs.functions j w hw
    exact ⟨code, scopes, name, hfunctions w code scopes name hfunction⟩
  refine ⟨⟨hreached, (henters.keys hs.nodup).1, fun j w hw => ?_⟩, fun j w hw => henters.keeps hw,
    hfunctions⟩
  cases henters with
  | again _ heq => exact hkept j w (by rwa [heq] at hw)
  | first hnone heq =>
    by_cases hj : j = id
    · subst hj
      rw [heq, Dict.get?_put_self] at hw
      cases hw
      exact hvalue hnone
    · rw [heq, Dict.get?_put_of_ne _ hj] at hw
      exact hkept j w hw

/-- One call keeps the sandbox orderly and its entries as they are, and enters what it registers. -/
theorem orderly_afterCall (hs : Orderly s) {c : Call} (hc : c.OfFunction) :
    Orderly (s.afterCall c) ∧ Lasting s (s.afterCall c) ∧
      ∀ id, id ∈ (s.afterCall c).registered.keys ↔ id ∈ s.taken? c ∨ id ∈ s.registered.keys := by
  cases c with
  | register declaration name source =>
    have hbecomes := becomes_register hs.reached.whole declaration name source
    have hreached := Reached.registered declaration name source hs.reached
    have hfunctions : ∀ v code scopes name', s.machine.IsFunction v code scopes name' →
        (s.register declaration name source).2.machine.IsFunction v code scopes name' :=
      fun v code scopes name' hv => hv.later hbecomes
    obtain ⟨hanswer, v, henters, -, hvalue⟩ | ⟨hanswer, hregistered, -⟩ :=
      register_function hs.reached.wellScoped hc name source
    · obtain ⟨horderly, hlasting⟩ := hs.enters hreached henters hvalue hfunctions
      refine ⟨horderly, hlasting, fun id => ?_⟩
      have htaken : s.taken? (.register declaration name source) = some declaration.id := by
        simp only [taken?, hanswer]
      rw [htaken, Option.mem_some_iff, eq_comm]
      exact (henters.keys hs.nodup).2 id
    · obtain ⟨horderly, hlasting⟩ := hs.of_registered_eq hreached hregistered hfunctions
      refine ⟨horderly, hlasting, fun id => ?_⟩
      have htaken : s.taken? (.register declaration name source) = none := by
        simp only [taken?]
      show id ∈ (s.register declaration name source).2.registered.keys ↔ _
      rw [htaken, hregistered]
      exact (or_iff_right nofun).symm
  | evaluate n source =>
    have hbecomes := becomes_evaluate hs.reached.whole n source
    have hregistered := (same_evaluate s n source).registered
    obtain ⟨horderly, hlasting⟩ := hs.of_registered_eq (.evaluated n source hs.reached) hregistered
      fun v code scopes name hv => hv.later hbecomes
    refine ⟨horderly, hlasting, fun id => ?_⟩
    show id ∈ (s.evaluate n source).2.registered.keys ↔ _
    rw [hregistered]
    exact (or_iff_right nofun).symm
  | edit trees =>
    obtain ⟨horderly, hlasting⟩ := hs.of_registered_eq (.edited trees hs.reached) rfl
      fun v code scopes name hv => hv
    exact ⟨horderly, hlasting, fun id => (or_iff_right nofun).symm⟩

/-- Calls keep the sandbox orderly and its entries as they are, and enter what they register. -/
theorem orderly_afterCalls (hs : Orderly s) {calls : List Call} (hcalls : ∀ c ∈ calls, c.OfFunction) :
    Orderly (s.afterCalls calls) ∧ Lasting s (s.afterCalls calls) ∧
      ∀ id, id ∈ (s.afterCalls calls).registered.keys ↔ id ∈ s.taken calls ∨ id ∈ s.registered.keys := by
  induction calls generalizing s with
  | nil => exact ⟨hs, .refl s, fun id => (or_iff_right List.not_mem_nil).symm⟩
  | cons c calls ih =>
    obtain ⟨hfirst, hlasting, hkeys⟩ := orderly_afterCall hs (hcalls c List.mem_cons_self)
    obtain ⟨hrest, hlasting', hkeys'⟩ := ih hfirst fun c' hc' => hcalls c' (List.mem_cons_of_mem c hc')
    refine ⟨hrest, hlasting.trans hlasting', fun id => ?_⟩
    show id ∈ ((s.afterCall c).afterCalls calls).registered.keys ↔ _
    rw [hkeys', hkeys, taken, List.mem_append, Option.mem_toList, Option.mem_def, ← or_assoc,
      or_comm (b := s.taken? c = some id)]

theorem afterCalls_append (s : Registry) (earlier later : List Call) :
    s.afterCalls (earlier ++ later) = (s.afterCalls earlier).afterCalls later :=
  List.foldl_append

theorem orderly_of_empty (hs : Reached s) (hempty : s.registered = .empty) : Orderly s := by
  refine ⟨hs, ?_, fun id v hv => ?_⟩
  · rw [hempty]
    exact List.nodup_nil
  · rw [hempty] at hv
    cases hv

/-- Declarations of functions are handed to a sandbox without entries in any order, under any names, with or
without a text for the gate, and between that it evaluates code and the program is changed.  Then

* every declaration has one entry at most, and there are as many entries as different declarations were
  registered with success;
* an entry keeps its value, which is a function, and the function keeps its code, its scopes and its name;
* a registration with success leaves the declaration with an entry and the name with the value of that;
* a registration that is refused or stops leaves the entries and all global variables as they were. -/
theorem registrations {s₀ : Registry} (hs : Reached s₀) (hempty : s₀.registered = .empty)
    {calls : List Call} (hcalls : ∀ c ∈ calls, c.OfFunction) :
    (s₀.afterCalls calls).registered.keys.Nodup ∧
    (s₀.afterCalls calls).count = (s₀.taken calls).dedup.length ∧
    (∀ earlier later, calls = earlier ++ later → ∀ id v,
      (s₀.afterCalls earlier).registered.get? id = some v →
        (s₀.afterCalls calls).registered.get? id = some v ∧
        ∃ code scopes name, (s₀.afterCalls earlier).machine.IsFunction v code scopes name ∧
          (s₀.afterCalls calls).machine.IsFunction v code scopes name) ∧
    ∀ earlier declaration name source later, calls = earlier ++ .register declaration name source :: later →
      let before := s₀.afterCalls earlier
      let after := before.register declaration name source
      (after.1 = .ok true → after.2.isRegistered declaration = true ∧
        ∃ v, after.2.registered.get? declaration.id = some v ∧
          after.2.machine.globalVariable? name = some v) ∧
      (after.1 ≠ .ok true → after.2.registered = before.registered ∧
        ∀ x, after.2.machine.globalVariable? x = before.machine.globalVariable? x) := by
  have hfirst := orderly_of_empty hs hempty
  have hmem : ∀ {earlier later}, calls = earlier ++ later → (∀ c ∈ earlier, c.OfFunction) ∧
      ∀ c ∈ later, c.OfFunction := by
    rintro earlier later rfl
    exact ⟨fun c hc => hcalls c (List.mem_append_left _ hc), fun c hc => hcalls c (List.mem_append_right _ hc)⟩
  obtain ⟨horderly, -, hkeys⟩ := orderly_afterCalls hfirst hcalls
  refine ⟨horderly.nodup, ?_, ?_, ?_⟩
  · have hperm : (s₀.afterCalls calls).registered.keys.Perm (s₀.taken calls).dedup := by
      refine (List.perm_ext_iff_of_nodup horderly.nodup (List.nodup_dedup _)).mpr fun id => ?_
      rw [hkeys, hempty, List.mem_dedup]
      exact or_iff_left List.not_mem_nil
    have hlength : (s₀.afterCalls calls).registered.keys.length = (s₀.afterCalls calls).count :=
      List.length_map _
    rw [← hlength, hperm.length_eq]
  · intro earlier later hcalls' id v hv
    obtain ⟨hearlier, hlater⟩ := hmem hcalls'
    obtain ⟨hbefore, -, -⟩ := orderly_afterCalls hfirst hearlier
    obtain ⟨-, hlasting, -⟩ := orderly_afterCalls hbefore hlater
    obtain ⟨code, scopes, name, hfunction⟩ := hbefore.functions id v hv
    rw [hcalls', afterCalls_append]
    exact ⟨hlasting.entries id v hv, code, scopes, name, hfunction,
      hlasting.functions v code scopes name hfunction⟩
  · intro earlier declaration name source later hcalls'
    obtain ⟨hearlier, hlater⟩ := hmem hcalls'
    obtain ⟨hbefore, -, -⟩ := orderly_afterCalls hfirst hearlier
    have hfunction : (declaredFunction? declaration).isSome = true := hlater _ List.mem_cons_self
    obtain ⟨hanswer, v, henters, hname, -⟩ | ⟨hanswer, hregistered, hsame⟩ :=
      register_function hbefore.reached.wellScoped hfunction name source
    · refine ⟨fun _ => ⟨?_, v, henters.get?, hname⟩, fun hfails => absurd hanswer hfails⟩
      unfold isRegistered Dict.contains
      rw [henters.get?]
      rfl
    · exact ⟨fun hsuccess => absurd hsuccess hanswer, fun _ => ⟨hregistered, hsame.globalVariable?⟩⟩

/-- `function f() {}`, as a node with an identity of its own -/
def twin (id : NodeId) : Node :=
  .mk id .top (.functionDeclaration ⟨false, false, false⟩)
    [.mk (id + 1) .id (.identifier (Text.of "f")) [], .mk (id + 2) .body .blockStatement []]

/-- Two declarations of one name take it in turns, and code is evaluated in between. -/
def twinCalls : List Call :=
  [.register (twin 0) (Text.of "f") none, .register (twin 10) (Text.of "f") (some (Text.of "function f() {}")),
    .evaluate flagCall (Text.of "f()"), .register (twin 20) (Text.of "f") (some (Text.of "Math.random")),
    .register (twin 0) (Text.of "f") none]

/-- Two of the three declarations are entered, one of them in two calls; the third one is refused. -/
theorem registrations_twinCalls :
    let s₀ := onStore .default .bare 100 10
    Reached s₀ ∧ s₀.registered = .empty ∧ (∀ c ∈ twinCalls, c.OfFunction) ∧
      s₀.taken twinCalls = [0, 10, 0] ∧ (s₀.afterCalls twinCalls).count = 2 := by
  intro s₀
  have hreached : Reached s₀ := .opened .default 100 10
  have hfunctions : ∀ c ∈ twinCalls, c.OfFunction := by
    simp [twinCalls, Call.OfFunction, declaredFunction?, twin, Node.form]
  have htaken : s₀.taken twinCalls = [0, 10, 0] := by decide +kernel
  obtain ⟨-, hcount, -, -⟩ := registrations hreached rfl hfunctions
  rw [htaken] at hcount
  exact ⟨hreached, rfl, hfunctions, htaken, hcount⟩

end Registry

end Sandbox

end Untangle
