import Untangle.Proofs.Sandbox.StoreReached

set_option autoImplicit false

/-!
# What validation guarantees

Code finds its functions in variables of the scopes around it, in objects that these hold, and in the
scopes of the functions that it finds there.  What can be found like this is a realm.  If all functions in
it were validated, validated code stops with a failure only where an operator, the kind of a property or a
value is to blame, or where an object literal spreads an object (`validation_sound`).

The spread is the one node that is let through by the check and refused by the evaluator: the check knows
it by its kind, as a part that may stand in lists, and does not look at what it is a part of.  Where neither
the code nor a function within reach has such a literal, nothing that is come to is of a form that the
sandbox does not know.

Limits and faults are no failures here, and well-formed code is code in which every slot holds what the
grammar has there and no jump leads out of a function or out of the whole.
-/

namespace Untangle.Sandbox

/-! ## What code can come to -/

/-- An object or a scope of a store. -/
inductive Location where
  | object (r : Ref)
  | scope (f : FrameId)

/-- What code that runs in some scopes can come to without making it. -/
inductive Machine.Accessible (m : Machine) (scopes : ScopeChain) : Location → Prop
  | around {f : FrameId} : f ∈ scopes → Accessible m scopes (.scope f)
  | global : Accessible m scopes (.scope m.global)
  | inherited {r : Ref} : r < Native.inherited.length → Accessible m scopes (.object r)
  /-- A variable of a scope. -/
  | variable {f : FrameId} {r : Ref} : Accessible m scopes (.scope f) →
    .object r ∈ (m.frame f).bindings.values → Accessible m scopes (.object r)
  /-- An element or a property of an object. -/
  | held {q r : Ref} : Accessible m scopes (.object q) → .object r ∈ (m.cell q).held →
    Accessible m scopes (.object r)
  /-- A scope around a function. -/
  | closed {r : Ref} {f : FrameId} {code : Node} {outer : ScopeChain} {name : Text} :
    Accessible m scopes (.object r) → (m.cell r).body = .closure code outer name → f ∈ outer →
    Accessible m scopes (.scope f)

/-- All functions that code in some scopes can come to were validated as they stand now. -/
def Machine.FunctionsValidated (m : Machine) (scopes : ScopeChain) : Prop :=
  ∀ r code outer name, m.Accessible scopes (.object r) → (m.cell r).body = .closure code outer name →
    (code.present m.trees).Validated m.trees ∧ (code.present m.trees).form.isFunction = true

/-- An object literal spreads an object in a function that code in some scopes can come to. -/
def Machine.FunctionsSpread (m : Machine) (scopes : ScopeChain) : Prop :=
  ∃ r code outer name, m.Accessible scopes (.object r) ∧ (m.cell r).body = .closure code outer name ∧
    (code.present m.trees).SpreadsObject

variable {m m' : Machine} {scopes : ScopeChain} {n : Node} {J : Jump → Prop} {α : Type}
  {Q : Machine → α → Prop}

/-- What some code can come to in some scopes, and all that is still to be made. -/
def Realm.around (m : Machine) (scopes : ScopeChain) (n : Node) : Realm where
  objects r := m.Accessible scopes (.object r) ∨ m.heap.size ≤ r
  scopes f := m.Accessible scopes (.scope f) ∨ m.frames.size ≤ f
  strict := True
  trees := m.trees
  spreads := n.SpreadsObject ∨ m.FunctionsSpread scopes

namespace Realm

theorem sees_around (m : Machine) (scopes : ScopeChain) (n : Node) : (around m scopes n).Sees scopes :=
  fun _ hf => .inl (.around hf)

/-- Values are known if those that are objects can be come to. -/
theorem knowsAll_around {vs : List Value} (hvs : m.KnowsAll vs)
    (hobjects : ∀ r, .object r ∈ vs → m.Accessible scopes (.object r)) :
    (around m scopes n).KnowsAll m vs := by
  intro v hv
  cases v with
  | object r => exact ⟨hvs _ hv, .inl (hobjects r hv)⟩
  | _ => trivial

/-- Nothing leads out of what code can come to. -/
theorem encloses_around (hm : m.Complete) (hfunctions : m.FunctionsValidated scopes) :
    (around m scopes n).Encloses m where
  size := hm.inherited
  inherited _ hr := .inl (.inherited hr)
  free _ hr := .inr hr
  freeScopes _ hf := .inr hf
  global := .inl .global
  objects r hr := by
    refine knowsAll_around (hm.objects r) fun q hq => ?_
    obtain haccessible | hbeyond := hr
    · exact .held haccessible hq
    · rw [m.cell_of_size_le hbeyond] at hq
      cases hq
  functions r hr code outer name hbody := by
    obtain haccessible | hbeyond := hr
    · obtain ⟨hcode, hform⟩ := hfunctions r code outer name haccessible hbody
      exact ⟨fun _ => ⟨hcode.accepted fun h => .inr ⟨r, code, outer, name, haccessible, hbody, h⟩, hform⟩,
        fun f hf => .inl (.closed haccessible hbody hf)⟩
    · rw [m.cell_of_size_le hbeyond] at hbody
      cases hbody
  frames f hf := by
    refine knowsAll_around (hm.frames f) fun r hr => ?_
    obtain haccessible | hbeyond := hf
    · exact .variable haccessible hr
    · rw [m.frame_of_size_le hbeyond] at hr
      cases hr
  trees _ := rfl

/-- In a strict realm a run that does not leave it has no failure but those that are permitted. -/
theorem Maintains.permitted {ρ : Realm} {c : Run α} {f : Failure} (hc : ρ.Maintains J m Q c)
    (hm : ρ.Encloses m) (hstrict : ρ.strict) (hrun : c m = .error (.failure f) m') :
    f.Permitted ρ.spreads := by
  have hreach := hc m (.refl m) hm
  rw [hrun] at hreach
  exact hreach.2.2.2 hstrict

end Realm

/-- What validation guarantees: where all functions that can be come to were validated, the evaluation of
a validated expression and the execution of a validated statement or declarator fail on operators, on kinds
of properties and on values, and otherwise only on the spread of an object that stands in an object literal
of the code or of such a function. -/
theorem validation_sound (hm : m.Complete) (hfunctions : m.FunctionsValidated scopes)
    (hn : n.Validated m.trees) :
    (n.form.isExpression = true → ∀ f m', Run.evaluate n scopes m = .error (.failure f) m' →
      f.isOperational = true ∨
        f = .objectSpread ∧ (n.SpreadsObject ∨ m.FunctionsSpread scopes)) ∧
    (n.form.isStatementLike = true ∨ n.form = .variableDeclarator → ∀ f m',
      Run.execute n scopes m = .error (.failure f) m' → f.isOperational = true ∨
        f = .objectSpread ∧ (n.SpreadsObject ∨ m.FunctionsSpread scopes)) := by
  let ρ := Realm.around m scopes n
  have hencloses : ρ.Encloses m := Realm.encloses_around hm hfunctions
  have hscopes : ρ.Sees scopes := Realm.sees_around m scopes n
  have haccepted : n.Accepted ρ.trees ρ.spreads := hn.accepted .inl
  refine ⟨fun hform f m' hrun => ?_, fun hform f m' hrun => ?_⟩
  · have hfits : ρ.Fits .expression n := fun _ => ⟨haccepted, hform⟩
    exact (Realm.Maintains.evaluate (J := fun _ => False) hfits hscopes).permitted hencloses trivial hrun
  · have hfits : ρ.Fits .statement n ∨ ρ.Fits .declarator n :=
      hform.imp (fun h _ => ⟨haccepted, h⟩) fun h _ => ⟨haccepted, by
        unfold Node.fits
        rw [h]⟩
    have hjumps : ρ.Confines (fun _ => False) n := fun _ j hj =>
      Bool.false_ne_true ((hn.wellFormed.closed j).symm.trans hj)
    exact (Realm.Maintains.execute (J := fun _ => False) hfits hjumps hscopes).permitted hencloses
      trivial hrun

/-! ## A callback that is found in a variable -/

/-- `function test(a) { return a instanceof a; }` -/
def typeTest : Node :=
  .mk 2 .body (.functionDeclaration ⟨false, false, false⟩)
    [.mk 3 .id (.identifier (Text.of "test")) [], .mk 4 .params (.identifier (Text.of "a")) [],
     .mk 5 .body .blockStatement
      [.mk 6 .body .returnStatement
        [.mk 7 .argument (.binary .instanceOf)
          [.mk 8 .left (.identifier (Text.of "a")) [], .mk 9 .right (.identifier (Text.of "a")) []]]]]

/-- `['p'].map(test)` -/
def mappedTypeTest : Node :=
  .mk 11 .expression .call
    [.mk 12 .callee (.member false)
      [.mk 13 .object .arrayExpression [.mk 14 .elements (.literal (.string (Text.of "p"))) []],
       .mk 15 .property (.identifier (Text.of "map")) []],
     .mk 16 .arguments (.identifier (Text.of "test")) []]

/-- `function test(a) { return a instanceof a; } ['p'].map(test);` -/
def typeTestScript : Node :=
  .mk 1 .top .program [typeTest, .mk 10 .body (.expressionStatement none) [mappedTypeTest]]

/-- A machine on which the function is declared. -/
def typeTestMachine : Machine :=
  let m := Machine.create 100 10
  { m.after (Run.execute typeTest m.globalChain) with trees := [typeTestScript] }

/-- Whether a run fails on an operator. -/
def failsOnOperator {β : Type} : EStateM.Result Abrupt Machine β → Bool
  | .error (.failure (.operator _)) _ => true
  | _ => false

/-- Whether a run fails on the spread of an object. -/
def failsOnSpread {β : Type} : EStateM.Result Abrupt Machine β → Bool
  | .error (.failure .objectSpread) _ => true
  | _ => false

/-- Functions may be looked up in other trees after some code ran. -/
theorem complete_after_execute (hm : m.Complete) (n : Node) (scopes : ScopeChain) (trees : List Node) :
    ({ m.after (Run.execute n scopes) with trees := trees } : Machine).Complete := by
  have hrun : Realm.whole.Maintains (fun _ => False) m Realm.Any (Run.execute n scopes) :=
    .execute (.inl fun h => h.elim) (fun h => h.elim) (Realm.sees_whole scopes)
  obtain ⟨hinherited, hobjects, hframes⟩ := (hrun.after hm).2
  exact ⟨hinherited, hobjects, hframes⟩

theorem typeTestMachine_complete : typeTestMachine.Complete := by
  have hm : (Machine.create 100 10).Complete := Machine.complete_bare.restart 100 10
  exact complete_after_execute hm typeTest _ [typeTestScript]

/-- What stands in the script is validated if it is well-formed. -/
theorem validated_of_inside {d : Node} (hd : d.Inside typeTestScript)
    (hregular : d.everywhere Node.isRegular = true) (hclosed : ∀ j, d.opens j = false)
    (hvalid : validate d = none) : d.Validated typeTestMachine.trees := by
  have hroot : typeTestScript ∈ typeTestMachine.trees := List.mem_cons_self
  exact ⟨⟨Node.everywhere_iff.mp hregular, hclosed⟩, hvalid,
    Node.current_of_inside (by decide) hroot hd⟩

theorem typeTest_validated : typeTest.Validated typeTestMachine.trees :=
  validated_of_inside (.within List.mem_cons_self (.self _)) (by decide +kernel)
    (fun j => by cases j <;> rfl) rfl

/-- A body that is no function, or one whose code is some node. -/
def Body.hasOnlyCode (id : NodeId) : Body → Bool
  | .closure code _ _ => code.id == id
  | _ => true

theorem typeTestMachine_functionsValidated :
    typeTestMachine.FunctionsValidated typeTestMachine.globalChain := by
  have hall : (typeTestMachine.heap.toList.all fun c => c.body.hasOnlyCode 2) = true := by decide +kernel
  intro r code outer name _ hbody
  have hr := Machine.lt_size_of_body hbody fun h => by cases h
  have hcell := List.all_eq_true.mp hall (typeTestMachine.cell r) (by
    rw [Machine.cell, Array.getD_eq_getD_getElem?, Array.getElem?_eq_getElem hr]
    exact Array.getElem_mem_toList hr)
  rw [hbody, Body.hasOnlyCode, beq_iff_eq] at hcell
  have hpresent : code.present typeTestMachine.trees = typeTest := by
    unfold Node.present
    rw [hcell]
    rfl
  rw [hpresent]
  exact ⟨typeTest_validated, rfl⟩

/-- The function that `map` calls fails on its operator. -/
theorem mappedTypeTest_fails_operationally :
    typeTestMachine.Complete ∧ typeTestMachine.FunctionsValidated typeTestMachine.globalChain ∧
    mappedTypeTest.Validated typeTestMachine.trees ∧ mappedTypeTest.form.isExpression = true ∧
    ∃ f m', Run.evaluate mappedTypeTest typeTestMachine.globalChain typeTestMachine =
      .error (.failure f) m' ∧ f.isOperational = true := by
  have hmapped : mappedTypeTest.Validated typeTestMachine.trees :=
    validated_of_inside (.within (List.mem_cons_of_mem _ List.mem_cons_self)
      (.within List.mem_cons_self (.self _))) (by decide +kernel) (fun j => by cases j <;> rfl) rfl
  refine ⟨typeTestMachine_complete, typeTestMachine_functionsValidated, hmapped, rfl, ?_⟩
  have hfails : failsOnOperator
      (Run.evaluate mappedTypeTest typeTestMachine.globalChain typeTestMachine) = true := by
    decide +kernel
  cases hrun : Run.evaluate mappedTypeTest typeTestMachine.globalChain typeTestMachine with
  | ok v m' =>
    rw [hrun] at hfails
    cases hfails
  | error x m' =>
    rw [hrun] at hfails
    cases x with
    | failure f =>
      have hsound := (validation_sound typeTestMachine_complete typeTestMachine_functionsValidated
        hmapped).1 rfl f m' hrun
      refine ⟨f, m', rfl, hsound.resolve_right ?_⟩
      rintro ⟨rfl, -⟩
      cases hfails
    | _ => cases hfails

/-- `{...{}}` -/
def spreadLiteral : Node :=
  .mk 1 .expression .objectExpression
    [.mk 2 .properties .spread [.mk 3 .argument .objectExpression []]]

/-! The check lets the literal through, and its evaluation fails on every machine that is bare. -/

example : validate spreadLiteral = none ∧
    failsOnSpread (Run.evaluate spreadLiteral [] (Machine.create 100 10)) = true := by decide +kernel

end Untangle.Sandbox
