import Untangle.Proofs.Analysis.Visit
import Untangle.Proofs.Sandbox.StoreReached
import Untangle.Proofs.Unwrapping.Operands

set_option autoImplicit false

/-!
# Unwrapping keeps the outcome of a call

A call of a member of an object literal, whose function wraps an operator, is replaced by the operator
applied to the arguments.  Where the keys of the literal can be read off the tree, both end alike, unless
a limit stops one of them.

The main theorem is `unwrapping_keeps_outcome`.  A literal whose computed keys have to be evaluated is out
of its scope, and so are operands that trade places and both fail: there the rule does change what a
program does.
-/

namespace Untangle.Sandbox

open Rule.Evaluation

variable {m m' : Machine} {depth : Nat} {scopes : ScopeChain}

/-- A name has the object that an object literal came to.  The properties of the object are what they
were, and its functions have the code that stands in the literal. -/
structure Holds (object : Node) (name : Text) (m : Machine) (scopes : ScopeChain) : Prop where
  value : ∃ depth outer m₀ r m₁ g, m₀.Complete ∧
    (evaluator depth).expression object outer m₀ = .ok (.object r) m₁ ∧
    m₁.Becomes { m with trees := m₁.trees } ∧ (m.cell r).properties = (m₁.cell r).properties ∧
    m.findScope name scopes = some g ∧ m.variable g name = .object r
  current : ∀ f : Node, f.Inside object → f.present m.trees = f

/-- The tree of an object literal has a function that wraps an operator, and the operator is applied to
the arguments of a call. -/
structure Unwraps (object callee call : Node) (key : Text) (f : Node) (w : Wrapper) (n : Node) : Prop where
  form : object.form = .objectExpression
  member : callee.memberName? = some key
  function : propertyValue? object key = .ok (some f)
  wrapper : f.wrapper? = some w
  operation : unwrapped? w (call.childrenAt .arguments) = some n

/-! ## The function -/

theorem isLambda_of_wrapper {f : Node} {w : Wrapper} (h : f.wrapper? = some w) : IsLambda f := by
  have hnames : ∃ p, f.twoParameters? = some p := by
    unfold Node.wrapper? at h
    cases hp : f.twoParameters? with
    | none =>
      rw [hp] at h
      cases h
    | some p => exact ⟨p, rfl⟩
  obtain ⟨p, hp⟩ := hnames
  unfold Node.twoParameters? at hp
  generalize hform : f.form = form at hp
  cases form with
  | functionExpression flags => exact ⟨flags, .inl hform⟩
  | arrowFunction flags => exact ⟨flags, .inr hform⟩
  | _ => cases hp

/-- What is found in the tree of an object literal is a part of it. -/
theorem inside_of_propertyValue {object f : Node} {key : Text}
    (h : propertyValue? object key = .ok (some f)) : f.Inside object := by
  have hall : ∀ {ps : List Node} {found : Option Node}, (∀ p ∈ ps, p ∈ object.children) →
      (∀ g, found = some g → g.Inside object) → ps.foldlM (select key) found = .ok (some f) →
      f.Inside object := by
    intro ps
    induction ps with
    | nil =>
      intro found _ hfound hselect
      exact hfound f (Except.ok.inj hselect)
    | cons p ps ih =>
      intro found hps hfound hselect
      rw [List.foldlM_cons] at hselect
      obtain ⟨next, hnext, hselect⟩ := except_bind_eq_ok.mp hselect
      refine ih (fun q hq => hps q (List.mem_cons_of_mem p hq)) (fun g hg => ?_) hselect
      obtain rfl | hvalue := select_inv hnext
      · exact hfound g hg
      · have hpart : g ∈ p.children := List.mem_of_find?_eq_some (hvalue.symm.trans hg)
        exact (Node.Inside.child hpart).trans (.child (hps p List.mem_cons_self))
  rw [propertyValue?_eq] at h
  exact hall (fun p hp => (List.mem_filter.mp hp).1) (fun g hg => by cases hg) h

/-- The object that a name holds has the function that the literal has. -/
theorem Holds.function {object callee call f n : Node} {name key : Text} {w : Wrapper}
    (h : Holds object name m scopes) (hcall : Unwraps object callee call key f w n)
    (hkeys : StaticKeys object) :
    ∃ g r d q outer own, m.findScope name scopes = some g ∧ m.variable g name = .object r ∧
      m.cell r = ⟨.plain, d⟩ ∧ d.get? key = some (.object q) ∧
      (m.cell q).body = .closure (f.inRole .top) outer own := by
  obtain ⟨depth, outer, m₀, r, m₁, g, hcomplete, hrun, hbecomes, hproperties, hscope, hvalue⟩ := h.value
  obtain ⟨r', d, heq, hcell, hr, q, own, hget, hbody⟩ := expression_object hcall.form hkeys
    hcall.function (isLambda_of_wrapper hcall.wrapper) hcomplete hrun
  cases heq
  have hplain : (m.cell r).body = .plain := hbecomes.plain hr (by rw [hcell])
  have hsame : m.cell r = ⟨.plain, d⟩ := by
    rw [hcell] at hproperties
    cases hown : m.cell r with
    | mk body properties =>
      rw [hown] at hplain hproperties
      rw [show body = .plain from hplain, show properties = d from hproperties]
  exact ⟨g, r, d, q, outer, own, hscope, hvalue, hsame, hget, hbecomes.closure hbody⟩

/-- A variable that is set to what an object literal came to holds it. -/
theorem holds_declared {object : Node} {name : Text} {depth : Nat} {outer scopes : ScopeChain} {r : Ref}
    {m₀ m₁ : Machine} {f : FrameId} (hm₀ : m₀.Complete)
    (hrun : (evaluator depth).expression object outer m₀ = .ok (.object r) m₁)
    (hf : f < m₁.frames.size) (htrees : m₁.trees = []) :
    Holds object name (m₁.declared f name (.object r)) (f :: scopes) := by
  have hget : ((m₁.declared f name (.object r)).frame f).bindings.get? name = some (.object r) := by
    rw [bindings_declared hf, Dict.get?_put_self]
  have hfound : (m₁.declared f name (.object r)).findScope name (f :: scopes) = some f ∧
      (m₁.declared f name (.object r)).variable f name = .object r := findScope_of_get? hget
  refine ⟨⟨depth, outer, m₀, r, m₁, f, hm₀, hrun, .of_heap rfl rfl, rfl, hfound⟩, fun g _ => ?_⟩
  show g.present m₁.trees = g
  rw [htrees]
  rfl

/-! ## Arguments that become operands -/

theorem within_spend (m : Machine) (j k : Nat) : (m.spend j).Within (m.spend k) :=
  .of_store rfl rfl rfl rfl

/-- Two computations that evaluate the same operand agree if they agree on its value. -/
theorem EndAlike.operand {e : Node} {j k : Nat} {c c' : Value → Run Value}
    (hend : Unstopped (((evaluator depth).expression e scopes >>= c) (m.spend j)))
    (hend' : Unstopped (((evaluator depth).expression e scopes >>= c') (m.spend k)))
    (hc : ∀ v m₁, (evaluator depth).expression e scopes m = .ok v m₁ →
      Unstopped (c v (m₁.spend j)) → Unstopped (c' v (m₁.spend k)) →
        EndAlike (c v (m₁.spend j)) (c' v (m₁.spend k))) :
    EndAlike (((evaluator depth).expression e scopes >>= c) (m.spend j))
      (((evaluator depth).expression e scopes >>= c') (m.spend k)) := by
  have hspend := expression_spend hend.first
  have hspend' := expression_spend hend'.first
  cases hrun : (evaluator depth).expression e scopes m with
  | error x m₁ =>
    rw [hrun] at hspend hspend'
    rw [bind_of_error hspend, bind_of_error hspend']
    exact .stop (within_spend m₁ j k) x
  | ok v m₁ =>
    rw [hrun] at hspend hspend'
    rw [bind_of_ok hspend] at hend ⊢
    rw [bind_of_ok hspend'] at hend' ⊢
    exact hc v m₁ hrun hend hend'

theorem failed_spend {e : Node} {k : Nat} {x : Abrupt} {m₁ : Machine}
    (hrun : (evaluator depth).expression e scopes m = .error x m₁)
    (hend : Unstopped ((evaluator depth).expression e scopes (m.spend k))) :
    (evaluator depth).expression e scopes (m.spend k) = .error x (m₁.spend k) := by
  rw [expression_spend hend, hrun]
  rfl

/-- An operand without effects has the same value some steps later, and again costs nothing but steps. -/
theorem simple_spend {e : Node} (he : isSimple e = true) {k : Nat} {v : Value} {m₁ : Machine}
    (hrun : (evaluator depth).expression e scopes m = .ok v m₁)
    (hend : Unstopped ((evaluator depth).expression e scopes (m.spend k))) :
    ∃ a, (evaluator depth).expression e scopes (m.spend k) = .ok v (m.spend a) := by
  obtain ⟨a, rfl⟩ := expression_simple_inv he hrun
  refine ⟨a + k, ?_⟩
  rw [expression_spend hend, hrun, ← m.spend_spend]
  rfl

/-- Operands without effects may trade places, if one of them has a value: then there is at most one
that can fail. -/
theorem EndAlike.traded {x y : Node} {j k : Nat} {c c' : Value → Value → Run Value}
    (hx : isSimple x = true) (hy : isSimple y = true)
    (hvalue : ∃ e ∈ [x, y], ∃ v m₁, (evaluator depth).expression e scopes m = .ok v m₁)
    (hend : Unstopped ((do
      let w ← (evaluator depth).expression y scopes
      let v ← (evaluator depth).expression x scopes
      c v w) (m.spend j)))
    (hend' : Unstopped ((do
      let v ← (evaluator depth).expression x scopes
      let w ← (evaluator depth).expression y scopes
      c' v w) (m.spend k)))
    (hc : ∀ v w m₁ m₂ a b, (evaluator depth).expression x scopes m = .ok v m₁ →
      (evaluator depth).expression y scopes m = .ok w m₂ → Unstopped (c v w (m.spend a)) →
        Unstopped (c' v w (m.spend b)) → EndAlike (c v w (m.spend a)) (c' v w (m.spend b))) :
    EndAlike ((do
      let w ← (evaluator depth).expression y scopes
      let v ← (evaluator depth).expression x scopes
      c v w) (m.spend j)) ((do
      let v ← (evaluator depth).expression x scopes
      let w ← (evaluator depth).expression y scopes
      c' v w) (m.spend k)) := by
  cases hxrun : (evaluator depth).expression x scopes m with
  | error e m₁ =>
    obtain ⟨w, m₂, hyrun⟩ : ∃ w m₂, (evaluator depth).expression y scopes m = .ok w m₂ := by
      obtain ⟨n, hn, v, m₂, hrun⟩ := hvalue
      obtain rfl | rfl : n = x ∨ n = y := by simpa using hn
      · rw [hxrun] at hrun
        cases hrun
      · exact ⟨v, m₂, hrun⟩
    obtain ⟨b, hylate⟩ := simple_spend hy hyrun hend.first
    rw [bind_of_ok hylate] at hend ⊢
    rw [bind_of_error (failed_spend hxrun hend.first), bind_of_error (failed_spend hxrun hend'.first)]
    exact .stop (within_spend m₁ b k) e
  | ok v m₁ =>
    obtain ⟨a, hxlate⟩ := simple_spend hx hxrun hend'.first
    rw [bind_of_ok hxlate] at hend' ⊢
    cases hyrun : (evaluator depth).expression y scopes m with
    | error e m₂ =>
      rw [bind_of_error (failed_spend hyrun hend.first), bind_of_error (failed_spend hyrun hend'.first)]
      exact .stop (within_spend m₂ j a) e
    | ok w m₂ =>
      obtain ⟨b, hylate⟩ := simple_spend hy hyrun hend.first
      rw [bind_of_ok hylate] at hend ⊢
      obtain ⟨b', hylate'⟩ := simple_spend hy hyrun hend'.first
      rw [bind_of_ok hylate'] at hend' ⊢
      obtain ⟨a', hxlate'⟩ := simple_spend hx hxrun hend.first
      rw [bind_of_ok hxlate'] at hend ⊢
      exact hc v w m₁ m₂ a' b' hxrun hyrun hend hend'

/-! ## Calls -/

theorem unwrapped_inv {w : Wrapper} {args : List Node} {n : Node} (h : unwrapped? w args = some n) :
    ∃ x y, args = [x, y] ∧ x.form ≠ .spread ∧ y.form ≠ .spread ∧
      (w.swapped = false ∧ n = .binary w.op x y ∨
        w.swapped = true ∧ isSimple x = true ∧ isSimple y = true ∧ n = .binary w.op y x) := by
  unfold unwrapped? at h
  split at h
  · next x y =>
    obtain ⟨-, h⟩ | ⟨hnone, h⟩ := ite_eq_iff.mp h
    · cases h
    · refine ⟨x, y, rfl, fun hx => hnone (by simp [hx]), fun hy => hnone (by simp [hy]), ?_⟩
      split at h
      · next hswapped => exact .inl ⟨by simpa using hswapped, (Option.some.inj h).symm⟩
      · next hswapped =>
        split at h
        · next hsimple =>
          have hboth : isSimple x = true ∧ isSimple y = true := by simpa using hsimple
          exact .inr ⟨by simpa using hswapped, hboth.1, hboth.2, (Option.some.inj h).symm⟩
        · cases h
  · cases h

/-- A function that wraps an operator, called with two values, does what the operator does. -/
theorem applied_endAlike (depth : Nat) {f : Node} {w : Wrapper} (hw : f.wrapper? = some w) {q : Ref}
    {outer : ScopeChain} {own : Text} {v u : Value} (this : Value) (j k : Nat) (hm : m.Complete)
    (hbody : (m.cell q).body = .closure (f.inRole .top) outer own) (hcurrent : f.present m.trees = f)
    (hv : m.Knows v) (hu : m.Knows u)
    (hend : Unstopped (Run.binaryOperation w.op (if w.swapped then u else v)
      (if w.swapped then v else u) (m.spend j)))
    (hend' : Unstopped (applied (evaluator depth) (.object q) this [v, u] (m.spend k))) :
    EndAlike (Run.binaryOperation w.op (if w.swapped then u else v) (if w.swapped then v else u) (m.spend j))
      (applied (evaluator depth) (.object q) this [v, u] (m.spend k)) := by
  obtain ⟨a, b, code, e, hf⟩ := Node.exists_wraps hw
  have hwraps : ((f.inRole .top).present m.trees).Wraps w a b code e := by
    obtain hsame | ⟨-, hself⟩ := Node.present_inRole m.trees f .top
    · rwa [hsame, hcurrent]
    · rw [hself]
      exact hf.inRole .top
  have hcallable : (m.spend k).heap.isCallable (.object q) = true := by
    unfold Heap.isCallable
    simp only [show ((m.spend k).heap.getD q default).body = .closure (f.inRole .top) outer own from hbody]
  have hcall : applied (evaluator depth) (.object q) this [v, u] (m.spend k) =
      (evaluator depth).call (.object q) this [v, u] (m.spend k) := by
    show (if (m.spend k).heap.isCallable (.object q) then _ else _ : Run Value) _ = _
    rw [if_pos hcallable]
  rw [hcall] at hend' ⊢
  have hcomplete : (m.spend j).Complete := ⟨hm.inherited, hm.objects, hm.frames⟩
  exact call_of_wraps hwraps hcomplete (within_spend m j k) hbody rfl hv hu hend' hend

theorem Unwraps.endAlike {object callee call f n : Node} {name key : Text} {w : Wrapper}
    (h : Unwraps object callee call key f w n) (hcall : MemberCall call callee name)
    (hkeys : StaticKeys object)
    (hargs : ∀ e ∈ call.childrenAt .arguments, e.form ≠ .hole)
    (hvalue : w.swapped = true → ∃ e ∈ call.childrenAt .arguments, ∃ v m₁,
      (evaluator depth).expression e scopes m = .ok v m₁)
    (hm : m.Complete) (hholds : Holds object name m scopes)
    (hend : Unstopped ((evaluator (depth + 1)).expression n scopes m))
    (hend' : Unstopped ((evaluator (depth + 1)).expression call scopes m)) :
    EndAlike ((evaluator (depth + 1)).expression n scopes m)
      ((evaluator (depth + 1)).expression call scopes m) := by
  obtain ⟨g, r, d, q, outer, own, hscope, hvar, hcell, hget, hbody⟩ := hholds.function h hkeys
  obtain ⟨k, hk⟩ := expression_memberCall hcall h.member hscope hvar hcell hget hend'
  have hcurrent := hholds.current f (inside_of_propertyValue h.function)
  obtain ⟨x, y, heq, hxspread, hyspread, hn⟩ := unwrapped_inv h.operation
  rw [heq] at hargs hvalue hk
  have hx : IsOperand x := ⟨hargs x (by simp), hxspread⟩
  have hy : IsOperand y := ⟨hargs y (by simp), hyspread⟩
  rw [hk, evaluateList_two _ hx hy] at hend' ⊢
  obtain ⟨hswapped, rfl⟩ | ⟨hswapped, hxsimple, hysimple, rfl⟩ := hn
  · have hbinary := expression_binary w.op hend
    rw [hbinary] at hend ⊢
    refine EndAlike.operand hend hend' fun v m₁ hv hend hend' => ?_
    obtain ⟨hlater₁, hm₁, hv⟩ := Realm.expression_complete hm hv
    refine EndAlike.operand hend hend' fun u m₂ hu hend hend' => ?_
    obtain ⟨hlater₂, hm₂, hu⟩ := Realm.expression_complete hm₁ hu
    have hlater := hlater₁.trans hlater₂
    have hagree := applied_endAlike depth h.wrapper (.object r) 1 (k + 1) hm₂ (hlater.closure hbody)
      (hlater.trees ▸ hcurrent) (hv.later hlater₂) hu
    rw [hswapped] at hagree
    exact hagree hend hend'
  · have hbinary := expression_binary w.op hend
    rw [hbinary] at hend ⊢
    refine EndAlike.traded hxsimple hysimple (hvalue hswapped) hend hend'
      fun v u m₁ m₂ a b hv hu hend hend' => ?_
    have hvknown := (Realm.expression_complete hm hv).2.2
    have huknown := (Realm.expression_complete hm hu).2.2
    obtain ⟨i, rfl⟩ := expression_simple_inv hxsimple hv
    obtain ⟨j, rfl⟩ := expression_simple_inv hysimple hu
    have hagree := applied_endAlike depth h.wrapper (.object r) a b hm hbody hcurrent (v := v) (u := u)
      hvknown huknown
    rw [hswapped] at hagree
    exact hagree hend hend'

end Untangle.Sandbox

namespace Untangle.Rule.Evaluation

open Sandbox

/-! ## The rule -/

theorem convert_inv {α : Type} {r : Except Fault α} {x : α} {t t' : Tour RuleState}
    (h : RuleM.convert r t = .ok x t') : r = .ok x ∧ t' = t := by
  cases r with
  | ok y =>
    cases h
    exact ⟨rfl, rfl⟩
  | error f => cases h

theorem edit_inv {f : Analysis → Except Refusal Analysis} {t t' : Tour RuleState}
    (h : RuleM.edit f t = .ok () t') : f t.analysis = .ok t'.analysis := by
  unfold RuleM.edit at h
  rw [bind_of_ok (show (get : RuleM _) t = .ok t t from rfl)] at h
  cases ha : f t.analysis with
  | ok a =>
    rw [ha] at h
    cases h
    rfl
  | error e =>
    rw [ha] at h
    cases h

/-- What the rule does with a call of a member of a declared name: nothing, or it unwraps the call. -/
theorem callOfMember_inv {i : SiteId} {call callee : Node} {name : Text} {b : BindingId}
    {t t' : Tour RuleState} (hlookup : t.analysis.lookup name (t.analysis.site i).scope = some b)
    (hrun : callOfMember i call callee name t = .ok () t') :
    t'.analysis = t.analysis ∨
      ∃ object key f w n, declaredObject? (t.analysis.nodeAt (t.analysis.binding b).site) = some object ∧
        t.analysis.isConstant b = true ∧ callee.memberName? = some key ∧
        propertyValue? object key = .ok (some f) ∧ f.wrapper? = some w ∧
        unwrapped? w (call.childrenAt .arguments) = some n ∧
        t.analysis.replace i n = .ok t'.analysis := by
  unfold callOfMember at hrun
  obtain ⟨t₁, t₂, ht, hrun⟩ := bind_eq_ok.mp hrun
  cases ht
  simp only [hlookup] at hrun
  cases hobject : (declaredObject? (t.analysis.nodeAt (t.analysis.binding b).site)).filter
      fun _ => t.analysis.isConstant b with
  | none =>
    rw [hobject] at hrun
    cases hrun
    exact .inl rfl
  | some object =>
    cases hkey : callee.memberName? with
    | none =>
      rw [hobject, hkey] at hrun
      cases hrun
      exact .inl rfl
    | some key =>
      rw [hobject, hkey] at hrun
      obtain ⟨value, t₁, hconvert, hrest⟩ := bind_eq_ok.mp hrun
      obtain ⟨hvalue, hsame⟩ := convert_inv hconvert
      subst hsame
      cases hresult : (value.bind Node.wrapper?).bind fun w =>
          unwrapped? w (call.childrenAt .arguments) with
      | none =>
        rw [hresult] at hrest
        cases hrest
        exact .inl rfl
      | some n =>
        rw [hresult] at hrest
        obtain ⟨_, t₂, hedit, hrecord⟩ := bind_eq_ok.mp hrest
        have hreplace := edit_inv hedit
        cases hrecord
        obtain ⟨w, hwrapper, hn⟩ := Option.bind_eq_some_iff.mp hresult
        obtain ⟨f, hf, hw⟩ := Option.bind_eq_some_iff.mp hwrapper
        subst hf
        obtain ⟨hdeclared, hconstant⟩ := Option.filter_eq_some_iff.mp hobject
        exact .inr ⟨object, key, f, w, n, hdeclared, hconstant, rfl, hvalue, hw, hn, hreplace⟩

theorem form_of_declaredObject? {declaration object : Node}
    (h : declaredObject? declaration = some object) : object.form = .objectExpression := by
  unfold declaredObject? at h
  split at h
  · obtain ⟨-, hform⟩ := Option.filter_eq_some_iff.mp h
    split at hform
    · next heq => exact heq
    · cases hform
  · cases h

theorem act_memberCall {i : SiteId} {t : Tour RuleState} {callee : Node} {name : Text}
    (hcall : MemberCall (t.analysis.nodeAt i) callee name) :
    act i t = callOfMember i (t.analysis.nodeAt i) callee name t := by
  obtain ⟨computed, hmember⟩ := hcall.member
  obtain ⟨target, htarget, hname⟩ := Option.bind_eq_some_iff.mp hcall.target
  have hform := form_of_name? hname
  have hliteral : isLiteral target = false := by
    unfold isLiteral
    rw [hform]
  unfold act RuleM.nodeAt
  rw [TourM.ask_bind, hcall.callee_eq]
  simp only [hmember, htarget, hliteral, hform]
  rfl

/-- **Unwrapping keeps the outcome.**  The rule acts on a call of a member of a variable that is set to
an object literal.  It leaves the program alone, or the variable keeps the literal and the call is replaced
by an operation: in every environment where the name has the object that the literal came to, the operation
ends as the call does, unless a limit stops one of them.  The keys of the literal can be read off the tree;
operands that trade places may not both fail. -/
theorem unwrapping_keeps_outcome {i : SiteId} {t t' : Tour RuleState} {callee object : Node}
    {name : Text} {b : BindingId} {depth : Nat} {m : Machine} {scopes : ScopeChain}
    (hcall : MemberCall (t.analysis.nodeAt i) callee name)
    (hlookup : t.analysis.lookup name (t.analysis.site i).scope = some b)
    (hobject : declaredObject? (t.analysis.nodeAt (t.analysis.binding b).site) = some object)
    (hrun : act i t = .ok () t') (hkeys : StaticKeys object)
    (hargs : ∀ e ∈ (t.analysis.nodeAt i).childrenAt .arguments, e.form ≠ .hole)
    (hm : m.Complete) (hholds : Holds object name m scopes)
    (hend : Unstopped ((evaluator (depth + 1)).expression (t.analysis.nodeAt i) scopes m)) :
    t'.analysis = t.analysis ∨ ∃ key f w n, t.analysis.isConstant b = true ∧
      Unwraps object callee (t.analysis.nodeAt i) key f w n ∧
      t.analysis.replace i n = .ok t'.analysis ∧
      ((w.swapped = true → ∃ e ∈ (t.analysis.nodeAt i).childrenAt .arguments, ∃ v m₁,
          (evaluator depth).expression e scopes m = .ok v m₁) →
        Unstopped ((evaluator (depth + 1)).expression n scopes m) →
          EndAlike ((evaluator (depth + 1)).expression n scopes m)
            ((evaluator (depth + 1)).expression (t.analysis.nodeAt i) scopes m)) := by
  rw [act_memberCall hcall] at hrun
  obtain hsame | ⟨object', key, f, w, n, hdeclared, hconstant, hkey, hf, hw, hn, hreplace⟩ :=
    callOfMember_inv hlookup hrun
  · exact .inl hsame
  · obtain rfl := Option.some.inj (hobject.symm.trans hdeclared)
    have hunwraps : Unwraps object callee (t.analysis.nodeAt i) key f w n :=
      ⟨form_of_declaredObject? hobject, hkey, hf, hw, hn⟩
    exact .inr ⟨key, f, w, n, hconstant, hunwraps, hreplace, fun hvalue hend' =>
      hunwraps.endAlike hcall hkeys hargs hvalue hm hholds hend' hend⟩

/-- `{ f: function (a, b) { return a === b; } }` -/
def wrapperObject : Node :=
  .mk 5 .init .objectExpression
    [.mk 6 .properties (.property false .plain false false)
      [.mk 7 .key (.identifier (Text.of "f")) [],
       .mk 8 .value (.functionExpression ⟨false, false, false⟩)
        [.mk 9 .params (.identifier (Text.of "a")) [],
         .mk 10 .params (.identifier (Text.of "b")) [],
         .mk 11 .body .blockStatement
          [.mk 12 .body .returnStatement
            [.mk 13 .argument (.binary .same)
              [.mk 14 .left (.identifier (Text.of "a")) [],
               .mk 15 .right (.identifier (Text.of "b")) []]]]]]]

/-- `o.f` -/
def wrapperCallee : Node :=
  .mk 18 .callee (.member false)
    [.mk 19 .object (.identifier (Text.of "o")) [], .mk 20 .property (.identifier (Text.of "f")) []]

/-- `o.f('p', 'q')` -/
def wrapperCall : Node :=
  .mk 17 .expression .call
    [wrapperCallee, .mk 21 .arguments (.literal (.string (Text.of "p"))) [],
     .mk 22 .arguments (.literal (.string (Text.of "q"))) []]

/-- `var o = { f: function (a, b) { return a === b; } }; o.f('p', 'q');` -/
def wrapperScript : Node :=
  .mk 1 .top .program
    [.mk 2 .body (.variableDeclaration .var)
      [.mk 3 .declarations .variableDeclarator
        [.mk 4 .id (.identifier (Text.of "o")) [], wrapperObject]],
     .mk 16 .body (.expressionStatement none) [wrapperCall]]

/-- The rule comes to the call in a new sandbox. -/
def wrapperTour : Tour RuleState :=
  ⟨.ofProgram wrapperScript, 0, ⟨.onStore .default .bare 100 10, .empty⟩⟩

/-- A machine on which `o` has what the object literal comes to. -/
def wrapperMachine : Machine :=
  let m := Machine.create 100 10
  match (evaluator 20).expression wrapperObject m.globalChain m with
  | .ok v m₁ => m₁.declared m.global (Text.of "o") v
  | .error _ m₁ => m₁

theorem nodeAt_wrapperTour {i : SiteId} {n : Node}
    (hretired : (wrapperTour.analysis.site i).retired = false)
    (hfollow : wrapperScript.follow (wrapperTour.analysis.way i) = some n) :
    wrapperTour.analysis.nodeAt i = n := by
  have hprogram : wrapperTour.analysis.program = wrapperScript :=
    (Analysis.extends_ofProgram wrapperScript).program
  unfold Analysis.nodeAt Analysis.attachedNode?
  rw [hretired, hprogram]
  simp only [Bool.false_eq_true, if_false, hfollow]

/-- Whether a run ends with an object, on a machine with scopes and without trees. -/
def endsWithObject : EStateM.Result Abrupt Machine Value → Bool
  | .ok (.object _) m => m.trees.isEmpty && 0 < m.frames.size
  | _ => false

theorem wrapperMachine_holds :
    wrapperMachine.Complete ∧ Holds wrapperObject (Text.of "o") wrapperMachine [0] := by
  have hm₀ : (Machine.create 100 10).Complete := Machine.complete_bare.restart 100 10
  have hglobal : (Machine.create 100 10).global = 0 := by decide +kernel
  obtain ⟨r, m₁, hrun, htrees, hframes⟩ : ∃ r m₁, (evaluator 20).expression wrapperObject
      (Machine.create 100 10).globalChain (Machine.create 100 10) = .ok (.object r) m₁ ∧
      m₁.trees = [] ∧ 0 < m₁.frames.size := by
    have hends : endsWithObject ((evaluator 20).expression wrapperObject
      (Machine.create 100 10).globalChain (Machine.create 100 10)) = true := by decide +kernel
    unfold endsWithObject at hends
    split at hends
    · next r m₁ heq =>
      obtain ⟨htrees, hframes⟩ := Bool.and_eq_true_iff.mp hends
      exact ⟨r, m₁, heq, List.isEmpty_iff.mp htrees, of_decide_eq_true hframes⟩
    · cases hends
  have hmachine : wrapperMachine = m₁.declared 0 (Text.of "o") (.object r) := by
    unfold wrapperMachine
    simp only [hrun, hglobal]
  obtain ⟨-, hm₁, hknows⟩ := Realm.expression_complete hm₀ hrun
  have hdeclared := Realm.Maintains.declare (J := fun _ => False) (Realm.knows_whole.mpr hknows) 0
    (Text.of "o") m₁ (.refl m₁) (Realm.encloses_whole.mpr hm₁)
  rw [hmachine]
  exact ⟨Realm.encloses_whole.mp hdeclared.2.1,
    holds_declared hm₀ hrun hframes htrees⟩

/-- Whether the rule ends without an error. -/
def succeeds : EStateM.Result RuleError (Tour RuleState) Unit → Bool
  | .ok _ _ => true
  | .error _ _ => false

/-- The call of the wrapper is replaced by the comparison, which comes to what the call came to. -/
theorem wrapperCall_keeps_outcome :
    ∃ t', act 40 wrapperTour = .ok () t' ∧ wrapperMachine.Complete ∧
      Holds wrapperObject (Text.of "o") wrapperMachine [0] ∧
      (t'.analysis = wrapperTour.analysis ∨ ∃ key f w n,
        wrapperTour.analysis.isConstant 0 = true ∧
        Unwraps wrapperObject wrapperCallee wrapperCall key f w n ∧
        wrapperTour.analysis.replace 40 n = .ok t'.analysis ∧
        ((w.swapped = true → ∃ e ∈ wrapperCall.childrenAt .arguments, ∃ v m₁,
            (evaluator 20).expression e [0] wrapperMachine = .ok v m₁) →
          Unstopped ((evaluator 21).expression n [0] wrapperMachine) →
            EndAlike ((evaluator 21).expression n [0] wrapperMachine)
              ((evaluator 21).expression wrapperCall [0] wrapperMachine))) := by
  obtain ⟨t', hrun⟩ : ∃ t', act 40 wrapperTour = .ok () t' := by
    have hsucceeds : succeeds (act 40 wrapperTour) = true := by decide +kernel
    unfold succeeds at hsucceeds
    split at hsucceeds
    · next heq => exact ⟨_, heq⟩
    · cases hsucceeds
  obtain ⟨hcomplete, hholds⟩ := wrapperMachine_holds
  have hcallAt : wrapperTour.analysis.nodeAt 40 = wrapperCall := by
    have hway : wrapperTour.analysis.way 40 = [⟨.body, 16⟩, ⟨.expression, 17⟩] := by decide +kernel
    exact nodeAt_wrapperTour (by decide +kernel) (by rw [hway]; rfl)
  have hdeclared : declaredObject? (wrapperTour.analysis.nodeAt
      (wrapperTour.analysis.binding 0).site) = some wrapperObject := by
    have hway : wrapperTour.analysis.way (wrapperTour.analysis.binding 0).site =
        [⟨.body, 2⟩, ⟨.declarations, 3⟩] := by decide +kernel
    rw [nodeAt_wrapperTour (by decide +kernel) (by rw [hway]; rfl)]
    rfl
  have hcall : MemberCall (wrapperTour.analysis.nodeAt 40) wrapperCallee (Text.of "o") := by
    rw [hcallAt]
    exact ⟨rfl, rfl, ⟨false, rfl⟩, rfl⟩
  have hkeys : StaticKeys wrapperObject := by
    intro p hp
    cases List.mem_singleton.mp hp
    rintro ⟨⟩
  have hargs : ∀ e ∈ wrapperCall.childrenAt .arguments, e.form ≠ .hole :=
    List.forall_mem_cons.mpr ⟨nofun, List.forall_mem_singleton.mpr nofun⟩
  have hend : Unstopped ((evaluator 21).expression (wrapperTour.analysis.nodeAt 40) [0]
      wrapperMachine) := by
    rw [hcallAt]
    exact unstopped_of_isUnstopped (by decide +kernel)
  have h := unwrapping_keeps_outcome hcall (b := 0) (by decide +kernel) hdeclared hrun hkeys
    (hcallAt ▸ hargs) hcomplete hholds hend
  rw [hcallAt] at h
  exact ⟨t', hrun, hcomplete, hholds, h⟩

end Untangle.Rule.Evaluation
