import Untangle.Proofs.Sandbox.Headstart
import Untangle.Proofs.Sandbox.RealmEvaluator
import Untangle.Rule.Evaluation

set_option autoImplicit false

/-!
# Properties of object literals

A property is looked up in two ways: in the tree of an object literal, and in the object that it
evaluates to.  Where all keys can be read off the tree, both come to the same function.
-/

namespace Untangle.Sandbox

/-- A function as an expression. -/
def IsLambda (f : Node) : Prop :=
  ∃ flags, f.form = .functionExpression flags ∨ f.form = .arrowFunction flags

/-- All keys of an object literal can be read off the tree. -/
def StaticKeys (object : Node) : Prop :=
  ∀ p ∈ object.childrenAt .properties, p.propertyKey? ≠ .ok none

/-- An object has a function of this code, whatever slot that stands in, and of these scopes. -/
def Machine.Has (m : Machine) (d : Dict Text Value) (key : Text) (f : Node) (scopes : ScopeChain) :
    Prop :=
  ∃ q name, d.get? key = some (.object q) ∧ (m.cell q).body = .closure (f.inRole .top) scopes name

variable {m m' : Machine} {depth : Nat} {scopes : ScopeChain}

theorem Machine.Has.later {d : Dict Text Value} {key : Text} {f : Node} (h : m.Has d key f scopes)
    (hm : m.Becomes m') : m'.Has d key f scopes := by
  obtain ⟨q, name, hget, hbody⟩ := h
  exact ⟨q, name, hget, hm.closure hbody⟩

/-! ## Keys and values -/

theorem expression_literal_inv {n : Node} {l : Literal} {v : Value} (hform : n.form = .literal l)
    (hrun : (evaluator depth).expression n scopes m = .ok v m') :
    Run.literalValue l (m.spend 1) = .ok v m' := by
  have hend := unstopped_ok hrun
  obtain ⟨d, rfl, heq⟩ := hend.expression
  rw [heq] at hrun hend
  unfold Run.evaluateExpression at hrun hend
  rw [hend.tick.2] at hrun
  simpa only [hform] using hrun

/-- The text of a value of a literal that is a string or a number. -/
theorem text_of_literal {l : Literal} {t key : Text} {v : Value} {m₁ m₂ : Machine}
    (hkey : l = .string key ∨ ∃ x y, l = .number x ∧ numeralValue x = .ok y ∧ Number.text y = key)
    (hvalue : Run.literalValue l m = .ok v m₁) (htext : Run.textOf v m₁ = .ok t m₂) : t = key := by
  have hread : Run.textOf v m₁ = _ := reading_eq _ m₁
  rw [hread] at htext
  obtain rfl | ⟨x, y, rfl, hx, rfl⟩ := hkey
  · cases hvalue
    cases htext
    rfl
  · have hliteral : literalOf (.number x) = .ok (.number y) := by
      show (do return Value.number (← numeralValue x)) = _
      rw [hx]
      rfl
    rw [literalValue_of_literalOf rfl hliteral] at hvalue
    cases hvalue
    cases htext
    rfl

/-- A key that can be read off the tree is the key under which the value is put. -/
theorem propertyKeyText_eq {p k : Node} {computed shorthand method : Bool} {t key : Text}
    (hform : p.form = .property computed .plain shorthand method) (hk : p.child? .key = some k)
    (hkey : p.propertyKey? = .ok (some key))
    (hrun : Run.propertyKeyText (evaluator depth) computed k scopes m = .ok t m') : t = key := by
  unfold Node.propertyKey? at hkey
  simp only [hform, hk] at hkey
  have hliteral : ∀ {l : Literal}, k.form = .literal l →
      (l = .string key ∨ ∃ x y, l = .number x ∧ numeralValue x = .ok y ∧ Number.text y = key) →
      t = key := by
    intro l hl hkey
    unfold Run.propertyKeyText at hrun
    split at hrun
    · obtain ⟨v, m₁, hvalue, htext⟩ := bind_eq_ok.mp hrun
      exact text_of_literal hkey (expression_literal_inv hl hvalue) htext
    · simp only [hl] at hrun
      obtain ⟨v, m₁, hvalue, htext⟩ := bind_eq_ok.mp hrun
      exact text_of_literal hkey hvalue htext
  split at hkey
  · next name hname =>
    cases computed with
    | true => cases hkey
    | false =>
      cases hkey
      unfold Run.propertyKeyText at hrun
      simp only [hname] at hrun
      cases hrun
      rfl
  · next s hl =>
    cases hkey
    exact hliteral hl (.inl rfl)
  · next x hl =>
    obtain ⟨y, hy, hkey⟩ := except_bind_eq_ok.mp hkey
    cases hkey
    exact hliteral hl (.inr ⟨x, y, rfl, hy, rfl⟩)
  · cases hkey

/-- A function evaluates to a function of its code and the scopes around it. -/
theorem expression_lambda {f : Node} (hf : IsLambda f) {v : Value}
    (hrun : (evaluator depth).expression f scopes m = .ok v m') :
    ∃ q name, v = .object q ∧ (m'.cell q).body = .closure (f.inRole .top) scopes name := by
  have hend := unstopped_ok hrun
  obtain ⟨d, rfl, heq⟩ := hend.expression
  rw [heq] at hrun hend
  unfold Run.evaluateExpression at hrun hend
  rw [hend.tick.2] at hrun
  obtain ⟨flags, hform⟩ := hf
  have hvalue : Run.functionValue f flags scopes (m.spend 1) = .ok v m' := by
    obtain hform | hform := hform
    · simpa only [hform] using hrun
    · simpa only [hform] using hrun
  unfold Run.functionValue at hvalue
  split at hvalue
  · cases hvalue
  · cases hvalue
    refine ⟨_, ((f.child? .id).bind Node.name?).getD [], rfl, ?_⟩
    rw [Pairing.cell_push, if_pos rfl]

/-! ## Objects -/

open Rule.Evaluation

/-- One step of the search for a property in the tree of an object literal. -/
def select (key : Text) (found : Option Node) (p : Node) : Except Fault (Option Node) :=
  match p.form with
  | .property _ _ _ _ => do
    if (← p.propertyKey?) == some key then return p.child? .value else return found
  | _ => return found

theorem propertyValue?_eq (object : Node) (key : Text) :
    propertyValue? object key = (object.childrenAt .properties).foldlM (select key) none := rfl

theorem select_property {p : Node} {computed method shorthand : Bool} {kind : PropertyKind} {key : Text}
    {found next : Option Node} (hform : p.form = .property computed kind method shorthand)
    (h : select key found p = .ok next) :
    ∃ own, p.propertyKey? = .ok own ∧ (if own = some key then p.child? .value else found) = next := by
  unfold select at h
  simp only [hform] at h
  obtain ⟨own, hown, h⟩ := except_bind_eq_ok.mp h
  refine ⟨own, hown, ?_⟩
  by_cases heq : own = some key
  · rw [if_pos heq]
    rw [if_pos (by simpa using heq)] at h
    exact Except.ok.inj h
  · rw [if_neg heq]
    rw [if_neg (by simpa using heq)] at h
    exact Except.ok.inj h

theorem select_inv {p : Node} {key : Text} {found next : Option Node}
    (h : select key found p = .ok next) : next = found ∨ next = p.child? .value := by
  unfold select at h
  split at h
  · obtain ⟨own, -, h⟩ := except_bind_eq_ok.mp h
    split at h
    · exact .inr (Except.ok.inj h).symm
    · exact .inl (Except.ok.inj h).symm
  · exact .inl (Except.ok.inj h).symm

theorem child?_of_part {n k : Node} {r : Role} (h : Run.part n r m = .ok k m') :
    n.child? r = some k ∧ m' = m := by
  unfold Run.part at h
  cases hk : n.child? r with
  | none =>
    rw [hk] at h
    cases h
  | some c =>
    rw [hk] at h
    cases h
    exact ⟨rfl, rfl⟩

/-- One property of an object literal is put: its key is determined, and then its value. -/
structure Puts (ev : Evaluator) (scopes : ScopeChain) (p : Node) (computed : Bool) (k n : Node)
    (m : Machine) (key : Text) (m₁ : Machine) (v : Value) (m₂ : Machine) : Prop where
  form : ∃ method shorthand, p.form = .property computed .plain method shorthand
  keyNode : p.child? .key = some k
  valueNode : p.child? .value = some n
  key : Run.propertyKeyText ev computed k scopes m = .ok key m₁
  value : ev.expression n scopes m₁ = .ok v m₂

theorem putProperties_cons {ev : Evaluator} {p : Node} {ps : List Node} {d d' : Dict Text Value}
    (hrun : Run.putProperties ev scopes (p :: ps) d m = .ok d' m') :
    ∃ computed k n key m₁ v m₂, Puts ev scopes p computed k n m key m₁ v m₂ ∧
      Run.putProperties ev scopes ps (d.put key v) m₂ = .ok d' m' := by
  unfold Run.putProperties at hrun
  generalize hform : p.form = form at hrun
  cases form with
  | property computed kind method shorthand =>
    cases kind with
    | plain =>
      obtain ⟨k, m₁, hkpart, hrun₁⟩ := bind_eq_ok.mp hrun
      obtain ⟨key, m₂, hkey, hrun₂⟩ := bind_eq_ok.mp hrun₁
      obtain ⟨n, m₃, hnpart, hrun₃⟩ := bind_eq_ok.mp hrun₂
      obtain ⟨v, m₄, hv, hrest⟩ := bind_eq_ok.mp hrun₃
      obtain ⟨hk, rfl⟩ := child?_of_part hkpart
      obtain ⟨hn, rfl⟩ := child?_of_part hnpart
      exact ⟨computed, k, n, key, m₃, v, m₄, ⟨⟨method, shorthand, hform⟩, hk, hn, hkey, hv⟩, hrest⟩
    | _ => cases hrun
  | _ => cases hrun

/-- If a function was found in the tree, the object has it. -/
def Machine.Selected (m : Machine) (d : Dict Text Value) (key : Text) (found : Option Node)
    (scopes : ScopeChain) : Prop :=
  ∀ f, found = some f → IsLambda f → m.Has d key f scopes

/-- What was found in the tree after some properties is what the object has once they are put. -/
theorem putProperties_selects {ps : List Node} {key : Text} {found found' : Option Node}
    {d d' : Dict Text Value} (hkeys : ∀ p ∈ ps, p.propertyKey? ≠ .ok none)
    (hselect : ps.foldlM (select key) found = .ok found') (hm : m.Complete)
    (hd : m.KnowsAll d.values) (hfound : m.Selected d key found scopes)
    (hrun : Run.putProperties (evaluator depth) scopes ps d m = .ok d' m') :
    m'.Selected d' key found' scopes := by
  induction ps generalizing m d found with
  | nil =>
    cases hselect
    cases hrun
    exact hfound
  | cons p ps ih =>
    have hev := Realm.governs_evaluator .whole depth
    rw [List.foldlM_cons] at hselect
    obtain ⟨next, hnext, hselect⟩ := except_bind_eq_ok.mp hselect
    obtain ⟨computed, k, n, t, m₁, v, m₂, hp, hrun⟩ := putProperties_cons hrun
    obtain ⟨method, shorthand, hform⟩ := hp.form
    obtain ⟨hbetween, hcomplete, -⟩ :=
      (Realm.Maintains.propertyKeyText (J := fun _ => False) hev (fun h => h.elim)
        (fun _ h => h.elim) (Realm.sees_whole scopes)).ok hm hp.key
    obtain ⟨hbecomes, hcomplete, hv⟩ := Realm.expression_complete hcomplete hp.value
    have hlater := hbetween.trans hbecomes
    have hput : m₂.KnowsAll (d.put t v).values := Realm.knowsAll_whole.mp
      ((Realm.knowsAll_whole.mpr (hd.later hlater)).put (Realm.knows_whole.mpr hv) t)
    obtain ⟨pkey, hpkey, hnext⟩ := select_property hform hnext
    obtain ⟨own, rfl⟩ : ∃ own, pkey = some own :=
      Option.ne_none_iff_exists'.mp fun hnone => hkeys p List.mem_cons_self (hnone ▸ hpkey)
    obtain rfl := propertyKeyText_eq hform hp.keyNode hpkey hp.key
    refine ih (fun q hq => hkeys q (List.mem_cons_of_mem p hq)) hselect hcomplete
      hput (fun f hf hlambda => ?_) hrun
    by_cases heq : t = key
    · rw [if_pos (by rw [heq]), hp.valueNode] at hnext
      obtain rfl := Option.some.inj (hnext.trans hf)
      obtain ⟨q, name, rfl, hbody⟩ := expression_lambda hlambda hp.value
      exact ⟨q, name, heq ▸ Dict.get?_put_self d t _, hbody⟩
    · rw [if_neg (fun hsame => heq (Option.some.inj hsame))] at hnext
      obtain ⟨q, name, hget, hbody⟩ := (hfound f (hnext.trans hf) hlambda).later hlater
      exact ⟨q, name, (Dict.get?_put_of_ne d (Ne.symm heq) v).trans hget, hbody⟩

/-- The object that an object literal evaluates to has the function that is found in the tree. -/
theorem expression_object {object f : Node} {key : Text} {v : Value}
    (hform : object.form = .objectExpression) (hkeys : StaticKeys object)
    (hfound : propertyValue? object key = .ok (some f)) (hf : IsLambda f) (hm : m.Complete)
    (hrun : (evaluator depth).expression object scopes m = .ok v m') :
    ∃ r d, v = .object r ∧ m'.cell r = ⟨.plain, d⟩ ∧ r < m'.heap.size ∧ m'.Has d key f scopes := by
  have hend := unstopped_ok hrun
  obtain ⟨d, rfl, heq⟩ := hend.expression
  rw [heq] at hrun hend
  unfold Run.evaluateExpression at hrun hend
  rw [hend.tick.2] at hrun
  simp only [hform] at hrun
  obtain ⟨properties, m₁, hput, hrun⟩ := bind_eq_ok.mp hrun
  cases hrun
  have hcomplete : (m.spend 1).Complete := ⟨hm.inherited, hm.objects, hm.frames⟩
  have hselected := putProperties_selects hkeys ((propertyValue?_eq object key).symm.trans hfound)
    hcomplete (fun v hv => (by cases hv)) (fun g hg _ => by cases hg) hput f rfl hf
  obtain ⟨q, name, hget, hbody⟩ := hselected
  have hcell := Pairing.cell_push m₁ ⟨.plain, properties⟩
  have hsize : m₁.heap.size < (m₁.heap.push ⟨.plain, properties⟩).size := by
    rw [Array.size_push]
    exact Nat.lt_succ_self _
  refine ⟨m₁.heap.size, properties, rfl, (hcell _).trans (if_pos rfl), hsize, q, name, hget, ?_⟩
  have hq := Machine.lt_size_of_body hbody fun h => by cases h
  rw [hcell, if_neg (Nat.ne_of_lt hq)]
  exact hbody

end Untangle.Sandbox
