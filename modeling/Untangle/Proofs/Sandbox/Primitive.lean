import Untangle.Proofs.Computation
import Untangle.Sandbox.Operator

set_option autoImplicit false

/-!
# Operators on primitive values

Operators look at the store only to convert objects.  On primitive values they give primitive values,
whatever the store is, and they stop in one way only: where the number of a text is too large.
-/

namespace Untangle.Sandbox

variable {α β : Type} {h h' : Heap} {v w : Value}

/-- Whether a value has a literal or a name: neither an object nor `undefined`. -/
def Value.isWritable : Value → Bool
  | .undefined | .object _ => false
  | _ => true

theorem isObject_of_isWritable (hv : v.isWritable = true) : v.isObject = false := by
  cases v with
  | object r => cases hv
  | _ => rfl

/-! ## Conversions on two stores -/

/-- Conversions that do the same; they stop in one way only, and give only results of a kind. -/
structure Steady (p : α → Prop) (c c' : Conv α) : Prop where
  same : c = c'
  result : ∀ a, c = .ok a → p a
  stop : ∀ e, c = .error e → e = .fault .tooLarge

namespace Steady

variable {p : α → Prop} {q : β → Prop}

theorem ok {a : α} (ha : p a) : Steady p (.ok a) (.ok a) := by
  refine ⟨rfl, ?_, ?_⟩
  · intro b hb
    cases hb
    exact ha
  · intro e he
    cases he

theorem tooLarge : Steady p (.error (.fault .tooLarge)) (.error (.fault .tooLarge)) := by
  refine ⟨rfl, ?_, ?_⟩
  · intro b hb
    cases hb
  · intro e he
    cases he
    rfl

theorem bind {c c' : Conv α} {f f' : α → Conv β} (hc : Steady p c c')
    (hf : ∀ a, p a → Steady q (f a) (f' a)) : Steady q (c >>= f) (c' >>= f') := by
  obtain ⟨rfl, hresult, hstop⟩ := hc
  cases c with
  | ok a => exact hf a (hresult a rfl)
  | error e =>
    cases hstop e rfl
    exact tooLarge

/-- A conversion whose result is only used in a fixed way. -/
theorem map {c c' : Conv α} {g : α → β} (hc : Steady p c c') (hg : ∀ a, p a → q (g a)) :
    Steady q (return g (← c)) (return g (← c')) := hc.bind fun a ha => .ok (hg a ha)

end Steady

/-! ## Numbers -/

theorem toPrimitive_of_primitive (h : Heap) (hv : v.isObject = false) : toPrimitive h v = .ok v := by
  unfold toPrimitive nestingBound toPrimitiveGo
  cases v with
  | object r => cases hv
  | _ => rfl

theorem toNumber_of_primitive (h : Heap) (hv : v.isObject = false) :
    toNumber h v = primitiveNumber v := by
  cases v with
  | object r => cases hv
  | _ => rfl

theorem steady_toPrimitive (h h' : Heap) (hv : v.isObject = false) :
    Steady (fun _ => True) (toPrimitive h v) (toPrimitive h' v) := by
  rw [toPrimitive_of_primitive h hv, toPrimitive_of_primitive h' hv]
  exact .ok trivial

theorem steady_textToNumber (t : Text) :
    Steady (fun _ => True) (textToNumber t) (textToNumber t) := by
  unfold textToNumber
  split
  · exact .ok trivial
  · exact .tooLarge

theorem steady_primitiveNumber (v : Value) :
    Steady (fun _ => True) (primitiveNumber v) (primitiveNumber v) := by
  cases v with
  | string t => exact steady_textToNumber t
  | _ => exact .ok trivial

theorem steady_toNumber (h h' : Heap) (hv : v.isObject = false) :
    Steady (fun _ => True) (toNumber h v) (toNumber h' v) := by
  rw [toNumber_of_primitive h hv, toNumber_of_primitive h' hv]
  exact steady_primitiveNumber v

theorem steady_toUint32 (h h' : Heap) (hv : v.isObject = false) :
    Steady (fun _ => True) (toUint32 h v) (toUint32 h' v) :=
  (steady_toNumber h h' hv).map fun _ _ => trivial

theorem steady_toInt32 (h h' : Heap) (hv : v.isObject = false) :
    Steady (fun _ => True) (toInt32 h v) (toInt32 h' v) :=
  (steady_toUint32 h h' hv).map fun _ _ => trivial

/-! ## Operators -/

theorem steady_looseEqualsGo (h h' : Heap) (fuel : Nat) (hv : v.isObject = false)
    (hw : w.isObject = false) :
    Steady (fun _ => True) (looseEqualsGo h fuel v w) (looseEqualsGo h' fuel v w) := by
  induction fuel generalizing v w with
  | zero => exact .ok trivial
  | succ fuel ih =>
    unfold looseEqualsGo
    split
    · exact .ok trivial
    · split
      · exact .ok trivial
      · exact .ok trivial
      · exact (steady_textToNumber _).map fun _ _ => trivial
      · exact (steady_textToNumber _).map fun _ _ => trivial
      · exact ih rfl hw
      · exact ih hv rfl
      · cases hv
      · cases hv
      · cases hw
      · cases hw
      · exact .ok trivial

theorem steady_addValues (h h' : Heap) (hv : v.isObject = false) (hw : w.isObject = false) :
    Steady (fun x : Value => x.isWritable = true) (addValues h v w) (addValues h' v w) := by
  unfold addValues
  refine (steady_toPrimitive h h' hv).bind fun a _ => (steady_toPrimitive h h' hw).bind fun b _ => ?_
  split
  · exact .ok rfl
  · exact .ok rfl
  · exact (steady_primitiveNumber a).bind fun _ _ => (steady_primitiveNumber b).map fun _ _ => rfl

theorem steady_shiftValues (h h' : Heap) (op : BinaryOp) (hv : v.isObject = false)
    (hw : w.isObject = false) :
    Steady (fun _ => True) (shiftValues h op v w) (shiftValues h' op v w) := by
  unfold shiftValues
  refine (steady_toUint32 h h' hw).bind fun a _ => ?_
  split
  · exact (steady_toInt32 h h' hv).map fun _ _ => trivial
  · exact (steady_toInt32 h h' hv).map fun _ _ => trivial
  · exact (steady_toUint32 h h' hv).map fun _ _ => trivial

end Untangle.Sandbox
