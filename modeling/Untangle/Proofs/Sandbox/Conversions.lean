import Untangle.Sandbox.Builtin.Global

set_option autoImplicit false

/-!
# How conversions stop

Conversions and operators may fail on values of the wrong kind, reach the limit of nesting, or meet a
number or a text that is too large.  `Conversion.Ends` says on which operands each of them ends with
which fault, and the lemmas of `Proper` say of each function which of these conversions it makes.  None
of them ever finds a part of the code missing: they do not look at code.

Faults are those exceptions of a conversion that the running code cannot catch.  Memory is not bounded, so
that a text or an array of a great but possible length is no fault.
-/

namespace Untangle.Sandbox

/-- The conversions that may end with a fault. -/
inductive Conversion where
  /-- A whole number in a literal becomes a floating-point number. -/
  | literal
  /-- The number of a text. -/
  | number
  /-- The whole number at the head of a text. -/
  | whole
  /-- A number as a count. -/
  | count
  /-- A key as an index. -/
  | key
  /-- A count as a length. -/
  | length
  /-- A text repeated. -/
  | repetition
  /-- A text as bytes. -/
  | encoding
  deriving DecidableEq, Repr

/-- The operands on which a conversion ends with a fault, and the fault. -/
inductive Conversion.Ends : Conversion → Fault → Prop
  | literal {n : Int} (hn : Binary64.ofInt? n = none) : Ends .literal .tooLarge
  | number {t : Text} {f : Number.ReadFault} (ht : Number.ofText t = .error f) : Ends .number .tooLarge
  | whole {t : Text} {base : Int} {f : Number.ReadFault} (ht : Number.leadingWhole t base = .error f) :
      Ends .whole (Run.ofReadFault f)
  | count {x : Float} (hx : Binary64.isFinite x = false) : Ends .count .infiniteCount
  | longKey {t : Text} {n : Nat} (hdigits : isDigits t = true)
      (hn : (t.takeWhile Text.isDecimal).length = n) (hlong : maxKeyDigits < n) : Ends .key (.manyDigits n)
  | badKey {t : Text} {c : CodePoint} (hdigits : isDigits t = true) (hc : c ∈ t)
      (hbad : Text.isDecimal c = false) : Ends .key (.badDigits t)
  | length {n : Nat} (hn : lengthBound ≤ n) : Ends .length .greatCount
  | repetition {n : Nat} {t : Text} (hlong : lengthBound ≤ n * t.length) : Ends .repetition .longText
  | encoding {t : Text} (ht : Percent.encode? t = none) : Ends .encoding (Run.surrogateFault t)

/-- A way to stop that does not come from code with a part missing. -/
def Abrupt.IsProper : Abrupt → Prop
  | .fault f => ∃ c : Conversion, c.Ends f
  | _ => True

/-- A failure that depends on operators, on kinds of properties or on values, and not on the form of the
code. -/
def Failure.isOperational : Failure → Bool
  | .functionAsPrimitive | .operator _ | .unaryOperator _ | .logicalOperator _ | .splitByObject
  | .replaceByObject | .replacementPattern | .arrayReceiver | .spread | .objectProperty => true
  | _ => false

/-- A way to stop that comes from one of some conversions: it carries no value, and code makes no such
jump. -/
def Abrupt.OfConversion (cs : List Conversion) : Abrupt → Prop
  | .fault f => ∃ c ∈ cs, c.Ends f
  | .failure f => f.isOperational = true
  | .limit _ => True
  | _ => False

theorem Abrupt.OfConversion.isProper {cs : List Conversion} {x : Abrupt} (hx : x.OfConversion cs) :
    x.IsProper := by
  cases x with
  | fault f =>
    obtain ⟨c, -, hc⟩ := hx
    exact ⟨c, hc⟩
  | _ => trivial

/-- What an object has under a key, itself or by its kind. -/
def Cell.property (c : Cell) (key : Text) : Conv Value := do
  if ← c.has key then c.get key else return Run.inheritedProperty c key

theorem getProperty_object (r : Ref) (key : Text) (m : Machine) :
    Run.getProperty (.object r) key m = Run.reading (fun _ => (m.cell r).property key) m := by
  show (Run.reading (fun _ => (m.cell r).has key) >>= fun b =>
    if b then Run.reading (fun _ => (m.cell r).get key) else pure (Run.inheritedProperty (m.cell r) key)) m = _
  unfold Cell.property
  generalize (m.cell r).has key = test
  cases test with
  | error e => rfl
  | ok b => cases b <;> rfl

/-- A computation on values that stops in the ways of some conversions only. -/
def Proper (cs : List Conversion) {α : Type} (x : Conv α) : Prop := ∀ y, x = .error y → y.OfConversion cs

namespace Proper

variable {cs : List Conversion} {α β : Type} {h : Heap}

theorem ok (a : α) : Proper cs (.ok a) := fun _ hy => by cases hy

theorem stop {y : Abrupt} (hy : y.OfConversion cs) : Proper cs (.error y : Conv α) := by
  intro z hz
  cases hz
  exact hy

theorem bind {x : Conv α} {f : α → Conv β} (hx : Proper cs x) (hf : ∀ a, Proper cs (f a)) :
    Proper cs (x >>= f) := by
  cases x with
  | ok a => exact hf a
  | error y => exact .stop (hx y rfl)

theorem map {x : Conv α} (hx : Proper cs x) (f : α → β) : Proper cs (do return f (← x)) :=
  hx.bind fun a => .ok (f a)

/-! ## Values -/

theorem textToNumber (hc : .number ∈ cs) (t : Text) : Proper cs (textToNumber t) := by
  unfold Sandbox.textToNumber
  split
  · exact .ok _
  · next ht => exact .stop ⟨.number, hc, .number ht⟩

/-- Texts of elements are proper as soon as the primitive values inside of them are. -/
theorem elementTexts {fuel : Nat} (hgo : ∀ v, Proper cs (toPrimitiveGo h fuel v)) (vs : List Value) :
    Proper cs (elementTexts h fuel vs) := by
  induction vs with
  | nil =>
    unfold Sandbox.elementTexts
    exact .ok _
  | cons v vs ih =>
    unfold Sandbox.elementTexts
    cases v with
    | object r => exact (hgo _).bind fun _ => ih.bind fun _ => .ok _
    | _ => exact ih.bind fun _ => .ok _

theorem toPrimitiveGo (fuel : Nat) (v : Value) : Proper cs (toPrimitiveGo h fuel v) := by
  induction fuel generalizing v with
  | zero =>
    unfold Sandbox.toPrimitiveGo
    exact .stop trivial
  | succ fuel ih =>
    unfold Sandbox.toPrimitiveGo
    split
    · split
      · exact .ok _
      · exact (elementTexts ih _).bind fun _ => .ok _
      · exact .stop rfl
      · exact .stop rfl
    · exact .ok _

theorem toPrimitive (v : Value) : Proper cs (toPrimitive h v) := toPrimitiveGo _ v

theorem toText (v : Value) : Proper cs (toText h v) := by
  unfold Sandbox.toText
  split
  · exact (toPrimitive _).map _
  · exact .ok _

theorem primitiveNumber (hc : .number ∈ cs) (v : Value) : Proper cs (primitiveNumber v) := by
  cases v with
  | string t => exact textToNumber hc t
  | _ => exact .ok _

theorem toNumber (hc : .number ∈ cs) (v : Value) : Proper cs (toNumber h v) := by
  unfold Sandbox.toNumber
  split
  · exact (toPrimitive _).bind (primitiveNumber hc)
  · exact primitiveNumber hc _

theorem toInteger (hc : .number ∈ cs) (v : Value) : Proper cs (toInteger h v) := (toNumber hc v).map _

theorem toUint32 (hc : .number ∈ cs) (v : Value) : Proper cs (toUint32 h v) := (toNumber hc v).map _

theorem toInt32 (hc : .number ∈ cs) (v : Value) : Proper cs (toInt32 h v) := (toUint32 hc v).map _

theorem toCount (hc : .count ∈ cs) (x : Float) : Proper cs (toCount x) := by
  unfold Sandbox.toCount
  split
  · exact .ok _
  · next hx => exact .stop ⟨.count, hc, .count (Bool.eq_false_iff.mpr hx)⟩

/-! ## Keys -/

/-- A text of which a part is taken has a sign that stops the taking. -/
theorem exists_of_takeWhile_lt {p : CodePoint → Bool} {t : Text} (ht : (t.takeWhile p).length < t.length) :
    ∃ c ∈ t, p c = false := by
  induction t with
  | nil => cases ht
  | cons c t ih =>
    cases hc : p c with
    | false => exact ⟨c, List.mem_cons_self, hc⟩
    | true =>
      rw [List.takeWhile_cons_of_pos hc] at ht
      obtain ⟨d, hd, hbad⟩ := ih (Nat.lt_of_succ_lt_succ ht)
      exact ⟨d, List.mem_cons_of_mem _ hd, hbad⟩

theorem keyNumber (hc : .key ∈ cs) {key : Text} (hdigits : isDigits key = true) :
    Proper cs (keyNumber key) := by
  unfold Sandbox.keyNumber
  simp only
  split
  · next hlong => exact .stop ⟨.key, hc, .longKey hdigits rfl hlong⟩
  · split
    · next hshort =>
      obtain ⟨c, hmem, hbad⟩ := exists_of_takeWhile_lt hshort
      exact .stop ⟨.key, hc, .badKey hdigits hmem hbad⟩
    · exact .ok _

theorem arrayIndex (hc : .key ∈ cs) (key : Text) : Proper cs (arrayIndex key) := by
  unfold Sandbox.arrayIndex
  split
  · next hkey => exact (keyNumber hc (Bool.and_eq_true _ _ ▸ hkey).1).map _
  · exact .ok _

theorem has (hc : .key ∈ cs) (c : Cell) (key : Text) : Proper cs (c.has key) := by
  unfold Cell.has
  split
  · refine (arrayIndex hc key).bind fun i => ?_
    split
    · exact .ok _
    · exact .ok _
  · exact .ok _

theorem get (hc : .key ∈ cs) (c : Cell) (key : Text) : Proper cs (c.get key) := by
  unfold Cell.get
  split
  · split
    · exact .ok _
    · refine (arrayIndex hc key).bind fun i => ?_
      split
      · exact .ok _
      · exact .ok _
  · exact .ok _

theorem property (hc : .key ∈ cs) (c : Cell) (key : Text) : Proper cs (c.property key) := by
  refine (has hc c key).bind fun found => ?_
  split
  · exact get hc c key
  · exact .ok _

theorem delete (hc : .key ∈ cs) (c : Cell) (key : Text) : Proper cs (c.delete key) := by
  unfold Cell.delete
  split
  · refine (arrayIndex hc key).bind fun i => ?_
    split
    · exact .ok _
    · exact .ok _
  · exact .ok _

theorem textProperty (hc : .key ∈ cs) (t key : Text) : Proper cs (Run.textProperty t key) := by
  unfold Run.textProperty
  split
  · exact .ok _
  · split
    · next hdigits => exact (keyNumber hc hdigits).map _
    · exact .ok _

/-! ## Operators -/

theorem looseEqualsGo (hc : .number ∈ cs) (fuel : Nat) (l r : Value) : Proper cs (looseEqualsGo h fuel l r) := by
  induction fuel generalizing l r with
  | zero => exact .ok _
  | succ fuel ih =>
    unfold Sandbox.looseEqualsGo
    split
    · exact .ok _
    · split
      · exact .ok _
      · exact .ok _
      · exact (textToNumber hc _).map _
      · exact (textToNumber hc _).map _
      · exact ih _ _
      · exact ih _ _
      · exact (toPrimitive _).bind fun _ => ih _ _
      · exact (toPrimitive _).bind fun _ => ih _ _
      · exact (toPrimitive _).bind fun _ => ih _ _
      · exact (toPrimitive _).bind fun _ => ih _ _
      · exact .ok _

theorem looseEquals (hc : .number ∈ cs) (l r : Value) : Proper cs (looseEquals h l r) := looseEqualsGo hc 5 l r

theorem addValues (hc : .number ∈ cs) (l r : Value) : Proper cs (addValues h l r) := by
  refine (toPrimitive l).bind fun l => (toPrimitive r).bind fun r => ?_
  split
  · exact .ok _
  · exact .ok _
  · exact (primitiveNumber hc l).bind fun _ => (primitiveNumber hc r).map _

theorem compareValues (hc : .number ∈ cs) (op : BinaryOp) (l r : Value) : Proper cs (compareValues h op l r) := by
  refine (toPrimitive l).bind fun l => (toPrimitive r).bind fun r => ?_
  split
  · exact .ok _
  · refine (primitiveNumber hc l).bind fun x => (primitiveNumber hc r).bind fun y => ?_
    split
    · exact .ok _
    · exact .ok _

theorem shiftValues (hc : .number ∈ cs) (op : BinaryOp) (l r : Value) : Proper cs (shiftValues h op l r) := by
  refine (toUint32 hc r).bind fun _ => ?_
  split
  · exact (toInt32 hc l).map _
  · exact (toInt32 hc l).map _
  · exact (toUint32 hc l).map _

theorem bitValues (hc : .number ∈ cs) (op : BinaryOp) (l r : Value) : Proper cs (bitValues h op l r) := by
  refine (toInt32 hc l).bind fun _ => (toInt32 hc r).bind fun _ => ?_
  split
  · exact .ok _
  · exact .ok _
  · exact .ok _

theorem pureOperation (hc : .number ∈ cs) (op : BinaryOp) (l r : Value) : Proper cs (pureOperation h op l r) := by
  have hnumbers : Proper cs (do
      let x ← Sandbox.toNumber h l
      let y ← Sandbox.toNumber h r
      return Value.number (numberOperation op x y)) :=
    (toNumber hc l).bind fun _ => (toNumber hc r).map _
  unfold Sandbox.pureOperation
  split
  · exact addValues hc l r
  · exact (looseEquals hc l r).map _
  · exact (looseEquals hc l r).map _
  · exact .ok _
  · exact .ok _
  · exact hnumbers
  · exact hnumbers
  · exact hnumbers
  · exact hnumbers
  · exact hnumbers
  · exact (shiftValues hc _ l r).map _
  · exact (shiftValues hc _ l r).map _
  · exact (shiftValues hc _ l r).map _
  · exact (bitValues hc _ l r).map _
  · exact (bitValues hc _ l r).map _
  · exact (bitValues hc _ l r).map _
  · exact (compareValues hc _ l r).map _
  · exact (compareValues hc _ l r).map _
  · exact (compareValues hc _ l r).map _
  · exact (compareValues hc _ l r).map _
  · exact .stop rfl
  · exact .stop rfl
  · exact .stop rfl

end Proper

end Untangle.Sandbox
