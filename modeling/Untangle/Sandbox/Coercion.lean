import Untangle.Sandbox.Value
import Untangle.Number.Layout
import Untangle.Number.Radix
import Untangle.Number.Reading

set_option autoImplicit false

/-!
# Conversions between values

Truth, numbers, texts and integers of values.  An object becomes a primitive by its kind alone: arrays
by the texts of their elements, other objects by a fixed text, and functions not at all.

The conversion of an array goes through the arrays inside of it; the number of objects in the store
bounds how deep that can go unless an array contains itself.
-/

namespace Untangle.Sandbox

/-- A conversion: its result, or how the computation stops. -/
abbrev Conv := Except Abrupt

/-- The kinds of values that comparisons tell apart. -/
inductive Kind where
  | undefined
  | null
  | boolean
  | number
  | string
  | object
  deriving DecidableEq, Repr

/-- The kind of a value. -/
def Value.kind : Value → Kind
  | .undefined => .undefined
  | .null => .null
  | .bool _ => .boolean
  | .number _ => .number
  | .string _ => .string
  | .object _ => .object

/-- The result of the operator `typeof`. -/
def typeOf (h : Heap) (v : Value) : String :=
  match v with
  | .undefined => "undefined"
  | .null => "object"
  | .bool _ => "boolean"
  | .number _ => "number"
  | .string _ => "string"
  | .object _ => if h.isCallable v then "function" else "object"

/-- The truth of a value. -/
def toBoolean : Value → Bool
  | .undefined | .null => false
  | .bool b => b
  | .number x => !(Binary64.isZero x || Binary64.isNaN x)
  | .string t => !t.isEmpty
  | .object _ => true

/-- The number of a text. -/
def textToNumber (t : Text) : Conv Float :=
  match Number.ofText t with
  | .ok x => .ok x
  | .error _ => .error (.fault .tooLarge)

/-- The text of a primitive value; objects have none here. -/
def primitiveText : Value → Text
  | .undefined => "undefined"
  | .null => "null"
  | .bool true => "true"
  | .bool false => "false"
  | .number x => Number.text x
  | .string t => t
  | .object _ => []

mutual

/-- The primitive value of a value, going through at most `fuel` arrays inside of each other. -/
def toPrimitiveGo (h : Heap) : Nat → Value → Conv Value
  | 0, _ => .error (.limit .nesting)
  | fuel + 1, v =>
    match v with
    | .object r =>
      match (h.getD r default).body with
      | .plain => .ok (.string "[object Object]")
      | .array es => do
        let texts ← elementTexts h fuel es.toList
        return .string (Text.join "," texts)
      | .closure _ _ _ | .native _ => .error (.failure .functionAsPrimitive)
    | _ => .ok v

/-- The texts of the elements of an array; missing ones have an empty text. -/
def elementTexts (h : Heap) (fuel : Nat) : List Value → Conv (List Text)
  | [] => .ok []
  | v :: vs => do
    let t ← match v with
      | .undefined | .null => pure []
      | .object _ => do
        let p ← toPrimitiveGo h fuel v
        pure (primitiveText p)
      | _ => pure (primitiveText v)
    return t :: (← elementTexts h fuel vs)

end

/-- How deep arrays can stand in each other in a store. -/
def nestingBound (h : Heap) : Nat := h.size + 2

/-- The primitive value of a value. -/
def toPrimitive (h : Heap) (v : Value) : Conv Value := toPrimitiveGo h (nestingBound h) v

/-- The text of a value. -/
def toText (h : Heap) (v : Value) : Conv Text :=
  match v with
  | .object _ => do return primitiveText (← toPrimitive h v)
  | _ => .ok (primitiveText v)

/-- The number of a primitive value. -/
def primitiveNumber : Value → Conv Float
  | .undefined => .ok Binary64.nan
  | .null => .ok 0.0
  | .bool b => .ok (if b then 1.0 else 0.0)
  | .number x => .ok x
  | .string t => textToNumber t
  | .object _ => .ok Binary64.nan

/-- The number of a value. -/
def toNumber (h : Heap) (v : Value) : Conv Float := do
  match v with
  | .object _ => primitiveNumber (← toPrimitive h v)
  | _ => primitiveNumber v

/-- A whole number as a floating-point number. -/
def ofInteger (n : Int) : Float := (Binary64.ofInt? n).getD Binary64.infinity

/-- A number without its fraction; NaN is zero. -/
def integerPart (x : Float) : Float :=
  if Binary64.isNaN x then 0.0
  else if Binary64.isInfinite x then x
  else ofInteger (Binary64.truncate x)

/-- The number of a value without its fraction. -/
def toInteger (h : Heap) (v : Value) : Conv Float := return integerPart (← toNumber h v)

/-- A number as an unsigned word of 32 bits. -/
def word32 (x : Float) : Nat :=
  if Binary64.isFinite x then (Binary64.truncate x % 0x100000000).toNat else 0

/-- A word of 32 bits as a signed number. -/
def signed32 (n : Nat) : Int := if n ≥ 0x80000000 then (n : Int) - 0x100000000 else n

/-- The value as an unsigned word of 32 bits. -/
def toUint32 (h : Heap) (v : Value) : Conv Nat := return word32 (← toNumber h v)

/-- The value as a signed word of 32 bits. -/
def toInt32 (h : Heap) (v : Value) : Conv Int := return signed32 (← toUint32 h v)

/-- A number as a count; infinities are none. -/
def toCount (x : Float) : Conv Int :=
  if Binary64.isFinite x then .ok (Binary64.truncate x) else .error (.fault .infiniteCount)

/-- A count of things as a value. -/
def ofCount (n : Nat) : Value := .number (Float.ofNat n)

end Untangle.Sandbox
