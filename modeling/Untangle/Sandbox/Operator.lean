import Untangle.Sandbox.Coercion
import Untangle.Tree.Form

set_option autoImplicit false

/-!
# Operators

Equality, arithmetic, order and bits.  Equality of objects is identity; a loose comparison converts
its operands step by step, and no comparison needs more than four steps.
-/

namespace Untangle.Sandbox

/-! ## Equality -/

/-- Equality without conversions. -/
def strictEquals : Value → Value → Bool
  | .undefined, .undefined => true
  | .null, .null => true
  | .bool a, .bool b => a == b
  | .number x, .number y => x == y
  | .string s, .string t => s == t
  | .object r, .object q => r == q
  | _, _ => false

/-- A loose comparison with at most `fuel` conversions. -/
def looseEqualsGo (h : Heap) : Nat → Value → Value → Conv Bool
  | 0, _, _ => .ok false
  | fuel + 1, l, r =>
    if l.kind == r.kind then .ok (strictEquals l r)
    else
      match l, r with
      | .undefined, .null | .null, .undefined => .ok true
      | .number x, .string t => do return x == (← textToNumber t)
      | .string t, .number y => do return (← textToNumber t) == y
      | .bool b, _ => looseEqualsGo h fuel (.number (if b then 1.0 else 0.0)) r
      | _, .bool b => looseEqualsGo h fuel l (.number (if b then 1.0 else 0.0))
      | .object _, .number _ | .object _, .string _ => do
        looseEqualsGo h fuel (← toPrimitive h l) r
      | .number _, .object _ | .string _, .object _ => do
        looseEqualsGo h fuel l (← toPrimitive h r)
      | _, _ => .ok false

/-- Equality with conversions. -/
def looseEquals (h : Heap) (l r : Value) : Conv Bool := looseEqualsGo h 5 l r

/-! ## Arithmetic -/

/-- Addition of numbers, or concatenation if one operand is a text. -/
def addValues (h : Heap) (l r : Value) : Conv Value := do
  let l ← toPrimitive h l
  let r ← toPrimitive h r
  match l, r with
  | .string _, _ | _, .string _ => return .string (primitiveText l ++ primitiveText r)
  | _, _ => return .number ((← primitiveNumber l) + (← primitiveNumber r))

/-- The remainder of a division that is cut off, with the sign of the dividend. -/
def remainderOf (x y : Float) : Float :=
  if Binary64.isZero y || Binary64.isInfinite x || Binary64.isNaN x || Binary64.isNaN y then
    Binary64.nan
  else Binary64.remainder x y

/-- A power.  Zero has no negative powers, a result that is too large is a positive infinity. -/
def powerOf (x y : Float) : Float :=
  if Binary64.isNaN y then Binary64.nan
  else
    let p := Float.pow x y
    if Binary64.isFinite x && Binary64.isFinite y && Binary64.isInfinite p then
      if Binary64.isZero x then Binary64.nan else Binary64.infinity
    else p

/-- The outcome of an order on an operand pair by its sign operator. -/
def byOrder (op : BinaryOp) (less equal : Bool) : Bool :=
  match op with
  | .less => less
  | .lessEq => less || equal
  | .greater => !less && !equal
  | _ => !less

/-- A comparison by order: of two texts by their characters, else of numbers. -/
def compareValues (h : Heap) (op : BinaryOp) (l r : Value) : Conv Bool := do
  let l ← toPrimitive h l
  let r ← toPrimitive h r
  match l, r with
  | .string s, .string t => return byOrder op (Text.less s t) (s == t)
  | _, _ =>
    let x ← primitiveNumber l
    let y ← primitiveNumber r
    if Binary64.isNaN x || Binary64.isNaN y then return false
    return byOrder op (x < y) (x == y)

/-- An operation on the bits of whole numbers.  A negative number has the bits of the number `-n - 1` turned
around, so that it has ones without end. -/
def bitwise (f : Bool → Bool → Bool) : Int → Int → Int
  | .ofNat a, .ofNat b => onBits f a b
  | .ofNat a, .negSucc b => onBits (fun x y => f x !y) a b
  | .negSucc a, .ofNat b => onBits (fun x y => f (!x) y) a b
  | .negSucc a, .negSucc b => onBits (fun x y => f (!x) !y) a b
where
  /-- An operation on the bits of natural numbers, where ones without end may result. -/
  onBits (f : Bool → Bool → Bool) (a b : Nat) : Int :=
    if f false false then .negSucc (Nat.bitwise (fun x y => !f x y) a b) else Nat.bitwise f a b

/-- A whole number as a signed word of 32 bits; on the way it becomes a floating-point number. -/
def wrapped (n : Int) : Int := signed32 (word32 (ofInteger n))

/-- Shifts of words of 32 bits by the last five bits of the right operand. -/
def shiftValues (h : Heap) (op : BinaryOp) (l r : Value) : Conv Float := do
  let count := (← toUint32 h r) &&& 31
  match op with
  | .shiftLeft => return ofInteger (wrapped ((← toInt32 h l) <<< count))
  | .shiftRight => return ofInteger ((← toInt32 h l) >>> count)
  | _ => return ofInteger ((← toUint32 h l) >>> count : Nat)

/-- Operations on the bits of signed words of 32 bits. -/
def bitValues (h : Heap) (op : BinaryOp) (l r : Value) : Conv Float := do
  let a ← toInt32 h l
  let b ← toInt32 h r
  match op with
  | .bitAnd => return ofInteger (wrapped (bitwise (· && ·) a b))
  | .bitOr => return ofInteger (wrapped (bitwise (· || ·) a b))
  | _ => return ofInteger (wrapped (bitwise (· ^^ ·) a b))

/-- An operation on numbers. -/
def numberOperation (op : BinaryOp) (x y : Float) : Float :=
  match op with
  | .sub => x - y
  | .mul => x * y
  | .div => x / y
  | .mod => remainderOf x y
  | _ => powerOf x y

/-- An operation on two values that looks at objects but changes none; the membership test is not
among them. -/
def pureOperation (h : Heap) (op : BinaryOp) (l r : Value) : Conv Value := do
  match op with
  | .add => addValues h l r
  | .equal => return .bool (← looseEquals h l r)
  | .notEqual => return .bool (!(← looseEquals h l r))
  | .same => return .bool (strictEquals l r)
  | .notSame => return .bool (!strictEquals l r)
  | .sub | .mul | .div | .mod | .pow =>
    let x ← toNumber h l
    let y ← toNumber h r
    return .number (numberOperation op x y)
  | .shiftLeft | .shiftRight | .shiftRightZero => return .number (← shiftValues h op l r)
  | .bitAnd | .bitOr | .bitXor => return .number (← bitValues h op l r)
  | .less | .greater | .lessEq | .greaterEq => return .bool (← compareValues h op l r)
  | .member | .instanceOf | .other _ => .error (.failure (.operator op.symbol))

end Untangle.Sandbox
