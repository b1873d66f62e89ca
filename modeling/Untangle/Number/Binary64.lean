set_option autoImplicit false

/-!
# Binary floating point, exactly

A finite number is `± mantissa · 2 ^ exponent` with natural mantissa.  Rounding to integers, the
remainder and the neighbours of a number are computed on this form, in exact arithmetic.
-/

namespace Untangle.Binary64

/-- A finite number as sign, mantissa and power of two. -/
structure Parts where
  negative : Bool
  mantissa : Nat
  exponent : Int
  deriving Repr, DecidableEq

/-- Positive infinity. -/
def infinity : Float := Float.ofBits 0x7FF0000000000000

/-- The number that is none. -/
def nan : Float := Float.ofBits 0x7FF8000000000000

/-- The bit of the sign. -/
def signBit : Nat := 0x8000000000000000

/-- The bit before the fraction of a number with full precision. -/
def leadingBit : Nat := 0x10000000000000

/-- The sign bit is set, also of zeros. -/
def isNegative (x : Float) : Bool := x.toBits.toNat ≥ signBit

/-- The biased exponent field. -/
def exponentField (x : Float) : Nat := x.toBits.toNat / leadingBit % 0x800

/-- The fraction field. -/
def fractionField (x : Float) : Nat := x.toBits.toNat % leadingBit

/-- Neither infinite nor NaN. -/
def isFinite (x : Float) : Bool := exponentField x != 2047

/-- NaN. -/
def isNaN (x : Float) : Bool := exponentField x == 2047 && fractionField x != 0

/-- One of the two infinities. -/
def isInfinite (x : Float) : Bool := exponentField x == 2047 && fractionField x == 0

/-- A zero of either sign. -/
def isZero (x : Float) : Bool := x.toBits.toNat % signBit == 0

/-- The parts of a finite number. -/
def parts (x : Float) : Parts :=
  if exponentField x == 0 then ⟨isNegative x, fractionField x, -1074⟩
  else ⟨isNegative x, leadingBit + fractionField x, (exponentField x : Int) - 1075⟩

/-- The number with the given sign whose magnitude is `m · 2 ^ e`, which must be one exactly. -/
def ofParts (negative : Bool) (m : Nat) (e : Int) : Float :=
  let magnitude : Nat :=
    if m = 0 then 0
    else
      let top := e + m.log2
      if top < -1022 then
        if e ≥ -1074 then m <<< (e + 1074).toNat else m >>> (-1074 - e).toNat
      else
        let shifted := if m.log2 ≤ 52 then m <<< (52 - m.log2) else m >>> (m.log2 - 52)
        (top + 1023).toNat * leadingBit + (shifted - leadingBit)
  Float.ofBits (UInt64.ofNat ((if negative then signBit else 0) + magnitude))

/-- The integer that remains when the fraction of a finite number is cut off. -/
def truncate (x : Float) : Int :=
  let p := parts x
  let n : Nat :=
    if p.exponent ≥ 0 then p.mantissa <<< p.exponent.toNat
    else p.mantissa >>> (-p.exponent).toNat
  if p.negative then -(n : Int) else n

/-- A finite number without a fraction. -/
def isInteger (x : Float) : Bool :=
  let p := parts x
  isFinite x && (p.exponent ≥ 0 || p.mantissa % (1 <<< (-p.exponent).toNat) == 0)

/-- The greatest integer that is not above a finite number. -/
def floor (x : Float) : Int :=
  if isNegative x && !isInteger x then truncate x - 1 else truncate x

/-- The least integer that is not below a finite number. -/
def ceil (x : Float) : Int :=
  if !isNegative x && !isInteger x then truncate x + 1 else truncate x

/-- The nearest number to a natural number, ties to even; none where it lies beyond the range. -/
def ofNat? (n : Nat) : Option Float :=
  let x := Float.ofNat n
  if isFinite x then some x else none

/-- The nearest number to an integer, ties to even; none where it lies beyond the range. -/
def ofInt? (n : Int) : Option Float :=
  (ofNat? n.natAbs).map fun x => if n < 0 then -x else x

/-- The remainder of truncating division of finite numbers, with the sign of the dividend. -/
def remainder (x y : Float) : Float :=
  if isInfinite y then x
  else
    let p := parts x
    let q := parts y
    let e := min p.exponent q.exponent
    let a := p.mantissa <<< (p.exponent - e).toNat
    let b := q.mantissa <<< (q.exponent - e).toNat
    ofParts p.negative (a % b) e

/-- The next number above a finite number that is not negative. -/
def successor (x : Float) : Float := Float.ofBits (UInt64.ofNat (x.toBits.toNat + 1))

/-- The least positive number. -/
def tiny : Float := Float.ofBits 1

end Untangle.Binary64
