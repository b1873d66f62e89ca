import Untangle.Number.Shortest
import Untangle.Text.Digit

set_option autoImplicit false

/-!
# Decimal texts of numbers

Three ways to write a number in decimal: the one of scripts (`toString`), the one of numeric
literals in printed scripts, and the one with a fixed number of places.  The second one lays out the
digits of the shortest decimal, and the first one takes them from there; the two differ in where the
exponent form begins and how it looks.
-/

namespace Untangle.Number

/-- Digits `d₁d₂…` with the point after the first `point` of them: `0.d₁d₂… · 10 ^ point`. -/
structure Digits where
  digits : Text
  point : Int

/-- The digits of a positive finite number, without zeros at either end. -/
def shortestDigits (x : Float) : Digits :=
  let d := Shortest.decimal x
  let all := Text.ofNat d.digits
  let kept := (all.reverse.dropWhile (· == 0x30)).reverse
  ⟨kept, all.length + d.scale⟩

/-- `n` zeros. -/
def zeros (n : Int) : Text := List.replicate n.toNat 0x30

/-- The script layout: plain digits up to 21 digits before the point, zeros after the point down to
`1e-6`, and exponent form otherwise. -/
def scriptLayout (d : Digits) : Text :=
  let count : Int := d.digits.length
  if count ≤ d.point && d.point ≤ 21 then d.digits ++ zeros (d.point - count)
  else if 0 < d.point && d.point ≤ 21 then
    d.digits.take d.point.toNat ++ 0x2E :: d.digits.drop d.point.toNat
  else if -6 < d.point && d.point ≤ 0 then 0x30 :: 0x2E :: zeros (-d.point) ++ d.digits
  else
    let e := d.point - 1
    let head := if d.digits.length = 1 then d.digits else d.digits.take 1 ++ 0x2E :: d.digits.drop 1
    head ++ 0x65 :: (if e ≥ 0 then 0x2B else 0x2D) :: Text.ofNat e.natAbs

/-- The literal layout: positional from `1e-4` to `1e16`, with at least one place after the point,
otherwise an exponent of at least two digits. -/
def literalLayout (d : Digits) : Text :=
  let count : Int := d.digits.length
  if -4 < d.point && d.point ≤ 16 then
    if d.point ≤ 0 then 0x30 :: 0x2E :: zeros (-d.point) ++ d.digits
    else if count ≤ d.point then d.digits ++ zeros (d.point - count) ++ [0x2E, 0x30]
    else d.digits.take d.point.toNat ++ 0x2E :: d.digits.drop d.point.toNat
  else
    let e := d.point - 1
    let head := if d.digits.length = 1 then d.digits else d.digits.take 1 ++ 0x2E :: d.digits.drop 1
    let power := Text.ofNat e.natAbs
    head ++ 0x65 :: (if e ≥ 0 then 0x2B else 0x2D) ::
      (if power.length < 2 then 0x30 :: power else power)

/-- The text of a finite number in the literal layout. -/
def literalText (x : Float) : Text :=
  let body := if Binary64.isZero x then Text.of "0.0"
    else literalLayout (shortestDigits (if Binary64.isNegative x then -x else x))
  if Binary64.isNegative x then 0x2D :: body else body

/-- What stands before the first of a mark, and after it. -/
def partition (mark : CodePoint) (t : Text) : Text × Text :=
  (t.takeWhile (· != mark), (t.dropWhile (· != mark)).drop 1)

/-- The digits of a number in the literal layout, without zeros at either end. -/
def literalDigits (t : Text) : Digits :=
  let (mantissa, exponent) := partition 0x65 t
  let (whole, fraction) := partition 0x2E mantissa
  let all := whole ++ fraction
  let power := if exponent.isEmpty then 0 else (Text.integer? exponent).getD 0
  let stripped := all.dropWhile (· == 0x30)
  let kept := (stripped.reverse.dropWhile (· == 0x30)).reverse
  ⟨if kept.isEmpty then [0x30] else kept, whole.length + power - (all.length - stripped.length : Int)⟩

/-- The text of a positive finite number in a script; unless it is a small whole number, its digits are those
of the literal layout. -/
def positiveText (x : Float) : Text :=
  if Binary64.isInteger x && x < 9007199254740992.0 then Text.ofInt (Binary64.truncate x)
  else scriptLayout (literalDigits (literalText x))

/-- The text of a number in a script. -/
def text (x : Float) : Text :=
  if Binary64.isNaN x then "NaN"
  else if Binary64.isZero x then "0"
  else if Binary64.isInfinite x then (if Binary64.isNegative x then "-Infinity" else "Infinity")
  else if Binary64.isNegative x then 0x2D :: positiveText (-x)
  else positiveText x

/-- `num / den` rounded to the nearest natural number, a half to the even neighbour. -/
def roundHalfEven (num den : Nat) : Nat :=
  let q := num / den
  let r := num % den
  if 2 * r < den || (2 * r == den && q % 2 == 0) then q else q + 1

/-- The text of a finite number with `places` digits after the point; the exact value is rounded, a
half to the even neighbour, and the sign of zero is kept. -/
def fixedText (x : Float) (places : Nat) : Text :=
  let p := Binary64.parts x
  let scaled := roundHalfEven ((p.mantissa * Shortest.tenTo places) <<< p.exponent.toNat)
    (1 <<< (-p.exponent).toNat)
  let all := Text.ofNat scaled
  let filled := List.replicate (places + 1 - all.length) 0x30 ++ all
  let whole := filled.take (filled.length - places)
  let body := if places = 0 then whole else whole ++ 0x2E :: filled.drop (filled.length - places)
  if p.negative then 0x2D :: body else body

end Untangle.Number
