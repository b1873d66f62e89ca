import Untangle.Number.Layout

set_option autoImplicit false

/-!
# Numbers in other bases

The digits of a number in a base from 2 to 36.  Fraction digits are produced until they tell the number
apart from its neighbours, then rounded, a half to the even digit.  Digits of the whole part that lie
below the precision of the number are zeros; the others come from repeated division.
-/

namespace Untangle.Number

/-- Adds one to the last of the digits (given last first) and carries; `true` if the carry goes out
at the front. -/
def carry (base : Nat) : List Nat → List Nat × Bool
  | [] => ([], true)
  | d :: ds => if d + 1 < base then ((d + 1) :: ds, false) else carry base ds

/-- The digits after the point, last first, and whether the whole part grows by one.  `delta` is the
distance that still tells the number from its neighbours. -/
def fractionDigits (base : Nat) (baseF : Float) : Nat → Float → Float → List Nat → List Nat × Bool
  | 0, _, _, digits => (digits, false)
  | fuel + 1, fraction, delta, digits =>
    if fraction ≥ delta then
      let scaled := fraction * baseF
      let delta' := delta * baseF
      let digit := (Binary64.truncate scaled).toNat
      let rest := scaled - Float.ofNat digit
      if (rest > 0.5 || (rest == 0.5 && digit % 2 == 1)) && rest + delta' > 1.0 then
        carry base (digit :: digits)
      else fractionDigits base baseF fuel rest delta' (digit :: digits)
    else (digits, false)

/-- Divides by the base until the quotient is below 2^53 and counts the divisions. -/
def dropZeros (baseF : Float) : Nat → Float → Nat → Float × Nat
  | 0, x, n => (x, n)
  | fuel + 1, x, n =>
    if x / baseF ≥ 9007199254740992.0 then dropZeros baseF fuel (x / baseF) (n + 1) else (x, n)

/-- The digits of a whole number by repeated division, in front of `rest`. -/
def wholeDigits (baseF : Float) : Nat → Float → Text → Text
  | 0, _, rest => rest
  | fuel + 1, x, rest =>
    let r := Binary64.remainder x baseF
    let x' := (x - r) / baseF
    let out := Text.digitLower (Binary64.truncate r).toNat :: rest
    if x' ≤ 0.0 then out else wholeDigits baseF fuel x' out

/-- The digits of a whole number that is not negative. -/
def wholeText (base : Nat) (x : Float) : Text :=
  let baseF := Float.ofNat base
  let (y, n) := dropZeros baseF 1100 x 0
  wholeDigits baseF 1100 y (List.replicate n 0x30)

/-- The text of a positive finite number in a base. -/
def positiveRadix (base : Nat) (x : Float) : Text :=
  let baseF := Float.ofNat base
  let whole := Float.ofInt (Binary64.floor x)
  let half := 0.5 * (Binary64.successor x - x)
  let delta := if Binary64.tiny > half then Binary64.tiny else half
  let (digits, grows) := fractionDigits base baseF 1200 (x - whole) delta []
  let head := wholeText base (if grows then whole + 1.0 else whole)
  if digits.isEmpty then head
  else head ++ 0x2E :: digits.reverse.map Text.digitLower

/-- The text of a number in a base from 2 to 36. -/
def radixText (base : Nat) (x : Float) : Text :=
  if base = 10 || !Binary64.isFinite x then text x
  else if Binary64.isZero x then "0"
  else if Binary64.isNegative x then 0x2D :: positiveRadix base (-x)
  else positiveRadix base x

end Untangle.Number
