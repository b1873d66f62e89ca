import Untangle.Number.Binary64
import Untangle.Text.Digit
import Untangle.Text.Space
import Untangle.Text.Case

set_option autoImplicit false

/-!
# Reading numbers

A decimal is read to the nearest number, ties to even.  Whole numbers in bases 2, 8, 16 and those of
`parseInt` are read exactly first; beyond the range of the format they have no value, which is a
fault of its own, since decimals out of range become infinite instead.
-/

namespace Untangle.Number

/-- Why a whole number could not be read. -/
inductive ReadFault where
  /-- The number lies beyond the greatest finite number. -/
  | tooLarge
  /-- The number has more digits than are converted. -/
  | tooLong (digits : Nat)
  deriving Repr, DecidableEq

/-- The nearest number to `m · 10 ^ e`. -/
def ofDecimal (m : Nat) (e : Int) : Float :=
  if m = 0 then 0.0
  else
    let top := ((Nat.log2 m : Int) * 30103 / 100000) + e
    if top > 310 then Binary64.infinity
    else if top < -345 then 0.0
    else if e ≥ 0 then Float.ofScientific m false e.toNat
    else Float.ofScientific m true (-e).toNat

/-- Digits at the head of a text, and the rest. -/
def spanDigits (isDigit : CodePoint → Bool) (t : Text) : Text × Text :=
  (t.takeWhile isDigit, t.dropWhile isDigit)

/-- A sign at the head of a text: whether it is a minus, and the rest. -/
def readSign : Text → Bool × Text
  | 0x2D :: r => (true, r)
  | 0x2B :: r => (false, r)
  | t => (false, t)

/-- An exponent at the head of a text; without digits it is none and nothing is read. -/
def readExponent (isDigit : CodePoint → Bool) (t : Text) : Int × Text :=
  match t with
  | c :: r =>
    if c == 0x65 || c == 0x45 then
      let (negative, r') := readSign r
      let (digits, rest) := spanDigits isDigit r'
      if digits.isEmpty then (0, t)
      else
        let n : Int := Text.decimalNumber digits
        (if negative then -n else n, rest)
    else (0, t)
  | [] => (0, t)

/-- An unsigned decimal at the head of a text, and the rest. -/
def readUnsigned? (isDigit : CodePoint → Bool) (t : Text) : Option (Float × Text) :=
  let (whole, r) := spanDigits isDigit t
  let (fraction, rest) :=
    match r with
    | 0x2E :: r' => spanDigits isDigit r'
    | _ => ([], r)
  if whole.isEmpty && fraction.isEmpty then none
  else
    let (e, rest') := readExponent isDigit rest
    some (ofDecimal (Text.decimalNumber (whole ++ fraction)) (e - fraction.length), rest')

/-- A decimal at the head of a text with an optional sign, `Infinity` included, and the rest. -/
def readDecimal? (t : Text) : Option (Float × Text) :=
  let (negative, r) := readSign t
  let infinityWord := Text.of "Infinity"
  let magnitude :=
    if infinityWord.isPrefixOf r then some (Binary64.infinity, r.drop infinityWord.length)
    else readUnsigned? Text.isDecimal r
  magnitude.map fun (x, rest) => (if negative then -x else x, rest)

/-- The value of a digit of a base up to 36, letters in lower case. -/
def digitValue? (c : CodePoint) : Option Nat :=
  if Text.isAsciiDigit c then some (c - 0x30)
  else if 0x61 ≤ c && c ≤ 0x7A then some (c - 0x57)
  else none

/-- A digit of the base, letters in lower case. -/
def isDigitOf (base : Nat) (c : CodePoint) : Bool :=
  match digitValue? c with
  | some v => v < base
  | none => false

/-- The number that digits of a base denote. -/
def digitsNumber (base : Nat) (t : Text) : Nat :=
  t.foldl (fun n c => base * n + (digitValue? c).getD 0) 0

/-- The nearest number to a natural number, or the fault that it is out of range. -/
def ofNatural (n : Nat) : Except ReadFault Float :=
  match Binary64.ofNat? n with
  | some x => .ok x
  | none => .error .tooLarge

/-- A whole number after `0x`, `0o` or `0b`; the whole text must be read. -/
def readPrefixed? : Text → Option (Except ReadFault Float)
  | 0x30 :: mark :: digits =>
    let base :=
      if mark == 0x78 || mark == 0x58 then 16
      else if mark == 0x6F || mark == 0x4F then 8
      else if mark == 0x62 || mark == 0x42 then 2
      else 0
    let lowered := digits.map fun c => if 0x41 ≤ c && c ≤ 0x5A then c + 0x20 else c
    if base = 0 || digits.isEmpty || !lowered.all (isDigitOf base) then none
    else some (ofNatural (digitsNumber base lowered))
  | _ => none

/-- The number that a text denotes: blank texts are zero, texts that are no number are NaN. -/
def ofText (t : Text) : Except ReadFault Float :=
  let stripped := Text.trimBy (· == 0xFEFF) (Text.trim t)
  if stripped.isEmpty then .ok 0.0
  else
    match readPrefixed? stripped with
    | some r => r
    | none =>
      match readDecimal? stripped with
      | some (x, []) => .ok x
      | _ => .ok Binary64.nan

/-- The decimal at the head of a text, blanks before it apart; NaN if there is none. -/
def leadingDecimal (t : Text) : Float :=
  match readDecimal? (Text.trim t) with
  | some (x, _) => x
  | none => Binary64.nan

/-- Whether digits of the base are limited in number when they are converted: they are unless the
base is a power of two. -/
def isLimitedBase (base : Nat) : Bool :=
  !(base == 2 || base == 4 || base == 8 || base == 16 || base == 32)

/-- A text that begins with `0x` or `0X`. -/
def hasHexMark : Text → Bool
  | 0x30 :: c :: _ => c == 0x78 || c == 0x58
  | _ => false

/-- The whole number at the head of a text.  Base 0 stands for 10, or 16 after `0x`; NaN if the base
is none or there is no digit. -/
def leadingWhole (t : Text) (base : Int) : Except ReadFault Float :=
  let (negative, body) := readSign (Text.trim t)
  let marked := hasHexMark body
  let radix : Int := if base = 0 then (if marked then 16 else 10) else base
  let rest := if marked && (base = 0 || base = 16) then body.drop 2 else body
  if radix < 2 || 36 < radix then .ok Binary64.nan
  else
    let digits := (Text.lower rest).takeWhile (isDigitOf radix.toNat)
    if digits.isEmpty then .ok Binary64.nan
    else if isLimitedBase radix.toNat && 4300 < digits.length then .error (.tooLong digits.length)
    else
      match ofNatural (digitsNumber radix.toNat digits) with
      | .ok x => .ok (if negative && !Binary64.isZero x then -x else x)
      | .error e => .error e

end Untangle.Number
