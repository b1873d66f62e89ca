import Untangle.Text.Basic

set_option autoImplicit false

/-!
# Base64

Three bytes are four digits of six bits; the last group is filled up with `=`.  Reading takes the
standard alphabet only, no blanks, and a last group that is filled up; a group that is complete may
be followed by any number of `=`.
-/

namespace Untangle.Base64

/-- The digit of a value below 64. -/
def digit (v : Nat) : CodePoint :=
  if v < 26 then 0x41 + v
  else if v < 52 then 0x61 + (v - 26)
  else if v < 62 then 0x30 + (v - 52)
  else if v = 62 then 0x2B
  else 0x2F

/-- The value of a digit. -/
def value? (c : CodePoint) : Option Nat :=
  if 0x41 ≤ c && c ≤ 0x5A then some (c - 0x41)
  else if 0x61 ≤ c && c ≤ 0x7A then some (c - 0x61 + 26)
  else if 0x30 ≤ c && c ≤ 0x39 then some (c - 0x30 + 52)
  else if c = 0x2B then some 62
  else if c = 0x2F then some 63
  else none

/-- The digits of a list of bytes. -/
def encodeBytes : List Nat → Text
  | [] => []
  | [a] => [digit (a / 4), digit (a % 4 * 16), 0x3D, 0x3D]
  | [a, b] => [digit (a / 4), digit (a % 4 * 16 + b / 16), digit (b % 16 * 4), 0x3D]
  | a :: b :: c :: rest =>
    digit (a / 4) :: digit (a % 4 * 16 + b / 16) :: digit (b % 16 * 4 + c / 64) :: digit (c % 64) ::
      encodeBytes rest

/-- The digits of a text of code points up to U+00FF. -/
def encode? (t : Text) : Option Text :=
  if t.all (· < 0x100) then some (encodeBytes t) else none

/-- The digits of the group that is being read. -/
inductive Group where
  | zero
  | one (a : Nat)
  | two (a b : Nat)
  | three (a b c : Nat)

/-- What follows a complete last group: `=` and nothing else. -/
def onlyPadding (t : Text) : Bool := t.all (· == 0x3D)

/-- Reading after some digits of a group. -/
def decodeGo : Group → Text → Option Text
  | .zero, [] => some []
  | .zero, c :: r =>
    if c = 0x3D then (if onlyPadding r then some [] else none)
    else (value? c).bind fun v => decodeGo (.one v) r
  | .one _, [] => none
  | .one a, c :: r => (value? c).bind fun v => decodeGo (.two a v) r
  | .two _ _, [] => none
  | .two a b, c :: r =>
    if c = 0x3D then (if r = [0x3D] then some [a * 4 + b / 16] else none)
    else (value? c).bind fun v => decodeGo (.three a b v) r
  | .three _ _ _, [] => none
  | .three a b c, d :: r =>
    if d = 0x3D then
      (if r = [] then some [a * 4 + b / 16, b % 16 * 16 + c / 4] else none)
    else
      (value? d).bind fun v =>
        (decodeGo .zero r).map fun rest =>
          (a * 4 + b / 16) :: (b % 16 * 16 + c / 4) :: (c % 4 * 64 + v) :: rest

/-- The text of base64 digits, one code point a byte. -/
def decode? : Text → Option Text
  | 0x3D :: _ => none
  | t => decodeGo .zero t

end Untangle.Base64
