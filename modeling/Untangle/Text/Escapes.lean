import Untangle.Text.Printable

set_option autoImplicit false

/-!
# Escapes in printed scripts

Printed scripts write many characters as `\uXXXX` or `\xXX`.  Decoding puts the characters
themselves where that is safe: a printable character that delimits nothing.  An escaped backslash is
passed over as a unit, and two escapes that form a surrogate pair stand for one character.
-/

namespace Untangle.Escapes

/-- Characters that change the meaning of a string, template or regular expression literal when they
stand there bare: quotes, the backslash, `$`, `/` and the signs of regular expressions. -/
def isDelimiter (c : CodePoint) : Bool :=
  (Text.of "'\"`\\$/.*+?()[]\x7b\x7d|^").contains c

/-- The ends of lines inside a script. -/
def isTerminator (c : CodePoint) : Bool := c == 0x0A || c == 0x0D || c == 0x2028 || c == 0x2029

/-- A character that may stand for its escape. -/
def isSafe (c : CodePoint) : Bool := !isDelimiter c && !isTerminator c && Text.isPrintable c

/-- The number of four hexadecimal digits at the head of a text. -/
def hex4? : Text → Option Nat
  | a :: b :: c :: d :: _ =>
    if Text.isHexDigit a && Text.isHexDigit b && Text.isHexDigit c && Text.isHexDigit d then
      some (Text.hexNumber [a, b, c, d])
    else none
  | _ => none

/-- The number of two hexadecimal digits at the head of a text. -/
def hex2? : Text → Option Nat
  | a :: b :: _ =>
    if Text.isHexDigit a && Text.isHexDigit b then some (Text.hexNumber [a, b]) else none
  | _ => none

/-- A letter `u` of either case, which marks four digits. -/
def isUnitMark (c : CodePoint) : Bool := c == 0x75 || c == 0x55

/-- A letter `x` of either case, which marks two digits. -/
def isByteMark (c : CodePoint) : Bool := c == 0x78 || c == 0x58

/-- The second half of a surrogate pair written as an escape at the head of a text. -/
def lowHalf? : Text → Option Nat
  | 0x5C :: u :: r =>
    if isUnitMark u then
      (hex4? r).bind fun low => if 0xDC00 ≤ low && low ≤ 0xDFFF then some low else none
    else none
  | _ => none

/-- An escape at the head of a text: the code point it denotes, `none` for an escaped backslash, and
how many characters it takes. -/
def escapeAt? : Text → Option (Option CodePoint × Nat)
  | 0x5C :: 0x5C :: _ => some (none, 2)
  | 0x5C :: m :: r =>
    if isUnitMark m then
      match hex4? r with
      | none => none
      | some high =>
        match if 0xD800 ≤ high && high ≤ 0xDBFF then lowHalf? (r.drop 4) else none with
        | some low => some (some (0x10000 + (high - 0xD800) * 0x400 + (low - 0xDC00)), 12)
        | none => some (some high, 6)
    else if isByteMark m then (hex2? r).map fun code => (some code, 4)
    else none
  | _ => none

/-- Decoding; the first argument counts the characters of an escape that still have to be passed
over, and `keep` tells whether they are written. -/
def decodeGo : Nat → Bool → Text → Text
  | _, _, [] => []
  | skip + 1, keep, c :: r => if keep then c :: decodeGo skip keep r else decodeGo skip keep r
  | 0, _, c :: r =>
    match escapeAt? (c :: r) with
    | none => c :: decodeGo 0 true r
    | some (code?, width) =>
      match code?.filter isSafe with
      | some code => code :: decodeGo (width - 1) false r
      | none => c :: decodeGo (width - 1) true r

/-- The script with its safe escapes replaced by the characters they denote. -/
def decode (t : Text) : Text := decodeGo 0 true t

end Untangle.Escapes
