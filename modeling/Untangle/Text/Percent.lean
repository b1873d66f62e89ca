import Untangle.Text.Basic

set_option autoImplicit false

/-!
# Percent codings

Two codings that write characters as `%` and hexadecimal digits: the legacy one with `%XX` and
`%uXXXX` for code points, and the one of URI components, with `%XX` for bytes of UTF-8.
-/

/-! ## UTF-8

One to four bytes per code point.  Surrogates have no form, and reading accepts the shortest form
only, so every code point that is no surrogate has exactly one form. -/

namespace Untangle.Utf8

/-- The bytes of a code point that is no surrogate. -/
def encodeOne (c : CodePoint) : List Nat :=
  if c < 0x80 then [c]
  else if c < 0x800 then [0xC0 + c / 0x40, 0x80 + c % 0x40]
  else if c < 0x10000 then [0xE0 + c / 0x1000, 0x80 + c / 0x40 % 0x40, 0x80 + c % 0x40]
  else [0xF0 + c / 0x40000, 0x80 + c / 0x1000 % 0x40, 0x80 + c / 0x40 % 0x40, 0x80 + c % 0x40]

/-- A byte that goes on with a code point. -/
def isTail (b : Nat) : Bool := 0x80 ≤ b && b ≤ 0xBF

/-- The code point at the head of a list of bytes, and how many bytes it takes. -/
def decodeOne : List Nat → Option (CodePoint × Nat)
  | [] => none
  | a :: rest =>
    if a < 0x80 then some (a, 1)
    else if a < 0xC2 then none
    else if a < 0xE0 then
      match rest with
      | b :: _ => if isTail b then some ((a - 0xC0) * 0x40 + (b - 0x80), 2) else none
      | _ => none
    else if a < 0xF0 then
      match rest with
      | b :: c :: _ =>
        let code := (a - 0xE0) * 0x1000 + (b - 0x80) * 0x40 + (c - 0x80)
        if isTail b && isTail c && 0x800 ≤ code && !Text.isSurrogate code then some (code, 3)
        else none
      | _ => none
    else if a < 0xF5 then
      match rest with
      | b :: c :: d :: _ =>
        let code := (a - 0xF0) * 0x40000 + (b - 0x80) * 0x1000 + (c - 0x80) * 0x40 + (d - 0x80)
        if isTail b && isTail c && isTail d && 0x10000 ≤ code && code < 0x110000 then
          some (code, 4)
        else none
      | _ => none
    else none

/-- The text of a list of bytes; `skip` bytes belong to the code point read last. -/
def decodeGo : Nat → List Nat → Option Text
  | _, [] => some []
  | skip + 1, _ :: rest => decodeGo skip rest
  | 0, a :: rest =>
    match decodeOne (a :: rest) with
    | some (c, width) => (decodeGo (width - 1) rest).map (c :: ·)
    | none => none

/-- The text of a list of bytes, if every byte belongs to a well-formed code point. -/
def decode? (bytes : List Nat) : Option Text := decodeGo 0 bytes

end Untangle.Utf8

/-! ## Codings with percent signs -/

namespace Untangle.Percent

/-! ## The legacy coding -/

/-- Characters that the legacy coding writes as they are: letters, digits and `@*_+-./`. -/
def isPlain (c : CodePoint) : Bool :=
  Text.isAsciiLetter c || Text.isAsciiDigit c || c == 0x40 || c == 0x2A || c == 0x5F ||
  c == 0x2B || c == 0x2D || c == 0x2E || c == 0x2F

/-- The legacy form of one code point. -/
def escapeOne (c : CodePoint) : Text :=
  if isPlain c then [c]
  else if c < 0x100 then 0x25 :: Text.hexUpper 2 c
  else 0x25 :: 0x75 :: Text.hexUpper 4 c

/-- The legacy form of a text. -/
def escape (t : Text) : Text := t.flatMap escapeOne

/-- The code point of a legacy form at the head of a text, and how many characters it takes. -/
def escapeAt? : Text → Option (CodePoint × Nat)
  | 0x25 :: 0x75 :: a :: b :: c :: d :: _ =>
    if Text.isHexDigit a && Text.isHexDigit b && Text.isHexDigit c && Text.isHexDigit d then
      some (Text.hexNumber [a, b, c, d], 6)
    else none
  | 0x25 :: a :: b :: _ =>
    if Text.isHexDigit a && Text.isHexDigit b then some (Text.hexNumber [a, b], 3) else none
  | _ => none

/-- Reading of the legacy coding; `skip` characters belong to the form read last. -/
def unescapeGo : Nat → Text → Text
  | _, [] => []
  | skip + 1, _ :: r => unescapeGo skip r
  | 0, c :: r =>
    match escapeAt? (c :: r) with
    | some (code, width) => code :: unescapeGo (width - 1) r
    | none => c :: unescapeGo 0 r

/-- Reading of the legacy coding; what is no form stands for itself. -/
def unescape (t : Text) : Text := unescapeGo 0 t

/-! ## URI components -/

/-- Characters that a URI component holds as they are: letters, digits and `-_.!~*'()`. -/
def isUnreserved (c : CodePoint) : Bool :=
  Text.isAsciiLetter c || Text.isAsciiDigit c || c == 0x2D || c == 0x5F || c == 0x2E || c == 0x21 ||
  c == 0x7E || c == 0x2A || c == 0x27 || c == 0x28 || c == 0x29

/-- A byte as `%XX`. -/
def byteForm (b : Nat) : Text := 0x25 :: Text.hexUpper 2 b

/-- The form of one code point inside a URI component; a surrogate has none. -/
def encodeOne? (c : CodePoint) : Option Text :=
  if isUnreserved c then some [c]
  else if Text.isSurrogate c then none
  else some ((Utf8.encodeOne c).flatMap byteForm)

/-- The URI component of a text without surrogates. -/
def encode? (t : Text) : Option Text := (t.mapM encodeOne?).map List.flatten

/-- The byte of a `%XX` at the head of a text. -/
def byteAt? : Text → Option Nat
  | 0x25 :: a :: b :: _ =>
    if Text.isHexDigit a && Text.isHexDigit b then some (Text.hexNumber [a, b]) else none
  | _ => none

/-- Reading of a URI component.  The first argument holds the bytes of the open run of `%XX`,
reversed; the second counts the characters that belong to the byte read last. -/
def decodeGo : List Nat → Nat → Text → Option Text
  | bytes, _, [] => Utf8.decode? bytes.reverse
  | bytes, skip + 1, _ :: r => decodeGo bytes skip r
  | bytes, 0, c :: r =>
    match byteAt? (c :: r) with
    | some b => decodeGo (b :: bytes) 2 r
    | none =>
      match Utf8.decode? bytes.reverse, decodeGo [] 0 r with
      | some done, some rest => some (done ++ c :: rest)
      | _, _ => none

/-- The text of a URI component: each longest run of `%XX` must be UTF-8, and a `%` that begins no
`%XX` stands for itself. -/
def decode? (t : Text) : Option Text := decodeGo [] 0 t

end Untangle.Percent
