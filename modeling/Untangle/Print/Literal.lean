import Untangle.Tree.Form
import Untangle.Text.Identifier
import Untangle.Number.Layout

set_option autoImplicit false

/-!
# Printing literals

Strings stand in single quotes.  A character is escaped if it would end the string, is no part of a
name beyond the tilde, or is half of a pair.  Whole numbers are printed with all their digits, others
with the fewest digits that read back.  Some literals of trees have no text: a number that is none or is
too large, and a regular expression with flags that are unknown or repeated.
-/

namespace Untangle.Print

/-- Why a tree cannot be printed. -/
inductive Refusal where
  /-- A part is missing or stands where it cannot. -/
  | malformed
  /-- A name is needed where there is none, or none that can be read back. -/
  | invalidName
  /-- A method is no function. -/
  | notFunction
  /-- A number is beyond all floating-point numbers. -/
  | tooLarge
  deriving DecidableEq, Repr

/-- The wording of a refusal. -/
def Refusal.message : Refusal → Text
  | .malformed | .notFunction => "the tree cannot be printed"
  | .invalidName => "Identifier.name must be a valid ECMAScript IdentifierName"
  | .tooLarge => "Number literal exceeds binary64; use Literal.bigint for exact integers"

/-! ## Strings -/

/-- Two characters for half of a pair each. -/
def pairEscape (c : CodePoint) : Text :=
  let offset := c - 0x10000
  "\\u" ++ Text.hexUpper 4 (0xD800 + offset / 0x400) ++ "\\u" ++
    Text.hexUpper 4 (0xDC00 + offset % 0x400)

/-- The escape of a character by its number. -/
def codeEscape (c : CodePoint) : Text :=
  if c ≤ 0xFF then "\\x" ++ Text.hexUpper 2 c
  else if c ≤ 0xFFFF then "\\u" ++ Text.hexUpper 4 c
  else pairEscape c

/-- A character of a string, given the character after it. -/
def quoteOne (c : CodePoint) (after : Option CodePoint) : Text :=
  match c with
  | 0x27 => "\\'"
  | 0x5C => "\\\\"
  | 0x0A => "\\n"
  | 0x0D => "\\r"
  | 0x09 => "\\t"
  | 0x08 => "\\b"
  | 0x0C => "\\f"
  | 0x0B => "\\x0b"
  | 0x00 => if (after.map Text.isAsciiDigit).getD false then "\\x00" else "\\0"
  | _ =>
    if c < 0x20 || Text.isSurrogate c || (c > 0x7E && !Text.isWideNamePart c) then codeEscape c
    else [c]

/-- The characters of a string between its quotes. -/
def quoteInner : Text → Text
  | [] => []
  | c :: r => quoteOne c r.head? ++ quoteInner r

/-- A string in quotes. -/
def quoted (t : Text) : Text := "'" ++ quoteInner t ++ "'"

/-! ## Numbers -/

/-- A floating-point number. -/
def realText (x : Float) : Text :=
  if Binary64.isInfinite x then if Binary64.isNegative x then "-1e400" else "1e400"
  else if Binary64.isInteger x then Text.ofInt (Binary64.truncate x)
  else Number.literalText x

/-- A number of a literal; a whole number that is no floating-point number is printed as the nearest
one. -/
def numeralText : Numeral → Except Refusal Text
  | .real x => if Binary64.isNaN x then .error .malformed else .ok (realText x)
  | .whole n =>
    match Binary64.ofInt? n with
    | none => .error .tooLarge
    | some x =>
      if Binary64.isInteger x && Binary64.truncate x == n then .ok (Text.ofInt n)
      else .ok (Number.literalText x)

/-- Whether a number is printed with a minus sign. -/
def isNegative : Numeral → Bool
  | .real x => x < 0
  | .whole n => n < 0

/-! ## Regular expressions -/

/-- The flags that regular expressions have. -/
def regexFlags : Text := "dgimsuvy"

/-- A regular expression; an empty one would be read as a comment. -/
def regexText (pattern flags : Text) : Except Refusal Text :=
  if flags.all regexFlags.contains && flags.eraseDups.length == flags.length then
    .ok ("/" ++ (if pattern.isEmpty then Text.of "(?:)" else pattern) ++ "/" ++ flags)
  else .error .malformed

/-- A literal. -/
def literalText : Literal → Except Refusal Text
  | .null => .ok "null"
  | .bool true => .ok "true"
  | .bool false => .ok "false"
  | .number n => numeralText n
  | .string t => .ok (quoted t)
  | .regex pattern flags => regexText pattern flags

end Untangle.Print
