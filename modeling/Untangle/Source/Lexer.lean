import Untangle.Source.Cursor
import Untangle.Source.Token
import Untangle.Text.Identifier
import Untangle.Number.Reading

set_option autoImplicit false

/-!
# Reading tokens

The reader of one token: names with escapes, signs, numbers in four bases, strings, and the pieces of
templates.  A regular expression cannot be told from a division here; it is read by
`Lex.regexLiteral` when the grammar asks for one.
-/

namespace Untangle.Source

/-- A character that a name can start with; a backslash opens an escape. -/
def startsName (c : CodePoint) : Bool :=
  Text.isIdStart c || c == 0x24 || c == 0x5F || c == 0x5C

/-- A character that a name can go on with. -/
def continuesName (c : CodePoint) : Bool :=
  Text.isIdContinue c || startsName c || c == 0x200C || c == 0x200D

/-- An octal digit. -/
def isOctalDigit (c : CodePoint) : Bool := 0x30 ≤ c && c ≤ 0x37

namespace Lex

/-! ## Escapes -/

/-- Reads exactly `width` hexadecimal digits; stops before the first character that is none. -/
def hexDigits : Nat → Nat → Lex (Option Nat)
  | 0, code => return some code
  | width + 1, code => do
    match Text.hexValue? (← peek) with
    | some d => skip 1; hexDigits width (16 * code + d)
    | none => return none

/-- Reads the rest of an escape of the form `\u\x7b1F600\x7d`, after the brace. -/
def bracedCode : Lex CodePoint := do
  if (← peek) == 0x7D then illegal
  let digits ← takeWhile Text.isHexDigit
  if (← atEnd) then illegal
  let close ← next
  let code := Text.hexNumber digits
  if code > 0x10FFFF || close != 0x7D then illegal
  return code

/-! ## Names -/

/-- Reads an escape in a name, after its backslash; the character has to be of the class. -/
def nameEscape (allowed : CodePoint → Bool) : Lex CodePoint := do
  if (← peek) != 0x75 then illegal
  skip 1
  if (← peek) == 0x7B then
    skip 1
    bracedCode
  else
    match ← hexDigits 4 0 with
    | some c => if c == 0x5C || !allowed c then illegal else return c
    | none => illegal

/-- Reads one character of a name. -/
def nameChar (allowed : CodePoint → Bool) : Lex CodePoint := do
  let c ← next
  if c == 0x5C then nameEscape allowed else return c

/-- Reads a name, escapes resolved. -/
def nameText : Lex Text := do
  let first ← nameChar startsName
  let read ← untilDone (fun (acc : Text) => do
    if continuesName (← peek) then return (true, (← nameChar continuesName) :: acc)
    else return (false, acc)) [first]
  return read.reverse

/-- Reads a word; a keyword may not be written with escapes, and a word of one letter is a name. -/
def wordToken : Lex Lexeme := do
  let before ← get
  let word ← nameText
  let after ← get
  let lexeme := Lexeme.ofWord word
  if !lexeme.isName && before.index + word.length != after.index then
    throw (before.fault .escapedKeyword)
  return lexeme

/-! ## Signs -/

/-- The signs of more than one character that start with none of `.`, brackets and separators, longer
ones first. -/
def longSigns : List String :=
  [">>>=", "===", "!==", ">>>", "<<=", ">>=", "**=", "&&", "||", "==", "!=", "+=", "-=", "*=", "/=",
   "++", "--", "<<", ">>", "&=", "|=", "^=", "%=", "<=", ">=", "=>", "**"]

/-- The signs of one character. -/
def shortSigns : List String :=
  ["(", ")", ";", ",", "[", "]", ":", "?", "~", "<", ">", "=", "!", "+", "-", "*", "%", "&", "|",
   "^", "/"]

/-- Reads a sign, and keeps account of braces. -/
def signToken : Lex Lexeme := do
  let c ← get
  match c.look 0 with
  | 0x7B =>
    set ((c.skip 1).withBraces (false :: c.braces))
    return .sign "\x7b"
  | 0x7D =>
    set ((c.skip 1).withBraces (c.braces.drop 1))
    return .sign "\x7d"
  | 0x2E =>
    if c.startsWith "..." then
      skip 3
      return .sign "..."
    else
      skip 1
      return .sign "."
  | _ =>
    match (longSigns ++ shortSigns).find? c.startsWith with
    | some s => skip s.length; return .sign s
    | none => illegal

/-! ## Numbers -/

/-- A digit of a base up to sixteen. -/
def isDigitOf (base : Nat) (c : CodePoint) : Bool :=
  match Text.hexValue? c with
  | some v => v < base
  | none => false

/-- The number of some digits. -/
def wholeNumber (base : Nat) (digits : Text) : Numeral :=
  .whole (digits.foldl (fun n c => base * n + (Text.hexValue? c).getD 0) 0 : Nat)

/-- Reads the digits of a number in another base, after its mark. -/
def basedNumber (base : Nat) (refused : CodePoint → Bool) : Lex Lexeme := do
  let digits ← takeWhile (isDigitOf base)
  if digits.isEmpty then illegal
  if !(← atEnd) && refused (← peek) then illegal
  return .number (wholeNumber base digits) false

/-- What may not follow a number. -/
def glued (c : CodePoint) : Bool := startsName c || Text.isAsciiDigit c

/-- Whether digits after a leading zero make an octal number: they do unless an eight or a nine is
among them. -/
def isOldOctal (t : Text) : Bool :=
  match t.dropWhile isOctalDigit with
  | c :: _ => !(c == 0x38 || c == 0x39)
  | [] => true

/-- Reads the exponent of a number, if one stands there. -/
def exponentText : Lex Text := do
  let mark ← peek
  if mark != 0x65 && mark != 0x45 then return []
  skip 1
  let sign ← peek
  let signed := sign == 0x2B || sign == 0x2D
  if signed then skip 1
  let digits ← takeWhile Text.isAsciiDigit
  if digits.isEmpty then illegal
  return mark :: ((if signed then [sign] else []) ++ digits)

/-- Reads a decimal number, whose digits before the point are given. -/
def decimalNumber (whole : Text) : Lex Lexeme := do
  let point ← peek
  let fraction ← do
    if point == 0x2E then
      skip 1
      pure (0x2E :: (← takeWhile Text.isAsciiDigit))
    else pure []
  let exponent ← exponentText
  if startsName (← peek) then illegal
  match Number.readUnsigned? Text.isAsciiDigit (whole ++ fraction ++ exponent) with
  | some (x, _) => return .number (.real x) false
  | none => illegal

/-- Reads a number. -/
def numberToken : Lex Lexeme := do
  let c ← get
  if c.look 0 == 0x30 then
    let mark := c.look 1
    if mark == 0x78 || mark == 0x58 then
      skip 2
      return ← basedNumber 16 startsName
    if mark == 0x62 || mark == 0x42 then
      skip 2
      return ← basedNumber 2 glued
    if mark == 0x6F || mark == 0x4F then
      skip 2
      return ← basedNumber 8 glued
    if isOctalDigit mark && isOldOctal (c.rest.drop 1) then
      skip 1
      let digits ← takeWhile isOctalDigit
      if glued (← peek) then illegal
      return .number (wholeNumber 8 digits) true
  decimalNumber (← takeWhile Text.isAsciiDigit)

/-! ## Strings -/

/-- The characters that stand for a control character after a backslash. -/
def controlEscape? : CodePoint → Option CodePoint
  | 0x6E => some 0x0A
  | 0x72 => some 0x0D
  | 0x74 => some 0x09
  | 0x62 => some 0x08
  | 0x66 => some 0x0C
  | 0x76 => some 0x0B
  | _ => none

/-- Reads one more digit of an octal escape. -/
def octalMore (code : Nat) : Lex (Option Nat) := do
  let c ← peek
  if !(← atEnd) && isOctalDigit c then
    skip 1
    return some (8 * code + (c - 0x30))
  else return none

/-- Reads an octal escape after its first digit: up to three digits below four hundred.  The escape
`\0` alone is no octal form. -/
def octalEscape (first : CodePoint) : Lex (CodePoint × Bool) := do
  let code := first - 0x30
  match ← octalMore code with
  | none => return (code, first != 0x30)
  | some code =>
    if first ≤ 0x33 then return ((← octalMore code).getD code, true)
    else return (code, true)

/-- Moves over a line end that has been read, and a line feed after a carriage return. -/
def finishLine (c : CodePoint) : Lex Unit := do
  if c == 0x0D && (← peek) == 0x0A then skip 1
  modify (·.breakLine)

/-- Reads `\x` or `\u` in a string, after the letter. -/
def codeEscape (letter : CodePoint) : Lex CodePoint := do
  if letter == 0x75 then
    if (← peek) == 0x7B then
      skip 1
      bracedCode
    else
      match ← hexDigits 4 0 with
      | some c => return c
      | none => illegal
  else
    match ← hexDigits 2 0 with
    | some c => return c
    | none => complain .hexEscape

/-- Reads an escape of a string, after its backslash: the characters it stands for and whether it has
an octal form. -/
def stringEscape : Lex (Text × Bool) := do
  let c ← next
  if Text.isLineEnd c then
    finishLine c
    return ([], false)
  if c == 0x75 || c == 0x78 then return ([← codeEscape c], false)
  if let some control := controlEscape? c then return ([control], false)
  if c == 0x38 || c == 0x39 then illegal
  if isOctalDigit c then
    let (code, octal) ← octalEscape c
    return ([code], octal)
  return ([c], false)

/-- What is read of a string so far, its characters in reverse. -/
structure StringSoFar where
  chars : Text
  octal : Bool
  closed : Bool

/-- Reads one character or escape of a string. -/
def stringStep (quote : CodePoint) (s : StringSoFar) : Lex (Bool × StringSoFar) := do
  let c ← next
  if c == quote then return (false, { s with closed := true })
  if c == 0x5C then
    let (t, octal) ← stringEscape
    return (true, { s with chars := t.reverse ++ s.chars, octal := s.octal || octal })
  if Text.isLineEnd c then return (false, s)
  return (true, { s with chars := c :: s.chars })

/-- Reads a string.  An open string is a fault of its first character. -/
def stringToken : Lex Lexeme := do
  let before ← get
  let quote ← next
  let s ← untilDone (stringStep quote) ⟨[], false, false⟩
  let after ← get
  if !s.closed then
    throw ⟨after.line, (before.index : Int) - after.lineStart + 1, .illegalCharacter⟩
  let raw := (before.rest.take (after.index - before.index - 1)).drop 1
  return .string s.chars.reverse raw s.octal

/-! ## Templates -/

/-- How the reading of a piece of a template stands. -/
inductive TemplateEnd where
  | open
  | place
  | tail
  deriving DecidableEq

/-- Reads an escape of a template, after its backslash. -/
def templateEscape : Lex Text := do
  let c ← next
  if Text.isLineEnd c then
    finishLine c
    return []
  if c == 0x75 then
    if (← peek) == 0x7B then
      skip 1
      return [← bracedCode]
    let before ← get
    match ← hexDigits 4 0 with
    | some code => return [code]
    | none => set before; return [c]
  if c == 0x78 then return [← codeEscape c]
  if let some control := controlEscape? c then return [control]
  if c == 0x30 then
    if Text.isAsciiDigit (← peek) then complain .templateOctal
    return [0]
  if isOctalDigit c then complain .templateOctal
  return [c]

/-- Reads one character or escape of a template. -/
def templateStep (s : Text × TemplateEnd) : Lex (Bool × Text × TemplateEnd) := do
  let c ← next
  if c == 0x60 then return (false, s.1, .tail)
  if c == 0x24 && (← peek) == 0x7B then
    modify fun k => (k.skip 1).withBraces (true :: k.braces)
    return (false, s.1, .place)
  if c == 0x5C then return (true, (← templateEscape).reverse ++ s.1, s.2)
  if Text.isLineEnd c then
    finishLine c
    return (true, 0x0A :: s.1, s.2)
  return (true, c :: s.1, s.2)

/-- Reads a piece of a template from a backquote or from the brace that closes a place. -/
def templateToken : Lex Lexeme := do
  let before ← get
  let head := (← next) == 0x60
  let (chars, ending) ← untilDone templateStep ([], .open)
  let after ← get
  if ending == .open then illegal
  let closing := if ending == .tail then 1 else 2
  let raw := (before.rest.take (after.index - before.index - closing)).drop 1
  if !head then
    modify fun k => k.withBraces (k.braces.drop 1)
  return .template raw chars.reverse head (ending == .tail)

/-! ## Tokens -/

/-- Reads what the token at the place is. -/
def lexeme : Lex Lexeme := do
  let c ← get
  if c.atEnd then return .finish
  let ch := c.look 0
  if startsName ch then wordToken
  else if ch == 0x27 || ch == 0x22 then stringToken
  else if Text.isAsciiDigit ch || (ch == 0x2E && Text.isAsciiDigit (c.look 1)) then numberToken
  else if ch == 0x60 || (ch == 0x7D && c.braces.head? == some true) then templateToken
  else signToken

/-- Reads the token at the place. -/
def token : Lex Token := do
  let start := (← get).index
  let l ← lexeme
  return ⟨l, start, (← get).line⟩

/-! ## Regular expressions -/

/-- Where the reading of a regular expression stands: inside of a class a slash is plain. -/
structure RegexSoFar where
  inClass : Bool
  closed : Bool

/-- Reads one character of a regular expression. -/
def regexStep (s : RegexSoFar) : Lex (Bool × RegexSoFar) := do
  let c ← next
  if c == 0x5C then
    let escaped ← next
    if Text.isLineEnd escaped then complain .unterminatedRegex
    return (true, s)
  if Text.isLineEnd c then complain .unterminatedRegex
  if s.inClass then return (true, { s with inClass := c != 0x5D })
  if c == 0x2F then return (false, { s with closed := true })
  return (true, { s with inClass := c == 0x5B })

/-- Complains of an escape in the flags of a regular expression. -/
def flagEscape {α : Type} : Lex α := do
  skip 1
  if (← peek) == 0x75 then
    skip 1
    let before ← get
    if (← hexDigits 4 0).isNone then set before
  illegal

/-- Reads a regular expression from its first slash: its body and its flags. -/
def regexLiteral : Lex (Text × Text) := do
  let before ← get
  skip 1
  let s ← untilDone regexStep ⟨false, false⟩
  if !s.closed then complain .unterminatedRegex
  let after ← get
  let body := (before.rest.take (after.index - before.index - 1)).drop 1
  let flags ← takeWhile (fun c => continuesName c && c != 0x5C)
  if (← peek) == 0x5C then flagEscape
  return (body, flags)

end Lex

end Untangle.Source
