import Untangle.Source.Regex.Reader

set_option autoImplicit false

/-!
# Parts of patterns

Escapes, sets and repetitions.  What is refused: escapes of letters without a meaning, sets that do not
end, ranges that run backwards or have a class at an end, and a repetition of nothing, of an anchor or
of a repetition.
-/

namespace Untangle.Source.Regex

/-- What a part of a pattern is, as far as a repetition after it is concerned. -/
inductive Kind where
  | anchor
  | repetition
  | other
  deriving DecidableEq, Repr

/-- A part of a pattern. -/
structure Item where
  kind : Kind
  width : Width

/-- A part that takes one character. -/
def Item.unit : Item := ⟨.other, .one⟩

/-- A part that takes none and cannot be repeated. -/
def Item.anchor : Item := ⟨.anchor, .zero⟩

/-! ## Escapes -/

/-- An octal digit. -/
def isOctal (c : CodePoint) : Bool := 0x30 ≤ c && c ≤ 0x37

/-- The number of octal digits. -/
def octalNumber (t : Text) : Nat := t.foldl (fun n c => 8 * n + (c - 0x30)) 0

/-- The letter of an escape is one of some letters. -/
def isOneOf (letters : String) (c : CodePoint) : Bool := (Text.of letters).contains c

/-- Reads a character by its code in hexadecimal digits. -/
def hexEscape (digits : Nat) : Reader Nat := do
  let ds ← takeWhile Text.isHexDigit digits
  if ds.length == digits && Text.hexNumber ds < 0x110000 then return Text.hexNumber ds else failure

/-- The character of an escape of one letter. -/
def letterCode? (c : CodePoint) : Option Nat :=
  if c == 0x61 then some 7
  else if c == 0x62 then some 8
  else if c == 0x66 then some 12
  else if c == 0x6E then some 10
  else if c == 0x72 then some 13
  else if c == 0x74 then some 9
  else if c == 0x76 then some 11
  else none

/-- Reads an escape by a letter that stands for a code, if it is one. -/
def codeEscape? (c : CodePoint) : Reader (Option Nat) := do
  if c == 0x78 then return some (← hexEscape 2)
  if c == 0x75 then return some (← hexEscape 4)
  if c == 0x55 then return some (← hexEscape 8)
  return none

/-- Reads what follows the first digit of an escape: three octal digits are a character, fewer digits
refer to a group. -/
def digitEscape (c : CodePoint) : Reader Item := do
  let more ← takeWhile Text.isAsciiDigit 1
  let digits := c :: more
  if more.length == 1 && digits.all isOctal then
    match ← takeWhile isOctal 1 with
    | [] => pure ()
    | ds => if octalNumber (digits ++ ds) > 0o377 then failure else return .unit
  return ⟨.other, ← reference (Text.decimalNumber digits)⟩

/-- Reads the escape of a character outside of sets. -/
def escape (c : CodePoint) : Reader Item := do
  if isOneOf "AbBZ" c then return .anchor
  if isOneOf "dDsSwW" c || (letterCode? c).isSome then return .unit
  if (← codeEscape? c).isSome then return .unit
  if c == 0x30 then
    let _ ← takeWhile isOctal 2
    return .unit
  if Text.isAsciiDigit c then return ← digitEscape c
  if Text.isAsciiLetter c then failure
  return .unit

/-! ## Sets -/

/-- Reads the escape of a character inside of a set: the code of a character, or none for a class. -/
def setEscape (c : CodePoint) : Reader (Option Nat) := do
  match letterCode? c with
  | some n => return some n
  | none =>
    if isOneOf "dDsSwW" c then return none
    if let some n ← codeEscape? c then return some n
    if isOctal c then
      let n := octalNumber (c :: (← takeWhile isOctal 2))
      if n > 0o377 then failure
      return some n
    if Text.isAsciiDigit c || Text.isAsciiLetter c then failure
    return some c

/-- Reads an end of a range or a member of a set. -/
def setMember : Reader (Option Nat) := do
  match ← take with
  | .plain c => return some c
  | .escaped c => setEscape c

/-- Reads the members of a set up to its closing bracket, which is a member itself where it comes
first; at most `fuel` of them. -/
def setMembers : Nat → Bool → Reader Unit
  | 0, _ => failure
  | fuel + 1, isFirst => do
    if !isFirst then
      if ← accept 0x5D then return
    let low ← setMember
    if ← accept 0x2D then
      if ← accept 0x5D then return
      let high ← setMember
      match low, high with
      | some l, some h => if h < l then failure
      | _, _ => failure
    setMembers fuel false

/-- Reads a set after its opening bracket. -/
def charSet : Reader Item := do
  let _ ← accept 0x5E
  setMembers ((← get).rest.length + 1) true
  return .unit

/-! ## Repetitions -/

/-- The most digits that a number may have. -/
def digitLimit : Nat := 4300

/-- Reads the bounds of a repetition in braces; where there are none the brace stands for itself. -/
def bounds? : Reader (Option (Nat × Nat)) := do
  let start ← get
  if (← peek) == some (.plain 0x7D) then return none
  let low ← takeWhile Text.isAsciiDigit start.rest.length
  let high ← if ← accept 0x2C then takeWhile Text.isAsciiDigit start.rest.length else pure low
  if !(← accept 0x7D) then
    set start
    return none
  if low.length > digitLimit || high.length > digitLimit then failure
  let least := Text.decimalNumber low
  let most := if high.isEmpty then unbounded else Text.decimalNumber high
  if least ≥ unbounded || (!high.isEmpty && most ≥ unbounded) || most < least then failure
  return some (least, most)

/-- Repeats the part before, which has to be one that can be repeated; the repetition may be lazy or
possessive. -/
def repeated (last : Option Item) (least most : Nat) : Reader Item := do
  match last with
  | none => failure
  | some item =>
    if item.kind != .other then failure
    if !(← accept 0x3F) then
      let _ ← accept 0x2B
    modify fun s => { s with repeats := true }
    return ⟨.repetition, item.width.times least most⟩

end Untangle.Source.Regex
