import Untangle.Source.Fault
import Untangle.Text.Space

set_option autoImplicit false

/-!
# A place in a source

What is left to be read, with the counts that faults report: the number of characters before it, the
line and the start of the line.  The place also knows which braces are open, since a closing brace
ends a piece of a template or stands for itself.

Past the end of a source stands the character zero, as often as it is asked for.
-/

namespace Untangle.Source

/-- A place in a source. -/
structure Cursor where
  rest : Text
  index : Nat
  line : Nat
  lineStart : Nat
  /-- The open braces from the inside out; `true` for the opening of a place in a template. -/
  braces : List Bool
  deriving Repr, Inhabited

/-- A step of reading characters. -/
abbrev Lex := EStateM Fault Cursor

namespace Cursor

/-- The start of a source; an empty source has no line. -/
def ofText (t : Text) : Cursor := ⟨t, 0, if t.isEmpty then 0 else 1, 0, []⟩

/-- The place without what is known of braces. -/
def withBraces (c : Cursor) (braces : List Bool) : Cursor := { c with braces := braces }

/-- Number of characters between the start of the line and the place. -/
def column (c : Cursor) : Int := (c.index : Int) - (c.lineStart : Int)

/-- Whether nothing is left. -/
def atEnd (c : Cursor) : Bool := c.rest.isEmpty

/-- The character at a distance. -/
def look (c : Cursor) (k : Nat) : CodePoint := c.rest.getD k 0

/-- The place some characters later. -/
def skip (c : Cursor) (n : Nat) : Cursor := { c with rest := c.rest.drop n, index := c.index + n }

/-- The place as the start of a new line. -/
def breakLine (c : Cursor) : Cursor := { c with line := c.line + 1, lineStart := c.index }

/-- Whether the given text comes next. -/
def startsWith (c : Cursor) (s : String) : Bool := (Text.of s).isPrefixOf c.rest

/-- The place after the line end that stands there, if one does; a carriage return and the line feed
after it are one line end. -/
def afterLineEnd? (c : Cursor) : Option Cursor :=
  if c.atEnd then none
  else if Text.isLineEnd (c.look 0) then
    some (c.skip (if c.look 0 == 0x0D && c.look 1 == 0x0A then 2 else 1)).breakLine
  else none

/-- The place after the line end that comes next, or the end. -/
def nextLine (c : Cursor) : Cursor :=
  let c' := c.skip (c.rest.takeWhile fun ch => !Text.isLineEnd ch).length
  c'.afterLineEnd?.getD c'

/-- A fault at the place. -/
def fault (c : Cursor) (complaint : Complaint) : Fault := ⟨c.line, c.column + 1, complaint⟩

/-- The place after the end of a block comment, or the end of the source if the comment is open. -/
def afterBlockComment : Nat → Cursor → Except Cursor Cursor
  | 0, c => .error c
  | fuel + 1, c =>
    if c.atEnd then .error c
    else if c.startsWith "*/" then .ok (c.skip 2)
    else
      match c.afterLineEnd? with
      | some c' => afterBlockComment fuel c'
      | none => afterBlockComment fuel (c.skip 1)

/-- Skips spaces, line ends and comments.  An arrow `-->` opens a comment where nothing but spaces
and comments stands before it on its line, which `fresh` says. -/
def skipTriviaGo : Nat → Bool → Cursor → Except Fault Cursor
  | 0, _, c => .ok c
  | fuel + 1, fresh, c =>
    if c.atEnd then .ok c
    else if Text.isScriptSpace (c.look 0) then skipTriviaGo fuel fresh (c.skip 1)
    else
      match c.afterLineEnd? with
      | some c' => skipTriviaGo fuel true c'
      | none =>
        if c.startsWith "//" then skipTriviaGo fuel true (c.skip 2).nextLine
        else if c.startsWith "/*" then
          match afterBlockComment (c.rest.length + 1) (c.skip 2) with
          | .ok c' => skipTriviaGo fuel fresh c'
          | .error c' => .error (c'.fault .illegalCharacter)
        else if fresh && c.startsWith "-->" then skipTriviaGo fuel fresh (c.skip 3).nextLine
        else if c.startsWith "<!--" then skipTriviaGo fuel fresh (c.skip 4).nextLine
        else .ok c

/-- The place of the next token. -/
def skipTrivia (c : Cursor) : Except Fault Cursor :=
  skipTriviaGo (c.rest.length + 1) (c.index == 0) c

end Cursor

namespace Lex

/-- The character at the place. -/
def peek : Lex CodePoint := return (← get).look 0

/-- Moves on by some characters. -/
def skip (n : Nat) : Lex Unit := modify (·.skip n)

/-- The character at the place, which is left behind. -/
def next : Lex CodePoint := do
  let c ← peek
  skip 1
  return c

/-- Whether nothing is left. -/
def atEnd : Lex Bool := return (← get).atEnd

/-- Complains at the place. -/
def complain {α : Type} (complaint : Complaint) : Lex α := do throw ((← get).fault complaint)

/-- Complains of a character that cannot stand at the place. -/
def illegal {α : Type} : Lex α := complain .illegalCharacter

/-- Takes the longest run of characters of a class. -/
def takeWhile (p : CodePoint → Bool) : Lex Text := do
  let run := (← get).rest.takeWhile p
  skip run.length
  return run

/-- Skips spaces, line ends and comments. -/
def trivia : Lex Unit := do
  match (← get).skipTrivia with
  | .ok c => set c
  | .error f => throw f

/-- Repeats a step that says when to stop, at most as often as characters are left. -/
def repeatStep {α : Type} (step : α → Lex (Bool × α)) : Nat → α → Lex α
  | 0, a => return a
  | fuel + 1, a => do
    let (more, a') ← step a
    if more then repeatStep step fuel a' else return a'

/-- Repeats a step until it says so or nothing is left. -/
def untilDone {α : Type} (step : α → Lex (Bool × α)) (a : α) : Lex α := do
  let guarded (a : α) : Lex (Bool × α) := do
    if ← atEnd then return (false, a) else step a
  repeatStep guarded ((← get).rest.length + 1) a

end Lex

end Untangle.Source
