import Untangle.Text.Basic

set_option autoImplicit false

/-!
# White space and line ends

Three sets that differ: the blanks that trimming removes, the blanks between tokens of a script, and
the characters that end a line of a file.
-/

namespace Untangle.Text

/-- White space that trimming removes: the Unicode blanks, without U+FEFF. -/
def isBlank (c : CodePoint) : Bool :=
  (0x09 ≤ c && c ≤ 0x0D) || (0x1C ≤ c && c ≤ 0x20) || c == 0x85 || c == 0xA0 || c == 0x1680 ||
  (0x2000 ≤ c && c ≤ 0x200A) || c == 0x2028 || c == 0x2029 || c == 0x202F || c == 0x205F ||
  c == 0x3000

/-- The text without blanks at its ends. -/
def trim (t : Text) : Text := trimBy isBlank t

/-- Blanks between the tokens of a script, line ends apart. -/
def isScriptSpace (c : CodePoint) : Bool :=
  c == 0x09 || c == 0x0B || c == 0x0C || c == 0x20 || c == 0xA0 || c == 0x1680 || c == 0x180E ||
  (0x2000 ≤ c && c ≤ 0x200A) || c == 0x202F || c == 0x205F || c == 0x3000 || c == 0xFEFF

/-- The words of a text; `word` is the open word in reverse. -/
def wordsGo (word : Text) : Text → List Text
  | [] => if word.isEmpty then [] else [word.reverse]
  | c :: r =>
    if !isBlank c then wordsGo (c :: word) r
    else if word.isEmpty then wordsGo [] r
    else word.reverse :: wordsGo [] r

/-- The pieces of a text between its blanks. -/
def words (t : Text) : List Text := wordsGo [] t

/-- The characters that end a line of a script. -/
def isLineEnd (c : CodePoint) : Bool := c == 0x0A || c == 0x0D || c == 0x2028 || c == 0x2029

/-- The characters that end a line of a file. -/
def isFileLineEnd (c : CodePoint) : Bool :=
  (0x0A ≤ c && c ≤ 0x0D) || (0x1C ≤ c && c ≤ 0x1E) || c == 0x85 || c == 0x2028 || c == 0x2029

/-- Number of lines of a file; `open` tells whether the last line has characters yet. -/
def countLinesGo : Bool → Text → Nat
  | isOpen, [] => if isOpen then 1 else 0
  | _, 0x0D :: 0x0A :: r => 1 + countLinesGo false r
  | _, c :: r => if isFileLineEnd c then 1 + countLinesGo false r else countLinesGo true r

/-- Number of lines of a file; an end of line closes a line and opens none. -/
def countLines (t : Text) : Nat := countLinesGo false t

/-- The text with every end of line written as a line feed. -/
def unifyLineEnds : Text → Text
  | [] => []
  | 0x0D :: 0x0A :: r => 0x0A :: unifyLineEnds r
  | 0x0D :: r => 0x0A :: unifyLineEnds r
  | c :: r => c :: unifyLineEnds r

end Untangle.Text
