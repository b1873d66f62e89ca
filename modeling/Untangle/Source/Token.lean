import Untangle.Tree.Form

set_option autoImplicit false

/-!
# Tokens of a script

The words of the grammar: names, keywords, signs, literals and the pieces of templates, each with
the place where it starts and the line on which it ends.
-/

namespace Untangle.Source

/-- What a token is. -/
inductive Lexeme where
  /-- The end of the source. -/
  | finish
  | name (text : Text)
  | keyword (word : String)
  | boolean (value : Bool)
  | null
  | sign (symbol : String)
  /-- A number; `octal` marks the old form with a leading zero. -/
  | number (value : Numeral) (octal : Bool)
  /-- A string with the text between its quotes; `octal` marks an octal escape in it. -/
  | string (value raw : Text) (octal : Bool)
  /-- A piece of a template; the first one is a head and the last one a tail. -/
  | template (raw cooked : Text) (head tail : Bool)
  deriving Repr, Inhabited

/-- A token, where it starts and the number of the line on which it ends. -/
structure Token where
  lexeme : Lexeme
  start : Nat
  line : Nat
  deriving Repr, Inhabited

/-- The words that no variable may be named after. -/
def keywords : List String :=
  ["if", "in", "do", "var", "for", "new", "try", "let", "this", "else", "case", "void", "with",
   "enum", "while", "break", "catch", "throw", "const", "yield", "class", "super", "return",
   "typeof", "delete", "switch", "export", "import", "default", "finally", "extends", "function",
   "continue", "debugger", "instanceof"]

/-- The keywords that are kept for later editions of the language. -/
def isFutureReserved (word : String) : Bool :=
  ["enum", "export", "import", "super"].contains word

/-- The words that are reserved in strict code only. -/
def strictReservedWords : List String :=
  ["implements", "interface", "package", "private", "protected", "public", "static", "yield", "let"]

/-- Whether a word is reserved in strict code only. -/
def isStrictReserved (word : Text) : Bool :=
  strictReservedWords.any fun w => Text.of w == word

/-- The names that strict code may not bind or assign. -/
def isRestrictedName (word : Text) : Bool :=
  word == Text.of "eval" || word == Text.of "arguments"

namespace Lexeme

/-- The lexeme of a word: keywords and the words of literals are no names. -/
def ofWord (word : Text) : Lexeme :=
  match keywords.find? fun k => Text.of k == word with
  | some k => .keyword k
  | none =>
    if word == Text.of "null" then .null
    else if word == Text.of "true" then .boolean true
    else if word == Text.of "false" then .boolean false
    else .name word

/-- Whether the lexeme is a name. -/
def isName : Lexeme → Bool
  | .name _ => true
  | _ => false

/-- Whether the lexeme is the end of the source. -/
def isFinish : Lexeme → Bool
  | .finish => true
  | _ => false

/-- The text of a word or a sign. -/
def spelling : Lexeme → Text
  | .name t => t
  | .keyword w => w
  | .boolean true => "true"
  | .boolean false => "false"
  | .null => "null"
  | .sign s => s
  | .string v _ _ => v
  | .template raw _ _ _ => raw
  | .finish | .number _ _ => []

/-- The text of a name, a keyword or the word of a literal. -/
def word? : Lexeme → Option Text
  | .name t => some t
  | .keyword w => some w
  | .boolean true => some "true"
  | .boolean false => some "false"
  | .null => some "null"
  | _ => none

/-- Whether the lexeme holds an octal form that strict code refuses. -/
def isOctal : Lexeme → Bool
  | .number _ octal => octal
  | .string _ _ octal => octal
  | _ => false

/-- Whether a key of an object or a class can start with the lexeme. -/
def startsKey : Lexeme → Bool
  | .name _ | .string _ _ _ | .boolean _ | .null | .number _ _ | .keyword _ => true
  | .sign s => s == "["
  | .finish | .template _ _ _ _ => false

end Lexeme

end Untangle.Source
