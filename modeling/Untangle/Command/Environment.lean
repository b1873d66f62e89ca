import Untangle.Settings
import Untangle.Text.Case
import Untangle.Text.Digit
import Untangle.Text.Basic

set_option autoImplicit false

/-!
# Settings from an environment file

A file with a line `NAME=value` per setting, where the name of a setting has the mark `JSFOLD_` before
it.  Lists are written in brackets with their words in double quotes.  Other names do not count.
-/

namespace Untangle.Command

/-- The names and values of the lines of a file. -/
def readEnvironment (t : Text) : List (Text × Text) :=
  (Text.lines t).filterMap fun line =>
    let name := line.takeWhile (· != 0x3D)
    match line.drop name.length with
    | [] => none
    | _ :: value => some (Text.trim name, Text.trim value)

/-- The mark before the names of settings. -/
def environmentMark : Text := "JSFOLD_"

/-- The value of a setting. -/
def environmentValue? (env : List (Text × Text)) (field : String) : Option Text :=
  (env.reverse.find? fun e => e.1 == environmentMark ++ Text.of field).map (·.2)

/-- A truth value. -/
def boolOf? (t : Text) : Option Bool :=
  let w := Text.lower t
  if ["true", "1", "yes", "y", "on", "t"].any fun s => Text.of s == w then some true
  else if ["false", "0", "no", "n", "off", "f"].any fun s => Text.of s == w then some false
  else none

/-- A word in double quotes and what follows it; `word` is the word so far in reverse. -/
def readWord (word : Text) : Text → Option (Text × Text)
  | [] => none
  | 0x5C :: c :: r => readWord (c :: word) r
  | c :: r => if c == 0x22 then some (word.reverse, r) else readWord (c :: word) r

/-- The words of a list after its opening bracket, at most `fuel` of them. -/
def readWords : Nat → Text → Option (List Text)
  | 0, _ => none
  | fuel + 1, t =>
    match Text.trim t with
    | 0x5D :: [] => some []
    | 0x2C :: r => readWords fuel r
    | 0x22 :: r => do
      let (w, rest) ← readWord [] r
      return w :: (← readWords fuel rest)
    | _ => none

/-- A list of words in brackets. -/
def wordsOf? (t : Text) : Option (List Text) :=
  match Text.trim t with
  | 0x5B :: r => readWords (r.length + 1) r
  | _ => none

/-- The value of a setting that has to be readable. -/
def readSetting {α : Type} (env : List (Text × Text)) (field : String) (read : Text → Option α) :
    Option (Option α) :=
  match environmentValue? env field with
  | none => some none
  | some t => (read t).map some

/-- The draft of an environment, if all values are readable. -/
def draftOfEnvironment (env : List (Text × Text)) : Option Settings.Draft := do
  return {
    outputDir := environmentValue? env "OUTPUT_DIR"
    decodeEscapes := ← readSetting env "DECODE_ESCAPES" boolOf?
    beautify := ← readSetting env "BEAUTIFY" boolOf?
    indentSize := ← readSetting env "INDENT_SIZE" Text.integer?
    maxEvalSteps := ← readSetting env "MAX_EVAL_STEPS" Text.integer?
    maxCallDepth := ← readSetting env "MAX_CALL_DEPTH" Text.integer?
    maxDispatchSteps := ← readSetting env "MAX_DISPATCH_STEPS" Text.integer?
    disabledRules := (← readSetting env "DISABLED_RULES" wordsOf?).map .listed
    nondeterministicMarkers := ← readSetting env "NONDETERMINISTIC_MARKERS" wordsOf?
    preserveRawMarkers := ← readSetting env "PRESERVE_RAW_MARKERS" wordsOf? }

end Untangle.Command
