import Untangle.Files.Path
import Untangle.Rule.Name
import Untangle.Sandbox.Registry
import Untangle.Text.Space

set_option autoImplicit false

/-!
# Settings of a run

Settings come as a draft in which every field may be left out and numbers may be out of range.  A draft
is accepted, with defaults for what it leaves out, or refused with one complaint per field that is
wrong, in the order of the fields.
-/

namespace Untangle

/-- The settings of a run. -/
structure Settings where
  /-- Where results are written by default. -/
  outputDir : Path := .ofText "dist"
  /-- Whether escapes of printable characters are decoded in the result. -/
  decodeEscapes : Bool := true
  /-- Whether the result is indented anew. -/
  beautify : Bool := false
  /-- Width of a level when the result is indented anew. -/
  indentSize : Nat := 2
  /-- Steps that one evaluation may take. -/
  maxEvalSteps : Nat := 100000
  /-- Calls that may be open inside of each other in one evaluation. -/
  maxCallDepth : Nat := 200
  /-- Dispatches that one flattened loop may take. -/
  maxDispatchSteps : Nat := 10000
  /-- Rules that are left out. -/
  disabledRules : List RuleName := []
  /-- Text that makes code unsafe to evaluate. -/
  nondeterministicMarkers : List Text := Sandbox.Gate.defaultNondeterministic
  /-- Text that keeps code as it is even if it can be evaluated. -/
  preserveRawMarkers : List Text := Sandbox.Gate.defaultPreserveRaw
  deriving Repr

namespace Settings

instance : Inhabited Settings := ⟨{}⟩

/-- The gate that the markers make up. -/
def gate (s : Settings) : Sandbox.Gate := ⟨s.nondeterministicMarkers, s.preserveRawMarkers⟩

/-! ## Drafts -/

/-- A list of words, written as such or with commas in between. -/
inductive WordList where
  | listed (words : List Text)
  | joined (text : Text)
  deriving Repr

/-- The words of a list.  Between commas, blanks around words and empty words do not count. -/
def WordList.words : WordList → List Text
  | .listed ws => ws
  | .joined t => ((Text.splitOn "," t).map Text.trim).filter fun w => !w.isEmpty

/-- Settings before they are checked. -/
structure Draft where
  outputDir : Option Text := none
  decodeEscapes : Option Bool := none
  beautify : Option Bool := none
  indentSize : Option Int := none
  maxEvalSteps : Option Int := none
  maxCallDepth : Option Int := none
  maxDispatchSteps : Option Int := none
  disabledRules : Option WordList := none
  nondeterministicMarkers : Option (List Text) := none
  preserveRawMarkers : Option (List Text) := none
  deriving Repr

/-- What a draft may get wrong. -/
inductive Problem where
  /-- A number below one. -/
  | tooSmall
  /-- Rules that do not exist. -/
  | unknownRules (names : List Text)
  deriving Repr

/-- The name of a kind of problem. -/
def Problem.kind : Problem → String
  | .tooSmall => "greater_than_equal"
  | .unknownRules _ => "value_error"

/-- The wording of a problem. -/
def Problem.message : Problem → Text
  | .tooSmall => "Input should be greater than or equal to 1"
  | .unknownRules names =>
    Text.of "Value error, unknown rule(s): " ++ Text.join ", " names ++ Text.of "; expected " ++
      Text.join ", " (RuleName.all.map fun r => Text.of r.word)

/-- A complaint about a field. -/
structure Complaint where
  field : String
  problem : Problem
  deriving Repr

/-- A number that has to be at least one. -/
def positive (field : String) (value : Option Int) (default : Nat) : Except Complaint Nat :=
  match value with
  | none => .ok default
  | some n => if n < 1 then .error ⟨field, .tooSmall⟩ else .ok n.toNat

/-- The words without repetitions, in order. -/
def distinctSorted (ws : List Text) : List Text := Text.sort ws.eraseDups

/-- The rules of a list of words. -/
def rules (words : Option WordList) : Except Complaint (List RuleName) :=
  let ws := (words.map WordList.words).getD []
  match ws.filter fun w => (RuleName.ofWord? w).isNone with
  | [] => .ok (ws.filterMap RuleName.ofWord?)
  | unknown => .error ⟨"disabled_rules", .unknownRules (distinctSorted unknown)⟩

/-- The complaint of a check that failed. -/
def complaints {α : Type} : Except Complaint α → List Complaint
  | .ok _ => []
  | .error c => [c]

/-- The settings of a draft. -/
def ofDraft (d : Draft) : Except (List Complaint) Settings :=
  let base : Settings := {}
  let indent := positive "indent_size" d.indentSize base.indentSize
  let steps := positive "max_eval_steps" d.maxEvalSteps base.maxEvalSteps
  let depth := positive "max_call_depth" d.maxCallDepth base.maxCallDepth
  let dispatch := positive "max_dispatch_steps" d.maxDispatchSteps base.maxDispatchSteps
  let disabled := rules d.disabledRules
  match indent, steps, depth, dispatch, disabled with
  | .ok i, .ok s, .ok c, .ok n, .ok r =>
    .ok {
      outputDir := (d.outputDir.map Path.ofText).getD base.outputDir
      decodeEscapes := d.decodeEscapes.getD base.decodeEscapes
      beautify := d.beautify.getD base.beautify
      indentSize := i
      maxEvalSteps := s
      maxCallDepth := c
      maxDispatchSteps := n
      disabledRules := r
      nondeterministicMarkers := d.nondeterministicMarkers.getD base.nondeterministicMarkers
      preserveRawMarkers := d.preserveRawMarkers.getD base.preserveRawMarkers }
  | _, _, _, _, _ =>
    .error (complaints indent ++ complaints steps ++ complaints depth ++ complaints dispatch ++
      complaints disabled)

end Settings

end Untangle
