import Untangle.Rule.Chain
import Untangle.Source.Script
import Untangle.Text.Escapes
import Untangle.Text.Basic

set_option autoImplicit false

/-!
# Deobfuscation

From source text to simplified text: the source is parsed and analysed, all rules are applied in one
tour, and the program is printed, with escapes of printable characters decoded and the lines indented
anew where the settings ask for it.
-/

namespace Untangle

/-- Simplified code and what was done to get it. -/
structure Deobfuscated where
  code : Text
  stats : Stats

/-- Why a source has no simplified code. -/
inductive DeobfuscationError where
  /-- The source is no script. -/
  | source (f : Source.Fault)
  /-- A rule ended the run. -/
  | rule (e : RuleError)

namespace DeobfuscationError

/-- The wording of an operator that is not folded. -/
def operatorMessage (op : BinaryOp) (source : Text) : Text :=
  Text.of "unhandled operator(" ++ Text.of op.symbol ++ Text.of ") in BinaryExpression(" ++ source ++
    Text.of ")!"

end DeobfuscationError

/-- The text of a program as the settings ask for it. -/
def Settings.finish (s : Settings) (code : Text) : Text :=
  let code := if s.decodeEscapes then Escapes.decode code else code
  if s.beautify then Text.reindent s.indentSize code else code

/-- The simplified code of a source, and the store that the evaluations leave, whether there is such code
or not.  The sandbox of the run is set up in the given store; the functions in it belong to no program any
more. -/
def simplify (store : Sandbox.Machine) (settings : Settings) (source : Text) :
    Except DeobfuscationError Deobfuscated × Sandbox.Machine :=
  match Source.parseScript source with
  | .error f => (.error (.source f), store)
  | .ok program =>
    match rulesTour settings RuleName.all (Analysis.ofProgram program) store.settled with
    | .error e t => (.error (.rule e), t.store)
    | .ok _ t =>
      match t.analysis.program.code with
      | .error r => (.error (.rule (.unprintable r)), t.store)
      | .ok code =>
        let stats := Dict.put t.counted.state.stats .functionsInSandbox t.state.sandbox.count
        (.ok ⟨settings.finish code, stats⟩, t.store)

/-- The simplified code of a source, and the store that the evaluations leave. -/
def deobfuscateOn (store : Sandbox.Machine) (settings : Settings) (source : Text) :
    Except DeobfuscationError (Deobfuscated × Sandbox.Machine) :=
  match simplify store settings source with
  | (.ok d, store) => .ok (d, store)
  | (.error e, _) => .error e

/-- The simplified code of a source. -/
def deobfuscate (settings : Settings) (source : Text) : Except DeobfuscationError Deobfuscated :=
  (simplify .bare settings source).1

end Untangle
