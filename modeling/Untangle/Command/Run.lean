import Untangle.Analysis.Report
import Untangle.Command.Arguments
import Untangle.Command.Environment
import Untangle.Files.Batch

set_option autoImplicit false

/-!
# Running commands

A command sees the files of its working directory and leaves new ones, some lines, the rows of a
table and an exit code: zero, one for what could not be done, two for wrong arguments.
-/

namespace Untangle.Command

/-- What a command leaves behind. -/
structure Result where
  exitCode : Nat
  lines : List Text
  rows : List (List Text)
  files : FileTree
  /-- A failure that the command does not report. -/
  failure : Option FileFailure

/-- The result of wrong arguments. -/
def Result.usage (files : FileTree) : Result := ⟨2, [], [], files, none⟩

/-- What a job comes to: an exit code and the rows of a table. -/
structure Verdict where
  exitCode : Nat
  rows : List (List Text)

/-- The result of a job on some files. -/
def Result.ofJob (files : FileTree) (job : DeskM Verdict) : Result :=
  match job.run ⟨files, .bare, []⟩ with
  | .ok v d => ⟨v.exitCode, d.said.reverse, v.rows, d.files, none⟩
  | .error e d => ⟨1, d.said.reverse, [], d.files, some e⟩

/-- The counters of a summary. -/
def summaryCounters : List Counter :=
  [.literalsInlined, .binaryFolded, .callsEvaluated, .wrappersInlined, .loopsUnflattened]

/-- The sign of a file that was done, and of one that failed. -/
def statusSign (done : Bool) : Text := [if done then 0x2713 else 0x2717]

/-- The row of a file in a summary. -/
def summaryRow : FileOutcome → List Text
  | .done r =>
    r.file.text ::
      (summaryCounters.map fun c => Text.ofNat ((r.stats.get? c).getD 0)) ++ [statusSign true]
  | .failed file _ => file.text :: (summaryCounters.map fun _ => Text.of "0") ++ [statusSign false]

/-- Whether a file was done. -/
def isDone : FileOutcome → Bool
  | .done _ => true
  | .failed _ _ => false

/-- The row of a binding in a table. -/
def bindingCells (r : BindingRow) : List Text :=
  [Text.ofNat r.scope ++ Text.of (" (" ++ r.scopeKind.word ++ ")"), r.name, Text.of r.kind.word,
   Text.ofNat r.references, Text.of (if r.constant then "yes" else "no")]

/-- Whether a failure is reported as an error of the input rather than passed on. -/
def isReported : FileFailure → Bool
  | .code (.source f) => !f.isAssertion
  | .file _ | .code (.rule (.unsupportedOperator _ _)) => true
  | _ => false

/-- Whether an argument names something that is there; every name before a separator has to be one of
a directory. -/
def isThere (files : FileTree) (input : Text) : Bool :=
  !input.isEmpty &&
    files.leadsTo (fun place => files.hasFile place || files.hasDirectory place) (.literal input)

/-- The file with settings of the working directory. -/
def environmentFile : Path := .ofText ".env"

/-- The settings of a request; the arguments count more than the file with settings. -/
def settingsOf? (files : FileTree) (r : Request) : Option Settings := do
  let env := match files.read environmentFile with
    | .ok t => readEnvironment (Text.unifyLineEnds t)
    | .error _ => []
  let d ← draftOfEnvironment env
  let d := { d with
    beautify := if r.beautify then some true else d.beautify
    decodeEscapes := if r.noDecode then some false else d.decodeEscapes
    disabledRules :=
      if r.skipRules.isEmpty then d.disabledRules
      else some (.listed (r.skipRules.map fun n => Text.of n.word))
    maxEvalSteps := r.maxSteps.orElse fun _ => d.maxEvalSteps }
  (Settings.ofDraft d).toOption

/-- Simplifies a file or the files of a directory. -/
def process (settings : Settings) (input : Path) (output : Option Path) :
    DeskM (List FileOutcome) := do
  if (← get).files.isFile input then
    return [.done (← DeskM.processFile settings input output)]
  else DeskM.processDirectory settings input output

/-- What a computation yields, or nothing if it fails and the failure is reported. -/
def attempt {α : Type} (action : DeskM α) : DeskM (Option α) :=
  tryCatch (do return some (← action)) fun e => do
    if !isReported e then throw e
    DeskM.note (.failed e.message)
    return none

/-- The rows of a table as they are shown. -/
def shownRows (rows : List (List Text)) : DeskM (List (List Text)) :=
  rows.mapM fun cells => cells.mapM DeskM.shown

/-- A simplification as a job; `log` is where a log goes. -/
def deobfuscateJob (r : Request) (log : Path) : DeskM Verdict := do
  if r.debug then
    DeskM.change (FileM.openToAdd log)
    DeskM.note (.logging log)
  match settingsOf? (← get).files r with
  | none => return ⟨1, []⟩
  | some settings =>
    match ← attempt (process settings (.ofText r.input) r.output) with
    | none => return ⟨1, []⟩
    | some outcomes =>
      let rows ← shownRows (outcomes.map summaryRow)
      if r.debug then DeskM.note (.logged log)
      return ⟨if outcomes.all isDone then 0 else 1, rows⟩

/-- Carries out a simplification; `defaultLog` is where a log goes that has no other place. -/
def runDeobfuscate (files : FileTree) (defaultLog : Path) (r : Request) : Result :=
  if isThere files r.input then .ofJob files (deobfuscateJob r (r.debugFile.getD defaultLog))
  else .usage files

/-- The program of a source. -/
def parse (source : Text) : DeskM Node :=
  match Source.parseScript source with
  | .ok program => return program
  | .error f => throw (.code (.source f))

/-- An analysis as a job. -/
def analyzeJob (input : Path) : DeskM Verdict := do
  let source ← DeskM.read input
  match ← attempt (parse source) with
  | none => return ⟨1, []⟩
  | some program =>
    let a := Analysis.ofProgram program
    let rows := a.report
    DeskM.note (.analysed input)
    DeskM.note (.scopes a.allScopes.length)
    DeskM.note (.bindings rows.length)
    return ⟨0, ← shownRows (rows.map bindingCells)⟩

/-- Carries out an analysis. -/
def runAnalyze (files : FileTree) (input : Text) : Result :=
  if isThere files input && !files.isDirectory (.ofText input) then
    .ofJob files (analyzeJob (.ofText input))
  else .usage files

/-- Carries out what the arguments ask for. -/
def run (files : FileTree) (defaultLog : Path) (args : List Text) : Result :=
  match Invocation.ofArguments args with
  | .error _ => .usage files
  | .ok .help | .ok .version => ⟨0, [], [], files, none⟩
  | .ok (.deobfuscate r) => runDeobfuscate files defaultLog r
  | .ok (.analyze input) => runAnalyze files input

end Untangle.Command
