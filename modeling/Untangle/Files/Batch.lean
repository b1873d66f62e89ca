import Untangle.Deobfuscation
import Untangle.Files.Tree
import Untangle.Text.Markup

set_option autoImplicit false

/-!
# Runs on files

A file is read, simplified and written; a directory is gone through file by file, and a file that
fails does not keep the others from being done.  What is said on the way is kept as lines.  Names and
reasons are part of marked texts, so one that closes a style that is not open cannot be said, and that
ends the run.
-/

namespace Untangle

/-- Why a file was not done. -/
inductive FileFailure where
  | file (e : FileError)
  | code (e : DeobfuscationError)
  | markup (f : Markup.Fault)

namespace RuleError

/-- The wording of an error that ends a run. -/
def message : RuleError → Text
  | .unsupportedOperator op source => DeobfuscationError.operatorMessage op source
  | .fault f => f.message
  | .unprintable r => r.message
  | .edit e => Text.of e.message
  | .endlessValue => Sandbox.Unwritable.cyclic.message

end RuleError

/-- The wording of a failure. -/
def FileFailure.message : FileFailure → Text
  | .file e => e.message
  | .code (.source f) => f.message
  | .code (.rule e) => e.message
  | .markup f => f.message

/-- What is reported about a file that was done. -/
structure FileReport where
  file : Path
  output : Path
  inputChars : Nat
  outputChars : Nat
  stats : Stats

/-- What became of a file of a directory. -/
inductive FileOutcome where
  | done (r : FileReport)
  | failed (file : Path) (message : Text)

/-- What is said on the way. -/
inductive Notice where
  | found (count : Nat) (directory : Path)
  | saved (output : Path)
  | failedFile (file : Path) (message : Text)
  | failed (message : Text)
  | analysed (file : Path)
  | scopes (count : Nat)
  | bindings (count : Nat)
  | logging (log : Path)
  | logged (log : Path)

/-- The wording of a notice as a marked text. -/
def Notice.markup : Notice → Text
  | .found n d =>
    Markup.styled "blue" ("Found " ++ Text.ofNat n ++ Text.of " JavaScript files in " ++ d.text)
  | .saved p => Markup.styled "green" ("Saved output to: " ++ p.text)
  | .failedFile p m => Markup.styled "red" ("Error processing " ++ p.text ++ Text.of ": " ++ m)
  | .failed m => Markup.styled "red" ("Error: " ++ m)
  | .analysed p => Markup.styled "blue" "File:" ++ Text.of " " ++ p.text
  | .scopes n => Markup.styled "blue" "Total scopes:" ++ Text.of " " ++ Text.ofNat n
  | .bindings n => Markup.styled "blue" "Total bindings:" ++ Text.of " " ++ Text.ofNat n
  | .logging p => Markup.styled "yellow" ("Debug logging enabled: " ++ p.text)
  | .logged p => Text.of "\n" ++ Markup.styled "yellow" ("Debug log saved to: " ++ p.text)

/-- What runs on files work on: the files, the store of the sandboxes, and the lines that were said, the
latest first. -/
structure Desk where
  files : FileTree
  store : Sandbox.Machine
  said : List Text

/-- A computation on a desk that may fail. -/
abbrev DeskM := EStateM FileFailure Desk

namespace DeskM

/-- What is shown of a marked text. -/
def shown (t : Text) : DeskM Text :=
  match Markup.shown t with
  | .ok t => return t
  | .error f => throw (.markup f)

/-- Says something. -/
def note (n : Notice) : DeskM Unit := do
  let lines := Text.splitOn "\n" (← shown n.markup)
  modify fun d => { d with said := lines.reverse ++ d.said }

/-- Changes the files. -/
def change (action : FileM Unit) : DeskM Unit := do
  match action.run (← get).files with
  | .ok _ t => modify fun d => { d with files := t }
  | .error e t =>
    modify fun d => { d with files := t }
    throw (.file e)

/-- The text of a file, with every end of line as a line feed. -/
def read (p : Path) : DeskM Text := do
  match (← get).files.read p with
  | .ok t => return Text.unifyLineEnds t
  | .error e => throw (.file e)

/-- Simplifies a source.  What the evaluations did to the store stays done. -/
def deobfuscate (settings : Settings) (source : Text) : DeskM Deobfuscated := do
  let (r, store) := simplify (← get).store settings source
  modify fun d => { d with store := store }
  match r with
  | .ok r => return r
  | .error e => throw (.code e)

/-- Does a file.  The result goes to the output directory unless another place is given. -/
def processFile (settings : Settings) (file : Path) (output : Option Path) : DeskM FileReport := do
  let source ← read file
  let r ← deobfuscate settings source
  let target := output.getD (settings.outputDir ++ file.file)
  change (FileM.write target r.code)
  note (.saved target)
  return ⟨file, target, source.length, r.code.length, r.stats⟩

/-- Does a file and goes on if it fails. -/
def tryFile (settings : Settings) (file output : Path) : DeskM FileOutcome :=
  tryCatch (do return .done (← processFile settings file (some output))) fun e => do
    note (.failedFile file e.message)
    return .failed file e.message

/-- Whether a file of a directory is to be done: scripts, but no packages and no minified ones. -/
def isWanted (p : Path) : Bool :=
  (Text.of ".js").isSuffixOf p.name && !p.parts.contains (Text.of "node_modules") &&
    !p.name.includes ".min."

/-- The scripts of a directory in the order of their paths, each with its way from there. -/
def scripts (files : FileTree) (directory : Path) : List (Path × Path) :=
  let pairs := (files.below directory).map fun q => (directory ++ q, q)
  let wanted := pairs.filter fun x => isWanted x.1
  (Path.sort (wanted.map (·.1))).filterMap fun p => wanted.find? fun x => x.1 == p

/-- Does the scripts of a directory. -/
def processDirectory (settings : Settings) (directory : Path) (output : Option Path) :
    DeskM (List FileOutcome) := do
  let found := scripts (← get).files directory
  note (.found found.length directory)
  let target := output.getD settings.outputDir
  found.mapM fun x => tryFile settings x.1 (target ++ x.2)

end DeskM

end Untangle
