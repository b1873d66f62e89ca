import Untangle.Command.Run

set_option autoImplicit false

/-!
# The command line

Reads the files that a command may need, runs the command on them, prints what it says and writes what
it made.  All decisions are made by the command itself.
-/

namespace Untangle.Main

/-- The text of a file, if it can be read. -/
def readText? (name : String) : IO (Option Text) := do
  try
    return some (Text.of (← IO.FS.readFile name))
  catch _ => return none

/-- The files below a path, by name, going down at most `depth` levels. -/
def collect : Nat → String → IO (List (Path × Text))
  | 0, _ => return []
  | depth + 1, name => do
    let here ← IO.currentDir
    let place := here / name
    if ← place.isDir then
      let entries ← place.readDir
      let found ← entries.toList.mapM fun e =>
        collect depth (if name == "." then e.fileName else name ++ "/" ++ e.fileName)
      return found.flatten
    else
      match ← readText? name with
      | some t => return [(Path.ofText (Text.of name), t)]
      | none => return []

/-- The directories and files that a path passes, the end included. -/
def survey (p : Path) : IO (List Path × List (Path × Text)) := do
  let here ← IO.currentDir
  let mut directories := []
  let mut files := []
  for parts in FileTree.beginnings p.parts do
    let q : Path := ⟨p.rooted, parts⟩
    let name := Text.display q.text
    if ← (here / name).isDir then directories := q.resolve :: directories
    else if let some t ← readText? name then files := (q, t) :: files
  return (directories, files)

/-- The operand of an invocation. -/
def inputOf : Command.Invocation → Option Text
  | .deobfuscate r => some r.input
  | .analyze input => some input
  | _ => none

/-- The paths that an invocation names. -/
def pathsOf : Command.Invocation → List Path
  | .deobfuscate r => Path.ofText r.input :: r.output.toList ++ r.debugFile.toList
  | .analyze input => [.ofText input]
  | _ => []

/-- What an invocation may need of the files on disk. -/
def load (i : Command.Invocation) : IO FileTree := do
  let sources ← match inputOf i with
    | some t => collect 64 (Text.display (Path.ofText t).text)
    | none => pure []
  let passed ← (Command.environmentFile :: pathsOf i).mapM survey
  let tree := FileTree.ofList (sources ++ passed.flatMap (·.2))
  return { tree with made := passed.flatMap (·.1) }

/-- Writes a file and the directories on the way to it. -/
def writeText (p : Path) (t : Text) : IO Unit := do
  IO.FS.createDirAll (Text.display p.parent.text)
  IO.FS.writeFile (Text.display p.text) (Text.display t)

/-- The cells of a row side by side. -/
def rowText (cells : List Text) : String :=
  Text.display (Text.join "  " cells)

/-- Runs a command on the files of the working directory. -/
def run (args : List Text) : IO UInt32 := do
  let files ← match Command.Invocation.ofArguments args with
    | .ok i => load i
    | .error _ => pure (.ofList [])
  let stamp ← IO.monoMsNow
  let result := Command.run files (.ofText (Text.of ("jsfold_debug_" ++ toString stamp ++ ".log"))) args
  for line in result.lines do
    IO.println (Text.display line)
  for row in result.rows do
    IO.println (rowText row)
  if result.exitCode == 2 then IO.eprintln "Usage: untangle COMMAND [OPTIONS] INPUT_PATH"
  if let some f := result.failure then IO.eprintln (Text.display f.message)
  for f in result.files.files.entries do
    if files.files.get? f.1 != some f.2 then writeText f.1 f.2
  return UInt32.ofNat result.exitCode

end Untangle.Main

/-- The entry of the program. -/
def main (args : List String) : IO UInt32 := Untangle.Main.run (args.map Untangle.Text.of)
