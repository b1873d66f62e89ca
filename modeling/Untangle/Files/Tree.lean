import Untangle.Dict
import Untangle.Files.Path
import Untangle.Text.Printable

set_option autoImplicit false

/-!
# Trees of files

The files that a run can see, by their places.  A place is a path on which steps back have been carried
out.  A directory is what has something below it or what was made as one; the working directory, what
is above it and the root are always there.

A path is followed name by name, and every name is looked up in a directory.  So a step back from a file
or from nothing leads nowhere, although the names would cancel out.
-/

namespace Untangle

/-- Why a file cannot be read or written. -/
inductive FileError where
  | missing (p : Path)
  | exists (p : Path)
  | notDirectory (p : Path)
  | isDirectory (p : Path)
  deriving Repr

/-- The wording of the reason. -/
def FileError.message : FileError → Text
  | .missing p => entry "[Errno 2] No such file or directory: " p
  | .exists p => entry "[Errno 17] File exists: " p
  | .notDirectory p => entry "[Errno 20] Not a directory: " p
  | .isDirectory p => entry "[Errno 21] Is a directory: " p
where
  /-- A reason with the path it is about. -/
  entry (reason : String) (p : Path) : Text := Text.of reason ++ Text.messageQuoted p.text

/-- What stands in the way of following a path. -/
inductive Obstacle where
  | nothing
  | file
  deriving DecidableEq, Repr

/-- The reason why a path with an obstacle leads nowhere. -/
def Obstacle.error (p : Path) : Obstacle → FileError
  | .nothing => .missing p
  | .file => .notDirectory p

/-- Files by their places, and the directories that were made. -/
structure FileTree where
  files : Dict Path Text
  made : List Path

/-- A change of the files that may fail; what it did before that stays. -/
abbrev FileM := EStateM FileError FileTree

namespace FileTree

/-- The tree of some files. -/
def ofList (fs : List (Path × Text)) : FileTree :=
  ⟨.ofList (fs.map fun f => (f.1.resolve, f.2)), []⟩

/-! ## Places -/

/-- Whether there is a file at a place. -/
def hasFile (t : FileTree) (place : Path) : Bool := t.files.contains place

/-- Whether there is a directory at a place. -/
def hasDirectory (t : FileTree) (place : Path) : Bool :=
  place.parts.all (· == Text.of "..") || t.made.contains place ||
    t.files.keys.any fun f => f != place && (place.below? f).isSome

/-- A place as one to look up names in. -/
def enter (t : FileTree) (place : Path) : Except Obstacle Unit :=
  if t.hasFile place then .error .file
  else if t.hasDirectory place then .ok ()
  else .error .nothing

/-- The place that names lead to from a place. -/
def follow (t : FileTree) (place : Path) : List Text → Except Obstacle Path
  | [] => .ok place
  | name :: rest =>
    match t.enter place with
    | .error o => .error o
    | .ok _ => t.follow (place.step name) rest

/-- The place that a path leads to, whether or not there is something. -/
def locate (t : FileTree) (p : Path) : Except Obstacle Path := t.follow ⟨p.rooted, []⟩ p.parts

/-- Whether a path leads to a place of a kind. -/
def leadsTo (t : FileTree) (kind : Path → Bool) (p : Path) : Bool :=
  match t.locate p with
  | .ok place => kind place
  | .error _ => false

/-- Whether a path leads to a file. -/
def isFile (t : FileTree) (p : Path) : Bool := t.leadsTo t.hasFile p

/-- Whether a path leads to a directory. -/
def isDirectory (t : FileTree) (p : Path) : Bool := t.leadsTo t.hasDirectory p

/-! ## Reading -/

/-- The text of a file. -/
def read (t : FileTree) (p : Path) : Except FileError Text :=
  match t.locate p with
  | .error o => .error (o.error p)
  | .ok place =>
    match t.files.get? place with
    | some c => .ok c
    | none => .error (if t.hasDirectory place then .isDirectory p else .missing p)

/-- The beginnings of a list of names that are not empty, the list itself included. -/
def beginnings : List Text → List (List Text)
  | [] => []
  | p :: rest => [p] :: (beginnings rest).map (p :: ·)

/-- What stands below a directory, files and directories, by its way from there. -/
def below (t : FileTree) (directory : Path) : List Path :=
  match t.locate directory with
  | .error _ => []
  | .ok place =>
    if t.hasDirectory place then
      (((t.files.keys ++ t.made).filterMap fun f => place.below? f).flatMap fun q =>
        (beginnings q.parts).map fun ps => (⟨false, ps⟩ : Path)).eraseDups
    else []

/-- The files of the working directory that are in another tree and not in this one. -/
def added (t later : FileTree) : List (Path × Text) :=
  later.files.entries.filter fun f => f.1.isInside && !t.files.contains f.1

end FileTree

/-! ## Writing -/

namespace FileM

/-- Makes a directory in one that is there; at a place that is taken it fails. -/
def makeNew (p : Path) : FileM Unit := do
  let t ← get
  match t.locate p with
  | .error o => throw (o.error p)
  | .ok place =>
    if t.hasFile place || t.hasDirectory place then throw (.exists p)
    else set { t with made := place :: t.made }

/-- Makes a directory in one that is there unless there is a directory already. -/
def makeDirectory (p : Path) : FileM Unit :=
  tryCatch (makeNew p) fun e => do
    match e with
    | .missing _ => throw e
    | _ => if !(← get).isDirectory p then throw e

/-- Makes a directory and those on the way to it, at most `levels` of them. -/
def makeDirectories : Nat → Path → FileM Unit
  | 0, p => makeDirectory p
  | levels + 1, p =>
    tryCatch (makeDirectory p) fun e => do
      match e with
      | .missing _ =>
        makeDirectories levels p.parent
        makeDirectory p
      | _ => throw e

/-- Puts a text in a file of a directory that is there. -/
def put (p : Path) (content : Text) : FileM Unit := do
  let t ← get
  match t.locate p with
  | .error o => throw (o.error p)
  | .ok place =>
    if t.hasDirectory place then throw (.isDirectory p)
    else set { t with files := t.files.put place content }

/-- Writes a file; the directories on the way are made. -/
def write (p : Path) (content : Text) : FileM Unit := do
  makeDirectories p.parent.parts.length p.parent
  put p content

/-- Opens a file for adding to it; steps back in its path are carried out beforehand. -/
def openToAdd (p : Path) : FileM Unit := do
  if !(← get).isFile p.resolve then put p.resolve []

end FileM

end Untangle
