import Untangle.Text.Basic

set_option autoImplicit false

/-!
# Paths of files

A path is a list of names, from the working directory or from the root.  Single dots and repeated
separators do not count.
-/

namespace Untangle

/-- A path. -/
structure Path where
  rooted : Bool
  parts : List Text
  deriving DecidableEq, Repr, Inhabited

namespace Path

/-- The separator of names. -/
def separator : Text := [0x2F]

/-- The path that a text denotes. -/
def ofText (t : Text) : Path where
  rooted := separator.isPrefixOf t
  parts := (Text.splitOn separator t).filter fun p => !p.isEmpty && p != Text.of "."

/-- The path of a text as it stands: single dots count, and a separator at the end is one more. -/
def literal (t : Text) : Path where
  rooted := separator.isPrefixOf t
  parts := ((Text.splitOn separator t).filter fun p => !p.isEmpty) ++
    if separator.isSuffixOf t then [Text.of "."] else []

/-- The text of a path. -/
def text (p : Path) : Text :=
  let names := Text.join separator p.parts
  if p.rooted then separator ++ names else if p.parts.isEmpty then Text.of "." else names

/-- A path that starts where another one ends. -/
def append (p q : Path) : Path := if q.rooted then q else ⟨p.rooted, p.parts ++ q.parts⟩

instance : Append Path := ⟨append⟩

/-- The last name. -/
def name (p : Path) : Text := p.parts.getLastD []

/-- The path of the last name alone. -/
def file (p : Path) : Path := ⟨false, [p.name]⟩

/-- The directory that holds what the path leads to. -/
def parent (p : Path) : Path := ⟨p.rooted, p.parts.dropLast⟩

/-- Names with steps back carried out; `done` has the names so far in reverse. -/
def resolveParts (rooted : Bool) : List Text → List Text → List Text
  | done, [] => done.reverse
  | done, p :: rest =>
    if p != Text.of ".." then resolveParts rooted (p :: done) rest
    else
      match done with
      | [] => resolveParts rooted (if rooted then [] else [p]) rest
      | d :: before =>
        if d == Text.of ".." then resolveParts rooted (p :: done) rest
        else resolveParts rooted before rest

/-- The path with steps back carried out, as far as there are names before them. -/
def resolve (p : Path) : Path := ⟨p.rooted, resolveParts p.rooted [] p.parts⟩

/-- The place that a name leads to from a place without steps back that can be carried out. -/
def step (place : Path) (name : Text) : Path :=
  if name == Text.of "." then place else resolve ⟨place.rooted, place.parts ++ [name]⟩

/-- Whether a path stays in the working directory. -/
def isInside (p : Path) : Bool := !p.rooted && p.resolve.parts.head? != some (Text.of "..")

/-- What a path adds to a path that it begins with. -/
def below? (directory p : Path) : Option Path :=
  if directory.rooted == p.rooted && directory.parts.isPrefixOf p.parts then
    some ⟨false, p.parts.drop directory.parts.length⟩
  else none

/-- The order of lists of names. -/
def partsLess : List Text → List Text → Bool
  | [], [] => false
  | [], _ :: _ => true
  | _ :: _, [] => false
  | a :: r, b :: s => if Text.less a b then true else if Text.less b a then false else partsLess r s

/-- The order of paths: name by name. -/
def less (p q : Path) : Bool := partsLess p.parts q.parts

/-- Insertion into a list that is sorted by `less`. -/
def insertSorted (p : Path) : List Path → List Path
  | [] => [p]
  | q :: qs => if less p q then p :: q :: qs else q :: insertSorted p qs

/-- The paths in the order of `less`. -/
def sort (ps : List Path) : List Path := ps.foldl (fun acc p => insertSorted p acc) []

end Path

end Untangle
