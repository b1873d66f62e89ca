import Untangle.Text.Style

set_option autoImplicit false

/-!
# Marked texts

A message may have tags in brackets: `[red]` opens a style, `[/red]` closes it and `[/]` closes the
latest one.  A tag begins with a small letter, `#`, `/` or `@` and has no further opening bracket; other
brackets are text.  A backslash before a tag makes it text, and two backslashes stand for one.

What is shown of a message is its text without tags.  A tag that closes nothing is an error.
-/

namespace Untangle.Markup

/-- A tag: its name and what follows an equals sign. -/
structure Tag where
  name : Text
  parameters : Option Text
  deriving DecidableEq, Repr

/-- The tag of what stands between the brackets. -/
def Tag.ofText (t : Text) : Tag :=
  let name := t.takeWhile (· != 0x3D)
  ⟨name, (t.drop name.length).tail?⟩

/-- A tag with its brackets. -/
def Tag.text (t : Tag) : Text :=
  [0x5B] ++ t.name ++ (t.parameters.toList.flatMap fun p => 0x3D :: p) ++ [0x5D]

/-- Why a message cannot be shown; a position is where the tag begins. -/
inductive Fault where
  | unmatched (t : Tag) (position : Nat)
  | nothingOpen (position : Nat)
  deriving DecidableEq, Repr

/-- The wording of the reason. -/
def Fault.message : Fault → Text
  | .unmatched t n =>
    Text.of "closing tag '" ++ t.text ++ Text.of "' at position " ++ Text.ofNat n ++
      Text.of " doesn't match any open tag"
  | .nothingOpen n =>
    Text.of "closing tag '[/]' at position " ++ Text.ofNat n ++ Text.of " has nothing to close"

/-! ## Pieces -/

/-- A piece of a message. -/
inductive Piece where
  | text (t : Text)
  | tag (t : Tag) (position : Nat)
  deriving DecidableEq, Repr

/-- Whether a tag may begin with a character. -/
def opensTag (c : CodePoint) : Bool :=
  (0x61 ≤ c && c ≤ 0x7A) || c == 0x23 || c == 0x2F || c == 0x40

/-- What stands between the brackets of a tag, after its opening bracket. -/
def tagBody? : Text → Option Text
  | [] => none
  | c :: r =>
    let rest := r.takeWhile fun d => d != 0x5B && d != 0x5D
    if opensTag c && (r.drop rest.length).head? == some 0x5D then some (c :: rest) else none

/-- The pieces of a message from a position on.  `skip` counts the characters of the current tag still to
be passed over, `slashes` the backslashes right before. -/
def piecesFrom (skip position slashes : Nat) : Text → List Piece
  | [] => [.text (List.replicate slashes 0x5C)]
  | c :: r =>
    if 0 < skip then piecesFrom (skip - 1) (position + 1) 0 r
    else if c == 0x5C then piecesFrom 0 (position + 1) (slashes + 1) r
    else if c != 0x5B then
      .text (List.replicate slashes 0x5C ++ [c]) :: piecesFrom 0 (position + 1) 0 r
    else
      match tagBody? r with
      | none => .text (List.replicate (slashes - 1) 0x5C ++ [c]) :: piecesFrom 0 (position + 1) 0 r
      | some body =>
        .text (List.replicate (slashes / 2) 0x5C) ::
        (if slashes % 2 == 0 then .tag (.ofText body) position
          else .text (0x5B :: body ++ [0x5D])) ::
        piecesFrom (body.length + 1) (position + 1) 0 r

/-- The pieces of a message. -/
def pieces (t : Text) : List Piece := piecesFrom 0 0 0 t

/-! ## What is shown -/

/-- The styles that are open after a tag; the latest comes first. -/
def follow (opened : List Text) (t : Tag) (position : Nat) : Except Fault (List Text) :=
  match t.name with
  | 0x2F :: rest =>
    let name := Text.trim rest
    if name.isEmpty then
      match opened with
      | [] => .error (.nothingOpen position)
      | _ :: others => .ok others
    else if opened.contains (Style.normal name) then .ok (opened.erase (Style.normal name))
    else .error (.unmatched t position)
  | name => .ok (Style.normal name :: opened)

/-- The texts of some pieces while some styles are open. -/
def textFrom (opened : List Text) : List Piece → Except Fault Text
  | [] => .ok []
  | .text t :: rest => do return t ++ (← textFrom opened rest)
  | .tag t position :: rest => do textFrom (← follow opened t position) rest

/-- Characters that control a terminal and are never shown. -/
def isHidden (c : CodePoint) : Bool :=
  c == 0x07 || c == 0x08 || c == 0x0B || c == 0x0C || c == 0x0D

/-- What is shown of a message. -/
def shown (t : Text) : Except Fault Text :=
  (textFrom [] (pieces t)).map fun s => s.filter fun c => !isHidden c

/-- A text in a style. -/
def styled (style : String) (t : Text) : Text :=
  Text.of ("[" ++ style ++ "]") ++ t ++ Text.of ("[/" ++ style ++ "]")

end Untangle.Markup
