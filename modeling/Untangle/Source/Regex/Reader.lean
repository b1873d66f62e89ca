import Untangle.Dict
import Untangle.Text.Digit
import Untangle.Text.Identifier

set_option autoImplicit false

/-!
# Reading patterns

A pattern is read token by token, where a backslash and the character after it are one token.  The
reader knows the groups that were opened so far and the flags for the whole pattern.
-/

/-! ## Widths of patterns

The least and the greatest number of characters that a part of a pattern takes.  A look-behind needs a
width that is fixed and not too great. -/

namespace Untangle.Source.Regex

/-- The least and the greatest number of characters that a part takes. -/
structure Width where
  least : Nat
  most : Nat
  deriving DecidableEq, Repr, Inhabited

/-- The number of repetitions that stands for any number. -/
def unbounded : Nat := 0xFFFFFFFF

/-- The width at which counting stops. -/
def Width.limit : Nat := 0x10000000000000000

namespace Width

/-- Nothing. -/
def zero : Width := ⟨0, 0⟩

/-- One character. -/
def one : Width := ⟨1, 1⟩

/-- One part after the other. -/
def add (v w : Width) : Width := ⟨min (v.least + w.least) limit, min (v.most + w.most) limit⟩

/-- One part or the other. -/
def either (v w : Width) : Width := ⟨min v.least w.least, max v.most w.most⟩

/-- A part from `least` to `most` times. -/
def times (w : Width) (least most : Nat) : Width :=
  ⟨min (w.least * least) limit,
    if most == unbounded && w.most != 0 then limit else min (w.most * most) limit⟩

/-- Whether a look-behind can have the width. -/
def isFixed (w : Width) : Bool := w.least == w.most && w.least ≤ unbounded

end Width

/-! ## Tokens -/

/-- A character by itself, or one after a backslash. -/
inductive Token where
  | plain (c : CodePoint)
  | escaped (c : CodePoint)
  deriving DecidableEq, Repr

/-- The tokens of a pattern; a backslash at the end is refused. -/
def tokens? : Text → Option (List Token)
  | [] => some []
  | 0x5C :: [] => none
  | 0x5C :: c :: rest => (tokens? rest).map (.escaped c :: ·)
  | c :: rest => (tokens? rest).map (.plain c :: ·)

/-- The character of a token that stands by itself. -/
def Token.plain? : Token → Option CodePoint
  | .plain c => some c
  | .escaped _ => none

/-- Whether a token is a character of a class that stands by itself. -/
def Token.isPlain (p : CodePoint → Bool) (t : Token) : Bool := (t.plain?.map p).getD false

/-! ## The reader -/

/-- What flags can change. -/
inductive Flag where
  | ignoreCase
  | multiline
  | dotAll
  | verbose
  | ascii
  | unicode
  | template
  deriving DecidableEq, Repr

/-- The state of the reader: what is left of the pattern; the groups by number, with their widths once
they are closed; their names; the number of groups before a look-behind that is being read; groups
that conditions refer to; the flags for the whole; and whether something is repeated. -/
structure State where
  rest : List Token
  groups : List (Option Width)
  names : Dict Text Nat
  behind : Option Nat
  conditions : List Nat
  flags : List Flag
  repeats : Bool

/-- The state at the start of a pattern. -/
def State.start (tokens : List Token) : State := ⟨tokens, [none], .empty, none, [], [], false⟩

/-- A reader; it fails where the pattern is not well formed. -/
abbrev Reader := StateT State Option

/-- The token ahead. -/
def peek : Reader (Option Token) := do return (← get).rest.head?

/-- Takes a token. -/
def take : Reader Token := do
  match (← get).rest with
  | [] => failure
  | t :: r =>
    modify fun s => { s with rest := r }
    return t

/-- Takes a character that stands by itself. -/
def takePlain : Reader CodePoint := do
  match ← take with
  | .plain c => return c
  | .escaped _ => failure

/-- Takes a character if it is the one ahead. -/
def accept (c : CodePoint) : Reader Bool := do
  if (← peek) == some (.plain c) then
    let _ ← take
    return true
  return false

/-- Takes a character that has to be there. -/
def need (c : CodePoint) : Reader Unit := do
  if !(← accept c) then failure

/-- Takes characters of a class, at most `limit` of them. -/
def takeWhile (p : CodePoint → Bool) (limit : Nat) : Reader Text := do
  let s ← get
  let found := (s.rest.takeWhile (·.isPlain p)).take limit
  set { s with rest := s.rest.drop found.length }
  return found.filterMap Token.plain?

/-- Skips the tokens before a closing character; returns whether there is one. -/
def skipTo (closing : CodePoint) : Reader Bool := do
  let s ← get
  let skipped := s.rest.takeWhile (· != .plain closing)
  set { s with rest := s.rest.drop (skipped.length + 1) }
  return skipped.length < s.rest.length

/-- Takes the characters before a closing one, and that one; there has to be one before it, and all
have to stand by themselves. -/
def takeUntil (closing : CodePoint) : Reader Text := do
  let s ← get
  let found := s.rest.takeWhile (· != .plain closing)
  let name := found.filterMap Token.plain?
  if !(← skipTo closing) || found.isEmpty || name.length != found.length then failure
  return name

/-! ## Groups -/

/-- A group that is referred to inside of a look-behind has to be closed before it. -/
def checkBehind (n : Nat) : Reader Unit := do
  let s ← get
  match s.behind with
  | none => return
  | some b => if (s.groups.getD n none).isNone || b ≤ n then failure

/-- Refers to a group, which has to be closed. -/
def reference (n : Nat) : Reader Width := do
  match (← get).groups.getD n none with
  | none => failure
  | some w =>
    checkBehind n
    return w

/-- Opens a group. -/
def openGroup (name : Option Text) : Reader Nat := do
  let s ← get
  let n := s.groups.length
  match name with
  | none => set { s with groups := s.groups ++ [none] }
  | some t =>
    if s.names.contains t then failure
    set { s with groups := s.groups ++ [none], names := s.names.put t n }
  return n

/-- Closes a group. -/
def closeGroup (n : Nat) (w : Width) : Reader Unit :=
  modify fun s => { s with groups := s.groups.set n (some w) }

/-- The group of a name. -/
def namedGroup (name : Text) : Reader Nat := do
  if !Text.isStableName name then failure
  match (← get).names.get? name with
  | some n => return n
  | none => failure

/-! ## Flags of groups

Flags at the start of a pattern hold for the whole of it; before a colon they hold for a group, where
those after a minus sign are turned off.  A group cannot have both `a` and `u`, turn one of them off, or
turn a flag on and off, and `t` is for whole patterns only. -/

/-- The flag of a letter. -/
def Flag.ofLetter? (c : CodePoint) : Option Flag :=
  if c == 0x69 then some .ignoreCase
  else if c == 0x6D then some .multiline
  else if c == 0x73 then some .dotAll
  else if c == 0x78 then some .verbose
  else if c == 0x61 then some .ascii
  else if c == 0x75 then some .unicode
  else if c == 0x74 then some .template
  else none

/-- What flags in parentheses are for: the whole pattern, or a group, where some are on and some are
off. -/
inductive FlagScope where
  | whole (on : List Flag)
  | group (on off : List Flag)

/-- Takes letters of flags. -/
def takeFlags : Reader (List Flag) := do
  let letters ← takeWhile (fun c => (Flag.ofLetter? c).isSome) (← get).rest.length
  return letters.filterMap Flag.ofLetter?

/-- Whether flags name both character sets. -/
def hasBothSets (flags : List Flag) : Bool := flags.contains .ascii && flags.contains .unicode

/-- Reads the flags of a group that are turned off, up to the colon. -/
def flagsOff (on : List Flag) : Reader FlagScope := do
  let off ← takeFlags
  need 0x3A
  if off.isEmpty || on.contains .template || off.any fun f =>
      f == .template || f == .ascii || f == .unicode || on.contains f then
    failure
  return .group on off

/-- Reads flags and what ends them. -/
def flagScope : Reader FlagScope := do
  let on ← takeFlags
  if hasBothSets on then failure
  if ← accept 0x2D then return ← flagsOff on
  if on.isEmpty then failure
  if ← accept 0x29 then return .whole on
  need 0x3A
  if on.contains .template then failure
  return .group on []

end Untangle.Source.Regex
