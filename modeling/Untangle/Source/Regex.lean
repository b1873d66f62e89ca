import Untangle.Source.Regex.Item
import Untangle.Source.Regex.Reader

set_option autoImplicit false

/-!
# Bodies of regular expressions

Whether the body of a regular expression is well formed.  The dialect has groups, names of groups
(`(?P<name>…)`), look-around, atomic groups, comments, conditions on groups and flags.  What is refused:
a repetition of nothing, of an anchor or of a repetition; sets and groups that do not end; ranges that
run backwards or have a class at an end; escapes of letters without a meaning; references to groups
that are not closed yet; and a look-behind whose width is not fixed.

Where the flag `x` is on, blanks outside of sets are skipped, and so is what stands between `#` and the
end of a line.
-/

namespace Untangle.Source.Regex

/-! ## Groups -/

/-- What an opening parenthesis begins. -/
inductive Opening where
  | group (name : Option Text)
  | plain (on off : List Flag)
  | ahead
  | behind
  | condition
  | item (item : Item)
  | comment
  | flags

/-- Reads the group that a condition refers to, by its name or its number; a number may be that of a
group that is opened later. -/
def conditionGroup : Reader Unit := do
  let t ← takeUntil 0x29
  if Text.isStableName t then
    checkBehind (← namedGroup t)
  else
    match if t.length ≤ digitLimit then Text.integer? t else none with
    | none => failure
    | some n =>
      if n ≤ 0 then failure
      modify fun s => { s with conditions := n.toNat :: s.conditions }
      checkBehind n.toNat

/-- Reads what follows `(?P`. -/
def namedOpening : Reader Opening := do
  let c ← takePlain
  if c == 0x3C then
    let name ← takeUntil 0x3E
    if Text.isStableName name then return .group (some name) else failure
  if c == 0x3D then
    let name ← takeUntil 0x29
    return .item ⟨.other, ← reference (← namedGroup name)⟩
  failure

/-- Reads flags after `(?`; flags for the whole are allowed only at the start of it. -/
def flagOpening (atStart : Bool) : Reader Opening := do
  match ← flagScope with
  | .group on off => return .plain on off
  | .whole on =>
    if !atStart then failure
    modify fun s => { s with flags := s.flags ++ on }
    return .flags

/-- Reads what follows `(?`. -/
def extension (atStart : Bool) : Reader Opening := do
  let start ← get
  let c ← takePlain
  if c == 0x50 then return ← namedOpening
  if c == 0x3A || c == 0x3E then return .plain [] []
  if c == 0x23 then
    if ← skipTo 0x29 then return .comment else failure
  if c == 0x3D || c == 0x21 then return .ahead
  if c == 0x3C then
    let d ← takePlain
    if d == 0x3D || d == 0x21 then return .behind else failure
  if c == 0x28 then
    conditionGroup
    return .condition
  set start
  flagOpening atStart

/-- Reads what an opening parenthesis begins. -/
def opening (atStart : Bool) : Reader Opening := do
  if ← accept 0x3F then extension atStart else return .group none

/-! ## Bodies -/

/-- Blanks that are skipped under the flag `x`. -/
def isSkipped (c : CodePoint) : Bool := c == 0x20 || (0x09 ≤ c && c ≤ 0x0D)

/-- Whether the flag `x` holds for the whole. -/
def isVerbose : Reader Bool := do return (← get).flags.contains .verbose

mutual

/-- Reads alternatives; at the top the flag `x` of the whole holds from the second one on. -/
def alternatives (fuel : Nat) (isTop isFirst verbose : Bool) : Reader Width :=
  match fuel with
  | 0 => failure
  | fuel + 1 => do
    let w ← parts fuel (isTop && isFirst) verbose .zero none
    if ← accept 0x7C then
      let verbose ← if isTop then isVerbose else pure verbose
      return w.either (← alternatives fuel isTop false verbose)
    return w

/-- Reads parts one after the other, after parts of a width and a last one; where nothing was read yet
there may be flags for the whole. -/
def parts (fuel : Nat) (isFirst verbose : Bool) (before : Width) (last : Option Item) : Reader Width :=
  match fuel with
  | 0 => failure
  | fuel + 1 => do
    let total := (last.map fun i => before.add i.width).getD before
    match ← peek with
    | none => return total
    | some (.escaped c) =>
      let _ ← take
      parts fuel isFirst verbose total (some (← escape c))
    | some (.plain c) =>
      if c == 0x7C || c == 0x29 then return total
      let _ ← take
      if verbose && isSkipped c then
        parts fuel isFirst verbose before last
      else if verbose && c == 0x23 then
        let _ ← skipTo 0x0A
        parts fuel isFirst verbose before last
      else if isOneOf "*+?" c then
        let (least, most) := if c == 0x2A then (0, unbounded) else if c == 0x2B then (1, unbounded)
          else (0, 1)
        parts fuel isFirst verbose before (some (← repeated last least most))
      else if c == 0x7B then
        match ← bounds? with
        | some (least, most) => parts fuel isFirst verbose before (some (← repeated last least most))
        | none => parts fuel isFirst verbose total (some .unit)
      else if c == 0x28 then
        match ← opening (isFirst && last.isNone) with
        | .comment => parts fuel isFirst verbose before last
        | .flags => parts fuel isFirst (← isVerbose) before last
        | .item item => parts fuel isFirst verbose total (some item)
        | shape => parts fuel isFirst verbose total (some (← group fuel verbose shape))
      else
        let item ←
          if c == 0x5B then charSet else pure (if c == 0x5E || c == 0x24 then .anchor else .unit)
        parts fuel isFirst verbose total (some item)

/-- Reads a group after its opening. -/
def group (fuel : Nat) (verbose : Bool) (shape : Opening) : Reader Item :=
  match fuel with
  | 0 => failure
  | fuel + 1 => do
    match shape with
    | .plain on off =>
      let w ← alternatives fuel false false
        ((verbose || on.contains .verbose) && !off.contains .verbose)
      need 0x29
      return ⟨.other, w⟩
    | .group name =>
      let n ← openGroup name
      let w ← alternatives fuel false false verbose
      need 0x29
      closeGroup n w
      return ⟨.other, w⟩
    | .ahead =>
      let _ ← alternatives fuel false false verbose
      need 0x29
      return ⟨.other, .zero⟩
    | .behind =>
      let outer := (← get).behind
      modify fun s => { s with behind := some (outer.getD s.groups.length) }
      let w ← alternatives fuel false false verbose
      modify fun s => { s with behind := outer }
      need 0x29
      if w.isFixed then return ⟨.other, .zero⟩ else failure
    | .condition =>
      let yes ← parts fuel false verbose .zero none
      let w ← if ← accept 0x7C then do
          let no ← parts fuel false verbose .zero none
          pure (yes.either no)
        else pure ⟨0, yes.most⟩
      need 0x29
      return ⟨.other, w⟩
    | _ => failure

end

/-- Reads a whole body.  Conditions have to refer to groups of it, one character set has to hold for
it, and where it is a template nothing may be repeated. -/
def body (fuel : Nat) : Reader Unit := do
  let _ ← alternatives fuel true true false
  let s ← get
  if !s.rest.isEmpty || (s.conditions.any fun n => s.groups.length ≤ n) || hasBothSets s.flags ||
      (s.flags.contains .template && s.repeats) then
    failure

/-! ## Code points -/

/-- A body with its escapes of code points, and pairs of surrogates, replaced by characters; it fails
where an escape goes beyond the last code point. -/
def withCodePoints : Nat → Text → Option Text
  | 0, t => some t
  | fuel + 1, t =>
    match t with
    | [] => some []
    | 0x5C :: 0x75 :: 0x7B :: r =>
      let digits := r.takeWhile Text.isHexDigit
      match digits, r.drop digits.length with
      | _ :: _, 0x7D :: rest =>
        let n := Text.hexNumber digits
        if n > 0x10FFFF then none
        else (withCodePoints fuel rest).map fun u => min n 0xFFFF :: u
      | _, _ => (withCodePoints fuel (0x75 :: 0x7B :: r)).map fun u => 0x5C :: u
    | 0x5C :: 0x75 :: a :: b :: c :: d :: rest =>
      if [a, b, c, d].all Text.isHexDigit then
        (withCodePoints fuel rest).map fun u => Text.hexNumber [a, b, c, d] :: u
      else (withCodePoints fuel (0x75 :: a :: b :: c :: d :: rest)).map fun u => 0x5C :: u
    | c :: rest => (withCodePoints fuel rest).map fun u => c :: u

/-- A body with each pair of surrogates replaced by one character. -/
def withoutPairs : Text → Text
  | a :: b :: rest =>
    if 0xD800 ≤ a && a ≤ 0xDBFF && 0xDC00 ≤ b && b ≤ 0xDFFF then 0xFFFF :: withoutPairs rest
    else a :: withoutPairs (b :: rest)
  | t => t

/-- Whether a body is that of a regular expression. -/
def isValid (pattern : Text) : Bool :=
  match ((withCodePoints pattern.length pattern).map withoutPairs).bind tokens? with
  | none => false
  | some ts => ((body (4 * ts.length + 4)).run (.start ts)).isSome

end Untangle.Source.Regex
