import Untangle.Sandbox.Property
import Untangle.Text.Case
import Untangle.Text.Space

set_option autoImplicit false

/-!
# Methods of strings

Positions count characters.  A position from the end is negative, one beyond an end is moved to it.
-/

namespace Untangle.Sandbox.Run

/-- How running code is called back: function, receiver, arguments. -/
abbrev Caller := Value → Value → List Value → Run Value

/-- An argument, or `undefined` if it was not given. -/
def arg (args : List Value) (i : Nat) : Value := args.getD i .undefined

/-- The text of a value. -/
def textOf (v : Value) : Run Text := reading fun h => toText h v

/-- The number of a value. -/
def numberOf (v : Value) : Run Float := reading fun h => toNumber h v

/-- The number of a value without its fraction. -/
def integerOf (v : Value) : Run Float := reading fun h => toInteger h v

/-- A number as a count. -/
def countOf (x : Float) : Run Int := reading fun _ => toCount x

/-- The text of a receiver. -/
def receiverText (this : Value) : Run Text := do
  if this.isNullish then
    raise "TypeError" "String.prototype method called on null or undefined"
  else textOf this

/-- A number moved into the range from zero to a bound. -/
def clamp (x : Float) (bound : Nat) : Nat :=
  if Binary64.isNegative x then 0
  else if Binary64.isInfinite x then bound
  else min (Binary64.truncate x).toNat bound

/-- A position given by a value; from the end if it is negative, the default if it is not given. -/
def position (v : Value) (length default : Nat) : Run Nat := do
  if v.isUndefined then return default
  let x ← integerOf v
  if x < 0.0 then
    if Binary64.isInfinite x then return 0
    return ((length : Int) + Binary64.truncate x).toNat
  return clamp x length

/-- The part of a list between two positions. -/
def between {α : Type} (xs : List α) (start stop : Nat) : List α := (xs.take stop).drop start

/-- The character at a position given by a value. -/
def charAtValue (t : Text) (v : Value) : Run (Option CodePoint) := do
  let x ← integerOf v
  if x < 0.0 || Binary64.isInfinite x then return none
  return t[(Binary64.truncate x).toNat]?

/-- A place as a number; nothing is minus one. -/
def placeNumber (place : Option Nat) : Value :=
  match place with
  | some i => ofCount i
  | none => .number (-1.0)

/-- The part of a text between two positions that are given as values; the lesser comes first and
positions from the end count as zero. -/
def substringOf (t : Text) (args : List Value) : Run Text := do
  let bound (v : Value) (default : Nat) : Run Nat := do
    if v.isUndefined then return default
    return clamp (← integerOf v) t.length
  let start ← bound (arg args 0) 0
  let stop ← bound (arg args 1) t.length
  return between t (min start stop) (max start stop)

/-- The part of a text from a position on with a length. -/
def substrOf (t : Text) (args : List Value) : Run Text := do
  let start ← position (arg args 0) t.length 0
  let length := arg args 1
  if length.isUndefined then return t.drop start
  let x ← integerOf length
  let count ← if x < 0.0 then pure 0 else countOf x
  return (t.drop start).take count.toNat

/-- As many of the first items as a count says; a negative count takes items from the end away. -/
def takeCount {α : Type} (xs : List α) (n : Int) : List α :=
  if n < 0 then xs.take (xs.length - n.natAbs) else xs.take n.toNat

/-- The pieces of a text between separators. -/
def splitText (t : Text) (args : List Value) : Run Value := do
  let separator := arg args 0
  if separator.isObject then fail .splitByObject
  let pieces ← if separator.isUndefined then pure [t] else do
    let s ← textOf separator
    pure (if s.isEmpty then t.map fun c => [c] else Text.splitOn s t)
  let limit := arg args 1
  let pieces ← if limit.isUndefined then pure pieces
    else do pure (takeCount pieces (← countOf (← integerOf limit)))
  newArray (pieces.map Value.string).toArray

/-- A text with the first place of a pattern replaced. -/
def replaceText (call : Caller) (t : Text) (args : List Value) : Run Text := do
  let pattern := arg args 0
  if pattern.isObject then fail .replaceByObject
  let p ← textOf pattern
  match t.find? p 0 with
  | none => return t
  | some i =>
    let replacement := arg args 1
    let s ← if (← get).heap.isCallable replacement then do
        textOf (← call replacement .undefined [.string p, ofCount i, .string t])
      else do
        let s ← textOf replacement
        if s.contains 0x24 then fail .replacementPattern
        pure s
    return t.take i ++ s ++ t.drop (i + p.length)

/-- A text repeated as often as a value says. -/
def repeatText (this : Value) (args : List Value) : Run Text := do
  let x ← integerOf (arg args 0)
  if x < 0.0 || Binary64.isInfinite x then raise "RangeError" "Invalid count value"
  else
    let t ← receiverText this
    let count := (Binary64.truncate x).toNat
    boundLength count
    if lengthBound ≤ count * t.length then throw (.fault .longText)
    return t.times count

/-- Whether a text ends with another. -/
def endsWith (t s : Text) : Bool := s.reverse.isPrefixOf t.reverse

/-- Applies a method of strings. -/
def stringMethod (call : Caller) (m : StringMethod) (this : Value) (args : List Value) :
    Run Value := do
  match m with
  | .charAt =>
    let t ← receiverText this
    return .string (← charAtValue t (arg args 0)).toList
  | .charCodeAt =>
    let t ← receiverText this
    return match ← charAtValue t (arg args 0) with
      | some c => ofCount c
      | none => .number Binary64.nan
  | .indexOf =>
    let t ← receiverText this
    let start := clamp (← integerOf (arg args 1)) t.length
    return placeNumber (t.find? (← textOf (arg args 0)) start)
  | .lastIndexOf =>
    let t ← receiverText this
    return placeNumber (t.findLast? (← textOf (arg args 0)))
  | .includes =>
    let s ← textOf (arg args 0)
    return .bool ((← receiverText this).includes s)
  | .startsWith =>
    let t ← receiverText this
    return .bool ((← textOf (arg args 0)).isPrefixOf t)
  | .endsWith =>
    let t ← receiverText this
    return .bool (endsWith t (← textOf (arg args 0)))
  | .slice =>
    let t ← receiverText this
    let start ← position (arg args 0) t.length 0
    let stop ← position (arg args 1) t.length t.length
    return .string (between t start stop)
  | .substring => return .string (← substringOf (← receiverText this) args)
  | .substr => return .string (← substrOf (← receiverText this) args)
  | .split => splitText (← receiverText this) args
  | .replace => return .string (← replaceText call (← receiverText this) args)
  | .concat =>
    let t ← receiverText this
    return .string (t ++ (← args.mapM textOf).flatten)
  | .repeat => return .string (← repeatText this args)
  | .toUpperCase => return .string (← receiverText this).upper
  | .toLowerCase => return .string (← receiverText this).lower
  | .trim => return .string (← receiverText this).trim
  | .toString | .valueOf => return .string (← receiverText this)

end Untangle.Sandbox.Run
