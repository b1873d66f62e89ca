import Untangle.Sandbox.Builtin.Array
import Untangle.Text.Base64
import Untangle.Text.Percent

set_option autoImplicit false

/-!
# Global functions, and methods of numbers, truth values, functions and objects

Rounding gives whole numbers without a negative zero; extremes of equal numbers give the first of
them.
-/

namespace Untangle.Sandbox.Run

/-! ## Numbers, truth values, functions, objects -/

/-- The text of a number in a base. -/
def radixTextOf (x : Float) (base : Int) : Run Text := do
  if base == 10 then return Number.text x
  if base < 2 || 36 < base then
    raise "RangeError" "toString() radix must be between 2 and 36"
  else if !Binary64.isFinite x then return Number.text x
  else return Number.radixText base.toNat x

/-- The text of a number with a fixed number of places. -/
def fixedTextOf (this : Value) (args : List Value) : Run Text := do
  let places ← countOf (← integerOf (arg args 0))
  if places < 0 || 100 < places then
    raise "RangeError" "toFixed() digits argument must be between 0 and 100"
  else
    let x ← numberOf this
    if Binary64.isNaN x || x.abs ≥ 1e21 then return Number.text x
    return Number.fixedText x places.toNat

/-- Applies a method of numbers. -/
def numberMethod (m : NumberMethod) (this : Value) (args : List Value) : Run Value := do
  match m with
  | .toString =>
    let x ← numberOf this
    let v := arg args 0
    let base ← if v.isUndefined then pure 10 else countOf (← integerOf v)
    return .string (← radixTextOf x base)
  | .toFixed => return .string (← fixedTextOf this args)
  | .valueOf => return .number (← numberOf this)

/-- Applies a method of truth values. -/
def booleanMethod (m : BooleanMethod) (this : Value) : Run Value := do
  match m with
  | .toString => return .string (← textOf this)
  | .valueOf => return this

/-- The arguments that an array holds. -/
def argumentList (v : Value) : Run (List Value) := do
  if v.isNullish then return []
  match (← get).heap.elements? v with
  | some es => return es.toList
  | none => raise "TypeError" "CreateListFromArrayLike called on non-object"

/-- Applies a method of functions. -/
def functionMethod (call : Caller) (m : FunctionMethod) (this : Value) (args : List Value) :
    Run Value := do
  match m with
  | .call => call this (arg args 0) (args.drop 1)
  | .apply => call this (arg args 0) (← argumentList (arg args 1))

/-- Whether a value is an object with a property of its own. -/
def hasOwn (this : Value) (args : List Value) : Run Value := do
  match this with
  | .object r =>
    let key ← textOf (arg args 0)
    let c ← cell r
    return .bool (← reading fun _ => c.has key)
  | _ => return .bool false

/-! ## Mathematics -/

/-- A whole number as a floating-point number, infinities as they are. -/
def rounded (round : Float → Int) (x : Float) : Float :=
  if Binary64.isInfinite x then x else ofInteger (round x)

/-- A function of one number that is not NaN. -/
def mathUnary (f : MathFunction) (x : Float) : Float :=
  match f with
  | .abs => x.abs
  | .floor => rounded Binary64.floor x
  | .ceil => rounded Binary64.ceil x
  | .trunc => rounded Binary64.truncate x
  | .sqrt => if x ≥ 0.0 then x.sqrt else Binary64.nan
  | .round => rounded Binary64.floor (if Binary64.isInfinite x then x else x + 0.5)
  | _ => if Binary64.isZero x then x else if x > 0.0 then 1.0 else -1.0

/-- The extreme of some numbers by an order, the first of equal ones. -/
def extreme (better : Float → Float → Bool) (empty : Float) (xs : List Float) : Float :=
  if xs.any Binary64.isNaN then Binary64.nan
  else
    match xs with
    | [] => empty
    | x :: rest => rest.foldl (fun best y => if better y best then y else best) x

/-- Applies a function of `Math`. -/
def mathFunction (f : MathFunction) (args : List Value) : Run Value := do
  match f with
  | .max =>
    return .number (extreme (fun a b => a > b) (-Binary64.infinity) (← args.mapM numberOf))
  | .min => return .number (extreme (fun a b => a < b) Binary64.infinity (← args.mapM numberOf))
  | .pow =>
    let x ← numberOf (arg args 0)
    let y ← numberOf (arg args 1)
    return .number (powerOf x y)
  | _ =>
    let x ← numberOf (arg args 0)
    return .number (if Binary64.isNaN x then x else mathUnary f x)

/-! ## Global functions -/

/-- The fault of reading a number. -/
def ofReadFault : Number.ReadFault → Fault
  | .tooLarge => .tooLarge
  | .tooLong n => .manyDigits n

/-- The whole number at the head of a text in a base given by a value. -/
def parseWhole (args : List Value) : Run Value := do
  let t ← textOf (arg args 0)
  let base ← reading fun h => toInt32 h (arg args 1)
  match Number.leadingWhole t base with
  | .ok x => return .number x
  | .error f => throw (.fault (ofReadFault f))

/-- The fault of a text with halves of pairs: the first run of them. -/
def surrogateFault (t : Text) : Fault :=
  let before := t.takeWhile fun c => !Text.isSurrogate c
  let run := (t.drop before.length).takeWhile Text.isSurrogate
  .unencodable (run.headD 0) before.length (before.length + run.length - 1)

/-- The text of a code that lies in two bytes. -/
def codeText (v : Value) : Run CodePoint := do
  return (← reading fun h => toUint32 h v) % 0x10000

/-- Applies a global function. -/
def globalFunction (f : GlobalFunction) (args : List Value) : Run Value := do
  match f with
  | .string =>
    match args with
    | v :: _ => return .string (← textOf v)
    | [] => return .string []
  | .fromCharCode => return .string (← args.mapM codeText)
  | .number =>
    match args with
    | v :: _ => return .number (← numberOf v)
    | [] => return .number 0.0
  | .boolean => return .bool (toBoolean (arg args 0))
  | .parseInt => parseWhole args
  | .parseFloat => return .number (Number.leadingDecimal (← textOf (arg args 0)))
  | .isNaN => return .bool (Binary64.isNaN (← numberOf (arg args 0)))
  | .isFinite => return .bool (Binary64.isFinite (← numberOf (arg args 0)))
  | .escape => return .string (Percent.escape (← textOf (arg args 0)))
  | .unescape => return .string (Percent.unescape (← textOf (arg args 0)))
  | .encodeURIComponent =>
    let t ← textOf (arg args 0)
    match Percent.encode? t with
    | some encoded => return .string encoded
    | none => throw (.fault (surrogateFault t))
  | .decodeURIComponent =>
    match Percent.decode? (← textOf (arg args 0)) with
    | some t => return .string t
    | none => raise "URIError" "URI malformed"
  | .atob =>
    match Base64.decode? (← textOf (arg args 0)) with
    | some t => return .string t
    | none =>
      raise "InvalidCharacterError" "The string to be decoded is not correctly encoded."
  | .btoa =>
    match Base64.encode? (← textOf (arg args 0)) with
    | some t => return .string t
    | none =>
      raise "InvalidCharacterError"
        "The string to be encoded contains characters outside of the Latin1 range."

/-- Applies a built-in function. -/
def applyNative (call : Caller) (fn : Native) (this : Value) (args : List Value) : Run Value :=
  match fn with
  | .string m => stringMethod call m this args
  | .number m => numberMethod m this args
  | .boolean m => booleanMethod m this
  | .array m => arrayMethod call m this args
  | .function m => functionMethod call m this args
  | .hasOwnProperty => hasOwn this args
  | .math f => mathFunction f args
  | .global f => globalFunction f args

end Untangle.Sandbox.Run
