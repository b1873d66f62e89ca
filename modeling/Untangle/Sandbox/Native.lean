import Untangle.Text.Basic

set_option autoImplicit false

/-!
# Built-in functions

The functions that the sandbox provides.  All of them are deterministic; clocks, chance and the outside
world are left out on purpose, so that code which needs them fails instead of giving a value.
-/

namespace Untangle.Sandbox

/-- Methods of strings. -/
inductive StringMethod where
  | charAt
  | charCodeAt
  | indexOf
  | lastIndexOf
  | includes
  | startsWith
  | endsWith
  | slice
  | substring
  | substr
  | split
  | replace
  | concat
  | repeat
  | toUpperCase
  | toLowerCase
  | trim
  | toString
  | valueOf
  deriving DecidableEq, Repr

/-- Methods of numbers. -/
inductive NumberMethod where
  | toString
  | toFixed
  | valueOf
  deriving DecidableEq, Repr

/-- Methods of truth values. -/
inductive BooleanMethod where
  | toString
  | valueOf
  deriving DecidableEq, Repr

/-- Methods of arrays. -/
inductive ArrayMethod where
  | join
  | push
  | pop
  | shift
  | unshift
  | slice
  | splice
  | reverse
  | indexOf
  | includes
  | concat
  | map
  | filter
  | forEach
  | reduce
  | toString
  deriving DecidableEq, Repr

/-- Methods of functions. -/
inductive FunctionMethod where
  | call
  | apply
  deriving DecidableEq, Repr

/-- Functions of the object `Math`. -/
inductive MathFunction where
  | abs
  | floor
  | ceil
  | trunc
  | sqrt
  | sign
  | round
  | max
  | min
  | pow
  deriving DecidableEq, Repr

/-- Functions that are global variables, and the function that `String` carries. -/
inductive GlobalFunction where
  | string
  | fromCharCode
  | number
  | boolean
  | parseInt
  | parseFloat
  | isNaN
  | isFinite
  | escape
  | unescape
  | encodeURIComponent
  | decodeURIComponent
  | atob
  | btoa
  deriving DecidableEq, Repr

/-- A built-in function. -/
inductive Native where
  | string (m : StringMethod)
  | number (m : NumberMethod)
  | boolean (m : BooleanMethod)
  | array (m : ArrayMethod)
  | function (m : FunctionMethod)
  | hasOwnProperty
  | math (f : MathFunction)
  | global (f : GlobalFunction)
  deriving DecidableEq, Repr

/-- The name of a string method. -/
def StringMethod.name : StringMethod → String
  | .charAt => "charAt"
  | .charCodeAt => "charCodeAt"
  | .indexOf => "indexOf"
  | .lastIndexOf => "lastIndexOf"
  | .includes => "includes"
  | .startsWith => "startsWith"
  | .endsWith => "endsWith"
  | .slice => "slice"
  | .substring => "substring"
  | .substr => "substr"
  | .split => "split"
  | .replace => "replace"
  | .concat => "concat"
  | .repeat => "repeat"
  | .toUpperCase => "toUpperCase"
  | .toLowerCase => "toLowerCase"
  | .trim => "trim"
  | .toString => "toString"
  | .valueOf => "valueOf"

/-- The name of a number method. -/
def NumberMethod.name : NumberMethod → String
  | .toString => "toString"
  | .toFixed => "toFixed"
  | .valueOf => "valueOf"

/-- The name of a method of truth values. -/
def BooleanMethod.name : BooleanMethod → String
  | .toString => "toString"
  | .valueOf => "valueOf"

/-- The key of an array method. -/
def ArrayMethod.name : ArrayMethod → String
  | .join => "join"
  | .push => "push"
  | .pop => "pop"
  | .shift => "shift"
  | .unshift => "unshift"
  | .slice => "slice"
  | .splice => "splice"
  | .reverse => "reverse"
  | .indexOf => "indexOf"
  | .includes => "includes"
  | .concat => "concat"
  | .map => "map"
  | .filter => "filter"
  | .forEach => "forEach"
  | .reduce => "reduce"
  | .toString => "toString"

/-- The name of a method of functions. -/
def FunctionMethod.name : FunctionMethod → String
  | .call => "call"
  | .apply => "apply"

/-- The name of a function of `Math`. -/
def MathFunction.name : MathFunction → String
  | .abs => "abs"
  | .floor => "floor"
  | .ceil => "ceil"
  | .trunc => "trunc"
  | .sqrt => "sqrt"
  | .sign => "sign"
  | .round => "round"
  | .max => "max"
  | .min => "min"
  | .pow => "pow"

/-- The name of a global function. -/
def GlobalFunction.name : GlobalFunction → String
  | .string => "String"
  | .fromCharCode => "fromCharCode"
  | .number => "Number"
  | .boolean => "Boolean"
  | .parseInt => "parseInt"
  | .parseFloat => "parseFloat"
  | .isNaN => "isNaN"
  | .isFinite => "isFinite"
  | .escape => "escape"
  | .unescape => "unescape"
  | .encodeURIComponent => "encodeURIComponent"
  | .decodeURIComponent => "decodeURIComponent"
  | .atob => "atob"
  | .btoa => "btoa"

/-- The name of a built-in function. -/
def Native.name : Native → Text
  | .string m => m.name
  | .number m => m.name
  | .boolean m => m.name
  | .array m => m.name
  | .function m => m.name
  | .hasOwnProperty => "hasOwnProperty"
  | .math f => f.name
  | .global f => f.name

/-- The functions that values inherit, in the order of their places in every store. -/
def Native.inherited : List Native :=
  [.string .charAt, .string .charCodeAt, .string .indexOf, .string .lastIndexOf, .string .includes,
   .string .startsWith, .string .endsWith, .string .slice, .string .substring, .string .substr,
   .string .split, .string .replace, .string .concat, .string .repeat, .string .toUpperCase,
   .string .toLowerCase, .string .trim, .string .toString, .string .valueOf,
   .number .toString, .number .toFixed, .number .valueOf,
   .boolean .toString, .boolean .valueOf,
   .array .join, .array .push, .array .pop, .array .shift, .array .unshift, .array .slice,
   .array .splice, .array .reverse, .array .indexOf, .array .includes, .array .concat, .array .map,
   .array .filter, .array .forEach, .array .reduce, .array .toString,
   .function .call, .function .apply, .hasOwnProperty]

/-- The kinds of values that inherit functions. -/
inductive Family where
  | string
  | number
  | boolean
  | array
  | function
  | object
  deriving DecidableEq, Repr

/-- The kind of values that inherit a function. -/
def Native.family? : Native → Option Family
  | .string _ => some .string
  | .number _ => some .number
  | .boolean _ => some .boolean
  | .array _ => some .array
  | .function _ => some .function
  | .hasOwnProperty => some .object
  | .math _ | .global _ => none

/-- The place in every store of a function that values of a kind inherit. -/
def inheritedPlace? (family : Family) (key : Text) : Option Nat :=
  Native.inherited.findIdx? fun n => n.family? == some family && n.name == key

end Untangle.Sandbox
