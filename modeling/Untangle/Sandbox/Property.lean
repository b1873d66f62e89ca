import Untangle.Sandbox.Operator
import Untangle.Text.Digit

set_option autoImplicit false

/-!
# Properties

Reading, writing, testing and deleting the properties of objects.  An array answers for keys that are
indices and for its length; everything else is kept in the order in which it was put.

A value also has the functions that values of its kind inherit.
-/

namespace Untangle.Sandbox

/-- Most digits that a key may have to be read as a number. -/
def maxKeyDigits : Nat := 4300

/-- The number of a key that looks like digits throughout. -/
def keyNumber (key : Text) : Conv Nat :=
  let count := (key.takeWhile Text.isDecimal).length
  if maxKeyDigits < count then .error (.fault (.manyDigits count))
  else if count < key.length then .error (.fault (.badDigits key))
  else .ok (Text.decimalNumber key)

/-- Whether a key looks like digits throughout. -/
def isDigits (key : Text) : Bool := !key.isEmpty && key.all Text.isDigitLike

/-- The index that a key denotes: digits that do not start with a zero, or zero itself. -/
def arrayIndex (key : Text) : Conv (Option Nat) := do
  if isDigits key && (key == Text.of "0" || key.head? != some 0x30) then
    return some (← keyNumber key)
  return none

/-- The key of a value. -/
def toKey (h : Heap) (v : Value) : Conv Text := toText h v

namespace Cell

/-- Whether an object has a property of its own. -/
def has (c : Cell) (key : Text) : Conv Bool := do
  match c.body with
  | .array es =>
    match ← arrayIndex key with
    | some i => return i < es.size
    | none => return key == Text.of "length" || c.properties.contains key
  | _ => return c.properties.contains key

/-- The value of a property, or nothing known. -/
def get (c : Cell) (key : Text) : Conv Value := do
  match c.body with
  | .array es =>
    if key == Text.of "length" then return ofCount es.size
    match ← arrayIndex key with
    | some i => return es.getD i .undefined
    | none => return (c.properties.get? key).getD .undefined
  | _ => return (c.properties.get? key).getD .undefined

/-- The keys of an object in order: indices of an array first. -/
def keys (c : Cell) : List Text :=
  match c.body with
  | .array es => (List.range es.size).map Text.ofNat ++ c.properties.keys
  | _ => c.properties.keys

/-- The object without a property; an element of an array becomes undefined. -/
def delete (c : Cell) (key : Text) : Conv Cell := do
  match c.body with
  | .array es =>
    match ← arrayIndex key with
    | some i => return { c with body := .array (es.setIfInBounds i .undefined) }
    | none => return { c with properties := c.properties.erase key }
  | _ => return { c with properties := c.properties.erase key }

end Cell

/-- Elements cut off or filled up to a length. -/
def resize (es : Array Value) (size : Nat) : Array Value :=
  if size ≤ es.size then es.extract 0 size
  else es ++ Array.replicate (size - es.size) Value.undefined

/-- Elements with one of them set; the gap before it is filled up. -/
def setElement (es : Array Value) (i : Nat) (v : Value) : Array Value :=
  if i < es.size then es.setIfInBounds i v
  else (es ++ Array.replicate (i - es.size) Value.undefined).push v

/-- Neither a count nor a length reaches this bound. -/
def lengthBound : Nat := 0x8000000000000000

namespace Run

/-- Refuses a count that is too great for a length. -/
def boundLength (count : Nat) : Run Unit :=
  if lengthBound ≤ count then throw (.fault .greatCount) else return

/-- Sets the length of an array, which has to be a whole number that is not negative. -/
def putLength (r : Ref) (es : Array Value) (v : Value) : Run Unit := do
  let x ← reading fun h => toNumber h v
  if !Binary64.isInteger x || x < 0.0 then raise "RangeError" "Invalid array length"
  else
    let size := (Binary64.truncate x).toNat
    boundLength (size - es.size)
    setElements r (resize es size)

/-- Sets a property of an object. -/
def putOwn (r : Ref) (key : Text) (v : Value) : Run Unit := do
  let c ← cell r
  match c.body with
  | .array es =>
    match ← reading fun _ => arrayIndex key with
    | some i =>
      boundLength (i + 1 - es.size)
      setElements r (setElement es i v)
    | none =>
      if key == Text.of "length" then putLength r es v
      else setCell r { c with properties := c.properties.put key v }
  | _ => setCell r { c with properties := c.properties.put key v }

/-- Deletes a property of an object. -/
def deleteOwn (r : Ref) (key : Text) : Run Unit := do
  let c ← cell r
  setCell r (← reading fun _ => c.delete key)

/-- A function that values of a kind inherit, or nothing known. -/
def inherited (family : Family) (key : Text) : Value :=
  match inheritedPlace? family key with
  | some place => .object place
  | none => .undefined

/-- A property of a text: its length, its characters, or what texts inherit. -/
def textProperty (t : Text) (key : Text) : Conv Value := do
  if key == Text.of "length" then return ofCount t.length
  if isDigits key then
    let i ← keyNumber key
    return match t[i]? with
      | some c => .string [c]
      | none => .undefined
  return inherited .string key

/-- A property that an object does not have itself. -/
def inheritedProperty (c : Cell) (key : Text) : Value :=
  match c.body with
  | .array _ => inherited .array key
  | .closure _ _ name =>
    if key == Text.of "name" then .string name else inherited .function key
  | .native fn => if key == Text.of "name" then .string fn.name else inherited .function key
  | .plain => inherited .object key

/-- The property of a value. -/
def getProperty (v : Value) (key : Text) : Run Value := do
  match v with
  | .undefined | .null =>
    raise "TypeError"
      ("Cannot read properties of " ++ primitiveText v ++ " (reading '" ++ key ++ "')")
  | .string t => reading fun _ => textProperty t key
  | .bool _ => return inherited .boolean key
  | .number _ => return inherited .number key
  | .object r =>
    let c ← cell r
    if ← reading fun _ => c.has key then reading fun _ => c.get key
    else return inheritedProperty c key

/-- Sets the property of a value; primitive values ignore it. -/
def putProperty (v : Value) (key : Text) (item : Value) : Run Unit := do
  match v with
  | .undefined | .null =>
    raise "TypeError"
      ("Cannot set properties of " ++ primitiveText v ++ " (setting '" ++ key ++ "')")
  | .object r => putOwn r key item
  | _ => return

/-- Applies an operator to two values. -/
def binaryOperation (op : BinaryOp) (l r : Value) : Run Value := do
  match op with
  | .member =>
    match r with
    | .object ref =>
      let key ← reading fun h => toKey h l
      let c ← cell ref
      return .bool (← reading fun _ => c.has key)
    | _ =>
      raise "TypeError" "Cannot use 'in' operator to search for a key in a primitive"
  | _ => reading fun h => pureOperation h op l r

end Run

end Untangle.Sandbox
