import Untangle.Sandbox.Builtin.String

set_option autoImplicit false

/-!
# Methods of arrays

Methods that change an array change it in place.  Methods that call back work on the elements that the
array had when they were called.
-/

namespace Untangle.Sandbox.Run

/-- The place and the elements of a receiver that has to be an array. -/
def receiverArray (this : Value) : Run (Ref × Array Value) := do
  match this, (← get).heap.elements? this with
  | .object r, some es => return (r, es)
  | _, _ => fail .arrayReceiver

/-- The text of an element; missing elements have an empty one. -/
def elementText (v : Value) : Run Text := if v.isNullish then pure [] else textOf v

/-- The texts of the elements with a separator between them. -/
def joinElements (es : Array Value) (args : List Value) : Run Text := do
  let v := arg args 0
  let separator ← if v.isUndefined then pure (Text.of ",") else textOf v
  return Text.join separator (← es.toList.mapM elementText)

/-- How many elements a splice removes. -/
def spliceCount (args : List Value) (available : Nat) : Run Nat := do
  match args with
  | _ :: v :: _ => return clamp (← integerOf v) available
  | _ => return available

/-- Removes elements from an array and puts others in their place. -/
def spliceArray (r : Ref) (es : Array Value) (args : List Value) : Run Value := do
  let start ← position (arg args 0) es.size 0
  let count ← spliceCount args (es.size - start)
  let front := es.extract 0 start
  let removed := es.extract start (start + count)
  let back := es.extract (start + count) es.size
  setElements r (front ++ (args.drop 2).toArray ++ back)
  newArray removed

/-- The first place of a value in an array. -/
def elementPlace (es : Array Value) (v : Value) : Option Nat := es.findIdx? fun e => strictEquals e v

/-- The elements of the receiver and of all arguments, arrays opened up. -/
def concatElements (es : Array Value) (args : List Value) : Run (Array Value) := do
  let h := (← get).heap
  return args.foldl (fun acc a =>
    match h.elements? a with
    | some more => acc ++ more
    | none => acc.push a) es

/-- The first argument, which has to be callable. -/
def callback (args : List Value) : Run Value := do
  let f := arg args 0
  if (← get).heap.isCallable f then return f
  else raise "TypeError" ((← textOf f) ++ " is not a function")

/-- The elements with their places. -/
def placed (es : Array Value) : List (Value × Nat) := es.toList.zipIdx

/-- The results of a call per element. -/
def mapElements (call : Caller) (f this : Value) (es : List (Value × Nat)) : Run (List Value) :=
  es.mapM fun (e, i) => call f .undefined [e, ofCount i, this]

/-- The elements for which a call gives a true value. -/
def filterElements (call : Caller) (f this : Value) (es : List (Value × Nat)) :
    Run (List Value) := do
  let kept ← es.mapM fun (e, i) => do
    return (e, toBoolean (← call f .undefined [e, ofCount i, this]))
  return (kept.filter (·.2)).map (·.1)

/-- Folds the elements of an array by calls. -/
def reduceElements (call : Caller) (f this : Value) (es : Array Value) (args : List Value) :
    Run Value := do
  let step (acc : Value) (e : Value × Nat) : Run Value :=
    call f .undefined [acc, e.1, ofCount e.2, this]
  match args, placed es with
  | _ :: start :: _, items => items.foldlM step start
  | _, first :: items => items.foldlM step first.1
  | _, [] => raise "TypeError" "Reduce of empty array with no initial value"

/-- Applies a method of arrays. -/
def arrayMethod (call : Caller) (m : ArrayMethod) (this : Value) (args : List Value) :
    Run Value := do
  let (r, es) ← receiverArray this
  match m with
  | .join | .toString => return .string (← joinElements es args)
  | .push =>
    setElements r (es ++ args.toArray)
    return ofCount (es.size + args.length)
  | .pop =>
    setElements r es.pop
    return es.back?.getD .undefined
  | .shift =>
    setElements r (es.extract 1 es.size)
    return es.getD 0 .undefined
  | .unshift =>
    setElements r (args.toArray ++ es)
    return ofCount (es.size + args.length)
  | .slice =>
    let start ← position (arg args 0) es.size 0
    let stop ← position (arg args 1) es.size es.size
    newArray (es.extract start stop)
  | .splice => spliceArray r es args
  | .reverse =>
    setElements r es.reverse
    return this
  | .indexOf => return placeNumber (elementPlace es (arg args 0))
  | .includes => return .bool (elementPlace es (arg args 0)).isSome
  | .concat => newArray (← concatElements es args)
  | .map =>
    let f ← callback args
    newArray (← mapElements call f this (placed es)).toArray
  | .filter =>
    let f ← callback args
    newArray (← filterElements call f this (placed es)).toArray
  | .forEach =>
    let f ← callback args
    let _ ← mapElements call f this (placed es)
    return .undefined
  | .reduce =>
    let f ← callback args
    reduceElements call f this es args

end Untangle.Sandbox.Run
