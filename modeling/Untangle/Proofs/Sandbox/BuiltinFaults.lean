import Untangle.Proofs.Sandbox.Conversions
import Untangle.Proofs.Sandbox.Literal

set_option autoImplicit false

/-!
# Which faults a built-in function may end with

For everything in the sandbox that makes conversions these are listed: `Converter.conversions`.  A built-in
function ends with a fault of one of its conversions, or with one of a function that it calls back
(`applyNative_faults`); literals, operators and the access to properties end with those of theirs
(`operation_faults`).

The lists are those of the conversions that are made; that a listed one does fail on some arguments is not
stated here.
-/

namespace Untangle.Sandbox

/-! ## Conversions of operations -/

/-- The conversions that a method of strings makes. -/
def StringMethod.conversions : StringMethod → List Conversion
  | .charAt | .charCodeAt | .indexOf | .slice | .substring => [.number]
  | .substr | .split => [.number, .count]
  | .repeat => [.number, .length, .repetition]
  | .lastIndexOf | .includes | .startsWith | .endsWith | .replace | .concat | .toUpperCase | .toLowerCase
  | .trim | .toString | .valueOf => []

/-- The conversions that a method of numbers makes. -/
def NumberMethod.conversions : NumberMethod → List Conversion
  | .toString | .toFixed => [.number, .count]
  | .valueOf => [.number]

/-- The conversions that a method of arrays makes. -/
def ArrayMethod.conversions : ArrayMethod → List Conversion
  | .slice | .splice => [.number]
  | .join | .push | .pop | .shift | .unshift | .reverse | .indexOf | .includes | .concat | .map | .filter
  | .forEach | .reduce | .toString => []

/-- The conversions that a global function makes. -/
def GlobalFunction.conversions : GlobalFunction → List Conversion
  | .fromCharCode | .number | .isNaN | .isFinite => [.number]
  | .parseInt => [.number, .whole]
  | .encodeURIComponent => [.encoding]
  | .string | .boolean | .parseFloat | .escape | .unescape | .decodeURIComponent | .atob | .btoa => []

/-- The conversions that a built-in function makes itself. -/
def Native.conversions : Native → List Conversion
  | .string m => m.conversions
  | .number m => m.conversions
  | .boolean _ | .function _ => []
  | .array m => m.conversions
  | .hasOwnProperty => [.key]
  | .math _ => [.number]
  | .global f => f.conversions

/-- What code does that makes conversions. -/
inductive Converter where
  /-- The value of a literal. -/
  | literal
  /-- An operator on values. -/
  | operator
  /-- The value of a property, also of one that is deleted. -/
  | access
  /-- A property that is set. -/
  | change
  | builtin (fn : Native)

/-- The conversions that an operation makes. -/
def Converter.conversions : Converter → List Conversion
  | .literal => [.literal]
  | .operator => [.number, .key]
  | .access => [.key]
  | .change => [.number, .key, .length]
  | .builtin fn => fn.conversions

/-- A computation ends with faults of some conversions only, apart from those of what it calls back. -/
def Faulty (cs : List Conversion) (S : Fault → Prop) {α : Type} (c : Run α) : Prop :=
  ∀ m f m', c m = .error (.fault f) m' → S f ∨ ∃ k ∈ cs, k.Ends f

namespace Faulty

open Run

variable {cs : List Conversion} {S : Fault → Prop} {α β : Type}

theorem result (a : α) : Faulty cs S (pure a : Run α) := fun _ _ _ h => by cases h

theorem bind {c : Run α} {k : α → Run β} (hc : Faulty cs S c) (hk : ∀ a, Faulty cs S (k a)) :
    Faulty cs S (c >>= k) := by
  intro m f m' h
  cases hrun : c m with
  | ok a m₁ =>
    rw [bind_of_ok hrun] at h
    exact hk a m₁ f m' h
  | error x m₁ =>
    rw [bind_of_error hrun] at h
    cases h
    exact hc m f m' hrun

theorem map {c : Run α} (hc : Faulty cs S c) (f : α → β) : Faulty cs S (do return f (← c)) :=
  hc.bind fun a => .result (f a)

theorem look {k : Machine → Run α} (hk : ∀ m, Faulty cs S (k m)) : Faulty cs S (get >>= k) :=
  fun m f m' h => hk m m f m' h

/-- A computation that ends changes nothing about faults. -/
theorem change (g : Machine → Machine) : Faulty cs S (modify g : Run PUnit) := fun _ _ _ h => by cases h

theorem fault {f : Fault} (hf : ∃ k ∈ cs, k.Ends f) : Faulty cs S (throw (.fault f) : Run α) := by
  intro m g m' h
  cases h
  exact .inr hf

theorem fail (f : Failure) : Faulty cs S (Run.fail f : Run α) := fun _ _ _ h => by cases h

theorem reading {f : Heap → Except Abrupt α} (hf : ∀ h, Proper cs (f h)) : Faulty cs S (Run.reading f) := by
  intro m g m' h
  rw [reading_eq] at h
  cases hx : f m.heap with
  | ok a =>
    rw [hx] at h
    cases h
  | error x =>
    rw [hx] at h
    cases h
    exact .inr (hf m.heap _ hx)

theorem mapList {f : α → Run β} (hf : ∀ x, Faulty cs S (f x)) (xs : List α) : Faulty cs S (xs.mapM f) := by
  induction xs with
  | nil => exact .result []
  | cons x xs ih =>
    rw [List.mapM_cons]
    exact (hf x).bind fun y => ih.bind fun ys => .result (y :: ys)

theorem foldList {f : α → β → Run α} (hf : ∀ a x, Faulty cs S (f a x)) (xs : List β) (a : α) :
    Faulty cs S (xs.foldlM f a) := by
  induction xs generalizing a with
  | nil => exact .result a
  | cons x xs ih => exact (hf a x).bind ih

theorem raise (kind : String) (message : Text) : Faulty cs S (Run.raise kind message : Run α) :=
  fun _ _ _ h => by cases h

theorem newArray (elements : Array Value) : Faulty cs S (Run.newArray elements) := fun _ _ _ h => by cases h

theorem setElements (r : Ref) (elements : Array Value) : Faulty cs S (Run.setElements r elements) :=
  fun _ _ _ h => by cases h

theorem cell (r : Ref) {k : Cell → Run α} (hk : ∀ c, Faulty cs S (k c)) : Faulty cs S (Run.cell r >>= k) :=
  .look fun m => hk (m.cell r)

/-! ## Conversions -/

theorem textOf (v : Value) : Faulty cs S (textOf v) := .reading fun _ => .toText v

theorem numberOf (hc : .number ∈ cs) (v : Value) : Faulty cs S (numberOf v) := .reading fun _ => .toNumber hc v

theorem integerOf (hc : .number ∈ cs) (v : Value) : Faulty cs S (integerOf v) := .reading fun _ => .toInteger hc v

theorem countOf (hc : .count ∈ cs) (x : Float) : Faulty cs S (countOf x) := .reading fun _ => .toCount hc x

theorem boundLength (hc : .length ∈ cs) (n : Nat) : Faulty cs S (boundLength n) := by
  unfold Run.boundLength
  split
  · next hn => exact .fault ⟨.length, hc, .length hn⟩
  · exact .result ()

/-! ## Properties and operators -/

theorem getProperty (hc : .key ∈ cs) (v : Value) (key : Text) : Faulty cs S (getProperty v key) := by
  unfold Run.getProperty
  split
  · exact .raise _ _
  · exact .raise _ _
  · exact .reading fun _ => .textProperty hc _ key
  · exact .result _
  · exact .result _
  · refine .cell _ fun c => (reading fun _ => .has hc c key).bind fun found => ?_
    split
    · exact .reading fun _ => .get hc c key
    · exact .result _

theorem deleteOwn (hc : .key ∈ cs) (r : Ref) (key : Text) : Faulty cs S (deleteOwn r key) :=
  .cell r fun c => (reading fun _ => .delete hc c key).bind fun _ _ _ _ h => by cases h

theorem putLength (hnumber : .number ∈ cs) (hlength : .length ∈ cs) (r : Ref) (es : Array Value) (v : Value) :
    Faulty cs S (putLength r es v) := by
  refine (numberOf hnumber v).bind fun x => ?_
  split
  · exact .raise _ _
  · exact (boundLength hlength _).bind fun _ => .setElements r _

theorem putOwn (hnumber : .number ∈ cs) (hkey : .key ∈ cs) (hlength : .length ∈ cs) (r : Ref) (key : Text)
    (v : Value) : Faulty cs S (putOwn r key v) := by
  have hset : ∀ c, Faulty cs S (Run.setCell r c) := fun c _ _ _ h => by cases h
  refine .cell r fun c => ?_
  split
  · refine (reading fun _ => .arrayIndex hkey key).bind fun i => ?_
    split
    · exact (boundLength hlength _).bind fun _ => .setElements r _
    · split
      · exact putLength hnumber hlength r _ v
      · exact hset _
  · exact hset _

theorem putProperty (hnumber : .number ∈ cs) (hkey : .key ∈ cs) (hlength : .length ∈ cs) (v : Value) (key : Text)
    (item : Value) : Faulty cs S (putProperty v key item) := by
  unfold Run.putProperty
  split
  · exact .raise _ _
  · exact .raise _ _
  · exact putOwn hnumber hkey hlength _ key item
  · exact .result ()

theorem binaryOperation (hnumber : .number ∈ cs) (hkey : .key ∈ cs) (op : BinaryOp) (l r : Value) :
    Faulty cs S (binaryOperation op l r) := by
  unfold Run.binaryOperation
  split
  · split
    · exact (reading fun _ => .toText l).bind fun key => .cell _ fun c =>
        (reading fun _ => .has hkey c key).map _
    · exact .raise _ _
  · exact .reading fun _ => .pureOperation hnumber op l r

/-! ## Methods of strings -/

theorem receiverText (this : Value) : Faulty cs S (receiverText this) := by
  unfold Run.receiverText
  split
  · exact .raise _ _
  · exact textOf this

theorem position (hc : .number ∈ cs) (v : Value) (length default : Nat) :
    Faulty cs S (position v length default) := by
  unfold Run.position
  split
  · exact .result _
  · refine (integerOf hc v).bind fun x => ?_
    split
    · split
      · exact .result _
      · exact .result _
    · exact .result _

theorem charAtValue (hc : .number ∈ cs) (t : Text) (v : Value) : Faulty cs S (charAtValue t v) := by
  refine (integerOf hc v).bind fun x => ?_
  split
  · exact .result _
  · exact .result _

theorem substringOf (hc : .number ∈ cs) (t : Text) (args : List Value) : Faulty cs S (substringOf t args) := by
  refine Faulty.bind ?_ fun _ => Faulty.bind ?_ fun _ => .result _
  all_goals
    dsimp only
    split
    · exact .result _
    · exact (integerOf hc _).map _

theorem substrOf (hnumber : .number ∈ cs) (hcount : .count ∈ cs) (t : Text) (args : List Value) :
    Faulty cs S (substrOf t args) := by
  refine (position hnumber _ _ _).bind fun start => ?_
  dsimp only
  split
  · exact .result _
  · refine (integerOf hnumber _).bind fun x => ?_
    split
    · exact .result _
    · exact (countOf hcount x).map _

theorem splitText (hnumber : .number ∈ cs) (hcount : .count ∈ cs) (t : Text) (args : List Value) :
    Faulty cs S (splitText t args) := by
  dsimp only [Run.splitText]
  split
  · exact .fail _
  · split
    · split
      · exact .newArray _
      · exact (integerOf hnumber _).bind fun x => (countOf hcount x).bind fun _ => .newArray _
    · refine (textOf _).bind fun s => (Faulty.result _).bind fun pieces => ?_
      split
      · exact .newArray _
      · exact (integerOf hnumber _).bind fun x => (countOf hcount x).bind fun _ => .newArray _

theorem repeatText (hnumber : .number ∈ cs) (hlength : .length ∈ cs) (hrepetition : .repetition ∈ cs)
    (this : Value) (args : List Value) : Faulty cs S (repeatText this args) := by
  refine (integerOf hnumber _).bind fun x => ?_
  split
  · exact .raise _ _
  · refine (receiverText this).bind fun t => (boundLength hlength _).bind fun _ => ?_
    dsimp only
    split
    · next hlong => exact .fault ⟨.repetition, hrepetition, .repetition hlong⟩
    · exact .result _

section

variable {call : Caller} (hcall : ∀ f this args, Faulty cs S (call f this args))

include hcall in
theorem replaceText (t : Text) (args : List Value) : Faulty cs S (replaceText call t args) := by
  dsimp only [Run.replaceText]
  split
  · exact .fail _
  · refine (textOf _).bind fun p => ?_
    split
    · exact .result t
    · refine .look fun m => ?_
      split
      · exact (hcall _ _ _).bind fun v => (textOf v).map _
      · refine (textOf _).bind fun s => ?_
        split
        · exact (Faulty.fail _).bind fun _ => .result _
        · exact .result _

include hcall in
theorem stringMethod (m : StringMethod) (hcs : m.conversions ⊆ cs) (this : Value) (args : List Value) :
    Faulty cs S (stringMethod call m this args) := by
  have receiver := @receiverText cs S this
  cases m with
  | charAt => exact receiver.bind fun t => (charAtValue (hcs (by decide)) t _).map _
  | charCodeAt => exact receiver.bind fun t => (charAtValue (hcs (by decide)) t _).map _
  | indexOf => exact receiver.bind fun t => (integerOf (hcs (by decide)) _).bind fun x => (textOf _).map _
  | lastIndexOf => exact receiver.bind fun t => (textOf _).map _
  | includes => exact (textOf _).bind fun s => receiver.map _
  | startsWith => exact receiver.bind fun t => (textOf _).map _
  | endsWith => exact receiver.bind fun t => (textOf _).map _
  | slice =>
    exact receiver.bind fun t => (position (hcs (by decide)) _ _ _).bind fun _ =>
      (position (hcs (by decide)) _ _ _).map _
  | substring => exact receiver.bind fun t => (substringOf (hcs (by decide)) t args).map _
  | substr => exact receiver.bind fun t => (substrOf (hcs (by decide)) (hcs (by decide)) t args).map _
  | split => exact receiver.bind fun t => splitText (hcs (by decide)) (hcs (by decide)) t args
  | replace => exact receiver.bind fun t => (replaceText hcall t args).map _
  | concat => exact receiver.bind fun t => (mapList textOf args).map _
  | «repeat» =>
    exact (repeatText (hcs (by decide)) (hcs (by decide)) (hcs (by decide)) this args).map _
  | toUpperCase => exact receiver.map _
  | toLowerCase => exact receiver.map _
  | trim => exact receiver.map _
  | toString => exact receiver.map _
  | valueOf => exact receiver.map _

/-! ## Methods of arrays -/

theorem receiverArray (this : Value) {k : Ref × Array Value → Run α} (hk : ∀ r es, Faulty cs S (k (r, es))) :
    Faulty cs S (receiverArray this >>= k) := by
  unfold Run.receiverArray
  rw [bind_assoc]
  refine .look fun m => ?_
  split
  · rw [pure_bind]
    exact hk _ _
  · exact fun _ _ _ h => by cases h

theorem elementText (v : Value) : Faulty cs S (elementText v) := by
  unfold Run.elementText
  split
  · exact .result _
  · exact textOf v

theorem joinElements (es : Array Value) (args : List Value) : Faulty cs S (joinElements es args) := by
  dsimp only [Run.joinElements]
  split
  · exact (mapList elementText _).map _
  · exact (textOf _).bind fun _ => (mapList elementText _).map _

theorem spliceCount (hc : .number ∈ cs) (args : List Value) (available : Nat) :
    Faulty cs S (spliceCount args available) := by
  unfold Run.spliceCount
  split
  · exact (integerOf hc _).map _
  · exact .result _

theorem spliceArray (hc : .number ∈ cs) (r : Ref) (es : Array Value) (args : List Value) :
    Faulty cs S (spliceArray r es args) :=
  (position hc _ _ _).bind fun _ => (spliceCount hc args _).bind fun _ =>
    (setElements r _).bind fun _ => .newArray _

theorem callback (args : List Value) : Faulty cs S (callback args) := by
  refine .look fun m => ?_
  split
  · exact .result _
  · exact (textOf _).bind fun _ => .raise _ _

include hcall in
theorem mapElements (f this : Value) (es : List (Value × Nat)) : Faulty cs S (mapElements call f this es) :=
  mapList (fun _ => hcall _ _ _) es

include hcall in
theorem reduceElements (f this : Value) (es : Array Value) (args : List Value) :
    Faulty cs S (reduceElements call f this es args) := by
  dsimp only [Run.reduceElements]
  split
  · exact foldList (fun _ _ => hcall _ _ _) _ _
  · exact foldList (fun _ _ => hcall _ _ _) _ _
  · exact .raise _ _

include hcall in
theorem arrayMethod (m : ArrayMethod) (hcs : m.conversions ⊆ cs) (this : Value) (args : List Value) :
    Faulty cs S (arrayMethod call m this args) := by
  refine receiverArray this fun r es => ?_
  have filtered : ∀ f : Value, Faulty cs S (filterElements call f this (placed es)) := fun f =>
    (mapList (fun _ => (hcall _ _ _).map _) _).map _
  cases m with
  | join => exact (joinElements es args).map _
  | toString => exact (joinElements es args).map _
  | push => exact (setElements r _).bind fun _ => .result _
  | pop => exact (setElements r _).bind fun _ => .result _
  | shift => exact (setElements r _).bind fun _ => .result _
  | unshift => exact (setElements r _).bind fun _ => .result _
  | slice =>
    exact (position (hcs (by decide)) _ _ _).bind fun _ => (position (hcs (by decide)) _ _ _).bind fun _ =>
      .newArray _
  | splice => exact spliceArray (hcs (by decide)) r es args
  | reverse => exact (setElements r _).bind fun _ => .result _
  | indexOf => exact .result _
  | includes => exact .result _
  | concat => exact (look fun m => .result _).bind fun _ => .newArray _
  | map => exact (callback args).bind fun f => (mapElements hcall f this _).bind fun _ => .newArray _
  | filter => exact (callback args).bind fun f => (filtered f).bind fun _ => .newArray _
  | forEach => exact (callback args).bind fun f => (mapElements hcall f this _).bind fun _ => .result _
  | reduce => exact (callback args).bind fun f => reduceElements hcall f this es args

/-! ## Global functions, and methods of other values -/

theorem radixTextOf (x : Float) (base : Int) : Faulty cs S (radixTextOf x base) := by
  unfold Run.radixTextOf
  split
  · exact .result _
  · split
    · exact .raise _ _
    · split
      · exact .result _
      · exact .result _

theorem fixedTextOf (hnumber : .number ∈ cs) (hcount : .count ∈ cs) (this : Value) (args : List Value) :
    Faulty cs S (fixedTextOf this args) := by
  refine (integerOf hnumber _).bind fun x => (countOf hcount x).bind fun places => ?_
  split
  · exact .raise _ _
  · refine (numberOf hnumber this).bind fun y => ?_
    split
    · exact .result _
    · exact .result _

theorem numberMethod (m : NumberMethod) (hcs : m.conversions ⊆ cs) (this : Value) (args : List Value) :
    Faulty cs S (numberMethod m this args) := by
  cases m with
  | toString =>
    refine (numberOf (hcs (by decide)) this).bind fun x => ?_
    dsimp only
    split
    · exact (Faulty.result 10).bind fun _ => (radixTextOf x _).map _
    · exact (integerOf (hcs (by decide)) _).bind fun y => (countOf (hcs (by decide)) y).bind fun _ =>
        (radixTextOf x _).map _
  | toFixed => exact (fixedTextOf (hcs (by decide)) (hcs (by decide)) this args).map _
  | valueOf => exact (numberOf (hcs (by decide)) this).map _

theorem booleanMethod (m : BooleanMethod) (this : Value) : Faulty cs S (booleanMethod m this) := by
  cases m with
  | toString => exact (textOf this).map _
  | valueOf => exact .result this

theorem argumentList (v : Value) : Faulty cs S (argumentList v) := by
  unfold Run.argumentList
  split
  · exact .result _
  · refine .look fun m => ?_
    split
    · exact .result _
    · exact .raise _ _

include hcall in
theorem functionMethod (m : FunctionMethod) (this : Value) (args : List Value) :
    Faulty cs S (functionMethod call m this args) := by
  cases m with
  | call => exact hcall _ _ _
  | apply => exact (argumentList _).bind fun _ => hcall _ _ _

theorem hasOwn (hc : .key ∈ cs) (this : Value) (args : List Value) : Faulty cs S (hasOwn this args) := by
  unfold Run.hasOwn
  split
  · exact (textOf _).bind fun key => .cell _ fun c => (reading fun _ => .has hc c key).map _
  · exact .result _

theorem mathFunction (hc : .number ∈ cs) (f : MathFunction) (args : List Value) :
    Faulty cs S (mathFunction f args) := by
  unfold Run.mathFunction
  split
  · exact (mapList (numberOf hc) args).map _
  · exact (mapList (numberOf hc) args).map _
  · exact (numberOf hc _).bind fun _ => (numberOf hc _).map _
  · exact (numberOf hc _).map _

theorem parseWhole (hnumber : .number ∈ cs) (hwhole : .whole ∈ cs) (args : List Value) :
    Faulty cs S (parseWhole args) := by
  refine (textOf _).bind fun t => (reading fun _ => .toInt32 hnumber _).bind fun base => ?_
  split
  · exact .result _
  · next ht => exact .fault ⟨.whole, hwhole, .whole ht⟩

/-- What is decoded, or an error that the code can catch. -/
theorem decoded (decode : Text → Option Text) (v : Value) (kind : String) (message : Text) :
    Faulty cs S (do
      match decode (← Run.textOf v) with
      | some t => return Value.string t
      | none => Run.raise kind message) := by
  refine (textOf v).bind fun t => ?_
  split
  · exact .result _
  · exact .raise _ _

theorem globalFunction (f : GlobalFunction) (hcs : f.conversions ⊆ cs) (args : List Value) :
    Faulty cs S (globalFunction f args) := by
  cases f with
  | string =>
    cases args with
    | nil => exact .result _
    | cons v _ => exact (textOf v).map _
  | fromCharCode =>
    exact (mapList (fun v => (reading fun _ => .toUint32 (hcs (by decide)) v).map _) args).map _
  | number =>
    cases args with
    | nil => exact .result _
    | cons v _ => exact (numberOf (hcs (by decide)) v).map _
  | boolean => exact .result _
  | parseInt => exact parseWhole (hcs (by decide)) (hcs (by decide)) args
  | parseFloat => exact (textOf _).map _
  | isNaN => exact (numberOf (hcs (by decide)) _).map _
  | isFinite => exact (numberOf (hcs (by decide)) _).map _
  | escape => exact (textOf _).map _
  | unescape => exact (textOf _).map _
  | encodeURIComponent =>
    refine (textOf _).bind fun t => ?_
    cases ht : Percent.encode? t with
    | some encoded => exact .result _
    | none => exact .fault ⟨.encoding, hcs (by decide), .encoding ht⟩
  | decodeURIComponent => exact decoded _ _ _ _
  | atob => exact decoded _ _ _ _
  | btoa => exact decoded _ _ _ _

include hcall in
theorem applyNative (fn : Native) (hcs : fn.conversions ⊆ cs) (this : Value) (args : List Value) :
    Faulty cs S (applyNative call fn this args) := by
  cases fn with
  | string m => exact stringMethod hcall m hcs this args
  | number m => exact numberMethod m hcs this args
  | boolean m => exact booleanMethod m this
  | array m => exact arrayMethod hcall m hcs this args
  | function m => exact functionMethod hcall m this args
  | hasOwnProperty => exact hasOwn (hcs (by decide)) this args
  | math f => exact mathFunction (hcs List.mem_cons_self) f args
  | «global» f => exact globalFunction f hcs args

end

theorem literalValue (hc : .literal ∈ cs) (l : Literal) : Faulty cs S (literalValue l) := by
  unfold Run.literalValue
  split
  · exact .result _
  · exact .result _
  · exact .result _
  · exact .result _
  · split
    · exact .result _
    · next hn => exact .fault ⟨.literal, hc, .literal hn⟩
  · exact .fail _

end Faulty

/-- **Faults of operations.**  A literal, an operator, and a property that is read, deleted or set end with
a fault of one of the conversions that are listed for them. -/
theorem operation_faults {m m' : Machine} {f : Fault} :
    (∀ l, Run.literalValue l m = .error (.fault f) m' → ∃ c ∈ Converter.literal.conversions, c.Ends f) ∧
    (∀ op l r, Run.binaryOperation op l r m = .error (.fault f) m' →
      ∃ c ∈ Converter.operator.conversions, c.Ends f) ∧
    (∀ v key, Run.getProperty v key m = .error (.fault f) m' → ∃ c ∈ Converter.access.conversions, c.Ends f) ∧
    (∀ r key, Run.deleteOwn r key m = .error (.fault f) m' → ∃ c ∈ Converter.access.conversions, c.Ends f) ∧
    ∀ v key item, Run.putProperty v key item m = .error (.fault f) m' →
      ∃ c ∈ Converter.change.conversions, c.Ends f := by
  have hends : ∀ {cs : List Conversion} {α : Type} {c : Run α}, Faulty cs (fun _ => False) c →
      c m = .error (.fault f) m' → ∃ k ∈ cs, k.Ends f :=
    fun hc hrun => (hc m f m' hrun).resolve_left id
  exact ⟨fun l => hends (.literalValue (by decide) l),
    fun op l r => hends (.binaryOperation (by decide) (by decide) op l r),
    fun v key => hends (.getProperty (by decide) v key),
    fun r key => hends (.deleteOwn (by decide) r key),
    fun v key item => hends (.putProperty (by decide) (by decide) (by decide) v key item)⟩

/-- **Faults of built-in functions.**  A built-in function ends with a fault of one of the conversions that
are listed for it, or with a fault of a function that it calls back. -/
theorem applyNative_faults {call : Run.Caller} {fn : Native} {this : Value} {args : List Value}
    {m m' : Machine} {f : Fault} (h : Run.applyNative call fn this args m = .error (.fault f) m') :
    (∃ g self given m₁ m₂, call g self given m₁ = .error (.fault f) m₂) ∨ ∃ c ∈ fn.conversions, c.Ends f := by
  have hcall : ∀ g self given, Faulty fn.conversions
      (fun f => ∃ g self given m₁ m₂, call g self given m₁ = .error (.fault f) m₂) (call g self given) :=
    fun g self given m₁ f m₂ hrun => .inl ⟨g, self, given, m₁, m₂, hrun⟩
  exact Faulty.applyNative hcall fn (List.Subset.refl _) this args m f m' h

end Untangle.Sandbox
