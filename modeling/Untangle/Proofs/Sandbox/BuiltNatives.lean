import Untangle.Proofs.Sandbox.Policy

set_option autoImplicit false

/-!
# What built-in functions do

Properties, operators and built-in functions look at objects, change objects and call functions back;
they take no steps of their own.  Members of objects are set and deleted for code that asks for it;
apart from that, only arrays are changed.
-/

namespace Untangle.Sandbox.Built

variable {P : Policy} {e e' : Meaning} {inner : Option ScopeChain} {α β : Type}

/-! ## Conversions -/

theorem textOf (v : Value) : Built P e e' inner (Run.textOf v) (Run.textOf v) :=
  reading fun _ => (Proper.toText v : Proper [] _)

theorem numberOf (v : Value) : Built P e e' inner (Run.numberOf v) (Run.numberOf v) :=
  reading fun _ => .toNumber (List.mem_singleton_self _) v

theorem integerOf (v : Value) : Built P e e' inner (Run.integerOf v) (Run.integerOf v) :=
  reading fun _ => .toInteger (List.mem_singleton_self _) v

theorem countOf (x : Float) : Built P e e' inner (Run.countOf x) (Run.countOf x) :=
  reading fun _ => .toCount (List.mem_singleton_self _) x

theorem boundLength (n : Nat) : Built P e e' inner (Run.boundLength n) (Run.boundLength n) := by
  unfold Run.boundLength
  split
  · next hn => exact .stop (P.proper _ ⟨_, .length hn⟩)
  · exact .result ()

/-! ## Properties -/

theorem putLength {r : Ref} (hr : P.Open r) (es : Array Value) (v : Value) :
    Built P e e' inner (Run.putLength r es v) (Run.putLength r es v) := by
  refine (numberOf v).bind fun x => ?_
  split
  · exact raise _ _
  · exact (boundLength _).bind fun _ => setElements hr _

theorem putOwn {r : Ref} (hr : P.Open r) (key : Text) (v : Value) :
    Built P e e' inner (Run.putOwn r key v) (Run.putOwn r key v) := by
  refine ofCell r fun c hc => ?_
  split
  · refine (reading fun _ => .arrayIndex (List.mem_singleton_self _) key).bind fun i => ?_
    split
    · exact (boundLength _).bind fun _ => setElements hr _
    · split
      · exact putLength hr _ v
      · exact setCell hr hc
  · exact setCell hr hc

/-- Deleting a property leaves a function as it is. -/
theorem covers_delete {r : Ref} {c d : Cell} {key : Text} (hc : P.Covers r c.body)
    (hd : c.delete key = .ok d) : P.Covers r d.body := by
  unfold Cell.delete at hd
  split at hd
  · obtain ⟨i, -, hd⟩ := except_bind_eq_ok.mp hd
    split at hd
    · cases hd
      exact P.covers_array r _
    · cases hd
      exact hc
  · cases hd
    exact hc

theorem deleteOwn {r : Ref} (hr : P.Open r) (key : Text) :
    Built P e e' inner (Run.deleteOwn r key) (Run.deleteOwn r key) :=
  ofCell r fun c hc => readingThen (fun _ => .delete (List.mem_singleton_self _) c key) fun _ _ hd =>
    setCell hr (covers_delete hc hd)

theorem getProperty (v : Value) (key : Text) :
    Built P e e' inner (Run.getProperty v key) (Run.getProperty v key) := by
  unfold Run.getProperty
  split
  · exact raise _ _
  · exact raise _ _
  · exact reading fun _ => .textProperty (List.mem_singleton_self _) _ key
  · exact .result _
  · exact .result _
  · refine ofCell _ fun c _ => (reading fun _ => .has (List.mem_singleton_self _) c key).bind fun found => ?_
    split
    · exact reading fun _ => .get (List.mem_singleton_self _) c key
    · exact .result _

/-- An exception that is thrown is the end of what was to follow. -/
theorem raiseThen (kind : String) (message : Text) {k k' : β → Run α} :
    Built P e e' inner (Run.raise kind message >>= k) (Run.raise kind message >>= k') := by
  unfold Run.raise
  rw [bind_assoc, bind_assoc]
  exact (newObject _).bind fun _ => .stop (P.proper _ trivial)

/-- Going on with a property, with what is known of it. -/
theorem getPropertyThen (v : Value) (key : Text) {k k' : Value → Run α}
    (hk : ∀ m f, P.Holds m → Run.getProperty v key m = .ok f m → Built P e e' inner (k f) (k' f)) :
    Built P e e' inner (Run.getProperty v key >>= k) (Run.getProperty v key >>= k') := by
  have hconverted : ∀ {x : Machine → Conv Value}, (∀ m, Proper [.key] (x m)) → (∀ m t, x (m.withMeter t) = x m) →
      Run.getProperty v key = (get >>= fun m => Run.reading fun _ => x m) →
      Built P e e' inner (Run.getProperty v key >>= k) (Run.getProperty v key >>= k') := by
    intro x hx hstore heq
    rw [heq, bind_assoc, bind_assoc]
    refine look (fun m t => by rw [hstore]) fun m hm => ?_
    have hvalue : Run.getProperty v key m = Run.reading (fun _ => x m) m := by rw [heq]; rfl
    cases hconv : x m with
    | ok f => exact hk m f hm.holds (by rw [hvalue, hconv]; rfl)
    | error y => exact .stop (P.proper y (hx m y hconv).isProper)
  cases v with
  | undefined => exact raiseThen _ _
  | null => exact raiseThen _ _
  | string t => exact hconverted (fun _ => .textProperty (List.mem_singleton_self _) t key) (fun _ _ => rfl) rfl
  | bool b => exact hconverted (fun _ => .ok (Run.inherited .boolean key)) (fun _ _ => rfl) rfl
  | number x => exact hconverted (fun _ => .ok (Run.inherited .number key)) (fun _ _ => rfl) rfl
  | object r =>
    exact hconverted (fun m => .property (List.mem_singleton_self _) (m.cell r) key) (fun _ _ => rfl)
      (funext (getProperty_object r key))

theorem putProperty (hopen : ∀ r, P.Open r) (v : Value) (key : Text) (item : Value) :
    Built P e e' inner (Run.putProperty v key item) (Run.putProperty v key item) := by
  unfold Run.putProperty
  split
  · exact raise _ _
  · exact raise _ _
  · exact putOwn (hopen _) key item
  · exact .result ()

theorem hasOwn (this : Value) (args : List Value) :
    Built P e e' inner (Run.hasOwn this args) (Run.hasOwn this args) := by
  unfold Run.hasOwn
  split
  · exact (textOf _).bind fun key => ofCell _ fun c _ => (reading fun _ => .has (List.mem_singleton_self _) c key).map _
  · exact .result _

theorem binaryOperation (op : BinaryOp) (l r : Value) :
    Built P e e' inner (Run.binaryOperation op l r) (Run.binaryOperation op l r) := by
  unfold Run.binaryOperation
  split
  · split
    · exact (reading fun _ => (Proper.toText l : Proper [] _)).bind fun key => ofCell _ fun c _ =>
        (reading fun _ => .has (List.mem_singleton_self _) c key).map _
    · exact raise _ _
  · exact reading fun _ => .pureOperation (List.mem_singleton_self _) op l r

/-! ## Methods of strings -/

theorem receiverText (this : Value) :
    Built P e e' inner (Run.receiverText this) (Run.receiverText this) := by
  unfold Run.receiverText
  split
  · exact raise _ _
  · exact textOf this

theorem position (v : Value) (length default : Nat) :
    Built P e e' inner (Run.position v length default) (Run.position v length default) := by
  unfold Run.position
  split
  · exact .result _
  · refine (integerOf v).bind fun x => ?_
    split
    · split
      · exact .result _
      · exact .result _
    · exact .result _

theorem charAtValue (t : Text) (v : Value) :
    Built P e e' inner (Run.charAtValue t v) (Run.charAtValue t v) := by
  refine (integerOf v).bind fun x => ?_
  split
  · exact .result _
  · exact .result _

theorem substringOf (t : Text) (args : List Value) :
    Built P e e' inner (Run.substringOf t args) (Run.substringOf t args) := by
  refine Built.bind ?_ fun _ => Built.bind ?_ fun _ => .result _
  all_goals
    dsimp only
    split
    · exact .result _
    · exact (integerOf _).map _

theorem substrOf (t : Text) (args : List Value) :
    Built P e e' inner (Run.substrOf t args) (Run.substrOf t args) := by
  refine (position _ _ _).bind fun start => ?_
  dsimp only
  split
  · exact .result _
  · refine (integerOf _).bind fun x => ?_
    split
    · exact .result _
    · exact (countOf x).map _

theorem splitText (t : Text) (args : List Value) :
    Built P e e' inner (Run.splitText t args) (Run.splitText t args) := by
  dsimp only [Run.splitText]
  split
  · exact fail _
  -- Whichever way the pieces are found, they are cut off at the limit.
  · split
    · split
      · exact newArray _
      · exact (integerOf _).bind fun x => (countOf x).bind fun _ => newArray _
    · refine (textOf _).bind fun s => (Built.result _).bind fun pieces => ?_
      split
      · exact newArray _
      · exact (integerOf _).bind fun x => (countOf x).bind fun _ => newArray _

theorem replaceText (t : Text) (args : List Value) :
    Built P e e' inner (Run.replaceText e.call t args) (Run.replaceText e'.call t args) := by
  dsimp only [Run.replaceText]
  split
  · exact fail _
  · refine (textOf _).bind fun p => ?_
    split
    · exact .result t
    · refine look (fun _ _ => rfl) fun m _ => ?_
      split
      · exact (Built.call (P.alone _ _ rfl) _).bind fun v => (textOf v).map _
      · refine (textOf _).bind fun s => ?_
        split
        · exact (fail _).bind fun _ => .result _
        · exact .result _

theorem repeatText (this : Value) (args : List Value) :
    Built P e e' inner (Run.repeatText this args) (Run.repeatText this args) := by
  refine (integerOf _).bind fun x => ?_
  split
  · exact raise _ _
  · refine (receiverText this).bind fun t => (boundLength _).bind fun _ => ?_
    dsimp only
    split
    · next hlong => exact .stop (P.proper _ ⟨_, .repetition hlong⟩)
    · exact .result _

theorem stringMethod (m : StringMethod) (this : Value) (args : List Value) :
    Built P e e' inner (Run.stringMethod e.call m this args)
      (Run.stringMethod e'.call m this args) := by
  cases m with
  | charAt => exact (receiverText this).bind fun t => (charAtValue t _).map _
  | charCodeAt => exact (receiverText this).bind fun t => (charAtValue t _).map _
  | indexOf =>
    exact (receiverText this).bind fun t => (integerOf _).bind fun x => (textOf _).map _
  | lastIndexOf => exact (receiverText this).bind fun t => (textOf _).map _
  | includes => exact (textOf _).bind fun s => (receiverText this).map _
  | startsWith => exact (receiverText this).bind fun t => (textOf _).map _
  | endsWith => exact (receiverText this).bind fun t => (textOf _).map _
  | slice =>
    exact (receiverText this).bind fun t => (position _ _ _).bind fun _ => (position _ _ _).map _
  | substring => exact (receiverText this).bind fun t => (substringOf t args).map _
  | substr => exact (receiverText this).bind fun t => (substrOf t args).map _
  | split => exact (receiverText this).bind fun t => splitText t args
  | replace => exact (receiverText this).bind fun t => (replaceText t args).map _
  | concat => exact (receiverText this).bind fun t => (mapList textOf args).map _
  | «repeat» => exact (repeatText this args).map _
  | toUpperCase => exact (receiverText this).map _
  | toLowerCase => exact (receiverText this).map _
  | trim => exact (receiverText this).map _
  | toString => exact (receiverText this).map _
  | valueOf => exact (receiverText this).map _

/-! ## Methods of arrays -/

theorem body_of_elements? {m : Machine} {r : Ref} {es : Array Value}
    (h : m.heap.elements? (.object r) = some es) : (m.cell r).body = .array es := by
  unfold Heap.elements? at h
  simp only at h
  split at h
  · next heq =>
    cases h
    exact heq
  · cases h

/-- A receiver that is an array, and what is done with it. -/
theorem receiverArray (this : Value) {k k' : Ref × Array Value → Run α}
    (hk : ∀ m r es, P.Holds m → this = .object r → (m.cell r).body = .array es →
      Built P e e' inner (k (r, es)) (k' (r, es))) :
    Built P e e' inner (Run.receiverArray this >>= k) (Run.receiverArray this >>= k') := by
  unfold Run.receiverArray
  rw [bind_assoc, bind_assoc]
  refine look (fun _ _ => rfl) fun m hm => ?_
  split
  · next r es hes =>
    rw [pure_bind, pure_bind]
    exact hk m r es hm.holds rfl (body_of_elements? hes)
  · exact fail _

theorem elementText (v : Value) : Built P e e' inner (Run.elementText v) (Run.elementText v) := by
  unfold Run.elementText
  split
  · exact .result _
  · exact textOf v

theorem joinElements (es : Array Value) (args : List Value) :
    Built P e e' inner (Run.joinElements es args) (Run.joinElements es args) := by
  dsimp only [Run.joinElements]
  split
  · exact (mapList elementText _).map _
  · exact (textOf _).bind fun _ => (mapList elementText _).map _

theorem spliceCount (args : List Value) (available : Nat) :
    Built P e e' inner (Run.spliceCount args available) (Run.spliceCount args available) := by
  unfold Run.spliceCount
  split
  · exact (integerOf _).map _
  · exact .result _

theorem spliceArray {r : Ref} (hr : P.Open r) (es : Array Value) (args : List Value) :
    Built P e e' inner (Run.spliceArray r es args) (Run.spliceArray r es args) :=
  (position _ _ _).bind fun _ => (spliceCount args _).bind fun _ =>
    (setElements hr _).bind fun _ => newArray _

theorem callback (args : List Value) :
    Built P e e' inner (Run.callback args) (Run.callback args) := by
  refine look (fun _ _ => rfl) fun m _ => ?_
  split
  · exact .result _
  · exact (textOf _).bind fun _ => raise _ _

theorem reduceElements (f this : Value) (es : Array Value) (args : List Value) :
    Built P e e' inner (Run.reduceElements e.call f this es args)
      (Run.reduceElements e'.call f this es args) := by
  dsimp only [Run.reduceElements]
  split
  · exact foldList (fun _ _ => .call (P.alone _ _ rfl) _) _ _
  · exact foldList (fun _ _ => .call (P.alone _ _ rfl) _) _ _
  · exact raise _ _

theorem mapElements (f this : Value) (es : List (Value × Nat)) :
    Built P e e' inner (Run.mapElements e.call f this es) (Run.mapElements e'.call f this es) :=
  mapList (fun _ => .call (P.alone _ _ rfl) _) es

/-- A method that changes arrays changes the one on which it may be called. -/
theorem arrayMethod {m : ArrayMethod} {q : Ref} (hbuiltin : P.Builtin q (.array m)) {this : Value}
    (hthis : P.CalledOn (.object q) this) (args : List Value) :
    Built P e e' inner (Run.arrayMethod e.call m this args)
      (Run.arrayMethod e'.call m this args) := by
  refine receiverArray this fun mach r es hmach heq hes => ?_
  have hopen : (Native.array m).actsOnReceiver = true → P.Open r := fun hacts =>
    P.elements hmach hbuiltin hacts (heq ▸ hthis) hes
  cases m with
  | join => exact (joinElements es args).map _
  | toString => exact (joinElements es args).map _
  | push => exact (setElements (hopen rfl) _).bind fun _ => .result _
  | pop => exact (setElements (hopen rfl) _).bind fun _ => .result _
  | shift => exact (setElements (hopen rfl) _).bind fun _ => .result _
  | unshift => exact (setElements (hopen rfl) _).bind fun _ => .result _
  | slice => exact (position _ _ _).bind fun _ => (position _ _ _).bind fun _ => newArray _
  | splice => exact spliceArray (hopen rfl) es args
  | reverse => exact (setElements (hopen rfl) _).bind fun _ => .result _
  | indexOf => exact .result _
  | includes => exact .result _
  | concat => exact bind (look (fun _ _ => rfl) fun m _ => .result _) fun _ => newArray _
  | map => exact (callback args).bind fun f => (mapElements f this _).bind fun _ => newArray _
  | filter =>
    exact (callback args).bind fun f =>
      Built.bind ((mapList (fun _ => (Built.call (P.alone _ _ rfl) _).map _) _).map _) fun _ => newArray _
  | forEach => exact (callback args).bind fun f => (mapElements f this _).bind fun _ => .result _
  | reduce => exact (callback args).bind fun f => reduceElements f this es args

/-! ## Global functions, and methods of other values -/

theorem radixTextOf (x : Float) (base : Int) :
    Built P e e' inner (Run.radixTextOf x base) (Run.radixTextOf x base) := by
  unfold Run.radixTextOf
  split
  · exact .result _
  · split
    · exact raise _ _
    · split
      · exact .result _
      · exact .result _

theorem fixedTextOf (this : Value) (args : List Value) :
    Built P e e' inner (Run.fixedTextOf this args) (Run.fixedTextOf this args) := by
  refine (integerOf _).bind fun x => (countOf x).bind fun places => ?_
  split
  · exact raise _ _
  · refine (numberOf this).bind fun y => ?_
    split
    · exact .result _
    · exact .result _

theorem numberMethod (m : NumberMethod) (this : Value) (args : List Value) :
    Built P e e' inner (Run.numberMethod m this args) (Run.numberMethod m this args) := by
  cases m with
  | toString =>
    refine (numberOf this).bind fun x => ?_
    dsimp only
    split
    · exact (Built.result 10).bind fun _ => (radixTextOf x _).map _
    · exact (integerOf _).bind fun y => (countOf y).bind fun _ => (radixTextOf x _).map _
  | toFixed => exact (fixedTextOf this args).map _
  | valueOf => exact (numberOf this).map _

theorem booleanMethod (m : BooleanMethod) (this : Value) :
    Built P e e' inner (Run.booleanMethod m this) (Run.booleanMethod m this) := by
  cases m with
  | toString => exact (textOf this).map _
  | valueOf => exact .result this

theorem argumentList (v : Value) :
    Built P e e' inner (Run.argumentList v) (Run.argumentList v) := by
  unfold Run.argumentList
  split
  · exact .result _
  · refine look (fun _ _ => rfl) fun m _ => ?_
    split
    · exact .result _
    · exact raise _ _

theorem functionMethod {m : FunctionMethod} {q : Ref} (hbuiltin : P.Builtin q (.function m)) {this : Value}
    (hthis : P.CalledOn (.object q) this) (args : List Value) :
    Built P e e' inner (Run.functionMethod e.call m this args)
      (Run.functionMethod e'.call m this args) := by
  have hpasses : ∀ x, P.CalledOn this x := P.passes hbuiltin rfl hthis
  cases m with
  | call => exact .call (hpasses _) _
  | apply => exact (argumentList _).bind fun _ => .call (hpasses _) _

theorem mathFunction (f : MathFunction) (args : List Value) :
    Built P e e' inner (Run.mathFunction f args) (Run.mathFunction f args) := by
  unfold Run.mathFunction
  split
  · exact (mapList numberOf args).map _
  · exact (mapList numberOf args).map _
  · exact (numberOf _).bind fun _ => (numberOf _).map _
  · exact (numberOf _).map _

theorem parseWhole (args : List Value) :
    Built P e e' inner (Run.parseWhole args) (Run.parseWhole args) := by
  refine (textOf _).bind fun t => (reading fun _ => .toInt32 (List.mem_singleton_self _) _).bind fun base => ?_
  split
  · exact .result _
  · next ht => exact .stop (P.proper _ ⟨_, .whole ht⟩)

theorem globalFunction (f : GlobalFunction) (args : List Value) :
    Built P e e' inner (Run.globalFunction f args) (Run.globalFunction f args) := by
  cases f with
  | string =>
    cases args with
    | nil => exact .result _
    | cons v _ => exact (textOf v).map _
  | fromCharCode => exact (mapList (fun v => (reading fun _ => .toUint32 (List.mem_singleton_self _) v).map _) args).map _
  | number =>
    cases args with
    | nil => exact .result _
    | cons v _ => exact (numberOf v).map _
  | boolean => exact .result _
  | parseInt => exact parseWhole args
  | parseFloat => exact (textOf _).map _
  | isNaN => exact (numberOf _).map _
  | isFinite => exact (numberOf _).map _
  | escape => exact (textOf _).map _
  | unescape => exact (textOf _).map _
  | encodeURIComponent =>
    refine (textOf _).bind fun t => ?_
    cases ht : Percent.encode? t with
    | some encoded => exact .result _
    | none => exact .stop (P.proper _ ⟨.encoding, .encoding ht⟩)
  | decodeURIComponent =>
    refine (textOf _).bind fun t => ?_
    split
    · exact .result _
    · exact raise _ _
  | atob =>
    refine (textOf _).bind fun t => ?_
    split
    · exact .result _
    · exact raise _ _
  | btoa =>
    refine (textOf _).bind fun t => ?_
    split
    · exact .result _
    · exact raise _ _

/-- Built-in functions do nothing to objects but to change the arrays on which they are called, apart from
what they call. -/
theorem applyNative {fn : Native} {q : Ref} (hbuiltin : P.Builtin q fn) {this : Value}
    (hthis : P.CalledOn (.object q) this) (args : List Value) :
    Built P e e' inner (Run.applyNative e.call fn this args)
      (Run.applyNative e'.call fn this args) := by
  cases fn with
  | string m => exact stringMethod m this args
  | number m => exact numberMethod m this args
  | boolean m => exact booleanMethod m this
  | array m => exact arrayMethod hbuiltin hthis args
  | function m => exact functionMethod hbuiltin hthis args
  | hasOwnProperty => exact hasOwn this args
  | math f => exact mathFunction f args
  | «global» f => exact globalFunction f args

end Untangle.Sandbox.Built
