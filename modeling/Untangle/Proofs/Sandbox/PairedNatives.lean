import Untangle.Proofs.Sandbox.Pairing

set_option autoImplicit false

/-!
# Built-in functions on paired machines

The built-in functions touch objects and call functions back, but no scopes.  They follow each other on
paired machines as soon as the functions that they call back do.
-/

namespace Untangle.Sandbox.Pairing

variable {α β γ : Type} {σ : Pairing} {ls : Links}

/-- The same result on both sides. -/
theorem Follows.ret (a : α) : Follows σ ls Same (pure a : Run α) (pure a) := .result fun _ _ => rfl

/-- Going on after a result in the same way. -/
theorem Follows.map {c c' : Run α} (h : Follows σ ls Same c c') (f : α → β) :
    Follows σ ls Same (do return f (← c)) (do return f (← c')) :=
  h.andThen fun _ a _ => .ret (f a)

theorem Follows.mapList {f : α → Run β} (hf : ∀ x ls, Follows σ ls Same (f x) (f x))
    (xs : List α) : Follows σ ls Same (xs.mapM f) (xs.mapM f) := by
  induction xs generalizing ls with
  | nil => exact .ret []
  | cons x xs ih =>
    rw [List.mapM_cons]
    exact (hf x ls).andThen fun _ y _ => ih.andThen fun _ ys _ => .ret (y :: ys)

theorem Follows.foldList {f : α → β → Run α} (hf : ∀ a x ls, Follows σ ls Same (f a x) (f a x))
    (xs : List β) (a : α) : Follows σ ls Same (xs.foldlM f a) (xs.foldlM f a) := by
  induction xs generalizing ls a with
  | nil => exact .ret a
  | cons x xs ih => exact (hf a x ls).andThen fun _ b _ => ih b

/-! ## Conversions -/

theorem Follows.textOf (v : Value) : Follows σ ls Same (Run.textOf v) (Run.textOf v) :=
  .reading fun _ _ hh => hh.toText v

theorem Follows.numberOf (v : Value) : Follows σ ls Same (Run.numberOf v) (Run.numberOf v) :=
  .reading fun _ _ hh => hh.toNumber v

theorem Follows.integerOf (v : Value) : Follows σ ls Same (Run.integerOf v) (Run.integerOf v) :=
  .reading fun _ _ hh => hh.toInteger v

theorem Follows.countOf (x : Float) : Follows σ ls Same (Run.countOf x) (Run.countOf x) :=
  .reading fun _ _ _ => rfl

theorem Follows.wordOf (v : Value) :
    Follows σ ls Same (Run.reading fun h => toUint32 h v) (Run.reading fun h => toUint32 h v) :=
  .reading fun _ _ hh => hh.toUint32 v

theorem Follows.boundLength (n : Nat) :
    Follows σ ls Same (Run.boundLength n) (Run.boundLength n) := by
  unfold Run.boundLength
  split
  · exact .stop (.same _)
  · exact .ret ()

/-! ## Properties -/

theorem Cells.has {c c' : Cell} (hc : Cells σ ls c c') (key : Text) : c.has key = c'.has key := by
  obtain ⟨b, p⟩ := c
  obtain ⟨b', p'⟩ := c'
  obtain ⟨hb, rfl⟩ := hc
  cases hb <;> rfl

theorem Cells.get {c c' : Cell} (hc : Cells σ ls c c') (key : Text) : c.get key = c'.get key := by
  obtain ⟨b, p⟩ := c
  obtain ⟨b', p'⟩ := c'
  obtain ⟨hb, rfl⟩ := hc
  cases hb <;> rfl

theorem Cells.inheritedProperty {c c' : Cell} (hc : Cells σ ls c c') (key : Text) :
    Run.inheritedProperty c key = Run.inheritedProperty c' key := by
  obtain ⟨b, p⟩ := c
  obtain ⟨b', p'⟩ := c'
  obtain ⟨hb, rfl⟩ := hc
  cases hb <;> rfl

theorem Follows.setElements (r : Ref) (es : Array Value) :
    Follows σ ls Same (Run.setElements r es) (Run.setElements r es) :=
  (Follows.cell r).bind fun _ _ _ _ hc => .setCell r fun _ _ => ⟨.array es, hc.properties⟩

theorem Follows.putLength (r : Ref) (es : Array Value) (v : Value) :
    Follows σ ls Same (Run.putLength r es v) (Run.putLength r es v) := by
  refine (Follows.numberOf v).andThen fun _ x _ => ?_
  split
  · exact .raise _ _
  · exact (Follows.boundLength _).andThen fun _ _ _ => .setElements r _

theorem Follows.putOwn (r : Ref) (key : Text) (v : Value) :
    Follows σ ls Same (Run.putOwn r key v) (Run.putOwn r key v) := by
  refine (Follows.cell r).bind fun ls' c c' _ hc => ?_
  obtain ⟨b, p⟩ := c
  obtain ⟨b', p'⟩ := c'
  obtain ⟨hb, rfl⟩ := hc
  cases hb with
  | array es =>
    refine Follows.andThen (.reading fun _ _ _ => rfl) fun _ i _ => ?_
    cases i with
    | some i => exact (Follows.boundLength _).andThen fun _ _ _ => .setElements r _
    | none =>
      simp only
      split
      · exact .putLength r es v
      · exact .setCell r fun _ _ => ⟨.array es, rfl⟩
  | plain => exact .setCell r fun _ _ => ⟨.plain, rfl⟩
  | native fn => exact .setCell r fun _ _ => ⟨.native fn, rfl⟩
  | closure code name hs =>
    exact .setCell r fun _ hext => ⟨.closure code name (hs.mono hext), rfl⟩

/-- Deleting a property fails on both sides or on none. -/
theorem Cells.delete {c c' : Cell} (hc : Cells σ ls c c') (key : Text) :
    (∃ e, c.delete key = .error e ∧ c'.delete key = .error e) ∨
    ∃ d d', c.delete key = .ok d ∧ c'.delete key = .ok d' ∧ Cells σ ls d d' := by
  obtain ⟨b, p⟩ := c
  obtain ⟨b', p'⟩ := c'
  obtain ⟨hb, rfl⟩ := hc
  cases hb with
  | array es =>
    cases hk : arrayIndex key with
    | error e => exact .inl ⟨e, by simp only [Cell.delete, hk]; rfl, by simp only [Cell.delete, hk]; rfl⟩
    | ok i =>
      cases i with
      | some i =>
        refine .inr ⟨⟨.array (es.setIfInBounds i .undefined), p⟩, _, ?_, ?_, ⟨.array _, rfl⟩⟩
        · simp only [Cell.delete, hk]; rfl
        · simp only [Cell.delete, hk]; rfl
      | none =>
        refine .inr ⟨⟨.array es, p.erase key⟩, _, ?_, ?_, ⟨.array es, rfl⟩⟩
        · simp only [Cell.delete, hk]; rfl
        · simp only [Cell.delete, hk]; rfl
  | plain => exact .inr ⟨_, _, rfl, rfl, ⟨.plain, rfl⟩⟩
  | native fn => exact .inr ⟨_, _, rfl, rfl, ⟨.native fn, rfl⟩⟩
  | closure code name hs => exact .inr ⟨_, _, rfl, rfl, ⟨.closure code name hs, rfl⟩⟩

theorem Follows.deleteOwn (r : Ref) (key : Text) :
    Follows σ ls Same (Run.deleteOwn r key) (Run.deleteOwn r key) := by
  refine (Follows.cell r).bind fun ls' c c' _ hc => ?_
  refine Follows.bind (Follows.machine.bind fun ls'' _ _ hext _ => ?_) fun ls'' d d' _ hd =>
    .setCell r fun _ hext => Cells.mono hext hd
  obtain ⟨e, he, he'⟩ | ⟨d, d', hd, hd', hcells⟩ := hc.delete key
  · simp only [he, he']
    exact .stop (.same e)
  · simp only [hd, hd']
    exact .result fun _ hext' => hcells.mono (hext.trans hext')

theorem Follows.getProperty (v : Value) (key : Text) :
    Follows σ ls Same (Run.getProperty v key) (Run.getProperty v key) := by
  cases v with
  | undefined => exact .raise _ _
  | null => exact .raise _ _
  | string t =>
    unfold Run.getProperty
    exact .reading fun _ _ _ => rfl
  | bool b => exact .ret _
  | number x => exact .ret _
  | object r =>
    refine (Follows.cell r).bind fun ls' c c' _ hc => ?_
    simp only [hc.has key, hc.get key, hc.inheritedProperty key]
    refine Follows.andThen (.reading fun _ _ _ => rfl) fun _ found _ => ?_
    split
    · exact .reading fun _ _ _ => rfl
    · exact .ret _

theorem Follows.putProperty (v : Value) (key : Text) (item : Value) :
    Follows σ ls Same (Run.putProperty v key item) (Run.putProperty v key item) := by
  cases v with
  | undefined => exact .raise _ _
  | null => exact .raise _ _
  | object r => exact .putOwn r key item
  | string t => exact .ret ()
  | bool b => exact .ret ()
  | number x => exact .ret ()

theorem Follows.hasOwn (this : Value) (args : List Value) :
    Follows σ ls Same (Run.hasOwn this args) (Run.hasOwn this args) := by
  cases this with
  | object r =>
    refine (Follows.textOf _).andThen fun _ key _ => (Follows.cell r).bind fun _ c c' _ hc => ?_
    simp only [hc.has key]
    exact Follows.andThen (.reading fun _ _ _ => rfl) fun _ _ _ => .ret _
  | _ => exact .ret _

theorem Follows.binaryOperation (op : BinaryOp) (l r : Value) :
    Follows σ ls Same (Run.binaryOperation op l r) (Run.binaryOperation op l r) := by
  unfold Run.binaryOperation
  split
  · cases r with
    | object ref =>
      refine Follows.andThen (.reading fun _ _ hh => hh.toText l) fun _ key _ =>
        (Follows.cell ref).bind fun _ c c' _ hc => ?_
      simp only [hc.has key]
      exact Follows.andThen (.reading fun _ _ _ => rfl) fun _ _ _ => .ret _
    | _ => exact .raise _ _
  · exact .reading fun _ _ hh => hh.pureOperation op l r

/-! ## Methods of strings -/

/-- A function that does the same on paired machines, whatever it is called with. -/
def Calls (σ : Pairing) (call : Run.Caller) : Prop := ∀ f this args, Respects σ (call f this args)

theorem Follows.receiverText (this : Value) :
    Follows σ ls Same (Run.receiverText this) (Run.receiverText this) := by
  unfold Run.receiverText
  split
  · exact .raise _ _
  · exact .textOf this

theorem Follows.position (v : Value) (length default : Nat) :
    Follows σ ls Same (Run.position v length default) (Run.position v length default) := by
  unfold Run.position
  split
  · exact .ret _
  · refine (Follows.integerOf v).andThen fun _ x _ => ?_
    split
    · split
      · exact .ret _
      · exact .ret _
    · exact .ret _

theorem Follows.charAtValue (t : Text) (v : Value) :
    Follows σ ls Same (Run.charAtValue t v) (Run.charAtValue t v) := by
  refine (Follows.integerOf v).andThen fun _ x _ => ?_
  split
  · exact .ret _
  · exact .ret _

/-- A position that is moved into a text, or a default. -/
theorem Follows.clamped (v : Value) (default bound : Nat) :
    Follows σ ls Same
      (if v.isUndefined then pure default else do return Run.clamp (← Run.integerOf v) bound : Run Nat)
      (if v.isUndefined then pure default else do return Run.clamp (← Run.integerOf v) bound) := by
  split
  · exact .ret _
  · exact (Follows.integerOf v).map _

theorem Follows.substringOf (t : Text) (args : List Value) :
    Follows σ ls Same (Run.substringOf t args) (Run.substringOf t args) := by
  dsimp only [Run.substringOf]
  exact (Follows.clamped _ _ _).andThen fun _ _ _ =>
    (Follows.clamped _ _ _).andThen fun _ _ _ => .ret _

theorem Follows.substrOf (t : Text) (args : List Value) :
    Follows σ ls Same (Run.substrOf t args) (Run.substrOf t args) := by
  refine (Follows.position _ _ _).andThen fun _ start _ => ?_
  dsimp only
  split
  · exact .ret _
  · refine (Follows.integerOf _).andThen fun _ x _ => ?_
    split
    · exact .ret _
    · exact (Follows.countOf x).map _

/-- The pieces of a text up to a limit. -/
theorem Follows.limited (pieces : List Text) (limit : Value) :
    Follows σ ls Same
      (if limit.isUndefined then do
          let pieces ← pure pieces
          Run.newArray (pieces.map Value.string).toArray
        else do
          let x ← Run.integerOf limit
          let n ← Run.countOf x
          let pieces ← pure (Run.takeCount pieces n)
          Run.newArray (pieces.map Value.string).toArray : Run Value)
      (if limit.isUndefined then do
          let pieces ← pure pieces
          Run.newArray (pieces.map Value.string).toArray
        else do
          let x ← Run.integerOf limit
          let n ← Run.countOf x
          let pieces ← pure (Run.takeCount pieces n)
          Run.newArray (pieces.map Value.string).toArray) := by
  split
  · exact .newArray _
  · exact (Follows.integerOf _).andThen fun _ x _ => (Follows.countOf x).andThen fun _ _ _ => .newArray _

theorem Follows.splitText (t : Text) (args : List Value) :
    Follows σ ls Same (Run.splitText t args) (Run.splitText t args) := by
  dsimp only [Run.splitText]
  split
  · exact .fail _
  · split
    · exact .limited _ _
    · exact (Follows.textOf _).andThen fun _ _ _ => .limited _ _

theorem Follows.replaceText {call : Run.Caller} (hcall : Calls σ call) (t : Text)
    (args : List Value) :
    Follows σ ls Same (Run.replaceText call t args) (Run.replaceText call t args) := by
  dsimp only [Run.replaceText]
  split
  · exact .fail _
  · refine (Follows.textOf _).andThen fun _ p _ => ?_
    cases t.find? p 0 with
    | none => exact .ret t
    | some i =>
      refine Follows.machine.bind fun _ m m' _ hm => ?_
      rw [hm.resembles.isCallable]
      split
      · exact (hcall _ _ _).follows.andThen fun _ v _ => (Follows.textOf v).map _
      · refine (Follows.textOf _).andThen fun _ s _ => ?_
        split
        · exact Follows.andThen (.fail _) fun _ _ _ => .ret _
        · exact .ret _

theorem Follows.repeatText (this : Value) (args : List Value) :
    Follows σ ls Same (Run.repeatText this args) (Run.repeatText this args) := by
  refine (Follows.integerOf _).andThen fun _ x _ => ?_
  split
  · exact .raise _ _
  · refine (Follows.receiverText this).andThen fun _ t _ =>
      (Follows.boundLength _).andThen fun _ _ _ => ?_
    dsimp only
    split
    · exact .stop (.same _)
    · exact .ret _

theorem Follows.stringMethod {call : Run.Caller} (hcall : Calls σ call) (m : StringMethod)
    (this : Value) (args : List Value) :
    Follows σ ls Same (Run.stringMethod call m this args) (Run.stringMethod call m this args) := by
  cases m with
  | charAt => exact (Follows.receiverText this).andThen fun _ t _ => (Follows.charAtValue t _).map _
  | charCodeAt =>
    exact (Follows.receiverText this).andThen fun _ t _ =>
      (Follows.charAtValue t _).andThen fun _ _ _ => .ret _
  | indexOf =>
    exact (Follows.receiverText this).andThen fun _ t _ =>
      (Follows.integerOf _).andThen fun _ x _ => (Follows.textOf _).map _
  | lastIndexOf =>
    exact (Follows.receiverText this).andThen fun _ t _ => (Follows.textOf _).map _
  | includes => exact (Follows.textOf _).andThen fun _ s _ => (Follows.receiverText this).map _
  | startsWith => exact (Follows.receiverText this).andThen fun _ t _ => (Follows.textOf _).map _
  | endsWith => exact (Follows.receiverText this).andThen fun _ t _ => (Follows.textOf _).map _
  | slice =>
    exact (Follows.receiverText this).andThen fun _ t _ =>
      (Follows.position _ _ _).andThen fun _ start _ => (Follows.position _ _ _).map _
  | substring =>
    exact (Follows.receiverText this).andThen fun _ t _ => (Follows.substringOf t args).map _
  | substr => exact (Follows.receiverText this).andThen fun _ t _ => (Follows.substrOf t args).map _
  | split => exact (Follows.receiverText this).andThen fun _ t _ => .splitText t args
  | replace =>
    exact (Follows.receiverText this).andThen fun _ t _ => (Follows.replaceText hcall t args).map _
  | concat =>
    exact (Follows.receiverText this).andThen fun _ t _ =>
      (Follows.mapList (fun v _ => .textOf v) args).map _
  | «repeat» => exact (Follows.repeatText this args).map _
  | toUpperCase => exact (Follows.receiverText this).map _
  | toLowerCase => exact (Follows.receiverText this).map _
  | trim => exact (Follows.receiverText this).map _
  | toString => exact (Follows.receiverText this).map _
  | valueOf => exact (Follows.receiverText this).map _

/-! ## Methods of arrays -/

theorem Follows.receiverArray (this : Value) :
    Follows σ ls Same (Run.receiverArray this) (Run.receiverArray this) := by
  refine Follows.machine.bind fun _ m m' _ hm => ?_
  rw [hm.resembles.elements?]
  split
  · exact .ret _
  · exact .fail _

theorem Follows.elementText (v : Value) :
    Follows σ ls Same (Run.elementText v) (Run.elementText v) := by
  unfold Run.elementText
  split
  · exact .ret _
  · exact .textOf v

theorem Follows.joinElements (es : Array Value) (args : List Value) :
    Follows σ ls Same (Run.joinElements es args) (Run.joinElements es args) := by
  dsimp only [Run.joinElements]
  split
  · exact (Follows.mapList (fun v _ => .elementText v) _).map _
  · exact (Follows.textOf _).andThen fun _ _ _ =>
      (Follows.mapList (fun v _ => .elementText v) _).map _

theorem Follows.spliceCount (args : List Value) (available : Nat) :
    Follows σ ls Same (Run.spliceCount args available) (Run.spliceCount args available) := by
  unfold Run.spliceCount
  split
  · exact (Follows.integerOf _).map _
  · exact .ret _

theorem Follows.spliceArray (r : Ref) (es : Array Value) (args : List Value) :
    Follows σ ls Same (Run.spliceArray r es args) (Run.spliceArray r es args) :=
  (Follows.position _ _ _).andThen fun _ _ _ => (Follows.spliceCount args _).andThen fun _ _ _ =>
    (Follows.setElements r _).andThen fun _ _ _ => .newArray _

theorem Follows.concatElements (es : Array Value) (args : List Value) :
    Follows σ ls Same (Run.concatElements es args) (Run.concatElements es args) := by
  refine Follows.machine.bind fun _ m m' _ hm => ?_
  have hsame : m.heap.elements? = m'.heap.elements? := funext hm.resembles.elements?
  simp only [hsame]
  exact .ret _

theorem Follows.callback (args : List Value) :
    Follows σ ls Same (Run.callback args) (Run.callback args) := by
  refine Follows.machine.bind fun _ m m' _ hm => ?_
  rw [hm.resembles.isCallable]
  split
  · exact .ret _
  · exact (Follows.textOf _).andThen fun _ _ _ => .raise _ _

theorem Follows.mapElements {call : Run.Caller} (hcall : Calls σ call) (f this : Value)
    (es : List (Value × Nat)) :
    Follows σ ls Same (Run.mapElements call f this es) (Run.mapElements call f this es) :=
  .mapList (fun _ _ => (hcall _ _ _).follows) es

theorem Follows.filterElements {call : Run.Caller} (hcall : Calls σ call) (f this : Value)
    (es : List (Value × Nat)) :
    Follows σ ls Same (Run.filterElements call f this es) (Run.filterElements call f this es) :=
  (Follows.mapList (fun _ _ => (hcall _ _ _).follows.map _) es).map _

theorem Follows.reduceElements {call : Run.Caller} (hcall : Calls σ call) (f this : Value)
    (es : Array Value) (args : List Value) :
    Follows σ ls Same (Run.reduceElements call f this es args)
      (Run.reduceElements call f this es args) := by
  dsimp only [Run.reduceElements]
  split
  · exact .foldList (fun _ _ _ => (hcall _ _ _).follows) _ _
  · exact .foldList (fun _ _ _ => (hcall _ _ _).follows) _ _
  · exact .raise _ _

theorem Follows.arrayMethod {call : Run.Caller} (hcall : Calls σ call) (m : ArrayMethod)
    (this : Value) (args : List Value) :
    Follows σ ls Same (Run.arrayMethod call m this args) (Run.arrayMethod call m this args) := by
  refine (Follows.receiverArray this).andThen fun _ p _ => ?_
  obtain ⟨r, es⟩ := p
  cases m with
  | join => exact (Follows.joinElements es args).map _
  | toString => exact (Follows.joinElements es args).map _
  | push => exact (Follows.setElements r _).andThen fun _ _ _ => .ret _
  | pop => exact (Follows.setElements r _).andThen fun _ _ _ => .ret _
  | shift => exact (Follows.setElements r _).andThen fun _ _ _ => .ret _
  | unshift => exact (Follows.setElements r _).andThen fun _ _ _ => .ret _
  | slice =>
    exact (Follows.position _ _ _).andThen fun _ _ _ => (Follows.position _ _ _).andThen
      fun _ _ _ => .newArray _
  | splice => exact .spliceArray r es args
  | reverse => exact (Follows.setElements r _).andThen fun _ _ _ => .ret _
  | indexOf => exact .ret _
  | includes => exact .ret _
  | concat => exact (Follows.concatElements es args).andThen fun _ _ _ => .newArray _
  | map =>
    exact (Follows.callback args).andThen fun _ f _ =>
      (Follows.mapElements hcall f this _).andThen fun _ _ _ => .newArray _
  | filter =>
    exact (Follows.callback args).andThen fun _ f _ =>
      (Follows.filterElements hcall f this _).andThen fun _ _ _ => .newArray _
  | forEach =>
    exact (Follows.callback args).andThen fun _ f _ =>
      (Follows.mapElements hcall f this _).andThen fun _ _ _ => .ret _
  | reduce => exact (Follows.callback args).andThen fun _ f _ => .reduceElements hcall f this es args

/-! ## Global functions, and methods of other values -/

theorem Follows.radixTextOf (x : Float) (base : Int) :
    Follows σ ls Same (Run.radixTextOf x base) (Run.radixTextOf x base) := by
  unfold Run.radixTextOf
  split
  · exact .ret _
  · split
    · exact .raise _ _
    · split
      · exact .ret _
      · exact .ret _

theorem Follows.fixedTextOf (this : Value) (args : List Value) :
    Follows σ ls Same (Run.fixedTextOf this args) (Run.fixedTextOf this args) := by
  refine (Follows.integerOf _).andThen fun _ x _ => (Follows.countOf x).andThen fun _ places _ => ?_
  split
  · exact .raise _ _
  · refine (Follows.numberOf this).andThen fun _ y _ => ?_
    split
    · exact .ret _
    · exact .ret _

theorem Follows.numberMethod (m : NumberMethod) (this : Value) (args : List Value) :
    Follows σ ls Same (Run.numberMethod m this args) (Run.numberMethod m this args) := by
  cases m with
  | toString =>
    refine (Follows.numberOf this).andThen fun _ x _ => ?_
    dsimp only
    split
    · exact Follows.andThen (.ret 10) fun _ _ _ => (Follows.radixTextOf x _).map _
    · exact (Follows.integerOf _).andThen fun _ y _ => (Follows.countOf y).andThen fun _ _ _ =>
        (Follows.radixTextOf x _).map _
  | toFixed => exact (Follows.fixedTextOf this args).map _
  | valueOf => exact (Follows.numberOf this).map _

theorem Follows.booleanMethod (m : BooleanMethod) (this : Value) :
    Follows σ ls Same (Run.booleanMethod m this) (Run.booleanMethod m this) := by
  cases m with
  | toString => exact (Follows.textOf this).map _
  | valueOf => exact .ret this

theorem Follows.argumentList (v : Value) :
    Follows σ ls Same (Run.argumentList v) (Run.argumentList v) := by
  unfold Run.argumentList
  split
  · exact .ret _
  · refine Follows.machine.bind fun _ m m' _ hm => ?_
    rw [hm.resembles.elements?]
    split
    · exact .ret _
    · exact .raise _ _

theorem Follows.functionMethod {call : Run.Caller} (hcall : Calls σ call) (m : FunctionMethod)
    (this : Value) (args : List Value) :
    Follows σ ls Same (Run.functionMethod call m this args) (Run.functionMethod call m this args) := by
  cases m with
  | call => exact (hcall _ _ _).follows
  | apply => exact (Follows.argumentList _).andThen fun _ _ _ => (hcall _ _ _).follows

theorem Follows.mathFunction (f : MathFunction) (args : List Value) :
    Follows σ ls Same (Run.mathFunction f args) (Run.mathFunction f args) := by
  unfold Run.mathFunction
  split
  · exact (Follows.mapList (fun v _ => .numberOf v) args).map _
  · exact (Follows.mapList (fun v _ => .numberOf v) args).map _
  · exact (Follows.numberOf _).andThen fun _ _ _ => (Follows.numberOf _).map _
  · exact (Follows.numberOf _).map _

theorem Follows.parseWhole (args : List Value) :
    Follows σ ls Same (Run.parseWhole args) (Run.parseWhole args) := by
  refine (Follows.textOf _).andThen fun _ t _ =>
    Follows.andThen (.reading fun _ _ hh => hh.toInt32 _) fun _ base _ => ?_
  split
  · exact .ret _
  · exact .stop (.same _)

theorem Follows.globalFunction (f : GlobalFunction) (args : List Value) :
    Follows σ ls Same (Run.globalFunction f args) (Run.globalFunction f args) := by
  cases f with
  | string =>
    cases args with
    | nil => exact .ret _
    | cons v _ => exact (Follows.textOf v).map _
  | fromCharCode => exact (Follows.mapList (fun v _ => (Follows.wordOf v).map _) args).map _
  | number =>
    cases args with
    | nil => exact .ret _
    | cons v _ => exact (Follows.numberOf v).map _
  | boolean => exact .ret _
  | parseInt => exact .parseWhole args
  | parseFloat => exact (Follows.textOf _).map _
  | isNaN => exact (Follows.numberOf _).map _
  | isFinite => exact (Follows.numberOf _).map _
  | escape => exact (Follows.textOf _).map _
  | unescape => exact (Follows.textOf _).map _
  | encodeURIComponent =>
    refine (Follows.textOf _).andThen fun _ t _ => ?_
    split
    · exact .ret _
    · exact .stop (.same _)
  | decodeURIComponent =>
    refine (Follows.textOf _).andThen fun _ t _ => ?_
    split
    · exact .ret _
    · exact .raise _ _
  | atob =>
    refine (Follows.textOf _).andThen fun _ t _ => ?_
    split
    · exact .ret _
    · exact .raise _ _
  | btoa =>
    refine (Follows.textOf _).andThen fun _ t _ => ?_
    split
    · exact .ret _
    · exact .raise _ _

/-- Built-in functions do the same on paired machines if the functions that they call back do. -/
theorem Follows.applyNative {call : Run.Caller} (hcall : Calls σ call) (fn : Native) (this : Value)
    (args : List Value) :
    Follows σ ls Same (Run.applyNative call fn this args) (Run.applyNative call fn this args) := by
  cases fn with
  | string m => exact .stringMethod hcall m this args
  | number m => exact .numberMethod m this args
  | boolean m => exact .booleanMethod m this
  | array m => exact .arrayMethod hcall m this args
  | function m => exact .functionMethod hcall m this args
  | hasOwnProperty => exact .hasOwn this args
  | math f => exact .mathFunction f args
  | «global» f => exact .globalFunction f args

end Untangle.Sandbox.Pairing
