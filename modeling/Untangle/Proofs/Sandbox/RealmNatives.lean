import Untangle.Proofs.Sandbox.BuiltNatives
import Untangle.Proofs.Sandbox.Realm

set_option autoImplicit false

/-!
# What built-in functions do to a store

Built-in functions and the access to properties hand on the values that they are given and those that
they find in objects; the objects that they make hold no others.  What they change is an array, or the
properties of an object.
-/

namespace Untangle.Sandbox

/-- The result of an operator is no object. -/
theorem isObject_of_pureOperation {h : Heap} {op : BinaryOp} {l r v : Value}
    (hv : pureOperation h op l r = .ok v) : v.isObject = false := by
  have hlast : ∀ {α : Type} {x : Conv α} {f : α → Value}, (∀ a, (f a).isObject = false) →
      (do return f (← x)) = .ok v → v.isObject = false := by
    intro α x f hf hx
    obtain ⟨a, -, ha⟩ := except_bind_eq_ok.mp hx
    cases ha
    exact hf a
  have hadd : addValues h l r = .ok v → v.isObject = false := by
    intro hx
    obtain ⟨a, -, hx⟩ := except_bind_eq_ok.mp hx
    obtain ⟨b, -, hx⟩ := except_bind_eq_ok.mp hx
    split at hx
    · cases hx
      rfl
    · cases hx
      rfl
    · obtain ⟨x, -, hx⟩ := except_bind_eq_ok.mp hx
      exact hlast (fun _ => rfl) hx
  have hnumbers : (do
      let x ← toNumber h l
      let y ← toNumber h r
      return Value.number (numberOperation op x y)) = .ok v → v.isObject = false := by
    intro hx
    obtain ⟨x, -, hx⟩ := except_bind_eq_ok.mp hx
    exact hlast (fun _ => rfl) hx
  unfold pureOperation at hv
  split at hv
  · exact hadd hv
  · exact hlast (fun _ => rfl) hv
  · exact hlast (fun _ => rfl) hv
  · cases hv
    rfl
  · cases hv
    rfl
  · exact hnumbers hv
  · exact hnumbers hv
  · exact hnumbers hv
  · exact hnumbers hv
  · exact hnumbers hv
  · exact hlast (fun _ => rfl) hv
  · exact hlast (fun _ => rfl) hv
  · exact hlast (fun _ => rfl) hv
  · exact hlast (fun _ => rfl) hv
  · exact hlast (fun _ => rfl) hv
  · exact hlast (fun _ => rfl) hv
  · exact hlast (fun _ => rfl) hv
  · exact hlast (fun _ => rfl) hv
  · exact hlast (fun _ => rfl) hv
  · exact hlast (fun _ => rfl) hv
  · cases hv
  · cases hv
  · cases hv

namespace Realm

variable {ρ : Realm} {J : Jump → Prop} {m m₁ : Machine}

/-! ## Known values -/

theorem knows_of_isObject {v : Value} (hv : v.isObject = false) : ρ.Knows m v := by
  cases v with
  | object r => cases hv
  | _ => trivial

theorem knows_placeNumber (place : Option Nat) : ρ.Knows m (Run.placeNumber place) := by
  cases place <;> trivial

theorem KnowsAll.properties {c : Cell} (hc : ρ.KnowsAll m c.held) : ρ.KnowsAll m c.properties.values :=
  hc.of_subset (List.subset_append_right _ _)

theorem KnowsAll.body {c : Cell} (hc : ρ.KnowsAll m c.held) : ρ.KnowsAll m c.body.held :=
  hc.of_subset (List.subset_append_left _ _)

theorem KnowsAll.elements {c : Cell} {es : Array Value} (hc : ρ.KnowsAll m c.held)
    (hbody : c.body = .array es) : ρ.KnowsAll m es.toList := by
  have hes := hc.body
  rwa [hbody] at hes

/-- The elements of an array that is known are known. -/
theorem Encloses.elements (hm : ρ.Encloses m) {v : Value} (hv : ρ.Knows m v) {es : Array Value}
    (hes : m.heap.elements? v = some es) : ρ.KnowsAll m es.toList := by
  cases v with
  | object r => exact KnowsAll.elements (hm.objects r hv.2) (Built.body_of_elements? hes)
  | _ => cases hes

theorem KnowsAll.extract {es : Array Value} (hes : ρ.KnowsAll m es.toList) (start stop : Nat) :
    ρ.KnowsAll m (es.extract start stop).toList := by
  rw [Array.toList_extract]
  exact hes.of_subset fun v hv => List.mem_of_mem_drop (List.mem_of_mem_take hv)

theorem KnowsAll.joined {es es' : Array Value} (hes : ρ.KnowsAll m es.toList)
    (hes' : ρ.KnowsAll m es'.toList) : ρ.KnowsAll m (es ++ es').toList := by
  rw [Array.toList_append]
  exact hes.append hes'

theorem knowsAll_replicate (n : Nat) : ρ.KnowsAll m (Array.replicate n Value.undefined).toList := by
  intro v hv
  rw [Array.toList_replicate] at hv
  rw [(List.mem_replicate.mp hv).2]
  trivial

theorem KnowsAll.push {es : Array Value} (hes : ρ.KnowsAll m es.toList) {v : Value} (hv : ρ.Knows m v) :
    ρ.KnowsAll m (es.push v).toList := by
  rw [Array.toList_push]
  exact hes.append ((knowsAll_nil ρ m).cons hv)

theorem KnowsAll.set {es : Array Value} (hes : ρ.KnowsAll m es.toList) (i : Nat) {v : Value}
    (hv : ρ.Knows m v) : ρ.KnowsAll m (es.setIfInBounds i v).toList := by
  intro w hw
  rw [Array.toList_setIfInBounds] at hw
  obtain hw | rfl := List.mem_or_eq_of_mem_set hw
  · exact hes w hw
  · exact hv

theorem KnowsAll.resize {es : Array Value} (hes : ρ.KnowsAll m es.toList) (size : Nat) :
    ρ.KnowsAll m (Sandbox.resize es size).toList := by
  unfold Sandbox.resize
  split
  · exact hes.extract _ _
  · exact hes.joined (knowsAll_replicate _)

theorem KnowsAll.setElement {es : Array Value} (hes : ρ.KnowsAll m es.toList) (i : Nat) {v : Value}
    (hv : ρ.Knows m v) : ρ.KnowsAll m (Sandbox.setElement es i v).toList := by
  unfold Sandbox.setElement
  split
  · exact hes.set i hv
  · exact (hes.joined (knowsAll_replicate _)).push hv

theorem knows_getD {es : Array Value} (hes : ρ.KnowsAll m es.toList) (i : Nat) :
    ρ.Knows m (es[i]?.getD .undefined) := by
  cases hi : es[i]? with
  | none => trivial
  | some v => exact hes v (Array.mem_toList_iff.mpr (Array.mem_of_getElem? hi))

/-- What is left of an object holds nothing new, and is of the same kind. -/
theorem KnowsAll.delete {c d : Cell} {key : Text} (hc : ρ.KnowsAll m c.held)
    (hd : c.delete key = .ok d) : c.body.Stays d.body ∧ ρ.KnowsAll m d.held := by
  have herase : ρ.KnowsAll m (c.properties.erase key).values :=
    fun v hv => hc.properties v (Dict.mem_values_erase hv)
  unfold Cell.delete at hd
  split at hd
  · next es hbody =>
    obtain ⟨i, -, hd⟩ := except_bind_eq_ok.mp hd
    have hes := hc.elements hbody
    split at hd
    · cases hd
      rw [hbody]
      exact ⟨.array _ _, (hes.set _ (v := .undefined) trivial).append hc.properties⟩
    · cases hd
      exact ⟨.same _, hc.body.append herase⟩
  · cases hd
    exact ⟨.same _, hc.body.append herase⟩

/-- A property of an object is a value that it holds, its length, or `undefined`. -/
theorem KnowsAll.get {c : Cell} (hc : ρ.KnowsAll m c.held) {key : Text} {v : Value}
    (hv : c.get key = .ok v) : ρ.Knows m v := by
  obtain hheld | hplain := Cell.held_of_get hv
  · exact hc v hheld
  · cases v with
    | object r => cases hplain
    | _ => trivial

/-- What values of a kind inherit is an object of every complete store. -/
theorem Encloses.inherits (hm : ρ.Encloses m) (family : Family) (key : Text) :
    ρ.Knows m (Run.inherited family key) := by
  unfold Run.inherited
  split
  · next place hplace =>
    have hlt := (List.findIdx?_eq_some_iff_findIdx_eq.mp hplace).1
    exact ⟨Nat.lt_of_lt_of_le hlt hm.size, hm.inherited place hlt⟩
  · trivial

theorem Encloses.inheritedProperty (hm : ρ.Encloses m) (c : Cell) (key : Text) :
    ρ.Knows m (Run.inheritedProperty c key) := by
  unfold Run.inheritedProperty
  split
  · exact hm.inherits _ _
  · split
    · trivial
    · exact hm.inherits _ _
  · split
    · trivial
    · exact hm.inherits _ _
  · exact hm.inherits _ _

theorem Encloses.textProperty (hm : ρ.Encloses m) {t key : Text} {v : Value}
    (hv : Run.textProperty t key = .ok v) : ρ.Knows m v := by
  unfold Run.textProperty at hv
  split at hv
  · cases hv
    trivial
  · split at hv
    · obtain ⟨i, -, hv⟩ := except_bind_eq_ok.mp hv
      cases hv
      split <;> trivial
    · cases hv
      exact hm.inherits _ _

/-- An array of the realm. -/
def HasArray (ρ : Realm) (m : Machine) (r : Ref) : Prop := ρ.Knows m (.object r) ∧ m.IsArray r

theorem HasArray.later {r : Ref} (hr : ρ.HasArray m r) (h : m.Becomes m₁) : ρ.HasArray m₁ r :=
  ⟨hr.1.later h, hr.2.later h⟩

namespace Maintains

variable {α β : Type} {Q : Machine → α → Prop}

/-! ## Conversions -/

theorem textOf (v : Value) : ρ.Maintains J m Any (Run.textOf v) := .reading fun _ => (Proper.toText v : Proper [] _)

theorem numberOf (v : Value) : ρ.Maintains J m Any (Run.numberOf v) := .reading fun _ => .toNumber (List.mem_singleton_self _) v

theorem integerOf (v : Value) : ρ.Maintains J m Any (Run.integerOf v) := .reading fun _ => .toInteger (List.mem_singleton_self _) v

theorem countOf (x : Float) : ρ.Maintains J m Any (Run.countOf x) := .reading fun _ => .toCount (List.mem_singleton_self _) x

theorem boundLength (n : Nat) : ρ.Maintains J m Any (Run.boundLength n) := by
  unfold Run.boundLength
  split
  · exact .halt rfl fun _ => trivial
  · exact .any ()

/-- A result of which nothing has to be known. -/
theorem mapAny {c : Run α} (hc : ρ.Maintains J m Q c) (f : α → β) :
    ρ.Maintains J m Any (do return f (← c)) := hc.map fun _ _ _ => trivial

/-- A result that is no object, whatever it is computed from. -/
theorem mapValue {c : Run α} (hc : ρ.Maintains J m Q c) {f : α → Value}
    (hf : ∀ a, (f a).isObject = false) : ρ.Maintains J m ρ.Knows (do return f (← c)) :=
  hc.map fun _ a _ => knows_of_isObject (hf a)

/-! ## Properties -/

/-- Elements of an array are exchanged for others that are known. -/
theorem setElements {r : Ref} (hr : ρ.HasArray m r) {es : Array Value}
    (hes : ρ.KnowsAll m es.toList) : ρ.Maintains J m Any (Run.setElements r es) := by
  refine .ofCell hr.1 fun m₁ c h hcell hheld => .setCell (fun m₂ h' => ?_) ?_
  · obtain ⟨es₂, hbody₂⟩ := hr.2.later (h.trans h')
    rw [hbody₂]
    exact .array _ _
  · exact (hes.later h).append hheld.properties

/-- Properties of an object are exchanged for others that are known. -/
theorem setProperties {r : Ref} {properties : Dict Text Value} (hr : ρ.Knows m (.object r))
    (hheld : ρ.KnowsAll m (m.cell r).held) (hproperties : ρ.KnowsAll m properties.values) :
    ρ.Maintains J m Any (Run.setCell r { m.cell r with properties := properties }) :=
  .setCell (fun _ h => (h.bodies r hr.1).symm) (hheld.body.append hproperties)

theorem putLength {r : Ref} (hr : ρ.HasArray m r) {es : Array Value} (hes : ρ.KnowsAll m es.toList)
    (v : Value) : ρ.Maintains J m Any (Run.putLength r es v) := by
  refine (numberOf v).andThen fun m₁ x h => ?_
  split
  · exact .raise _ _
  · exact (boundLength _).andThen fun m₂ _ h' =>
      setElements (hr.later (h.trans h')) ((hes.later (h.trans h')).resize _)

theorem putOwn {r : Ref} (hr : ρ.Knows m (.object r)) (key : Text) {v : Value} (hv : ρ.Knows m v) :
    ρ.Maintains J m Any (Run.putOwn r key v) := by
  refine .ofCell hr fun m₁ c h hcell hheld => ?_
  subst hcell
  have hput : ρ.Maintains J m₁ Any (Run.setCell r
      { m₁.cell r with properties := (m₁.cell r).properties.put key v }) :=
    setProperties (hr.later h) hheld (hheld.properties.put (hv.later h) key)
  split
  · next es hbody =>
    have harray : ρ.HasArray m₁ r := ⟨hr.later h, es, hbody⟩
    have hes := hheld.elements hbody
    refine (reading fun _ => .arrayIndex (List.mem_singleton_self _) key).andThen fun m₂ i h₂ => ?_
    split
    · exact (boundLength _).andThen fun m₃ _ h₃ => setElements (harray.later (h₂.trans h₃))
        ((hes.later (h₂.trans h₃)).setElement _ (hv.later (h.trans (h₂.trans h₃))))
    · split
      · exact putLength (harray.later h₂) (hes.later h₂) v
      · exact hput.later h₂
  · exact hput

theorem deleteOwn {r : Ref} (hr : ρ.Knows m (.object r)) (key : Text) :
    ρ.Maintains J m Any (Run.deleteOwn r key) := by
  refine .ofCell hr fun m₁ c h hcell hheld => ?_
  subst hcell
  have hread : ρ.Maintains J m₁ (fun _ d => (m₁.cell r).delete key = .ok d)
      (Run.reading fun _ => (m₁.cell r).delete key) :=
    readingOf (fun _ => .delete (List.mem_singleton_self _) _ key) fun _ _ _ _ hd => hd
  refine hread.bind fun m₂ d h₂ hd => ?_
  obtain ⟨hstays, hknown⟩ := hheld.delete hd
  exact .setCell (fun m₃ h₃ => ((h₂.trans h₃).bodies r (hr.later h).1).symm.trans hstays)
    (hknown.later h₂)

theorem getProperty {v : Value} (hv : ρ.Knows m v) (key : Text) :
    ρ.Maintains J m ρ.Knows (Run.getProperty v key) := by
  have hinherited : ∀ family, ρ.Maintains J m ρ.Knows (pure (Run.inherited family key)) :=
    fun family m₁ _ hm => ⟨.refl m₁, hm, hm.inherits family key⟩
  unfold Run.getProperty
  split
  · exact .raise _ _
  · exact .raise _ _
  · exact readingOf (fun _ => .textProperty (List.mem_singleton_self _) _ key) fun m₁ w _ hm hw => hm.textProperty hw
  · exact hinherited _
  · exact hinherited _
  · refine .ofCell hv fun m₁ c h hcell hheld => (reading fun _ => .has (List.mem_singleton_self _) c key).andThen
      fun m₂ found h₂ => ?_
    split
    · exact readingOf (fun _ => .get (List.mem_singleton_self _) c key) fun m₃ w h₃ _ hw =>
        (hheld.later (h₂.trans h₃)).get hw
    · exact fun m₃ _ hm => ⟨.refl m₃, hm, hm.inheritedProperty c key⟩

theorem putProperty {v item : Value} (hv : ρ.Knows m v) (hitem : ρ.Knows m item) (key : Text) :
    ρ.Maintains J m Any (Run.putProperty v key item) := by
  unfold Run.putProperty
  split
  · exact .raise _ _
  · exact .raise _ _
  · exact putOwn hv key hitem
  · exact .any ()

theorem hasOwn (this : Value) (args : List Value) : ρ.Maintains J m ρ.Knows (Run.hasOwn this args) := by
  unfold Run.hasOwn
  split
  · exact (textOf _).andThen fun _ key _ => .anyCell _ fun _ c =>
      (reading fun _ => .has (List.mem_singleton_self _) c key).mapValue fun _ => rfl
  · exact .value trivial

theorem binaryOperation (op : BinaryOp) (l r : Value) :
    ρ.Maintains J m ρ.Knows (Run.binaryOperation op l r) := by
  unfold Run.binaryOperation
  split
  · split
    · exact (reading fun _ => (Proper.toText l : Proper [] _)).andThen fun _ key _ => .anyCell _ fun _ c =>
        (reading fun _ => .has (List.mem_singleton_self _) c key).mapValue fun _ => rfl
    · exact .raise _ _
  · exact readingOf (fun _ => .pureOperation (List.mem_singleton_self _) op l r) fun _ _ _ _ hv =>
      knows_of_isObject (isObject_of_pureOperation hv)

/-! ## Methods of strings -/

theorem receiverText (this : Value) : ρ.Maintains J m Any (Run.receiverText this) := by
  unfold Run.receiverText
  split
  · exact .raise _ _
  · exact textOf this

theorem position (v : Value) (length default : Nat) :
    ρ.Maintains J m Any (Run.position v length default) := by
  unfold Run.position
  split
  · exact .any _
  · refine (integerOf v).andThen fun _ x _ => ?_
    split
    · split
      · exact .any _
      · exact .any _
    · exact .any _

theorem charAtValue (t : Text) (v : Value) : ρ.Maintains J m Any (Run.charAtValue t v) := by
  refine (integerOf v).andThen fun _ x _ => ?_
  split
  · exact .any _
  · exact .any _

theorem substringOf (t : Text) (args : List Value) : ρ.Maintains J m Any (Run.substringOf t args) := by
  refine Maintains.andThen (Q := Any) ?_ fun _ _ _ =>
    Maintains.andThen (Q := Any) ?_ fun _ _ _ => .any _
  all_goals
    dsimp only
    split
    · exact .any _
    · exact (integerOf _).mapAny _

theorem substrOf (t : Text) (args : List Value) : ρ.Maintains J m Any (Run.substrOf t args) := by
  refine (position _ _ _).andThen fun _ start _ => ?_
  dsimp only
  split
  · exact .any _
  · refine (integerOf _).andThen fun _ x _ => ?_
    split
    · exact .any _
    · exact (countOf x).mapAny _

/-- An array of texts. -/
theorem newTexts (ts : List Text) :
    ρ.Maintains J m ρ.Knows (Run.newArray (ts.map Value.string).toArray) := by
  refine .newArray fun v hv => ?_
  obtain ⟨t, -, rfl⟩ := List.mem_map.mp (by simpa using hv)
  trivial

theorem splitText (t : Text) (args : List Value) : ρ.Maintains J m ρ.Knows (Run.splitText t args) := by
  dsimp only [Run.splitText]
  split
  · exact .fail fun _ => rfl
  · split
    · split
      · exact newTexts _
      · exact (integerOf _).andThen fun _ x _ => (countOf x).andThen fun _ _ _ => newTexts _
    · refine (textOf _).andThen fun _ s _ => (Maintains.any _).andThen fun _ pieces _ => ?_
      split
      · exact newTexts _
      · exact (integerOf _).andThen fun _ x _ => (countOf x).andThen fun _ _ _ => newTexts _

variable {ev : Evaluator} (hev : ρ.Governs ev)

include hev in
theorem replaceText (t : Text) {args : List Value} (hargs : ρ.KnowsAll m args) :
    ρ.Maintains J m Any (Run.replaceText ev.call t args) := by
  dsimp only [Run.replaceText]
  split
  · exact .fail fun _ => rfl
  · refine (textOf _).andThen fun m₁ p h => ?_
    split
    · exact .any t
    · refine .look fun m₂ h₂ _ => ?_
      have hf : ρ.Knows m₂ (Run.arg args 1) := (hargs.later (h.trans h₂)).getD 1
      split
      · have hcall : ∀ i, ρ.Maintains J m₂ ρ.Knows
            (ev.call (Run.arg args 1) .undefined [.string p, ofCount i, .string t]) :=
          fun i => hev.call J m₂ _ _ _ hf trivial fun v hv => by
            obtain rfl | rfl | rfl : v = .string p ∨ v = ofCount i ∨ v = .string t := by
              simpa using hv
            all_goals trivial
        exact (hcall _).andThen fun _ v _ => (textOf v).mapAny _
      · refine (textOf _).andThen fun _ s _ => ?_
        split
        · exact (Maintains.fail (Q := Any) fun _ => rfl).andThen fun _ _ _ => .any _
        · exact .any _

theorem repeatText (this : Value) (args : List Value) :
    ρ.Maintains J m Any (Run.repeatText this args) := by
  refine (integerOf _).andThen fun _ x _ => ?_
  split
  · exact .raise _ _
  · refine (receiverText this).andThen fun _ t _ => (boundLength _).andThen fun _ _ _ => ?_
    dsimp only
    split
    · exact .halt rfl fun _ => trivial
    · exact .any _

include hev in
theorem stringMethod (method : StringMethod) (this : Value) {args : List Value}
    (hargs : ρ.KnowsAll m args) : ρ.Maintains J m ρ.Knows (Run.stringMethod ev.call method this args) := by
  have hreceiver : ρ.Maintains J m Any (Run.receiverText this) := receiverText this
  cases method with
  | charAt => exact hreceiver.andThen fun _ t _ => (charAtValue t _).mapValue fun _ => rfl
  | charCodeAt =>
    refine hreceiver.andThen fun _ t _ => (charAtValue t _).mapValue fun c => ?_
    cases c <;> rfl
  | indexOf =>
    exact hreceiver.andThen fun _ t _ => (integerOf _).andThen fun _ x _ =>
      (textOf _).map fun _ _ _ => knows_placeNumber _
  | lastIndexOf =>
    exact hreceiver.andThen fun _ t _ => (textOf _).map fun _ _ _ => knows_placeNumber _
  | includes => exact (textOf _).andThen fun _ s _ => (receiverText this).mapValue fun _ => rfl
  | startsWith => exact hreceiver.andThen fun _ t _ => (textOf _).mapValue fun _ => rfl
  | endsWith => exact hreceiver.andThen fun _ t _ => (textOf _).mapValue fun _ => rfl
  | slice =>
    exact hreceiver.andThen fun _ t _ => (position _ _ _).andThen fun _ _ _ =>
      (position _ _ _).mapValue fun _ => rfl
  | substring => exact hreceiver.andThen fun _ t _ => (substringOf t args).mapValue fun _ => rfl
  | substr => exact hreceiver.andThen fun _ t _ => (substrOf t args).mapValue fun _ => rfl
  | split => exact hreceiver.andThen fun _ t _ => splitText t args
  | replace =>
    exact hreceiver.andThen fun _ t h => (replaceText hev t (hargs.later h)).mapValue fun _ => rfl
  | concat =>
    exact hreceiver.andThen fun _ t _ =>
      (mapList (fun _ v _ _ => textOf v) fun _ _ _ _ _ => trivial).mapValue fun _ => rfl
  | «repeat» => exact (repeatText this args).mapValue fun _ => rfl
  | toUpperCase => exact hreceiver.mapValue fun _ => rfl
  | toLowerCase => exact hreceiver.mapValue fun _ => rfl
  | trim => exact hreceiver.mapValue fun _ => rfl
  | toString => exact hreceiver.mapValue fun _ => rfl
  | valueOf => exact hreceiver.mapValue fun _ => rfl

/-! ## Methods of arrays -/

/-- A receiver that is an array, with elements that are known. -/
theorem receiverArray {this : Value} (hthis : ρ.Knows m this) :
    ρ.Maintains J m (fun m₁ p => ρ.HasArray m₁ p.1 ∧ ρ.KnowsAll m₁ p.2.toList)
      (Run.receiverArray this) := by
  refine .look fun m₁ h hm => ?_
  have hknown := hthis.later h
  split
  · next r es hes =>
    have harray : ρ.HasArray m₁ r := ⟨hknown, es, Built.body_of_elements? hes⟩
    exact .result fun m₂ h₂ => ⟨harray.later h₂, (hm.elements hknown hes).later h₂⟩
  · exact .fail fun _ => rfl

theorem elementText (v : Value) : ρ.Maintains J m Any (Run.elementText v) := by
  unfold Run.elementText
  split
  · exact .any _
  · exact textOf v

theorem joinElements (es : Array Value) (args : List Value) :
    ρ.Maintains J m Any (Run.joinElements es args) := by
  have htexts : ∀ (m₁ : Machine) (separator : Text),
      ρ.Maintains J m₁ Any (do return Text.join separator (← es.toList.mapM Run.elementText)) :=
    fun m₁ separator =>
      (mapList (P := Any) (fun _ v _ _ => elementText v) fun _ _ _ _ _ => trivial).mapAny _
  dsimp only [Run.joinElements]
  split
  · exact htexts m _
  · exact (textOf _).andThen fun m₁ separator _ => htexts m₁ separator

theorem spliceCount (args : List Value) (available : Nat) :
    ρ.Maintains J m Any (Run.spliceCount args available) := by
  unfold Run.spliceCount
  split
  · exact (integerOf _).mapAny _
  · exact .any _

theorem spliceArray {r : Ref} (hr : ρ.HasArray m r) {es : Array Value} (hes : ρ.KnowsAll m es.toList)
    {args : List Value} (hargs : ρ.KnowsAll m args) :
    ρ.Maintains J m ρ.Knows (Run.spliceArray r es args) := by
  refine (position _ _ _).andThen fun m₁ start h => (spliceCount args _).andThen fun m₂ count h₂ => ?_
  have hlater := h.trans h₂
  have hes₂ := hes.later hlater
  have hnew : ρ.KnowsAll m₂ (args.drop 2).toArray.toList :=
    (hargs.later hlater).of_subset (by simpa using List.drop_subset 2 args)
  refine (setElements (hr.later hlater) ?_).andThen
    fun m₃ _ h₃ => .newArray ((hes₂.later h₃).extract _ _)
  exact ((hes₂.extract _ _).joined hnew).joined (hes₂.extract _ _)

theorem concatElements {es : Array Value} (hes : ρ.KnowsAll m es.toList) {args : List Value}
    (hargs : ρ.KnowsAll m args) :
    ρ.Maintains J m (fun m₁ es₁ => ρ.KnowsAll m₁ es₁.toList) (Run.concatElements es args) := by
  refine .look fun m₁ h hm => .result fun m₂ h₂ => KnowsAll.later ?_ h₂
  have hes₁ := hes.later h
  have hargs₁ := hargs.later h
  generalize es = acc at hes₁
  clear hargs
  induction args generalizing acc with
  | nil => exact hes₁
  | cons a args ih =>
    rw [List.foldl_cons]
    refine ih (fun v hv => hargs₁ v (List.mem_cons_of_mem _ hv)) _ ?_
    split
    · next more hmore => exact hes₁.joined (hm.elements (hargs₁ a List.mem_cons_self) hmore)
    · exact hes₁.push (hargs₁ a List.mem_cons_self)

theorem callback {args : List Value} (hargs : ρ.KnowsAll m args) :
    ρ.Maintains J m ρ.Knows (Run.callback args) := by
  refine .look fun m₁ h _ => ?_
  split
  · exact .value ((hargs.later h).getD 0)
  · exact (textOf _).andThen fun _ _ _ => .raise _ _

/-- Elements are exchanged, and a value that is known is the result. -/
theorem changed {r : Ref} (hr : ρ.HasArray m r) {es : Array Value} (hes : ρ.KnowsAll m es.toList)
    {v : Value} (hv : ρ.Knows m v) : ρ.Maintains J m ρ.Knows (do Run.setElements r es; return v) :=
  (setElements hr hes).andThen fun _ _ h => .value (hv.later h)

/-- An element with its place stands among the elements. -/
theorem knows_of_placed {es : Array Value} (hes : ρ.KnowsAll m es.toList) {e : Value × Nat}
    (he : e ∈ Run.placed es) : ρ.Knows m e.1 :=
  hes e.1 (List.fst_mem_of_mem_zipIdx he)

include hev in
/-- A call with an element, its place and the array. -/
theorem callElement {f this : Value} (hf : ρ.Knows m f) (hthis : ρ.Knows m this) {e : Value × Nat}
    (he : ρ.Knows m e.1) : ρ.Maintains J m ρ.Knows (ev.call f .undefined [e.1, ofCount e.2, this]) :=
  hev.call J m _ _ _ hf trivial
    ((((knowsAll_nil ρ m).cons hthis).cons (v := ofCount e.2) trivial).cons he)

include hev in
theorem reduceElements {f this : Value} (hf : ρ.Knows m f) (hthis : ρ.Knows m this) {es : Array Value}
    (hes : ρ.KnowsAll m es.toList) {args : List Value} (hargs : ρ.KnowsAll m args) :
    ρ.Maintains J m ρ.Knows (Run.reduceElements ev.call f this es args) := by
  have hfold : ∀ (items : List (Value × Nat)) (m₁ : Machine) (acc : Value), m.Becomes m₁ →
      (∀ e ∈ items, e ∈ Run.placed es) → ρ.Knows m₁ acc → ρ.Maintains J m₁ ρ.Knows
        (items.foldlM (fun acc e => ev.call f .undefined [acc, e.1, ofCount e.2, this]) acc) := by
    intro items
    induction items with
    | nil => exact fun m₁ acc _ _ hacc => .value hacc
    | cons e items ih =>
      intro m₁ acc h hitems hacc
      have he := knows_of_placed (hes.later h) (hitems e List.mem_cons_self)
      have hcall := hev.call J m₁ f .undefined [acc, e.1, ofCount e.2, this] (hf.later h) trivial
        (((((knowsAll_nil ρ m₁).cons (hthis.later h)).cons (v := ofCount e.2) trivial).cons he).cons hacc)
      exact hcall.bind fun m₂ acc₂ h₂ hacc₂ =>
        ih m₂ acc₂ (h.trans h₂) (fun e he => hitems e (List.mem_cons_of_mem _ he)) hacc₂
  unfold Run.reduceElements
  split
  · next start _ =>
    exact hfold _ m start (.refl m) (fun _ he => he)
      (hargs start (List.mem_cons_of_mem _ List.mem_cons_self))
  · next first items _ hplaced =>
    refine hfold items m first.1 (.refl m) (fun e he => ?_) (knows_of_placed hes ?_)
    · rw [hplaced]
      exact List.mem_cons_of_mem _ he
    · rw [hplaced]
      exact List.mem_cons_self
  · exact .raise _ _

include hev in
theorem mapElements {f this : Value} (hf : ρ.Knows m f) (hthis : ρ.Knows m this) {es : Array Value}
    (hes : ρ.KnowsAll m es.toList) :
    ρ.Maintains J m ρ.KnowsAll (Run.mapElements ev.call f this (Run.placed es)) :=
  mapList (P := ρ.Knows) (fun _ _ h he => callElement hev (hf.later h) (hthis.later h)
    (knows_of_placed (hes.later h) he)) fun _ _ _ h hv => hv.later h

include hev in
theorem filterElements {f this : Value} (hf : ρ.Knows m f) (hthis : ρ.Knows m this) {es : Array Value}
    (hes : ρ.KnowsAll m es.toList) :
    ρ.Maintains J m ρ.KnowsAll (Run.filterElements ev.call f this (Run.placed es)) := by
  have hkept := mapList (J := J) (m := m) (P := fun m₁ (p : Value × Bool) => ρ.Knows m₁ p.1)
    (f := fun e : Value × Nat => do
      return (e.1, toBoolean (← ev.call f .undefined [e.1, ofCount e.2, this])))
    (l := Run.placed es)
    (fun m₁ e h he => by
      have hknown := knows_of_placed (hes.later h) he
      exact (callElement hev (hf.later h) (hthis.later h) hknown).bind fun m₂ v h₂ _ =>
        .result fun m₃ h₃ => hknown.later (h₂.trans h₃))
    fun _ _ _ h hv => hv.later h
  refine hkept.map fun m₁ ps hps v hv => ?_
  obtain ⟨p, hp, rfl⟩ := List.mem_map.mp hv
  exact hps p (List.mem_filter.mp hp).1

include hev in
theorem arrayMethod (method : ArrayMethod) {this : Value} (hthis : ρ.Knows m this) {args : List Value}
    (hargs : ρ.KnowsAll m args) : ρ.Maintains J m ρ.Knows (Run.arrayMethod ev.call method this args) := by
  refine (receiverArray hthis).bind fun m₁ p h hp => ?_
  obtain ⟨r, es⟩ := p
  obtain ⟨hr, hes⟩ : ρ.HasArray m₁ r ∧ ρ.KnowsAll m₁ es.toList := hp
  have hargs₁ : ρ.KnowsAll m₁ args.toArray.toList := by simpa using hargs.later h
  have hcallback : ρ.Maintains J m₁ ρ.Knows (Run.callback args) := callback (hargs.later h)
  cases method with
  | join => exact (joinElements es args).mapValue fun _ => rfl
  | toString => exact (joinElements es args).mapValue fun _ => rfl
  | push => exact changed hr (hes.joined hargs₁) trivial
  | pop =>
    refine changed hr (hes.of_subset ?_) (knows_getD hes _)
    rw [Array.toList_pop]
    exact List.dropLast_subset _
  | shift =>
    refine changed hr (hes.extract _ _) ?_
    rw [Array.getD_eq_getD_getElem?]
    exact knows_getD hes 0
  | unshift => exact changed hr (hargs₁.joined hes) trivial
  | slice =>
    exact (position _ _ _).andThen fun m₂ _ h₂ => (position _ _ _).andThen fun m₃ _ h₃ =>
      .newArray ((hes.later (h₂.trans h₃)).extract _ _)
  | splice => exact spliceArray hr hes (hargs.later h)
  | reverse =>
    refine changed hr (hes.of_subset ?_) (hthis.later h)
    rw [Array.toList_reverse]
    exact List.reverse_subset.mpr fun _ hv => hv
  | indexOf => exact .value (knows_placeNumber _)
  | includes => exact .value trivial
  | concat =>
    exact (concatElements hes (hargs.later h)).bind fun _ _ _ hes₂ => .newArray hes₂
  | map =>
    exact hcallback.bind fun m₂ f h₂ hf => (mapElements hev hf (hthis.later (h.trans h₂))
      (hes.later h₂)).bind fun _ vs _ hvs => .newArray (by simpa using hvs)
  | filter =>
    exact hcallback.bind fun m₂ f h₂ hf => (filterElements hev hf (hthis.later (h.trans h₂))
      (hes.later h₂)).bind fun _ vs _ hvs => .newArray (by simpa using hvs)
  | forEach =>
    exact hcallback.bind fun m₂ f h₂ hf => (mapElements hev hf (hthis.later (h.trans h₂))
      (hes.later h₂)).andThen fun _ _ _ => .value trivial
  | reduce =>
    exact hcallback.bind fun m₂ f h₂ hf => reduceElements hev hf (hthis.later (h.trans h₂))
      (hes.later h₂) (hargs.later (h.trans h₂))

/-! ## Global functions, and methods of other values -/

theorem radixTextOf (x : Float) (base : Int) : ρ.Maintains J m Any (Run.radixTextOf x base) := by
  unfold Run.radixTextOf
  split
  · exact .any _
  · split
    · exact .raise _ _
    · split
      · exact .any _
      · exact .any _

theorem fixedTextOf (this : Value) (args : List Value) :
    ρ.Maintains J m Any (Run.fixedTextOf this args) := by
  refine (integerOf _).andThen fun _ x _ => (countOf x).andThen fun _ places _ => ?_
  split
  · exact .raise _ _
  · refine (numberOf this).andThen fun _ y _ => ?_
    split
    · exact .any _
    · exact .any _

theorem numberMethod (method : NumberMethod) (this : Value) (args : List Value) :
    ρ.Maintains J m ρ.Knows (Run.numberMethod method this args) := by
  have hradix : ∀ (m₁ : Machine) (x : Float) (base : Int),
      ρ.Maintains J m₁ ρ.Knows (do return .string (← Run.radixTextOf x base)) :=
    fun _ x base => (radixTextOf x base).mapValue fun _ => rfl
  cases method with
  | toString =>
    refine (numberOf this).andThen fun _ x _ => ?_
    dsimp only
    split
    · exact (Maintains.any 10).andThen fun _ _ _ => hradix _ _ _
    · exact (integerOf _).andThen fun _ y _ => (countOf y).andThen fun _ _ _ => hradix _ _ _
  | toFixed => exact (fixedTextOf this args).mapValue fun _ => rfl
  | valueOf => exact (numberOf this).mapValue fun _ => rfl

theorem booleanMethod (method : BooleanMethod) {this : Value} (hthis : ρ.Knows m this) :
    ρ.Maintains J m ρ.Knows (Run.booleanMethod method this) := by
  cases method with
  | toString => exact (textOf this).mapValue fun _ => rfl
  | valueOf => exact .value hthis

/-- The arguments that an array holds are known. -/
theorem argumentList {v : Value} (hv : ρ.Knows m v) :
    ρ.Maintains J m ρ.KnowsAll (Run.argumentList v) := by
  unfold Run.argumentList
  split
  · exact .result fun m₁ _ => knowsAll_nil ρ m₁
  · refine .look fun m₁ h hm => ?_
    split
    · next es hes => exact .result fun _ h' => (hm.elements (hv.later h) hes).later h'
    · exact .raise _ _

include hev in
theorem functionMethod (method : FunctionMethod) {this : Value} (hthis : ρ.Knows m this)
    {args : List Value} (hargs : ρ.KnowsAll m args) :
    ρ.Maintains J m ρ.Knows (Run.functionMethod ev.call method this args) := by
  cases method with
  | call => exact hev.call J m _ _ _ hthis (hargs.getD 0) (hargs.of_subset (List.drop_subset 1 args))
  | apply =>
    exact (argumentList (hargs.getD 1)).bind fun m₁ vs h hvs =>
      hev.call J m₁ _ _ _ (hthis.later h) ((hargs.later h).getD 0) hvs

/-- Numbers of some values. -/
theorem numbers (vs : List Value) : ρ.Maintains J m Any (vs.mapM Run.numberOf) :=
  (mapList (P := Any) (fun _ v _ _ => numberOf v) fun _ _ _ _ _ => trivial).toAny

theorem mathFunction (f : MathFunction) (args : List Value) :
    ρ.Maintains J m ρ.Knows (Run.mathFunction f args) := by
  unfold Run.mathFunction
  split
  · exact (numbers args).mapValue fun _ => rfl
  · exact (numbers args).mapValue fun _ => rfl
  · exact (numberOf _).andThen fun _ _ _ => (numberOf _).mapValue fun _ => rfl
  · exact (numberOf _).mapValue fun _ => rfl

theorem parseWhole (args : List Value) : ρ.Maintains J m ρ.Knows (Run.parseWhole args) := by
  refine (textOf _).andThen fun _ t _ => (reading fun _ => .toInt32 (List.mem_singleton_self _) _).andThen fun _ base _ => ?_
  split
  · exact .value trivial
  · exact .halt rfl fun _ => trivial

/-- A text that is read, or an error. -/
theorem decoded (v : Value) (decode : Text → Option Text) (kind : String) (message : Text) :
    ρ.Maintains J m ρ.Knows (do
      match decode (← Run.textOf v) with
      | some t => return .string t
      | none => Run.raise kind message) := by
  refine (textOf v).andThen fun _ t _ => ?_
  split
  · exact .value trivial
  · exact .raise _ _

theorem globalFunction (f : GlobalFunction) (args : List Value) :
    ρ.Maintains J m ρ.Knows (Run.globalFunction f args) := by
  cases f with
  | string =>
    cases args with
    | nil => exact .value trivial
    | cons v _ => exact (textOf v).mapValue fun _ => rfl
  | fromCharCode =>
    exact (mapList (P := Any) (fun _ v _ _ => (reading fun _ => .toUint32 (List.mem_singleton_self _) v).mapAny _)
      fun _ _ _ _ _ => trivial).mapValue fun _ => rfl
  | number =>
    cases args with
    | nil => exact .value trivial
    | cons v _ => exact (numberOf v).mapValue fun _ => rfl
  | boolean => exact .value trivial
  | parseInt => exact parseWhole args
  | parseFloat => exact (textOf _).mapValue fun _ => rfl
  | isNaN => exact (numberOf _).mapValue fun _ => rfl
  | isFinite => exact (numberOf _).mapValue fun _ => rfl
  | escape => exact (textOf _).mapValue fun _ => rfl
  | unescape => exact (textOf _).mapValue fun _ => rfl
  | encodeURIComponent =>
    refine (textOf _).andThen fun _ t _ => ?_
    split
    · exact .value trivial
    · exact .halt rfl fun _ => trivial
  | decodeURIComponent => exact decoded _ _ _ _
  | atob => exact decoded _ _ _ _
  | btoa => exact decoded _ _ _ _

include hev in
/-- Built-in functions leave a complete store, and give values that it knows. -/
theorem applyNative (fn : Native) {this : Value} (hthis : ρ.Knows m this) {args : List Value}
    (hargs : ρ.KnowsAll m args) : ρ.Maintains J m ρ.Knows (Run.applyNative ev.call fn this args) := by
  cases fn with
  | string method => exact stringMethod hev method this hargs
  | number method => exact numberMethod method this args
  | boolean method => exact booleanMethod method hthis
  | array method => exact arrayMethod hev method hthis hargs
  | function method => exact functionMethod hev method hthis hargs
  | hasOwnProperty => exact hasOwn this args
  | math f => exact mathFunction f args
  | «global» f => exact globalFunction f args

end Maintains

end Realm

end Untangle.Sandbox
