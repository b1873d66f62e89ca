import Untangle.Proofs.Number.Sign
import Untangle.Proofs.Sandbox.Structure

set_option autoImplicit false

/-!
# Equality is symmetric

A loose comparison goes on with converted operands, and the two orders of the operands take different
branches.  Here both the comparison and the conversion of arrays that it asks for are relations without a
bound on their steps: what they relate has come to an end.  Every comparison of values that are no arrays
inside of themselves has an outcome, the same one in both orders, and the comparison of the sandbox gives it.

The main theorem is `looseEquals_symm`.  Values that are arrays inside of themselves are left out: their
conversion does not end, which the sandbox reports as a limit.
-/

namespace Untangle

/-! ## Numbers -/

namespace Binary64

open Float.Model Float.Model.UnpackedFloat

theorem swap_compare (u v : UnpackedFloat) : (u.compare v).map Ordering.swap = v.compare u := by
  cases u with
  | notANumber => cases v <;> rfl
  | zero s =>
    cases v with
    | finite t => cases t <;> rfl
    | infinity t => cases t <;> rfl
    | _ => rfl
  | infinity s =>
    cases v with
    | infinity t => cases s <;> cases t <;> rfl
    | _ => cases s <;> rfl
  | finite s m e he =>
    cases v with
    | finite t n k hk =>
      have hmagnitude : ((compare e k).then (compare m n)).swap = (compare k e).then (compare n m) := by
        rw [Ordering.swap_then, ← Std.OrientedOrd.eq_swap, ← Std.OrientedOrd.eq_swap]
      cases s <;> cases t
      · exact congrArg (fun o => some (Ordering.swap o)) hmagnitude
      · rfl
      · rfl
      · exact congrArg some hmagnitude
    | infinity t => cases s <;> cases t <;> rfl
    | _ => cases s <;> rfl

theorem beq_comm (x y : Float) : (x == y) = (y == x) := by
  show (x.toModel.unpack.compare y.toModel.unpack == some .eq) =
    (y.toModel.unpack.compare x.toModel.unpack == some .eq)
  rw [← swap_compare x.toModel.unpack]
  cases x.toModel.unpack.compare y.toModel.unpack with
  | none => rfl
  | some o => cases o <;> rfl

end Binary64

namespace Sandbox

theorem strictEquals_comm (v w : Value) : strictEquals v w = strictEquals w v := by
  cases v <;> cases w <;> first | rfl | exact Binary64.beq_comm _ _ | exact BEq.comm

theorem kind_of_strictEquals {v w : Value} (h : strictEquals v w = true) : v.kind = w.kind := by
  cases v <;> cases w <;> first | rfl | cases h

/-! ## Arrays inside of arrays -/

/-- A value is an element of an array. -/
def ElementOf (h : Heap) (v w : Value) : Prop :=
  ∃ r es, v = .object r ∧ (h.getD r default).body = .array es ∧ w ∈ es.toList

/-- An array that contains itself is a value, or an element of its elements. -/
def ArrayCycle (h : Heap) (v : Value) : Prop :=
  ∃ w, Relation.ReflTransGen (ElementOf h) v w ∧ Relation.TransGen (ElementOf h) w w

theorem ElementOf.partOf {h : Heap} {v w : Value} (hw : ElementOf h v w) : PartOf h v w := by
  obtain ⟨r, es, rfl, hbody, hw⟩ := hw
  exact ⟨r, rfl, by simpa only [Cell.parts, hbody] using hw⟩

/-- A cycle that can be reached from an array can be reached from one of its elements. -/
theorem ArrayCycle.element {h : Heap} {v : Value} (hv : ArrayCycle h v) :
    ∃ w, ElementOf h v w ∧ ArrayCycle h w := by
  obtain ⟨w, hinside, hcycle⟩ := hv
  cases hinside.cases_head with
  | inl hself =>
    subst hself
    obtain ⟨u, hu, hback⟩ := Relation.TransGen.head'_iff.mp hcycle
    exact ⟨u, hu, v, hback, hcycle⟩
  | inr hhead =>
    obtain ⟨u, hu, hrest⟩ := hhead
    exact ⟨u, hu, w, hrest, hcycle⟩

theorem not_arrayCycle_of_isObject {h : Heap} {v : Value} (hv : v.isObject = false) :
    ¬ ArrayCycle h v := by
  intro hcycle
  obtain ⟨w, ⟨r, es, rfl, -, -⟩, -⟩ := hcycle.element
  cases hv

/-! ## Conversions that end -/

mutual

/-- The conversion of a value to a primitive one ends, and how. -/
inductive Converts (h : Heap) : Value → Conv Value → Prop
  | primitive {v : Value} : v.isObject = false → Converts h v (.ok v)
  | plain {r : Ref} : (h.getD r default).body = .plain →
      Converts h (.object r) (.ok (.string "[object Object]"))
  | function {r : Ref} : h.isCallable (.object r) = true →
      Converts h (.object r) (.error (.failure .functionAsPrimitive))
  | array {r : Ref} {es : Array Value} {o : Conv (List Text)} : (h.getD r default).body = .array es →
      ElementsConvert h es.toList o →
      Converts h (.object r) (o.map fun texts => .string (Text.join "," texts))

/-- The elements of an array are converted to texts one after the other, up to the first failure. -/
inductive ElementsConvert (h : Heap) : List Value → Conv (List Text) → Prop
  | nil : ElementsConvert h [] (.ok [])
  | missing {v : Value} {vs : List Value} {o : Conv (List Text)} : v.isNullish = true →
      ElementsConvert h vs o → ElementsConvert h (v :: vs) (o.map ([] :: ·))
  | cons {v p : Value} {vs : List Value} {o : Conv (List Text)} : v.isNullish = false →
      Converts h v (.ok p) → ElementsConvert h vs o →
      ElementsConvert h (v :: vs) (o.map (primitiveText p :: ·))
  | failed {v : Value} {vs : List Value} {e : Abrupt} : v.isNullish = false →
      Converts h v (.error e) → ElementsConvert h (v :: vs) (.error e)

end

section

variable {h : Heap}

mutual

/-- A conversion ends in one way only. -/
theorem Converts.unique {v : Value} {o o' : Conv Value} : Converts h v o → Converts h v o' → o = o'
  | .primitive hv, hconverts => by
    cases hconverts with
    | primitive => rfl
    | _ => cases hv
  | .plain hbody, hconverts => by
    cases hconverts with
    | primitive hv => cases hv
    | plain => rfl
    | function hcallable => simp only [Heap.isCallable, hbody, Bool.false_eq_true] at hcallable
    | array hbody' => cases hbody.symm.trans hbody'
  | .function hcallable, hconverts => by
    cases hconverts with
    | primitive hv => cases hv
    | plain hbody => simp only [Heap.isCallable, hbody, Bool.false_eq_true] at hcallable
    | function => rfl
    | array hbody => simp only [Heap.isCallable, hbody, Bool.false_eq_true] at hcallable
  | .array hbody hes, hconverts => by
    cases hconverts with
    | primitive hv => cases hv
    | plain hbody' => cases hbody.symm.trans hbody'
    | function hcallable => simp only [Heap.isCallable, hbody, Bool.false_eq_true] at hcallable
    | array hbody' hes' =>
      cases hbody.symm.trans hbody'
      rw [hes.unique hes']

theorem ElementsConvert.unique {vs : List Value} {o o' : Conv (List Text)} :
    ElementsConvert h vs o → ElementsConvert h vs o' → o = o'
  | .nil, .nil => rfl
  | .missing hv hvs, hconvert => by
    cases hconvert with
    | missing _ hvs' => rw [hvs.unique hvs']
    | cons hv' => simp [hv] at hv'
    | failed hv' => simp [hv] at hv'
  | .cons hv hp hvs, hconvert => by
    cases hconvert with
    | missing hv' => simp [hv] at hv'
    | cons _ hp' hvs' =>
      cases hp.unique hp'
      rw [hvs.unique hvs']
    | failed _ he => cases hp.unique he
  | .failed hv he, hconvert => by
    cases hconvert with
    | missing hv' => simp [hv] at hv'
    | cons _ hp' => cases he.unique hp'
    | failed _ he' =>
      cases he.unique he'
      rfl

end

/-- An object is converted to a text. -/
theorem Converts.text {r : Ref} {p : Value} (hconverts : Converts h (.object r) (.ok p)) :
    ∃ t, p = .string t := by
  generalize ho : Except.ok p = o at hconverts
  cases hconverts with
  | primitive hv => cases hv
  | plain =>
    cases ho
    exact ⟨_, rfl⟩
  | function => cases ho
  | @array _ _ o _ hes =>
    cases o with
    | ok texts =>
      cases ho
      exact ⟨_, rfl⟩
    | error e => cases ho

mutual

/-- A conversion that ends has not run into the bound on its depth. -/
theorem Converts.not_nesting {v : Value} {o : Conv Value} :
    Converts h v o → o ≠ .error (.limit .nesting)
  | .primitive _ => nofun
  | .plain _ => nofun
  | .function _ => nofun
  | @Converts.array _ _ _ o _ hes => by
    have ho := hes.not_nesting
    cases o with
    | ok texts => nofun
    | error e => exact fun h => ho (congrArg Except.error (Except.error.inj h))

theorem ElementsConvert.not_nesting {vs : List Value} {o : Conv (List Text)} :
    ElementsConvert h vs o → o ≠ .error (.limit .nesting)
  | .nil => nofun
  | @ElementsConvert.missing _ _ _ o _ hvs => by
    have ho := hvs.not_nesting
    cases o with
    | ok texts => nofun
    | error e => exact fun h => ho (congrArg Except.error (Except.error.inj h))
  | @ElementsConvert.cons _ _ _ _ o _ _ hvs => by
    have ho := hvs.not_nesting
    cases o with
    | ok texts => nofun
    | error e => exact fun h => ho (congrArg Except.error (Except.error.inj h))
  | .failed _ hv => fun h => hv.not_nesting (congrArg Except.error (Except.error.inj h))

end

/-! ## Arrays that do not contain themselves -/

/-- Arrays inside of a value stand in each other so many times. -/
def Nested (h : Heap) (depth : Nat) (v : Value) : Prop :=
  ∃ s : Nat → Value, s 0 = v ∧ ∀ i < depth, ElementOf h (s i) (s (i + 1))

theorem Nested.of_element {depth : Nat} {v w : Value} (hw : Nested h depth w) (helement : ElementOf h v w) :
    Nested h (depth + 1) v := by
  obtain ⟨s, rfl, hs⟩ := hw
  refine ⟨fun i => i.casesOn v s, rfl, fun i hi => ?_⟩
  cases i with
  | zero => exact helement
  | succ i => exact hs i (by omega)

/-- Arrays that stand in each other more often than there are objects contain themselves. -/
theorem Nested.arrayCycle {depth : Nat} {v : Value} (hv : Nested h depth v) (hdepth : h.size < depth) :
    ArrayCycle h v := by
  obtain ⟨s, rfl, hs⟩ := hv
  exact cycle_of_chain (fun _ _ hw => hw.partOf.exists_lt) hs hdepth

theorem elementsConvert_or_nested {fuel : Nat}
    (ih : ∀ v, Converts h v (toPrimitiveGo h fuel v) ∨ Nested h fuel v) (vs : List Value) :
    ElementsConvert h vs (elementTexts h fuel vs) ∨ ∃ v ∈ vs, Nested h fuel v := by
  induction vs with
  | nil =>
    rw [elementTexts]
    exact .inl .nil
  | cons v vs ihs =>
    rcases ihs with hvs | ⟨w, hw, hnested⟩
    · unfold elementTexts
      have hprimitive : v.isObject = false → v.isNullish = false →
          ElementsConvert h (v :: vs) ((elementTexts h fuel vs).map (primitiveText v :: ·)) :=
        fun hobject hnullish => .cons hnullish (.primitive hobject) hvs
      cases v with
      | undefined => exact .inl (.missing rfl hvs)
      | null => exact .inl (.missing rfl hvs)
      | bool b => exact .inl (hprimitive rfl rfl)
      | number x => exact .inl (hprimitive rfl rfl)
      | string t => exact .inl (hprimitive rfl rfl)
      | object r =>
        rcases ih (.object r) with hv | hnested
        · refine .inl ?_
          cases hp : toPrimitiveGo h fuel (.object r) with
          | ok p =>
            rw [hp] at hv
            exact .cons rfl hv hvs
          | error e =>
            rw [hp] at hv
            exact .failed rfl hv
        · exact .inr ⟨_, List.mem_cons_self, hnested⟩
    · exact .inr ⟨w, List.mem_cons_of_mem v hw, hnested⟩

theorem converts_or_nested (fuel : Nat) (v : Value) :
    Converts h v (toPrimitiveGo h fuel v) ∨ Nested h fuel v := by
  induction fuel generalizing v with
  | zero => exact .inr ⟨fun _ => v, rfl, fun i hi => absurd hi (Nat.not_lt_zero i)⟩
  | succ fuel ih =>
    unfold toPrimitiveGo
    cases v with
    | object r =>
      simp only
      cases hbody : (h.getD r default).body with
      | plain => exact .inl (.plain hbody)
      | closure code scopes name => exact .inl (.function (by simp only [Heap.isCallable, hbody]))
      | native fn => exact .inl (.function (by simp only [Heap.isCallable, hbody]))
      | array es =>
        rcases elementsConvert_or_nested ih es.toList with hes | ⟨w, hw, hnested⟩
        · exact .inl (.array hbody hes)
        · exact .inr (hnested.of_element ⟨r, es, rfl, hbody, hw⟩)
    | _ => exact .inl (.primitive rfl)

/-- A value that is no array inside of itself is converted, and the bound on the depth changes nothing. -/
theorem converts_toPrimitive {v : Value} (hv : ¬ ArrayCycle h v) : Converts h v (toPrimitive h v) := by
  rcases converts_or_nested (nestingBound h) v with hconverts | hnested
  · exact hconverts
  · exact absurd (hnested.arrayCycle (by unfold nestingBound; omega)) hv

end

/-! ## Comparisons that end -/

/-- A text, or a number. -/
@[grind]
def Kind.isScalar : Kind → Bool
  | .number | .string => true
  | .undefined | .null | .boolean | .object => false

/-- No value, as `undefined` and `null` are. -/
@[grind]
def Kind.isNullish : Kind → Bool
  | .undefined | .null => true
  | .boolean | .number | .string | .object => false

@[grind →]
theorem Kind.isNullish_of_isScalar {k : Kind} (hk : k.isScalar = true) : k.isNullish = false := by
  cases k <;> first | rfl | cases hk

/-- A loose comparison ends, and how. -/
inductive Compares (h : Heap) : Value → Value → Conv Bool → Prop
  | sameKind {v w : Value} : v.kind = w.kind → Compares h v w (.ok (strictEquals v w))
  | undefinedNull : Compares h .undefined .null (.ok true)
  | nullUndefined : Compares h .null .undefined (.ok true)
  | numberText {x : Float} {t : Text} :
      Compares h (.number x) (.string t) ((textToNumber t).map fun y => x == y)
  | textNumber {t : Text} {y : Float} :
      Compares h (.string t) (.number y) ((textToNumber t).map fun x => x == y)
  | boolLeft {b : Bool} {w : Value} {o : Conv Bool} : w.kind ≠ .boolean →
      Compares h (.number (if b then 1.0 else 0.0)) w o → Compares h (.bool b) w o
  | boolRight {v : Value} {b : Bool} {o : Conv Bool} : v.kind ≠ .boolean →
      Compares h v (.number (if b then 1.0 else 0.0)) o → Compares h v (.bool b) o
  | objectLeft {r : Ref} {w p : Value} {o : Conv Bool} : w.kind.isScalar = true →
      Converts h (.object r) (.ok p) → Compares h p w o → Compares h (.object r) w o
  | objectLeftFails {r : Ref} {w : Value} {e : Abrupt} : w.kind.isScalar = true →
      Converts h (.object r) (.error e) → Compares h (.object r) w (.error e)
  | objectRight {v p : Value} {r : Ref} {o : Conv Bool} : v.kind.isScalar = true →
      Converts h (.object r) (.ok p) → Compares h v p o → Compares h v (.object r) o
  | objectRightFails {v : Value} {r : Ref} {e : Abrupt} : v.kind.isScalar = true →
      Converts h (.object r) (.error e) → Compares h v (.object r) (.error e)
  | nullishLeft {v w : Value} : v.kind.isNullish = true → w.kind.isNullish = false →
      w.kind ≠ .boolean → Compares h v w (.ok false)
  | nullishRight {v w : Value} : v.kind.isNullish = false → v.kind ≠ .boolean →
      w.kind.isNullish = true → Compares h v w (.ok false)

section

variable {h : Heap} {v w : Value} {o : Conv Bool}

/-- What a comparison comes to in one order of its operands, it comes to in the other one. -/
theorem Compares.symm (hcompares : Compares h v w o) : Compares h w v o := by
  induction hcompares with
  | sameKind hkind => exact strictEquals_comm _ _ ▸ .sameKind hkind.symm
  | undefinedNull => exact .nullUndefined
  | nullUndefined => exact .undefinedNull
  | @numberText x t =>
    rw [funext (Binary64.beq_comm x)]
    exact .textNumber
  | @textNumber t y =>
    rw [← funext (Binary64.beq_comm y)]
    exact .numberText
  | boolLeft hkind _ ih => exact .boolRight hkind ih
  | boolRight hkind _ ih => exact .boolLeft hkind ih
  | objectLeft hkind hp _ ih => exact .objectRight hkind hp ih
  | objectLeftFails hkind hp => exact .objectRightFails hkind hp
  | objectRight hkind hp _ ih => exact .objectLeft hkind hp ih
  | objectRightFails hkind hp => exact .objectLeftFails hkind hp
  | nullishLeft hv hw hkind => exact .nullishRight hw hkind hv
  | nullishRight hv hkind hw => exact .nullishLeft hw hv hkind

/-- A comparison comes to one thing only. -/
theorem Compares.unique {o' : Conv Bool} (hcompares : Compares h v w o) (hcompares' : Compares h v w o') :
    o = o' := by
  -- The kinds of the operands decide which rule applies, except that the conversion of an object may fail or not.
  induction hcompares with
  | objectLeft hkind hp _ ih =>
    cases hcompares' with
    | objectLeft _ hp' hrest =>
      cases hp.unique hp'
      exact ih hrest
    | objectLeftFails _ he => cases hp.unique he
    | _ => grind [Value.kind]
  | objectLeftFails hkind he =>
    cases hcompares' with
    | objectLeft _ hp => cases he.unique hp
    | objectLeftFails _ he' =>
      cases he.unique he'
      rfl
    | _ => grind [Value.kind]
  | objectRight hkind hp _ ih =>
    cases hcompares' with
    | objectRight _ hp' hrest =>
      cases hp.unique hp'
      exact ih hrest
    | objectRightFails _ he => cases hp.unique he
    | _ => grind [Value.kind]
  | objectRightFails hkind he =>
    cases hcompares' with
    | objectRight _ hp => cases he.unique hp
    | objectRightFails _ he' =>
      cases he.unique he'
      rfl
    | _ => grind [Value.kind]
  | _ => cases hcompares' <;> grind [Value.kind]

theorem textToNumber_ne_nesting (t : Text) : textToNumber t ≠ .error (.limit .nesting) := by
  unfold textToNumber
  split <;> nofun

/-- A comparison that ends has not run into the bound on the depth of conversions. -/
theorem Compares.not_nesting (hcompares : Compares h v w o) : o ≠ .error (.limit .nesting) := by
  have hread : ∀ (t : Text) (f : Float → Bool), (textToNumber t).map f ≠ .error (.limit .nesting) := by
    intro t f hmap
    cases ht : textToNumber t with
    | ok x => simp [ht, Except.map] at hmap
    | error e =>
      rw [ht] at hmap
      exact textToNumber_ne_nesting t (ht.trans (congrArg Except.error (Except.error.inj hmap)))
  induction hcompares with
  | numberText => exact hread _ _
  | textNumber => exact hread _ _
  | boolLeft _ _ ih => exact ih
  | boolRight _ _ ih => exact ih
  | objectLeft _ _ _ ih => exact ih
  | objectRight _ _ _ ih => exact ih
  | objectLeftFails _ he => exact fun heq => he.not_nesting (congrArg Except.error (Except.error.inj heq))
  | objectRightFails _ he => exact fun heq => he.not_nesting (congrArg Except.error (Except.error.inj heq))
  | _ => nofun

/-- How many conversions a value takes until it is a text, a number or none of these. -/
def Value.conversions : Value → Nat
  | .undefined | .null | .number _ | .string _ => 0
  | .bool _ => 1
  | .object _ => 2

/-- An object is compared with a text or a number as the text that it is converted to. -/
theorem compares_object {r : Ref} {compare : Value → Conv Bool} (hr : ¬ ArrayCycle h (.object r))
    (hkind : w.kind.isScalar = true) (hcompare : ∀ t, Compares h (.string t) w (compare (.string t))) :
    Compares h (.object r) w (toPrimitive h (.object r) >>= compare) := by
  have hconverts := converts_toPrimitive hr
  cases hp : toPrimitive h (.object r) with
  | ok p =>
    rw [hp] at hconverts
    obtain ⟨t, rfl⟩ := hconverts.text
    exact .objectLeft hkind hconverts (hcompare t)
  | error e =>
    rw [hp] at hconverts
    exact .objectLeftFails hkind hconverts

theorem Value.conversions_le (v : Value) : v.conversions ≤ 2 := by
  cases v <;> simp [conversions]

theorem compares_looseEqualsGo (hv : ¬ ArrayCycle h v) (hw : ¬ ArrayCycle h w) {fuel : Nat}
    (hfuel : v.conversions + w.conversions < fuel) : Compares h v w (looseEqualsGo h fuel v w) := by
  induction fuel generalizing v w with
  | zero => omega
  | succ fuel ih =>
    unfold looseEqualsGo
    split
    · next hkind => exact .sameKind (beq_iff_eq.mp hkind)
    · next hkind =>
      split
      · exact .undefinedNull
      · exact .nullUndefined
      · exact .numberText
      · exact .textNumber
      · next b =>
        have hnumber : ¬ ArrayCycle h (.number (if b then 1.0 else 0.0)) := not_arrayCycle_of_isObject rfl
        refine .boolLeft (fun heq => hkind (beq_iff_eq.mpr heq.symm)) (ih hnumber hw ?_)
        simp only [Value.conversions] at hfuel ⊢
        omega
      · next b _ =>
        have hnumber : ¬ ArrayCycle h (.number (if b then 1.0 else 0.0)) := not_arrayCycle_of_isObject rfl
        refine .boolRight (fun heq => hkind (beq_iff_eq.mpr heq)) (ih hv hnumber ?_)
        simp only [Value.conversions] at hfuel ⊢
        omega
      · exact compares_object hv rfl fun t => ih (not_arrayCycle_of_isObject rfl) hw (by
          simp only [Value.conversions] at hfuel ⊢
          omega)
      · exact compares_object hv rfl fun t => ih (not_arrayCycle_of_isObject rfl) hw (by
          simp only [Value.conversions] at hfuel ⊢
          omega)
      · exact (compares_object hw rfl fun t => (ih hv (not_arrayCycle_of_isObject rfl) (by
          simp only [Value.conversions] at hfuel ⊢
          omega)).symm).symm
      · exact (compares_object hw rfl fun t => (ih hv (not_arrayCycle_of_isObject rfl) (by
          simp only [Value.conversions] at hfuel ⊢
          omega)).symm).symm
      -- Exactly one of the two is `undefined` or `null` then.
      · next hbool hbool' _ _ _ _ _ _ _ _ =>
        cases v <;> cases w <;> first
          | exact absurd rfl hkind
          | exact absurd rfl (hbool _)
          | exact absurd rfl (hbool' _)
          | exact .nullishLeft rfl rfl (by simp [Value.kind])
          | exact .nullishRight rfl (by simp [Value.kind]) rfl
          | simp_all

/-- Loose equality is symmetric.  Values that are no arrays inside of themselves are compared in finitely many
steps, and with the same outcome in both orders, a failure or a truth value; strict equality is symmetric too,
and values that are strictly equal are loosely equal. -/
theorem looseEquals_symm (hv : ¬ ArrayCycle h v) (hw : ¬ ArrayCycle h w) :
    Compares h v w (looseEquals h v w) ∧ looseEquals h w v = looseEquals h v w ∧
      looseEquals h v w ≠ .error (.limit .nesting) ∧
      (strictEquals v w = true → strictEquals w v = true ∧ looseEquals h v w = .ok true) := by
  have hbound : ∀ u u' : Value, u.conversions + u'.conversions < 5 := by
    intro u u'
    have hu := u.conversions_le
    have hu' := u'.conversions_le
    omega
  have hleft : Compares h v w (looseEquals h v w) := compares_looseEqualsGo hv hw (hbound v w)
  have hright : Compares h w v (looseEquals h w v) := compares_looseEqualsGo hw hv (hbound w v)
  refine ⟨hleft, hright.unique hleft.symm, hleft.not_nesting, fun hstrict => ⟨?_, ?_⟩⟩
  · rwa [strictEquals_comm]
  · rw [hleft.unique (.sameKind (kind_of_strictEquals hstrict)), hstrict]

end

/-- A store with an array whose only element is an array of a text. -/
def nestedArrays : Heap :=
  #[⟨.array #[.object 1], .empty⟩, ⟨.array #[.string "a"], .empty⟩]

theorem not_arrayCycle_nestedArrays : ¬ ArrayCycle nestedArrays (.object 0) := by
  have hinner : ¬ ArrayCycle nestedArrays (.object 1) := by
    intro hcycle
    obtain ⟨w, ⟨r, es, hr, hbody, hw⟩, hrest⟩ := hcycle.element
    cases hr
    cases hbody
    cases List.mem_singleton.mp hw
    exact not_arrayCycle_of_isObject rfl hrest
  intro hcycle
  obtain ⟨w, ⟨r, es, hr, hbody, hw⟩, hrest⟩ := hcycle.element
  cases hr
  cases hbody
  cases List.mem_singleton.mp hw
  exact hinner hrest

/-- A text and an array inside of an array that is converted to it are equal in both orders. -/
theorem looseEquals_nestedArrays :
    ¬ ArrayCycle nestedArrays (.object 0) ∧ ¬ ArrayCycle nestedArrays (.string "a") ∧
      Compares nestedArrays (.object 0) (.string "a") (.ok true) ∧
      looseEquals nestedArrays (.string "a") (.object 0) = .ok true := by
  have houter : ¬ ArrayCycle nestedArrays (.string "a") := not_arrayCycle_of_isObject rfl
  have hinner : Converts nestedArrays (.object 1) (.ok (.string "a")) :=
    .array (o := .ok ["a"]) rfl (.cons (o := .ok []) rfl (.primitive rfl) .nil)
  have hconverts : Converts nestedArrays (.object 0) (.ok (.string "a")) :=
    .array (o := .ok ["a"]) rfl (.cons (o := .ok []) rfl hinner .nil)
  have hequal : Compares nestedArrays (.object 0) (.string "a") (.ok true) :=
    .objectLeft rfl hconverts (.sameKind rfl)
  obtain ⟨hcompares, hsymm, -, -⟩ := looseEquals_symm not_arrayCycle_nestedArrays houter
  exact ⟨not_arrayCycle_nestedArrays, houter, hequal, hsymm.trans (hcompares.unique hequal)⟩

end Sandbox

end Untangle
