import Mathlib.Tactic.NormNum
import Mathlib.Tactic.Ring
import Untangle.Number.Layout
import Untangle.Number.Reading
import Untangle.Proofs.Text.Digits

set_option autoImplicit false

/-!
# Numerals

A numeral has digits, maybe a point with more digits, and maybe an exponent with a sign and digits.  It stands for
a fraction, which its text alone determines.  Reading a numeral as a number takes its digits and its exponent from
it and leaves nothing over.
-/

namespace Untangle.Number

/-! ## Numerals -/

/-- Digits, digits after a point, if there are any, and an exponent with its sign, true for a minus, and digits. -/
structure Numeral where
  whole : Text
  fraction : Text
  power : Option (Bool × Text)

namespace Numeral

/-- All digits apart from those of the exponent. -/
def digits (n : Numeral) : Text := n.whole ++ n.fraction

/-- The exponent, or zero. -/
def exponent (n : Numeral) : Int :=
  match n.power with
  | none => 0
  | some (negative, ds) => if negative then -(Text.decimalNumber ds : Int) else Text.decimalNumber ds

/-- The fraction that a numeral stands for. -/
def value (n : Numeral) : ℚ := Text.decimalNumber n.digits * 10 ^ (n.exponent - n.fraction.length)

/-- The point and what follows up to the exponent. -/
def pointText (n : Numeral) : Text := if n.fraction = [] then [] else 0x2E :: n.fraction

/-- The exponent with its mark. -/
def powerText (n : Numeral) : Text :=
  match n.power with
  | none => []
  | some (negative, ds) => 0x65 :: (if negative then 0x2D else 0x2B) :: ds

/-- The text of a numeral. -/
def text (n : Numeral) : Text := n.whole ++ n.pointText ++ n.powerText

/-- There are digits before the point and in the exponent. -/
structure WellFormed (n : Numeral) : Prop where
  whole : Text.AllDigits n.whole
  begins : n.whole ≠ []
  fraction : Text.AllDigits n.fraction
  power : ∀ p ∈ n.power, Text.AllDigits p.2 ∧ p.2 ≠ []

section

variable {n : Numeral}

/-- The characters of numerals. -/
theorem mem_text (hn : n.WellFormed) {c : CodePoint} (hc : c ∈ n.text) :
    Text.isAsciiDigit c = true ∨ c = 0x2E ∨ c = 0x65 ∨ c = 0x2D ∨ c = 0x2B := by
  obtain hc | hc := List.mem_append.mp hc
  · obtain hc | hc := List.mem_append.mp hc
    · exact .inl (hn.whole c hc)
    · unfold pointText at hc
      split at hc
      · cases hc
      · obtain rfl | hc := List.mem_cons.mp hc
        · exact .inr (.inl rfl)
        · exact .inl (hn.fraction c hc)
  · unfold powerText at hc
    split at hc
    · cases hc
    · next negative ds hpower =>
      obtain rfl | hc := List.mem_cons.mp hc
      · exact .inr (.inr (.inl rfl))
      · obtain rfl | hc := List.mem_cons.mp hc
        · cases negative
          · exact .inr (.inr (.inr (.inr rfl)))
          · exact .inr (.inr (.inr (.inl rfl)))
        · exact .inl ((hn.power _ hpower).1 c hc)

/-- A numeral begins with a digit, which no sign follows. -/
theorem exists_head (hn : n.WellFormed) :
    ∃ c r, n.text = c :: r ∧ Text.isAsciiDigit c = true ∧
      ∀ d ∈ r.head?, Text.isAsciiDigit d = true ∨ d = 0x2E ∨ d = 0x65 := by
  obtain ⟨c, w, hw⟩ := List.exists_cons_of_ne_nil hn.begins
  refine ⟨c, w ++ n.pointText ++ n.powerText, by rw [text, hw]; rfl, hn.whole c (by rw [hw]; simp), ?_⟩
  intro d hd
  cases w with
  | cons e w =>
    cases hd
    exact .inl (hn.whole d (by rw [hw]; simp))
  | nil =>
    unfold pointText powerText at hd
    split at hd
    · split at hd
      · cases hd
      · cases hd
        exact .inr (.inr rfl)
    · cases hd
      exact .inr (.inl rfl)

/-! ## Reading numerals -/

theorem spanDigits_append {isDigit : CodePoint → Bool} {ds r : Text} (hds : ∀ c ∈ ds, isDigit c = true)
    (hr : ∀ c ∈ r.head?, isDigit c = false) : spanDigits isDigit (ds ++ r) = (ds, r) := by
  have hrest : r.takeWhile isDigit = [] ∧ r.dropWhile isDigit = r := by
    cases r with
    | nil => exact ⟨rfl, rfl⟩
    | cons c r =>
      have hc := hr c rfl
      exact ⟨List.takeWhile_cons_of_neg (by simp [hc]), List.dropWhile_cons_of_neg (by simp [hc])⟩
  rw [spanDigits, List.takeWhile_append_of_pos hds, List.dropWhile_append_of_pos hds, hrest.1, hrest.2,
    List.append_nil]

theorem isDecimal_of_allDigits {t : Text} (ht : Text.AllDigits t) : ∀ c ∈ t, Text.isDecimal c = true :=
  fun c hc => Text.isDecimal_of_isAsciiDigit (ht c hc)

theorem spanDigits_powerText (ht : Text.AllDigits n.fraction) :
    spanDigits Text.isDecimal (n.fraction ++ n.powerText) = (n.fraction, n.powerText) := by
  refine spanDigits_append (isDecimal_of_allDigits ht) fun c hc => ?_
  unfold powerText at hc
  split at hc
  · cases hc
  · cases hc
    rfl

theorem spanDigits_text (hn : n.WellFormed) :
    spanDigits Text.isDecimal n.text = (n.whole, n.pointText ++ n.powerText) := by
  rw [text, List.append_assoc]
  refine spanDigits_append (isDecimal_of_allDigits hn.whole) fun c hc => ?_
  unfold pointText powerText at hc
  split at hc
  · split at hc
    · cases hc
    · cases hc
      rfl
  · cases hc
    rfl

/-- The digits after a point, and what follows. -/
def afterPoint (isDigit : CodePoint → Bool) (t : Text) : Text × Text :=
  match t with
  | 0x2E :: r => spanDigits isDigit r
  | _ => ([], t)

theorem afterPoint_text (hn : n.WellFormed) :
    afterPoint Text.isDecimal (n.pointText ++ n.powerText) = (n.fraction, n.powerText) := by
  by_cases hfraction : n.fraction = []
  · rw [pointText, if_pos hfraction, List.nil_append, hfraction]
    unfold powerText
    cases n.power with
    | none => rfl
    | some p => rfl
  · rw [pointText, if_neg hfraction]
    exact spanDigits_powerText hn.fraction

/-- A decimal is read in three steps. -/
theorem readUnsigned?_eq {isDigit : CodePoint → Bool} {t w r f r' : Text} (hwhole : spanDigits isDigit t = (w, r))
    (hfraction : afterPoint isDigit r = (f, r')) : readUnsigned? isDigit t =
      if w.isEmpty && f.isEmpty then none
      else some (ofDecimal (Text.decimalNumber (w ++ f)) ((readExponent isDigit r').1 - f.length),
        (readExponent isDigit r').2) := by
  have hsteps : readUnsigned? isDigit t = if w.isEmpty && (afterPoint isDigit r).1.isEmpty then none
      else some (ofDecimal (Text.decimalNumber (w ++ (afterPoint isDigit r).1))
        ((readExponent isDigit (afterPoint isDigit r).2).1 - (afterPoint isDigit r).1.length),
        (readExponent isDigit (afterPoint isDigit r).2).2) := by
    unfold readUnsigned?
    rw [hwhole]
    rfl
  rw [hsteps, hfraction]

theorem readExponent_powerText (hn : n.WellFormed) :
    readExponent Text.isDecimal n.powerText = (n.exponent, []) := by
  unfold powerText exponent
  cases hpower : n.power with
  | none => rfl
  | some p =>
    obtain ⟨negative, ds⟩ := p
    obtain ⟨hdigits, hne⟩ := hn.power _ hpower
    have hspan : spanDigits Text.isDecimal ds = (ds, []) := by
      have happend := spanDigits_append (r := []) (isDecimal_of_allDigits hdigits) nofun
      rwa [List.append_nil] at happend
    have hsign : readSign ((if negative then 0x2D else 0x2B) :: ds) = (negative, ds) := by
      cases negative <;> rfl
    have hempty : ds.isEmpty = false := List.isEmpty_eq_false_iff.mpr hne
    simp only [readExponent, hsign, hspan, hempty]
    rfl

/-- Reading a numeral leaves nothing over. -/
theorem readUnsigned?_text (hn : n.WellFormed) : readUnsigned? Text.isDecimal n.text =
    some (ofDecimal (Text.decimalNumber n.digits) (n.exponent - n.fraction.length), []) := by
  have hempty : (n.whole.isEmpty && n.fraction.isEmpty) = false := by
    rw [List.isEmpty_eq_false_iff.mpr hn.begins, Bool.false_and]
  rw [readUnsigned?_eq (spanDigits_text hn) (afterPoint_text hn), readExponent_powerText hn, hempty]
  rfl

/-- What comes after a minus, and whether there is one. -/
theorem readSign_text (hn : n.WellFormed) (negative : Bool) :
    readSign (if negative then 0x2D :: n.text else n.text) = (negative, n.text) := by
  cases negative with
  | true => rfl
  | false =>
    obtain ⟨c, r, htext, hc, -⟩ := exists_head hn
    have hbounds := Text.digit_bounds hc
    rw [htext]
    show readSign (c :: r) = (false, c :: r)
    unfold readSign
    split
    · next heq =>
      cases heq
      exact absurd hbounds (by decide)
    · next heq =>
      cases heq
      exact absurd hbounds (by decide)
    · rfl

/-- A numeral has no mark of a base. -/
theorem readPrefixed?_text (hn : n.WellFormed) (negative : Bool) :
    readPrefixed? (if negative then 0x2D :: n.text else n.text) = none := by
  cases negative with
  | true => rfl
  | false =>
    obtain ⟨c, r, htext, -, hnext⟩ := exists_head hn
    show readPrefixed? n.text = none
    rw [htext]
    unfold readPrefixed?
    split
    · next mark ds heq =>
      cases heq
      have hmark : mark ≠ 0x78 ∧ mark ≠ 0x58 ∧ mark ≠ 0x6F ∧ mark ≠ 0x4F ∧ mark ≠ 0x62 ∧ mark ≠ 0x42 := by
        obtain hdigit | rfl | rfl := hnext mark rfl
        · have hbounds := Text.digit_bounds hdigit
          dsimp only [CodePoint]
          omega
        · decide
        · decide
      obtain ⟨h₁, h₂, h₃, h₄, h₅, h₆⟩ := hmark
      simp only [beq_iff_eq, Bool.or_eq_true, h₁, h₂, h₃, h₄, h₅, h₆, or_self, if_false, if_true, decide_true,
        Bool.true_or]
    · rfl

theorem readDecimal?_text (hn : n.WellFormed) (negative : Bool) :
    readDecimal? (if negative then 0x2D :: n.text else n.text) =
      some (if negative then -ofDecimal (Text.decimalNumber n.digits) (n.exponent - n.fraction.length)
        else ofDecimal (Text.decimalNumber n.digits) (n.exponent - n.fraction.length), []) := by
  have hinfinity : (Text.of "Infinity").isPrefixOf n.text = false := by
    obtain ⟨c, r, htext, hc, -⟩ := exists_head hn
    have hbounds := Text.digit_bounds hc
    have hne : (0x49 : Nat) ≠ c := by omega
    have hword : Text.of "Infinity" = 0x49 :: Text.of "nfinity" := rfl
    rw [htext, hword, List.isPrefixOf_cons_cons, beq_eq_false_iff_ne.mpr hne, Bool.false_and]
  simp only [readDecimal?, readSign_text hn, hinfinity, readUnsigned?_text hn, Bool.false_eq_true, if_false,
    Option.map_some]

/-- Reading a numeral as the number of a text. -/
theorem ofText_text (hn : n.WellFormed) (negative : Bool) :
    ofText (if negative then 0x2D :: n.text else n.text) =
      .ok (if negative then -ofDecimal (Text.decimalNumber n.digits) (n.exponent - n.fraction.length)
        else ofDecimal (Text.decimalNumber n.digits) (n.exponent - n.fraction.length)) := by
  obtain ⟨t, ht⟩ : ∃ t, (if negative then 0x2D :: n.text else n.text) = t := ⟨_, rfl⟩
  have hvisible : ∀ c ∈ t, (0x21 : Nat) ≤ c ∧ c ≤ (0x7E : Nat) := by
    have htext : ∀ c ∈ n.text, (0x21 : Nat) ≤ c ∧ c ≤ (0x7E : Nat) := by
      intro c hc
      obtain hdigit | rfl | rfl | rfl | rfl := mem_text hn hc
      · have hbounds := Text.digit_bounds hdigit
        dsimp only [CodePoint]
        omega
      all_goals decide
    rw [← ht]
    intro c hc
    split at hc
    · obtain rfl | hc := List.mem_cons.mp hc
      · decide
      · exact htext c hc
    · exact htext c hc
  have htrim : Text.trimBy (· == 0xFEFF) (Text.trim t) = t := by
    have hblank : Text.trim t = t :=
      Text.trimBy_eq_self fun c hc => Text.isBlank_of_visible (hvisible c hc).1 (hvisible c hc).2
    rw [hblank]
    refine Text.trimBy_eq_self fun c hc => beq_eq_false_iff_ne.mpr ?_
    have hbounds := hvisible c hc
    dsimp only [CodePoint] at hbounds ⊢
    omega
  have hempty : t.isEmpty = false := by
    obtain ⟨c, r, htext, -, -⟩ := exists_head hn
    rw [← ht, htext]
    cases negative <;> rfl
  have hprefixed := ht ▸ readPrefixed?_text hn negative
  have hdecimal := ht ▸ readDecimal?_text hn negative
  rw [ht]
  simp only [ofText, htrim, hempty, hprefixed, hdecimal, Bool.false_eq_true, if_false]

/-! ## What numerals stand for -/

theorem powerText_injective {m : Numeral} (h : m.powerText = n.powerText) : m.power = n.power := by
  unfold powerText at h
  cases hm : m.power with
  | none =>
    cases hn : n.power with
    | none => rfl
    | some q =>
      rw [hm, hn] at h
      cases h
  | some p =>
    cases hn : n.power with
    | none =>
      rw [hm, hn] at h
      cases h
    | some q =>
      rw [hm, hn] at h
      obtain ⟨negative, ds⟩ := p
      obtain ⟨negative', ds'⟩ := q
      injection h with _ htail
      injection htail with hsign hds
      have hnegative : negative = negative' := by
        cases negative <;> cases negative' <;> first | rfl | exact absurd hsign (by decide)
      rw [hnegative, hds]

/-- The text of a numeral determines the numeral. -/
theorem text_injective {m : Numeral} (hm : m.WellFormed) (hn : n.WellFormed) (h : m.text = n.text) : m = n := by
  have hspan := (spanDigits_text hm).symm.trans (h ▸ spanDigits_text hn)
  injection hspan with hwhole hrest
  have hpoint := (afterPoint_text hm).symm.trans (hrest ▸ afterPoint_text hn)
  injection hpoint with hfraction hpower
  cases m
  cases n
  cases hwhole
  cases hfraction
  cases powerText_injective hpower
  rfl

end

end Numeral

/-- A text is a numeral, maybe after a minus, and stands for a fraction. -/
def Denotes (t : Text) (q : ℚ) : Prop :=
  ∃ (n : Numeral) (negative : Bool), n.WellFormed ∧ t = (if negative then 0x2D :: n.text else n.text) ∧
    q = if negative then -n.value else n.value

/-- A text stands for one fraction at most. -/
theorem Denotes.unique {t : Text} {q r : ℚ} (hq : Denotes t q) (hr : Denotes t r) : q = r := by
  obtain ⟨m, negative, hm, ht, rfl⟩ := hq
  obtain ⟨n, negative', hn, ht', rfl⟩ := hr
  have hread := Numeral.readSign_text hm negative
  have hread' := Numeral.readSign_text hn negative'
  rw [← ht] at hread
  rw [← ht'] at hread'
  injection hread.symm.trans hread' with hnegative htext
  cases hnegative
  cases Numeral.text_injective hm hn htext
  rfl

theorem Denotes.iff {t : Text} {q : ℚ} (h : Denotes t q) (r : ℚ) : Denotes t r ↔ r = q :=
  ⟨fun hr => hr.unique h, fun heq => heq ▸ h⟩

end Untangle.Number
