import Mathlib.Data.List.TakeWhile
import Untangle.Number.Radix
import Untangle.Proofs.Number.Natural
import Untangle.Proofs.Text.Digits

set_option autoImplicit false

/-!
# Whole numbers in other bases

The divisions and remainders by which a natural number below `2 ^ 53` is written are exact, so they write its
digits, and nothing is cut off at either end.  The digits are read back as the number.
-/

namespace Untangle.Number

open Binary64

section

variable {base n : Nat} {c : CodePoint}

/-! ## The digits of a natural number -/

/-- The text of a natural number in a base: its digits, at least one. -/
def digitsText (base n : Nat) : Text := (Nat.digitsAppend base 1 n).reverse.map Text.digitLower

theorem digitValue?_digitLower {d : Nat} (h : d < 36) : digitValue? (Text.digitLower d) = some d := by
  have hall : ∀ d < 36, digitValue? (Text.digitLower d) = some d := by decide
  exact hall d h

theorem digitsText_zero (base : Nat) : digitsText base 0 = [0x30] := by
  simp [digitsText, Nat.digitsAppend, Text.digitLower]

theorem digitsOn_eq_digitsText (hbase : 2 ≤ base) {fuel : Nat} (h : n.log2 ≤ fuel) :
    Text.digitsOn base Text.digitLower (fuel + 1) n [] = digitsText base n := by
  have hless : n < 2 ^ (fuel + 1) := Nat.lt_log2_self.trans_le (Nat.pow_le_pow_right two_pos (Nat.succ_le_succ h))
  rw [Text.digitsOn_eq hbase _ fuel hless, List.append_nil, digitsText]

theorem exists_of_mem_digitsText (hbase : 2 ≤ base) (hc : c ∈ digitsText base n) :
    ∃ d, d < base ∧ c = Text.digitLower d := by
  obtain ⟨d, hd, rfl⟩ := List.mem_map.mp hc
  exact ⟨d, Nat.lt_of_mem_digitsAppend (by omega) 1 d (List.mem_reverse.mp hd), rfl⟩

theorem isDigitOf_of_mem (hbase : 2 ≤ base) (hmax : base ≤ 36) (hc : c ∈ digitsText base n) :
    isDigitOf base c = true := by
  obtain ⟨d, hd, rfl⟩ := exists_of_mem_digitsText hbase hc
  rw [isDigitOf, digitValue?_digitLower (by omega)]
  exact decide_eq_true hd

theorem digitsText_ne_nil (base n : Nat) : digitsText base n ≠ [] := by
  have hlength : 1 ≤ (Nat.digitsAppend base 1 n).length := Text.le_length_digitsAppend 1
  refine List.ne_nil_of_length_pos ?_
  rw [digitsText, List.length_map, List.length_reverse]
  exact hlength

/-- The digits are read as the number. -/
theorem digitsNumber_digitsText (hbase : 2 ≤ base) (hmax : base ≤ 36) :
    digitsNumber base (digitsText base n) = n := by
  have hvalue : ∀ d ∈ (Nat.digitsAppend base 1 n).reverse, digitValue? (Text.digitLower d) = some d := by
    intro d hd
    have hless := Nat.lt_of_mem_digitsAppend (by omega) 1 d (List.mem_reverse.mp hd)
    exact digitValue?_digitLower (by omega)
  rw [digitsNumber, digitsText, Text.foldl_digits hvalue, List.reverse_reverse, Text.ofDigits_digitsAppend]

/-- No zero stands before other digits. -/
theorem head?_digitsText (hbase : 2 ≤ base) (hmax : base ≤ 36) (hpos : 0 < n) :
    (digitsText base n).head? ≠ some 0x30 := by
  intro hhead
  rw [digitsText, List.head?_map, List.head?_reverse] at hhead
  obtain ⟨d, hd, hzero⟩ := Option.map_eq_some_iff.mp hhead
  rw [Text.digitsAppend_one hpos] at hd
  have hless : d < base := Nat.digits_lt_base (by omega) (List.mem_of_getLast? hd)
  have hvalue := digitValue?_digitLower (show d < 36 by omega)
  rw [hzero] at hvalue
  cases hvalue
  have hne := Nat.digits_ne_nil_iff_ne_zero (b := base).mpr hpos.ne'
  rw [List.getLast?_eq_some_getLast hne, Option.some.injEq] at hd
  exact Nat.getLast_digit_ne_zero base hpos.ne' hd

theorem length_digitsText (hbase : 2 ≤ base) (hless : n < 2 ^ 53) : (digitsText base n).length ≤ 53 := by
  obtain rfl | hpos := n.eq_zero_or_pos
  · rw [digitsText_zero]
    decide
  · rw [digitsText, List.length_map, List.length_reverse, Text.digitsAppend_one hpos,
      Nat.digits_length_le_iff (by omega)]
    exact hless.trans_le (Nat.pow_le_pow_left hbase 53)

/-! ## Printing -/

/-- No division is left out. -/
theorem dropZeros_ofNat (hbase : 2 ≤ base) (hmax : base ≤ 36) (hless : n < 2 ^ 53) (fuel count : Nat) :
    dropZeros (Float.ofNat base) fuel (Float.ofNat n) count = (Float.ofNat n, count) := by
  cases fuel with
  | zero => rfl
  | succ fuel => rw [dropZeros, if_neg (ofNat_div_lt_bound hbase hless (by omega))]

/-- A step of the division takes off the last digit. -/
theorem wholeDigits_ofNat (hbase : 2 ≤ base) (hmax : base ≤ 36) (hless : n < 2 ^ 53) (fuel : Nat) (rest : Text) :
    wholeDigits (Float.ofNat base) fuel (Float.ofNat n) rest = Text.digitsOn base Text.digitLower fuel n rest := by
  induction fuel generalizing n rest with
  | zero => rfl
  | succ fuel ih =>
    have hrest : n % base < base := Nat.mod_lt n (by omega)
    have hquotient : n / base ≤ n := Nat.div_le_self n base
    have hsteps : (Float.ofNat n - Float.ofNat (n % base)) / Float.ofNat base = Float.ofNat (n / base) := by
      have hmultiple : n - n % base = n / base * base := by
        have hdiv := Nat.div_add_mod' n base
        omega
      rw [ofNat_sub (Nat.mod_le n base) hless, hmultiple, ofNat_mul_div (by omega) (by omega) (by omega)]
    have hend : Float.ofNat (n / base) ≤ 0.0 ↔ n < base := by
      rw [ofNat_le_zero_iff (by omega), Nat.div_eq_zero_iff_lt (by omega)]
    rw [wholeDigits, remainder_ofNat (by omega) hless (by omega), truncate_ofNat (by omega), Int.toNat_natCast,
      hsteps, Text.digitsOn]
    by_cases hlast : n < base
    · rw [if_pos (hend.mpr hlast), if_pos hlast, Nat.mod_eq_of_lt hlast]
    · rw [if_neg (hend.not.mpr hlast), if_neg hlast, ih (by omega)]

theorem wholeText_ofNat (hbase : 2 ≤ base) (hmax : base ≤ 36) (hless : n < 2 ^ 53) :
    wholeText base (Float.ofNat n) = digitsText base n := by
  rw [wholeText, dropZeros_ofNat hbase hmax hless]
  dsimp only
  rw [wholeDigits_ofNat hbase hmax hless]
  refine digitsOn_eq_digitsText hbase ?_
  obtain rfl | hpos := n.eq_zero_or_pos
  · decide
  · have hlog := (Nat.log2_lt hpos.ne').mpr hless
    omega

/-- There are no digits after the point where there is no fraction. -/
theorem fractionDigits_zero (fuel : Nat) (y : Float) :
    fractionDigits base (Float.ofNat base) fuel (Float.ofNat 0) (if tiny > y then tiny else y) [] = ([], false) := by
  have hsmall : ¬Float.ofNat 0 ≥ (if tiny > y then tiny else y) := by
    split
    · nofun
    · next hmore => exact fun hle => hmore (lt_tiny_of_le_zero hle)
  cases fuel with
  | zero => rfl
  | succ fuel => rw [fractionDigits, if_neg hsmall]

theorem positiveRadix_ofNat (hbase : 2 ≤ base) (hmax : base ≤ 36) (hpos : 0 < n) (hless : n < 2 ^ 53) :
    positiveRadix base (Float.ofNat n) = digitsText base n := by
  obtain ⟨hx, -⟩ := ofNat_pos hpos hless
  have hsign : isNegative (Float.ofNat n) = false := (parts_negative _).symm.trans hx.sign
  have hfloor : floor (Float.ofNat n) = n := by
    rw [floor, hsign, Bool.false_and, if_neg Bool.false_ne_true, truncate_ofNat hless]
  have hwhole : Float.ofInt (n : Int) = Float.ofNat n := rfl
  rw [positiveRadix, hfloor, hwhole, ofNat_sub (le_refl n) hless, Nat.sub_self, fractionDigits_zero]
  exact wholeText_ofNat hbase hmax hless

/-- The text of a natural number in a script is its text in base ten. -/
theorem positiveText_ofNat (hpos : 0 < n) (hless : n < 2 ^ 53) : positiveText (Float.ofNat n) = digitsText 10 n := by
  obtain ⟨hx, -⟩ := ofNat_pos hpos hless
  obtain ⟨k, hk⟩ := exists_parts_ofNat hless
  have hbound := (hx.lt_bound (by rw [hk]; simp)).1
  rw [positiveText, isInteger_ofNat hless, Bool.true_and, if_pos (decide_eq_true hbound), truncate_ofNat hless]
  exact digitsOn_eq_digitsText (by decide) (le_refl _)

end

/-! ## Integers -/

/-- The text of an integer in a base: its digits after a minus sign if it is negative. -/
def integerText (base : Nat) (n : Int) : Text :=
  if n < 0 then 0x2D :: digitsText base n.natAbs else digitsText base n.natAbs

section

variable {base : Nat} {n : Int}

theorem ofInt_eq (n : Int) : Float.ofInt n = if n < 0 then -Float.ofNat n.natAbs else Float.ofNat n.natAbs := by
  cases n with
  | ofNat n => rfl
  | negSucc n =>
    rw [if_pos (Int.negSucc_lt_zero n)]
    rfl

/-- Numbers in all bases are written with the sign first. -/
theorem radixText_of_isFinite {x : Float} (hx : isFinite x = true) (base : Nat) :
    radixText base x =
      let positive := if base = 10 then positiveText else positiveRadix base
      if isZero x then [0x30] else if isNegative x then 0x2D :: positive (-x) else positive x := by
  unfold radixText
  by_cases hten : base = 10
  · simp only [hten, decide_true, Bool.true_or, if_true, text, isNaN_of_isFinite hx, isInfinite_of_isFinite hx,
      Bool.false_eq_true, if_false]
    rfl
  · simp only [hten, decide_false, hx, Bool.not_true, Bool.or_self, Bool.false_eq_true, if_false]
    rfl

/-- The text of an integer in a base. -/
theorem radixText_ofInt (hbase : 2 ≤ base) (hmax : base ≤ 36) (hless : n.natAbs < 2 ^ 53) :
    radixText base (Float.ofInt n) = integerText base n := by
  obtain hzero | hpos := n.natAbs.eq_zero_or_pos
  · cases Int.natAbs_eq_zero.mp hzero
    have hnull : isFinite (Float.ofInt 0) = true ∧ isZero (Float.ofInt 0) = true := ⟨rfl, rfl⟩
    rw [radixText_of_isFinite hnull.1, integerText]
    simp only [hnull.2, if_true, lt_irrefl, if_false, Int.natAbs_zero, digitsText_zero]
  · obtain ⟨hx, -⟩ := ofNat_pos hpos hless
    have hsign : isNegative (Float.ofNat n.natAbs) = false := (parts_negative _).symm.trans hx.sign
    have hpositive : (if base = 10 then positiveText else positiveRadix base) (Float.ofNat n.natAbs) =
        digitsText base n.natAbs := by
      split
      · next hten => rw [hten, positiveText_ofNat hpos hless]
      · exact positiveRadix_ofNat hbase hmax hpos hless
    rw [ofInt_eq, integerText]
    split
    · obtain ⟨hfinite, hproper, hnegative, -⟩ := neg_of_isFinite hx.finite
      rw [radixText_of_isFinite hfinite]
      simp only [hproper, hx.proper, hnegative, hsign, Bool.not_false, Bool.false_eq_true, if_false, if_true,
        neg_neg_of_isFinite hx.finite, hpositive]
    · rw [radixText_of_isFinite hx.finite]
      simp only [hx.proper, hsign, Bool.false_eq_true, if_false, hpositive]

/-! ## Reading -/

/-- Digits and small letters have no other small form. -/
theorem lower_eq_self {t : Text} (ht : ∀ c ∈ t, ∃ d, d < 36 ∧ c = Text.digitLower d) : Text.lower t = t := by
  have hone : ∀ d < 36, ∀ before after, Text.lowerOf before (Text.digitLower d) after = [Text.digitLower d] := by
    intro d hd before after
    have hall : ∀ d < 36, (Text.digitLower d == 0x3A3) = false ∧ (Text.digitLower d == 0x130) = false ∧
      Text.mapRuns lowerRuns (Text.digitLower d) = Text.digitLower d := by decide
    obtain ⟨hsigma, hdot, hself⟩ := hall d hd
    rw [Text.lowerOf, hsigma, hdot, hself]
    rfl
  have hgo : ∀ before, (Text.lowerGo before t).flatten = t := by
    induction t with
    | nil => exact fun _ => rfl
    | cons c t ih =>
      intro before
      obtain ⟨d, hd, rfl⟩ := ht c List.mem_cons_self
      rw [Text.lowerGo, hone d hd, List.flatten_cons, ih fun e he => ht e (List.mem_cons_of_mem _ he)]
      rfl
  exact hgo []

/-- Digits are neither blanks nor signs. -/
theorem digitLower_plain {d : Nat} (h : d < 36) :
    Text.isBlank (Text.digitLower d) = false ∧ Text.digitLower d ≠ 0x2D ∧ Text.digitLower d ≠ 0x2B := by
  have hall : ∀ d < 36, Text.isBlank (Text.digitLower d) = false ∧ Text.digitLower d ≠ 0x2D ∧
    Text.digitLower d ≠ 0x2B := by decide
  exact hall d h

theorem readSign_digitsText {m : Nat} (hbase : 2 ≤ base) (hmax : base ≤ 36) (negative : Bool) :
    readSign (if negative then 0x2D :: digitsText base m else digitsText base m) = (negative, digitsText base m) := by
  have hhead : ∀ {c : CodePoint} {r : Text}, digitsText base m = c :: r → c ≠ 0x2D ∧ c ≠ 0x2B := by
    intro c r heq
    obtain ⟨d, hd, rfl⟩ := exists_of_mem_digitsText hbase (heq ▸ List.mem_cons_self)
    exact (digitLower_plain (by omega)).2
  cases negative with
  | true => rfl
  | false =>
    rw [if_neg Bool.false_ne_true]
    unfold readSign
    split
    · next heq => exact absurd rfl (hhead heq).1
    · next heq => exact absurd rfl (hhead heq).2
    · rfl

/-- Only the text of zero begins with a zero, so no text begins with the mark of base 16. -/
theorem hasHexMark_digitsText {m : Nat} (hbase : 2 ≤ base) (hmax : base ≤ 36) :
    hasHexMark (digitsText base m) = false := by
  obtain rfl | hpos := m.eq_zero_or_pos
  · rw [digitsText_zero]
    rfl
  · have hhead := head?_digitsText hbase hmax hpos
    unfold hasHexMark
    split
    · next heq => exact absurd (congrArg List.head? heq) hhead
    · rfl

theorem ofNatural_of_lt {m : Nat} (hless : m < 2 ^ 53) : ofNatural m = .ok (Float.ofNat m) := by
  rw [ofNatural, ofNat?, isFinite_ofNat hless]
  rfl

/-- The digits of a natural number are read to the end, and nothing before them is taken for a sign or a mark of
the base. -/
theorem leadingWhole_digitsText {m : Nat} (hbase : 2 ≤ base) (hmax : base ≤ 36) (hless : m < 2 ^ 53)
    (negative : Bool) :
    leadingWhole (if negative then 0x2D :: digitsText base m else digitsText base m) base =
      .ok (if negative && !isZero (Float.ofNat m) then -Float.ofNat m else Float.ofNat m) := by
  have hdigits : ∀ c ∈ digitsText base m, ∃ d, d < 36 ∧ c = Text.digitLower d := by
    intro c hc
    obtain ⟨d, hd, heq⟩ := exists_of_mem_digitsText hbase hc
    exact ⟨d, by omega, heq⟩
  have hvisible : ∀ c ∈ (if negative then 0x2D :: digitsText base m else digitsText base m),
      Text.isBlank c = false := by
    have hall : ∀ c ∈ digitsText base m, Text.isBlank c = false := by
      intro c hc
      obtain ⟨d, hd, rfl⟩ := hdigits c hc
      exact (digitLower_plain hd).1
    split
    · exact List.forall_mem_cons.mpr ⟨rfl, hall⟩
    · exact hall
  have htake : (digitsText base m).takeWhile (isDigitOf base) = digitsText base m :=
    List.takeWhile_eq_self_iff.mpr fun c hc => isDigitOf_of_mem hbase hmax hc
  have hne : (digitsText base m).isEmpty = false := List.isEmpty_eq_false_iff.mpr (digitsText_ne_nil base m)
  have hlength := length_digitsText hbase hless
  have hlimit : ¬(isLimitedBase base && 4300 < (digitsText base m).length) = true := by
    simp only [Bool.and_eq_true, decide_eq_true_eq]
    omega
  have hradix : ¬((base : Int) < 2 || 36 < (base : Int)) = true := by
    simp only [Bool.or_eq_true, decide_eq_true_eq]
    omega
  have hnonzero : (base : Int) ≠ 0 := by omega
  rw [leadingWhole, Text.trim, Text.trimBy_eq_self hvisible, readSign_digitsText hbase hmax]
  simp only [hasHexMark_digitsText hbase hmax, hnonzero, if_false, Bool.false_and, Bool.false_eq_true,
    Int.toNat_natCast]
  rw [if_neg hradix, lower_eq_self hdigits, htake, hne, if_neg Bool.false_ne_true, if_neg hlimit,
    digitsNumber_digitsText hbase hmax, ofNatural_of_lt hless]

/-- An integer is read back from its text. -/
theorem leadingWhole_integerText (hbase : 2 ≤ base) (hmax : base ≤ 36) (hless : n.natAbs < 2 ^ 53) :
    leadingWhole (integerText base n) base = .ok (Float.ofInt n) := by
  have hread := leadingWhole_digitsText hbase hmax hless (decide (n < 0))
  rw [ofInt_eq, integerText]
  by_cases hneg : n < 0
  · obtain ⟨hx, -⟩ := ofNat_pos (n := n.natAbs) (by omega) hless
    simpa only [hneg, decide_true, hx.proper, Bool.not_false, Bool.and_self, if_true] using hread
  · simpa only [hneg, decide_false, Bool.false_and, Bool.false_eq_true, if_false] using hread

end

end Untangle.Number
