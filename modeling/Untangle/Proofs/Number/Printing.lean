import Untangle.Proofs.Number.Layout
import Untangle.Proofs.Number.Natural

set_option autoImplicit false

/-!
# Faithful texts of numbers

The text of a number in a script stands for the same fraction as its literal text, has the layout of scripts, and
reads back as the number; only the sign of a zero is lost.  A whole number that is a mantissa is written as an
integer, and the general layout would give the same digits.

The main theorem is `text_faithful`, for every finite number.  Fractions are rational numbers, and both what
a text denotes and the layout of scripts are given independently of the printer.
-/

namespace Untangle.Number

open Binary64

/-! ## The digits of a positive number -/

section

variable {x : Float}

theorem shortestDigits_spec (h : Positive x) :
    (shortestDigits x).Trimmed ∧ (shortestDigits x).digits.length ≤ 18 ∧
      (shortestDigits x).value = (Shortest.decimal x).digits * 10 ^ (Shortest.decimal x).scale := by
  obtain ⟨hpos, hless, -⟩ := Shortest.decimal_spec h
  obtain ⟨hdigits, -, hnumber, hplain⟩ := Text.ofNat_spec (Shortest.decimal x).digits
  obtain ⟨c, r, hcons, hc⟩ := (hplain hpos).head
  obtain ⟨k, htrailing, hlast⟩ := exists_trailing (Text.ofNat (Shortest.decimal x).digits)
  have hkept : (shortestDigits x).digits =
    ((Text.ofNat (Shortest.decimal x).digits).reverse.dropWhile (· == 0x30)).reverse := rfl
  have hpoint : (shortestDigits x).point =
    (Text.ofNat (Shortest.decimal x).digits).length + (Shortest.decimal x).scale := rfl
  rw [← hkept] at htrailing hlast
  have hvalue : (Shortest.decimal x).digits = Text.decimalNumber (shortestDigits x).digits * 10 ^ k := by
    rw [← hnumber]
    conv => lhs; rw [htrailing]
    exact decimalNumber_padded 0 k _
  have hnonempty : (shortestDigits x).digits ≠ [] := by
    intro hnil
    rw [hnil, Text.decimalNumber, List.foldl_nil, Nat.zero_mul] at hvalue
    omega
  obtain ⟨e, q, heq⟩ := List.exists_cons_of_ne_nil hnonempty
  have hfirst : e = c := by
    rw [hcons, heq] at htrailing
    injection htrailing with hhead
    exact hhead.symm
  have hcount : (Text.ofNat (Shortest.decimal x).digits).length = (shortestDigits x).digits.length + k := by
    conv => lhs; rw [htrailing]
    rw [List.length_append, List.length_replicate]
  refine ⟨⟨?_, hnonempty, ?_, hlast⟩, ?_, ?_⟩
  · intro f hf
    refine hdigits f ?_
    rw [htrailing]
    exact List.mem_append_left _ hf
  · intro f hf
    rw [heq] at hf
    cases hf
    rw [hfirst]
    exact hc
  · have hlow := Text.le_decimalNumber (hcons ▸ hdigits) hc
    rw [← hcons, hnumber] at hlow
    have hshort : r.length ≤ 17 := (Nat.pow_le_pow_iff_right (by decide)).mp (hlow.trans hless)
    have hlong := congrArg List.length hcons
    rw [List.length_cons] at hlong
    omega
  · rw [Digits.value, hpoint, hcount, hvalue]
    have hscale : (((shortestDigits x).digits.length + k : Nat) : Int) + (Shortest.decimal x).scale -
        (shortestDigits x).digits.length = k + (Shortest.decimal x).scale := by omega
    rw [hscale, zpow_add₀ (by norm_num), zpow_natCast]
    push_cast
    ring

theorem roundsTo_shortestDigits (h : Positive x) : RoundsTo (shortestDigits x).value x := by
  rw [(shortestDigits_spec h).2.2]
  exact (Shortest.decimal_spec h).2.2

/-- A numeral that is made of the digits of a fraction reads as the number that the fraction is rounded to. -/
theorem Spells.ofDecimal_eq {n : Numeral} {d : Digits} (h : Spells n d) (hd : d.Trimmed)
    (hlength : d.digits.length ≤ 18) (hrounds : RoundsTo d.value x) :
    ofDecimal (Text.decimalNumber n.digits) (n.exponent - n.fraction.length) = x := by
  have hvalue := h.value
  obtain ⟨a, b, hdigits, -, hbound⟩ := h.made
  have hnumber : Text.decimalNumber n.digits = Text.decimalNumber d.digits * 10 ^ b := by
    rw [hdigits, decimalNumber_padded]
  have hpos : 0 < Text.decimalNumber d.digits := Nat.pos_of_ne_zero fun hzero => hd.number_mod (by rw [hzero])
  have hless : Text.decimalNumber n.digits < 2 ^ 80 := by
    calc Text.decimalNumber n.digits = Text.decimalNumber d.digits * 10 ^ b := hnumber
      _ < 10 ^ d.digits.length * 10 ^ b :=
          Nat.mul_lt_mul_of_pos_right (Text.decimalNumber_lt d.digits) (Nat.pow_pos (by decide))
      _ = 10 ^ (d.digits.length + b) := (Nat.pow_add 10 _ _).symm
      _ ≤ 10 ^ 21 := Nat.pow_le_pow_right (by decide) (by omega)
      _ < 2 ^ 80 := by decide
  refine Number.ofDecimal_eq ?_ hless ?_
  · rw [hnumber]
    exact Nat.mul_pos hpos (Nat.pow_pos (by decide))
  · rw [← Numeral.value, hvalue]
    exact hrounds

/-! ## Whole numbers -/

/-- A number without a fraction is a natural number, and the one that remains when the fraction is cut off. -/
theorem exists_natural (h : Positive x) (hwhole : isInteger x = true) :
    ∃ n : Nat, value x = n ∧ truncate x = n := by
  have hvalue : ∃ n : Nat, value x = n := by
    rw [h.value_eq]
    rw [isInteger, Bool.and_eq_true] at hwhole
    exact (exists_magnitude_iff (parts x)).mpr hwhole.2
  obtain ⟨n, hn⟩ := hvalue
  refine ⟨n, hn, ?_⟩
  rw [truncate_eq_cutOff, hn]
  exact cutOff_intCast n

/-- The least number that is not a mantissa. -/
theorem value_lt (h : Positive x) (hless : x < 9007199254740992.0) : value x < 2 ^ 53 := by
  have hbound : Positive 9007199254740992.0 := ⟨by decide +kernel, by decide +kernel, by decide +kernel⟩
  have hparts : parts 9007199254740992.0 = ⟨false, 2 ^ 52, 1⟩ := by decide +kernel
  have hcompare : x.toModel.unpack.lt (9007199254740992.0 : Float).toModel.unpack = true :=
    of_decide_eq_true hless
  rw [h.unpack, hbound.unpack] at hcompare
  have horder : (compare (parts x).exponent 1).then (compare (parts x).mantissa (2 ^ 52)) = .lt := by
    have hlt : (some ((compare (parts x).exponent (parts 9007199254740992.0).exponent).then
      (compare (parts x).mantissa (parts 9007199254740992.0).mantissa)) == some Ordering.lt) = true := hcompare
    rw [hparts, beq_iff_eq, Option.some.injEq] at hlt
    exact hlt
  have hexponent : (parts x).exponent ≤ 0 := by
    rw [Ordering.then_eq_lt, Int.compare_eq_lt, Nat.compare_eq_lt] at horder
    have hfull := h.canonical.full
    omega
  have hone : (2 : ℚ) ^ (parts x).exponent ≤ 1 := zpow_le_one_of_nonpos₀ (by norm_num) hexponent
  have hmantissa : ((parts x).mantissa : ℚ) < 2 ^ 53 := by exact_mod_cast h.canonical.lt
  calc value x = (parts x).mantissa * 2 ^ (parts x).exponent := h.value_eq
    _ ≤ (parts x).mantissa * 1 := mul_le_mul_of_nonneg_left hone (Nat.cast_nonneg _)
    _ < 2 ^ 53 := by rwa [mul_one]

/-- The layout of a whole number of up to 21 digits is its decimal text. -/
theorem scriptLayout_whole {d : Digits} (hd : d.Trimmed) {n : Nat} (hn : d.value = n) (hless : n < 10 ^ 21) :
    scriptLayout d = Text.ofNat n := by
  -- All digits stand before the point, since the last one is not a zero.
  have hplace : (d.digits.length : Int) ≤ d.point := by
    by_contra hmore
    obtain ⟨k, hk⟩ : ∃ k : Nat, d.digits.length - d.point = (k + 1 : Nat) :=
      ⟨(d.digits.length - d.point - 1).toNat, by omega⟩
    have hnumber : Text.decimalNumber d.digits = n * 10 ^ (k + 1) := by
      rw [Digits.value, show d.point - d.digits.length = -((k + 1 : Nat) : Int) by omega, zpow_neg, zpow_natCast,
        mul_inv_eq_iff_eq_mul₀ (by positivity)] at hn
      exact_mod_cast hn
    refine hd.number_mod ?_
    rw [hnumber, pow_succ, ← Nat.mul_assoc]
    exact Nat.mul_mod_left _ _
  obtain ⟨m, hm⟩ : ∃ m : Nat, d.point - d.digits.length = m := ⟨(d.point - d.digits.length).toNat, by omega⟩
  have hplain := hd.plain m
  have hnumber : Text.decimalNumber (d.digits ++ List.replicate m 0x30) = n := by
    have hpadded := decimalNumber_padded 0 m d.digits
    rw [List.replicate_zero, List.nil_append] at hpadded
    rw [Digits.value, hm, zpow_natCast] at hn
    rw [hpadded]
    exact_mod_cast hn
  have hpoint : d.point ≤ 21 := by
    obtain ⟨c, r, hcons, hc⟩ := hplain.head
    have hlow := Text.le_decimalNumber (hcons ▸ hplain.digits) hc
    rw [← hcons, hnumber] at hlow
    have hshort : r.length < 21 := (Nat.pow_lt_pow_iff_right (by decide)).mp (hlow.trans_lt hless)
    have hlength := congrArg List.length hcons
    rw [List.length_append, List.length_replicate, List.length_cons] at hlength
    omega
  have hpos : 0 < n := by
    obtain ⟨c, r, hcons, hc⟩ := hplain.head
    have hlow := Text.le_decimalNumber (hcons ▸ hplain.digits) hc
    rw [← hcons, hnumber] at hlow
    exact (Nat.pow_pos (by decide)).trans_le hlow
  have hlayout : scriptLayout d = d.digits ++ List.replicate m 0x30 := by
    unfold scriptLayout
    simp only [hplace, hpoint, decide_true, Bool.and_self, if_true, hm, zeros, Int.toNat_natCast]
  obtain ⟨-, -, hofNat, hplain'⟩ := Text.ofNat_spec n
  rw [hlayout]
  exact hplain.unique (hplain' hpos) (hnumber.trans hofNat.symm)

theorem literalText_eq (h : Positive x) : literalText x = literalLayout (shortestDigits x) := by
  have hsign : isNegative x = false := (parts_negative x).symm.trans h.sign
  simp only [literalText, h.proper, hsign, Bool.false_eq_true, if_false]

theorem positiveText_eq (h : Positive x) : positiveText x = scriptLayout (shortestDigits x) := by
  unfold positiveText
  split
  · next hsmall =>
    rw [Bool.and_eq_true, decide_eq_true_iff] at hsmall
    obtain ⟨n, hn, htruncate⟩ := exists_natural h hsmall.1
    have hless : n < 2 ^ 53 := by
      have hcast := value_lt h hsmall.2
      rw [hn] at hcast
      exact_mod_cast hcast
    rw [htruncate]
    obtain ⟨hd, -, hvalue⟩ := shortestDigits_spec h
    exact (scriptLayout_whole hd (hvalue.trans (Shortest.decimal_whole h hn hless)) (hless.trans (by decide))).symm
  · obtain ⟨hd, -, -⟩ := shortestDigits_spec h
    obtain ⟨m, hspells, htext⟩ := exists_literalForm hd
    rw [literalText_eq h, ← htext, hspells.literalDigits hd]

/-! ## Texts of all finite numbers -/

/-- The layout of scripts, for a fraction of any sign: a zero is one digit, and a minus stands before the numeral of a
negative fraction. -/
def HasScriptLayout (q : ℚ) (t : Text) : Prop :=
  q = 0 ∧ t = "0" ∨ ∃ (d : Digits) (n : Numeral), d.Trimmed ∧ ScriptForm d n ∧
    (0 < q ∧ q = d.value ∧ t = n.text ∨ q < 0 ∧ q = -d.value ∧ t = 0x2D :: n.text)

theorem Digits.Trimmed.value_pos {d : Digits} (h : d.Trimmed) : 0 < d.value := by
  have hpos : 0 < Text.decimalNumber d.digits := Nat.pos_of_ne_zero fun hzero => h.number_mod (by rw [hzero])
  exact mul_pos (by exact_mod_cast hpos) (zpow_pos (by norm_num) _)

/-- Both texts of a positive number, and of the negative one. -/
theorem texts_of_positive (h : Positive x) (negative : Bool) :
    ∃ q, Denotes (if negative then 0x2D :: positiveText x else positiveText x) q ∧
      Denotes (if negative then 0x2D :: literalText x else literalText x) q ∧
      HasScriptLayout q (if negative then 0x2D :: positiveText x else positiveText x) ∧
      ofText (if negative then 0x2D :: positiveText x else positiveText x) = .ok (if negative then -x else x) ∧
      ofText (if negative then 0x2D :: literalText x else literalText x) = .ok (if negative then -x else x) := by
  obtain ⟨hd, hlength, -⟩ := shortestDigits_spec h
  have hrounds := roundsTo_shortestDigits h
  have hpos := hd.value_pos
  obtain ⟨n, hform, hn⟩ := exists_scriptForm hd
  obtain ⟨m, hm, hmtext⟩ := exists_literalForm hd
  have hspells := hform.spells hd
  have hntext := hn.trans (positiveText_eq h).symm
  rw [← literalText_eq h] at hmtext
  rw [← hntext, ← hmtext]
  refine ⟨if negative then -(shortestDigits x).value else (shortestDigits x).value,
    ⟨n, negative, hspells.wellFormed, rfl, by rw [hspells.value]⟩,
    ⟨m, negative, hm.wellFormed, rfl, by rw [hm.value]⟩, .inr ⟨_, n, hd, hform, ?_⟩, ?_, ?_⟩
  · cases negative with
    | true => exact .inr ⟨neg_lt_zero.mpr hpos, rfl, rfl⟩
    | false => exact .inl ⟨hpos, rfl, rfl⟩
  · rw [Numeral.ofText_text hspells.wellFormed, hspells.ofDecimal_eq hd hlength hrounds]
  · rw [Numeral.ofText_text hm.wellFormed, hm.ofDecimal_eq hd hlength hrounds]

end

theorem eq_of_isZero {x : Float} (hx : isZero x = true) : x = if isNegative x then -0.0 else 0.0 := by
  obtain ⟨s, e, m, hbits⟩ := exists_assemble x.toModel.toBits.toBitVec
  obtain ⟨rfl, rfl⟩ := (isZero_of_bits hbits).mp hx
  apply eq_of_bits
  rw [hbits]
  cases s with
  | positive =>
    have hsign : isNegative x = false := Bool.eq_false_iff.mpr fun h => nomatch (isNegative_of_bits hbits).mp h
    rw [hsign]
    decide +kernel
  | negative =>
    rw [(isNegative_of_bits hbits).mpr rfl]
    decide +kernel

/-- Both texts of a zero. -/
theorem texts_of_isZero {x : Float} (hx : isFinite x = true) (hzero : isZero x = true) :
    ∃ q, Denotes (text x) q ∧ Denotes (literalText x) q ∧ HasScriptLayout q (text x) ∧
      ofText (text x) = .ok 0.0 ∧ ofText (literalText x) = .ok x := by
  have htext : text x = "0" := by
    simp only [text, isNaN_of_isFinite hx, hzero, Bool.false_eq_true, if_false, if_true]
  have hliteral : literalText x = if isNegative x then 0x2D :: Text.of "0.0" else Text.of "0.0" := by
    simp only [literalText, hzero, if_true]
  have hdigit : Text.AllDigits [0x30] := Text.allDigits_replicate 1
  have hwhole : Numeral.WellFormed ⟨[0x30], [], none⟩ := ⟨hdigit, by decide, nofun, nofun⟩
  have hpointed : Numeral.WellFormed ⟨[0x30], [0x30], none⟩ := ⟨hdigit, by decide, hdigit, nofun⟩
  have hvalue : ∀ f : Text, Text.decimalNumber ([0x30] ++ f) = 0 → (⟨[0x30], f, none⟩ : Numeral).value = 0 := by
    intro f hf
    rw [Numeral.value, Numeral.digits, hf, Nat.cast_zero, zero_mul]
  refine ⟨0, ⟨_, false, hwhole, htext, ?_⟩, ⟨_, isNegative x, hpointed, hliteral, ?_⟩, .inl ⟨rfl, htext⟩, ?_, ?_⟩
  · exact (hvalue [] rfl).symm
  · rw [hvalue [0x30] rfl, neg_zero, ite_self]
  · rw [htext]
    exact Numeral.ofText_text hwhole false
  · rw [hliteral]
    refine (Numeral.ofText_text hpointed (isNegative x)).trans ?_
    conv => rhs; rw [eq_of_isZero hzero]
    rfl

/-- Both texts of a finite number that is not zero. -/
theorem texts_of_proper {x : Float} (hx : isFinite x = true) (hzero : isZero x = false) :
    ∃ q, Denotes (text x) q ∧ Denotes (literalText x) q ∧ HasScriptLayout q (text x) ∧
      ofText (text x) = .ok x ∧ ofText (literalText x) = .ok x := by
  have hreal : isNaN x = false := isNaN_of_isFinite hx
  have hbounded : isInfinite x = false := by
    rw [isFinite, bne_iff_ne] at hx
    rw [isInfinite, beq_false_of_ne hx, Bool.false_and]
  cases hsign : isNegative x with
  | false =>
    have hpos : Positive x := ⟨hx, hzero, (parts_negative x).trans hsign⟩
    have htext : text x = positiveText x := by
      simp only [text, hreal, hzero, hbounded, hsign, Bool.false_eq_true, if_false]
    rw [htext]
    exact texts_of_positive hpos false
  | true =>
    obtain ⟨hfinite, hproper, hflipped, -⟩ := neg_of_isFinite hx
    rw [hzero] at hproper
    rw [hsign] at hflipped
    have hpos : Positive (-x) := ⟨hfinite, hproper, (parts_negative (-x)).trans hflipped⟩
    have htext : text x = 0x2D :: positiveText (-x) := by
      simp only [text, hreal, hzero, hbounded, hsign, Bool.false_eq_true, if_false, if_true]
    have hliteral : literalText x = 0x2D :: literalText (-x) := by
      simp only [literalText, hzero, hsign, hproper, hflipped, Bool.not_true, Bool.false_eq_true, if_false, if_true]
    have htexts := texts_of_positive hpos true
    rw [htext, hliteral]
    simpa only [if_true, neg_neg_of_isFinite hx] using htexts

/-- The text of a finite number is faithful.  It stands for the fraction that the literal text stands for and for no
other, it has the layout of scripts, and it reads back as the number, a negative zero as zero.  The literal text
reads back as the number in any case. -/
theorem text_faithful {x : Float} (hx : isFinite x = true) :
    ∃ q, (∀ r, Denotes (text x) r ↔ r = q) ∧ (∀ r, Denotes (literalText x) r ↔ r = q) ∧
      HasScriptLayout q (text x) ∧ ofText (text x) = .ok (if isZero x then 0.0 else x) ∧
      ofText (literalText x) = .ok x := by
  cases hzero : isZero x with
  | true =>
    obtain ⟨q, htext, hliteral, hrest⟩ := texts_of_isZero hx hzero
    exact ⟨q, htext.iff, hliteral.iff, hrest⟩
  | false =>
    obtain ⟨q, htext, hliteral, hrest⟩ := texts_of_proper hx hzero
    exact ⟨q, htext.iff, hliteral.iff, hrest⟩

/-- A negative number below `1e-6` has an exponent in both texts, each in its own form. -/
theorem text_faithful_belowMillionth :
    isFinite (-1.5e-7) = true ∧ text (-1.5e-7) = "-1.5e-7" ∧ literalText (-1.5e-7) = "-1.5e-07" ∧
      (∃ q, Denotes "-1.5e-7" q ∧ Denotes "-1.5e-07" q) ∧ ofText "-1.5e-7" = .ok (-1.5e-7) := by
  have hfinite : isFinite (-1.5e-7) = true := by decide +kernel
  have htext : text (-1.5e-7) = "-1.5e-7" := by decide +kernel
  have hliteral : literalText (-1.5e-7) = "-1.5e-07" := by decide +kernel
  have hzero : isZero (-1.5e-7) = false := by decide +kernel
  obtain ⟨q, hq, hq', -, hread, -⟩ := text_faithful hfinite
  rw [htext] at hq hread
  rw [hliteral] at hq'
  rw [hzero] at hread
  exact ⟨hfinite, htext, hliteral, ⟨q, (hq q).mpr rfl, (hq' q).mpr rfl⟩, hread⟩

end Untangle.Number
