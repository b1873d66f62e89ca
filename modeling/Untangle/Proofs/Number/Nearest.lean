import Untangle.Number.Reading
import Untangle.Proofs.Number.Rounding

set_option autoImplicit false

/-!
# Nearest numbers

Products, quotients and decimals are rounded to the number that they lie around.  So a whole number with no more
significant bits than a mantissa has is kept, and a decimal that lies in the interval of a number is read as
that number.
-/

namespace Untangle.Binary64

open Float.Model Float.Model.UnpackedFloat

/-! ## Positive numbers -/

/-- A finite number greater than zero. -/
structure Positive (x : Float) : Prop where
  finite : isFinite x = true
  proper : isZero x = false
  sign : (parts x).negative = false

/-- A fraction lies in the interval of those that are rounded to a number. -/
structure RoundsTo (v : ℚ) (x : Float) : Prop extends Positive x where
  around : Around (parts x).mantissa (parts x).exponent (v / 2 ^ (parts x).exponent)

section

variable {x y z : Float} {v r : ℚ} {m m₁ m₂ : Nat} {e e₁ e₂ : Int} {accuracy : Accuracy}

theorem Positive.canonical (h : Positive x) : Canonical (parts x).mantissa (parts x).exponent :=
  (unpack_of_isFinite h.finite h.proper).1

theorem Positive.value_eq (h : Positive x) : value x = (parts x).mantissa * 2 ^ (parts x).exponent := by
  rw [value, Parts.value, h.sign]
  rfl

theorem Positive.value_pos (h : Positive x) : 0 < value x := by
  rw [h.value_eq]
  exact mul_pos (by exact_mod_cast h.canonical.pos) (two_zpow_pos _)

theorem Positive.unpack (h : Positive x) :
    x.toModel.unpack = .finite .positive (parts x).mantissa (parts x).exponent h.canonical.pos := by
  obtain ⟨-, hpos, heq⟩ := unpack_of_isFinite h.finite h.proper
  rw [heq, Parts.sign, h.sign]
  rfl

/-- A number is what it is rounded to. -/
theorem Positive.roundsTo (h : Positive x) : RoundsTo (value x) x := by
  refine ⟨h, ?_⟩
  rw [h.value_eq, mul_div_assoc, div_self (two_zpow_pos _).ne', mul_one]
  exact around_self _ _

theorem exists_positive (h : Canonical m e) : ∃ x, Positive x ∧ value x = m * 2 ^ e := by
  obtain ⟨x, hfinite, hproper, hparts⟩ := exists_of_canonical h false
  have hpos : Positive x := ⟨hfinite, hproper, by rw [hparts]⟩
  exact ⟨x, hpos, by rw [hpos.value_eq, hparts]⟩

/-! ## Rounding to a number -/

theorem RoundsTo.ofModel (h : RoundsTo v x) :
    Float.ofModel (.pack (.finite .positive (parts x).mantissa (parts x).exponent h.canonical.pos)) = x :=
  pack_finite h.finite h.proper (by rw [Parts.sign, h.sign]; rfl) rfl rfl _

theorem RoundsTo.roundWithAccuracy (h : RoundsTo v x)
    (hdescribes : Describes (.ofMantissaAndAccuracy m accuracy) r) (hfull : 52 ≤ m.log2 ∨ e ≤ -1074)
    (hvalue : r * 2 ^ e = v) :
    Float.ofModel (.pack (roundWithAccuracy .binary64 .positive m e accuracy)) = x := by
  have hq : r * 2 ^ e = v / 2 ^ (parts x).exponent * 2 ^ (parts x).exponent := by
    rw [hvalue, div_mul_cancel₀ _ (two_zpow_pos _).ne']
  rw [roundWithAccuracy_eq h.canonical h.around hdescribes hfull hq]
  exact h.ofModel

theorem log2_shiftLeft (hm : 0 < m) (k : Nat) : (m <<< k).log2 = m.log2 + k := by
  induction k with
  | zero => rfl
  | succ k ih =>
    rw [Nat.shiftLeft_succ, Nat.log2_two_mul (Nat.shiftLeft_pos_iff.mpr hm).ne', ih, Nat.add_assoc]

theorem RoundsTo.round (h : RoundsTo (m * 2 ^ e) x) (hm : 0 < m) :
    Float.ofModel (.pack (round .binary64 .positive m e)) = x := by
  obtain ⟨k, hk⟩ : ∃ k : Nat, (k : Int) = max (e - max (m.log2 + 1 + e - 53) (-1074)) 0 :=
    ⟨(max (e - max (m.log2 + 1 + e - 53) (-1074)) 0).toNat, by omega⟩
  have hshift : (e - Format.binary64.targetExponent (totalExponent m e)).toNat = k := by
    show (e - max (m.log2 + 1 + e - 53) (-1074)).toNat = k
    omega
  have hlog := log2_shiftLeft hm k
  show Float.ofModel (.pack (UnpackedFloat.roundWithAccuracy .binary64 .positive
    (m <<< (e - _ : Int).toNat) (e - ((e - _ : Int).toNat : Int)) .exact)) = x
  rw [hshift]
  refine h.roundWithAccuracy (describes_exact _) (by rw [hlog]; omega) ?_
  rw [Nat.shiftLeft_eq, zpow_sub₀ (by norm_num), zpow_natCast]
  push_cast
  field_simp

theorem RoundsTo.mul (h : RoundsTo (m₁ * 2 ^ e₁ * (m₂ * 2 ^ e₂)) x) (h₁ : 0 < m₁) (h₂ : 0 < m₂)
    (hfull : 2 ^ 52 ≤ m₁) :
    Float.ofModel (.pack (.mul .binary64 (.finite .positive m₁ e₁ h₁) (.finite .positive m₂ e₂ h₂))) = x := by
  have hlog : 52 ≤ (m₁ * m₂).log2 :=
    (Nat.le_log2 (Nat.mul_pos h₁ h₂).ne').mpr (hfull.trans (Nat.le_mul_of_pos_right m₁ h₂))
  refine h.roundWithAccuracy (describes_exact _) (.inl hlog) ?_
  rw [zpow_add₀ (by norm_num)]
  push_cast
  ring

/-- The dividend is shifted until the quotient has 53 digits, but the exponent is not less than the least one. -/
theorem divCore_binary64 (m₁ : Nat) (e₁ : Int) (m₂ : Nat) (e₂ : Int) {t : Int} {n : Nat}
    (ht : min (e₁ - e₂) (max (m₁.log2 + 1 + e₁ - (m₂.log2 + 1 + e₂) - 53) (-1074)) = t)
    (hn : (e₁ - e₂ - t).toNat = n) :
    divCore .binary64 m₁ e₁ m₂ e₂ = (m₁ <<< n / m₂, t, accuracyOfFraction (m₁ <<< n % m₂) m₂) := by
  subst hn ht
  rfl

/-- A quotient of numbers of which the first has 53 more digits has 53 digits itself. -/
theorem le_log2_div {a b : Nat} (ha : 0 < a) (hb : 0 < b) (h : b.log2 + 53 ≤ a.log2) :
    52 ≤ (a / b).log2 := by
  have hlow : 2 ^ 52 ≤ a / b := by
    rw [Nat.le_div_iff_mul_le hb]
    calc 2 ^ 52 * b ≤ 2 ^ 52 * 2 ^ (b.log2 + 1) := Nat.mul_le_mul_left _ Nat.lt_log2_self.le
      _ = 2 ^ (b.log2 + 53) := by rw [← pow_add]; congr 1; omega
      _ ≤ 2 ^ a.log2 := Nat.pow_le_pow_right (by decide) h
      _ ≤ a := Nat.log2_self_le ha.ne'
  exact (Nat.le_log2 (Nat.lt_of_lt_of_le (by decide) hlow).ne').mpr hlow

theorem RoundsTo.div (h : RoundsTo (m₁ * 2 ^ e₁ / (m₂ * 2 ^ e₂)) x) (h₁ : 0 < m₁) (h₂ : 0 < m₂) :
    Float.ofModel (.pack (.div .binary64 (.finite .positive m₁ e₁ h₁) (.finite .positive m₂ e₂ h₂))) = x := by
  obtain ⟨t, ht⟩ :
      ∃ t, min (e₁ - e₂) (max (m₁.log2 + 1 + e₁ - (m₂.log2 + 1 + e₂) - 53) (-1074)) = t := ⟨_, rfl⟩
  obtain ⟨n, hn⟩ : ∃ n : Nat, (n : Int) = e₁ - e₂ - t := ⟨(e₁ - e₂ - t).toNat, by omega⟩
  have hcore := divCore_binary64 m₁ e₁ m₂ e₂ ht (n := n) (by omega)
  have hlog := log2_shiftLeft h₁ n
  have hquotient : (m₁ * 2 ^ n : ℚ) / m₂ = (m₁ <<< n / m₂ : Nat) + (m₁ <<< n % m₂ : Nat) / m₂ := by
    have hpos : (m₂ : ℚ) ≠ 0 := by exact_mod_cast h₂.ne'
    have hdiv : (m₁ * 2 ^ n : ℚ) = m₂ * (m₁ <<< n / m₂ : Nat) + (m₁ <<< n % m₂ : Nat) := by
      exact_mod_cast (Nat.shiftLeft_eq m₁ n).symm.trans (Nat.div_add_mod _ m₂).symm
    rw [hdiv, add_div, mul_div_cancel_left₀ _ hpos]
  unfold UnpackedFloat.div
  dsimp only
  rw [hcore]
  refine h.roundWithAccuracy (describes_fraction _ (Nat.mod_lt _ h₂)) ?_ ?_
  · by_cases hleast : t ≤ -1074
    · exact .inr hleast
    · exact .inl (le_log2_div (Nat.shiftLeft_pos_iff.mpr h₁) h₂ (by omega))
  · have hexponent : e₁ = n + t + e₂ := by omega
    rw [← hquotient, hexponent, zpow_add₀ (by norm_num), zpow_add₀ (by norm_num), zpow_natCast]
    have hpos := two_zpow_pos e₂
    field_simp

/-! ## Whole numbers -/

/-- A whole number with no more significant bits than a mantissa. -/
theorem exists_whole {a k : Nat} (hpos : 0 < a) (hless : a < 2 ^ 53) (hk : k ≤ 971) :
    ∃ x, Positive x ∧ value x = a * 2 ^ k := by
  have hlog : a.log2 < 53 := (Nat.log2_lt hpos.ne').mpr hless
  obtain ⟨n, hn⟩ : ∃ n, a.log2 + n = 52 := ⟨52 - a.log2, by omega⟩
  have hfull : (a <<< n).log2 = 52 := (log2_shiftLeft hpos n).trans hn
  obtain ⟨hlow, hhigh⟩ := (Nat.log2_eq_iff (Nat.shiftLeft_pos_iff.mpr hpos).ne').mp hfull
  have hcanonical : Canonical (a <<< n) (k - n) :=
    ⟨Nat.shiftLeft_pos_iff.mpr hpos, hhigh, by omega, by omega, .inr hlow⟩
  obtain ⟨x, hx, hvalue⟩ := exists_positive hcanonical
  refine ⟨x, hx, hvalue.trans ?_⟩
  rw [Nat.shiftLeft_eq, zpow_sub₀ (by norm_num), zpow_natCast, zpow_natCast]
  push_cast
  field_simp

/-- A word that is a mantissa is kept. -/
theorem toFloat_toUInt64 {n : Nat} (hpos : 0 < n) (hless : n < 2 ^ 53) :
    Positive n.toUInt64.toFloat ∧ value n.toUInt64.toFloat = n := by
  obtain ⟨x, hx, hvalue⟩ := exists_whole hpos hless (Nat.zero_le 971)
  rw [pow_zero, mul_one] at hvalue
  have hrounds : RoundsTo (n * 2 ^ (0 : Int)) x := by
    rw [zpow_zero, mul_one, ← hvalue]
    exact hx.roundsTo
  have hword : n.toUInt64.toNat = n := Nat.mod_eq_of_lt (by omega)
  have heq : n.toUInt64.toFloat = x := by
    show Float.ofModel (.pack (UnpackedFloat.normalize .binary64 (n.toUInt64.toNat : Int) 0 .positive)) = x
    rw [hword, UnpackedFloat.normalize, Int.compare_eq_gt.mpr (by omega)]
    exact hrounds.round hpos
  rw [heq]
  exact ⟨hx, hvalue⟩

theorem powersOfTen_parts : ∀ n : Fin Float.exactlyRepresentablePowersOfTen.size,
    let x := Float.exactlyRepresentablePowersOfTen[n]
    isFinite x = true ∧ isZero x = false ∧ (parts x).negative = false ∧
      ∃ k : Fin 80, (parts x).exponent = k.val - 52 ∧ (parts x).mantissa * 2 ^ k.val = 10 ^ n.val * 2 ^ 52 := by
  decide +kernel

/-- The powers of ten that are numbers. -/
theorem powersOfTen {n : Nat} (hn : n < Float.exactlyRepresentablePowersOfTen.size) :
    Positive Float.exactlyRepresentablePowersOfTen[n] ∧
      value Float.exactlyRepresentablePowersOfTen[n] = 10 ^ n := by
  obtain ⟨hfinite, hproper, hsign, k, hk, hmantissa⟩ := powersOfTen_parts ⟨n, hn⟩
  have hpos : Positive Float.exactlyRepresentablePowersOfTen[n] := ⟨hfinite, hproper, hsign⟩
  refine ⟨hpos, ?_⟩
  have hcast : ((parts Float.exactlyRepresentablePowersOfTen[n]).mantissa : ℚ) * 2 ^ k.val =
    10 ^ n * 2 ^ 52 := by exact_mod_cast hmantissa
  rw [hpos.value_eq, show (parts Float.exactlyRepresentablePowersOfTen[n]).exponent = k.val - 52 from hk,
    zpow_sub₀ (by norm_num), zpow_natCast, mul_div_assoc', hcast]
  norm_num

/-- A number that is not less than one has a mantissa of full precision. -/
theorem Positive.full (h : Positive x) (hone : 1 ≤ value x) : 2 ^ 52 ≤ (parts x).mantissa := by
  refine h.canonical.full.resolve_left fun hleast => hone.not_gt ?_
  have hless : ((parts x).mantissa : ℚ) < 2 ^ (53 : Int) := by exact_mod_cast h.canonical.lt
  calc value x = (parts x).mantissa * 2 ^ (-1074 : Int) := by rw [h.value_eq, hleast]
    _ < 2 ^ (53 : Int) * 2 ^ (-1074 : Int) := mul_lt_mul_of_pos_right hless (two_zpow_pos _)
    _ = 2 ^ (-1021 : Int) := by rw [← zpow_add₀ (by norm_num)]; rfl
    _ ≤ 1 := zpow_le_one_of_nonpos₀ (by norm_num) (by norm_num)

/-! ## Decimals -/

/-- The exact way to read a decimal. -/
theorem RoundsTo.modelOfScientific {d : Nat} {n : Int} (hd : 0 < d) (hleast : -2048 ≤ n) (hgreatest : n ≤ 2048)
    (h : RoundsTo (d * 10 ^ n) x) : Float.ofModel (Float.Model.ofScientific d n) = x := by
  unfold Float.Model.ofScientific UnpackedFloat.ofScientific
  rw [dif_neg hd.ne', if_neg (by show ¬ n > 2 ^ 11; omega),
    if_neg (by show ¬ n < -(2 ^ 11 + (d.log2 : Int)); omega)]
  obtain hn | hn := le_or_gt 0 n
  · rw [if_pos hn]
    obtain ⟨k, rfl⟩ := Int.eq_ofNat_of_zero_le hn
    refine RoundsTo.mul ?_ _ _ ?_
    · convert h using 1
      show ((d <<< 53 : Nat) : ℚ) * 2 ^ (-53 : Int) * ((10 ^ k : Nat) * 2 ^ (0 : Int)) = _
      rw [Nat.shiftLeft_eq, zpow_natCast, zpow_zero, zpow_neg, mul_one]
      push_cast
      field_simp
    · show 2 ^ 52 ≤ d <<< 53
      rw [Nat.shiftLeft_eq]
      omega
  · rw [if_neg hn.not_ge]
    obtain ⟨k, rfl⟩ : ∃ k : Nat, n = -k := ⟨(-n).toNat, by omega⟩
    refine RoundsTo.div ?_ _ _
    convert h using 1
    rw [neg_neg, Int.toNat_natCast, zpow_zero, mul_one, mul_one, zpow_neg, zpow_natCast, ← div_eq_mul_inv]
    push_cast
    rfl

/-- Both ways to read a decimal. -/
theorem RoundsTo.ofScientific {d n : Nat} (hd : 0 < d) (hn : n ≤ 2048) (negative : Bool)
    (h : RoundsTo (d * 10 ^ (if negative then -n else n : Int)) x) :
    Float.ofScientific d negative n = x := by
  unfold Float.ofScientific
  split
  · next hsmall =>
    -- Both factors are numbers, so that only the operation rounds.
    obtain ⟨hx, hvalue⟩ := toFloat_toUInt64 hd hsmall.1
    have hindex : n < Float.exactlyRepresentablePowersOfTen.size := Nat.lt_succ_of_le hsmall.2
    obtain ⟨hp, hpower⟩ := powersOfTen hindex
    have hfull := hx.full (by rw [hvalue]; exact_mod_cast hd)
    cases negative with
    | true =>
      rw [if_pos rfl, zpow_neg, zpow_natCast, ← div_eq_mul_inv, ← hvalue, ← hpower, hx.value_eq,
        hp.value_eq] at h
      show Float.ofModel (.pack (.div .binary64 d.toUInt64.toFloat.toModel.unpack
        (Float.exactlyRepresentablePowersOfTen[n]).toModel.unpack)) = x
      rw [hx.unpack, hp.unpack]
      exact h.div _ _
    | false =>
      rw [if_neg Bool.false_ne_true, zpow_natCast, ← hvalue, ← hpower, hx.value_eq, hp.value_eq] at h
      show Float.ofModel (.pack (.mul .binary64 d.toUInt64.toFloat.toModel.unpack
        (Float.exactlyRepresentablePowersOfTen[n]).toModel.unpack)) = x
      rw [hx.unpack, hp.unpack]
      exact h.mul _ _ hfull
  · cases negative with
    | true =>
      show Float.ofModel (Float.Model.ofScientific d (Int.negOfNat n)) = x
      rw [Int.negOfNat_eq]
      exact RoundsTo.modelOfScientific (n := -(n : Int)) hd (by omega) (by omega) h
    | false => exact RoundsTo.modelOfScientific (n := (n : Int)) hd (by omega) (by omega) h

/-- The number of a natural number with no more significant bits than a mantissa. -/
theorem ofNat_whole {a k : Nat} (hpos : 0 < a) (hless : a < 2 ^ 53) (hk : k ≤ 971) :
    Positive (Float.ofNat (a * 2 ^ k)) ∧ value (Float.ofNat (a * 2 ^ k)) = a * 2 ^ k := by
  obtain ⟨x, hx, hvalue⟩ := exists_whole hpos hless hk
  have hrounds : RoundsTo ((a * 2 ^ k : Nat) * 10 ^ (if false then -(0 : Nat) else (0 : Nat) : Int)) x := by
    have hequal : ((a * 2 ^ k : Nat) : ℚ) * 10 ^ (if false then -(0 : Nat) else (0 : Nat) : Int) = value x := by
      rw [hvalue]
      simp
    rw [hequal]
    exact hx.roundsTo
  have heq : Float.ofNat (a * 2 ^ k) = x :=
    hrounds.ofScientific (Nat.mul_pos hpos (Nat.two_pow_pos k)) (Nat.zero_le 2048) false
  rw [heq]
  exact ⟨hx, hvalue⟩

theorem ofNat_zero : isFinite (Float.ofNat 0) = true ∧ (parts (Float.ofNat 0)).mantissa = 0 := by
  decide +kernel

/-- The number of an integer with no more significant bits than a mantissa is that integer. -/
theorem ofInt?_whole {n : Int} {a k : Nat} (hn : n.natAbs = a * 2 ^ k) (hless : a < 2 ^ 53) (hk : k ≤ 971) :
    ∃ x, ofInt? n = some x ∧ isFinite x = true ∧ value x = n := by
  have habs : isFinite (Float.ofNat n.natAbs) = true ∧ value (Float.ofNat n.natAbs) = n.natAbs := by
    rw [hn]
    obtain rfl | hpos := a.eq_zero_or_pos
    · obtain ⟨hfinite, hmantissa⟩ := ofNat_zero
      rw [Nat.zero_mul, value, Parts.value, Parts.magnitude, hmantissa]
      exact ⟨hfinite, by simp⟩
    · obtain ⟨hx, hvalue⟩ := ofNat_whole hpos hless hk
      exact ⟨hx.finite, by rw [hvalue]; push_cast; rfl⟩
  have hmap : ofInt? n = some (if n < 0 then -Float.ofNat n.natAbs else Float.ofNat n.natAbs) := by
    simp only [ofInt?, ofNat?, habs.1, if_true, Option.map_some]
  refine ⟨_, hmap, ?_⟩
  have hcast : (n.natAbs : ℚ) = |(n : ℚ)| := Nat.cast_natAbs n |>.trans (Int.cast_abs)
  split
  · next hneg =>
    have hneg' : (n : ℚ) < 0 := by exact_mod_cast hneg
    exact ⟨(neg_of_isFinite habs.1).1, by rw [value_neg habs.1, habs.2, hcast, abs_of_neg hneg', neg_neg]⟩
  · next hnonneg =>
    have hnonneg' : (0 : ℚ) ≤ n := by exact_mod_cast not_lt.mp hnonneg
    exact ⟨habs.1, by rw [habs.2, hcast, abs_of_nonneg hnonneg']⟩

/-- The bounds of the fractions that are rounded to a number. -/
theorem RoundsTo.bounds (h : RoundsTo v x) : 2 ^ (-1075 : Int) ≤ v ∧ v < 2 ^ (1024 : Int) := by
  have hm := h.canonical
  obtain ⟨hlow, hhigh⟩ := h.around.nearest.bounds
  have hpos := two_zpow_pos (parts x).exponent
  have hone : (1 : ℚ) ≤ (parts x).mantissa := by exact_mod_cast hm.pos
  have hless : ((parts x).mantissa : ℚ) + 1 ≤ 2 ^ (53 : Int) := by exact_mod_cast hm.lt
  rw [le_div_iff₀ hpos] at hlow
  rw [div_le_iff₀ hpos] at hhigh
  have hleast : (2 : ℚ) ^ (-1074 : Int) ≤ 2 ^ (parts x).exponent :=
    zpow_le_zpow_right₀ (by norm_num) hm.least
  have hgreatest : (2 : ℚ) ^ (parts x).exponent ≤ 2 ^ (971 : Int) :=
    zpow_le_zpow_right₀ (by norm_num) hm.greatest
  constructor
  · calc (2 : ℚ) ^ (-1075 : Int) = 1 / 2 * 2 ^ (-1074 : Int) := by
          rw [show (-1075 : Int) = -1 + -1074 by rfl, zpow_add₀ (by norm_num)]; norm_num
      _ ≤ ((parts x).mantissa - 1 / 2) * 2 ^ (parts x).exponent := by
          exact mul_le_mul (by linarith) hleast (two_zpow_pos _).le (by linarith)
      _ ≤ v := hlow
  · calc v ≤ ((parts x).mantissa + 1 / 2) * 2 ^ (parts x).exponent := hhigh
      _ < 2 ^ (53 : Int) * 2 ^ (parts x).exponent := mul_lt_mul_of_pos_right (by linarith) hpos
      _ ≤ 2 ^ (53 : Int) * 2 ^ (971 : Int) := mul_le_mul_of_nonneg_left hgreatest (two_zpow_pos _).le
      _ = 2 ^ (1024 : Int) := by rw [← zpow_add₀ (by norm_num)]; rfl

/-! ## Powers of two and of ten -/

theorem ten_pow_le {k b : Nat} (h : 10 * k ≤ 3 * b) : (10 : ℚ) ^ k ≤ 2 ^ b := by
  rw [← pow_le_pow_iff_left₀ (by positivity) (by positivity) (show 3 ≠ 0 by decide)]
  calc ((10 : ℚ) ^ k) ^ 3 = (10 ^ 3) ^ k := pow_right_comm 10 k 3
    _ ≤ (2 ^ 10) ^ k := pow_le_pow_left₀ (by norm_num) (by norm_num) k
    _ = 2 ^ (10 * k) := (pow_mul 2 10 k).symm
    _ ≤ 2 ^ (b * 3) := pow_le_pow_right₀ (by norm_num) (by omega)
    _ = (2 ^ b) ^ 3 := pow_mul 2 b 3

theorem two_pow_le {b k : Nat} (h : 28 * b ≤ 93 * k) : (2 : ℚ) ^ b ≤ 10 ^ k := by
  rw [← pow_le_pow_iff_left₀ (by positivity) (by positivity) (show 93 ≠ 0 by decide)]
  calc ((2 : ℚ) ^ b) ^ 93 = (2 ^ 93) ^ b := pow_right_comm 2 b 93
    _ ≤ (10 ^ 28) ^ b := pow_le_pow_left₀ (by norm_num) (by norm_num) b
    _ = 10 ^ (28 * b) := (pow_mul 10 28 b).symm
    _ ≤ 10 ^ (k * 93) := pow_le_pow_right₀ (by norm_num) (by omega)
    _ = (10 ^ k) ^ 93 := pow_mul 10 k 93

theorem zpow_neg_le {a b : ℚ} (ha : 0 < a) {m n : Int} (h : a ^ m ≤ b ^ n) : b ^ (-n) ≤ a ^ (-m) := by
  rw [zpow_neg, zpow_neg]
  exact inv_anti₀ (zpow_pos ha m) h

/-- The decimal logarithm of two lies between 3/10 and 28/93. -/
theorem ten_zpow_le {k b : Int} (h : 10 * k ≤ 3 * b) (h' : 93 * k ≤ 28 * b) : (10 : ℚ) ^ k ≤ 2 ^ b := by
  obtain hk | hk := le_or_gt 0 k
  · obtain ⟨k, rfl⟩ := Int.eq_ofNat_of_zero_le hk
    obtain ⟨b, rfl⟩ := Int.eq_ofNat_of_zero_le (show 0 ≤ b by omega)
    rw [zpow_natCast, zpow_natCast]
    exact ten_pow_le (by omega)
  · obtain hb | hb := le_or_gt 0 b
    · exact (zpow_le_one_of_nonpos₀ (by norm_num) hk.le).trans (one_le_zpow₀ (by norm_num) hb)
    · obtain ⟨k, rfl⟩ : ∃ n : Nat, k = -n := ⟨(-k).toNat, by omega⟩
      obtain ⟨b, rfl⟩ : ∃ n : Nat, b = -n := ⟨(-b).toNat, by omega⟩
      refine zpow_neg_le (by norm_num) ?_
      rw [zpow_natCast, zpow_natCast]
      exact two_pow_le (by omega)

theorem two_zpow_le {b k : Int} (h : 3 * b ≤ 10 * k) (h' : 28 * b ≤ 93 * k) : (2 : ℚ) ^ b ≤ 10 ^ k := by
  have hneg : (10 : ℚ) ^ (-k) ≤ 2 ^ (-b) := ten_zpow_le (by omega) (by omega)
  have hpos := zpow_neg_le (by norm_num) hneg
  rwa [neg_neg, neg_neg] at hpos

end

end Untangle.Binary64

namespace Untangle.Number

open Binary64

/-- A decimal that lies in the interval of a number is read as that number. -/
theorem ofDecimal_eq {d : Nat} {n : Int} {x : Float} (hd : 0 < d) (hless : d < 2 ^ 80)
    (h : RoundsTo (d * 10 ^ n) x) : ofDecimal d n = x := by
  obtain ⟨hleast, hgreatest⟩ := h.bounds
  have hlog : d.log2 < 80 := (Nat.log2_lt hd.ne').mpr hless
  obtain ⟨t, ht⟩ : ∃ t : Int, (d.log2 : Int) * 30103 / 100000 = t := ⟨_, rfl⟩
  have hten : (0 : ℚ) < 10 ^ n := zpow_pos (by norm_num) n
  have hpow : ∀ {a b : Int}, (10 : ℚ) ^ a < 10 ^ b → a < b := (zpow_lt_zpow_iff_right₀ (by norm_num)).mp
  -- The estimate of the place of the first digit is off by less than two places.
  have hlow : (10 : ℚ) ^ t ≤ d := by
    calc (10 : ℚ) ^ t ≤ 2 ^ (d.log2 : Int) := ten_zpow_le (by omega) (by omega)
      _ ≤ d := by rw [zpow_natCast]; exact_mod_cast Nat.log2_self_le hd.ne'
  have hhigh : (d : ℚ) < 10 ^ (t + 2) := by
    calc (d : ℚ) < 2 ^ ((d.log2 + 1 : Nat) : Int) := by rw [zpow_natCast]; exact_mod_cast Nat.lt_log2_self
      _ ≤ 10 ^ (t + 2) := two_zpow_le (by omega) (by omega)
  have htop : t + n < 311 := by
    refine hpow ?_
    calc (10 : ℚ) ^ (t + n) = 10 ^ t * 10 ^ n := zpow_add₀ (by norm_num) t n
      _ ≤ d * 10 ^ n := mul_le_mul_of_nonneg_right hlow hten.le
      _ < 2 ^ (1024 : Int) := hgreatest
      _ ≤ 10 ^ (311 : Int) := two_zpow_le (by decide) (by decide)
  have hbottom : -324 < t + 2 + n := by
    refine hpow ?_
    calc (10 : ℚ) ^ (-324 : Int) ≤ 2 ^ (-1075 : Int) := ten_zpow_le (by decide) (by decide)
      _ ≤ d * 10 ^ n := hleast
      _ < 10 ^ (t + 2) * 10 ^ n := mul_lt_mul_of_pos_right hhigh hten
      _ = 10 ^ (t + 2 + n) := (zpow_add₀ (by norm_num) _ _).symm
  unfold ofDecimal
  rw [if_neg hd.ne']
  dsimp only
  rw [ht, if_neg (by omega), if_neg (by omega)]
  split
  · next hn =>
    refine RoundsTo.ofScientific hd (by omega) false ?_
    rw [if_neg Bool.false_ne_true, Int.toNat_of_nonneg hn]
    exact h
  · next hn =>
    refine RoundsTo.ofScientific hd (by omega) true ?_
    rw [if_pos rfl, Int.toNat_of_nonneg (by omega), neg_neg]
    exact h

end Untangle.Number
