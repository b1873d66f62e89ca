import Untangle.Proofs.Number.Magnitude

set_option autoImplicit false

/-!
# Rounding

A fraction is rounded by a mantissa with two more bits: half a unit, and whether there is anything below that.
A number has an interval of fractions around it that are rounded to it.  The interval reaches half a step to
either side, or a quarter of one below a power of two, where the steps become smaller; its ends belong to it if
the mantissa is even.
-/

namespace Untangle.Binary64

open Float.Model Float.Model.UnpackedFloat

/-! ## Mantissas with residual bits -/

/-- A mantissa with residual bits describes a fraction. -/
def Describes (em : ExtendedMantissa) (r : ℚ) : Prop :=
  ∃ rest : ℚ, 0 ≤ rest ∧ rest < 1 / 2 ∧ (rest = 0 ↔ em.stickyBit = false) ∧
    r = em.mantissa + (if em.roundBit then 1 / 2 else 0) + rest

section

variable {em : ExtendedMantissa} {r : ℚ}

theorem Describes.bounds (h : Describes em r) : em.mantissa ≤ r ∧ r < em.mantissa + 1 := by
  obtain ⟨rest, hnonneg, hless, -, rfl⟩ := h
  split <;> constructor <;> linarith

theorem Describes.shiftRightOne (h : Describes em r) : Describes em.shiftRightOne (r / 2) := by
  obtain ⟨rest, hnonneg, hless, hsticky, rfl⟩ := h
  have hhalves : (em.mantissa : ℚ) = 2 * (em.mantissa / 2 : Nat) + (em.mantissa % 2 : Nat) := by
    exact_mod_cast (Nat.div_add_mod em.mantissa 2).symm
  have hround : (if em.mantissa % 2 != 0 then 1 / 2 else 0 : ℚ) = (em.mantissa % 2 : Nat) / 2 := by
    obtain heven | hodd := Nat.mod_two_eq_zero_or_one em.mantissa
    · simp [heven]
    · simp [hodd]
  refine ⟨((if em.roundBit then 1 / 2 else 0) + rest) / 2, ?_, ?_, ?_, ?_⟩
  · split <;> linarith
  · split <;> linarith
  · show _ ↔ (em.roundBit || em.stickyBit) = false
    rw [Bool.or_eq_false_iff, ← hsticky]
    cases em.roundBit with
    | true =>
      refine iff_of_false ?_ (fun h => nomatch h.1)
      simp only [if_true]
      intro hzero
      linarith
    | false =>
      simp
  · show _ = ((em.mantissa / 2 : Nat) : ℚ) + (if em.mantissa % 2 != 0 then 1 / 2 else 0) + _
    rw [hround, hhalves]
    ring

theorem Describes.shiftRight (h : Describes em r) (n : Nat) : Describes (em >>> n) (r / 2 ^ n) := by
  induction n with
  | zero =>
    rw [pow_zero, div_one]
    exact h
  | succ n ih =>
    rw [pow_succ, ← div_div]
    exact ih.shiftRightOne

theorem describes_exact (m : Nat) : Describes (.ofMantissaAndAccuracy m .exact) m :=
  ⟨0, le_refl _, by norm_num, iff_of_true rfl rfl, by simp [ExtendedMantissa.ofMantissaAndAccuracy]⟩

/-- The quotient of two whole numbers. -/
theorem describes_fraction (m : Nat) {num den : Nat} (h : num < den) :
    Describes (.ofMantissaAndAccuracy m (accuracyOfFraction num den)) (m + num / den) := by
  have hden : (0 : ℚ) < den := by exact_mod_cast Nat.zero_lt_of_lt h
  have hless : (num : ℚ) < den := by exact_mod_cast h
  unfold accuracyOfFraction
  split
  · next hzero =>
    subst hzero
    simpa using describes_exact m
  · next hzero =>
    have hpos : (0 : ℚ) < num / den := div_pos (by exact_mod_cast Nat.pos_of_ne_zero hzero) hden
    have hone : (num : ℚ) / den < 1 := (div_lt_one hden).mpr hless
    cases hcompare : compare (2 * num) den with
    | lt =>
      have hhalf : (2 * num : ℚ) < den := by exact_mod_cast Nat.compare_eq_lt.mp hcompare
      have hbelow : (num : ℚ) / den < 1 / 2 := by rw [div_lt_iff₀ hden]; linarith
      exact ⟨num / den, hpos.le, hbelow, iff_of_false hpos.ne' nofun,
        by simp [ExtendedMantissa.ofMantissaAndAccuracy]⟩
    | eq =>
      have hhalf : (2 * num : ℚ) = den := by exact_mod_cast Nat.compare_eq_eq.mp hcompare
      have hequal : (num : ℚ) / den = 1 / 2 := by rw [div_eq_iff hden.ne']; linarith
      exact ⟨0, le_refl _, by norm_num, iff_of_true rfl rfl,
        by rw [hequal]; simp [ExtendedMantissa.ofMantissaAndAccuracy]⟩
    | gt =>
      have hhalf : (den : ℚ) < 2 * num := by exact_mod_cast Nat.compare_eq_gt.mp hcompare
      have habove : 1 / 2 < (num : ℚ) / den := by rw [lt_div_iff₀ hden]; linarith
      refine ⟨num / den - 1 / 2, by linarith, by linarith, iff_of_false (by linarith) nofun, ?_⟩
      simp only [ExtendedMantissa.ofMantissaAndAccuracy, if_true]
      ring

/-- A whole number is the nearest one to a fraction, and the even one of two that are. -/
def Nearest (n : Nat) (r : ℚ) : Prop :=
  (n - 1 / 2 < r ∨ n % 2 = 0 ∧ n - 1 / 2 = r) ∧ (r < n + 1 / 2 ∨ n % 2 = 0 ∧ r = n + 1 / 2)

theorem Nearest.bounds {n : Nat} (h : Nearest n r) : n - 1 / 2 ≤ r ∧ r ≤ n + 1 / 2 := by
  obtain ⟨hlow | ⟨-, hlow⟩, hhigh | ⟨-, hhigh⟩⟩ := h <;> constructor <;> linarith

/-- The nearest whole number is the rounded mantissa. -/
theorem Describes.roundedMantissa (h : Describes em r) {n : Nat} (hn : Nearest n r) :
    em.roundedMantissa = n := by
  obtain ⟨hlow, hhigh⟩ := hn.bounds
  obtain ⟨m, round, sticky⟩ := em
  obtain ⟨rest, hnonneg, hless, hsticky, hr⟩ := h
  simp only at hr hsticky
  have hcast : ∀ {a b : Nat}, (a : ℚ) < b + 1 → a ≤ b := by
    intro a b hab
    exact Nat.lt_succ_iff.mp (by exact_mod_cast hab)
  cases round with
  | false =>
    have hle : n ≤ m := hcast (by simp only [Bool.false_eq_true, if_false] at hr; linarith)
    have hge : m ≤ n := hcast (by simp only [Bool.false_eq_true, if_false] at hr; linarith)
    cases sticky <;> exact Nat.le_antisymm hge hle
  | true =>
    simp only [if_true] at hr
    cases sticky with
    | true =>
      have hpos : 0 < rest := lt_of_le_of_ne hnonneg fun hzero => nomatch hsticky.mp hzero.symm
      have hle : n ≤ m + 1 := hcast (by push_cast; linarith)
      have hge : m + 1 ≤ n := hcast (by push_cast; linarith)
      exact Nat.le_antisymm hge hle
    | false =>
      cases hsticky.mpr rfl
      have hle : n ≤ m + 1 := hcast (by push_cast; linarith)
      have hge : m ≤ n := hcast (by linarith)
      show m + m % 2 = n
      -- Half way between two whole numbers the even one is taken.
      obtain rfl | rfl : n = m ∨ n = m + 1 := by omega
      · obtain hstrict | ⟨heven, -⟩ := hn.2
        · linarith
        · omega
      · obtain hstrict | ⟨heven, -⟩ := hn.1
        · push_cast at hstrict
          linarith
        · omega

end

/-! ## Fractions around a number -/

/-- How far below a mantissa the fractions begin that are rounded to it. -/
def gapBelow (m : Nat) (e : Int) : ℚ := if m = 2 ^ 52 ∧ -1074 < e then 1 / 4 else 1 / 2

/-- The fraction `q · 2 ^ e` is rounded to `m · 2 ^ e`. -/
def Around (m : Nat) (e : Int) (q : ℚ) : Prop :=
  (m - gapBelow m e < q ∨ m % 2 = 0 ∧ m - gapBelow m e = q) ∧
    (q < m + 1 / 2 ∨ m % 2 = 0 ∧ q = m + 1 / 2)

section

variable {m : Nat} {e : Int} {q : ℚ}

theorem gapBelow_bounds (m : Nat) (e : Int) : 1 / 4 ≤ gapBelow m e ∧ gapBelow m e ≤ 1 / 2 := by
  unfold gapBelow
  split <;> norm_num

theorem around_self (m : Nat) (e : Int) : Around m e m := by
  have hgap := (gapBelow_bounds m e).1
  exact ⟨.inl (by linarith), .inl (by linarith)⟩

theorem Around.nearest (h : Around m e q) : Nearest m q := by
  obtain ⟨hlow, hhigh⟩ := h
  have hgap := (gapBelow_bounds m e).2
  refine ⟨?_, hhigh⟩
  obtain hlow | ⟨heven, hlow⟩ := hlow
  · exact .inl (by linarith)
  · obtain hless | hequal := hgap.lt_or_eq
    · exact .inl (by linarith)
    · exact .inr ⟨heven, by rw [← hequal]; exact hlow⟩

theorem Around.le (h : Around m e q) : m - gapBelow m e ≤ q := by
  obtain ⟨hlow | ⟨-, hlow⟩, -⟩ := h
  · exact hlow.le
  · exact hlow.le

/-- A fraction around a number has the exponent of that number when it is written with 53 digits, or it lies
below a power of two and has the next smaller one. -/
theorem Around.exponent (h : Around m e q) (hm : Canonical m e) {t : Int} {r : ℚ}
    (hvalue : r * 2 ^ t = q * 2 ^ e) (hless : r < 2 ^ 53) (hleast : -1074 ≤ t)
    (hfull : t = -1074 ∨ 2 ^ 52 ≤ r) :
    t = e ∧ r = q ∨ t + 1 = e ∧ m = 2 ^ 52 ∧ Nearest (2 ^ 53) r := by
  obtain ⟨hlow, hhigh⟩ := h.nearest.bounds
  have hscaled : ∀ {k : Nat} {a b : ℚ}, a * 2 ^ t * 2 ^ k = b * 2 ^ t → a * 2 ^ k = b := by
    intro k a b hab
    have hpos := two_zpow_pos t
    field_simp at hab
    linarith
  obtain hbelow | rfl | habove := lt_trichotomy t e
  · -- The exponent is less: then the fraction is one below the least mantissa of full precision.
    obtain ⟨k, rfl⟩ : ∃ k : Nat, e = t + (k + 1 : Nat) := ⟨(e - t - 1).toNat, by omega⟩
    have hr : r = q * 2 ^ (k + 1) := by
      refine (hscaled ?_).symm
      rw [hvalue, zpow_add₀ (by norm_num), zpow_natCast]
      ring
    have hmantissa : (2 ^ 52 : ℚ) ≤ m := by
      exact_mod_cast hm.full.resolve_left (by omega)
    have hk : k = 0 := by
      by_contra hk
      have hfour : (4 : ℚ) ≤ 2 ^ (k + 1) := by
        calc (4 : ℚ) = 2 ^ 2 := by norm_num
          _ ≤ 2 ^ (k + 1) := pow_le_pow_right₀ (by norm_num) (by omega)
      nlinarith
    subst hk
    have hequal : m = 2 ^ 52 := by
      by_contra hne
      have hmore : (2 ^ 52 + 1 : ℚ) ≤ m := by
        exact_mod_cast lt_of_le_of_ne (by exact_mod_cast hmantissa) (Ne.symm hne)
      norm_num at hr hless
      linarith
    have hgap : (m : ℚ) - 1 / 4 ≤ q := by
      have hle := h.le
      rwa [gapBelow, if_pos ⟨hequal, by omega⟩] at hle
    refine .inr ⟨by omega, hequal, ?_, .inl ?_⟩
    · rw [hequal] at hgap
      norm_num at hr hgap ⊢
      exact le_iff_lt_or_eq.mp (by linarith)
    · norm_num at hless ⊢
      linarith
  · exact .inl ⟨rfl, mul_right_cancel₀ (two_zpow_pos t).ne' hvalue⟩
  · -- The exponent is greater: then the fraction is one beyond the greatest mantissa.
    obtain ⟨k, rfl⟩ : ∃ k : Nat, t = e + (k + 1 : Nat) := ⟨(t - e - 1).toNat, by omega⟩
    have hq : q = r * 2 ^ (k + 1) := by
      have hpos := two_zpow_pos e
      rw [zpow_add₀ (by norm_num), zpow_natCast] at hvalue
      exact mul_right_cancel₀ hpos.ne' (by rw [← hvalue]; ring)
    have hr : (2 ^ 52 : ℚ) ≤ r := hfull.resolve_left (by have := hm.least; omega)
    have hmantissa : (m : ℚ) + 1 ≤ 2 ^ 53 := by exact_mod_cast hm.lt
    have htwo : (2 : ℚ) ≤ 2 ^ (k + 1) := by
      calc (2 : ℚ) = 2 ^ 1 := by norm_num
        _ ≤ 2 ^ (k + 1) := pow_le_pow_right₀ (by norm_num) (by omega)
    nlinarith

end

/-! ## Rounding in the format -/

section

variable {m : Nat} {e : Int} {q r : ℚ} {mantissa : Nat} {exponent : Int} {accuracy : Accuracy}

/-- The mantissa is shifted until it has 53 digits, but the exponent is not less than the least one. -/
theorem shiftToTargetExponent_binary64 (m : Nat) (e : Int) (a : Accuracy) {n : Nat}
    (h : (max (m.log2 + 1 + e - 53) (-1074) - e).toNat = n) :
    shiftToTargetExponent .binary64 m e a = (ExtendedMantissa.ofMantissaAndAccuracy m a >>> n, e + n) := by
  subst h
  rfl

theorem shiftToTargetExponent_canonical (hm : Canonical m e) :
    shiftToTargetExponent .binary64 m e .exact = (.ofMantissaAndAccuracy m .exact, e) := by
  have hlog : m.log2 < 53 := (Nat.log2_lt hm.pos.ne').mpr hm.lt
  have hleast := hm.least
  rw [shiftToTargetExponent_binary64 m e .exact (show _ = 0 by omega)]
  exact congrArg _ (add_zero e)

/-- A mantissa that was rounded up to the next power of two. -/
theorem shiftToTargetExponent_carry {t : Int} (h : -1074 ≤ t) :
    shiftToTargetExponent .binary64 (2 ^ 53) t .exact = (.ofMantissaAndAccuracy (2 ^ 52) .exact, t + 1) := by
  have hlog : (2 ^ 53).log2 = 53 := Nat.log2_two_pow
  rw [shiftToTargetExponent_binary64 (2 ^ 53) t .exact (show _ = 1 by omega)]
  rfl

/-- The mantissa of a fraction, and the exponent at which it has 53 digits. -/
theorem exists_shiftToTargetExponent
    (hdescribes : Describes (.ofMantissaAndAccuracy mantissa accuracy) r)
    (hfull : 52 ≤ mantissa.log2 ∨ exponent ≤ -1074) :
    ∃ em t r', shiftToTargetExponent .binary64 mantissa exponent accuracy = (em, t) ∧ Describes em r' ∧
      r' * 2 ^ t = r * 2 ^ exponent ∧ r' < 2 ^ 53 ∧ -1074 ≤ t ∧ (t = -1074 ∨ 2 ^ 52 ≤ r') := by
  obtain ⟨n, hn⟩ : ∃ n : Nat, (n : Int) = max (mantissa.log2 + 1 + exponent - 53) (-1074) - exponent :=
    ⟨(max (mantissa.log2 + 1 + exponent - 53) (-1074) - exponent).toNat, by omega⟩
  have hbase : (ExtendedMantissa.ofMantissaAndAccuracy mantissa accuracy).mantissa = mantissa := by
    obtain _ | ⟨_ | _ | _⟩ := accuracy <;> rfl
  obtain ⟨hlow, hhigh⟩ := hdescribes.bounds
  rw [hbase] at hlow hhigh
  have hpos : (0 : ℚ) < 2 ^ n := by positivity
  refine ⟨_, exponent + n, r / 2 ^ n, shiftToTargetExponent_binary64 _ _ _ (by omega),
    hdescribes.shiftRight n, ?_, ?_, by omega, ?_⟩
  · rw [zpow_add₀ (by norm_num), zpow_natCast]
    field_simp
  · have hdigits : (mantissa : ℚ) + 1 ≤ 2 ^ (53 + n) := by
      have hless : mantissa < 2 ^ (mantissa.log2 + 1) := Nat.lt_log2_self
      have hpow : 2 ^ (mantissa.log2 + 1) ≤ 2 ^ (53 + n) := Nat.pow_le_pow_right (by decide) (by omega)
      exact_mod_cast hless.trans_le hpow
    rw [div_lt_iff₀ hpos, ← pow_add]
    linarith
  · by_cases hleast : exponent + n = -1074
    · exact .inl hleast
    · refine .inr ?_
      have hlog : mantissa.log2 = 52 + n := by omega
      have hmantissa : (2 ^ (52 + n) : ℚ) ≤ mantissa := by
        rw [← hlog]
        exact_mod_cast Nat.log2_self_le fun hzero => by simp only [hzero, Nat.log2_zero] at hlog; omega
      rw [le_div_iff₀ hpos, ← pow_add]
      linarith

/-- Rounding a fraction around a number, which may be given with some accuracy. -/
theorem roundWithAccuracy_eq (hm : Canonical m e) (haround : Around m e q)
    (hdescribes : Describes (.ofMantissaAndAccuracy mantissa accuracy) r)
    (hfull : 52 ≤ mantissa.log2 ∨ exponent ≤ -1074) (hvalue : r * 2 ^ exponent = q * 2 ^ e) (s : Sign) :
    roundWithAccuracy .binary64 s mantissa exponent accuracy = .finite s m e hm.pos := by
  obtain ⟨em, t, r', hshift, hdescribes', hvalue', hless, hleast, hfull'⟩ :=
    exists_shiftToTargetExponent hdescribes hfull
  have hagain : shiftToTargetExponent .binary64 em.roundedMantissa t .exact =
      (.ofMantissaAndAccuracy m .exact, e) := by
    obtain ⟨rfl, rfl⟩ | ⟨rfl, rfl, hnearest⟩ :=
      haround.exponent hm (hvalue'.trans hvalue) hless hleast hfull'
    · rw [hdescribes'.roundedMantissa haround.nearest]
      exact shiftToTargetExponent_canonical hm
    · rw [hdescribes'.roundedMantissa hnearest]
      exact shiftToTargetExponent_carry hleast
  unfold roundWithAccuracy
  rw [hshift]
  dsimp only
  rw [hagain]
  exact dif_neg hm.pos.ne'

end

end Untangle.Binary64
