import Mathlib.Data.Int.Log
import Untangle.Proofs.Number.Nearest

set_option autoImplicit false

/-!
# Natural numbers among the numbers

A natural number below `2 ^ 53` is a number, and so are the differences, the remainders and the quotients without
rest of two of them.  Other quotients are rounded, but not beyond the bound.

A number is whole if its value is an integer.  What is left of any number without its fraction has no more significant
bits than a mantissa, so that it is a number again.
-/

namespace Untangle.Binary64

open Float.Model Float.Model.UnpackedFloat

section

variable {x : Float} {v : ℚ} {a b m n : Nat} {e : Int}

/-! ## Exponents and bits -/

/-- Fractions that are rounded below `2 ^ 53` are rounded to mantissas that may have a fraction but no zeros
appended. -/
theorem RoundsTo.exponent_nonpos (h : RoundsTo v x) (hv : v ≤ 2 ^ 53 - 1) : (parts x).exponent ≤ 0 := by
  by_contra hmore
  have hpos := two_zpow_pos (parts x).exponent
  have htwo : (2 : ℚ) ≤ 2 ^ (parts x).exponent := by
    calc (2 : ℚ) = 2 ^ (1 : Int) := (zpow_one 2).symm
      _ ≤ 2 ^ (parts x).exponent := zpow_le_zpow_right₀ (by norm_num) (by omega)
  have hfull : 2 ^ 52 ≤ (parts x).mantissa := h.canonical.full.resolve_left (by omega)
  have hlow : 2 ^ 52 - 1 / 4 ≤ v / 2 ^ (parts x).exponent := by
    -- Only the least mantissa of full precision has a quarter of a step below it.
    have hle := h.around.le
    obtain hequal | hless := hfull.eq_or_lt
    · rw [gapBelow, if_pos ⟨hequal.symm, by omega⟩, ← hequal] at hle
      exact_mod_cast hle
    · have hgap := (gapBelow_bounds (parts x).mantissa (parts x).exponent).2
      have hmore' : (2 ^ 52 + 1 : ℚ) ≤ (parts x).mantissa := by exact_mod_cast hless
      linarith
  rw [le_div_iff₀ hpos] at hlow
  have hdouble : (2 ^ 52 - 1 / 4 : ℚ) * 2 ≤ (2 ^ 52 - 1 / 4) * 2 ^ (parts x).exponent :=
    mul_le_mul_of_nonneg_left htwo (by norm_num)
  norm_num at hdouble hv hlow
  linarith

/-- A number of full precision, bit by bit. -/
theorem Positive.toNat_toBits (h : Positive x) (hfull : 2 ^ 52 ≤ (parts x).mantissa) :
    x.toBits.toNat = ((parts x).exponent + 1075).toNat * leadingBit + ((parts x).mantissa - leadingBit) := by
  obtain ⟨s, e, m, hbits⟩ := exists_assemble x.toModel.toBits.toBitVec
  have hparts := parts_of_bits hbits
  have hm := m.isLt
  have hsign := h.sign
  rw [toNat_of_bits hbits]
  split at hparts
  · rw [hparts] at hfull
    dsimp only at hfull
    omega
  · rw [hparts] at hsign ⊢
    cases s with
    | negative => cases hsign
    | positive =>
      have hzero : Sign.positive.toBitVec.toNat = 0 := rfl
      dsimp only
      rw [hzero, leadingBit]
      omega

/-- Equal magnitudes differ in zeros at the end of one of the mantissas. -/
theorem exists_shift {m' : Nat} {e' : Int} (h : (m * 2 ^ e : ℚ) = m' * 2 ^ e') :
    (∃ d : Nat, e' = e + d ∧ m = m' * 2 ^ d) ∨ ∃ d : Nat, e = e' + d ∧ m' = m * 2 ^ d := by
  have hshift : ∀ {a b : Nat} {i : Int} {d : Nat}, (a * 2 ^ i : ℚ) = b * 2 ^ (i + d) → a = b * 2 ^ d := by
    intro a b i d heq
    rw [zpow_add₀ (by norm_num), zpow_natCast, mul_left_comm, mul_comm] at heq
    exact_mod_cast mul_left_cancel₀ (two_zpow_pos i).ne' heq
  obtain hle | hle := le_total e e'
  · obtain ⟨d, hd⟩ := Int.le.dest hle
    exact .inl ⟨d, hd.symm, hshift (hd ▸ h)⟩
  · obtain ⟨d, hd⟩ := Int.le.dest hle
    exact .inr ⟨d, hd.symm, hshift (hd ▸ h.symm)⟩

/-- A mantissa of any length is shifted to the one of full precision that stands for the same magnitude. -/
theorem shift_to_full {m' : Nat} {e' : Int} (hlog : m'.log2 = 52) (hpos : 0 < m) (h : (m * 2 ^ e : ℚ) = m' * 2 ^ e') :
    e + m.log2 = e' + 52 ∧ (if m.log2 ≤ 52 then m <<< (52 - m.log2) else m >>> (m.log2 - 52)) = m' := by
  obtain ⟨d, hd, rfl⟩ | ⟨d, hd, rfl⟩ := exists_shift h
  · have hm : (m' * 2 ^ d).log2 = 52 + d := by
      rw [← Nat.shiftLeft_eq, log2_shiftLeft (Nat.pos_of_mul_pos_right hpos), hlog]
    refine ⟨by omega, ?_⟩
    split
    · have hzero : d = 0 := by omega
      subst hzero
      rw [hm, pow_zero, mul_one]
      rfl
    · rw [hm, Nat.add_sub_cancel_left, ← Nat.shiftLeft_eq, Nat.shiftLeft_shiftRight]
  · have hm : m.log2 + d = 52 := by
      rw [← log2_shiftLeft hpos, Nat.shiftLeft_eq, hlog]
    refine ⟨by omega, ?_⟩
    rw [if_pos (by omega), Nat.shiftLeft_eq, ← hm, Nat.add_sub_cancel_left]

/-- Parts of any length are put together to the number they stand for, if it has full precision. -/
theorem ofParts_eq (h : Positive x) (hfull : 2 ^ 52 ≤ (parts x).mantissa) (hvalue : value x = m * 2 ^ e) :
    ofParts false m e = x := by
  have hm := h.canonical
  have hleast := hm.least
  have hlog : (parts x).mantissa.log2 = 52 := (Nat.log2_eq_iff hm.pos.ne').mpr ⟨hfull, hm.lt⟩
  have hne : m ≠ 0 := by
    rintro rfl
    have hpos := h.value_pos
    simp [hvalue] at hpos
  obtain ⟨htop, hshifted⟩ := shift_to_full hlog (Nat.pos_of_ne_zero hne) (hvalue.symm.trans h.value_eq)
  have hexponent : ((parts x).exponent + 52 + 1023).toNat = ((parts x).exponent + 1075).toNat := by
    congr 1
    omega
  unfold ofParts
  simp only [hne, if_false, htop, hshifted, Bool.false_eq_true, Nat.zero_add]
  rw [if_neg (by omega), hexponent, ← h.toNat_toBits hfull, UInt64.ofNat_toNat]
  exact pack_unpack (isNaN_of_isFinite h.finite)

theorem ofParts_zero (e : Int) : ofParts false 0 e = Float.ofNat 0 := by
  simp only [ofParts, if_true, Bool.false_eq_true, if_false]
  rfl

/-- A number is none, or infinite, or finite. -/
theorem number_cases (x : Float) : isNaN x = true ∨ isInfinite x = true ∨ isFinite x = true := by
  unfold isNaN isInfinite isFinite
  by_cases hexponent : exponentField x = 2047
  · by_cases hfraction : fractionField x = 0
    · exact .inr (.inl (by simp [hexponent, hfraction]))
    · exact .inl (by simp [hexponent, hfraction])
  · exact .inr (.inr (by simpa using hexponent))

theorem isNaN_of_isInfinite (hx : isInfinite x = true) : isNaN x = false := by
  rw [isInfinite, Bool.and_eq_true, beq_iff_eq, beq_iff_eq] at hx
  rw [isNaN, hx.2]
  simp

theorem isInfinite_of_isFinite (hx : isFinite x = true) : isInfinite x = false := by
  rw [isFinite, bne_iff_ne] at hx
  rw [isInfinite, beq_false_of_ne hx, Bool.false_and]

/-! ## The numbers of natural numbers -/

theorem ofNat_pos (hpos : 0 < n) (hless : n < 2 ^ 53) :
    Positive (Float.ofNat n) ∧ value (Float.ofNat n) = n := by
  have hwhole := ofNat_whole (k := 0) hpos hless (Nat.zero_le _)
  simpa using hwhole

theorem roundsTo_ofNat (hpos : 0 < n) (hless : n < 2 ^ 53) : RoundsTo n (Float.ofNat n) := by
  obtain ⟨hx, hvalue⟩ := ofNat_pos hpos hless
  have hrounds := hx.roundsTo
  rwa [hvalue] at hrounds

theorem full_ofNat (hpos : 0 < n) (hless : n < 2 ^ 53) : 2 ^ 52 ≤ (parts (Float.ofNat n)).mantissa := by
  obtain ⟨hx, hvalue⟩ := ofNat_pos hpos hless
  refine hx.full ?_
  rw [hvalue]
  exact_mod_cast hpos

/-- The mantissa of a natural number is that number with zeros appended, which the exponent takes off. -/
theorem exists_parts_ofNat (hless : n < 2 ^ 53) :
    ∃ k : Nat, parts (Float.ofNat n) = ⟨false, n * 2 ^ k, -k⟩ := by
  obtain rfl | hpos := n.eq_zero_or_pos
  · refine ⟨1074, ?_⟩
    rw [Nat.zero_mul]
    rfl
  · obtain ⟨hx, hvalue⟩ := ofNat_pos hpos hless
    have hcast : (n : ℚ) ≤ 2 ^ 53 - 1 := by
      have hle : (n : ℚ) + 1 ≤ 2 ^ 53 := by exact_mod_cast hless
      linarith
    have hexponent := (roundsTo_ofNat hpos hless).exponent_nonpos hcast
    have hsign := hx.sign
    have hmagnitude := hvalue.symm.trans hx.value_eq
    cases hparts : parts (Float.ofNat n) with
    | mk negative m e =>
      simp only [hparts] at hexponent hsign hmagnitude
      obtain ⟨k, rfl⟩ : ∃ k : Nat, e = -k := ⟨(-e).toNat, by omega⟩
      have hmantissa : (m : ℚ) = n * 2 ^ k := by
        rw [hmagnitude, zpow_neg, zpow_natCast, inv_mul_cancel_right₀ (by positivity)]
      refine ⟨k, ?_⟩
      rw [hsign, show m = n * 2 ^ k by exact_mod_cast hmantissa]

/-- Zeros that the exponent takes off make no difference to the magnitude. -/
theorem natural_magnitude (n k : Nat) : ((n * 2 ^ k : Nat) * 2 ^ (-k : Int) : ℚ) = n := by
  push_cast
  rw [zpow_neg, zpow_natCast, mul_inv_cancel_right₀ (by positivity)]

theorem unpack_ofNat_zero : (Float.ofNat 0).toModel.unpack = .zero .positive := rfl

theorem unpack_ofNat (hpos : 0 < n) (hless : n < 2 ^ 53) :
    ∃ k : Nat, ∃ hm, (Float.ofNat n).toModel.unpack = .finite .positive (n * 2 ^ k) (-k) hm := by
  obtain ⟨hx, -⟩ := ofNat_pos hpos hless
  obtain ⟨k, hk⟩ := exists_parts_ofNat hless
  refine ⟨k, Nat.mul_pos hpos (Nat.two_pow_pos k), hx.unpack.trans ?_⟩
  exact finite_congr (by rw [hk]) (by rw [hk])

theorem normalize_natural (hless : n < 2 ^ 53) (k : Nat) :
    Float.ofModel (.pack (UnpackedFloat.normalize .binary64 (n * 2 ^ k : Nat) (-k) .positive)) = Float.ofNat n := by
  obtain rfl | hpos := n.eq_zero_or_pos
  · rw [Nat.zero_mul]
    rfl
  · have hmore : 0 < n * 2 ^ k := Nat.mul_pos hpos (Nat.two_pow_pos k)
    have hrounds : RoundsTo ((n * 2 ^ k : Nat) * 2 ^ (-k : Int)) (Float.ofNat n) := by
      rw [natural_magnitude]
      exact roundsTo_ofNat hpos hless
    rw [UnpackedFloat.normalize, Int.compare_eq_gt.mpr (by omega)]
    exact hrounds.round hmore

/-! ## Arithmetic -/

/-- Mantissas are brought to a common exponent. -/
theorem shiftLeft_natural {k c : Nat} (hk : k ≤ c) (n : Nat) : (n * 2 ^ k) <<< (-k - -c : Int).toNat = n * 2 ^ c := by
  rw [Nat.shiftLeft_eq, mul_assoc, ← pow_add]
  congr 2
  omega

/-- Differences are exact. -/
theorem ofNat_sub (hle : b ≤ a) (hless : a < 2 ^ 53) : Float.ofNat a - Float.ofNat b = Float.ofNat (a - b) := by
  show Float.ofModel (.pack (.sub .binary64 (Float.ofNat a).toModel.unpack (Float.ofNat b).toModel.unpack)) = _
  obtain rfl | hb := b.eq_zero_or_pos
  · obtain rfl | ha := a.eq_zero_or_pos
    · rfl
    · obtain ⟨hx, -⟩ := ofNat_pos ha hless
      rw [unpack_ofNat_zero, Nat.sub_zero, hx.unpack]
      exact (roundsTo_ofNat ha hless).ofModel
  · obtain ⟨i, hm, ha'⟩ := unpack_ofNat (hb.trans_le hle) hless
    obtain ⟨j, hm', hb'⟩ := unpack_ofNat hb (hle.trans_lt hless)
    obtain ⟨c, hc⟩ : ∃ c : Nat, min (-i : Int) (-j) = -c := ⟨max i j, by omega⟩
    rw [ha', hb']
    unfold UnpackedFloat.sub
    dsimp only [decreaseExponent]
    rw [hc, shiftLeft_natural (by omega) a, shiftLeft_natural (by omega) b]
    have hdifference : Sign.positive.apply (a * 2 ^ c : Nat) - Sign.positive.apply (b * 2 ^ c : Nat) =
        ((a - b) * 2 ^ c : Nat) := by
      rw [Nat.sub_mul, Nat.cast_sub (Nat.mul_le_mul_right _ hle)]
      rfl
    rw [hdifference]
    exact normalize_natural (by omega) c

/-- A quotient is the number it is rounded to. -/
theorem RoundsTo.ofNat_div (h : RoundsTo (a / b) x) (ha : 0 < a) (hb : 0 < b) (hless : a < 2 ^ 53)
    (hless' : b < 2 ^ 53) : Float.ofNat a / Float.ofNat b = x := by
  obtain ⟨hx, hvalue⟩ := ofNat_pos ha hless
  obtain ⟨hy, hvalue'⟩ := ofNat_pos hb hless'
  show Float.ofModel (.pack (.div .binary64 (Float.ofNat a).toModel.unpack (Float.ofNat b).toModel.unpack)) = x
  rw [← hvalue, ← hvalue', hx.value_eq, hy.value_eq] at h
  rw [hx.unpack, hy.unpack]
  exact h.div _ _

theorem ofNat_zero_div (hb : 0 < b) (hless : b < 2 ^ 53) : Float.ofNat 0 / Float.ofNat b = Float.ofNat 0 := by
  obtain ⟨hy, -⟩ := ofNat_pos hb hless
  show Float.ofModel (.pack (.div .binary64 (Float.ofNat 0).toModel.unpack (Float.ofNat b).toModel.unpack)) = _
  rw [unpack_ofNat_zero, hy.unpack]
  rfl

/-- Quotients without rest are exact. -/
theorem ofNat_mul_div (hb : 0 < b) (hless : a * b < 2 ^ 53) (hless' : b < 2 ^ 53) :
    Float.ofNat (a * b) / Float.ofNat b = Float.ofNat a := by
  obtain rfl | ha := a.eq_zero_or_pos
  · rw [Nat.zero_mul]
    exact ofNat_zero_div hb hless'
  · have hrounds := roundsTo_ofNat ha ((Nat.le_mul_of_pos_right a hb).trans_lt hless)
    have hquotient : ((a * b : Nat) / b : ℚ) = a := by
      rw [Nat.cast_mul, mul_div_cancel_right₀]
      exact_mod_cast hb.ne'
    rw [← hquotient] at hrounds
    exact hrounds.ofNat_div (Nat.mul_pos ha hb) hb hless hless'

/-- Remainders are exact. -/
theorem remainder_ofNat (hb : 0 < b) (hless : a < 2 ^ 53) (hless' : b < 2 ^ 53) :
    remainder (Float.ofNat a) (Float.ofNat b) = Float.ofNat (a % b) := by
  obtain ⟨hy, -⟩ := ofNat_pos hb hless'
  obtain ⟨i, hi⟩ := exists_parts_ofNat hless
  obtain ⟨j, hj⟩ := exists_parts_ofNat hless'
  obtain ⟨c, hc⟩ : ∃ c : Nat, min (-i : Int) (-j) = -c := ⟨max i j, by omega⟩
  unfold remainder
  simp only [isInfinite_of_isFinite hy.finite, hi, hj, hc, Bool.false_eq_true, if_false]
  rw [shiftLeft_natural (by omega) a, shiftLeft_natural (by omega) b, Nat.mul_mod_mul_right]
  obtain hzero | hpos := (a % b).eq_zero_or_pos
  · rw [hzero, Nat.zero_mul]
    exact ofParts_zero _
  · have hrest : a % b < 2 ^ 53 := (Nat.mod_lt a hb).trans hless'
    obtain ⟨hx, hvalue⟩ := ofNat_pos hpos hrest
    refine ofParts_eq hx (full_ofNat hpos hrest) ?_
    rw [hvalue, natural_magnitude]

/-- Whole numbers have no fraction to cut off. -/
theorem truncate_ofNat (hless : n < 2 ^ 53) : truncate (Float.ofNat n) = n := by
  obtain ⟨k, hk⟩ := exists_parts_ofNat hless
  rw [truncate_eq_cutOff, value, hk, Parts.value, if_neg Bool.false_ne_true, Parts.magnitude, natural_magnitude]
  exact cutOff_intCast n

theorem isFinite_ofNat (hless : n < 2 ^ 53) : isFinite (Float.ofNat n) = true := by
  obtain rfl | hpos := n.eq_zero_or_pos
  · exact ofNat_zero.1
  · exact (ofNat_pos hpos hless).1.finite

theorem isInteger_ofNat (hless : n < 2 ^ 53) : isInteger (Float.ofNat n) = true := by
  obtain ⟨k, hk⟩ := exists_parts_ofNat hless
  unfold isInteger
  simp only [hk, isFinite_ofNat hless, neg_neg, Int.toNat_natCast, Nat.one_shiftLeft, Nat.mul_mod_left,
    beq_self_eq_true, Bool.or_true, Bool.and_self]

/-! ## Comparisons -/

theorem ofNat_le_zero_iff (hless : n < 2 ^ 53) : Float.ofNat n ≤ 0.0 ↔ n = 0 := by
  obtain rfl | hpos := n.eq_zero_or_pos
  · exact iff_of_true rfl rfl
  · obtain ⟨hx, -⟩ := ofNat_pos hpos hless
    refine iff_of_false ?_ hpos.ne'
    intro hle
    have hcompare : (Float.ofNat n).toModel.unpack.le (0.0 : Float).toModel.unpack = true := of_decide_eq_true hle
    rw [hx.unpack] at hcompare
    cases hcompare

/-- What is not above zero is below the least positive number. -/
theorem lt_tiny_of_le_zero {y : Float} (hle : y ≤ Float.ofNat 0) : y < tiny := by
  have hcompare : y.toModel.unpack.le (.zero .positive) = true := of_decide_eq_true hle
  have htiny : ∃ hm, tiny.toModel.unpack = .finite .positive 1 (-1074) hm := ⟨by decide, by rfl⟩
  obtain ⟨hm, htiny⟩ := htiny
  show decide (y.toModel.unpack.lt tiny.toModel.unpack = true) = true
  rw [htiny, decide_eq_true_iff]
  generalize y.toModel.unpack = u at hcompare
  cases u with
  | notANumber => cases hcompare
  | infinity s => cases s with
    | positive => cases hcompare
    | negative => rfl
  | zero s => rfl
  | finite s m e hm => cases s with
    | positive => cases hcompare
    | negative => rfl

/-- A number without zeros appended to its mantissa lies below the bound. -/
theorem Positive.lt_bound (h : Positive x) (hexponent : (parts x).exponent ≤ 0) :
    x < 9007199254740992.0 ∧ ¬x ≥ 9007199254740992.0 := by
  have hunpack : ∃ hm, (9007199254740992.0 : Float).toModel.unpack = .finite .positive (2 ^ 52) 1 hm :=
    ⟨by decide, by rfl⟩
  obtain ⟨hm, hunpack⟩ := hunpack
  constructor
  · have horder : compare (parts x).exponent 1 = .lt := Int.compare_eq_lt.mpr (by omega)
    show decide (x.toModel.unpack.lt (9007199254740992.0 : Float).toModel.unpack = true) = true
    rw [h.unpack, hunpack]
    show decide ((some ((compare (parts x).exponent 1).then (compare (parts x).mantissa (2 ^ 52))) == some .lt) =
      true) = true
    rw [horder]
    rfl
  · intro hge
    have horder : compare 1 (parts x).exponent = .gt := Int.compare_eq_gt.mpr (by omega)
    have hcompare : (9007199254740992.0 : Float).toModel.unpack.le x.toModel.unpack = true :=
      of_decide_eq_true hge
    rw [h.unpack, hunpack] at hcompare
    have hle : ((compare 1 (parts x).exponent).then (compare (2 ^ 52) (parts x).mantissa)).isLE = true := hcompare
    rw [horder] at hle
    cases hle

/-! ## Rounded quotients -/

/-- Some whole number is the nearest one. -/
theorem exists_nearest {r : ℚ} (hr : 0 ≤ r) : ∃ n : Nat, Nearest n r := by
  obtain ⟨f, hf⟩ := Int.eq_ofNat_of_zero_le (Int.floor_nonneg.mpr hr)
  have hlow := Int.floor_le r
  have hhigh := Int.lt_floor_add_one r
  rw [hf] at hlow hhigh
  push_cast at hlow hhigh
  have hnext : ((f + 1 : Nat) : ℚ) = f + 1 := Nat.cast_succ f
  obtain hless | hequal | hmore := lt_trichotomy r (f + 1 / 2)
  · exact ⟨f, .inl (by linarith), .inl hless⟩
  · obtain heven | hodd := Nat.mod_two_eq_zero_or_one f
    · exact ⟨f, .inl (by linarith), .inr ⟨heven, hequal⟩⟩
    · exact ⟨f + 1, .inr ⟨by omega, by linarith⟩, .inl (by linarith)⟩
  · exact ⟨f + 1, .inl (by linarith), .inl (by linarith)⟩

theorem exists_roundsTo_of_around (hm : Canonical m e) (h : Around m e (v / 2 ^ e)) : ∃ x, RoundsTo v x := by
  obtain ⟨x, hfinite, hproper, hparts⟩ := exists_of_canonical hm false
  exact ⟨x, ⟨hfinite, hproper, by rw [hparts]⟩, by rwa [hparts]⟩

/-- A fraction of full precision is rounded to some number. -/
theorem exists_roundsTo_of_full (hleast : -1074 ≤ e) (hgreatest : e < 971) (hlow : 2 ^ 52 ≤ v / 2 ^ e)
    (hhigh : v / 2 ^ e < 2 ^ 53) : ∃ x, RoundsTo v x := by
  obtain ⟨n, hn⟩ := exists_nearest (hlow.trans' (by norm_num))
  obtain ⟨hnlow, hnhigh⟩ := hn.bounds
  have hmore : 2 ^ 52 ≤ n := by
    have hcast : (2 ^ 52 : ℚ) < n + 1 := by linarith
    exact Nat.lt_succ_iff.mp (by exact_mod_cast hcast)
  have hless : n ≤ 2 ^ 53 := by
    have hcast : (n : ℚ) < 2 ^ 53 + 1 := by linarith
    exact Nat.lt_succ_iff.mp (by exact_mod_cast hcast)
  obtain hcarry | hplain := hless.eq_or_lt
  · -- Rounding went up to the next power of two.
    refine exists_roundsTo_of_around (m := 2 ^ 52) (e := e + 1)
      ⟨by omega, by omega, by omega, by omega, .inr (le_refl _)⟩ ?_
    have hcast : (n : ℚ) = 2 ^ 53 := by exact_mod_cast hcarry
    rw [zpow_add_one₀ (by norm_num), div_mul_eq_div_div, Around, gapBelow, if_pos ⟨rfl, by omega⟩]
    push_cast
    norm_num at hcast hnlow hhigh ⊢
    exact ⟨lt_or_eq_of_le (by linarith), .inl (by linarith)⟩
  · refine exists_roundsTo_of_around (m := n) (e := e) ⟨by omega, hplain, by omega, by omega, .inr hmore⟩ ?_
    refine ⟨?_, hn.2⟩
    unfold gapBelow
    split
    · next hpower =>
      have hcast : (n : ℚ) = 2 ^ 52 := by exact_mod_cast hpower.1
      exact .inl (by linarith)
    · exact hn.1

/-- A fraction is rounded to some number, unless it is out of range. -/
theorem exists_roundsTo (hlow : 2 ^ (-1022 : Int) ≤ v) (hhigh : v < 2 ^ (1022 : Int)) : ∃ x, RoundsTo v x := by
  have hpos : 0 < v := (two_zpow_pos _).trans_le hlow
  have hbase : (1 : ℚ) < 2 := by norm_num
  obtain ⟨e, he⟩ : ∃ e : Int, Int.log 2 v = e + 52 := ⟨Int.log 2 v - 52, by omega⟩
  have hfloor : (2 : ℚ) ^ (e + 52) ≤ v := he ▸ Int.zpow_log_le_self (b := 2) (by decide) hpos
  have hceil : v < (2 : ℚ) ^ (e + 53) := by
    have hsucc := Int.lt_zpow_succ_log_self (b := 2) (by decide) v
    rwa [he, add_assoc] at hsucc
  have hleast : -1022 < e + 53 := (zpow_lt_zpow_iff_right₀ hbase).mp (hlow.trans_lt hceil)
  have hgreatest : e + 52 < 1022 := (zpow_lt_zpow_iff_right₀ hbase).mp (hfloor.trans_lt hhigh)
  refine exists_roundsTo_of_full (e := e) (by omega) (by omega) ?_ ?_
  · rw [le_div_iff₀ (two_zpow_pos e), mul_comm, ← zpow_natCast, ← zpow_add₀ (by norm_num)]
    exact hfloor
  · rw [div_lt_iff₀ (two_zpow_pos e), mul_comm, ← zpow_natCast, ← zpow_add₀ (by norm_num)]
    exact hceil

/-- The quotient of two natural numbers lies below the bound, unless the divisor is one. -/
theorem ofNat_div_lt_bound (hb : 2 ≤ b) (hless : n < 2 ^ 53) (hless' : b < 2 ^ 53) :
    ¬Float.ofNat n / Float.ofNat b ≥ 9007199254740992.0 := by
  obtain rfl | hn := n.eq_zero_or_pos
  · rw [ofNat_zero_div (by omega) hless']
    nofun
  · have hdivisor : (2 : ℚ) ≤ b := by exact_mod_cast hb
    have hdivisor' : (b : ℚ) ≤ 2 ^ 53 := by exact_mod_cast hless'.le
    have hone : (1 : ℚ) ≤ n := by exact_mod_cast hn
    have hdividend : (n : ℚ) + 1 ≤ 2 ^ 53 := by exact_mod_cast hless
    have hpos : (0 : ℚ) < b := by linarith
    have hlow : 2 ^ (-1022 : Int) ≤ (n / b : ℚ) := by
      calc (2 : ℚ) ^ (-1022 : Int) ≤ 2 ^ (-53 : Int) := zpow_le_zpow_right₀ (by norm_num) (by decide)
        _ = 1 / 2 ^ 53 := by norm_num
        _ ≤ n / b := div_le_div₀ (by linarith) hone hpos hdivisor'
    have hhigh : (n / b : ℚ) ≤ 2 ^ 53 - 1 := by
      rw [div_le_iff₀ hpos]
      nlinarith
    have hrange : (n / b : ℚ) < 2 ^ (1022 : Int) := by
      calc (n / b : ℚ) < 2 ^ (53 : Int) := by norm_num at hhigh ⊢; linarith
        _ ≤ 2 ^ (1022 : Int) := zpow_le_zpow_right₀ (by norm_num) (by decide)
    obtain ⟨x, hrounds⟩ := exists_roundsTo hlow hrange
    rw [hrounds.ofNat_div hn (by omega) hless hless']
    exact (hrounds.lt_bound (hrounds.exponent_nonpos hhigh)).2

end

section

variable {x : Float}

/-! ## Below zero -/

theorem value_of_isZero (hzero : isZero x = true) : value x = 0 := by
  obtain ⟨s, e, m, hbits⟩ := exists_assemble x.toModel.toBits.toBitVec
  obtain ⟨rfl, rfl⟩ := (isZero_of_bits hbits).mp hzero
  rw [value, parts_of_bits hbits, if_pos rfl]
  simp [Parts.value, Parts.magnitude]

theorem value_of_not_isZero (hx : isFinite x = true) (hzero : isZero x = false) :
    0 < (parts x).magnitude ∧ value x = if isNegative x then -(parts x).magnitude else (parts x).magnitude := by
  obtain ⟨hcanonical, -⟩ := unpack_of_isFinite hx hzero
  refine ⟨mul_pos (by exact_mod_cast hcanonical.pos) (two_zpow_pos _), ?_⟩
  rw [value, Parts.value, parts_negative]

/-- Comparing with zero looks at the sign and at what kind of number there is. -/
theorem lt_zero_iff_lt : x < 0.0 ↔ x.toModel.unpack.lt (.zero .positive) = true :=
  ⟨fun h => of_decide_eq_true h, fun h => decide_eq_true h⟩

/-- A finite number lies below zero if its value does. -/
theorem lt_zero_iff (hx : isFinite x = true) : x < 0.0 ↔ value x < 0 := by
  rw [lt_zero_iff_lt]
  cases hzero : isZero x with
  | true =>
    rw [value_of_isZero hzero]
    refine iff_of_false ?_ (lt_irrefl 0)
    have hproper := isProper_unpack x
    rw [hzero, Bool.true_or, Bool.not_true] at hproper
    cases hunpack : x.toModel.unpack with
    | zero s => cases s <;> decide
    | notANumber => decide
    | infinity s =>
      rw [hunpack] at hproper
      cases hproper
    | finite s m e hm =>
      rw [hunpack] at hproper
      cases hproper
  | false =>
    obtain ⟨hpos, hvalue⟩ := value_of_not_isZero hx hzero
    obtain ⟨-, hm, hunpack⟩ := unpack_of_isFinite hx hzero
    rw [hunpack, hvalue, Parts.sign, parts_negative]
    cases isNegative x with
    | true => exact iff_of_true rfl (by simpa using hpos)
    | false => exact iff_of_false (by rintro ⟨⟩) (by simpa using hpos.le)

theorem eq_of_isInfinite (hx : isInfinite x = true) : x = if isNegative x then -infinity else infinity := by
  have habs := abs_of_isInfinite hx
  cases hsign : isNegative x with
  | true => rw [if_pos rfl, ← habs, neg_abs_of_isNegative hsign]
  | false => rw [if_neg Bool.false_ne_true, ← habs, abs_of_not_isNegative hsign]

/-- The negative infinity lies below zero, the positive one does not. -/
theorem lt_zero_iff_of_isInfinite (hx : isInfinite x = true) : x < 0.0 ↔ isNegative x = true := by
  have hinfinity := eq_of_isInfinite hx
  cases hsign : isNegative x with
  | true =>
    rw [hsign] at hinfinity
    subst hinfinity
    exact iff_of_true (by decide +kernel) rfl
  | false =>
    rw [hsign] at hinfinity
    subst hinfinity
    exact iff_of_false (by decide +kernel) Bool.false_ne_true

/-! ## Without a fraction -/

/-- The magnitude of parts is whole if no bit of the mantissa stands behind the point. -/
theorem exists_magnitude_iff (p : Parts) :
    (∃ n : Nat, p.magnitude = n) ↔
      (p.exponent ≥ 0 || p.mantissa % (1 <<< (-p.exponent).toNat) == 0) = true := by
  rw [Bool.or_eq_true, decide_eq_true_iff, beq_iff_eq, Parts.magnitude]
  obtain hexponent | hexponent := le_or_gt 0 p.exponent
  · obtain ⟨k, hk⟩ := Int.eq_ofNat_of_zero_le hexponent
    refine iff_of_true ⟨p.mantissa * 2 ^ k, ?_⟩ (.inl hexponent)
    rw [hk, zpow_natCast]
    push_cast
    rfl
  · obtain ⟨k, hk⟩ : ∃ k : Nat, p.exponent = -k := ⟨(-p.exponent).toNat, by omega⟩
    rw [hk, neg_neg, Int.toNat_natCast, Nat.one_shiftLeft, zpow_neg, zpow_natCast, ← div_eq_mul_inv]
    constructor
    · rintro ⟨n, hn⟩
      rw [div_eq_iff (by positivity)] at hn
      exact .inr (Nat.mod_eq_zero_of_dvd ⟨n, by rw [mul_comm]; exact_mod_cast hn⟩)
    · rintro (hpos | hmod)
      · omega
      · obtain ⟨n, hn⟩ := Nat.dvd_of_mod_eq_zero hmod
        refine ⟨n, ?_⟩
        rw [hn, div_eq_iff (by positivity)]
        push_cast
        ring

/-- A number is whole if its value is an integer. -/
theorem isInteger_iff : isInteger x = true ↔ isFinite x = true ∧ ∃ n : Int, value x = n := by
  have hwhole : (∃ n : Int, value x = n) ↔ ∃ n : Nat, (parts x).magnitude = n := by
    rw [value, Parts.value]
    constructor
    · rintro ⟨n, hn⟩
      have hnonneg := magnitude_nonneg (parts x)
      obtain ⟨k, hk⟩ : ∃ k : Int, (parts x).magnitude = k := by
        split at hn
        · exact ⟨-n, by rw [Int.cast_neg, ← hn, neg_neg]⟩
        · exact ⟨n, hn⟩
      rw [hk] at hnonneg
      obtain ⟨m, rfl⟩ := Int.eq_ofNat_of_zero_le (a := k) (by exact_mod_cast hnonneg)
      exact ⟨m, hk⟩
    · rintro ⟨n, hn⟩
      rw [hn]
      split
      · exact ⟨-n, by push_cast; rfl⟩
      · exact ⟨n, by push_cast; rfl⟩
  rw [hwhole, exists_magnitude_iff, isInteger, Bool.and_eq_true]

/-- What is left of a finite number without its fraction has no more significant bits than a mantissa. -/
theorem exists_truncate (hx : isFinite x = true) :
    ∃ a k : Nat, (truncate x).natAbs = a * 2 ^ k ∧ a < 2 ^ 53 ∧ k ≤ 971 := by
  have hfloor : (truncate x).natAbs = ⌊(parts x).magnitude⌋.natAbs := by
    rw [truncate_eq_floor]
    split
    · exact Int.natAbs_neg _
    · rfl
  obtain ⟨hmantissa, hexponent⟩ : (parts x).mantissa < 2 ^ 53 ∧ (parts x).exponent ≤ 971 := by
    cases hzero : isZero x with
    | true =>
      obtain ⟨s, e, m, hbits⟩ := exists_assemble x.toModel.toBits.toBitVec
      obtain ⟨rfl, rfl⟩ := (isZero_of_bits hbits).mp hzero
      rw [parts_of_bits hbits, if_pos rfl]
      exact ⟨by simp, by simp⟩
    | false =>
      obtain ⟨hcanonical, -⟩ := unpack_of_isFinite hx hzero
      exact ⟨hcanonical.lt, hcanonical.greatest⟩
  rw [hfloor, floor_magnitude]
  split
  · exact ⟨_, _, Nat.shiftLeft_eq _ _, hmantissa, by omega⟩
  · refine ⟨_, 0, (mul_one _).symm, ?_, by omega⟩
    rw [Nat.shiftRight_eq_div_pow]
    exact (Nat.div_le_self _ _).trans_lt hmantissa

/-- No finite number reaches the bound of the format. -/
theorem truncate_lt (hx : isFinite x = true) {b : Nat} (hb : 53 + 971 ≤ b) : (truncate x).natAbs < 2 ^ b := by
  obtain ⟨a, k, heq, hless, hk⟩ := exists_truncate hx
  calc (truncate x).natAbs = a * 2 ^ k := heq
    _ < 2 ^ 53 * 2 ^ k := Nat.mul_lt_mul_of_pos_right hless (Nat.two_pow_pos k)
    _ = 2 ^ (53 + k) := (pow_add 2 53 k).symm
    _ ≤ 2 ^ b := Nat.pow_le_pow_right two_pos (by omega)

end

end Untangle.Binary64
