import Untangle.Sandbox.Operator

set_option autoImplicit false

/-!
# Signs of numbers

A number is kept as a bit of sign, a field of eleven bits and a field of fifty-two.  Taking it apart and
putting it together again changes nothing, so that the negative and the magnitude of a number are the
number with another bit of sign.  There is one number that is none.

Numbers that compare as equal are both zero or both not, and neither of them is NaN, so that values that
are strictly equal have the same truth.

Main statements: a number is its magnitude, or the negative of it if it is negative, zeros included
(`abs_of_not_isNegative`, `neg_abs_of_isNegative`); and the kinds of numbers that are written by a name
have one number each (`eq_nan_of_isNaN`, `abs_of_isInfinite`).
-/

namespace Untangle

namespace Binary64

open Float.Model Float.Model.UnpackedFloat

/-! ## Fields -/

/-- The bits of a number of a sign and two fields. -/
abbrev assemble (s : Sign) (e : BitVec 11) (m : BitVec 52) : BitVec 64 :=
  packComponents Format.binary64 s e m

theorem toNat_assemble (s : Sign) (e : BitVec 11) (m : BitVec 52) :
    (assemble s e m).toNat = s.toBitVec.toNat * signBit + e.toNat * leadingBit + m.toNat := by
  have hm := m.isLt
  have he := e.isLt
  show (s.toBitVec ++ e ++ m).toNat = _
  rw [BitVec.toNat_append, ← Nat.shiftLeft_add_eq_or_of_lt hm, BitVec.toNat_append,
    ← Nat.shiftLeft_add_eq_or_of_lt he, Nat.shiftLeft_eq, Nat.shiftLeft_eq, signBit, leadingBit]
  omega

/-- All bits are put together from a sign and two fields. -/
theorem exists_assemble (b : BitVec 64) : ∃ s e m, b = assemble s e m := by
  have hlt := b.isLt
  have hassembled : ∀ s : Sign, s.toBitVec.toNat = b.toNat / signBit →
      b = assemble s (.ofNat 11 (b.toNat / leadingBit)) (.ofNat 52 b.toNat) := by
    intro s hs
    apply BitVec.eq_of_toNat_eq
    rw [toNat_assemble, hs, BitVec.toNat_ofNat, BitVec.toNat_ofNat, signBit, leadingBit]
    omega
  by_cases hneg : b.toNat < signBit
  · refine ⟨.positive, _, _, hassembled .positive ?_⟩
    rw [Nat.div_eq_of_lt hneg]
    rfl
  · refine ⟨.negative, _, _, hassembled .negative ?_⟩
    have hone : b.toNat / signBit = 1 := by
      rw [signBit] at hneg ⊢
      omega
    rw [hone]
    rfl

theorem unpackSign_assemble (s : Sign) (e : BitVec 11) (m : BitVec 52) :
    Sign.ofBitVec (@unpackSign Format.binary64 (assemble s e m)) = s := by
  have hsign : @unpackSign Format.binary64 (assemble s e m) = s.toBitVec := by
    show (s.toBitVec ++ e ++ m).extractLsb' 63 1 = s.toBitVec
    rw [BitVec.extractLsb'_append_eq_of_le (by decide), BitVec.extractLsb'_append_eq_of_le (by decide)]
    exact BitVec.extractLsb'_eq_self
  rw [hsign]
  cases s <;> rfl

/-! ## Taking apart and putting together -/

/-- The kinds of numbers by their fields. -/
theorem unpack_cases {spec : Format} (s : Sign) (e : BitVec spec.exponentBits)
    (m : BitVec spec.mantissaBitsWithoutImplicit) :
    let b := packComponents spec s e m
    let t := Sign.ofBitVec (unpackSign b)
    let x : Int := e.toNat - (spec.exponentBias + spec.mantissaBitsWithoutImplicit)
    (e = -1#_ ∧ m = 0#_ ∧ UnpackedFloat.unpack spec b = .infinity t) ∨
    (e = -1#_ ∧ m ≠ 0#_ ∧ UnpackedFloat.unpack spec b = .notANumber) ∨
    (e = 0#_ ∧ m = 0#_ ∧ UnpackedFloat.unpack spec b = .zero t) ∨
    (e = 0#_ ∧ m ≠ 0#_ ∧ ∃ hk, UnpackedFloat.unpack spec b = .finite t m.toNat (x + 1) hk) ∨
    (e ≠ -1#_ ∧ e ≠ 0#_ ∧ ∃ hk, UnpackedFloat.unpack spec b = .finite t (1#1 ++ m).toNat x hk) := by
  intro b t x
  have hmantissa : unpackMantissa b = m := unpackMantissa_packComponents
  have hexponent : unpackExponent b = e := unpackExponent_packComponents
  unfold UnpackedFloat.unpack
  clear_value b
  subst hmantissa hexponent
  dsimp only
  by_cases hones : unpackExponent b = -1#_
  · by_cases hnull : unpackMantissa b = 0#_
    · refine .inl ⟨hones, hnull, ?_⟩
      rw [if_pos hones, if_pos hnull]
    · refine .inr (.inl ⟨hones, hnull, ?_⟩)
      rw [if_pos hones, if_neg hnull]
  · by_cases hzeros : unpackExponent b = 0#_
    · by_cases hnull : unpackMantissa b = 0#_
      · refine .inr (.inr (.inl ⟨hzeros, hnull, ?_⟩))
        rw [if_neg hones, if_pos hzeros, dif_pos hnull]
      · have hpos : 0 < (unpackMantissa b).toNat :=
          Nat.pos_of_ne_zero fun h => hnull (BitVec.eq_of_toNat_eq h)
        refine .inr (.inr (.inr (.inl ⟨hzeros, hnull, hpos, ?_⟩)))
        rw [if_neg hones, if_pos hzeros, dif_neg hnull]
    · refine .inr (.inr (.inr (.inr ⟨hones, hzeros, by simp, ?_⟩)))
      rw [if_neg hones, if_neg hzeros]

/-- What becomes of bits that are taken apart and put together again with a sign that may be another
one. -/
theorem pack_resigned {s t : Sign} {e : BitVec 11} {m : BitVec 52} (hreal : e = -1#11 → m = 0#52)
    {f : UnpackedFloat → UnpackedFloat} (hinfinity : f (.infinity s) = .infinity t)
    (hzero : f (.zero s) = .zero t)
    (hfinite : ∀ k x hk, f (.finite s k x hk) = .finite t k x hk) :
    UnpackedFloat.pack Format.binary64 (f (UnpackedFloat.unpack Format.binary64 (assemble s e m))) =
      assemble t e m := by
  have hm := m.isLt
  have he := e.isLt
  obtain ⟨hones, hnull, heq⟩ | ⟨hones, hnull, -⟩ | ⟨hzeros, hnull, heq⟩ | ⟨hzeros, hnull, hk, heq⟩ |
    ⟨hones, hzeros, hk, heq⟩ := @unpack_cases Format.binary64 s e m
  · rw [heq, unpackSign_assemble, hinfinity, hnull, hones]
    rfl
  · exact absurd (hreal hones) hnull
  · rw [heq, unpackSign_assemble, hzero, hnull, hzeros]
    rfl
  · have hlog : m.toNat.log2 < 52 := (Nat.log2_lt (by omega)).mpr hm
    rw [heq, unpackSign_assemble, hfinite]
    subst hzeros
    unfold UnpackedFloat.pack
    rw [if_neg (by decide), if_neg (by show ¬ m.toNat.log2 + 1 = 53; omega)]
    simp
  · have hbound : e.toNat + 1 < 2 ^ 11 := by
      have hne : e.toNat ≠ 2 ^ 11 - 1 := fun h => hones (BitVec.eq_of_toNat_eq h)
      omega
    have hleading : (1#1 ++ m).toNat = 2 ^ 52 + m.toNat := by
      rw [BitVec.toNat_append, ← Nat.shiftLeft_add_eq_or_of_lt hm]
      rfl
    have hlog : (2 ^ 52 + m.toNat).log2 = 52 := by
      refine (Nat.log2_eq_iff (by omega)).mpr ⟨by omega, by omega⟩
    rw [heq, unpackSign_assemble, hfinite]
    unfold UnpackedFloat.pack
    dsimp only
    rw [hleading]
    have hbiased : ((e.toNat : Int) - (Format.binary64.exponentBias + (52 : Nat)) +
        Format.binary64.exponentBias + (52 : Nat)).toNat = e.toNat := by omega
    rw [hbiased, if_neg (by omega), if_pos (by rw [hlog]; rfl)]
    congr 1
    · simp
    · apply BitVec.eq_of_toNat_eq
      rw [BitVec.toNat_ofNat]
      omega

/-! ## Numbers -/

/-- Numbers with the same bits are the same. -/
theorem eq_of_bits {x y : Float} (h : x.toModel.toBits.toBitVec = y.toModel.toBits.toBitVec) :
    x = y := by
  obtain ⟨⟨bx, hx⟩⟩ := x
  obtain ⟨⟨by', hy⟩⟩ := y
  cases UInt64.toBitVec_inj.mp h
  rfl

section

variable {x : Float} {s : Sign} {e : BitVec 11} {m : BitVec 52}

theorem toNat_of_bits (hx : x.toModel.toBits.toBitVec = assemble s e m) :
    x.toBits.toNat = s.toBitVec.toNat * signBit + e.toNat * leadingBit + m.toNat := by
  show x.toModel.toBits.toBitVec.toNat = _
  rw [hx, toNat_assemble]

theorem exponentField_of_bits (hx : x.toModel.toBits.toBitVec = assemble s e m) :
    exponentField x = e.toNat := by
  have he := e.isLt
  have hm := m.isLt
  rw [exponentField, toNat_of_bits hx, signBit, leadingBit]
  omega

theorem fractionField_of_bits (hx : x.toModel.toBits.toBitVec = assemble s e m) :
    fractionField x = m.toNat := by
  have hm := m.isLt
  rw [fractionField, toNat_of_bits hx, signBit, leadingBit]
  omega

theorem isNegative_of_bits (hx : x.toModel.toBits.toBitVec = assemble s e m) :
    isNegative x = true ↔ s = .negative := by
  have he := e.isLt
  have hm := m.isLt
  rw [isNegative, toNat_of_bits hx, signBit, leadingBit, decide_eq_true_iff]
  cases s with
  | negative =>
    have hone : Sign.negative.toBitVec.toNat = 1 := rfl
    exact iff_of_true (by omega) rfl
  | positive =>
    have hzero : Sign.positive.toBitVec.toNat = 0 := rfl
    exact iff_of_false (by omega) (by simp)

/-- Only numbers whose first field is all ones may be none. -/
theorem real_of_not_isNaN (hx : x.toModel.toBits.toBitVec = assemble s e m)
    (hreal : isNaN x = false) : e = -1#11 → m = 0#52 := by
  rintro rfl
  rw [isNaN, exponentField_of_bits hx, fractionField_of_bits hx] at hreal
  apply BitVec.eq_of_toNat_eq
  simpa using hreal

end

/-- There is one number that is none. -/
theorem eq_nan_of_isNaN {x : Float} (h : isNaN x = true) : x = nan := by
  obtain ⟨s, e, m, hx⟩ := exists_assemble x.toModel.toBits.toBitVec
  rw [isNaN, exponentField_of_bits hx, fractionField_of_bits hx, Bool.and_eq_true] at h
  have hvalid := x.toModel.valid.eq_packedNaN
  rw [hx, unpackExponent_packComponents, unpackMantissa_packComponents] at hvalid
  have he : e = -1 := BitVec.eq_of_toNat_eq (by simpa using h.1)
  have hm : m ≠ 0 := by
    rintro rfl
    exact absurd h.2 (by decide)
  apply eq_of_bits
  rw [hx, hvalid he hm]
  decide

/-- The number that is none is not negative. -/
theorem isNaN_of_isNegative {x : Float} (h : isNegative x = true) : isNaN x = false := by
  cases hnan : isNaN x with
  | false => rfl
  | true =>
    cases eq_nan_of_isNaN hnan
    exact absurd h (by decide)

/-- A number that is not negative is its magnitude. -/
theorem abs_of_not_isNegative {x : Float} (h : isNegative x = false) : x.abs = x := by
  cases hnan : isNaN x with
  | true =>
    cases eq_nan_of_isNaN hnan
    decide
  | false =>
  obtain ⟨s, e, m, hx⟩ := exists_assemble x.toModel.toBits.toBitVec
  obtain rfl : s = .positive := by
    cases s with
    | positive => rfl
    | negative =>
      rw [(isNegative_of_bits hx).mpr rfl] at h
      cases h
  apply eq_of_bits
  show UnpackedFloat.pack Format.binary64 (UnpackedFloat.unpack Format.binary64 x.toModel.toBits.toBitVec).abs = _
  rw [hx]
  exact pack_resigned (real_of_not_isNaN hx hnan) rfl rfl fun _ _ _ => rfl

/-- A negative number is the negative of its magnitude. -/
theorem neg_abs_of_isNegative {x : Float} (h : isNegative x = true) : -x.abs = x := by
  have hnan := isNaN_of_isNegative h
  obtain ⟨s, e, m, hx⟩ := exists_assemble x.toModel.toBits.toBitVec
  cases (isNegative_of_bits hx).mp h
  have hreal := real_of_not_isNaN hx hnan
  have habs : x.abs.toModel.toBits.toBitVec = assemble .positive e m := by
    show UnpackedFloat.pack Format.binary64 (UnpackedFloat.unpack Format.binary64 x.toModel.toBits.toBitVec).abs = _
    rw [hx]
    exact pack_resigned hreal rfl rfl fun _ _ _ => rfl
  apply eq_of_bits
  show UnpackedFloat.pack Format.binary64 (UnpackedFloat.unpack Format.binary64 x.abs.toModel.toBits.toBitVec).neg = _
  rw [habs, hx]
  exact pack_resigned hreal rfl rfl fun _ _ _ => rfl

/-- The magnitude of an infinity is the positive one. -/
theorem abs_of_isInfinite {x : Float} (h : isInfinite x = true) : x.abs = infinity := by
  obtain ⟨s, e, m, hx⟩ := exists_assemble x.toModel.toBits.toBitVec
  rw [isInfinite, exponentField_of_bits hx, fractionField_of_bits hx, Bool.and_eq_true] at h
  have he : e = -1 := BitVec.eq_of_toNat_eq (by simpa using h.1)
  have hm : m = 0 := BitVec.eq_of_toNat_eq (by simpa using h.2)
  subst he hm
  apply eq_of_bits
  show UnpackedFloat.pack Format.binary64 (UnpackedFloat.unpack Format.binary64 x.toModel.toBits.toBitVec).abs = _
  rw [hx]
  cases s <;> decide

/-! ## Equal numbers -/

/-- What is neither zero nor NaN. -/
def isProper : UnpackedFloat → Bool
  | .zero _ | .notANumber => false
  | .infinity _ | .finite _ _ _ _ => true

/-- The order tells zeros from other numbers by the sign of these. -/
theorem isProper_of_beq {u v : UnpackedFloat} (h : u.beq v = true) : isProper u = isProper v := by
  cases u with
  | notANumber => cases h
  | zero s =>
    cases v with
    | notANumber => rfl
    | zero t => rfl
    | infinity t => cases t <;> cases h
    | finite t => cases t <;> cases h
  | infinity s =>
    cases v with
    | notANumber => cases s <;> cases h
    | zero t => cases s <;> cases h
    | infinity t => rfl
    | finite t => rfl
  | finite s =>
    cases v with
    | notANumber => cases s <;> cases h
    | zero t => cases s <;> cases h
    | infinity t => rfl
    | finite t => rfl

section

variable {x : Float} {s : Sign} {e : BitVec 11} {m : BitVec 52}

theorem isZero_of_bits (hx : x.toModel.toBits.toBitVec = assemble s e m) :
    isZero x = true ↔ e = 0#11 ∧ m = 0#52 := by
  have he := e.isLt
  have hm := m.isLt
  rw [isZero, toNat_of_bits hx, signBit, leadingBit, beq_iff_eq, ← BitVec.toNat_inj,
    ← BitVec.toNat_inj, BitVec.toNat_ofNat, BitVec.toNat_ofNat]
  omega

theorem isNaN_of_bits (hx : x.toModel.toBits.toBitVec = assemble s e m) :
    isNaN x = true ↔ e = -1#11 ∧ m ≠ 0#52 := by
  have hones : (-1#11).toNat = 2047 := by decide
  rw [isNaN, exponentField_of_bits hx, fractionField_of_bits hx, Bool.and_eq_true, bne_iff_ne,
    beq_iff_eq, ne_eq, ne_eq, ← BitVec.toNat_inj, ← BitVec.toNat_inj, hones]
  rfl

end

theorem isProper_unpack (x : Float) : isProper x.toModel.unpack = !(isZero x || isNaN x) := by
  obtain ⟨s, e, m, hx⟩ := exists_assemble x.toModel.toBits.toBitVec
  have hzero := isZero_of_bits hx
  have hnan := isNaN_of_bits hx
  show isProper (UnpackedFloat.unpack Format.binary64 x.toModel.toBits.toBitVec) = _
  rw [hx, eq_comm, Bool.not_eq_eq_eq_not, Bool.eq_iff_iff, Bool.or_eq_true, hzero, hnan]
  obtain ⟨hones, hnull, heq⟩ | ⟨hones, hnull, heq⟩ | ⟨hzeros, hnull, heq⟩ | ⟨hzeros, hnull, hk, heq⟩ |
    ⟨hones, hzeros, hk, heq⟩ := @unpack_cases Format.binary64 s e m
  · rw [heq]
    refine iff_of_false ?_ (by rintro ⟨⟩)
    rintro (⟨h, -⟩ | ⟨-, h⟩)
    · exact absurd (hones.symm.trans h) (by decide)
    · exact h hnull
  · rw [heq]
    exact iff_of_true (.inr ⟨hones, hnull⟩) rfl
  · rw [heq]
    exact iff_of_true (.inl ⟨hzeros, hnull⟩) rfl
  · rw [heq]
    refine iff_of_false ?_ (by rintro ⟨⟩)
    rintro (⟨-, h⟩ | ⟨h, -⟩)
    · exact hnull h
    · exact absurd (hzeros.symm.trans h) (by decide)
  · rw [heq]
    refine iff_of_false ?_ (by rintro ⟨⟩)
    rintro (⟨h, -⟩ | ⟨h, -⟩)
    · exact hzeros h
    · exact hones h

end Binary64

namespace Sandbox

/-- Strictly equal values have the same truth. -/
theorem toBoolean_of_strictEquals {v w : Value} (h : strictEquals v w = true) :
    toBoolean v = toBoolean w := by
  cases v <;> cases w <;> try cases h
  · rfl
  · rfl
  · next a b => rw [show a = b from beq_iff_eq.mp h]
  · next x y =>
    have hequal : x.toModel.unpack.beq y.toModel.unpack = true := h
    show (!(_ || _)) = !(_ || _)
    rw [← Binary64.isProper_unpack, ← Binary64.isProper_unpack, Binary64.isProper_of_beq hequal]
  · next t u => rw [show t = u from beq_iff_eq.mp h]
  · rfl

end Sandbox

end Untangle
