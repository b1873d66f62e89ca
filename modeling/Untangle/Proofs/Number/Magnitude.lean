import Mathlib.Data.Rat.Floor
import Mathlib.Tactic.FieldSimp
import Mathlib.Tactic.Linarith
import Mathlib.Tactic.NormNum
import Mathlib.Tactic.Positivity
import Mathlib.Tactic.Ring
import Untangle.Proofs.Number.Sign

set_option autoImplicit false

/-!
# Values of numbers

A finite number stands for a fraction: a whole mantissa times a power of two.  The mantissa is one of full
precision, unless the exponent is the least one; so the parts of a number that is not zero are known from its
value, and all such parts are those of a number.
-/

namespace Untangle.Binary64

open Float.Model Float.Model.UnpackedFloat

/-! ## Parts -/

/-- The magnitude that a mantissa and an exponent stand for. -/
def Parts.magnitude (p : Parts) : ℚ := p.mantissa * 2 ^ p.exponent

/-- The fraction that parts stand for. -/
def Parts.value (p : Parts) : ℚ := if p.negative then -p.magnitude else p.magnitude

/-- The fraction that a finite number stands for. -/
def value (x : Float) : ℚ := (parts x).value

/-- The mantissa and the exponent of a finite number that is not zero. -/
structure Canonical (m : Nat) (e : Int) : Prop where
  pos : 0 < m
  lt : m < 2 ^ 53
  least : -1074 ≤ e
  greatest : e ≤ 971
  full : e = -1074 ∨ 2 ^ 52 ≤ m

theorem two_zpow_pos (e : ℤ) : (0 : ℚ) < 2 ^ e := zpow_pos (by norm_num) e

/-- The sign of parts. -/
def Parts.sign (p : Parts) : Sign := if p.negative then .negative else .positive

theorem parts_negative (x : Float) : (parts x).negative = isNegative x := by
  unfold parts
  split <;> rfl

section

variable {x : Float} {s : Sign} {e : BitVec 11} {m : BitVec 52}

theorem isFinite_of_bits (hx : x.toModel.toBits.toBitVec = assemble s e m) :
    isFinite x = true ↔ e ≠ -1#11 := by
  have hones : (-1#11).toNat = 2047 := by decide
  rw [isFinite, exponentField_of_bits hx, bne_iff_ne, ne_eq, ne_eq, ← BitVec.toNat_inj, hones]

theorem parts_of_bits (hx : x.toModel.toBits.toBitVec = assemble s e m) :
    parts x = if e = 0#11 then ⟨s == .negative, m.toNat, -1074⟩
      else ⟨s == .negative, 2 ^ 52 + m.toNat, (e.toNat : Int) - 1075⟩ := by
  have hsign : isNegative x = (s == .negative) := by
    have hiff := isNegative_of_bits hx
    cases s with
    | negative => exact hiff.mpr rfl
    | positive => exact Bool.eq_false_iff.mpr fun h => nomatch hiff.mp h
  rw [parts, exponentField_of_bits hx, fractionField_of_bits hx, hsign]
  by_cases he : e = 0#11
  · rw [if_pos he, if_pos (by rw [he]; rfl)]
  · have hne : (e.toNat == 0) = false := by
      rw [beq_eq_false_iff_ne, ne_eq, ← BitVec.toNat_inj (y := 0#11)] at *
      exact he
    rw [if_neg he, hne]
    rfl

/-- All bits are those of a number, unless they are some of the others that stand for none. -/
theorem exists_of_bits (s : Sign) (e : BitVec 11) (m : BitVec 52) (he : e ≠ -1#11) :
    ∃ x : Float, x.toModel.toBits.toBitVec = assemble s e m := by
  have hvalid : Format.binary64.Valid (assemble s e m) := by
    refine ⟨fun hones => absurd ?_ he⟩
    exact unpackExponent_packComponents.symm.trans hones
  exact ⟨.ofModel ⟨.ofBitVec (assemble s e m), hvalid⟩, rfl⟩

end

section

variable {x y : Float} {m : Nat} {e : Int}

theorem finite_congr {s : Sign} {m' : Nat} {e' : Int} {hm : 0 < m} {hm' : 0 < m'} (hmantissa : m = m')
    (hexponent : e = e') : UnpackedFloat.finite s m e hm = .finite s m' e' hm' := by
  subst hmantissa hexponent
  rfl

/-- A finite number that is not zero, taken apart. -/
theorem unpack_of_isFinite (hx : isFinite x = true) (hzero : isZero x = false) :
    Canonical (parts x).mantissa (parts x).exponent ∧
      ∃ hpos, x.toModel.unpack = .finite (parts x).sign (parts x).mantissa (parts x).exponent hpos := by
  obtain ⟨s, e, m, hbits⟩ := exists_assemble x.toModel.toBits.toBitVec
  have hparts := parts_of_bits hbits
  have hnotzero : ¬ (e = 0#11 ∧ m = 0#52) := fun h => by simp [(isZero_of_bits hbits).mpr h] at hzero
  have hreal := (isFinite_of_bits hbits).mp hx
  have hm := m.isLt
  have he := e.isLt
  have hunpack : x.toModel.unpack = UnpackedFloat.unpack Format.binary64 (assemble s e m) :=
    congrArg (UnpackedFloat.unpack Format.binary64) hbits
  have hsign : ∀ m e, (⟨s == .negative, m, e⟩ : Parts).sign = s := by
    intro m e
    cases s <;> rfl
  obtain ⟨hones, -, -⟩ | ⟨hones, -, -⟩ | ⟨hzeros, hnull, -⟩ | ⟨hzeros, hnull, hk, heq⟩ |
    ⟨hones, hzeros, hk, heq⟩ := @unpack_cases Format.binary64 s e m
  · exact absurd hones hreal
  · exact absurd hones hreal
  · exact absurd ⟨hzeros, hnull⟩ hnotzero
  · rw [if_pos hzeros] at hparts
    rw [hparts, hunpack, heq, unpackSign_assemble, hsign]
    have hcanonical : Canonical m.toNat (-1074) := ⟨hk, by omega, by omega, by omega, .inl rfl⟩
    refine ⟨hcanonical, hk, ?_⟩
    subst hzeros
    rfl
  · rw [if_neg hzeros] at hparts
    have hleading : (1#1 ++ m).toNat = 2 ^ 52 + m.toNat := by
      rw [BitVec.toNat_append, ← Nat.shiftLeft_add_eq_or_of_lt hm]
      rfl
    have hpos : 0 < e.toNat := Nat.pos_of_ne_zero fun h => hzeros (BitVec.eq_of_toNat_eq h)
    have hless : e.toNat < 2047 := by
      have hne : e.toNat ≠ 2047 := fun h => hreal (BitVec.eq_of_toNat_eq h)
      omega
    rw [hparts, hunpack, heq, unpackSign_assemble, hsign]
    have hbias : (e.toNat : Int) - (Format.binary64.exponentBias + (52 : Nat)) = e.toNat - 1075 := by
      have hbias : (Format.binary64.exponentBias : Int) = 1023 := by decide
      omega
    have hcanonical : Canonical (2 ^ 52 + m.toNat) (e.toNat - 1075) :=
      ⟨by omega, by omega, by omega, by omega, .inr (by omega)⟩
    refine ⟨hcanonical, hcanonical.pos, ?_⟩
    exact finite_congr hleading hbias

/-- Every sign, mantissa and exponent in the format are those of a number. -/
theorem exists_of_canonical (h : Canonical m e) (negative : Bool) :
    ∃ x, isFinite x = true ∧ isZero x = false ∧ parts x = ⟨negative, m, e⟩ := by
  have hpos := h.pos
  have hlt := h.lt
  have hleast := h.least
  have hgreatest := h.greatest
  obtain ⟨s, hs⟩ : ∃ s : Sign, (s == .negative) = negative := by
    cases negative
    · exact ⟨.positive, rfl⟩
    · exact ⟨.negative, rfl⟩
  by_cases hfull : 2 ^ 52 ≤ m
  · have hfield : (BitVec.ofNat 11 (e + 1075).toNat).toNat = (e + 1075).toNat := by
      rw [BitVec.toNat_ofNat, Nat.mod_eq_of_lt (by omega)]
    have hfraction : (BitVec.ofNat 52 (m - 2 ^ 52)).toNat = m - 2 ^ 52 := by
      rw [BitVec.toNat_ofNat, Nat.mod_eq_of_lt (by omega)]
    have hzeros : BitVec.ofNat 11 (e + 1075).toNat ≠ 0#11 := by
      intro heq
      rw [← BitVec.toNat_inj, hfield] at heq
      simp only [BitVec.toNat_ofNat] at heq
      omega
    have hones : BitVec.ofNat 11 (e + 1075).toNat ≠ -1#11 := by
      intro heq
      have hones : (-1#11).toNat = 2047 := by decide
      rw [← BitVec.toNat_inj, hfield, hones] at heq
      omega
    obtain ⟨x, hbits⟩ := exists_of_bits s _ (BitVec.ofNat 52 (m - 2 ^ 52)) hones
    refine ⟨x, (isFinite_of_bits hbits).mpr hones, ?_, ?_⟩
    · exact Bool.eq_false_iff.mpr fun hzero => hzeros ((isZero_of_bits hbits).mp hzero).1
    · rw [parts_of_bits hbits, if_neg hzeros, hs, hfield, hfraction, Parts.mk.injEq]
      exact ⟨rfl, by omega, by omega⟩
  · have hfraction : (BitVec.ofNat 52 m).toNat = m := by
      rw [BitVec.toNat_ofNat, Nat.mod_eq_of_lt (by omega)]
    have hnull : BitVec.ofNat 52 m ≠ 0#52 := by
      intro heq
      rw [← BitVec.toNat_inj, hfraction] at heq
      exact Nat.ne_of_gt hpos heq
    obtain ⟨x, hbits⟩ := exists_of_bits s 0#11 (BitVec.ofNat 52 m) (by decide)
    refine ⟨x, (isFinite_of_bits hbits).mpr (by decide), ?_, ?_⟩
    · exact Bool.eq_false_iff.mpr fun hzero => hnull ((isZero_of_bits hbits).mp hzero).2
    · rw [parts_of_bits hbits, if_pos rfl, hs, hfraction, h.full.resolve_right hfull]

/-- A number that is taken apart and put together again is what it was. -/
theorem pack_unpack (hx : isNaN x = false) : Float.ofModel (.pack x.toModel.unpack) = x := by
  obtain ⟨s, e, m, hbits⟩ := exists_assemble x.toModel.toBits.toBitVec
  apply eq_of_bits
  show UnpackedFloat.pack Format.binary64 (UnpackedFloat.unpack Format.binary64 x.toModel.toBits.toBitVec) = _
  rw [hbits]
  exact pack_resigned (f := id) (real_of_not_isNaN hbits hx) rfl rfl fun _ _ _ => rfl

theorem isNaN_of_isFinite (hx : isFinite x = true) : isNaN x = false := by
  rw [isFinite, bne_iff_ne] at hx
  rw [isNaN, beq_false_of_ne hx, Bool.false_and]

/-- The number that a sign, a mantissa and an exponent are put together to. -/
theorem pack_finite (hx : isFinite x = true) (hzero : isZero x = false) {s : Sign} (hs : (parts x).sign = s)
    (hm : (parts x).mantissa = m) (he : (parts x).exponent = e) (hpos : 0 < m) :
    Float.ofModel (.pack (.finite s m e hpos)) = x := by
  subst hs hm he
  obtain ⟨-, hpos', heq⟩ := unpack_of_isFinite hx hzero
  rw [← heq]
  exact pack_unpack (isNaN_of_isFinite hx)

/-- The negative of a number has the other sign. -/
theorem bits_neg {s : Sign} {e : BitVec 11} {m : BitVec 52}
    (hx : x.toModel.toBits.toBitVec = assemble s e m) (hreal : isNaN x = false) :
    (-x).toModel.toBits.toBitVec = assemble (-s) e m := by
  show UnpackedFloat.pack Format.binary64
    (UnpackedFloat.unpack Format.binary64 x.toModel.toBits.toBitVec).neg = _
  rw [hx]
  exact pack_resigned (real_of_not_isNaN hx hreal) rfl rfl fun _ _ _ => rfl

theorem neg_of_isFinite (hx : isFinite x = true) :
    isFinite (-x) = true ∧ isZero (-x) = isZero x ∧ isNegative (-x) = !isNegative x ∧
      parts (-x) = { parts x with negative := !(parts x).negative } := by
  obtain ⟨s, e, m, hbits⟩ := exists_assemble x.toModel.toBits.toBitVec
  have hneg := bits_neg hbits (isNaN_of_isFinite hx)
  have hflip : (-s == Sign.negative) = !(s == Sign.negative) := by cases s <;> rfl
  refine ⟨(isFinite_of_bits hneg).mpr ((isFinite_of_bits hbits).mp hx), ?_, ?_, ?_⟩
  · rw [Bool.eq_iff_iff, isZero_of_bits hneg, isZero_of_bits hbits]
  · rw [Bool.eq_iff_iff, isNegative_of_bits hneg, Bool.not_eq_true', ← Bool.not_eq_true,
      isNegative_of_bits hbits]
    cases s
    · exact iff_of_false nofun fun h => h rfl
    · exact iff_of_true rfl nofun
  · rw [parts_of_bits hneg, parts_of_bits hbits, hflip]
    split <;> rfl

theorem neg_neg_of_isFinite (hx : isFinite x = true) : - -x = x := by
  obtain ⟨s, e, m, hbits⟩ := exists_assemble x.toModel.toBits.toBitVec
  have hneg := bits_neg hbits (isNaN_of_isFinite hx)
  have hback := bits_neg hneg (isNaN_of_isFinite (neg_of_isFinite hx).1)
  apply eq_of_bits
  rw [hback, hbits]
  cases s <;> rfl

theorem value_neg (hx : isFinite x = true) : value (-x) = -value x := by
  rw [value, value, (neg_of_isFinite hx).2.2.2, Parts.value, Parts.value]
  cases (parts x).negative <;> simp [Parts.magnitude]

/-! ## Whole numbers -/

theorem magnitude_nonneg (p : Parts) : 0 ≤ p.magnitude := by
  exact mul_nonneg (Nat.cast_nonneg _) (two_zpow_pos _).le

/-- The whole part of a magnitude is the mantissa shifted by the exponent. -/
theorem floor_magnitude (p : Parts) :
    ⌊p.magnitude⌋ = if p.exponent ≥ 0 then p.mantissa <<< p.exponent.toNat
      else p.mantissa >>> (-p.exponent).toNat := by
  unfold Parts.magnitude
  split
  · next he =>
    obtain ⟨k, hk⟩ := Int.eq_ofNat_of_zero_le he
    rw [hk, Int.toNat_natCast, Nat.shiftLeft_eq, zpow_natCast]
    exact_mod_cast Int.floor_natCast (R := ℚ) (p.mantissa * 2 ^ k)
  · next he =>
    obtain ⟨k, hk⟩ : ∃ k : Nat, p.exponent = -k := ⟨(-p.exponent).toNat, by omega⟩
    rw [hk, neg_neg, Int.toNat_natCast, Nat.shiftRight_eq_div_pow, zpow_neg, zpow_natCast,
      ← div_eq_mul_inv]
    have hfloor := Rat.floor_natCast_div_natCast p.mantissa (2 ^ k)
    push_cast at hfloor ⊢
    exact hfloor

/-- A fraction cut off towards zero. -/
def cutOff (q : ℚ) : ℤ := if 0 ≤ q then ⌊q⌋ else ⌈q⌉

theorem cutOff_intCast (n : Int) : cutOff (n : ℚ) = n := by
  rw [cutOff, Int.floor_intCast, Int.ceil_intCast, ite_self]

theorem truncate_eq_floor (x : Float) :
    truncate x = if (parts x).negative then -⌊(parts x).magnitude⌋ else ⌊(parts x).magnitude⌋ := by
  rw [floor_magnitude]
  rfl

/-- What remains of a number without its fraction. -/
theorem truncate_eq_cutOff (x : Float) : truncate x = cutOff (value x) := by
  have hnonneg := magnitude_nonneg (parts x)
  rw [truncate_eq_floor, value, Parts.value, cutOff]
  cases (parts x).negative with
  | false => simp only [Bool.false_eq_true, if_false, if_pos hnonneg]
  | true =>
    simp only [if_true]
    split
    · next hpos =>
      have hzero : (parts x).magnitude = 0 := le_antisymm (by linarith) hnonneg
      simp [hzero]
    · rw [Int.ceil_neg]

end

end Untangle.Binary64
