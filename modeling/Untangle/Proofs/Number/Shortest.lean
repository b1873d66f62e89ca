import Untangle.Number.Shortest
import Untangle.Proofs.Number.Nearest

set_option autoImplicit false

/-!
# Shortest decimals

The shortest decimal of a positive number lies in the interval of what is rounded to the number, so it reads back.
Seventeen digits are enough, because then the steps of the decimal grid are shorter than the interval.  A whole
number that is a mantissa has no other whole number in its interval, so it is its own shortest decimal.
-/

namespace Untangle.Shortest

open Binary64

/-! ## Comparisons of binary and decimal fractions -/

theorem tenTo_eq (k : Nat) : tenTo k = 10 ^ k := rfl

/-- A power with the sign of its exponent taken apart. -/
theorem zpow_mul_pow_neg {b : ℚ} (hb : b ≠ 0) (k : Int) : b ^ k * b ^ (-k).toNat = b ^ k.toNat := by
  rw [← zpow_natCast, ← zpow_natCast b k.toNat, ← zpow_add₀ hb]
  congr 1
  omega

/-- The two factors that turn fractions with denominators `2 ^ -e` and `10 ^ -k` into natural numbers are those of
a common denominator. -/
theorem exists_denominator (e k : Int) : ∃ c : ℚ, 0 < c ∧
    ((tenTo (-k).toNat <<< e.toNat : Nat) : ℚ) = c * 2 ^ e ∧
      ((tenTo k.toNat <<< (-e).toNat : Nat) : ℚ) = c * 10 ^ k := by
  refine ⟨10 ^ (-k).toNat * 2 ^ (-e).toNat, by positivity, ?_, ?_⟩
  · rw [Nat.shiftLeft_eq, tenTo_eq]
    push_cast
    rw [← zpow_mul_pow_neg (by norm_num) e]
    ring
  · rw [Nat.shiftLeft_eq, tenTo_eq]
    push_cast
    rw [← zpow_mul_pow_neg (by norm_num) k]
    ring

theorem reachesPower_iff (n : Nat) (e k : Int) : reachesPower n e k = true ↔ (10 : ℚ) ^ k ≤ n * 2 ^ e := by
  obtain ⟨c, hc, hup, hunit⟩ := exists_denominator e k
  have hscaled : n <<< e.toNat * tenTo (-k).toNat = n * (tenTo (-k).toNat <<< e.toNat) := by
    rw [Nat.shiftLeft_eq, Nat.shiftLeft_eq]
    ring
  rw [reachesPower, decide_eq_true_iff, hscaled, ← Nat.cast_le (α := ℚ), Nat.cast_mul, hup, hunit,
    mul_left_comm, mul_le_mul_iff_right₀ hc]

/-! ## The place of the first digit -/

section

variable {n : Nat} {e : Int}

/-- Raising a bound step by step ends at the first power that is not reached. -/
theorem raisePoint_spec (fuel : Nat) {k : Int} (hlow : (10 : ℚ) ^ (k - 1) ≤ n * 2 ^ e)
    (hhigh : (n : ℚ) * 2 ^ e < 10 ^ (k + fuel)) :
    (10 : ℚ) ^ (raisePoint n e fuel k - 1) ≤ n * 2 ^ e ∧ (n : ℚ) * 2 ^ e < 10 ^ raisePoint n e fuel k := by
  induction fuel generalizing k with
  | zero =>
    rw [Nat.cast_zero, add_zero] at hhigh
    exact ⟨hlow, hhigh⟩
  | succ fuel ih =>
    rw [raisePoint]
    split
    · next hreaches =>
      refine ih ?_ ?_
      · rw [add_sub_cancel_right]
        exact (reachesPower_iff n e k).mp hreaches
      · rw [Nat.cast_succ] at hhigh
        rwa [add_assoc, add_comm 1]
    · next hreaches =>
      rw [reachesPower_iff, not_le] at hreaches
      exact ⟨hlow, hreaches⟩

/-- The number of digits before the point. -/
theorem pointOf_spec (hn : 0 < n) (hleast : -1100 ≤ n.log2 + e) (hgreatest : n.log2 + e ≤ 1100) :
    (10 : ℚ) ^ (pointOf n e - 1) ≤ n * 2 ^ e ∧ (n : ℚ) * 2 ^ e < 10 ^ pointOf n e := by
  obtain ⟨t, ht⟩ : ∃ t : Int, ((n.log2 : Int) + e) * 30103 / 100000 = t := ⟨_, rfl⟩
  have hpos := two_zpow_pos e
  unfold pointOf
  rw [ht]
  apply raisePoint_spec
  · calc (10 : ℚ) ^ (t - 1 - 1) ≤ 2 ^ ((n.log2 : Int) + e) := ten_zpow_le (by omega) (by omega)
      _ = 2 ^ n.log2 * 2 ^ e := by rw [zpow_add₀ (by norm_num), zpow_natCast]
      _ ≤ n * 2 ^ e := mul_le_mul_of_nonneg_right (by exact_mod_cast Nat.log2_self_le hn.ne') hpos.le
  · calc (n : ℚ) * 2 ^ e < 2 ^ (n.log2 + 1) * 2 ^ e :=
          mul_lt_mul_of_pos_right (by exact_mod_cast Nat.lt_log2_self) hpos
      _ = 2 ^ ((n.log2 : Int) + 1 + e) := by rw [zpow_add₀ (by norm_num)]; norm_cast
      _ ≤ 10 ^ (t - 1 + (4 : Nat)) := two_zpow_le (by omega) (by omega)

end

/-! ## Candidates -/

/-- A fraction lies in the interval. -/
def Interval.Holds (i : Interval) (v : ℚ) : Prop :=
  if i.closed then i.low * 2 ^ i.exponent ≤ v ∧ v ≤ i.high * 2 ^ i.exponent
  else i.low * 2 ^ i.exponent < v ∧ v < i.high * 2 ^ i.exponent

/-- The test of a candidate, with the interval and the candidate over a common denominator. -/
theorem holds_iff (i : Interval) (d : Nat) {c : ℚ} (hc : 0 < c) {up unit : Nat} {k : Int}
    (hup : (up : ℚ) = c * 2 ^ i.exponent) (hunit : (unit : ℚ) = c * 10 ^ k) :
    (if i.closed then decide (i.low * up ≤ d * unit) && decide (d * unit ≤ i.high * up)
      else decide (i.low * up < d * unit) && decide (d * unit < i.high * up)) = true ↔
      i.Holds (d * 10 ^ k) := by
  unfold Interval.Holds
  split
  · rw [Bool.and_eq_true, decide_eq_true_iff, decide_eq_true_iff, ← Nat.cast_le (α := ℚ), ← Nat.cast_le (α := ℚ),
      Nat.cast_mul, Nat.cast_mul, Nat.cast_mul, hup, hunit, mul_left_comm, mul_left_comm (d : ℚ),
      mul_left_comm (i.high : ℚ), mul_le_mul_iff_right₀ hc, mul_le_mul_iff_right₀ hc]
  · rw [Bool.and_eq_true, decide_eq_true_iff, decide_eq_true_iff, ← Nat.cast_lt (α := ℚ), ← Nat.cast_lt (α := ℚ),
      Nat.cast_mul, Nat.cast_mul, Nat.cast_mul, hup, hunit, mul_left_comm, mul_left_comm (d : ℚ),
      mul_left_comm (i.high : ℚ), mul_lt_mul_iff_right₀ hc, mul_lt_mul_iff_right₀ hc]

/-- The neighbours on the grid are tried; one of them is taken if any lies in the interval. -/
theorem candidate_spec (i : Interval) (point : Int) (count : Nat) : ∃ below : Nat,
    below * (10 : ℚ) ^ (point - count) ≤ i.value * 2 ^ i.exponent ∧
      i.value * 2 ^ i.exponent < (below + 1 : Nat) * (10 : ℚ) ^ (point - count) ∧
      (∀ d, candidate i point count = some d → d.scale = point - count ∧
        (d.digits = below ∨ d.digits = below + 1) ∧ i.Holds (d.digits * 10 ^ (point - count))) ∧
      (candidate i point count = none → ¬ i.Holds (below * 10 ^ (point - count)) ∧
        ¬ i.Holds ((below + 1 : Nat) * 10 ^ (point - count))) := by
  obtain ⟨c, hc, hup, hunit⟩ := exists_denominator i.exponent (point - count)
  obtain ⟨up, hupeq⟩ : ∃ n, tenTo (-(point - count)).toNat <<< i.exponent.toNat = n := ⟨_, rfl⟩
  obtain ⟨unit, huniteq⟩ : ∃ n, tenTo (point - count).toNat <<< (-i.exponent).toNat = n := ⟨_, rfl⟩
  rw [hupeq] at hup
  rw [huniteq] at hunit
  obtain ⟨hits, hhits⟩ : ∃ hits : Nat → Bool, ∀ d,
      (if i.closed then decide (i.low * up ≤ d * unit) && decide (d * unit ≤ i.high * up)
        else decide (i.low * up < d * unit) && decide (d * unit < i.high * up)) = hits d :=
    ⟨_, fun _ => rfl⟩
  have hholds : ∀ d, hits d = true ↔ i.Holds (d * 10 ^ (point - count)) := by
    intro d
    rw [← hhits]
    exact holds_iff i d hc hup hunit
  obtain ⟨below, hbelow⟩ : ∃ n, i.value * up / unit = n := ⟨_, rfl⟩
  have hpos : 0 < unit := by
    have hcast : (0 : ℚ) < unit := by
      rw [hunit]
      exact mul_pos hc (zpow_pos (by norm_num) _)
    exact_mod_cast hcast
  have houtcome : candidate i point count = none ∧ hits below = false ∧ hits (below + 1) = false ∨
      ∃ n, candidate i point count = some ⟨n, point - count⟩ ∧ (n = below ∨ n = below + 1) ∧ hits n = true := by
    cases hfirst : hits below with
    | true =>
      cases hsecond : hits (below + 1) with
      | true =>
        simp only [candidate, hupeq, huniteq, hhits, hbelow, hfirst, hsecond]
        split
        · exact .inr ⟨below, rfl, .inl rfl, hfirst⟩
        · exact .inr ⟨below + 1, rfl, .inr rfl, hsecond⟩
      | false =>
        simp only [candidate, hupeq, huniteq, hhits, hbelow, hfirst, hsecond]
        exact .inr ⟨below, rfl, .inl rfl, hfirst⟩
    | false =>
      cases hsecond : hits (below + 1) with
      | true =>
        simp only [candidate, hupeq, huniteq, hhits, hbelow, hfirst, hsecond]
        exact .inr ⟨below + 1, rfl, .inr rfl, hsecond⟩
      | false =>
        have hnone : candidate i point count = none := by
          simp only [candidate, hupeq, huniteq, hhits, hbelow, hfirst, hsecond]
        exact .inl ⟨hnone, rfl, rfl⟩
  refine ⟨below, ?_, ?_, ?_, ?_⟩
  · have hle : below * unit ≤ i.value * up := by
      rw [← hbelow]
      exact Nat.div_mul_le_self _ _
    rw [← Nat.cast_le (α := ℚ), Nat.cast_mul, Nat.cast_mul i.value, hup, hunit, mul_left_comm,
      mul_left_comm (i.value : ℚ), mul_le_mul_iff_right₀ hc] at hle
    exact hle
  · have hlt : i.value * up < (below + 1) * unit := by
      rw [← hbelow, Nat.mul_comm _ unit]
      exact Nat.lt_mul_div_succ _ hpos
    rw [← Nat.cast_lt (α := ℚ), Nat.cast_mul, Nat.cast_mul (_ + 1), hup, hunit, mul_left_comm,
      mul_left_comm (_ : ℚ) c, mul_lt_mul_iff_right₀ hc] at hlt
    exact hlt
  · intro d hd
    obtain ⟨hnone, -, -⟩ | ⟨n, hsome, hn, hhit⟩ := houtcome
    · rw [hnone] at hd
      cases hd
    · rw [hsome] at hd
      cases hd
      exact ⟨rfl, hn, (hholds n).mp hhit⟩
  · intro hnone
    obtain ⟨-, hfirst, hsecond⟩ | ⟨n, hsome, -, -⟩ := houtcome
    · rw [← hholds, ← hholds, hfirst, hsecond]
      exact ⟨Bool.false_ne_true, Bool.false_ne_true⟩
    · rw [hsome] at hnone
      cases hnone

/-! ## The shortest decimal -/

section

variable {x : Float}

/-- The interval in quarter steps is that of the fractions around the mantissa. -/
theorem interval_ends (h : Positive x) :
    ((interval x).low : ℚ) * 2 ^ (interval x).exponent =
        ((parts x).mantissa - gapBelow (parts x).mantissa (parts x).exponent) * 2 ^ (parts x).exponent ∧
      ((interval x).value : ℚ) * 2 ^ (interval x).exponent = value x ∧
      ((interval x).high : ℚ) * 2 ^ (interval x).exponent =
        ((parts x).mantissa + 1 / 2) * 2 ^ (parts x).exponent := by
  obtain ⟨m, hm⟩ : ∃ m, (parts x).mantissa = m := ⟨_, rfl⟩
  obtain ⟨e, he⟩ : ∃ e, (parts x).exponent = e := ⟨_, rfl⟩
  have hpos : 0 < m := hm ▸ h.canonical.pos
  have hquarter : (2 : ℚ) ^ (interval x).exponent = 2 ^ e / 4 := by
    show (2 : ℚ) ^ ((parts x).exponent - 2) = _
    rw [he, zpow_sub₀ (by norm_num)]
    norm_num
  have hlow : ((interval x).low : ℚ) = 4 * (m - gapBelow m e) := by
    show ((if (parts x).mantissa == leadingBit && (parts x).exponent > -1074 then 4 * (parts x).mantissa - 1
      else 4 * (parts x).mantissa - 2 : Nat) : ℚ) = _
    rw [hm, he, gapBelow]
    by_cases hpower : m = 2 ^ 52 ∧ -1074 < e
    · have htest : (m == leadingBit && e > -1074) = true := by
        rw [Bool.and_eq_true, beq_iff_eq, decide_eq_true_iff]
        exact hpower
      rw [if_pos htest, if_pos hpower, Nat.cast_sub (by omega)]
      push_cast
      ring
    · have htest : ¬ (m == leadingBit && e > -1074) = true := by
        rw [Bool.and_eq_true, beq_iff_eq, decide_eq_true_iff]
        exact hpower
      rw [if_neg htest, if_neg hpower, Nat.cast_sub (by omega)]
      push_cast
      ring
  have hvalue : ((interval x).value : ℚ) = 4 * m := by
    rw [← hm]
    exact_mod_cast rfl
  have hhigh : ((interval x).high : ℚ) = 4 * m + 2 := by
    rw [← hm]
    exact_mod_cast rfl
  rw [h.value_eq, hquarter, hlow, hvalue, hhigh, hm, he]
  refine ⟨?_, ?_, ?_⟩ <;> ring

/-- What lies in the interval of a number is rounded to it. -/
theorem holds_interval (h : Positive x) (v : ℚ) : (interval x).Holds v ↔ RoundsTo v x := by
  have hpos := two_zpow_pos (parts x).exponent
  obtain ⟨hlow, -, hhigh⟩ := interval_ends h
  have hclosed : (interval x).closed = ((parts x).mantissa % 2 == 0) := rfl
  have haround : RoundsTo v x ↔ Around (parts x).mantissa (parts x).exponent (v / 2 ^ (parts x).exponent) :=
    ⟨RoundsTo.around, fun ha => ⟨h, ha⟩⟩
  rw [haround, Interval.Holds, hlow, hhigh, hclosed, Around]
  by_cases heven : (parts x).mantissa % 2 = 0
  · rw [if_pos (beq_iff_eq.mpr heven), ← le_div_iff₀ hpos, ← div_le_iff₀ hpos, le_iff_lt_or_eq, le_iff_lt_or_eq]
    simp only [heven, true_and]
  · rw [if_neg (fun hbeq => heven (beq_iff_eq.mp hbeq)), ← lt_div_iff₀ hpos, ← div_lt_iff₀ hpos]
    simp only [heven, false_and, or_false]

/-- A fraction that is not far below a number is rounded to it, and one that is not far above. -/
theorem gap_of_not_roundsTo (h : Positive x) {v : ℚ} (hv : ¬ RoundsTo v x) :
    (v ≤ value x → v / 2 ^ (parts x).exponent ≤
        (parts x).mantissa - gapBelow (parts x).mantissa (parts x).exponent) ∧
      (value x ≤ v → (parts x).mantissa + 1 / 2 ≤ v / 2 ^ (parts x).exponent) := by
  have hpos := two_zpow_pos (parts x).exponent
  have hgap := (gapBelow_bounds (parts x).mantissa (parts x).exponent).1
  rw [h.value_eq, ← div_le_iff₀ hpos, ← le_div_iff₀ hpos]
  constructor
  · intro hle
    by_contra hmore
    exact hv ⟨h, .inl (not_le.mp hmore), .inl (by linarith)⟩
  · intro hge
    by_contra hless
    exact hv ⟨h, .inl (by linarith), .inl (not_le.mp hless)⟩

/-- The steps of the grid of seventeen digits are shorter than the interval of a number. -/
theorem exists_candidate (h : Positive x) {point : Int} (hlow : (10 : ℚ) ^ (point - 1) ≤ value x) :
    candidate (interval x) point 17 ≠ none := by
  intro hnone
  obtain ⟨below, hbelow, habove, -, hmissed⟩ := candidate_spec (interval x) point 17
  obtain ⟨hfirst, hsecond⟩ := hmissed hnone
  rw [holds_interval h] at hfirst hsecond
  rw [(interval_ends h).2.1] at hbelow habove
  have hpos := two_zpow_pos (parts x).exponent
  have hleft := (gap_of_not_roundsTo h hfirst).1 hbelow
  have hright := (gap_of_not_roundsTo h hsecond).2 habove.le
  -- The step in units of the mantissa.
  obtain ⟨u, hu⟩ : ∃ u : ℚ, (10 : ℚ) ^ (point - (17 : Nat)) / 2 ^ (parts x).exponent = u := ⟨_, rfl⟩
  rw [mul_div_assoc, hu] at hleft hright
  have hstep : u * 10 ^ 16 ≤ (parts x).mantissa := by
    rw [h.value_eq, ← div_le_iff₀ hpos] at hlow
    calc u * 10 ^ 16 = 10 ^ (point - 1) / 2 ^ (parts x).exponent := by
          rw [← hu, show point - 1 = point - (17 : Nat) + (16 : Nat) by omega, zpow_add₀ (by norm_num), zpow_natCast]
          ring
      _ ≤ (parts x).mantissa := hlow
  have hwide : gapBelow (parts x).mantissa (parts x).exponent + 1 / 2 ≤ u := by
    push_cast at hright
    linarith
  have hless : ((parts x).mantissa : ℚ) < 2 ^ 53 := by exact_mod_cast h.canonical.lt
  unfold gapBelow at hwide
  split at hwide
  · next hpower =>
    rw [hpower.1] at hstep
    norm_num at hstep
    linarith
  · linarith

/-- The number of digits before the point of a positive number. -/
theorem point_spec (h : Positive x) :
    (10 : ℚ) ^ (pointOf (interval x).value (interval x).exponent - 1) ≤ value x ∧
      value x < 10 ^ pointOf (interval x).value (interval x).exponent := by
  have hm := h.canonical
  have hvalue : (interval x).value = (parts x).mantissa <<< 2 := by
    rw [Nat.shiftLeft_eq, Nat.mul_comm]
    rfl
  have hexponent : (interval x).exponent = (parts x).exponent - 2 := rfl
  have hlog : (interval x).value.log2 = (parts x).mantissa.log2 + 2 := by rw [hvalue, log2_shiftLeft hm.pos]
  have hbits : (parts x).mantissa.log2 < 53 := (Nat.log2_lt hm.pos.ne').mpr hm.lt
  have hleast := hm.least
  have hgreatest := hm.greatest
  rw [← (interval_ends h).2.1]
  refine pointOf_spec ?_ (by omega) (by omega)
  rw [hvalue]
  exact Nat.shiftLeft_pos_iff.mpr hm.pos

/-- The first of the results in the order of the numbers. -/
theorem exists_findSome?_range {α : Type} {f : Nat → Option α} {k n : Nat} (hk : k < n) (hf : f k ≠ none) :
    ∃ j a, j ≤ k ∧ f j = some a ∧ (List.range n).findSome? f = some a := by
  have hsplit : List.range n = List.range (k + 1) ++ (List.range (n - (k + 1))).map (k + 1 + ·) := by
    rw [← List.range_add, Nat.add_sub_cancel' hk]
  rw [hsplit, List.findSome?_append]
  cases hfirst : (List.range (k + 1)).findSome? f with
  | none => exact absurd (List.findSome?_eq_none_iff.mp hfirst k (List.mem_range.mpr k.lt_succ_self)) hf
  | some a =>
    obtain ⟨j, hj, heq⟩ := List.exists_of_findSome?_eq_some hfirst
    exact ⟨j, a, Nat.le_of_lt_succ (List.mem_range.mp hj), heq, rfl⟩

/-- The shortest decimal is one of the candidates, with no more digits than another number of digits that is
enough. -/
theorem exists_decimal {k : Nat} (hk : k < 17)
    (hcandidate : candidate (interval x) (pointOf (interval x).value (interval x).exponent) (k + 1) ≠ none) :
    ∃ j ≤ k, candidate (interval x) (pointOf (interval x).value (interval x).exponent) (j + 1) =
      some (decimal x) := by
  obtain ⟨j, d, hj, heq, hfind⟩ := exists_findSome?_range
    (f := fun n => candidate (interval x) (pointOf (interval x).value (interval x).exponent) (n + 1)) hk hcandidate
  have hdecimal : decimal x = d := by simp only [decimal, hfind, Option.getD_some]
  exact ⟨j, hj, hdecimal ▸ heq⟩

/-- The shortest decimal has at most seventeen digits, unless it is the next power of ten, and it reads back. -/
theorem decimal_spec (h : Positive x) : 0 < (decimal x).digits ∧ (decimal x).digits ≤ 10 ^ 17 ∧
    RoundsTo ((decimal x).digits * 10 ^ (decimal x).scale) x := by
  obtain ⟨hlow, hhigh⟩ := point_spec h
  obtain ⟨j, hj, hcandidate⟩ := exists_decimal (by decide) (exists_candidate h hlow)
  obtain ⟨p, hp⟩ : ∃ p, pointOf (interval x).value (interval x).exponent = p := ⟨_, rfl⟩
  rw [hp] at hlow hhigh hcandidate
  obtain ⟨below, hbelow, habove, hsome, -⟩ := candidate_spec (interval x) p (j + 1)
  obtain ⟨hscale, hdigits, hholds⟩ := hsome _ hcandidate
  rw [(interval_ends h).2.1] at hbelow habove
  have hstep : (0 : ℚ) < 10 ^ (p - (j + 1 : Nat)) := zpow_pos (by norm_num) _
  have hpos : 0 < below := by
    by_contra hzero
    rw [Nat.eq_zero_of_not_pos hzero, Nat.zero_add, Nat.cast_one, one_mul] at habove
    have hle : (10 : ℚ) ^ (p - (j + 1 : Nat)) ≤ 10 ^ (p - 1) := zpow_le_zpow_right₀ (by norm_num) (by omega)
    linarith
  have hless : below < 10 ^ 17 := by
    have hcast : (below : ℚ) < 10 ^ 17 := by
      refine lt_of_mul_lt_mul_right ?_ hstep.le
      calc (below : ℚ) * 10 ^ (p - (j + 1 : Nat)) < 10 ^ p := hbelow.trans_lt hhigh
        _ ≤ 10 ^ ((17 : Nat) + (p - (j + 1 : Nat))) := zpow_le_zpow_right₀ (by norm_num) (by omega)
        _ = 10 ^ 17 * 10 ^ (p - (j + 1 : Nat)) := by rw [zpow_add₀ (by norm_num), zpow_natCast]
    exact_mod_cast hcast
  rw [← hscale, holds_interval h] at hholds
  exact ⟨by omega, by omega, hholds⟩

/-- No other whole number is rounded to a whole number that is a mantissa. -/
theorem eq_of_roundsTo {n k : Nat} (hn : value x = n) (hless : n < 2 ^ 53) (hk : RoundsTo (k : ℚ) x) : k = n := by
  have hm := hk.canonical
  have hpos := two_zpow_pos (parts x).exponent
  have hvalue := hn ▸ hk.toPositive.value_eq
  have hexponent : (parts x).exponent ≤ 0 := by
    by_contra hmore
    have hfull : (2 ^ 52 : ℚ) ≤ (parts x).mantissa := by exact_mod_cast hm.full.resolve_left (by omega)
    have htwo : (2 : ℚ) ^ (1 : Int) ≤ 2 ^ (parts x).exponent := zpow_le_zpow_right₀ (by norm_num) (by omega)
    have hn' : (n : ℚ) < 2 ^ 53 := by exact_mod_cast hless
    rw [zpow_one] at htwo
    nlinarith
  have hone : (2 : ℚ) ^ (parts x).exponent ≤ 1 := zpow_le_one_of_nonpos₀ (by norm_num) hexponent
  obtain ⟨hlow, hhigh⟩ := hk.around.nearest.bounds
  rw [le_div_iff₀ hpos, sub_mul, ← hvalue] at hlow
  rw [div_le_iff₀ hpos, add_mul, ← hvalue] at hhigh
  have hle : (n : ℚ) < k + 1 := by linarith
  have hge : (k : ℚ) < n + 1 := by linarith
  exact Nat.le_antisymm (Nat.lt_succ_iff.mp (by exact_mod_cast hge)) (Nat.lt_succ_iff.mp (by exact_mod_cast hle))

/-- A whole number that is a mantissa is its own shortest decimal. -/
theorem decimal_whole (h : Positive x) {n : Nat} (hn : value x = n) (hless : n < 2 ^ 53) :
    ((decimal x).digits : ℚ) * 10 ^ (decimal x).scale = n := by
  obtain ⟨hlow, hhigh⟩ := point_spec h
  have hrounds := (decimal_spec h).2.2
  have hfirst : (1 : ℚ) ≤ n := by
    have hpos := h.value_pos
    rw [hn] at hpos
    exact_mod_cast hpos
  have hlast : (n : ℚ) < 10 ^ (16 : Int) := by
    have hcast : (n : ℚ) < 2 ^ 53 := by exact_mod_cast hless
    norm_num at hcast ⊢
    linarith
  have hpow : ∀ {a b : Int}, (10 : ℚ) ^ a < 10 ^ b → a < b := (zpow_lt_zpow_iff_right₀ (by norm_num)).mp
  rw [hn] at hlow hhigh
  obtain ⟨k, hk⟩ : ∃ k : Nat, pointOf (interval x).value (interval x).exponent = k + 1 := by
    have hpos : 0 < pointOf (interval x).value (interval x).exponent :=
      hpow (by rw [zpow_zero]; exact hfirst.trans_lt hhigh)
    exact ⟨(pointOf (interval x).value (interval x).exponent - 1).toNat, by omega⟩
  have hsmall : k < 17 := by
    have := hpow (hlow.trans_lt hlast)
    omega
  -- The grid of as many digits as stand before the point holds the number itself.
  have hcandidate : candidate (interval x) (pointOf (interval x).value (interval x).exponent) (k + 1) ≠ none := by
    intro hnone
    rw [hk] at hnone
    obtain ⟨below, hbelow, habove, -, hmissed⟩ := candidate_spec (interval x) (k + 1) (k + 1)
    rw [(interval_ends h).2.1, hn] at hbelow habove
    have hunit : (10 : ℚ) ^ ((k : Int) + 1 - (k + 1 : Nat)) = 1 := by
      rw [show (k : Int) + 1 - (k + 1 : Nat) = 0 by omega, zpow_zero]
    rw [hunit, mul_one] at hbelow habove
    have hequal : below = n :=
      Nat.le_antisymm (by exact_mod_cast hbelow) (Nat.lt_succ_iff.mp (by exact_mod_cast habove))
    refine (hmissed hnone).1 ?_
    rw [hunit, mul_one, hequal, holds_interval h, ← hn]
    exact h.roundsTo
  obtain ⟨j, hj, hdecimal⟩ := exists_decimal hsmall hcandidate
  obtain ⟨below, -, -, hsome, -⟩ :=
    candidate_spec (interval x) (pointOf (interval x).value (interval x).exponent) (j + 1)
  obtain ⟨hscale, -, -⟩ := hsome _ hdecimal
  obtain ⟨s, hs⟩ : ∃ s : Nat, (decimal x).scale = s := ⟨(decimal x).scale.toNat, by omega⟩
  rw [hs, zpow_natCast] at hrounds ⊢
  have hwhole := eq_of_roundsTo (k := (decimal x).digits * 10 ^ s) hn hless (by exact_mod_cast hrounds)
  exact_mod_cast hwhole

end

end Untangle.Shortest
