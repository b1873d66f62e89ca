import Untangle.Proofs.Number.Natural
import Untangle.Sandbox.Operator

set_option autoImplicit false

/-!
# Words of 32 bits

The shifts and the operations on bits are computed with integers that become floating-point numbers on the way.
No such integer has more significant bits than a mantissa, so nothing is lost, and the results are those of
words of 32 bits.

The main theorem is `words_exact`, for all values that have a number.
-/

namespace Untangle.Sandbox

open Binary64

/-! ## Words of numbers -/

/-- A number as a word: its fraction is cut off, and the rest is taken modulo `2 ^ 32`.  Infinities and NaN are
zero. -/
def wordOf (x : Float) : BitVec 32 := if isFinite x then BitVec.ofInt 32 (cutOff (value x)) else 0

theorem toNat_wordOf (x : Float) :
    ((wordOf x).toNat : Int) = if isFinite x then cutOff (value x) % 2 ^ 32 else 0 := by
  unfold wordOf
  split
  · rw [BitVec.toNat_ofInt]
    exact Int.toNat_of_nonneg (Int.emod_nonneg _ (by decide))
  · rfl

theorem word32_eq (x : Float) : word32 x = (wordOf x).toNat := by
  unfold word32 wordOf
  split
  · rw [truncate_eq_cutOff, BitVec.toNat_ofInt]
    rfl
  · rfl

/-- The signed reading of a word is the one in two's complement. -/
theorem signed32_toNat (w : BitVec 32) : signed32 w.toNat = w.toInt := by
  rw [signed32, BitVec.toInt_eq_toNat_cond]
  have hless := w.isLt
  split <;> split <;> omega

/-! ## Integers that are numbers -/

/-- An integer becomes a number without loss. -/
def Exact (n : Int) : Prop := isFinite (ofInteger n) = true ∧ value (ofInteger n) = n

theorem exact_of_natAbs {n : Int} {a k : Nat} (hn : n.natAbs = a * 2 ^ k) (hless : a < 2 ^ 53) (hk : k ≤ 971) :
    Exact n := by
  obtain ⟨x, hx, hfinite, hvalue⟩ := ofInt?_whole hn hless hk
  rw [Exact, ofInteger, hx]
  exact ⟨hfinite, hvalue⟩

theorem exact_of_lt {n : Int} (h : n.natAbs < 2 ^ 53) : Exact n :=
  exact_of_natAbs (k := 0) (by rw [pow_zero, mul_one]) h (by decide)

/-- What is left of a number without its fraction is a number. -/
theorem exact_truncate {x : Float} (hx : isFinite x = true) : Exact (truncate x) := by
  obtain ⟨a, k, heq, hless, hk⟩ := exists_truncate hx
  exact exact_of_natAbs heq hless hk

section

variable {x : Float}

theorem integerPart_of_isNaN (hx : isNaN x = true) : integerPart x = 0.0 := if_pos hx

theorem integerPart_of_isInfinite (hx : isInfinite x = true) : integerPart x = x := by
  rw [integerPart, isNaN_of_isInfinite hx, if_neg Bool.false_ne_true, if_pos hx]

theorem integerPart_of_isFinite (hx : isFinite x = true) : integerPart x = ofInteger (truncate x) := by
  rw [integerPart, isNaN_of_isFinite hx, isInfinite_of_isFinite hx, if_neg Bool.false_ne_true,
    if_neg Bool.false_ne_true]

end

theorem Exact.wordOf {n : Int} (h : Exact n) : wordOf (ofInteger n) = BitVec.ofInt 32 n := by
  rw [Sandbox.wordOf, if_pos h.1, h.2, cutOff_intCast]

/-- An integer that is a number is wrapped to the word of its last bits. -/
theorem Exact.wrapped {n : Int} (h : Exact n) : wrapped n = (BitVec.ofInt 32 n).toInt := by
  rw [Sandbox.wrapped, word32_eq, signed32_toNat, h.wordOf]

section

variable (a b : BitVec 32)

theorem toInt_bounds : -2 ^ 31 ≤ a.toInt ∧ a.toInt < 2 ^ 31 := ⟨a.le_toInt, BitVec.toInt_lt⟩

theorem exact_toInt : Exact a.toInt := by
  have hbound := toInt_bounds a
  exact exact_of_lt (by omega)

theorem exact_toNat : Exact a.toNat := by
  have hless := a.isLt
  exact exact_of_lt (by omega)

/-- A signed word that is shifted to the left has no more significant bits than the word. -/
theorem exact_shifted {n : Nat} (hn : n < 32) : Exact (a.toInt * 2 ^ n) := by
  have hbound := toInt_bounds a
  refine exact_of_natAbs (a := a.toInt.natAbs) (k := n) ?_ (by omega) (by omega)
  rw [Int.natAbs_mul, Int.natAbs_pow]
  rfl

/-! ## Bits of integers -/

/-- A bit of an integer in two's complement. -/
def bit : Int → Nat → Bool
  | .ofNat n, i => n.testBit i
  | .negSucc n, i => !n.testBit i

theorem getLsbD_ofInt (n : Int) (i : Nat) : (BitVec.ofInt 32 n).getLsbD i = (decide (i < 32) && bit n i) := by
  cases n with
  | ofNat n => exact BitVec.getLsbD_ofNat 32 n i
  | negSucc n => rw [BitVec.ofInt_negSucc_eq_not_ofNat, BitVec.getLsbD_not, BitVec.getLsbD_ofNat, bit]; grind

theorem bit_onBits (f : Bool → Bool → Bool) (m n i : Nat) :
    bit (bitwise.onBits f m n) i = f (m.testBit i) (n.testBit i) := by
  unfold bitwise.onBits
  split
  · next h => rw [bit, Nat.testBit_bitwise (by rw [h]; rfl), Bool.not_not]
  · next h => exact Nat.testBit_bitwise (Bool.eq_false_iff.mpr h) m n i

theorem bit_bitwise (f : Bool → Bool → Bool) (m n : Int) (i : Nat) :
    bit (bitwise f m n) i = f (bit m i) (bit n i) := by
  cases m with
  | ofNat m =>
    cases n with
    | ofNat n => exact bit_onBits f m n i
    | negSucc n => exact bit_onBits (fun x y => f x !y) m n i
  | negSucc m =>
    cases n with
    | ofNat n => exact bit_onBits (fun x y => f (!x) y) m n i
    | negSucc n => exact bit_onBits (fun x y => f (!x) !y) m n i

theorem natAbs_onBits_le (f : Bool → Bool → Bool) {m n : Nat} (hm : m < 2 ^ 31) (hn : n < 2 ^ 31) :
    (bitwise.onBits f m n).natAbs ≤ 2 ^ 31 := by
  unfold bitwise.onBits
  split
  · exact Nat.bitwise_lt_two_pow hm hn
  · exact (Nat.bitwise_lt_two_pow hm hn).le

theorem natAbs_bitwise_le (f : Bool → Bool → Bool) {m n : Int} (hm : -2 ^ 31 ≤ m ∧ m < 2 ^ 31)
    (hn : -2 ^ 31 ≤ n ∧ n < 2 ^ 31) : (bitwise f m n).natAbs ≤ 2 ^ 31 := by
  have hofNat : ∀ {k : Nat}, -2 ^ 31 ≤ Int.ofNat k ∧ Int.ofNat k < 2 ^ 31 → k < 2 ^ 31 := by
    intro k hk
    rw [Int.ofNat_eq_natCast] at hk
    omega
  cases m with
  | ofNat m =>
    cases n with
    | ofNat n => exact natAbs_onBits_le f (hofNat hm) (hofNat hn)
    | negSucc n => exact natAbs_onBits_le (fun x y => f x !y) (hofNat hm) (by omega)
  | negSucc m =>
    cases n with
    | ofNat n => exact natAbs_onBits_le (fun x y => f (!x) y) (by omega) (hofNat hn)
    | negSucc n => exact natAbs_onBits_le (fun x y => f (!x) !y) (by omega) (by omega)

/-- An operation on the bits of signed words stays among these. -/
theorem exact_bitwise (f : Bool → Bool → Bool) : Exact (bitwise f a.toInt b.toInt) :=
  exact_of_lt (Nat.lt_of_le_of_lt (natAbs_bitwise_le f (toInt_bounds a) (toInt_bounds b)) (by decide))

theorem getLsbD_eq_bit {i : Nat} (hi : i < 32) : a.getLsbD i = bit a.toInt i := by
  have hbits := getLsbD_ofInt a.toInt i
  rwa [BitVec.ofInt_toInt, decide_eq_true hi, Bool.true_and] at hbits

/-- The last bits of the result are those of the words. -/
theorem ofInt_bitwise (f : Bool → Bool → Bool) {c : BitVec 32}
    (hc : ∀ i, c.getLsbD i = f (a.getLsbD i) (b.getLsbD i)) :
    BitVec.ofInt 32 (bitwise f a.toInt b.toInt) = c := by
  apply BitVec.eq_of_getLsbD_eq
  intro i hi
  rw [getLsbD_ofInt, decide_eq_true hi, Bool.true_and, bit_bitwise, hc, getLsbD_eq_bit a hi, getLsbD_eq_bit b hi]

end

/-! ## Operations on words -/

/-- The operations on words.  A shift goes by the right operand modulo 32, and all results are signed but that
of the shift that fills with zeros. -/
def wordOperation? : BinaryOp → Option (BitVec 32 → BitVec 32 → Int)
  | .shiftLeft => some fun a b => (a <<< (b.toNat % 32)).toInt
  | .shiftRight => some fun a b => (a.sshiftRight (b.toNat % 32)).toInt
  | .shiftRightZero => some fun a b => (a >>> (b.toNat % 32)).toNat
  | .bitAnd => some fun a b => (a &&& b).toInt
  | .bitOr => some fun a b => (a ||| b).toInt
  | .bitXor => some fun a b => (a ^^^ b).toInt
  | _ => none

section

variable {h : Heap} {l r : Value} {x y : Float}

theorem toUint32_eq (hl : toNumber h l = .ok x) : toUint32 h l = .ok (wordOf x).toNat := by
  rw [toUint32, hl]
  exact congrArg Except.ok (word32_eq x)

theorem toInt32_eq (hl : toNumber h l = .ok x) : toInt32 h l = .ok (wordOf x).toInt := by
  rw [toInt32, toUint32_eq hl]
  exact congrArg Except.ok (signed32_toNat _)

/-- The last bits of a signed word that is shifted to the left are those of the shifted word. -/
theorem ofInt_shifted (a : BitVec 32) (n : Nat) : BitVec.ofInt 32 (a.toInt * 2 ^ n) = a <<< n := by
  have hpower : BitVec.ofInt 32 (2 ^ n) = BitVec.twoPow 32 n := by
    apply BitVec.eq_of_toNat_eq
    rw [BitVec.toNat_twoPow, show (2 ^ n : Int) = ((2 ^ n : Nat) : Int) by push_cast; rfl, BitVec.ofInt_natCast,
      BitVec.toNat_ofNat]
  rw [BitVec.ofInt_mul, BitVec.ofInt_toInt, hpower, BitVec.shiftLeft_eq_mul_twoPow]

/-- The operations have the results of the operations on words. -/
theorem pureOperation_eq (hl : toNumber h l = .ok x) (hr : toNumber h r = .ok y) {op : BinaryOp}
    {f : BitVec 32 → BitVec 32 → Int} (hf : wordOperation? op = some f) :
    pureOperation h op l r = .ok (.number (ofInteger (f (wordOf x) (wordOf y)))) := by
  have hcount : (wordOf y).toNat &&& 31 = (wordOf y).toNat % 32 := Nat.and_two_pow_sub_one_eq_mod _ 5
  have hless : (wordOf y).toNat % 32 < 32 := Nat.mod_lt _ (by decide)
  have hbits : ∀ (f : Bool → Bool → Bool) {c : BitVec 32},
      (∀ i, c.getLsbD i = f ((wordOf x).getLsbD i) ((wordOf y).getLsbD i)) →
        wrapped (bitwise f (wordOf x).toInt (wordOf y).toInt) = c.toInt := by
    intro f c hc
    rw [(exact_bitwise _ _ f).wrapped, ofInt_bitwise _ _ f hc]
  cases op with
  | shiftLeft =>
    cases hf
    have hshift : shiftValues h .shiftLeft l r =
        .ok (ofInteger (wrapped ((wordOf x).toInt <<< ((wordOf y).toNat % 32)))) := by
      rw [shiftValues, toUint32_eq hr, toInt32_eq hl, ← hcount]
      rfl
    rw [Int.shiftLeft_eq, (exact_shifted _ hless).wrapped, ofInt_shifted] at hshift
    rw [pureOperation, hshift]
    rfl
  | shiftRight =>
    cases hf
    have hshift : shiftValues h .shiftRight l r =
        .ok (ofInteger ((wordOf x).toInt >>> ((wordOf y).toNat % 32))) := by
      rw [shiftValues, toUint32_eq hr, toInt32_eq hl, ← hcount]
      rfl
    rw [← BitVec.toInt_sshiftRight] at hshift
    rw [pureOperation, hshift]
    rfl
  | shiftRightZero =>
    cases hf
    have hshift : shiftValues h .shiftRightZero l r =
        .ok (ofInteger ((wordOf x).toNat >>> ((wordOf y).toNat % 32) : Nat)) := by
      rw [shiftValues, toUint32_eq hr, toUint32_eq hl, ← hcount]
      rfl
    rw [← BitVec.toNat_ushiftRight] at hshift
    rw [pureOperation, hshift]
    rfl
  | bitAnd =>
    cases hf
    have hand := hbits (· && ·) fun i => BitVec.getLsbD_and
    rw [pureOperation, bitValues, toInt32_eq hl, toInt32_eq hr]
    exact congrArg (fun n => Except.ok (Value.number (ofInteger n))) hand
  | bitOr =>
    cases hf
    have hor := hbits (· || ·) fun i => BitVec.getLsbD_or
    rw [pureOperation, bitValues, toInt32_eq hl, toInt32_eq hr]
    exact congrArg (fun n => Except.ok (Value.number (ofInteger n))) hor
  | bitXor =>
    cases hf
    have hxor := hbits (· ^^ ·) fun i => BitVec.getLsbD_xor
    rw [pureOperation, bitValues, toInt32_eq hl, toInt32_eq hr]
    exact congrArg (fun n => Except.ok (Value.number (ofInteger n))) hxor
  | _ => cases hf

/-- All results of the operations on words are integers that become numbers without loss. -/
theorem exact_wordOperation {op : BinaryOp} {f : BitVec 32 → BitVec 32 → Int}
    (hf : wordOperation? op = some f) (a b : BitVec 32) : Exact (f a b) := by
  cases op with
  | shiftRightZero =>
    cases hf
    exact exact_toNat _
  | shiftLeft | shiftRight | bitAnd | bitOr | bitXor =>
    cases hf
    exact exact_toInt _
  | _ => cases hf

end

/-- Conversions to words and operations on them.  The unsigned word of a value is its number without the fraction
modulo `2 ^ 32`, zero for infinities and NaN; the signed one is the same word read in two's complement.  The
operators have the results of the operations on words of 32 bits, and every integer on the way there becomes a
number without loss: the signed word that was shifted to the left, the one whose bits were computed, and the
result. -/
theorem words_exact {h : Heap} {l r : Value} {x y : Float} (hl : toNumber h l = .ok x) (hr : toNumber h r = .ok y) :
    toUint32 h l = .ok (wordOf x).toNat ∧
      ((wordOf x).toNat : Int) = (if isFinite x then cutOff (value x) % 2 ^ 32 else 0) ∧
      toInt32 h l = .ok (wordOf x).toInt ∧ -2 ^ 31 ≤ (wordOf x).toInt ∧ (wordOf x).toInt < 2 ^ 31 ∧
      (∀ op f, wordOperation? op = some f → ∃ z, pureOperation h op l r = .ok (.number z) ∧
        isFinite z = true ∧ value z = f (wordOf x) (wordOf y)) ∧
      (∀ n < 32, Exact ((wordOf x).toInt * 2 ^ n)) ∧
      ∀ f, Exact (bitwise f (wordOf x).toInt (wordOf y).toInt) := by
  obtain ⟨hlow, hhigh⟩ := toInt_bounds (wordOf x)
  refine ⟨toUint32_eq hl, toNat_wordOf x, toInt32_eq hl, hlow, hhigh, ?_, fun n hn => exact_shifted _ hn,
    exact_bitwise _ _⟩
  intro op f hf
  obtain ⟨hfinite, hvalue⟩ := exact_wordOperation hf (wordOf x) (wordOf y)
  exact ⟨_, pureOperation_eq hl hr hf, hfinite, hvalue⟩

/-- A text beyond the least signed word, shifted by more than the width of a word: what is left is the shift by one
of the greatest signed word. -/
theorem words_exact_shiftedText :
    toNumber #[] (.string "-2147483649.75") = .ok (-2147483649.75) ∧ toNumber #[] (.number 33.0) = .ok 33.0 ∧
      ∃ z, pureOperation #[] .shiftLeft (.string "-2147483649.75") (.number 33.0) = .ok (.number z) ∧
        value z = -2 := by
  have hl : toNumber #[] (.string "-2147483649.75") = .ok (-2147483649.75) := rfl
  have hr : toNumber #[] (.number 33.0) = .ok 33.0 := rfl
  have hleft : wordOf (-2147483649.75) = 0x7FFFFFFF#32 := by
    apply BitVec.eq_of_toNat_eq
    rw [← word32_eq]
    decide +kernel
  have hright : wordOf 33.0 = 33#32 := by
    apply BitVec.eq_of_toNat_eq
    rw [← word32_eq]
    decide +kernel
  obtain ⟨-, -, -, -, -, hoperations, -⟩ := words_exact hl hr
  obtain ⟨z, hz, -, hvalue⟩ := hoperations .shiftLeft _ rfl
  rw [hleft, hright] at hvalue
  exact ⟨hl, hr, z, hz, hvalue.trans (by decide +kernel)⟩

end Untangle.Sandbox
