import Mathlib.Data.List.Induction
import Mathlib.Data.Nat.Digits.Lemmas
import Mathlib.Tactic.Ring
import Untangle.Text.Digit

set_option autoImplicit false

/-!
# Digits

The decimal digits of a text denote a number, place by place.  Without a zero in front they are determined by the
number, so that the decimal text of a number is the only text of that kind which denotes it.

In any base, the loop that takes digits off a number from the right writes the digits of the number, at least one.
Reading them back place by place gives the number, whatever the signs of the digits are.
-/

namespace Untangle.Text

/-! ## Digits and numbers -/

theorem digit_bounds {c : Nat} (h : isAsciiDigit c = true) : 0x30 ≤ c ∧ c ≤ 0x39 := by
  simpa only [isAsciiDigit, Bool.and_eq_true, decide_eq_true_iff] using h

theorem decimalValue?_of_isAsciiDigit {c : Nat} (h : isAsciiDigit c = true) : decimalValue? c = some (c - 0x30) := by
  have hless : c < 0x80 := (digit_bounds h).2.trans_lt (by decide)
  rw [decimalValue?, if_pos hless, if_pos h]

theorem isDecimal_of_isAsciiDigit {c : CodePoint} (h : isAsciiDigit c = true) : isDecimal c = true := by
  rw [isDecimal, decimalValue?_of_isAsciiDigit h]
  rfl

theorem digitLower_eq {d : Nat} (h : d < 10) : digitLower d = 0x30 + d := if_pos h

theorem isAsciiDigit_digitLower {d : Nat} (h : d < 10) : isAsciiDigit (digitLower d) = true := by
  rw [digitLower_eq h]
  simp only [isAsciiDigit, Bool.and_eq_true, decide_eq_true_iff]
  dsimp only [CodePoint]
  omega

/-- A text of digits. -/
def AllDigits (t : Text) : Prop := ∀ c ∈ t, isAsciiDigit c = true

section

variable {s t : Text} {c : CodePoint}

theorem AllDigits.append (hs : AllDigits s) (ht : AllDigits t) : AllDigits (s ++ t) := by
  intro c hc
  obtain hc | hc := List.mem_append.mp hc
  · exact hs c hc
  · exact ht c hc

theorem allDigits_replicate (n : Nat) : AllDigits (List.replicate n 0x30) := by
  intro c hc
  rw [List.eq_of_mem_replicate hc]
  rfl

theorem decimalNumber_append_singleton (t : Text) (c : CodePoint) :
    decimalNumber (t ++ [c]) = 10 * decimalNumber t + (decimalValue? c).getD 0 := by
  rw [decimalNumber, List.foldl_append]
  rfl

theorem decimalNumber_append (s t : Text) :
    decimalNumber (s ++ t) = decimalNumber s * 10 ^ t.length + decimalNumber t := by
  induction t using List.reverseRecOn with
  | nil => simp [decimalNumber]
  | append_singleton t c ih =>
    rw [← List.append_assoc, decimalNumber_append_singleton, decimalNumber_append_singleton, ih, List.length_append,
      List.length_singleton, pow_succ]
    ring

theorem decimalNumber_zeros (n : Nat) : decimalNumber (List.replicate n 0x30) = 0 := by
  induction n with
  | zero => rfl
  | succ n ih =>
    rw [List.replicate_succ', decimalNumber_append_singleton, ih]
    rfl

/-- The digits of all scripts have values below ten. -/
theorem decimalValue?_lt {d : Nat} (h : decimalValue? c = some d) : d < 10 := by
  unfold decimalValue? at h
  split at h
  · split at h
    · next hdigit =>
      have hbounds := digit_bounds hdigit
      cases h
      omega
    · cases h
  · obtain ⟨z, hz, rfl⟩ := Option.map_eq_some_iff.mp h
    have hrange := List.find?_some hz
    simp only [Bool.and_eq_true, decide_eq_true_iff] at hrange
    dsimp only [CodePoint] at hrange ⊢
    omega

theorem decimalNumber_lt (t : Text) : decimalNumber t < 10 ^ t.length := by
  induction t using List.reverseRecOn with
  | nil => decide
  | append_singleton t c ih =>
    have hdigit : (decimalValue? c).getD 0 < 10 := by
      cases hvalue : decimalValue? c with
      | none => decide
      | some d => exact decimalValue?_lt hvalue
    rw [decimalNumber_append_singleton, List.length_append, List.length_singleton, pow_succ]
    omega

/-- Digits of one length that denote the same number are the same. -/
theorem eq_of_decimalNumber_eq (hs : AllDigits s) (ht : AllDigits t) (hlength : s.length = t.length)
    (heq : decimalNumber s = decimalNumber t) : s = t := by
  induction s using List.reverseRecOn generalizing t with
  | nil => exact (List.eq_nil_of_length_eq_zero hlength.symm).symm
  | append_singleton s c ih =>
    obtain rfl | ⟨t, d, rfl⟩ := t.eq_nil_or_concat
    · simp at hlength
    · rw [List.concat_eq_append] at ht hlength heq ⊢
      have hc := hs c (by simp)
      have hd := ht d (by simp)
      have hcbounds := digit_bounds hc
      have hdbounds := digit_bounds hd
      rw [decimalNumber_append_singleton, decimalNumber_append_singleton, decimalValue?_of_isAsciiDigit hc,
        decimalValue?_of_isAsciiDigit hd, Option.getD_some, Option.getD_some] at heq
      have hlast : @Eq Nat c d := by omega
      have hfirst : s = t := by
        refine ih (fun e he => hs e (by simp [he])) (fun e he => ht e (by simp [he])) ?_ (by omega)
        simpa using hlength
      rw [hfirst, hlast]

theorem decimalNumber_singleton (hc : isAsciiDigit c = true) : decimalNumber [c] = c - 0x30 := by
  rw [decimalNumber, List.foldl_cons, List.foldl_nil, decimalValue?_of_isAsciiDigit hc, Option.getD_some,
    Nat.mul_zero, Nat.zero_add]

/-- Digits that do not begin with a zero denote at least the power of ten of their length. -/
theorem le_decimalNumber (ht : AllDigits (c :: t)) (hc : c ≠ 0x30) : 10 ^ t.length ≤ decimalNumber (c :: t) := by
  have hdigit := ht c (by simp)
  have hbounds := digit_bounds hdigit
  rw [show c :: t = [c] ++ t from rfl, decimalNumber_append, decimalNumber_singleton hdigit]
  have hpos : 1 ≤ c - 0x30 := by
    dsimp only [CodePoint] at hc ⊢
    omega
  calc 10 ^ t.length = 1 * 10 ^ t.length := (Nat.one_mul _).symm
    _ ≤ (c - 0x30) * 10 ^ t.length := Nat.mul_le_mul_right _ hpos
    _ ≤ (c - 0x30) * 10 ^ t.length + decimalNumber t := Nat.le_add_right _ _

end

/-- Digits without a zero in front. -/
structure Plain (t : Text) : Prop where
  digits : AllDigits t
  head : ∃ c r, t = c :: r ∧ c ≠ 0x30

theorem Plain.length_le {s t : Text} (hs : Plain s) (heq : decimalNumber s = decimalNumber t) :
    s.length ≤ t.length := by
  obtain ⟨c, r, rfl, hc⟩ := hs.head
  have hlow := le_decimalNumber hs.digits hc
  have hhigh := decimalNumber_lt t
  rw [heq] at hlow
  exact (Nat.pow_lt_pow_iff_right (by decide)).mp (hlow.trans_lt hhigh)

/-- A number has only one text of digits without a zero in front. -/
theorem Plain.unique {s t : Text} (hs : Plain s) (ht : Plain t) (heq : decimalNumber s = decimalNumber t) :
    s = t :=
  eq_of_decimalNumber_eq hs.digits ht.digits (Nat.le_antisymm (hs.length_le heq) (ht.length_le heq.symm)) heq

theorem digitsOn_spec (fuel : Nat) {n : Nat} (h : n < 2 ^ (fuel + 1)) (rest : Text) :
    ∃ ds, digitsOn 10 digitLower (fuel + 1) n rest = ds ++ rest ∧ AllDigits ds ∧ ds ≠ [] ∧ decimalNumber ds = n ∧
      (0 < n → Plain ds) := by
  have hsingle : ∀ {d : Nat}, d < 10 → AllDigits [digitLower d] := by
    intro d hd c hc
    rw [List.mem_singleton.mp hc]
    exact isAsciiDigit_digitLower hd
  have hnumber : ∀ {d : Nat}, d < 10 → decimalNumber [digitLower d] = d := by
    intro d hd
    rw [decimalNumber_singleton (isAsciiDigit_digitLower hd), digitLower_eq hd]
    exact Nat.add_sub_cancel_left 0x30 d
  induction fuel generalizing n rest with
  | zero =>
    have hless : n < 10 := h.trans (by decide)
    refine ⟨[digitLower n], by rw [digitsOn, if_pos hless]; rfl, hsingle hless, List.cons_ne_nil _ _,
      hnumber hless, fun hpos => ⟨hsingle hless, _, _, rfl, ?_⟩⟩
    rw [digitLower_eq hless]
    dsimp only [CodePoint]
    omega
  | succ fuel ih =>
    rw [digitsOn]
    split
    · next hless =>
      refine ⟨[digitLower n], rfl, hsingle hless, List.cons_ne_nil _ _, hnumber hless,
        fun hpos => ⟨hsingle hless, _, _, rfl, ?_⟩⟩
      rw [digitLower_eq hless]
      dsimp only [CodePoint]
      omega
    · next hmore =>
      have hlast : n % 10 < 10 := Nat.mod_lt n (by decide)
      obtain ⟨ds, heq, hdigits, hne, hvalue, hplain⟩ :=
        ih (n := n / 10) (by rw [pow_succ] at h; omega) (digitLower (n % 10) :: rest)
      refine ⟨ds ++ [digitLower (n % 10)], by rw [heq, List.append_assoc]; rfl, hdigits.append (hsingle hlast),
        by simp, ?_, fun _ => ⟨hdigits.append (hsingle hlast), ?_⟩⟩
      · rw [decimalNumber_append, hvalue, hnumber hlast, List.length_singleton, pow_one]
        exact Nat.div_add_mod' n 10
      · obtain ⟨c, r, rfl, hc⟩ := (hplain (by omega)).head
        exact ⟨c, r ++ [digitLower (n % 10)], rfl, hc⟩

/-- The text of a natural number. -/
theorem ofNat_spec (n : Nat) : AllDigits (ofNat n) ∧ ofNat n ≠ [] ∧ decimalNumber (ofNat n) = n ∧
    (0 < n → Plain (ofNat n)) := by
  obtain ⟨ds, heq, hdigits, hne, hnumber, hplain⟩ := digitsOn_spec n.log2 Nat.lt_log2_self []
  rw [List.append_nil] at heq
  rw [ofNat, heq]
  exact ⟨hdigits, hne, hnumber, hplain⟩

theorem ofNat_zero : ofNat 0 = [0x30] := rfl

theorem ofNat_injective {m n : Nat} (h : ofNat m = ofNat n) : m = n := by
  rw [← (ofNat_spec m).2.2.1, h, (ofNat_spec n).2.2.1]

/-- Only zero has a text that begins with a zero. -/
theorem head?_ofNat (n : Nat) : ofNat n = [0x30] ∨ (ofNat n).head? ≠ some 0x30 := by
  obtain rfl | hpos := n.eq_zero_or_pos
  · exact .inl ofNat_zero
  · obtain ⟨c, r, heq, hc⟩ := ((ofNat_spec n).2.2.2 hpos).head
    rw [heq]
    exact .inr fun hhead => hc (Option.some.inj hhead)

/-- Digits are the text of the number that they denote, unless there is a zero too many. -/
theorem eq_ofNat {t : Text} (ht : AllDigits t) (hne : t ≠ []) (hhead : t = [0x30] ∨ t.head? ≠ some 0x30) :
    t = ofNat (decimalNumber t) := by
  rcases hhead with rfl | hhead
  · rfl
  · obtain ⟨c, r, rfl⟩ := List.exists_cons_of_ne_nil hne
    have hc : c ≠ 0x30 := fun heq => hhead (congrArg some heq)
    have hpos : 0 < decimalNumber (c :: r) := (Nat.pow_pos (by decide)).trans_le (le_decimalNumber ht hc)
    obtain ⟨-, -, hnumber, hplain⟩ := ofNat_spec (decimalNumber (c :: r))
    exact Plain.unique ⟨ht, c, r, rfl, hc⟩ (hplain hpos) hnumber.symm

/-- A number below a power of ten has no more digits than that. -/
theorem length_ofNat_le {n k : Nat} (hn : n < 10 ^ k) (hk : 0 < k) : (ofNat n).length ≤ k := by
  obtain rfl | hpos := n.eq_zero_or_pos
  · exact hk
  · obtain ⟨-, -, hnumber, hplain⟩ := ofNat_spec n
    obtain ⟨c, r, heq, hc⟩ := (hplain hpos).head
    have hlow := le_decimalNumber (heq ▸ (hplain hpos).digits) hc
    rw [← heq, hnumber] at hlow
    rw [heq, List.length_cons]
    exact (Nat.pow_lt_pow_iff_right (by decide)).mp (hlow.trans_lt hn)

/-! ## Blanks and separators -/

theorem trimBy_eq_self {p : CodePoint → Bool} {t : Text} (h : ∀ c ∈ t, p c = false) : trimBy p t = t := by
  have hdrop : ∀ {t : Text}, (∀ c ∈ t, p c = false) → t.dropWhile p = t := by
    intro t ht
    cases t with
    | nil => rfl
    | cons c t => rw [List.dropWhile_cons_of_neg (by simp [ht c])]
  rw [trimBy, hdrop h, hdrop (by simpa using h), List.reverse_reverse]

theorem splitOn_eq_singleton {d : CodePoint} {t : Text} (h : ∀ c ∈ t, c ≠ d) : splitOn [d] t = [t] := by
  have hgo : ∀ (t piece : Text), (∀ c ∈ t, c ≠ d) → splitGo [d] 0 piece t = [piece.reverse ++ t] := by
    intro t
    induction t with
    | nil =>
      intro piece _
      rw [splitGo, List.append_nil]
    | cons c t ih =>
      intro piece ht
      have hne : ([d] : Text).isPrefixOf (c :: t) = false := by
        simp [List.isPrefixOf, (ht c (by simp)).symm]
      rw [splitGo, if_neg (by simp [hne]), ih _ fun e he => ht e (by simp [he]), List.reverse_cons,
        List.append_assoc]
      rfl
  exact hgo t [] h

/-- No visible character of ASCII is a blank. -/
theorem isBlank_of_visible {c : Nat} (hlow : 0x21 ≤ c) (hhigh : c ≤ 0x7E) : isBlank c = false := by
  simp only [isBlank, Bool.or_eq_false_iff, Bool.and_eq_false_iff, decide_eq_false_iff_not, beq_eq_false_iff_ne]
  dsimp only [CodePoint]
  omega

/-- Digits after a sign. -/
theorem integer?_signed {t : Text} (ht : AllDigits t) (hne : t ≠ []) (negative : Bool) :
    integer? ((if negative then 0x2D else 0x2B) :: t) =
      some (if negative then -(decimalNumber t : Int) else decimalNumber t) := by
  have hvisible : ∀ c ∈ t, isBlank c = false := by
    intro c hc
    have hbounds := digit_bounds (ht c hc)
    exact isBlank_of_visible (by omega) (by omega)
  have hgroups : groupedDigits? t = some t := by
    have hsplit : splitOn [0x5F] t = [t] := by
      refine splitOn_eq_singleton fun c hc heq => ?_
      have hbounds := digit_bounds (ht c hc)
      rw [heq] at hbounds
      exact absurd hbounds (by decide)
    have hall : ([t].all fun g => !g.isEmpty && g.all isDecimal) = true := by
      rw [List.all_cons, List.all_nil, Bool.and_true, Bool.and_eq_true, Bool.not_eq_true', List.isEmpty_eq_false_iff,
        List.all_eq_true]
      exact ⟨hne, fun c hc => isDecimal_of_isAsciiDigit (ht c hc)⟩
    rw [groupedDigits?, hsplit, if_pos hall]
    simp
  cases negative with
  | true =>
    have htrim : trim (0x2D :: t) = 0x2D :: t :=
      trimBy_eq_self fun c hc => (List.mem_cons.mp hc).elim (fun heq => heq ▸ rfl) (hvisible c)
    show integer? (0x2D :: t) = some (-(decimalNumber t : Int))
    rw [integer?, htrim]
    simp only [hgroups, Option.map_some]
  | false =>
    have htrim : trim (0x2B :: t) = 0x2B :: t :=
      trimBy_eq_self fun c hc => (List.mem_cons.mp hc).elim (fun heq => heq ▸ rfl) (hvisible c)
    show integer? (0x2B :: t) = some (decimalNumber t : Int)
    rw [integer?, htrim]
    simp only [hgroups, Option.map_some]

/-! ## Digits in any base -/

section

variable {base n : Nat}

/-- A number that is not zero has at least one digit. -/
theorem digitsAppend_one (hn : 0 < n) : Nat.digitsAppend base 1 n = Nat.digits base n := by
  have hne := List.length_pos_of_ne_nil (Nat.digits_ne_nil_iff_ne_zero (b := base).mpr hn.ne')
  simp [Nat.digitsAppend, Nat.sub_eq_zero_of_le hne]

/-- The loop writes the digits of the number, and one zero for zero. -/
theorem digitsOn_eq (hbase : 2 ≤ base) (digit : Nat → CodePoint) (fuel : Nat) (h : n < 2 ^ (fuel + 1))
    (rest : Text) :
    digitsOn base digit (fuel + 1) n rest = (Nat.digitsAppend base 1 n).reverse.map digit ++ rest := by
  have hsingle : ∀ {m : Nat}, m < base → Nat.digitsAppend base 1 m = [m] := by
    intro m hm
    rcases Nat.eq_zero_or_pos m with rfl | hpos
    · simp [Nat.digitsAppend]
    · simp [Nat.digitsAppend, Nat.digits_of_lt base m hpos.ne' hm]
  induction fuel generalizing n rest with
  | zero => rw [digitsOn, if_pos (by omega), hsingle (by omega)]; rfl
  | succ fuel ih =>
    rw [digitsOn]
    split
    · next hless => rw [hsingle hless]; rfl
    · next hmore =>
      have hless : n / base < 2 ^ (fuel + 1) := by
        calc n / base ≤ n / 2 := Nat.div_le_div_left hbase (by decide)
          _ < 2 ^ (fuel + 1) := by rw [pow_succ] at h; omega
      have hrest : 0 < n / base := Nat.div_pos (by omega) (by omega)
      rw [ih hless, digitsAppend_one hrest, digitsAppend_one (by omega),
        Nat.digits_eq_cons_digits_div (n := n) (by omega) (by omega)]
      simp

/-- Reading digits place by place. -/
theorem foldl_digits {digit : Nat → CodePoint} {value? : CodePoint → Option Nat} {ds : List Nat}
    (hvalue : ∀ d ∈ ds, value? (digit d) = some d) :
    (ds.map digit).foldl (fun n c => base * n + (value? c).getD 0) 0 = Nat.ofDigits base ds.reverse := by
  rw [Nat.ofDigits_eq_foldr, List.foldr_reverse, List.foldl_map]
  refine List.foldl_ext _ _ _ fun n d hd => ?_
  rw [hvalue d hd, Option.getD_some, Nat.cast_id, Nat.add_comm]

theorem ofDigits_digitsAppend (k : Nat) : Nat.ofDigits base (Nat.digitsAppend base k n) = n := by
  rw [Nat.digitsAppend, Nat.ofDigits_append_replicate_zero, Nat.ofDigits_digits]

/-- There are as many digits as the width asks for, and more where the number needs them. -/
theorem le_length_digitsAppend (k : Nat) : k ≤ (Nat.digitsAppend base k n).length := by
  rw [Nat.digitsAppend, List.length_append, List.length_replicate]
  omega

end

/-! ## Hexadecimal digits -/

theorem hexValue?_digitUpper {d : Nat} (h : d < 16) : hexValue? (digitUpper d) = some d := by
  have hall : ∀ d < 16, hexValue? (digitUpper d) = some d := by decide
  exact hall d h

theorem isHexDigit_digitUpper {d : Nat} (h : d < 16) : isHexDigit (digitUpper d) = true := by
  rw [isHexDigit, hexValue?_digitUpper h]
  rfl

/-- Digits filled up to a width are those of a list of digits below 16 that stands for the number. -/
theorem exists_hexUpper {width : Nat} (hwidth : 0 < width) (n : Nat) :
    ∃ ds : List Nat, hexUpper width n = ds.map digitUpper ∧ (∀ d ∈ ds, d < 16) ∧
      Nat.ofDigits 16 ds.reverse = n ∧ width ≤ ds.length ∧ (n < 16 ^ width → ds.length = width) := by
  have heq : hexUpper width n = (Nat.digitsAppend 16 width n).reverse.map digitUpper := by
    have hbase : 2 ≤ 16 := by decide
    have hloop := digitsOn_eq hbase digitUpper n.log2 Nat.lt_log2_self []
    rw [List.append_nil] at hloop
    rw [hexUpper, hloop]
    simp only [Nat.digitsAppend, List.length_map, List.length_reverse, List.length_append, List.length_replicate,
      List.reverse_append, List.reverse_replicate, List.map_append, List.map_replicate, ← List.append_assoc]
    show List.replicate _ (digitUpper 0) ++ List.replicate _ (digitUpper 0) ++ _ = _
    rw [List.replicate_append_replicate]
    congr 2
    omega
  refine ⟨_, heq, ?_, ?_, ?_, ?_⟩
  · intro d hd
    exact Nat.lt_of_mem_digitsAppend (by decide) width d (List.mem_reverse.mp hd)
  · rw [List.reverse_reverse, ofDigits_digitsAppend]
  · rw [List.length_reverse]
    exact le_length_digitsAppend width
  · intro h
    rw [List.length_reverse, Nat.length_digitsAppend (by decide) width h]

theorem hexNumber_map {ds : List Nat} (hds : ∀ d ∈ ds, d < 16) :
    hexNumber (ds.map digitUpper) = Nat.ofDigits 16 ds.reverse :=
  foldl_digits fun d hd => hexValue?_digitUpper (hds d hd)

/-- A byte is two digits. -/
theorem exists_hexUpper_two {n : Nat} (h : n < 0x100) :
    ∃ a b, hexUpper 2 n = [a, b] ∧ isHexDigit a = true ∧ isHexDigit b = true ∧ hexNumber [a, b] = n := by
  obtain ⟨ds, heq, hdigits, hvalue, -, hlength⟩ := exists_hexUpper two_pos n
  obtain ⟨a, b, rfl⟩ := List.length_eq_two.mp (hlength h)
  refine ⟨_, _, heq, isHexDigit_digitUpper (hdigits a (by simp)), isHexDigit_digitUpper (hdigits b (by simp)), ?_⟩
  exact (hexNumber_map hdigits).trans hvalue

end Untangle.Text
