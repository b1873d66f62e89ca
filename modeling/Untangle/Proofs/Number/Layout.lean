import Untangle.Proofs.Number.Numeral
import Untangle.Proofs.Number.Shortest

set_option autoImplicit false

/-!
# Decimal layouts

Both layouts of a number are numerals made of the same digits at the same place, so they stand for one fraction, and
the digits can be taken back from either.  The fraction is rounded to the number, so either text reads back.
-/

namespace Untangle.Number

/-! ## Trimmed digits -/

/-- Digits without zeros at either end. -/
structure Digits.Trimmed (d : Digits) : Prop where
  digits : Text.AllDigits d.digits
  nonempty : d.digits ≠ []
  head : ∀ c ∈ d.digits.head?, c ≠ 0x30
  last : ∀ c ∈ d.digits.getLast?, c ≠ 0x30

/-- The fraction that digits stand for. -/
def Digits.value (d : Digits) : ℚ := Text.decimalNumber d.digits * 10 ^ (d.point - d.digits.length)

theorem decimalNumber_padded (a b : Nat) (t : Text) :
    Text.decimalNumber (List.replicate a 0x30 ++ t ++ List.replicate b 0x30) = Text.decimalNumber t * 10 ^ b := by
  rw [Text.decimalNumber_append, Text.decimalNumber_append, Text.decimalNumber_zeros, Text.decimalNumber_zeros,
    List.length_replicate, Nat.zero_mul, Nat.zero_add, Nat.add_zero]

/-- Zeros in front are dropped up to the first other digit. -/
theorem dropWhile_zeros (n : Nat) {t : Text} (ht : ∀ c ∈ t.head?, c ≠ 0x30) :
    (List.replicate n 0x30 ++ t).dropWhile (· == 0x30) = t := by
  rw [List.dropWhile_append_of_pos fun c hc => beq_iff_eq.mpr (List.eq_of_mem_replicate hc)]
  cases t with
  | nil => rfl
  | cons c t => exact List.dropWhile_cons_of_neg (by simpa using ht c rfl)

/-- Zeros at the end are dropped up to the last other digit. -/
theorem dropLastZeros (n : Nat) {t : Text} (ht : ∀ c ∈ t.getLast?, c ≠ 0x30) :
    ((t ++ List.replicate n 0x30).reverse.dropWhile (· == 0x30)).reverse = t := by
  rw [List.reverse_append, List.reverse_replicate, dropWhile_zeros n (by rwa [List.head?_reverse]),
    List.reverse_reverse]

/-- A text without the zeros at its end, and these. -/
theorem exists_trailing (t : Text) : ∃ n, t = (t.reverse.dropWhile (· == 0x30)).reverse ++ List.replicate n 0x30 ∧
    ∀ c ∈ (t.reverse.dropWhile (· == 0x30)).reverse.getLast?, c ≠ 0x30 := by
  induction t using List.reverseRecOn with
  | nil => exact ⟨0, rfl, nofun⟩
  | append_singleton t c ih =>
    rw [List.reverse_append, List.reverse_singleton, List.singleton_append]
    by_cases hc : c = 0x30
    · obtain ⟨n, heq, hlast⟩ := ih
      rw [List.dropWhile_cons_of_pos (p := (· == 0x30)) (beq_iff_eq.mpr hc)]
      refine ⟨n + 1, ?_, hlast⟩
      rw [List.replicate_succ', ← List.append_assoc, ← heq, hc]
    · rw [List.dropWhile_cons_of_neg (by simpa using hc), List.reverse_cons, List.reverse_reverse]
      refine ⟨0, (List.append_nil _).symm, ?_⟩
      rw [List.getLast?_concat]
      rintro _ ⟨⟩
      exact hc

/-- The last digit is not zero. -/
theorem Digits.Trimmed.number_mod {d : Digits} (h : d.Trimmed) : Text.decimalNumber d.digits % 10 ≠ 0 := by
  obtain hnil | ⟨t, c, hconcat⟩ := d.digits.eq_nil_or_concat
  · exact absurd hnil h.nonempty
  · rw [List.concat_eq_append] at hconcat
    have hdigit := h.digits c (by simp [hconcat])
    have hlast := h.last c (by simp [hconcat])
    have hbounds := Text.digit_bounds hdigit
    rw [hconcat, Text.decimalNumber_append_singleton, Text.decimalValue?_of_isAsciiDigit hdigit, Option.getD_some]
    dsimp only [CodePoint] at hlast
    omega

theorem Digits.Trimmed.plain {d : Digits} (h : d.Trimmed) (n : Nat) :
    Text.Plain (d.digits ++ List.replicate n 0x30) := by
  obtain ⟨c, r, hdigits⟩ := List.exists_cons_of_ne_nil h.nonempty
  refine ⟨h.digits.append (Text.allDigits_replicate n), c, r ++ List.replicate n 0x30, by rw [hdigits]; rfl, ?_⟩
  exact h.head c (by rw [hdigits]; rfl)

/-! ## Numerals made of digits -/

/-- A numeral is made of digits: there are only zeros besides them, and the point stands at its place. -/
structure Spells (n : Numeral) (d : Digits) : Prop where
  wellFormed : n.WellFormed
  made : ∃ a b : Nat, n.digits = List.replicate a 0x30 ++ d.digits ++ List.replicate b 0x30 ∧
    n.whole.length + n.exponent = d.point + a ∧ (b = 0 ∨ d.digits.length + b ≤ 21)

section

variable {n : Numeral} {d : Digits}

theorem Spells.value (h : Spells n d) : n.value = d.value := by
  obtain ⟨a, b, hdigits, hplace, -⟩ := h.made
  have hlength : (n.whole.length : Int) + n.fraction.length = a + d.digits.length + b := by
    have hlength := congrArg List.length hdigits
    rw [Numeral.digits, List.length_append, List.length_append, List.length_append, List.length_replicate,
      List.length_replicate] at hlength
    exact_mod_cast hlength
  have hnumber : Text.decimalNumber n.digits = Text.decimalNumber d.digits * 10 ^ b := by
    rw [hdigits, decimalNumber_padded]
  have hscale : n.exponent - n.fraction.length + b = d.point - d.digits.length := by omega
  rw [Numeral.value, Digits.value, hnumber, ← hscale, zpow_add₀ (by norm_num), zpow_natCast]
  push_cast
  ring

/-! ## The digits of a numeral -/

theorem partition_append {mark : CodePoint} {t r : Text} (ht : ∀ c ∈ t, c ≠ mark) (hr : ∀ c ∈ r.head?, c = mark) :
    partition mark (t ++ r) = (t, r.drop 1) := by
  have hpos : ∀ c ∈ t, (c != mark) = true := fun c hc => bne_iff_ne.mpr (ht c hc)
  have hrest : r.takeWhile (· != mark) = [] ∧ r.dropWhile (· != mark) = r := by
    cases r with
    | nil => exact ⟨rfl, rfl⟩
    | cons c r =>
      have hc : (c != mark) = false := by rw [hr c rfl, bne_self_eq_false]
      exact ⟨List.takeWhile_cons_of_neg (by simp [hc]), List.dropWhile_cons_of_neg (by simp [hc])⟩
  rw [partition, List.takeWhile_append_of_pos hpos, List.dropWhile_append_of_pos hpos, hrest.1, hrest.2,
    List.append_nil]

/-- What comes before and after the mark of the exponent, and before and after the point. -/
theorem partition_text (hn : n.WellFormed) :
    partition 0x65 n.text = (n.whole ++ n.pointText, n.powerText.drop 1) ∧
      partition 0x2E (n.whole ++ n.pointText) = (n.whole, n.fraction) := by
  have hdigit : ∀ {c : CodePoint}, Text.isAsciiDigit c = true → c ≠ 0x65 ∧ c ≠ 0x2E := by
    intro c hc
    have hbounds := Text.digit_bounds hc
    dsimp only [CodePoint]
    omega
  constructor
  · refine partition_append (fun c hc => ?_) fun c hc => ?_
    · obtain hc | hc := List.mem_append.mp hc
      · exact (hdigit (hn.whole c hc)).1
      · unfold Numeral.pointText at hc
        split at hc
        · cases hc
        · obtain rfl | hc := List.mem_cons.mp hc
          · decide
          · exact (hdigit (hn.fraction c hc)).1
    · unfold Numeral.powerText at hc
      split at hc
      · cases hc
      · cases hc
        rfl
  · have hpoint : n.pointText.drop 1 = n.fraction := by
      unfold Numeral.pointText
      split
      · next hnil => rw [hnil]; rfl
      · rfl
    rw [← hpoint]
    refine partition_append (fun c hc => (hdigit (hn.whole c hc)).2) fun c hc => ?_
    unfold Numeral.pointText at hc
    split at hc
    · cases hc
    · cases hc
      rfl

theorem exponent_of_powerText (hn : n.WellFormed) :
    (if (n.powerText.drop 1).isEmpty then 0 else (Text.integer? (n.powerText.drop 1)).getD 0) = n.exponent := by
  unfold Numeral.powerText Numeral.exponent
  cases hpower : n.power with
  | none => rfl
  | some p =>
    obtain ⟨negative, ds⟩ := p
    obtain ⟨hdigits, hne⟩ := hn.power _ hpower
    show (Text.integer? ((if negative then 0x2D else 0x2B) :: ds)).getD 0 = _
    rw [Text.integer?_signed hdigits hne, Option.getD_some]

/-- The digits are taken back from any numeral that is made of them. -/
theorem Spells.literalDigits (h : Spells n d) (hd : d.Trimmed) : literalDigits n.text = d := by
  obtain ⟨a, b, hdigits, hplace, -⟩ := h.made
  obtain ⟨hpower, hpoint⟩ := partition_text h.wellFormed
  have hexponent := exponent_of_powerText h.wellFormed
  obtain ⟨c, r, hcons⟩ := List.exists_cons_of_ne_nil hd.nonempty
  have hstripped : (n.whole ++ n.fraction).dropWhile (· == 0x30) = d.digits ++ List.replicate b 0x30 := by
    rw [← Numeral.digits, hdigits, List.append_assoc]
    refine dropWhile_zeros a fun e he => ?_
    rw [hcons] at he
    exact hd.head e (by rw [hcons]; exact he)
  have hempty : d.digits.isEmpty = false := List.isEmpty_eq_false_iff.mpr hd.nonempty
  have hpoint' : (n.whole.length : Int) + n.exponent -
      ((n.whole ++ n.fraction).length - (d.digits ++ List.replicate b 0x30).length : Int) = d.point := by
    have hlength := congrArg List.length hdigits
    rw [Numeral.digits] at hlength
    simp only [List.length_append, List.length_replicate] at hlength ⊢
    omega
  simp only [Number.literalDigits, hpower, hpoint, hexponent, hstripped, dropLastZeros b hd.last, hempty, hpoint',
    Bool.false_eq_true, if_false]

/-! ## Forms of numerals -/

theorem spells_whole (hd : d.Trimmed) {m k : Nat} (hm : d.digits.length + m = d.point)
    (hk : d.digits.length + m + k ≤ 21) :
    Spells ⟨d.digits ++ List.replicate m 0x30, List.replicate k 0x30, none⟩ d := by
  refine ⟨⟨hd.digits.append (Text.allDigits_replicate m), List.append_ne_nil_of_left_ne_nil hd.nonempty _,
    Text.allDigits_replicate k, nofun⟩, 0, m + k, ?_, ?_, .inr (by omega)⟩
  · show d.digits ++ List.replicate m 0x30 ++ List.replicate k 0x30 = _
    rw [List.append_assoc, List.replicate_append_replicate]
    rfl
  · show ((d.digits ++ List.replicate m 0x30).length : Int) + 0 = d.point + 0
    rw [List.length_append, List.length_replicate]
    omega

theorem spells_pointed (hd : d.Trimmed) {before after : Text} (hsplit : d.digits = before ++ after)
    (hbefore : (before.length : Int) = d.point) (hpos : 0 < d.point) : Spells ⟨before, after, none⟩ d := by
  have hdigits := hd.digits
  rw [hsplit] at hdigits
  refine ⟨⟨fun c hc => hdigits c (List.mem_append_left _ hc), ?_, fun c hc => hdigits c (List.mem_append_right _ hc),
    nofun⟩, 0, 0, ?_, ?_, .inl rfl⟩
  · rintro (rfl : before = [])
    rw [List.length_nil] at hbefore
    omega
  · rw [hsplit]
    exact (List.append_nil _).symm
  · show (before.length : Int) + 0 = d.point + 0
    omega

theorem spells_leading (hd : d.Trimmed) {m : Nat} (hm : d.point = -m) :
    Spells ⟨[0x30], List.replicate m 0x30 ++ d.digits, none⟩ d := by
  refine ⟨⟨Text.allDigits_replicate 1, List.cons_ne_nil _ _, (Text.allDigits_replicate m).append hd.digits, nofun⟩,
    m + 1, 0, ?_, ?_, .inl rfl⟩
  · rw [List.replicate_succ, List.replicate_zero, List.append_nil]
    rfl
  · show ((1 : Nat) : Int) + 0 = d.point + (m + 1 : Nat)
    omega

theorem spells_power (hd : d.Trimmed) {c : CodePoint} {r t : Text} {negative : Bool} (hsplit : d.digits = c :: r)
    (ht : Text.AllDigits t) (hne : t ≠ [])
    (hpower : d.point - 1 = if negative then -(Text.decimalNumber t : Int) else Text.decimalNumber t) :
    Spells ⟨[c], r, some (negative, t)⟩ d := by
  have hdigits := hd.digits
  rw [hsplit] at hdigits
  refine ⟨⟨fun e he => hdigits e ?_, List.cons_ne_nil _ _, fun e he => hdigits e (List.mem_cons_of_mem _ he), ?_⟩,
    0, 0, ?_, ?_, .inl rfl⟩
  · rw [List.mem_singleton.mp he]
    exact List.mem_cons_self
  · rintro _ ⟨⟩
    exact ⟨ht, hne⟩
  · rw [hsplit]
    exact (List.append_nil _).symm
  · show ((1 : Nat) : Int) + (if negative then -(Text.decimalNumber t : Int) else Text.decimalNumber t) =
      d.point + (0 : Nat)
    rw [← hpower]
    omega

/-- The layout of scripts.  There are up to 21 digits before the point, with zeros for missing ones; down to
`1e-6` zeros follow the point; all other numerals have one digit before the point and an exponent. -/
inductive ScriptForm (d : Digits) : Numeral → Prop where
  | whole {m : Nat} (hm : d.digits.length + m = d.point) (hpoint : d.point ≤ 21) :
      ScriptForm d ⟨d.digits ++ List.replicate m 0x30, [], none⟩
  | pointed {before after : Text} (hsplit : d.digits = before ++ after) (hafter : after ≠ [])
      (hbefore : (before.length : Int) = d.point) (hpos : 0 < d.point) (hpoint : d.point ≤ 21) :
      ScriptForm d ⟨before, after, none⟩
  | leading {m : Nat} (hm : d.point = -m) (hless : m < 6) :
      ScriptForm d ⟨[0x30], List.replicate m 0x30 ++ d.digits, none⟩
  | power {c : CodePoint} {r t : Text} {negative : Bool} (hsplit : d.digits = c :: r)
      (hpoint : d.point ≤ -6 ∨ 21 < d.point) (ht : Text.Plain t)
      (hpower : d.point - 1 = if negative then -(Text.decimalNumber t : Int) else Text.decimalNumber t) :
      ScriptForm d ⟨[c], r, some (negative, t)⟩

theorem ScriptForm.spells (h : ScriptForm d n) (hd : d.Trimmed) : Spells n d := by
  cases h with
  | whole hm hpoint => exact spells_whole hd (k := 0) hm (by omega)
  | pointed hsplit _ hbefore hpos _ => exact spells_pointed hd hsplit hbefore hpos
  | leading hm _ => exact spells_leading hd hm
  | power hsplit _ ht hpower =>
    obtain ⟨c, r, heq, -⟩ := ht.head
    exact spells_power hd hsplit ht.digits (by rw [heq]; exact List.cons_ne_nil c r) hpower

/-! ## Layouts -/

theorem text_pointed {before after : Text} (h : after ≠ []) :
    (⟨before, after, none⟩ : Numeral).text = before ++ 0x2E :: after := by
  rw [Numeral.text, Numeral.pointText, if_neg h]
  exact List.append_nil _

/-- One digit, maybe a point and the others, and an exponent. -/
theorem text_power {c : CodePoint} {r t : Text} {negative : Bool} (hsplit : d.digits = c :: r) :
    (⟨[c], r, some (negative, t)⟩ : Numeral).text =
      (if d.digits.length = 1 then d.digits else d.digits.take 1 ++ 0x2E :: d.digits.drop 1) ++
        0x65 :: (if negative then 0x2D else 0x2B) :: t := by
  rw [hsplit]
  cases r with
  | nil => rfl
  | cons e r => rfl

/-- The exponent of a numeral with one digit before the point. -/
theorem exponent_natAbs (e : Int) : e = if decide (e < 0) then -(Text.decimalNumber (Text.ofNat e.natAbs) : Int)
    else Text.decimalNumber (Text.ofNat e.natAbs) := by
  rw [(Text.ofNat_spec e.natAbs).2.2.1]
  split
  · next h =>
    have hneg := of_decide_eq_true h
    omega
  · next h =>
    have hnonneg := of_decide_eq_false (Bool.eq_false_iff.mpr h)
    omega

theorem sign_of_exponent (e : Int) :
    (if e ≥ 0 then 0x2B else 0x2D : CodePoint) = if decide (e < 0) then 0x2D else 0x2B := by
  by_cases h : e < 0
  · rw [if_neg (by omega), if_pos (decide_eq_true h)]
  · rw [if_pos (by omega), if_neg (by simpa using h)]

theorem exists_scriptForm (hd : d.Trimmed) : ∃ n, ScriptForm d n ∧ n.text = scriptLayout d := by
  obtain ⟨c, r, hsplit⟩ := List.exists_cons_of_ne_nil hd.nonempty
  unfold scriptLayout
  simp only [Bool.and_eq_true, decide_eq_true_iff]
  split
  · next h =>
    obtain ⟨m, hm⟩ : ∃ m : Nat, d.point - d.digits.length = m := ⟨(d.point - d.digits.length).toNat, by omega⟩
    refine ⟨_, .whole (m := m) (by omega) h.2, ?_⟩
    rw [hm, zeros, Int.toNat_natCast]
    show d.digits ++ List.replicate m 0x30 ++ [] ++ [] = _
    rw [List.append_nil, List.append_nil]
  split
  · next h =>
    have hafter : d.digits.drop d.point.toNat ≠ [] := by
      rw [ne_eq, List.drop_eq_nil_iff]
      omega
    refine ⟨_, .pointed (List.take_append_drop d.point.toNat d.digits).symm hafter ?_ h.1 h.2, text_pointed hafter⟩
    rw [List.length_take]
    omega
  split
  · next h =>
    obtain ⟨m, hm⟩ : ∃ m : Nat, -d.point = m := ⟨(-d.point).toNat, by omega⟩
    refine ⟨_, .leading (m := m) (by omega) (by omega), ?_⟩
    rw [hm, zeros, Int.toNat_natCast]
    exact text_pointed (List.append_ne_nil_of_right_ne_nil _ hd.nonempty)
  · have hplain : Text.Plain (Text.ofNat (d.point - 1).natAbs) := (Text.ofNat_spec _).2.2.2 (by omega)
    refine ⟨_, .power hsplit (by omega) hplain (exponent_natAbs (d.point - 1)), ?_⟩
    rw [text_power hsplit, sign_of_exponent]

theorem exists_literalForm (hd : d.Trimmed) : ∃ n, Spells n d ∧ n.text = literalLayout d := by
  obtain ⟨c, r, hsplit⟩ := List.exists_cons_of_ne_nil hd.nonempty
  unfold literalLayout
  simp only [Bool.and_eq_true, decide_eq_true_iff]
  split
  · next h =>
    split
    · next hleading =>
      obtain ⟨m, hm⟩ : ∃ m : Nat, -d.point = m := ⟨(-d.point).toNat, by omega⟩
      refine ⟨_, spells_leading hd (m := m) (by omega), ?_⟩
      rw [hm, zeros, Int.toNat_natCast]
      exact text_pointed (List.append_ne_nil_of_right_ne_nil _ hd.nonempty)
    split
    · next hwhole =>
      obtain ⟨m, hm⟩ : ∃ m : Nat, d.point - d.digits.length = m := ⟨(d.point - d.digits.length).toNat, by omega⟩
      refine ⟨_, spells_whole hd (m := m) (k := 1) (by omega) (by omega), ?_⟩
      rw [hm, zeros, Int.toNat_natCast]
      exact text_pointed (List.cons_ne_nil _ _)
    · have hafter : d.digits.drop d.point.toNat ≠ [] := by
        rw [ne_eq, List.drop_eq_nil_iff]
        omega
      refine ⟨_, spells_pointed hd (List.take_append_drop d.point.toNat d.digits).symm ?_ (by omega),
        text_pointed hafter⟩
      rw [List.length_take]
      omega
  · obtain ⟨hdigits, hne, -, -⟩ := Text.ofNat_spec (d.point - 1).natAbs
    have hexponent := exponent_natAbs (d.point - 1)
    by_cases hshort : (Text.ofNat (d.point - 1).natAbs).length < 2
    · refine ⟨_, spells_power hd hsplit (t := 0x30 :: Text.ofNat (d.point - 1).natAbs)
        ((Text.allDigits_replicate 1).append hdigits) (List.cons_ne_nil _ _) hexponent, ?_⟩
      rw [text_power hsplit, sign_of_exponent, if_pos hshort]
    · refine ⟨_, spells_power hd hsplit hdigits hne hexponent, ?_⟩
      rw [text_power hsplit, sign_of_exponent, if_neg hshort]

end

end Untangle.Number
