import Untangle.Proofs.Text.Digits
import Untangle.Text.Percent

set_option autoImplicit false

/-!
# Codings with percent signs

A component is a sequence of unreserved characters and of `%XX`.  Reading decodes the longest runs of `%XX`, and a
run may hold the bytes of many code points, so the induction carries the code points whose bytes are in the open
run.

The legacy coding is read from left to right, so what matters is that the form of a code point is read as one piece
whatever stands behind it.  Code points of up to four hexadecimal digits have such a form.  The form of any other
one is longer than reading expects, and the digits that are left over are read as characters of their own.
-/

/-! ## UTF-8 -/

namespace Untangle.Utf8

/-- A code point that is no surrogate. -/
def IsScalar (c : CodePoint) : Prop := c < 0x110000 ∧ Text.isSurrogate c = false

instance (c : CodePoint) : Decidable (IsScalar c) := inferInstanceAs (Decidable (_ ∧ _))

section

variable {c : Nat}

theorem isTail_add {n : Nat} (h : n < 0x40) : isTail (0x80 + n) = true := by
  simp only [isTail, Bool.and_eq_true, decide_eq_true_eq]
  omega

/-- The forms of a code point, by the number of its bytes. -/
theorem encodeOne_cases (c : Nat) :
    c < 0x80 ∧ encodeOne c = [c] ∨
    (0x80 ≤ c ∧ c < 0x800) ∧ encodeOne c = [0xC0 + c / 0x40, 0x80 + c % 0x40] ∨
    (0x800 ≤ c ∧ c < 0x10000) ∧ encodeOne c = [0xE0 + c / 0x1000, 0x80 + c / 0x40 % 0x40, 0x80 + c % 0x40] ∨
    0x10000 ≤ c ∧ encodeOne c =
      [0xF0 + c / 0x40000, 0x80 + c / 0x1000 % 0x40, 0x80 + c / 0x40 % 0x40, 0x80 + c % 0x40] := by
  unfold encodeOne
  split
  · next h => exact .inl ⟨h, rfl⟩
  split
  · next h h' => exact .inr (.inl ⟨⟨Nat.le_of_not_lt h, h'⟩, rfl⟩)
  split
  · next h h' => exact .inr (.inr (.inl ⟨⟨Nat.le_of_not_lt h, h'⟩, rfl⟩))
  · next h => exact .inr (.inr (.inr ⟨Nat.le_of_not_lt h, rfl⟩))

/-- The form of a code point is read whatever follows it. -/
theorem decodeOne_encodeOne (hc : IsScalar c) (rest : List Nat) :
    decodeOne (encodeOne c ++ rest) = some (c, (encodeOne c).length) := by
  obtain ⟨hmax, hwhole⟩ := hc
  have htail : ∀ n, isTail (0x80 + n % 0x40) = true := fun n => isTail_add (Nat.mod_lt n (by decide))
  obtain ⟨h, heq⟩ | ⟨⟨hmin, h⟩, heq⟩ | ⟨⟨hmin, h⟩, heq⟩ | ⟨hmin, heq⟩ := encodeOne_cases c
  · rw [heq]
    exact if_pos h
  · have hcode : (0xC0 + c / 0x40 - 0xC0) * 0x40 + (0x80 + c % 0x40 - 0x80) = c := by omega
    rw [heq]
    simp only [List.cons_append, List.nil_append, decodeOne, htail, hcode, if_true]
    rw [if_neg (by omega), if_neg (by omega), if_pos (by omega)]
    rfl
  · have hcode : (0xE0 + c / 0x1000 - 0xE0) * 0x1000 + (0x80 + c / 0x40 % 0x40 - 0x80) * 0x40 +
        (0x80 + c % 0x40 - 0x80) = c := by omega
    rw [heq]
    simp only [List.cons_append, List.nil_append, decodeOne, htail, hcode, hwhole, hmin, decide_true, Bool.not_false,
      Bool.and_self, if_true]
    rw [if_neg (by omega), if_neg (by omega), if_neg (by omega), if_pos (by omega)]
    rfl
  · have hcode : (0xF0 + c / 0x40000 - 0xF0) * 0x40000 + (0x80 + c / 0x1000 % 0x40 - 0x80) * 0x1000 +
        (0x80 + c / 0x40 % 0x40 - 0x80) * 0x40 + (0x80 + c % 0x40 - 0x80) = c := by omega
    have hless : c < 0x110000 := hmax
    rw [heq]
    simp only [List.cons_append, List.nil_append, decodeOne, htail, hcode, hmin, hless, decide_true, Bool.and_self,
      if_true]
    rw [if_neg (by omega), if_neg (by omega), if_neg (by omega), if_neg (by omega), if_pos (by omega)]
    rfl

theorem encodeOne_lt (hc : IsScalar c) : ∀ b ∈ encodeOne c, b < 0x100 := by
  have hmax : c < 0x110000 := hc.1
  obtain ⟨h, heq⟩ | ⟨⟨-, h⟩, heq⟩ | ⟨⟨-, h⟩, heq⟩ | ⟨-, heq⟩ := encodeOne_cases c
  · rw [heq]
    exact List.forall_mem_cons.mpr ⟨by omega, nofun⟩
  · rw [heq]
    simp only [List.forall_mem_cons]
    exact ⟨by omega, by omega, nofun⟩
  · rw [heq]
    simp only [List.forall_mem_cons]
    exact ⟨by omega, by omega, by omega, nofun⟩
  · rw [heq]
    simp only [List.forall_mem_cons]
    exact ⟨by omega, by omega, by omega, by omega, nofun⟩

end

theorem decodeGo_skip (p r : List Nat) : decodeGo p.length (p ++ r) = decodeGo 0 r := by
  induction p with
  | nil => rfl
  | cons b p ih => exact ih

theorem decodeGo_encodeOne {c : CodePoint} (hc : IsScalar c) (rest : List Nat) :
    decodeGo 0 (encodeOne c ++ rest) = (decodeGo 0 rest).map (c :: ·) := by
  have hdecode := decodeOne_encodeOne hc rest
  obtain ⟨b, p, heq⟩ : ∃ b p, encodeOne c = b :: p := by
    obtain ⟨-, heq⟩ | ⟨-, heq⟩ | ⟨-, heq⟩ | ⟨-, heq⟩ := encodeOne_cases c <;> exact ⟨_, _, heq⟩
  rw [heq] at hdecode ⊢
  simp only [List.cons_append, List.length_cons] at hdecode ⊢
  simp only [decodeGo, hdecode, Nat.add_sub_cancel, decodeGo_skip]

/-- The bytes of a text. -/
def bytes (t : Text) : List Nat := t.flatMap encodeOne

theorem bytes_append (s t : Text) : bytes (s ++ t) = bytes s ++ bytes t := List.flatMap_append

theorem decode?_bytes {t : Text} (ht : ∀ c ∈ t, IsScalar c) : decode? (bytes t) = some t := by
  unfold decode? bytes
  induction t with
  | nil => rfl
  | cons c t ih =>
    rw [List.flatMap_cons, decodeGo_encodeOne (ht c (by simp)), ih fun d hd => ht d (by simp [hd])]
    rfl

end Untangle.Utf8

/-! ## Components -/

namespace Untangle.Percent

open Utf8 (IsScalar bytes)

/-- A sequence of unreserved characters and of `%XX`. -/
inductive Component : Text → Prop where
  | nil : Component []
  | plain {c : CodePoint} {t : Text} (hc : isUnreserved c = true) (ht : Component t) : Component (c :: t)
  | byte {a b : CodePoint} {t : Text} (ha : Text.isHexDigit a = true) (hb : Text.isHexDigit b = true)
      (ht : Component t) : Component (0x25 :: a :: b :: t)

section

variable {t : Text}

theorem Component.bytes {bs : List Nat} (hbs : ∀ b ∈ bs, b < 0x100) (ht : Component t) :
    Component (bs.flatMap byteForm ++ t) := by
  induction bs with
  | nil => exact ht
  | cons b bs ih =>
    obtain ⟨x, y, heq, hx, hy, -⟩ := Text.exists_hexUpper_two (hbs b (by simp))
    rw [List.flatMap_cons, List.append_assoc, byteForm, heq]
    exact .byte hx hy (ih fun d hd => hbs d (by simp [hd]))

theorem byteAt?_of_isUnreserved {c : CodePoint} (hc : isUnreserved c = true) : byteAt? (c :: t) = none := by
  unfold byteAt?
  split
  · next heq =>
    rw [(List.cons.inj heq).1] at hc
    exact absurd hc (by decide)
  · rfl

/-- Bytes are added to the open run. -/
theorem decodeGo_bytes {bs : List Nat} (hbs : ∀ b ∈ bs, b < 0x100) (run : List Nat) :
    decodeGo run.reverse 0 (bs.flatMap byteForm ++ t) = decodeGo (run ++ bs).reverse 0 t := by
  induction bs generalizing run with
  | nil => rw [List.append_nil]; rfl
  | cons b bs ih =>
    obtain ⟨x, y, heq, hx, hy, hvalue⟩ := Text.exists_hexUpper_two (hbs b (by simp))
    have hbyte : ∀ r, byteAt? (0x25 :: x :: y :: r) = some b := by
      intro r
      rw [byteAt?, hx, hy, hvalue]
      rfl
    rw [List.flatMap_cons, List.append_assoc, byteForm, heq]
    have hrest := ih (fun d hd => hbs d (by simp [hd])) (run ++ [b])
    rw [List.append_assoc, List.reverse_append] at hrest
    simp only [List.cons_append, List.nil_append, decodeGo, hbyte]
    exact hrest

/-- A character ends the open run. -/
theorem decodeGo_plain {c : CodePoint} (hc : isUnreserved c = true) {pre : Text} (hpre : ∀ d ∈ pre, IsScalar d) :
    decodeGo (bytes pre).reverse 0 (c :: t) = (decodeGo [] 0 t).map fun rest => pre ++ c :: rest := by
  simp only [decodeGo, byteAt?_of_isUnreserved hc, List.reverse_reverse, Utf8.decode?_bytes hpre]
  cases decodeGo [] 0 t <;> rfl

theorem encode?_cons {c : CodePoint} {form u : Text} (hc : encodeOne? c = some form) (ht : encode? t = some u) :
    encode? (c :: t) = some (form ++ u) := by
  obtain ⟨forms, hforms, rfl⟩ := Option.map_eq_some_iff.mp ht
  simp [encode?, List.mapM_cons, hc, hforms]

/-- A text without surrogates has a component, which is read back whatever bytes of other code points come before
it. -/
theorem exists_encode? (ht : ∀ c ∈ t, IsScalar c) :
    ∃ u, encode? t = some u ∧ Component u ∧
      ∀ pre : Text, (∀ c ∈ pre, IsScalar c) → decodeGo (bytes pre).reverse 0 u = some (pre ++ t) := by
  induction t with
  | nil =>
    refine ⟨[], rfl, .nil, fun pre hpre => ?_⟩
    rw [decodeGo, List.reverse_reverse, Utf8.decode?_bytes hpre, List.append_nil]
  | cons c t ih =>
    have hc := ht c (by simp)
    obtain ⟨u, hencode, hform, hdecode⟩ := ih fun d hd => ht d (by simp [hd])
    by_cases hplain : isUnreserved c = true
    · have hone : encodeOne? c = some [c] := if_pos hplain
      refine ⟨c :: u, encode?_cons hone hencode, .plain hplain hform, fun pre hpre => ?_⟩
      have hrest := hdecode [] nofun
      rw [decodeGo_plain hplain hpre]
      exact congrArg (Option.map _) hrest
    · have hone : encodeOne? c = some ((Utf8.encodeOne c).flatMap byteForm) := by
        rw [encodeOne?, if_neg hplain, hc.2]
        rfl
      refine ⟨_, encode?_cons hone hencode, hform.bytes (Utf8.encodeOne_lt hc), fun pre hpre => ?_⟩
      have hrun := hdecode (pre ++ [c]) fun d hd => by
        rcases List.mem_append.mp hd with hd | hd
        · exact hpre d hd
        · exact List.mem_singleton.mp hd ▸ hc
      have hbytes : bytes [c] = Utf8.encodeOne c := List.append_nil _
      rw [Utf8.bytes_append, hbytes, List.append_assoc] at hrun
      rw [decodeGo_bytes (Utf8.encodeOne_lt hc), hrun]
      rfl

end

/-! ## Reading one form of the legacy coding -/

theorem unescapeGo_skip (p t : Text) : unescapeGo p.length (p ++ t) = unescapeGo 0 t := by
  induction p with
  | nil => rfl
  | cons c p ih => exact ih

theorem unescapeGo_form {c : CodePoint} {p t : Text} {code : CodePoint}
    (h : escapeAt? (c :: (p ++ t)) = some (code, p.length + 1)) :
    unescapeGo 0 (c :: (p ++ t)) = code :: unescapeGo 0 t := by
  simp only [unescapeGo, h]
  rw [Nat.add_sub_cancel, unescapeGo_skip]

theorem escapeAt?_of_ne {c : CodePoint} (h : c ≠ 0x25) (t : Text) : escapeAt? (c :: t) = none := by
  unfold escapeAt?
  split
  · next heq => exact absurd (List.cons.inj heq).1 h
  · next heq => exact absurd (List.cons.inj heq).1 h
  · rfl

theorem unescapeGo_of_ne {c : CodePoint} (h : c ≠ 0x25) (t : Text) :
    unescapeGo 0 (c :: t) = c :: unescapeGo 0 t := by
  simp only [unescapeGo, escapeAt?_of_ne h]

/-- Characters without a percent sign stand for themselves. -/
theorem unescapeGo_append {p : Text} (hp : ∀ c ∈ p, c ≠ 0x25) (t : Text) :
    unescapeGo 0 (p ++ t) = p ++ unescapeGo 0 t := by
  induction p with
  | nil => rfl
  | cons c p ih =>
    rw [List.cons_append, unescapeGo_of_ne (hp c (by simp)), ih fun d hd => hp d (by simp [hd])]
    rfl

theorem unescapeGo_two {a b : CodePoint} (ha : Text.isHexDigit a = true) (hb : Text.isHexDigit b = true)
    (t : Text) : unescapeGo 0 (0x25 :: a :: b :: t) = Text.hexNumber [a, b] :: unescapeGo 0 t := by
  have hmark : a ≠ 0x75 := by
    rintro rfl
    exact absurd ha (by decide)
  refine unescapeGo_form (p := [a, b]) ?_
  show escapeAt? (0x25 :: a :: b :: t) = _
  unfold escapeAt?
  split
  · next heq => exact absurd (List.cons.inj (List.cons.inj heq).2).1 hmark
  · next heq => cases heq; simp [ha, hb]
  · next hnone => exact absurd rfl (hnone a b t)

theorem unescapeGo_four {a b c d : CodePoint} (ha : Text.isHexDigit a = true) (hb : Text.isHexDigit b = true)
    (hc : Text.isHexDigit c = true) (hd : Text.isHexDigit d = true) (t : Text) :
    unescapeGo 0 (0x25 :: 0x75 :: a :: b :: c :: d :: t) = Text.hexNumber [a, b, c, d] :: unescapeGo 0 t := by
  refine unescapeGo_form (p := [0x75, a, b, c, d]) ?_
  simp [escapeAt?, ha, hb, hc, hd]

/-! ## What reading makes of a code point -/

/-- What the form of a code point is read as. -/
def restored (c : CodePoint) : Text :=
  if c < 0x10000 then [c]
  else Text.hexNumber ((Text.hexUpper 4 c).take 4) :: (Text.hexUpper 4 c).drop 4

theorem isPlain_of_isHexDigit {c : Nat} (h : Text.isHexDigit c = true) : isPlain c = true := by
  have hclass : Text.isAsciiLetter c = true ∨ Text.isAsciiDigit c = true := by
    simp only [Text.isHexDigit, Text.hexValue?, Text.isAsciiLetter, Text.isAsciiDigit] at h ⊢
    grind
  unfold isPlain
  rcases hclass with hclass | hclass <;> simp [hclass]

theorem isPlain_digitUpper {d : Nat} (h : d < 16) : isPlain (Text.digitUpper d) = true :=
  isPlain_of_isHexDigit (Text.isHexDigit_digitUpper h)

theorem ne_percent_of_isPlain {c : CodePoint} (h : isPlain c = true) : c ≠ 0x25 := by
  rintro rfl
  exact absurd h (by decide)

theorem lt_of_isPlain {c : Nat} (h : isPlain c = true) : c < 0x10000 := by
  simp only [isPlain, Text.isAsciiLetter, Text.isAsciiDigit] at h
  grind

/-- More than four digits, and the first four of them. -/
theorem exists_long_form {c : Nat} (hlarge : ¬c < 0x10000) :
    ∃ a b d e r, Text.hexUpper 4 c = a :: b :: d :: e :: r ∧ r ≠ [] ∧
      ∀ x ∈ a :: b :: d :: e :: r, Text.isHexDigit x = true := by
  obtain ⟨ds, heq, hdigits, hvalue, hmin, -⟩ := Text.exists_hexUpper four_pos c
  have hlong : 4 < ds.length := by
    refine Nat.lt_of_le_of_ne hmin fun hfour => hlarge ?_
    rw [← hvalue]
    calc Nat.ofDigits 16 ds.reverse < 16 ^ ds.reverse.length :=
          Nat.ofDigits_lt_base_pow_length (by decide) fun d hd => hdigits d (List.mem_reverse.mp hd)
      _ = 0x10000 := by rw [List.length_reverse, ← hfour]; rfl
  have hall : ∀ x ∈ ds.map Text.digitUpper, Text.isHexDigit x = true := by
    intro x hx
    obtain ⟨d, hd, rfl⟩ := List.mem_map.mp hx
    exact Text.isHexDigit_digitUpper (hdigits d hd)
  rw [heq]
  match ds, hlong, hall with
  | a :: b :: d :: e :: f :: r, _, hall => exact ⟨_, _, _, _, _, rfl, by simp, hall⟩

/-- The form of a code point is read as one piece, whatever stands behind it. -/
theorem unescapeGo_escapeOne (c : CodePoint) (t : Text) :
    unescapeGo 0 (escapeOne c ++ t) = restored c ++ unescapeGo 0 t := by
  unfold escapeOne
  split
  · next hplain =>
    rw [restored, if_pos (lt_of_isPlain hplain)]
    exact unescapeGo_of_ne (ne_percent_of_isPlain hplain) t
  split
  · next hbyte =>
    obtain ⟨a, b, heq, ha, hb, hvalue⟩ := Text.exists_hexUpper_two hbyte
    have hsmall : c < 0x10000 := Nat.lt_trans hbyte (by decide)
    rw [restored, if_pos hsmall, heq, ← hvalue]
    exact unescapeGo_two ha hb t
  · by_cases hsmall : c < 0x10000
    · obtain ⟨ds, heq, hdigits, hvalue, -, hlength⟩ := Text.exists_hexUpper four_pos c
      have hnumber := (Text.hexNumber_map hdigits).trans hvalue
      have hdigit : ∀ d ∈ ds, Text.isHexDigit (Text.digitUpper d) = true :=
        fun d hd => Text.isHexDigit_digitUpper (hdigits d hd)
      match ds, hlength hsmall with
      | [a, b, d, e], _ =>
        rw [restored, if_pos hsmall, heq]
        conv => rhs; rw [← hnumber]
        exact unescapeGo_four (hdigit a (by simp)) (hdigit b (by simp)) (hdigit d (by simp)) (hdigit e (by simp)) t
    · obtain ⟨a, b, d, e, r, heq, -, hdigit⟩ := exists_long_form hsmall
      rw [restored, if_neg hsmall, heq]
      show unescapeGo 0 (0x25 :: 0x75 :: a :: b :: d :: e :: (r ++ t)) = _
      rw [unescapeGo_four (hdigit a (by simp)) (hdigit b (by simp)) (hdigit d (by simp)) (hdigit e (by simp))]
      rw [unescapeGo_append fun x hx => ne_percent_of_isPlain (isPlain_of_isHexDigit (hdigit x (by simp [hx])))]
      rfl

theorem unescape_escape (s : Text) : unescape (escape s) = s.flatMap restored := by
  unfold unescape escape
  induction s with
  | nil => rfl
  | cons c s ih => rw [List.flatMap_cons, List.flatMap_cons, unescapeGo_escapeOne, ih]

theorem length_restored (c : CodePoint) :
    1 ≤ (restored c).length ∧ ((restored c).length = 1 ↔ c < 0x10000) := by
  unfold restored
  split
  · next hsmall => simp [hsmall]
  · next hlarge =>
    obtain ⟨a, b, d, e, r, heq, hne, -⟩ := exists_long_form hlarge
    have hpos := List.length_pos_of_ne_nil hne
    simp only [heq, List.drop_succ_cons, List.drop_zero, List.length_cons]
    exact ⟨by omega, iff_of_false (by omega) hlarge⟩

theorem length_le_restored (s : Text) : s.length ≤ (s.flatMap restored).length := by
  induction s with
  | nil => simp
  | cons c s ih =>
    have hone := (length_restored c).1
    rw [List.flatMap_cons, List.length_append, List.length_cons]
    omega

/-- A text is read back exactly if none of its code points needs more than four digits. -/
theorem unescape_escape_eq_iff (s : Text) : unescape (escape s) = s ↔ ∀ c ∈ s, c < 0x10000 := by
  rw [unescape_escape]
  induction s with
  | nil => simp
  | cons c s ih =>
    rw [List.flatMap_cons, List.forall_mem_cons]
    constructor
    · intro heq
      have hlength := congrArg List.length heq
      have hone := length_restored c
      have hrest := length_le_restored s
      rw [List.length_append, List.length_cons] at hlength
      have hsmall : c < 0x10000 := hone.2.mp (by omega)
      rw [restored, if_pos hsmall] at heq
      exact ⟨hsmall, ih.mp (List.cons.inj heq).2⟩
    · rintro ⟨hsmall, hrest⟩
      rw [restored, if_pos hsmall, ih.mpr hrest]
      rfl

/-! ## The characters of a coded text -/

theorem mem_hexUpper {width n : Nat} (hwidth : 0 < width) {c : CodePoint} (hc : c ∈ Text.hexUpper width n) :
    isPlain c = true := by
  obtain ⟨ds, heq, hdigits, -⟩ := Text.exists_hexUpper hwidth n
  rw [heq] at hc
  obtain ⟨d, hd, rfl⟩ := List.mem_map.mp hc
  exact isPlain_digitUpper (hdigits d hd)

/-- Only characters that stand for themselves, and percent signs. -/
theorem mem_escape {s : Text} {c : CodePoint} (hc : c ∈ escape s) : isPlain c = true ∨ c = 0x25 := by
  obtain ⟨d, -, hd⟩ := List.mem_flatMap.mp hc
  unfold escapeOne at hd
  split at hd
  · next hplain => exact .inl (List.mem_singleton.mp hd ▸ hplain)
  split at hd
  · rcases List.mem_cons.mp hd with rfl | hd
    · exact .inr rfl
    · exact .inl (mem_hexUpper (by decide) hd)
  · rcases List.mem_cons.mp hd with rfl | hd
    · exact .inr rfl
    rcases List.mem_cons.mp hd with rfl | hd
    · exact .inl (by decide)
    · exact .inl (mem_hexUpper (by decide) hd)

end Untangle.Percent
