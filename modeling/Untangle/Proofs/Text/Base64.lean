import Mathlib.Tactic.Common
import Untangle.Text.Base64

set_option autoImplicit false

/-!
# Base64, there and back

Writing goes by groups of three bytes, and reading one digit after the other, so the induction is over the groups
that are written, with both fillings of the last one as cases of their own.  Whatever text is read, a group of
digits below 64 makes bytes.
-/

namespace Untangle.Base64

/-! ## Digits -/

theorem value?_digit {v : Nat} (h : v < 64) : value? (digit v) = some v := by
  have hall : ∀ v < 64, value? (digit v) = some v := by decide
  exact hall v h

theorem digit_ne_padding {v : Nat} (h : v < 64) : digit v ≠ 0x3D := by
  have hall : ∀ v < 64, digit v ≠ 0x3D := by decide
  exact hall v h

theorem value?_lt {c v : Nat} (h : value? c = some v) : v < 64 := by
  simp only [value?, Bool.and_eq_true, decide_eq_true_eq] at h
  dsimp only [CodePoint] at h
  grind

/-! ## Reading what was written -/

section

variable {v : Nat} {r : Text}

theorem decodeGo_zero (hv : v < 64) : decodeGo .zero (digit v :: r) = decodeGo (.one v) r := by
  simp [decodeGo, digit_ne_padding hv, value?_digit hv]

theorem decodeGo_one (a : Nat) (hv : v < 64) : decodeGo (.one a) (digit v :: r) = decodeGo (.two a v) r := by
  simp [decodeGo, value?_digit hv]

theorem decodeGo_two (a b : Nat) (hv : v < 64) : decodeGo (.two a b) (digit v :: r) = decodeGo (.three a b v) r := by
  simp [decodeGo, digit_ne_padding hv, value?_digit hv]

theorem decodeGo_three (a b c : Nat) (hv : v < 64) :
    decodeGo (.three a b c) (digit v :: r) = (decodeGo .zero r).map fun rest =>
      (a * 4 + b / 16) :: (b % 16 * 16 + c / 4) :: (c % 4 * 64 + v) :: rest := by
  simp [decodeGo, digit_ne_padding hv, value?_digit hv]

end

theorem decodeGo_encodeBytes {t : List Nat} (ht : ∀ b ∈ t, b < 0x100) :
    decodeGo .zero (encodeBytes t) = some t := by
  induction t using encodeBytes.induct with
  | case1 => rfl
  | case2 a =>
    have ha := ht a (by simp)
    have hfirst : a / 4 * 4 + a % 4 * 16 / 16 = a := by omega
    rw [encodeBytes, decodeGo_zero (by omega), decodeGo_one _ (by omega)]
    exact congrArg (fun x => some [x]) hfirst
  | case3 a b =>
    have ha := ht a (by simp)
    have hb := ht b (by simp)
    have hfirst : a / 4 * 4 + (a % 4 * 16 + b / 16) / 16 = a := by omega
    have hsecond : (a % 4 * 16 + b / 16) % 16 * 16 + b % 16 * 4 / 4 = b := by omega
    rw [encodeBytes, decodeGo_zero (by omega), decodeGo_one _ (by omega), decodeGo_two _ _ (by omega)]
    exact congrArg₂ (fun x y => some [x, y]) hfirst hsecond
  | case4 a b c rest ih =>
    have ha := ht a (by simp)
    have hb := ht b (by simp)
    have hc := ht c (by simp)
    have hrest := ih fun d hd => ht d (by simp [hd])
    have hfirst : a / 4 * 4 + (a % 4 * 16 + b / 16) / 16 = a := by omega
    have hsecond : (a % 4 * 16 + b / 16) % 16 * 16 + (b % 16 * 4 + c / 64) / 4 = b := by omega
    have hthird : (b % 16 * 4 + c / 64) % 4 * 64 + c % 64 = c := by omega
    rw [encodeBytes, decodeGo_zero (by omega), decodeGo_one _ (by omega), decodeGo_two _ _ (by omega),
      decodeGo_three _ _ _ (by omega), hrest, Option.map_some, hfirst, hsecond, hthird]

theorem decode?_encodeBytes {t : List Nat} (ht : ∀ b ∈ t, b < 0x100) : decode? (encodeBytes t) = some t := by
  rw [← decodeGo_encodeBytes ht]
  unfold decode?
  split
  · next r heq =>
    -- A written text does not begin with filling.
    exfalso
    match t, heq with
    | [a], heq => exact digit_ne_padding (by have ha := ht a (by simp); omega) (List.cons.inj heq).1
    | [a, b], heq => exact digit_ne_padding (by have ha := ht a (by simp); omega) (List.cons.inj heq).1
    | a :: b :: c :: rest, heq =>
      exact digit_ne_padding (by have ha := ht a (by simp); omega) (List.cons.inj heq).1
  · rfl

/-- What is written: whole groups of four, of digits and filling. -/
theorem encodeBytes_spec {t : List Nat} (ht : ∀ b ∈ t, b < 0x100) :
    (encodeBytes t).length = 4 * ((t.length + 2) / 3) ∧
      ∀ c ∈ encodeBytes t, (value? c).isSome = true ∨ c = 0x3D := by
  have hdigit : ∀ v < 64, (value? (digit v)).isSome = true := by
    intro v hv
    rw [value?_digit hv]
    rfl
  induction t using encodeBytes.induct with
  | case1 => simp [encodeBytes]
  | case2 a =>
    have ha := ht a (by simp)
    refine ⟨by simp [encodeBytes], ?_⟩
    simp only [encodeBytes, List.forall_mem_cons]
    exact ⟨.inl (hdigit _ (by omega)), .inl (hdigit _ (by omega)), .inr trivial, .inr trivial, nofun⟩
  | case3 a b =>
    have ha := ht a (by simp)
    have hb := ht b (by simp)
    refine ⟨by simp [encodeBytes], ?_⟩
    simp only [encodeBytes, List.forall_mem_cons]
    exact ⟨.inl (hdigit _ (by omega)), .inl (hdigit _ (by omega)), .inl (hdigit _ (by omega)), .inr trivial, nofun⟩
  | case4 a b c rest ih =>
    have ha := ht a (by simp)
    have hb := ht b (by simp)
    have hc := ht c (by simp)
    obtain ⟨hlength, hrest⟩ := ih fun d hd => ht d (by simp [hd])
    simp only [encodeBytes, List.length_cons, List.forall_mem_cons]
    exact ⟨by omega, .inl (hdigit _ (by omega)), .inl (hdigit _ (by omega)), .inl (hdigit _ (by omega)),
      .inl (hdigit _ (by omega)), hrest⟩

/-! ## Reading any text -/

/-- The digits of a group are digits. -/
def Group.Proper : Group → Prop
  | .zero => True
  | .one a => a < 64
  | .two a b => a < 64 ∧ b < 64
  | .three a b c => a < 64 ∧ b < 64 ∧ c < 64

/-- What is read are bytes. -/
theorem decodeGo_lt {g : Group} (hg : g.Proper) {t u : Text} (h : decodeGo g t = some u) : ∀ c ∈ u, c < 0x100 := by
  induction t generalizing g u with
  | nil =>
    cases g with
    | zero => cases h; nofun
    | one | two | three => cases h
  | cons c t ih =>
    cases g with
    | zero =>
      simp only [decodeGo] at h
      split at h
      · split at h
        · cases h; nofun
        · cases h
      · obtain ⟨v, hv, h⟩ := Option.bind_eq_some_iff.mp h
        exact ih (g := .one v) (value?_lt hv) h
    | one a =>
      simp only [decodeGo] at h
      obtain ⟨v, hv, h⟩ := Option.bind_eq_some_iff.mp h
      exact ih (g := .two a v) ⟨hg, value?_lt hv⟩ h
    | two a b =>
      obtain ⟨ha, hb⟩ := hg
      have hfirst : a * 4 + b / 16 < 0x100 := by omega
      simp only [decodeGo] at h
      split at h
      · split at h
        · cases h
          exact List.forall_mem_cons.mpr ⟨hfirst, nofun⟩
        · cases h
      · obtain ⟨v, hv, h⟩ := Option.bind_eq_some_iff.mp h
        exact ih (g := .three a b v) ⟨ha, hb, value?_lt hv⟩ h
    | three a b d =>
      obtain ⟨ha, hb, hd⟩ := hg
      have hfirst : a * 4 + b / 16 < 0x100 := by omega
      have hsecond : b % 16 * 16 + d / 4 < 0x100 := by omega
      simp only [decodeGo] at h
      split at h
      · split at h
        · cases h
          simp only [List.forall_mem_cons]
          exact ⟨hfirst, hsecond, nofun⟩
        · cases h
      · obtain ⟨v, hv, h⟩ := Option.bind_eq_some_iff.mp h
        obtain ⟨rest, hrest, rfl⟩ := Option.map_eq_some_iff.mp h
        have hless := value?_lt hv
        have hthird : d % 4 * 64 + v < 0x100 := by omega
        simp only [List.forall_mem_cons]
        exact ⟨hfirst, hsecond, hthird, ih (g := .zero) trivial hrest⟩

theorem decode?_lt {t u : Text} (h : decode? t = some u) : ∀ c ∈ u, c < 0x100 := by
  unfold decode? at h
  split at h
  · cases h
  · exact decodeGo_lt (g := .zero) trivial h

end Untangle.Base64
