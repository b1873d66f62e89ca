import Mathlib.Data.List.TakeWhile
import Untangle.Proofs.Computation
import Untangle.Proofs.Sandbox.Conversions
import Untangle.Proofs.Sandbox.Literal
import Untangle.Proofs.Text.Digits
import Untangle.Sandbox.Property

set_option autoImplicit false

/-!
# Keys of elements

Which keys stand for an index of an array.  The texts of natural numbers do, but digits of other scripts do as well,
and signs that only look like digits end the computation.  A text has its characters under the same keys as the array
of them, and also under keys with zeros in front.

The main theorem is `keys_of_elements`.  It is exact: both the keys that are misread and those under which a
text and an array differ are characterized.
-/

namespace Untangle.Sandbox

variable {key : Text} {i n : Nat}

/-! ## Digits of any script -/

theorem isDigits_of_isDecimal (hne : key ≠ []) (hkey : ∀ c ∈ key, Text.isDecimal c = true) :
    isDigits key = true := by
  rw [isDigits, Bool.and_eq_true, Bool.not_eq_true', List.isEmpty_eq_false_iff, List.all_eq_true]
  refine ⟨hne, ?_⟩
  intro c hc
  rw [Text.isDigitLike, hkey c hc, Bool.true_or]

/-- A key is read as a number if it has nothing but decimal digits, and not too many of them. -/
theorem keyNumber_eq_ok_iff : keyNumber key = .ok n ↔
    (∀ c ∈ key, Text.isDecimal c = true) ∧ key.length ≤ maxKeyDigits ∧ Text.decimalNumber key = n := by
  have htake : (key.takeWhile Text.isDecimal).length ≤ key.length := (List.takeWhile_prefix _).length_le
  have hall : (key.takeWhile Text.isDecimal).length = key.length ↔ ∀ c ∈ key, Text.isDecimal c = true := by
    rw [← List.takeWhile_eq_self_iff]
    exact ⟨(List.takeWhile_prefix _).eq_of_length, congrArg List.length⟩
  unfold keyNumber
  dsimp only
  split
  · next hlong =>
    refine iff_of_false nofun ?_
    rintro ⟨-, hshort, -⟩
    omega
  · next hshort =>
    split
    · next hless =>
      refine iff_of_false nofun ?_
      rintro ⟨hdecimal, -⟩
      exact hless.ne (hall.mpr hdecimal)
    · next hwhole =>
      have heq : (key.takeWhile Text.isDecimal).length = key.length := by omega
      constructor
      · intro hnumber
        cases hnumber
        exact ⟨hall.mp heq, by omega, rfl⟩
      · rintro ⟨-, -, rfl⟩
        rfl

/-- A key that an array looks at as an index: it has the look of digits, and no zero in front of them. -/
def LooksIndexed (key : Text) : Prop := isDigits key = true ∧ (key = Text.of "0" ∨ key.head? ≠ some 0x30)

instance (key : Text) : Decidable (LooksIndexed key) := inferInstanceAs (Decidable (_ ∧ _))

theorem arrayIndex_of_looksIndexed (h : LooksIndexed key) : arrayIndex key = some <$> keyNumber key := by
  have htest : (isDigits key && (key == Text.of "0" || key.head? != some 0x30)) = true := by
    simpa [LooksIndexed] using h
  rw [arrayIndex, if_pos htest]
  cases keyNumber key <;> rfl

theorem arrayIndex_of_not_looksIndexed (h : ¬LooksIndexed key) : arrayIndex key = .ok none := by
  have htest : ¬(isDigits key && (key == Text.of "0" || key.head? != some 0x30)) = true := by
    simpa [LooksIndexed] using h
  rw [arrayIndex, if_neg htest]
  rfl

theorem arrayIndex_eq_some_iff : arrayIndex key = .ok (some i) ↔ LooksIndexed key ∧ keyNumber key = .ok i := by
  by_cases h : LooksIndexed key
  · rw [arrayIndex_of_looksIndexed h]
    cases keyNumber key with
    | error e => exact iff_of_false nofun fun hnumber => nomatch hnumber.2
    | ok n => simp [h]
  · rw [arrayIndex_of_not_looksIndexed h]
    exact iff_of_false nofun fun hlooks => h hlooks.1

theorem not_looksIndexed_length : ¬LooksIndexed (Text.of "length") := by decide +kernel

theorem arrayIndex_length : arrayIndex (Text.of "length") = .ok none :=
  arrayIndex_of_not_looksIndexed not_looksIndexed_length

/-- An index has no more digits than a key may have. -/
theorem index_lt (h : arrayIndex key = .ok (some i)) : i < 10 ^ maxKeyDigits := by
  obtain ⟨-, hnumber⟩ := arrayIndex_eq_some_iff.mp h
  obtain ⟨-, hshort, rfl⟩ := keyNumber_eq_ok_iff.mp hnumber
  exact (Text.decimalNumber_lt key).trans_le (Nat.pow_le_pow_right (by decide) hshort)

/-! ## Texts of indices -/

theorem looksIndexed_ofNat (i : Nat) : LooksIndexed (Text.ofNat i) := by
  obtain ⟨hdigits, hne, -⟩ := Text.ofNat_spec i
  refine ⟨isDigits_of_isDecimal hne fun c hc => Text.isDecimal_of_isAsciiDigit (hdigits c hc), ?_⟩
  exact Text.head?_ofNat i

/-- The text of an index stands for it, unless there are too many digits. -/
theorem arrayIndex_ofNat_iff : arrayIndex (Text.ofNat i) = .ok (some i) ↔ (Text.ofNat i).length ≤ maxKeyDigits := by
  obtain ⟨hdigits, -, hnumber, -⟩ := Text.ofNat_spec i
  rw [arrayIndex_eq_some_iff, keyNumber_eq_ok_iff]
  constructor
  · rintro ⟨-, -, hshort, -⟩
    exact hshort
  · intro hshort
    exact ⟨looksIndexed_ofNat i, fun c hc => Text.isDecimal_of_isAsciiDigit (hdigits c hc), hshort, hnumber⟩

theorem arrayIndex_ofNat (hi : i < 10 ^ maxKeyDigits) : arrayIndex (Text.ofNat i) = .ok (some i) :=
  arrayIndex_ofNat_iff.mpr (Text.length_ofNat_le hi (by decide))

/-! ## What an array has -/

section

variable {es : Array Value} {named : Dict Text Value} {e : Abrupt}

theorem ne_length_of_index (h : arrayIndex key = .ok (some i)) : key ≠ Text.of "length" := by
  rintro rfl
  rw [arrayIndex_length] at h
  cases h

theorem ne_length_of_error (h : arrayIndex key = .error e) : key ≠ Text.of "length" := by
  rintro rfl
  rw [arrayIndex_length] at h
  cases h

theorem has_of_index (h : arrayIndex key = .ok (some i)) :
    Cell.has ⟨.array es, named⟩ key = .ok (decide (i < es.size)) := by
  simp only [Cell.has, h]
  rfl

theorem has_of_name (h : arrayIndex key = .ok none) :
    Cell.has ⟨.array es, named⟩ key = .ok (key == Text.of "length" || named.contains key) := by
  simp only [Cell.has, h]
  rfl

theorem has_of_error (h : arrayIndex key = .error e) : Cell.has ⟨.array es, named⟩ key = .error e := by
  simp only [Cell.has, h]
  rfl

theorem get_length : Cell.get ⟨.array es, named⟩ (Text.of "length") = .ok (ofCount es.size) := rfl

theorem get_of_ne_length (h : key ≠ Text.of "length") :
    Cell.get ⟨.array es, named⟩ key =
      (fun slot : Option Nat => slot.elim ((named.get? key).getD .undefined) fun i => es.getD i .undefined) <$>
        arrayIndex key := by
  have htest : ¬(key == Text.of "length") = true := by simpa using h
  simp only [Cell.get, if_neg htest]
  cases arrayIndex key with
  | error e => rfl
  | ok slot => cases slot <;> rfl

theorem get_of_index (h : arrayIndex key = .ok (some i)) :
    Cell.get ⟨.array es, named⟩ key = .ok (es.getD i .undefined) := by
  rw [get_of_ne_length (ne_length_of_index h), h]
  rfl

theorem get_of_name (h : arrayIndex key = .ok none) (hne : key ≠ Text.of "length") :
    Cell.get ⟨.array es, named⟩ key = .ok ((named.get? key).getD .undefined) := by
  rw [get_of_ne_length hne, h]
  rfl

theorem get_of_error (h : arrayIndex key = .error e) : Cell.get ⟨.array es, named⟩ key = .error e := by
  rw [get_of_ne_length (ne_length_of_error h), h]
  rfl

end

/-! ## Keys that are read as they should be -/

/-- A key stands for an index if it is the text of that index, and for none otherwise. -/
def ReadAsText (key : Text) : Prop :=
  (∀ i, arrayIndex key = .ok (some i) ↔ key = Text.ofNat i) ∧
    ((∀ i, key ≠ Text.ofNat i) → arrayIndex key = .ok none)

/-- A key with the look of digits and no zero in front of them, in which some sign is no digit of ASCII, or which is
too long. -/
structure Misread (key : Text) : Prop where
  digits : isDigits key = true
  head : key.head? ≠ some 0x30
  strange : (∃ c ∈ key, Text.isAsciiDigit c = false) ∨ maxKeyDigits < key.length

/-- A key that is misread ends the computation or stands for an index with another text. -/
theorem Misread.outcome (h : Misread key) :
    (∃ e, arrayIndex key = .error e) ∨ ∃ i, arrayIndex key = .ok (some i) ∧ key ≠ Text.ofNat i := by
  have hlooks : LooksIndexed key := ⟨h.digits, .inr h.head⟩
  rw [arrayIndex_of_looksIndexed hlooks]
  cases hnumber : keyNumber key with
  | error e => exact .inl ⟨e, rfl⟩
  | ok i =>
    refine .inr ⟨i, rfl, ?_⟩
    rintro rfl
    obtain ⟨-, hshort, -⟩ := keyNumber_eq_ok_iff.mp hnumber
    rcases h.strange with ⟨c, hc, hstrange⟩ | hlong
    · rw [(Text.ofNat_spec i).1 c hc] at hstrange
      cases hstrange
    · omega

theorem readAsText_iff : ReadAsText key ↔ ¬Misread key := by
  constructor
  · rintro ⟨hindex, hnone⟩ hmisread
    rcases hmisread.outcome with ⟨e, herror⟩ | ⟨i, hi, hne⟩
    · have hother : ∀ i, key ≠ Text.ofNat i := by
        intro i heq
        rw [(hindex i).mpr heq] at herror
        cases herror
      rw [hnone hother] at herror
      cases herror
    · exact hne ((hindex i).mp hi)
  · intro hread
    by_cases hlooks : LooksIndexed key
    · -- What looks like an index is the text of a number.
      have hplain : Text.AllDigits key ∧ key.length ≤ maxKeyDigits := by
        rcases hlooks.2 with rfl | hhead
        · exact ⟨Text.allDigits_replicate 1, by decide⟩
        · constructor
          · intro c hc
            by_contra hstrange
            exact hread ⟨hlooks.1, hhead, .inl ⟨c, hc, Bool.eq_false_iff.mpr hstrange⟩⟩
          · by_contra hlong
            exact hread ⟨hlooks.1, hhead, .inr (Nat.lt_of_not_le hlong)⟩
      have hne : key ≠ [] := by
        rintro rfl
        exact absurd hlooks.1 (by decide)
      have hkey := Text.eq_ofNat hplain.1 hne hlooks.2
      have hindex : arrayIndex key = .ok (some (Text.decimalNumber key)) := by
        rw [hkey] at hplain
        have hofNat := arrayIndex_ofNat_iff.mpr hplain.2
        rwa [← hkey] at hofNat
      refine ⟨?_, fun hother => absurd hkey (hother _)⟩
      intro i
      rw [hindex, Except.ok.injEq, Option.some.injEq]
      constructor
      · rintro rfl
        exact hkey
      · rintro rfl
        exact (Text.ofNat_spec i).2.2.1
    · refine ⟨?_, fun _ => arrayIndex_of_not_looksIndexed hlooks⟩
      intro i
      rw [arrayIndex_of_not_looksIndexed hlooks]
      refine iff_of_false nofun ?_
      rintro rfl
      exact hlooks (looksIndexed_ofNat i)

/-! ## Characters under keys -/

section

variable {s : Text} {m : Machine} {r : Ref}

/-- The characters of a text, each as a text of its own. -/
def characters (s : Text) : Array Value := (s.map fun c => Value.string [c]).toArray

/-- What a text has at a place. -/
def characterAt (s : Text) (i : Nat) : Value :=
  match s[i]? with
  | some c => .string [c]
  | none => .undefined

theorem size_characters (s : Text) : (characters s).size = s.length := by simp [characters]

theorem getD_characters (s : Text) (i : Nat) : (characters s).getD i .undefined = characterAt s i := by
  rw [characters, characterAt, Array.getD_eq_getD_getElem?, List.getElem?_toArray, List.getElem?_map]
  cases s[i]? <;> rfl

theorem characterAt_of_le {i : Nat} (h : s.length ≤ i) : characterAt s i = .undefined := by
  rw [characterAt, List.getElem?_eq_none h]

theorem characterAt_of_lt {i : Nat} (h : i < s.length) : characterAt s i ≠ .undefined := by
  rw [characterAt, List.getElem?_eq_getElem h]
  nofun

theorem reading_congr_iff {α : Type} {x y : Conv α} :
    Run.reading (fun _ => x) m = Run.reading (fun _ => y) m ↔ x = y := by
  refine ⟨?_, fun h => h ▸ rfl⟩
  intro h
  rw [reading_eq, reading_eq] at h
  cases x <;> cases y <;> cases h <;> rfl

theorem inherited_of_none {family : Family} (h : inheritedPlace? family key = none) :
    Run.inherited family key = .undefined := by
  rw [Run.inherited, h]

/-- The array of the characters has a character under every key that looks like an index. -/
theorem property_characters (hlength : key ≠ Text.of "length") (harray : inheritedPlace? .array key = none) :
    Cell.property ⟨.array (characters s), .empty⟩ key =
      if LooksIndexed key then characterAt s <$> keyNumber key else .ok .undefined := by
  have hmissing : Run.inheritedProperty ⟨.array (characters s), .empty⟩ key = .undefined := inherited_of_none harray
  rw [Cell.property, hmissing]
  by_cases hlooks : LooksIndexed key
  · rw [if_pos hlooks]
    cases hnumber : keyNumber key with
    | error e =>
      have hindex : arrayIndex key = .error e := by rw [arrayIndex_of_looksIndexed hlooks, hnumber]; rfl
      rw [has_of_error hindex]
      rfl
    | ok i =>
      have hindex : arrayIndex key = .ok (some i) := by rw [arrayIndex_of_looksIndexed hlooks, hnumber]; rfl
      rw [has_of_index hindex, get_of_index hindex, getD_characters, size_characters]
      by_cases hless : i < s.length
      · rw [decide_eq_true hless]
        rfl
      · rw [decide_eq_false hless]
        exact congrArg Except.ok (characterAt_of_le (Nat.le_of_not_lt hless)).symm
  · rw [if_neg hlooks, has_of_name (arrayIndex_of_not_looksIndexed hlooks), beq_false_of_ne hlength]
    rfl

/-- A text has a character under every key that looks like digits. -/
theorem textProperty_eq (hlength : key ≠ Text.of "length") (hstring : inheritedPlace? .string key = none) :
    Run.textProperty s key =
      if isDigits key = true then characterAt s <$> keyNumber key else .ok .undefined := by
  have hlength' : ¬(key == Text.of "length") = true := by simpa using hlength
  rw [Run.textProperty, if_neg hlength']
  split
  · cases keyNumber key <;> rfl
  · exact congrArg Except.ok (inherited_of_none hstring)

/-- A key with the look of digits and a zero in front of them, under which a text has a character, or which ends the
computation. -/
structure Overlooked (s key : Text) : Prop where
  digits : isDigits key = true
  head : key.head? = some 0x30
  other : key ≠ Text.of "0"
  inside : ∀ i, keyNumber key = .ok i → i < s.length

/-- A text and the array of its characters have the same under a key, unless there is a zero in front of the digits
of the key. -/
theorem getProperty_characters_iff (hcell : m.cell r = ⟨.array (characters s), .empty⟩)
    (hstring : inheritedPlace? .string key = none) (harray : inheritedPlace? .array key = none) :
    Run.getProperty (.string s) key m = Run.getProperty (.object r) key m ↔ ¬Overlooked s key := by
  show Run.reading (fun _ => Run.textProperty s key) m = _ ↔ _
  rw [getProperty_object, hcell, reading_congr_iff]
  by_cases hlength : key = Text.of "length"
  · subst hlength
    refine iff_of_true ?_ fun h => absurd h.digits (by decide +kernel)
    show (.ok (ofCount s.length) : Conv Value) = .ok (ofCount (characters s).size)
    rw [size_characters]
  rw [property_characters hlength harray, textProperty_eq hlength hstring]
  by_cases hdigits : isDigits key = true
  · rw [if_pos hdigits]
    by_cases hlooks : LooksIndexed key
    · rw [if_pos hlooks]
      refine iff_of_true rfl fun h => ?_
      rcases hlooks.2 with hzero | hhead
      · exact h.other hzero
      · exact hhead h.head
    · rw [if_neg hlooks]
      have hpadded : key.head? = some 0x30 ∧ key ≠ Text.of "0" := by
        by_contra hnot
        refine hlooks ⟨hdigits, ?_⟩
        by_cases hzero : key = Text.of "0"
        · exact .inl hzero
        · exact .inr fun hhead => hnot ⟨hhead, hzero⟩
      cases hnumber : keyNumber key with
      | error e =>
        refine iff_of_false nofun (not_not_intro ⟨hdigits, hpadded.1, hpadded.2, ?_⟩)
        intro i hi
        rw [hnumber] at hi
        cases hi
      | ok i =>
        show (.ok (characterAt s i) : Conv Value) = .ok .undefined ↔ _
        rw [Except.ok.injEq]
        by_cases hless : i < s.length
        · refine iff_of_false (characterAt_of_lt hless) (not_not_intro ⟨hdigits, hpadded.1, hpadded.2, ?_⟩)
          intro j hj
          rw [hnumber] at hj
          cases hj
          exact hless
        · exact iff_of_true (characterAt_of_le (Nat.le_of_not_lt hless)) fun h => hless (h.inside i hnumber)
  · have hlooks : ¬LooksIndexed key := fun h => hdigits h.1
    rw [if_neg hdigits, if_neg hlooks]
    exact iff_of_true rfl fun h => hdigits h.digits

/-- The keys of elements.  A key is read as the text of an index or as none, unless it is misread; then it ends the
computation or stands for an index that has another text.  Under a key that is no name of a method, a text has the same
as the array of its characters, unless there is a zero in front of other digits. -/
theorem keys_of_elements (key : Text) :
    (ReadAsText key ↔ ¬Misread key) ∧
    (Misread key →
      (∃ e, arrayIndex key = .error e) ∨ ∃ i, arrayIndex key = .ok (some i) ∧ key ≠ Text.ofNat i) ∧
    ∀ {m : Machine} {r : Ref} {s : Text}, m.cell r = ⟨.array (characters s), .empty⟩ →
      inheritedPlace? .string key = none → inheritedPlace? .array key = none →
        (Run.getProperty (.string s) key m = Run.getProperty (.object r) key m ↔ ¬Overlooked s key) :=
  ⟨readAsText_iff, Misread.outcome, getProperty_characters_iff⟩

/-- A text has a character under a key with a zero in front, and the array of its characters has none. -/
theorem keys_of_elements_zeroInFront :
    let m : Machine := { (default : Machine) with heap := #[⟨.array (characters "abc"), .empty⟩] }
    (Misread "²" ∧ m.cell 0 = ⟨.array (characters "abc"), .empty⟩ ∧ inheritedPlace? .string "01" = none ∧
      inheritedPlace? .array "01" = none ∧ Overlooked "abc" "01") ∧
    ((∃ e, arrayIndex "²" = .error e) ∨ ∃ i, arrayIndex "²" = .ok (some i) ∧ ("²" : Text) ≠ Text.ofNat i) ∧
    Run.getProperty (.string "abc") "01" m ≠ Run.getProperty (.object 0) "01" m := by
  intro m
  have hmisread : Misread "²" := ⟨by decide, by decide, .inl ⟨0xB2, by decide, by decide⟩⟩
  have hcell : m.cell 0 = ⟨.array (characters "abc"), .empty⟩ := rfl
  have hstring : inheritedPlace? .string "01" = none := by decide +kernel
  have harray : inheritedPlace? .array "01" = none := by decide +kernel
  have hoverlooked : Overlooked "abc" "01" := by
    refine ⟨by decide, by decide, by decide, ?_⟩
    rintro i ⟨⟩
    decide
  obtain ⟨-, houtcome, -⟩ := keys_of_elements "²"
  obtain ⟨-, -, hiff⟩ := keys_of_elements "01"
  refine ⟨⟨hmisread, hcell, hstring, harray, hoverlooked⟩, houtcome hmisread, ?_⟩
  exact fun heq => (hiff hcell hstring harray).mp heq hoverlooked

end

end Untangle.Sandbox
