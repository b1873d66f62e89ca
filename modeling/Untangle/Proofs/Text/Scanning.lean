import Untangle.Proofs.Text.Decoding

set_option autoImplicit false

/-!
# The scan for escapes

Decoding goes over any text from the left, well formed or not.  Where escapes begin it takes the longest of
them, and otherwise a single character.  Here the forms of escapes and the scan are given as relations, apart
from the functions that compute them, and two facts follow about every text.  Decoding brings no delimiter
into a text and takes none out but the backslashes of what it decodes.  And decoding a second time changes
nothing, unless what was copied the first time makes up an escape with a character that was put behind it.

The main theorems are `risky_characters_kept` and `decode_decode_eq_iff`, for all texts.  Which characters
are risky is written out here (`isRisky`) and compared with what the decoder leaves alone (`isSafe_eq`); a
minus sign is not among them, although it makes a range inside of a class.
-/

namespace Untangle.Escapes

/-! ## The forms of escapes -/

/-- A text of the form of an escape, with the character that it denotes.  An escaped backslash is passed over
as a unit, and two escapes that are the halves of a pair are taken together. -/
inductive Spells : Text → Option CodePoint → Prop
  | slashes : Spells [0x5C, 0x5C] none
  | pair {m a b c d m' a' b' c' d' : CodePoint} (hm : isUnitMark m = true)
      (hds : [a, b, c, d].all Text.isHexDigit = true)
      (hhigh : 0xD800 ≤ Text.hexNumber [a, b, c, d] ∧ Text.hexNumber [a, b, c, d] ≤ 0xDBFF)
      (hm' : isUnitMark m' = true) (hds' : [a', b', c', d'].all Text.isHexDigit = true)
      (hlow : 0xDC00 ≤ Text.hexNumber [a', b', c', d'] ∧ Text.hexNumber [a', b', c', d'] ≤ 0xDFFF) :
      Spells [0x5C, m, a, b, c, d, 0x5C, m', a', b', c', d']
        (some (joined (Text.hexNumber [a, b, c, d]) (Text.hexNumber [a', b', c', d'])))
  | unit {m a b c d : CodePoint} (hm : isUnitMark m = true)
      (hds : [a, b, c, d].all Text.isHexDigit = true) :
      Spells [0x5C, m, a, b, c, d] (some (Text.hexNumber [a, b, c, d]))
  | byte {m a b : CodePoint} (hm : isByteMark m = true) (hds : [a, b].all Text.isHexDigit = true) :
      Spells [0x5C, m, a, b] (some (Text.hexNumber [a, b]))

/-- The escape that the scan takes at the head of a text: of those that begin there, the longest. -/
structure Takes (t s : Text) (code? : Option CodePoint) : Prop where
  spells : Spells s code?
  head : s <+: t
  longest : ∀ s' code?', Spells s' code?' → s' <+: t → s'.length ≤ s.length

section Forms

variable {m c : CodePoint} {s t r : Text} {code? : Option CodePoint}

theorem isUnitMark_iff : isUnitMark m = true ↔ m = 0x75 ∨ m = 0x55 := by
  simp [isUnitMark]

theorem isByteMark_iff : isByteMark m = true ↔ m = 0x78 ∨ m = 0x58 := by
  simp [isByteMark]

theorem ne_slash_of_isUnitMark (h : isUnitMark m = true) : m ≠ 0x5C := by
  rcases isUnitMark_iff.mp h with rfl | rfl <;> decide

theorem ne_slash_of_isByteMark (h : isByteMark m = true) : m ≠ 0x5C := by
  rcases isByteMark_iff.mp h with rfl | rfl <;> decide

/-- No letter marks escapes of both widths. -/
theorem not_isUnitMark_of_isByteMark (h : isByteMark m = true) : isUnitMark m = false := by
  rcases isByteMark_iff.mp h with rfl | rfl <;> rfl

/-- Every form is a backslash and something behind it. -/
theorem Spells.exists_cons (h : Spells s code?) : ∃ m r, s = 0x5C :: m :: r := by
  cases h <;> exact ⟨_, _, rfl⟩

/-! ### The functions that look for escapes -/

theorem hex4?_of_all {a b c d : CodePoint} (h : [a, b, c, d].all Text.isHexDigit = true) (r : Text) :
    hex4? (a :: b :: c :: d :: r) = some (Text.hexNumber [a, b, c, d]) := by
  simp only [List.all_cons, List.all_nil, Bool.and_true, ← Bool.and_assoc] at h
  simp only [hex4?, h, if_true]

theorem hex2?_of_all {a b : CodePoint} (h : [a, b].all Text.isHexDigit = true) (r : Text) :
    hex2? (a :: b :: r) = some (Text.hexNumber [a, b]) := by
  simp only [List.all_cons, List.all_nil, Bool.and_true] at h
  simp only [hex2?, h, if_true]

theorem exists_of_hex4? {n : Nat} (h : hex4? t = some n) :
    ∃ a b c d r, t = a :: b :: c :: d :: r ∧ [a, b, c, d].all Text.isHexDigit = true ∧
      n = Text.hexNumber [a, b, c, d] := by
  unfold hex4? at h
  split at h
  · split at h
    · next hds =>
      refine ⟨_, _, _, _, _, rfl, ?_, (Option.some.inj h).symm⟩
      simpa [Bool.and_assoc] using hds
    · cases h
  · cases h

theorem exists_of_hex2? {n : Nat} (h : hex2? t = some n) :
    ∃ a b r, t = a :: b :: r ∧ [a, b].all Text.isHexDigit = true ∧ n = Text.hexNumber [a, b] := by
  unfold hex2? at h
  split at h
  · split at h
    · next hds =>
      refine ⟨_, _, _, rfl, ?_, (Option.some.inj h).symm⟩
      simpa using hds
    · cases h
  · cases h

theorem lowHalf?_of_all {a b c d : CodePoint} (hm : isUnitMark m = true)
    (hds : [a, b, c, d].all Text.isHexDigit = true)
    (hlow : 0xDC00 ≤ Text.hexNumber [a, b, c, d] ∧ Text.hexNumber [a, b, c, d] ≤ 0xDFFF) (r : Text) :
    lowHalf? (0x5C :: m :: a :: b :: c :: d :: r) = some (Text.hexNumber [a, b, c, d]) := by
  unfold lowHalf?
  simp [hm, hex4?_of_all hds, hlow]

theorem exists_of_lowHalf? {low : Nat} (h : lowHalf? t = some low) :
    ∃ m a b c d r, t = 0x5C :: m :: a :: b :: c :: d :: r ∧ isUnitMark m = true ∧
      [a, b, c, d].all Text.isHexDigit = true ∧ low = Text.hexNumber [a, b, c, d] ∧
      0xDC00 ≤ low ∧ low ≤ 0xDFFF := by
  unfold lowHalf? at h
  split at h
  · next m r =>
    split at h
    · next hm =>
      obtain ⟨n, hn, hrange⟩ := Option.bind_eq_some_iff.mp h
      obtain ⟨a, b, c, d, r, rfl, hds, rfl⟩ := exists_of_hex4? hn
      split at hrange
      · next hlow =>
        cases hrange
        simp only [Bool.and_eq_true, decide_eq_true_eq] at hlow
        exact ⟨m, a, b, c, d, r, rfl, hm, hds, rfl, hlow⟩
      · cases hrange
    · cases h
  · cases h

/-- What the search finds has the form of an escape, and its width is right. -/
theorem spells_of_escapeAt? {w : Nat} (h : escapeAt? t = some (code?, w)) :
    ∃ s, s <+: t ∧ s.length = w ∧ Spells s code? := by
  cases t with
  | nil => cases h
  | cons c t =>
    by_cases hc : c = 0x5C
    · subst hc
      cases t with
      | nil => cases h
      | cons m t =>
        by_cases hm : m = 0x5C
        · subst hm
          cases h
          exact ⟨[0x5C, 0x5C], ⟨t, rfl⟩, rfl, .slashes⟩
        rw [escapeAt?_escape hm] at h
        split at h
        · next hunit =>
          obtain ⟨high, hhigh, he⟩ := Option.map_eq_some_iff.mp h
          obtain ⟨a, b, c, d, r, rfl, hds, rfl⟩ := exists_of_hex4? hhigh
          cases hlow : (if 0xD800 ≤ Text.hexNumber [a, b, c, d] &&
              Text.hexNumber [a, b, c, d] ≤ 0xDBFF then lowHalf? ((a :: b :: c :: d :: r).drop 4)
              else none) with
          | none =>
            rw [hlow] at he
            cases he
            exact ⟨[0x5C, m, a, b, c, d], ⟨r, rfl⟩, rfl, .unit hunit hds⟩
          | some low =>
            rw [hlow] at he
            cases he
            split at hlow
            · next hrange =>
              simp only [Bool.and_eq_true, decide_eq_true_eq] at hrange
              obtain ⟨m', a', b', c', d', r', hr, hm', hds', rfl, hrange'⟩ := exists_of_lowHalf? hlow
              obtain rfl : r = 0x5C :: m' :: a' :: b' :: c' :: d' :: r' := hr
              exact ⟨[0x5C, m, a, b, c, d, 0x5C, m', a', b', c', d'], ⟨r', rfl⟩, rfl,
                .pair hunit hds hrange hm' hds' hrange'⟩
            · cases hlow
        · split at h
          · next hbyte =>
            obtain ⟨n, hn, he⟩ := Option.map_eq_some_iff.mp h
            obtain ⟨a, b, r, rfl, hds, rfl⟩ := exists_of_hex2? hn
            cases he
            exact ⟨[0x5C, m, a, b], ⟨r, rfl⟩, rfl, .byte hbyte hds⟩
          · cases h
    · rw [escapeAt?_of_ne hc] at h
      cases h

/-- Where an escape begins the search finds one that is at least as long, and that one if it is no longer. -/
theorem Spells.escapeAt? (h : Spells s code?) (r : Text) :
    ∃ code?' w, Escapes.escapeAt? (s ++ r) = some (code?', w) ∧ s.length ≤ w ∧
      (w = s.length → code?' = code?) := by
  cases h with
  | slashes => exact ⟨none, 2, rfl, Nat.le_refl 2, fun _ => rfl⟩
  | @pair m a b c d m' a' b' c' d' hm hds hhigh hm' hds' hlow =>
    refine ⟨_, 12, ?_, Nat.le_refl 12, fun _ => rfl⟩
    show Escapes.escapeAt? (0x5C :: m :: a :: b :: c :: d :: 0x5C :: m' :: a' :: b' :: c' :: d' :: r) = _
    rw [escapeAt?_escape (ne_slash_of_isUnitMark hm), if_pos hm, hex4?_of_all hds, Option.map_some,
      if_pos (by simpa using hhigh)]
    simp only [List.drop_succ_cons, List.drop_zero, lowHalf?_of_all hm' hds' hlow, Option.elim_some]
  | @unit m a b c d hm hds =>
    show ∃ code?' w, Escapes.escapeAt? (0x5C :: m :: a :: b :: c :: d :: r) = _ ∧ _
    rw [escapeAt?_escape (ne_slash_of_isUnitMark hm), if_pos hm, hex4?_of_all hds, Option.map_some]
    cases (if 0xD800 ≤ Text.hexNumber [a, b, c, d] && Text.hexNumber [a, b, c, d] ≤ 0xDBFF then
      lowHalf? ((a :: b :: c :: d :: r).drop 4) else none) with
    | none => exact ⟨_, 6, rfl, Nat.le_refl 6, fun _ => rfl⟩
    | some low => exact ⟨_, 12, rfl, by simp, fun h => by simp at h⟩
  | @byte m a b hm hds =>
    refine ⟨_, 4, ?_, Nat.le_refl 4, fun _ => rfl⟩
    show Escapes.escapeAt? (0x5C :: m :: a :: b :: r) = _
    rw [escapeAt?_escape (ne_slash_of_isByteMark hm), not_isUnitMark_of_isByteMark hm, hm,
      hex2?_of_all hds]
    rfl

/-- The search finds what the scan takes. -/
theorem takes_iff : Takes t s code? ↔ s <+: t ∧ escapeAt? t = some (code?, s.length) := by
  constructor
  · intro h
    obtain ⟨r, rfl⟩ := h.head
    obtain ⟨code?', w, hfound, hle, hsame⟩ := h.spells.escapeAt? r
    obtain ⟨s', hs', hlength, hspells⟩ := spells_of_escapeAt? hfound
    have hw : w = s.length := Nat.le_antisymm (hlength ▸ h.longest s' code?' hspells hs') hle
    rw [hfound, hsame hw, hw]
    exact ⟨h.head, rfl⟩
  · rintro ⟨hhead, hfound⟩
    obtain ⟨s', hs', hlength, hspells⟩ := spells_of_escapeAt? hfound
    obtain rfl : s' = s :=
      (List.prefix_of_prefix_length_le hs' hhead (Nat.le_of_eq hlength)).eq_of_length hlength
    refine ⟨hspells, hhead, ?_⟩
    rintro s' code?' hspells' ⟨r, rfl⟩
    obtain ⟨_, w, hfound', hle, -⟩ := hspells'.escapeAt? r
    cases hfound.symm.trans hfound'
    exact hle

theorem escapeAt?_eq_none_iff : escapeAt? t = none ↔ ∀ s code?, Spells s code? → ¬ s <+: t := by
  constructor
  · rintro hnone s code? hspells ⟨r, rfl⟩
    obtain ⟨_, _, hfound, -⟩ := hspells.escapeAt? r
    cases hnone.symm.trans hfound
  · intro h
    cases hfound : escapeAt? t with
    | none => rfl
    | some e =>
      obtain ⟨s, hs, -, hspells⟩ := spells_of_escapeAt? hfound
      exact absurd hs (h s _ hspells)

theorem Takes.unique {s' : Text} {code?' : Option CodePoint} (h : Takes t s code?)
    (h' : Takes t s' code?') : s = s' ∧ code? = code?' := by
  obtain ⟨hhead, hfound⟩ := takes_iff.mp h
  obtain ⟨hhead', hfound'⟩ := takes_iff.mp h'
  obtain ⟨hcode, hlength⟩ := Prod.mk.inj (Option.some.inj (hfound.symm.trans hfound'))
  exact ⟨(List.prefix_of_prefix_length_le hhead hhead' (Nat.le_of_eq hlength)).eq_of_length hlength, hcode⟩

theorem Takes.ne_nil (h : Takes t s code?) : t ≠ [] := by
  rintro rfl
  obtain ⟨m, r, rfl⟩ := h.spells.exists_cons
  cases List.prefix_nil.mp h.head

/-- What the scan takes is replaced by its character if that is safe, and copied otherwise. -/
theorem Takes.decode (h : Takes (s ++ r) s code?) :
    Escapes.decode (s ++ r) = ((code?.filter isSafe).elim s fun x => [x]) ++ Escapes.decode r := by
  obtain ⟨m, s, rfl⟩ := h.spells.exists_cons
  exact decode_of_some (s := m :: s) (takes_iff.mp h).2

end Forms

/-! ## What the scan takes -/

/-- What the scan takes at one place. -/
inductive Segment where
  /-- A character where no escape begins. -/
  | bare (c : CodePoint)
  /-- An escape that is copied. -/
  | kept (s : Text)
  /-- An escape and the character that is put in its place. -/
  | put (s : Text) (c : CodePoint)

namespace Segment

/-- The characters of the text. -/
def text : Segment → Text
  | .bare c => [c]
  | .kept s | .put s _ => s

/-- The characters of the decoded text. -/
def written : Segment → Text
  | .bare c | .put _ c => [c]
  | .kept s => s

/-- The characters of the text, without the backslashes of what is decoded: one, or two of a pair. -/
def unslashed : Segment → Text
  | .bare c => [c]
  | .kept s => s
  | .put s _ => s.filter (· != 0x5C)

def isPut : Segment → Bool
  | .put _ _ => true
  | _ => false

end Segment

/-- The characters of a decoded text. -/
def writing (ss : List Segment) : Text := ss.flatMap Segment.written

/-- The scan over a text.  A character is put in place of an escape if it is safe. -/
inductive Scan : Text → List Segment → Prop
  | done : Scan [] []
  | bare {c : CodePoint} {r : Text} {ss : List Segment}
      (hnone : ∀ s code?, Spells s code? → ¬ s <+: c :: r) (hrest : Scan r ss) :
      Scan (c :: r) (.bare c :: ss)
  | kept {t s r : Text} {code? : Option CodePoint} {ss : List Segment} (ht : t = s ++ r)
      (htakes : Takes t s code?) (hrisky : ∀ c, code? = some c → isSafe c = false) (hrest : Scan r ss) :
      Scan t (.kept s :: ss)
  | put {t s r : Text} {c : CodePoint} {ss : List Segment} (ht : t = s ++ r)
      (htakes : Takes t s (some c)) (hsafe : isSafe c = true) (hrest : Scan r ss) :
      Scan t (.put s c :: ss)

section Scans

variable {s t u r : Text} {c : CodePoint} {code? : Option CodePoint} {ss : List Segment}

theorem filter_isSafe_eq_none : code?.filter isSafe = none ↔ ∀ c, code? = some c → isSafe c = false := by
  cases code? with
  | none => simp
  | some c => cases h : isSafe c <;> simp [Option.filter, h]

/-- Every text is scanned to its end. -/
theorem exists_scan (t : Text) : ∃ ss, Scan t ss := by
  induction hsize : t.length using Nat.strongRecOn generalizing t with
  | ind size ih =>
    cases t with
    | nil => exact ⟨[], .done⟩
    | cons c r =>
      cases hfound : escapeAt? (c :: r) with
      | none =>
        obtain ⟨ss, hss⟩ := ih r.length (hsize ▸ Nat.lt_succ_self _) r rfl
        exact ⟨_, .bare (escapeAt?_eq_none_iff.mp hfound) hss⟩
      | some e =>
        obtain ⟨s, hs, hlength, hspells⟩ := spells_of_escapeAt? hfound
        have htakes : Takes (c :: r) s e.1 := takes_iff.mpr ⟨hs, hlength ▸ hfound⟩
        obtain ⟨r', hr'⟩ := hs
        have hshorter : r'.length < size := by
          obtain ⟨m, s', rfl⟩ := hspells.exists_cons
          rw [← hsize, ← hr']
          simp only [List.length_append, List.length_cons]
          omega
        obtain ⟨ss, hss⟩ := ih _ hshorter r' rfl
        cases hcode : e.1.filter isSafe with
        | none => exact ⟨_, .kept hr'.symm htakes (filter_isSafe_eq_none.mp hcode) hss⟩
        | some x =>
          obtain ⟨hx, hsafe⟩ := Option.filter_eq_some_iff.mp hcode
          exact ⟨_, .put hr'.symm (hx ▸ htakes) hsafe hss⟩

/-- A text is scanned in one way. -/
theorem Scan.unique {ss' : List Segment} (h : Scan t ss) (h' : Scan t ss') : ss' = ss := by
  induction h generalizing ss' with
  | done =>
    cases h' with
    | done => rfl
    | kept _ htakes _ _ => exact absurd rfl htakes.ne_nil
    | put _ htakes _ _ => exact absurd rfl htakes.ne_nil
  | bare hnone _ ih =>
    cases h' with
    | bare _ hrest => rw [ih hrest]
    | kept _ htakes _ _ => exact absurd htakes.head (hnone _ _ htakes.spells)
    | put _ htakes _ _ => exact absurd htakes.head (hnone _ _ htakes.spells)
  | kept ht htakes hrisky _ ih =>
    cases h' with
    | done => exact absurd rfl htakes.ne_nil
    | bare hnone _ => exact absurd htakes.head (hnone _ _ htakes.spells)
    | kept ht' htakes' _ hrest' =>
      obtain ⟨rfl, -⟩ := htakes.unique htakes'
      obtain rfl := List.append_cancel_left (ht.symm.trans ht')
      rw [ih hrest']
    | put _ htakes' hsafe _ =>
      obtain ⟨-, rfl⟩ := htakes.unique htakes'
      rw [hrisky _ rfl] at hsafe
      cases hsafe
  | put ht htakes hsafe _ ih =>
    cases h' with
    | done => exact absurd rfl htakes.ne_nil
    | bare hnone _ => exact absurd htakes.head (hnone _ _ htakes.spells)
    | kept _ htakes' hrisky _ =>
      obtain ⟨-, rfl⟩ := htakes.unique htakes'
      rw [hrisky _ rfl] at hsafe
      cases hsafe
    | put ht' htakes' _ hrest' =>
      obtain ⟨rfl, hc⟩ := htakes.unique htakes'
      cases hc
      obtain rfl := List.append_cancel_left (ht.symm.trans ht')
      rw [ih hrest']

/-- The scan goes over the whole text. -/
theorem Scan.text (h : Scan t ss) : ss.flatMap Segment.text = t := by
  induction h with
  | done => rfl
  | bare _ _ ih => rw [List.flatMap_cons, ih]; rfl
  | kept ht _ _ _ ih => rw [List.flatMap_cons, ih, ht]; rfl
  | put ht _ _ _ ih => rw [List.flatMap_cons, ih, ht]; rfl

/-- Decoding writes what the scan leads to. -/
theorem Scan.decode (h : Scan t ss) : Escapes.decode t = writing ss := by
  induction h with
  | done => rfl
  | bare hnone _ ih =>
    rw [decode_of_none (escapeAt?_eq_none_iff.mpr hnone), ih]
    rfl
  | kept ht htakes hrisky _ ih =>
    subst ht
    rw [htakes.decode, filter_isSafe_eq_none.mpr hrisky, ih]
    rfl
  | put ht htakes hsafe _ ih =>
    subst ht
    rw [htakes.decode, Option.filter_some_pos hsafe, ih]
    rfl

/-! ## Delimiters -/

/-- The quotes of strings, `"` and `'`, and of templates, the backtick. -/
def isQuote (c : CodePoint) : Bool := [0x22, 0x27, 0x60].contains c

/-- The characters that stand for something else than themselves in a regular expression:
`^ $ \ . * + ? ( ) [ ] { } |`. -/
def isSyntaxCharacter (c : CodePoint) : Bool :=
  [0x5E, 0x24, 0x5C, 0x2E, 0x2A, 0x2B, 0x3F, 0x28, 0x29, 0x5B, 0x5D, 0x7B, 0x7D, 0x7C].contains c

/-- Line feed, carriage return, the line separator and the paragraph separator. -/
def isLineTerminator (c : CodePoint) : Bool := [0x0A, 0x0D, 0x2028, 0x2029].contains c

/-- A character with a part to play in a string, a template or a regular expression: quotes, the backslash,
the dollar sign, the slash and the signs of regular expressions, the ends of lines and what is not
printable. -/
def isRisky (c : CodePoint) : Bool :=
  isQuote c || c == 0x5C || c == 0x24 || c == 0x2F || isSyntaxCharacter c || isLineTerminator c ||
    !Text.isPrintable c

/-- Decoding delimits with the quotes, the slash and the signs of regular expressions, of which the backslash
and the dollar sign are two. -/
theorem isDelimiter_eq (c : CodePoint) :
    isDelimiter c = (isQuote c || c == 0x2F || isSyntaxCharacter c) := by
  have htext : Text.of "'\"`\\$/.*+?()[]\x7b\x7d|^" =
      [0x27, 0x22, 0x60, 0x5C, 0x24, 0x2F, 0x2E, 0x2A, 0x2B, 0x3F, 0x28, 0x29, 0x5B, 0x5D, 0x7B, 0x7D, 0x7C, 0x5E] := by
    decide
  rw [Bool.eq_iff_iff]
  simp only [isDelimiter, htext, isQuote, isSyntaxCharacter, List.contains_iff_mem, List.mem_cons, List.not_mem_nil,
    or_false, Bool.or_eq_true, beq_iff_eq]
  grind

theorem isTerminator_eq (c : CodePoint) : isTerminator c = isLineTerminator c := by
  rw [Bool.eq_iff_iff]
  simp [isTerminator, isLineTerminator, or_assoc]

/-- The characters that may stand for their escapes are those without such a part. -/
theorem isSafe_eq (c : CodePoint) : isSafe c = !isRisky c := by
  have hslash : c = 0x5C → isSyntaxCharacter c = true := fun h => by subst h; decide
  have hdollar : c = 0x24 → isSyntaxCharacter c = true := fun h => by subst h; decide
  rw [Bool.eq_iff_iff]
  simp only [isSafe, isRisky, isDelimiter_eq, isTerminator_eq, Bool.and_eq_true, Bool.not_eq_true', Bool.or_eq_false_iff,
    Bool.not_eq_false', beq_eq_false_iff_ne]
  grind

theorem isSafe_of_isHexDigit (h : Text.isHexDigit c = true) : isSafe c = true := by
  have hlt : c < 0x80 := by
    simp only [Text.isHexDigit, Text.hexValue?, Text.isAsciiDigit] at h
    dsimp only [CodePoint] at h ⊢
    grind
  have hall : ∀ c < 0x80, Text.isHexDigit c = true → isSafe c = true := by decide +kernel
  exact hall c hlt h

/-- Behind its backslashes an escape that denotes a character has letters and digits only. -/
theorem Spells.isSafe_of_mem (h : Spells s code?) {x : CodePoint} (hx : x ∈ s) (hslash : x ≠ 0x5C) :
    isSafe x = true := by
  have hunit : ∀ m, isUnitMark m = true → isSafe m = true := by
    intro m hm
    rcases isUnitMark_iff.mp hm with rfl | rfl <;> decide
  have hbyte : ∀ m, isByteMark m = true → isSafe m = true := by
    intro m hm
    rcases isByteMark_iff.mp hm with rfl | rfl <;> decide
  cases h with
  | slashes => simp [hslash] at hx
  | pair hm hds _ hm' hds' _ =>
    simp only [List.all_cons, List.all_nil, Bool.and_true, Bool.and_eq_true] at hds hds'
    simp only [List.mem_cons, hslash, List.not_mem_nil, or_false, false_or] at hx
    rcases hx with rfl | rfl | rfl | rfl | rfl | rfl | rfl | rfl | rfl | rfl
    all_goals simp [hunit, isSafe_of_isHexDigit, hm, hm', hds, hds']
  | unit hm hds =>
    simp only [List.all_cons, List.all_nil, Bool.and_true, Bool.and_eq_true] at hds
    simp only [List.mem_cons, hslash, List.not_mem_nil, or_false, false_or] at hx
    rcases hx with rfl | rfl | rfl | rfl | rfl
    all_goals simp [hunit, isSafe_of_isHexDigit, hm, hds]
  | byte hm hds =>
    simp only [List.all_cons, List.all_nil, Bool.and_true, Bool.and_eq_true] at hds
    simp only [List.mem_cons, hslash, List.not_mem_nil, or_false, false_or] at hx
    rcases hx with rfl | rfl | rfl
    all_goals simp [hbyte, isSafe_of_isHexDigit, hm, hds]

/-- What is put in place of an escape brings no risky character, and what it replaces has none but its
backslashes. -/
theorem Scan.filter_written (h : Scan t ss) {x : Segment} (hx : x ∈ ss) :
    x.written.filter isRisky = x.unslashed.filter isRisky := by
  have hrisky : ∀ {c}, isSafe c = true → isRisky c = false := by
    intro c hc
    simpa [isSafe_eq] using hc
  induction h with
  | done => cases hx
  | bare _ _ ih =>
    rcases List.mem_cons.mp hx with rfl | hx
    · rfl
    · exact ih hx
  | kept _ _ _ _ ih =>
    rcases List.mem_cons.mp hx with rfl | hx
    · rfl
    · exact ih hx
  | @put t s r c ss _ htakes hsafe _ ih =>
    rcases List.mem_cons.mp hx with rfl | hx
    · have hwritten : [c].filter isRisky = [] := by simp [hrisky hsafe]
      have hreplaced : (s.filter (· != 0x5C)).filter isRisky = [] := by
        rw [List.filter_eq_nil_iff]
        intro x hx
        simp only [List.mem_filter, bne_iff_ne] at hx
        simp [hrisky (htakes.spells.isSafe_of_mem hx.1 hx.2)]
      exact hwritten.trans hreplaced.symm
    · exact ih hx

/-- **Decoding brings in no delimiter.**  A text is scanned in one way, and decoding writes what the scan
leads to: the characters that delimit something, end a line or are not printable are those of the text
without the backslashes of the escapes that are decoded, in the same order. -/
theorem risky_characters_kept (t : Text) :
    ∃ ss, (∀ ss', Scan t ss' ↔ ss' = ss) ∧ ss.flatMap Segment.text = t ∧ decode t = writing ss ∧
      (decode t).filter isRisky = (ss.flatMap Segment.unslashed).filter isRisky := by
  obtain ⟨ss, hss⟩ := exists_scan t
  refine ⟨ss, fun ss' => ⟨hss.unique, fun h => h ▸ hss⟩, hss.text, hss.decode, ?_⟩
  rw [hss.decode, writing, List.filter_flatMap, List.filter_flatMap, List.flatMap_def, List.flatMap_def]
  exact congrArg List.flatten (List.map_congr_left fun x hx => hss.filter_written hx)

/-- A quote and a backslash stay escaped, a letter loses its backslash. -/
example :
    decode (Text.of "\\x41\\x27\\u005C\\\\x41") = Text.of "A\\x27\\u005C\\\\x41" ∧
      (decode (Text.of "\\x41\\x27\\u005C\\\\x41")).filter isRisky = Text.of "\\\\\\\\" := by
  decide +kernel

/-! ## Decoding a second time -/

/-- A character is put in place of the escape at the head of a text. -/
def Puts (t : Text) : Prop := ∃ s c, Takes t s (some c) ∧ isSafe c = true

/-- Decoding a text completes an escape: something that is copied makes up, with the decoded text behind
it, an escape that would be decoded. -/
def Completes (t : Text) : Prop :=
  ∃ before x after, Scan t (before ++ x :: after) ∧ x.isPut = false ∧ Puts (x.text ++ writing after)

theorem writing_cons (x : Segment) (ss : List Segment) : writing (x :: ss) = x.written ++ writing ss :=
  List.flatMap_cons

/-- No segment is longer in the decoded text. -/
theorem Scan.length_writing_le (h : Scan t ss) : (writing ss).length ≤ t.length := by
  induction h with
  | done => exact Nat.le_refl 0
  | bare _ _ ih =>
    rw [writing_cons, List.length_append]
    exact Nat.add_comm _ 1 ▸ Nat.add_le_add_right ih 1
  | kept ht _ _ _ ih =>
    subst ht
    rw [writing_cons, List.length_append, List.length_append]
    exact Nat.add_le_add_left ih _
  | put ht htakes _ _ ih =>
    subst ht
    obtain ⟨m, s, rfl⟩ := htakes.spells.exists_cons
    simp only [writing_cons, Segment.written, List.length_append, List.length_cons, List.length_nil]
    omega

theorem length_decode_le (t : Text) : (decode t).length ≤ t.length := by
  obtain ⟨ss, hss⟩ := exists_scan t
  rw [hss.decode]
  exact hss.length_writing_le

/-- A text with an escape that is decoded becomes shorter. -/
theorem Puts.length_decode_lt (h : Puts t) : (decode t).length < t.length := by
  obtain ⟨s, c, htakes, hsafe⟩ := h
  obtain ⟨r, rfl⟩ := htakes.head
  have hle := length_decode_le r
  rw [htakes.decode, Option.filter_some_pos hsafe]
  obtain ⟨m, s, rfl⟩ := htakes.spells.exists_cons
  simp only [Option.elim_some, List.length_append, List.length_cons, List.length_nil]
  omega

/-! ### What is copied again -/

/-- Half of a pair on its own is not printable. -/
theorem not_safe_of_half {n : Nat} (h : 0xD800 ≤ n ∧ n ≤ 0xDFFF) : isSafe n = false := by
  have hmem : ((0xD7FC, 0xF8FF) : Nat × Nat) ∈ unprintableRanges := by decide +kernel
  have hlarge : ¬ n < 0x80 := by omega
  have hwithin : 0xD7FC ≤ n ∧ n ≤ 0xF8FF := by omega
  have hprintable : Text.isPrintable n = false := by
    rw [Text.isPrintable, if_neg hlarge, Bool.not_eq_false']
    exact List.any_eq_true.mpr ⟨_, hmem, by simpa using hwithin⟩
  simp [isSafe, hprintable]

/-- Behind the backslash of an escape there is no other one before its digits end. -/
theorem ne_slash_of_mem {m : CodePoint} {ds : Text} (hm : m ≠ 0x5C)
    (hds : ds.all Text.isHexDigit = true) : ∀ x ∈ m :: ds, x ≠ 0x5C := by
  intro x hx
  rcases List.mem_cons.mp hx with rfl | hx
  · exact hm
  · exact ne_slash_of_isHexDigit (List.all_eq_true.mp hds x hx)

/-- The second half of a pair is copied where it stands on its own. -/
theorem decode_lowHalf {m a b c d : CodePoint} (hm : isUnitMark m = true)
    (hds : [a, b, c, d].all Text.isHexDigit = true)
    (hlow : 0xDC00 ≤ Text.hexNumber [a, b, c, d] ∧ Text.hexNumber [a, b, c, d] ≤ 0xDFFF) (r : Text) :
    decode ([0x5C, m, a, b, c, d] ++ r) = [0x5C, m, a, b, c, d] ++ decode r := by
  have hrange : (0xD800 ≤ Text.hexNumber [a, b, c, d] && Text.hexNumber [a, b, c, d] ≤ 0xDBFF) = false := by
    simp only [Bool.and_eq_false_iff, decide_eq_false_iff_not]
    omega
  have hfound : escapeAt? ([0x5C, m, a, b, c, d] ++ r) = some (some (Text.hexNumber [a, b, c, d]), 6) := by
    show escapeAt? (0x5C :: m :: a :: b :: c :: d :: r) = _
    rw [escapeAt?_escape (ne_slash_of_isUnitMark hm), if_pos hm, hex4?_of_all hds, Option.map_some, hrange]
    rfl
  have hsafe : isSafe (Text.hexNumber [a, b, c, d]) = false := not_safe_of_half (by omega)
  rw [(takes_iff.mpr ⟨⟨r, rfl⟩, hfound⟩).decode, Option.filter_some_neg (by simp [hsafe])]
  rfl

/-- Where nothing is put and no backslash is escaped, a backslash is copied and decoding goes on behind it: an
escape that is copied is copied character by character. -/
theorem decode_copied (hputs : ¬ Puts (0x5C :: u)) (hslash : u.head? ≠ some 0x5C) :
    decode (0x5C :: u) = 0x5C :: decode u := by
  cases hfound : escapeAt? (0x5C :: u) with
  | none => exact decode_of_none hfound
  | some e =>
    obtain ⟨code?, w⟩ := e
    obtain ⟨s, ⟨r, hr⟩, hlength, hspells⟩ := spells_of_escapeAt? hfound
    have htakes : Takes (s ++ r) s code? := takes_iff.mpr ⟨⟨r, rfl⟩, by rw [hr, hlength]; exact hfound⟩
    have hnone : code?.filter isSafe = none := by
      rw [filter_isSafe_eq_none]
      intro x hx
      rw [← Bool.not_eq_true]
      exact fun hsafe => hputs ⟨s, x, hr ▸ hx ▸ htakes, hsafe⟩
    have hwhole : decode (0x5C :: u) = s ++ decode r := by
      rw [← hr, htakes.decode, hnone]
      rfl
    cases hspells with
    | slashes => exact absurd (congrArg List.head? (List.cons.inj hr).2).symm hslash
    | @pair m a b c d m' a' b' c' d' hm hds _ hm' hds' hlow =>
      obtain rfl := (List.cons.inj hr).2
      have hplain := ne_slash_of_mem (ne_slash_of_isUnitMark hm) hds
      rw [hwhole]
      calc [0x5C, m, a, b, c, d, 0x5C, m', a', b', c', d'] ++ decode r
        _ = 0x5C :: ([m, a, b, c, d] ++ ([0x5C, m', a', b', c', d'] ++ decode r)) := rfl
        _ = 0x5C :: decode ([m, a, b, c, d] ++ ([0x5C, m', a', b', c', d'] ++ r)) := by
          rw [decode_append hplain, decode_lowHalf hm' hds' hlow]
    | @unit m a b c d hm hds =>
      obtain rfl := (List.cons.inj hr).2
      have hplain := ne_slash_of_mem (ne_slash_of_isUnitMark hm) hds
      rw [hwhole]
      exact congrArg (0x5C :: ·) (decode_append hplain r).symm
    | @byte m a b hm hds =>
      obtain rfl := (List.cons.inj hr).2
      have hplain := ne_slash_of_mem (ne_slash_of_isByteMark hm) hds
      rw [hwhole]
      exact congrArg (0x5C :: ·) (decode_append hplain r).symm

/-- An escape that was copied is copied again, unless something is put. -/
theorem Takes.copied (h : Takes (s ++ r) s code?) (hrisky : ∀ c, code? = some c → isSafe c = false)
    (hputs : ¬ Puts (s ++ u)) : Escapes.decode (s ++ u) = s ++ Escapes.decode u := by
  cases h.spells with
  | slashes => exact decode_slash u
  | pair hm hds hhigh hm' hds' hlow =>
    -- no escape is longer than a pair, whatever stands behind it
    obtain ⟨code?', w, hfound, hle, hsame⟩ := (Spells.pair hm hds hhigh hm' hds' hlow).escapeAt? u
    obtain ⟨s', -, hlength, hspells⟩ := spells_of_escapeAt? hfound
    have hw : w = 12 := by
      refine Nat.le_antisymm ?_ hle
      rw [← hlength]
      cases hspells <;> simp
    subst hw
    rw [hsame rfl] at hfound
    rw [(takes_iff.mpr ⟨⟨u, rfl⟩, hfound⟩).decode, filter_isSafe_eq_none.mpr hrisky]
    rfl
  | @unit m a b c d hm hds =>
    have hm := ne_slash_of_isUnitMark hm
    calc Escapes.decode (0x5C :: ([m, a, b, c, d] ++ u))
      _ = 0x5C :: Escapes.decode ([m, a, b, c, d] ++ u) := decode_copied hputs (by simpa using hm)
      _ = 0x5C :: ([m, a, b, c, d] ++ Escapes.decode u) := by rw [decode_append (ne_slash_of_mem hm hds)]
  | @byte m a b hm hds =>
    have hm := ne_slash_of_isByteMark hm
    calc Escapes.decode (0x5C :: ([m, a, b] ++ u))
      _ = 0x5C :: Escapes.decode ([m, a, b] ++ u) := decode_copied hputs (by simpa using hm)
      _ = 0x5C :: ([m, a, b] ++ Escapes.decode u) := by rw [decode_append (ne_slash_of_mem hm hds)]

/-- Text that does not begin with a backslash is decoded to text that does not. -/
theorem Scan.head?_writing (h : Scan t ss) (hslash : t.head? ≠ some 0x5C) :
    (writing ss).head? ≠ some 0x5C := by
  cases h with
  | done => exact hslash
  | bare _ _ => simpa [writing_cons, Segment.written] using hslash
  | kept ht htakes _ _ =>
    obtain ⟨m, s, rfl⟩ := htakes.spells.exists_cons
    simp [ht] at hslash
  | put ht htakes _ _ =>
    obtain ⟨m, s, rfl⟩ := htakes.spells.exists_cons
    simp [ht] at hslash

/-- A character that was copied because no escape begins there is copied again, unless something is put. -/
theorem Scan.bare_copied (hnone : ∀ s code?, Spells s code? → ¬ s <+: c :: r) (hrest : Scan r ss)
    (hputs : ¬ Puts (c :: writing ss)) :
    Escapes.decode (c :: writing ss) = c :: Escapes.decode (writing ss) := by
  by_cases hc : c = 0x5C
  · subst hc
    refine decode_copied hputs (hrest.head?_writing fun hr => ?_)
    obtain ⟨r, rfl⟩ := List.head?_eq_some_iff.mp hr
    exact hnone _ _ .slashes ⟨r, rfl⟩
  · exact decode_of_none (escapeAt?_of_ne hc _)

/-- Where something is copied, decoding leaves the text alone if it puts nothing there and leaves alone
what is behind it. -/
theorem decode_eq_iff (hcopied : ¬ Puts (s ++ u) → decode (s ++ u) = s ++ decode u) :
    decode (s ++ u) = s ++ u ↔ ¬ Puts (s ++ u) ∧ decode u = u := by
  constructor
  · intro h
    have hputs : ¬ Puts (s ++ u) := fun hputs =>
      Nat.ne_of_lt hputs.length_decode_lt (congrArg List.length h)
    rw [hcopied hputs] at h
    exact ⟨hputs, List.append_cancel_left h⟩
  · rintro ⟨hputs, hu⟩
    rw [hcopied hputs, hu]

/-- At every place of a scan at which nothing is put, nothing is put with the decoded text behind it. -/
def Final (ss : List Segment) : Prop :=
  ∀ x after, x :: after <:+ ss → x.isPut = false → ¬ Puts (x.text ++ writing after)

theorem final_cons (x : Segment) (ss : List Segment) :
    Final (x :: ss) ↔ (x.isPut = false → ¬ Puts (x.text ++ writing ss)) ∧ Final ss := by
  constructor
  · intro h
    exact ⟨h x ss (List.suffix_refl _), fun y after hy => h y after (hy.trans (List.suffix_cons x ss))⟩
  · rintro ⟨hfirst, hrest⟩ y after hy
    rcases List.suffix_cons_iff.mp hy with heq | hy
    · obtain ⟨rfl, rfl⟩ := List.cons.inj heq
      exact hfirst
    · exact hrest y after hy

/-- What the scan leads to is left alone by decoding exactly if the scan is final. -/
theorem Scan.decode_writing_iff (h : Scan t ss) :
    Escapes.decode (writing ss) = writing ss ↔ Final ss := by
  induction h with
  | done =>
    refine ⟨fun _ x after hx => ?_, fun _ => rfl⟩
    cases List.suffix_nil.mp hx
  | @bare c r ss hnone hrest ih =>
    rw [final_cons, ← ih]
    refine (decode_eq_iff (s := [c]) (u := writing ss) (Scan.bare_copied hnone hrest)).trans ?_
    simp [Segment.isPut, Segment.text]
  | @kept t s r code? ss ht htakes hrisky _ ih =>
    subst ht
    rw [final_cons, ← ih]
    refine (decode_eq_iff (u := writing ss) (htakes.copied hrisky)).trans ?_
    simp [Segment.isPut, Segment.text]
  | @put t s r c ss _ _ hsafe _ ih =>
    have hc : c ≠ 0x5C := (safe_plain hsafe).1
    rw [final_cons, ← ih]
    show Escapes.decode (c :: writing ss) = c :: writing ss ↔ _
    rw [decode_of_none (escapeAt?_of_ne hc _)]
    simp [Segment.isPut]

/-- **Decoding a second time.**  It changes nothing exactly if the first time completes no escape: if nowhere
what is copied makes up, with the characters that are put behind it, an escape that would be decoded. -/
theorem decode_decode_eq_iff (t : Text) : decode (decode t) = decode t ↔ ¬ Completes t := by
  obtain ⟨ss, hss⟩ := exists_scan t
  rw [hss.decode, hss.decode_writing_iff]
  constructor
  · rintro hfinal ⟨before, x, after, hscan, hcopied, hputs⟩
    exact hfinal x after ⟨before, hss.unique hscan⟩ hcopied hputs
  · rintro hnone x after ⟨before, rfl⟩ hcopied hputs
    exact hnone ⟨before, x, after, hss, hcopied, hputs⟩

/-- Unfinished escapes are completed by digits that are put behind them, also after a capital letter. -/
example :
    decode (Text.of "\\x4\\x31") = Text.of "\\x41" ∧ decode (Text.of "\\x41") = Text.of "A" ∧
      decode (Text.of "\\X4\\x31") = Text.of "\\X41" ∧ decode (Text.of "\\X41") = Text.of "A" := by
  decide +kernel

end Scans

end Untangle.Escapes
