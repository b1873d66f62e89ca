import Untangle.Proofs.Text.Literal

set_option autoImplicit false

/-!
# Decoding keeps the value of literals

Decoding reads a text without regard to its pieces, and it does not look at what stands before an escape.
It keeps the value of a text under two conditions: no backslash before a capital `U` or `X` is taken for an
escape with digits, and no character that it puts in place of an escape is taken up by an octal escape
before it.  Then the decoded text has the pieces of the text, with the safe escapes replaced by plain
characters and a pair of halves by one character.

The main theorem is `decode_keeps_value`, for string literals and chunks of templates.  The two kinds of
texts that are left out do occur, and lose their value.
-/

namespace Untangle.Escapes

/-! ## Pieces that are replaced -/

namespace Piece

/-- The number of an escape with hexadecimal digits that may be replaced. -/
def code? : Piece → Option CodePoint
  | .byte a b => some (Text.hexNumber [a, b])
  | .unit a b c d => some (Text.hexNumber [a, b, c, d])
  | _ => none

/-- The piece after decoding. -/
def decoded (p : Piece) : Piece :=
  match p.code?.filter isSafe with
  | some c => .plain c
  | none => p

end Piece

/-- The character of two halves. -/
def joined (high low : Nat) : Nat := 0x10000 + (high - 0xD800) * 0x400 + (low - 0xDC00)

/-- The character of two escapes that are the halves of a pair. -/
def pairCode? : Piece → Piece → Option CodePoint
  | .unit a b c d, .unit a' b' c' d' =>
    let high := Text.hexNumber [a, b, c, d]
    let low := Text.hexNumber [a', b', c', d']
    if 0xD800 ≤ high ∧ high ≤ 0xDBFF ∧ 0xDC00 ≤ low ∧ low ≤ 0xDFFF then some (joined high low)
    else none
  | _, _ => none

/-- The pieces after decoding. -/
def decodedPieces : List Piece → List Piece
  | [] => []
  | [p] => [p.decoded]
  | p :: q :: ps =>
    match pairCode? p q with
    | some c => if isSafe c then .plain c :: decodedPieces ps else p :: q :: decodedPieces ps
    | none => p.decoded :: decodedPieces (q :: ps)

/-- The character that decoding puts at the head of a text. -/
def decodedHead? (t : Text) : Option CodePoint := (escapeAt? t).bind fun e => e.1.filter isSafe

/-- Decoding does not harm a piece before a text: a backslash before a single character is not taken for
an escape with digits, and an octal escape does not take up the character that is put behind it. -/
def Piece.isUnharmed (e : Enclosure) (r : Text) : Piece → Bool
  | .single c => c == 0x5C || (escapeAt? (0x5C :: c :: r)).isNone
  | .octal digits => (decodedHead? r).all fun c => !(Piece.octal digits).takesUp e c
  | _ => true

/-- Decoding harms none of some pieces. -/
def isUnharmed (e : Enclosure) : List Piece → Bool
  | [] => true
  | p :: ps => p.isUnharmed e (spell ps) && isUnharmed e ps

/-! ## Safe characters -/

theorem safe_plain {c : CodePoint} (h : isSafe c = true) :
    c ≠ 0x5C ∧ c ≠ 0x24 ∧ c ≠ 0x7B ∧ c ≠ 0x0A ∧ c ≠ 0x0D ∧ ∀ e : Enclosure, c ≠ e.mark := by
  simp only [isSafe, Bool.and_eq_true, Bool.not_eq_true'] at h
  obtain ⟨⟨hdelimiter, hend⟩, -⟩ := h
  have hnot : ∀ d, isDelimiter d = true → c ≠ d := by
    rintro d hd rfl
    cases hdelimiter.symm.trans hd
  have hnotEnd : ∀ d, isTerminator d = true → c ≠ d := by
    rintro d hd rfl
    cases hend.symm.trans hd
  refine ⟨hnot _ (by decide), hnot _ (by decide), hnot _ (by decide), hnotEnd _ (by decide),
    hnotEnd _ (by decide), ?_⟩
  intro e
  cases e with
  | single => exact hnot 0x27 (by decide)
  | double => exact hnot 0x22 (by decide)
  | template => exact hnot 0x60 (by decide)

theorem isLegal_of_safe {c : CodePoint} (h : isSafe c = true) (e : Enclosure) :
    (Piece.plain c).isLegal e = true := by
  obtain ⟨hslash, -, -, hfeed, hreturn, hmark⟩ := safe_plain h
  simp [Piece.isLegal, hslash, hfeed, hreturn, hmark e]

theorem units_of_safe {c : CodePoint} (h : isSafe c = true) (e : Enclosure) :
    (Piece.plain c).units e = utf16 c := by
  obtain ⟨-, -, -, -, hreturn, -⟩ := safe_plain h
  simp [Piece.units, hreturn]

theorem takesUp_of_safe {c : CodePoint} (h : isSafe c = true) (e : Enclosure) (next : CodePoint) :
    (Piece.plain c).takesUp e next = false := by
  obtain ⟨-, hdollar, -, -, hreturn, -⟩ := safe_plain h
  simp [Piece.takesUp, hdollar, hreturn]

/-- A safe character is taken up by octal escapes only. -/
theorem not_takesUp_safe {c : CodePoint} (h : isSafe c = true) {e : Enclosure} {p : Piece}
    (hoctal : ∀ digits, p ≠ .octal digits) : p.takesUp e c = false := by
  obtain ⟨-, -, hbrace, hfeed, -, -⟩ := safe_plain h
  cases p with
  | octal digits => exact absurd rfl (hoctal digits)
  | plain d => simp [Piece.takesUp, hbrace, hfeed]
  | continuation t => simp [Piece.takesUp, hfeed]
  | _ => rfl

/-! ## Numbers of escapes -/

theorem hexValue_lt (c : CodePoint) : (Text.hexValue? c).getD 0 < 16 := by
  unfold Text.hexValue?
  split
  · next h =>
    simp only [Text.isAsciiDigit, Bool.and_eq_true, decide_eq_true_eq] at h
    dsimp only [CodePoint] at h ⊢
    simp only [Option.getD_some]
    omega
  split
  · next h =>
    simp only [Bool.and_eq_true, decide_eq_true_eq] at h
    dsimp only [CodePoint] at h ⊢
    simp only [Option.getD_some]
    omega
  split
  · next h =>
    simp only [Bool.and_eq_true, decide_eq_true_eq] at h
    dsimp only [CodePoint] at h ⊢
    simp only [Option.getD_some]
    omega
  · decide

theorem hexNumber_two_lt (a b : CodePoint) : Text.hexNumber [a, b] < 0x100 := by
  have ha := hexValue_lt a
  have hb := hexValue_lt b
  simp only [Text.hexNumber, List.foldl_cons, List.foldl_nil]
  omega

theorem hexNumber_four_lt (a b c d : CodePoint) : Text.hexNumber [a, b, c, d] < 0x10000 := by
  have ha := hexValue_lt a
  have hb := hexValue_lt b
  have hc := hexValue_lt c
  have hd := hexValue_lt d
  simp only [Text.hexNumber, List.foldl_cons, List.foldl_nil]
  omega

theorem utf16_of_lt {c : Nat} (h : c < 0x10000) : utf16 c = [c] := if_pos h

theorem utf16_joined {high low : Nat} (hhigh : 0xD800 ≤ high ∧ high ≤ 0xDBFF)
    (hlow : 0xDC00 ≤ low ∧ low ≤ 0xDFFF) : utf16 (joined high low) = [high, low] := by
  have hlarge : ¬joined high low < 0x10000 := by
    unfold joined
    omega
  have hfirst : 0xD800 + (joined high low - 0x10000) / 0x400 = high := by
    unfold joined
    omega
  have hsecond : 0xDC00 + (joined high low - 0x10000) % 0x400 = low := by
    unfold joined
    omega
  rw [utf16, if_neg hlarge, hfirst, hsecond]

/-- A piece keeps its value. -/
theorem units_decoded (e : Enclosure) (p : Piece) : p.decoded.units e = p.units e := by
  unfold Piece.decoded
  split
  · next c hc =>
    obtain ⟨hcode, hsafe⟩ := Option.filter_eq_some_iff.mp hc
    rw [units_of_safe hsafe]
    cases p with
    | byte a b =>
      cases hcode
      exact utf16_of_lt (Nat.lt_trans (hexNumber_two_lt a b) (by decide))
    | unit a b c d =>
      cases hcode
      exact utf16_of_lt (hexNumber_four_lt a b c d)
    | _ => cases hcode
  · rfl

theorem pairCode?_eq_some {p q : Piece} {n : CodePoint} (h : pairCode? p q = some n) :
    ∃ a b c d a' b' c' d', p = .unit a b c d ∧ q = .unit a' b' c' d' ∧
      (0xD800 ≤ Text.hexNumber [a, b, c, d] ∧ Text.hexNumber [a, b, c, d] ≤ 0xDBFF) ∧
      (0xDC00 ≤ Text.hexNumber [a', b', c', d'] ∧ Text.hexNumber [a', b', c', d'] ≤ 0xDFFF) ∧
      n = joined (Text.hexNumber [a, b, c, d]) (Text.hexNumber [a', b', c', d']) := by
  unfold pairCode? at h
  split at h
  · simp only at h
    split at h
    · next hhalves =>
      exact ⟨_, _, _, _, _, _, _, _, rfl, rfl, ⟨hhalves.1, hhalves.2.1⟩, hhalves.2.2,
        (Option.some.inj h).symm⟩
    · cases h
  · cases h

/-- A pair of halves has the value of its character. -/
theorem units_pair {p q : Piece} {c : CodePoint} (h : pairCode? p q = some c) (e : Enclosure) :
    utf16 c = p.units e ++ q.units e := by
  obtain ⟨a, b, c', d, a', b', c'', d', rfl, rfl, hhigh, hlow, hc⟩ := pairCode?_eq_some h
  rw [hc, utf16_joined hhigh hlow]
  rfl

theorem value_decodedPieces (e : Enclosure) (ps : List Piece) :
    value e (decodedPieces ps) = value e ps := by
  induction ps using decodedPieces.induct with
  | case1 => rfl
  | case2 p => rw [decodedPieces, value_cons, value_cons, units_decoded]
  | case3 p q ps c hpair hsafe ih =>
    rw [decodedPieces]
    simp only [hpair, hsafe, if_true, value_cons]
    rw [ih, units_of_safe hsafe, units_pair hpair e, List.append_assoc]
  | case4 p q ps c hpair hrisky ih =>
    rw [decodedPieces]
    simp only [hpair, hrisky, if_false, value_cons, Bool.false_eq_true]
    rw [ih]
  | case5 p q ps hnone ih =>
    rw [decodedPieces]
    simp only [hnone]
    rw [value_cons, ih, units_decoded, ← value_cons]

/-! ## Decoding piece by piece -/

theorem decodeGo_zero (keep : Bool) (t : Text) : decodeGo 0 keep t = decode t := by
  cases t <;> rfl

theorem decodeGo_keep (s r : Text) : decodeGo s.length true (s ++ r) = s ++ decode r := by
  induction s with
  | nil => exact decodeGo_zero true r
  | cons c s ih =>
    show c :: decodeGo s.length true (s ++ r) = _
    rw [ih]
    rfl

theorem decodeGo_drop (s r : Text) : decodeGo s.length false (s ++ r) = decode r := by
  induction s with
  | nil => exact decodeGo_zero false r
  | cons c s ih =>
    show decodeGo s.length false (s ++ r) = _
    exact ih

/-- A character where no escape begins is copied. -/
theorem decode_of_none {c : CodePoint} {r : Text} (h : escapeAt? (c :: r) = none) :
    decode (c :: r) = c :: decode r := by
  rw [decode, decodeGo, h]
  exact congrArg (c :: ·) (decodeGo_zero true r)

theorem escapeAt?_of_ne {c : CodePoint} (h : c ≠ 0x5C) (r : Text) : escapeAt? (c :: r) = none := by
  unfold escapeAt?
  split
  · next heq => exact absurd (List.cons.inj heq).1 h
  · next heq => exact absurd (List.cons.inj heq).1 h
  · rfl

/-- Characters other than the backslash are copied. -/
theorem decode_append {s : Text} (hs : ∀ c ∈ s, c ≠ 0x5C) (r : Text) :
    decode (s ++ r) = s ++ decode r := by
  induction s with
  | nil => rfl
  | cons c s ih =>
    have hnone := escapeAt?_of_ne (hs c List.mem_cons_self) (s ++ r)
    rw [List.cons_append, decode_of_none hnone, ih fun d hd => hs d (List.mem_cons_of_mem c hd)]
    rfl

/-- A backslash where no escape with digits begins is copied with what belongs to it. -/
theorem decode_escape {s r : Text} (hnone : escapeAt? (0x5C :: (s ++ r)) = none)
    (hs : ∀ c ∈ s, c ≠ 0x5C) : decode (0x5C :: (s ++ r)) = 0x5C :: (s ++ decode r) := by
  rw [decode_of_none hnone, decode_append hs]

/-- An escape is replaced by its character if that is safe, and copied otherwise. -/
theorem decode_of_some {c : CodePoint} {s r : Text} {code? : Option CodePoint}
    (h : escapeAt? (c :: (s ++ r)) = some (code?, s.length + 1)) :
    decode (c :: (s ++ r)) = ((code?.filter isSafe).elim (c :: s) fun x => [x]) ++ decode r := by
  rw [decode, decodeGo, h]
  simp only [Nat.add_sub_cancel]
  cases code?.filter isSafe with
  | none => exact congrArg (c :: ·) (decodeGo_keep s r)
  | some x => exact congrArg (x :: ·) (decodeGo_drop s r)

/-- A backslash that is escaped is copied with the one before it. -/
theorem decode_slash (r : Text) : decode ([0x5C, 0x5C] ++ r) = [0x5C, 0x5C] ++ decode r :=
  decode_of_some (s := [0x5C]) (show escapeAt? (0x5C :: ([0x5C] ++ r)) = some (none, 2) from rfl)

/-! ### Where escapes with digits begin -/

theorem escapeAt?_escape {m : CodePoint} (hm : m ≠ 0x5C) (r : Text) :
    escapeAt? (0x5C :: m :: r) =
      if isUnitMark m then
        (hex4? r).map fun high =>
          ((if 0xD800 ≤ high && high ≤ 0xDBFF then lowHalf? (r.drop 4) else none).elim
            (some high, 6) fun low => (some (joined high low), 12))
      else if isByteMark m then (hex2? r).map fun code => (some code, 4)
      else none := by
  unfold escapeAt?
  split
  · next heq => exact absurd (List.cons.inj (List.cons.inj heq).2).1 hm
  · next heq =>
    cases heq
    split
    · cases hex4? r with
      | none => rfl
      | some high =>
        simp only [Option.map_some]
        cases (if 0xD800 ≤ high && high ≤ 0xDBFF then lowHalf? (r.drop 4) else none) <;> rfl
    · rfl
  · next hne => exact absurd rfl (hne m r)

theorem escapeAt?_of_unmarked {m : CodePoint} (hm : m ≠ 0x5C) (hunit : isUnitMark m = false)
    (hbyte : isByteMark m = false) (r : Text) : escapeAt? (0x5C :: m :: r) = none := by
  rw [escapeAt?_escape hm, hunit, hbyte]
  rfl

/-- Where no escape with digits begins there is no second half. -/
theorem lowHalf?_of_none {t : Text} (h : escapeAt? t = none) : lowHalf? t = none := by
  unfold lowHalf?
  split
  · next u r =>
    split
    · next hunit =>
      have hu : u ≠ 0x5C := by
        rintro rfl
        cases hunit
      rw [escapeAt?_escape hu, hunit, if_pos rfl, Option.map_eq_none_iff] at h
      rw [h]
      rfl
    · rfl
  · rfl

theorem hex4?_of_legal {e : Enclosure} {a b c d : CodePoint}
    (h : (Piece.unit a b c d).isLegal e = true) (r : Text) :
    hex4? (a :: b :: c :: d :: r) = some (Text.hexNumber [a, b, c, d]) := by
  simp only [Piece.isLegal] at h
  simp only [hex4?, h, if_true]

theorem hex2?_of_legal {e : Enclosure} {a b : CodePoint} (h : (Piece.byte a b).isLegal e = true)
    (r : Text) : hex2? (a :: b :: r) = some (Text.hexNumber [a, b]) := by
  simp only [Piece.isLegal] at h
  simp only [hex2?, h, if_true]

theorem hex4?_brace (t : Text) : hex4? (0x7B :: t) = none := by
  have hbrace : Text.isHexDigit 0x7B = false := by decide
  unfold hex4?
  split
  · next heq =>
    cases heq
    simp [hbrace]
  · rfl

theorem unmarked_of_isOctal {c : CodePoint} (h : isOctal c = true) :
    c ≠ 0x5C ∧ isUnitMark c = false ∧ isByteMark c = false := by
  simp only [isOctal, Bool.and_eq_true, decide_eq_true_eq] at h
  simp only [isUnitMark, isByteMark, Bool.or_eq_false_iff, beq_eq_false_iff_ne]
  dsimp only [CodePoint] at h ⊢
  omega

theorem ne_slash_of_isHexDigit {c : CodePoint} (h : Text.isHexDigit c = true) : c ≠ 0x5C := by
  rintro rfl
  revert h
  decide

theorem all_isOctal {e : Enclosure} {digits : Text} (h : (Piece.octal digits).isLegal e = true) :
    ∀ c ∈ digits, isOctal c = true := by
  cases hban : e.bansOctal with
  | true =>
    simp only [Piece.isLegal, hban, if_true, beq_iff_eq] at h
    subst h
    decide
  | false =>
    simp only [Piece.isLegal, hban, Bool.false_eq_true, if_false, Bool.and_eq_true] at h
    exact List.all_eq_true.mp h.1

/-- The characters of a piece without a number that may be replaced: they are copied, since no escape
with digits begins there. -/
theorem decode_uncoded {e : Enclosure} {p : Piece} {r : Text} (hlegal : p.isLegal e = true)
    (hunharmed : p.isUnharmed e r = true) (hcode : p.code? = none) (hslash : p ≠ .single 0x5C) :
    escapeAt? (p.text ++ r) = none ∧ decode (p.text ++ r) = p.text ++ decode r := by
  cases p with
  | plain c =>
    have hc : c ≠ 0x5C := by
      rintro rfl
      cases hlegal
    exact ⟨escapeAt?_of_ne hc r, decode_append (by simpa [Piece.text] using hc) r⟩
  | lineBreak => exact ⟨rfl, decode_append (by decide) r⟩
  | continuation t =>
    have hends : ∃ m s, t = m :: s ∧ m ≠ 0x5C ∧ isUnitMark m = false ∧ isByteMark m = false ∧
        ∀ c ∈ m :: s, c ≠ 0x5C := by
      simp only [Piece.isLegal, Bool.or_eq_true, beq_iff_eq] at hlegal
      rcases hlegal with (((rfl | rfl) | rfl) | rfl) | rfl <;>
        exact ⟨_, _, rfl, by decide, by decide, by decide, by decide⟩
    obtain ⟨m, s, rfl, hm, hunit, hbyte, hs⟩ := hends
    have hnone := escapeAt?_of_unmarked hm hunit hbyte (s ++ r)
    exact ⟨hnone, decode_escape hnone hs⟩
  | single c =>
    have hc : c ≠ 0x5C := by
      rintro rfl
      exact hslash rfl
    have hnone : escapeAt? (0x5C :: c :: r) = none := by simpa [Piece.isUnharmed, hc] using hunharmed
    exact ⟨hnone, decode_escape (s := [c]) hnone (by simpa using hc)⟩
  | octal digits =>
    have hall := all_isOctal hlegal
    cases digits with
    | nil => cases hban : e.bansOctal <;> simp [Piece.isLegal, hban] at hlegal
    | cons d ds =>
      obtain ⟨hd, hunit, hbyte⟩ := unmarked_of_isOctal (hall d List.mem_cons_self)
      have hnone := escapeAt?_of_unmarked hd hunit hbyte (ds ++ r)
      exact ⟨hnone, decode_escape hnone fun c hc => (unmarked_of_isOctal (hall c hc)).1⟩
  | byte a b => cases hcode
  | unit a b c d => cases hcode
  | braced digits =>
    have hnone : escapeAt? (0x5C :: ((0x75 :: 0x7B :: (digits ++ [0x7D])) ++ r)) = none := by
      rw [List.cons_append, escapeAt?_escape (by decide), List.cons_append, hex4?_brace]
      rfl
    refine ⟨hnone, decode_escape hnone ?_⟩
    simp only [Piece.isLegal, Bool.and_eq_true, List.all_eq_true] at hlegal
    intro c hc
    simp only [List.mem_cons, List.mem_append, List.not_mem_nil, or_false] at hc
    rcases hc with rfl | rfl | hc | rfl
    · decide
    · decide
    · exact ne_slash_of_isHexDigit (hlegal.1.2 c hc)
    · decide

/-- The second half of a pair is an escape of its own. -/
theorem lowHalf?_of_legal {e : Enclosure} {p : Piece} {r : Text} {low : Nat}
    (hlegal : p.isLegal e = true) (hunharmed : p.isUnharmed e r = true)
    (hlow : lowHalf? (p.text ++ r) = some low) :
    ∃ a b c d, p = .unit a b c d ∧ Text.hexNumber [a, b, c, d] = low ∧ 0xDC00 ≤ low ∧ low ≤ 0xDFFF := by
  by_cases hslash : p = .single 0x5C
  · subst hslash
    cases hlow
  · cases hcode : p.code? with
    | none =>
      rw [lowHalf?_of_none (decode_uncoded hlegal hunharmed hcode hslash).1] at hlow
      cases hlow
    | some n =>
      cases p with
      | byte a b => cases hlow
      | unit a b c d =>
        change (hex4? (a :: b :: c :: d :: r)).bind _ = _ at hlow
        rw [hex4?_of_legal hlegal r, Option.bind_some] at hlow
        split at hlow
        · next hrange =>
          cases hlow
          simp only [Bool.and_eq_true, decide_eq_true_eq] at hrange
          exact ⟨a, b, c, d, rfl, rfl, hrange⟩
        · cases hlow
      | _ => cases hcode

/-- A unit and what is behind it form a pair. -/
def isPaired (p : Piece) (r : Text) : Prop :=
  ∃ a b c d low, p = .unit a b c d ∧ 0xD800 ≤ Text.hexNumber [a, b, c, d] ∧
    Text.hexNumber [a, b, c, d] ≤ 0xDBFF ∧ lowHalf? r = some low

theorem text_decoded (p : Piece) :
    p.decoded.text = (p.code?.filter isSafe).elim p.text fun c => [c] := by
  unfold Piece.decoded
  cases p.code?.filter isSafe <;> rfl

/-- A piece that forms no pair with what is behind it is decoded by itself. -/
theorem decode_piece {e : Enclosure} {p : Piece} {r : Text} (hlegal : p.isLegal e = true)
    (hunharmed : p.isUnharmed e r = true) (halone : ¬isPaired p r) :
    decode (p.text ++ r) = p.decoded.text ++ decode r ∧
      (p ≠ .single 0x5C → decodedHead? (p.text ++ r) = p.code?.filter isSafe) := by
  by_cases hslash : p = .single 0x5C
  · subst hslash
    exact ⟨decode_slash r, fun h => absurd rfl h⟩
  rw [text_decoded]
  cases hcode : p.code? with
  | none =>
    obtain ⟨hnone, hdecode⟩ := decode_uncoded hlegal hunharmed hcode hslash
    refine ⟨hdecode, fun _ => ?_⟩
    rw [decodedHead?, hnone]
    rfl
  | some n =>
    cases p with
    | byte a b =>
      cases hcode
      have hescape : escapeAt? (0x5C :: ([0x78, a, b] ++ r)) =
          some (some (Text.hexNumber [a, b]), [0x78, a, b].length + 1) := by
        show (hex2? (a :: b :: r)).map _ = _
        rw [hex2?_of_legal hlegal]
        rfl
      refine ⟨decode_of_some hescape, fun _ => ?_⟩
      show (escapeAt? (0x5C :: ([0x78, a, b] ++ r))).bind _ = _
      rw [hescape]
      rfl
    | unit a b c d =>
      cases hcode
      have hhalf : (if 0xD800 ≤ Text.hexNumber [a, b, c, d] && Text.hexNumber [a, b, c, d] ≤ 0xDBFF
          then lowHalf? r else none) = none := by
        split
        · next hhigh =>
          simp only [Bool.and_eq_true, decide_eq_true_eq] at hhigh
          cases hlow : lowHalf? r with
          | none => rfl
          | some low => exact absurd ⟨a, b, c, d, low, rfl, hhigh.1, hhigh.2, hlow⟩ halone
        · rfl
      have hescape : escapeAt? (0x5C :: ([0x75, a, b, c, d] ++ r)) =
          some (some (Text.hexNumber [a, b, c, d]), [0x75, a, b, c, d].length + 1) := by
        rw [List.cons_append, escapeAt?_escape (by decide)]
        show (hex4? (a :: b :: c :: d :: r)).map _ = _
        rw [hex4?_of_legal hlegal, Option.map_some]
        show some (Option.elim (ite _ (lowHalf? r) none) _ _) = _
        rw [hhalf]
        rfl
      refine ⟨decode_of_some hescape, fun _ => ?_⟩
      show (escapeAt? (0x5C :: ([0x75, a, b, c, d] ++ r))).bind _ = _
      rw [hescape]
      rfl
    | _ => cases hcode

/-- Two escapes that form a pair are decoded together. -/
theorem decode_pair {e : Enclosure} {p q : Piece} {r : Text} {n : CodePoint}
    (hlegal : p.isLegal e = true) (hlegal' : q.isLegal e = true) (hpair : pairCode? p q = some n) :
    decode (p.text ++ (q.text ++ r)) =
      ((some n).filter isSafe).elim (p.text ++ q.text) (fun c => [c]) ++ decode r ∧
      decodedHead? (p.text ++ (q.text ++ r)) = (some n).filter isSafe := by
  obtain ⟨a, b, c, d, a', b', c', d', rfl, rfl, hhigh, hlow, hn⟩ := pairCode?_eq_some hpair
  have hhalf : lowHalf? (0x5C :: 0x75 :: a' :: b' :: c' :: d' :: r) =
      some (Text.hexNumber [a', b', c', d']) := by
    show (hex4? (a' :: b' :: c' :: d' :: r)).bind _ = _
    rw [hex4?_of_legal hlegal', Option.bind_some, if_pos (by simpa using hlow)]
  have hescape : escapeAt?
      (0x5C :: ([0x75, a, b, c, d, 0x5C, 0x75, a', b', c', d'] ++ r)) =
      some (some n, [0x75, a, b, c, d, 0x5C, 0x75, a', b', c', d'].length + 1) := by
    rw [List.cons_append, escapeAt?_escape (by decide), hn]
    show (hex4? (a :: b :: c :: d :: _)).map _ = _
    rw [hex4?_of_legal hlegal, Option.map_some, if_pos (by simpa using hhigh)]
    show some (Option.elim (lowHalf? (0x5C :: 0x75 :: a' :: b' :: c' :: d' :: r)) _ _) = _
    rw [hhalf]
    rfl
  refine ⟨decode_of_some hescape, ?_⟩
  show (escapeAt? (0x5C :: ([0x75, a, b, c, d, 0x5C, 0x75, a', b', c', d'] ++ r))).bind _ = _
  rw [hescape]
  rfl

/-! ## The decoded text -/

section

variable {e : Enclosure} {p q : Piece} {ps : List Piece}

theorem isUnharmed_cons :
    isUnharmed e (p :: ps) = true ↔ p.isUnharmed e (spell ps) = true ∧ isUnharmed e ps = true := by
  rw [isUnharmed, Bool.and_eq_true]

theorem not_isPaired_nil : ¬isPaired p (spell []) := by
  rintro ⟨_, _, _, _, _, -, -, -, hlow⟩
  cases hlow

theorem not_isPaired_cons (hlegal : q.isLegal e = true) (hunharmed : q.isUnharmed e (spell ps) = true)
    (hnone : pairCode? p q = none) : ¬isPaired p (spell (q :: ps)) := by
  rintro ⟨a, b, c, d, low, rfl, hfirst, hlast, hlow⟩
  rw [spell_cons] at hlow
  obtain ⟨a', b', c', d', rfl, rfl, hrange⟩ := lowHalf?_of_legal hlegal hunharmed hlow
  simp [pairCode?, hfirst, hlast, hrange] at hnone

theorem text_pair {n : CodePoint} (hrisky : ¬isSafe n = true) :
    ((some n).filter isSafe).elim (p.text ++ q.text) (fun c => [c]) = p.text ++ q.text := by
  rw [Option.filter_some_neg (Bool.eq_false_iff.mpr hrisky)]
  rfl

/-- The decoded text is the text of the decoded pieces. -/
theorem decode_spell (hvalid : isValid e ps = true) (hunharmed : isUnharmed e ps = true) :
    decode (spell ps) = spell (decodedPieces ps) := by
  induction ps using decodedPieces.induct with
  | case1 => rfl
  | case2 p =>
    obtain ⟨hlegal, -, -⟩ := isValid_cons.mp hvalid
    rw [decodedPieces, spell_cons, spell_cons,
      (decode_piece hlegal (isUnharmed_cons.mp hunharmed).1 not_isPaired_nil).1]
    rfl
  | case3 p q ps c hpair hsafe ih =>
    obtain ⟨hlegal, -, hrest⟩ := isValid_cons.mp hvalid
    obtain ⟨hlegal', -, hrest⟩ := isValid_cons.mp hrest
    have hunharmed' := (isUnharmed_cons.mp (isUnharmed_cons.mp hunharmed).2).2
    rw [spell_cons, spell_cons, (decode_pair hlegal hlegal' hpair).1, Option.filter_some_pos hsafe,
      ih hrest hunharmed', decodedPieces]
    simp only [hpair, hsafe, if_true, spell_cons]
    rfl
  | case4 p q ps c hpair hrisky ih =>
    obtain ⟨hlegal, -, hrest⟩ := isValid_cons.mp hvalid
    obtain ⟨hlegal', -, hrest⟩ := isValid_cons.mp hrest
    have hunharmed' := (isUnharmed_cons.mp (isUnharmed_cons.mp hunharmed).2).2
    rw [spell_cons, spell_cons, (decode_pair hlegal hlegal' hpair).1, text_pair hrisky,
      ih hrest hunharmed', decodedPieces]
    simp only [hpair, hrisky, if_false, spell_cons, List.append_assoc, Bool.false_eq_true]
  | case5 p q ps hnone ih =>
    obtain ⟨hlegal, -, hrest⟩ := isValid_cons.mp hvalid
    obtain ⟨hfirst, hunharmed'⟩ := isUnharmed_cons.mp hunharmed
    have halone := not_isPaired_cons (isValid_cons.mp hrest).1 (isUnharmed_cons.mp hunharmed').1 hnone
    rw [spell_cons p, (decode_piece hlegal hfirst halone).1, ih hrest hunharmed', decodedPieces]
    simp only [hnone, spell_cons]

theorem head?_text (p : Piece) (r : Text) : (p.text ++ r).head? = p.text.head? := by
  cases p <;> rfl

/-- The decoded text begins as the text does, or with the character that is put there. -/
theorem head?_decodedPieces (hvalid : isValid e ps = true) (hunharmed : isUnharmed e ps = true)
    {c : CodePoint} (hc : (spell (decodedPieces ps)).head? = some c) :
    (spell ps).head? = some c ∨ decodedHead? (spell ps) = some c := by
  have hone : ∀ {p : Piece} {ps qs : List Piece}, p.isLegal e = true → p.isUnharmed e (spell ps) = true →
      ¬isPaired p (spell ps) → (spell (p.decoded :: qs)).head? = some c →
      (spell (p :: ps)).head? = some c ∨ decodedHead? (spell (p :: ps)) = some c := by
    intro p ps qs hlegal hunharmed halone hc
    rw [spell_cons, head?_text, text_decoded] at hc
    rw [spell_cons, head?_text]
    by_cases hslash : p = .single 0x5C
    · subst hslash
      exact .inl hc
    rw [(decode_piece hlegal hunharmed halone).2 hslash]
    cases hcode : p.code?.filter isSafe with
    | none =>
      rw [hcode] at hc
      exact .inl hc
    | some n =>
      rw [hcode] at hc
      exact .inr hc
  cases ps with
  | nil => cases hc
  | cons p ps =>
    obtain ⟨hlegal, -, hrest⟩ := isValid_cons.mp hvalid
    obtain ⟨hfirst, hunharmed'⟩ := isUnharmed_cons.mp hunharmed
    cases ps with
    | nil =>
      rw [decodedPieces] at hc
      exact hone hlegal hfirst not_isPaired_nil hc
    | cons q ps =>
      rw [decodedPieces] at hc
      obtain ⟨hlegal', -, -⟩ := isValid_cons.mp hrest
      cases hpair : pairCode? p q with
      | none =>
        simp only [hpair] at hc
        exact hone hlegal hfirst
          (not_isPaired_cons hlegal' (isUnharmed_cons.mp hunharmed').1 hpair) hc
      | some n =>
        simp only [hpair] at hc
        by_cases hsafe : isSafe n = true
        · rw [if_pos hsafe] at hc
          rw [spell_cons, spell_cons, (decode_pair hlegal hlegal' hpair).2,
            Option.filter_some_pos hsafe]
          exact .inr hc
        · rw [if_neg hsafe, spell_cons, head?_text] at hc
          rw [spell_cons, head?_text]
          exact .inl hc

theorem isLegal_decoded (hlegal : p.isLegal e = true) : p.decoded.isLegal e = true := by
  unfold Piece.decoded
  split
  · next c hc => exact isLegal_of_safe (Option.filter_eq_some_iff.mp hc).2 e
  · exact hlegal

theorem takesUp_decoded {c : CodePoint} (h : p.takesUp e c = false) : p.decoded.takesUp e c = false := by
  unfold Piece.decoded
  split
  · next n hn => exact takesUp_of_safe (Option.filter_eq_some_iff.mp hn).2 e c
  · exact h

/-- The character that is put behind a piece is not taken up by it. -/
theorem not_takesUp_decodedHead {r : Text} (hunharmed : p.isUnharmed e r = true) {c : CodePoint}
    (hc : decodedHead? r = some c) : p.takesUp e c = false := by
  obtain ⟨⟨code?, width⟩, -, hcode⟩ := Option.bind_eq_some_iff.mp hc
  have hsafe := (Option.filter_eq_some_iff.mp hcode).2
  by_cases hoctal : ∃ digits, p = .octal digits
  · obtain ⟨digits, rfl⟩ := hoctal
    simp only [Piece.isUnharmed, hc, Option.all_some, Bool.not_eq_true'] at hunharmed
    exact hunharmed
  · exact not_takesUp_safe hsafe fun digits h => hoctal ⟨digits, h⟩

theorem takesUp_pair {n : CodePoint} (hpair : pairCode? p q = some n) (c : CodePoint) :
    p.takesUp e c = false ∧ q.takesUp e c = false := by
  obtain ⟨_, _, _, _, _, _, _, _, rfl, rfl, -⟩ := pairCode?_eq_some hpair
  exact ⟨rfl, rfl⟩

/-- The decoded pieces make up a text. -/
theorem isValid_decodedPieces (hvalid : isValid e ps = true) (hunharmed : isUnharmed e ps = true) :
    isValid e (decodedPieces ps) = true := by
  induction ps using decodedPieces.induct with
  | case1 => rfl
  | case2 p =>
    refine isValid_cons.mpr ⟨isLegal_decoded (isValid_cons.mp hvalid).1, ?_, rfl⟩
    intro c hc
    cases hc
  | case3 p q ps c hpair hsafe ih =>
    have hrest := (isValid_cons.mp (isValid_cons.mp hvalid).2.2).2.2
    have hunharmed' := (isUnharmed_cons.mp (isUnharmed_cons.mp hunharmed).2).2
    rw [decodedPieces]
    simp only [hpair, hsafe, if_true]
    exact isValid_cons.mpr ⟨isLegal_of_safe hsafe e, fun x _ => takesUp_of_safe hsafe e x,
      ih hrest hunharmed'⟩
  | case4 p q ps c hpair hrisky ih =>
    obtain ⟨hlegal, -, hrest⟩ := isValid_cons.mp hvalid
    obtain ⟨hlegal', -, hrest⟩ := isValid_cons.mp hrest
    have hunharmed' := (isUnharmed_cons.mp (isUnharmed_cons.mp hunharmed).2).2
    rw [decodedPieces]
    simp only [hpair, hrisky, if_false, Bool.false_eq_true]
    refine isValid_cons.mpr ⟨hlegal, fun x _ => (takesUp_pair hpair x).1, ?_⟩
    exact isValid_cons.mpr ⟨hlegal', fun x _ => (takesUp_pair hpair x).2, ih hrest hunharmed'⟩
  | case5 p q ps hnone ih =>
    obtain ⟨hlegal, hfits, hrest⟩ := isValid_cons.mp hvalid
    obtain ⟨hfirst, hunharmed'⟩ := isUnharmed_cons.mp hunharmed
    rw [decodedPieces]
    simp only [hnone]
    refine isValid_cons.mpr ⟨isLegal_decoded hlegal, fun c hc => takesUp_decoded ?_,
      ih hrest hunharmed'⟩
    rcases head?_decodedPieces hrest hunharmed' hc with hsame | hput
    · exact hfits c hsame
    · exact not_takesUp_decodedHead hfirst hput

/-- A text whose pieces decoding does not harm keeps its value: the decoded text may stand in the same
quotes, and it has the value of the text and no other. -/
theorem decode_keeps_value (hvalid : isValid e ps = true) (hunharmed : isUnharmed e ps = true) :
    Denotes e (spell ps) (value e ps) ∧
      ∀ us, Denotes e (decode (spell ps)) us ↔ us = value e ps := by
  have hdecoded : Denotes e (decode (spell ps)) (value e ps) :=
    ⟨decodedPieces ps, isValid_decodedPieces hvalid hunharmed, (decode_spell hvalid hunharmed).symm,
      value_decodedPieces e ps⟩
  refine ⟨⟨ps, hvalid, rfl, rfl⟩, fun us => ⟨fun h => h.unique hdecoded, ?_⟩⟩
  rintro rfl
  exact hdecoded

end

/-- The pieces of `\x41\uD83D\uDE00\0\u0042`. -/
def letterPieces : List Piece :=
  [.byte 0x34 0x31, .unit 0x44 0x38 0x33 0x44, .unit 0x44 0x45 0x30 0x30, .octal [0x30],
   .unit 0x30 0x30 0x34 0x32]

/-- A letter, a pair of halves, and a letter behind `\0`. -/
theorem letters_decoded :
    isValid .template letterPieces = true ∧ isUnharmed .template letterPieces = true ∧
      Denotes .template (spell letterPieces) [0x41, 0xD83D, 0xDE00, 0, 0x42] ∧
      ∀ us, Denotes .template (decode (spell letterPieces)) us ↔
        us = [0x41, 0xD83D, 0xDE00, 0, 0x42] := by
  have hvalid : isValid .template letterPieces = true := by decide
  have hunharmed : isUnharmed .template letterPieces = true := by decide +kernel
  exact ⟨hvalid, hunharmed, decode_keeps_value hvalid hunharmed⟩

/-- Both conditions are needed: a digit becomes part of the octal escape before it, and a capital letter
after a backslash, which stands for itself, is taken for the mark of an escape. -/
example :
    decode (Text.of "\\0\\x31") = Text.of "\\01" ∧
      isValid (.single false) [.octal [0x30], .byte 0x33 0x31] = true ∧
      value (.single false) [.octal [0x30], .byte 0x33 0x31] = [0, 0x31] ∧
      isValid (.single false) [.octal [0x30, 0x31]] = true ∧
      value (.single false) [.octal [0x30, 0x31]] = [1] ∧
      decode (Text.of "\\X41") = Text.of "A" ∧
      value (.single false) [.single 0x58, .plain 0x34, .plain 0x31] = Text.of "X41" := by
  decide +kernel

end Untangle.Escapes
