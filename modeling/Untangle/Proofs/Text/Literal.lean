import Untangle.Text.Escapes

set_option autoImplicit false

/-!
# The insides of string literals and templates

What may stand between the quotes of a string literal, or in a chunk of a template, is given by its pieces:
plain characters, line ends and escapes.  Each piece has a value in UTF-16 units, and some pieces may not
have certain characters behind them, which would belong to them.  A text is read into pieces in one way at
most, so that it has one value.
-/

namespace Untangle.Escapes

/-! ## Pieces -/

/-- What a text is enclosed in.  String literals of strict code have no octal escapes. -/
inductive Enclosure where
  | single (strict : Bool)
  | double (strict : Bool)
  | template
  deriving DecidableEq

namespace Enclosure

/-- The character that ends the text. -/
def mark : Enclosure → CodePoint
  | .single _ => 0x27
  | .double _ => 0x22
  | .template => 0x60

def isTemplate : Enclosure → Bool
  | .template => true
  | _ => false

/-- Whether `\0` is the only escape that begins with a digit. -/
def bansOctal : Enclosure → Bool
  | .single strict | .double strict => strict
  | .template => true

end Enclosure

/-- A digit below eight. -/
def isOctal (c : CodePoint) : Bool := 0x30 ≤ c && c ≤ 0x37

/-- The UTF-16 units of a character. -/
def utf16 (c : CodePoint) : List Nat :=
  if c < 0x10000 then [c]
  else [0xD800 + (c - 0x10000) / 0x400, 0xDC00 + (c - 0x10000) % 0x400]

/-- The character that a letter stands for after a backslash. -/
def control? : CodePoint → Option CodePoint
  | 0x62 => some 0x08
  | 0x74 => some 0x09
  | 0x6E => some 0x0A
  | 0x76 => some 0x0B
  | 0x66 => some 0x0C
  | 0x72 => some 0x0D
  | _ => none

/-- The pieces of a text. -/
inductive Piece where
  | plain (c : CodePoint)
  /-- A carriage return and a line feed. -/
  | lineBreak
  /-- A backslash before the end of a line. -/
  | continuation (lineEnd : Text)
  /-- A backslash before a character that needs no digits. -/
  | single (c : CodePoint)
  /-- A backslash before up to three octal digits; `\0` is one of these. -/
  | octal (digits : Text)
  | byte (a b : CodePoint)
  | unit (a b c d : CodePoint)
  /-- A number in braces. -/
  | braced (digits : Text)
  deriving DecidableEq

namespace Piece

/-- The characters of a piece. -/
def text : Piece → Text
  | .plain c => [c]
  | .lineBreak => [0x0D, 0x0A]
  | .continuation lineEnd => 0x5C :: lineEnd
  | .single c => [0x5C, c]
  | .octal digits => 0x5C :: digits
  | .byte a b => [0x5C, 0x78, a, b]
  | .unit a b c d => [0x5C, 0x75, a, b, c, d]
  | .braced digits => 0x5C :: 0x75 :: 0x7B :: (digits ++ [0x7D])

/-- The UTF-16 units that a piece stands for.  In a template all line ends are line feeds. -/
def units (e : Enclosure) : Piece → List Nat
  | .plain c => if e.isTemplate && c == 0x0D then [0x0A] else utf16 c
  | .lineBreak => [0x0A]
  | .continuation _ => []
  | .single c => utf16 ((control? c).getD c)
  | .octal digits => [digits.foldl (fun n c => 8 * n + (c - 0x30)) 0]
  | .byte a b => [Text.hexNumber [a, b]]
  | .unit a b c d => [Text.hexNumber [a, b, c, d]]
  | .braced digits => utf16 (Text.hexNumber digits)

/-- Whether an octal escape may go on after some digits. -/
def isOpenOctal : Text → Bool
  | [_] => true
  | [d, _] => d ≤ 0x33
  | _ => false

/-- Whether a piece may stand in a text. -/
def isLegal (e : Enclosure) : Piece → Bool
  | .plain c => c != 0x5C && c != e.mark && (e.isTemplate || (c != 0x0A && c != 0x0D))
  | .lineBreak => e.isTemplate
  | .continuation lineEnd =>
    lineEnd == [0x0A] || lineEnd == [0x0D] || lineEnd == [0x0D, 0x0A] || lineEnd == [0x2028] ||
      lineEnd == [0x2029]
  | .single c =>
    !isTerminator c && c != 0x75 && c != 0x78 && !isOctal c && !(e.bansOctal && Text.isAsciiDigit c)
  | .octal digits =>
    if e.bansOctal then digits == [0x30]
    else digits.all isOctal &&
      match digits with
      | [_] | [_, _] => true
      | [d, _, _] => d ≤ 0x33
      | _ => false
  | .byte a b => Text.isHexDigit a && Text.isHexDigit b
  | .unit a b c d => Text.isHexDigit a && Text.isHexDigit b && Text.isHexDigit c && Text.isHexDigit d
  | .braced digits =>
    !digits.isEmpty && digits.all Text.isHexDigit && Text.hexNumber digits ≤ 0x10FFFF

/-- Whether a character would belong to a piece that it stands behind. -/
def takesUp (e : Enclosure) (next : CodePoint) : Piece → Bool
  | .plain c => e.isTemplate && ((c == 0x24 && next == 0x7B) || (c == 0x0D && next == 0x0A))
  | .continuation lineEnd => lineEnd == [0x0D] && next == 0x0A
  | .octal digits =>
    if e.bansOctal then Text.isAsciiDigit next else isOpenOctal digits && isOctal next
  | _ => false

end Piece

/-- The text of some pieces. -/
def spell (ps : List Piece) : Text := ps.flatMap Piece.text

/-- The UTF-16 units of some pieces. -/
def value (e : Enclosure) (ps : List Piece) : List Nat := ps.flatMap (Piece.units e)

/-- Whether pieces make up a text: each of them may stand there, and none takes up what is behind it. -/
def isValid (e : Enclosure) : List Piece → Bool
  | [] => true
  | p :: ps => p.isLegal e && (spell ps).head?.all (fun c => !p.takesUp e c) && isValid e ps

/-- A valid text has a value. -/
def Denotes (e : Enclosure) (t : Text) (us : List Nat) : Prop :=
  ∃ ps, isValid e ps = true ∧ spell ps = t ∧ value e ps = us

@[simp]
theorem spell_cons (p : Piece) (ps : List Piece) : spell (p :: ps) = p.text ++ spell ps :=
  List.flatMap_cons

@[simp]
theorem value_cons (e : Enclosure) (p : Piece) (ps : List Piece) :
    value e (p :: ps) = p.units e ++ value e ps :=
  List.flatMap_cons

theorem isValid_cons {e : Enclosure} {p : Piece} {ps : List Piece} :
    isValid e (p :: ps) = true ↔
      p.isLegal e = true ∧ (∀ c, (spell ps).head? = some c → p.takesUp e c = false) ∧
        isValid e ps = true := by
  rw [isValid, Bool.and_eq_true, Bool.and_eq_true, and_assoc]
  cases (spell ps).head? <;> simp

/-! ## One reading -/

/-- The octal digits that an escape takes after its first one. -/
def octalDigits (first : CodePoint) : Text → Text
  | b :: c :: _ => if isOctal b then (if first ≤ 0x33 && isOctal c then [b, c] else [b]) else []
  | [b] => if isOctal b then [b] else []
  | [] => []

/-- The escape that a letter begins, after its backslash. -/
def escapeOf (e : Enclosure) (m : CodePoint) (r : Text) : Option Piece :=
  if m == 0x0D && r.head? == some 0x0A then some (.continuation [m, 0x0A])
  else if isTerminator m then some (.continuation [m])
  else if m == 0x78 then
    match r with
    | a :: b :: _ => some (.byte a b)
    | _ => none
  else if m == 0x75 then
    match r with
    | 0x7B :: r => some (.braced (r.takeWhile Text.isHexDigit))
    | a :: b :: c :: d :: _ => some (.unit a b c d)
    | _ => none
  else if isOctal m then some (.octal (if e.bansOctal then [m] else m :: octalDigits m r))
  else some (.single m)

/-- The piece that a text begins with. -/
def pieceAt (e : Enclosure) : Text → Option Piece
  | [] => none
  | c :: r =>
    if c == 0x5C then
      match r with
      | [] => none
      | m :: r => escapeOf e m r
    else if e.isTemplate && c == 0x0D && r.head? == some 0x0A then some .lineBreak
    else some (.plain c)

section

variable {e : Enclosure} {r : Text}

theorem pieceAt_plain {c : CodePoint} (hlegal : (Piece.plain c).isLegal e = true)
    (hfits : ∀ x, r.head? = some x → (Piece.plain c).takesUp e x = false) :
    pieceAt e (c :: r) = some (.plain c) := by
  have hslash : c ≠ 0x5C := by
    intro h
    simp [Piece.isLegal, h] at hlegal
  have hbreak : (e.isTemplate && c == 0x0D && r.head? == some 0x0A) = false := by
    rw [Bool.eq_false_iff]
    intro h
    simp only [Bool.and_eq_true, beq_iff_eq] at h
    have hnone := hfits _ h.2
    simp [Piece.takesUp, h.1.1, h.1.2] at hnone
  simp [pieceAt, hslash, hbreak]

theorem pieceAt_continuation {t : Text} (hlegal : (Piece.continuation t).isLegal e = true)
    (hfits : ∀ x, r.head? = some x → (Piece.continuation t).takesUp e x = false) :
    pieceAt e (0x5C :: (t ++ r)) = some (.continuation t) := by
  simp only [Piece.isLegal, Bool.or_eq_true, beq_iff_eq] at hlegal
  rcases hlegal with (((rfl | rfl) | rfl) | rfl) | rfl
  · rfl
  · have hhead : (r.head? == some 0x0A) = false := by
      rw [beq_eq_false_iff_ne]
      intro h
      have := hfits _ h
      simp [Piece.takesUp] at this
    show escapeOf e 0x0D r = _
    simp [escapeOf, hhead, isTerminator]
  · rfl
  · rfl
  · rfl

theorem escapeOf_single {c : CodePoint} (hlegal : (Piece.single c).isLegal e = true) :
    escapeOf e c r = some (.single c) := by
  simp only [Piece.isLegal, Bool.and_eq_true, Bool.not_eq_true', bne_iff_ne] at hlegal
  obtain ⟨⟨⟨⟨hend, hu⟩, hx⟩, hoctal⟩, -⟩ := hlegal
  have hreturn : c ≠ 0x0D := by
    rintro rfl
    cases hend
  simp [escapeOf, hend, hu, hx, hoctal, hreturn]

theorem not_escape_of_isOctal {c : CodePoint} (h : isOctal c = true) :
    c ≠ 0x0D ∧ isTerminator c = false ∧ c ≠ 0x78 ∧ c ≠ 0x75 := by
  simp only [isOctal, Bool.and_eq_true, decide_eq_true_eq] at h
  simp only [isTerminator, Bool.or_eq_false_iff, beq_eq_false_iff_ne]
  dsimp only [CodePoint] at h ⊢
  omega

theorem escapeOf_octal {c : CodePoint} (h : isOctal c = true) :
    escapeOf e c r = some (.octal (if e.bansOctal then [c] else c :: octalDigits c r)) := by
  obtain ⟨hreturn, hend, hx, hu⟩ := not_escape_of_isOctal h
  simp [escapeOf, h, hend, hu, hx, hreturn]

theorem octalDigits_append {d : CodePoint} {ds : Text}
    (hlegal : (Piece.octal (d :: ds)).isLegal e = true) (hsloppy : e.bansOctal = false)
    (hfits : ∀ x, r.head? = some x → (Piece.octal (d :: ds)).takesUp e x = false) :
    octalDigits d (ds ++ r) = ds := by
  simp only [Piece.isLegal, hsloppy, Bool.false_eq_true, if_false, Bool.and_eq_true] at hlegal
  simp only [Piece.takesUp, hsloppy, Bool.false_eq_true, if_false, Bool.and_eq_false_iff] at hfits
  obtain ⟨hall, hshape⟩ := hlegal
  -- An escape may have one digit, two or three; what is behind it matters for the first two.
  rcases ds with _ | ⟨x, _ | ⟨y, _ | ⟨z, zs⟩⟩⟩
  · cases r with
    | nil => rfl
    | cons b r =>
      have hb : isOctal b = false := by simpa [Piece.isOpenOctal] using hfits b rfl
      cases r <;> simp [octalDigits, hb]
  · have hx : isOctal x = true := by simpa using (List.all_eq_true.mp hall) x (by simp)
    cases r with
    | nil => simp [octalDigits, hx]
    | cons b r =>
      have hb : 0x33 < d ∨ isOctal b = false := by simpa [Piece.isOpenOctal] using hfits b rfl
      rcases hb with hd | hb
      · simp [octalDigits, hx, Nat.not_le.mpr hd]
      · simp [octalDigits, hx, hb]
  · have hx : isOctal x = true := (List.all_eq_true.mp hall) x (by simp)
    have hy : isOctal y = true := (List.all_eq_true.mp hall) y (by simp)
    have hd : d ≤ 0x33 := by simpa using hshape
    simp [octalDigits, hx, hy, hd]
  · cases hshape

theorem escapeOf_braced {digits : Text} (hlegal : (Piece.braced digits).isLegal e = true) :
    escapeOf e 0x75 (0x7B :: (digits ++ [0x7D]) ++ r) = some (.braced digits) := by
  simp only [Piece.isLegal, Bool.and_eq_true] at hlegal
  have hdigits : (digits ++ [0x7D] ++ r).takeWhile Text.isHexDigit = digits := by
    rw [List.append_assoc, List.takeWhile_append_of_pos (by simpa using hlegal.1.2)]
    have hbrace : Text.isHexDigit 0x7D = false := by decide
    simp [hbrace]
  show some (Piece.braced ((digits ++ [0x7D] ++ r).takeWhile Text.isHexDigit)) = _
  rw [hdigits]

theorem escapeOf_unit {a b c d : CodePoint} (hlegal : (Piece.unit a b c d).isLegal e = true) :
    escapeOf e 0x75 (a :: b :: c :: d :: r) = some (.unit a b c d) := by
  have hbrace : a ≠ 0x7B := by
    rintro rfl
    simp only [Piece.isLegal, Bool.and_eq_true] at hlegal
    have := hlegal.1.1.1
    revert this
    decide
  simp [escapeOf, isTerminator]

/-- A piece that fits to what is behind it is the one that the text begins with. -/
theorem pieceAt_text {p : Piece} (hlegal : p.isLegal e = true)
    (hfits : ∀ x, r.head? = some x → p.takesUp e x = false) : pieceAt e (p.text ++ r) = some p := by
  cases p with
  | plain c => exact pieceAt_plain hlegal hfits
  | lineBreak =>
    have htemplate : e.isTemplate = true := hlegal
    simp [Piece.text, pieceAt, htemplate]
  | continuation t => exact pieceAt_continuation hlegal hfits
  | single c => exact escapeOf_single hlegal
  | octal digits =>
    cases digits with
    | nil =>
      exfalso
      cases hban : e.bansOctal <;> simp [Piece.isLegal, hban] at hlegal
    | cons d ds =>
      show escapeOf e d (ds ++ r) = _
      cases hban : e.bansOctal with
      | true =>
        simp only [Piece.isLegal, hban, if_true, beq_iff_eq] at hlegal
        cases hlegal
        rw [escapeOf_octal rfl, hban]
        rfl
      | false =>
        rw [escapeOf_octal, hban, octalDigits_append hlegal hban hfits]
        · rfl
        · simp only [Piece.isLegal, hban, Bool.false_eq_true, if_false, Bool.and_eq_true,
            List.all_cons] at hlegal
          exact hlegal.1.1
  | byte a b => rfl
  | unit a b c d => exact escapeOf_unit hlegal
  | braced digits => exact escapeOf_braced hlegal

end

/-- A text is read in one way. -/
theorem spell_injective {e : Enclosure} {ps qs : List Piece} (hps : isValid e ps = true)
    (hqs : isValid e qs = true) (h : spell ps = spell qs) : ps = qs := by
  induction ps generalizing qs with
  | nil =>
    cases qs with
    | nil => rfl
    | cons q qs => cases q <;> cases h
  | cons p ps ih =>
    cases qs with
    | nil => cases p <;> cases h
    | cons q qs =>
      obtain ⟨hlegal, hfits, hrest⟩ := isValid_cons.mp hps
      obtain ⟨hlegal', hfits', hrest'⟩ := isValid_cons.mp hqs
      rw [spell_cons, spell_cons] at h
      have hsame := pieceAt_text hlegal hfits
      rw [h, pieceAt_text hlegal' hfits'] at hsame
      cases hsame
      rw [ih hrest hrest' (List.append_cancel_left h)]

/-- The value of a text is determined. -/
theorem Denotes.unique {e : Enclosure} {t : Text} {us us' : List Nat} (h : Denotes e t us)
    (h' : Denotes e t us') : us = us' := by
  obtain ⟨ps, hps, rfl, rfl⟩ := h
  obtain ⟨qs, hqs, hspell, rfl⟩ := h'
  rw [spell_injective hqs hps hspell]

end Untangle.Escapes
