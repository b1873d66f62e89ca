import Untangle.Proofs.Number.Radix
import Untangle.Proofs.Sandbox.Words
import Untangle.Proofs.Text.Base64
import Untangle.Proofs.Text.Percent
import Untangle.Sandbox.Builtin.Global

set_option autoImplicit false

/-!
# Functions that encode and decode texts

The global functions of scripts over the codings of texts.  Applied to a text they leave the machine as it is, up to
the error object that a failing one makes.

The main theorems are `parseInt_after_toString`, `unescape_after_escape`,
`decodeURIComponent_after_encode` and `base64_round_trip`.  Texts are sequences of code points, surrogates
among them, and not of units of sixteen bits.
-/

namespace Untangle.Sandbox

open Run

/-! ## Outcomes of applying a function -/

/-- A computation that gives a value and leaves the machine as it is. -/
def Gives {α : Type} (c : Run α) (a : α) : Prop := ∀ m, c m = .ok a m

/-- The machine with a new error object. -/
def Machine.withError (m : Machine) (kind : String) (message : Text) : Machine :=
  { m with heap := m.heap.push ⟨.plain, .ofList [("name", .string kind), ("message", .string message)]⟩ }

/-- A computation that throws a new error object of a kind with a message and leaves the rest of the machine as it
is. -/
def Throws {α : Type} (c : Run α) (kind : String) (message : Text) : Prop :=
  ∀ m, c m = .error (.thrown (.object m.heap.size)) (m.withError kind message)

section

variable {α β : Type} {c : Run α}

theorem gives_pure (a : α) : Gives (pure a) a := fun _ => rfl

theorem throws_raise (kind : String) (message : Text) : Throws (raise (α := α) kind message) kind message :=
  fun _ => rfl

/-- What gives a value does not throw. -/
theorem Gives.not_throws {a : α} (hgives : Gives c a) (kind : String) (message : Text) : ¬Throws c kind message := by
  intro hthrows
  have herror := hthrows default
  rw [hgives default] at herror
  cases herror

/-- A text is its own text. -/
theorem textOf_bind (t : Text) (f : Text → Run β) : (textOf (.string t) >>= f) = f t := rfl

end

/-! ## The legacy coding -/

section

variable (t : Text)

theorem gives_escape : Gives (globalFunction .escape [.string t]) (.string (Percent.escape t)) := gives_pure _

theorem gives_unescape : Gives (globalFunction .unescape [.string t]) (.string (Percent.unescape t)) := gives_pure _

end

/-- Escaping leaves letters, digits, `@*_+-./` and percent signs, and a text comes back from it exactly if all its
code points have at most four hexadecimal digits. -/
theorem unescape_after_escape (s : Text) :
    ∃ t u, Gives (globalFunction .escape [.string s]) (.string t) ∧
      Gives (globalFunction .unescape [.string t]) (.string u) ∧
      (∀ c ∈ t, Percent.isPlain c = true ∨ c = 0x25) ∧ (u = s ↔ ∀ c ∈ s, c < 0x10000) := by
  refine ⟨Percent.escape s, Percent.unescape (Percent.escape s), gives_escape s, gives_unescape _, ?_, ?_⟩
  · intro c hc
    exact Percent.mem_escape hc
  · exact Percent.unescape_escape_eq_iff s

/-! ## URI components -/

section

variable {t u : Text}

theorem gives_encodeURIComponent (h : Percent.encode? t = some u) :
    Gives (globalFunction .encodeURIComponent [.string t]) (.string u) := by
  rw [globalFunction, arg, List.getD_cons_zero, textOf_bind, h]
  exact gives_pure _

theorem gives_decodeURIComponent (h : Percent.decode? t = some u) :
    Gives (globalFunction .decodeURIComponent [.string t]) (.string u) := by
  rw [globalFunction, arg, List.getD_cons_zero, textOf_bind, h]
  exact gives_pure _

end

/-- The component of a text without surrogates is well formed, and the text comes back from it. -/
theorem decodeURIComponent_after_encode {s : Text} (hs : ∀ c ∈ s, Utf8.IsScalar c) :
    ∃ t, Gives (globalFunction .encodeURIComponent [.string s]) (.string t) ∧ Percent.Component t ∧
      Gives (globalFunction .decodeURIComponent [.string t]) (.string s) := by
  obtain ⟨t, hencode, hcomponent, hdecode⟩ := Percent.exists_encode? hs
  refine ⟨t, gives_encodeURIComponent hencode, hcomponent, gives_decodeURIComponent ?_⟩
  exact hdecode [] nofun

/-- Characters of one to four bytes, a percent sign before digits among them. -/
theorem mixedText_decoded :
    (∀ c ∈ ("a%41é€😀" : Text), Utf8.IsScalar c) ∧
    ∃ t, Gives (globalFunction .encodeURIComponent [.string "a%41é€😀"]) (.string t) ∧ Percent.Component t ∧
      Gives (globalFunction .decodeURIComponent [.string t]) (.string "a%41é€😀") :=
  have hs : ∀ c ∈ ("a%41é€😀" : Text), Utf8.IsScalar c := by decide
  ⟨hs, decodeURIComponent_after_encode hs⟩

/-! ## Base64 -/

section

variable {t u : Text}

theorem gives_btoa (h : ∀ c ∈ t, c < 0x100) :
    Gives (globalFunction .btoa [.string t]) (.string (Base64.encodeBytes t)) := by
  have hall : t.all (· < 0x100) = true := List.all_eq_true.mpr fun c hc => decide_eq_true (h c hc)
  rw [globalFunction, arg, List.getD_cons_zero, textOf_bind, Base64.encode?, if_pos hall]
  exact gives_pure _

theorem throws_btoa {c : Nat} (hc : c ∈ t) (hlarge : 0xFF < c) :
    Throws (globalFunction .btoa [.string t]) "InvalidCharacterError"
      "The string to be encoded contains characters outside of the Latin1 range." := by
  have hall : ¬t.all (· < 0x100) = true := by
    intro hall
    have hless : c < 0x100 := of_decide_eq_true (List.all_eq_true.mp hall c hc)
    omega
  rw [globalFunction, arg, List.getD_cons_zero, textOf_bind, Base64.encode?, if_neg hall]
  exact throws_raise _ _

theorem gives_atob (h : Base64.decode? t = some u) : Gives (globalFunction .atob [.string t]) (.string u) := by
  rw [globalFunction, arg, List.getD_cons_zero, textOf_bind, h]
  exact gives_pure _

theorem throws_atob (h : Base64.decode? t = none) :
    Throws (globalFunction .atob [.string t]) "InvalidCharacterError"
      "The string to be decoded is not correctly encoded." := by
  rw [globalFunction, arg, List.getD_cons_zero, textOf_bind, h]
  exact throws_raise _ _

end

/-- Texts of bytes come back from base64, all others are refused; what is read is a text of bytes or is refused. -/
theorem base64_round_trip :
    (∀ s : Text,
      (Throws (globalFunction .btoa [.string s]) "InvalidCharacterError"
        "The string to be encoded contains characters outside of the Latin1 range." ↔ ∃ c ∈ s, 0xFF < c) ∧
      ((∃ c ∈ s, 0xFF < c) ∨ ∃ t, Gives (globalFunction .btoa [.string s]) (.string t) ∧
        Gives (globalFunction .atob [.string t]) (.string s))) ∧
    ∀ t : Text,
      Throws (globalFunction .atob [.string t]) "InvalidCharacterError"
        "The string to be decoded is not correctly encoded." ∨
      ∃ u : Text, Gives (globalFunction .atob [.string t]) (.string u) ∧ ∀ c ∈ u, c ≤ 0xFF := by
  constructor
  · intro s
    by_cases hlarge : ∃ c ∈ s, 0xFF < c
    · obtain ⟨c, hc, hless⟩ := hlarge
      exact ⟨iff_of_true (throws_btoa hc hless) ⟨c, hc, hless⟩, .inl ⟨c, hc, hless⟩⟩
    · have hbytes : ∀ c ∈ s, c < 0x100 := by
        intro c hc
        exact Nat.lt_of_not_le fun hle => hlarge ⟨c, hc, hle⟩
      refine ⟨iff_of_false ((gives_btoa hbytes).not_throws _ _) hlarge, .inr ?_⟩
      exact ⟨Base64.encodeBytes s, gives_btoa hbytes, gives_atob (Base64.decode?_encodeBytes hbytes)⟩
  · intro t
    cases hread : Base64.decode? t with
    | none => exact .inl (throws_atob hread)
    | some u =>
      refine .inr ⟨u, gives_atob hread, ?_⟩
      intro c hc
      exact Nat.le_of_lt_succ (Base64.decode?_lt hread c hc)

/-! ## Integers in other bases -/

section

variable {n : Int} {base : Nat}

theorem ofInteger_eq (hless : n.natAbs < 2 ^ 53) : ofInteger n = Float.ofInt n := by
  rw [Number.ofInt_eq, ofInteger, Binary64.ofInt?, Binary64.ofNat?, Binary64.isFinite_ofNat hless]
  rfl

theorem Exact.truncate_eq (h : Exact n) : Binary64.truncate (ofInteger n) = n := by
  rw [Binary64.truncate_eq_cutOff, h.2, Binary64.cutOff_intCast]

theorem Exact.integerPart_eq (h : Exact n) : integerPart (ofInteger n) = ofInteger n := by
  rw [integerPart_of_isFinite h.1, h.truncate_eq]

theorem Exact.toCount_eq (h : Exact n) : toCount (ofInteger n) = .ok n := by
  rw [toCount, if_pos h.1, h.truncate_eq]

/-- A word that is not negative is its own signed reading. -/
theorem toInt32_ofInteger (hless : base < 2 ^ 31) (h : Heap) : toInt32 h (.number (ofInteger base)) = .ok base := by
  have hexact : Exact base := exact_of_lt (by omega)
  rw [toInt32_eq (x := ofInteger base) rfl, hexact.wordOf, BitVec.toInt_ofInt,
    Int.bmod_eq_of_le (by omega) (by omega)]

/-- Every number has a text in every base. -/
theorem radixTextOf_eq (hbase : 2 ≤ base) (hmax : base ≤ 36) (x : Float) :
    radixTextOf x base = pure (Number.radixText base x) := by
  have hrange : ¬((base : Int) < 2 || 36 < (base : Int)) = true := by
    simp only [Bool.or_eq_true, decide_eq_true_eq]
    omega
  rw [radixTextOf, if_neg hrange]
  by_cases hten : base = 10
  · subst hten
    rfl
  · have hten' : ((base : Int) == 10) = false := beq_false_of_ne (by omega)
    rw [hten', if_neg Bool.false_ne_true, Int.toNat_natCast]
    cases hfinite : Binary64.isFinite x with
    | true => rfl
    | false =>
      rw [Number.radixText, hfinite, Bool.not_false, Bool.or_true]
      rfl

theorem gives_toString (hbase : 2 ≤ base) (hmax : base ≤ 36) (x : Float) :
    Gives (numberMethod .toString (.number x) [.number (ofInteger base)]) (.string (Number.radixText base x)) := by
  have hexact : Exact base := exact_of_lt (by omega)
  have hnumber : numberOf (.number x) = pure x := rfl
  have hinteger : integerOf (.number (ofInteger base)) = pure (integerPart (ofInteger base)) := rfl
  have hcount : countOf (ofInteger base) = pure (base : Int) := by
    rw [countOf, hexact.toCount_eq]
    rfl
  have hdefined : (Value.number (ofInteger base)).isUndefined = false := rfl
  rw [numberMethod, hnumber, pure_bind, arg, List.getD_cons_zero]
  simp only [hdefined, Bool.false_eq_true, if_false]
  rw [hinteger, pure_bind, hexact.integerPart_eq, hcount, pure_bind, radixTextOf_eq hbase hmax]
  exact gives_pure _

theorem gives_parseInt {t : Text} {x : Float} (hless : base < 2 ^ 31) (hread : Number.leadingWhole t base = .ok x) :
    Gives (globalFunction .parseInt [.string t, .number (ofInteger base)]) (.number x) := by
  have hradix : reading (fun h => toInt32 h (.number (ofInteger base))) = pure (base : Int) := by
    simp only [toInt32_ofInteger hless]
    rfl
  rw [globalFunction, parseWhole, arg, arg, List.getD_cons_zero, List.getD_cons_succ, List.getD_cons_zero, textOf_bind,
    hradix, pure_bind, hread]
  exact gives_pure _

end

/-- The text of an integer in a base is digits without leading zeros after an optional sign, and it is read back as
the integer. -/
theorem parseInt_after_toString {n : Int} {base : Nat} (hless : n.natAbs < 2 ^ 53) (hbase : 2 ≤ base)
    (hmax : base ≤ 36) :
    Exact n ∧ ∃ t digits : Text, Number.radixText base (ofInteger n) = t ∧
      t = (if n < 0 then 0x2D :: digits else digits) ∧
      Gives (numberMethod .toString (.number (ofInteger n)) [.number (ofInteger base)]) (.string t) ∧
      Gives (globalFunction .parseInt [.string t, .number (ofInteger base)]) (.number (ofInteger n)) ∧
      digits ≠ [] ∧ (∀ c ∈ digits, Number.isDigitOf base c = true) ∧
      (digits.head? = some 0x30 → n = 0 ∧ digits = [0x30]) := by
  have htext : Number.radixText base (ofInteger n) = Number.integerText base n := by
    rw [ofInteger_eq hless]
    exact Number.radixText_ofInt hbase hmax hless
  refine ⟨exact_of_lt hless, Number.integerText base n, Number.digitsText base n.natAbs, htext, rfl, ?_, ?_,
    Number.digitsText_ne_nil base _, fun c hc => Number.isDigitOf_of_mem hbase hmax hc, ?_⟩
  · rw [← htext]
    exact gives_toString hbase hmax (ofInteger n)
  · have hread := Number.leadingWhole_integerText hbase hmax hless
    rw [← ofInteger_eq hless] at hread
    exact gives_parseInt (by omega) hread
  · intro hhead
    have hzero : n.natAbs = 0 := by
      by_contra hne
      exact Number.head?_digitsText hbase hmax (Nat.pos_of_ne_zero hne) hhead
    refine ⟨Int.natAbs_eq_zero.mp hzero, ?_⟩
    rw [hzero]
    exact Number.digitsText_zero base

/-- The least integer that is certainly exact, in the base with the most digits. -/
theorem leastInteger_read_back :
    ((-9007199254740991 : Int).natAbs < 2 ^ 53 ∧ 2 ≤ 36 ∧ 36 ≤ 36) ∧
    Exact (-9007199254740991) ∧ ∃ t digits : Text, Number.radixText 36 (ofInteger (-9007199254740991)) = t ∧
      t = (if (-9007199254740991 : Int) < 0 then 0x2D :: digits else digits) ∧
      Gives (numberMethod .toString (.number (ofInteger (-9007199254740991))) [.number (ofInteger (36 : Nat))])
        (.string t) ∧
      Gives (globalFunction .parseInt [.string t, .number (ofInteger (36 : Nat))])
        (.number (ofInteger (-9007199254740991))) ∧
      digits ≠ [] ∧ (∀ c ∈ digits, Number.isDigitOf 36 c = true) ∧
      (digits.head? = some 0x30 → (-9007199254740991 : Int) = 0 ∧ digits = [0x30]) :=
  have hless : (-9007199254740991 : Int).natAbs < 2 ^ 53 := by decide
  have hbase : 2 ≤ 36 := by decide
  have hmax : 36 ≤ 36 := by decide
  ⟨⟨hless, hbase, hmax⟩, parseInt_after_toString hless hbase hmax⟩

end Untangle.Sandbox
