set_option autoImplicit false

/-!
# Texts

A text is a sequence of code points.  Scripts may hold half of a surrogate pair on its own, which
`Char` rules out, so a code point is a natural number and every count, index and cut below is in
code points.

The operations are the ones scripts and their printer need: search, split, join, trim and order.
-/

namespace Untangle

/-- A Unicode code point; a lone surrogate is one like any other. -/
abbrev CodePoint := Nat

/-- A sequence of code points. -/
abbrev Text := List CodePoint

namespace Text

/-- The code points of a character string. -/
def of (s : String) : Text := s.toList.map Char.toNat

instance : Coe String Text := ⟨of⟩

/-- A code point that is one half of a surrogate pair. -/
def isSurrogate (c : CodePoint) : Bool := 0xD800 ≤ c && c ≤ 0xDFFF

/-- The text as a character string; a code point that is no character becomes U+FFFD. -/
def display (t : Text) : String :=
  String.ofList (t.map fun c => if c < 0xD800 || (0xDFFF < c && c < 0x110000) then Char.ofNat c
    else Char.ofNat 0xFFFD)

/-! ## Character classes of ASCII -/

/-- One of the digits `0` to `9`. -/
def isAsciiDigit (c : CodePoint) : Bool := 0x30 ≤ c && c ≤ 0x39

/-- A letter `A` to `Z` or `a` to `z`. -/
def isAsciiLetter (c : CodePoint) : Bool :=
  (0x41 ≤ c && c ≤ 0x5A) || (0x61 ≤ c && c ≤ 0x7A)

/-- The value of a hexadecimal digit. -/
def hexValue? (c : CodePoint) : Option Nat :=
  if isAsciiDigit c then some (c - 0x30)
  else if 0x41 ≤ c && c ≤ 0x46 then some (c - 0x37)
  else if 0x61 ≤ c && c ≤ 0x66 then some (c - 0x57)
  else none

/-- A hexadecimal digit of either case. -/
def isHexDigit (c : CodePoint) : Bool := (hexValue? c).isSome

/-- The digit of value `d` below 36, letters in lower case. -/
def digitLower (d : Nat) : CodePoint := if d < 10 then 0x30 + d else 0x57 + d

/-- The digit of value `d` below 36, letters in upper case. -/
def digitUpper (d : Nat) : CodePoint := if d < 10 then 0x30 + d else 0x37 + d

/-- The digits of `n` in `base`, most significant first, before `rest`; at most `fuel` of them. -/
def digitsOn (base : Nat) (digit : Nat → CodePoint) : Nat → Nat → Text → Text
  | 0, _, rest => rest
  | fuel + 1, n, rest =>
    if n < base then digit n :: rest
    else digitsOn base digit fuel (n / base) (digit (n % base) :: rest)

/-- The decimal text of a natural number. -/
def ofNat (n : Nat) : Text := digitsOn 10 digitLower (n.log2 + 1) n []

/-- The decimal text of an integer. -/
def ofInt : Int → Text
  | .ofNat n => ofNat n
  | .negSucc n => 0x2D :: ofNat (n + 1)

/-- Hexadecimal digits in upper case, filled with zeros to at least `width`. -/
def hexUpper (width n : Nat) : Text :=
  let ds := digitsOn 16 digitUpper (n.log2 + 1) n []
  List.replicate (width - ds.length) 0x30 ++ ds

/-- The number that hexadecimal digits denote; other code points count as zero. -/
def hexNumber (t : Text) : Nat := t.foldl (fun n c => 16 * n + (hexValue? c).getD 0) 0

/-! ## Order and search -/

/-- The order of texts by code point, a proper beginning first. -/
def less : Text → Text → Bool
  | [], [] => false
  | [], _ :: _ => true
  | _ :: _, [] => false
  | a :: r, b :: s => if a < b then true else if b < a then false else less r s

/-- Insertion into a list that is sorted by `less`, after equal texts. -/
def insertSorted (t : Text) : List Text → List Text
  | [] => [t]
  | u :: us => if less t u then t :: u :: us else u :: insertSorted t us

/-- The texts in the order of `less`. -/
def sort (ts : List Text) : List Text := ts.foldl (fun acc t => insertSorted t acc) []

/-- The least index, counted from `at`, where `needle` begins. -/
def findFrom (needle : Text) : Text → Nat → Option Nat
  | [], i => if needle.isEmpty then some i else none
  | c :: r, i => if needle.isPrefixOf (c :: r) then some i else findFrom needle r (i + 1)

/-- The least index at or after `start` where `needle` begins. -/
def find? (t needle : Text) (start : Nat) : Option Nat := findFrom needle (t.drop start) start

/-- The greatest index where `needle` begins. -/
def findLastFrom (needle : Text) : Text → Nat → Option Nat
  | [], i => if needle.isEmpty then some i else none
  | c :: r, i =>
    match findLastFrom needle r (i + 1) with
    | some j => some j
    | none => if needle.isPrefixOf (c :: r) then some i else none

/-- The greatest index where `needle` begins. -/
def findLast? (t needle : Text) : Option Nat := findLastFrom needle t 0

/-- Whether `needle` occurs in the text. -/
def includes (t needle : Text) : Bool := (t.find? needle 0).isSome

/-! ## Split and join -/

/-- Pieces between the leftmost occurrences of `sep` that do not overlap.  `skip` counts the code
points of the current occurrence still to be passed over, `piece` is the open piece reversed. -/
def splitGo (sep : Text) : Nat → Text → Text → List Text
  | _, piece, [] => [piece.reverse]
  | skip + 1, piece, _ :: r => splitGo sep skip piece r
  | 0, piece, c :: r =>
    if sep.isPrefixOf (c :: r) then piece.reverse :: splitGo sep (sep.length - 1) [] r
    else splitGo sep 0 (c :: piece) r

/-- The pieces of a text between the occurrences of a separator that is not empty. -/
def splitOn (sep t : Text) : List Text := splitGo sep 0 [] t

/-- The texts one after the other with `sep` between neighbours. -/
def join (sep : Text) : List Text → Text
  | [] => []
  | [t] => t
  | t :: u :: us => t ++ sep ++ join sep (u :: us)

/-- The text without the longest beginning and end inside the class. -/
def trimBy (p : CodePoint → Bool) (t : Text) : Text :=
  ((t.dropWhile p).reverse.dropWhile p).reverse

/-- The text `n` times. -/
def times (t : Text) (n : Nat) : Text :=
  if t.isEmpty then [] else (List.replicate n t).flatten

end Text

/-- Membership in a sorted list of closed ranges of code points. -/
def inRanges (ranges : List (Nat × Nat)) (c : CodePoint) : Bool :=
  ranges.any fun r => r.1 ≤ c && c ≤ r.2

end Untangle

/-! ## Indentation

Printed code is indented by four blanks a level; here it is indented by another number. -/

namespace Untangle.Text

/-- The lines between line feeds. -/
def lines (t : Text) : List Text := splitOn [0x0A] t

/-- A line with each level of four blanks at its beginning made `width` blanks wide. -/
def reindentLine (width : Nat) (line : Text) : Text :=
  let blanks := (line.takeWhile (· == 0x20)).length
  List.replicate (blanks / 4 * width + blanks % 4) 0x20 ++ line.drop blanks

/-- Code with levels `width` blanks wide. -/
def reindent (width : Nat) (code : Text) : Text :=
  join [0x0A] ((lines code).map (reindentLine width))

end Untangle.Text
