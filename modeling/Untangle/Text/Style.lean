import Untangle.Text.Case
import Untangle.Text.Digit

set_option autoImplicit false

/-!
# Styles of messages

The name of a style is a list of words: attributes, a colour, a colour behind the text and a link.  Names
of the same style are equal once they are written in one way, `Style.normal`; a name that is not
understood stands for itself.
-/

namespace Untangle

/-! ## Colours -/

/-- The colours of every terminal. -/
def plainColours : List String :=
  ["black", "red", "green", "yellow", "blue", "magenta", "cyan", "white"]

/-- The numbers of the shades of grey that have a name. -/
def greyShades : List Nat :=
  [0, 3, 7, 11, 15, 19, 23, 27, 30, 35, 37, 39, 42, 46, 50, 53, 54, 58, 62, 63, 66, 69, 70, 74, 78,
   82, 84, 85, 89, 93, 100]

/-- The other colours that have a name. -/
def furtherColours : List String :=
  ["aquamarine1", "aquamarine3", "blue1", "blue3", "blue_violet", "cadet_blue", "chartreuse1",
   "chartreuse2", "chartreuse3", "chartreuse4", "cornflower_blue", "cornsilk1", "cyan1", "cyan2",
   "cyan3", "dark_blue", "dark_cyan", "dark_goldenrod", "dark_green", "dark_khaki", "dark_magenta",
   "dark_olive_green1", "dark_olive_green2", "dark_olive_green3", "dark_orange", "dark_orange3",
   "dark_red", "dark_sea_green", "dark_sea_green1", "dark_sea_green2", "dark_sea_green3",
   "dark_sea_green4", "dark_slate_gray1", "dark_slate_gray2", "dark_slate_gray3", "dark_turquoise",
   "dark_violet", "deep_pink1", "deep_pink2", "deep_pink3", "deep_pink4", "deep_sky_blue1",
   "deep_sky_blue2", "deep_sky_blue3", "deep_sky_blue4", "dodger_blue1", "dodger_blue2",
   "dodger_blue3", "gold1", "gold3", "green1", "green3", "green4", "green_yellow", "honeydew2",
   "hot_pink", "hot_pink2", "hot_pink3", "indian_red", "indian_red1", "khaki1", "khaki3",
   "light_coral", "light_cyan1", "light_cyan3", "light_goldenrod1", "light_goldenrod2",
   "light_goldenrod3", "light_green", "light_pink1", "light_pink3", "light_pink4", "light_salmon1",
   "light_salmon3", "light_sea_green", "light_sky_blue1", "light_sky_blue3", "light_slate_blue",
   "light_slate_gray", "light_slate_grey", "light_steel_blue", "light_steel_blue1",
   "light_steel_blue3", "light_yellow3", "magenta1", "magenta2", "magenta3", "medium_orchid",
   "medium_orchid1", "medium_orchid3", "medium_purple", "medium_purple1", "medium_purple2",
   "medium_purple3", "medium_purple4", "medium_spring_green", "medium_turquoise",
   "medium_violet_red", "misty_rose1", "misty_rose3", "navajo_white1", "navajo_white3",
   "navy_blue", "orange1", "orange3", "orange4", "orange_red1", "orchid", "orchid1", "orchid2",
   "pale_green1", "pale_green3", "pale_turquoise1", "pale_turquoise4", "pale_violet_red1", "pink1",
   "pink3", "plum1", "plum2", "plum3", "plum4", "purple", "purple3", "purple4", "red1", "red3",
   "rosy_brown", "royal_blue1", "salmon1", "sandy_brown", "sea_green1", "sea_green2", "sea_green3",
   "sky_blue1", "sky_blue2", "sky_blue3", "slate_blue1", "slate_blue3", "spring_green1",
   "spring_green2", "spring_green3", "spring_green4", "steel_blue", "steel_blue1", "steel_blue3",
   "tan", "thistle1", "thistle3", "turquoise2", "turquoise4", "violet", "wheat1", "wheat4",
   "yellow1", "yellow2", "yellow3", "yellow4"]

/-- What a text has after a beginning and before an end. -/
def Text.between? (first last t : Text) : Option Text :=
  if first.isPrefixOf t && last.isSuffixOf t && first.length + last.length ≤ t.length then
    some ((t.drop first.length).take (t.length - first.length - last.length))
  else none

/-- Whether digits denote a number of one byte. -/
def isByte (digits : Text) : Bool :=
  !digits.isEmpty && digits.all Text.isDecimal && decide (Text.decimalNumber digits ≤ 255)

/-- Whether a word in lower case is a name of a colour. -/
def isColourName (w : Text) : Bool :=
  let named (names : List String) (t : Text) : Bool := names.any fun n => Text.of n == t
  w == Text.of "default" || named plainColours w || named furtherColours w ||
    ((Text.between? "bright_" [] w).any (named plainColours)) ||
    ([Text.of "grey", Text.of "gray"].any fun g =>
      (Text.between? g [] w).any fun n => greyShades.any fun s => Text.ofNat s == n)

/-- Whether a word in lower case denotes a colour, by its name or by numbers. -/
def isColour (w : Text) : Bool :=
  isColourName w ||
    ((Text.between? "#" [] w).any fun ds => ds.length == 6 && ds.all Text.isHexDigit) ||
    ((Text.between? "color(" ")" w).any fun ds =>
      ds.length ≤ 3 && ds.all Text.isAsciiDigit && isByte ds) ||
    ((Text.between? "rgb(" ")" w).any fun ds =>
      let parts := Text.splitOn [0x2C] ds
      parts.length == 3 && parts.all isByte)

/-! ## Attributes -/

/-- A way to write that is not a colour. -/
inductive TextAttribute where
  | bold | dim | italic | underline | blink | blink2 | reverse | conceal | strike | underline2 | frame
  | encircle | overline
  deriving DecidableEq, Repr

namespace TextAttribute

/-- All attributes in the order in which they are named. -/
def all : List TextAttribute :=
  [.bold, .dim, .italic, .underline, .blink, .blink2, .reverse, .conceal, .strike, .underline2, .frame,
   .encircle, .overline]

/-- The name of an attribute. -/
def word : TextAttribute → String
  | .bold => "bold"
  | .dim => "dim"
  | .italic => "italic"
  | .underline => "underline"
  | .blink => "blink"
  | .blink2 => "blink2"
  | .reverse => "reverse"
  | .conceal => "conceal"
  | .strike => "strike"
  | .underline2 => "underline2"
  | .frame => "frame"
  | .encircle => "encircle"
  | .overline => "overline"

/-- The short name of an attribute. -/
def shortWord? : TextAttribute → Option String
  | .bold => some "b"
  | .dim => some "d"
  | .italic => some "i"
  | .underline => some "u"
  | .reverse => some "r"
  | .conceal => some "c"
  | .strike => some "s"
  | .underline2 => some "uu"
  | .overline => some "o"
  | .blink | .blink2 | .frame | .encircle => none

/-- The attribute that a word names. -/
def ofWord? (w : Text) : Option TextAttribute :=
  all.find? fun a => Text.of a.word == w || a.shortWord?.any fun s => Text.of s == w

end TextAttribute

/-! ## Styles -/

/-- A style; of the settings of an attribute the first counts. -/
structure Style where
  attributes : List (TextAttribute × Bool)
  colour : Option Text
  background : Option Text
  link : Option Text

namespace Style

/-- The style of all texts. -/
def plain : Style := ⟨[], none, none, none⟩

/-- A style with what some words add to it, if they are understood. -/
def readWords (s : Style) : List Text → Option Style
  | [] => some s
  | first :: rest =>
    let w := Text.lower first
    if w == Text.of "on" then
      match rest with
      | [] => none
      | c :: more =>
        let c := Text.lower c
        if isColour c then readWords { s with background := some c } more else none
    else if w == Text.of "not" then
      match rest with
      | [] => none
      | a :: more =>
        match TextAttribute.ofWord? a with
        | some a => readWords { s with attributes := (a, false) :: s.attributes } more
        | none => none
    else if w == Text.of "link" then
      match rest with
      | [] => none
      | l :: more => readWords { s with link := some l } more
    else
      match TextAttribute.ofWord? w with
      | some a => readWords { s with attributes := (a, true) :: s.attributes } rest
      | none => if isColour w then readWords { s with colour := some w } rest else none

/-- The style of a name. -/
def ofName? (name : Text) : Option Style :=
  if Text.trim name == Text.of "none" then some plain else readWords plain (Text.words name)

/-- The words of a style in their order. -/
def nameWords (s : Style) : List Text :=
  (TextAttribute.all.flatMap fun a =>
    match s.attributes.lookup a with
    | some true => [Text.of a.word]
    | some false => [Text.of "not", Text.of a.word]
    | none => []) ++
  s.colour.toList ++
  (s.background.toList.flatMap fun c => [Text.of "on", c]) ++
  (s.link.toList.flatMap fun l => [Text.of "link", l])

/-- The name of a style. -/
def name (s : Style) : Text :=
  if s.nameWords.isEmpty then "none" else Text.join " " s.nameWords

/-- The one way to write a name of a style. -/
def normal (name : Text) : Text :=
  match ofName? name with
  | some s => s.name
  | none => Text.lower (Text.trim name)

end Style

end Untangle
