import NullSafeEq.Text.Numeral

/-!
# Styles of text

A style is named by words for attributes and colours in any order. Two names mean the same style
when their normal forms agree; words that name no style are their own normal form up to letter case.
-/
namespace NullSafeEq.Report

/-- What a name says about a style. -/
structure Style where
  attributes : List (String × Bool) := []
  colour : Option String := none
  background : Option String := none
  link : Option String := none
  deriving DecidableEq, Repr

namespace Style

/-- The attributes in the order of the normal form. -/
def attributeOrder : List String :=
  ["bold", "dim", "italic", "underline", "blink", "blink2", "reverse", "conceal", "strike",
   "underline2", "frame", "encircle", "overline"]

/-- The short names of attributes. -/
def shortNames : List (String × String) :=
  [("b", "bold"), ("d", "dim"), ("i", "italic"), ("u", "underline"), ("r", "reverse"),
   ("c", "conceal"), ("s", "strike"), ("uu", "underline2"), ("o", "overline")]

/-- The attribute that a word names. -/
def attribute? (word : String) : Option String :=
  if attributeOrder.contains word then some word else shortNames.lookup word

/-! ### Colours -/

/-- The names of colours that come in numbered shades, with the numbers. -/
def shades : List (String × List Nat) :=
  [("blue", [1, 3]), ("deep_sky_blue", [1, 2, 3, 4]), ("dodger_blue", [1, 2, 3]),
   ("green", [1, 3, 4]),
   ("spring_green", [1, 2, 3, 4]), ("turquoise", [2, 4]), ("cyan", [1, 2, 3]),
   ("deep_pink", [1, 2, 3, 4]), ("purple", [3, 4]), ("orange", [1, 3, 4]),
   ("medium_purple", [1, 2, 3, 4]), ("slate_blue", [1, 3]), ("royal_blue", [1]),
   ("chartreuse", [1, 2, 3, 4]), ("dark_sea_green", [1, 2, 3, 4]), ("pale_turquoise", [1, 4]),
   ("steel_blue", [1, 3]), ("sky_blue", [1, 2, 3]), ("pale_green", [1, 3]),
   ("sea_green", [1, 2, 3]),
   ("aquamarine", [1, 3]), ("dark_slate_gray", [1, 2, 3]), ("light_pink", [1, 3, 4]),
   ("plum", [1, 2, 3, 4]), ("yellow", [1, 2, 3, 4]), ("wheat", [1, 4]),
   ("dark_olive_green", [1, 2, 3]), ("light_sky_blue", [1, 3]), ("red", [1, 3]),
   ("magenta", [1, 2, 3]), ("dark_orange", [3]), ("indian_red", [1]), ("hot_pink", [2, 3]),
   ("medium_orchid", [1, 3]), ("light_salmon", [1, 3]), ("gold", [1, 3]), ("navajo_white", [1, 3]),
   ("light_steel_blue", [1, 3]), ("light_cyan", [1, 3]), ("orchid", [1, 2]), ("pink", [1, 3]),
   ("light_goldenrod", [1, 2, 3]), ("misty_rose", [1, 3]), ("thistle", [1, 3]), ("khaki", [1, 3]),
   ("light_yellow", [3]), ("honeydew", [2]), ("orange_red", [1]), ("salmon", [1]),
   ("pale_violet_red", [1]), ("cornsilk", [1])]

/-- The numbers of the greys. -/
def greys : List Nat :=
  [0, 3, 7, 11, 15, 19, 23, 27, 30, 35, 37, 39, 42, 46, 50, 53, 54, 58, 62, 63, 66, 69, 70, 74, 78,
   82, 84, 85, 89, 93, 100]

/-- The colours without a number. -/
def plainColours : List String :=
  ["default", "black", "red", "green", "yellow", "blue", "magenta", "cyan", "white",
   "bright_black", "bright_red", "bright_green", "bright_yellow", "bright_blue", "bright_magenta",
   "bright_cyan", "bright_white", "navy_blue", "dark_blue", "dark_green", "dark_cyan",
   "light_sea_green", "dark_turquoise", "medium_spring_green", "dark_red", "blue_violet",
   "steel_blue", "cornflower_blue", "cadet_blue", "medium_turquoise", "dark_magenta",
   "dark_violet", "purple", "light_slate_grey", "light_slate_gray", "medium_purple",
   "light_slate_blue", "dark_sea_green", "light_green", "medium_violet_red", "indian_red",
   "medium_orchid", "dark_goldenrod", "rosy_brown", "dark_khaki", "light_steel_blue",
   "green_yellow", "orchid", "violet", "tan", "hot_pink", "dark_orange", "light_coral",
   "sandy_brown"]

/-- The names of all colours. -/
def colourNames : List String :=
  plainColours ++ shades.flatMap (fun (name, numbers) => numbers.map fun n => s!"{name}{n}") ++
    greys.flatMap fun n => [s!"grey{n}", s!"gray{n}"]

/-- Whether some digits make a number that fits into eight bits. -/
def isComponent (digits : List Char) : Bool :=
  digits.all Text.isDecimalDigit && (Text.intValue? (String.ofList digits)).any (· ≤ 255)

/-- The parts of a list of characters between commas. -/
def betweenCommas : List Char → List (List Char)
  | [] => [[]]
  | c :: cs =>
    match betweenCommas cs with
    | part :: rest => if c = ',' then [] :: part :: rest else (c :: part) :: rest
    | [] => [[c]]

/-- The characters between some characters in front and a closing bracket at the end. -/
def enclosed? (front : List Char) (word : List Char) : Option (List Char) :=
  if front.isPrefixOf word && word.getLast? = some ')' then
    some ((word.drop front.length).dropLast)
  else none

/-- Whether a word in small letters is a colour: a name, six hexadecimal digits, a number or three
components. -/
def isColour (word : String) : Bool :=
  colourNames.contains word ||
    match word.toList with
    | '#' :: digits =>
      digits.length = 6 && digits.all fun c => Text.isAsciiDigit c || ('a' ≤ c && c ≤ 'f')
    | cs =>
      match enclosed? "color(".toList cs, enclosed? "rgb(".toList cs with
      | some digits, _ => digits.length ≤ 3 && isComponent digits
      | _, some parts =>
        (betweenCommas parts).length = 3 && (betweenCommas parts).all isComponent
      | _, _ => false

/-! ### Reading names -/

/-- What the next word of a name is about. -/
inductive Expecting where
  | anything | background | absence | link
  deriving DecidableEq, Repr

/-- A style after one more attribute. -/
def mark (s : Style) (name : String) (present : Bool) : Style :=
  { s with attributes := s.attributes.filter (·.1 ≠ name) ++ [(name, present)] }

/-- A style after one more word of its name. -/
def step : Style × Expecting → String → Option (Style × Expecting)
  | (s, .background), word =>
    let colour := Text.asciiLower word
    if isColour colour then some ({ s with background := some colour }, .anything) else none
  | (s, .absence), word => (attribute? word).map fun a => (s.mark a false, .anything)
  | (s, .link), word => some ({ s with link := some word }, .anything)
  | (s, .anything), word =>
    let word := Text.asciiLower word
    if word = "on" then some (s, .background)
    else if word = "not" then some (s, .absence)
    else if word = "link" then some (s, .link)
    else
      match attribute? word with
      | some a => some (s.mark a true, .anything)
      | none => if isColour word then some ({ s with colour := some word }, .anything) else none

/-- The words between the blanks of a text. -/
def wordsOf (name : String) : List String :=
  ((name.toList.splitBy fun a b => Text.isBlank a == Text.isBlank b).filter fun run =>
    !run.all Text.isBlank).map String.ofList

/-- The style that a name means. -/
def ofName? (name : String) : Option Style :=
  let words := wordsOf name
  if words = ["none"] then some {}
  else
    match words.foldlM step ({}, .anything) with
    | some (s, .anything) => some s
    | _ => none

/-- The words of a style in the normal order. -/
def words (s : Style) : List String :=
  (attributeOrder.filterMap fun a =>
    (s.attributes.lookup a).map fun present => if present then a else "not " ++ a) ++
    s.colour.toList ++ (s.background.map fun c => "on " ++ c).toList ++
    (s.link.map fun url => "link " ++ url).toList

/-- The normal form of a name. -/
def normal (name : String) : String :=
  match ofName? name with
  | some s => if s.words.isEmpty then "none" else String.intercalate " " s.words
  | none => Text.asciiLower (Text.trim name)

end Style

end NullSafeEq.Report
