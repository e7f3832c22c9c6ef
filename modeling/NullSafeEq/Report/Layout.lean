import NullSafeEq.Text.Classes
import NullSafeEq.Report.Results

/-!
# Laying out text in cells

A terminal shows a text in lines of cells. Characters of scripts with wide signs are not catered
for: a character takes one cell or none. Tabs reach to the next stop, a line that is too long is
broken between words, and a line may be set to one side or the middle.
-/
namespace NullSafeEq.Report

/-- Bounds of the characters without a cell of their own: controls, the soft hyphen, accents that
combine, and signs for the direction and the joining of letters. -/
def cellless : List (Nat × Nat) :=
  [(0, 0x1f), (0x7f, 0x9f), (0xad, 0xad), (0x300, 0x36f), (0x200b, 0x200f), (0x2028, 0x202e),
   (0x2060, 0x2064)]

/-- The number of cells of a character. -/
def cells (c : Char) : Nat :=
  if cellless.any fun (first, last) => first ≤ c.toNat && c.toNat ≤ last then 0 else 1

/-- The number of cells of some characters. -/
def width (cs : List Char) : Nat := total (cs.map cells)

/-- The characters that are never shown: bell, backspace, vertical tab, form feed and carriage
return. -/
def isDropped (c : Char) : Bool := [0x7, 0x8, 0xb, 0xc, 0xd].contains c.toNat

/-- A text without the characters that are never shown. -/
def visible (cs : List Char) : List Char := cs.filter fun c => !isDropped c

/-- The lines of a text between its line feeds. -/
def splitLines : List Char → List (List Char)
  | [] => [[]]
  | c :: cs =>
    match splitLines cs with
    | line :: rest => if c = '\n' then [] :: line :: rest else (c :: line) :: rest
    | [] => [[c]]

/-- Blanks in place of tabs, up to the next multiple of `stop` columns. `advance` is what other
characters take; a new line starts over. -/
def expandTabs (stop : Nat) (advance : Char → Nat) (column : Nat) : List Char → List Char
  | [] => []
  | c :: cs =>
    if c = '\t' then
      let blanks := stop - column % stop
      List.replicate blanks ' ' ++ expandTabs stop advance (column + blanks) cs
    else
      let column := if c = '\n' || c = '\r' then 0 else column + advance c
      c :: expandTabs stop advance column cs

/-! ### Breaking lines -/

/-- The words of a line, each with the blanks behind it, and the first one also with those in front,
where `word` holds the characters of the current word in reverse. Blanks alone are no word. -/
def wordsFrom (word : List Char) : List Char → List (List Char)
  | [] => if word.all Text.isBlank then [] else [word.reverse]
  | c :: cs =>
    if !Text.isBlank c && word.head?.any Text.isBlank && !word.all Text.isBlank then
      word.reverse :: wordsFrom [c] cs
    else wordsFrom (c :: word) cs

/-- A line without the blanks at its end. -/
def trimEnd (line : List Char) : List Char := (line.reverse.dropWhile Text.isBlank).reverse

/-- A word cut into pieces of at most `limit` cells, with the last piece apart. `piece` holds the
characters of the current piece in reverse, and `used` its width. -/
def chop (limit : Nat) (piece : List Char) (used : Nat) :
    List Char → List (List Char) × List Char
  | [] => ([], piece.reverse)
  | c :: cs =>
    if limit < used + cells c then
      let (others, last) := chop limit [c] (cells c) cs
      (piece.reverse :: others, last)
    else chop limit (c :: piece) (used + cells c) cs

/-- What becomes of a word that is longer than a line, and of a line that is too long. -/
inductive Overflow where
  /-- It is cut into pieces that fit. -/
  | fold
  /-- It is cut off behind an ellipsis. -/
  | ellipsis
  deriving DecidableEq, Repr

/-- The lines that some words fill, from a line with some words on. -/
def fill (limit : Nat) (overflow : Overflow) (line : List Char) :
    List (List Char) → List (List Char)
  | [] => [line]
  | word :: rest =>
    let need := width (trimEnd word)
    if width line + need ≤ limit then fill limit overflow (line ++ word) rest
    else
      let before := if line.isEmpty then [] else [line]
      if need ≤ limit || overflow = .ellipsis then before ++ fill limit overflow word rest
      else
        let (pieces, last) := chop limit [] 0 word
        before ++ pieces ++ fill limit overflow last rest

/-- A line without the blanks at its end that reach behind the limit. -/
def dropExcess (limit : Nat) (line : List Char) : List Char :=
  let blanks := (line.reverse.takeWhile Text.isBlank).length
  line.take (line.length - min blanks (line.length - limit))

/-! ### Setting lines -/

/-- As many characters from the front as fit into a width. -/
def takeCells : Nat → List Char → List Char
  | _, [] => []
  | limit, c :: cs => if cells c ≤ limit then c :: takeCells (limit - cells c) cs else []

/-- A line cut to a width. -/
def clip (limit : Nat) (overflow : Overflow) (line : List Char) : List Char :=
  if width line ≤ limit then line
  else
    match overflow with
    | .fold => takeCells limit line
    | .ellipsis => takeCells (limit - 1) line ++ ['…']

def blanks (count : Nat) : List Char := List.replicate count ' '

/-- A line filled up with blanks. -/
def padded (limit : Nat) (line : List Char) : List Char := line ++ blanks (limit - width line)

/-- A line in the middle, with one blank less in front if need be. -/
def centred (limit : Nat) (line : List Char) : List Char :=
  padded limit (blanks ((limit - width line) / 2) ++ line)

/-- Where a line stands within its width. -/
inductive Setting where
  /-- At the left, without blanks behind it. -/
  | ragged
  /-- At the left, filled up with blanks. -/
  | flush
  | centre
  deriving DecidableEq, Repr

/-- A line set within a width. -/
def Setting.apply (setting : Setting) (limit : Nat) (overflow : Overflow) (line : List Char) :
    List Char :=
  match setting with
  | .ragged => clip limit overflow line
  | .flush => padded limit (clip limit overflow line)
  | .centre => centred limit (clip limit overflow (trimEnd line))

/-- The lines of a text within a width. -/
def layout (limit : Nat) (overflow : Overflow) (setting : Setting) (cs : List Char) :
    List (List Char) :=
  (splitLines cs).flatMap fun line =>
    let line := expandTabs 8 cells 0 line
    let words := wordsFrom [] line
    let lines := if words.isEmpty then [line] else fill limit overflow [] words
    lines.map fun l => setting.apply limit overflow (dropExcess limit l)

/-- The text that prints lines. -/
def printed (lines : List (List Char)) : String :=
  String.join (lines.map fun line => String.ofList line ++ "\n")

end NullSafeEq.Report
