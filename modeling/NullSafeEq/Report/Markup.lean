import NullSafeEq.Report.Style

/-!
# Marked-up text

A tag in brackets, such as `[bold]`, styles what follows until `[/bold]` closes it or `[/]` closes
whatever was opened last; tags that are never closed reach to the end. Of a marked-up text only what
the tags leave is shown. A backslash in front makes a tag ordinary text, and two backslashes in
front of a tag are one. Brackets that hold no tag are ordinary text.
-/
namespace NullSafeEq.Report.Markup

/-- A closing tag without anything to close. -/
inductive Fault where
  | unopened (tag : String) (offset : Nat)
  | nothingOpen (offset : Nat)
  deriving DecidableEq, Repr

def Fault.message : Fault → String
  | unopened tag offset => s!"closing tag '{tag}' at position {offset} doesn't match any open tag"
  | nothingOpen offset => s!"closing tag '[/]' at position {offset} has nothing to close"

/-! ### Finding tags -/

/-- A character that may start the inside of a tag. -/
def startsTag (c : Char) : Bool := ('a' ≤ c && c ≤ 'z') || c = '#' || c = '/' || c = '@'

/-- The number of characters before the first closing bracket, unless an opening one is nearer. -/
def insideLength? : List Char → Option Nat
  | [] => none
  | c :: cs =>
    if c = ']' then some 0 else if c = '[' then none else (insideLength? cs).map (· + 1)

/-- The length of the inside of a tag whose opening bracket has just been read. -/
def tagLength? (cs : List Char) : Option Nat :=
  if cs.head?.any startsTag then insideLength? cs else none

/-- A part of a marked-up text: text, or a tag with the offset of its opening bracket. -/
inductive Piece where
  | text (cs : List Char)
  | tag (offset : Nat) (inside : List Char)
  deriving DecidableEq, Repr

def backslashes (n : Nat) : List Char := List.replicate n '\\'

/-- The pieces of a marked-up text from an offset on, after `slashes` backslashes, skipping the
`skip` characters that the previous tag still covers. A bracket without a tag loses one of the
backslashes in front of it. -/
def piecesFrom (skip offset slashes : Nat) : List Char → List Piece
  | [] => [.text (backslashes slashes)]
  | c :: cs =>
    match skip with
    | skip + 1 => piecesFrom skip (offset + 1) 0 cs
    | 0 =>
      if c = '\\' then piecesFrom 0 (offset + 1) (slashes + 1) cs
      else if c = '[' then
        match tagLength? cs with
        | none => .text (backslashes (slashes - 1) ++ [c]) :: piecesFrom 0 (offset + 1) 0 cs
        | some length =>
          let tag :=
            if slashes % 2 = 0 then Piece.tag offset (cs.take length)
            else .text (c :: cs.take (length + 1))
          .text (backslashes (slashes / 2)) :: tag :: piecesFrom (length + 1) (offset + 1) 0 cs
      else .text (backslashes slashes ++ [c]) :: piecesFrom 0 (offset + 1) 0 cs

/-- The pieces of a marked-up text. -/
def pieces (cs : List Char) : List Piece := piecesFrom 0 0 0 cs

/-! ### What is shown -/

/-- What is shown of some pieces while the styles in `opened` are open, the last one first. What
stands behind an equals sign in a tag does not name the style. -/
def shownFrom (opened : List String) : List Piece → Except Fault (List Char)
  | [] => .ok []
  | .text cs :: rest => (shownFrom opened rest).map (cs ++ ·)
  | .tag offset inside :: rest =>
    match inside.takeWhile (· ≠ '=') with
    | '/' :: name =>
      let name := Text.trim (String.ofList name)
      if name.isEmpty then
        match opened with
        | [] => .error (.nothingOpen offset)
        | _ :: opened => shownFrom opened rest
      else
        let style := Style.normal name
        if opened.contains style then shownFrom (opened.erase style) rest
        else .error (.unopened (String.ofList ('[' :: inside ++ [']'])) offset)
    | name => shownFrom (Style.normal (String.ofList name) :: opened) rest

/-- What is shown of a marked-up text. -/
def shown (s : String) : Except Fault (List Char) := shownFrom [] (pieces s.toList)

/-- What is shown of a text whose tags have been made ordinary text, after `slashes` backslashes. A
single backslash at the end is doubled. -/
def literalFrom (skip slashes : Nat) : List Char → List Char
  | [] => backslashes (if slashes = 1 then 2 else slashes)
  | c :: cs =>
    match skip with
    | skip + 1 => c :: literalFrom skip 0 cs
    | 0 =>
      if c = '\\' then literalFrom 0 (slashes + 1) cs
      else if c = '[' then
        match tagLength? cs with
        | none => backslashes (slashes - 1) ++ c :: literalFrom 0 0 cs
        | some length => backslashes slashes ++ c :: literalFrom (length + 1) 0 cs
      else backslashes slashes ++ c :: literalFrom 0 0 cs

/-- What is shown of a text whose tags have been made ordinary text. -/
def literal (s : String) : List Char := literalFrom 0 0 s.toList

end NullSafeEq.Report.Markup
