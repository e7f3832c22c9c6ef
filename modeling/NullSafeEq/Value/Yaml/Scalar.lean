import NullSafeEq.Value.Yaml.Cursor

/-!
# Scalars in a document

Plain and quoted scalars may run over several lines. A single line break within one counts as a
blank, and every further one as a line feed; the blanks around the breaks are dropped.
-/
namespace NullSafeEq.Yaml

/-- White space inside a scalar that counts only if the scalar goes on behind it. -/
inductive Gap where
  | none
  /-- Blanks on one line, in reverse. -/
  | blanks (soFar : List Char)
  /-- Line breaks, the further ones in reverse. No first one is there if it was escaped. -/
  | breaks (first : Option Char) (further : List Char)
  deriving Repr

namespace Gap

/-- A line separator or paragraph separator is kept, any other break is a line feed. -/
def breakChar (c : Char) : Char := if c.toNat = 0x85 then '\n' else c

/-- The characters that a gap stands for, in reverse. -/
def chars : Gap → List Char
  | none => []
  | blanks soFar => soFar
  | breaks first further =>
    match first with
    | some c => if c ≠ '\n' then further ++ [c] else if further.isEmpty then [' '] else further
    | Option.none => further

/-- The gap after one more blank; blanks at the start of a line do not count. -/
def addBlank (c : Char) : Gap → Gap
  | none => blanks [c]
  | blanks soFar => blanks (c :: soFar)
  | breaks first further => breaks first further

/-- The gap after one more line break; blanks at the end of a line do not count. -/
def addBreak (c : Char) : Gap → Gap
  | breaks first further => breaks first (breakChar c :: further)
  | _ => breaks (some (breakChar c)) []

/-- Whether the gap before a character ends a plain scalar: a comment starts there, or a line that
is not indented to the column `least`. -/
def stops (least : Nat) (c : Char) (column : Nat) : Gap → Bool
  | none => false
  | blanks _ => c = '#'
  | breaks _ _ => c = '#' || column < least

end Gap

/-! ### Plain scalars -/

/-- The brackets, braces and commas of flow collections. -/
def isFlowIndicator (c : Char) : Bool := [',', '[', ']', '\x7b', '\x7d'].contains c

/-- Whether a plain scalar stops before a text. -/
def stopsPlain (flow : Bool) : List Char → Bool
  | [] => true
  | c :: rest =>
    c = '\t' || (flow && (c = '?' || isFlowIndicator c)) ||
      (c = ':' && (endsWord rest || (flow && (rest.head?.map isFlowIndicator).getD false)))

/-- The characters that start something else than a plain scalar. -/
def indicators : List Char :=
  ['-', '?', ':', ',', '[', ']', '\x7b', '\x7d', '#', '&', '*', '!', '|', '>', '\'', '"', '%', '@',
   '\x60']

/-- Whether a plain scalar starts a text. -/
def startsPlain (flow : Bool) : List Char → Bool
  | [] => false
  | c :: rest =>
    !endsWord (c :: rest) &&
      (!indicators.contains c || (!endsWord rest && (c = '-' || (!flow && (c = '?' || c = ':')))))

/-- The rest of a plain scalar: `soFar` holds its characters in reverse and `behind` the place after
the last of them. A line that starts before the column `least`, a comment, or the end of the
document ends the scalar. -/
def plainRest (flow : Bool) (least : Nat) (soFar : List Char) (behind : Cursor) (gap : Gap)
    (line column : Nat) : List Char → List Char × Cursor
  | [] => (soFar.reverse, behind)
  | c :: rest =>
    if isBreak c then
      if startsMarker rest then (soFar.reverse, behind)
      else plainRest flow least soFar behind (gap.addBreak c) (line + 1) 0 rest
    else if c = ' ' then plainRest flow least soFar behind (gap.addBlank c) line (column + 1) rest
    else
      if gap.stops least c column || stopsPlain flow (c :: rest) then (soFar.reverse, behind)
      else
        let column := if c.toNat = 0xfeff then column else column + 1
        plainRest flow least (c :: (gap.chars ++ soFar)) ⟨rest, line, column⟩ .none line column rest

/-! ### Quoted scalars -/

/-- The escapes of one letter. -/
def escapes : List (Char × Nat) :=
  [('0', 0), ('a', 7), ('b', 8), ('t', 9), ('\t', 9), ('n', 0xa), ('v', 0xb), ('f', 0xc),
   ('r', 0xd), ('e', 0x1b), (' ', 0x20), ('"', 0x22), ('\\', 0x5c), ('/', 0x2f), ('N', 0x85),
   ('_', 0xa0), ('L', 0x2028), ('P', 0x2029)]

/-- The number of hexadecimal digits that follow the letter of an escape. -/
def codeLengths : List (Char × Nat) := [('x', 2), ('u', 4), ('U', 8)]

/-- Where reading stands inside a quoted scalar. -/
inductive Inside where
  | text (gap : Gap)
  /-- Behind a backslash. -/
  | escape
  /-- In the digits of a character code, of which some are left. -/
  | code (left value : Nat)

/-- The code point with a number. Escapes on their own make no surrogate pairs. -/
def codePoint? (n : Nat) : Option Text.CodePoint :=
  if n.isValidChar then some (.char (Char.ofNat n))
  else if n < 0x10000 then some (.surrogate n)
  else none

/-- The rest of a quoted scalar and the place behind its closing quote. Only double quotes know
escapes; in single quotes a quote is written twice. -/
def quotedRest (double : Bool) (soFar : List Text.CodePoint) (state : Inside) (line column : Nat) :
    List Char → Option (List Text.CodePoint × Cursor)
  | [] => none
  | c :: rest =>
    match state with
    | .escape =>
      if isBreak c then
        if startsMarker rest then none
        else quotedRest double soFar (.text (.breaks none [])) (line + 1) 0 rest
      else
        match escapes.lookup c, codeLengths.lookup c with
        | some n, _ =>
          quotedRest double (.char (Char.ofNat n) :: soFar) (.text .none) line (column + 1) rest
        | none, some length => quotedRest double soFar (.code length 0) line (column + 1) rest
        | none, none => none
    | .code left value =>
      match Json.hexValue? c with
      | none => none
      | some d =>
        let value := 16 * value + d
        if 1 < left then quotedRest double soFar (.code (left - 1) value) line (column + 1) rest
        else
          match codePoint? value with
          | some p => quotedRest double (p :: soFar) (.text .none) line (column + 1) rest
          | none => none
    | .text gap =>
      if isBreak c then
        if startsMarker rest then none
        else quotedRest double soFar (.text (gap.addBreak c)) (line + 1) 0 rest
      else if isSpaceOrTab c then
        quotedRest double soFar (.text (gap.addBlank c)) line (column + 1) rest
      else
        let soFar := gap.chars.map .char ++ soFar
        if c = '"' && double then some (soFar.reverse, ⟨rest, line, column + 1⟩)
        else if c = '\'' && !double then
          match rest with
          | '\'' :: rest =>
            quotedRest double (.char '\'' :: soFar) (.text .none) line (column + 2) rest
          | rest => some (soFar.reverse, ⟨rest, line, column + 1⟩)
        else if c = '\\' && double then quotedRest double soFar .escape line (column + 1) rest
        else quotedRest double (.char c :: soFar) (.text .none) line (column + 1) rest

/-- The code points of the quoted scalar at a place, with the place behind it. -/
def quoted? (double : Bool) (c : Cursor) : Option (List Text.CodePoint × Cursor) :=
  quotedRest double [] (.text .none) c.line (c.column + 1) (c.rest.drop 1)

/-- The text of the plain scalar at a place, with the place behind it. -/
def plain (flow : Bool) (least : Nat) (c : Cursor) : String × Cursor :=
  let (s, behind) := plainRest flow least [] c .none c.line c.column c.rest
  (String.ofList s, behind)

/-! ### Block scalars -/

/-- What becomes of the line breaks at the end of a block scalar. -/
inductive Chomping where
  /-- None is left. -/
  | strip
  /-- One is left. -/
  | clip
  /-- All are left. -/
  | keep
  deriving DecidableEq, Repr

/-- The characters behind the mark of a block scalar: how its end is chomped, how many blanks it is
indented by, and where the rest of the line starts. -/
def blockHeader? (c : Cursor) : Option (Chomping × Option Nat × Cursor) :=
  let chomping? (x : Char) : Option Chomping :=
    if x = '+' then some .keep else if x = '-' then some .strip else none
  let blanks? (x : Char) : Option Nat :=
    if '1' ≤ x && x ≤ '9' then some (x.toNat - 48) else none
  match c.rest with
  | [] => some (.clip, none, c)
  | x :: rest =>
    match chomping? x, blanks? x, rest.head?.bind chomping?, rest.head?.bind blanks? with
    | some chomping, _, _, some n => some (chomping, some n, c.next.next)
    | some chomping, _, _, none => some (chomping, none, c.next)
    | none, some n, some chomping, _ => some (chomping, some n, c.next.next)
    | none, some n, none, _ => some (.clip, some n, c.next)
    | none, none, _, _ => some (.clip, none, c)

/-- The place behind a line on which nothing is left but blanks and a comment. -/
def endOfLine? (comment : Bool) (line column : Nat) : List Char → Option Cursor
  | [] => some ⟨[], line, column⟩
  | x :: rest =>
    if isBreak x then some ⟨rest, line + 1, 0⟩
    else if comment || x = ' ' then endOfLine? comment line (column + 1) rest
    else if x = '#' then endOfLine? true line (column + 1) rest
    else none

/-- The line breaks of empty lines, each with at most `most` blanks, and the place behind them and
behind the blanks of the next line. -/
def emptyLines (most : Nat) (line column : Nat) : List Char → List Char × Cursor
  | [] => ([], ⟨[], line, column⟩)
  | x :: rest =>
    if isBreak x then
      let (breaks, behind) := emptyLines most (line + 1) 0 rest
      (Gap.breakChar x :: breaks, behind)
    else if x = ' ' && column < most then emptyLines most line (column + 1) rest
    else ([], ⟨x :: rest, line, column⟩)

/-- The greatest number of blanks on the empty lines from here on and at the start of the line
behind them. -/
def greatestIndent (most column : Nat) : List Char → Nat
  | [] => max most column
  | x :: rest =>
    if isBreak x then greatestIndent (max most column) 0 rest
    else if x = ' ' then greatestIndent most (column + 1) rest
    else max most column

/-- The characters of a line, with its break, if there is one, and what is behind it. -/
def lineOf : List Char → List Char × Option Char × List Char
  | [] => ([], none, [])
  | x :: rest =>
    if isBreak x then ([], some (Gap.breakChar x), rest)
    else
      let (line, lineBreak, behind) := lineOf rest
      (x :: line, lineBreak, behind)

/-- Whether a text starts with a blank or a tab. -/
def startsBlank (cs : List Char) : Bool := cs.head?.any isSpaceOrTab

/-- The lines of a block scalar at an indentation, from the place `c` on, before which the `breaks`
of empty lines stand. In a folded scalar a single line feed between two lines without further
blanks in front becomes a blank, and of several the first is dropped. -/
def blockLines (folded : Bool) (chomping : Chomping) (indent : Nat) :
    (fuel : Nat) → (breaks : List Char) → Cursor → List Char × Cursor
  | 0, _, c => ([], c)
  | fuel + 1, breaks, c =>
    let (text, lineBreak, rest) := lineOf c.rest
    let (further, next) := emptyLines indent (c.line + lineBreak.toList.length) 0 rest
    let next := if lineBreak.isNone then ⟨[], c.line, c.column + text.length⟩ else next
    if next.column = indent && !next.rest.isEmpty then
      let joint :=
        if folded && lineBreak = some '\n' && !startsBlank text && !startsBlank next.rest then
          if further.isEmpty then [' '] else []
        else lineBreak.toList
      let (others, behind) := blockLines folded chomping indent fuel further next
      (breaks ++ text ++ joint ++ others, behind)
    else
      let tail :=
        match chomping with
        | .strip => []
        | .clip => lineBreak.toList
        | .keep => lineBreak.toList ++ further
      (breaks ++ text ++ tail, next)

/-- The text of the block scalar at a place, in a collection that is indented to the column before
`least`, with the place behind it. -/
def block? (least : Nat) (c : Cursor) : Option (String × Cursor) := do
  let folded := c.rest.head? = some '>'
  let (chomping, blanks, header) ← blockHeader? c.next
  guard (endsWord header.rest && !(header.rest.head? = some '\t'))
  let body ← endOfLine? false header.line header.column header.rest
  let least := max least 1
  let indent :=
    match blanks with
    | some n => least + n - 1
    | none => max least (greatestIndent 0 0 body.rest)
  let (breaks, first) := emptyLines indent body.line body.column body.rest
  if first.column = indent && !first.rest.isEmpty then
    let (text, behind) := blockLines folded chomping indent (c.rest.length + 1) breaks first
    return (String.ofList text, behind)
  else return (String.ofList (if chomping = .keep then breaks else []), first)

end NullSafeEq.Yaml
