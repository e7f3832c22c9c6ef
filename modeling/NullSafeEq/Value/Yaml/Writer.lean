import NullSafeEq.Value.Yaml.Cursor

/-!
# Writing YAML

A mapping as a document in block form. Keys are in the order of their code points, and the items of
a sequence under a key start at the column of the key. A text is written plain if it reads back as
itself, in single quotes if it can be, and otherwise in double quotes with ASCII characters only.
Long texts are folded at blanks.
-/
namespace NullSafeEq.Yaml

/-- A line may end at the first blank behind this column. -/
def width : Nat := 80

/-- Blanks. -/
def pad (count : Nat) : List Char := List.replicate count ' '

/-- A new line with an indentation. -/
def newline (indent : Nat) : List Char := '\n' :: pad indent

/-! ### The style of a text -/

inductive Style where
  | plain | single | double
  deriving DecidableEq, Repr

/-- A character that every style but double quotes leaves as it is. -/
def isSimple (c : Char) : Bool := c = '\n' || (' ' ≤ c && c ≤ '~')

/-- Whether two neighbours satisfy a test. -/
def anyPair (test : Char → Char → Bool) : List Char → Bool
  | a :: b :: rest => test a b || anyPair test (b :: rest)
  | _ => false

/-- Whether a text starts like something else than a plain scalar. -/
def startsSpecial : List Char → Bool
  | [] => true
  | c :: rest =>
    ['#', ',', '[', ']', '\x7b', '\x7d', '&', '*', '!', '|', '>', '\'', '"', '%', '@',
      '\x60'].contains c ||
    (['?', ':', '-'].contains c && endsWord rest) ||
    ['-', '-', '-'].isPrefixOf (c :: rest) || ['.', '.', '.'].isPrefixOf (c :: rest)

/-- Whether a colon before a blank or the end, or a number sign after a blank, would end a plain
scalar. -/
def endsInside (cs : List Char) : Bool :=
  cs.getLast? = some ':' ||
    anyPair (fun a b => (a = ':' && endsWord [b]) || (endsWord [a] && b = '#')) cs

/-- Blanks or line feeds. -/
def isSpace (c : Char) : Bool := c = ' ' || c = '\n'

/-- Whether a text can be written without quotes, apart from what it would stand for. -/
def canBePlain (cs : List Char) : Bool :=
  cs.all (fun c => isSimple c && c ≠ '\n') && !(cs.head?.any isSpace) &&
    !(cs.getLast?.any isSpace) && !startsSpecial cs && !endsInside cs

/-- Whether a text can be written in single quotes: no blank is next to a line feed. -/
def canBeSingle (cs : List Char) : Bool :=
  cs.all isSimple && !anyPair (fun a b => (a = ' ' && b = '\n') || (a = '\n' && b = ' ')) cs

/-- The style of a text. -/
def styleOf (s : String) : Style :=
  if canBePlain s.toList && isOwnText s then .plain
  else if canBeSingle s.toList then .single
  else .double

/-! ### Folding -/

/-- The characters of a plain text or, with `quoted`, of one in single quotes, from a column on.
With `fold`, a single blank between other characters behind the width becomes a new line. A line
feed is written twice and further ones after it once; a single quote in quotes is written twice. -/
def foldedChars (fold quoted : Bool) (indent column : Nat) (before : Option Char) :
    List Char → List Char
  | [] => []
  | c :: rest =>
    let alone := before.any (· ≠ ' ') && rest.head?.any (· ≠ ' ')
    if c = '\n' then
      let lines := if before = some '\n' then ['\n'] else ['\n', '\n']
      if rest.head? = some '\n' then
        lines ++ foldedChars fold quoted indent column (some c) rest
      else lines ++ pad indent ++ foldedChars fold quoted indent indent (some c) rest
    else if c = ' ' && fold && alone && width < column then
      newline indent ++ foldedChars fold quoted indent indent (some c) rest
    else if c = '\'' && quoted then
      '\'' :: '\'' :: foldedChars fold quoted indent (column + 2) (some c) rest
    else c :: foldedChars fold quoted indent (column + 1) (some c) rest

/-- The letters of the escapes that have one. -/
def letterEscapes : List (Nat × Char) :=
  [(0, '0'), (7, 'a'), (8, 'b'), (9, 't'), (0xa, 'n'), (0xb, 'v'), (0xc, 'f'), (0xd, 'r'),
   (0x1b, 'e'), (0x22, '"'), (0x5c, '\\'), (0x85, 'N'), (0xa0, '_'), (0x2028, 'L'), (0x2029, 'P')]

/-- `count` upper case hexadecimal digits. -/
def upperHex (count n : Nat) : List Char := (Text.hexDigits count n).map Char.toUpper

/-- A text in double quotes shows a character as it is or by its escape. -/
def escape (p : Text.CodePoint) : Char ⊕ List Char :=
  match p with
  | .surrogate code => .inr ('\\' :: 'u' :: upperHex 4 code)
  | .char c =>
    let n := c.toNat
    if ' ' ≤ c && c ≤ '~' && c ≠ '"' && c ≠ '\\' then .inl c
    else
      match letterEscapes.lookup n with
      | some letter => .inr ['\\', letter]
      | none =>
        if n ≤ 0xff then .inr ('\\' :: 'x' :: upperHex 2 n)
        else if n ≤ 0xffff then .inr ('\\' :: 'u' :: upperHex 4 n)
        else .inr ('\\' :: 'U' :: upperHex 8 n)

/-- The characters of a text in double quotes from a column on. With `fold`, a line behind the width
ends with a backslash before a blank or next to an escape; a blank at the start of the next line
gets a backslash. The first and the last character stay where they are; `first` marks the first
one, and `escaped` a character behind an escape. -/
def escapedChars (fold : Bool) (indent column : Nat) (first escaped : Bool) :
    List Text.CodePoint → List Char
  | [] => []
  | p :: rest =>
    let inner := fold && !first && !rest.isEmpty
    match escape p with
    | .inr e =>
      let column := column + e.length
      if inner && width + 1 < column then
        if rest.head? = some (.char ' ') then
          e ++ '\\' :: newline indent ++
            '\\' :: escapedChars fold indent (indent + 1) false true rest
        else e ++ '\\' :: newline indent ++ escapedChars fold indent indent false true rest
      else e ++ escapedChars fold indent column false true rest
    | .inl c =>
      if inner && (c = ' ' || escaped) && width < column then
        if c = ' ' then
          '\\' :: newline indent ++
            '\\' :: c :: escapedChars fold indent (indent + 2) false false rest
        else '\\' :: newline indent ++ c :: escapedChars fold indent (indent + 1) false false rest
      else c :: escapedChars fold indent (column + 1) false false rest

/-- Code points in double quotes from a column on. -/
def writeDouble (fold : Bool) (indent column : Nat) (ps : List Text.CodePoint) : List Char :=
  '"' :: escapedChars fold indent (column + 1) true false ps ++ ['"']

/-- A text from a column on, with the indentation of its further lines. -/
def writeText (fold : Bool) (indent column : Nat) (s : String) : List Char :=
  match styleOf s with
  | .plain => foldedChars fold false indent column none s.toList
  | .single => '\'' :: foldedChars fold true indent (column + 1) none s.toList ++ ['\'']
  | .double => writeDouble fold indent column (Text.points s)

/-! ### Values -/

/-- The text of a real number; the part before an exponent has a point. -/
def realText : Binary64 → List Char
  | .nan => ".nan".toList
  | .infinity negative => (if negative then "-.inf" else ".inf").toList
  | x =>
    let cs := x.text.toList
    if cs.contains '.' then cs else cs.flatMap fun c => if c = 'e' then ['.', '0', 'e'] else [c]

/-- Keys that are empty, long or more than a line stand behind a question mark. -/
def isShortKey : Key → Bool
  | .text s => !s.isEmpty && s.length < 123 && !s.toList.any isBreak
  | _ => true

/-- Lines at an indentation. -/
def block (indent : Nat) (texts : List (List Char)) : List Char :=
  (newline indent).intercalate texts

def isText : Key → Bool
  | .text _ => true
  | _ => false

/-- Whether a key may stand before another one, if both are texts. -/
def mayPrecede : Key → Key → Bool
  | .text a, .text b => !decide (b < a)
  | _, _ => true

/-- Texts in the order of their keys, if these are texts. -/
def byKey (texts : List (Key × List Char)) : List (List Char) :=
  let sorted := texts.mergeSort fun a b => mayPrecede a.1 b.1
  (if texts.all fun (k, _) => isText k then sorted else texts).map Prod.snd

/-- A key at an indentation; only texts need a style. -/
def writeKey (fold : Bool) (indent column : Nat) : Key → List Char
  | .text s => writeText fold indent column s
  | .null => "null".toList
  | .bool b => (if b then "true" else "false").toList
  | .int n => (toString n).toList
  | .real x => realText x
  | .date d => d.text.toList

mutual

/-- A value behind a key with its colon, which end at a column; the mapping is indented by `indent`.
A sequence starts on a new line at the column of the key and a mapping on one indented more. -/
def afterKey (indent column : Nat) : Value → List Char
  | .null => " null".toList
  | .bool b => ' ' :: (if b then "true" else "false").toList
  | .int n => ' ' :: (toString n).toList
  | .real x => ' ' :: realText x
  | .date d => ' ' :: d.text.toList
  | .text s => ' ' :: writeText true (indent + 2) (column + 1) s
  | .broken b => ' ' :: writeDouble true (indent + 2) (column + 1) b.points
  | .list [] => " []".toList
  | .list items => newline indent ++ block indent (itemTexts indent items)
  | .mapping [] => " \x7b\x7d".toList
  | .mapping entries =>
    newline (indent + 2) ++ block (indent + 2) (byKey (entryTexts (indent + 2) entries))

/-- A value behind a mark of one character at an indentation. A collection starts on the same
line. -/
def afterMark (indent : Nat) : Value → List Char
  | .null => " null".toList
  | .bool b => ' ' :: (if b then "true" else "false").toList
  | .int n => ' ' :: (toString n).toList
  | .real x => ' ' :: realText x
  | .date d => ' ' :: d.text.toList
  | .text s => ' ' :: writeText true (indent + 2) (indent + 2) s
  | .broken b => ' ' :: writeDouble true (indent + 2) (indent + 2) b.points
  | .list [] => " []".toList
  | .list items => ' ' :: block (indent + 2) (itemTexts (indent + 2) items)
  | .mapping [] => " \x7b\x7d".toList
  | .mapping entries => ' ' :: block (indent + 2) (byKey (entryTexts (indent + 2) entries))

/-- The items of a sequence at an indentation. -/
def itemTexts (indent : Nat) : List Value → List (List Char)
  | [] => []
  | v :: rest => ('-' :: afterMark indent v) :: itemTexts indent rest

/-- The entries of a mapping at an indentation with their keys. -/
def entryTexts (indent : Nat) : List (Key × Value) → List (Key × List Char)
  | [] => []
  | (key, v) :: rest =>
    let text :=
      if isShortKey key then
        let k := writeKey false (indent + 2) indent key
        k ++ ':' :: afterKey indent (indent + k.length + 1) v
      else
        '?' :: ' ' :: writeKey true (indent + 2) (indent + 2) key ++ newline indent ++
          ':' :: afterMark indent v
    (key, text) :: entryTexts indent rest

end

/-- The document of a mapping. -/
def write (entries : List (Key × Value)) : String :=
  match entries with
  | [] => "\x7b\x7d\n"
  | entries => String.ofList (block 0 (byKey (entryTexts 0 entries)) ++ ['\n'])

end NullSafeEq.Yaml
