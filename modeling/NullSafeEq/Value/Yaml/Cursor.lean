import NullSafeEq.Value.Yaml.Meaning

/-!
# Places in a YAML document

The indentation of a YAML document carries its structure, so reading keeps track of the column.
Between tokens stand blanks, comments and line breaks; a tab is no such blank.
-/
namespace NullSafeEq.Yaml

/-- The characters that end a line; a carriage return is not among them, as files are read with
line feeds only. -/
def isBreak (c : Char) : Bool :=
  c = '\n' || c.toNat = 0x85 || c.toNat = 0x2028 || c.toNat = 0x2029

/-- A character that may appear in a document. -/
def isAllowed (c : Char) : Bool :=
  let n := c.toNat
  c = '\t' || c = '\n' || c = '\r' || (0x20 ≤ n && n ≤ 0x7e) || n = 0x85 ||
    (0xa0 ≤ n && n ≤ 0xfffd) || 0x10000 ≤ n

/-- Whether the text is over, or goes on with a blank or a new line. -/
def endsWord : List Char → Bool
  | [] => true
  | c :: _ => isSpaceOrTab c || isBreak c

/-- A place in a document: what is left from there on, the line and the column, both from zero. -/
structure Cursor where
  rest : List Char
  line : Nat
  column : Nat
  deriving Repr

namespace Cursor

/-- The place after the first character of the rest. A byte order mark has no width. -/
def next (c : Cursor) : Cursor :=
  match c.rest with
  | [] => c
  | x :: rest =>
    if isBreak x then ⟨rest, c.line + 1, 0⟩
    else ⟨rest, c.line, if x.toNat = 0xfeff then c.column else c.column + 1⟩

/-- The first place from a line and a column on that is not in blanks or in a comment. -/
def seek (comment : Bool) (line column : Nat) : List Char → Cursor
  | [] => ⟨[], line, column⟩
  | x :: rest =>
    if isBreak x then seek false (line + 1) 0 rest
    else if comment || x = ' ' then seek comment line (column + 1) rest
    else if x = '#' then seek true line (column + 1) rest
    else ⟨x :: rest, line, column⟩

/-- The next token. -/
def toToken (c : Cursor) : Cursor := seek false c.line c.column c.rest

end Cursor

/-- Three dashes or three points on their own. -/
def startsMarker : List Char → Bool
  | a :: b :: c :: rest => a = b && b = c && (a = '-' || a = '.') && endsWord rest
  | _ => false

namespace Cursor

/-- Whether a line starts here with the marker of the start or the end of a document. -/
def atMarker (c : Cursor) : Bool := c.column = 0 && startsMarker c.rest

/-- Whether the document is over. -/
def atEnd (c : Cursor) : Bool := c.rest.isEmpty || c.atMarker

end Cursor

end NullSafeEq.Yaml
