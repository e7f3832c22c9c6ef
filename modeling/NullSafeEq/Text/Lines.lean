/-!
# Lines and columns

A place in a text is a line and a column, both counted from one. Only the line feed ends a line
there, and a column counts code points. Reading a file turns `\r\n` and a lone `\r` into a line
feed. A text is cut into lines after line feeds, vertical tabs, form feeds, the information
separators U+001C to U+001E, U+0085 and the line and paragraph separators; a terminator at the end
opens no further line.
-/
namespace NullSafeEq.Text

/-! ### Places -/

structure Place where
  line : Nat
  column : Nat
  deriving DecidableEq, Repr

/-- The place after reading some characters from a given place. -/
def Place.advance : Place → List Char → Place
  | p, [] => p
  | p, c :: cs => Place.advance (if c = '\n' then ⟨p.line + 1, 1⟩ else ⟨p.line, p.column + 1⟩) cs

/-- The place of an offset in a text. -/
def Place.ofOffset (cs : List Char) (offset : Nat) : Place :=
  Place.advance ⟨1, 1⟩ (cs.take offset)

/-- The code points of a text from `start` up to `stop`; what lies past the end is cut off. -/
def slice (s : String) (start stop : Nat) : String :=
  String.ofList ((s.toList.drop start).take (stop - start))

/-! ### Lines of a file -/

/-- Every `\r\n` and every lone `\r` as a line feed. -/
def unifyNewlines : List Char → List Char
  | [] => []
  | '\r' :: '\n' :: cs => '\n' :: unifyNewlines cs
  | c :: cs => (if c = '\r' then '\n' else c) :: unifyNewlines cs

/-- The characters that end a line. -/
def endsLine (c : Char) : Bool :=
  [0xa, 0xb, 0xc, 0xd, 0x1c, 0x1d, 0x1e, 0x85, 0x2028, 0x2029].contains c.toNat

/-- The lines of a text, where `line` holds the characters of the current line in reverse. -/
def linesFrom (line : List Char) : List Char → List (List Char)
  | [] => if line.isEmpty then [] else [line.reverse]
  | '\r' :: '\n' :: cs => line.reverse :: linesFrom [] cs
  | c :: cs => if endsLine c then line.reverse :: linesFrom [] cs else linesFrom (c :: line) cs

/-- The lines of a text without their terminators. -/
def lines (s : String) : List String := (linesFrom [] s.toList).map String.ofList

end NullSafeEq.Text
