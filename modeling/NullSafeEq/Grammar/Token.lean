import NullSafeEq.Expr.Basic
import NullSafeEq.Text.Numeral

/-!
# Tokens

How a text is cut into tokens. Two decisions depend on what came before: `!=` is one token only
where an operator may stand, and a word equal to a keyword is a name after a dot or after `new`.
A mode, which the previous token determines, carries that context. A character with which no token
starts becomes a token of its own that no expression contains.
-/
namespace NullSafeEq

inductive Token where
  | literal (kind : LiteralKind) (text : String)
  | name (id : String)
  | self (word : SelfWord)
  | create
  | bang
  | op (op : BinaryOp)
  | question | colon | comma | dot
  | openParen | closeParen | openSquare | closeSquare
  | stray (c : Char)
  deriving DecidableEq, Repr

/-- A token with the range of the text that it was read from. -/
structure Lexeme where
  token : Token
  span : Span
  deriving DecidableEq, Repr

/-- What the previous token says about the next one. -/
inductive Lexeme.Mode where
  /-- An operand is expected: at the start, after an operator, an opening bracket or a comma. -/
  | operand
  /-- An operand has ended. -/
  | operator
  /-- A dot outside a type name has been read. -/
  | member
  /-- A word of the type name after `new` is expected. -/
  | typeName
  /-- A word of the type name after `new` has been read. -/
  | typeTail
  deriving DecidableEq, Repr

namespace Lexeme

/-- The mode after a token. -/
def Mode.after (mode : Mode) : Token → Mode
  | .name _ => if mode = typeName then typeTail else operator
  | .literal .. | .self _ | .closeParen | .closeSquare => operator
  | .create => typeName
  | .dot => if mode = typeTail then typeName else member
  | _ => operand

/-- A word where keywords count. -/
def keywordOrName (word : String) : Token :=
  if word = "null" then .literal .null word
  else if word = "true" || word = "false" then .literal .boolean word
  else if word = "this" then .self .this
  else if word = "super" then .self .super
  else if word = "new" then .create
  else .name word

/-- A word after a dot, where only `this` and `super` are no names. -/
def selfOrName (word : String) : Token :=
  if word = "this" then .self .this
  else if word = "super" then .self .super
  else .name word

/-- What a word is in a mode. -/
def Mode.word (mode : Mode) (word : String) : Token :=
  match mode with
  | typeName => .name word
  | member => selfOrName word
  | _ => keywordOrName word

/-- White space between tokens. -/
def isSpace (c : Char) : Bool := c = ' ' || c = '\t' || c = '\n' || c = '\r' || c = '\x0c'

/-- A character that may start a name. Names are ASCII. -/
def isNameStart (c : Char) : Bool :=
  ('A' ≤ c && c ≤ 'Z') || ('a' ≤ c && c ≤ 'z') || c = '_' || c = '$'

/-- A character that may continue a name. -/
def isNameChar (c : Char) : Bool := isNameStart c || Text.isAsciiDigit c

/-- The number of decimal digits, of any script, at the start. -/
def digitCount (cs : List Char) : Nat := (cs.takeWhile Text.isDecimalDigit).length

/-- The length of a point with digits behind it at the start, and zero without digits. -/
def fractionLength : List Char → Nat
  | '.' :: cs => if digitCount cs = 0 then 0 else digitCount cs + 1
  | _ => 0

/-- The length of a type suffix of a number at the start. -/
def suffixLength : List Char → Nat
  | c :: _ => if "lLfFdD".toList.contains c then 1 else 0
  | [] => 0

/-- The length of the number at the start, as long as possible. -/
def numberLength (cs : List Char) : Nat :=
  let whole := digitCount cs
  let fraction := fractionLength (cs.drop whole)
  whole + fraction + suffixLength (cs.drop (whole + fraction))

/-- The number of characters up to and with the closing quote. A backslash takes the next
character with it, which must not be a line feed. -/
def quotedLength? (mark : Char) : List Char → Option Nat
  | [] => none
  | '\\' :: c :: cs => if c = '\n' then none else (quotedLength? mark cs).map (· + 2)
  | c :: cs =>
    if c = mark then some 1
    else if c = '\\' then none
    else (quotedLength? mark cs).map (· + 1)

/-- An operator or a bracket at the start, as long as possible, with its length. -/
def symbol (mode : Mode) : List Char → Token × Nat
  | '|' :: '|' :: _ => (.op .or, 2)
  | '&' :: '&' :: _ => (.op .and, 2)
  | '=' :: '=' :: _ => (.op .eq, 2)
  | '!' :: '=' :: _ => if mode = .operand then (.bang, 1) else (.op .ne, 2)
  | '<' :: '=' :: _ => (.op .le, 2)
  | '>' :: '=' :: _ => (.op .ge, 2)
  | '!' :: _ => (.bang, 1)
  | '<' :: _ => (.op .lt, 1)
  | '>' :: _ => (.op .gt, 1)
  | '+' :: _ => (.op .add, 1)
  | '-' :: _ => (.op .sub, 1)
  | '*' :: _ => (.op .mul, 1)
  | '/' :: _ => (.op .div, 1)
  | '%' :: _ => (.op .rem, 1)
  | '?' :: _ => (.question, 1)
  | ':' :: _ => (.colon, 1)
  | ',' :: _ => (.comma, 1)
  | '.' :: _ => (.dot, 1)
  | '(' :: _ => (.openParen, 1)
  | ')' :: _ => (.closeParen, 1)
  | '[' :: _ => (.openSquare, 1)
  | ']' :: _ => (.closeSquare, 1)
  | c :: _ => (.stray c, 1)
  | [] => (.stray ' ', 0)

/-- The token that starts with the character `c`, followed by `cs`, and its length. A character
literal has at least one character between its quotes. -/
def first (mode : Mode) (c : Char) (cs : List Char) : Token × Nat :=
  if isNameStart c then
    let word := c :: cs.takeWhile isNameChar
    (mode.word (String.ofList word), word.length)
  else if Text.isDecimalDigit c then
    let length := numberLength (c :: cs)
    (.literal .number (String.ofList ((c :: cs).take length)), length)
  else if c = '"' then
    match quotedLength? '"' cs with
    | some length => (.literal .string (String.ofList (c :: cs.take length)), length + 1)
    | none => (.stray c, 1)
  else if c = '\'' then
    match quotedLength? '\'' cs with
    | some length =>
      if length = 1 then (.stray c, 1)
      else (.literal .char (String.ofList (c :: cs.take length)), length + 1)
    | none => (.stray c, 1)
  else symbol mode (c :: cs)

/-- The tokens of a text from an offset on, after skipping the `skip` characters that the previous
token still covers. -/
def scan (mode : Mode) (skip offset : Nat) : List Char → List Lexeme
  | [] => []
  | c :: cs =>
    match skip with
    | skip + 1 => scan mode skip (offset + 1) cs
    | 0 =>
      if isSpace c then scan mode 0 (offset + 1) cs
      else
        let (token, length) := first mode c cs
        ⟨token, ⟨offset, offset + length⟩⟩ ::
          scan (mode.after token) (length - 1) (offset + 1) cs

/-- The tokens of a text. -/
def ofText (text : String) : List Lexeme := scan .operand 0 0 text.toList

end Lexeme

end NullSafeEq
