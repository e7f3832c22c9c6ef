import NullSafeEq.Value.Basic
import NullSafeEq.Text.Lines

/-!
# JSON

Reading a JSON document into a value, with the place and the kind of the first fault, and writing
a value with one entry per line. Numbers with a point or an exponent are real, all others whole;
whole numbers have a limited number of digits. The constants `NaN`, `Infinity` and `-Infinity` are
read too.
-/
namespace NullSafeEq.Json

inductive FaultKind where
  | value | propertyName | comma | colon | extraData | controlCharacter | escape | codeEscape
  | unterminated | byteOrderMark
  /-- A whole number has too many digits. -/
  | longNumeral (digits : Nat)
  deriving DecidableEq, Repr

def FaultKind.message : FaultKind → String
  | value => "Expecting value"
  | propertyName => "Expecting property name enclosed in double quotes"
  | comma => "Expecting ',' delimiter"
  | colon => "Expecting ':' delimiter"
  | extraData => "Extra data"
  | controlCharacter => "Invalid control character at"
  | escape => "Invalid \\escape"
  | codeEscape => "Invalid \\uXXXX escape"
  | unterminated => "Unterminated string starting at"
  | byteOrderMark => "Unexpected UTF-8 BOM (decode using utf-8-sig)"
  | longNumeral digits => Text.limitMessage digits

/-- A fault, with the number of characters from its place to the end of the document. -/
structure Fault where
  kind : FaultKind
  left : Nat
  deriving DecidableEq, Repr

/-- Whether a fault is one of the number that is written and not of the document. -/
def Fault.isNumeric (f : Fault) : Bool :=
  match f.kind with
  | .longNumeral _ => true
  | _ => false

/-- The wording of a fault in a document. -/
def Fault.message (f : Fault) (document : List Char) : String :=
  let offset := document.length - f.left
  let p := Text.Place.ofOffset document offset
  if f.isNumeric then f.kind.message
  else s!"{f.kind.message}: line {p.line} column {p.column} (char {offset})"

def isSpace (c : Char) : Bool := c = ' ' || c = '\t' || c = '\n' || c = '\r'

def skipSpace (cs : List Char) : List Char := cs.dropWhile isSpace

/-! ### Strings -/

def hexValue? (c : Char) : Option Nat :=
  if '0' ≤ c && c ≤ '9' then some (c.toNat - 48)
  else if 'a' ≤ c && c ≤ 'f' then some (c.toNat - 87)
  else if 'A' ≤ c && c ≤ 'F' then some (c.toNat - 55)
  else none

/-- The number of four hexadecimal digits. -/
def hex4? (a b c d : Char) : Option Nat :=
  match hexValue? a, hexValue? b, hexValue? c, hexValue? d with
  | some a, some b, some c, some d => some (((a * 16 + b) * 16 + c) * 16 + d)
  | _, _, _, _ => none

/-- The character after a backslash, for the escapes of one letter. -/
def simpleEscape? : Char → Option Char
  | '"' => some '"'
  | '\\' => some '\\'
  | '/' => some '/'
  | 'b' => some '\x08'
  | 'f' => some '\x0c'
  | 'n' => some '\n'
  | 'r' => some '\r'
  | 't' => some '\t'
  | _ => none

def isHighSurrogate (n : Nat) : Bool := 0xd800 ≤ n && n ≤ 0xdbff

def isLowSurrogate (n : Nat) : Bool := 0xdc00 ≤ n && n ≤ 0xdfff

/-- The code point with a number below 0x10000. -/
def codePoint (n : Nat) : Text.CodePoint :=
  if isHighSurrogate n || isLowSurrogate n then .surrogate n else .char (Char.ofNat n)

/-- The code point that the escape after `\\u` stands for, and the number of characters read. Two
escapes that form a surrogate pair stand for one character. At least one character must follow. -/
def codeEscape (cs : List Char) : Except Fault (Text.CodePoint × Nat) :=
  match cs with
  | a :: b :: c :: d :: e :: rest =>
    match hex4? a b c d with
    | none => .error ⟨.codeEscape, cs.length + 1⟩
    | some high =>
      match e :: rest with
      | '\\' :: 'u' :: a' :: b' :: c' :: d' :: f :: rest' =>
        if isHighSurrogate high then
          match hex4? a' b' c' d' with
          | none => .error ⟨.codeEscape, (f :: rest').length + 5⟩
          | some low =>
            if isLowSurrogate low then
              .ok (.char (Char.ofNat (0x10000 + (high - 0xd800) * 0x400 + (low - 0xdc00))), 10)
            else .ok (codePoint high, 4)
        else .ok (codePoint high, 4)
      | _ => .ok (codePoint high, 4)
  | _ => .error ⟨.codeEscape, cs.length + 1⟩

/-- The code point that the escape after a backslash stands for, and the number of characters read.
`opening` is the number of characters from the opening quote to the end. -/
def escaped (opening : Nat) : List Char → Except Fault (Text.CodePoint × Nat)
  | [] => .error ⟨.unterminated, opening⟩
  | 'u' :: cs => (codeEscape cs).map fun (c, n) => (c, n + 1)
  | c :: cs =>
    match simpleEscape? c with
    | some e => .ok (.char e, 1)
    | none => .error ⟨.escape, cs.length + 2⟩

/-- The rest of a string after its opening quote, with what follows the closing one. `opening` is
the number of characters from the opening quote to the end, `soFar` is in reverse, and `skip`
characters still belong to an escape. -/
def stringRest (opening : Nat) (soFar : List Text.CodePoint) (skip : Nat) :
    List Char → Except Fault (List Text.CodePoint × List Char)
  | [] => .error ⟨.unterminated, opening⟩
  | c :: cs =>
    match skip with
    | skip + 1 => stringRest opening soFar skip cs
    | 0 =>
      if c = '"' then .ok (soFar.reverse, cs)
      else if c = '\\' then
        match escaped opening cs with
        | .error fault => .error fault
        | .ok (e, length) => stringRest opening (e :: soFar) length cs
      else if c.toNat < 0x20 then .error ⟨.controlCharacter, cs.length + 1⟩
      else stringRest opening (.char c :: soFar) 0 cs

/-! ### Numbers and constants -/

def digitsOf (cs : List Char) : List Char := cs.takeWhile fun c => '0' ≤ c && c ≤ '9'

def natOf (digits : List Char) : Nat := digits.foldl (fun n c => 10 * n + (c.toNat - 48)) 0

/-- A point with digits behind it: the digits, and what follows. -/
def fractionPart : List Char → List Char × List Char
  | '.' :: cs =>
    let ds := digitsOf cs
    if ds.isEmpty then ([], '.' :: cs) else (ds, cs.drop ds.length)
  | cs => ([], cs)

/-- An exponent with digits in it: its value, and what follows. -/
def exponentPart (cs : List Char) : Option Int × List Char :=
  match cs with
  | e :: rest =>
    if e = 'e' || e = 'E' then
      let (negative, rest) :=
        match rest with
        | '-' :: r => (true, r)
        | '+' :: r => (false, r)
        | r => (false, r)
      let ds := digitsOf rest
      if ds.isEmpty then (none, cs)
      else
        let n := Int.ofNat (natOf ds)
        (some (if negative then -n else n), rest.drop ds.length)
    else (none, cs)
  | [] => (none, cs)

/-- A number without its sign, with what follows. -/
def number? (negative : Bool) (cs : List Char) : Option (Value × List Char) :=
  let whole :=
    match cs with
    | '0' :: _ => ['0']
    | _ => digitsOf cs
  if whole.isEmpty then none
  else
    let (fraction, rest) := fractionPart (cs.drop whole.length)
    let (exponent, rest) := exponentPart rest
    if fraction.isEmpty && exponent.isNone then
      let n := Int.ofNat (natOf whole)
      some (.int (if negative then -n else n), rest)
    else
      let power := exponent.getD 0 - Int.ofNat fraction.length
      some (.real (Binary64.ofDecimal negative (natOf (whole ++ fraction)) power), rest)

/-- The text after a word, if it starts with that word. -/
def after? (word : String) (cs : List Char) : Option (List Char) :=
  if word.toList.isPrefixOf cs then some (cs.drop word.length) else none

/-- The words that stand for values. -/
def constants : List (String × Value) :=
  [("null", .null), ("true", .bool true), ("false", .bool false), ("NaN", .real .nan),
   ("Infinity", .real (.infinity false)), ("-Infinity", .real (.infinity true))]

/-- A constant or a number at the start. -/
def atom? (cs : List Char) : Option (Value × List Char) :=
  match constants.findSome? fun (word, v) => (after? word cs).map fun rest => (v, rest) with
  | some found => some found
  | none =>
    match cs with
    | '-' :: rest => number? true rest
    | _ => number? false cs

/-! ### Documents -/

/-- A value that was read where there were `left` characters: whole numbers keep the limit. -/
def withinLimit (left : Nat) : Value × List Char → Except Fault (Value × List Char)
  | (.int n, rest) =>
    if Text.isShort n then .ok (.int n, rest)
    else .error ⟨.longNumeral (Nat.toDigits 10 n.natAbs).length, left⟩
  | found => .ok found

/-- The key that a text of code points makes. -/
def keyOf (ps : List Text.CodePoint) : Key :=
  match Text.ofPoints ps with
  | .inl b => .text b.shown
  | .inr s => .text s

mutual

/-- A value at the start, with what follows. Every call uses up one unit of fuel, and none is made
without reading a character. -/
def value : Nat → List Char → Except Fault (Value × List Char)
  | 0, cs => .error ⟨.value, cs.length⟩
  | fuel + 1, cs =>
    match cs with
    | '"' :: rest => (stringRest cs.length [] 0 rest).map fun (ps, rest) => (.ofPoints ps, rest)
    | '\x7b' :: rest =>
      match skipSpace rest with
      | '\x7d' :: rest => .ok (.mapping [], rest)
      | rest => (members fuel [] rest).map fun (entries, rest) => (.mapping entries, rest)
    | '[' :: rest =>
      match skipSpace rest with
      | ']' :: rest => .ok (.list [], rest)
      | rest => (elements fuel rest).map fun (items, rest) => (.list items, rest)
    | _ =>
      match atom? cs with
      | some found => withinLimit cs.length found
      | none => .error ⟨.value, cs.length⟩

/-- The members of an object up to and with its closing brace. -/
def members (fuel : Nat) (soFar : List (Key × Value)) (cs : List Char) :
    Except Fault (List (Key × Value) × List Char) :=
  match fuel with
  | 0 => .error ⟨.propertyName, cs.length⟩
  | fuel + 1 =>
    match cs with
    | '"' :: rest => do
      let (name, rest) ← stringRest cs.length [] 0 rest
      match skipSpace rest with
      | ':' :: rest =>
        let (v, rest) ← value fuel (skipSpace rest)
        let soFar := Value.insert (keyOf name) v soFar
        match skipSpace rest with
        | '\x7d' :: rest => .ok (soFar, rest)
        | ',' :: rest => members fuel soFar (skipSpace rest)
        | rest => .error ⟨.comma, rest.length⟩
      | rest => .error ⟨.colon, rest.length⟩
    | _ => .error ⟨.propertyName, cs.length⟩

/-- The elements of an array up to and with its closing bracket. -/
def elements (fuel : Nat) (cs : List Char) : Except Fault (List Value × List Char) :=
  match fuel with
  | 0 => .error ⟨.value, cs.length⟩
  | fuel + 1 => do
    let (v, rest) ← value fuel cs
    match skipSpace rest with
    | ']' :: rest => .ok ([v], rest)
    | ',' :: rest =>
      let (items, rest) ← elements fuel (skipSpace rest)
      .ok (v :: items, rest)
    | rest => .error ⟨.comma, rest.length⟩

end

/-- The value of a whole document. -/
def document (cs : List Char) : Except Fault Value := do
  if (cs.head?.map Char.toNat) = some 0xfeff then .error ⟨.byteOrderMark, cs.length⟩
  let (v, rest) ← value (2 * cs.length + 2) (skipSpace cs)
  match skipSpace rest with
  | [] => .ok v
  | rest => .error ⟨.extraData, rest.length⟩

/-- Read a document; the error is the wording of the first fault. -/
def read (s : String) : Except String Value :=
  (document s.toList).mapError fun f => f.message s.toList

/-! ### Writing -/

/-- The escape of one unit of sixteen bits. -/
def unitEscape (n : Nat) : List Char := '\\' :: 'u' :: Text.hexDigits 4 n

/-- One character inside a string; with `ascii` only printable ASCII characters are written. -/
def escapeChar (ascii : Bool) (c : Char) : List Char :=
  if c = '"' then ['\\', '"']
  else if c = '\\' then ['\\', '\\']
  else if c = '\n' then ['\\', 'n']
  else if c = '\r' then ['\\', 'r']
  else if c = '\t' then ['\\', 't']
  else if c = '\x08' then ['\\', 'b']
  else if c = '\x0c' then ['\\', 'f']
  else if c.toNat < 0x20 then unitEscape c.toNat
  else if ascii && 0x7e < c.toNat then
    if c.toNat < 0x10000 then unitEscape c.toNat
    else
      let n := c.toNat - 0x10000
      unitEscape (0xd800 + n / 0x400) ++ unitEscape (0xdc00 + n % 0x400)
  else [c]

def quote (ascii : Bool) (s : String) : String :=
  String.ofList ('"' :: s.toList.flatMap (escapeChar ascii) ++ ['"'])

/-- A broken text in quotes. Only escapes can stand for its surrogates; without them the text is
written as it is shown. -/
def quoteBroken (ascii : Bool) (b : Text.Broken) : String :=
  if ascii then
    String.ofList ('"' :: (b.points.flatMap fun
      | .char c => escapeChar true c
      | .surrogate code => unitEscape code) ++ ['"'])
  else quote false b.shown

/-- The text of a real number. -/
def realText : Binary64 → String
  | .nan => "NaN"
  | .infinity negative => if negative then "-Infinity" else "Infinity"
  | x => x.text

/-- The text of a key. -/
def keyText : Key → String
  | .text s => s
  | .null => "null"
  | .bool b => if b then "true" else "false"
  | .int n => toString n
  | .real x => realText x
  | .date d => d.text

/-- A new line with an indentation. -/
def newline (depth : Nat) : String := String.ofList ('\n' :: List.replicate (2 * depth) ' ')

mutual

/-- A value with two blanks of indentation per level. -/
def writeAt (ascii : Bool) (depth : Nat) : Value → String
  | .null => "null"
  | .bool b => if b then "true" else "false"
  | .int n => toString n
  | .real x => realText x
  | .date d => quote ascii d.text
  | .text s => quote ascii s
  | .broken b => quoteBroken ascii b
  | .list [] => "[]"
  | .list items =>
    "[" ++ String.intercalate "," (writeItems ascii (depth + 1) items) ++ newline depth ++ "]"
  | .mapping [] => "\x7b\x7d"
  | .mapping entries =>
    "\x7b" ++ String.intercalate "," (writeEntries ascii (depth + 1) entries) ++ newline depth ++
      "\x7d"

def writeItems (ascii : Bool) (depth : Nat) : List Value → List String
  | [] => []
  | v :: rest => (newline depth ++ writeAt ascii depth v) :: writeItems ascii depth rest

def writeEntries (ascii : Bool) (depth : Nat) : List (Key × Value) → List String
  | [] => []
  | (k, v) :: rest =>
    (newline depth ++ quote ascii (keyText k) ++ ": " ++ writeAt ascii depth v) ::
      writeEntries ascii depth rest

end

/-- A document with one entry per line and without a final line feed. -/
def write (ascii : Bool) (v : Value) : String := writeAt ascii 0 v

end NullSafeEq.Json
