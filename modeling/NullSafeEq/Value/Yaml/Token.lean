import NullSafeEq.Value.Yaml.Scalar

/-!
# Tokens of a YAML document

How a text is cut into tokens. Indentation makes tokens of its own: a token opens a block
collection where its first entry starts, and another one closes it where a line starts further to
the left. Whether a token starts a key shows only at the colon behind it, which has to stand on the
same line and not too far off; the token for the key is then put in front.
-/
namespace NullSafeEq.Yaml

/-- A line that starts with a percent sign. -/
inductive Directive where
  /-- The version of the language that the document is written in. -/
  | version (major : Nat)
  /-- A short form for the start of tags. -/
  | handle (short full : String)
  | other
  deriving DecidableEq, Repr

inductive Token where
  | directive (d : Directive)
  | documentStart | documentEnd
  | blockSequence | blockMapping | blockEnd
  | openSequence | closeSequence | openMapping | closeMapping
  | item | comma | key | value
  | alias (name : String)
  | anchor (name : String)
  | tag (handle : Option String) (rest : String)
  | scalar (plain : Bool) (text : String)
  /-- A quoted scalar with surrogates in it. -/
  | broken (text : Text.Broken)
  deriving DecidableEq, Repr

/-- The token of a quoted scalar. -/
def Token.quoted (ps : List Text.CodePoint) : Token :=
  match Text.ofPoints ps with
  | .inl b => broken b
  | .inr s => scalar false s

/-! ### Names and tags -/

/-- A character of the name of an anchor, a directive or a tag handle. -/
def isNameChar (c : Char) : Bool :=
  isDigit c || ('A' ≤ c && c ≤ 'Z') || ('a' ≤ c && c ≤ 'z') || c = '-' || c = '_'

/-- A character of a tag. -/
def isTagChar (c : Char) : Bool := isNameChar c || ";/?:@&=+$,.!~*'()[]%".toList.contains c

/-- Whether the text is over, or goes on with a blank or a new line, but not with a tab. -/
def endsTag (cs : List Char) : Bool := endsWord cs && cs.head? ≠ some '\t'

namespace Cursor

/-- The place some characters further on. -/
def skip (c : Cursor) : Nat → Cursor
  | 0 => c
  | n + 1 => c.next.skip n

/-- The characters of a kind from a place on, and the place behind them. -/
def span (c : Cursor) (test : Char → Bool) : String × Cursor :=
  let cs := c.rest.takeWhile test
  (String.ofList cs, c.skip cs.length)

/-- The place behind the blanks. -/
def pastBlanks (c : Cursor) : Cursor := (c.span (· = ' ')).2

end Cursor

/-- The name of the anchor behind an ampersand or an asterisk. -/
def anchorName? (c : Cursor) : Option (String × Cursor) :=
  let (name, behind) := c.next.span isNameChar
  if name.isEmpty then none
  else if endsWord behind.rest || behind.rest.head?.any ("?:,]\x7d%@\x60".toList.contains ·) then
    some (name, behind)
  else none

/-- The characters of a tag without its handle; there has to be one. -/
def tagRest? (c : Cursor) : Option (String × Cursor) :=
  let (text, behind) := c.span isTagChar
  if text.isEmpty then none else some (text, behind)

/-- The handle at a place: an exclamation mark, and possibly a name with another one behind it. -/
def handle? (c : Cursor) : Option (String × Cursor) :=
  let (name, behind) := c.next.span isNameChar
  match c.rest, behind.rest with
  | '!' :: ' ' :: _, _ => some ("!", c.next)
  | '!' :: _, '!' :: _ => some ("!" ++ name ++ "!", behind.next)
  | _, _ => none

/-- The tag at a place. -/
def tag? (c : Cursor) : Option (Token × Cursor) := do
  let word := c.next.rest.takeWhile fun x => !(x = ' ' || isBreak x)
  let (token, behind) ←
    match c.next.rest with
    | '<' :: _ => do
      let (text, behind) ← tagRest? c.next.next
      guard (behind.rest.head? = some '>')
      pure (Token.tag none text, behind.next)
    | rest =>
      if endsWord rest then pure (Token.tag none "!", c.next)
      else do
        let (handle, behind) ← if word.contains '!' then handle? c else pure ("!", c.next)
        let (text, behind) ← tagRest? behind
        pure (Token.tag (some handle) text, behind)
  guard (endsTag behind.rest)
  return (token, behind)

/-! ### Directives -/

/-- The number at a place. -/
def directiveNumber? (c : Cursor) : Option (Nat × Cursor) :=
  let (digits, behind) := c.span isDigit
  if digits.isEmpty then none else some (Json.natOf digits.toList, behind)

/-- The directive at a percent sign, with the place behind its line. -/
def directive? (c : Cursor) : Option (Directive × Cursor) := do
  let (name, behind) := c.next.span isNameChar
  guard (!name.isEmpty && endsTag behind.rest)
  let (d, behind) ←
    if name = "YAML" then do
      let (major, point) ← directiveNumber? behind.pastBlanks
      guard (point.rest.head? = some '.')
      let (_, behind) ← directiveNumber? point.next
      guard (endsTag behind.rest)
      pure (Directive.version major, behind)
    else if name = "TAG" then do
      let (short, behind) ← handle? behind.pastBlanks
      guard (behind.rest.head? = some ' ')
      let (full, behind) ← tagRest? behind.pastBlanks
      guard (endsTag behind.rest)
      pure (Directive.handle short full, behind)
    else pure (Directive.other, (behind.span fun x => !isBreak x).2)
  return (d, ← endOfLine? false behind.line behind.column behind.rest)

/-! ### Cutting -/

/-- A token that may turn out to be the start of a key. -/
structure Candidate where
  /-- The number of tokens before it. -/
  before : Nat
  /-- Nothing else could stand there. -/
  required : Bool
  line : Nat
  column : Nat
  deriving Repr

/-- The state of cutting. The column of the innermost block collection is `indent`; outside of all
collections there is none. -/
structure Cutting where
  place : Cursor
  /-- The tokens so far in reverse. -/
  tokens : List Token := []
  indent : Option Nat := none
  outer : List (Option Nat) := []
  /-- Whether a key may start here. -/
  keyAllowed : Bool := true
  /-- The candidate for a key, if any, in each collection that is open in flow form and in the block
  around them, the innermost first. -/
  candidates : List (Option Candidate) := [none]
  deriving Repr

namespace Cutting

/-- Whether a flow collection is open. -/
def inFlow (s : Cutting) : Bool := 1 < s.candidates.length

def emit (s : Cutting) (t : Token) : Cutting := { s with tokens := t :: s.tokens }

/-- The state behind some characters that make a token. -/
def take (s : Cutting) (count : Nat) (t : Token) : Cutting :=
  { s.emit t with place := s.place.skip count }

/-- The state behind a token that ends at a place. -/
def goTo (s : Cutting) (t : Token) (behind : Cursor) : Cutting :=
  { s.emit t with place := behind, keyAllowed := false }

/-- Put a token in front of all but the first `before` tokens. -/
def insert (s : Cutting) (before : Nat) (t : Token) : Cutting :=
  let later := s.tokens.length - before
  { s with tokens := s.tokens.take later ++ t :: s.tokens.drop later }

/-- Close block collections until `column` is reached; without a column, all of them. -/
def closeFrom (column : Option Nat) (tokens : List Token) :
    Option Nat → List (Option Nat) → List Token × Option Nat × List (Option Nat)
  | some indent, up :: outer =>
    if column.all (· < indent) then closeFrom column (.blockEnd :: tokens) up outer
    else (tokens, some indent, up :: outer)
  | indent, outer => (tokens, indent, outer)

/-- Close the block collections that a token at a column does not belong to. -/
def close (s : Cutting) (column : Option Nat) : Cutting :=
  if s.inFlow then s
  else
    let (tokens, indent, outer) := closeFrom column s.tokens s.indent s.outer
    { s with tokens, indent, outer }

/-- Open a block collection at a column, unless one is open there. The flag tells whether it was. -/
def openAt (s : Cutting) (column : Nat) : Cutting × Bool :=
  if s.indent.all (· < column) then
    ({ s with indent := some column, outer := s.indent :: s.outer }, true)
  else (s, false)

/-- Open a block collection at the present column. -/
def openBlock (s : Cutting) (t : Token) : Cutting :=
  match s.openAt s.place.column with
  | (s, true) => s.emit t
  | (s, false) => s

/-- Give up the innermost candidate, which must not be required. -/
def dropCandidate (s : Cutting) : Option Cutting :=
  match s.candidates with
  | some c :: rest => if c.required then none else some { s with candidates := none :: rest }
  | _ => some s

/-- Make the next token a candidate, if a key may start here. -/
def saveCandidate (s : Cutting) : Option Cutting :=
  if s.keyAllowed then do
    let s ← s.dropCandidate
    let c : Candidate :=
      ⟨s.tokens.length, !s.inFlow && s.indent = some s.place.column, s.place.line, s.place.column⟩
    return { s with candidates := some c :: s.candidates.drop 1 }
  else some s

/-- The candidates that may still get their colon at a place. -/
def freshCandidates (place : Cursor) : List (Option Candidate) → Option (List (Option Candidate))
  | [] => some []
  | some c :: rest => do
    let rest ← freshCandidates place rest
    if c.line = place.line && place.column - c.column ≤ 1024 then return some c :: rest
    else if c.required then none
    else return none :: rest
  | none :: rest => (freshCandidates place rest).map (none :: ·)

/-- Go to the next token. A new line outside of flow collections may start with a key. -/
def toToken (s : Cutting) : Option Cutting := do
  let place := s.place.toToken
  let candidates ← freshCandidates place s.candidates
  let keyAllowed := s.keyAllowed || (!s.inFlow && place.line ≠ s.place.line)
  return { s with place, candidates, keyAllowed }.close (some place.column)

/-- Cut a marker or a directive: all block collections end before it. -/
def boundary (s : Cutting) (t : Token) (behind : Cursor) : Option Cutting := do
  let s ← (s.close none).dropCandidate
  return s.goTo t behind

/-- Cut the start of a flow collection. -/
def openFlow (s : Cutting) (t : Token) : Option Cutting := do
  let s ← s.saveCandidate
  return { s.take 1 t with candidates := none :: s.candidates, keyAllowed := true }

/-- Cut the end of a flow collection. -/
def closeFlow (s : Cutting) (t : Token) : Option Cutting := do
  guard s.inFlow
  let s ← s.dropCandidate
  return { s.take 1 t with candidates := s.candidates.drop 1, keyAllowed := false }

/-- Cut the dash of an item, which stands in block sequences only. -/
def item (s : Cutting) : Option Cutting := do
  guard (!s.inFlow && s.keyAllowed)
  let s ← { s.openBlock .blockSequence with keyAllowed := true }.dropCandidate
  return s.take 1 .item

/-- Cut the question mark of a key, or a colon without a key in front of it. -/
def mark (s : Cutting) (t : Token) : Option Cutting := do
  guard (s.inFlow || s.keyAllowed)
  let s := if s.inFlow then s else s.openBlock .blockMapping
  let s ← { s with keyAllowed := !s.inFlow }.dropCandidate
  return s.take 1 t

/-- Cut a colon. The candidate, if there is one, becomes a key. -/
def colon (s : Cutting) : Option Cutting :=
  match s.candidates with
  | some c :: rest =>
    let s := { s with candidates := none :: rest }.insert c.before .key
    let s :=
      if s.inFlow then s
      else
        match s.openAt c.column with
        | (s, true) => s.insert c.before .blockMapping
        | (s, false) => s
    some { s.take 1 .value with keyAllowed := false }
  | _ => s.mark .value

/-- Cut a token that may start a key. -/
def simple (s : Cutting) (found : Option (Token × Cursor)) : Option Cutting := do
  let s ← s.saveCandidate
  let (t, behind) ← found
  return s.goTo t behind

/-- The first column of the lines of a scalar. -/
def least (s : Cutting) : Nat := (s.indent.map (· + 1)).getD 0

/-- Cut a block scalar; behind it a key may start. -/
def blockScalar (s : Cutting) : Option Cutting := do
  let s ← s.dropCandidate
  let (text, behind) ← block? s.least s.place
  return { s.goTo (.scalar false text) behind with keyAllowed := true }

/-- Cut the next token; the place is at its first character. -/
def step (s : Cutting) : Option Cutting :=
  let c := s.place
  let alone := endsWord (c.rest.drop 1)
  match c.rest with
  | [] => none
  | x :: _ =>
    if x = '%' && c.column = 0 then do
      let (d, behind) ← directive? c
      s.boundary (.directive d) behind
    else if c.atMarker then
      s.boundary (if x = '-' then .documentStart else .documentEnd) (c.skip 3)
    else if x = '[' then s.openFlow .openSequence
    else if x = '\x7b' then s.openFlow .openMapping
    else if x = ']' then s.closeFlow .closeSequence
    else if x = '\x7d' then s.closeFlow .closeMapping
    else if x = ',' then do
      let s ← s.dropCandidate
      return { s.take 1 .comma with keyAllowed := true }
    else if x = '-' && alone then s.item
    else if x = '?' && (s.inFlow || alone) then s.mark .key
    else if x = ':' && (s.inFlow || alone) then s.colon
    else if x = '*' then s.simple ((anchorName? c).map fun (n, behind) => (.alias n, behind))
    else if x = '&' then s.simple ((anchorName? c).map fun (n, behind) => (.anchor n, behind))
    else if x = '!' then s.simple (tag? c)
    else if (x = '|' || x = '>') && !s.inFlow then s.blockScalar
    else if x = '\'' || x = '"' then
      s.simple ((quoted? (x = '"') c).map fun (ps, behind) => (.quoted ps, behind))
    else if startsPlain s.inFlow c.rest then
      let (text, behind) := plain s.inFlow (if s.inFlow then 0 else s.least) c
      s.simple (some (.scalar true text, behind))
    else none

/-- Cut all tokens. Every step reads a character. -/
def run : (fuel : Nat) → Cutting → Option (List Token)
  | 0, _ => none
  | fuel + 1, s => do
    let s ← s.toToken
    if s.place.rest.isEmpty then
      let s ← (s.close none).dropCandidate
      return s.tokens.reverse
    else run fuel (← s.step)

end Cutting

/-- The tokens of a text whose lines end with line feeds. -/
def tokens? (cs : List Char) : Option (List Token) := do
  guard (cs.all isAllowed)
  let cs := if cs.head?.map Char.toNat = some 0xfeff then cs.drop 1 else cs
  Cutting.run (cs.length + 1) { place := ⟨cs, 0, 0⟩ }

end NullSafeEq.Yaml
