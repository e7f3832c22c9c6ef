import NullSafeEq.Value.Json

/-!
# Plain scalars

What an unquoted word of a YAML document stands for: null, a truth value, a whole or a real number,
a date, or else its own text. The two special words stand for nothing on their own.
-/
namespace NullSafeEq.Yaml

/-- The words for null. -/
def nullWords : List String := ["", "~", "null", "Null", "NULL"]

/-- The words for truth. -/
def trueWords : List String := ["yes", "Yes", "YES", "true", "True", "TRUE", "on", "On", "ON"]

/-- The words for falsehood. -/
def falseWords : List String := ["no", "No", "NO", "false", "False", "FALSE", "off", "Off", "OFF"]

/-- The words for real numbers that have no digits. -/
def realWords : List (String × Binary64) :=
  [(".inf", .infinity false), (".Inf", .infinity false), (".INF", .infinity false),
   ("+.inf", .infinity false), ("+.Inf", .infinity false), ("+.INF", .infinity false),
   ("-.inf", .infinity true), ("-.Inf", .infinity true), ("-.INF", .infinity true),
   (".nan", .nan), (".NaN", .nan), (".NAN", .nan)]

/-! ### Numbers -/

/-- Split off a sign; the flag tells whether it was negative. -/
def signed : List Char → Bool × List Char
  | '-' :: cs => (true, cs)
  | '+' :: cs => (false, cs)
  | cs => (false, cs)

/-- The number of digits to a base with any number of underscores among them. -/
def digitsOf? (base : Nat) : Nat → List Char → Option Nat
  | sum, [] => some sum
  | sum, '_' :: cs => digitsOf? base sum cs
  | sum, c :: cs =>
    match Json.hexValue? c with
    | some d => if d < base then digitsOf? base (base * sum + d) cs else none
    | none => none

def isDigit (c : Char) : Bool := '0' ≤ c && c ≤ '9'

/-- One or two digits below sixty. -/
def sixtieth? : List Char → Option Nat
  | [c] => if isDigit c then some (c.toNat - 48) else none
  | [b, c] =>
    if '0' ≤ b && b ≤ '5' && isDigit c then some (10 * (b.toNat - 48) + (c.toNat - 48)) else none
  | _ => none

/-- The number written by a first part and further parts to the base sixty. -/
def sexagesimal? : Nat → List (List Char) → Option Nat
  | sum, [] => some sum
  | sum, part :: rest =>
    match sixtieth? part with
    | some n => sexagesimal? (60 * sum + n) rest
    | none => none

/-- The parts of a text between its colons. -/
def splitColons : List Char → List (List Char)
  | [] => [[]]
  | c :: cs =>
    match splitColons cs with
    | part :: rest => if c = ':' then [] :: part :: rest else (c :: part) :: rest
    | [] => [[c]]

/-- A whole number without its sign: binary, hexadecimal, octal after a zero, or decimal, where
colons may separate places to the base sixty. -/
def natural? : List Char → Option Nat
  | '0' :: 'b' :: c :: cs => digitsOf? 2 0 (c :: cs)
  | '0' :: 'x' :: c :: cs => digitsOf? 16 0 (c :: cs)
  | '0' :: cs => digitsOf? 8 0 cs
  | c :: cs =>
    if isDigit c then
      match splitColons (c :: cs) with
      | first :: places => (digitsOf? 10 0 first).bind fun n => sexagesimal? n places
      | [] => none
    else none
  | [] => none

/-- A whole number. -/
def integer? (cs : List Char) : Option Int :=
  let (negative, cs) := signed cs
  (natural? cs).map fun n => if negative then - Int.ofNat n else Int.ofNat n

/-- Nothing, or an exponent with its sign and at least one digit. -/
def exponent? : List Char → Option Int
  | [] => some 0
  | e :: sign :: c :: cs =>
    if (e = 'e' || e = 'E') && (c :: cs).all isDigit then
      let n := Int.ofNat (Json.natOf (c :: cs))
      if sign = '+' then some n else if sign = '-' then some (-n) else none
    else none
  | _ => none

/-- Digits and underscores. -/
def isPlace (c : Char) : Bool := isDigit c || c = '_'

/-- A real number without its sign. It has a point and a digit before it or, without a sign, after
it; `whole` is the number before the point, and only decimal numbers have an exponent. -/
def fractional? (negative sexagesimal : Bool) (whole : Nat) (cs : List Char) : Option Binary64 :=
  let places := (cs.takeWhile isPlace).filter isDigit
  let value (power : Int) : Binary64 :=
    Binary64.ofDecimal negative (whole * Binary64.tenTo places.length + Json.natOf places)
      (power - Int.ofNat places.length)
  match cs.dropWhile isPlace with
  | [] => some (value 0)
  | rest => if sexagesimal then none else (exponent? rest).map value

/-- A real number with a point. -/
def real? (text : List Char) : Option Binary64 :=
  let (negative, cs) := signed text
  match cs.takeWhile (· ≠ '.'), cs.dropWhile (· ≠ '.') with
  | [], _ :: after =>
    if text.head? = some '.' && (after.head?.map isDigit).getD false then
      fractional? false false 0 after
    else none
  | c :: before, _ :: after =>
    if isDigit c then
      match splitColons (c :: before) with
      | first :: places => do
        let whole ← digitsOf? 10 0 first
        let whole ← sexagesimal? whole places
        fractional? negative (!places.isEmpty) whole after
      | [] => none
    else none
  | _, [] => none

/-! ### Dates -/

/-- Drop digits from the front: at least `least`, and then as many of `more` as there are. -/
def dropDigits? : Nat → Nat → List Char → Option (List Char)
  | 0, 0, cs => some cs
  | 0, more + 1, c :: cs => if isDigit c then dropDigits? 0 more cs else some (c :: cs)
  | 0, _ + 1, [] => some []
  | least + 1, more, c :: cs => if isDigit c then dropDigits? least more cs else none
  | _ + 1, _, [] => none

/-- Drop one character of a kind from the front. -/
def drop? (test : Char → Bool) : List Char → Option (List Char)
  | c :: cs => if test c then some cs else none
  | [] => none

def isSpaceOrTab (c : Char) : Bool := c = ' ' || c = '\t'

/-- The number of at least `least` and up to `more` further digits at the front, with what
follows. -/
def digits? (least more : Nat) (cs : List Char) : Option (Nat × List Char) :=
  (dropDigits? least more cs).map fun rest =>
    (Json.natOf (cs.take (cs.length - rest.length)), rest)

/-- Nothing, or a time zone with blanks before it. -/
def zone? (cs : List Char) : Option (Option Int) :=
  if cs.isEmpty then some none
  else
    match cs.dropWhile isSpaceOrTab with
    | ['Z'] => some (some 0)
    | sign :: rest => do
      guard (sign = '+' || sign = '-')
      let (hours, rest) ← digits? 1 1 rest
      let minutes ←
        match rest with
        | [] => pure 0
        | ':' :: rest => do
          let (minutes, rest) ← digits? 2 0 rest
          guard rest.isEmpty
          pure minutes
        | _ => failure
      let distance := Int.ofNat (60 * hours + minutes)
      return some (if sign = '-' then -distance else distance)
    | [] => none

/-- The millionths in a fraction of a second, whose further digits do not count. -/
def millionths (digits : List Char) : Nat :=
  Json.natOf ((digits ++ List.replicate 6 '0').take 6)

/-- A time of day, with a fraction of a second and a zone if need be. -/
def clock? (cs : List Char) : Option Clock := do
  let (hour, cs) ← digits? 1 1 cs
  let cs ← drop? (· = ':') cs
  let (minute, cs) ← digits? 2 0 cs
  let cs ← drop? (· = ':') cs
  let (second, cs) ← digits? 2 0 cs
  let (fraction, cs) :=
    match cs with
    | '.' :: cs => (cs.takeWhile isDigit, cs.dropWhile isDigit)
    | cs => ([], cs)
  return ⟨hour, minute, second, millionths fraction, ← zone? cs⟩

/-- A year, a month and a day. With `short` a month and a day may have one digit. -/
def day? (short : Bool) (cs : List Char) : Option (Date × List Char) := do
  let more := if short then 1 else 0
  let (year, cs) ← digits? 4 0 cs
  let cs ← drop? (· = '-') cs
  let (month, cs) ← digits? (2 - more) more cs
  let cs ← drop? (· = '-') cs
  let (day, cs) ← digits? (2 - more) more cs
  return (⟨year, month, day, none⟩, cs)

/-- A date of ten characters, or a date with a time after a letter T or blanks. -/
def dateForm? (cs : List Char) : Option Date :=
  match day? false cs, day? true cs with
  | some (date, []), _ => some date
  | _, some (date, c :: cs) => do
    guard (c = 'T' || c = 't' || isSpaceOrTab c)
    let cs := if isSpaceOrTab c then cs.dropWhile isSpaceOrTab else cs
    return { date with clock := some (← clock? cs) }
  | _, _ => none

/-- The number of days in a month. -/
def daysIn (year month : Nat) : Nat :=
  if month = 2 then if year % 4 = 0 && (year % 100 ≠ 0 || year % 400 = 0) then 29 else 28
  else if [4, 6, 9, 11].contains month then 30
  else 31

/-- What is wrong with a time zone: it is a day or more away. -/
def zoneFault? (minutes : Int) : Option String :=
  if minutes.natAbs < 1440 then none
  else some <| "offset must be a timedelta strictly between -timedelta(hours=24) and " ++
    "timedelta(hours=24), not " ++ Clock.quotedMinutes minutes ++ "."

/-- What is wrong with a time of day. -/
def clockFault? (c : Clock) : Option String :=
  if 23 < c.hour then some "hour must be in 0..23"
  else if 59 < c.minute then some "minute must be in 0..59"
  else if 59 < c.second then some "second must be in 0..59"
  else none

/-- What is wrong with the numbers of a date. -/
def dateFault? (d : Date) : Option String :=
  match d.clock.bind fun c => c.zone.bind zoneFault? with
  | some fault => some fault
  | none =>
    if d.year = 0 then some "year 0 is out of range"
    else if d.month = 0 || 12 < d.month then some "month must be in 1..12"
    else if d.day = 0 || daysIn d.year d.month < d.day then some "day is out of range for month"
    else d.clock.bind clockFault?

/-! ### Meaning -/

/-- Why a document has no value. -/
inductive Fault where
  /-- It breaks the rules of the language or holds what no configuration can hold. -/
  | malformed
  /-- One of its scalars has the form of a number or a date but is none. -/
  | invalid (reason : String)
  deriving DecidableEq, Repr

/-- The base of a number without digits behind its mark. -/
def emptyBase? (cs : List Char) : Option Nat :=
  match (signed cs).2 with
  | '0' :: mark :: digits =>
    if digits.isEmpty || digits.any (· ≠ '_') then none
    else if mark = 'b' then some 2
    else if mark = 'x' then some 16
    else none
  | _ => none

/-- The date that a text is, if it has the form of one. -/
def date? (s : String) : Option (Except Fault Value) :=
  (dateForm? s.toList).map fun d =>
    match dateFault? d with
    | some reason => .error (.invalid reason)
    | none => .ok (.date d)

/-- The number of decimal digits at the start of a whole number, if they are too many. To other
bases there is no limit. -/
def longNumeral? (cs : List Char) : Option Nat :=
  let digits := ((signed cs).2.takeWhile (· ≠ ':')).filter (· ≠ '_')
  if digits.head? ≠ some '0' && Text.digitLimit < digits.length then some digits.length else none

/-- The value of a whole number, which must keep the limit. -/
def whole (cs : List Char) (n : Int) : Except Fault Value :=
  match longNumeral? cs with
  | some digits => .error (.invalid (Text.limitMessage digits))
  | none => .ok (.int n)

/-- The value of a plain scalar. -/
def meaning (s : String) : Except Fault Value :=
  if nullWords.contains s then .ok .null
  else if trueWords.contains s then .ok (.bool true)
  else if falseWords.contains s then .ok (.bool false)
  else
    match emptyBase? s.toList, integer? s.toList, realWords.lookup s, real? s.toList, date? s with
    | some base, _, _, _, _ =>
      .error (.invalid s!"invalid literal for int() with base {base}: ''")
    | _, some n, _, _, _ => whole s.toList n
    | _, _, some x, _, _ => .ok (.real x)
    | _, _, _, some x, _ => .ok (.real x)
    | _, _, _, _, some date => date
    | _, _, _, _, _ => if s = "<<" || s = "=" then .error .malformed else .ok (.text s)

/-- Whether a plain scalar stands for its own text. -/
def isOwnText (s : String) : Bool :=
  match meaning s with
  | .ok (.text _) => true
  | _ => false

end NullSafeEq.Yaml
