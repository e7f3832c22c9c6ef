/-!
# Dates

A date, possibly with a time of day and a distance from universal time. It has a standard text and
a quoted form, which is shown inside of other values.
-/
namespace NullSafeEq

/-- A time of day. The zone is the number of minutes that the clock is ahead of universal time. -/
structure Clock where
  hour : Nat
  minute : Nat
  second : Nat
  micro : Nat
  zone : Option Int
  deriving DecidableEq, Repr

structure Date where
  year : Nat
  month : Nat
  day : Nat
  clock : Option Clock
  deriving DecidableEq, Repr

namespace Clock

/-- A number with zeros in front of it up to a width. -/
def padded (width n : Nat) : String :=
  let digits := Nat.toDigits 10 n
  String.ofList (List.replicate (width - digits.length) '0' ++ digits)

/-- The quoted form of a span of minutes. -/
def quotedMinutes (minutes : Int) : String :=
  let days := minutes.fdiv 1440
  let seconds := 60 * minutes.fmod 1440
  let parts :=
    (if days = 0 then [] else [s!"days={days}"]) ++
      if seconds = 0 then [] else [s!"seconds={seconds}"]
  "datetime.timedelta(" ++ (if parts.isEmpty then "0" else String.intercalate ", " parts) ++ ")"

def text (c : Clock) : String :=
  let fraction := if c.micro = 0 then "" else "." ++ padded 6 c.micro
  let zone := match c.zone with
    | none => ""
    | some minutes =>
      let distance := minutes.natAbs
      (if minutes < 0 then "-" else "+") ++ padded 2 (distance / 60) ++ ":" ++
        padded 2 (distance % 60)
  padded 2 c.hour ++ ":" ++ padded 2 c.minute ++ ":" ++ padded 2 c.second ++ fraction ++ zone

/-- The parts of the quoted form; seconds and their fractions at the end are left out when they are
zero. -/
def quotedParts (c : Clock) : List String :=
  let zone := match c.zone with
    | none => []
    | some 0 => ["tzinfo=datetime.timezone.utc"]
    | some minutes => [s!"tzinfo=datetime.timezone({quotedMinutes minutes})"]
  let fine :=
    if c.micro ≠ 0 then [toString c.second, toString c.micro]
    else if c.second ≠ 0 then [toString c.second]
    else []
  [toString c.hour, toString c.minute] ++ fine ++ zone

end Clock

namespace Date

/-- The word for the kind of a date in messages. -/
def kind (d : Date) : String :=
  if d.clock.isSome then "datetime.datetime" else "datetime.date"

def text (d : Date) : String :=
  let day := Clock.padded 4 d.year ++ "-" ++ Clock.padded 2 d.month ++ "-" ++ Clock.padded 2 d.day
  match d.clock with
  | none => day
  | some clock => day ++ " " ++ clock.text

/-- The quoted form of a date. -/
def quoted (d : Date) : String :=
  let parts := [toString d.year, toString d.month, toString d.day] ++
    (d.clock.map Clock.quotedParts).getD []
  d.kind ++ "(" ++ String.intercalate ", " parts ++ ")"

end Date

end NullSafeEq
