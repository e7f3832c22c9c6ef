/-!
# Binary floating point numbers

Double precision numbers as exact dyadic fractions. A decimal reads as the nearest double, a tie
as the one with the even mantissa. A double is written with the fewest digits that read back, and
of those with the digits nearest to it.
-/
namespace NullSafeEq

/-- A double: not a number, an infinity, or `mantissa * 2 ^ exponent` with a sign. -/
inductive Binary64 where
  | nan
  | infinity (negative : Bool)
  | finite (negative : Bool) (mantissa : Nat) (exponent : Int)
  deriving DecidableEq, Repr

namespace Binary64

def twoTo (n : Nat) : Nat := Nat.pow 2 n

def tenTo (n : Nat) : Nat := Nat.pow 10 n

/-- Mantissas lie below this bound. -/
def mantissaBound : Nat := twoTo 53

/-- The least exponent, that of the subnormal numbers. -/
def minExponent : Int := -1074

/-- The greatest exponent of a finite number. -/
def maxExponent : Int := 971

/-- The quotient rounded to the nearest whole number, a tie to the even one. -/
def roundedDiv (num den : Nat) : Nat :=
  let q := num / den
  let twice := 2 * (num % den)
  if twice < den || (twice == den && q % 2 == 0) then q else q + 1

/-- `num / den` scaled by a power of two, as a fraction. -/
def scaledByTwo (num den : Nat) (power : Int) : Nat × Nat :=
  if power < 0 then (num, den * twoTo power.natAbs) else (num * twoTo power.natAbs, den)

/-- The greatest power of two that is at most a positive fraction. -/
def floorLog2 (num den : Nat) : Int :=
  let guess : Int := Int.ofNat num.log2 - Int.ofNat den.log2
  let (n, d) := scaledByTwo num den (-guess)
  if n < d then guess - 1 else guess

/-- The double nearest to a positive fraction. -/
def ofFraction (negative : Bool) (num den : Nat) : Binary64 :=
  let exponent := max (floorLog2 num den - 52) minExponent
  let (n, d) := scaledByTwo num den (-exponent)
  let mantissa := roundedDiv n d
  let (mantissa, exponent) :=
    if mantissa == mantissaBound then (mantissa / 2, exponent + 1) else (mantissa, exponent)
  if maxExponent < exponent then infinity negative else finite negative mantissa exponent

/-- The number of decimal digits of a number; zero has one. -/
def digitCount (n : Nat) : Nat := (Nat.toDigits 10 n).length

/-- The double nearest to `digits * 10 ^ power`. Powers far outside the range of the format are
settled by their size alone. -/
def ofDecimal (negative : Bool) (digits : Nat) (power : Int) : Binary64 :=
  let top : Int := power + Int.ofNat (digitCount digits)
  if digits = 0 || top < -400 then finite negative 0 minExponent
  else if 400 < top then infinity negative
  else if power < 0 then ofFraction negative digits (tenTo power.natAbs)
  else ofFraction negative (digits * tenTo power.natAbs) 1

/-- The value of a finite double without its sign, as a fraction. -/
def fraction (mantissa : Nat) (exponent : Int) : Nat × Nat := scaledByTwo mantissa 1 exponent

/-- The least power of ten, counted from `power` on, that is greater than a fraction. -/
def tenAbove (num den : Nat) : Nat → Int → Int
  | 0, power => power
  | fuel + 1, power =>
    let below :=
      if power < 0 then num * tenTo power.natAbs < den else num < den * tenTo power.natAbs
    if below then power else tenAbove num den fuel (power + 1)

/-- The two decimals with `count` digits around a fraction that lies below `10 ^ point`, with the
distance of each as a numerator over a common denominator. -/
def neighbours (num den : Nat) (point : Int) (count : Nat) : List (Nat × Nat) × Int :=
  let power := point - Int.ofNat count
  let (n, d) :=
    if power < 0 then (num * tenTo power.natAbs, den) else (num, den * tenTo power.natAbs)
  let low := n / d
  ([(n % d, low), (d - n % d, low + 1)], power)

/-- The fewest decimal digits that read back as a positive double, and their power of ten. -/
def shortest (mantissa : Nat) (exponent : Int) : Nat × Int :=
  let (num, den) := fraction mantissa exponent
  let point := tenAbove num den 800 (-400)
  let hit (count : Nat) : Option (Nat × Int) :=
    let (sides, power) := neighbours num den point count
    let back := sides.filter fun (_, digits) =>
      ofDecimal false digits power == finite false mantissa exponent
    match back with
    | [(da, a), (db, b)] =>
      if da < db || (da == db && a % 2 == 0) then some (a, power) else some (b, power)
    | [(_, a)] => some (a, power)
    | _ => none
  ((List.range 18).findSome? hit).getD (0, 0)

/-- Digits without the zeros at their end, with the power of ten adjusted. -/
def dropZeros : Nat → Nat → Int → Nat × Int
  | 0, digits, power => (digits, power)
  | fuel + 1, digits, power =>
    if digits % 10 == 0 && digits != 0 then dropZeros fuel (digits / 10) (power + 1)
    else (digits, power)

/-- An exponent with its sign and at least two digits. -/
def exponentText (e : Int) : String :=
  let digits := toString e.natAbs
  (if e < 0 then "-" else "+") ++ (if digits.length < 2 then "0" ++ digits else digits)

/-- `count` zeros. -/
def zeros (count : Nat) : String := String.ofList (List.replicate count '0')

/-- Digits with a point after the first `point` of them. From 10^16 on and below 10^-4 the number
is written with an exponent. A number written without one always has a fractional part. -/
def decimalText (digits : Nat) (power : Int) : String :=
  let text := toString digits
  let point : Int := Int.ofNat text.length + power
  if 16 < point || point ≤ -4 then
    let rest := String.ofList (text.toList.drop 1)
    String.ofList (text.toList.take 1) ++ (if rest.isEmpty then "" else "." ++ rest) ++ "e" ++
      exponentText (point - 1)
  else if point ≤ 0 then "0." ++ zeros point.natAbs ++ text
  else if 0 ≤ power then text ++ zeros power.natAbs ++ ".0"
  else
    String.ofList (text.toList.take point.natAbs) ++ "." ++
      String.ofList (text.toList.drop point.natAbs)

/-- The text of a double. -/
def text : Binary64 → String
  | nan => "nan"
  | infinity negative => if negative then "-inf" else "inf"
  | finite negative mantissa exponent =>
    let digits :=
      if mantissa = 0 then "0.0"
      else
        let (d, p) := shortest mantissa exponent
        let (d, p) := dropZeros 400 d p
        decimalText d p
    (if negative then "-" else "") ++ digits

def isZero : Binary64 → Bool
  | finite _ m _ => m = 0
  | _ => false

/-- Whether a whole number is at most the double. -/
def atLeast (bound : Int) : Binary64 → Bool
  | nan => false
  | infinity negative => !negative
  | finite negative m e =>
    let (num, den) := fraction m e
    bound * Int.ofNat den ≤ (if negative then - Int.ofNat num else Int.ofNat num)

/-- Whether the double is at most a whole number. -/
def atMost (bound : Int) : Binary64 → Bool
  | nan => false
  | infinity negative => negative
  | finite negative m e =>
    let (num, den) := fraction m e
    (if negative then - Int.ofNat num else Int.ofNat num) ≤ bound * Int.ofNat den

end Binary64

end NullSafeEq
