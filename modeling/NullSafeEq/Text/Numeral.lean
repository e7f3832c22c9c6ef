import NullSafeEq.Text.Classes

/-!
# Digits and integer numerals

The decimal digits of every script (Unicode category Nd). Each script's ten digits stand in
order, so the value of a digit is its distance from the start of its range modulo ten. A whole
number may be written in the liberal form in which people write it: blanks around, one sign,
decimal digits of any script, and single underscores between digits. A numeral that is read or
written has a limited number of digits.
-/
namespace NullSafeEq.Text

/-- Bounds of the decimal digits of all scripts. -/
def digitBounds : List (Nat × Nat) :=
  [(0x30, 0x39), (0x660, 0x669), (0x6f0, 0x6f9), (0x7c0, 0x7c9), (0x966, 0x96f), (0x9e6, 0x9ef),
   (0xa66, 0xa6f), (0xae6, 0xaef), (0xb66, 0xb6f), (0xbe6, 0xbef), (0xc66, 0xc6f),
   (0xce6, 0xcef), (0xd66, 0xd6f), (0xde6, 0xdef), (0xe50, 0xe59), (0xed0, 0xed9),
   (0xf20, 0xf29), (0x1040, 0x1049), (0x1090, 0x1099), (0x17e0, 0x17e9), (0x1810, 0x1819),
   (0x1946, 0x194f), (0x19d0, 0x19d9), (0x1a80, 0x1a89), (0x1a90, 0x1a99), (0x1b50, 0x1b59),
   (0x1bb0, 0x1bb9), (0x1c40, 0x1c49), (0x1c50, 0x1c59), (0xa620, 0xa629), (0xa8d0, 0xa8d9),
   (0xa900, 0xa909), (0xa9d0, 0xa9d9), (0xa9f0, 0xa9f9), (0xaa50, 0xaa59), (0xabf0, 0xabf9),
   (0xff10, 0xff19), (0x104a0, 0x104a9), (0x10d30, 0x10d39), (0x11066, 0x1106f),
   (0x110f0, 0x110f9), (0x11136, 0x1113f), (0x111d0, 0x111d9), (0x112f0, 0x112f9),
   (0x11450, 0x11459), (0x114d0, 0x114d9), (0x11650, 0x11659), (0x116c0, 0x116c9),
   (0x11730, 0x11739), (0x118e0, 0x118e9), (0x11950, 0x11959), (0x11c50, 0x11c59),
   (0x11d50, 0x11d59), (0x11da0, 0x11da9), (0x16a60, 0x16a69), (0x16ac0, 0x16ac9),
   (0x16b50, 0x16b59), (0x1d7ce, 0x1d7ff), (0x1e140, 0x1e149), (0x1e2f0, 0x1e2f9),
   (0x1e950, 0x1e959), (0x1fbf0, 0x1fbf9)]

/-- The value of a code point in a sorted list of digit ranges. -/
def digitIn (code : Nat) : List (Nat × Nat) → Option Nat
  | [] => none
  | (first, last) :: rest =>
    if code < first then none
    else if code ≤ last then some ((code - first) % 10)
    else digitIn code rest

/-- The value of a decimal digit of any script. -/
def digitValue? (c : Char) : Option Nat := digitIn c.toNat digitBounds

/-- A decimal digit of any script. -/
def isDecimalDigit (c : Char) : Bool := (digitValue? c).isSome

/-- A decimal digit of the ASCII range. -/
def isAsciiDigit (c : Char) : Bool := '0' ≤ c && c ≤ '9'

/-! ### Numerals -/

/-- Digits with single underscores between them; `expectDigit` holds at the start and after `_`. -/
def digitsValue? (expectDigit : Bool) (sum : Nat) : List Char → Option Nat
  | [] => if expectDigit then none else some sum
  | c :: cs =>
    match digitValue? c with
    | some d => digitsValue? false (10 * sum + d) cs
    | none => if c = '_' && !expectDigit then digitsValue? true sum cs else none

/-- The greatest number of digits that a numeral may have. -/
def digitLimit : Nat := 4300

/-- Whether the numeral of a whole number keeps the limit. -/
def isShort (n : Int) : Bool := (Nat.toDigits 10 n.natAbs).length ≤ digitLimit

/-- The least number of more than so many digits. -/
def leastBeyond (digits : Nat) : Int := .ofNat (Nat.pow 10 digits)

theorem leastBeyond_succ (digits : Nat) : 10 ≤ leastBeyond (digits + 1) :=
  Int.ofNat_le.mpr (Nat.le_mul_of_pos_left 10 (Nat.pow_pos (by decide)))

/-- The least number whose numeral is beyond the limit. -/
def firstLong : Int := leastBeyond digitLimit

theorem isShort_iff {n : Int} : isShort n = true ↔ n.natAbs < firstLong.natAbs := by
  have counts (digits : Nat) : (Nat.toDigits 10 n.natAbs).length ≤ digits + 1 ↔
      n.natAbs < (leastBeyond (digits + 1)).natAbs :=
    Nat.length_toDigits_le_iff (by decide) (Nat.succ_pos digits)
  rw [isShort, decide_eq_true_iff]
  exact counts 4299

theorem isShort_firstLong : isShort firstLong = false := by
  rw [← Bool.not_eq_true, isShort_iff]
  exact Nat.lt_irrefl _

theorem le_firstLong : 10 ≤ firstLong := leastBeyond_succ 4299

/-- What is wrong with a numeral beyond the limit. A numeral that was to be read has a number of
digits; one that was to be written has not been finished. -/
def limitMessage (digits : Option Nat) : String :=
  let found := match digits with
    | some count => s!": value has {count} digits"
    | none => ""
  s!"Exceeds the limit ({digitLimit} digits) for integer string conversion{found}; " ++
    "use sys.set_int_max_str_digits() to increase the limit"

/-- The number written by digits with single underscores between them. -/
def natValue? (cs : List Char) : Option Nat :=
  if digitLimit < cs.countP (· ≠ '_') then none else digitsValue? true 0 cs

/-- The blanks that may stand around a numeral: all but the information separators. -/
def isMargin (c : Char) : Bool := isBlank c && !(0x1c ≤ c.toNat && c.toNat ≤ 0x1f)

/-- The whole number written by a text, if it is one. -/
def intValue? (s : String) : Option Int :=
  match trimBy isMargin s.toList with
  | '+' :: cs => (natValue? cs).map Int.ofNat
  | '-' :: cs => (natValue? cs).map fun n => - Int.ofNat n
  | cs => (natValue? cs).map Int.ofNat

/-- ASCII letters in lower case, all else unchanged. -/
def asciiLower (s : String) : String := String.ofList (s.toList.map Char.toLower)

end NullSafeEq.Text
