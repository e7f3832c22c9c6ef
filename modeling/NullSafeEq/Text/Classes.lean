/-!
# Classes of characters

A run is an arithmetic progression of code points. The character classes of this library are
sorted lists of runs, and membership stops at the first run that starts above the character.
Blank means Unicode white space together with the four information separators U+001C to U+001F.
Trimming removes blanks from both ends of a text and nothing else.
-/
namespace NullSafeEq.Text

/-- The code points `first`, `first + step`, …, up to `last`. -/
structure Run where
  first : Nat
  last : Nat
  step : Nat
  deriving DecidableEq, Repr

/-- A code point lies on a run when it is within its bounds and a whole number of steps from its
start. -/
def Run.holds (r : Run) (code : Nat) : Bool :=
  r.first ≤ code && code ≤ r.last && (code - r.first) % r.step == 0

/-- Membership in a list of runs sorted by their bounds. -/
def onRuns (code : Nat) : List Run → Bool
  | [] => false
  | r :: rest => if code < r.first then false else r.holds code || onRuns code rest

/-- Runs without gaps, given by their bounds. -/
def solid (bounds : List (Nat × Nat)) : List Run :=
  bounds.map fun (first, last) => ⟨first, last, 1⟩

/-- Runs given by their bounds and their step. -/
def stepped (bounds : List (Nat × Nat × Nat)) : List Run :=
  bounds.map fun (first, last, step) => ⟨first, last, step⟩

/-! ### Blanks -/

/-- Bounds of the blank characters. -/
def blankRuns : List Run := solid
  [(0x9, 0xd), (0x1c, 0x20), (0x85, 0x85), (0xa0, 0xa0), (0x1680, 0x1680), (0x2000, 0x200a),
   (0x2028, 0x2029), (0x202f, 0x202f), (0x205f, 0x205f), (0x3000, 0x3000)]

/-- White space of every script and the information separators. -/
def isBlank (c : Char) : Bool := onRuns c.toNat blankRuns

/-- A list of characters without those of a kind at its two ends. -/
def trimBy (test : Char → Bool) (cs : List Char) : List Char :=
  ((cs.dropWhile test).reverse.dropWhile test).reverse

/-- A list of characters without the blanks at its two ends. -/
def trimChars (cs : List Char) : List Char := trimBy isBlank cs

/-- A text without the blanks at its two ends. -/
def trim (s : String) : String := String.ofList (trimChars s.toList)

/-- A text with nothing but blanks in it. -/
def allBlank (s : String) : Bool := s.toList.all isBlank

end NullSafeEq.Text
