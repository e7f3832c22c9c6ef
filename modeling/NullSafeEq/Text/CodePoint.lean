import NullSafeEq.Text.Quoted

/-!
# Broken texts

A text is made of characters. What a document writes as escapes may be something else: surrogates
without their partners. Such a text can be kept and compared, but it has no encoding, so that
nothing that holds it can be printed.
-/
namespace NullSafeEq.Text

/-- A character, or a surrogate without its partner. -/
inductive CodePoint where
  | char (c : Char)
  | surrogate (code : Nat)
  deriving DecidableEq, Repr

namespace CodePoint

def isSurrogate : CodePoint → Bool
  | char _ => false
  | surrogate _ => true

/-- A character in the place of a code point: itself, or the stand-in for surrogates. -/
def fill (standIn : Char) : CodePoint → Char
  | char c => c
  | surrogate _ => standIn

end CodePoint

/-- The code points of a text. -/
def points (s : String) : List CodePoint := s.toList.map .char

/-- What is shown for code points where there can only be characters. -/
def shown (ps : List CodePoint) : String := String.ofList (ps.map (CodePoint.fill '\ufffd'))

/-- Code points of which some are no characters. -/
structure Broken where
  points : List CodePoint
  broken : points.any CodePoint.isSurrogate = true
  deriving DecidableEq, Repr

/-- The text that code points make. -/
def ofPoints (ps : List CodePoint) : Broken ⊕ String :=
  if broken : ps.any CodePoint.isSurrogate = true then .inl ⟨ps, broken⟩
  else .inr (shown ps)

theorem shown_points (s : String) : shown (points s) = s := by
  have same : (points s).map (CodePoint.fill '\ufffd') = s.toList := by
    simp [points, CodePoint.fill, Function.comp_def]
  rw [shown, same, String.ofList_toList]

theorem ofPoints_points (s : String) : ofPoints (points s) = .inr s := by
  have whole : (points s).any CodePoint.isSurrogate = false := by
    simp [points, CodePoint.isSurrogate]
  rw [ofPoints, dif_neg (by simp [whole]), shown_points]

namespace Broken

/-- The text with a stand-in for its surrogates. -/
def fill (standIn : Char) (b : Broken) : String := String.ofList (b.points.map (·.fill standIn))

/-- What is shown for a broken text where there can only be characters. -/
def shown (b : Broken) : String := Text.shown b.points

/-- The first surrogate. -/
def firstSurrogate (b : Broken) : CodePoint :=
  (b.points.find? CodePoint.isSurrogate).getD (.surrogate 0)

/-- The characters of a broken text on their own. -/
def characters (b : Broken) : List Char :=
  b.points.filterMap fun
    | .char c => some c
    | .surrogate _ => none

/-- The quoted form of a broken text. -/
def quoted (b : Broken) : String :=
  let mark := quoteMark b.characters
  let inside := b.points.flatMap fun
    | .char c => quoteChar mark c
    | .surrogate code => '\\' :: 'u' :: hexDigits 4 code
  String.ofList (mark :: inside ++ [mark])

end Broken

/-- A text could not be encoded: from `start` up to `stop` there are surrogates, of which the first
has the number `code`. -/
structure EncodingFault where
  code : Nat
  start : Nat
  stop : Nat
  remark : String := ""
  deriving DecidableEq, Repr

namespace EncodingFault

def message (f : EncodingFault) : String :=
  let place :=
    if f.stop = f.start + 1 then
      let code := String.ofList (hexDigits 4 f.code)
      s!"character '\\u{code}' in position {f.start}"
    else s!"characters in position {f.start}-{f.stop - 1}"
  s!"'utf-8' codec can't encode {place}: surrogates not allowed{f.remark}"

/-- The fault of the first surrogates among some code points. -/
def find? (ps : List CodePoint) : Option EncodingFault :=
  let start := (ps.takeWhile fun p => !p.isSurrogate).length
  match ps.drop start with
  | .surrogate code :: rest =>
    some { code, start, stop := start + 1 + (rest.takeWhile CodePoint.isSurrogate).length }
  | _ => none

end EncodingFault

end NullSafeEq.Text
