import NullSafeEq.Settings.Basic

/-!
# Summary of settings

A text for people. It needs the number of the declared names and the package roots as a list, so
it fails on values that have neither length nor items, and on numbers that are too long.
-/
namespace NullSafeEq.Settings

/-- The number of items of a value. -/
def lengthOf : Value → Except KindError Nat
  | .text s => .ok s.length
  | .broken b => .ok b.points.length
  | .list items => .ok items.length
  | .mapping entries => .ok entries.length
  | v => .error (.noLength v.kind)

/-- The items of a value: of a text its characters, of a mapping its keys. -/
def itemsOf : Value → Except KindError (List Value)
  | .text s => .ok (s.toList.map fun c => .text (String.ofList [c]))
  | .broken b => .ok (b.points.map fun p => .ofPoints [p])
  | .list items => .ok items
  | .mapping entries => .ok (entries.map fun (k, _) => k.value)
  | v => .error (.notIterable v.kind)

/-- The texts among items, which must all be texts; `index` is that of the first item. -/
def textsFrom (index : Nat) : List Value → Except KindError (List (List Text.CodePoint))
  | [] => .ok []
  | v :: rest =>
    if v.isText then (textsFrom (index + 1) rest).map (v.points :: ·)
    else .error (.notText index v.kind)

/-- The items of a value with commas between them. -/
def joined (v : Value) : Except KindError (List Text.CodePoint) := do
  match itemsOf v with
  | .ok items => return (Text.points ", ").intercalate (← textsFrom 0 items)
  | .error _ => .error .notJoinable

/-- A line about a value. -/
def line (label : String) (v : Value) : Except KindError (List Text.CodePoint) :=
  v.written.map fun _ => Text.points ("  - " ++ label ++ ": ") ++ v.points

/-- All settings in words. -/
def summaryPoints (s : Settings) : Except KindError (List Text.CodePoint) := do
  let requireGuard ← line "Require explicit null guard" s.inspection.requireGuard
  let level ← line "Language level" s.inspection.languageLevel
  let applicable ← s.inspection.applicable
  let helper ← line "Helper" s.inspection.helper
  let method ← line "Method" s.inspection.method
  let strategy ← line "Strategy" s.resolution.strategy
  let variableCount ← lengthOf s.resolution.variableNames
  let classCount ← lengthOf s.resolution.classNames
  let packages ← joined s.resolution.packageRoots
  let format ← line "Format" s.output.format
  let useRich ← line "Rich output" s.output.useRich
  let maxWorkers ← line "Max workers" s.output.maxWorkers
  return (Text.points "\n").intercalate
    [Text.points "equalsguard Configuration Summary:",
     Text.points "Inspection:",
     requireGuard,
     level ++ Text.points (" (applicable: " ++ (Value.bool applicable).display ++ ")"),
     helper,
     method,
     [],
     Text.points "Resolution:",
     strategy,
     Text.points s!"  - Variables: {variableCount} names",
     Text.points s!"  - Classes: {classCount} names",
     Text.points "  - Package roots: " ++ packages,
     [],
     Text.points "Output:",
     format,
     useRich,
     maxWorkers,
     []]

/-- The summary as a text. -/
def summary (s : Settings) : Except KindError String := s.summaryPoints.map Text.shown

end NullSafeEq.Settings
