import NullSafeEq.Value.Yaml.Node
import NullSafeEq.Text.Numeral

/-!
# The value of a YAML document

Scalars mean what their tag or their form says. The entries of the mappings under the key `<<` are
part of the mapping around it, where entries of its own take precedence.
-/
namespace NullSafeEq.Yaml

/-- The name of a tag of the language itself. -/
def standardTag? (tag : String) : Option String :=
  let start := "tag:yaml.org,2002:".toList
  if start.isPrefixOf tag.toList then some (String.ofList (tag.toList.drop start.length)) else none

/-- Whether a node is of the kind that its form says, or of the named one. -/
def isOfKind (name : String) (tag : Option String) : Bool :=
  match tag with
  | none => true
  | some t => t = "!" || standardTag? t = some name

/-- The whole number that a text is said to be. -/
def taggedInt (s : String) : Except Fault Value :=
  match integer? s.toList, Text.intValue? (String.ofList (s.toList.filter (· ≠ '_'))) with
  | some n, _ => whole s.toList n
  | none, some n => .ok (.int n)
  | none, none =>
    .error (.invalid s!"invalid literal for int() with base 10: {Text.quoted s}")

/-- The real number that a text is said to be. -/
def taggedReal (s : String) : Except Fault Value :=
  let cs := s.toList.filter (· ≠ '_')
  let (negative, digits) := signed cs
  match real? s.toList, realWords.lookup s, Json.number? negative digits with
  | some x, _, _ => .ok (.real x)
  | none, some x, _ => .ok (.real x)
  | none, none, some (.real x, []) => .ok (.real x)
  | none, none, some (.int n, []) => .ok (.real (Binary64.ofDecimal negative n.natAbs 0))
  | none, none, _ => .error (.invalid s!"could not convert string to float: {Text.quoted s}")

/-- The value of a scalar. -/
def scalarValue (tag : Option String) (plain : Bool) (s : String) : Except Fault Value :=
  match tag with
  | none => if plain then meaning s else .ok (.text s)
  | some "!" => meaning s
  | some t =>
    match standardTag? t with
    | some "str" => .ok (.text s)
    | some "null" => .ok .null
    | some "bool" =>
      let word := Text.asciiLower s
      if trueWords.contains word then .ok (.bool true)
      else if falseWords.contains word then .ok (.bool false)
      else .error .malformed
    | some "int" => taggedInt s
    | some "float" => taggedReal s
    | some "timestamp" => (date? s).getD (.error .malformed)
    | _ => .error .malformed

/-- The value of a quoted scalar with surrogates in it, which is no number and no date. -/
def brokenValue (tag : Option String) (b : Text.Broken) : Except Fault Value :=
  match tag with
  | none | some "!" => .ok (.broken b)
  | some t =>
    match standardTag? t with
    | some "str" => .ok (.broken b)
    | some "null" => .ok .null
    | some "int" => .error (.invalid s!"invalid literal for int() with base 10: {b.quoted}")
    | some "float" => .error (.invalid s!"could not convert string to float: {b.quoted}")
    | _ => .error .malformed

namespace Node

/-- Whether a key stands for the entries of other mappings. -/
def isMerge : Node → Bool
  | .scalar none plain s => plain && s = "<<"
  | .scalar (some t) _ s => (t = "!" && s = "<<") || standardTag? t = some "merge"
  | .broken (some t) _ => standardTag? t = some "merge"
  | _ => false

/-- Whether a key is an equals sign, which means itself here. -/
def isEquals : Node → Bool
  | .scalar none plain s => plain && s = "="
  | _ => false

/-- The key that a value makes; collections make none. -/
def keyOf (v : Value) : Except Fault Key :=
  match v.key? with
  | some k => .ok k
  | none => .error .malformed

mutual

/-- The value of a node. -/
def value : Node → Except Fault Value
  | .scalar tag plain s => scalarValue tag plain s
  | .broken tag b => brokenValue tag b
  | .sequence tag items =>
    if isOfKind "seq" tag then (itemValues items).map .list else .error .malformed
  | .mapping tag entries =>
    if isOfKind "map" tag then do
      let (merged, own) ← pairs entries
      return Value.ofEntries (merged ++ own)
    else .error .malformed

def itemValues : List Node → Except Fault (List Value)
  | [] => .ok []
  | item :: rest => do return (← item.value) :: (← itemValues rest)

/-- The merged entries of a mapping, and those of its own. -/
def pairs : List (Node × Node) → Except Fault (List (Key × Value) × List (Key × Value))
  | [] => .ok ([], [])
  | (k, v) :: rest => do
    if k.isMerge then
      let here ← v.merged
      let (merged, own) ← pairs rest
      return (here ++ merged, own)
    else
      let key ← if k.isEquals then pure (.text "=") else keyOf (← k.value)
      let found ← v.value
      let (merged, own) ← pairs rest
      return (merged, (key, found) :: own)

/-- The entries that a mapping, or each mapping of a sequence, has to give. The first mapping of a
sequence takes precedence. -/
def merged : Node → Except Fault (List (Key × Value))
  | .mapping _ entries => do
    let (merged, own) ← pairs entries
    return merged ++ own
  | .sequence _ items => mergedItems items
  | .scalar .. | .broken .. => .error .malformed

def mergedItems : List Node → Except Fault (List (Key × Value))
  | [] => .ok []
  | .mapping _ entries :: rest => do
    let (merged, own) ← pairs entries
    return (← mergedItems rest) ++ merged ++ own
  | _ :: _ => .error .malformed

end

end Node

/-- The value of the only document of a text whose lines end with line feeds. -/
def document (cs : List Char) : Except Fault Value :=
  match root? cs with
  | none => .error .malformed
  | some none => .ok .null
  | some (some n) => n.value

end NullSafeEq.Yaml
