import NullSafeEq.Text.CodePoint
import NullSafeEq.Text.Numeral
import NullSafeEq.Value.Binary64
import NullSafeEq.Value.Date

/-!
# Configuration values

The values that a configuration may hold: whatever JSON or YAML can write. Settings keep them as
they come, so a setting may hold a value of the wrong kind until it is checked or used.
-/
namespace NullSafeEq

/-- What an entry of a mapping is called: a text in JSON, any scalar in YAML. -/
inductive Key where
  | text (s : String)
  | null
  | bool (b : Bool)
  | int (n : Int)
  | real (x : Binary64)
  | date (d : Date)
  deriving DecidableEq, Repr

instance : Coe String Key := ⟨Key.text⟩

/-- A mapping lists its entries in the order of their first insertion. -/
inductive Value where
  | null
  | bool (b : Bool)
  | int (n : Int)
  | real (x : Binary64)
  | date (d : Date)
  | text (s : String)
  /-- A text with surrogates in it that have no partners. -/
  | broken (text : Text.Broken)
  | list (items : List Value)
  | mapping (entries : List (Key × Value))
  deriving Repr, BEq, Inhabited

/-- The value that a key is. -/
def Key.value : Key → Value
  | text s => .text s
  | null => .null
  | bool b => .bool b
  | int n => .int n
  | real x => .real x
  | date d => .date d

/-- Whether a key has a text. -/
def Key.isWritable : Key → Bool
  | int n => Text.isShort n
  | _ => true

namespace Value

/-- The entry with a key. -/
def lookup (key : Key) : List (Key × Value) → Option Value
  | [] => none
  | (k, v) :: rest => if k = key then some v else lookup key rest

/-- Set an entry: in its place when the key is there, at the end otherwise. -/
def insert (key : Key) (value : Value) : List (Key × Value) → List (Key × Value)
  | [] => [(key, value)]
  | (k, v) :: rest => if k = key then (k, value) :: rest else (k, v) :: insert key value rest

/-- A mapping from entries in order, where the last of several entries with one key counts. -/
def ofEntries (entries : List (Key × Value)) : Value :=
  mapping (entries.foldl (fun acc (k, v) => insert k v acc) [])

/-- The value of a text of code points. -/
def ofPoints (ps : List Text.CodePoint) : Value :=
  match Text.ofPoints ps with
  | .inl b => broken b
  | .inr s => text s

theorem ofPoints_points (s : String) : ofPoints (Text.points s) = text s := by
  rw [ofPoints, Text.ofPoints_points]

/-- The key that a value makes; collections make none. What a broken text is shown as does for the
name of an entry. -/
def key? : Value → Option Key
  | text s => some (.text s)
  | broken b => some (.text b.shown)
  | null => some .null
  | bool b => some (.bool b)
  | int n => some (.int n)
  | real x => some (.real x)
  | date d => some (.date d)
  | list _ | mapping _ => none

/-- Null, false, zero and everything empty count as false. -/
def isTrue : Value → Bool
  | null => false
  | bool b => b
  | int n => n != 0
  | real x => !x.isZero
  | date _ => true
  | text s => !s.isEmpty
  | broken _ => true
  | list items => !items.isEmpty
  | mapping entries => !entries.isEmpty

/-- The entries of a mapping. -/
def entries? : Value → Option (List (Key × Value))
  | mapping entries => some entries
  | _ => none

def isMapping : Value → Bool
  | mapping _ => true
  | _ => false

def isText : Value → Bool
  | text _ | broken _ => true
  | _ => false

def isBool : Value → Bool
  | bool _ => true
  | _ => false

/-- The word for the kind of a value in messages. -/
def kind : Value → String
  | null => "NoneType"
  | bool _ => "bool"
  | int _ => "int"
  | real _ => "float"
  | date d => d.kind
  | text _ | broken _ => "str"
  | list _ => "list"
  | mapping _ => "dict"

mutual

/-- Whether a value has a text: no number in it is too long to be written. -/
def isWritable : Value → Bool
  | int n => Text.isShort n
  | list items => areWritable items
  | mapping entries => entriesWritable entries
  | _ => true

def areWritable : List Value → Bool
  | [] => true
  | v :: rest => v.isWritable && areWritable rest

def entriesWritable : List (Key × Value) → Bool
  | [] => true
  | (k, v) :: rest => k.isWritable && v.isWritable && entriesWritable rest

end

theorem areWritable_iff {items : List Value} :
    areWritable items = true ↔ ∀ v ∈ items, v.isWritable = true := by
  induction items with
  | nil => simp [areWritable]
  | cons v rest ih => simp [areWritable, ih]

theorem entriesWritable_iff {entries : List (Key × Value)} : entriesWritable entries = true ↔
    ∀ e ∈ entries, e.1.isWritable = true ∧ e.2.isWritable = true := by
  induction entries with
  | nil => simp [entriesWritable]
  | cons e rest ih => simp [entriesWritable, ih]

/-- The text of a key inside a value. -/
def nestedKey : Key → String
  | .text s => Text.quoted s
  | .null => "None"
  | .bool b => if b then "True" else "False"
  | .int n => toString n
  | .real x => x.text
  | .date d => d.quoted

mutual

/-- The text of a writable value inside another one: texts and dates are quoted. -/
def nested : Value → String
  | null => "None"
  | bool b => if b then "True" else "False"
  | int n => toString n
  | real x => x.text
  | date d => d.quoted
  | text s => Text.quoted s
  | broken b => b.quoted
  | list items => "[" ++ String.intercalate ", " (nestedItems items) ++ "]"
  | mapping entries => "\x7b" ++ String.intercalate ", " (nestedEntries entries) ++ "\x7d"

def nestedItems : List Value → List String
  | [] => []
  | v :: rest => v.nested :: nestedItems rest

def nestedEntries : List (Key × Value) → List String
  | [] => []
  | (k, v) :: rest => (nestedKey k ++ ": " ++ v.nested) :: nestedEntries rest

end

/-- The text of a writable value on its own: a text is itself. -/
def display : Value → String
  | text s => s
  | broken b => b.shown
  | date d => d.text
  | v => v.nested

/-- The code points of the text of a writable value. -/
def points : Value → List Text.CodePoint
  | broken b => b.points
  | v => Text.points v.display

end Value

end NullSafeEq
