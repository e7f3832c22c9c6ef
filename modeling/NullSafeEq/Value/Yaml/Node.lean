import NullSafeEq.Value.Yaml.Token

/-!
# Nodes of a YAML document

What the tokens of a document make: scalars, sequences and mappings with their tags. A node with an
anchor may be repeated by an alias.
-/
namespace NullSafeEq.Yaml

/-- A node. A node without a tag of its own, or with the tag `!`, means what its form says. -/
inductive Node where
  | scalar (tag : Option String) (plain : Bool) (text : String)
  /-- A quoted scalar with surrogates in it. -/
  | broken (tag : Option String) (text : Text.Broken)
  | sequence (tag : Option String) (items : List Node)
  | mapping (tag : Option String) (entries : List (Node × Node))
  deriving Repr

/-- The node where nothing is written. -/
def Node.empty : Node := .scalar none true ""

/-- What is known while a document is read: the tokens left, the nodes by their anchors, where a
node that is not complete is missing, and the short forms of tags. -/
structure Reading where
  tokens : List Token
  anchors : List (String × Option Node) := []
  handles : List (String × String)

/-- A step of reading. -/
abbrev Step (α : Type) := StateT Reading Option α

namespace Step

/-- The next token. -/
def next : Step (Option Token) := do return (← get).tokens.head?

/-- Go behind the next token. -/
def drop : Step Unit := modify fun r => { r with tokens := r.tokens.drop 1 }

/-- Whether the next token is one of some. -/
def isNext (tokens : List Token) : Step Bool := do return (← next).any tokens.contains

/-- Go behind the next token if it is a certain one. -/
def skip (t : Token) : Step Bool := do
  let found ← isNext [t]
  if found then drop
  return found

/-- Go behind the next token, which has to be a certain one. -/
def expect (t : Token) : Step Unit := do guard (← skip t)

/-- The name of an anchor, if there is one. -/
def anchor : Step (Option String) := do
  match ← next with
  | some (.anchor name) => drop; return some name
  | _ => return none

/-- A tag in full, if there is one. -/
def tag : Step (Option String) := do
  match ← next with
  | some (.tag none text) => drop; return some text
  | some (.tag (some handle) text) =>
    drop
    let full ← StateT.lift ((← get).handles.lookup handle)
    return some (full ++ text)
  | _ => return none

/-- An anchor and a tag in any order. -/
def properties : Step (Option String × Option String) := do
  match ← anchor with
  | some name => return (some name, ← tag)
  | none =>
    let t ← tag
    if t.isSome then return (← anchor, t) else return (none, none)

/-- Note the node under an anchor. -/
def note (name : Option String) (node : Option Node) : Step Unit :=
  match name with
  | none => pure ()
  | some name => modify fun r => { r with anchors := (name, node) :: r.anchors }

/-- Note that the node under an anchor is being read; no anchor is used twice. -/
def reserve (name : Option String) : Step Unit := do
  let r ← get
  guard !(name.any fun n => (r.anchors.lookup n).isSome)
  note name none

/-- The node under an anchor, which has to be complete. -/
def known (name : String) : Step Node := do
  StateT.lift (((← get).anchors.lookup name).bind id)

end Step

open Step

mutual

/-- A node. In `block` form block collections may start; with `bare` also a sequence whose items
stand at the column of the mapping around it. -/
def node (fuel : Nat) (block bare : Bool) : Step Node :=
  match fuel with
  | 0 => failure
  | fuel + 1 => do
    match ← next with
    | some (.alias name) =>
      drop
      known name
    | _ =>
      let (name, t) ← properties
      reserve name
      let found ← content fuel block bare t (name.isSome || t.isSome)
      note name (some found)
      return found

/-- A node behind its properties. If it has any, there may be nothing else. -/
def content (fuel : Nat) (block bare : Bool) (t : Option String) (marked : Bool) : Step Node :=
  match fuel with
  | 0 => failure
  | fuel + 1 => do
    match ← next, block, bare with
    | some (.scalar plain text), _, _ => drop; return .scalar t plain text
    | some (.broken text), _, _ => drop; return .broken t text
    | some .openSequence, _, _ => drop; return .sequence t (← flowItems fuel true)
    | some .openMapping, _, _ => drop; return .mapping t (← flowEntries fuel true)
    | some .item, _, true => return .sequence t (← bareItems fuel)
    | some .blockSequence, true, _ => drop; return .sequence t (← blockItems fuel)
    | some .blockMapping, true, _ => drop; return .mapping t (← blockEntries fuel)
    | _, _, _ => if marked then return .scalar t true "" else failure

/-- A node, or nothing before one of some tokens. -/
def nodeBefore (fuel : Nat) (stops : List Token) (block bare : Bool) : Step Node :=
  match fuel with
  | 0 => failure
  | fuel + 1 => do if ← isNext stops then return .empty else node fuel block bare

/-- The value of an entry, which may be missing. -/
def valueBefore (fuel : Nat) (stops : List Token) (block bare : Bool) : Step Node :=
  match fuel with
  | 0 => failure
  | fuel + 1 => do if ← skip .value then nodeBefore fuel stops block bare else return .empty

/-- The rest of a block sequence. -/
def blockItems (fuel : Nat) : Step (List Node) :=
  match fuel with
  | 0 => failure
  | fuel + 1 => do
    if ← skip .item then
      let first ← nodeBefore fuel [.item, .blockEnd] true false
      return first :: (← blockItems fuel)
    else
      expect .blockEnd
      return []

/-- The rest of a sequence at the column of the mapping around it. -/
def bareItems (fuel : Nat) : Step (List Node) :=
  match fuel with
  | 0 => failure
  | fuel + 1 => do
    if ← skip .item then
      let first ← nodeBefore fuel [.item, .key, .value, .blockEnd] true false
      return first :: (← bareItems fuel)
    else return []

/-- The rest of a block mapping. -/
def blockEntries (fuel : Nat) : Step (List (Node × Node)) :=
  match fuel with
  | 0 => failure
  | fuel + 1 => do
    if ← skip .key then
      let key ← nodeBefore fuel [.key, .value, .blockEnd] true true
      let value ← valueBefore fuel [.key, .value, .blockEnd] true true
      return (key, value) :: (← blockEntries fuel)
    else
      expect .blockEnd
      return []

/-- The rest of a flow sequence. An entry with a key is a mapping of its own. -/
def flowItems (fuel : Nat) (first : Bool) : Step (List Node) :=
  match fuel with
  | 0 => failure
  | fuel + 1 => do
    if ← skip .closeSequence then return []
    if !first then expect .comma
    if ← skip .key then
      let key ← nodeBefore fuel [.value, .comma, .closeSequence] false false
      let value ← valueBefore fuel [.comma, .closeSequence] false false
      return .mapping none [(key, value)] :: (← flowItems fuel false)
    else if ← skip .closeSequence then return []
    else
      let item ← node fuel false false
      return item :: (← flowItems fuel false)

/-- The rest of a flow mapping. An entry without a key token is a key without a value. -/
def flowEntries (fuel : Nat) (first : Bool) : Step (List (Node × Node)) :=
  match fuel with
  | 0 => failure
  | fuel + 1 => do
    if ← skip .closeMapping then return []
    if !first then expect .comma
    if ← skip .key then
      let key ← nodeBefore fuel [.value, .comma, .closeMapping] false false
      let value ← valueBefore fuel [.comma, .closeMapping] false false
      return (key, value) :: (← flowEntries fuel false)
    else if ← skip .closeMapping then return []
    else
      let key ← node fuel false false
      return (key, .empty) :: (← flowEntries fuel false)

end

/-! ### Documents -/

/-- The short forms of tags that are always known. -/
def standardHandles : List (String × String) := [("!", "!"), ("!!", "tag:yaml.org,2002:")]

/-- Take in the directives before a document. The version is given once at most and begins with one,
and no short form is declared twice. -/
def directives (versioned : Bool) (declared : List (String × String)) :
    List Token → Option (List (String × String) × List Token)
  | .directive (.version major) :: rest =>
    if versioned || major ≠ 1 then none else directives true declared rest
  | .directive (.handle short full) :: rest =>
    if (declared.lookup short).isSome then none
    else directives versioned ((short, full) :: declared) rest
  | .directive .other :: rest => directives versioned declared rest
  | rest => some (declared ++ standardHandles, rest)

/-- The root of a document whose first token is known. -/
def root (fuel : Nat) (explicit : Bool) : Step Node := do
  let start ← next
  let ended :=
    match start with
    | none | some .documentStart | some .documentEnd | some (.directive _) => true
    | _ => false
  if explicit && ended then return .empty else node fuel true false

/-- The root of the only document of a text; an empty text has none. -/
def root? (cs : List Char) : Option (Option Node) := do
  let tokens ← tokens? cs
  if tokens.isEmpty then return none
  let (handles, rest) ← directives false [] tokens
  let (explicit, rest) ←
    match rest with
    | .documentStart :: rest => some (true, rest)
    | rest => if rest.length = tokens.length then some (false, rest) else none
  let (found, r) ← (root (4 * tokens.length + 8) explicit).run { tokens := rest, handles }
  guard (r.tokens.all (· = .documentEnd))
  return some found

end NullSafeEq.Yaml
