import NullSafeEq.Text.Numeral
import NullSafeEq.Text.Quoted

/-!
# Reading argument words

A command has options, which begin with a dash, and at most one place for other words. All words are
sorted into options and arguments before any is used. An option may be shortened as long as only
one fits, a value may follow its option behind an equals sign, and options of one letter may be
joined. Behind a double dash every word is an argument. Words that fit nowhere are collected.
-/
namespace NullSafeEq.CommandLine

/-- Why the words of a command line are not carried out. -/
inductive Stop where
  /-- A text was asked for instead. -/
  | shown (text : String)
  /-- The words are refused with a message. -/
  | refused (message : String)
  deriving DecidableEq, Repr

/-- What an option does to the choices made so far. -/
inductive Effect (σ : Type) where
  | flag (set : σ → σ)
  /-- Take a value; the error says what is wrong with it. A double dash joined to the option stands
  for no value. -/
  | value (set : Option String → σ → Except String σ)
  | show (text : String)

/-- An option with all its names. -/
structure Switch (σ : Type) where
  names : List String
  effect : Effect σ

namespace Switch

/-- The names of an option in messages. -/
def label (s : Switch σ) : String := String.intercalate "/" s.names

def takesValue (s : Switch σ) : Bool :=
  match s.effect with
  | .value _ => true
  | .flag _ | .show _ => false

end Switch

/-- What a command does with the words that are no options. -/
inductive Place (σ : Type) where
  | nothing
  /-- Any number of words that stand together. -/
  | many (set : List String → σ → σ)
  /-- One word that has to be there. -/
  | one (name : String) (set : String → σ → σ)
  /-- The name of a further command, which takes all words behind it. It gives back the words that
  fit nowhere. -/
  | command (name : String)
      (choices : List (String × (List String → σ → Except Stop (σ × List String))))

/-- The words that a command understands. -/
structure Usage (σ : Type) where
  program : String
  switches : List (Switch σ)
  place : Place σ

/-! ### Choices -/

/-- The complaint about a word that is none of some choices. -/
def invalidChoice (word : String) (choices : List String) : String :=
  let quoted := String.intercalate ", " (choices.map Text.quoted)
  s!"invalid choice: {Text.quoted word} (choose from {quoted})"

/-! ### Options in words -/

/-- An option found in a word, under the name that was meant. A value may be joined to it. -/
structure Spotted (σ : Type) where
  switch : Switch σ
  name : List Char
  joined : Option (List Char)

/-- A word before its use. -/
inductive Sorted (σ : Type) where
  | argument
  /-- The double dash. -/
  | dashes
  /-- A word that looks like an option, with the option if there is such a one. -/
  | option (found : Option (Spotted σ))

/-- All names of options, each with its option. -/
def namesOf (switches : List (Switch σ)) : List (List Char × Switch σ) :=
  switches.flatMap fun s => s.names.map fun n => (n.toList, s)

/-- The option with a name. -/
def named? (switches : List (Switch σ)) (name : List Char) : Option (Switch σ) :=
  ((namesOf switches).find? fun (n, _) => n = name).map Prod.snd

/-- The parts of a word before and behind its first equals sign. -/
def atEquals (word : List Char) : List Char × Option (List Char) :=
  match word.dropWhile (· ≠ '=') with
  | [] => (word, none)
  | _ :: value => (word.takeWhile (· ≠ '='), some value)

/-- The options that a word may be short for. -/
def candidates (switches : List (Switch σ)) (word : List Char) : List (Spotted σ) :=
  match word with
  | '-' :: '-' :: _ =>
    let (start, value) := atEquals word
    (namesOf switches).filterMap fun (name, s) =>
      if start.isPrefixOf name then some ⟨s, name, value⟩ else none
  | '-' :: letter :: rest =>
    (namesOf switches).filterMap fun (name, s) =>
      if name = ['-', letter] then some ⟨s, name, some rest⟩
      else if word.isPrefixOf name then some ⟨s, name, none⟩
      else none
  | _ => []

/-- Whether a word is a number below zero. -/
def isNegativeNumber : List Char → Bool
  | '-' :: cs =>
    match cs.dropWhile Text.isDecimalDigit with
    | [] => !cs.isEmpty
    | '.' :: rest => !rest.isEmpty && rest.all Text.isDecimalDigit
    | _ => false
  | _ => false

/-- Sort a word that is not the double dash. Numbers below zero and words with a blank in them are
arguments unless they fit an option. -/
def sortWord (switches : List (Switch σ)) (word : String) : Except String (Sorted σ) :=
  let cs := word.toList
  match cs with
  | '-' :: _ :: _ =>
    match named? switches cs, atEquals cs with
    | some s, _ => .ok (.option (some ⟨s, cs, none⟩))
    | none, (start, value) =>
      match value, named? switches start with
      | some value, some s => .ok (.option (some ⟨s, start, some value⟩))
      | _, _ =>
        match candidates switches cs with
        | [] =>
          if isNegativeNumber cs || cs.contains ' ' then .ok .argument else .ok (.option none)
        | [found] => .ok (.option (some found))
        | several =>
          let names := String.intercalate ", " (several.map fun found => String.ofList found.name)
          .error s!"ambiguous option: {word} could match {names}"
  | _ => .ok .argument

/-- Sort the words of a command. -/
def sortWords (switches : List (Switch σ)) : List String → Except String (List (String × Sorted σ))
  | [] => .ok []
  | word :: rest =>
    if word = "--" then .ok ((word, .dashes) :: rest.map fun w => (w, .argument))
    else do
      let sorted ← sortWord switches word
      return (word, sorted) :: (← sortWords switches rest)

/-! ### Joined options -/

/-- How a word with joined options ends. -/
inductive Tail (σ : Type) where
  | flag (s : Switch σ)
  | given (s : Switch σ) (value : String)
  /-- The value is in the next word. -/
  | owing (s : Switch σ)

/-- The complaint about a value behind an option that takes none. -/
def ignoredValue (s : Switch σ) (value : List Char) : String :=
  s!"argument {s.label}: ignored explicit argument {Text.quoted (String.ofList value)}"

/-- An option without a value in its word. -/
def Tail.alone (s : Switch σ) : Tail σ := if s.takesValue then .owing s else .flag s

/-- The options in a word behind the name of one of them, with the last one apart. Behind an option
that takes no value, if it is `short`, each letter is a further option. -/
def unjoin (switches : List (Switch σ)) (s : Switch σ) (short : Bool) :
    List Char → Except String (List (Switch σ) × Tail σ)
  | [] => if s.takesValue then .ok ([], .given s "") else .error (ignoredValue s [])
  | c :: cs =>
    if s.takesValue then .ok ([], .given s (String.ofList (c :: cs)))
    else
      match if short then named? switches ['-', c] else none, cs with
      | none, _ => .error (ignoredValue s (c :: cs))
      | some next, [] => .ok ([s], .alone next)
      | some next, d :: rest =>
        (unjoin switches next true (d :: rest)).map fun (ss, t) => (s :: ss, t)

/-- The options in a word. -/
def Spotted.options (switches : List (Switch σ)) (found : Spotted σ) :
    Except String (List (Switch σ) × Tail σ) :=
  match found.joined with
  | none => .ok ([], .alone found.switch)
  | some value => unjoin switches found.switch (found.name.length = 2) value

/-! ### Reading -/

/-- What has been read of the words that are no options. -/
inductive Progress where
  | waiting
  /-- Words of a place for many, in reverse. -/
  | filling (soFar : List String)
  /-- The place is full; a double dash may follow at once. -/
  | justFull
  | full
  deriving DecidableEq, Repr

/-- The state of reading: the choices, what fits nowhere in reverse, and the progress. -/
structure Reading (σ : Type) where
  choices : σ
  stray : List String := []
  progress : Progress := .waiting

/-- A word that fits nowhere. -/
def Reading.astray (r : Reading σ) (word : String) : Reading σ :=
  { r with stray := word :: r.stray }

/-- Words without the first double dash among them. -/
def dropDashes : List String → List String
  | [] => []
  | w :: rest => if w = "--" then rest else w :: dropDashes rest

namespace Usage

variable {σ : Type} (u : Usage σ)

/-- A refusal in the name of the command. -/
def refuse (message : String) : Stop := .refused s!"{u.program}: error: {message}"

/-- Apply an option without a value. -/
def applyFlag (choices : σ) (s : Switch σ) : Except Stop σ :=
  match s.effect with
  | .flag set => .ok (set choices)
  | .show text => .error (.shown text)
  | .value _ => .error (u.refuse s!"argument {s.label}: expected one argument")

/-- Apply an option with a value. -/
def applyValue (choices : σ) (s : Switch σ) (value : String) : Except Stop σ :=
  match s.effect with
  | .value set =>
    let value := if value = "--" then none else some value
    (set value choices).mapError fun e => u.refuse s!"argument {s.label}: {e}"
  | .flag _ | .show _ => u.applyFlag choices s

/-- Apply several options without values. -/
def applyFlags (choices : σ) : List (Switch σ) → Except Stop σ
  | [] => .ok choices
  | s :: rest => do applyFlags (← u.applyFlag choices s) rest

/-- End a place for many words that is being filled. -/
def settle (r : Reading σ) : Reading σ :=
  match r.progress, u.place with
  | .filling soFar, .many set =>
    { r with choices := set (dropDashes soFar.reverse) r.choices, progress := .full }
  | .justFull, _ => { r with progress := .full }
  | _, _ => r

/-- Read sorted words. -/
def readFrom (r : Reading σ) : List (String × Sorted σ) → Except Stop (σ × List String)
  | [] =>
    let r := u.settle r
    match u.place, r.progress with
    | .one name _, .waiting =>
      .error (u.refuse s!"the following arguments are required: {name}")
    | _, _ => .ok (r.choices, r.stray.reverse)
  | (word, .option none) :: rest => readFrom ((u.settle r).astray word) rest
  | (_, .option (some found)) :: rest =>
    let r := u.settle r
    match found.options u.switches with
    | .error e => .error (u.refuse e)
    | .ok (flags, tail) =>
      match tail, rest with
      | .flag s, rest => do
        let choices ← u.applyFlags r.choices (flags ++ [s])
        readFrom { r with choices } rest
      | .given s value, rest => do
        let choices ← u.applyFlags r.choices flags
        let choices ← u.applyValue choices s value
        readFrom { r with choices } rest
      | .owing s, (value, .argument) :: rest => do
        let choices ← u.applyFlags r.choices flags
        let choices ← u.applyValue choices s value
        readFrom { r with choices } rest
      | .owing s, _ => .error (u.refuse s!"argument {s.label}: expected one argument")
  | (word, sorted) :: rest =>
    match r.progress, u.place with
    | .filling soFar, _ => readFrom { r with progress := .filling (word :: soFar) } rest
    | .waiting, .many _ => readFrom { r with progress := .filling [word] } rest
    | .waiting, .one _ set =>
      match sorted with
      | .dashes =>
        if rest.isEmpty then readFrom (r.astray word) rest else readFrom r rest
      | _ => readFrom { r with choices := set word r.choices, progress := .justFull } rest
    | .waiting, .command name choices =>
      match sorted, rest with
      | .dashes, [] => readFrom (r.astray word) rest
      | _, _ =>
        match choices.lookup word with
        | none =>
          .error (u.refuse s!"argument {name}: {invalidChoice word (choices.map Prod.fst)}")
        | some further => do
          let (choices, stray) ← further (rest.map Prod.fst) r.choices
          return (choices, r.stray.reverse ++ stray)
    | .justFull, _ =>
      match sorted with
      | .dashes => readFrom { r with progress := .full } rest
      | _ => readFrom ({ r with progress := .full }.astray word) rest
    | _, _ => readFrom (r.astray word) rest

/-- Read the words of a command on top of some choices; words that fit nowhere are given back. -/
def read (choices : σ) (words : List String) : Except Stop (σ × List String) := do
  let sorted ← (sortWords u.switches words).mapError u.refuse
  u.readFrom { choices } sorted

end Usage

end NullSafeEq.CommandLine
