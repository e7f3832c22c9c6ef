import NullSafeEq.Files
import NullSafeEq.Settings.Validation
import NullSafeEq.Text.Lines
import NullSafeEq.Text.Numeral
import NullSafeEq.Value.Yaml.Document
import NullSafeEq.Value.Yaml.Writer

/-!
# Sources of settings

Settings come from a configuration file and from environment variables, on top of the defaults.
A variable takes precedence over the file, option by option. The file has to be valid; of the
variables, those with a value of the wrong form are left out with a warning.
-/
namespace NullSafeEq.Settings

/-! ### Merging -/

mutual

/-- A value on top of another one: of two mappings the entries are merged. -/
def overlay (below : Option Value) : Value → Value
  | .mapping entries =>
    match below with
    | some (.mapping base) => .mapping (overlayEntries base entries)
    | _ => .mapping entries
  | v => v

/-- Entries on top of others. -/
def overlayEntries (base : List (Key × Value)) : List (Key × Value) → List (Key × Value)
  | [] => base
  | (key, v) :: rest =>
    overlayEntries (Value.insert key (overlay (Value.lookup key base) v) base) rest

end

/-- Merge configurations, later ones on top. Those that count as false are skipped. -/
def merge : List (Key × Value) → List Value → Except KindError (List (Key × Value))
  | base, [] => .ok base
  | base, v :: rest =>
    if v.isTrue then
      match v with
      | .mapping entries => merge (overlayEntries base entries) rest
      | v => .error (.noEntries v.kind)
    else merge base rest

/-! ### Environment variables -/

/-- A variable that sets an option of a section. It applies if it is set and not empty; `read` is
the value that its text stands for, if any. -/
structure Variable where
  name : String
  heading : String
  key : String
  read : String → Option Value

/-- The words for yes; every other word means no. -/
def yesWords : List String := ["1", "true", "yes", "on"]

def readYes (s : String) : Option Value :=
  some (.bool (yesWords.contains (Text.asciiLower (Text.trim s))))

def readInt (s : String) : Option Value := (Text.intValue? s).map .int

/-- Read one of some words in letters of any case. -/
def readWord (words : List String) (s : String) : Option Value :=
  let word := Text.asciiLower s
  if words.contains word then some (.text word) else none

/-- The variables in the order in which they are read. -/
def knownVariables : List Variable :=
  [⟨"EQUALSGUARD_REQUIRE_NULL_GUARD", "inspection", "require_explicit_null_guard", readYes⟩,
   ⟨"EQUALSGUARD_LANGUAGE_LEVEL", "inspection", "language_level", readInt⟩,
   ⟨"EQUALSGUARD_HELPER_NAME", "inspection", "helper_name", fun s => some (.text s)⟩,
   ⟨"EQUALSGUARD_RESOLUTION_STRATEGY", "resolution", "strategy", readWord strategies⟩,
   ⟨"EQUALSGUARD_OUTPUT_FORMAT", "output", "format", readWord formats⟩,
   ⟨"EQUALSGUARD_MAX_WORKERS", "output", "max_workers", readInt⟩]

/-- The text of a variable that is set and not empty. -/
def textOf? (environment : List (String × String)) (name : String) : Option String :=
  (environment.lookup name).filter fun s => !s.isEmpty

/-- The configuration that the variables make, with warnings for those of the wrong form. -/
def fromVariables (environment : List (String × String)) :
    List Variable → List (Key × Value) × List String
  | [] => ([], [])
  | x :: rest =>
    let (entries, warnings) := fromVariables environment rest
    match textOf? environment x.name with
    | none => (entries, warnings)
    | some s =>
      match x.read s with
      | some v => (overlayEntries [(x.heading, .mapping [(x.key, v)])] entries, warnings)
      | none => (entries, s!"Invalid {x.name} value, using default" :: warnings)

/-- The configuration that an environment makes, with warnings. -/
def ofEnvironment (environment : List (String × String)) :
    List (Key × Value) × List String :=
  fromVariables environment knownVariables

/-! ### Configuration files -/

/-- The files that are looked for without a path, in this order. The last two are in the home
directory. -/
def defaultPaths (home : Option String) : List String :=
  ["equalsguard.json", "equalsguard.yaml", "equalsguard.yml", ".equalsguard.json",
   ".equalsguard.yaml", ".equalsguard.yml"] ++
    (home.map fun dir => [dir ++ "/.equalsguard.json", dir ++ "/.equalsguard.yaml"]).getD []

/-- What a run sees around it. -/
structure Surroundings where
  files : Files
  environment : List (String × String) := []
  home : Option String := none

/-- The first of some paths that leads anywhere; without paths those of the defaults. -/
def findFile (w : Surroundings) (paths : List String) : Option String :=
  (if paths.isEmpty then defaultPaths w.home else paths).find? w.files.contains

/-- Whether the name of a file says that it holds YAML. -/
def isYaml (path : String) : Bool :=
  ".yaml".toList.isSuffixOf path.toList || ".yml".toList.isSuffixOf path.toList

/-- The value of a YAML document; one that counts as false is an empty configuration. -/
def readYaml (octets : List UInt8) : Except Failure Value := do
  let text ← (Text.Utf8.decode octets).mapError fun f => .encoding f.atTail
  match Yaml.document (Text.unifyNewlines text.toList) with
  | .error .malformed => .error (.configuration (.malformed "<yaml>"))
  | .error (.invalid reason) => .error (.invalidScalar reason)
  | .ok v => return if v.isTrue then v else .mapping []

/-- What a fault of a JSON document makes loading fail with. -/
def jsonFailure (document : List Char) (f : Json.Fault) : Failure :=
  if f.isNumeric then .invalidScalar (f.message document)
  else .configuration (.malformed (f.message document))

/-- The value of a JSON document. -/
def readJson (octets : List UInt8) : Except Failure Value := do
  let text ← (Text.Utf8.decode octets).mapError .encoding
  let cs := Text.unifyNewlines text.toList
  (Json.document cs).mapError (jsonFailure cs)

/-- The configuration in a file. -/
def loadFile (files : Files) (path : String) : Except Failure (List (Key × Value)) := do
  if !files.contains path then .error (.configuration (.missingFile path))
  let octets ← (files.read path).mapError fun e => .configuration (.unreadable e)
  match ← if isYaml path then readYaml octets else readJson octets with
  | .mapping entries => return entries
  | _ => .error (.configuration .notMapping)

/-- The configuration in the file at a path or, with an empty path, in the first default file. -/
def loadFileOrDefault (w : Surroundings) (path : String) :
    Except Failure (List (Key × Value)) :=
  if path.isEmpty then
    match findFile w [] with
    | none => .ok []
    | some found => loadFile w.files found
  else loadFile w.files path

/-- What loading came to, with the warnings on the way, which stand even if it failed. -/
structure Loaded where
  warnings : List String
  outcome : Except Failure Settings

/-- Load settings from a file and, with `useEnvironment`, from the environment. -/
def load (w : Surroundings) (path : String) (useEnvironment validated : Bool) : Loaded :=
  match loadFileOrDefault w path with
  | .error e => ⟨[], .error e⟩
  | .ok entries =>
    let (above, warnings) := if useEnvironment then ofEnvironment w.environment else ([], [])
    let merged := overlayEntries entries above
    match if validated then validate merged else .ok () with
    | .error e => ⟨warnings, .error (.configuration e)⟩
    | .ok () =>
      ⟨warnings ++ Settings.warnings merged, (ofEntries merged).mapError .kind⟩

/-! ### Saving -/

/-- The text of a configuration file: YAML if the format is so called, and otherwise JSON. -/
def fileText (s : Settings) (format : String) : String :=
  if Text.asciiLower format = "yaml" then Yaml.write s.toEntries
  else Json.write true (.mapping s.toEntries)

/-- The files after writing a configuration file. -/
def writeFile (files : Files) (path text : String) : Except Failure Files :=
  (files.write path (Text.Utf8.encode text)).mapError fun
    | .nullInPath => .file .nullInPath
    | e => .configuration (.unwritable e)

/-- The files after saving settings at a path. -/
def save (s : Settings) (files : Files) (path format : String) : Except Failure Files := do
  let written ← writeFile files path (s.fileText format)
  if (Value.mapping s.toEntries).isWritable then return written
  else throw (.kind .longNumber)

end NullSafeEq.Settings
