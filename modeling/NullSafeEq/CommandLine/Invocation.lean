import NullSafeEq.CommandLine.Arguments
import NullSafeEq.Settings.Validation
import NullSafeEq.Text.Numeral

/-!
# Invocations

The commands of the program with their options, and the help on each of them.
-/
namespace NullSafeEq.CommandLine

/-- What to check, and how. Options that are not given leave the settings as they are; a level or a
name may be given without a value. -/
structure CheckOptions where
  expressions : List String := []
  file : String := ""
  format : Option String := none
  fix : Bool := false
  requireGuard : Bool := false
  languageLevel : Option (Option Int) := none
  variableNames : List (Option String) := []
  classNames : List (Option String) := []
  deriving Repr, DecidableEq

/-- Where to write a configuration file, and in which format. Either may be given without a
value. -/
structure InitOptions where
  path : Option String := some "equalsguard.json"
  format : Option String := some "json"
  deriving Repr, DecidableEq

inductive ConfigAction where
  | show
  | init (options : InitOptions)
  | validate (path : String)
  deriving Repr, DecidableEq

inductive Command where
  | check (options : CheckOptions)
  | config (action : Option ConfigAction)
  deriving Repr, DecidableEq

/-- A command with the options that apply to all of them. -/
structure Invocation where
  configPath : String := ""
  verbose : Bool := false
  noRich : Bool := false
  machineReadable : Bool := false
  command : Option Command := none
  deriving Repr, DecidableEq

/-! ### Help -/

/-- Lines with a line feed behind each of them. -/
def paragraph (lines : List String) : String := String.join (lines.map (· ++ "\n"))

def mainHelp : String := paragraph
  ["usage: equalsguard [-h] [--config CONFIG] [--verbose] [--no-rich] [--machine-readable] " ++
     "[--version] \x7bcheck,config\x7d ...",
   "",
   "equalsguard - find equality checks replaceable by Objects.equals",
   "",
   "positional arguments:",
   "  \x7bcheck,config\x7d        Available commands",
   "    check               Check Java expressions for replaceable equality checks",
   "    config              Configuration management",
   "",
   "options:",
   "  -h, --help            show this help message and exit",
   "  --config CONFIG, -c CONFIG",
   "                        Path to configuration file",
   "  --verbose, -v         Enable verbose output and debug logging",
   "  --no-rich             Disable rich terminal output (use plain text)",
   "  --machine-readable    Output in machine-readable format (JSON)",
   "  --version             show program's version number and exit",
   "",
   "Use \"equalsguard <command> --help\" for detailed command help."]

def checkHelp : String := paragraph
  ["usage: equalsguard check [-h] [--file FILE] [--format \x7btext,json\x7d] [--fix] " ++
     "[--require-null-guard]",
   "                         [--language-level LANGUAGE_LEVEL] [--variable NAME] [--class NAME]",
   "                         [expressions ...]",
   "",
   "positional arguments:",
   "  expressions           Java expressions to check",
   "",
   "options:",
   "  -h, --help            show this help message and exit",
   "  --file FILE, -f FILE  Read expressions from a file, one per line",
   "  --format \x7btext,json\x7d  Output format (default: from configuration)",
   "  --fix                 Show the rewritten expression for each finding",
   "  --require-null-guard  Only report equals() calls that are guarded by a null check",
   "  --language-level LANGUAGE_LEVEL",
   "                        Java language level of the code",
   "  --variable NAME       Declare a variable name (switches to scope resolution)",
   "  --class NAME          Declare a class name (switches to scope resolution)"]

def configHelp : String := paragraph
  ["usage: equalsguard config [-h] \x7bshow,init,validate\x7d ...",
   "",
   "positional arguments:",
   "  \x7bshow,init,validate\x7d  Config actions",
   "    show                Show current configuration",
   "    init                Create default configuration file",
   "    validate            Validate configuration file",
   "",
   "options:",
   "  -h, --help            show this help message and exit"]

def showHelp : String := paragraph
  ["usage: equalsguard config show [-h]",
   "",
   "options:",
   "  -h, --help  show this help message and exit"]

def initHelp : String := paragraph
  ["usage: equalsguard config init [-h] [--path PATH] [--format \x7bjson,yaml\x7d]",
   "",
   "options:",
   "  -h, --help            show this help message and exit",
   "  --path PATH           Path for the configuration file",
   "  --format \x7bjson,yaml\x7d  Configuration file format"]

def validateHelp : String := paragraph
  ["usage: equalsguard config validate [-h] config_file",
   "",
   "positional arguments:",
   "  config_file  Configuration file to validate",
   "",
   "options:",
   "  -h, --help   show this help message and exit"]

/-! ### Commands -/

def helpSwitch (text : String) : Switch σ := ⟨["-h", "--help"], .show text⟩

/-- Take a value that is one of some words. -/
def chosen (choices : List String) (set : Option String → σ → σ) : Effect σ :=
  .value fun v s =>
    match v with
    | none => .ok (set none s)
    | some word =>
      if choices.contains word then .ok (set v s) else .error (invalidChoice word choices)

/-- Take any value. -/
def anything (set : Option String → σ → σ) : Effect σ := .value fun v s => .ok (set v s)

/-- Take a whole number. -/
def wholeNumber (set : Option Int → σ → σ) : Effect σ :=
  .value fun v s =>
    match v with
    | none => .ok (set none s)
    | some digits =>
      match Text.intValue? digits with
      | some n => .ok (set (some n) s)
      | none => .error s!"invalid int value: {Text.quoted digits}"

def checkUsage : Usage CheckOptions where
  program := "equalsguard check"
  switches :=
    [helpSwitch checkHelp,
     ⟨["--file", "-f"], anything fun v o => { o with file := v.getD "" }⟩,
     ⟨["--format"], chosen Settings.formats fun v o => { o with format := v }⟩,
     ⟨["--fix"], .flag fun o => { o with fix := true }⟩,
     ⟨["--require-null-guard"], .flag fun o => { o with requireGuard := true }⟩,
     ⟨["--language-level"], wholeNumber fun v o => { o with languageLevel := some v }⟩,
     ⟨["--variable"], anything fun v o => { o with variableNames := o.variableNames ++ [v] }⟩,
     ⟨["--class"], anything fun v o => { o with classNames := o.classNames ++ [v] }⟩]
  place := .many fun words o => { o with expressions := words }

def showUsage : Usage Unit where
  program := "equalsguard config show"
  switches := [helpSwitch showHelp]
  place := .nothing

def initUsage : Usage InitOptions where
  program := "equalsguard config init"
  switches :=
    [helpSwitch initHelp,
     ⟨["--path"], anything fun v o => { o with path := v }⟩,
     ⟨["--format"], chosen ["json", "yaml"] fun v o => { o with format := v }⟩]
  place := .nothing

def validateUsage : Usage String where
  program := "equalsguard config validate"
  switches := [helpSwitch validateHelp]
  place := .one "config_file" fun word _ => word

/-- A further command whose choices become part of those of the command before it. -/
def further (u : Usage τ) (start : τ) (set : τ → σ → σ) (words : List String) (s : σ) :
    Except Stop (σ × List String) :=
  (u.read start words).map fun (choices, stray) => (set choices s, stray)

def configUsage : Usage (Option ConfigAction) where
  program := "equalsguard config"
  switches := [helpSwitch configHelp]
  place := .command "config_action"
    [("show", further showUsage () fun _ _ => some .show),
     ("init", further initUsage {} fun o _ => some (.init o)),
     ("validate", further validateUsage "" fun path _ => some (.validate path))]

def mainUsage : Usage Invocation where
  program := "equalsguard"
  switches :=
    [helpSwitch mainHelp,
     ⟨["--config", "-c"], anything fun v i => { i with configPath := v.getD "" }⟩,
     ⟨["--verbose", "-v"], .flag fun i => { i with verbose := true }⟩,
     ⟨["--no-rich"], .flag fun i => { i with noRich := true }⟩,
     ⟨["--machine-readable"], .flag fun i => { i with machineReadable := true }⟩,
     ⟨["--version"], .show "equalsguard 0.1.0\n"⟩]
  place := .command "command"
    [("check", further checkUsage {} fun o i => { i with command := some (.check o) }),
     ("config", further configUsage none fun a i => { i with command := some (.config a) })]

/-- The invocation that the words of a command line ask for. -/
def Invocation.ofWords (words : List String) : Except Stop Invocation := do
  let (i, stray) ← mainUsage.read {} words
  if stray.isEmpty then return i
  else .error (mainUsage.refuse ("unrecognized arguments: " ++ String.intercalate " " stray))

/-- The paths that an invocation names. -/
def Invocation.paths (i : Invocation) : List String :=
  i.configPath ::
    match i.command with
    | some (.check o) => [o.file]
    | some (.config (some (.init o))) => o.path.toList
    | some (.config (some (.validate path))) => [path]
    | _ => []

end NullSafeEq.CommandLine
