import NullSafeEq.CommandLine.Invocation
import NullSafeEq.Report.Terminal
import NullSafeEq.Settings.Sources
import NullSafeEq.Settings.Summary
import NullSafeEq.Text.Lines

/-!
# Running a command

A run reads its surroundings and comes to an outcome; it changes nothing itself. In machine-readable
mode the standard output carries one JSON document or nothing, and what would be printed there
goes to the standard error.
-/
namespace NullSafeEq.CommandLine

/-- What a run printed, warned of and left behind. -/
structure Outcome where
  status : Nat := 0
  output : String := ""
  errors : String := ""
  warnings : List String := []
  files : Files
  /-- Whether the standard output leads to the standard error. -/
  redirected : Bool := false

namespace Outcome

/-- The outcome after printing a text for people. -/
def print (o : Outcome) (text : String) : Outcome :=
  if o.redirected then { o with errors := o.errors ++ text }
  else { o with output := o.output ++ text }

/-- The outcome after printing a document, which goes past any redirection. -/
def printDocument (o : Outcome) (v : Value) : Outcome :=
  { o with output := o.output ++ Json.write false v ++ "\n" }

/-- The outcome of a run that ends with a complaint in any mode. -/
def complain (o : Outcome) (text : String) : Outcome :=
  { o with status := 1, errors := o.errors ++ "Error: " ++ text ++ "\n" }

/-- The outcome of a run that ends with a failure. -/
def fail (o : Outcome) (machineReadable : Bool) (e : Failure) : Outcome :=
  if machineReadable then
    { o with status := 1 }.printDocument
      (.mapping [("success", .bool false), ("error", .text e.message),
        ("error_type", .text e.label)])
  else o.complain e.message

/-- The outcome after further warnings. -/
def warn (o : Outcome) (warnings : List String) : Outcome :=
  { o with warnings := o.warnings ++ warnings }

end Outcome

/-! ### Expressions to check

Expressions come from a file, one on each line, and from arguments. Each has a name that says where
it came from.
-/

/-- A line that holds an expression: it is not blank and no comment. -/
def isExpressionLine (line : List Char) : Bool :=
  !line.isEmpty && !(['/', '/'].isPrefixOf line)

/-- The expressions of numbered lines, named after a file. -/
def expressionsFrom (path : String) (number : Nat) : List String → List (String × String)
  | [] => []
  | line :: rest =>
    let trimmed := Text.trimChars line.toList
    let others := expressionsFrom path (number + 1) rest
    if isExpressionLine trimmed then (s!"{path}:{number}", String.ofList trimmed) :: others
    else others

/-- The expressions in the text of a file. -/
def expressionsOf (path text : String) : List (String × String) :=
  expressionsFrom path 1 (Text.lines (String.ofList (Text.unifyNewlines text.toList)))

/-- The expressions in a file. -/
def readExpressions (files : Files) (path : String) : Except Failure (List (String × String)) := do
  let octets ← (files.read (Files.tidy path)).mapError .file
  let text ← (Text.Utf8.decode octets).mapError .encoding
  return expressionsOf path text

/-- The expressions given as arguments, named by their number. -/
def argumentsFrom (number : Nat) : List String → List (String × String)
  | [] => []
  | text :: rest => (s!"<arg {number}>", text) :: argumentsFrom (number + 1) rest

/-! ### Check -/

/-- What is stored for the value of an option; an option without a value leaves an empty list. -/
def stored (wrap : α → Value) (given : Option α) : Value := (given.map wrap).getD (.list [])

/-- A list of names with further ones behind them; a setting that is no list stays as it is. -/
def withNames (v : Value) (further : List (Option String)) : Value :=
  match v with
  | .list items => .list (items ++ further.map (stored .text))
  | v => v

/-- The settings under the options of a check. Declaring a name turns on resolution by scope. -/
def CheckOptions.applyTo (o : CheckOptions) (s : Settings) : Settings where
  inspection :=
    { s.inspection with
      requireGuard := if o.requireGuard then .bool true else s.inspection.requireGuard
      languageLevel := (o.languageLevel.map (stored .int)).getD s.inspection.languageLevel }
  resolution :=
    if o.variableNames.isEmpty && o.classNames.isEmpty then s.resolution
    else
      { s.resolution with
        strategy := .text "scope"
        variableNames := withNames s.resolution.variableNames o.variableNames
        classNames := withNames s.resolution.classNames o.classNames }
  output := { s.output with format := (o.format.map Value.text).getD s.output.format }

/-- The expressions that a check is about, with their names. -/
def CheckOptions.inputs (o : CheckOptions) (files : Files) :
    Except Failure (List (String × String)) := do
  let fromFile ← if o.file.isEmpty then pure [] else readExpressions files o.file
  return fromFile ++ argumentsFrom 1 o.expressions

/-- A result together with the fixed text, if something was found. -/
def withFix (g : Guard) (live : Inspection) (r : AnalysisResult) (text : String) :
    Except Failure AnalysisResult := do
  if r.success && !r.findings.isEmpty then return { r with fixed := some (← g.fix live text) }
  else return r

/-- The results of checking some expressions. -/
def CheckOptions.results (o : CheckOptions) (s : Settings) (inputs : List (String × String)) :
    Except Failure (List AnalysisResult) := do
  s.check.mapError .configuration
  let g ← (Guard.ofSettings s none).mapError .kind
  let texts := inputs.map Prod.snd
  let results ← g.analyzeAll s texts (some (inputs.map Prod.fst)) .null
  if o.fix then (results.zip texts).mapM fun (r, text) => withFix g s.inspection r text
  else return results

/-- How a command prints. -/
structure Mode where
  machineReadable : Bool
  rich : Bool
  width : Nat

/-- Whether a report is laid out for a terminal. -/
def isLaidOut (m : Mode) (s : Settings) : Bool :=
  !m.machineReadable && m.rich && s.output.useRich.isTrue &&
    match s.output.format with
    | .text "json" => false
    | _ => true

/-- The report on results in the form that the mode and the settings ask for, up to a fault. -/
def report (m : Mode) (s : Settings) (results : List AnalysisResult) :
    String × Option Report.Markup.Fault :=
  if m.machineReadable then (Json.write false (Report.payload results) ++ "\n", none)
  else if isLaidOut m s then Report.Terminal.report ⟨true, m.width⟩ results
  else
    match s.output.format with
    | .text "json" => (Report.format results "json" ++ "\n", none)
    | _ => (Report.format results "text" ++ "\n", none)

/-- Print results, and end with their status. -/
def printResults (m : Mode) (s : Settings) (results : List AnalysisResult) (o : Outcome) :
    Outcome :=
  let o := { o with status := Report.exitStatus results }
  if m.machineReadable then o.printDocument (Report.payload results)
  else
    match report m s results with
    | (text, none) => o.print text
    | (text, some fault) => (o.print text).fail false (.markup fault)

/-- What a terminal adds to the wording of a text that cannot be encoded. -/
def encodingHint : String :=
  "\n*** You may need to add PYTHONIOENCODING=utf-8 to your environment ***"

/-- The code points of the report on some expressions under a helper with surrogates in it. A
stand-in shows where in the report they are, and the helper comes to an end before it starts again,
so the first one of the report is the first one of the helper. -/
def CheckOptions.reportPoints (o : CheckOptions) (m : Mode) (s : Settings)
    (inputs : List (String × String)) (helper : Text.Broken) : List Text.CodePoint :=
  let shown (standIn : Char) : List Char :=
    let s := { s with inspection := { s.inspection with helper := .text (helper.fill standIn) } }
    match o.results s inputs with
    | .ok results => (report m s results).1.toList
    | .error _ => []
  List.zipWith (fun a b => if a = b then .char a else helper.firstSurrogate) (shown '\ufffd')
    (shown '?')

/-- Why results cannot be printed, if they cannot: a number in them is too long, or they show the
surrogates of a helper. -/
def CheckOptions.printFault? (o : CheckOptions) (m : Mode) (s : Settings)
    (inputs : List (String × String)) (results : List AnalysisResult) : Option Failure :=
  if !(Report.payload results).isWritable then some (.kind .longNumber)
  else
    match s.inspection.helper with
    | .broken helper =>
      (Text.EncodingFault.find? (o.reportPoints m s inputs helper)).map fun fault =>
        .unencodable { fault with remark := if isLaidOut m s then encodingHint else "" }
    | _ => none

/-- Check expressions under loaded settings. -/
def runCheck (m : Mode) (options : CheckOptions) (s : Settings) (o : Outcome) : Outcome :=
  match options.inputs o.files with
  | .error e => o.fail m.machineReadable e
  | .ok [] => o.complain "no expressions to check (pass EXPR arguments or --file)"
  | .ok inputs =>
    let s := options.applyTo s
    match options.results s inputs with
    | .error e => o.fail m.machineReadable e
    | .ok results =>
      let o := o.warn (results.flatMap fun r => r.errors.map AnalysisError.warning)
      match options.printFault? m s inputs results with
      | some e => o.fail m.machineReadable e
      | none => printResults m s results o

/-! ### Configuration -/

/-- The outcome of a run that could not write a configuration file. -/
def failToWrite (m : Mode) (e : Failure) (o : Outcome) : Outcome :=
  match e with
  | .configuration e => o.complain e.message
  | e => o.fail m.machineReadable e

/-- Create a configuration file. Without a format the file is left empty. -/
def runInit (m : Mode) (options : InitOptions) (o : Outcome) : Outcome :=
  match options.path, options.format with
  | none, _ => o.fail m.machineReadable (.kind (.noPath "list"))
  | some path, none =>
    match Settings.writeFile o.files path "" with
    | .error e => failToWrite m e o
    | .ok files => { o with files }.fail m.machineReadable (.kind (.noLetterCase "list"))
  | some path, some format =>
    match ({} : Settings).save o.files path format with
    | .error e => failToWrite m e o
    | .ok files =>
      { o with files }.print
        (s!"Default configuration file created at {path}\n" ++
          "Edit the file to customize your equalsguard settings.\n")

/-- Show, create or validate a configuration. -/
def runConfig (m : Mode) (w : Settings.Surroundings) (path : String)
    (action : Option ConfigAction) (o : Outcome) : Outcome :=
  match action with
  | none => o.complain "config requires an action (show, init, validate)"
  | some .show =>
    let loaded := Settings.load w path true true
    let o := o.warn loaded.warnings
    match loaded.outcome with
    | .error e => o.fail m.machineReadable e
    | .ok s =>
      let o := o.print "Current equalsguard Configuration:\n"
      match s.summaryPoints with
      | .error e => o.fail m.machineReadable (.kind e)
      | .ok points =>
        match Text.EncodingFault.find? points with
        | some fault => o.fail m.machineReadable (.unencodable fault)
        | none => o.print (Text.shown points ++ "\n")
  | some (.init options) => runInit m options o
  | some (.validate path) =>
    let loaded := Settings.load w path false true
    let o := o.warn loaded.warnings
    match loaded.outcome with
    | .error (.configuration e) => o.complain s!"Configuration file is invalid: {e.message}"
    | .error e => o.fail m.machineReadable e
    | .ok _ => o.print s!"Configuration file {path} is valid\n"

/-! ### All commands -/

/-- Carry out a command. -/
def Command.run (m : Mode) (w : Settings.Surroundings) (path : String) (o : Outcome) :
    Command → Outcome
  | config action => runConfig m w path action o
  | check options =>
    let loaded := Settings.load w path true true
    let o := o.warn loaded.warnings
    match loaded.outcome with
    | .error e => o.fail m.machineReadable e
    | .ok s => runCheck m options s o

/-- Carry out an invocation. In machine-readable mode the standard output leads elsewhere while the
command runs, and only then. -/
def Invocation.run (i : Invocation) (width : Nat) (w : Settings.Surroundings) : Outcome :=
  let m : Mode := ⟨i.machineReadable, !i.noRich && !i.machineReadable, width⟩
  match i.command with
  | none => ({ files := w.files } : Outcome).print mainHelp
  | some command =>
    let o : Outcome := { files := w.files, redirected := i.machineReadable }
    { command.run m w i.configPath o with redirected := false }

/-- Carry out a command line. Words that are refused make a run without an outcome. -/
def run (words : List String) (width : Nat) (w : Settings.Surroundings) : Except String Outcome :=
  match Invocation.ofWords words with
  | .error (.refused message) => .error message
  | .error (.shown text) => .ok { output := text, files := w.files }
  | .ok i => .ok (i.run width w)

end NullSafeEq.CommandLine
