import NullSafeEq.Settings.Basic

/-!
# The guard

A guard analyses and fixes texts under settings. What it needs for every text it takes from the
settings when it is built: how names are resolved, whether only guarded calls count, the name of
the equality method and what decides on applicability. The language level and the helper are read
from the settings in force at each use. Settings that are shown in a log record, and the helper in
a replacement, have to be writable.
-/
namespace NullSafeEq

/-- A place to replace, with the texts that a report shows. -/
structure Finding where
  sourceName : String
  spanText : String
  leftText : String
  rightText : String
  replacement : String
  negated : Bool
  form : Form
  span : Option Span
  deriving Repr

/-- The message of every finding. -/
def Finding.message : String :=
  "'equals()' expression replaceable by 'Objects.equals()' expression"

/-- The step in which the analysis of a text failed. -/
inductive Stage where
  | parse | analyze
  deriving DecidableEq, Repr

def Stage.text : Stage → String
  | parse => "parse" | analyze => "analyze"

/-- A failed analysis of a text. -/
structure AnalysisError where
  sourceName : String
  stage : Stage
  cause : Failure
  deriving Repr

/-- The log line about a failed analysis. -/
def AnalysisError.warning (e : AnalysisError) : String :=
  let stage := match e.stage with | .parse => "Parse" | .analyze => "Analyze"
  stage ++ " failed for " ++ e.sourceName ++ ": " ++ e.cause.message

/-- What the analysis of one text came to. The text is kept when it could be read, and the fixed
text when one was asked for. -/
structure AnalysisResult where
  success : Bool
  sourceName : String
  findings : List Finding := []
  errors : List AnalysisError := []
  expression : Option String := none
  fixed : Option String := none
  deriving Repr

/-- How references are resolved. -/
inductive Classifier where
  | scope (names : Scope)
  | convention (rules : Convention)
  | custom (resolve : Resolver)

def Classifier.resolve : Classifier → Resolver
  | scope names => names.resolve
  | convention rules => rules.resolve
  | custom resolve => resolve

/-- What decides whether anything is reported. -/
inductive Gate where
  /-- The language level in force. -/
  | level
  | always
  /-- A value that cannot be asked, by its kind. -/
  | broken (kind : String)
  deriving DecidableEq, Repr

structure Guard where
  classifier : Classifier
  requireGuard : Bool
  /-- The name of the equality method; a setting that is no text names none. -/
  method : Option String
  gate : Gate

namespace Guard

/-- The names among the items of a value: the items of a list, the characters of a text, the keys
of a mapping. Lists and mappings are no names; other items that are no texts, and broken texts, name
nothing. -/
def namesFrom : List Value → Except KindError (List String)
  | [] => .ok []
  | .text s :: rest => (namesFrom rest).map (s :: ·)
  | .list _ :: _ => .error (.unhashable (Value.list []).kind)
  | .mapping _ :: _ => .error (.unhashable (Value.mapping []).kind)
  | _ :: rest => namesFrom rest

/-- The names that a setting lists. -/
def names : Value → Except KindError (List String)
  | .list items => namesFrom items
  | .text s => .ok (s.toList.map fun c => String.ofList [c])
  | .broken b => .ok (b.characters.map fun c => String.ofList [c])
  | .mapping entries => namesFrom (entries.map fun (k, _) => k.value)
  | v => .error (.notIterable v.kind)

/-- The classifier that the settings ask for: declared names for the strategy `scope`, conventions
otherwise. -/
def classifierOf (s : Resolution) : Except KindError Classifier :=
  match s.strategy with
  | .text "scope" => do
    let values ← names s.variableNames
    let types ← names s.classNames
    return .scope ⟨values, types, ← names s.packageRoots⟩
  | _ => do return .convention ⟨← names s.packageRoots⟩

/-- The classifier for a guard: a resolver that is given overrides the settings. -/
def classifierFor (s : Resolution) : Option Resolver → Except KindError Classifier
  | some resolve => .ok (.custom resolve)
  | none => classifierOf s

/-- The method that a setting names, if it is a text. -/
def methodOf : Value → Option String
  | .text name => some name
  | _ => none

/-- The gate of the settings. A value in the place of the language level test that counts as false
stands for no test. -/
def gateOf (s : Inspection) : Gate :=
  match s.gate with
  | none => .level
  | some v => if v.isTrue then .broken v.kind else .always

/-- A guard for settings, with a resolver that overrides the one that the settings ask for. The
language level and whether only guarded calls count are put into words for the log. -/
def ofSettings (s : Settings) (override : Option Resolver) : Except KindError Guard := do
  let classifier ← classifierFor s.resolution override
  let _ ← s.inspection.languageLevel.written
  let _ ← s.inspection.requireGuard.written
  return ⟨classifier, s.inspection.requireGuard.isTrue, methodOf s.inspection.method,
    gateOf s.inspection⟩

/-- Whether anything is reported under the settings in force. -/
def applicable (g : Guard) (live : Inspection) : Except KindError Bool :=
  match g.gate with
  | .level => live.levelSuffices
  | .always => .ok true
  | .broken kind => .error (.notCallable kind)

/-- The detector of a guard for a method name. -/
def detector (g : Guard) (method : String) (applicable : Bool) : Detector where
  resolve := g.classifier.resolve
  requireGuard := g.requireGuard
  method := method
  compare := nullComparison
  applicable := applicable

/-- The matches in a tree under the settings in force. -/
def scan (g : Guard) (live : Inspection) (t : Tree) : Except KindError (List Match) := do
  let applicable ← g.applicable live
  match g.method with
  | some method => return (g.detector method applicable).scan t
  | none => return []

/-- The text of the helper in force, if it has one. -/
def helper (live : Inspection) : Except KindError String := live.helper.written

/-- What a report shows of a match. -/
def finding (helper : String) (t : Tree) (sourceName : String) (m : Match) : Finding where
  sourceName := sourceName
  spanText := t.textOf m.span.node
  leftText := t.textOf m.left.node
  rightText := t.textOf m.right.node
  replacement := t.replacement helper m
  negated := m.negated
  form := m.form
  span := m.span.node.span

/-- The findings in a tree. The helper is needed only for a match. -/
def analyzeTree (g : Guard) (live : Inspection) (t : Tree) (sourceName : String) :
    Except KindError (List Finding) := do
  let found ← g.scan live t
  if found.isEmpty then return []
  else return found.map (finding (← helper live) t sourceName)

/-- Analyse one text. Failures are recorded in the result. -/
def analyze (g : Guard) (live : Inspection) (text sourceName : String) : AnalysisResult :=
  match Tree.read text with
  | .error e =>
    { success := false, sourceName, errors := [⟨sourceName, .parse, .syntaxError e⟩] }
  | .ok t =>
    match g.analyzeTree live t sourceName with
    | .error e =>
      { success := false, sourceName, errors := [⟨sourceName, .analyze, .kind e⟩],
        expression := some text }
    | .ok findings => { success := true, sourceName, findings, expression := some text }

/-- The text with every match applied. -/
def fix (g : Guard) (live : Inspection) (text : String) : Except Failure String := do
  let t ← (Tree.read text).mapError .syntaxError
  let found ← (g.scan live t).mapError .kind
  if found.isEmpty then return text
  else return t.apply (← (helper live).mapError .kind) found

/-- Names for texts without names, counted from one. -/
def standardNames (count : Nat) : List String :=
  (List.range count).map fun i => s!"<expr {i + 1}>"

/-- Whether a number of workers is at most one. -/
def isSequential : Value → Except KindError Bool
  | .int n => .ok (n ≤ 1)
  | .bool _ => .ok true
  | .real x => .ok (x.atMost 1)
  | v => .error (.unordered "<=" v.kind)

/-- A number of workers has to be a number. More than one worker for more than one text are put into
words for the log. -/
def checkWorkers (workers : Value) (count : Nat) : Except KindError Unit := do
  let sequential ← isSequential workers
  if !sequential && 1 < count then
    let _ ← workers.written
  return ()

/-- Analyse several texts in order, each on its own. A number of workers that counts as false gives
way to the one in the settings. Any number that passes leads to the same results, but for NaN: with
this number of workers for several texts nobody ever takes up the work, which is not told apart
here. -/
def analyzeAll (g : Guard) (live : Settings) (texts : List String)
    (sourceNames : Option (List String)) (workers : Value) :
    Except Failure (List AnalysisResult) := do
  let sourceNames := sourceNames.getD (standardNames texts.length)
  if sourceNames.length ≠ texts.length then throw .nameCount
  let workers := if workers.isTrue then workers else live.output.maxWorkers
  (checkWorkers workers texts.length).mapError .kind
  return List.zipWith (g.analyze live.inspection) texts sourceNames

end Guard

end NullSafeEq
