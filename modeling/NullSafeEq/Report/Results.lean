import NullSafeEq.Guard
import NullSafeEq.Value.Json

/-!
# Reports on results

Counts, exit status, the plain text form and the JSON form of analysis results.
-/
namespace NullSafeEq.Report

/-- The sum of some numbers. -/
def total (ns : List Nat) : Nat := ns.foldr (· + ·) 0

structure Counts where
  expressions : Nat
  findings : Nat
  errors : Nat
  deriving DecidableEq, Repr

/-- How many expressions, findings and errors some results hold. -/
def counts (results : List AnalysisResult) : Counts :=
  ⟨results.length, total (results.map fun r => r.findings.length),
    total (results.map fun r => r.errors.length)⟩

/-- One when any analysis failed, two when anything was found, zero otherwise. -/
def exitStatus (results : List AnalysisResult) : Nat :=
  if results.any fun r => !r.success then 1
  else if results.any fun r => !r.findings.isEmpty then 2
  else 0

/-! ### JSON -/

def natValue (n : Nat) : Value := .int n

def optionValue (f : α → Value) : Option α → Value
  | none => .null
  | some a => f a

def findingValue (f : Finding) : Value := .mapping
  [("source_name", .text f.sourceName),
   ("span_text", .text f.spanText),
   ("left_text", .text f.leftText),
   ("right_text", .text f.rightText),
   ("replacement", .text f.replacement),
   ("negated", .bool f.negated),
   ("form", .text f.form.text),
   ("start", optionValue (fun s => natValue s.start) f.span),
   ("end", optionValue (fun s => natValue s.stop) f.span),
   ("message", .text Finding.message)]

def errorValue (e : AnalysisError) : Value := .mapping
  [("source_name", .text e.sourceName),
   ("stage", .text e.stage.text),
   ("error_type", .text e.cause.label),
   ("message", .text e.cause.message),
   ("line_number", optionValue (fun p => natValue p.line) e.cause.place?),
   ("traceback", .text "<traceback>"),
   ("metadata", .mapping [("column", optionValue (fun p => natValue p.column) e.cause.place?)])]

/-- An entry that is left out when there is no value. -/
def optionEntry (key : String) : Option String → List (Key × Value)
  | none => []
  | some s => [(key, .text s)]

/-- What a result is about. -/
def metadata (r : AnalysisResult) : List (Key × Value) :=
  optionEntry "expression" r.expression ++ optionEntry "fixed" r.fixed

def resultValue (r : AnalysisResult) : Value := .mapping
  [("success", .bool r.success),
   ("source_name", .text r.sourceName),
   ("findings", .list (r.findings.map findingValue)),
   ("errors", .list (r.errors.map errorValue)),
   ("metadata", .mapping (metadata r))]

def countsValue (c : Counts) : Value := .mapping
  [("expressions", natValue c.expressions), ("findings", natValue c.findings),
   ("errors", natValue c.errors)]

/-- Results with their counts. -/
def payload (results : List AnalysisResult) : Value := .mapping
  [("results", .list (results.map resultValue)), ("summary", countsValue (counts results))]

/-! ### Plain text -/

/-- The range of a finding behind the name of its source. -/
def location (f : Finding) (sourceName : String) : String :=
  match f.span with
  | some s => s!"{sourceName} [{s.start}:{s.stop}]"
  | none => sourceName

def resultLines (r : AnalysisResult) : List String :=
  (r.findings.flatMap fun f =>
    [location f r.sourceName ++ ": " ++ Finding.message, "  " ++ f.spanText,
     "  -> " ++ f.replacement]) ++
  (match r.fixed with
    | some text => if r.findings.isEmpty then [] else ["  fixed: " ++ text]
    | none => []) ++
  r.errors.map fun e => s!"{r.sourceName}: {e.stage.text} error: {e.cause.message}"

def countsLine (c : Counts) : String :=
  s!"{c.findings} finding(s) in {c.expressions} expression(s), {c.errors} error(s)"

/-- The report in plain text. -/
def plainText (results : List AnalysisResult) : String :=
  String.intercalate "\n" (results.flatMap resultLines ++ [countsLine (counts results)])

/-- The report in a format: JSON, or plain text for any other format. -/
def format (results : List AnalysisResult) (name : String) : String :=
  if name = "json" then Json.write false (payload results) else plainText results

end NullSafeEq.Report
