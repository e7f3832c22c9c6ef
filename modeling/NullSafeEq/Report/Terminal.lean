import NullSafeEq.Report.Markup
import NullSafeEq.Report.Table

/-!
# Reports on a terminal

The rich form uses marks, rules over the full width and padded expressions; the plain form words.
Both have the same table. Titles of rules in the rich form and of tables are marked-up text; all
other texts are shown as they are.
-/
namespace NullSafeEq.Report

/-- How output looks. -/
structure Terminal where
  rich : Bool := true
  width : Nat := 120

namespace Terminal

/-- A text in lines of the terminal. -/
def prose (t : Terminal) (cs : List Char) : String :=
  printed (layout t.width .fold .ragged (visible cs))

/-- A rule over the full width with a title in the middle. Where the title would leave no room for
the rule, there is none. -/
def rule (t : Terminal) (title : List Char) : String :=
  let stroke count := List.replicate count '─'
  let title := (visible title).map fun c => if c = '\n' then ' ' else c
  let title := clip (t.width - 4) .ellipsis (expandTabs 8 cells 0 title)
  if t.width ≤ 4 then printed [stroke t.width]
  else
    let left := (t.width - Report.width title) / 2 - 1
    let right := t.width - left - Report.width title - 2
    printed [stroke left ++ [' '] ++ title ++ [' '] ++ stroke right]

/-- A line that separates what comes before from what comes after. -/
def heading (t : Terminal) (title : String) : Except Markup.Fault String :=
  if t.rich then (Markup.shown s!"[bold]{title}[/bold]").map t.rule
  else .ok (t.prose s!"\n--- {title} ---".toList)

/-- A message with a mark or a word before it. -/
def message (t : Terminal) (mark word text : String) : String :=
  if t.rich then t.prose (mark.toList ++ ' ' :: Markup.literal text)
  else t.prose (word.toList ++ ' ' :: text.toList)

def success (t : Terminal) (text : String) : String := t.message "✓" "OK" text

def warning (t : Terminal) (text : String) : String := t.message "⚠" "WARNING" text

def failure (t : Terminal) (text : String) : String := t.message "✗" "ERROR" text

/-- The lines of an expression: tabs reach to every fourth column, carriage returns end lines, and a
line feed at the end opens one more line. -/
def codeLines (text : String) : List (List Char) :=
  let closed := text.toList.getLast? = some '\n'
  let code := expandTabs 4 (fun _ => 1) 0 (if closed then text.toList else text.toList ++ ['\n'])
  let code := if code.head? = some '\ufeff' then code.drop 1 else code
  let lines := splitLines (visible (Text.unifyNewlines code))
  if closed then lines else lines.dropLast

/-- An expression under a heading, if it has a title. -/
def expression (t : Terminal) (text title : String) : Except Markup.Fault String := do
  let above ← if title.isEmpty then pure "" else t.heading title
  if t.rich then
    return above ++ printed ((codeLines text).flatMap (layout t.width .fold .flush))
  else return above ++ t.prose text.toList

/-- The title of a table of findings without one of its own. -/
def standardTitle : String := "Replaceable equality checks"

/-- The findings in a table. -/
def findings (t : Terminal) (findings : List Finding) (title : String) :
    Except Markup.Fault String := do
  let title ← if title.isEmpty then pure none else (Markup.shown title).map some
  return printed (table t.width (title.map visible)
    (["Source", "Form", "Expression", "Replacement"].map String.toList)
    (findings.map fun f =>
      [f.sourceName, f.form.text, f.spanText, f.replacement].map fun s => visible s.toList))

/-! ### Results -/

/-- What is shown of one result: the fixed text, and the errors. -/
def result (t : Terminal) (r : AnalysisResult) : List (Except Markup.Fault String) :=
  (r.fixed.toList.map fun text => t.expression text s!"Fixed {r.sourceName}") ++
    r.errors.map fun e => .ok (t.failure s!"{r.sourceName}: {e.cause.message}")

/-- The parts of the report for people. -/
def parts (t : Terminal) (results : List AnalysisResult) : List (Except Markup.Fault String) :=
  let found := results.flatMap AnalysisResult.findings
  (if found.isEmpty then [] else [t.findings found standardTitle]) ++
    results.flatMap t.result ++
    [.ok
      (if found.isEmpty then
        t.success s!"No replaceable equality checks in {results.length} expression(s)"
      else t.warning s!"{found.length} replaceable equality check(s) found")]

/-- Parts one after another up to the first that cannot be shown, with its fault. -/
def untilFault : List (Except Markup.Fault String) → String × Option Markup.Fault
  | [] => ("", none)
  | .error fault :: _ => ("", some fault)
  | .ok text :: rest => (text ++ (untilFault rest).1, (untilFault rest).2)

/-- The report for people. A source whose name is faulty markup ends it. -/
def report (t : Terminal) (results : List AnalysisResult) : String × Option Markup.Fault :=
  untilFault (t.parts results)

end Terminal

end NullSafeEq.Report
