import NullSafeEq.Guard

/-!
# A guard whose settings change

The settings that a guard was built from may be changed in place afterwards, by setting one of them
or by appending to one that holds a list. Between the changes the guard is asked about texts.
-/
namespace NullSafeEq

namespace Settings

/-- Set the setting with a key in a section; a key that names none changes nothing. -/
def assign (s : Settings) (heading key : String) (v : Value) : Settings :=
  match heading with
  | "inspection" => { s with inspection := (s.inspection.set? key v).getD s.inspection }
  | "resolution" => { s with resolution := (s.resolution.set? key v).getD s.resolution }
  | "output" => { s with output := (s.output.set? key v).getD s.output }
  | _ => s

/-- Append to the list that a setting of the resolution holds, if it holds one. -/
def append? (s : Settings) (key : String) (v : Value) : Option Settings :=
  match Value.lookup key s.resolution.entries with
  | some (.list items) => some (s.assign "resolution" key (.list (items ++ [v])))
  | _ => none

end Settings

/-- A change of settings in place. One that is seen in several settings, because these hold the
same list, amounts to several assignments. -/
inductive Change where
  | assign (heading key : String) (v : Value)
  /-- Append to a list of the resolution; this fails where there is no list. -/
  | append (key : String) (v : Value)
  deriving Repr

/-- The settings after a change; one that fails leaves them as they are. -/
def Change.apply (s : Settings) : Change → Settings
  | assign heading key v => s.assign heading key v
  | append key v => (s.append? key v).getD s

/-- What a guard is asked. -/
inductive Question where
  | analyze (text sourceName : String)
  | fix (text : String)
  deriving Repr

inductive Answer where
  | analysis (result : AnalysisResult)
  | fixed (result : Except Failure String)

/-- The answer under the settings in force. -/
def Guard.answer (g : Guard) (live : Inspection) : Question → Answer
  | .analyze text sourceName => .analysis (g.analyze live text sourceName)
  | .fix text => .fixed (g.fix live text)

inductive Action where
  | change (c : Change)
  | ask (q : Question)
  deriving Repr

/-- A guard with the settings that it was built from as they are now. -/
structure LiveGuard where
  settings : Settings
  guard : Guard

namespace LiveGuard

/-- One action, and the answer if a question was asked. -/
def step (l : LiveGuard) : Action → LiveGuard × Option Answer
  | .change c => ({ l with settings := c.apply l.settings }, none)
  | .ask q => (l, some (l.guard.answer l.settings.inspection q))

/-- The answers to the questions among some actions. -/
def run (l : LiveGuard) : List Action → List Answer
  | [] => []
  | a :: rest => (l.step a).2.toList ++ (l.step a).1.run rest

end LiveGuard

end NullSafeEq
