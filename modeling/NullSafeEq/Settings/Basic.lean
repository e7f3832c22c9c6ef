import NullSafeEq.Replacement
import NullSafeEq.Settings.Failure
import NullSafeEq.Value.Basic

/-!
# Settings

The settings in three sections. Every setting holds whatever value it was given; only validation
asks whether the value makes sense. A mapping under the key `__dict__` of a section takes the place
of all its settings.
-/
namespace NullSafeEq

/-- The text of a value, if no number in it is too long. -/
def Value.written (v : Value) : Except KindError String :=
  if v.isWritable then .ok v.display else .error .longNumber

/-- The first language level with a null-safe equality helper. -/
def minimumLanguageLevel : Int := 7

structure Inspection where
  requireGuard : Value := .bool false
  languageLevel : Value := .int 8
  helper : Value := .text standardHelper
  method : Value := .text "equals"
  /-- A value under the key `is_applicable`, which takes the place of the language level test. -/
  gate : Option Value := none
  deriving Repr, BEq, Inhabited

structure Resolution where
  strategy : Value := .text "convention"
  variableNames : Value := .list []
  classNames : Value := .list []
  packageRoots : Value := .list (Convention.standard.packageRoots.map Value.text)
  deriving Repr, BEq, Inhabited

structure Output where
  format : Value := .text "text"
  useRich : Value := .bool true
  maxWorkers : Value := .int 1
  deriving Repr, BEq, Inhabited

structure Settings where
  inspection : Inspection := default
  resolution : Resolution := default
  output : Output := default
  deriving Repr, BEq, Inhabited

namespace Inspection

/-- The documented settings in order. -/
def entries (s : Inspection) : List (Key × Value) :=
  [("require_explicit_null_guard", s.requireGuard), ("language_level", s.languageLevel),
   ("helper_name", s.helper), ("method_name", s.method)]

/-- The settings that entries make on their own; what they lack is as it is by default. -/
def ofEntries (entries : List (Key × Value)) : Inspection where
  requireGuard := (Value.lookup "require_explicit_null_guard" entries).getD
    ({} : Inspection).requireGuard
  languageLevel := (Value.lookup "language_level" entries).getD ({} : Inspection).languageLevel
  helper := (Value.lookup "helper_name" entries).getD ({} : Inspection).helper
  method := (Value.lookup "method_name" entries).getD ({} : Inspection).method
  gate := Value.lookup "is_applicable" entries

/-- Set the setting with a key, if there is one, or all of them at once. -/
def set? (s : Inspection) (key : String) (v : Value) : Option Inspection :=
  match key with
  | "require_explicit_null_guard" => some { s with requireGuard := v }
  | "language_level" => some { s with languageLevel := v }
  | "helper_name" => some { s with helper := v }
  | "method_name" => some { s with method := v }
  | "is_applicable" => some { s with gate := some v }
  | "__dict__" => v.entries?.map ofEntries
  | _ => none

/-- Whether the language level is high enough for the helper. -/
def levelSuffices (s : Inspection) : Except KindError Bool :=
  match s.languageLevel with
  | .int n => .ok (minimumLanguageLevel ≤ n)
  | .bool b => .ok (minimumLanguageLevel ≤ if b then 1 else 0)
  | .real x => .ok (x.atLeast minimumLanguageLevel)
  | v => .error (.unordered ">=" v.kind)

/-- Whether the helper can be used at all. A value in the place of the test cannot be asked. -/
def applicable (s : Inspection) : Except KindError Bool :=
  match s.gate with
  | some v => .error (.notCallable v.kind)
  | none => s.levelSuffices

end Inspection

namespace Resolution

def entries (s : Resolution) : List (Key × Value) :=
  [("strategy", s.strategy), ("variables", s.variableNames),
   ("classes", s.classNames), ("packages", s.packageRoots)]

/-- The settings that entries make on their own. The lists have no defaults here. -/
def ofEntries? (entries : List (Key × Value)) : Option Resolution := do
  return ⟨(Value.lookup "strategy" entries).getD ({} : Resolution).strategy,
    ← Value.lookup "variables" entries, ← Value.lookup "classes" entries,
    ← Value.lookup "packages" entries⟩

def set? (s : Resolution) (key : String) (v : Value) : Option Resolution :=
  match key with
  | "strategy" => some { s with strategy := v }
  | "variables" => some { s with variableNames := v }
  | "classes" => some { s with classNames := v }
  | "packages" => some { s with packageRoots := v }
  | "__dict__" => v.entries?.bind ofEntries?
  | _ => none

end Resolution

namespace Output

def entries (s : Output) : List (Key × Value) :=
  [("format", s.format), ("use_rich", s.useRich), ("max_workers", s.maxWorkers)]

/-- The settings that entries make on their own; what they lack is as it is by default. -/
def ofEntries (entries : List (Key × Value)) : Output where
  format := (Value.lookup "format" entries).getD ({} : Output).format
  useRich := (Value.lookup "use_rich" entries).getD ({} : Output).useRich
  maxWorkers := (Value.lookup "max_workers" entries).getD ({} : Output).maxWorkers

def set? (s : Output) (key : String) (v : Value) : Option Output :=
  match key with
  | "format" => some { s with format := v }
  | "use_rich" => some { s with useRich := v }
  | "max_workers" => some { s with maxWorkers := v }
  | "__dict__" => v.entries?.map ofEntries
  | _ => none

end Output

namespace Settings

/-- All settings by section. -/
def toEntries (s : Settings) : List (Key × Value) :=
  [("inspection", .mapping s.inspection.entries), ("resolution", .mapping s.resolution.entries),
   ("output", .mapping s.output.entries)]

/-- Whether an entry is to set all settings of a section and cannot. -/
def isRefused (key : String) (v : Value) : Bool := key = "__dict__" && !v.isMapping

/-- Set the settings of one section from entries. Keys that name no setting are skipped, but every
key has to be a text. -/
def fill (set? : σ → String → Value → Option σ) (s : σ) : List (Key × Value) → Except KindError σ
  | [] => .ok s
  | (.text key, v) :: rest =>
    if isRefused key v then .error (.noSettings v.kind)
    else fill set? ((set? s key v).getD s) rest
  | (key, _) :: _ => .error (.badName key.value.kind)

/-- The warnings for the keys of a section that name no setting, up to an entry that is refused. -/
def skipped (set? : σ → String → Value → Option σ) (heading : String) (s : σ) :
    List (Key × Value) → List String
  | (.text key, v) :: rest =>
    if isRefused key v then []
    else if (set? s key v).isSome then skipped set? heading s rest
    else ("Ignoring unknown configuration key: " ++ heading ++ "." ++ key) ::
      skipped set? heading s rest
  | _ => []

/-- The entries of a section; a missing section and one that counts as false have none. -/
def sectionEntries (data : List (Key × Value)) (heading : String) :
    Except KindError (List (Key × Value)) :=
  match Value.lookup heading data with
  | none => .ok []
  | some v =>
    if v.isTrue then
      match v with
      | .mapping entries => .ok entries
      | v => .error (.noEntries v.kind)
    else .ok []

/-- One section of a configuration, on top of the defaults `s`. -/
def readSection (set? : σ → String → Value → Option σ) (heading : String) (s : σ)
    (data : List (Key × Value)) : Except KindError σ := do
  fill set? s (← sectionEntries data heading)

/-- Settings from the entries of a configuration, on top of the defaults. -/
def ofEntries (data : List (Key × Value)) : Except KindError Settings := do
  let inspection ← readSection Inspection.set? "inspection" {} data
  let resolution ← readSection Resolution.set? "resolution" {} data
  let output ← readSection Output.set? "output" {} data
  return ⟨inspection, resolution, output⟩

/-- The warnings for a section, followed by others if the section can be read. -/
def warnSection (set? : σ → String → Value → Option σ) (heading : String) (s : σ)
    (data : List (Key × Value)) (further : List String) : List String :=
  match sectionEntries data heading with
  | .error _ => []
  | .ok entries =>
    skipped set? heading s entries ++ if (fill set? s entries).isOk then further else []

/-- The warnings for the keys that were ignored while settings were read. -/
def warnings (data : List (Key × Value)) : List String :=
  warnSection Inspection.set? "inspection" {} data
    (warnSection Resolution.set? "resolution" {} data
      (warnSection Output.set? "output" {} data []))

end Settings

end NullSafeEq
