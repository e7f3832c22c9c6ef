import NullSafeEq.Settings.Basic
import NullSafeEq.Text.Classes

/-!
# Validation

What makes a configuration acceptable. Only keys that are present are looked at; the first
violation in a fixed order is reported.
-/
namespace NullSafeEq.Settings

/-- The known resolution strategies. -/
def strategies : List String := ["convention", "scope"]

/-- The known output formats. -/
def formats : List String := ["text", "json"]

/-- A whole number above zero; truth values are no numbers. -/
def isPositive : Value → Bool
  | .int n => 0 < n
  | _ => false

/-- A text that is not blank. -/
def isName : Value → Bool
  | .text s => !Text.allBlank s
  | .broken _ => true
  | _ => false

/-- A list of texts. -/
def isTextList : Value → Bool
  | .list items => items.all Value.isText
  | _ => false

/-- One of some words. -/
def isOneOf (words : List String) : Value → Bool
  | .text s => words.contains s
  | _ => false

/-- A rule on one key: the value under it, if any, passes a test. -/
structure Rule where
  key : String
  test : Value → Bool
  violation : ConfigurationError

def Rule.check (r : Rule) (entries : List (Key × Value)) : Except ConfigurationError Unit :=
  match Value.lookup r.key entries with
  | none => .ok ()
  | some v => if r.test v then .ok () else .error r.violation

def inspectionRules : List Rule :=
  [⟨"language_level", isPositive, .languageLevel⟩,
   ⟨"require_explicit_null_guard", Value.isBool, .requireGuard⟩,
   ⟨"helper_name", isName, .blankName "helper_name"⟩,
   ⟨"method_name", isName, .blankName "method_name"⟩]

def resolutionRules : List Rule :=
  [⟨"strategy", isOneOf strategies, .strategy⟩,
   ⟨"variables", isTextList, .nameList "variables"⟩,
   ⟨"classes", isTextList, .nameList "classes"⟩,
   ⟨"packages", isTextList, .nameList "packages"⟩]

def outputRules : List Rule :=
  [⟨"format", isOneOf formats, .format⟩,
   ⟨"max_workers", isPositive, .maxWorkers⟩]

/-- The sections with their rules in the order in which they are checked. -/
def sectionRules : List (String × List Rule) :=
  [("inspection", inspectionRules), ("resolution", resolutionRules), ("output", outputRules)]

/-- The entries of the mapping under a key; other values have none. -/
def entriesAt (data : List (Key × Value)) (key : String) : List (Key × Value) :=
  match Value.lookup key data with
  | some (.mapping entries) => entries
  | _ => []

/-- Every section that is present is a mapping. -/
def checkSections (data : List (Key × Value)) : Except ConfigurationError Unit :=
  sectionRules.forM fun (name, _) =>
    (Rule.mk name Value.isMapping (.sectionNotMapping name)).check data

/-- Accept a configuration or report the first violation. -/
def validate (data : List (Key × Value)) : Except ConfigurationError Unit := do
  checkSections data
  sectionRules.forM fun (name, rules) => rules.forM fun r => r.check (entriesAt data name)

/-- Accept settings or report the first violation. -/
def check (s : Settings) : Except ConfigurationError Unit := validate s.toEntries

end NullSafeEq.Settings
