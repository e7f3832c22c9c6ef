import NullSafeEq.Proofs.Settings.Precedence

/-!
# Settings from the environment alone

Without a configuration file the settings are those of the environment. A variable whose text does
not have the form of a value counts as not set. Numbers that are not above zero and names of white
space do have the form of a value, and they are refused afterwards.
-/
namespace NullSafeEq.Settings
open Value
variable {environment : List (String × String)} {heading : String} {key : Key}

/-! ## Values that are of use -/

/-- A number above zero. -/
def readPositive (s : String) : Option Value :=
  ((Text.intValue? s).filter fun n => 0 < n).map .int

/-- A text that is not blank. -/
def readName (s : String) : Option Value := if Text.allBlank s then none else some (.text s)

/-- The value that a variable stands for, if there is one, and the default otherwise. -/
def asked (environment : List (String × String)) (name : String)
    (read : String → Option Value) (default : Value) : Value :=
  ((textOf? environment name).bind read).getD default

/-- The settings that an environment asks for: the values that are of use, and the defaults for all
other options. -/
def ofUsable (environment : List (String × String)) : Settings where
  inspection :=
    { requireGuard := asked environment "EQUALSGUARD_REQUIRE_NULL_GUARD" readYes (.bool false)
      languageLevel := asked environment "EQUALSGUARD_LANGUAGE_LEVEL" readPositive (.int 8)
      helper := asked environment "EQUALSGUARD_HELPER_NAME" readName (.text standardHelper) }
  resolution :=
    { strategy := asked environment "EQUALSGUARD_RESOLUTION_STRATEGY" (readWord strategies)
        (.text "convention") }
  output :=
    { format := asked environment "EQUALSGUARD_OUTPUT_FORMAT" (readWord formats) (.text "text")
      maxWorkers := asked environment "EQUALSGUARD_MAX_WORKERS" readPositive (.int 1) }

/-- Whatever has the form of a value is of use: the numbers are above zero and the helper has a
name. -/
structure IsUsable (environment : List (String × String)) : Prop where
  level : ∀ s n, textOf? environment "EQUALSGUARD_LANGUAGE_LEVEL" = some s →
    Text.intValue? s = some n → 0 < n
  workers : ∀ s n, textOf? environment "EQUALSGUARD_MAX_WORKERS" = some s →
    Text.intValue? s = some n → 0 < n
  helper : ∀ s, textOf? environment "EQUALSGUARD_HELPER_NAME" = some s → Text.allBlank s = false

/-- A value that is asked for passes a test that the default and all values of use pass. -/
theorem test_asked {test : Value → Bool} {name : String} {read : String → Option Value}
    {default : Value} (passes : ∀ s v, read s = some v → test v = true)
    (start : test default = true) : test (asked environment name read default) = true := by
  unfold asked
  cases set : (textOf? environment name).bind read with
  | none => exact start
  | some v =>
    obtain ⟨s, -, read⟩ := Option.bind_eq_some_iff.mp set
    exact passes s v read

/-- What an environment asks for is valid. -/
theorem check_ofUsable (environment : List (String × String)) :
    (ofUsable environment).check = .ok () := by
  have number (s : String) (v : Value) (read : readPositive s = some v) : isPositive v = true := by
    obtain ⟨n, found, rfl⟩ := Option.map_eq_some_iff.mp read
    exact (Option.filter_eq_some_iff.mp found).2
  have word (words : List String) (s : String) (v : Value) (read : readWord words s = some v) :
      isOneOf words v = true := by
    obtain ⟨known, rfl⟩ : _ ∧ Value.text _ = v := by simpa [readWord] using read
    simpa [isOneOf] using known
  have flag (s : String) (v : Value) (read : readYes s = some v) : v.isBool = true := by
    cases read
    rfl
  have name (s : String) (v : Value) (read : readName s = some v) : isName v = true := by
    obtain ⟨named, rfl⟩ : Text.allBlank s = false ∧ Value.text s = v := by
      simpa [readName] using read
    simp [isName, named]
  exact check_iff.mpr ⟨⟨test_asked number rfl, test_asked flag rfl, test_asked name rfl, rfl⟩,
    ⟨test_asked (word strategies) rfl, rfl, rfl, rfl⟩,
    test_asked (word formats) rfl, test_asked number rfl⟩

/-! ## Values that have the form of one -/

theorem bind_readInt {name : String} (positive : ∀ s n, textOf? environment name = some s →
    Text.intValue? s = some n → 0 < n) :
    (textOf? environment name).bind readInt = (textOf? environment name).bind readPositive := by
  cases set : textOf? environment name with
  | none => rfl
  | some s =>
    rw [Option.bind_some, Option.bind_some, readInt, readPositive]
    cases found : Text.intValue? s with
    | none => rfl
    | some n => simp [Option.filter, positive s n set found]

theorem bind_text {name : String}
    (named : ∀ s, textOf? environment name = some s → Text.allBlank s = false) :
    (textOf? environment name).bind (fun s => some (.text s)) =
      (textOf? environment name).bind readName := by
  cases set : textOf? environment name with
  | none => rfl
  | some s => simp [readName, named s set]

theorem findSome_sets (x : Variable) (rest : List Variable) :
    (x :: rest).findSome? (Variable.sets? environment heading key) =
      (x.sets? environment heading key).or
        (rest.findSome? (Variable.sets? environment heading key)) := by
  rw [List.findSome?_cons]
  cases x.sets? environment heading key <;> rfl

/-- Without a file the values from the environment take the places of the defaults. -/
theorem ofSources_nil (environment : List (String × String)) (heading : String) (key : Key) :
    ofSources? [] environment heading key =
      lookup key ((entriesAt ({} : Settings).toEntries heading).map fun e =>
        (e.1, (lookup e.1 (entriesAt (ofEnvironment environment).1 heading)).getD e.2)) := by
  have above := lookup_map (fun k v =>
    (lookup k (entriesAt (ofEnvironment environment).1 heading)).getD v) key
    (entriesAt ({} : Settings).toEntries heading)
  have nothing : lookup key (entriesAt [] heading) = none := rfl
  rw [above, ofSources?, nothing, Option.or_none]
  rfl

/-- If whatever has the form of a value is of use, then this is what is asked for. -/
theorem IsUsable.ofSources (usable : IsUsable environment) (heading : String) (key : Key) :
    ofSources? [] environment heading key = (ofUsable environment).option? heading key := by
  have level := bind_readInt usable.level
  have workers := bind_readInt usable.workers
  have helper := bind_text usable.helper
  by_cases there : heading ∈ headings
  · rw [ofSources_nil]
    refine congrArg (lookup key) ?_
    obtain rfl | rfl | rfl := mem_headings.mp there
    · change List.map _ ({} : Inspection).entries = (ofUsable environment).inspection.entries
      simp [Inspection.entries, ofUsable, asked, lookup_ofEnvironment, knownVariables,
        findSome_sets, Variable.sets?, level, helper]
    · change List.map _ ({} : Resolution).entries = (ofUsable environment).resolution.entries
      simp [Resolution.entries, ofUsable, asked, lookup_ofEnvironment, knownVariables,
        findSome_sets, Variable.sets?]
    · change List.map _ ({} : Output).entries = (ofUsable environment).output.entries
      simp [Output.entries, ofUsable, asked, lookup_ofEnvironment, knownVariables,
        findSome_sets, Variable.sets?, workers]
  · rw [ofSources?, default?, option_of_not_mem there, option_of_not_mem there]
    rfl

/-- When the values of all options are valid, whatever has the form of a value is of use. -/
theorem isUsable_of_admits (admitted : ∀ heading key v,
    ofSources? [] environment heading key = some v → Admits heading key v) :
    IsUsable environment := by
  constructor
  · intro s n set read
    have found : lookup "language_level" (entriesAt (ofEnvironment environment).1 "inspection") =
        some (.int n) := by
      simp [lookup_ofEnvironment, knownVariables, Variable.sets?, set, readInt, read]
    have admits := admitted "inspection" "language_level" (.int n)
      (by rw [ofSources?, found]; rfl)
    simpa [Admits, sectionRules, inspectionRules, isPositive] using admits
  · intro s n set read
    have found : lookup "max_workers" (entriesAt (ofEnvironment environment).1 "output") =
        some (.int n) := by
      simp [lookup_ofEnvironment, knownVariables, Variable.sets?, set, readInt, read]
    have admits := admitted "output" "max_workers" (.int n) (by rw [ofSources?, found]; rfl)
    simpa [Admits, sectionRules, outputRules, isPositive] using admits
  · intro s set
    have found : lookup "helper_name" (entriesAt (ofEnvironment environment).1 "inspection") =
        some (.text s) := by
      simp [lookup_ofEnvironment, knownVariables, Variable.sets?, set]
    have admits := admitted "inspection" "helper_name" (.text s) (by rw [ofSources?, found]; rfl)
    simpa [Admits, sectionRules, inspectionRules, isName] using admits

/-- Without a configuration file the settings are those that the environment asks for, and these
are valid, unless something that has the form of a value is of no use. Then the configuration is
refused. -/
theorem load_environment {w : Surroundings} (noFile : findFile w [] = none) :
    (ofUsable w.environment).check = .ok () ∧
    (IsUsable w.environment → (load w "" true true).outcome = .ok (ofUsable w.environment)) ∧
    (¬ IsUsable w.environment →
      ∃ e, (load w "" true true).outcome = .error (.configuration e)) := by
  have read : loadFileOrDefault w "" = .ok [] := by
    rw [loadFileOrDefault, noFile]
    rfl
  have ordinary := IsOrdinary.nil
  have accepted := validate_layered ordinary.hasSections w.environment
  have valid := check_ofUsable w.environment
  refine ⟨valid, fun usable => ?_, fun unusable => ?_⟩
  · -- what is loaded has the options that are asked for, and nothing stands in the test's place
    obtain ⟨s, taken⟩ := ordinary.exists_layered w.environment
    have options := option_layered .empty ordinary.hasSections taken
    have gate : s.inspection.gate = none := by
      refine gate_ofEntries taken fun e member => ?_
      obtain known | old := isOption_or_mem ordinary.hasSections (by decide) member
      · exact known
      · cases old
    have same : s = ofUsable w.environment :=
      eq_of_options (fun heading key => (options heading key).trans (usable.ofSources heading key))
        gate
    refine (outcome_eq_ok read).mpr ⟨accepted.mpr fun heading key v set => ?_, same ▸ taken⟩
    rw [usable.ofSources] at set
    exact check_eq_ok.mp valid heading key v set
  · refine (outcome_eq_error read).mpr fun passed => unusable ?_
    exact isUsable_of_admits (accepted.mp passed)

/-- Numbers may be written in any way, formats in letters of any case, and an unknown strategy is
left out. -/
theorem load_environment_level :
    let w : Surroundings := ⟨⟨[]⟩, [("EQUALSGUARD_LANGUAGE_LEVEL", " +1_7 "),
      ("EQUALSGUARD_RESOLUTION_STRATEGY", "types"), ("EQUALSGUARD_OUTPUT_FORMAT", "JSON")], none⟩
    findFile w [] = none ∧ IsUsable w.environment ∧
      (load w "" true true).outcome = .ok
        { inspection := { languageLevel := .int 17 }, output := { format := .text "json" } } := by
  intro w
  have usable : IsUsable w.environment := by
    constructor
    · intro s n set read
      obtain rfl : " +1_7 " = s := Option.some.inj set
      have value : Text.intValue? " +1_7 " = some 17 := rfl
      rw [value] at read
      cases read
      decide
    · exact fun s n => nofun
    · exact fun s => nofun
  obtain ⟨-, loads, -⟩ := load_environment (w := w) rfl
  exact ⟨rfl, usable, (loads usable).trans (by rfl)⟩

/-- A number that is not above zero is taken for the language level, and then it is refused. -/
theorem load_environment_negative :
    let w : Surroundings := ⟨⟨[]⟩, [("EQUALSGUARD_LANGUAGE_LEVEL", "-3")], none⟩
    ofUsable w.environment = {} ∧
      (load w "" true true).outcome = .error (.configuration .languageLevel) := by
  intro w
  exact ⟨rfl, rfl⟩

end NullSafeEq.Settings
