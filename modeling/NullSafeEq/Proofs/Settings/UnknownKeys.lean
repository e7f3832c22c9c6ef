import NullSafeEq.LiveGuard
import NullSafeEq.Settings.Validation

/-!
# Keys that name no option

A configuration may hold keys that are no options. These are left out with a warning, so that the
guard built from the configuration answers as if they were not there. The exception is a key that
goes by the name of something else that a section has, such as its test for the language level.
-/
namespace NullSafeEq

namespace Settings

/-- The headings of the sections in the order in which they are read. -/
def headings : List String := ["inspection", "resolution", "output"]

theorem mem_headings {heading : String} : heading ∈ headings ↔
    heading = "inspection" ∨ heading = "resolution" ∨ heading = "output" := by
  simp [headings]

/-- Whether a key names an option of a section. -/
def isOption (heading : String) (key : Key) : Bool :=
  ((entriesAt ({} : Settings).toEntries heading).map Prod.fst).contains key

/-- A section without the keys that name no option. -/
def documentedValue (heading : String) : Value → Value
  | .mapping entries => .mapping (entries.filter fun e => isOption heading e.1)
  | v => v

/-- A configuration with nothing but the sections that there are and their options. -/
def documented (data : List (Key × Value)) : List (Key × Value) :=
  data.filterMap fun
    | (.text heading, v) =>
      if headings.contains heading then some (.text heading, documentedValue heading v) else none
    | _ => none

/-- A key that names no option of a section and is taken all the same: the name of the language
level test, and the names between double underscores, which belong to what every section has. -/
def isReserved (heading key : String) : Bool :=
  (heading = "inspection" && key = "is_applicable") ||
    ("__".toList.isPrefixOf key.toList && "__".toList.isSuffixOf key.toList)

/-- The sections are mappings with texts for keys, none of them reserved. -/
structure IsOrdinary (data : List (Key × Value)) : Prop where
  mappings : ∀ heading ∈ headings, ∀ v, Value.lookup heading data = some v → v.isMapping = true
  texts : ∀ heading ∈ headings, ∀ e ∈ entriesAt data heading,
    ∃ key, e.1 = .text key ∧ isReserved heading key = false

/-- The warning about a key that names no option. -/
def ignored (heading : String) (key : Key) : String :=
  "Ignoring unknown configuration key: " ++ heading ++ "." ++ key.value.display

/-- The answer of a guard that is built from a configuration. -/
def answerTo (data : List (Key × Value)) (override : Option Resolver) (q : Question) :
    Except KindError Answer := do
  let s ← ofEntries data
  return (← Guard.ofSettings s override).answer s.inspection q

variable {σ : Type} {set? : σ → String → Value → Option σ} {known : Key → Bool}
variable {data entries : List (Key × Value)} {heading : String}

/-! ## One section -/

/-- All keys are texts, and those that set anything are the known ones. -/
def SetsKnown (set? : σ → String → Value → Option σ) (known : Key → Bool)
    (entries : List (Key × Value)) : Prop :=
  ∀ e ∈ entries, ∃ key, e.1 = .text key ∧ key ≠ "__dict__" ∧
    ∀ s v, (set? s key v).isSome = known e.1

theorem ne_dict_of_free {key : String} (free : isReserved heading key = false) :
    key ≠ "__dict__" := by
  rintro rfl
  have taken : isReserved heading "__dict__" = true := Bool.or_eq_true_iff.mpr (.inr rfl)
  rw [taken] at free
  cases free

theorem isRefused_eq_false {key : String} (apart : key ≠ "__dict__") (v : Value) :
    isRefused key v = false := by
  rw [isRefused, decide_eq_false apart, Bool.false_and]

/-- Filling in entries succeeds and depends on the known ones only. -/
theorem fill_known (sets : SetsKnown set? known entries) (s : σ) :
    ∃ s', fill set? s entries = .ok s' ∧
      fill set? s (entries.filter fun e => known e.1) = .ok s' := by
  induction entries generalizing s with
  | nil => exact ⟨s, rfl, rfl⟩
  | cons e rest ih =>
    obtain ⟨key, name, apart, isSet⟩ := sets e List.mem_cons_self
    obtain ⟨k, v⟩ := e
    obtain rfl : k = .text key := name
    obtain ⟨s', filled, filtered⟩ :=
      ih (fun e member => sets e (List.mem_cons_of_mem _ member)) ((set? s key v).getD s)
    have step (rest : List (Key × Value)) : fill set? s ((.text key, v) :: rest) =
        fill set? ((set? s key v).getD s) rest := by
      rw [fill, isRefused_eq_false apart, if_neg Bool.false_ne_true]
    refine ⟨s', (step rest).trans filled, ?_⟩
    by_cases there : known (.text key) = true
    · rw [List.filter_cons, if_pos there, step]
      exact filtered
    · have skipped : set? s key v = none := by
        rw [← Option.not_isSome_iff_eq_none, isSet]
        exact there
      rw [List.filter_cons, if_neg there]
      rwa [skipped] at filtered

/-- There is a warning for each key that is not known. -/
theorem skipped_eq (sets : SetsKnown set? known entries) (s : σ) :
    skipped set? heading s entries =
      (entries.filter fun e => !known e.1).map fun e => ignored heading e.1 := by
  induction entries with
  | nil => rfl
  | cons e rest ih =>
    obtain ⟨key, name, apart, isSet⟩ := sets e List.mem_cons_self
    obtain ⟨k, v⟩ := e
    obtain rfl : k = .text key := name
    rw [skipped, isRefused_eq_false apart, if_neg Bool.false_ne_true, isSet,
      ih fun e member => sets e (List.mem_cons_of_mem _ member), List.filter_cons]
    cases known (.text key) <;> rfl

end Settings

/-! ## The three sections -/

theorem Inspection.isSome_set (s : Inspection) (key : String) (v : Value)
    (free : Settings.isReserved "inspection" key = false) :
    (s.set? key v).isSome = Settings.isOption "inspection" (.text key) := by
  have keys : (Settings.entriesAt ({} : Settings).toEntries "inspection").map Prod.fst =
    [.text "require_explicit_null_guard", .text "language_level", .text "helper_name",
      .text "method_name"] := rfl
  have apart := Settings.ne_dict_of_free free
  unfold set? Settings.isOption
  rw [keys]
  split <;> simp_all [Settings.isReserved]

theorem Resolution.isSome_set (s : Resolution) (key : String) (v : Value)
    (free : Settings.isReserved "resolution" key = false) :
    (s.set? key v).isSome = Settings.isOption "resolution" (.text key) := by
  have keys : (Settings.entriesAt ({} : Settings).toEntries "resolution").map Prod.fst =
    [.text "strategy", .text "variables", .text "classes", .text "packages"] := rfl
  have apart := Settings.ne_dict_of_free free
  unfold set? Settings.isOption
  rw [keys]
  split <;> simp_all [Settings.isReserved]

theorem Output.isSome_set (s : Output) (key : String) (v : Value)
    (free : Settings.isReserved "output" key = false) :
    (s.set? key v).isSome = Settings.isOption "output" (.text key) := by
  have keys : (Settings.entriesAt ({} : Settings).toEntries "output").map Prod.fst =
    [.text "format", .text "use_rich", .text "max_workers"] := rfl
  have apart := Settings.ne_dict_of_free free
  unfold set? Settings.isOption
  rw [keys]
  split <;> simp_all [Settings.isReserved]

namespace Settings
variable {data : List (Key × Value)} {heading : String}

theorem IsOrdinary.setsKnown (ordinary : IsOrdinary data) (there : heading ∈ headings) {σ : Type}
    {set? : σ → String → Value → Option σ}
    (keys : ∀ s key v, isReserved heading key = false →
      (set? s key v).isSome = isOption heading (.text key)) :
    SetsKnown set? (isOption heading) (entriesAt data heading) := by
  intro e member
  obtain ⟨key, name, free⟩ := ordinary.texts heading there e member
  exact ⟨key, name, ne_dict_of_free free, fun s v => by rw [keys s key v free, name]⟩

/-! ## A configuration -/

theorem lookup_documented (there : heading ∈ headings) (data : List (Key × Value)) :
    Value.lookup heading (documented data) =
      (Value.lookup heading data).map (documentedValue heading) := by
  induction data with
  | nil => rfl
  | cons e rest ih =>
    obtain ⟨k, v⟩ := e
    by_cases here : k = .text heading
    · obtain rfl := here
      simp [documented, Value.lookup, there]
    · have skipped : Value.lookup heading (documented ((k, v) :: rest)) =
          Value.lookup heading (documented rest) := by
        cases k with
        | text other =>
          have apart : other ≠ heading := fun same => here (same ▸ rfl)
          by_cases known : other ∈ headings <;> simp [documented, Value.lookup, known, apart]
        | _ => rfl
      rw [skipped, ih, Value.lookup, if_neg here]

/-- The sections of an ordinary configuration, all of it or just what is documented, can be
read. -/
theorem IsOrdinary.sections (ordinary : IsOrdinary data) (there : heading ∈ headings) :
    sectionEntries data heading = .ok (entriesAt data heading) ∧
    sectionEntries (documented data) heading =
      .ok ((entriesAt data heading).filter fun e => isOption heading e.1) := by
  have read (entries : List (Key × Value)) :
      (if (Value.mapping entries).isTrue then .ok entries else .ok [] : Except KindError _) =
        .ok entries := by
    cases entries <;> rfl
  unfold sectionEntries entriesAt
  rw [lookup_documented there]
  cases found : Value.lookup heading data with
  | none => exact ⟨rfl, rfl⟩
  | some v =>
    have mapping := ordinary.mappings heading there v found
    cases v with
    | mapping entries => exact ⟨read entries, read _⟩
    | _ => cases mapping

/-- Reading a section of an ordinary configuration. -/
theorem IsOrdinary.readSection (ordinary : IsOrdinary data) (there : heading ∈ headings) {σ : Type}
    {set? : σ → String → Value → Option σ}
    (keys : ∀ s key v, isReserved heading key = false →
      (set? s key v).isSome = isOption heading (.text key)) (s : σ) (further : List String) :
    ∃ s', readSection set? heading s data = .ok s' ∧
      readSection set? heading s (documented data) = .ok s' ∧
      warnSection set? heading s data further =
        (((entriesAt data heading).filter fun e => !isOption heading e.1).map fun e =>
          ignored heading e.1) ++ further := by
  have sets := ordinary.setsKnown there keys
  obtain ⟨all, kept⟩ := ordinary.sections there
  obtain ⟨s', filled, filtered⟩ := fill_known sets s
  refine ⟨s', ?_, ?_, ?_⟩
  · rw [Settings.readSection, all]
    exact filled
  · rw [Settings.readSection, kept]
    exact filtered
  · rw [warnSection, all]
    simp only [skipped_eq sets, filled, Except.isOk, Except.toBool, if_true]

/-- From an ordinary configuration a guard is built as from its documented options. It answers
every question alike, and for each other key there is a warning, section by section. -/
theorem answerTo_documented (ordinary : IsOrdinary data) :
    (∃ s, ofEntries data = .ok s) ∧
    (∀ override q, answerTo data override q = answerTo (documented data) override q) ∧
    warnings data = headings.flatMap fun heading =>
      ((entriesAt data heading).filter fun e => !isOption heading e.1).map fun e =>
        ignored heading e.1 := by
  obtain ⟨output, outputRead, outputKept, outputWarned⟩ := ordinary.readSection
    (by decide : "output" ∈ headings) Output.isSome_set {} []
  obtain ⟨resolution, resolutionRead, resolutionKept, resolutionWarned⟩ := ordinary.readSection
    (by decide : "resolution" ∈ headings) Resolution.isSome_set {}
    (warnSection Output.set? "output" {} data [])
  obtain ⟨inspection, inspectionRead, inspectionKept, inspectionWarned⟩ := ordinary.readSection
    (by decide : "inspection" ∈ headings) Inspection.isSome_set {}
    (warnSection Resolution.set? "resolution" {} data (warnSection Output.set? "output" {} data []))
  have read : ofEntries data = .ok ⟨inspection, resolution, output⟩ := by
    rw [ofEntries, inspectionRead, resolutionRead, outputRead]
    rfl
  have kept : ofEntries (documented data) = .ok ⟨inspection, resolution, output⟩ := by
    rw [ofEntries, inspectionKept, resolutionKept, outputKept]
    rfl
  refine ⟨⟨_, read⟩, fun override q => ?_, ?_⟩
  · rw [answerTo, answerTo, read, kept]
  · rw [warnings, inspectionWarned, resolutionWarned, outputWarned]
    rfl

/-- A key and a section that nothing is known of. Only the key in the section is warned about. -/
theorem answerTo_documented_colour :
    let data : List (Key × Value) :=
      [(.text "inspection",
          .mapping [(.text "colour", .text "red"), (.text "method_name", .text "eq")]),
       (.text "colours", .list [])]
    IsOrdinary data ∧
      documented data = [(.text "inspection", .mapping [(.text "method_name", .text "eq")])] ∧
      (∃ s, ofEntries data = .ok s) ∧
      (∀ override q, answerTo data override q = answerTo (documented data) override q) ∧
      warnings data = ["Ignoring unknown configuration key: inspection.colour"] := by
  intro data
  have ordinary : IsOrdinary data := by
    constructor
    · intro heading member v found
      obtain rfl | rfl | rfl := mem_headings.mp member
      all_goals cases found
      rfl
    · intro heading member e entry
      obtain rfl | rfl | rfl := mem_headings.mp member
      · have either : e ∈ [(.text "colour", .text "red"), (.text "method_name", .text "eq")] :=
          entry
        obtain rfl | rfl : e = (.text "colour", .text "red") ∨
          e = (.text "method_name", .text "eq") := by simpa using either
        · exact ⟨"colour", rfl, rfl⟩
        · exact ⟨"method_name", rfl, rfl⟩
      · cases entry
      · cases entry
  obtain ⟨read, same, warned⟩ := answerTo_documented ordinary
  exact ⟨ordinary, rfl, read, same, warned⟩

/-- The name of the language level test is taken for a key: without a warning, and so that the guard
fails on a text with a match. -/
theorem answerTo_is_applicable :
    let data : List (Key × Value) :=
      [(.text "inspection", .mapping [(.text "is_applicable", .bool true)])]
    let analyze : Question := .analyze "a.equals(b)" "<expr>"
    documented data = [(.text "inspection", .mapping [])] ∧ warnings data = [] ∧
      ∃ failed found, answerTo data none analyze = .ok (.analysis failed) ∧
        answerTo (documented data) none analyze = .ok (.analysis found) ∧
        failed.success = false ∧ failed.errors.map (·.cause) = [.kind (.notCallable "bool")] ∧
        found.success = true ∧
        found.findings.map (·.replacement) = ["java.util.Objects.equals(a, b)"] := by
  intro data analyze
  let t : Tree := ⟨.invoke (.name "a" (some ⟨0, 1⟩)) "equals" [.name "b" (some ⟨9, 10⟩)]
    (some ⟨0, 11⟩), some "a.equals(b)"⟩
  have read : Tree.read "a.equals(b)" = .ok t := rfl
  let broken : Guard := ⟨.convention Convention.standard, false, some "equals", .broken "bool"⟩
  let level : Guard := { broken with gate := .level }
  have failed : broken.analyze { gate := some (.bool true) } "a.equals(b)" "<expr>" =
      { success := false, sourceName := "<expr>",
        errors := [⟨"<expr>", .analyze, .kind (.notCallable "bool")⟩],
        expression := some "a.equals(b)" } := by
    rw [Guard.analyze, read]
    rfl
  have found : level.analyze {} "a.equals(b)" "<expr>" =
      { success := true, sourceName := "<expr>",
        findings := [⟨"<expr>", "a.equals(b)", "a", "b", "java.util.Objects.equals(a, b)", false,
          .directCall, some ⟨0, 11⟩⟩],
        expression := some "a.equals(b)" } := by
    rw [Guard.analyze, read]
    rfl
  have failedAnswer : answerTo data none analyze =
      .ok (broken.answer { gate := some (.bool true) } analyze) := rfl
  have foundAnswer : answerTo (documented data) none analyze = .ok (level.answer {} analyze) := rfl
  rw [failedAnswer, foundAnswer, Guard.answer, Guard.answer, failed, found]
  exact ⟨rfl, rfl, _, _, rfl, rfl, rfl, rfl, rfl, rfl⟩

end Settings

end NullSafeEq
