import NullSafeEq.Proofs.Fallible
import NullSafeEq.Proofs.Settings.UnknownKeys
import NullSafeEq.Proofs.Value.Mappings

/-!
# Options one by one

Settings are read section by section and checked rule by rule. Here both are put in terms of single
options: what an option is set to after reading a configuration, and which values it may have.
-/
namespace NullSafeEq

/-! ## Reading a section -/

/-- Give an entry another value; without an entry for the key nothing changes. -/
def Value.replace (key : Key) (v : Value) (entries : List (Key × Value)) : List (Key × Value) :=
  entries.map fun e => (e.1, if e.1 = key then v else e.2)

theorem Value.lookup_replace (key other : Key) (v : Value) (entries : List (Key × Value)) :
    lookup other (replace key v entries) =
      (lookup other entries).map fun old => if other = key then v else old :=
  lookup_map (fun k old => if k = key then v else old) other entries

namespace Settings
open Value
variable {σ : Type} {set? : σ → String → Value → Option σ} {options : σ → List (Key × Value)}
variable {s s' : σ} {data entries : List (Key × Value)} {heading : String} {key : Key} {v : Value}

/-- Setting an option changes this option and no other one; a key that is no option changes none. -/
def SetsOne (set? : σ → String → Value → Option σ) (options : σ → List (Key × Value)) : Prop :=
  ∀ s key v, key ≠ "__dict__" → options ((set? s key v).getD s) = replace (.text key) v (options s)

theorem fill_cons_eq_ok {e : Key × Value} (filled : fill set? s (e :: entries) = .ok s') :
    ∃ key, e.1 = .text key ∧ isRefused key e.2 = false ∧
      fill set? ((set? s key e.2).getD s) entries = .ok s' := by
  obtain ⟨k, v⟩ := e
  cases k with
  | text key =>
    rw [fill] at filled
    split at filled
    · cases filled
    · next accepted => exact ⟨key, rfl, by simpa using accepted, filled⟩
  | _ => cases filled

/-- After reading entries every option has the value of its entry, or the one from before. -/
theorem lookup_fill (one : SetsOne set? options) (distinct : DistinctKeys entries)
    (apart : lookup "__dict__" entries = none) (filled : fill set? s entries = .ok s') (k : Key) :
    lookup k (options s') = (lookup k (options s)).map fun old => (lookup k entries).getD old := by
  -- an entry replaces one value, and no later entry has the same key to replace it again
  induction entries generalizing s with
  | nil =>
    cases filled
    simp [lookup]
  | cons e rest ih =>
    obtain ⟨key, name, -, filled⟩ := fill_cons_eq_ok filled
    obtain ⟨k', v⟩ := e
    obtain rfl : k' = .text key := name
    have other : key ≠ "__dict__" := by
      rintro rfl
      cases apart
    have later : lookup "__dict__" rest = none := by
      rwa [lookup, if_neg fun same => other (Key.text.inj same)] at apart
    rw [ih distinct.tail later filled, one s key v other, lookup_replace]
    by_cases here : k = .text key
    · subst here
      simp [lookup, distinct.lookup_tail, Function.comp_def]
    · simp [lookup, here, Ne.symm here]

/-- The keys are texts, and none of them stands for the whole section. -/
def AreNames (entries : List (Key × Value)) : Prop :=
  ∀ e ∈ entries, ∃ name, e.1 = .text name ∧ name ≠ "__dict__"

theorem AreNames.lookup_dict (names : AreNames entries) : lookup "__dict__" entries = none := by
  cases found : lookup "__dict__" entries with
  | none => rfl
  | some v =>
    obtain ⟨name, same, apart⟩ := names _ (mem_of_lookup found)
    exact absurd (Key.text.inj same).symm apart

/-- Names can be read, whether they name options or not. -/
theorem AreNames.exists_fill (names : AreNames entries) (s : σ) :
    ∃ s', fill set? s entries = .ok s' := by
  induction entries generalizing s with
  | nil => exact ⟨s, rfl⟩
  | cons e rest ih =>
    obtain ⟨key, name, apart⟩ := names e List.mem_cons_self
    obtain ⟨k, v⟩ := e
    obtain rfl : k = .text key := name
    obtain ⟨s', filled⟩ := ih (fun e member => names e (List.mem_cons_of_mem _ member))
      ((set? s key v).getD s)
    refine ⟨s', ?_⟩
    rw [fill, isRefused_eq_false apart, if_neg Bool.false_ne_true]
    exact filled

/-- What every entry keeps is kept. -/
theorem fill_keeps {P : σ → Prop}
    (step : ∀ s key v, (.text key, v) ∈ entries → P s → P ((set? s key v).getD s))
    (start : P s) (filled : fill set? s entries = .ok s') : P s' := by
  induction entries generalizing s with
  | nil =>
    cases filled
    exact start
  | cons e rest ih =>
    obtain ⟨key, name, -, filled⟩ := fill_cons_eq_ok filled
    obtain ⟨k, v⟩ := e
    obtain rfl : k = .text key := name
    exact ih (fun s key v member => step s key v (List.mem_cons_of_mem _ member))
      (step s key v List.mem_cons_self start) filled

end Settings

open Settings

/-! ## The three sections -/

theorem Inspection.setsOne : SetsOne set? entries := by
  intro s key v apart
  unfold set?
  split <;> simp_all [entries, Value.replace, eq_comm]

theorem Resolution.setsOne : SetsOne set? entries := by
  intro s key v apart
  unfold set?
  split <;> simp_all [entries, Value.replace, eq_comm]

theorem Output.setsOne : SetsOne set? entries := by
  intro s key v apart
  unfold set?
  split <;> simp_all [entries, Value.replace, eq_comm]

namespace Settings
open Value
variable {data : List (Key × Value)} {s : Settings} {heading : String} {key : Key} {v : Value}

/-! ## Reading all sections -/

/-- What an option is set to. -/
def option? (s : Settings) (heading : String) (key : Key) : Option Value :=
  lookup key (entriesAt s.toEntries heading)

/-- What an option is set to by default. -/
def default? (heading : String) (key : Key) : Option Value := ({} : Settings).option? heading key

/-- What a configuration sets an option to: the value of its entry, or the default. -/
def effective? (data : List (Key × Value)) (heading : String) (key : Key) : Option Value :=
  (default? heading key).map fun v => (lookup key (entriesAt data heading)).getD v

theorem option_of_not_mem (absent : heading ∉ headings) (s : Settings) :
    s.option? heading key = none := by
  rw [mem_headings, not_or, not_or] at absent
  obtain ⟨h₁, h₂, h₃⟩ := absent
  simp [option?, entriesAt, toEntries, lookup, Ne.symm h₁, Ne.symm h₂, Ne.symm h₃]

theorem isOption_eq (heading : String) (key : Key) :
    isOption heading key = (default? heading key).isSome :=
  (isSome_lookup key _).symm

/-- Options have texts for names. -/
theorem text_of_isOption (known : isOption heading key = true) :
    ∃ name, key = .text name ∧ name ≠ "__dict__" := by
  by_cases there : heading ∈ headings
  · have names : ∀ heading ∈ headings, ∀ key ∈ (entriesAt ({} : Settings).toEntries heading).map
        Prod.fst, ∃ name, key = .text name ∧ name ≠ "__dict__" := by
      intro heading there
      obtain rfl | rfl | rfl := mem_headings.mp there
      all_goals
        simp [entriesAt, toEntries, lookup, Inspection.entries, Resolution.entries, Output.entries]
    exact names heading there key (List.contains_iff_mem.mp known)
  · rw [isOption_eq, default?, option_of_not_mem there] at known
    cases known

theorem entriesAt_of_sectionEntries {entries : List (Key × Value)}
    (read : sectionEntries data heading = .ok entries) : entriesAt data heading = entries := by
  unfold sectionEntries at read
  unfold entriesAt
  split at read
  · next absent =>
    rw [absent]
    cases read
    rfl
  · next v found =>
    rw [found]
    cases v with
    | mapping inner =>
      cases inner with
      | nil => cases read; rfl
      | cons e rest => cases read; rfl
    | _ =>
      split at read
      · cases read
      · cases read; rfl

theorem readSection_eq_ok {σ : Type} {set? : σ → String → Value → Option σ} {s s' : σ}
    (read : readSection set? heading s data = .ok s') :
    fill set? s (entriesAt data heading) = .ok s' := by
  obtain ⟨entries, found, filled⟩ := bind_eq_ok.mp read
  rwa [entriesAt_of_sectionEntries found]

theorem ofEntries_eq_ok (read : ofEntries data = .ok s) :
    fill Inspection.set? {} (entriesAt data "inspection") = .ok s.inspection ∧
    fill Resolution.set? {} (entriesAt data "resolution") = .ok s.resolution ∧
    fill Output.set? {} (entriesAt data "output") = .ok s.output := by
  obtain ⟨inspection, first, read⟩ := bind_eq_ok.mp read
  obtain ⟨resolution, second, read⟩ := bind_eq_ok.mp read
  obtain ⟨output, third, read⟩ := bind_eq_ok.mp read
  cases read
  exact ⟨readSection_eq_ok first, readSection_eq_ok second, readSection_eq_ok third⟩

/-- Every option of the settings that are read has the value of its entry, or the default. -/
theorem option_ofEntries (read : ofEntries data = .ok s)
    (distinct : ∀ heading ∈ headings, DistinctKeys (entriesAt data heading))
    (apart : ∀ heading ∈ headings, lookup "__dict__" (entriesAt data heading) = none)
    (heading : String) (key : Key) : s.option? heading key = effective? data heading key := by
  obtain ⟨inspection, resolution, output⟩ := ofEntries_eq_ok read
  by_cases there : heading ∈ headings
  · have distinct := distinct heading there
    have apart := apart heading there
    obtain rfl | rfl | rfl := mem_headings.mp there
    · exact lookup_fill Inspection.setsOne distinct apart inspection key
    · exact lookup_fill Resolution.setsOne distinct apart resolution key
    · exact lookup_fill Output.setsOne distinct apart output key
  · rw [effective?, default?, option_of_not_mem there, option_of_not_mem there]
    rfl

theorem sectionEntries_of_isMapping
    (mapped : ∀ v, lookup heading data = some v → v.isMapping = true) :
    sectionEntries data heading = .ok (entriesAt data heading) := by
  unfold sectionEntries entriesAt
  cases found : lookup heading data with
  | none => rfl
  | some v =>
    have mapping := mapped v found
    cases v with
    | mapping entries => cases entries <;> rfl
    | _ => cases mapping

/-- Sections with names for keys can be read. -/
theorem exists_ofEntries
    (mapped : ∀ heading ∈ headings, ∀ v, lookup heading data = some v → v.isMapping = true)
    (names : ∀ heading ∈ headings, AreNames (entriesAt data heading)) :
    ∃ s, ofEntries data = .ok s := by
  have read {σ : Type} (set? : σ → String → Value → Option σ) (s : σ) (heading : String)
      (there : heading ∈ headings) : ∃ s', readSection set? heading s data = .ok s' := by
    rw [readSection, sectionEntries_of_isMapping (mapped heading there)]
    exact (names heading there).exists_fill s
  obtain ⟨inspection, first⟩ := read Inspection.set? {} "inspection" (by decide)
  obtain ⟨resolution, second⟩ := read Resolution.set? {} "resolution" (by decide)
  obtain ⟨output, third⟩ := read Output.set? {} "output" (by decide)
  refine ⟨⟨inspection, resolution, output⟩, ?_⟩
  rw [ofEntries, first, second, third]
  rfl

/-- An option does not take the place of the language level test. -/
theorem gate_set {name : String} (known : isOption "inspection" (.text name) = true)
    (s : Inspection) (v : Value) : ((s.set? name v).getD s).gate = s.gate := by
  have either : name = "require_explicit_null_guard" ∨ name = "language_level" ∨
      name = "helper_name" ∨ name = "method_name" := by
    simpa [isOption, entriesAt, toEntries, lookup, Inspection.entries] using known
  obtain rfl | rfl | rfl | rfl := either
  all_goals rfl

/-- With nothing but options the language level test stays in place. -/
theorem gate_ofEntries (read : ofEntries data = .ok s)
    (known : ∀ e ∈ entriesAt data "inspection", isOption "inspection" e.1 = true) :
    s.inspection.gate = none := by
  refine fill_keeps (P := fun s : Inspection => s.gate = none) (fun s name v member kept => ?_) rfl
    (ofEntries_eq_ok read).1
  exact (gate_set (known _ member) s v).trans kept

/-- Settings are told apart by their options and by what stands in the place of the language level
test. -/
theorem eq_of_options {s t : Settings}
    (same : ∀ heading key, s.option? heading key = t.option? heading key)
    (gate : s.inspection.gate = t.inspection.gate) : s = t := by
  have inspection : s.inspection.entries = t.inspection.entries :=
    eq_of_lookup (by simp [DistinctKeys, Inspection.entries]) rfl (same "inspection")
  have resolution : s.resolution.entries = t.resolution.entries :=
    eq_of_lookup (by simp [DistinctKeys, Resolution.entries]) rfl (same "resolution")
  have output : s.output.entries = t.output.entries :=
    eq_of_lookup (by simp [DistinctKeys, Output.entries]) rfl (same "output")
  obtain ⟨⟨_, _, _, _, _⟩, ⟨_, _, _, _⟩, ⟨_, _, _⟩⟩ := s
  obtain ⟨⟨_, _, _, _, _⟩, ⟨_, _, _, _⟩, ⟨_, _, _⟩⟩ := t
  simp_all [Inspection.entries, Resolution.entries, Output.entries]

/-! ## Validation -/

/-- The rules for an option, if there are any, accept a value. Truth values are no numbers. -/
def Admits (heading : String) (key : Key) (v : Value) : Prop :=
  ∀ group ∈ sectionRules, group.1 = heading → ∀ r ∈ group.2, key = .text r.key → r.test v = true

instance (heading : String) (key : Key) (v : Value) : Decidable (Admits heading key v) :=
  inferInstanceAs (Decidable (∀ group ∈ sectionRules, group.1 = heading →
    ∀ r ∈ group.2, key = .text r.key → r.test v = true))

example : Admits "output" "max_workers" (.int 1) ∧ ¬ Admits "output" "max_workers" (.bool true) ∧
    Admits "output" "use_rich" (.int 1) := by decide

theorem Rule.check_eq_ok {r : Rule} {entries : List (Key × Value)} :
    r.check entries = .ok () ↔ ∀ v, lookup r.key entries = some v → r.test v = true := by
  unfold Rule.check
  cases lookup r.key entries with
  | none => exact iff_of_true rfl nofun
  | some v => by_cases passed : r.test v = true <;> simp [passed]

theorem checkSections_eq_ok : checkSections data = .ok () ↔
    ∀ heading ∈ headings, ∀ v, lookup heading data = some v → v.isMapping = true := by
  unfold checkSections
  rw [forM_eq_ok]
  simp only [sectionRules, headings, List.forall_mem_cons, List.not_mem_nil, false_implies,
    implies_true, Rule.check_eq_ok]

/-- A configuration is accepted when its sections are mappings and the rules accept the value of
each entry. -/
theorem validate_eq_ok : validate data = .ok () ↔
    (∀ heading ∈ headings, ∀ v, lookup heading data = some v → v.isMapping = true) ∧
    ∀ heading key v, lookup key (entriesAt data heading) = some v → Admits heading key v := by
  have both : validate data = .ok () ↔ checkSections data = .ok () ∧
      ∀ group ∈ sectionRules, ∀ r ∈ group.2, r.check (entriesAt data group.1) = .ok () := by
    rw [validate]
    cases checkSections data with
    | error e => exact iff_of_false nofun nofun
    | ok done =>
      simp only [true_and]
      refine forM_eq_ok.trans (forall₂_congr fun group _ => forM_eq_ok)
  rw [both, checkSections_eq_ok]
  refine and_congr_right' ⟨fun passed heading key v found group member name r rule same => ?_,
    fun admitted group member r rule => Rule.check_eq_ok.mpr fun v found =>
      admitted group.1 r.key v found group member rfl r rule rfl⟩
  subst name same
  exact Rule.check_eq_ok.mp (passed group member r rule) v found

/-- Settings are accepted when the rules accept the value of every option. -/
theorem check_eq_ok : s.check = .ok () ↔
    ∀ heading key v, s.option? heading key = some v → Admits heading key v := by
  rw [check, validate_eq_ok]
  refine and_iff_right fun heading there v found => ?_
  obtain rfl | rfl | rfl := mem_headings.mp there
  all_goals
    cases found
    rfl

/-- Settings are accepted when the value of each option passes its test. -/
theorem check_iff : s.check = .ok () ↔
    (isPositive s.inspection.languageLevel = true ∧ s.inspection.requireGuard.isBool = true ∧
      isName s.inspection.helper = true ∧ isName s.inspection.method = true) ∧
    (isOneOf strategies s.resolution.strategy = true ∧
      isTextList s.resolution.variableNames = true ∧ isTextList s.resolution.classNames = true ∧
      isTextList s.resolution.packageRoots = true) ∧
    isOneOf formats s.output.format = true ∧ isPositive s.output.maxWorkers = true := by
  have rules : s.check = .ok () ↔ ∀ group ∈ sectionRules, ∀ r ∈ group.2, ∀ v,
      s.option? group.1 r.key = some v → r.test v = true := by
    refine check_eq_ok.trans ⟨fun admitted group member r rule v set =>
      admitted group.1 r.key v set group member rfl r rule rfl, fun passed => ?_⟩
    rintro heading key v set group member rfl r rule rfl
    exact passed group member r rule v set
  rw [rules]
  simp [sectionRules, inspectionRules, resolutionRules, outputRules, option?, entriesAt, toEntries,
    lookup, Inspection.entries, Resolution.entries, Output.entries]

/-- What an option is set to by default is accepted. -/
theorem admits_default (found : default? heading key = some v) : Admits heading key v :=
  check_eq_ok.mp (rfl : check {} = .ok ()) heading key v found

/-- Keys that name no option may have any value. -/
theorem admits_of_default_eq_none (unknown : default? heading key = none) (v : Value) :
    Admits heading key v := by
  have options : ∀ group ∈ sectionRules, ∀ r ∈ group.2,
      (default? group.1 (.text r.key)).isSome = true := by
    decide
  rintro group member rfl r rule rfl
  have known := options group member r rule
  rw [unknown] at known
  cases known

/-- The rules accept all entries when they accept what every option is set to. -/
theorem validate_iff_effective : validate data = .ok () ↔
    (∀ heading ∈ headings, ∀ v, lookup heading data = some v → v.isMapping = true) ∧
    ∀ heading key v, effective? data heading key = some v → Admits heading key v := by
  rw [validate_eq_ok]
  refine and_congr_right' ⟨fun admitted heading key v set => ?_,
    fun admitted heading key v found => ?_⟩
  · obtain ⟨default, known, rfl⟩ := Option.map_eq_some_iff.mp set
    cases found : lookup key (entriesAt data heading) with
    | none => exact admits_default known
    | some v => exact admitted heading key v found
  · cases known : default? heading key with
    | none => exact admits_of_default_eq_none known v
    | some default => exact admitted heading key v (by rw [effective?, known, found]; rfl)

end Settings

end NullSafeEq
