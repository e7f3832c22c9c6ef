import NullSafeEq.Proofs.Rewriting.Fix
import NullSafeEq.Proofs.Settings.LiveGuard
import NullSafeEq.Proofs.Settings.Options

/-!
# What validation is good for

Settings take values of any kind, and a guard uses them as they are. When they are valid, every
value has the kind that its uses need, so a text that can be read can be analysed and fixed. But a
language level may be too long to be written, and then no guard can be built.
-/
namespace NullSafeEq

namespace Guard
variable {g : Guard} {s : Settings} {live : Inspection} {override : Option Resolver}

theorem names_of_isTextList {v : Value} (texts : Settings.isTextList v = true) :
    ∃ listed, names v = .ok listed := by
  cases v with
  | list items =>
    have all : ∀ v ∈ items, v.isText = true := List.all_eq_true.mp texts
    clear texts
    change ∃ listed, namesFrom items = .ok listed
    induction items with
    | nil => exact ⟨[], rfl⟩
    | cons item rest ih =>
      obtain ⟨first, later⟩ := List.forall_mem_cons.mp all
      obtain ⟨listed, found⟩ := ih later
      cases item with
      | text name =>
        refine ⟨name :: listed, ?_⟩
        rw [namesFrom, found]
        rfl
      | broken b => exact ⟨listed, found⟩
      | _ => cases first
  | _ => cases texts

/-- Valid settings say how names are resolved. -/
theorem classifierOf_of_valid (valid : s.check = .ok ()) :
    ∃ classifier, classifierOf s.resolution = .ok classifier := by
  obtain ⟨-, ⟨-, valueNames, typeNames, packageRoots⟩, -⟩ := Settings.check_iff.mp valid
  obtain ⟨values, first⟩ := names_of_isTextList valueNames
  obtain ⟨types, second⟩ := names_of_isTextList typeNames
  obtain ⟨roots, third⟩ := names_of_isTextList packageRoots
  unfold classifierOf
  split
  · rw [first, second, third]
    exact ⟨_, rfl⟩
  · rw [third]
    exact ⟨_, rfl⟩

theorem classifierFor_of_valid (valid : s.check = .ok ()) (override : Option Resolver) :
    ∃ classifier, classifierFor s.resolution override = .ok classifier := by
  cases override with
  | some resolve => exact ⟨_, rfl⟩
  | none => exact classifierOf_of_valid valid

/-- From valid settings a guard can be built just when their language level can be written. -/
theorem exists_ofSettings_iff (valid : s.check = .ok ()) (override : Option Resolver) :
    (∃ g, ofSettings s override = .ok g) ↔ s.inspection.languageLevel.isWritable = true := by
  simp only [ofSettings_eq_ok]
  constructor
  · rintro ⟨g, level, -⟩
    exact level
  · intro level
    obtain ⟨⟨-, required, -⟩, -⟩ := Settings.check_iff.mp valid
    have written : s.inspection.requireGuard.isWritable = true := by
      cases found : s.inspection.requireGuard with
      | bool b => rfl
      | _ =>
        rw [found] at required
        cases required
    obtain ⟨classifier, resolved⟩ := classifierFor_of_valid valid override
    exact ⟨_, level, written, classifier, resolved, rfl⟩

/-- The language level of valid settings can be compared. -/
theorem applicable_of_valid (valid : s.check = .ok ()) (gate : s.inspection.gate = none)
    (constructed : ofSettings s override = .ok g) :
    ∃ answer, g.applicable s.inspection = .ok answer := by
  obtain ⟨⟨level, -⟩, -⟩ := Settings.check_iff.mp valid
  rw [applicable, gate_of_ofSettings constructed, gateOf, gate]
  unfold Inspection.levelSuffices
  cases found : s.inspection.languageLevel with
  | int n => exact ⟨_, rfl⟩
  | _ =>
    rw [found] at level
    cases level

/-- The helper of valid settings is a text. -/
theorem helper_of_valid (valid : s.check = .ok ()) : ∃ name, helper s.inspection = .ok name := by
  obtain ⟨⟨-, -, named, -⟩, -⟩ := Settings.check_iff.mp valid
  unfold helper
  cases found : s.inspection.helper with
  | text name => exact ⟨_, rfl⟩
  | broken b => exact ⟨_, rfl⟩
  | _ =>
    rw [found] at named
    cases named

section
variable {name : String} (scans : ∀ t, ∃ found, g.scan live t = .ok found)
  (named : helper live = .ok name)
include scans named

/-- If matches can be sought and the helper is known, then only reading can fail. -/
theorem stage_of_scan (text sourceName : String) {e : AnalysisError}
    (member : e ∈ (g.analyze live text sourceName).errors) : e.stage = .parse := by
  unfold analyze at member
  split at member
  · obtain rfl := List.mem_singleton.mp member
    rfl
  · next t read =>
    obtain ⟨found, sought⟩ := scans t
    rw [analyzeTree, sought] at member
    cases found with
    | nil => cases member
    | cons m rest =>
      rw [named] at member
      cases member

theorem fix_of_scan (text : String) : (∃ fixed, g.fix live text = .ok fixed) ∨
    ∃ e, g.fix live text = .error (.syntaxError e) := by
  cases read : Tree.read text with
  | error e =>
    rw [fix, read]
    exact .inr ⟨e, rfl⟩
  | ok t =>
    obtain ⟨found, sought⟩ := scans t
    rw [fix_eq read sought, named]
    split
    · exact .inl ⟨_, rfl⟩
    · exact .inl ⟨_, rfl⟩

end

end Guard

namespace Settings
open Value
variable {data : List (Key × Value)}

/-- All sections hold options and nothing else, and no option twice. -/
structure IsDocumented (data : List (Key × Value)) : Prop where
  known : ∀ heading ∈ headings, ∀ e ∈ entriesAt data heading, isOption heading e.1 = true
  distinct : ∀ heading ∈ headings, DistinctKeys (entriesAt data heading)

theorem IsDocumented.names (documented : IsDocumented data) {heading : String}
    (there : heading ∈ headings) : AreNames (entriesAt data heading) :=
  fun e member => text_of_isOption (documented.known heading there e member)

/-- Settings from a valid configuration with documented options are valid. -/
theorem IsDocumented.exists_valid (documented : IsDocumented data)
    (accepted : validate data = .ok ()) : ∃ s, ofEntries data = .ok s ∧ s.check = .ok () := by
  obtain ⟨mappings, admitted⟩ := validate_iff_effective.mp accepted
  obtain ⟨s, read⟩ := exists_ofEntries mappings fun _ there => documented.names there
  refine ⟨s, read, check_eq_ok.mpr fun heading key v set => admitted heading key v ?_⟩
  rwa [← option_ofEntries read documented.distinct fun _ there =>
    (documented.names there).lookup_dict]

/-- From settings with documented options that are valid a guard can be built unless the language
level is too long to be written. Reading a text is the only thing that can fail for the guard, when
it analyses the text and when it fixes it. A configuration that is accepted makes settings that
are. -/
theorem valid_suffices (documented : IsDocumented data) :
    (∀ s, ofEntries data = .ok s → s.check = .ok () → ∀ override,
      ((∃ g, Guard.ofSettings s override = .ok g) ↔
        s.inspection.languageLevel.isWritable = true) ∧
      ∀ g, Guard.ofSettings s override = .ok g → ∀ text,
        (∀ sourceName, ∀ e ∈ (g.analyze s.inspection text sourceName).errors, e.stage = .parse) ∧
        ((∃ fixed, g.fix s.inspection text = .ok fixed) ∨
          ∃ e, g.fix s.inspection text = .error (.syntaxError e))) ∧
    (validate data = .ok () → ∃ s, ofEntries data = .ok s ∧ s.check = .ok ()) := by
  refine ⟨fun s read valid override => ⟨Guard.exists_ofSettings_iff valid override, ?_⟩,
    documented.exists_valid⟩
  intro g constructed text
  have gate := gate_ofEntries read (documented.known "inspection" (by decide))
  obtain ⟨answer, applies⟩ := Guard.applicable_of_valid valid gate constructed
  obtain ⟨name, named⟩ := Guard.helper_of_valid valid
  have scans (t : Tree) := Guard.exists_scan (t := t) applies
  exact ⟨fun sourceName e => Guard.stage_of_scan scans named text sourceName,
    Guard.fix_of_scan scans named text⟩

/-- Declared names, a level and a helper of one's own. -/
theorem valid_suffices_scope :
    let data : List (Key × Value) :=
      [(.text "inspection",
          .mapping [(.text "language_level", .int 11), (.text "helper_name", .text "eq")]),
       (.text "resolution",
          .mapping [(.text "strategy", .text "scope"),
            (.text "variables", .list [.text "a", .text "b"])])]
    IsDocumented data ∧ validate data = .ok () ∧
      ∃ s g, ofEntries data = .ok s ∧ s.check = .ok () ∧ Guard.ofSettings s none = .ok g ∧
        ∀ text sourceName, ∀ e ∈ (g.analyze s.inspection text sourceName).errors,
          e.stage = .parse := by
  intro data
  have documented : IsDocumented data := by
    constructor
    · intro heading there
      obtain rfl | rfl | rfl := mem_headings.mp there
      · exact List.forall_mem_cons.mpr ⟨rfl, List.forall_mem_singleton.mpr rfl⟩
      · exact List.forall_mem_cons.mpr ⟨rfl, List.forall_mem_singleton.mpr rfl⟩
      · exact fun _ => nofun
    · intro heading there
      obtain rfl | rfl | rfl := mem_headings.mp there
      all_goals
        simp [data, entriesAt, lookup, DistinctKeys]
  have accepted : validate data = .ok () := rfl
  obtain ⟨serves, accepts⟩ := valid_suffices documented
  obtain ⟨s, read, valid⟩ := accepts accepted
  obtain ⟨built, works⟩ := serves s read valid none
  have level : s.inspection.languageLevel.isWritable = true := by
    cases read
    rfl
  obtain ⟨g, constructed⟩ := built.mpr level
  exact ⟨documented, accepted, s, g, read, valid, constructed,
    fun text => (works g constructed text).1⟩

/-- The first language level that is too long is accepted, but no guard can be built for it. -/
theorem valid_unbuilt :
    let data : List (Key × Value) :=
      [(.text "inspection", .mapping [(.text "language_level", .int Text.firstLong)])]
    IsDocumented data ∧ ∃ s, ofEntries data = .ok s ∧ s.check = .ok () ∧
      Guard.ofSettings s none = .error .longNumber := by
  have positive : (0 : Int) < Text.firstLong :=
    Int.lt_of_lt_of_le (by decide) Text.le_firstLong
  have tooLong := Value.not_isWritable_firstLong
  -- nothing else is known of the level, and nothing is to be computed with it
  generalize Text.firstLong = level at positive tooLong
  intro data
  have documented : IsDocumented data := by
    constructor
    · intro heading there
      obtain rfl | rfl | rfl := mem_headings.mp there
      · exact List.forall_mem_singleton.mpr rfl
      · exact fun _ => nofun
      · exact fun _ => nofun
    · intro heading there
      obtain rfl | rfl | rfl := mem_headings.mp there
      all_goals
        simp [data, entriesAt, lookup, DistinctKeys]
  let s : Settings := { inspection := { languageLevel := .int level } }
  have valid : s.check = .ok () :=
    check_iff.mpr ⟨⟨decide_eq_true positive, rfl, rfl, rfl⟩, ⟨rfl, rfl, rfl, rfl⟩, rfl, rfl⟩
  refine ⟨documented, s, rfl, valid, ?_⟩
  change (Guard.classifierFor s.resolution none >>= fun _ => Value.written (.int level) >>= _) = _
  rw [written_eq, if_neg tooLong]
  rfl

end Settings

end NullSafeEq
