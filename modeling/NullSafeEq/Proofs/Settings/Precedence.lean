import NullSafeEq.Proofs.Settings.Options
import NullSafeEq.Proofs.Text.Encoding
import NullSafeEq.Proofs.Text.Lines
import NullSafeEq.Proofs.Value.DistinctKeys
import NullSafeEq.Proofs.Value.JsonRoundTrip

/-!
# Precedence of the sources

Variables lie on top of a file and a file on top of the defaults, option by option. What one source
says about an option leaves the other options of the section to the other sources.
-/
namespace NullSafeEq.Settings
open Value
variable {base above file : List (Key × Value)} {heading : String} {key : Key}

/-! ## Sections on top of sections -/

/-- Nothing but sections of single values, with no key twice. -/
structure IsFlat (data : List (Key × Value)) : Prop where
  distinct : DistinctKeys data
  sections : ∀ heading v, lookup heading data = some v → ∃ entries, v = .mapping entries ∧
    DistinctKeys entries ∧ ∀ key v, lookup key entries = some v → v.isMapping = false

namespace IsFlat

theorem nil : IsFlat [] := ⟨.nil, nofun⟩

theorem single (heading key : Key) {v : Value} (plain : v.isMapping = false) :
    IsFlat [(heading, .mapping [(key, v)])] := by
  refine ⟨by simp [DistinctKeys], fun k w found => ⟨[(key, v)], ?_, by simp [DistinctKeys], ?_⟩⟩
  · obtain ⟨-, rfl⟩ : heading = k ∧ Value.mapping [(key, v)] = w := by simpa [lookup] using found
    rfl
  · intro k' w' found
    obtain ⟨-, rfl⟩ : key = k' ∧ v = w' := by simpa [lookup] using found
    exact plain

theorem overlay (flatBelow : IsFlat base) (flat : IsFlat above) :
    IsFlat (overlayEntries base above) := by
  refine ⟨overlayEntries_distinct flatBelow.distinct, fun heading v found => ?_⟩
  rw [lookup_overlayEntries flat.distinct] at found
  cases top : lookup heading above with
  | none =>
    rw [top] at found
    exact flatBelow.sections heading v found
  | some u =>
    obtain ⟨upper, rfl, distinct, single⟩ := flat.sections heading u top
    cases bottom : lookup heading base with
    | none =>
      rw [top, bottom] at found
      cases found
      exact ⟨upper, rfl, distinct, single⟩
    | some b =>
      obtain ⟨lower, rfl, distinctBelow, singleBelow⟩ := flatBelow.sections heading b bottom
      rw [top, bottom] at found
      cases found
      refine ⟨_, rfl, overlayEntries_distinct distinctBelow, fun key v found => ?_⟩
      rw [lookup_overlayEntries distinct] at found
      cases set : lookup key upper with
      | none =>
        rw [set] at found
        exact singleBelow key v found
      | some w =>
        rw [set, Option.map_some, overlay_of_not_isMapping (single key w set)] at found
        cases found
        exact single key v set

/-- A section on top of others: it is new, or its entries are laid over those of the old one. -/
theorem entriesAt_overlay (flat : IsFlat above)
    (mapped : ∀ v, lookup heading base = some v → v.isMapping = true) :
    entriesAt base heading = [] ∧
      entriesAt (overlayEntries base above) heading = entriesAt above heading ∨
    entriesAt (overlayEntries base above) heading =
      overlayEntries (entriesAt base heading) (entriesAt above heading) := by
  unfold entriesAt
  rw [lookup_overlayEntries flat.distinct]
  cases top : lookup heading above with
  | none => exact .inr rfl
  | some v =>
    obtain ⟨upper, rfl, -, -⟩ := flat.sections heading v top
    cases bottom : lookup heading base with
    | none => exact .inl ⟨rfl, rfl⟩
    | some v =>
      have mapping := mapped v bottom
      cases v with
      | mapping lower => exact .inr rfl
      | _ => cases mapping

theorem entriesAt_distinct (flat : IsFlat above) (heading : String) :
    DistinctKeys (entriesAt above heading) := by
  unfold entriesAt
  cases top : lookup heading above with
  | none => exact .nil
  | some v =>
    obtain ⟨upper, rfl, distinct, -⟩ := flat.sections heading v top
    exact distinct

theorem not_isMapping (flat : IsFlat above) {v : Value}
    (found : lookup key (entriesAt above heading) = some v) : v.isMapping = false := by
  unfold entriesAt at found
  cases top : lookup heading above with
  | none =>
    rw [top] at found
    cases found
  | some section' =>
    obtain ⟨upper, rfl, -, single⟩ := flat.sections heading section' top
    rw [top] at found
    exact single key v found

/-- An entry of a section is the one on top, or else the one below it. -/
theorem lookup_overlay (flat : IsFlat above)
    (mapped : ∀ v, lookup heading base = some v → v.isMapping = true) (key : Key) :
    lookup key (entriesAt (overlayEntries base above) heading) =
      (lookup key (entriesAt above heading)).or (lookup key (entriesAt base heading)) := by
  obtain ⟨missing, same⟩ | same := flat.entriesAt_overlay mapped
  · rw [same, missing, lookup, Option.or_none]
  · rw [same, lookup_overlayEntries (flat.entriesAt_distinct heading)]
    cases found : lookup key (entriesAt above heading) with
    | none => rfl
    | some v => simp [overlay_of_not_isMapping (flat.not_isMapping found)]

theorem overlay_distinct (flat : IsFlat above)
    (mapped : ∀ v, lookup heading base = some v → v.isMapping = true)
    (distinct : DistinctKeys (entriesAt base heading)) :
    DistinctKeys (entriesAt (overlayEntries base above) heading) := by
  obtain ⟨-, same⟩ | same := flat.entriesAt_overlay mapped
  · rw [same]
    exact flat.entriesAt_distinct heading
  · rw [same]
    exact overlayEntries_distinct distinct

theorem overlay_mapped (flat : IsFlat above)
    (mapped : ∀ v, lookup heading base = some v → v.isMapping = true) {v : Value}
    (found : lookup heading (overlayEntries base above) = some v) : v.isMapping = true := by
  rw [lookup_overlayEntries flat.distinct] at found
  cases top : lookup heading above with
  | none =>
    rw [top] at found
    exact mapped v found
  | some upper =>
    obtain ⟨entries, rfl, -, -⟩ := flat.sections heading upper top
    rw [top] at found
    cases found
    rw [overlay.eq_def]
    dsimp only
    split <;> rfl

end IsFlat

/-! ## Variables -/

/-- What a variable sets an option to, if it is for this option and has a value of the right
form. -/
def Variable.sets? (environment : List (String × String)) (heading : String) (key : Key)
    (x : Variable) : Option Value :=
  if x.heading = heading ∧ .text x.key = key then (textOf? environment x.name).bind x.read
  else none

variable {environment : List (String × String)} {listed : List Variable}

theorem fromVariables_cons (x : Variable) (rest : List Variable) :
    (fromVariables environment (x :: rest)).1 =
      match (textOf? environment x.name).bind x.read with
      | none => (fromVariables environment rest).1
      | some v => overlayEntries [(x.heading, .mapping [(x.key, v)])]
          (fromVariables environment rest).1 := by
  rw [fromVariables]
  cases set : textOf? environment x.name with
  | none => rfl
  | some s =>
    simp only [Option.bind_some]
    cases x.read s <;> rfl

/-- Variables that stand for single values. -/
def ArePlain (listed : List Variable) : Prop :=
  ∀ x ∈ listed, ∀ s v, x.read s = some v → v.isMapping = false

theorem ArePlain.tail {x : Variable} (plain : ArePlain (x :: listed)) : ArePlain listed :=
  fun x member => plain x (List.mem_cons_of_mem _ member)

theorem isFlat_fromVariables (plain : ArePlain listed) :
    IsFlat (fromVariables environment listed).1 := by
  induction listed with
  | nil => exact .nil
  | cons x rest ih =>
    rw [fromVariables_cons]
    split
    · exact ih plain.tail
    · next v set =>
      obtain ⟨s, -, read⟩ := Option.bind_eq_some_iff.mp set
      exact (IsFlat.single _ _ (plain x List.mem_cons_self s v read)).overlay (ih plain.tail)

/-- Of the variables for an option that have a value of the right form the last one counts. -/
theorem lookup_fromVariables (plain : ArePlain listed) (heading : String) (key : Key) :
    lookup key (entriesAt (fromVariables environment listed).1 heading) =
      listed.reverse.findSome? (Variable.sets? environment heading key) := by
  induction listed with
  | nil => rfl
  | cons x rest ih =>
    rw [List.reverse_cons, List.findSome?_append, ← ih plain.tail, fromVariables_cons,
      List.findSome?_singleton, Variable.sets?]
    split
    · next unset => simp [unset]
    · next v set =>
      have one : lookup key (entriesAt [(x.heading, .mapping [(x.key, v)])] heading) =
          if x.heading = heading ∧ .text x.key = key then some v else none := by
        by_cases here : x.heading = heading <;> by_cases same : Key.text x.key = key <;>
          simp [entriesAt, lookup, here, same]
      -- what the other variables set lies on top of what this one sets
      rw [(isFlat_fromVariables plain.tail).lookup_overlay, one, set]
      intro w found
      obtain ⟨-, rfl⟩ : x.heading = heading ∧ Value.mapping [(x.key, v)] = w := by
        simpa [lookup] using found
      rfl

theorem arePlain_knownVariables : ArePlain knownVariables := by
  have word (words : List String) (s : String) (v : Value) (read : readWord words s = some v) :
      v.isMapping = false := by
    obtain ⟨-, rfl⟩ : _ ∧ Value.text _ = v := by simpa [readWord] using read
    rfl
  have int (s : String) (v : Value) (read : readInt s = some v) : v.isMapping = false := by
    obtain ⟨n, -, rfl⟩ := Option.map_eq_some_iff.mp read
    rfl
  simp only [ArePlain, knownVariables, List.forall_mem_cons, List.not_mem_nil, false_implies,
    implies_true, and_true]
  refine ⟨?_, int, ?_, word strategies, word formats, int⟩
  all_goals
    rintro s v ⟨⟩
    rfl

theorem isFlat_ofEnvironment (environment : List (String × String)) :
    IsFlat (ofEnvironment environment).1 :=
  isFlat_fromVariables arePlain_knownVariables

theorem lookup_ofEnvironment (environment : List (String × String)) (heading : String)
    (key : Key) : lookup key (entriesAt (ofEnvironment environment).1 heading) =
      knownVariables.reverse.findSome? (Variable.sets? environment heading key) :=
  lookup_fromVariables arePlain_knownVariables heading key

/-- Variables set nothing but options. -/
theorem isOption_of_lookup_ofEnvironment {v : Value}
    (found : lookup key (entriesAt (ofEnvironment environment).1 heading) = some v) :
    isOption heading key = true := by
  have options : ∀ x ∈ knownVariables, isOption x.heading x.key = true := by decide
  rw [lookup_ofEnvironment] at found
  obtain ⟨x, member, set⟩ := List.exists_of_findSome?_eq_some found
  rw [Variable.sets?] at set
  split at set
  · next here =>
    obtain ⟨rfl, rfl⟩ := here
    exact options x (List.mem_reverse.mp member)
  · cases set

/-! ## A file and an environment -/

/-- The configuration of a file with that of an environment on top. -/
def layered (file : List (Key × Value)) (environment : List (String × String)) :
    List (Key × Value) :=
  overlayEntries file (ofEnvironment environment).1

/-- The value of an option that takes precedence: what the environment sets it to, or else the file,
or else the default. -/
def ofSources? (file : List (Key × Value)) (environment : List (String × String))
    (heading : String) (key : Key) : Option Value :=
  (default? heading key).map fun v =>
    ((lookup key (entriesAt (ofEnvironment environment).1 heading)).or
      (lookup key (entriesAt file heading))).getD v

/-- All sections are mappings, and in none of them a key stands for the whole section. -/
structure HasSections (data : List (Key × Value)) : Prop where
  mappings : ∀ heading ∈ headings, ∀ v, lookup heading data = some v → v.isMapping = true
  apart : ∀ heading ∈ headings, lookup "__dict__" (entriesAt data heading) = none

theorem IsOrdinary.names (ordinary : IsOrdinary file) (there : heading ∈ headings) :
    AreNames (entriesAt file heading) := by
  intro e member
  obtain ⟨name, text, free⟩ := ordinary.texts heading there e member
  exact ⟨name, text, ne_dict_of_free free⟩

theorem IsOrdinary.hasSections (ordinary : IsOrdinary file) : HasSections file where
  mappings := ordinary.mappings
  apart _ there := (ordinary.names there).lookup_dict

/-- An empty configuration is ordinary. -/
theorem IsOrdinary.nil : IsOrdinary [] where
  mappings heading there v found := by cases found
  texts heading there e member := by cases member

theorem effective_layered (sections : HasSections file) (environment : List (String × String))
    (heading : String) (key : Key) :
    effective? (layered file environment) heading key =
      ofSources? file environment heading key := by
  unfold effective? ofSources? layered
  by_cases there : heading ∈ headings
  · rw [(isFlat_ofEnvironment environment).lookup_overlay (sections.mappings heading there)]
  · rw [default?, option_of_not_mem there]
    rfl

/-- The sections of a layered configuration are fit to be read. -/
theorem HasSections.layered (sections : HasSections file) (environment : List (String × String)) :
    HasSections (layered file environment) where
  mappings heading there v :=
    (isFlat_ofEnvironment environment).overlay_mapped (sections.mappings heading there)
  apart heading there := by
    rw [Settings.layered, (isFlat_ofEnvironment environment).lookup_overlay
      (sections.mappings heading there), sections.apart heading there, Option.or_none]
    cases found : lookup "__dict__" (entriesAt (ofEnvironment environment).1 heading) with
    | none => rfl
    | some v =>
      obtain ⟨name, same, apart⟩ := text_of_isOption (isOption_of_lookup_ofEnvironment found)
      exact absurd (Key.text.inj same).symm apart

theorem option_layered {s : Settings} (keyed : (Value.mapping file).IsKeyed)
    (sections : HasSections file) (read : ofEntries (layered file environment) = .ok s)
    (heading : String) (key : Key) :
    s.option? heading key = ofSources? file environment heading key := by
  rw [option_ofEntries read (fun heading there => ?_) (sections.layered environment).apart,
    effective_layered sections]
  refine (isFlat_ofEnvironment environment).overlay_distinct (sections.mappings heading there) ?_
  exact distinct_entriesAt keyed heading

theorem validate_layered (sections : HasSections file) (environment : List (String × String)) :
    validate (layered file environment) = .ok () ↔
      ∀ heading key v, ofSources? file environment heading key = some v →
        Admits heading key v := by
  rw [validate_iff_effective, and_iff_right (sections.layered environment).mappings]
  simp only [effective_layered sections]

/-- What stands in a section comes from the file or is an option. -/
theorem isOption_or_mem (sections : HasSections file) (there : heading ∈ headings)
    {e : Key × Value} (member : e ∈ entriesAt (layered file environment) heading) :
    isOption heading e.1 = true ∨ e.1 ∈ (entriesAt file heading).map Prod.fst := by
  have set : (lookup e.1 (entriesAt (layered file environment) heading)).isSome = true := by
    rw [isSome_lookup, List.contains_iff_mem]
    exact List.mem_map_of_mem member
  rw [layered, (isFlat_ofEnvironment environment).lookup_overlay (sections.mappings heading there),
    Option.isSome_or, Bool.or_eq_true] at set
  refine set.imp (fun above => ?_) fun below => ?_
  · obtain ⟨v, found⟩ := Option.isSome_iff_exists.mp above
    exact isOption_of_lookup_ofEnvironment found
  · rwa [isSome_lookup, List.contains_iff_mem] at below

/-- An ordinary file can be read with any environment on top. -/
theorem IsOrdinary.exists_layered (ordinary : IsOrdinary file)
    (environment : List (String × String)) :
    ∃ s, ofEntries (layered file environment) = .ok s := by
  have sections := ordinary.hasSections
  refine exists_ofEntries (sections.layered environment).mappings fun heading there e member => ?_
  obtain known | old := isOption_or_mem sections there member
  · exact text_of_isOption known
  · obtain ⟨e', member', same⟩ := List.mem_map.mp old
    rw [← same]
    exact ordinary.names there e' member'

/-! ## Loading -/

/-- A file that was written in the JSON format is read back. -/
theorem loadFile_written {files : Files} {path : String} {ascii : Bool}
    (content : files.read path = .ok (Text.Utf8.encode (Json.write ascii (.mapping file))))
    (there : files.contains path = true) (json : isYaml path = false)
    (plain : (Value.mapping file).IsPlain) (writable : (Value.mapping file).isWritable = true) :
    loadFile files path = .ok file := by
  have unbroken : ∀ c ∈ (Json.write ascii (.mapping file)).toList, c ≠ '\r' :=
    fun c member same => Json.return_notMem_written plain 0 (same ▸ member)
  have value : readJson (Text.Utf8.encode (Json.write ascii (.mapping file))) =
      .ok (.mapping file) := by
    unfold readJson
    rw [Text.Utf8.decode_encode]
    change (Json.document (Text.unifyNewlines _)).mapError _ = _
    rw [Text.unifyNewlines_of_forall_ne unbroken, Json.document_write ascii plain writable]
    rfl
  unfold loadFile
  rw [there, content, json]
  change (readJson _ >>= _) = _
  rw [value]
  rfl

section
variable {w : Surroundings} {path : String} {s : Settings}

theorem outcome_eq (read : loadFileOrDefault w path = .ok file) :
    (load w path true true).outcome =
      (validate (layered file w.environment)).mapError .configuration >>= fun _ =>
        (ofEntries (layered file w.environment)).mapError .kind := by
  unfold load layered
  rw [read]
  dsimp only
  rw [if_pos rfl, if_pos rfl]
  cases validate (overlayEntries file (ofEnvironment w.environment).1) with
  | error e => rfl
  | ok done => rfl

theorem outcome_eq_ok (read : loadFileOrDefault w path = .ok file) :
    (load w path true true).outcome = .ok s ↔
      validate (layered file w.environment) = .ok () ∧
        ofEntries (layered file w.environment) = .ok s := by
  rw [outcome_eq read]
  constructor
  · intro loaded
    obtain ⟨_, valid, taken⟩ := bind_eq_ok.mp loaded
    exact ⟨mapError_eq_ok.mp valid, mapError_eq_ok.mp taken⟩
  · rintro ⟨valid, taken⟩
    rw [valid, taken]
    rfl

theorem outcome_eq_error (read : loadFileOrDefault w path = .ok file) :
    (∃ e, (load w path true true).outcome = .error (.configuration e)) ↔
      validate (layered file w.environment) ≠ .ok () := by
  rw [outcome_eq read]
  cases validate (layered file w.environment) with
  | error e => exact iff_of_true ⟨e, rfl⟩ nofun
  | ok done =>
    -- what goes wrong behind the validation is no matter of the configuration
    refine iff_of_false ?_ fun refused => refused rfl
    rintro ⟨e, failed⟩
    change (ofEntries (layered file w.environment)).mapError Failure.kind = _ at failed
    cases taken : ofEntries (layered file w.environment) with
    | error e' =>
      rw [taken] at failed
      cases failed
    | ok s =>
      rw [taken] at failed
      cases failed

/-- Settings that are loaded have for every option the value that takes precedence, whatever the
sources say about other options. Loading fails on the configuration just when one of these values
is not valid, and it succeeds with all of them valid if the sections of the file hold nothing else
than texts for keys and no reserved ones. -/
theorem load_precedence (read : loadFileOrDefault w path = .ok file)
    (sections : HasSections file) :
    (∀ s, (load w path true true).outcome = .ok s → ∀ heading key,
      s.option? heading key = ofSources? file w.environment heading key) ∧
    ((∃ e, (load w path true true).outcome = .error (.configuration e)) ↔
      ∃ heading key v, ofSources? file w.environment heading key = some v ∧
        ¬ Admits heading key v) ∧
    (IsOrdinary file → ((∃ s, (load w path true true).outcome = .ok s) ↔
      ∀ heading key v, ofSources? file w.environment heading key = some v →
        Admits heading key v)) := by
  have accepted := validate_layered sections w.environment
  refine ⟨fun s loaded heading key => ?_, ?_, fun ordinary => ?_⟩
  · obtain ⟨-, taken⟩ := (outcome_eq_ok read).mp loaded
    exact option_layered (isKeyed_of_loadFileOrDefault read) sections taken heading key
  · rw [outcome_eq_error read, Ne, accepted]
    simp only [Classical.not_forall, exists_prop]
  · obtain ⟨s, taken⟩ := ordinary.exists_layered w.environment
    rw [← accepted]
    exact ⟨fun ⟨s, loaded⟩ => ((outcome_eq_ok read).mp loaded).1,
      fun valid => ⟨s, (outcome_eq_ok read).mpr ⟨valid, taken⟩⟩⟩

end

/-- The variable for the language level wins over the file, and the file over the default. -/
theorem load_precedence_level :
    let file : List (Key × Value) := [(.text "inspection",
      .mapping [(.text "language_level", .int 11), (.text "method_name", .text "eq")])]
    let files : Files :=
      ⟨[("settings.json", .file (Text.Utf8.encode (Json.write true (.mapping file))))]⟩
    let w : Surroundings := ⟨files, [("EQUALSGUARD_LANGUAGE_LEVEL", "21")], none⟩
    ∃ s, (load w "settings.json" true true).outcome = .ok s ∧
      s.option? "inspection" "language_level" = some (.int 21) ∧
      s.option? "inspection" "method_name" = some (.text "eq") ∧
      s.option? "output" "max_workers" = some (.int 1) := by
  intro file files w
  have content : files.read "settings.json" =
      .ok (Text.Utf8.encode (Json.write true (.mapping file))) := rfl
  have read : loadFileOrDefault w "settings.json" = .ok file := by
    rw [loadFileOrDefault, if_neg (by decide)]
    exact loadFile_written content rfl rfl (by simp [file]) rfl
  have ordinary : IsOrdinary file := by
    constructor
    · intro heading member v found
      obtain rfl | rfl | rfl := mem_headings.mp member
      all_goals cases found
      rfl
    · intro heading member e entry
      obtain rfl | rfl | rfl := mem_headings.mp member
      · have either : e ∈ [(.text "language_level", .int 11), (.text "method_name", .text "eq")] :=
          entry
        obtain rfl | rfl : e = (.text "language_level", .int 11) ∨
          e = (.text "method_name", .text "eq") := by simpa using either
        · exact ⟨"language_level", rfl, rfl⟩
        · exact ⟨"method_name", rfl, rfl⟩
      · cases entry
      · cases entry
  obtain ⟨law, -, loads⟩ := load_precedence read ordinary.hasSections
  obtain ⟨s, loaded⟩ :=
    (loads ordinary).mpr ((validate_layered ordinary.hasSections w.environment).mp rfl)
  refine ⟨s, loaded, ?_, ?_, ?_⟩
  all_goals
    rw [law s loaded]
    rfl

/-- A key that stands for the whole section resets the option that the file sets. -/
theorem load_dict :
    let file : List (Key × Value) := [(.text "inspection",
      .mapping [(.text "language_level", .int 9), (.text "__dict__", .mapping [])])]
    let files : Files :=
      ⟨[("settings.json", .file (Text.Utf8.encode (Json.write true (.mapping file))))]⟩
    let w : Surroundings := ⟨files, [], none⟩
    loadFileOrDefault w "settings.json" = .ok file ∧
      ofSources? file w.environment "inspection" "language_level" = some (.int 9) ∧
      (load w "settings.json" true true).outcome = .ok {} := by
  intro file files w
  have content : files.read "settings.json" =
      .ok (Text.Utf8.encode (Json.write true (.mapping file))) := rfl
  have read : loadFileOrDefault w "settings.json" = .ok file := by
    rw [loadFileOrDefault, if_neg (by decide)]
    exact loadFile_written content rfl rfl (by simp [file]) rfl
  exact ⟨read, rfl, (outcome_eq_ok read).mpr ⟨rfl, rfl⟩⟩

end NullSafeEq.Settings
