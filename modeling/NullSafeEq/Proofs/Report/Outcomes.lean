import NullSafeEq.Report.Results
import NullSafeEq.Proofs.Fallible

/-!
# Results, counts and exit status

What goes wrong with a text is recorded in the result for that text and nowhere else. So results
come in the order of the texts, one for each, and all of them keep to the same few rules. From
these rules it follows that the counts and the exit status tell the same story.
-/
namespace NullSafeEq

/-- A number that others can be compared with. -/
def Value.isNumber : Value → Bool
  | int _ | bool _ => true
  | real x => x ≠ .nan
  | _ => false

/-- What holds of the result for any text. There is an error just when the analysis failed, and then
it is the only one and nothing was found. A text that could not be read is not kept. -/
structure AnalysisResult.IsConsistent (r : AnalysisResult) : Prop where
  success_iff : r.success = true ↔ r.errors = []
  failure : r.success = false →
    ∃ e, r.errors = [e] ∧ r.findings = [] ∧ (Report.metadata r = [] ↔ e.stage = .parse)

namespace AnalysisResult.IsConsistent
variable {r : AnalysisResult}

theorem of_success (succeeded : r.success = true) (clean : r.errors = []) : r.IsConsistent where
  success_iff := iff_of_true succeeded clean
  failure failed := by
    rw [succeeded] at failed
    cases failed

theorem of_error {e : AnalysisError} (failed : r.success = false) (only : r.errors = [e])
    (nothing : r.findings = []) (kept : Report.metadata r = [] ↔ e.stage = .parse) :
    r.IsConsistent where
  success_iff := iff_of_false (by simp [failed]) (by simp [only])
  failure _ := ⟨e, only, nothing, kept⟩

/-- A result has one error if the analysis failed, and none otherwise. -/
theorem length_errors (consistent : r.IsConsistent) :
    r.errors.length = if r.success then 0 else 1 := by
  cases succeeded : r.success with
  | true => rw [consistent.success_iff.mp succeeded]; rfl
  | false =>
    obtain ⟨e, only, -⟩ := consistent.failure succeeded
    rw [only]
    rfl

end AnalysisResult.IsConsistent

/-- The analysis of a text comes to a consistent result, whatever the guard and the settings in
force. -/
theorem Guard.analyze_consistent (g : Guard) (live : Inspection) (text sourceName : String) :
    (g.analyze live text sourceName).IsConsistent := by
  unfold Guard.analyze
  split
  · exact .of_error rfl rfl rfl (iff_of_true rfl rfl)
  · split
    · exact .of_error rfl rfl rfl (iff_of_false (List.cons_ne_nil _ _) Stage.noConfusion)
    · exact .of_success rfl rfl

namespace Report
variable {results : List AnalysisResult}

/-- There are as many errors as failed analyses. -/
theorem errors_eq (consistent : ∀ r ∈ results, r.IsConsistent) :
    (counts results).errors = (results.filter fun r => !r.success).length := by
  induction results with
  | nil => rfl
  | cons r rest ih =>
    have here := (consistent r List.mem_cons_self).length_errors
    have further : total (rest.map fun r => r.errors.length) =
        (rest.filter fun r => !r.success).length :=
      ih fun r member => consistent r (List.mem_cons_of_mem _ member)
    change r.errors.length + total (rest.map fun r => r.errors.length) = _
    rw [here, further]
    cases succeeded : r.success with
    | true => simp [succeeded]
    | false => simp [succeeded, Nat.add_comm]

theorem findings_pos_iff (results : List AnalysisResult) :
    0 < (counts results).findings ↔ (results.any fun r => !r.findings.isEmpty) = true := by
  induction results with
  | nil => simp [counts, total]
  | cons r rest ih =>
    change 0 < r.findings.length + (counts rest).findings ↔ _
    rw [List.any_cons, Bool.or_eq_true, ← ih, Bool.not_eq_true', List.isEmpty_eq_false_iff,
      ← List.length_pos_iff]
    omega

theorem errors_pos_iff (consistent : ∀ r ∈ results, r.IsConsistent) :
    0 < (counts results).errors ↔ (results.any fun r => !r.success) = true := by
  rw [errors_eq consistent, List.length_filter_pos_iff, List.any_eq_true]

/-- The exit status says what the counts say: errors come first, then findings. -/
theorem exitStatus_eq (consistent : ∀ r ∈ results, r.IsConsistent) :
    exitStatus results =
      if 0 < (counts results).errors then 1
      else if 0 < (counts results).findings then 2 else 0 := by
  unfold exitStatus
  simp only [errors_pos_iff consistent, findings_pos_iff]

end Report

namespace Guard
variable {g : Guard} {live : Settings} {texts : List String} {workers : Value}

theorem isSequential_of_isNumber {v : Value} (numeric : v.isNumber = true) :
    ∃ answer, isSequential v = .ok answer := by
  cases v with
  | int n => exact ⟨_, rfl⟩
  | bool b => exact ⟨_, rfl⟩
  | real x => exact ⟨_, rfl⟩
  | _ => cases numeric

/-- Only several workers for several texts have to be put into words. -/
theorem checkWorkers_eq_ok {v : Value} {count : Nat} : checkWorkers v count = .ok () ↔
    ∃ sequential, isSequential v = .ok sequential ∧
      (sequential = false → 1 < count → v.isWritable = true) := by
  unfold checkWorkers
  refine bind_eq_ok.trans (exists_congr fun sequential => and_congr_right fun _ => ?_)
  by_cases several : (!sequential && decide (1 < count)) = true
  · rw [if_pos several]
    rw [Bool.and_eq_true, Bool.not_eq_true', decide_eq_true_iff] at several
    rw [Value.written]
    cases v.isWritable with
    | true => exact iff_of_true rfl fun _ _ => rfl
    | false => exact iff_of_false nofun fun short => nomatch short several.1 several.2
  · rw [if_neg several]
    refine iff_of_true rfl fun parallel many => absurd ?_ several
    rw [parallel, decide_eq_true many]
    rfl

/-- With a number of workers that is a number, and one of not too many digits where several workers
share several texts, every text has its result, the one that it has when it is analysed alone,
whatever became of the other texts. All results are consistent, there are as many errors as failed
analyses, and the exit status is one if there are any, two if there are only findings, and zero if
there is neither. -/
theorem analyzeAll_outcomes {sourceNames : Option (List String)} {names : List String}
    (given : sourceNames.getD (standardNames texts.length) = names)
    (many : names.length = texts.length) {inForce : Value}
    (used : (if workers.isTrue then workers else live.output.maxWorkers) = inForce)
    (numeric : inForce.isNumber = true)
    (short : isSequential inForce = .ok false → 1 < texts.length → inForce.isWritable = true) :
    ∃ results, g.analyzeAll live texts sourceNames workers = .ok results ∧
      results = List.zipWith (g.analyze live.inspection) texts names ∧
      results.length = texts.length ∧
      (∀ r ∈ results, r.IsConsistent) ∧
      (Report.counts results).errors = (results.filter fun r => !r.success).length ∧
      Report.exitStatus results =
        if 0 < (Report.counts results).errors then 1
        else if 0 < (Report.counts results).findings then 2 else 0 := by
  obtain ⟨answer, sequential⟩ := isSequential_of_isNumber numeric
  have admitted : checkWorkers inForce texts.length = .ok () := by
    refine checkWorkers_eq_ok.mpr ⟨answer, sequential, ?_⟩
    rintro rfl
    exact short sequential
  have consistent : ∀ r ∈ List.zipWith (g.analyze live.inspection) texts names,
      r.IsConsistent := by
    intro r member
    rw [← List.map_uncurry_zip_eq_zipWith] at member
    obtain ⟨⟨text, name⟩, -, rfl⟩ := List.mem_map.mp member
    exact g.analyze_consistent live.inspection text name
  refine ⟨_, ?_, rfl, ?_, consistent, Report.errors_eq consistent, Report.exitStatus_eq consistent⟩
  · simp only [analyzeAll, given, many, used, admitted, ne_eq, not_true_eq_false, if_false]
    rfl
  · rw [List.length_zipWith, many, Nat.min_self]

/-- With a text for a language level the analysis of every text fails that can be read. -/
theorem analyzeAll_outcomes_level :
    let live : Settings :=
      { inspection := { languageLevel := .text "8" }, output := { maxWorkers := .int 3 } }
    let texts := ["a ==", "a.equals(b)"]
    ∃ g, ofSettings live none = .ok g ∧ ∃ results,
      g.analyzeAll live texts none .null = .ok results ∧
      results = [g.analyze live.inspection "a ==" "<expr 1>",
        g.analyze live.inspection "a.equals(b)" "<expr 2>"] ∧
      (∀ r ∈ results, r.IsConsistent) ∧
      (results.flatMap fun r => r.errors.map (·.stage)) = [.parse, .analyze] ∧
      (Report.counts results).errors = 2 ∧ Report.exitStatus results = 1 := by
  intro live texts
  let g : Guard := ⟨.convention Convention.standard, false, some "equals", .level⟩
  obtain ⟨fault, unread⟩ : ∃ fault, Tree.read "a ==" = .error fault := ⟨_, rfl⟩
  obtain ⟨t, read⟩ : ∃ t, Tree.read "a.equals(b)" = .ok t := ⟨_, rfl⟩
  have first : g.analyze live.inspection "a ==" "<expr 1>" =
      { success := false, sourceName := "<expr 1>",
        errors := [⟨"<expr 1>", .parse, .syntaxError fault⟩] } := by
    rw [analyze, unread]
  have second : g.analyze live.inspection "a.equals(b)" "<expr 2>" =
      { success := false, sourceName := "<expr 2>",
        errors := [⟨"<expr 2>", .analyze, .kind (.unordered ">=" "str")⟩],
        expression := some "a.equals(b)" } := by
    rw [analyze, read]
    rfl
  obtain ⟨results, analyzed, each, -, consistent, errors, status⟩ :=
    @analyzeAll_outcomes g live texts .null none _ rfl rfl _ rfl rfl fun _ _ => rfl
  change results = [g.analyze live.inspection "a ==" "<expr 1>",
    g.analyze live.inspection "a.equals(b)" "<expr 2>"] at each
  have both : (Report.counts results).errors = 2 := by
    rw [errors, each, first, second]
    rfl
  refine ⟨g, rfl, results, analyzed, each, consistent, ?_, both, ?_⟩
  · rw [each, first, second]
    rfl
  · rw [status, both]
    rfl

/-- A number of workers that is a text cannot be compared with one. -/
theorem analyzeAll_unordered :
    let live : Settings := { output := { maxWorkers := .text "2" } }
    ∃ g, ofSettings live none = .ok g ∧
      g.analyzeAll live ["a"] none .null = .error (.kind (.unordered "<=" "str")) :=
  ⟨_, rfl, rfl⟩

end Guard

end NullSafeEq
