import NullSafeEq.CommandLine.Run
import NullSafeEq.Proofs.Fallible
import NullSafeEq.Proofs.Value.JsonRoundTrip

/-!
# Machine-readable output

In machine-readable mode a check that has anything to check prints one JSON document and nothing
else: its results, or the failure that kept it from them. A failure may come as late as with the
printing, when the results show a text that has no encoding.
-/
namespace NullSafeEq

namespace Report

@[simp] theorem isPlain_natValue (n : Nat) : (natValue n).IsPlain := .int n

@[simp] theorem isPlain_optionValue {α : Type} {f : α → Value} (plain : ∀ a, (f a).IsPlain)
    (o : Option α) : (optionValue f o).IsPlain := by
  cases o with
  | none => exact .null
  | some a => exact plain a

@[simp] theorem isPlain_findingValue (f : Finding) : (findingValue f).IsPlain := by
  simp [findingValue]

@[simp] theorem isPlain_errorValue (e : AnalysisError) : (errorValue e).IsPlain := by
  simp [errorValue]

@[simp] theorem isPlain_resultValue (r : AnalysisResult) : (resultValue r).IsPlain := by
  cases found : r.expression <;> cases rewritten : r.fixed <;>
    simp [resultValue, metadata, found, rewritten, optionEntry]

theorem isPlain_payload (results : List AnalysisResult) : (payload results).IsPlain := by
  simp [payload, countsValue]

end Report

namespace CommandLine

/-- The document about a failure. -/
def failureValue (e : Failure) : Value := .mapping
  [("success", .bool false), ("error", .text e.message), ("error_type", .text e.label)]

/-- The results that a check is to report, or the failure on the way to them. -/
def CheckOptions.analysis (options : CheckOptions) (w : Settings.Surroundings) (path : String) :
    Except Failure (List AnalysisResult) := do
  let s ← (Settings.load w path true true).outcome
  let inputs ← options.inputs w.files
  options.results (options.applyTo s) inputs

/-- The results that a check prints, or the failure that it prints in their place. -/
def CheckOptions.reported (options : CheckOptions) (m : Mode) (w : Settings.Surroundings)
    (path : String) : Except Failure (List AnalysisResult) := do
  let s ← (Settings.load w path true true).outcome
  let inputs ← options.inputs w.files
  let results ← options.results (options.applyTo s) inputs
  match options.printFault? m (options.applyTo s) inputs results with
  | some e => throw e
  | none => return results

/-- If the analysis has results, they can be printed. -/
def CheckOptions.IsPrintable (options : CheckOptions) (m : Mode) (w : Settings.Surroundings)
    (path : String) : Prop :=
  ∀ s inputs results, (Settings.load w path true true).outcome = .ok s →
    options.inputs w.files = .ok inputs →
    options.results (options.applyTo s) inputs = .ok results →
    options.printFault? m (options.applyTo s) inputs results = none

/-- Settings can be loaded, but there is nothing to check under them. -/
def CheckOptions.IsIdle (options : CheckOptions) (w : Settings.Surroundings) (path : String) :
    Prop :=
  (Settings.load w path true true).outcome.isOk = true ∧ options.inputs w.files = .ok []

/-- The document about the end of an analysis. -/
def reportValue : Except Failure (List AnalysisResult) → Value
  | .ok results => Report.payload results
  | .error e => failureValue e

/-- The exit status for the end of an analysis. -/
def reportStatus : Except Failure (List AnalysisResult) → Nat
  | .ok results => Report.exitStatus results
  | .error _ => 1

theorem isPlain_reportValue (ended : Except Failure (List AnalysisResult)) :
    (reportValue ended).IsPlain := by
  cases ended with
  | ok results => exact Report.isPlain_payload results
  | error e =>
    simp [reportValue, failureValue]

variable {words : List String} {i : Invocation} {options : CheckOptions} {m : Mode}
variable {w : Settings.Surroundings} {path : String}

theorem isWritable_of_printFault {s : Settings} {inputs : List (String × String)}
    {results : List AnalysisResult} (printable : options.printFault? m s inputs results = none) :
    (Report.payload results).isWritable = true := by
  unfold CheckOptions.printFault? at printable
  split at printable
  · cases printable
  · next writable => simpa using writable

/-- Results that can be printed are printed. -/
theorem CheckOptions.IsPrintable.reported (printable : options.IsPrintable m w path) :
    options.reported m w path = options.analysis w path := by
  unfold CheckOptions.reported CheckOptions.analysis
  cases loaded : (Settings.load w path true true).outcome with
  | error e => rfl
  | ok s =>
    cases found : options.inputs w.files with
    | error e => rfl
    | ok inputs =>
      cases ended : options.results (options.applyTo s) inputs with
      | error e => simp only [ended, bind, Except.bind]
      | ok results =>
        simp only [ended, bind, Except.bind, printable s inputs results loaded found ended]
        rfl

/-- Every number in what is reported can be written. -/
theorem isWritable_reported (options : CheckOptions) (m : Mode) (w : Settings.Surroundings)
    (path : String) : (reportValue (options.reported m w path)).isWritable = true := by
  cases reported : options.reported m w path with
  | error e => rfl
  | ok results =>
    obtain ⟨s, -, reported⟩ := bind_eq_ok.mp reported
    obtain ⟨inputs, -, reported⟩ := bind_eq_ok.mp reported
    obtain ⟨found, -, reported⟩ := bind_eq_ok.mp reported
    split at reported
    · cases reported
    · next printable =>
      cases reported
      exact isWritable_of_printFault printable

theorem Outcome.fail_document (o : Outcome) (e : Failure) :
    o.fail true e = { o with status := 1 }.printDocument (failureValue e) := rfl

/-- What a check that has anything to check does in machine-readable mode, apart from warnings. -/
theorem run_check (m : Mode) (mode : m.machineReadable = true) (path : String) (o : Outcome)
    (files : o.files = w.files) (busy : ¬ options.IsIdle w path) : ∃ warnings,
    Command.run m w path o (.check options) =
      { o with status := reportStatus (options.reported m w path), warnings }.printDocument
        (reportValue (options.reported m w path)) := by
  rw [CheckOptions.IsIdle] at busy
  unfold CheckOptions.reported
  let before := o.warnings ++ (Settings.load w path true true).warnings
  -- the run stops with a failure where the analysis does, and at each place in the same way
  cases loaded : (Settings.load w path true true).outcome with
  | error e =>
    refine ⟨before, ?_⟩
    simp only [Command.run, loaded, Outcome.warn, mode, Outcome.fail_document]
    rfl
  | ok s =>
    cases found : options.inputs w.files with
    | error e =>
      refine ⟨before, ?_⟩
      simp only [Command.run, loaded, runCheck, Outcome.warn, files, found, mode,
        Outcome.fail_document]
      rfl
    | ok inputs =>
      cases inputs with
      | nil => exact absurd ⟨by rw [loaded]; rfl, found⟩ busy
      | cons input inputs =>
        cases ended : options.results (options.applyTo s) (input :: inputs) with
        | error e =>
          refine ⟨before, ?_⟩
          simp only [Command.run, loaded, runCheck, Outcome.warn, files, found, ended, mode,
            Outcome.fail_document, bind, Except.bind]
          rfl
        | ok results =>
          refine ⟨before ++ results.flatMap fun r => r.errors.map AnalysisError.warning, ?_⟩
          simp only [Command.run, loaded, runCheck, Outcome.warn, files, found, ended, mode,
            printResults, Outcome.fail_document, if_true, bind, Except.bind]
          cases options.printFault? m (options.applyTo s) (input :: inputs) results <;> rfl

/-- What a check without anything to check does in any mode, apart from warnings. -/
theorem run_check_idle (m : Mode) (path : String) (o : Outcome) (files : o.files = w.files)
    (idle : options.IsIdle w path) : ∃ warnings,
    Command.run m w path o (.check options) =
      { o with warnings }.complain "no expressions to check (pass EXPR arguments or --file)" := by
  obtain ⟨loads, found⟩ := idle
  refine ⟨o.warnings ++ (Settings.load w path true true).warnings, ?_⟩
  cases loaded : (Settings.load w path true true).outcome with
  | error e =>
    rw [loaded] at loads
    cases loads
  | ok s =>
    simp only [Command.run, loaded, runCheck, Outcome.warn, files, found]

/-- A check in machine-readable mode that has anything to check prints one document on the standard
output and nothing else there, whether its results can be printed or not. -/
theorem run_reported (accepted : Invocation.ofWords words = .ok i)
    (mode : i.machineReadable = true) (command : i.command = some (.check options))
    (busy : ¬ options.IsIdle w i.configPath) (width : Nat) :
    let reported := options.reported ⟨true, false, width⟩ w i.configPath
    ∃ o, run words width w = .ok o ∧ o.output = Json.write false (reportValue reported) ++ "\n" ∧
      Json.read o.output = .ok (reportValue reported) ∧ o.status = reportStatus reported ∧
      o.redirected = false := by
  intro reported
  obtain ⟨warnings, ran⟩ := run_check ⟨true, false, width⟩ rfl i.configPath
    { files := w.files, redirected := true } rfl busy
  have outcome : run words width w = .ok (i.run width w) := by
    rw [run, accepted]
  have printed : (i.run width w).output = Json.write false (reportValue reported) ++ "\n" := by
    simp only [Invocation.run, command, mode, Bool.not_true, Bool.and_false, ran,
      Outcome.printDocument, String.empty_append]
    rfl
  refine ⟨_, outcome, printed, ?_, ?_, ?_⟩
  · rw [printed]
    exact (Json.read_write false (isPlain_reportValue _) (isWritable_reported _ _ _ _)).2
  · simp only [Invocation.run, command, mode, Bool.not_true, Bool.and_false, ran,
      Outcome.printDocument]
    rfl
  · simp only [Invocation.run, command]

/-- Results that cannot be printed make a run report this failure, although the analysis has been
carried out. -/
theorem run_unprintable {s : Settings} {inputs : List (String × String)}
    {results : List AnalysisResult} {e : Failure} {width : Nat}
    (accepted : Invocation.ofWords words = .ok i) (mode : i.machineReadable = true)
    (command : i.command = some (.check options))
    (loaded : (Settings.load w i.configPath true true).outcome = .ok s)
    (given : options.inputs w.files = .ok inputs) (nonempty : inputs ≠ [])
    (ended : options.results (options.applyTo s) inputs = .ok results)
    (fault : options.printFault? ⟨true, false, width⟩ (options.applyTo s) inputs results = some e) :
    options.analysis w i.configPath = .ok results ∧
    ∃ o, run words width w = .ok o ∧ o.output = Json.write false (failureValue e) ++ "\n" ∧
      o.status = 1 := by
  have busy : ¬ options.IsIdle w i.configPath := by
    rintro ⟨-, nothing⟩
    exact nonempty (Except.ok.inj (given.symm.trans nothing))
  have failed : options.reported ⟨true, false, width⟩ w i.configPath = .error e := by
    simp only [CheckOptions.reported, loaded, given, ended, fault, bind, Except.bind]
    rfl
  obtain ⟨o, ran, output, -, status, -⟩ := run_reported accepted mode command busy width
  rw [failed] at output status
  refine ⟨?_, o, ran, output, status⟩
  simp only [CheckOptions.analysis, loaded, given, ended, bind, Except.bind]

/-- A check that has nothing to check prints nothing on the standard output, in machine-readable
mode or not, and complains on the standard error. -/
theorem run_idle (accepted : Invocation.ofWords words = .ok i)
    (command : i.command = some (.check options)) (idle : options.IsIdle w i.configPath)
    (width : Nat) : ∃ o, run words width w = .ok o ∧ o.status = 1 ∧
      o.errors = "Error: no expressions to check (pass EXPR arguments or --file)\n" ∧
      o.output = "" := by
  obtain ⟨warnings, ran⟩ := run_check_idle
    ⟨i.machineReadable, !i.noRich && !i.machineReadable, width⟩ i.configPath
    { files := w.files, redirected := i.machineReadable } rfl idle
  have outcome : run words width w = .ok (i.run width w) := by
    rw [run, accepted]
  refine ⟨_, outcome, ?_, ?_, ?_⟩ <;> simp only [Invocation.run, command, ran, Outcome.complain]
  rfl

end CommandLine

end NullSafeEq
