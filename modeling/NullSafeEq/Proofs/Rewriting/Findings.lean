import NullSafeEq.Proofs.Idiom.CallSites
import NullSafeEq.Proofs.Rewriting.Cuts
import NullSafeEq.Proofs.Rewriting.Fix

/-!
# Fixing a text by its findings

A host that knows the findings of a text, with their ranges and replacements, and nothing of the
tree can fix the text itself: it drops the findings inside other ones and replaces the ranges that
are left, from the first to the last. This gives the text that the guard writes.
-/
namespace NullSafeEq

namespace Finding

/-- The range of the finding lies properly inside that of the other one. -/
def isInside (f other : Finding) : Bool :=
  match f.span, other.span with
  | some inner, some outer =>
    outer.start ≤ inner.start && inner.stop ≤ outer.stop && inner ≠ outer
  | _, _ => false

/-- The findings that lie properly inside no other one. -/
def outermost (findings : List Finding) : List Finding :=
  findings.filter fun f => !findings.any f.isInside

/-- The range of one of the findings ends before that of the other one starts. -/
def Apart (f other : Finding) : Prop := ∃ span span', f.span = some span ∧
  other.span = some span' ∧ (span.stop ≤ span'.start ∨ span'.stop ≤ span.start)

/-- The range of a finding and what is put there. -/
def edit? (f : Finding) : Option (Span × String) := f.span.map fun span => (span, f.replacement)

end Finding

/-- A text from an offset on, with something else in the place of some ranges that are listed from
the first to the last. -/
def replaceFrom (text : String) (offset : Nat) : List (Span × String) → String
  | [] => Text.slice text offset text.length
  | (span, inserted) :: rest =>
    Text.slice text offset span.start ++ inserted ++ replaceFrom text span.stop rest

/-- A text with the replacements of its findings in their places, where those inside other ones are
dropped. -/
def replaceFindings (text : String) (findings : List Finding) : String :=
  replaceFrom text 0 (((Finding.outermost findings).filterMap Finding.edit?).mergeSort
    fun a b => a.1.start ≤ b.1.start)

theorem replaceFindings_nil (text : String) : replaceFindings text [] = text := by
  simp [replaceFindings, Finding.outermost, replaceFrom, Text.slice, ← String.length_toList]

/-- Replacing ranges from the first to the last. -/
theorem replaceFrom_of_spliced {o : Nat} {old new : List Char} {cuts : List Cut}
    (h : Spliced o old new cuts) {text : String} {front : List Char}
    (whole : text.toList = front ++ old) (size : front.length = o) :
    replaceFrom text o (cuts.map Cut.edit) = String.ofList new := by
  induction h generalizing front with
  | keep o kept =>
    have total : text.length = o + kept.length := by
      rw [← String.length_toList, whole, List.length_append, size]
    rw [List.map_nil, replaceFrom, Text.slice, whole, List.drop_left' size, total]
    rw [List.take_of_length_le (by omega)]
  | @swap o kept cut old new c cuts range some rest ih =>
    have before : Text.slice text o (o + kept.length) = String.ofList kept := by
      rw [Text.slice, whole, List.drop_left' size, Nat.add_sub_cancel_left, List.take_left]
    have behind := ih (show text.toList = front ++ (kept ++ cut) ++ old by simp [whole])
      (by simp [size, Nat.add_assoc])
    rw [List.map_cons, Cut.edit, replaceFrom, range]
    simp only [before, behind]
    simp [String.ofList_append, String.append_assoc]

section
variable {t : Tree} {text : String} {found : List Match} {m m' : Match}
  {name sourceName : String}

/-! ## Ranges and places -/

/-- The range of one finding lies properly inside that of another one just when the place of its
match lies below the other place. -/
theorem isInside_finding (read : Tree.read text = .ok t) (inside : m.In t.root)
    (inside' : m'.In t.root) :
    (Guard.finding name t sourceName m).isInside (Guard.finding name t sourceName m') =
      m'.span.isAbove m.span := by
  have ranges : (Guard.finding name t sourceName m).isInside (Guard.finding name t sourceName m') =
      true ↔ m'.span.node.Encloses m.span.node := by
    unfold Finding.isInside Expr.Encloses
    simp only [Guard.finding]
    cases m.span.node.span with
    | none => simp
    | some inner =>
      cases m'.span.node.span with
      | none => simp
      | some outer => simp [and_assoc]
  rw [Bool.eq_iff_iff, ranges]
  exact ⟨isAbove_of_encloses read inside'.span inside.span,
    encloses_of_isAbove read inside'.span inside.span⟩

/-- The findings that lie inside no other one are those of the outermost matches. -/
theorem outermost_findings (read : Tree.read text = .ok t) (inside : ∀ m ∈ found, m.In t.root) :
    Finding.outermost (found.map (Guard.finding name t sourceName)) =
      (Tree.outermost found).map (Guard.finding name t sourceName) := by
  rw [Finding.outermost, Tree.outermost, List.filter_map]
  refine congrArg _ (List.filter_congr fun m member => ?_)
  rw [Function.comp_apply, List.any_map, Bool.eq_iff_iff]
  simp only [Bool.not_eq_true', Bool.eq_false_iff, ne_eq, List.any_eq_true, Function.comp_apply]
  refine not_congr (exists_congr fun other => and_congr_right fun member' => ?_)
  rw [isInside_finding read (inside m member) (inside other member')]

/-- The outermost findings can be replaced independently of each other. -/
theorem outermost_findings_apart (read : Tree.read text = .ok t)
    (inside : ∀ m ∈ found, m.In t.root) (distinct : (found.map fun m => m.span.path).Nodup) :
    (Finding.outermost (found.map (Guard.finding name t sourceName))).Pairwise Finding.Apart := by
  rw [outermost_findings read inside, List.pairwise_map]
  refine (List.pairwise_map.mp (outermost_distinct distinct)).imp_of_mem ?_
  intro m m' member member' differs
  have placed := placed_of_in inside
  rcases outermost_apart read placed member member' differs with
    ⟨span, span', spans, spans', le⟩ | ⟨span', span, spans', spans, le⟩
  · exact ⟨span, span', spans, spans', .inl le⟩
  · exact ⟨span, span', spans, spans', .inr le⟩

/-- The edits of the findings are those of the outermost matches. -/
theorem edits_findings (read : Tree.read text = .ok t) (inside : ∀ m ∈ found, m.In t.root)
    (distinct : (found.map fun m => m.span.path).Nodup) :
    (((Finding.outermost (found.map (Guard.finding name t sourceName))).filterMap
      Finding.edit?).mergeSort fun a b => a.1.start ≤ b.1.start) =
        (sortedCuts t name found).map Cut.edit := by
  have sorted : (sortedCuts t name found).map Cut.edit =
      (((Tree.outermost found).map (cutOf t name (Tree.outermost found))).map
        Cut.edit).mergeSort fun a b => a.1.start ≤ b.1.start :=
    List.map_mergeSort fun _ _ _ _ => rfl
  rw [sorted, outermost_findings read inside, List.filterMap_map, List.map_map,
    ← List.filterMap_eq_map]
  congr 1
  refine List.filterMap_congr fun m member => ?_
  obtain ⟨span, covers⟩ := covers_of_read read (inside m (outermost_spec.mp member).1).span
  simp only [Function.comp_apply, Finding.edit?, Guard.finding, Cut.edit, covers.spans,
    Option.map_some, span_cutOf covers.spans]
  rw [cutOf, lastAt_eq (outermost_distinct distinct) member]

/-- Replacing the findings of a text gives the text with the matches applied. -/
theorem replaceFindings_eq (read : Tree.read text = .ok t) (inside : ∀ m ∈ found, m.In t.root)
    (distinct : (found.map fun m => m.span.path).Nodup) :
    replaceFindings text (found.map (Guard.finding name t sourceName)) =
      t.apply name found := by
  obtain ⟨source, -⟩ := layout_of_read read
  have placed := placed_of_in inside
  obtain ⟨new, spliced⟩ := exists_spliced read placed distinct name
  rw [apply_of_spliced source (spanned_of_read read placed) spliced (sortedCuts_perm _).symm,
    replaceFindings, edits_findings read inside distinct]
  exact replaceFrom_of_spliced spliced (List.nil_append _).symm rfl

end

namespace Guard
variable {g : Guard} {live : Inspection} {text : String} {t : Tree}

/-- A text that cannot be read is neither analysed nor fixed. -/
theorem outcome_of_unread {e : ReadError} (unread : Tree.read text = .error e) (g : Guard)
    (live : Inspection) (sourceName : String) : g.fix live text = .error (.syntaxError e) ∧
      g.analyze live text sourceName =
        { success := false, sourceName, errors := [⟨sourceName, .parse, .syntaxError e⟩] } := by
  unfold fix analyze
  rw [unread]
  exact ⟨rfl, rfl⟩

/-- Where the findings in a tree cannot be told its text is neither analysed nor fixed. -/
theorem outcome_of_failed {e : KindError} {sourceName : String} (read : Tree.read text = .ok t)
    (failed : g.analyzeTree live t sourceName = .error e) :
    g.fix live text = .error (.kind e) ∧
      g.analyze live text sourceName =
        { success := false, sourceName, errors := [⟨sourceName, .analyze, .kind e⟩],
          expression := some text } := by
  constructor
  · unfold analyzeTree at failed
    cases scanned : g.scan live t with
    | error e' =>
      rw [scanned] at failed
      cases failed
      unfold fix
      rw [read]
      change ((g.scan live t).mapError Failure.kind >>= _) = _
      rw [scanned]
      rfl
    | ok found =>
      rw [scanned] at failed
      rw [fix_eq read scanned]
      cases found with
      | nil => cases failed
      | cons m rest =>
        cases named : helper live with
        | error e' =>
          rw [named] at failed
          cases failed
          rfl
        | ok name =>
          rw [named] at failed
          cases failed
  · unfold analyze
    simp only [read, failed]

/-- The findings in a tree are those of its matches; the helper matters only if there are any. -/
theorem analyzeTree_iff {findings : List Finding} {sourceName : String} :
    g.analyzeTree live t sourceName = .ok findings ↔ ∃ found, g.scan live t = .ok found ∧
      ∃ name, (found ≠ [] → helper live = .ok name) ∧
        findings = found.map (finding name t sourceName) := by
  unfold analyzeTree
  cases g.scan live t with
  | error e => exact iff_of_false nofun (by rintro ⟨-, ⟨⟩, -⟩)
  | ok found =>
    cases found with
    | nil =>
      constructor
      · rintro ⟨⟩
        exact ⟨[], rfl, "", fun some => absurd rfl some, rfl⟩
      · rintro ⟨_, ⟨⟩, name, -, rfl⟩
        rfl
    | cons m rest =>
      constructor
      · intro told
        cases named : helper live with
        | error e =>
          rw [named] at told
          cases told
        | ok name =>
          rw [named] at told
          cases told
          exact ⟨_, rfl, name, fun _ => rfl, rfl⟩
      · rintro ⟨_, ⟨⟩, name, named, rfl⟩
        rw [named (List.cons_ne_nil m rest)]
        rfl

/-- The analysis and the fix of a text in which matches are sought and the helper is known. -/
theorem outcome_of_scan {found : List Match} {name : String} (read : Tree.read text = .ok t)
    (scanned : g.scan live t = .ok found) (named : found ≠ [] → helper live = .ok name)
    (sourceName : String) :
    g.fix live text = .ok (replaceFindings text (found.map (finding name t sourceName))) ∧
      g.analyze live text sourceName =
        { success := true, sourceName, findings := found.map (finding name t sourceName),
          expression := some text } := by
  constructor
  · obtain ⟨inside, distinct⟩ := scan_spec scanned
    rw [fix_eq read scanned]
    cases found with
    | nil => rw [List.map_nil, replaceFindings_nil, List.isEmpty_nil, if_pos rfl]
    | cons m rest =>
      rw [replaceFindings_eq read inside distinct, List.isEmpty_cons, if_neg nofun,
        named (List.cons_ne_nil m rest)]
      rfl
  · have told : g.analyzeTree live t sourceName = .ok (found.map (finding name t sourceName)) :=
      analyzeTree_iff.mpr ⟨found, scanned, name, named, rfl⟩
    unfold analyze
    simp only [read, told]

/-- The findings of a text are all that is needed to fix it. The fix fails just when the analysis
does, with the error that the analysis records; otherwise every finding has a range in the text,
those that lie inside no other one have ranges apart from each other, and the fixed text is the text
with the replacements of these. -/
theorem fix_eq_replaceFindings (g : Guard) (live : Inspection) (text sourceName : String) :
    let result := g.analyze live text sourceName
    ((∃ cause, g.fix live text = .error cause) ↔ result.success = false) ∧
    (∀ cause, g.fix live text = .error cause → ∃ e, result.errors = [e] ∧
      e.cause.label = cause.label ∧ e.cause.message = cause.message) ∧
    (result.success = true →
      (∀ f ∈ result.findings, ∃ span, f.span = some span ∧ span.start < span.stop ∧
        span.stop ≤ text.length) ∧
      (Finding.outermost result.findings).Pairwise Finding.Apart ∧
      g.fix live text = .ok (replaceFindings text result.findings) ∧
      (result.findings = [] → g.fix live text = .ok text)) := by
  cases read : Tree.read text with
  | error e =>
    obtain ⟨fails, analysis⟩ := outcome_of_unread read g live sourceName
    simp [fails, analysis]
  | ok t =>
    cases told : g.analyzeTree live t sourceName with
    | error e =>
      obtain ⟨fails, analysis⟩ := outcome_of_failed read told
      simp [fails, analysis]
    | ok findings =>
      obtain ⟨found, scanned, name, named, -⟩ := analyzeTree_iff.mp told
      obtain ⟨fixes, analysis⟩ := outcome_of_scan read scanned named sourceName
      rw [analysis, fixes]
      obtain ⟨inside, distinct⟩ := scan_spec scanned
      refine ⟨iff_of_false nofun nofun, nofun, fun _ => ⟨?_, ?_, rfl, fun nothing => ?_⟩⟩
      · intro f member
        obtain ⟨m, listed, rfl⟩ := List.mem_map.mp member
        obtain ⟨span, covers⟩ := covers_of_read read (inside m listed).span
        exact ⟨span, covers.spans, covers.solid, covers.bounded⟩
      · exact outermost_findings_apart read inside distinct
      · simp only at nothing
        rw [nothing, replaceFindings_nil]

/-- A bare call in the argument of another one: of the two findings only the outer one is
replaced. -/
theorem fix_eq_replaceFindings_nested :
    let g : Guard := ⟨.custom fun _ => .value, false, some "equals", .always⟩
    let result := g.analyze {} "a.equals(b.equals(c))" "<expr>"
    result.success = true ∧
      result.findings.map Finding.span = [some ⟨0, 21⟩, some ⟨9, 20⟩] ∧
      (Finding.outermost result.findings).map Finding.span = [some ⟨0, 21⟩] ∧
      g.fix {} "a.equals(b.equals(c))" =
        .ok (replaceFindings "a.equals(b.equals(c))" result.findings) := by
  intro g result
  let t : Tree := ⟨.invoke (.name "a" (some ⟨0, 1⟩)) "equals"
    [.invoke (.name "b" (some ⟨9, 10⟩)) "equals" [.name "c" (some ⟨18, 19⟩)] (some ⟨9, 20⟩)]
    (some ⟨0, 21⟩), some "a.equals(b.equals(c))"⟩
  let d := g.detector "equals" true
  have read : Tree.read "a.equals(b.equals(c))" = .ok t := rfl
  have scanned : g.scan {} t = .ok (d.scan t) := rfl
  obtain ⟨outer, inner, m, m', calls, matched, matched', spans, spans'⟩ : ∃ outer inner m m',
      t.calls = [outer, inner] ∧ d.analyze? outer = some m ∧ d.analyze? inner = some m' ∧
      m.span.node.span = some ⟨0, 21⟩ ∧ m'.span.node.span = some ⟨9, 20⟩ :=
    ⟨_, _, _, _, rfl, rfl, rfl, rfl, rfl⟩
  have found : d.scan t = [m, m'] := by
    rw [Detector.scan_eq_filterMap rfl, calls]
    simp [matched, matched']
  obtain ⟨-, analysis⟩ := outcome_of_scan read scanned (fun _ => helper_standard) "<expr>"
  rw [found] at analysis
  have success : result.success = true := congrArg AnalysisResult.success analysis
  have findings : result.findings = [finding standardName.text t "<expr>" m,
      finding standardName.text t "<expr>" m'] := congrArg AnalysisResult.findings analysis
  obtain ⟨-, -, ok⟩ := fix_eq_replaceFindings g {} "a.equals(b.equals(c))" "<expr>"
  refine ⟨success, ?_, ?_, (ok success).2.2.1⟩
  · rw [findings]
    simp [finding, spans, spans']
  · rw [findings]
    simp [Finding.outermost, Finding.isInside, finding, spans, spans']

end Guard

end NullSafeEq
