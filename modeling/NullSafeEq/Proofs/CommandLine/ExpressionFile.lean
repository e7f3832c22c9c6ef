import NullSafeEq.CommandLine.Run
import NullSafeEq.Proofs.Text.Encoding
import NullSafeEq.Proofs.Text.Lines

/-!
# Checking the expressions in a file

A file with one expression on each line is read as these expressions, and what a check of the file
comes to is what the expressions come to by themselves, under other names. This needs that no
expression has a character in it that ends a line.
-/
namespace NullSafeEq

/-- The result under another name of the text. -/
def AnalysisResult.named (r : AnalysisResult) (name : String) : AnalysisResult :=
  { r with
    sourceName := name
    findings := r.findings.map fun f => { f with sourceName := name }
    errors := r.errors.map fun e => { e with sourceName := name } }

namespace CommandLine

/-- Whether a line is neither blank nor a comment. -/
def holdsExpression (line : String) : Bool := isExpressionLine (Text.trimChars line.toList)

/-- The lines with expressions, named after the file and their numbers in it. -/
def numbered (path : String) (lines : List String) : List (String × String) :=
  ((lines.zipIdx 1).filter fun l => holdsExpression l.1).map fun l => (s!"{path}:{l.2}", l.1)

/-- A text that may stand for itself on a line. -/
structure IsExpression (e : String) : Prop where
  nonempty : e ≠ ""
  trimmed : Text.trim e = e
  noComment : "//".toList.isPrefixOf e.toList = false

/-- Some texts under the names of the lines that they stand on in a file of nothing else. -/
def inOrder (path : String) (expressions : List String) : List (String × String) :=
  (expressions.zipIdx 1).map fun l => (s!"{path}:{l.2}", l.1)

theorem IsExpression.holds {e : String} (h : IsExpression e) : holdsExpression e = true := by
  have same := congrArg String.toList h.trimmed
  rw [Text.trim, String.toList_ofList] at same
  have there : e.toList.isEmpty = false := by
    simpa using h.nonempty
  rw [holdsExpression, same, isExpressionLine, there]
  simpa using h.noComment

theorem filter_holdsExpression {expressions : List String}
    (texts : ∀ e ∈ expressions, IsExpression e) :
    expressions.filter holdsExpression = expressions :=
  List.filter_eq_self.mpr fun e member => (texts e member).holds

theorem numbered_eq_inOrder {expressions : List String} (path : String)
    (all : expressions.filter holdsExpression = expressions) :
    numbered path expressions = inOrder path expressions := by
  rw [numbered, inOrder, List.filter_eq_self.mpr]
  intro l member
  exact List.filter_eq_self.mp all l.1 (List.fst_mem_of_mem_zipIdx member)

theorem texts_numbered (path : String) (lines : List String) :
    (numbered path lines).map Prod.snd = lines.filter holdsExpression := by
  have kept : ((lines.zipIdx 1).filter fun l => holdsExpression l.1).map Prod.fst =
      ((lines.zipIdx 1).map Prod.fst).filter holdsExpression := by
    rw [List.filter_map]
    rfl
  rw [List.zipIdx_map_fst] at kept
  rw [← kept, numbered, List.map_map]
  rfl

theorem texts_inOrder (path : String) (expressions : List String) :
    (inOrder path expressions).map Prod.snd = expressions := by
  rw [inOrder, List.map_map]
  exact List.zipIdx_map_fst 1 expressions

/-! ## The text of a file -/

/-- The expressions of lines that are their own trimmed texts. -/
theorem expressionsFrom_eq {lines : List String} (path : String) (number : Nat)
    (trimmed : ∀ line ∈ lines, holdsExpression line = true → Text.trim line = line) :
    expressionsFrom path number lines =
      ((lines.zipIdx number).filter fun l => holdsExpression l.1).map fun l =>
        (s!"{path}:{l.2}", l.1) := by
  induction lines generalizing number with
  | nil => rfl
  | cons line rest ih =>
    have further := ih (number + 1) fun l member => trimmed l (List.mem_cons_of_mem _ member)
    rw [expressionsFrom, further, List.zipIdx_cons, List.filter_cons]
    cases holds : holdsExpression line with
    | true =>
      have own := trimmed line List.mem_cons_self holds
      rw [Text.trim] at own
      rw [holdsExpression] at holds
      simp [holds, own]
    | false =>
      rw [holdsExpression] at holds
      simp [holds]

/-- A blank line at the end makes no difference. -/
theorem expressionsFrom_linesFrom {path : String} (number : Nat) {cs : List Char}
    (unbroken : ∀ c ∈ cs, Text.endsLine c = false) :
    expressionsFrom path number ((Text.linesFrom [] cs).map String.ofList) =
      expressionsFrom path number [String.ofList cs] := by
  have read := @Text.linesFrom_append cs [] [] unbroken
  rw [List.append_nil, List.append_nil] at read
  rw [read, Text.linesFrom, List.reverse_reverse]
  cases cs with
  | nil => rfl
  | cons c cs => simp

theorem expressionsFrom_inLines (path : String) (number : Nat) (closed : Bool) {lines : List String}
    (unbroken : ∀ line ∈ lines, Text.IsUnbroken line) :
    expressionsFrom path number (Text.lines (Text.inLines closed lines)) =
      expressionsFrom path number lines := by
  rw [Text.lines, Text.toList_inLines]
  induction lines generalizing number with
  | nil => cases closed <;> rfl
  | cons line rest ih =>
    have first := unbroken line List.mem_cons_self
    have further := ih (number + 1) fun l member => unbroken l (List.mem_cons_of_mem _ member)
    cases rest with
    | nil =>
      cases closed with
      | true =>
        simp [Text.linesFrom_line first, Text.linesFrom]
      | false => simp [expressionsFrom_linesFrom number first]
    | cons next rest =>
      simp only [List.map_cons, List.intercalate_cons_cons, List.append_assoc, List.cons_append,
        List.nil_append, Text.linesFrom_line first] at further ⊢
      simp only [expressionsFrom, String.ofList_toList, further]

/-- A file that holds an encoded text. -/
theorem readExpressions_encoded {files : Files} {path text : String}
    (content : files.read (Files.tidy path) = .ok (Text.Utf8.encode text)) :
    readExpressions files path = .ok (expressionsOf path text) := by
  rw [readExpressions, content]
  change ((Text.Utf8.decode (Text.Utf8.encode text)).mapError Failure.encoding >>= _) = _
  rw [Text.Utf8.decode_encode]
  rfl

/-- What a file with unbroken lines is read as. -/
theorem readExpressions_eq {files : Files} {path : String} {closed : Bool} {lines : List String}
    (content : files.read (Files.tidy path) = .ok (Text.Utf8.encode (Text.inLines closed lines)))
    (unbroken : ∀ line ∈ lines, Text.IsUnbroken line)
    (trimmed : ∀ line ∈ lines, holdsExpression line = true → Text.trim line = line) :
    readExpressions files path = .ok (numbered path lines) := by
  have kept :=
    Text.unifyNewlines_of_forall_ne (@Text.ne_return_of_mem_inLines closed lines unbroken)
  rw [readExpressions_encoded content, expressionsOf, kept, String.ofList_toList,
    expressionsFrom_inLines path 1 closed unbroken, expressionsFrom_eq path 1 trimmed]
  rfl

theorem mem_trimChars {c : Char} {cs : List Char} (member : c ∈ Text.trimChars cs) : c ∈ cs := by
  have unended := (List.dropWhile_suffix _).subset (List.mem_reverse.mp member)
  exact (List.dropWhile_suffix _).subset (List.mem_reverse.mp unended)

/-- No expression of a file has a character in it that ends a line. -/
theorem unbroken_of_mem_expressionsFrom {path : String} {number : Nat} {lines : List String}
    (unbroken : ∀ line ∈ lines, Text.IsUnbroken line) {found : String × String}
    (member : found ∈ expressionsFrom path number lines) : Text.IsUnbroken found.2 := by
  induction lines generalizing number with
  | nil => cases member
  | cons line rest ih =>
    have further := @ih (number + 1) fun l there => unbroken l (List.mem_cons_of_mem _ there)
    rw [expressionsFrom] at member
    split at member
    · rcases List.mem_cons.mp member with rfl | later
      · intro c there
        rw [String.toList_ofList] at there
        exact unbroken line List.mem_cons_self c (mem_trimChars there)
      · exact further later
    · exact further member

/-! ## Results under other names -/

end CommandLine

theorem Guard.analyze_named (g : Guard) (live : Inspection) (text name other : String) :
    g.analyze live text name = (g.analyze live text other).named name := by
  unfold analyze analyzeTree
  cases Tree.read text with
  | error e => rfl
  | ok t =>
    simp only [bind, Except.bind]
    cases g.scan live t with
    | error e => rfl
    | ok found =>
      cases found with
      | nil => rfl
      | cons m rest =>
        cases helper live with
        | error e => rfl
        | ok helper => simp [pure, Except.pure, AnalysisResult.named, finding, Function.comp_def]

theorem Guard.zipWith_analyze_named (g : Guard) (live : Inspection)
    {texts names others : List String}
    (many : names.length = texts.length) (same : others.length = texts.length) :
    List.zipWith (g.analyze live) texts names =
      List.zipWith AnalysisResult.named (List.zipWith (g.analyze live) texts others) names := by
  induction texts generalizing names others with
  | nil => rfl
  | cons text texts ih =>
    obtain ⟨name, names, rfl⟩ := List.exists_cons_of_length_eq_add_one many
    obtain ⟨other, others, rfl⟩ := List.exists_cons_of_length_eq_add_one same
    simp only [List.zipWith_cons_cons, ← g.analyze_named live text name other]
    rw [← ih (by simpa using many) (by simpa using same)]

/-- The names of texts have no influence on their results but that they name them. -/
theorem Guard.analyzeAll_named (g : Guard) (live : Settings) {texts names : List String}
    (many : names.length = texts.length) (workers : Value) :
    g.analyzeAll live texts (some names) workers =
      (g.analyzeAll live texts none workers).map fun rs =>
        List.zipWith AnalysisResult.named rs names := by
  have standard : (standardNames texts.length).length = texts.length := by
    simp [standardNames]
  simp only [analyzeAll, Option.getD_some, Option.getD_none, many, standard, ne_eq,
    not_true_eq_false, if_false]
  rw [g.zipWith_analyze_named live.inspection many standard]
  cases checkWorkers (if workers.isTrue then workers else live.output.maxWorkers) texts.length <;>
    rfl

namespace CommandLine
variable {files : Files} {path : String} {closed : Bool} {lines expressions : List String}

/-- What is found in a file is in order what its lines hold just when no expression has a character
in it that ends a line. -/
theorem readExpressions_iff
    (content : files.read (Files.tidy path) =
      .ok (Text.Utf8.encode (Text.inLines closed expressions)))
    (texts : ∀ e ∈ expressions, IsExpression e) :
    readExpressions files path = .ok (inOrder path expressions) ↔
      ∀ e ∈ expressions, Text.IsUnbroken e := by
  constructor
  · intro read e member
    rw [← texts_inOrder path expressions] at member
    obtain ⟨found, there, rfl⟩ := List.mem_map.mp member
    rw [readExpressions_encoded content] at read
    rw [← Except.ok.inj read] at there
    refine unbroken_of_mem_expressionsFrom (fun line inside => ?_) there
    obtain ⟨cs, cut, rfl⟩ := List.mem_map.mp inside
    rw [Text.IsUnbroken, String.toList_ofList]
    exact Text.unbroken_of_mem_linesFrom (by simp) cut
  · intro unbroken
    rw [← numbered_eq_inOrder path (filter_holdsExpression texts)]
    exact readExpressions_eq content unbroken fun e member _ => (texts e member).trimmed

/-- A file with one expression on each line, and blank lines and comments in any place, is read as
the expressions in order, under the numbers of their lines. A check of the file comes to what the
expressions come to together, under these names. -/
theorem readExpressions_inLines
    (content : files.read (Files.tidy path) = .ok (Text.Utf8.encode (Text.inLines closed lines)))
    (texts : ∀ e ∈ expressions, IsExpression e)
    (inserted : lines.filter holdsExpression = expressions)
    (unbroken : ∀ line ∈ lines, Text.IsUnbroken line) :
    readExpressions files path = .ok (numbered path lines) ∧
    (numbered path lines).map Prod.snd = expressions ∧
    (lines = expressions → numbered path lines = inOrder path expressions) ∧
    ∀ (o : CheckOptions) (s : Settings) (g : Guard), o.file = path → path ≠ "" →
      o.expressions = [] → s.check = .ok () → Guard.ofSettings s none = .ok g →
      o.inputs files = .ok (numbered path lines) ∧
      o.results s (numbered path lines) = do
        let rs ← g.analyzeAll s expressions none .null
        let rs := List.zipWith AnalysisResult.named rs ((numbered path lines).map Prod.fst)
        if o.fix then (rs.zip expressions).mapM fun (r, text) => withFix g s.inspection r text
        else return rs := by
  have trimmed : ∀ line ∈ lines, holdsExpression line = true → Text.trim line = line :=
    fun line member holds =>
      (texts line (inserted ▸ List.mem_filter.mpr ⟨member, holds⟩)).trimmed
  have read := readExpressions_eq content unbroken trimmed
  have same := (texts_numbered path lines).trans inserted
  refine ⟨read, same, ?_, ?_⟩
  · rintro rfl
    exact numbered_eq_inOrder path inserted
  · rintro o s g rfl named noMore valid built
    have many : ((numbered o.file lines).map Prod.fst).length = expressions.length := by
      rw [← same, List.length_map, List.length_map]
    constructor
    · have nonempty : o.file.isEmpty = false := by simpa using named
      simp only [CheckOptions.inputs, nonempty, read, noMore]
      simp [argumentsFrom, bind, Except.bind, pure, Except.pure]
    · rw [CheckOptions.results, valid, built, same]
      change (g.analyzeAll s expressions (some ((numbered o.file lines).map Prod.fst)) .null >>=
        _) = _
      rw [Guard.analyzeAll_named g s many]
      cases g.analyzeAll s expressions none .null <;> rfl

/-- A comment and a blank line among two expressions. -/
theorem readExpressions_inLines_comment :
    let lines := ["// both", "a.equals(b)", "", "c.equals(d)"]
    let files := Files.ofList [("input.txt", .file (Text.Utf8.encode (Text.inLines true lines)))]
    let found := [("input.txt:2", "a.equals(b)"), ("input.txt:4", "c.equals(d)")]
    readExpressions files "input.txt" = .ok found ∧
      ({ file := "input.txt" } : CheckOptions).inputs files = .ok found ∧
      ∃ g rs, Guard.ofSettings {} none = .ok g ∧
        g.analyzeAll {} ["a.equals(b)", "c.equals(d)"] none .null = .ok rs ∧
        ({ file := "input.txt" } : CheckOptions).results {} found =
          .ok (List.zipWith AnalysisResult.named rs ["input.txt:2", "input.txt:4"]) := by
  intro lines files found
  let g : Guard := ⟨.convention Convention.standard, false, some "equals", .level⟩
  have built : Guard.ofSettings {} none = .ok g := rfl
  have analyzed : g.analyzeAll {} ["a.equals(b)", "c.equals(d)"] none .null =
      .ok (List.zipWith (g.analyze {}) ["a.equals(b)", "c.equals(d)"] ["<expr 1>", "<expr 2>"]) :=
    rfl
  have texts : ∀ e ∈ ["a.equals(b)", "c.equals(d)"], IsExpression e := by
    intro e member
    obtain rfl | rfl : e = "a.equals(b)" ∨ e = "c.equals(d)" := by simpa using member
    · exact ⟨by decide, rfl, rfl⟩
    · exact ⟨by decide, rfl, rfl⟩
  have unbroken : ∀ line ∈ lines, Text.IsUnbroken line := by decide
  obtain ⟨read, -, -, checked⟩ := @readExpressions_inLines files "input.txt" true
    lines _ rfl texts rfl unbroken
  obtain ⟨inputs, results⟩ :=
    checked { file := "input.txt" } {} g rfl (by decide) rfl rfl built
  rw [analyzed] at results
  exact ⟨read, inputs, g, _, built, analyzed, results⟩

/-- A form feed is white space in an expression and ends a line in a file. -/
theorem readExpressions_form_feed :
    let e := "a ==\x0cb"
    let files := Files.ofList [("input.txt", .file (Text.Utf8.encode e))]
    IsExpression e ∧ '\n' ∉ e.toList ∧ '\r' ∉ e.toList ∧ (∃ t, Tree.read e = .ok t) ∧
      readExpressions files "input.txt" = .ok [("input.txt:1", "a =="), ("input.txt:2", "b")] :=
  ⟨⟨by decide, rfl, rfl⟩, by decide, by decide, ⟨_, rfl⟩, rfl⟩

end CommandLine

end NullSafeEq
