import NullSafeEq.Proofs.Idiom.GuardedForm

/-!
# The ternary as a shape

A ternary is an idiom when it tests one value for null, tests a second value for null where the
first one is null, and compares the two by a call of the equality method where it is not; the call
and the second test are both affirmed or both denied. This is written down here as it stands in a
text, with parentheses looked through, and the detector finds just these ternaries.
-/
namespace NullSafeEq

namespace Site

/-- The site, in parentheses or not, is the branch of the ternary at `outer` that is taken when the
test has the given outcome; `other` is the other branch. -/
def IsBranchOf (s outer : Site) (test other : Expr) : Bool → Prop
  | true => ∃ yes sp, outer.node = .conditional test yes other sp ∧
    s = (outer.down (.yesOf test other sp) yes).bare
  | false => ∃ no sp, outer.node = .conditional test other no sp ∧
    s = (outer.down (.noOf test other sp) no).bare

/-- For `true` the call is the branch itself, for `false` it is what a `!` at the branch denies. -/
def IsAnswerOf (call branch : Site) : Bool → Prop
  | true => call = branch
  | false => call.IsDeniedBy branch

end Site

/-- The call is `q.m(a)` with the equality method `m`, and the ternary answers with it, or with its
negation, when the value with the name of `q` is not null; when that is null, the ternary answers
whether the value with the name of `a` is null, or whether it is not. -/
structure Detector.IsChosen (d : Detector) (call ternary : Site) (q a : Expr) (affirmed : Bool) :
    Prop where
  node : ∃ sp, call.node = .invoke q d.method [a] sp
  notSelf : q.isSelf = false
  tests : ∃ branch test other outcome x y first second,
    branch.IsBranchOf ternary test other outcome ∧ call.IsAnswerOf branch affirmed ∧
    test.TestsNull (!outcome) x ∧ other.TestsNull affirmed y ∧
    qualifiedName? d.resolve x = some first ∧ qualifiedName? d.resolve q = some first ∧
    qualifiedName? d.resolve y = some second ∧ qualifiedName? d.resolve a = some second

/-! ## The branch and the call -/

namespace Site
variable {s branch call ternary : Site} {test other : Expr} {outcome affirmed : Bool}

/-- A site without its parentheses, and what is left of it without a negation too. -/
theorem isAnswerOf_unwrapNegation (s : Site) :
    (unwrapNegation s).1.IsAnswerOf s.bare (unwrapNegation s).2 := by
  unfold unwrapNegation
  simp only
  split
  next e sp negation => exact ⟨e, sp, negation, rfl⟩
  next => rfl

theorem IsAnswerOf.unwrapNegation (h : call.IsAnswerOf branch affirmed)
    (solid : branch.node.isParen = false) (isCall : call.node.isCall = true) :
    unwrapNegation branch = (call, affirmed) := by
  cases affirmed with
  | true =>
    obtain rfl : call = branch := h
    exact Detector.unwrapNegation_of_isCall isCall
  | false =>
    obtain ⟨e, sp, negation, rfl⟩ := h
    simp only [NullSafeEq.unwrapNegation, bare_of_solid solid, negation]

theorem IsBranchOf.isParen (h : branch.IsBranchOf ternary test other outcome) :
    branch.node.isParen = false := by
  cases outcome with
  | true =>
    obtain ⟨yes, sp, -, rfl⟩ := h
    exact isParen_bare _
  | false =>
    obtain ⟨no, sp, -, rfl⟩ := h
    exact isParen_bare _

theorem IsBranchOf.enclosing (h : branch.IsBranchOf ternary test other outcome) :
    branch.enclosing? Expr.isTransparent = some ternary := by
  cases outcome with
  | true =>
    obtain ⟨yes, sp, node, rfl⟩ := h
    rw [around_bare]
    exact enclosing_child node.symm (by rw [node]; rfl)
  | false =>
    obtain ⟨no, sp, node, rfl⟩ := h
    rw [around_bare]
    exact enclosing_child node.symm (by rw [node]; rfl)

theorem IsAnswerOf.enclosing (h : call.IsAnswerOf branch affirmed) :
    call.enclosing? Expr.isTransparent = branch.enclosing? Expr.isTransparent := by
  cases affirmed with
  | true => rw [show call = branch from h]
  | false =>
    obtain ⟨e, sp, negation, rfl⟩ := h
    rw [around_bare, around_negated negation]

end Site

namespace Detector
variable {d : Detector} {m : Match} {call ternary : Site} {q a : Expr} {affirmed : Bool}

/-! ## The ternary -/

/-- What the idiom with a ternary is made of, for either order of its branches. -/
theorem conditional_branch_iff (standard : d.compare = nullComparison) :
    d.conditional? ternary = some m ↔
    ∃ branch test other outcome, branch.IsBranchOf ternary test other outcome ∧
    ∃ x y found first second, test.nullTest? = some (x, !outcome) ∧
      other.nullTest? = some (y, found.equal) ∧ equalityCall? d.method branch = some found ∧
      qualifiedName? d.resolve x = some first ∧ d.nameOf found.qualifier = some first ∧
      qualifiedName? d.resolve y = some second ∧ d.nameOf found.argument = some second ∧
      m = ⟨ternary, found.qualifier, found.argument, !found.equal, .conditional⟩ := by
  rw [conditional_iff, standard]
  constructor
  · rintro ⟨t, y, n, sp, node, test, tests, other, others, found, calls, alike, first, tested,
      second, compared, argument, qualifier, rfl⟩
    have testNull : t.nullTest? = some (test.compared.node, test.equal) :=
      (nullTest_iff (s := ternary.down (.testOf y n sp) t)).mpr ⟨test, tests, rfl, rfl⟩
    have otherNull := nullTest_iff.mpr ⟨other, others, rfl, alike⟩
    rw [Site.node_bare, Expr.nullTest_bare] at otherNull
    cases polarity : test.equal with
    | true =>
      rw [polarity] at testNull calls otherNull
      exact ⟨_, t, y, false, ⟨n, sp, node, rfl⟩, _, _, found, first, second, testNull, otherNull,
        calls, tested, qualifier, compared, argument, rfl⟩
    | false =>
      rw [polarity] at testNull calls otherNull
      exact ⟨_, t, n, true, ⟨y, sp, node, rfl⟩, _, _, found, first, second, testNull, otherNull,
        calls, tested, qualifier, compared, argument, rfl⟩
  · rintro ⟨branch, t, o, outcome, isBranch, x, y, found, first, second, testNull, otherNull, calls,
      tested, qualifier, compared, argument, rfl⟩
    -- the test and the other branch as sites of the ternary
    have sites {yes no : Expr} {sp : Option Span} {f : Frame}
        (node : ternary.node = .conditional t yes no sp) :
        ∃ test other, nullCheck? nullComparison (ternary.down (.testOf yes no sp) t) = some test ∧
          test.compared.node = x ∧ test.equal = !outcome ∧
          nullCheck? nullComparison (ternary.down f o).bare = some other ∧
          other.compared.node = y ∧ other.equal = found.equal := by
      obtain ⟨test, tests, testNode, polarity⟩ :=
        (nullTest_iff (s := ternary.down (.testOf yes no sp) t)).mp testNull
      have otherNull : (ternary.down f o).bare.node.nullTest? = some (y, found.equal) := by
        rw [Site.node_bare, Expr.nullTest_bare]
        exact otherNull
      obtain ⟨other, others, otherNode, alike⟩ := nullTest_iff.mp otherNull
      exact ⟨test, other, tests, testNode, polarity, others, otherNode, alike⟩
    cases outcome with
    | true =>
      obtain ⟨yes, sp, node, rfl⟩ := isBranch
      obtain ⟨test, other, tests, rfl, polarity, others, rfl, alike⟩ :=
        sites (f := .noOf t yes sp) node
      refine ⟨t, yes, o, sp, node, test, tests, other, ?_, found, ?_, alike, first, tested, second,
        compared, argument, qualifier, rfl⟩
      · rw [polarity]
        exact others
      · rw [polarity]
        exact calls
    | false =>
      obtain ⟨no, sp, node, rfl⟩ := isBranch
      obtain ⟨test, other, tests, rfl, polarity, others, rfl, alike⟩ :=
        sites (f := .yesOf t no sp) node
      refine ⟨t, o, no, sp, node, test, tests, other, ?_, found, ?_, alike, first, tested, second,
        compared, argument, qualifier, rfl⟩
      · rw [polarity]
        exact others
      · rw [polarity]
        exact calls

/-- A ternary that is recognised around a call has the shape of the idiom. -/
theorem isChosen_of_conditional (standard : d.compare = nullComparison)
    (around : call.enclosing? Expr.isTransparent = some ternary)
    (isCall : call.node.isCall = true) (h : d.conditional? ternary = some m) :
    ∃ q a affirmed, d.IsChosen call ternary q a affirmed := by
  have operands := conditional_operandsOf standard around isCall h
  obtain ⟨branch, test, other, outcome, isBranch, x, y, found, first, second, testNull, otherNull,
    calls, tested, qualifier, compared, argument, rfl⟩ := (conditional_branch_iff standard).mp h
  obtain ⟨q, a, sp, node, notSelf, rfl⟩ := equalityCall_iff.mp calls
  -- the operands of the match tell which call was recognised
  have recognised : OperandsOf ((unwrapNegation branch).1.down (.receiverOf d.method [a] sp) q).bare
      ((unwrapNegation branch).1.down (.argOfInvoke q d.method [] [] sp) a).bare
      (unwrapNegation branch).1 := ⟨q, d.method, a, sp, node, rfl, rfl⟩
  have same : (unwrapNegation branch).1 = call :=
    Option.some.inj (recognised.enclosing.1.symm.trans operands.enclosing.1)
  have answers := Site.isAnswerOf_unwrapNegation branch
  rw [Site.bare_of_solid isBranch.isParen, same] at answers
  obtain ⟨x', testsNull, named⟩ := Expr.nullTest_named_iff.mp ⟨x, testNull, tested⟩
  obtain ⟨y', otherTestsNull, otherNamed⟩ := Expr.nullTest_named_iff.mp ⟨y, otherNull, compared⟩
  rw [nameOf, Site.node_bare, qualifiedName_bare] at qualifier argument
  exact ⟨q, a, _, ⟨sp, by rw [← same, node]⟩, notSelf, branch, test, other, outcome, x', y', first,
    second, isBranch, answers, testsNull, otherTestsNull, named, qualifier, otherNamed, argument⟩

/-- A call in the shape of the idiom is recognised in its ternary. -/
theorem conditional_of_isChosen (standard : d.compare = nullComparison)
    (h : d.IsChosen call ternary q a affirmed) : ∃ left right,
      d.conditional? ternary = some ⟨ternary, left, right, !affirmed, .conditional⟩ := by
  obtain ⟨⟨sp, node⟩, notSelf, branch, test, other, outcome, x, y, first, second, isBranch, answers,
    testsNull, otherTestsNull, named, qualifierName, otherNamed, argumentName⟩ := h
  have alone := answers.unwrapNegation isBranch.isParen (by rw [node]; rfl)
  have calls : equalityCall? d.method branch =
      some ⟨(call.down (.receiverOf d.method [a] sp) q).bare,
        (call.down (.argOfInvoke q d.method [] [] sp) a).bare, affirmed⟩ :=
    equalityCall_iff.mpr ⟨q, a, sp, by rw [alone, node], notSelf, by rw [alone]⟩
  obtain ⟨x', testNull, tested⟩ := Expr.nullTest_named_iff.mpr ⟨x, testsNull, named⟩
  obtain ⟨y', otherNull, compared⟩ := Expr.nullTest_named_iff.mpr ⟨y, otherTestsNull, otherNamed⟩
  refine ⟨_, _, (conditional_branch_iff standard).mpr ⟨branch, test, other, outcome, isBranch, x',
    y', _, first, second, testNull, otherNull, calls, tested, ?_, compared, ?_, rfl⟩⟩
  · rw [nameOf, Site.node_bare, qualifiedName_bare]
    exact qualifierName
  · rw [nameOf, Site.node_bare, qualifiedName_bare]
    exact argumentName

theorem IsChosen.enclosing (h : d.IsChosen call ternary q a affirmed) :
    call.enclosing? Expr.isTransparent = some ternary := by
  obtain ⟨-, -, branch, test, other, outcome, x, y, first, second, isBranch, answers, -⟩ := h
  rw [answers.enclosing, isBranch.enclosing]

/-- The match of a call in the shape of the idiom. -/
theorem analyze_of_isChosen (standard : d.compare = nullComparison) (applies : d.applicable = true)
    (h : d.IsChosen call ternary q a affirmed) : ∃ m, d.analyze? call = some m ∧
      m.form = .conditional ∧ m.negated = !affirmed ∧ m.span = ternary := by
  obtain ⟨left, right, found⟩ := conditional_of_isChosen standard h
  obtain ⟨-, t, yes, no, sp, isTernary⟩ := conditional_place found
  have accepted : d.inContext? call ternary = d.conditional? ternary := by
    unfold inContext?
    simp only [isTernary, found]
  have around := h.enclosing
  obtain ⟨⟨sp, node⟩, notSelf, -⟩ := h
  refine ⟨⟨ternary, left, right, !affirmed, .conditional⟩, ?_, rfl, rfl, rfl⟩
  rw [analyze_of_enclosing applies node notSelf around, accepted, found]

/-- A call has a match of the ternary form just when it stands in the shape of the idiom. The match
then takes the place of the ternary, has the qualifier and the argument of the call for operands,
and is negated just when the call is denied. -/
theorem conditional_form_iff (standard : d.compare = nullComparison) (call : Site) :
    ((∃ m, d.analyze? call = some m ∧ m.form = .conditional) ↔
      d.applicable = true ∧ ∃ ternary q a affirmed, d.IsChosen call ternary q a affirmed) ∧
    ∀ m, d.analyze? call = some m → m.form = .conditional →
      call.receiver?.map Site.bare = some m.left ∧
      call.soleArgument?.map Site.bare = some m.right ∧
      ∀ ternary q a affirmed, d.IsChosen call ternary q a affirmed →
        m.span = ternary ∧ m.negated = !affirmed := by
  refine ⟨⟨?_, ?_⟩, ?_⟩
  · rintro ⟨m, found, form⟩
    have isCall := isCall_of_calledName (calledName_of_analyze found)
    refine ⟨applicable_of_analyze found, ?_⟩
    rcases analyze_cases found with direct | ⟨ternary, around, binary | conditional⟩
    · rw [(form_iff isCall found).mpr (by rw [(direct_place direct).1, isCall])] at form
      cases form
    · rw [binary_form binary] at form
      cases form
    · exact ⟨ternary, isChosen_of_conditional standard around isCall conditional⟩
  · rintro ⟨applies, ternary, q, a, affirmed, chosen⟩
    obtain ⟨m, found, form, -⟩ := analyze_of_isChosen standard applies chosen
    exact ⟨m, found, form⟩
  · intro m found form
    have isCall := isCall_of_calledName (calledName_of_analyze found)
    have concerns := concerns_of_analyze standard isCall found
    refine ⟨concerns.qualifier, concerns.argument, fun ternary q a affirmed chosen => ?_⟩
    obtain ⟨m', found', -, negated, place⟩ :=
      analyze_of_isChosen standard (applicable_of_analyze found) chosen
    obtain rfl : m = m' := Option.some.inj (found.symm.trans found')
    exact ⟨place, negated⟩

/-- With a denied test, a null on the left, parentheses and a denied call the ternary is still
recognised. -/
theorem conditional_form_iff_denied :
    let s : Scope := ⟨["a", "b"], [], []⟩
    let d : Detector := ⟨s.resolve, true, "equals", nullComparison, true⟩
    ∃ t call q a m, Tree.read "!(a != null) ? null != (b) : (!a.equals(b))" = .ok t ∧
      t.calls = [call] ∧ d.IsChosen call (Site.root t.root) q a false ∧
      d.analyze? call = some m ∧ m.form = .conditional ∧ m.span = Site.root t.root ∧
      m.negated = true := by
  intro s d
  let test : Expr := .prefixed .not (.paren
    (.binary .ne (.name "a" (some ⟨2, 3⟩)) (.literal .null "null" (some ⟨7, 11⟩)) (some ⟨2, 11⟩))
    (some ⟨1, 12⟩)) (some ⟨0, 12⟩)
  let other : Expr := .binary .ne (.literal .null "null" (some ⟨15, 19⟩))
    (.paren (.name "b" (some ⟨24, 25⟩)) (some ⟨23, 26⟩)) (some ⟨15, 26⟩)
  let called : Expr :=
    .invoke (.name "a" (some ⟨31, 32⟩)) "equals" [.name "b" (some ⟨40, 41⟩)] (some ⟨31, 42⟩)
  let denial : Expr := .prefixed .not called (some ⟨30, 42⟩)
  let whole : Expr := .conditional test other (.paren denial (some ⟨29, 43⟩)) (some ⟨0, 43⟩)
  let branch : Site := ⟨denial, [.bodyOfParen (some ⟨29, 43⟩), .noOf test other (some ⟨0, 43⟩)]⟩
  let call : Site := branch.down (.operandOf .not (some ⟨30, 42⟩)) called
  have read : Tree.read "!(a != null) ? null != (b) : (!a.equals(b))" =
      .ok ⟨whole, some "!(a != null) ? null != (b) : (!a.equals(b))"⟩ := rfl
  have isBranch : branch.IsBranchOf (Site.root whole) test other false := ⟨_, _, rfl, rfl⟩
  have denied : call.IsAnswerOf branch false := ⟨called, _, rfl, rfl⟩
  have testsNull : test.TestsNull true (.name "a" (some ⟨2, 3⟩)) :=
    .inr ⟨_, _, rfl, _, _, _, rfl, .inl ⟨rfl, rfl⟩⟩
  have otherTestsNull : other.TestsNull false (.paren (.name "b" (some ⟨24, 25⟩))
      (some ⟨23, 26⟩)) := .inl ⟨_, _, _, rfl, .inr ⟨rfl, rfl⟩⟩
  have chosen : d.IsChosen call (Site.root whole) (.name "a" (some ⟨31, 32⟩))
      (.name "b" (some ⟨40, 41⟩)) false :=
    ⟨⟨_, rfl⟩, rfl, branch, test, other, false, _, _, "a", "b", isBranch, denied, testsNull,
      otherTestsNull, rfl, rfl, rfl, rfl⟩
  obtain ⟨shape, details⟩ := conditional_form_iff (d := d) rfl call
  obtain ⟨m, found, form⟩ := shape.mpr ⟨rfl, _, _, _, false, chosen⟩
  obtain ⟨-, -, place⟩ := details m found form
  obtain ⟨here, negated⟩ := place _ _ _ false chosen
  exact ⟨_, call, _, _, m, read, rfl, chosen, found, form, here, negated⟩

end Detector

end NullSafeEq
