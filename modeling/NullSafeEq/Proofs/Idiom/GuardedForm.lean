import NullSafeEq.Proofs.Idiom.CallSites
import NullSafeEq.Proofs.Tree.Erasure

/-!
# The guarded call as a shape

A guarded call is a conjunction with a test that the qualifier of the call is not null on the left
and the call on the right, or the dual disjunction. The shapes are written down here as they stand
in a text, with parentheses looked through, and the detector finds just these.
-/
namespace NullSafeEq

namespace Expr

/-- `x op null` or `null op x`. -/
def ComparesWithNull (e : Expr) (op : BinaryOp) (x : Expr) : Prop :=
  ∃ l r sp, e.bare = .binary op l r sp ∧
    (x = l ∧ r.bare.isNull = true ∨ x = r ∧ l.bare.isNull = true)

/-- For `true` a test that `x` is null: `x == null` or `!(x != null)`. For `false` a test that it is
not: `x != null` or `!(x == null)`. -/
def TestsNull (e : Expr) (equal : Bool) (x : Expr) : Prop :=
  e.ComparesWithNull (if equal then .eq else .ne) x ∨
    ∃ o sp, e.bare = .prefixed .not o sp ∧ o.ComparesWithNull (if equal then .ne else .eq) x

end Expr

namespace Site

/-- The site, in parentheses or not, is the right operand of the operator at `outer`. -/
def IsRightOf (s outer : Site) (op : BinaryOp) (left : Expr) : Prop :=
  ∃ r sp, outer.node = .binary op left r sp ∧ s = (outer.down (.rightOf op left sp) r).bare

/-- The site, in parentheses or not, is what the `!` at `outer` denies. -/
def IsDeniedBy (s outer : Site) : Prop :=
  ∃ e sp, outer.node = .prefixed .not e sp ∧ s = (outer.down (.operandOf .not sp) e).bare

/-- For `true` the guard is `left && call`, for `false` it is `left || !call`. -/
def Guards (guard call : Site) (left : Expr) : Bool → Prop
  | true => call.IsRightOf guard .and left
  | false => ∃ denial, call.IsDeniedBy denial ∧ denial.IsRightOf guard .or left

end Site

namespace Detector
variable (d : Detector)

/-- The call is `q.m(a)` with the equality method `m`, and the guard lets it through just when the
value with the name of `q` is not null. -/
structure IsGuarded (call guard : Site) (q a : Expr) (equal : Bool) : Prop where
  node : ∃ sp, call.node = .invoke q d.method [a] sp
  notSelf : q.isSelf = false
  test : ∃ left x name, guard.Guards call left equal ∧ left.TestsNull (!equal) x ∧
    qualifiedName? d.resolve x = some name ∧ qualifiedName? d.resolve q = some name

/-- For `true` the identity comparison `q == a`, for `false` `q != a`, in either order and by the
names of `q` and `a`. -/
def ComparesIdentity (equal : Bool) (q a e : Expr) : Prop :=
  ∃ l r sp first second, e.bare = .binary (if equal then .eq else .ne) l r sp ∧
    qualifiedName? d.resolve q = some first ∧ qualifiedName? d.resolve a = some second ∧
    (qualifiedName? d.resolve l = some first ∧ qualifiedName? d.resolve r = some second ∨
      qualifiedName? d.resolve l = some second ∧ qualifiedName? d.resolve r = some first)

/-- The guard is the right operand of `outer`, behind an identity comparison of `q` and `a`:
`q == a || guard`, or `q != a && guard`. -/
def IsCompared (guard outer : Site) (q a : Expr) (equal : Bool) : Prop :=
  ∃ left, guard.IsRightOf outer (if equal then .or else .and) left ∧
    d.ComparesIdentity equal q a left

/-- The place of a guarded call: the operator with an identity comparison in front of the guard, if
there is one, and otherwise the guard. -/
def IsPlaceOf (place guard : Site) (q a : Expr) (equal : Bool) : Prop :=
  d.IsCompared guard place q a equal ∨
    place = guard ∧ ∀ outer, ¬ d.IsCompared guard outer q a equal

end Detector

/-! ## Parentheses -/

theorem Site.wrapped_bare (s : Site) : s.bare.wrapped = s.wrapped := by
  have below (above : List Frame) (e : Expr) :
      (bareBelow above e).wrapped = (⟨e, above⟩ : Site).wrapped := by
    fun_induction bareBelow above e with
    | case1 above e sp ih => exact ih
    | case2 => rfl
  exact below s.above s.node

theorem qualifiedName_bare (resolve : Resolver) (e : Expr) :
    qualifiedName? resolve e.bare = qualifiedName? resolve e := by
  fun_induction Expr.bare e with
  | case1 e sp ih => exact ih
  | case2 => rfl

/-- What is the right operand of an operator, told from the frames around it. -/
theorem Site.isRightOf_iff {s outer : Site} (solid : s.node.isParen = false) {op : BinaryOp}
    {left : Expr} : s.IsRightOf outer op left ↔ ∃ sp above,
      s.wrapped.above = .rightOf op left sp :: above ∧
      outer = ⟨.binary op left s.wrapped.node sp, above⟩ := by
  constructor
  · rintro ⟨r, sp, node, rfl⟩
    have outermost : (outer.down (.rightOf op left sp) r).bare.wrapped =
        outer.down (.rightOf op left sp) r := by
      rw [wrapped_bare]
      exact wrapped_of_solid rfl outer.above
    refine ⟨sp, outer.above, ?_, ?_⟩
    · rw [outermost]
      rfl
    · rw [outermost, Site.down, ← node]
  · rintro ⟨sp, above, frames, rfl⟩
    refine ⟨s.wrapped.node, sp, rfl, ?_⟩
    have outermost : Site.down ⟨.binary op left s.wrapped.node sp, above⟩ (.rightOf op left sp)
        s.wrapped.node = s.wrapped := by
      rw [Site.down, ← frames]
    rw [outermost, bare_wrapped solid]

theorem Site.Guards.enclosing {guard call : Site} {left : Expr} {equal : Bool}
    (h : guard.Guards call left equal) : call.enclosing? Expr.isTransparent = some guard := by
  have right {s : Site} {op : BinaryOp} (h : s.IsRightOf guard op left) :
      s.enclosing? Expr.isTransparent = some guard := by
    obtain ⟨r, sp, node, rfl⟩ := h
    rw [Site.around_bare]
    exact Site.enclosing_child node.symm (by rw [node]; rfl)
  cases equal with
  | true => exact right h
  | false =>
    obtain ⟨denial, ⟨e, sp, node, rfl⟩, isRight⟩ := h
    rw [Site.around_bare, Site.around_negated node, right isRight]

/-! ## Tests for null -/

namespace Expr
variable {resolve : Resolver} {e x : Expr} {equal : Bool} {name : String}

theorem isNull_of_name (named : qualifiedName? resolve x = some name) : x.bare.isNull = false := by
  rw [← qualifiedName_bare] at named
  cases node : x.bare with
  | literal =>
    rw [node] at named
    cases named
  | _ => rfl

/-- What has a name is compared with null just when a comparison with null says so. -/
theorem comparedWithNull_iff :
    (∃ x, e.comparedWithNull? equal = some x ∧ qualifiedName? resolve x = some name) ↔
    ∃ x, e.ComparesWithNull (if equal then .eq else .ne) x ∧
      qualifiedName? resolve x = some name := by
  constructor
  · rintro ⟨x, compared, named⟩
    unfold comparedWithNull? at compared
    split at compared
    next op l r sp node =>
      obtain ⟨rfl, inner⟩ := Option.ite_none_right_eq_some.mp compared
      by_cases null : r.bare.isNull = true
      · rw [if_pos null] at inner
        obtain rfl := Option.some.inj inner
        rw [qualifiedName_bare] at named
        exact ⟨l, ⟨l, r, sp, node, .inl ⟨rfl, null⟩⟩, named⟩
      · rw [if_neg null] at inner
        obtain ⟨leftNull, same⟩ := Option.ite_none_right_eq_some.mp inner
        obtain rfl := Option.some.inj same
        rw [qualifiedName_bare] at named
        exact ⟨r, ⟨l, r, sp, node, .inr ⟨rfl, leftNull⟩⟩, named⟩
    next => cases compared
  · rintro ⟨x, ⟨l, r, sp, node, side⟩, named⟩
    refine ⟨x.bare, ?_, by rw [qualifiedName_bare, named]⟩
    unfold comparedWithNull?
    rcases side with ⟨rfl, null⟩ | ⟨rfl, null⟩
    · simp [node, null]
    · simp [node, null, isNull_of_name named]

/-- An expression is no equality with null and no inequality at once. -/
theorem comparedWithNull_of_ne (compared : e.comparedWithNull? false = some x) :
    e.comparedWithNull? true = none := by
  unfold comparedWithNull? at compared ⊢
  split at compared
  next op l r sp node =>
    obtain ⟨rfl, -⟩ := Option.ite_none_right_eq_some.mp compared
    simp
  next => cases compared

theorem nullTest_eq_some_iff : e.nullTest? = some (x, equal) ↔
    e.denied.1.comparedWithNull? (equal == e.denied.2) = some x := by
  unfold nullTest?
  constructor
  · intro h
    split at h
    next y compared =>
      cases h
      rw [beq_self_eq_true, compared]
    next =>
      obtain ⟨y, compared, same⟩ := Option.map_eq_some_iff.mp h
      cases same
      simpa using compared
  · intro compared
    cases same : equal == e.denied.2 with
    | true =>
      rw [same] at compared
      simp [compared, eq_of_beq same]
    | false =>
      rw [same] at compared
      simp only [comparedWithNull_of_ne compared, compared, Option.map_some, Option.some.injEq,
        Prod.mk.injEq, true_and]
      exact (Bool.eq_not_of_ne (by simpa using same)).symm

theorem comparesWithNull_bare {op : BinaryOp} :
    e.bare.ComparesWithNull op x ↔ e.ComparesWithNull op x := by
  rw [ComparesWithNull, ComparesWithNull, bare_bare]

/-- A test for null is a comparison behind an optional negation. -/
theorem testsNull_iff : e.TestsNull equal x ↔
    e.denied.1.ComparesWithNull (if equal == e.denied.2 then .eq else .ne) x := by
  by_cases negated : ∃ o sp, e.bare = .prefixed .not o sp
  · obtain ⟨o, sp, node⟩ := negated
    have noComparison (op : BinaryOp) : ¬ e.ComparesWithNull op x := by
      rintro ⟨l, r, sp', other, -⟩
      rw [node] at other
      cases other
    have denied : e.denied = (o.bare, false) := by
      rw [Expr.denied, node]
    rw [denied, comparesWithNull_bare, TestsNull, or_iff_right (noComparison _)]
    constructor
    · rintro ⟨o', sp', same, compared⟩
      rw [node] at same
      cases same
      cases equal <;> exact compared
    · intro compared
      exact ⟨o, sp, node, by cases equal <;> exact compared⟩
  · have denied : e.denied = (e.bare, true) := by
      unfold Expr.denied
      split
      next o sp node => exact absurd ⟨o, sp, node⟩ negated
      next => rfl
    rw [denied, comparesWithNull_bare, TestsNull, or_iff_left]
    · cases equal <;> exact Iff.rfl
    · rintro ⟨o, sp, node, -⟩
      exact negated ⟨o, sp, node⟩

/-- The recognised tests of what has a name are the tests for null. -/
theorem nullTest_named_iff :
    (∃ x, e.nullTest? = some (x, equal) ∧ qualifiedName? resolve x = some name) ↔
    ∃ x, e.TestsNull equal x ∧ qualifiedName? resolve x = some name := by
  simp only [nullTest_eq_some_iff, testsNull_iff]
  exact comparedWithNull_iff

end Expr

namespace Detector
variable {d : Detector} {m : Match} {call guard : Site} {q a : Expr} {equal : Bool}

/-! ## The place -/

/-- The place of a guarded call takes in a comparison of its operands in front of the guard. -/
theorem isPlaceOf_placeOf (solid : guard.node.isParen = false) {name : String}
    (named : qualifiedName? d.resolve q = some name) {argument : Site}
    (stripped : argument.node = a.bare) :
    d.IsPlaceOf (d.placeOf guard equal name argument) guard q a equal := by
  have argumentName : d.nameOf argument = qualifiedName? d.resolve a := by
    rw [nameOf, stripped, qualifiedName_bare]
  by_cases compared : ∃ outer, d.IsCompared guard outer q a equal
  · left
    obtain ⟨outer, left, right, l, r, sp, first, second, node, firstName, secondName, names⟩ :=
      compared
    obtain rfl : name = first := Option.some.inj (named.symm.trans firstName)
    obtain ⟨outerSpan, above, frames, rfl⟩ := (Site.isRightOf_iff solid).mp right
    have compares : d.comparesNames equal name second left = true :=
      comparesNames_iff.mpr ⟨l, r, sp, node, names⟩
    have place : d.placeOf guard equal name argument =
        ⟨.binary (if equal then .or else .and) left guard.wrapped.node outerSpan, above⟩ := by
      simp only [placeOf, argumentName, secondName, widen, frames, compares, decide_true,
        Bool.and_self, if_true]
    rw [place]
    exact ⟨left, right, l, r, sp, name, second, node, named, secondName, names⟩
  · right
    refine ⟨?_, fun outer there => compared ⟨outer, there⟩⟩
    rcases d.placeOf_cases guard equal name argument with stays | ⟨second, secondName, widened⟩
    · exact stays
    · rcases d.widen_cases guard equal name second with narrow |
        ⟨op, left, sp, above, frames, rfl, compares, -⟩
      · exact widened.trans narrow
      · obtain ⟨l, r, sp', node, names⟩ := comparesNames_iff.mp compares
        refine (compared ⟨_, left, (Site.isRightOf_iff solid).mpr ⟨sp, above, frames, rfl⟩, l, r,
          sp', name, second, node, named, ?_, names⟩).elim
        rw [← argumentName, secondName]

/-! ## The call -/

/-- What is affirmed has no negation in front of it. -/
theorem unwrapNegation_of_affirmed {s : Site} (affirmed : (unwrapNegation s).2 = true) :
    (unwrapNegation s).1 = s.bare := by
  unfold unwrapNegation at affirmed ⊢
  simp only at affirmed ⊢
  split at affirmed
  next => cases affirmed
  next => rfl

theorem unwrapNegation_of_isCall (isCall : call.node.isCall = true) :
    unwrapNegation call = (call, true) := by
  have solid := Site.bare_of_solid (Expr.isParen_of_isCall isCall)
  obtain ⟨e, above⟩ := call
  cases e with
  | invoke | call => simp only [unwrapNegation, solid]
  | _ => cases isCall

/-- What is recognised as a guarded call is one, of the call on the right. -/
theorem isGuarded_of_guardedCall (standard : d.compare = nullComparison) {check callee : Site}
    (solid : callee.node.isParen = false) (guards : guard.Guards callee check.node equal)
    (h : d.guardedCall? guard check callee equal = some m) :
    OperandsOf m.left m.right callee ∧ ∃ q a, d.IsGuarded callee guard q a equal := by
  obtain ⟨found, calls, affirmed, test, tests, differs, name, checked, qualifier, rfl⟩ :=
    guardedCall_iff.mp h
  obtain ⟨q, a, sp, node, notSelf, rfl⟩ := equalityCall_iff.mp calls
  have here : (unwrapNegation callee).1 = callee :=
    (unwrapNegation_of_affirmed affirmed).trans (Site.bare_of_solid solid)
  rw [here] at node
  rw [standard] at tests
  have opposite : test.equal = !equal := by
    revert differs
    cases test.equal <;> cases equal <;> simp
  obtain ⟨x, testsNull, named⟩ := Expr.nullTest_named_iff.mp
    ⟨test.compared.node, nullTest_iff.mpr ⟨test, tests, rfl, opposite⟩, checked⟩
  have qualifierName : qualifiedName? d.resolve q = some name := by
    rw [← qualifier, nameOf, Site.node_bare, qualifiedName_bare]
    rfl
  refine ⟨⟨q, d.method, a, sp, node, ?_, ?_⟩, q, a, ⟨sp, node⟩, notSelf, check.node, x, name,
    guards, testsNull, named, qualifierName⟩
  · rw [here]
  · rw [here]

/-- A guarded call around a call has the shape of one. -/
theorem isGuarded_of_binary (standard : d.compare = nullComparison)
    (around : call.enclosing? Expr.isTransparent = some guard) (isCall : call.node.isCall = true)
    (h : d.binary? guard = some m) : ∃ q a equal, d.IsGuarded call guard q a equal := by
  have operands := (binary_operandsOf standard around isCall h).1
  -- the operands of the match tell which call was recognised
  have isCallee {callee : Site} (recognised : OperandsOf m.left m.right callee) : callee = call :=
    Option.some.inj (recognised.enclosing.1.symm.trans operands.enclosing.1)
  rcases binary_iff.mp h with
    ⟨l, r, sp, node, found⟩ | ⟨l, r, sp, e, notSpan, node, negation, found⟩
  · have guards : guard.Guards (guard.down (.rightOf .and l sp) r).bare l true :=
      ⟨r, sp, node, rfl⟩
    obtain ⟨recognised, q, a, guarded⟩ := isGuarded_of_guardedCall standard
      (Site.isParen_bare _) guards found
    rw [isCallee recognised] at guarded
    exact ⟨q, a, true, guarded⟩
  · have guards : guard.Guards ((guard.down (.rightOf .or l sp) r).bare.down
        (.operandOf .not notSpan) e).bare l false :=
      ⟨_, ⟨e, notSpan, negation, rfl⟩, r, sp, node, rfl⟩
    obtain ⟨recognised, q, a, guarded⟩ := isGuarded_of_guardedCall standard
      (Site.isParen_bare _) guards found
    rw [isCallee recognised] at guarded
    exact ⟨q, a, false, guarded⟩

/-- A call in the shape of a guarded call is recognised in its guard. -/
theorem binary_of_isGuarded (standard : d.compare = nullComparison)
    (h : d.IsGuarded call guard q a equal) : ∃ name left right,
      qualifiedName? d.resolve q = some name ∧ right.node = a.bare ∧
      d.binary? guard =
        some ⟨d.placeOf guard equal name right, left, right, !equal, .binary⟩ := by
  obtain ⟨⟨sp, node⟩, notSelf, left, x, name, guards, testsNull, named, qualifierName⟩ := h
  have alone : unwrapNegation call = (call, true) := unwrapNegation_of_isCall (by rw [node]; rfl)
  let qualifier := (call.down (.receiverOf d.method [a] sp) q).bare
  let argument := (call.down (.argOfInvoke q d.method [] [] sp) a).bare
  have calls : equalityCall? d.method call = some ⟨qualifier, argument, true⟩ :=
    equalityCall_iff.mpr ⟨q, a, sp, by rw [alone, node], notSelf, by rw [alone]⟩
  obtain ⟨y, tested, comparedName⟩ := Expr.nullTest_named_iff.mpr ⟨x, testsNull, named⟩
  have guarded (check : Site) (same : check.node = left) :
      d.guardedCall? guard check call equal =
        some ⟨d.placeOf guard equal name argument, qualifier, argument, !equal, .binary⟩ := by
    rw [← same] at tested
    obtain ⟨test, tests, rfl, opposite⟩ := nullTest_iff.mp tested
    refine guardedCall_iff.mpr ⟨_, calls, rfl, test, by rw [standard, tests], ?_, name, comparedName,
      ?_, rfl⟩
    · rw [opposite]
      cases equal <;> decide
    · rw [nameOf, Site.node_bare, qualifiedName_bare]
      exact qualifierName
  refine ⟨name, qualifier, argument, qualifierName, Site.node_bare _, ?_⟩
  cases equal with
  | true =>
    obtain ⟨r, guardSpan, operator, rfl⟩ := guards
    exact binary_iff.mpr (.inl ⟨left, r, guardSpan, operator, guarded _ rfl⟩)
  | false =>
    obtain ⟨_, ⟨e, notSpan, negation, rfl⟩, r, guardSpan, operator, rfl⟩ := guards
    exact binary_iff.mpr (.inr ⟨left, r, guardSpan, e, notSpan, operator, negation, guarded _ rfl⟩)

/-- The match of a call in the shape of a guarded call. -/
theorem analyze_of_isGuarded (standard : d.compare = nullComparison) (applies : d.applicable = true)
    (h : d.IsGuarded call guard q a equal) : ∃ m, d.analyze? call = some m ∧ m.form = .binary ∧
      m.negated = !equal ∧ d.IsPlaceOf m.span guard q a equal := by
  obtain ⟨name, left, right, named, stripped, found⟩ := binary_of_isGuarded standard h
  obtain ⟨⟨sp, node⟩, notSelf, _, _, _, guards, -⟩ := h
  obtain ⟨isBinary, -⟩ := binary_place found
  have accepted : d.inContext? call guard = d.binary? guard := by
    unfold inContext?
    cases operator : guard.node with
    | binary => rw [found]
    | _ =>
      rw [operator] at isBinary
      cases isBinary
  refine ⟨⟨d.placeOf guard equal name right, left, right, !equal, .binary⟩, ?_, rfl, rfl,
    isPlaceOf_placeOf ?_ named stripped⟩
  · rw [analyze_of_enclosing applies node notSelf guards.enclosing, accepted, found]
  · exact Expr.isParen_of_isPlace (Expr.isPlace_of_isBinary isBinary)

theorem applicable_of_analyze (h : d.analyze? call = some m) : d.applicable = true := by
  unfold analyze? at h
  by_contra closed
  simp [closed] at h

/-- A call has a match of the binary form just when it has the shape of a guarded call. The match
then has the qualifier and the argument of the call for operands, is negated for a disjunction, and
takes the place of the guard or, with a comparison of the operands in front of it, of the operator
around both. -/
theorem binary_form_iff (standard : d.compare = nullComparison) (call : Site) :
    ((∃ m, d.analyze? call = some m ∧ m.form = .binary) ↔
      d.applicable = true ∧ ∃ guard q a equal, d.IsGuarded call guard q a equal) ∧
    ∀ m, d.analyze? call = some m → m.form = .binary →
      call.receiver?.map Site.bare = some m.left ∧
      call.soleArgument?.map Site.bare = some m.right ∧
      ∀ guard q a equal, d.IsGuarded call guard q a equal →
        m.negated = !equal ∧ d.IsPlaceOf m.span guard q a equal := by
  refine ⟨⟨?_, ?_⟩, ?_⟩
  · rintro ⟨m, found, form⟩
    have isCall := isCall_of_calledName (calledName_of_analyze found)
    refine ⟨applicable_of_analyze found, ?_⟩
    rcases analyze_cases found with direct | ⟨guard, around, binary | conditional⟩
    · rw [(form_iff isCall found).mpr (by rw [(direct_place direct).1, isCall])] at form
      cases form
    · exact ⟨guard, isGuarded_of_binary standard around isCall binary⟩
    · obtain ⟨_, _, _, _, -, _, -, _, -, _, -, -, _, -, _, -, -, -, rfl⟩ :=
        conditional_iff.mp conditional
      cases form
  · rintro ⟨applies, guard, q, a, equal, guarded⟩
    obtain ⟨m, found, form, -⟩ := analyze_of_isGuarded standard applies guarded
    exact ⟨m, found, form⟩
  · intro m found form
    have isCall := isCall_of_calledName (calledName_of_analyze found)
    have concerns := concerns_of_analyze standard isCall found
    refine ⟨concerns.qualifier, concerns.argument, fun guard q a equal guarded => ?_⟩
    obtain ⟨m', found', -, negated, place⟩ :=
      analyze_of_isGuarded standard (applicable_of_analyze found) guarded
    obtain rfl : m = m' := Option.some.inj (found.symm.trans found')
    exact ⟨negated, place⟩

/-- A guarded call behind a comparison of its operands is recognised by its shape, and the operator
around both is its place. -/
theorem binary_form_iff_compared :
    let s : Scope := ⟨["a", "b"], [], []⟩
    let d : Detector := ⟨s.resolve, true, "equals", nullComparison, true⟩
    ∃ t call guard outer q a m, Tree.read "a == b || a != null && a.equals(b)" = .ok t ∧
      t.calls = [call] ∧ d.IsGuarded call guard q a true ∧ d.IsCompared guard outer q a true ∧
      d.analyze? call = some m ∧ m.form = .binary ∧ m.negated = false ∧
      d.IsCompared guard m.span q a true := by
  intro s d
  let test : Expr :=
    .binary .ne (.name "a" (some ⟨10, 11⟩)) (.literal .null "null" (some ⟨15, 19⟩)) (some ⟨10, 19⟩)
  let called : Expr :=
    .invoke (.name "a" (some ⟨23, 24⟩)) "equals" [.name "b" (some ⟨32, 33⟩)] (some ⟨23, 34⟩)
  let identity : Expr :=
    .binary .eq (.name "a" (some ⟨0, 1⟩)) (.name "b" (some ⟨5, 6⟩)) (some ⟨0, 6⟩)
  let conjunction : Expr := .binary .and test called (some ⟨10, 34⟩)
  let whole : Expr := .binary .or identity conjunction (some ⟨0, 34⟩)
  let guard : Site := ⟨conjunction, [.rightOf .or identity (some ⟨0, 34⟩)]⟩
  let call : Site := guard.down (.rightOf .and test (some ⟨10, 34⟩)) called
  have read : Tree.read "a == b || a != null && a.equals(b)" =
      .ok ⟨whole, some "a == b || a != null && a.equals(b)"⟩ := rfl
  have guarded : d.IsGuarded call guard (.name "a" (some ⟨23, 24⟩)) (.name "b" (some ⟨32, 33⟩))
      true :=
    ⟨⟨_, rfl⟩, rfl, test, _, "a", ⟨called, _, rfl, rfl⟩, .inl ⟨_, _, _, rfl, .inl ⟨rfl, rfl⟩⟩, rfl,
      rfl⟩
  have compared : d.IsCompared guard ⟨whole, []⟩ (.name "a" (some ⟨23, 24⟩))
      (.name "b" (some ⟨32, 33⟩)) true :=
    ⟨identity, ⟨conjunction, _, rfl, rfl⟩, _, _, _, "a", "b", rfl, rfl, rfl, .inl ⟨rfl, rfl⟩⟩
  obtain ⟨shape, details⟩ := binary_form_iff (d := d) rfl call
  obtain ⟨m, found, form⟩ := shape.mpr ⟨rfl, guard, _, _, true, guarded⟩
  obtain ⟨-, -, named⟩ := details m found form
  obtain ⟨negated, place⟩ := named guard _ _ true guarded
  exact ⟨_, call, guard, _, _, _, m, read, rfl, guarded, compared, found, form, negated,
    place.resolve_right fun narrow => narrow.2 _ compared⟩

end Detector

end NullSafeEq
