import NullSafeEq.Proofs.Meaning.Parts

/-!
# The exact idioms keep their meaning

A ternary that was recognised, and a guarded call behind an identity comparison of its operands,
evaluate to what the helper call in their place evaluates to.
-/
namespace NullSafeEq

namespace Environment
variable {Object : Type} [DecidableEq Object]

/-- A test for null that chooses between a test for null and a call of the method. -/
theorem choose_outcome (env : Environment Object) (p q : ValuePath) (tested equal : Bool) :
    ((env.valueOf p).compared tested .null).choose
      (if tested then (env.valueOf q).compared equal .null
        else (env.methodCall (env.valueOf p) (env.valueOf q)).polar equal)
      (if tested then (env.methodCall (env.valueOf p) (env.valueOf q)).polar equal
        else (env.valueOf q).compared equal .null) =
      (env.helperCall (env.valueOf p) (env.valueOf q)).polar equal := by
  rcases env.valueOf_cases p with left | ⟨x, left⟩
  · rw [left]
    cases equal <;> rfl
  rcases env.valueOf_cases q with right | ⟨y, right⟩
  · rw [left, right]
    cases x <;> cases equal <;> cases tested <;> rfl
  rw [left, right]
  cases x with
  | null => cases y <;> cases equal <;> cases tested <;> rfl
  | object o =>
    cases y with
    | null => cases equal <;> cases tested <;> rfl
    | object o' =>
      -- an object equals itself, so the identity test of the helper adds nothing
      by_cases same : o' = o
      · subst same
        cases equal <;> cases tested <;>
          simp [methodCall, helperCall, env.holds_self, Outcome.choose, Outcome.compared]
      · cases equal <;> cases tested <;>
          simp [methodCall, helperCall, same, Outcome.choose, Outcome.compared]

/-- An identity comparison in front of a guarded call. -/
theorem shortCircuit_outcome (env : Environment Object) (p q : ValuePath) (equal : Bool) :
    ((env.valueOf p).compared equal (env.valueOf q)).shortCircuit equal
      (((env.valueOf p).compared (!equal) .null).shortCircuit (!equal)
        ((env.methodCall (env.valueOf p) (env.valueOf q)).polar equal)) =
      (env.helperCall (env.valueOf p) (env.valueOf q)).polar equal := by
  rcases env.valueOf_cases p with left | ⟨x, left⟩
  · rw [left]
    cases equal <;> rfl
  rcases env.valueOf_cases q with right | ⟨y, right⟩
  · rw [left, right]
    cases x <;> cases equal <;> rfl
  rw [left, right]
  cases x with
  | null => cases y <;> cases equal <;> rfl
  | object o =>
    cases y with
    | null => cases equal <;> rfl
    | object o' =>
      by_cases same : o' = o
      · subst same
        cases equal <;>
          simp [helperCall, Outcome.shortCircuit, Outcome.compared, Outcome.polar, Outcome.negated]
      · cases equal <;>
          simp [methodCall, helperCall, same, Ne.symm same, Outcome.shortCircuit,
            Outcome.compared, Outcome.polar, Outcome.negated]

/-- A helper call on paths is true or false unless it throws. -/
theorem helperCall_cases (env : Environment Object) (p q : ValuePath) (equal : Bool) :
    (∃ b, (env.helperCall (env.valueOf p) (env.valueOf q)).polar equal = .truth b) ∨
      (env.helperCall (env.valueOf p) (env.valueOf q)).polar equal = .thrown := by
  rcases env.valueOf_cases p with left | ⟨x, left⟩
  · rw [left]
    cases equal <;> exact .inr rfl
  rcases env.valueOf_cases q with right | ⟨y, right⟩
  · rw [left, right]
    cases x <;> cases equal <;> exact .inr rfl
  rw [left, right]
  cases x <;> cases equal <;> exact .inl ⟨_, rfl⟩

end Environment

/-! ## The parts of the idioms, without boxing -/

section
variable {Object : Type} [DecidableEq Object] (env : Environment Object) (method : String)
variable (helper : DottedName) {s : Site}

theorem eval_bare (e : Expr) : env.eval method helper e.bare = env.eval method helper e := by
  simp only [env.eval_eq_evalWith, Environment.evalWith_bare]

theorem eval_site_bare (s : Site) :
    env.eval method helper s.bare.node = env.eval method helper s.node := by
  simp only [env.eval_eq_evalWith, Environment.evalWith_site_bare]

/-- A test for null. -/
theorem eval_nullCheck {test : NullCheck} (h : nullCheck? nullComparison s = some test) :
    env.eval method helper s.node =
      (env.eval method helper test.compared.node).compared test.equal .null := by
  simp only [env.eval_eq_evalWith, Environment.evalWith_nullCheck h]

/-- A call of the equality method. -/
theorem eval_equalityCall {found : EqualityCall} (h : equalityCall? method s = some found) :
    env.eval method helper s.node =
      (env.methodCall (env.eval method helper found.qualifier.node)
        (env.eval method helper found.argument.node)).polar found.equal := by
  simp only [env.eval_eq_evalWith, Environment.evalWith_equalityCall h, id]

end

section
variable {Object : Type} [DecidableEq Object] (env : Environment Object) (helper : DottedName)
variable {d : Detector} {s : Site} {m : Match}

/-- The replacement of a match. -/
theorem eval_rewritten (method : String) (m : Match) : env.eval method helper (m.rewritten helper) =
    (env.helperCall (env.eval method helper m.left.node)
      (env.eval method helper m.right.node)).polar (!m.negated) := by
  simp only [env.eval_eq_evalWith, Environment.evalWith_rewritten, id]

/-- Well-formed expressions with the same name evaluate to what one path denotes. -/
theorem eval_of_name (method : String) {name : String} {a b : Expr} (wf : a.WellFormed)
    (wf' : b.WellFormed) (named : qualifiedName? d.resolve a = some name)
    (named' : qualifiedName? d.resolve b = some name) :
    ∃ p, env.eval method helper a = env.valueOf p ∧ env.eval method helper b = env.valueOf p := by
  simp only [env.eval_eq_evalWith]
  exact env.evalWith_of_name id helper method wf wf' named named'

/-- A guarded call is a short-circuit operator on its check and its call. -/
theorem eval_binary (h : d.binary? s = some m) : ∃ check callee equal,
    d.guardedCall? s check callee equal = some m ∧ check.top = s.top ∧ callee.top = s.top ∧
    env.eval d.method helper s.node =
      (env.eval d.method helper check.node).shortCircuit (!equal)
        ((env.eval d.method helper callee.node).polar equal) := by
  simp only [env.eval_eq_evalWith]
  exact env.evalWith_binary id helper h

/-- The guard of a guarded call: a test for null, then a call. -/
theorem eval_guard {guard check callee : Site} {equal : Bool} {found : EqualityCall}
    {test : NullCheck} (calls : equalityCall? d.method callee = some found)
    (plain : found.equal = true) (tests : nullCheck? nullComparison check = some test)
    (differs : test.equal ≠ equal)
    (split : env.eval d.method helper guard.node =
      (env.eval d.method helper check.node).shortCircuit (!equal)
        ((env.eval d.method helper callee.node).polar equal)) :
    env.eval d.method helper guard.node =
      ((env.eval d.method helper test.compared.node).compared (!equal) .null).shortCircuit (!equal)
        ((env.methodCall (env.eval d.method helper found.qualifier.node)
          (env.eval d.method helper found.argument.node)).polar equal) := by
  simp only [env.eval_eq_evalWith] at split ⊢
  exact env.evalWith_guard id helper calls plain tests differs split

end

/-! ## Matches -/

/-- A guarded call whose place lies above the guard, for it takes in an identity comparison of the
operands in front of the guard. -/
def Match.IsWidened (d : Detector) (m : Match) : Prop :=
  ∃ guard, d.binary? guard = some m ∧ m.span.isAbove guard = true

section
variable {Object : Type} [DecidableEq Object] (env : Environment Object) (helper : DottedName)
variable {d : Detector} {m : Match}

/-- The ternary evaluates to the helper call on two paths. -/
theorem eval_conditional {s : Site} (standard : d.compare = nullComparison)
    (wf : s.top.WellFormed) (h : d.conditional? s = some m) :
    ∃ p q, env.eval d.method helper m.left.node = env.valueOf p ∧
      env.eval d.method helper m.right.node = env.valueOf q ∧
      env.eval d.method helper m.span.node =
        (env.helperCall (env.valueOf p) (env.valueOf q)).polar (!m.negated) := by
  obtain ⟨t, y, n, sp, same, test, tests, other, others, found, calls, alike, tested, named,
    argument, otherNamed, argumentNamed, qualifierNamed, rfl⟩ := Detector.conditional_iff.mp h
  rw [standard] at tests others
  have testTop : test.compared.top = s.top := by
    rw [nullCheck_top tests, Site.top_down (f := .testOf y n sp) same.symm]
  have yesTop : (s.down (.yesOf t n sp) y).top = s.top := Site.top_down same.symm
  have noTop : (s.down (.noOf t y sp) n).top = s.top := Site.top_down same.symm
  have otherTop : other.compared.top = s.top := by
    rw [nullCheck_top others, Site.top_bare]
    split
    · exact yesTop
    · exact noTop
  have callTop : found.qualifier.top = s.top ∧ found.argument.top = s.top := by
    have branch : (if test.equal then s.down (.noOf t y sp) n
        else s.down (.yesOf t n sp) y).bare.top = s.top := by
      rw [Site.top_bare]
      split
      · exact noTop
      · exact yesTop
    exact ⟨(equalityCall_top calls).1.trans branch, (equalityCall_top calls).2.trans branch⟩
  obtain ⟨p, qualifier, compared⟩ := eval_of_name env helper d.method
    (Site.wellFormed (callTop.1 ▸ wf)) (Site.wellFormed (testTop ▸ wf)) qualifierNamed named
  obtain ⟨q, argument, otherCompared⟩ := eval_of_name env helper d.method
    (Site.wellFormed (callTop.2 ▸ wf)) (Site.wellFormed (otherTop ▸ wf)) argumentNamed otherNamed
  refine ⟨p, q, qualifier, argument, ?_⟩
  have testEval := eval_nullCheck env d.method helper tests
  have otherEval := eval_nullCheck env d.method helper others
  have callEval := eval_equalityCall env d.method helper calls
  have outcome := env.choose_outcome p q test.equal found.equal
  rw [eval_site_bare] at otherEval callEval
  rw [qualifier, argument] at callEval
  rw [otherCompared, alike] at otherEval
  rw [compared] at testEval
  show env.eval d.method helper s.node = _
  rw [same, Environment.eval, Bool.not_not, ← outcome]
  cases polarity : test.equal with
  | true =>
    rw [polarity] at testEval otherEval callEval
    exact congr (congr (congrArg Outcome.choose testEval) otherEval) callEval
  | false =>
    rw [polarity] at testEval otherEval callEval
    exact congr (congr (congrArg Outcome.choose testEval) callEval) otherEval

theorem eval_wrapBelow (method : String) (e : Expr) (above : List Frame) :
    env.eval method helper (Site.wrapBelow e above).node = env.eval method helper e := by
  fun_induction Site.wrapBelow e above with
  | case1 e sp above ih => rw [ih, Environment.eval]
  | case2 => rfl

/-- An identity comparison of the names of two expressions compares what they denote. -/
theorem eval_comparesNames {equal : Bool} {first second : String} {e a b : Expr}
    (wf : e.WellFormed) (wfA : a.WellFormed) (wfB : b.WellFormed)
    (compares : d.comparesNames equal first second e = true)
    (named : qualifiedName? d.resolve a = some first)
    (named' : qualifiedName? d.resolve b = some second) : ∃ p q,
      env.eval d.method helper a = env.valueOf p ∧ env.eval d.method helper b = env.valueOf q ∧
      env.eval d.method helper e = (env.valueOf p).compared equal (env.valueOf q) := by
  obtain ⟨l, r, sp, same, names⟩ := Detector.comparesNames_iff.mp compares
  have inner := wf.bare
  rw [same] at inner
  have wfL : l.WellFormed := inner.child List.mem_cons_self
  have wfR : r.WellFormed := inner.child (List.mem_cons_of_mem _ List.mem_cons_self)
  have whole : env.eval d.method helper e =
      (env.eval d.method helper l).compared equal (env.eval d.method helper r) := by
    rw [← eval_bare, same]
    simp only [env.eval_eq_evalWith, Environment.evalWith_comparison]
  rcases names with ⟨leftNamed, rightNamed⟩ | ⟨leftNamed, rightNamed⟩
  · obtain ⟨p, first, left⟩ := eval_of_name env helper d.method wfA wfL named leftNamed
    obtain ⟨q, second, right⟩ := eval_of_name env helper d.method wfB wfR named' rightNamed
    exact ⟨p, q, first, second, by rw [whole, left, right]⟩
  · obtain ⟨p, first, right⟩ := eval_of_name env helper d.method wfA wfR named rightNamed
    obtain ⟨q, second, left⟩ := eval_of_name env helper d.method wfB wfL named' leftNamed
    exact ⟨p, q, first, second, by rw [whole, left, right, Outcome.compared_comm]⟩

/-- A guarded call behind an identity comparison evaluates to the helper call on two paths. -/
theorem eval_widened {s : Site} (standard : d.compare = nullComparison) (wf : s.top.WellFormed)
    (h : d.binary? s = some m) (widened : m.span.isAbove s = true) :
    ∃ p q, env.eval d.method helper m.left.node = env.valueOf p ∧
      env.eval d.method helper m.right.node = env.valueOf q ∧
      env.eval d.method helper m.span.node =
        (env.helperCall (env.valueOf p) (env.valueOf q)).polar (!m.negated) := by
  obtain ⟨check, callee, equal, guarded, checkTop, calleeTop, split⟩ := eval_binary env helper h
  obtain ⟨found, calls, plain, test, tests, differs, checked, testNamed, qualifierNamed, rfl⟩ :=
    Detector.guardedCall_iff.mp guarded
  rw [standard] at tests
  simp only [Bool.not_not] at widened ⊢
  obtain ⟨qualifierTop, argumentTop⟩ := equalityCall_top calls
  have wfQualifier := Site.wellFormed ((qualifierTop.trans calleeTop).symm ▸ wf)
  have wfArgument := Site.wellFormed ((argumentTop.trans calleeTop).symm ▸ wf)
  have wfCompared := Site.wellFormed (((nullCheck_top tests).trans checkTop).symm ▸ wf)
  have guard := eval_guard env helper calls plain tests differs split
  obtain stays | ⟨name, argumentNamed, place⟩ := d.placeOf_cases s equal checked found.argument
  · rw [stays] at widened
    exact ((isAbove_iff.mp widened).2 rfl).elim
  rw [place] at widened ⊢
  have wfPlace := Site.wellFormed ((d.widen_top s equal checked name).symm ▸ wf)
  obtain stays | ⟨_, left, sp, above, -, rfl, front, same⟩ := d.widen_cases s equal checked name
  · rw [stays] at widened
    exact ((isAbove_iff.mp widened).2 rfl).elim
  rw [same] at wfPlace ⊢
  obtain ⟨p, q, qualifier, argument, comparison⟩ := eval_comparesNames env helper
    (wfPlace.child List.mem_cons_self) wfQualifier wfArgument front qualifierNamed argumentNamed
  obtain ⟨p', qualifier', compared⟩ :=
    eval_of_name env helper d.method wfQualifier wfCompared qualifierNamed testNamed
  rw [compared, ← qualifier', qualifier, argument] at guard
  refine ⟨p, q, qualifier, argument, ?_⟩
  have inner : env.eval d.method helper s.wrapped.node = env.eval d.method helper s.node :=
    eval_wrapBelow env helper d.method s.node s.above
  rw [← env.shortCircuit_outcome, ← comparison, ← guard, ← inner]
  cases equal with
  | true => exact Environment.eval.eq_def env d.method helper (.binary .or left s.wrapped.node sp)
  | false => exact Environment.eval.eq_def env d.method helper (.binary .and left s.wrapped.node sp)

/-- In every tree that was read, an exact idiom evaluates to what the helper call in its place
evaluates to, which is a truth value unless it throws. -/
theorem eval_exact_idiom {text : String} {t : Tree} (read : Tree.read text = .ok t)
    (standard : d.compare = nullComparison) (member : m ∈ d.scan t)
    (exact : m.form = .conditional ∨ m.IsWidened d) :
    env.eval d.method helper m.span.node = env.eval d.method helper (m.rewritten helper) ∧
      ((∃ b, env.eval d.method helper m.span.node = .truth b) ∨
        env.eval d.method helper m.span.node = .thrown) := by
  have inside := Detector.in_of_mem_scan member
  have wf := wellFormed_of_read read
  have paths : ∃ p q, env.eval d.method helper m.left.node = env.valueOf p ∧
      env.eval d.method helper m.right.node = env.valueOf q ∧
      env.eval d.method helper m.span.node =
        (env.helperCall (env.valueOf p) (env.valueOf q)).polar (!m.negated) := by
    rcases exact with isConditional | ⟨guard, binary, above⟩
    · obtain ⟨call, listed, found⟩ := Detector.analyze_of_mem_scan member
      obtain ⟨context, conditional⟩ := Detector.conditional_of_form found isConditional
      have top : context.top = t.root :=
        (Detector.conditional_in conditional).span.symm.trans inside.span
      exact eval_conditional env helper standard (top ▸ wf) conditional
    · have top : guard.top = t.root := (Detector.binary_in binary).span.symm.trans inside.span
      exact eval_widened env helper standard (top ▸ wf) binary above
  obtain ⟨p, q, left, right, whole⟩ := paths
  rw [eval_rewritten, left, right, whole]
  exact ⟨rfl, env.helperCall_cases p q _⟩

end

/-- `a != b && (a == null || !a.equals(b))` where objects are numbers and equal only to themselves. -/
theorem eval_exact_idiom_dual :
    let env : Environment Nat := ⟨fun p => some (if p = .name "a" then .null else .object 1),
      fun o r => r = .object o, fun _ => decide_eq_true rfl, fun _ => .thrown⟩
    let d : Detector := ⟨fun _ => .value, true, "equals", nullComparison, true⟩
    let helper := DottedName.plain "same"
    ∃ t m, Tree.read "a != b && (a == null || !a.equals(b))" = .ok t ∧ d.scan t = [m] ∧
      m.span.node = t.root ∧
      env.eval "equals" helper t.root = env.eval "equals" helper (m.rewritten helper) := by
  intro env d helper
  let front := Expr.binary .ne (.name "a" (some ⟨0, 1⟩)) (.name "b" (some ⟨5, 6⟩)) (some ⟨0, 6⟩)
  let guard := Expr.binary .or
    (.binary .eq (.name "a" (some ⟨11, 12⟩)) (.literal .null "null" (some ⟨16, 20⟩))
      (some ⟨11, 20⟩))
    (.prefixed .not (.invoke (.name "a" (some ⟨25, 26⟩)) "equals" [.name "b" (some ⟨34, 35⟩)]
      (some ⟨25, 36⟩)) (some ⟨24, 36⟩)) (some ⟨11, 36⟩)
  have read : Tree.read "a != b && (a == null || !a.equals(b))" =
      .ok ⟨.binary .and front (.paren guard (some ⟨10, 37⟩)) (some ⟨0, 37⟩),
        some "a != b && (a == null || !a.equals(b))"⟩ := rfl
  refine ⟨_, _, read, rfl, rfl, ?_⟩
  refine (eval_exact_idiom env helper (d := d) read rfl (List.mem_singleton.mpr rfl) (.inr ?_)).1
  exact ⟨⟨guard, [.bodyOfParen (some ⟨10, 37⟩), .rightOf .and front (some ⟨0, 37⟩)]⟩, rfl, rfl⟩

end NullSafeEq
