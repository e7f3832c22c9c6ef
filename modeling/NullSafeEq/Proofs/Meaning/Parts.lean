import NullSafeEq.Proofs.Idiom.Placement
import NullSafeEq.Proofs.Meaning.Operands

/-!
# What the parts of the idioms evaluate to

A test for null compares with null, a call of the equality method calls it, and the replacement of
a match calls the helper, whatever the operands of calls stand for.
-/
namespace NullSafeEq

/-! ## Outcomes -/

namespace Outcome
variable {Object : Type} [DecidableEq Object]

theorem compared_comm (equal : Bool) (l r : Outcome Object) :
    l.compared equal r = r.compared equal l := by
  cases l <;> cases r <;> simp [compared, eq_comm]

/-- Negating a comparison turns it into the opposite one. -/
theorem polar_compared (l r : Outcome Object) (equal positive : Bool) :
    (l.compared equal r).polar positive = l.compared (equal == positive) r := by
  cases positive <;> cases equal <;> cases l <;> cases r <;> simp [compared, polar, negated]

end Outcome

theorem Site.wellFormed {s : Site} (wf : s.top.WellFormed) : s.node.WellFormed :=
  wf.at? s.at?_path

/-! ## Parts -/

namespace Environment
variable {Object : Type} [DecidableEq Object] {env : Environment Object}
variable {stands : Outcome Object → Outcome Object} {method : String} {helper : DottedName}
variable {d : Detector} {m : Match} {s : Site}

theorem evalWith_site_bare (s : Site) :
    env.evalWith stands method helper s.bare.node = env.evalWith stands method helper s.node := by
  rw [Site.node_bare, evalWith_bare]

theorem evalWith_unwrapNegation (s : Site) : env.evalWith stands method helper s.node =
    (env.evalWith stands method helper (unwrapNegation s).1.node).polar (unwrapNegation s).2 := by
  rw [← evalWith_site_bare]
  unfold unwrapNegation
  simp only
  split
  next e sp same =>
    rw [same, evalWith, evalWith_site_bare]
    rfl
  next => rfl

theorem evalWith_isNull {e : Expr} (h : e.isNull = true) :
    env.evalWith stands method helper e = .null := by
  unfold Expr.isNull at h
  split at h
  next text sp => rw [evalWith]
  next => cases h

/-- `==` for `true` and `!=` for `false`. -/
theorem evalWith_comparison (equal : Bool) (l r : Expr) (sp : Option Span) :
    env.evalWith stands method helper (.binary (if equal then .eq else .ne) l r sp) =
      (env.evalWith stands method helper l).compared equal
        (env.evalWith stands method helper r) := by
  cases equal with
  | true => exact evalWith.eq_def env stands method helper (.binary .eq l r sp)
  | false => exact evalWith.eq_def env stands method helper (.binary .ne l r sp)

/-- A comparison with null. -/
theorem evalWith_nullComparison {compared : Site} {equal : Bool}
    (h : nullComparison s equal = some compared) : env.evalWith stands method helper s.node =
      (env.evalWith stands method helper compared.node).compared equal .null := by
  obtain ⟨op, l, r, sp, same, rfl, side⟩ := nullComparison_cases h
  rw [← evalWith_site_bare, same, evalWith_comparison]
  rcases side with ⟨isNull, rfl⟩ | ⟨isNull, rfl⟩
  · rw [evalWith_site_bare, ← evalWith_bare r, evalWith_isNull isNull]
    rfl
  · rw [evalWith_site_bare, ← evalWith_bare l, evalWith_isNull isNull, Outcome.compared_comm]
    rfl

/-- A test for null. -/
theorem evalWith_nullCheck {test : NullCheck} (h : nullCheck? nullComparison s = some test) :
    env.evalWith stands method helper s.node =
      (env.evalWith stands method helper test.compared.node).compared test.equal .null := by
  obtain ⟨equal, comparison, same⟩ := nullCheck_cases h
  rw [evalWith_unwrapNegation, evalWith_nullComparison comparison, Outcome.polar_compared, same]

/-- A call of the equality method. -/
theorem evalWith_equalityCall {found : EqualityCall} (h : equalityCall? method s = some found) :
    env.evalWith stands method helper s.node =
      (env.methodCall (stands (env.evalWith stands method helper found.qualifier.node))
        (stands (env.evalWith stands method helper found.argument.node))).polar found.equal := by
  obtain ⟨q, a, sp, same, -, rfl⟩ := equalityCall_iff.mp h
  rw [evalWith_unwrapNegation, same, evalWith]
  simp only [evalAllWith, if_pos, evalWith_site_bare]
  rfl

/-- The replacement of a match. -/
theorem evalWith_rewritten (m : Match) : env.evalWith stands method helper (m.rewritten helper) =
    (env.helperCall (stands (env.evalWith stands method helper m.left.node))
      (stands (env.evalWith stands method helper m.right.node))).polar (!m.negated) := by
  unfold Match.rewritten
  cases negated : m.negated with
  | true =>
    rw [if_pos rfl, evalWith, evalWith_call]
    rfl
  | false =>
    rw [if_neg Bool.false_ne_true, evalWith_call]
    rfl

variable (env) (stands) (helper)

/-- Well-formed expressions with the same name evaluate to what one path denotes. -/
theorem evalWith_of_name (method : String) {name : String} {a b : Expr} (wf : a.WellFormed)
    (wf' : b.WellFormed) (named : qualifiedName? d.resolve a = some name)
    (named' : qualifiedName? d.resolve b = some name) :
    ∃ p, env.evalWith stands method helper a = env.valueOf p ∧
      env.evalWith stands method helper b = env.valueOf p := by
  obtain ⟨p, left, right⟩ := valuePath_eq_of_qualifiedName wf wf' named named'
  exact ⟨p, evalWith_of_valuePath left, evalWith_of_valuePath right⟩

/-- A guarded call is a short-circuit operator on its check and its call. -/
theorem evalWith_binary (h : d.binary? s = some m) : ∃ check callee equal,
    d.guardedCall? s check callee equal = some m ∧ check.top = s.top ∧ callee.top = s.top ∧
    env.evalWith stands d.method helper s.node =
      (env.evalWith stands d.method helper check.node).shortCircuit (!equal)
        ((env.evalWith stands d.method helper callee.node).polar equal) := by
  rcases Detector.binary_iff.mp h with ⟨l, r, sp, same, found⟩ |
    ⟨l, r, sp, e, notSpan, same, negation, found⟩
  · refine ⟨_, _, _, found, Site.top_down same.symm, ?_, ?_⟩
    · rw [Site.top_bare, Site.top_down (f := .rightOf .and l sp) same.symm]
    · rw [same, evalWith, evalWith_site_bare]
      rfl
  · have right : (s.down (.rightOf .or l sp) r).top = s.top := Site.top_down same.symm
    refine ⟨_, _, _, found, Site.top_down same.symm, ?_, ?_⟩
    · rw [Site.top_bare, Site.top_down (f := .operandOf .not notSpan) negation.symm, Site.top_bare,
        right]
    · rw [same, evalWith, evalWith_site_bare, ← evalWith_bare r]
      rw [Site.node_bare] at negation
      rw [show r.bare = .prefixed .not e notSpan from negation, evalWith]
      rfl

/-- The guard of a guarded call: a test for null, then a call. -/
theorem evalWith_guard {guard check callee : Site} {equal : Bool} {found : EqualityCall}
    {test : NullCheck} (calls : equalityCall? d.method callee = some found)
    (plain : found.equal = true) (tests : nullCheck? nullComparison check = some test)
    (differs : test.equal ≠ equal)
    (split : env.evalWith stands d.method helper guard.node =
      (env.evalWith stands d.method helper check.node).shortCircuit (!equal)
        ((env.evalWith stands d.method helper callee.node).polar equal)) :
    env.evalWith stands d.method helper guard.node =
      ((env.evalWith stands d.method helper test.compared.node).compared (!equal)
        .null).shortCircuit (!equal)
        ((env.methodCall (stands (env.evalWith stands d.method helper found.qualifier.node))
          (stands (env.evalWith stands d.method helper found.argument.node))).polar equal) := by
  have opposite : test.equal = !equal := by
    revert differs
    cases test.equal <;> cases equal <;> simp
  rw [split, evalWith_nullCheck tests, evalWith_equalityCall calls, opposite, plain]
  rfl

end Environment

end NullSafeEq
