import NullSafeEq.Idiom.Detector
import NullSafeEq.Proofs.Tree.Sites

/-!
# The parts of the idioms

What a comparison with null, a test for null and a call of the equality method are made of, and
that the sites which they answer with lie in the same expression.
-/
namespace NullSafeEq

theorem Site.top_unwrapNegation (s : Site) : (unwrapNegation s).1.top = s.top := by
  unfold unwrapNegation
  simp only
  split
  next e sp same =>
    have filled : (Frame.operandOf .not sp).fill e = s.bare.node := same.symm
    rw [top_bare, top_down filled, top_bare]
  next => exact top_bare s

/-- A comparison with null has null on one side and what is compared on the other. -/
theorem nullComparison_cases {s compared : Site} {equal : Bool}
    (h : nullComparison s equal = some compared) :
    ∃ op l r sp, s.bare.node = .binary op l r sp ∧ op = (if equal then .eq else .ne) ∧
      ((r.bare.isNull = true ∧ compared = (s.bare.down (.leftOf op r sp) l).bare) ∨
        (l.bare.isNull = true ∧ compared = (s.bare.down (.rightOf op l sp) r).bare)) := by
  unfold nullComparison at h
  simp only at h
  split at h
  next op l r sp same =>
    refine ⟨op, l, r, sp, same, ?_⟩
    by_cases isOp : op = (if equal then .eq else .ne)
    · rw [if_pos isOp] at h
      simp only [Site.node_bare, Site.down] at h
      by_cases rightNull : r.bare.isNull = true
      · rw [if_pos rightNull] at h
        exact ⟨isOp, .inl ⟨rightNull, (Option.some.inj h).symm⟩⟩
      · rw [if_neg rightNull] at h
        by_cases leftNull : l.bare.isNull = true
        · rw [if_pos leftNull] at h
          exact ⟨isOp, .inr ⟨leftNull, (Option.some.inj h).symm⟩⟩
        · rw [if_neg leftNull] at h
          cases h
    · rw [if_neg isOp] at h
      cases h
  next => cases h

theorem nullComparison_top {s compared : Site} {equal : Bool}
    (h : nullComparison s equal = some compared) : compared.top = s.top := by
  obtain ⟨op, l, r, sp, same, -, ⟨-, rfl⟩ | ⟨-, rfl⟩⟩ := nullComparison_cases h
  · rw [Site.top_bare, Site.top_down (f := .leftOf op r sp) same.symm, Site.top_bare]
  · rw [Site.top_bare, Site.top_down (f := .rightOf op l sp) same.symm, Site.top_bare]

/-- A test for null is a comparison with null behind an optional negation. -/
theorem nullCheck_cases {compare : NullComparison} {s : Site} {test : NullCheck}
    (h : nullCheck? compare s = some test) : ∃ equal,
      compare (unwrapNegation s).1 equal = some test.compared ∧
      test.equal = (equal == (unwrapNegation s).2) := by
  unfold nullCheck? at h
  simp only at h
  cases positive : compare (unwrapNegation s).1 true with
  | some compared =>
    rw [positive] at h
    cases h
    exact ⟨true, positive, (Bool.true_beq _).symm⟩
  | none =>
    rw [positive] at h
    obtain ⟨compared, negative, rfl⟩ := Option.map_eq_some_iff.mp h
    exact ⟨false, negative, (Bool.false_beq _).symm⟩

theorem nullCheck_top {s : Site} {test : NullCheck} (h : nullCheck? nullComparison s = some test) :
    test.compared.top = s.top := by
  obtain ⟨equal, comparison, -⟩ := nullCheck_cases h
  exact (nullComparison_top comparison).trans s.top_unwrapNegation

/-- A call of the equality method, behind an optional negation. -/
theorem equalityCall_iff {method : String} {s : Site} {found : EqualityCall} :
    equalityCall? method s = some found ↔ ∃ q a sp,
      (unwrapNegation s).1.node = .invoke q method [a] sp ∧ q.isSelf = false ∧
      found = ⟨((unwrapNegation s).1.down (.receiverOf method [a] sp) q).bare,
        ((unwrapNegation s).1.down (.argOfInvoke q method [] [] sp) a).bare,
        (unwrapNegation s).2⟩ := by
  unfold equalityCall?
  simp only
  generalize (unwrapNegation s).1 = inner
  obtain ⟨e, above⟩ := inner
  cases e with
  | invoke q id args sp =>
    match args with
    | [] | _ :: _ :: _ => simp [Expr.calledName?, Site.receiver?, Site.soleArgument?]
    | [a] =>
      constructor
      · intro h
        simp only [Expr.calledName?, Option.some.injEq, Site.receiver?, Site.soleArgument?,
          Option.ite_none_right_eq_some] at h
        obtain ⟨rfl, h⟩ := h
        cases isSelf : q.isSelf with
        | true => simp [Site.down, isSelf] at h
        | false =>
          simp only [Site.down, isSelf] at h
          exact ⟨q, a, sp, rfl, isSelf, (Option.some.inj h).symm⟩
      · rintro ⟨q', a', sp', same, notSelf, rfl⟩
        cases same
        simp [Expr.calledName?, Site.receiver?, Site.soleArgument?, Site.down, notSelf]
  | _ => simp [Expr.calledName?, Site.receiver?]

/-- The sites of a call of the equality method. -/
theorem equalityCall_top {method : String} {s : Site} {found : EqualityCall}
    (h : equalityCall? method s = some found) :
    found.qualifier.top = s.top ∧ found.argument.top = s.top := by
  obtain ⟨q, a, sp, same, -, rfl⟩ := equalityCall_iff.mp h
  refine ⟨?_, ?_⟩
  · rw [Site.top_bare, Site.top_down (f := .receiverOf method [a] sp) same.symm,
      Site.top_unwrapNegation]
  · rw [Site.top_bare, Site.top_down (f := .argOfInvoke q method [] [] sp) same.symm,
      Site.top_unwrapNegation]

end NullSafeEq
