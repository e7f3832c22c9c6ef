import NullSafeEq.Proofs.Idiom.Shape

/-!
# What matches cover

The place of a match is an operator, a ternary or a call around the call that it was found for.
Its operands are the qualifier and the argument of a call in it. The match of a call in an operand
lies in the operand too.
-/
namespace NullSafeEq

namespace Expr

/-- The nodes that a match may take the place of. -/
def isPlace : Expr → Bool
  | binary .. | conditional .. | invoke .. => true
  | _ => false

theorem isTransparent_of_isPlace {e : Expr} (h : e.isPlace = true) : e.isTransparent = false := by
  cases e with
  | prefixed | paren => cases h
  | _ => rfl

theorem isTransparent_of_isCall {e : Expr} (h : e.isCall = true) : e.isTransparent = false := by
  cases e with
  | prefixed | paren => cases h
  | _ => rfl

theorem isParen_of_isPlace {e : Expr} (h : e.isPlace = true) : e.isParen = false :=
  isParen_of_isTransparent (isTransparent_of_isPlace h)

theorem isParen_of_isCall {e : Expr} (h : e.isCall = true) : e.isParen = false :=
  isParen_of_isTransparent (isTransparent_of_isCall h)

theorem isPlace_of_isBinary {e : Expr} (h : e.isBinary = true) : e.isPlace = true := by
  cases e with
  | binary => rfl
  | _ => cases h

theorem isCall_of_isBinary {e : Expr} (h : e.isBinary = true) : e.isCall = false := by
  cases e with
  | binary => rfl
  | _ => cases h

end Expr

theorem Site.bareBelow_of_isPlace {s : Site} (h : s.node.isPlace = true) : s.bare = s := by
  obtain ⟨e, above⟩ := s
  cases e with
  | paren => cases h
  | _ => rfl

theorem Site.isCall_wrapBelow {e : Expr} {above : List Frame}
    (h : (wrapBelow e above).node.isCall = true) : e.isCall = true := by
  fun_induction wrapBelow e above with
  | case1 e sp above ih => cases ih h
  | case2 => exact h

/-- The frame around the parentheses around a site holds the site. -/
theorem Site.Within.wrapped_up {s : Site} {f : Frame} {above : List Frame}
    (frames : s.wrapped.above = f :: above) : s.Within ⟨f.fill s.wrapped.node, above⟩ := by
  have outer := Site.Within.wrapped s
  rw [show s.wrapped = ⟨s.wrapped.node, f :: above⟩ by rw [← frames]] at outer
  exact outer.trans (.up _ _ _)

theorem unwrapNegation_within (s : Site) : (unwrapNegation s).1.Within s := by
  unfold unwrapNegation
  simp only
  split
  next e sp same =>
    have inner : (s.bare.down (.operandOf .not sp) e).Within s.bare := .down same.symm
    exact ((Site.Within.bare _).trans inner).trans (.bare s)
  next => exact .bare s

/-- What stands around a site, parentheses apart, stands around it when prefix operators do not
count either. -/
theorem Site.enclosing_isTransparent {s k : Site} (around : s.enclosing? Expr.isParen = some k)
    (solid : k.node.isTransparent = false) : s.enclosing? Expr.isTransparent = some k := by
  obtain ⟨e, fs⟩ := s
  induction fs generalizing e with
  | nil => cases around
  | cons f fs ih =>
    rw [enclosing_cons] at around ⊢
    by_cases paren : (f.fill e).isParen = true
    · rw [if_pos paren] at around
      have skipped : (f.fill e).isTransparent = true := by rw [Expr.isTransparent, paren]; rfl
      rw [if_pos skipped]
      exact ih (f.fill e) around
    · rw [if_neg paren] at around
      cases around
      rw [if_neg (by simp [solid])]

/-- Parentheses do not count as what stands around a call. -/
theorem Site.around_bare (s : Site) :
    s.bare.enclosing? Expr.isTransparent = s.enclosing? Expr.isTransparent :=
  enclosing_bare (fun _ _ => rfl) s

/-- What stands around the operand of a negation is what stands around the negation. -/
theorem Site.around_negated {s : Site} {e : Expr} {sp : Option Span}
    (negation : s.node = .prefixed .not e sp) :
    (s.down (.operandOf .not sp) e).enclosing? Expr.isTransparent =
      s.enclosing? Expr.isTransparent := by
  rw [enclosing_down (f := .operandOf .not sp) negation.symm, negation]
  rfl

/-- Parentheses and a negation do not count as what stands around a call. -/
theorem enclosing_unwrapNegation (s : Site) : (unwrapNegation s).1.enclosing? Expr.isTransparent =
    s.enclosing? Expr.isTransparent := by
  unfold unwrapNegation
  simp only
  split
  next e sp negation => rw [Site.around_bare, Site.around_negated negation, Site.around_bare]
  next => exact s.around_bare

namespace Detector
variable {d : Detector} {m : Match}

/-- The right operand of a guarded call holds the callee, which has the guard around it. -/
theorem binary_guarded {s : Site} (h : d.binary? s = some m) : ∃ op l r sp callee equal,
    s.node = .binary op l r sp ∧ callee.Within (s.down (.rightOf op l sp) r) ∧
    callee.enclosing? Expr.isTransparent = some s ∧
    d.guardedCall? s (s.down (.leftOf op r sp) l) callee equal = some m := by
  rcases binary_iff.mp h with ⟨l, r, sp, node, guarded⟩ |
    ⟨l, r, sp, e, notSpan, node, negation, guarded⟩
  · refine ⟨.and, l, r, sp, _, true, node, .bare _, ?_, guarded⟩
    exact (Site.around_bare _).trans (Site.enclosing_child node.symm (by rw [node]; rfl))
  · refine ⟨.or, l, r, sp, _, false, node, ?_, ?_, guarded⟩
    · have operand := Site.Within.down (f := .operandOf .not notSpan) (c := e) negation.symm
      exact ((Site.Within.bare _).trans operand).trans (.bare _)
    · rw [Site.around_bare, Site.around_negated negation, Site.around_bare]
      exact Site.enclosing_child node.symm (by rw [node]; rfl)

/-- A guarded call has its guard or the operator in front of it for a place. -/
theorem binary_place {s : Site} (h : d.binary? s = some m) : s.node.isBinary = true ∧
    (m.span = s ∨ ∃ op left sp above, s.wrapped.above = .rightOf op left sp :: above ∧
      m.span = ⟨.binary op left s.wrapped.node sp, above⟩) := by
  obtain ⟨_, _, _, _, _, equal, node, -, -, guarded⟩ := binary_guarded h
  obtain ⟨found, -, -, -, -, -, checked, -, -, rfl⟩ := guardedCall_iff.mp guarded
  refine ⟨by rw [node]; rfl, ?_⟩
  rcases d.placeOf_cases s equal checked found.argument with stays | ⟨name, -, widened⟩
  · exact .inl stays
  · rcases d.widen_cases s equal checked name with same | ⟨op, left, sp, above, frames, -, -, same⟩
    · exact .inl (widened.trans same)
    · exact .inr ⟨op, left, sp, above, frames, widened.trans same⟩

theorem conditional_place {s : Site} (h : d.conditional? s = some m) :
    m.span = s ∧ ∃ t y n sp, s.node = .conditional t y n sp := by
  obtain ⟨t, y, n, sp, same, -, -, -, -, -, -, -, -, -, -, -, -, -, rfl⟩ := conditional_iff.mp h
  exact ⟨rfl, t, y, n, sp, same⟩

theorem direct_place {call : Site} (h : d.direct? call = some m) :
    m.span = call ∧ ∃ q id a sp, call.node = .invoke q id [a] sp := by
  obtain ⟨-, called⟩ := (direct_isSome call).mp ⟨m, h⟩
  obtain ⟨-, -, -, -, -, rfl⟩ := direct_iff.mp h
  exact ⟨rfl, called⟩

/-- A call with one argument whose bare qualifier and argument are these sites. -/
def OperandsOf (left right k : Site) : Prop := ∃ q id a sp, k.node = .invoke q id [a] sp ∧
  left = (k.down (.receiverOf id [a] sp) q).bare ∧
  right = (k.down (.argOfInvoke q id [] [] sp) a).bare

theorem OperandsOf.isCall {left right k : Site} (h : OperandsOf left right k) :
    k.node.isCall = true := by
  obtain ⟨q, id, a, sp, node, -⟩ := h
  rw [node]
  rfl

/-- The construct around an operand, parentheses apart, is its call. -/
theorem OperandsOf.enclosing {left right k : Site} (h : OperandsOf left right k) :
    left.enclosing? Expr.isParen = some k ∧ right.enclosing? Expr.isParen = some k := by
  have counts := Expr.isParen_of_isCall h.isCall
  obtain ⟨q, id, a, sp, node, rfl, rfl⟩ := h
  rw [Site.enclosing_bare (fun _ _ => rfl), Site.enclosing_bare (fun _ _ => rfl)]
  exact ⟨Site.enclosing_child node.symm counts, Site.enclosing_child node.symm counts⟩

/-- A bare call is about itself. -/
theorem direct_operandsOf {call : Site} (h : d.direct? call = some m) :
    OperandsOf m.left m.right call := by
  obtain ⟨-, q, id, a, sp, same⟩ := direct_place h
  obtain ⟨-, qualifier, receiver, argument, sole, rfl⟩ := direct_iff.mp h
  simp only [Site.receiver?, Site.soleArgument?, same, Option.some.injEq] at receiver sole
  subst receiver sole
  exact ⟨q, id, a, sp, same, rfl, rfl⟩

/-- The operands of a bare call are its qualifier and its argument. -/
theorem direct_operands {call : Site} (h : d.direct? call = some m)
    (named : call.node.calledName? = some d.method) : ∃ q a sp,
      call.node = .invoke q d.method [a] sp ∧ m.left.node = q.bare ∧ m.right.node = a.bare ∧
        m.negated = false := by
  obtain ⟨q, id, a, sp, same, left, right⟩ := direct_operandsOf h
  obtain ⟨-, _, -, _, -, found⟩ := direct_iff.mp h
  have affirmed : m.negated = false := by rw [found]
  rw [same] at named
  cases named
  exact ⟨q, a, sp, same, left ▸ Site.node_bare _, right ▸ Site.node_bare _, affirmed⟩

/-- A match takes the place of an operator, a ternary or a call around the call that it was found
for. -/
theorem analyze_place {call : Site} (h : d.analyze? call = some m) :
    m.span.node.isPlace = true ∧ call.Within m.span := by
  rcases analyze_cases h with direct | ⟨context, around, binary | conditional⟩
  · obtain ⟨place, q, id, a, sp, same⟩ := direct_place direct
    rw [place, same]
    exact ⟨rfl, .refl _⟩
  · have inner := Site.Within.enclosing around
    obtain ⟨isBinary, place | ⟨op, left, sp, above, frames, place⟩⟩ := binary_place binary
    · rw [place]
      exact ⟨Expr.isPlace_of_isBinary isBinary, inner⟩
    · rw [place]
      exact ⟨rfl, inner.trans (.wrapped_up frames)⟩
  · obtain ⟨place, t, y, n, sp, same⟩ := conditional_place conditional
    rw [place, same]
    exact ⟨rfl, .enclosing around⟩

/-- The match of a call lies below every call around it. -/
theorem analyze_below {call k : Site} (h : d.analyze? call = some m) (within : call.Within k)
    (differs : k ≠ call) (isCall : k.node.isCall = true) : m.span.Within k ∧ k ≠ m.span := by
  rcases analyze_cases h with direct | ⟨context, around, binary | conditional⟩
  · rw [(direct_place direct).1]
    exact ⟨within, differs⟩
  · have outer := Site.enclosing_between around within differs (Expr.isTransparent_of_isCall isCall)
    obtain ⟨isBinary, place⟩ := binary_place binary
    have noCall := Expr.isCall_of_isBinary isBinary
    have other : k ≠ context := by
      rintro rfl
      rw [isCall] at noCall
      cases noCall
    obtain place | ⟨op, left, sp, above, frames, place⟩ := place
    · rw [place]
      exact ⟨outer, other⟩
    · have noParen := Expr.isParen_of_isCall isCall
      have wide : context.wrapped.Within k := Site.wrapBelow_within outer other noParen
      rw [place]
      refine ⟨?_, fun same => by rw [same] at isCall; cases isCall⟩
      rw [show context.wrapped = ⟨context.wrapped.node, .rightOf op left sp :: above⟩ by
        rw [← frames]] at wide
      rcases wide.cons_cases with same | up
      · rw [same] at isCall
        rw [Site.isCall_wrapBelow isCall] at noCall
        cases noCall
      · exact up
  · have outer := Site.enclosing_between around within differs (Expr.isTransparent_of_isCall isCall)
    obtain ⟨place, t, y, n, sp, same⟩ := conditional_place conditional
    rw [place]
    refine ⟨outer, ?_⟩
    rintro rfl
    rw [same] at isCall
    cases isCall

/-- A call that is the place of a match is the call that the match was found for. -/
theorem analyze_of_isCall {call : Site} (h : d.analyze? call = some m)
    (isCall : m.span.node.isCall = true) : m.span = call := by
  by_cases same : m.span = call
  · exact same
  · exact ((analyze_below h (analyze_place h).2 same isCall).2 rfl).elim

theorem equalityCall_operands {method : String} {s : Site} {found : EqualityCall}
    (h : equalityCall? method s = some found) :
    ∃ k : Site, k.Within s ∧ OperandsOf found.qualifier found.argument k := by
  obtain ⟨q, a, sp, same, -, rfl⟩ := equalityCall_iff.mp h
  exact ⟨_, unwrapNegation_within s, q, method, a, sp, same, rfl, rfl⟩

/-- The callee of a guarded call, and that its guard is what stands around it. -/
theorem binary_callee {s : Site} (h : d.binary? s = some m) : ∃ callee found,
    callee.enclosing? Expr.isTransparent = some s ∧
    equalityCall? d.method callee = some found ∧ m.left = found.qualifier ∧
    m.right = found.argument := by
  obtain ⟨_, _, _, _, callee, _, _, _, around, guarded⟩ := binary_guarded h
  obtain ⟨found, calls, -, -, -, -, -, -, -, rfl⟩ := guardedCall_iff.mp guarded
  exact ⟨callee, found, around, calls, rfl, rfl⟩

/-- The branch of a ternary with the call, and that the ternary is what stands around it. -/
theorem conditional_callee {s : Site} (h : d.conditional? s = some m) : ∃ callee found,
    callee.enclosing? Expr.isTransparent = some s ∧
    equalityCall? d.method callee = some found ∧ m.left = found.qualifier ∧
    m.right = found.argument := by
  obtain ⟨t, y, n, sp, same, test, -, -, -, found, calls, -, -, -, -, -, -, -, rfl⟩ :=
    conditional_iff.mp h
  refine ⟨_, found, ?_, calls, rfl, rfl⟩
  have counts : s.node.isTransparent = false := by rw [same]; rfl
  rw [Site.around_bare]
  split
  · exact Site.enclosing_child same.symm counts
  · exact Site.enclosing_child same.symm counts

/-- The operands of a match are the qualifier and the argument of a call in its place. -/
theorem analyze_operands {call : Site} (h : d.analyze? call = some m) :
    ∃ k : Site, k.Within m.span ∧ OperandsOf m.left m.right k := by
  have operands {callee context : Site} {found : EqualityCall} (place : context.Within m.span)
      (around : callee.enclosing? Expr.isTransparent = some context)
      (calls : equalityCall? d.method callee = some found) (left : m.left = found.qualifier)
      (right : m.right = found.argument) :
      ∃ k : Site, k.Within m.span ∧ OperandsOf m.left m.right k := by
    obtain ⟨k, within, operands⟩ := equalityCall_operands calls
    rw [left, right]
    exact ⟨k, (within.trans (.enclosing around)).trans place, operands⟩
  rcases analyze_cases h with direct | ⟨context, -, binary | conditional⟩
  · rw [(direct_place direct).1]
    exact ⟨call, .refl _, direct_operandsOf direct⟩
  · obtain ⟨callee, found, around, calls, left, right⟩ := binary_callee binary
    refine operands ?_ around calls left right
    obtain ⟨-, place | ⟨op, left, sp, above, frames, place⟩⟩ := binary_place binary
    · rw [place]
      exact .refl _
    · rw [place]
      exact .wrapped_up frames
  · obtain ⟨callee, found, around, calls, left, right⟩ := conditional_callee conditional
    refine operands ?_ around calls left right
    rw [(conditional_place conditional).1]
    exact .refl _

/-- A call of the equality method is found in the construct around it. -/
theorem analyze_of_equalityCall (applies : d.applicable = true) {callee context : Site}
    {found : EqualityCall} (calls : equalityCall? d.method callee = some found)
    (around : callee.enclosing? Expr.isTransparent = some context)
    (accepts : ∀ call, d.inContext? call context = some m) :
    ∃ call : Site, call.Within context ∧ d.analyze? call = some m := by
  obtain ⟨q, a, sp, same, notSelf, -⟩ := equalityCall_iff.mp calls
  refine ⟨_, (unwrapNegation_within callee).trans (.enclosing around), ?_⟩
  have near := (enclosing_unwrapNegation callee).trans around
  have named : (unwrapNegation callee).1.node.calledName? = some d.method := by rw [same]; rfl
  have other : ((unwrapNegation callee).1.receiver?.any fun q => q.node.isSelf) = false := by
    simp [Site.receiver?, same, Site.down, notSelf]
  rw [analyze_eq_elim, applies, named, other, near]
  simp only [Bool.not_true, ne_eq, not_true_eq_false, decide_false, Bool.or_self,
    Bool.false_eq_true, if_false]
  exact accepts _

/-- A guarded call is the match of the call in it. -/
theorem call_of_binary {s : Site} (applies : d.applicable = true) (h : d.binary? s = some m) :
    ∃ call : Site, call.Within s ∧ d.analyze? call = some m := by
  obtain ⟨callee, found, around, calls, -, -⟩ := binary_callee h
  refine analyze_of_equalityCall applies calls around fun call => ?_
  obtain ⟨isBinary, -⟩ := binary_place h
  unfold inContext?
  cases same : s.node with
  | binary op l r sp => simp only [h]
  | _ =>
    rw [same] at isBinary
    cases isBinary

theorem call_of_conditional {s : Site} (applies : d.applicable = true)
    (h : d.conditional? s = some m) : ∃ call : Site, call.Within s ∧ d.analyze? call = some m := by
  obtain ⟨callee, found, around, calls, -, -⟩ := conditional_callee h
  refine analyze_of_equalityCall applies calls around fun call => ?_
  obtain ⟨-, t, y, n, sp, same⟩ := conditional_place h
  unfold inContext?
  rw [same, h]

end Detector

end NullSafeEq
