import NullSafeEq.Proofs.Idiom.Coverage
import NullSafeEq.Proofs.Meaning.ValuePath
import NullSafeEq.Proofs.Tree.Computations

/-!
# What an idiom computes

Besides its operands the place of a match computes one call of the equality method with one
argument. All else in it is names, null literals and operators. What takes the place of the match
computes a call of the helper on both operands.
-/
namespace NullSafeEq

namespace Expr

theorem computations_of_none {e : Expr} (nothing : e.computation? = none) :
    e.computations = (e.children.map computations).sum := by
  rw [computations_eq, ownComputations, nothing]
  exact zero_add _

@[simp] theorem computations_paren (e : Expr) (sp : Option Span) :
    (paren e sp).computations = e.computations := by
  rw [computations_of_none rfl]
  simp [children]

@[simp] theorem computations_prefixed (op : PrefixOp) (e : Expr) (sp : Option Span) :
    (prefixed op e sp).computations = e.computations := by
  rw [computations_of_none rfl]
  simp [children]

@[simp] theorem computations_binary (op : BinaryOp) (l r : Expr) (sp : Option Span) :
    (binary op l r sp).computations = l.computations + r.computations := by
  rw [computations_of_none rfl]
  simp [children]

@[simp] theorem computations_conditional (t y n : Expr) (sp : Option Span) :
    (conditional t y n sp).computations = t.computations + (y.computations + n.computations) := by
  rw [computations_of_none rfl]
  simp [children]

theorem computations_invoke (q : Expr) (id : String) (a : Expr) (sp : Option Span) :
    (invoke q id [a] sp).computations = {.call id 1} + (q.computations + a.computations) := by
  simp [computations_eq (invoke q id [a] sp), ownComputations, computation?, children]

theorem computations_bare (e : Expr) : e.bare.computations = e.computations := by
  fun_induction bare e with
  | case1 e sp ih => rw [ih, computations_paren]
  | case2 => rfl

theorem computations_denied (e : Expr) : e.denied.1.computations = e.computations := by
  rw [← computations_bare e]
  unfold denied
  split
  next o sp same => rw [same, computations_prefixed, computations_bare]
  next => rfl

theorem computations_of_isNull {e : Expr} (h : e.isNull = true) : e.computations = 0 := by
  unfold isNull at h
  split at h
  next => exact computations_of_none rfl
  next => cases h

/-- A comparison with null computes what the other operand computes. -/
theorem computations_comparedWithNull {e x : Expr} {equal : Bool}
    (h : e.comparedWithNull? equal = some x) : e.computations = x.computations := by
  unfold comparedWithNull? at h
  rw [← computations_bare e]
  split at h
  next op l r sp same =>
    rw [same, computations_binary]
    obtain ⟨-, h⟩ := Option.ite_none_right_eq_some.mp h
    by_cases right : r.bare.isNull = true
    · rw [if_pos right] at h
      cases h
      rw [← computations_bare r, computations_of_isNull right, computations_bare, add_zero]
    · rw [if_neg right] at h
      obtain ⟨left, same⟩ := Option.ite_none_right_eq_some.mp h
      cases same
      rw [← computations_bare l, computations_of_isNull left, computations_bare, zero_add]
  next => cases h

/-- A test for null computes what is tested. -/
theorem computations_nullTest {e x : Expr} {equal : Bool} (h : e.nullTest? = some (x, equal)) :
    e.computations = x.computations := by
  unfold nullTest? at h
  rw [← computations_denied]
  split at h
  next compared =>
    cases h
    exact computations_comparedWithNull compared
  next =>
    obtain ⟨x', compared, same⟩ := Option.map_eq_some_iff.mp h
    cases same
    exact computations_comparedWithNull compared

/-- A call of the equality method computes this call besides its operands. -/
theorem computations_equalsCall {method : String} {e q a : Expr} {equal : Bool}
    (h : e.equalsCall? method = some (q, a, equal)) :
    e.computations = {.call method 1} + (q.computations + a.computations) := by
  unfold equalsCall? at h
  rw [← computations_denied]
  split at h
  next q' id a' sp same =>
    obtain ⟨⟨rfl, -⟩, same'⟩ := Option.ite_none_right_eq_some.mp h
    cases same'
    rw [same, computations_invoke, computations_bare, computations_bare]
  next => cases h

theorem computations_of_valuePath {e : Expr} {p : ValuePath} (h : e.valuePath? = some p) :
    e.computations = 0 := by
  induction e using induct_children generalizing p with
  | step e ih =>
  cases e with
  | paren e =>
    rw [computations_paren]
    exact ih e List.mem_cons_self h
  | name | self => exact computations_of_none rfl
  | member q id =>
    obtain ⟨base, spells, -⟩ := Option.map_eq_some_iff.mp h
    rw [computations_of_none rfl, children, List.map_singleton, List.sum_singleton]
    exact ih q List.mem_cons_self spells
  | _ => cases h

/-- What has a name computes nothing. -/
theorem computations_of_name {resolve : Resolver} {e : Expr} {name : String}
    (h : qualifiedName? resolve e = some name) : e.computations = 0 := by
  obtain ⟨p, spells, -⟩ := valuePath_of_qualifiedName h
  exact computations_of_valuePath spells

end Expr

theorem Site.computations_wrapBelow (e : Expr) (above : List Frame) :
    (wrapBelow e above).node.computations = e.computations := by
  fun_induction wrapBelow e above with
  | case1 e sp above ih => rw [ih, Expr.computations_paren]
  | case2 => rfl

/-! ## The places of matches -/

/-- What the place of a match computes: a call of the equality method and the operands. -/
def Match.Computes (m : Match) (method : String) : Prop :=
  m.span.node.computations =
    {.call method 1} + (m.left.node.computations + m.right.node.computations)

namespace Detector
variable {d : Detector} {m : Match}

/-- An identity comparison of two names computes nothing. -/
theorem computations_comparesNames {equal : Bool} {first second : String} {e : Expr}
    (h : d.comparesNames equal first second e = true) : e.computations = 0 := by
  obtain ⟨l, r, sp, same, names⟩ := comparesNames_iff.mp h
  rw [← Expr.computations_bare, same, Expr.computations_binary]
  rcases names with ⟨left, right⟩ | ⟨left, right⟩
  · rw [Expr.computations_of_name left, Expr.computations_of_name right, add_zero]
  · rw [Expr.computations_of_name left, Expr.computations_of_name right, add_zero]

/-- Widening takes in nothing that computes. -/
theorem computations_placeOf (d : Detector) (guard : Site) (equal : Bool) (checked : String)
    (argument : Site) :
    (d.placeOf guard equal checked argument).node.computations = guard.node.computations := by
  rcases d.placeOf_cases guard equal checked argument with stays | ⟨name, -, widened⟩
  · rw [stays]
  rw [widened]
  rcases d.widen_cases guard equal checked name with stays | ⟨op, left, sp, above, -, -, front, same⟩
  · rw [stays]
  · rw [same, Expr.computations_binary, computations_comparesNames front, zero_add]
    exact Site.computations_wrapBelow guard.node guard.above

theorem guardedCall_computes (standard : d.compare = nullComparison) {guard check callee : Site}
    {equal : Bool} (h : d.guardedCall? guard check callee equal = some m)
    (parts : guard.node.computations = check.node.computations + callee.node.computations) :
    m.Computes d.method := by
  obtain ⟨found, call, -, test, tests, -, checked, named, -, rfl⟩ := guardedCall_iff.mp h
  rw [standard] at tests
  have checks := Expr.computations_nullTest (nullTest_iff.mpr ⟨test, tests, rfl, rfl⟩)
  have calls := Expr.computations_equalsCall (equalsCall_iff.mpr ⟨found, call, rfl, rfl, rfl⟩)
  rw [Expr.computations_of_name named] at checks
  rw [Match.Computes, computations_placeOf, parts, checks, calls, zero_add]

theorem binary_computes (standard : d.compare = nullComparison) {s : Site}
    (h : d.binary? s = some m) : m.Computes d.method := by
  rcases binary_iff.mp h with ⟨l, r, sp, same, found⟩ |
    ⟨l, r, sp, e, notSpan, same, negation, found⟩
  · refine guardedCall_computes standard found ?_
    rw [same, Site.node_bare, Expr.computations_binary, Expr.computations_bare]
    rfl
  · refine guardedCall_computes standard found ?_
    rw [Site.node_bare] at negation
    have right : r.computations = e.computations := by
      rw [← r.computations_bare, show r.bare = _ from negation, Expr.computations_prefixed]
    rw [same, Site.node_bare, Expr.computations_binary, Expr.computations_bare, right]
    rfl

theorem conditional_computes (standard : d.compare = nullComparison) {s : Site}
    (h : d.conditional? s = some m) : m.Computes d.method := by
  obtain ⟨t, y, n, sp, same, test, tests, other, others, found, calls, -, tested, named, argument,
    otherNamed, -, -, rfl⟩ := conditional_iff.mp h
  rw [standard] at tests others
  have testing := Expr.computations_nullTest (nullTest_iff.mpr ⟨test, tests, rfl, rfl⟩)
  have nulled := Expr.computations_nullTest (nullTest_iff.mpr ⟨other, others, rfl, rfl⟩)
  have called := Expr.computations_equalsCall (equalsCall_iff.mpr ⟨found, calls, rfl, rfl, rfl⟩)
  rw [Expr.computations_of_name named] at testing
  rw [Expr.computations_of_name otherNamed, Site.node_bare, Expr.computations_bare] at nulled
  rw [Site.node_bare, Expr.computations_bare] at called
  rw [Match.Computes, same, Expr.computations_conditional, ← called,
    show t.computations = 0 from testing, zero_add]
  cases polarity : test.equal with
  | true =>
    rw [polarity] at nulled
    rw [show y.computations = 0 from nulled, zero_add]
    rfl
  | false =>
    rw [polarity] at nulled
    rw [show n.computations = 0 from nulled, add_zero]
    rfl

theorem direct_computes {call : Site} (h : d.direct? call = some m)
    (named : call.node.calledName? = some d.method) : m.Computes d.method := by
  obtain ⟨q, a, sp, same, left, right, -⟩ := direct_operands h named
  rw [Match.Computes, (direct_place h).1, left, right, same, Expr.computations_invoke,
    Expr.computations_bare, Expr.computations_bare]

/-- The place of a match computes a call of the equality method besides the operands. -/
theorem analyze_computes (standard : d.compare = nullComparison) {call : Site}
    (h : d.analyze? call = some m) : m.Computes d.method := by
  rcases analyze_cases h with direct | ⟨context, -, binary | conditional⟩
  · exact direct_computes direct (calledName_of_analyze h)
  · exact binary_computes standard binary
  · exact conditional_computes standard conditional

end Detector

/-! ## What takes their place -/

/-- The last word of a chain of names. -/
def DottedName.last : DottedName → String
  | plain id | member _ id => id

theorem DottedName.computations_toExpr (n : DottedName) : n.toExpr.computations = 0 := by
  induction n with
  | plain id => exact Expr.computations_of_none rfl
  | member outer id ih =>
    rw [toExpr, Expr.computations_of_none rfl, Expr.children, List.map_singleton,
      List.sum_singleton, ih]

/-- A call of a helper computes this call besides its arguments. -/
theorem DottedName.computations_call (n : DottedName) (args : List Expr) :
    (n.call args).computations =
      {.call n.last args.length} + (args.map Expr.computations).sum := by
  cases n with
  | plain id => exact Expr.computations_eq _
  | member outer id =>
    rw [call, Expr.computations_eq, Expr.children, List.map_cons, List.sum_cons,
      computations_toExpr, zero_add]
    rfl

theorem Match.computations_rewritten (n : DottedName) (m : Match) :
    (m.rewritten n).computations =
      {.call n.last 2} + (m.left.node.computations + m.right.node.computations) := by
  have call := n.computations_call [m.left.node, m.right.node]
  rw [List.map_cons, List.map_singleton, List.sum_cons, List.sum_singleton] at call
  unfold rewritten
  by_cases negated : m.negated = true
  · rw [if_pos negated, Expr.computations_prefixed]
    exact call
  · rw [if_neg negated]
    exact call

end NullSafeEq
