import NullSafeEq.Proofs.Idiom.CallSites
import NullSafeEq.Proofs.Rewriting.GraftedShapes

/-!
# Matches inside matches

The place of a match holds no other call than the one that the match was found for and those in the
operands of this call: the null checks, the identity comparisons and the branches with null that the
replacement drops compare things that have names, and nothing with a name contains a call. So a
match that lies inside another one lies in one of its operands, which are kept.
-/
namespace NullSafeEq

namespace Site
variable {r c s : Site}

/-- What lies in the parentheses around a site and is none of them lies below the site. -/
theorem Within.unwrapped (h : c.Within s.wrapped) (solid : c.node.isParen = false)
    (solid' : s.node.isParen = false) : c.Within s := by
  have := h.into_bare solid
  rwa [bare_wrapped solid'] at this

theorem callFree_node (free : s.top.CallFree) : s.node.CallFree := by
  obtain ⟨e, above⟩ := s
  induction above generalizing e with
  | nil => exact free
  | cons f fs ih =>
    refine (ih (f.fill e) free).child ?_
    rw [Frame.children_fill]
    exact List.mem_append_right _ List.mem_cons_self

theorem not_within_of_callFree (free : r.node.CallFree) (isCall : c.node.isCall = true) :
    ¬ c.Within r := by
  intro within
  obtain ⟨x, top, rfl⟩ := within.inside
  rw [node_under, (callFree_node (top ▸ free)).here] at isCall
  cases isCall

end Site

namespace Detector
variable {d : Detector} {m m' : Match} {k c s : Site} {t : Tree}

theorem callFree_of_nullCheck {test : NullCheck} {name : String}
    (tests : nullCheck? nullComparison s = some test) (named : d.nameOf test.compared = some name) :
    s.node.CallFree :=
  Expr.callFree_of_nullTest (nullTest_iff.mpr ⟨test, tests, rfl, rfl⟩) (Expr.callFree_of_name named)

theorem callFree_of_comparesNames {equal : Bool} {first second : String} {e : Expr}
    (compares : d.comparesNames equal first second e = true) : e.CallFree := by
  rw [Expr.callFree_iff, computations_comparesNames compares]
  exact fun _ _ => Multiset.notMem_zero _

/-- A call in the place of a guarded call lies within the guard. -/
theorem within_guard (h : d.binary? s = some m) (isCall : c.node.isCall = true)
    (inside : c.Within m.span) : c.Within s := by
  obtain ⟨op, l, r, sp, callee, equal, node, -, -, guarded⟩ := binary_guarded h
  obtain ⟨found, -, -, -, -, -, checked, -, -, rfl⟩ := guardedCall_iff.mp guarded
  rcases d.placeOf_cases s equal checked found.argument with stays | ⟨name, -, widened⟩
  · rwa [stays] at inside
  rcases d.widen_cases s equal checked name with
    stays | ⟨op', left, sp', above, frames, -, compares, wide⟩
  · rwa [widened, stays] at inside
  · rw [widened, wide] at inside
    have differs : (⟨.binary op' left s.wrapped.node sp', above⟩ : Site) ≠ c := by
      rintro rfl
      cases isCall
    rcases inside.side rfl differs with inner | inner
    · exact (Site.not_within_of_callFree (callFree_of_comparesNames compares) isCall inner).elim
    · refine Site.Within.unwrapped ?_ (Expr.isParen_of_isCall isCall) (by rw [node]; rfl)
      rwa [Site.down, ← frames] at inner

/-- A call in the place of a guarded call lies within the call that is guarded. -/
theorem within_callee_of_binary (standard : d.compare = nullComparison)
    (around : k.enclosing? Expr.isTransparent = some s) (isCall : k.node.isCall = true)
    (h : d.binary? s = some m) (isCall' : c.node.isCall = true) (inside : c.Within m.span) :
    c.Within k := by
  have inGuard := within_guard h isCall' inside
  obtain ⟨-, op, l, r, sp, node, onRight⟩ := binary_operandsOf standard around isCall h
  obtain ⟨_, _, _, _, _, _, node', -, -, guarded⟩ := binary_guarded h
  rw [node] at node'
  cases node'
  obtain ⟨-, -, -, test, tests, -, checked, named, -, -⟩ := guardedCall_iff.mp guarded
  rw [standard] at tests
  have differs : s ≠ c := by
    rintro rfl
    rw [node] at isCall'
    cases isCall'
  rcases inGuard.side node differs with inner | inner
  · exact (Site.not_within_of_callFree (callFree_of_nullCheck tests named) isCall' inner).elim
  · have near : (s.down (.rightOf op l sp) r).enclosing? Expr.isTransparent = some s :=
      Site.enclosing_child node.symm (by rw [node]; rfl)
    exact Site.within_of_enclosing near onRight (Expr.isTransparent_of_isCall isCall) around inner
      (Expr.isTransparent_of_isCall isCall')

/-- The test and the branch with null of a ternary contain no call, so all calls in it lie below one
child of it. -/
theorem branch_of_conditional (standard : d.compare = nullComparison)
    (h : d.conditional? s = some m) : ∃ f o, f.fill o = s.node ∧
      ∀ c : Site, c.node.isCall = true → c.Within s → c.Within (s.down f o) := by
  obtain ⟨t, y, n, sp, node, test, tests, other, others, -, -, -, tested, named, argument,
    otherNamed, -⟩ := conditional_iff.mp h
  rw [standard] at tests others
  have freeTest : t.CallFree := callFree_of_nullCheck tests named
  have freeBranch := callFree_of_nullCheck others otherNamed
  rw [Site.node_bare, apply_ite Site.node] at freeBranch
  replace freeBranch := Expr.callFree_of_bare freeBranch
  have differs {c : Site} (isCall : c.node.isCall = true) : s ≠ c := by
    rintro rfl
    rw [node] at isCall
    cases isCall
  cases polarity : test.equal with
  | true =>
    rw [polarity, if_pos rfl] at freeBranch
    refine ⟨.noOf t y sp, n, node.symm, fun c isCall inside => ?_⟩
    rcases inside.branch node (differs isCall) with inTest | inYes | inNo
    · exact (Site.not_within_of_callFree freeTest isCall inTest).elim
    · exact (Site.not_within_of_callFree freeBranch isCall inYes).elim
    · exact inNo
  | false =>
    rw [polarity, if_neg (by decide)] at freeBranch
    refine ⟨.yesOf t n sp, y, node.symm, fun c isCall inside => ?_⟩
    rcases inside.branch node (differs isCall) with inTest | inYes | inNo
    · exact (Site.not_within_of_callFree freeTest isCall inTest).elim
    · exact inYes
    · exact (Site.not_within_of_callFree freeBranch isCall inNo).elim

/-- A call in the place of a match lies within the call that the match was found for. -/
theorem within_callee (standard : d.compare = nullComparison) (isCall : k.node.isCall = true)
    (h : d.analyze? k = some m) (isCall' : c.node.isCall = true) (inside : c.Within m.span) :
    c.Within k := by
  rcases analyze_cases h with direct | ⟨s, around, binary | conditional⟩
  · rwa [(direct_place direct).1] at inside
  · exact within_callee_of_binary standard around isCall binary isCall' inside
  · obtain ⟨place, t, y, n, sp, node⟩ := conditional_place conditional
    rw [place] at inside
    obtain ⟨f, o, filled, branch⟩ := branch_of_conditional standard conditional
    have near : (s.down f o).enclosing? Expr.isTransparent = some s :=
      Site.enclosing_child filled (by rw [node]; rfl)
    exact Site.within_of_enclosing near (branch k isCall (.enclosing around))
      (Expr.isTransparent_of_isCall isCall) around (branch c isCall' inside)
      (Expr.isTransparent_of_isCall isCall')

/-- A place below a call lies in the qualifier or the argument of the call. -/
theorem OperandsOf.within {left right : Site} (h : OperandsOf left right k) (inside : s.Within k)
    (differs : k ≠ s) (solid : s.node.isParen = false) : s.Within left ∨ s.Within right := by
  obtain ⟨q, id, a, sp, node, rfl, rfl⟩ := h
  obtain ⟨f, o, opening, inner⟩ := inside.opening differs
  rw [node] at opening
  simp only [Expr.openings, Expr.argFrames, List.mem_cons, Prod.mk.injEq, List.not_mem_nil,
    or_false] at opening
  rcases opening with ⟨rfl, rfl⟩ | ⟨rfl, rfl⟩
  · exact .inl (inner.into_bare solid)
  · exact .inr (inner.into_bare solid)

/-- A match that lies inside another one lies in one of its operands. -/
theorem within_operand (standard : d.compare = nullComparison) (outer : m ∈ d.scan t)
    (inner : m' ∈ d.scan t) (above : m.span.isAbove m'.span = true) :
    m'.span.Within m.left ∨ m'.span.Within m.right := by
  obtain ⟨k, listed, found⟩ := analyze_of_mem_scan outer
  obtain ⟨c, listed', found'⟩ := analyze_of_mem_scan inner
  have isCall := isCall_of_mem_calls listed
  have isCall' := isCall_of_mem_calls listed'
  obtain ⟨inside, differs⟩ := Site.within_of_isAbove
    ((in_of_mem_scan inner).span.trans (in_of_mem_scan outer).span.symm) above
  obtain ⟨place, inPlace⟩ := analyze_place found'
  have inCallee := within_callee standard isCall found isCall' (inPlace.trans inside)
  have other : k ≠ c := by
    rintro rfl
    cases found.symm.trans found'
    exact differs rfl
  obtain ⟨belowCallee, strictly⟩ := analyze_below found' inCallee other isCall
  exact (analyze_operandsOf standard isCall found).within belowCallee strictly
    (Expr.isParen_of_isPlace place)

end Detector

end NullSafeEq
