import NullSafeEq.Proofs.Idiom.Coverage
import NullSafeEq.Proofs.Tree.Walk

/-!
# One match for each call

A call is looked at in the construct around it, and what is recognised there is a call again. It is
the same one: a null check in the place of the call would leave no room for it. So the match of a
call speaks of this call, different calls have matches at different places, and no match is dropped
because its place was reported before.
-/
namespace NullSafeEq

namespace Site

/-- Parentheses and prefix operators have one operand each, so below a site they lead to one node
only that has the same construct around it. Whatever else lies below the site lies within it. -/
theorem within_of_enclosing {r k c around : Site}
    (near : r.enclosing? Expr.isTransparent = some around)
    (within : k.Within r) (solid : k.node.isTransparent = false)
    (same : k.enclosing? Expr.isTransparent = some around)
    (within' : c.Within r) (solid' : c.node.isTransparent = false) : c.Within k := by
  obtain ⟨e, above⟩ := r
  induction e using Expr.induct_children generalizing above with
  | step e ih =>
  cases transparent : e.isTransparent with
  | false =>
    have stops : k = ⟨e, above⟩ := by
      by_contra differs
      have outer := enclosing_between same within (Ne.symm differs) transparent
      exact enclosing_ne near (outer.antisymm (.enclosing near))
    rwa [stops]
  | true =>
    have below {x : Site} (within : x.Within ⟨e, above⟩) (solid : x.node.isTransparent = false)
        {f : Frame} {o : Expr} (only : e.openings = [(f, o)]) : x.Within ⟨o, f :: above⟩ := by
      have differs : (⟨e, above⟩ : Site) ≠ x := by
        rintro rfl
        rw [transparent] at solid
        cases solid
      obtain ⟨f', o', opening, inner⟩ := within.opening differs
      rw [only] at opening
      cases List.mem_singleton.mp opening
      exact inner
    cases e with
    | prefixed op o sp =>
      have inner : enclosing? Expr.isTransparent ⟨o, .operandOf op sp :: above⟩ = some around := by
        rw [enclosing_cons, Frame.fill, if_pos transparent, near]
      exact ih o List.mem_cons_self _ inner (below within solid rfl) (below within' solid' rfl)
    | paren o sp =>
      have inner : enclosing? Expr.isTransparent ⟨o, .bodyOfParen sp :: above⟩ = some around := by
        rw [enclosing_cons, Frame.fill, if_pos transparent, near]
      exact ih o List.mem_cons_self _ inner (below within solid rfl) (below within' solid' rfl)
    | _ => cases transparent

theorem eq_of_enclosing {r c c' around : Site}
    (near : r.enclosing? Expr.isTransparent = some around)
    (within : c.Within r) (solid : c.node.isTransparent = false)
    (same : c.enclosing? Expr.isTransparent = some around)
    (within' : c'.Within r) (solid' : c'.node.isTransparent = false)
    (same' : c'.enclosing? Expr.isTransparent = some around) : c = c' :=
  (within_of_enclosing near within' solid' same' within solid).antisymm
    (within_of_enclosing near within solid same within' solid')

end Site

namespace Detector
variable {d : Detector} {m m' : Match} {call call' s s' : Site}

/-! ## What is recognised around a call -/

section
variable {r x : Site} (near : r.enclosing? Expr.isTransparent = some s) (inner : x.Within r)
  (around : x.enclosing? Expr.isTransparent = some s) (within : call.Within r)
  (isCall : call.node.isCall = true) (same : call.enclosing? Expr.isTransparent = some s)
include near inner around within isCall same

/-- A null check leaves no room for a call. -/
theorem no_nullCheck : nullCheck? nullComparison x = none := by
  rw [Option.eq_none_iff_forall_ne_some]
  intro test tests
  obtain ⟨equal, comparison, -⟩ := nullCheck_cases tests
  obtain ⟨op, l, r', sp, node, -⟩ := nullComparison_cases comparison
  have inside : (unwrapNegation x).1.bare.Within r :=
    ((Site.Within.bare _).trans (unwrapNegation_within x)).trans inner
  have between : (unwrapNegation x).1.bare.enclosing? Expr.isTransparent = some s := by
    rw [Site.around_bare, enclosing_unwrapNegation, around]
  have calls := Site.eq_of_enclosing near within (Expr.isTransparent_of_isCall isCall) same inside
    (by rw [node]; rfl) between
  rw [calls, node] at isCall
  cases isCall

/-- A call of the equality method that is recognised is the call. -/
theorem operandsOf_equalityCall {found : EqualityCall}
    (calls : equalityCall? d.method x = some found) :
    OperandsOf found.qualifier found.argument call := by
  obtain ⟨q, a, sp, node, -, rfl⟩ := equalityCall_iff.mp calls
  have between := (enclosing_unwrapNegation x).trans around
  obtain rfl := Site.eq_of_enclosing near within (Expr.isTransparent_of_isCall isCall) same
    ((unwrapNegation_within x).trans inner) (by rw [node]; rfl) between
  exact ⟨q, d.method, a, sp, node, rfl, rfl⟩

end

/-- A guarded call around a call speaks of this call, which stands on the right. -/
theorem binary_operandsOf (standard : d.compare = nullComparison)
    (around : call.enclosing? Expr.isTransparent = some s) (isCall : call.node.isCall = true)
    (h : d.binary? s = some m) : OperandsOf m.left m.right call ∧
      ∃ op l r sp, s.node = .binary op l r sp ∧ call.Within (s.down (.rightOf op l sp) r) := by
  obtain ⟨op, l, r, sp, callee, equal, node, inner, between, found⟩ := binary_guarded h
  obtain ⟨equals, calls, -, test, tests, -, checked, -, -, rfl⟩ := guardedCall_iff.mp found
  have counts : s.node.isTransparent = false := by rw [node]; rfl
  have nearLeft : (s.down (.leftOf op r sp) l).enclosing? Expr.isTransparent = some s :=
    Site.enclosing_child node.symm counts
  have nearRight : (s.down (.rightOf op l sp) r).enclosing? Expr.isTransparent = some s :=
    Site.enclosing_child node.symm counts
  rcases (Site.Within.enclosing around).side node (Site.enclosing_ne around) with within | within
  · rw [standard, no_nullCheck nearLeft (.refl _) nearLeft within isCall around] at tests
    cases tests
  · exact ⟨operandsOf_equalityCall nearRight inner between within isCall around calls,
      op, l, r, sp, node, within⟩

/-- A ternary around a call speaks of this call. -/
theorem conditional_operandsOf (standard : d.compare = nullComparison)
    (around : call.enclosing? Expr.isTransparent = some s) (isCall : call.node.isCall = true)
    (h : d.conditional? s = some m) : OperandsOf m.left m.right call := by
  obtain ⟨t, y, n, sp, node, test, tests, other, others, found, calls, -, -, -, -, -, -, -, rfl⟩ :=
    conditional_iff.mp h
  rw [standard] at tests others
  have near {f : Frame} {c : Expr} (filled : f.fill c = s.node) :
      (s.down f c).enclosing? Expr.isTransparent = some s :=
    Site.enclosing_child filled (by rw [node]; rfl)
  have nearBare {f : Frame} {c : Expr} (filled : f.fill c = s.node) :
      (s.down f c).bare.enclosing? Expr.isTransparent = some s := by
    rw [Site.around_bare, near filled]
  have noNull {f : Frame} {c : Expr} (filled : f.fill c = s.node) {test : NullCheck}
      (tests : nullCheck? nullComparison (s.down f c).bare = some test) :
      ¬ call.Within (s.down f c) := by
    intro within
    rw [no_nullCheck (near filled) (.bare _) (nearBare filled) within isCall around] at tests
    cases tests
  have speaks {f : Frame} {c : Expr} (filled : f.fill c = s.node)
      (calls : equalityCall? d.method (s.down f c).bare = some found)
      (within : call.Within (s.down f c)) : OperandsOf found.qualifier found.argument call :=
    operandsOf_equalityCall (near filled) (.bare _) (nearBare filled) within isCall around calls
  have head : (Frame.testOf y n sp).fill t = s.node := node.symm
  have yes : (Frame.yesOf t n sp).fill y = s.node := node.symm
  have no : (Frame.noOf t y sp).fill n = s.node := node.symm
  rcases (Site.Within.enclosing around).branch node (Site.enclosing_ne around) with
    within | within | within
  · rw [no_nullCheck (near head) (.refl _) (near head) within isCall around] at tests
    cases tests
  · cases polarity : test.equal with
    | true =>
      rw [polarity] at others
      exact (noNull yes others within).elim
    | false =>
      rw [polarity] at calls
      exact speaks yes calls within
  · cases polarity : test.equal with
    | true =>
      rw [polarity] at calls
      exact speaks no calls within
    | false =>
      rw [polarity] at others
      exact (noNull no others within).elim

/-- The match of a call speaks of this call. -/
theorem analyze_operandsOf (standard : d.compare = nullComparison)
    (isCall : call.node.isCall = true) (h : d.analyze? call = some m) :
    OperandsOf m.left m.right call := by
  rcases analyze_cases h with direct | ⟨context, around, binary | conditional⟩
  · exact direct_operandsOf direct
  · exact (binary_operandsOf standard around isCall binary).1
  · exact conditional_operandsOf standard around isCall conditional

/-! ## Places -/

theorem isBinary_span (h : d.binary? s = some m) : m.span.node.isBinary = true := by
  obtain ⟨isBinary, here | ⟨op, left, sp, above, -, here⟩⟩ := binary_place h
  · rw [here, isBinary]
  · rw [here]
    rfl

/-- The right operand of a guarded call that takes in a comparison in front of it is no call. -/
theorem binary_not_widened (standard : d.compare = nullComparison)
    (around : call.enclosing? Expr.isTransparent = some s) (isCall : call.node.isCall = true)
    (h : d.binary? s = some m) (isBinary : s'.node.isBinary = true) {op : BinaryOp} {left : Expr}
    {sp : Option Span} {above : List Frame}
    (frames : s'.wrapped.above = .rightOf op left sp :: above) :
    s ≠ ⟨.binary op left s'.wrapped.node sp, above⟩ := by
  rintro rfl
  obtain ⟨-, op', l, r, sp', node, within⟩ := binary_operandsOf standard around isCall h
  cases node
  have operand : Site.down ⟨.binary op left s'.wrapped.node sp, above⟩ (.rightOf op left sp)
      s'.wrapped.node = s'.wrapped := by
    rw [Site.down, ← frames]
  have near : s'.wrapped.enclosing? Expr.isTransparent =
      some ⟨.binary op left s'.wrapped.node sp, above⟩ := by
    rw [← operand]
    exact Site.enclosing_child rfl rfl
  have inner : s'.enclosing? Expr.isTransparent = s'.wrapped.enclosing? Expr.isTransparent :=
    (Site.enclosing_wrapBelow (fun _ _ => rfl) s'.node s'.above).symm
  rw [operand] at within
  have solid := Expr.isTransparent_of_isPlace (Expr.isPlace_of_isBinary isBinary)
  obtain rfl := Site.eq_of_enclosing near within (Expr.isTransparent_of_isCall isCall) around
    (.wrapped s') solid (inner.trans near)
  rw [Expr.isCall_of_isBinary isBinary] at isCall
  cases isCall

/-- Guarded calls around two calls have different places unless they are the same. -/
theorem binary_injective (standard : d.compare = nullComparison)
    (around : call.enclosing? Expr.isTransparent = some s) (isCall : call.node.isCall = true)
    (h : d.binary? s = some m) (around' : call'.enclosing? Expr.isTransparent = some s')
    (isCall' : call'.node.isCall = true) (h' : d.binary? s' = some m') (place : m.span = m'.span) :
    s = s' := by
  obtain ⟨isBinary, here | ⟨op, left, sp, above, frames, here⟩⟩ := binary_place h
  · obtain ⟨isBinary', there | ⟨op', left', sp', above', frames', there⟩⟩ := binary_place h'
    · rw [← here, place, there]
    · exact (binary_not_widened standard around isCall h isBinary' frames'
        (here.symm.trans (place.trans there))).elim
  · obtain ⟨isBinary', there | ⟨op', left', sp', above', frames', there⟩⟩ := binary_place h'
    · exact (binary_not_widened standard around' isCall' h' isBinary frames
        (there.symm.trans (place.symm.trans here))).elim
    · have noParen {e : Expr} (isBinary : e.isBinary = true) : e.isParen = false :=
        Expr.isParen_of_isPlace (Expr.isPlace_of_isBinary isBinary)
      obtain ⟨node, outer⟩ := Site.mk.inj (here.symm.trans (place.trans there))
      obtain ⟨rfl, rfl, inner, rfl⟩ := Expr.binary.inj node
      have wrapped : s.wrapped = s'.wrapped := by
        rw [show s.wrapped = ⟨s.wrapped.node, s.wrapped.above⟩ from rfl, inner, frames, outer,
          ← frames']
      rw [← Site.bare_wrapped (noParen isBinary), wrapped,
        Site.bare_wrapped (noParen isBinary')]

/-- Matches of two calls have different places unless the calls are the same. -/
theorem analyze_injective (standard : d.compare = nullComparison)
    (isCall : call.node.isCall = true) (h : d.analyze? call = some m)
    (isCall' : call'.node.isCall = true) (h' : d.analyze? call' = some m')
    (place : m.span = m'.span) : call = call' := by
  by_cases placed : m.span.node.isCall = true
  · rw [← analyze_of_isCall h placed, place, analyze_of_isCall h' (place ▸ placed)]
  -- an operand of the match tells which call it speaks of
  have same (found : m = m') : call = call' := by
    subst found
    exact Option.some.inj ((analyze_operandsOf standard isCall h).enclosing.1.symm.trans
      (analyze_operandsOf standard isCall' h').enclosing.1)
  have notDirect {k : Site} {n : Match} (isCall : k.node.isCall = true)
      (spans : m.span = n.span) : d.direct? k ≠ some n := by
    intro direct
    rw [spans, (direct_place direct).1] at placed
    exact placed isCall
  have apart {s s' : Site} {n n' : Match} (spans : n.span = n'.span)
      (conditional : d.conditional? s = some n) : d.binary? s' ≠ some n' := by
    intro binary
    have isBinary := isBinary_span binary
    obtain ⟨stays, t, y, no, sp, node⟩ := conditional_place conditional
    rw [← spans, stays, node] at isBinary
    cases isBinary
  rcases analyze_cases h with direct | ⟨s, around, binary | conditional⟩
  · exact (notDirect isCall rfl direct).elim
  · rcases analyze_cases h' with direct' | ⟨s', around', binary' | conditional'⟩
    · exact (notDirect isCall' place direct').elim
    · obtain rfl := binary_injective standard around isCall binary around' isCall' binary' place
      exact same (Option.some.inj (binary.symm.trans binary'))
    · exact (apart place.symm conditional' binary).elim
  · rcases analyze_cases h' with direct' | ⟨s', around', binary' | conditional'⟩
    · exact (notDirect isCall' place direct').elim
    · exact (apart place conditional binary').elim
    · obtain rfl : s = s' := by
        rw [← (conditional_place conditional).1, place, (conditional_place conditional').1]
      exact same (Option.some.inj (conditional.symm.trans conditional'))

/-! ## All matches of a tree -/

/-- Matches with different places are all kept. -/
theorem firstPerPlace_eq_self {seen : List Path} {found : List Match}
    (distinct : (found.map fun m => m.span.path).Nodup) (unseen : ∀ m ∈ found, m.span.path ∉ seen) :
    firstPerPlace seen found = found := by
  induction found generalizing seen with
  | nil => rfl
  | cons m rest ih =>
    obtain ⟨new, later⟩ := List.nodup_cons.mp distinct
    obtain ⟨here, others⟩ := List.forall_mem_cons.mp unseen
    have kept : firstPerPlace (m.span.path :: seen) rest = rest := ih later fun o member old => by
      rcases List.mem_cons.mp old with same | old
      · exact new (List.mem_map.mpr ⟨o, member, same⟩)
      · exact others o member old
    rw [firstPerPlace, if_neg (by simpa using here), kept]

theorem isCall_of_mem_calls {t : Tree} (h : call ∈ t.calls) : call.node.isCall = true :=
  (mem_calls_iff.mp h).2

/-- The matches of all calls have different places. -/
theorem places_distinct (standard : d.compare = nullComparison) (t : Tree) :
    ((t.calls.filterMap d.analyze?).map fun m => m.span.path).Nodup := by
  have distinct : t.calls.Nodup := t.root.nodup_sites.filter _
  rw [List.Nodup, List.pairwise_map, List.pairwise_filterMap]
  refine distinct.imp_of_mem fun {c c'} member member' differs m found m' found' path => ?_
  have top : m.span.top = m'.span.top := by
    rw [(analyze_in found).span, (analyze_in found').span, top_of_mem_calls member,
      top_of_mem_calls member']
  exact differs (analyze_injective standard (isCall_of_mem_calls member) found
    (isCall_of_mem_calls member') found' (Site.eq_of_path top path))

/-- The matches of a tree are those of its calls, none of which is dropped. -/
theorem scan_eq_filterMap (standard : d.compare = nullComparison) (t : Tree) :
    d.scan t = t.calls.filterMap d.analyze? := by
  cases applies : d.applicable with
  | true =>
    rw [scan, if_pos applies, firstPerPlace_eq_self (places_distinct standard t)]
    nofun
  | false =>
    have nothing : d.analyze? = fun _ => none := by
      funext call
      simp [analyze?, applies]
    rw [scan, nothing, applies, List.filterMap_none]
    rfl

theorem mem_scan_of_analyze (standard : d.compare = nullComparison) {t : Tree}
    (top : call.top = t.root) (found : d.analyze? call = some m) : m ∈ d.scan t := by
  have isCall := isCall_of_calledName (calledName_of_analyze found)
  rw [scan_eq_filterMap standard]
  exact List.mem_filterMap.mpr ⟨call, mem_calls_iff.mpr ⟨top, isCall⟩, found⟩

end Detector

/-- The match is about a call: its operands are the qualifier and the only argument of this call
without the parentheses around them, and the call is the place of the match or lies below it. -/
structure Match.Concerns (m : Match) (call : Site) : Prop where
  qualifier : call.receiver?.map Site.bare = some m.left
  argument : call.soleArgument?.map Site.bare = some m.right
  notSelf : m.left.node.isSelf = false
  direct : m.form = .directCall → m.span = call
  around : m.form ≠ .directCall → m.span.isAbove call = true

namespace Detector
variable {d : Detector} {m : Match} {call : Site}

/-- The place of a match is a call just when the match is a bare call. -/
theorem form_iff (isCall : call.node.isCall = true) (h : d.analyze? call = some m) :
    m.form = .directCall ↔ m.span.node.isCall = true := by
  rcases analyze_cases h with direct | ⟨context, -, binary | conditional⟩
  · rw [(direct_place direct).1]
    obtain ⟨-, -, -, -, -, rfl⟩ := direct_iff.mp direct
    exact iff_of_true rfl isCall
  · rw [binary_form binary, Expr.isCall_of_isBinary (isBinary_span binary)]
    exact iff_of_false (by simp) (by simp)
  · obtain ⟨t, y, n, sp, node, -, -, -, -, -, -, -, -, -, -, -, -, -, rfl⟩ :=
      conditional_iff.mp conditional
    exact iff_of_false (by simp) (by simp [node, Expr.isCall])

theorem receiver_of_analyze (h : d.analyze? call = some m) :
    (call.receiver?.any fun q => q.node.isSelf) = false := by
  unfold analyze? at h
  split at h
  · cases h
  · split at h
    next => cases h
    next other => exact Bool.eq_false_iff.mpr other

theorem concerns_of_analyze (standard : d.compare = nullComparison)
    (isCall : call.node.isCall = true) (h : d.analyze? call = some m) : m.Concerns call := by
  obtain ⟨q, id, a, sp, node, left, right⟩ := analyze_operandsOf standard isCall h
  have notSelf := receiver_of_analyze h
  simp only [Site.receiver?, node, Option.any_some, Site.down] at notSelf
  refine ⟨?_, ?_, ?_, ?_, ?_⟩
  · simp only [Site.receiver?, node, Option.map_some, left]
  · simp only [Site.soleArgument?, node, Option.map_some, right]
  · rw [left, Site.node_bare, Expr.isSelf, Expr.bare_bare]
    exact notSelf
  · intro form
    exact analyze_of_isCall h ((form_iff isCall h).mp form)
  · intro form
    have within := (analyze_place h).2
    refine within.isAbove fun same => form ((form_iff isCall h).mpr ?_)
    rw [same]
    exact isCall

/-- The matches of a tree are the matches of its calls in their order, of which none is dropped and
no two have one place. Each is about the call that it was found for. -/
theorem scan_per_call (standard : d.compare = nullComparison) (t : Tree) :
    d.scan t = t.calls.filterMap d.analyze? ∧
    ((d.scan t).map fun m => m.span.path).Nodup ∧
    ∀ call ∈ t.calls, ∀ m, d.analyze? call = some m → m.Concerns call :=
  ⟨scan_eq_filterMap standard t, d.scan_distinct t,
    fun _ member _ found => concerns_of_analyze standard (isCall_of_mem_calls member) found⟩

/-- A guarded call with a bare call in its argument. -/
theorem scan_per_call_nested :
    let d : Detector := ⟨fun _ => .value, false, "equals", nullComparison, true⟩
    ∃ t outer inner m m', Tree.read "a != null && (a).equals(b.equals(c))" = .ok t ∧
      t.calls = [outer, inner] ∧ d.scan t = [m, m'] ∧ m.form = .binary ∧ m'.form = .directCall ∧
      m.Concerns outer ∧ m'.Concerns inner := by
  intro d
  let t : Tree := ⟨.binary .and
    (.binary .ne (.name "a" (some ⟨0, 1⟩)) (.literal .null "null" (some ⟨5, 9⟩)) (some ⟨0, 9⟩))
    (.invoke (.paren (.name "a" (some ⟨14, 15⟩)) (some ⟨13, 16⟩)) "equals"
      [.invoke (.name "b" (some ⟨24, 25⟩)) "equals" [.name "c" (some ⟨33, 34⟩)] (some ⟨24, 35⟩)]
      (some ⟨13, 36⟩)) (some ⟨0, 36⟩), some "a != null && (a).equals(b.equals(c))"⟩
  have read : Tree.read "a != null && (a).equals(b.equals(c))" = .ok t := rfl
  obtain ⟨outer, inner, m, m', calls, matched, matched', forms⟩ : ∃ outer inner m m',
      t.calls = [outer, inner] ∧ d.analyze? outer = some m ∧ d.analyze? inner = some m' ∧
      m.form = .binary ∧ m'.form = .directCall := ⟨_, _, _, _, rfl, rfl, rfl, rfl, rfl⟩
  obtain ⟨all, -, concerns⟩ := scan_per_call (d := d) rfl t
  rw [calls] at all concerns
  refine ⟨t, outer, inner, m, m', read, calls, ?_, forms.1, forms.2,
    concerns outer (by simp) m matched, concerns inner (by simp) m' matched'⟩
  rw [all]
  simp [matched, matched']

end Detector

end NullSafeEq
