import NullSafeEq.Proofs.Idiom.Relocation
import NullSafeEq.Proofs.Rewriting.FixGrafts

/-!
# Searching a grafted tree

What a detector finds in a tree once the outermost matches have been replaced. Two things can be
left over: matches in an operand, which is kept as it was, and a bare call on the left of a
disjunction, which starts to count when a negated replacement comes to stand on the right.
-/
namespace NullSafeEq

/-- A bare call of the equality method on the left of a disjunction that has the place of the match
on its right. -/
def Match.Exposes (d : Detector) (m : Match) (call : Site) : Prop :=
  d.requireGuard = false ∧ (∃ q a sp, call.node = .invoke q d.method [a] sp ∧ q.isSelf = false) ∧
  ∃ l r sp above, call.enclosing? Expr.isTransparent = some ⟨.binary .or l r sp, above⟩ ∧
    m.span = (Site.down ⟨.binary .or l r sp, above⟩ (.rightOf .or l sp) r).bare

/-- Replacing the outermost matches leaves nothing to be found. -/
structure Detector.Settles (d : Detector) (t : Tree) : Prop where
  /-- No match lies in an operand of an outermost one. -/
  flat : ∀ m ∈ Tree.outermost (d.scan t), ∀ inner ∈ d.scan t,
    m.left.isAtOrAbove inner.span = false ∧ m.right.isAtOrAbove inner.span = false
  /-- No negated outermost match turns up on the right of a bare call. -/
  hidden : ∀ m ∈ Tree.outermost (d.scan t), m.negated = true → ∀ call ∈ t.calls,
    ¬ m.Exposes d call

/-! ## Operands -/

namespace Detector
variable {d : Detector} {t : Tree} {n : DottedName} {m : Match} {s : Site}

/-- In the arguments of a call only bare calls count. -/
theorem accepts_call {c e : Expr} (isCall : c.isCall = true) :
    d.Accepts (some c) e ↔ d.IsDirect e := by
  cases c with
  | call | invoke => simp [Accepts, IsGuard, IsTernary, Expr.isBinary]
  | _ => cases isCall

/-- In the arguments of a call an expression is quiet when it is quiet by itself. -/
theorem quiet_in_call {c e : Expr} (isCall : c.isCall = true) :
    d.Quiet (some c) e ↔ d.Quiet none e := by
  rw [quiet_iff, quiet_iff]
  refine forall₂_congr fun r _ => not_congr ?_
  unfold Site.contextIn Reports
  cases r.enclosing? Expr.isTransparent with
  | some around => exact Iff.rfl
  | none => exact and_congr_right' (and_congr_right' (accepts_call isCall))

/-- An operand is quiet in a helper call just when no match lies in it. -/
theorem quiet_operand_iff (standard : d.compare = nullComparison) (applies : d.applicable = true)
    {o : Site} {c : Expr} (top : o.top = t.root) (inCall : o.InCall) (isCall : c.isCall = true) :
    d.Quiet (some c) o.node ↔ ∀ inner ∈ d.scan t, o.isAtOrAbove inner.span = false := by
  rw [quiet_in_call isCall, quiet_none_iff standard applies]
  constructor
  · intro quiet inner member
    rw [Bool.eq_false_iff]
    intro below
    obtain ⟨call, -, found⟩ := analyze_of_mem_scan member
    have inside : inner.span.Within o :=
      ⟨(in_of_mem_scan member).span.trans top.symm, Site.isAtOrAbove_iff.mp below⟩
    obtain ⟨r, topR, rfl, alone⟩ :=
      analyze_operand standard inCall ((analyze_place found).2.trans inside)
    rw [found, quiet r topR] at alone
    cases alone
  · intro empty r topR
    rw [Option.eq_none_iff_forall_ne_some]
    intro m found
    have within : (m.under o.above).span.Within o :=
      .under ((analyze_place found).2.1.symm.trans topR)
    have outside := empty _ (mem_scan_under standard top inCall topR found)
    rw [Site.isAtOrAbove_iff.mpr within.2] at outside
    cases outside

theorem quiet_of_callFree {context : Option Expr} {e : Expr} (h : e.CallFree) :
    d.Quiet context e := by
  induction e using Expr.induct_children generalizing context with
  | step e ih =>
  refine .node (fun reported => ?_) fun c member => ih c member (h.child member)
  have := h.here
  rw [isCall_of_calledName reported.1] at this
  cases this

theorem callFree_toExpr (n : DottedName) : n.toExpr.CallFree := by
  induction n with
  | plain id => exact .node rfl nofun
  | member outer id ih => exact .node rfl (List.forall_mem_singleton.mpr ih)

/-- A helper call is quiet when it is not reported itself and its arguments are quiet in it. -/
theorem quiet_call {context : Option Expr} {l r : Expr} : d.Quiet context (n.call [l, r]) ↔
    ¬ d.Reports context (n.call [l, r]) ∧ d.Quiet (some (n.call [l, r])) l ∧
      d.Quiet (some (n.call [l, r])) r := by
  constructor
  · intro h
    refine ⟨h.here, ?_⟩
    cases n with
    | plain id =>
      exact ⟨h.child List.mem_cons_self, h.child (List.mem_cons_of_mem _ List.mem_cons_self)⟩
    | member outer id =>
      exact ⟨h.child (List.mem_cons_of_mem _ List.mem_cons_self),
        h.child (List.mem_cons_of_mem _ (List.mem_cons_of_mem _ List.mem_cons_self))⟩
  · rintro ⟨here, left, right⟩
    refine .node here ?_
    cases n with
    | plain id => exact List.forall_mem_cons.mpr ⟨left, List.forall_mem_singleton.mpr right⟩
    | member outer id =>
      exact List.forall_mem_cons.mpr ⟨quiet_of_callFree (callFree_toExpr outer),
        List.forall_mem_cons.mpr ⟨left, List.forall_mem_singleton.mpr right⟩⟩

/-- A `!` in front does not count. -/
theorem quiet_not {context : Option Expr} {e : Expr} {sp : Option Span} :
    d.Quiet context (.prefixed .not e sp) ↔ d.Quiet context e := by
  constructor
  · intro h
    exact h.child List.mem_cons_self
  · intro h
    exact .node (fun reported => by cases isCall_of_calledName reported.1)
      (List.forall_mem_singleton.mpr h)

theorem quiet_rewritten {context : Option Expr} : d.Quiet context (m.rewritten n) ↔
    d.Quiet context (n.call [m.left.node, m.right.node]) := by
  rcases m.rewritten_cases n with same | ⟨-, same⟩
  · rw [same]
  · rw [same, quiet_not]

/-- What takes the place of an outermost match has quiet operands just when no match lies in
them. -/
theorem quiet_operands_iff (standard : d.compare = nullComparison) (applies : d.applicable = true)
    (member : m ∈ d.scan t) {c : Expr} (isCall : c.isCall = true) :
    (d.Quiet (some c) m.left.node ∧ d.Quiet (some c) m.right.node) ↔
      ∀ inner ∈ d.scan t,
        m.left.isAtOrAbove inner.span = false ∧ m.right.isAtOrAbove inner.span = false := by
  obtain ⟨call, -, found⟩ := analyze_of_mem_scan member
  obtain ⟨k, -, operands⟩ := analyze_operands found
  have inside := in_of_mem_scan member
  rw [quiet_operand_iff standard applies inside.left (operands.inCall (i := 0) rfl) isCall,
    quiet_operand_iff standard applies inside.right (operands.inCall (i := 1) rfl) isCall]
  exact ⟨fun both inner listed => ⟨both.1 inner listed, both.2 inner listed⟩,
    fun both =>
      ⟨fun inner listed => (both inner listed).1, fun inner listed => (both inner listed).2⟩⟩

/-! ## Around the replacements -/

/-- No match covers a site that lies within none of the outermost ones. -/
theorem not_within_of_clear (standard : d.compare = nullComparison) (top : s.top = t.root)
    (clear : s.Clear (d.fixGrafts n t))
    (ungrafted : d.fixGrafts n t s.path = none) {call : Site} (found : d.analyze? call = some m)
    (within : call.Within s) : ¬ s.Within m.span := by
  intro inside
  exact uncovered_of_clear clear ungrafted
    (mem_scan_of_analyze standard (within.1.trans top) found) inside

/-- Around no match there is an idiom, whatever is grafted into it. -/
theorem no_idiom_of_clear (standard : d.compare = nullComparison) (applies : d.applicable = true)
    (top : s.top = t.root) (clear : s.Clear (d.fixGrafts n t))
    (ungrafted : d.fixGrafts n t s.path = none) :
    ¬ d.IsGuard (s.grafted (d.fixGrafts n t)) ∧ ¬ d.IsTernary (s.grafted (d.fixGrafts n t)) := by
  have origin := (fixGrafts_fromMatches (d := d) (n := n) (t := t)).at s.path
  rw [Site.grafted, Expr.graft_of_none ((Grafts.at_root _ _).trans ungrafted)]
  refine ⟨fun guard => ?_, fun ternary => ?_⟩
  · obtain ⟨m, found⟩ := (binary_isSome standard s).mpr (isGuard_of_graft origin guard)
    obtain ⟨call, within, analyzed⟩ := call_of_binary applies found
    refine not_within_of_clear standard top clear ungrafted analyzed within ?_
    obtain ⟨-, place | ⟨op, left, sp, above, frames, place⟩⟩ := binary_place found
    · rw [place]
      exact .refl s
    · rw [place]
      exact .wrapped_up frames
  · obtain ⟨m, found⟩ := (conditional_isSome standard s).mpr (isTernary_of_graft origin ternary)
    obtain ⟨call, within, analyzed⟩ := call_of_conditional applies found
    refine not_within_of_clear standard top clear ungrafted analyzed within ?_
    rw [(conditional_place found).1]
    exact .refl s

/-- A graft is no `this` or `super`, and takes the place of none. -/
theorem isSelf_grafted (top : s.top = t.root) :
    (s.grafted (d.fixGrafts n t)).isSelf = s.node.isSelf := by
  rcases s.bare_grafted (d.fixGrafts n t) with
    ⟨a, new, within, bare, grafts, same⟩ | ⟨ungrafted, same⟩
  · obtain ⟨m, member, rfl, rfl⟩ := fixGrafts_site (within.1.trans top) grafts
    have place := place_of_mem_scan (outermost_spec.mp member).1
    have new : (s.grafted (d.fixGrafts n t)).isSelf = false := by
      rw [Expr.isSelf, same, m.bare_rewritten]
      rcases m.rewritten_cases n with call | ⟨-, call⟩
      · rw [call]
        cases n <;> rfl
      · rw [call]
    have old : s.node.isSelf = false := by
      rw [Expr.isSelf, ← Site.node_bare, ← bare, Site.bareBelow_of_isPlace place]
      revert place
      cases m.span.node <;> simp [Expr.isPlace]
    rw [new, old]
  · rw [Expr.isSelf, same, Site.grafted_of_none ungrafted, Site.node_bare, Expr.isSelf]
    cases s.node.bare <;> rfl

theorem isOnSelf_grafted (top : s.top = t.root) (ungrafted : d.fixGrafts n t s.path = none) :
    (s.grafted (d.fixGrafts n t)).isOnSelf = s.node.isOnSelf := by
  rw [Site.grafted_of_none ungrafted]
  cases same : s.node with
  | invoke q id args sp =>
    have receiverTop : (s.down (.receiverOf id args sp) q).top = t.root := by
      rw [Site.top_down (f := .receiverOf id args sp) same.symm, top]
    have receiver := isSelf_grafted (d := d) (n := n) receiverTop
    rw [Site.grafted, Site.path_down] at receiver
    exact receiver
  | _ => rfl

theorem isNot_rewritten (n : DottedName) (m : Match) : (m.rewritten n).isNot = m.negated := by
  unfold Match.rewritten
  cases m.negated with
  | true => rfl
  | false => cases n <;> rfl

/-- Something is a negation once the grafts are in place when it was one, or when it was the place
of a negated match. -/
theorem isNot_grafted (top : s.top = t.root) :
    (s.grafted (d.fixGrafts n t)).bare.isNot = true ↔ s.node.bare.isNot = true ∨
      ∃ m ∈ Tree.outermost (d.scan t), m.negated = true ∧ m.span = s.bare := by
  rw [← s.node_bare]
  rcases s.bare_grafted (d.fixGrafts n t) with ⟨a, new, within, bare, grafts, same⟩ | ⟨free, same⟩
  · obtain ⟨m, member, rfl, rfl⟩ := fixGrafts_site (within.1.trans top) grafts
    have place := place_of_mem_scan (outermost_spec.mp member).1
    rw [Site.bareBelow_of_isPlace place] at bare
    have old : m.span.node.isNot = false := by
      revert place
      cases m.span.node <;> simp [Expr.isPlace, Expr.isNot]
    rw [same, m.bare_rewritten, isNot_rewritten, ← bare, old]
    constructor
    · intro negated
      exact .inr ⟨m, member, negated, rfl⟩
    · rintro (impossible | ⟨other, otherMember, negated, place'⟩)
      · cases impossible
      · have grafts' := fixGrafts_span (n := n) otherMember
        rw [place', grafts] at grafts'
        rw [← isNot_rewritten n m, Option.some.inj grafts', isNot_rewritten, negated]
  · have kept (f : Nat → Expr → Expr) (e : Expr) : (e.mapChildren f).isNot = e.isNot := by
      cases e with
      | prefixed op => cases op <;> rfl
      | _ => rfl
    rw [same, Site.grafted_of_none free, kept]
    refine ⟨.inl, ?_⟩
    rintro (negation | ⟨m, member, negated, place⟩)
    · exact negation
    · have grafts := fixGrafts_span (n := n) member
      rw [place, free] at grafts
      cases grafts

/-- A disjunction turns into the shape of a guarded call when a negated match on its right is
replaced. -/
theorem isGuardShape_grafted (top : s.top = t.root) (ungrafted : d.fixGrafts n t s.path = none) :
    isGuardShape (s.grafted (d.fixGrafts n t)) = true ↔ isGuardShape s.node = true ∨
      ∃ l r sp, s.node = .binary .or l r sp ∧ ∃ m ∈ Tree.outermost (d.scan t),
        m.negated = true ∧ m.span = (s.down (.rightOf .or l sp) r).bare := by
  rw [Site.grafted_of_none ungrafted]
  cases same : s.node with
  | binary op l r sp =>
    cases op with
    | or =>
      have rightTop : (s.down (.rightOf .or l sp) r).top = t.root := by
        rw [Site.top_down (f := .rightOf .or l sp) same.symm, top]
      have right := isNot_grafted (d := d) (n := n) rightTop
      rw [Site.grafted, Site.path_down] at right
      refine Iff.trans right (or_congr Iff.rfl ?_)
      constructor
      · intro found
        exact ⟨l, r, sp, rfl, found⟩
      · rintro ⟨l', r', sp', same', found⟩
        cases same'
        exact found
    | _ => simp [Expr.mapChildren, isGuardShape]
  | _ => simp [Expr.mapChildren, isGuardShape]

theorem not_isDirect_call (n : DottedName) (l r : Expr) : ¬ d.IsDirect (n.call [l, r]) := by
  rintro ⟨-, q, id, a, sp, same⟩
  cases n <;> cases same

theorem isDirect_mapChildren (f : Nat → Expr → Expr) (e : Expr) :
    d.IsDirect (e.mapChildren f) ↔ d.IsDirect e := by
  unfold IsDirect
  cases e with
  | invoke q id args sp =>
    match args with
    | [] | [_] | _ :: _ :: _ => simp [Expr.mapChildren, Expr.mapArgs]
  | _ => simp [Expr.mapChildren]

theorem Accepts.of_direct {context : Option Expr} {call : Expr} (direct : d.IsDirect call)
    (shaped : ∀ c ∈ context, c.isBinary = true → isGuardShape c = true) :
    d.Accepts context call := by
  cases context with
  | none => exact direct
  | some c => exact .inr (.inr ⟨direct, shaped c rfl⟩)

/-- Around what lies within no match only a direct call is accepted. -/
theorem accepts_grafted_iff (standard : d.compare = nullComparison) (applies : d.applicable = true)
    (top : s.top = t.root) (clear : s.Clear (d.fixGrafts n t)) {call : Expr} :
    d.Accepts (s.graftedContext (d.fixGrafts n t)) call ↔ d.IsDirect call ∧
      ∀ c ∈ s.graftedContext (d.fixGrafts n t), c.isBinary = true → isGuardShape c = true := by
  refine ⟨fun accepted => ?_, fun ⟨direct, shaped⟩ => .of_direct direct shaped⟩
  rw [Site.graftedContext] at accepted ⊢
  cases around : s.enclosing? Expr.isTransparent with
  | none =>
    rw [around] at accepted
    exact ⟨accepted, by simp⟩
  | some x =>
    rw [around] at accepted
    have within := Site.Within.enclosing around
    obtain ⟨xClear, xFree⟩ := clear.up within (Site.enclosing_ne around)
    obtain ⟨noGuard, noTernary⟩ :=
      no_idiom_of_clear standard applies (within.1.symm.trans top) xClear xFree
    rcases accepted with guard | ternary | ⟨direct, shaped⟩
    · exact (noGuard guard).elim
    · exact (noTernary ternary).elim
    · exact ⟨direct, fun c same => Option.some.inj same ▸ shaped⟩

/-- What lies within no match is not reported. -/
theorem not_reports_of_clear (standard : d.compare = nullComparison)
    (applies : d.applicable = true) (top : s.top = t.root) (clear : s.Clear (d.fixGrafts n t))
    (ungrafted : d.fixGrafts n t s.path = none) :
    ¬ d.Reports ((s.enclosing? Expr.isTransparent).map Site.node) s.node := by
  intro reported
  obtain ⟨m, found⟩ := (analyze_isSome standard applies s).mpr reported
  exact not_within_of_clear standard top clear ungrafted found (.refl s)
    (analyze_place found).2

/-- With the grafts in place, what lies within no match is reported just when a negated replacement
exposes it. -/
theorem reports_grafted_iff (standard : d.compare = nullComparison) (applies : d.applicable = true)
    (top : s.top = t.root) (clear : s.Clear (d.fixGrafts n t))
    (ungrafted : d.fixGrafts n t s.path = none) :
    d.Reports (s.graftedContext (d.fixGrafts n t)) (s.grafted (d.fixGrafts n t)) ↔
      ∃ m ∈ Tree.outermost (d.scan t), m.negated = true ∧ m.Exposes d s := by
  have unreported := not_reports_of_clear standard applies top clear ungrafted
  have named : (s.grafted (d.fixGrafts n t)).calledName? = s.node.calledName? := by
    rw [Site.grafted_of_none ungrafted]
    cases s.node <;> rfl
  have direct : d.IsDirect (s.grafted (d.fixGrafts n t)) ↔ d.IsDirect s.node := by
    rw [Site.grafted_of_none ungrafted, isDirect_mapChildren]
  have outside {x : Site} (around : s.enclosing? Expr.isTransparent = some x) :
      x.top = t.root ∧ d.fixGrafts n t x.path = none :=
    have within := Site.Within.enclosing around
    ⟨within.1.symm.trans top, (clear.up within (Site.enclosing_ne around)).2⟩
  rw [Reports, named, isOnSelf_grafted top ungrafted,
    accepts_grafted_iff standard applies top clear, direct]
  constructor
  · rintro ⟨isNamed, notSelf, isDirect, shaped⟩
    -- the call was not reported before, so it stood in a binary expression that was no guard
    obtain ⟨c, context, isBinary, unshaped⟩ :
        ∃ c ∈ (s.enclosing? Expr.isTransparent).map Site.node,
          c.isBinary = true ∧ isGuardShape c ≠ true := by
      by_contra! shaped
      exact unreported ⟨isNamed, notSelf, .of_direct isDirect shaped⟩
    obtain ⟨x, around, rfl⟩ := Option.map_eq_some_iff.mp context
    obtain ⟨xTop, xFree⟩ := outside around
    have binary : (x.grafted (d.fixGrafts n t)).isBinary = true := by
      rw [Site.grafted_of_none xFree, ← isBinary]
      cases x.node <;> rfl
    have shape := shaped (x.grafted (d.fixGrafts n t)) (by rw [Site.graftedContext, around]; rfl)
      binary
    rcases (isGuardShape_grafted xTop xFree).mp shape with
      old | ⟨l, r, sp, isOr, m, member, negated, place⟩
    · exact (unshaped old).elim
    · obtain ⟨bare, q, id, a, sp', same⟩ := isDirect
      rw [same] at isNamed notSelf
      cases isNamed
      obtain ⟨e, above⟩ := x
      obtain rfl : e = .binary .or l r sp := isOr
      exact ⟨m, member, negated, bare, ⟨q, a, sp', same, notSelf⟩, l, r, sp, above, around, place⟩
  · rintro ⟨m, member, negated, bare, ⟨q, a, sp, same, notSelf⟩, l, r, sp', above, around, place⟩
    refine ⟨by rw [same]; rfl, by rw [same]; exact notSelf, ⟨bare, q, _, a, sp, same⟩,
      fun c context _ => ?_⟩
    rw [Site.graftedContext, around] at context
    obtain rfl := Option.some.inj context
    obtain ⟨xTop, xFree⟩ := outside around
    exact (isGuardShape_grafted xTop xFree).mpr (.inr ⟨l, r, sp', rfl, m, member, negated, place⟩)

/-- An exposed call lies within no match. -/
theorem uncovered_of_exposes (standard : d.compare = nullComparison)
    (applies : d.applicable = true) (member : m ∈ Tree.outermost (d.scan t))
    (exposes : m.Exposes d s) : ∀ o ∈ Tree.outermost (d.scan t), ¬ s.Within o.span := by
  obtain ⟨-, ⟨q, a, callSpan, isInvoke, -⟩, l, r, sp, above, around, place⟩ := exposes
  have isPlace := place_of_mem_scan (outermost_spec.mp member).1
  have aroundSpan : m.span.enclosing? Expr.isTransparent = some ⟨.binary .or l r sp, above⟩ := by
    rw [place, Site.around_bare]
    exact Site.enclosing_child rfl rfl
  intro o oMember within
  obtain ⟨call, -, found⟩ := analyze_of_mem_scan (outermost_spec.mp oMember).1
  have oPlace := (analyze_place found).1
  by_cases same : o.span = s
  · -- the call would have been reported before, when there was no negation on the right
    have isCall : o.span.node.isCall = true := by
      rw [same, isInvoke]
      rfl
    rw [← (analyze_of_isCall found isCall).symm.trans same] at around
    have reported := (analyze_isSome standard applies call).mp ⟨o, found⟩
    rw [around] at reported
    have right : r.bare.isPlace = true := by
      rw [place, Site.node_bare] at isPlace
      exact isPlace
    rcases reported.2.2 with guard | ternary | ⟨-, shape⟩
    · simp only [IsGuard] at guard
      revert guard right
      cases r.bare <;> simp [Expr.isPlace]
    · cases ternary
    · have shape := shape rfl
      simp only [isGuardShape] at shape
      revert shape right
      cases r.bare <;> simp [Expr.isPlace, Expr.isNot]
  · -- the match would lie above the disjunction, and so above the outermost match on its right
    have beyond := Site.enclosing_between around within same (Expr.isTransparent_of_isPlace oPlace)
    have up := (Site.Within.enclosing aroundSpan).trans beyond
    have differs : o.span ≠ m.span := by
      intro again
      rw [again] at beyond
      exact Site.enclosing_ne aroundSpan (beyond.antisymm (.enclosing aroundSpan))
    have highest := (outermost_spec.mp member).2 o (outermost_spec.mp oMember).1
    rw [up.isAbove differs] at highest
    cases highest

/-- A tree with the outermost matches replaced is quiet just when nothing is left over. -/
theorem quiet_fixGrafts_iff (standard : d.compare = nullComparison)
    (applies : d.applicable = true) (n : DottedName) (t : Tree) :
    d.Quiet none (t.root.graft (d.fixGrafts n t)) ↔ d.Settles t := by
  rw [quiet_graft_iff]
  have operands (m : Match) (member : m ∈ Tree.outermost (d.scan t)) :=
    quiet_operands_iff standard applies (outermost_spec.mp member).1
      (n.isCall_call [m.left.node, m.right.node])
  constructor
  · intro sites
    refine ⟨fun m member => ?_, fun m member negated call listed exposes => ?_⟩
    · have inside := in_of_mem_scan (outermost_spec.mp member).1
      have quiet := (sites m.span inside.span (clear_span member)).1 _ (fixGrafts_span member)
      exact (operands m member).mp (quiet_call.mp (quiet_rewritten.mp quiet)).2
    · have top := top_of_mem_calls listed
      obtain ⟨clear, ungrafted⟩ :=
        clear_of_uncovered (n := n) top (uncovered_of_exposes standard applies member exposes)
      exact (sites call top clear).2 ungrafted
        ((reports_grafted_iff standard applies top clear ungrafted).mpr
          ⟨m, member, negated, exposes⟩)
  · intro settled s top clear
    refine ⟨fun new grafts => ?_, fun ungrafted reported => ?_⟩
    · obtain ⟨m, member, rfl, rfl⟩ := fixGrafts_site top grafts
      rw [quiet_rewritten, quiet_call]
      refine ⟨fun reported => ?_, (operands m member).mpr (settled.flat m member)⟩
      have direct := ((accepts_grafted_iff standard applies top clear).mp reported.2.2).1
      exact not_isDirect_call _ _ _ direct
    · obtain ⟨m, member, negated, exposes⟩ :=
        (reports_grafted_iff standard applies top clear ungrafted).mp reported
      have isCall : s.node.isCall = true := by
        obtain ⟨-, ⟨q, a, sp, same, -⟩, -⟩ := exposes
        rw [same]
        rfl
      have listed : s ∈ t.calls := mem_calls_iff.mpr ⟨top, isCall⟩
      exact settled.hidden m member negated s listed exposes

end Detector

end NullSafeEq
