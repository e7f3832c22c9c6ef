import NullSafeEq.Proofs.Idiom.Parentheses

/-!
# Moving an operand

A call in an argument or the qualifier of another call is looked at within this operand only: the
other call around it counts no more than the end of the expression does, and no comparison in front
of the operand is taken in. So the match of a call is the same one wherever the operand stands, and
it is the match that the call has in the operand alone.
-/
namespace NullSafeEq

/-- A match in an expression where the expression stands below some frames. -/
def Match.under (above : List Frame) (m : Match) : Match :=
  ⟨m.span.under above, m.left.under above, m.right.under above, m.negated, m.form⟩

variable {above : List Frame}

namespace Site

/-- Parentheses apart, a call is what stands around a site. -/
def InCall (s : Site) : Prop := ∃ k, s.enclosing? Expr.isParen = some k ∧ k.node.isCall = true

/-- No operator has the site for an operand, be it in parentheses or not. -/
theorem InCall.wrapped {s : Site} (h : s.InCall) :
    ∃ f fs, s.wrapped.above = f :: fs ∧ (f.fill s.wrapped.node).isCall = true := by
  obtain ⟨e, fs⟩ := s
  obtain ⟨k, around, isCall⟩ := h
  unfold Site.wrapped
  fun_induction Site.wrapBelow e fs with
  | case1 e sp above ih =>
    refine ih ?_
    rwa [enclosing_cons,
      if_pos (show (Frame.fill e (.bodyOfParen sp)).isParen = true from rfl)] at around
  | case2 e above other =>
    cases above with
    | nil => cases around
    | cons f fs =>
      rw [enclosing_cons] at around
      by_cases paren : (f.fill e).isParen = true
      · cases f with
        | bodyOfParen sp => exact (other sp fs rfl).elim
        | _ => cases paren
      · rw [if_neg paren] at around
        cases around
        exact ⟨f, fs, rfl, isCall⟩

/-! ## Moves -/

@[simp] theorem bare_under (s : Site) : (s.under above).bare = s.bare.under above := by
  have below (fs : List Frame) (e : Expr) :
      Site.bareBelow (fs ++ above) e = (Site.bareBelow fs e).under above := by
    fun_induction Site.bareBelow fs e with
    | case1 fs e sp ih => exact ih
    | case2 fs e other =>
      unfold Site.bareBelow
      split
      next e sp => exact (other e sp rfl).elim
      next => rfl
  exact below s.above s.node

theorem receiver_under (s : Site) :
    (s.under above).receiver? = s.receiver?.map (Site.under above) := by
  obtain ⟨e, fs⟩ := s
  cases e <;> rfl

theorem soleArgument_under (s : Site) :
    (s.under above).soleArgument? = s.soleArgument?.map (Site.under above) := by
  obtain ⟨e, fs⟩ := s
  cases e with
  | call id args | invoke q id args =>
    match args with
    | [] | [_] | _ :: _ :: _ => rfl
  | _ => rfl

/-- The parentheses around a site end below the frames, unless they are the whole expression. -/
theorem wrapped_under (s : Site) (above : List Frame) :
    (∃ f fs, s.wrapped.above = f :: fs ∧ (s.under above).wrapped = s.wrapped.under above) ∨
    (s.wrapped.above = [] ∧ (s.under above).wrapped = Site.wrapped ⟨s.top, above⟩) := by
  obtain ⟨e, fs⟩ := s
  induction fs generalizing e with
  | nil => exact .inr ⟨rfl, rfl⟩
  | cons f fs ih =>
    cases f with
    | bodyOfParen sp => exact ih (.paren e sp)
    | _ => exact .inl ⟨_, fs, rfl, rfl⟩

theorem enclosing_under (skip : Expr → Bool) (s : Site) : (s.under above).enclosing? skip =
    ((s.enclosing? skip).map (Site.under above)).or (enclosing? skip ⟨s.top, above⟩) := by
  obtain ⟨e, fs⟩ := s
  induction fs generalizing e with
  | nil => rfl
  | cons f fs ih =>
    have here : under above ⟨e, f :: fs⟩ = ⟨e, f :: (fs ++ above)⟩ := rfl
    rw [here, enclosing_cons, enclosing_cons]
    by_cases skips : skip (f.fill e) = true
    · rw [if_pos skips, if_pos skips]
      exact ih (f.fill e)
    · rw [if_neg skips, if_neg skips]
      rfl

end Site

/-! ## The parts of the idioms -/

theorem unwrapNegation_under (s : Site) : unwrapNegation (s.under above) =
    ((unwrapNegation s).1.under above, (unwrapNegation s).2) := by
  unfold unwrapNegation
  simp only [Site.bare_under, Site.node_under, Site.down_under]
  split <;> rfl

theorem nullComparison_under (s : Site) (equal : Bool) :
    nullComparison (s.under above) equal = (nullComparison s equal).map (Site.under above) := by
  unfold nullComparison
  simp only [Site.bare_under, Site.node_under, Site.down_under]
  split
  next op l r sp node =>
    simp only [apply_ite (Option.map (Site.under above)), Option.map_some, Option.map_none]
  next => rfl

/-- Putting frames on top is a change that the idioms follow. -/
theorem Site.followed_under : Followed (under above) where
  bare := bare_under
  unwrapNegation := unwrapNegation_under
  nullComparison := nullComparison_under
  isSelf _ := rfl
  calledName _ _ := rfl
  receiver s _ := s.receiver_under
  soleArgument s _ := s.soleArgument_under

namespace Detector
variable {d : Detector}

theorem nameOf_under (s : Site) : d.nameOf (s.under above) = d.nameOf s := rfl

theorem widen_under {guard : Site} (inCall : Site.InCall ⟨guard.top, above⟩) (equal : Bool)
    (first second : String) : d.widen (guard.under above) equal first second =
      (d.widen guard equal first second).under above := by
  unfold widen
  rcases guard.wrapped_under above with ⟨f, fs, frames, same⟩ | ⟨ends, same⟩
  · simp only [same, Site.above_under, Site.node_under, frames, List.cons_append]
    cases f with
    | rightOf op left sp =>
      simp only [apply_ite (Site.under above)]
      rfl
    | _ => rfl
  · obtain ⟨f, fs, frames, isCall⟩ := inCall.wrapped
    simp only [same, ends, frames]
    cases f with
    | rightOf => cases isCall
    | _ => rfl

theorem placeOf_under {guard : Site} (inCall : Site.InCall ⟨guard.top, above⟩) (equal : Bool)
    (checked : String) (argument : Site) :
    d.placeOf (guard.under above) equal checked (argument.under above) =
      (d.placeOf guard equal checked argument).under above := by
  unfold placeOf
  rw [nameOf_under]
  cases d.nameOf argument with
  | none => rfl
  | some name => exact widen_under inCall equal checked name

section
variable (standard : d.compare = nullComparison)
include standard

theorem guardedCall_under {guard : Site} (inCall : Site.InCall ⟨guard.top, above⟩)
    (check callee : Site) (equal : Bool) :
    d.guardedCall? (guard.under above) (check.under above) (callee.under above) equal =
      (d.guardedCall? guard check callee equal).map (Match.under above) :=
  Site.followed_under.guardedCall standard nameOf_under (placeOf_under inCall) check callee equal

theorem binary_under {s : Site} (inCall : Site.InCall ⟨s.top, above⟩) :
    d.binary? (s.under above) = (d.binary? s).map (Match.under above) := by
  unfold binary?
  simp only [Site.bare_under, Site.node_under, Site.down_under]
  split
  next => exact guardedCall_under standard inCall _ _ true
  next =>
    split
    next => exact guardedCall_under standard inCall _ _ false
    next => rfl
  next => rfl

theorem conditional_under (s : Site) :
    d.conditional? (s.under above) = (d.conditional? s).map (Match.under above) := by
  obtain ⟨e, fs⟩ := s
  cases e with
  | conditional t y n sp =>
    let here : Site := ⟨.conditional t y n sp, fs⟩
    exact Site.followed_under.conditional (s := here) standard nameOf_under rfl rfl rfl
      (here.down (.yesOf t n sp) y).bare_under (here.down (.noOf t y sp) n).bare_under
  | _ => rfl

end

theorem direct_under (call : Site) :
    d.direct? (call.under above) = (d.direct? call).map (Match.under above) :=
  Site.followed_under.direct call.receiver_under call.soleArgument_under

theorem inContext_of_isCall {call context : Site} (isCall : context.node.isCall = true) :
    d.inContext? call context = d.direct? call := by
  unfold inContext?
  cases node : context.node with
  | binary | conditional =>
    rw [node] at isCall
    cases isCall
  | _ => rfl

theorem OperandsOf.inCall {left right k o : Site} {i : Nat} (h : OperandsOf left right k)
    (operand : [left, right][i]? = some o) : o.InCall := by
  match i with
  | 0 =>
    cases operand
    exact ⟨k, h.enclosing.1, h.isCall⟩
  | 1 =>
    cases operand
    exact ⟨k, h.enclosing.2, h.isCall⟩

section
variable (standard : d.compare = nullComparison)
include standard

theorem inContext_under (call : Site) {context : Site}
    (inCall : Site.InCall ⟨context.top, above⟩) :
    d.inContext? (call.under above) (context.under above) =
      (d.inContext? call context).map (Match.under above) := by
  unfold inContext?
  simp only [Site.node_under, binary_under standard inCall, conditional_under standard context,
    direct_under]
  split
  next =>
    cases d.binary? context with
    | some found => rfl
    | none => simp only [Option.map_none, apply_ite (Option.map (Match.under above))]
  next => cases d.conditional? context <;> rfl
  next => rfl

/-- In an operand of a call a call has the match that it has in the operand alone. -/
theorem analyze_under {call : Site} (inCall : Site.InCall ⟨call.top, above⟩) :
    d.analyze? (call.under above) = (d.analyze? call).map (Match.under above) := by
  rw [analyze_eq_elim, analyze_eq_elim, Site.followed_under.onSelf call.receiver_under,
    Site.node_under, Site.enclosing_under]
  split
  · rfl
  · split
    · rfl
    · cases near : call.enclosing? Expr.isTransparent with
      | none =>
        obtain ⟨k, around, isCall⟩ := inCall
        have beyond := Site.enclosing_isTransparent around (Expr.isTransparent_of_isCall isCall)
        simp only [Option.map_none, Option.none_or, beyond, Option.elim_some, Option.elim_none,
          inContext_of_isCall isCall, direct_under]
      | some context =>
        rw [← Site.top_enclosing near] at inCall
        exact inContext_under standard call inCall

/-- The match of a call in an operand is the match that the call has in the operand alone. -/
theorem analyze_operand {o call : Site} (inCall : o.InCall) (inside : call.Within o) :
    ∃ r : Site, r.top = o.node ∧ call = r.under o.above ∧
      d.analyze? call = (d.analyze? r).map (Match.under o.above) := by
  obtain ⟨r, top, rfl⟩ := inside.inside
  exact ⟨r, top, rfl, analyze_under standard (by rwa [top])⟩

/-- What a call in an operand alone has for a match is found in the tree with the operand. -/
theorem mem_scan_under {t : Tree} {o r : Site} {m : Match} (top : o.top = t.root)
    (inCall : o.InCall) (topR : r.top = o.node) (found : d.analyze? r = some m) :
    m.under o.above ∈ d.scan t := by
  refine mem_scan_of_analyze standard ((Site.Within.under topR).1.trans top) ?_
  rw [analyze_under standard (by rwa [topR]), found, Option.map_some]

end

end Detector

end NullSafeEq
