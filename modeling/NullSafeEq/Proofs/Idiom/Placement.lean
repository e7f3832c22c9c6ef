import NullSafeEq.Proofs.Idiom.Parts
import NullSafeEq.Proofs.Rewriting.Application

/-!
# Where matches lie

Every site of a match lies in the tree in which it was found, no two matches have the same place,
and a negated match replaces an operator or a ternary.
-/
namespace NullSafeEq

namespace Detector
variable {d : Detector} {m : Match}

/-- An identity comparison of two names, in either order. -/
theorem comparesNames_iff {equal : Bool} {first second : String} {e : Expr} :
    d.comparesNames equal first second e = true ↔ ∃ l r sp,
      e.bare = .binary (if equal then .eq else .ne) l r sp ∧
      ((qualifiedName? d.resolve l = some first ∧ qualifiedName? d.resolve r = some second) ∨
        (qualifiedName? d.resolve l = some second ∧ qualifiedName? d.resolve r = some first)) := by
  unfold comparesNames
  cases e.bare with
  | binary op l r sp =>
    cases left : qualifiedName? d.resolve l <;> cases right : qualifiedName? d.resolve r <;>
      simp [left, right, and_assoc]
  | _ => simp

theorem widen_cases (d : Detector) (guard : Site) (equal : Bool) (first second : String) :
    d.widen guard equal first second = guard ∨ ∃ op left sp above,
      guard.wrapped.above = .rightOf op left sp :: above ∧
      op = (if equal then .or else .and) ∧ d.comparesNames equal first second left = true ∧
      d.widen guard equal first second = ⟨.binary op left guard.wrapped.node sp, above⟩ := by
  unfold widen
  simp only
  split
  next op left sp above same =>
    by_cases both : (decide (op = if equal then .or else .and) &&
        d.comparesNames equal first second left) = true
    · obtain ⟨isOp, compares⟩ := Bool.and_eq_true_iff.mp both
      exact .inr ⟨op, left, sp, above, same, of_decide_eq_true isOp, compares, if_pos both⟩
    · exact .inl (if_neg both)
  next => exact .inl rfl

/-- The place of a guarded call with the name that its null check speaks of. -/
def placeOf (d : Detector) (guard : Site) (equal : Bool) (checked : String) (argument : Site) :
    Site :=
  match d.nameOf argument with
  | some name => d.widen guard equal checked name
  | none => guard

/-- What a guarded call is made of. -/
theorem guardedCall_iff {guard check callee : Site} {equal : Bool} :
    d.guardedCall? guard check callee equal = some m ↔
    ∃ found, equalityCall? d.method callee = some found ∧ found.equal = true ∧
      ∃ test, nullCheck? d.compare check = some test ∧ test.equal ≠ equal ∧
      ∃ checked, d.nameOf test.compared = some checked ∧ d.nameOf found.qualifier = some checked ∧
      m = ⟨d.placeOf guard equal checked found.argument, found.qualifier, found.argument, !equal,
        .binary⟩ := by
  simp only [guardedCall?, Option.bind_eq_bind, Option.bind_none, Option.bind_eq_some_iff,
    Option.ite_none_left_eq_some, Option.pure_def, Option.some.injEq, Bool.not_eq_true',
    Bool.not_eq_false, ne_eq, Decidable.not_not, eq_comm (a := m)]
  exact Iff.rfl

/-- What the idiom with a ternary is made of. -/
theorem conditional_iff {s : Site} : d.conditional? s = some m ↔
    ∃ t y n sp, s.node = .conditional t y n sp ∧
    ∃ test, nullCheck? d.compare (s.down (.testOf y n sp) t) = some test ∧
    ∃ other, nullCheck? d.compare (if test.equal then s.down (.yesOf t n sp) y
      else s.down (.noOf t y sp) n).bare = some other ∧
    ∃ found, equalityCall? d.method (if test.equal then s.down (.noOf t y sp) n
      else s.down (.yesOf t n sp) y).bare = some found ∧ other.equal = found.equal ∧
    ∃ tested, d.nameOf test.compared = some tested ∧
    ∃ argument, d.nameOf other.compared = some argument ∧
      d.nameOf found.argument = some argument ∧ d.nameOf found.qualifier = some tested ∧
      m = ⟨s, found.qualifier, found.argument, !found.equal, .conditional⟩ := by
  unfold conditional?
  split
  next t y n sp same =>
    simp only [Option.bind_eq_bind, Option.bind_none, Option.bind_eq_some_iff,
      Option.ite_none_left_eq_some, Option.pure_def, Option.some.injEq, apply_ite Prod.fst,
      apply_ite Prod.snd]
    constructor
    · rintro ⟨test, tests, other, others, found, calls, alike, tested, named, otherName, otherNamed,
        argument, argumentNamed, qualifier, qualifierNamed, names, rfl⟩
      simp only [Bool.or_eq_true, decide_eq_true_eq, not_or, Decidable.not_not, ne_eq] at names
      obtain ⟨rfl, rfl⟩ := names
      exact ⟨t, y, n, sp, same, test, tests, other, others, found, calls, Decidable.not_not.mp alike,
        tested, named, otherName, otherNamed, argumentNamed, qualifierNamed, rfl⟩
    · rintro ⟨t', y', n', sp', same', test, tests, other, others, found, calls, alike, tested, named,
        argument, otherNamed, argumentNamed, qualifierNamed, rfl⟩
      rw [same] at same'
      cases same'
      exact ⟨test, tests, other, others, found, calls, not_not_intro alike, tested, named, argument,
        otherNamed, argument, argumentNamed, tested, qualifierNamed, by simp, rfl⟩
  next other =>
    constructor
    · nofun
    · rintro ⟨t, y, n, sp, same, -⟩
      exact (other t y n sp same).elim

/-- The two shapes of a guarded call. -/
theorem binary_iff {s : Site} : d.binary? s = some m ↔
    (∃ l r sp, s.node = .binary .and l r sp ∧
      d.guardedCall? s (s.down (.leftOf .and r sp) l) (s.down (.rightOf .and l sp) r).bare true =
        some m) ∨
    ∃ l r sp e notSpan, s.node = .binary .or l r sp ∧
      (s.down (.rightOf .or l sp) r).bare.node = .prefixed .not e notSpan ∧
      d.guardedCall? s (s.down (.leftOf .or r sp) l)
        ((s.down (.rightOf .or l sp) r).bare.down (.operandOf .not notSpan) e).bare false =
          some m := by
  constructor
  · intro h
    unfold binary? at h
    split at h
    next l r sp same => exact .inl ⟨l, r, sp, same, h⟩
    next l r sp same =>
      simp only at h
      split at h
      next e notSpan negation => exact .inr ⟨l, r, sp, e, notSpan, same, negation, h⟩
      next => cases h
    next => cases h
  · rintro (⟨l, r, sp, same, h⟩ | ⟨l, r, sp, e, notSpan, same, negation, h⟩)
    · simp only [binary?, same]
      exact h
    · simp only [binary?, same, negation]
      exact h

theorem binary_form {s : Site} (h : d.binary? s = some m) : m.form = .binary := by
  have guarded : ∃ check callee equal, d.guardedCall? s check callee equal = some m := by
    rcases binary_iff.mp h with ⟨_, _, _, -, found⟩ | ⟨_, _, _, _, _, -, -, found⟩
    · exact ⟨_, _, _, found⟩
    · exact ⟨_, _, _, found⟩
  obtain ⟨check, callee, equal, found⟩ := guarded
  obtain ⟨_, _, _, _, _, _, _, _, _, rfl⟩ := guardedCall_iff.mp found
  rfl

/-- A bare call that is reported itself. -/
theorem direct_iff {call : Site} : d.direct? call = some m ↔
    d.requireGuard = false ∧ ∃ qualifier, call.receiver? = some qualifier ∧
      ∃ argument, call.soleArgument? = some argument ∧
      m = ⟨call, qualifier.bare, argument.bare, false, .directCall⟩ := by
  unfold direct?
  cases d.requireGuard <;> cases call.receiver? <;> cases call.soleArgument? <;>
    simp [eq_comm (a := m)]

/-- A match in a context is a guarded call, a ternary or the call itself. -/
theorem inContext_cases {call context : Site} (h : d.inContext? call context = some m) :
    d.binary? context = some m ∨ d.conditional? context = some m ∨ d.direct? call = some m := by
  unfold inContext? at h
  split at h
  · split at h
    next found same => exact .inl (same.trans h)
    next =>
      split at h
      · exact .inr (.inr h)
      · cases h
  · split at h
    next found same => exact .inr (.inl (same.trans h))
    next => exact .inr (.inr h)
  · exact .inr (.inr h)

/-- A match of a call comes from the nearest construct around it, or is the call itself. -/
theorem analyze_cases {call : Site} (h : d.analyze? call = some m) :
    d.direct? call = some m ∨
    ∃ context, call.enclosing? (fun e => e.isParen || e.isPrefixed) = some context ∧
      (d.binary? context = some m ∨ d.conditional? context = some m) := by
  unfold analyze? at h
  split at h
  · cases h
  · split at h
    · cases h
    · split at h
      next context same =>
        rcases inContext_cases h with binary | conditional | direct
        · exact .inr ⟨context, same, .inl binary⟩
        · exact .inr ⟨context, same, .inr conditional⟩
        · exact .inl direct
      next => exact .inl h

theorem isCall_of_calledName {e : Expr} {name : String} (h : e.calledName? = some name) :
    e.isCall = true := by
  revert h
  cases e <;> simp [Expr.calledName?, Expr.isCall]

/-- A match is found for calls of the equality method only. -/
theorem calledName_of_analyze {call : Site} (h : d.analyze? call = some m) :
    call.node.calledName? = some d.method := by
  unfold analyze? at h
  by_contra other
  simp [other] at h

theorem conditional_of_form {call : Site} (h : d.analyze? call = some m)
    (isConditional : m.form = .conditional) : ∃ context, d.conditional? context = some m := by
  rcases analyze_cases h with direct | ⟨context, -, binary | conditional⟩
  · obtain ⟨-, q, -, a, -, rfl⟩ := direct_iff.mp direct
    cases isConditional
  · rw [binary_form binary] at isConditional
    cases isConditional
  · exact ⟨context, conditional⟩

/-! ## Where they lie -/

theorem widen_top (d : Detector) (guard : Site) (equal : Bool) (first second : String) :
    (d.widen guard equal first second).top = guard.top := by
  rcases d.widen_cases guard equal first second with same | ⟨op, left, sp, above, frames, -, -, same⟩
  · rw [same]
  · have top := guard.top_wrapped
    rw [show guard.wrapped = ⟨guard.wrapped.node, .rightOf op left sp :: above⟩ by rw [← frames],
      Site.top_cons] at top
    rw [same]
    exact top

/-- Widening keeps to an operator that binds no tighter than a conjunction. -/
theorem widen_level {guard : Site} (loose : guard.node.level ≤ 2) (equal : Bool)
    (first second : String) : (d.widen guard equal first second).node.level ≤ 2 := by
  rcases d.widen_cases guard equal first second with same | ⟨op, left, sp, above, -, rfl, -, same⟩
  · rwa [same]
  · rw [same]
    show (if equal = true then BinaryOp.or else .and).level ≤ 2
    cases equal <;> decide

theorem placeOf_cases (d : Detector) (guard : Site) (equal : Bool) (checked : String)
    (argument : Site) : d.placeOf guard equal checked argument = guard ∨
      ∃ name, d.nameOf argument = some name ∧
        d.placeOf guard equal checked argument = d.widen guard equal checked name := by
  unfold placeOf
  split
  next name same => exact .inr ⟨name, same, rfl⟩
  next => exact .inl rfl

theorem guardedCall_in {guard check callee : Site} {equal : Bool}
    (h : d.guardedCall? guard check callee equal = some m) (same : callee.top = guard.top)
    (loose : guard.node.level ≤ 2) : m.In guard.top := by
  obtain ⟨found, call, -, test, -, -, checked, -, -, rfl⟩ := guardedCall_iff.mp h
  obtain ⟨qualifier, argument⟩ := equalityCall_top call
  have place : (d.placeOf guard equal checked found.argument).top = guard.top ∧
      (d.placeOf guard equal checked found.argument).node.level ≤ 2 := by
    rcases d.placeOf_cases guard equal checked found.argument with stays | ⟨name, -, widened⟩
    · rw [stays]
      exact ⟨rfl, loose⟩
    · rw [widened]
      exact ⟨d.widen_top .., widen_level loose ..⟩
  exact ⟨place.1, qualifier.trans same, argument.trans same, fun _ => place.2.trans (by decide)⟩

theorem binary_in {s : Site} (h : d.binary? s = some m) : m.In s.top := by
  rcases binary_iff.mp h with ⟨l, r, sp, same, found⟩ | ⟨l, r, sp, e, notSpan, same, negation, found⟩
  · refine guardedCall_in found ?_ (by rw [same]; exact Nat.le_refl 2)
    rw [Site.top_bare]
    exact Site.top_down same.symm
  · refine guardedCall_in found ?_ (by rw [same]; exact Nat.le_succ 1)
    rw [Site.top_bare, Site.top_down (f := .operandOf .not notSpan) negation.symm, Site.top_bare]
    exact Site.top_down same.symm

theorem conditional_in {s : Site} (h : d.conditional? s = some m) : m.In s.top := by
  obtain ⟨t, y, n, sp, same, test, -, -, -, found, call, -, -, -, -, -, -, -, rfl⟩ :=
    conditional_iff.mp h
  obtain ⟨qualifier, argument⟩ := equalityCall_top call
  have branch : (if test.equal then s.down (.noOf t y sp) n
      else s.down (.yesOf t n sp) y).bare.top = s.top := by
    rw [Site.top_bare]
    split
    · exact Site.top_down same.symm
    · exact Site.top_down same.symm
  refine ⟨rfl, qualifier.trans branch, argument.trans branch, fun _ => ?_⟩
  rw [same]
  exact Nat.zero_le 8

theorem direct_in {call : Site} (h : d.direct? call = some m) : m.In call.top := by
  obtain ⟨-, qualifier, receiver, argument, sole, rfl⟩ := direct_iff.mp h
  refine ⟨rfl, ?_, ?_, nofun⟩
  · rw [Site.top_bare, Site.top_receiver receiver]
  · rw [Site.top_bare, Site.top_soleArgument sole]

theorem analyze_in {call : Site} (h : d.analyze? call = some m) : m.In call.top := by
  rcases analyze_cases h with direct | ⟨context, around, binary | conditional⟩
  · exact direct_in direct
  · rw [← Site.top_enclosing around]
    exact binary_in binary
  · rw [← Site.top_enclosing around]
    exact conditional_in conditional

/-! ## All matches of a tree -/

theorem firstPerPlace_sublist (seen : List Path) (found : List Match) :
    (firstPerPlace seen found).Sublist found := by
  induction found generalizing seen with
  | nil => exact .refl _
  | cons m rest ih =>
    unfold firstPerPlace
    split
    · exact (ih seen).cons m
    · exact (ih _).cons_cons m

/-- No two matches that are kept have the same place, and none has a place that was seen. -/
theorem firstPerPlace_distinct (seen : List Path) (found : List Match) :
    ((firstPerPlace seen found).map fun m => m.span.path).Nodup ∧
      ∀ m ∈ firstPerPlace seen found, m.span.path ∉ seen := by
  induction found generalizing seen with
  | nil => exact ⟨.nil, nofun⟩
  | cons m rest ih =>
    unfold firstPerPlace
    by_cases known : seen.contains m.span.path = true
    · rw [if_pos known]
      exact ih seen
    · rw [if_neg known]
      obtain ⟨distinct, unseen⟩ := ih (m.span.path :: seen)
      refine ⟨?_, ?_⟩
      · rw [List.map_cons, List.nodup_cons]
        refine ⟨?_, distinct⟩
        rintro again
        obtain ⟨other, member, same⟩ := List.mem_map.mp again
        exact unseen other member (same ▸ List.mem_cons_self)
      · intro other member
        rcases List.mem_cons.mp member with rfl | later
        · simpa using known
        · exact fun old => unseen other later (List.mem_cons_of_mem _ old)

theorem analyze_of_mem_scan {t : Tree} (h : m ∈ d.scan t) :
    ∃ call ∈ t.calls, d.analyze? call = some m := by
  unfold scan at h
  split at h
  · exact List.mem_filterMap.mp ((firstPerPlace_sublist _ _).subset h)
  · cases h

theorem mem_calls_iff {t : Tree} {s : Site} :
    s ∈ t.calls ↔ s.top = t.root ∧ s.node.isCall = true := by
  rw [Tree.calls, List.mem_filter]
  exact and_congr_left' Expr.mem_sites_iff

theorem top_of_mem_calls {t : Tree} {call : Site} (h : call ∈ t.calls) : call.top = t.root :=
  (mem_calls_iff.mp h).1

/-- Every match of a tree lies in it. -/
theorem in_of_mem_scan {t : Tree} (h : m ∈ d.scan t) : m.In t.root := by
  obtain ⟨call, member, found⟩ := analyze_of_mem_scan h
  rw [← top_of_mem_calls member]
  exact analyze_in found

/-- No two matches of a tree have the same place. -/
theorem scan_distinct (d : Detector) (t : Tree) :
    ((d.scan t).map fun m => m.span.path).Nodup := by
  unfold scan
  split
  · exact (firstPerPlace_distinct [] _).1
  · exact .nil

end Detector

end NullSafeEq
