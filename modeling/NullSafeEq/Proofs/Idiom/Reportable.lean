import NullSafeEq.Proofs.Idiom.GuardedForm

/-!
# Calls that are reported anyway

A detector that reports bare calls too does so wherever nothing else is recognised, unless the call
is an operand of the wrong operator. What is recognised as something else meets the conditions for a
bare call as well. So whether a call is reported can be told from the syntax; what names denote
decides in which form that is done.
-/
namespace NullSafeEq

/-- What stands around the call, parentheses and prefix operators apart, is no binary expression
other than a conjunction or a disjunction with a negation on the right. -/
def Site.StandsFree (call : Site) : Prop :=
  ∀ context op l r sp, call.enclosing? Expr.isTransparent = some context →
    context.node = .binary op l r sp → op = .and ∨ op = .or ∧ r.bare.isNot = true

/-- The construct around a qualifier, parentheses apart, is its call. -/
theorem Site.enclosing_receiver {call q : Site} (h : call.receiver? = some q) :
    q.enclosing? Expr.isParen = some call := by
  unfold receiver? at h
  split at h
  next qualifier id args sp node =>
    obtain rfl := Option.some.inj h
    exact enclosing_child node.symm (by rw [node]; rfl)
  next => cases h

/-- A match is about one call only. -/
theorem Match.Concerns.unique {m : Match} {call call' : Site} (h : m.Concerns call)
    (h' : m.Concerns call') : call = call' := by
  have around {k : Site} (about : m.Concerns k) : m.left.enclosing? Expr.isParen = some k := by
    obtain ⟨q, receiver, bare⟩ := Option.map_eq_some_iff.mp about.qualifier
    rw [← bare, Site.enclosing_bare (fun _ _ => rfl), Site.enclosing_receiver receiver]
  exact Option.some.inj ((around h).symm.trans (around h'))

namespace Detector
variable {d : Detector} {m : Match} {call : Site}

/-- A call of the equality method with one argument, not on `this` or `super`, that stands free. -/
structure IsReportable (d : Detector) (call : Site) : Prop where
  called : ∃ q a sp, call.node = .invoke q d.method [a] sp ∧ q.isSelf = false
  free : call.StandsFree

/-- The same detector with other answers about what names denote. -/
def resolving (d : Detector) (resolve : Resolver) : Detector := { d with resolve }

theorem isGuardShape_iff {op : BinaryOp} {l r : Expr} {sp : Option Span} :
    isGuardShape (.binary op l r sp) = true ↔ op = .and ∨ op = .or ∧ r.bare.isNot = true := by
  cases op <;> simp [isGuardShape]

theorem isGuardShape_of_isGuard {e : Expr} (h : d.IsGuard e) : isGuardShape e = true := by
  unfold IsGuard at h
  split at h
  next => rfl
  next l r sp =>
    split at h
    next o notSpan negation => simp [isGuardShape, negation, Expr.isNot]
    next => cases h
  next => cases h

/-- What is recognised around a call is no operator that keeps the call from being reported. -/
theorem shaped_of_accepts {context call : Expr} (h : d.Accepts (some context) call)
    (isBinary : context.isBinary = true) : isGuardShape context = true := by
  rcases h with guard | ternary | ⟨-, shaped⟩
  · exact isGuardShape_of_isGuard guard
  · cases context with
    | conditional => cases isBinary
    | _ => cases ternary
  · exact shaped isBinary

theorem standsFree_iff : call.StandsFree ↔
    ∀ context, call.enclosing? Expr.isTransparent = some context →
      context.node.isBinary = true → isGuardShape context.node = true := by
  constructor
  · intro free context around isBinary
    cases node : context.node with
    | binary op l r sp => exact isGuardShape_iff.mpr (free context op l r sp around node)
    | _ =>
      rw [node] at isBinary
      cases isBinary
  · intro shaped context op l r sp around node
    have shape := shaped context around (by rw [node]; rfl)
    rw [node] at shape
    exact isGuardShape_iff.mp shape

/-- A call that has a match is reportable. -/
theorem isReportable_of_analyze (standard : d.compare = nullComparison)
    (h : d.analyze? call = some m) : d.IsReportable call := by
  have named := calledName_of_analyze h
  have operands := analyze_operandsOf standard (isCall_of_calledName named) h
  have applies := applicable_of_analyze h
  obtain ⟨-, notSelf, accepted⟩ := (analyze_isSome standard applies call).mp ⟨m, h⟩
  obtain ⟨q, id, a, sp, node, -⟩ := operands
  rw [node] at named notSelf
  cases named
  refine ⟨⟨q, a, sp, node, notSelf⟩, standsFree_iff.mpr fun context around isBinary => ?_⟩
  rw [around] at accepted
  exact shaped_of_accepts accepted isBinary

/-- Where bare calls count, the calls that have a match are the reportable ones. -/
theorem analyze_iff_isReportable (standard : d.compare = nullComparison)
    (bare : d.requireGuard = false) :
    (∃ m, d.analyze? call = some m) ↔ d.applicable = true ∧ d.IsReportable call := by
  constructor
  · rintro ⟨m, found⟩
    exact ⟨applicable_of_analyze found, isReportable_of_analyze standard found⟩
  · rintro ⟨applies, ⟨q, a, sp, node, notSelf⟩, free⟩
    have direct : d.IsDirect call.node := ⟨bare, q, d.method, a, sp, node⟩
    have called : call.node.calledName? = some d.method ∧ call.node.isOnSelf = false := by
      rw [node]
      exact ⟨rfl, notSelf⟩
    refine (analyze_isSome standard applies call).mpr ⟨called.1, called.2, ?_⟩
    cases around : call.enclosing? Expr.isTransparent with
    | none => exact direct
    | some context => exact .inr (.inr ⟨direct, standsFree_iff.mp free context around⟩)

/-- The matches of a tree that are about a call are those of this call. -/
theorem mem_scan_concerns (standard : d.compare = nullComparison) {t : Tree}
    (listed : call ∈ t.calls) :
    (∃ m ∈ d.scan t, m.Concerns call) ↔ ∃ m, d.analyze? call = some m := by
  constructor
  · rintro ⟨m, member, about⟩
    obtain ⟨call', -, found⟩ := analyze_of_mem_scan member
    have isCall := isCall_of_calledName (calledName_of_analyze found)
    obtain rfl := about.unique (concerns_of_analyze standard isCall found)
    exact ⟨m, found⟩
  · rintro ⟨m, found⟩
    exact ⟨m, mem_scan_of_analyze standard (top_of_mem_calls listed) found,
      concerns_of_analyze standard (isCall_of_mem_calls listed) found⟩

/-! ## Two resolvers -/

theorem forall₂_filterMap {α β γ : Type} {R : β → γ → Prop} {f : α → Option β} {g : α → Option γ}
    {l : List α} (each : ∀ a ∈ l, Option.Rel R (f a) (g a)) :
    List.Forall₂ R (l.filterMap f) (l.filterMap g) := by
  have self : List.Forall₂ (fun a b => a = b ∧ a ∈ l) l l :=
    List.forall₂_same.mpr fun a member => ⟨rfl, member⟩
  refine List.rel_filterMap ?_ self
  rintro a _ ⟨rfl, member⟩
  exact each a member

/-- Both matches are about the same call, whose qualifier and argument are the operands of both. -/
def AboutOneCall (t : Tree) (m m' : Match) : Prop :=
  m'.left = m.left ∧ m'.right = m.right ∧ ∃ call ∈ t.calls, m.Concerns call ∧ m'.Concerns call

theorem aboutOneCall_of_concerns {t : Tree} {m' : Match} (listed : call ∈ t.calls)
    (about : m.Concerns call) (about' : m'.Concerns call) : AboutOneCall t m m' :=
  ⟨Option.some.inj (about'.qualifier.symm.trans about.qualifier),
    Option.some.inj (about'.argument.symm.trans about.argument), call, listed, about, about'⟩

theorem isReportable_resolving {resolve : Resolver} :
    (d.resolving resolve).IsReportable call ↔ d.IsReportable call :=
  ⟨fun h => ⟨h.called, h.free⟩, fun h => ⟨h.called, h.free⟩⟩

/-- Either both resolvers lead to a match of the call or neither does. -/
theorem analyze_resolving (standard : d.compare = nullComparison) (bare : d.requireGuard = false)
    (resolve : Resolver) {t : Tree} (listed : call ∈ t.calls) :
    Option.Rel (AboutOneCall t) (d.analyze? call) ((d.resolving resolve).analyze? call) := by
  have isCall := isCall_of_mem_calls listed
  have alike : (∃ m, d.analyze? call = some m) ↔
      ∃ m, (d.resolving resolve).analyze? call = some m := by
    rw [analyze_iff_isReportable standard bare,
      analyze_iff_isReportable (d := d.resolving resolve) standard bare]
    exact and_congr_right' isReportable_resolving.symm
  cases found : d.analyze? call with
  | none =>
    have nothing : (d.resolving resolve).analyze? call = none := by
      by_contra some
      obtain ⟨m, found'⟩ := alike.mpr (Option.ne_none_iff_exists'.mp some)
      rw [found] at found'
      cases found'
    rw [nothing]
    exact .none
  | some m =>
    obtain ⟨m', found'⟩ := alike.mp ⟨m, found⟩
    rw [found']
    exact .some (aboutOneCall_of_concerns listed (concerns_of_analyze standard isCall found)
      (concerns_of_analyze (d := d.resolving resolve) standard isCall found'))

/-- Where bare calls count, a call is reported just when it is a call of the equality method with
one argument, not on `this` or `super`, and stands free. So detectors that differ in what names
denote report the same calls in the same order, with the same operands. -/
theorem scan_resolving (standard : d.compare = nullComparison) (bare : d.requireGuard = false)
    (t : Tree) :
    (∀ call ∈ t.calls, (∃ m ∈ d.scan t, m.Concerns call) ↔
      d.applicable = true ∧ d.IsReportable call) ∧
    ∀ resolve, List.Forall₂ (AboutOneCall t) (d.scan t) ((d.resolving resolve).scan t) := by
  constructor
  · intro call listed
    rw [mem_scan_concerns standard listed, analyze_iff_isReportable standard bare]
  · intro resolve
    rw [scan_eq_filterMap standard, scan_eq_filterMap (d := d.resolving resolve) standard]
    exact forall₂_filterMap fun call listed => analyze_resolving standard bare resolve listed

/-- Where the names denote values the guarded call is found, where they are unknown the bare call in
it, and both are about this call. -/
theorem scan_resolving_unresolved :
    let d : Detector := ⟨fun _ => .value, false, "equals", nullComparison, true⟩
    ∃ t call m m', Tree.read "a != null && a.equals(b)" = .ok t ∧ t.calls = [call] ∧
      d.scan t = [m] ∧ (d.resolving fun _ => .unresolved).scan t = [m'] ∧ m.form = .binary ∧
      m'.form = .directCall ∧ d.IsReportable call ∧ AboutOneCall t m m' := by
  intro d
  let t : Tree := ⟨.binary .and
    (.binary .ne (.name "a" (some ⟨0, 1⟩)) (.literal .null "null" (some ⟨5, 9⟩)) (some ⟨0, 9⟩))
    (.invoke (.name "a" (some ⟨13, 14⟩)) "equals" [.name "b" (some ⟨22, 23⟩)] (some ⟨13, 24⟩))
    (some ⟨0, 24⟩), some "a != null && a.equals(b)"⟩
  have read : Tree.read "a != null && a.equals(b)" = .ok t := rfl
  obtain ⟨call, m, m', calls, found, found', forms⟩ : ∃ call m m', t.calls = [call] ∧
      d.scan t = [m] ∧ (d.resolving fun _ => .unresolved).scan t = [m'] ∧ m.form = .binary ∧
      m'.form = .directCall := ⟨_, _, _, rfl, rfl, rfl, rfl, rfl⟩
  obtain ⟨reported, alike⟩ := scan_resolving (d := d) rfl rfl t
  have pair := alike fun _ => .unresolved
  rw [found, found', List.forall₂_cons] at pair
  obtain ⟨-, -, k, listed, about, -⟩ := pair.1
  have reportable := ((reported k listed).mp ⟨m, by simp [found], about⟩).2
  rw [calls, List.mem_singleton] at listed
  exact ⟨t, call, m, m', read, calls, found, found', forms.1, forms.2, listed ▸ reportable, pair.1⟩

end Detector

end NullSafeEq
