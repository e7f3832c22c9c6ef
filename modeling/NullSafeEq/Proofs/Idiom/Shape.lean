import NullSafeEq.Proofs.Idiom.Placement
import NullSafeEq.Proofs.Tree.Places

/-!
# The shapes of the idioms

Whether there is a match depends on expressions only: on the call and on the nearest construct
around it. Where they stand decides no more than the place that the match has.
-/
namespace NullSafeEq

namespace Expr

/-- An expression without parentheses and without at most one leading `!`, and whether there was
none. -/
def denied (e : Expr) : Expr × Bool :=
  match e.bare with
  | prefixed .not o _ => (o.bare, false)
  | b => (b, true)

/-- What an expression compares with null, by an equality or by an inequality. -/
def comparedWithNull? (e : Expr) (equal : Bool) : Option Expr :=
  match e.bare with
  | binary op l r _ =>
    if op = (if equal then .eq else .ne) then
      if r.bare.isNull then some l.bare else if l.bare.isNull then some r.bare else none
    else none
  | _ => none

/-- What an expression tests for null, and whether it holds when that is null. -/
def nullTest? (e : Expr) : Option (Expr × Bool) :=
  match e.denied.1.comparedWithNull? true with
  | some x => some (x, e.denied.2)
  | none => (e.denied.1.comparedWithNull? false).map fun x => (x, !e.denied.2)

/-- The qualifier and the argument of a call of the equality method, and whether it is affirmed. -/
def equalsCall? (method : String) (e : Expr) : Option (Expr × Expr × Bool) :=
  match e.denied.1 with
  | invoke q id [a] _ =>
    if id = method ∧ q.isSelf = false then some (q.bare, a.bare, e.denied.2) else none
  | _ => none

/-- A call on `this` or `super`. -/
def isOnSelf : Expr → Bool
  | invoke q .. => q.isSelf
  | _ => false

def isBinary : Expr → Bool
  | binary .. => true
  | _ => false

/-- Parentheses and prefix operators do not count as what stands around a call. -/
def isTransparent (e : Expr) : Bool := e.isParen || e.isPrefixed

theorem isParen_of_isTransparent {e : Expr} (h : e.isTransparent = false) : e.isParen = false :=
  (Bool.or_eq_false_iff.mp h).1

theorem denied_bare (e : Expr) : e.bare.denied = e.denied := by
  rw [denied, bare_bare, denied]

theorem equalsCall_bare (method : String) (e : Expr) :
    e.bare.equalsCall? method = e.equalsCall? method := by
  rw [equalsCall?, denied_bare, equalsCall?]

theorem nullTest_bare (e : Expr) : e.bare.nullTest? = e.nullTest? := by
  rw [nullTest?, denied_bare, nullTest?]

end Expr

theorem unwrapNegation_node (s : Site) :
    ((unwrapNegation s).1.node, (unwrapNegation s).2) = s.node.denied := by
  unfold unwrapNegation Expr.denied
  rw [← Site.node_bare]
  cases same : s.bare.node with
  | prefixed op o sp =>
    cases op with
    | not => simp only [same, Site.node_bare, Site.down]
    | negate | plus => simp only [same]
  | _ => simp only [same]

theorem nullComparison_node (s : Site) (equal : Bool) :
    (nullComparison s equal).map Site.node = s.node.comparedWithNull? equal := by
  unfold nullComparison Expr.comparedWithNull?
  rw [← Site.node_bare]
  simp only
  cases s.bare.node with
  | binary op l r sp =>
    simp only [Site.node_bare, Site.down]
    by_cases isOp : op = (if equal then .eq else .ne)
    · rw [if_pos isOp, if_pos isOp]
      by_cases right : r.bare.isNull = true
      · simp [if_pos right, Site.node_bare]
      · by_cases left : l.bare.isNull = true
        · simp [if_neg right, if_pos left, Site.node_bare]
        · simp [if_neg right, if_neg left]
    · rw [if_neg isOp, if_neg isOp]
      rfl
  | _ => rfl

theorem nullCheck_node (s : Site) : (nullCheck? nullComparison s).map
    (fun test => (test.compared.node, test.equal)) = s.node.nullTest? := by
  have inner := unwrapNegation_node s
  unfold nullCheck? Expr.nullTest?
  rw [← inner]
  simp only [← nullComparison_node]
  cases nullComparison (unwrapNegation s).1 true with
  | some compared => rfl
  | none => simp [Function.comp_def]

theorem equalityCall_node (method : String) (s : Site) : (equalityCall? method s).map
    (fun found => (found.qualifier.node, found.argument.node, found.equal)) =
      s.node.equalsCall? method := by
  unfold Expr.equalsCall?
  rw [← unwrapNegation_node]
  simp only
  split
  next q id a sp same =>
    split
    next named =>
      obtain ⟨rfl, notSelf⟩ := named
      rw [equalityCall_iff.mpr ⟨q, a, sp, same, notSelf, rfl⟩]
      simp [Site.node_bare, Site.down]
    next other =>
      rw [Option.map_eq_none_iff, Option.eq_none_iff_forall_ne_some]
      intro found h
      obtain ⟨q', a', sp', same', notSelf, -⟩ := equalityCall_iff.mp h
      rw [same] at same'
      cases same'
      exact other ⟨rfl, notSelf⟩
  next other =>
    rw [Option.map_eq_none_iff, Option.eq_none_iff_forall_ne_some]
    intro found h
    obtain ⟨q, a, sp, same, -⟩ := equalityCall_iff.mp h
    exact other q method a sp same

theorem nullTest_iff {s : Site} {x : Expr} {equal : Bool} :
    s.node.nullTest? = some (x, equal) ↔
      ∃ test, nullCheck? nullComparison s = some test ∧ test.compared.node = x ∧
        test.equal = equal := by
  rw [← nullCheck_node, Option.map_eq_some_iff]
  simp only [Prod.mk.injEq]

theorem equalsCall_iff {method : String} {s : Site} {q a : Expr} {equal : Bool} :
    s.node.equalsCall? method = some (q, a, equal) ↔
      ∃ found, equalityCall? method s = some found ∧ found.qualifier.node = q ∧
        found.argument.node = a ∧ found.equal = equal := by
  rw [← equalityCall_node, Option.map_eq_some_iff]
  simp only [Prod.mk.injEq]

namespace Detector
variable {d : Detector}

/-- A test on the one hand that lets a call on the other hand through when its qualifier is not
null. -/
def Guarded (d : Detector) (check callee : Expr) (equal : Bool) : Prop :=
  ∃ x q a name, check.nullTest? = some (x, !equal) ∧ callee.equalsCall? d.method = some (q, a, true) ∧
    qualifiedName? d.resolve x = some name ∧ qualifiedName? d.resolve q = some name

/-- A conjunction or a disjunction that is a guarded call. -/
def IsGuard (d : Detector) : Expr → Prop
  | .binary .and l r _ => d.Guarded l r true
  | .binary .or l r _ =>
    match r.bare with
    | .prefixed .not o _ => d.Guarded l o false
    | _ => False
  | _ => False

/-- A ternary that is an idiom. -/
def IsTernary (d : Detector) : Expr → Prop
  | .conditional t y n _ => ∃ x null v equal q a first second, t.nullTest? = some (x, null) ∧
    (if null then y else n).nullTest? = some (v, equal) ∧
    (if null then n else y).equalsCall? d.method = some (q, a, equal) ∧
    qualifiedName? d.resolve x = some first ∧ qualifiedName? d.resolve q = some first ∧
    qualifiedName? d.resolve v = some second ∧ qualifiedName? d.resolve a = some second
  | _ => False

/-- A qualified call with one argument, where bare calls count. -/
def IsDirect (d : Detector) (call : Expr) : Prop :=
  d.requireGuard = false ∧ ∃ q id a sp, call = .invoke q id [a] sp

/-- A call counts in what stands around it. -/
def Accepts (d : Detector) (context : Option Expr) (call : Expr) : Prop :=
  match context with
  | none => d.IsDirect call
  | some c => d.IsGuard c ∨ d.IsTernary c ∨
    (d.IsDirect call ∧ (c.isBinary = true → isGuardShape c = true))

/-- A call of the equality method that there is a match for. -/
def Reports (d : Detector) (context : Option Expr) (call : Expr) : Prop :=
  call.calledName? = some d.method ∧ call.isOnSelf = false ∧ d.Accepts context call

theorem guardedCall_isSome (standard : d.compare = nullComparison) (guard check callee : Site)
    (equal : Bool) : (∃ m, d.guardedCall? guard check callee equal = some m) ↔
      d.Guarded check.node callee.node equal := by
  simp only [guardedCall_iff, standard]
  constructor
  · rintro ⟨m, found, call, affirmed, test, tests, differs, checked, named, qualifier, -⟩
    have opposite : test.equal = !equal := by
      revert differs
      cases test.equal <;> cases equal <;> simp
    exact ⟨_, _, _, checked, nullTest_iff.mpr ⟨test, tests, rfl, opposite⟩,
      equalsCall_iff.mpr ⟨found, call, rfl, rfl, affirmed⟩, named, qualifier⟩
  · rintro ⟨x, q, a, name, tested, called, named, qualifier⟩
    obtain ⟨test, tests, rfl, opposite⟩ := nullTest_iff.mp tested
    obtain ⟨found, call, rfl, rfl, affirmed⟩ := equalsCall_iff.mp called
    refine ⟨_, found, call, affirmed, test, tests, ?_, name, named, qualifier, rfl⟩
    rw [opposite]
    cases equal <;> decide

theorem guarded_bare {check callee : Expr} {equal : Bool} :
    d.Guarded check callee.bare equal ↔ d.Guarded check callee equal := by
  unfold Guarded
  simp only [Expr.equalsCall_bare]

theorem binary_isSome (standard : d.compare = nullComparison) (s : Site) :
    (∃ m, d.binary? s = some m) ↔ d.IsGuard s.node := by
  simp only [binary_iff]
  constructor
  · rintro ⟨m, ⟨l, r, sp, same, found⟩ | ⟨l, r, sp, e, notSpan, same, negation, found⟩⟩
    · have guarded := (guardedCall_isSome standard _ _ _ _).mp ⟨m, found⟩
      rw [Site.node_bare, Site.down, guarded_bare] at guarded
      rw [same]
      exact guarded
    · have guarded := (guardedCall_isSome standard _ _ _ _).mp ⟨m, found⟩
      rw [Site.node_bare] at guarded negation
      rw [Site.down, guarded_bare] at guarded
      rw [same, IsGuard]
      simp only [show r.bare = .prefixed .not e notSpan from negation]
      exact guarded
  · intro h
    unfold IsGuard at h
    split at h
    next l r sp same =>
      rw [← guarded_bare] at h
      obtain ⟨m, found⟩ := (guardedCall_isSome standard s (s.down (.leftOf .and r sp) l)
        (s.down (.rightOf .and l sp) r).bare true).mpr (by rw [Site.node_bare]; exact h)
      exact ⟨m, .inl ⟨l, r, sp, same, found⟩⟩
    next l r sp same =>
      split at h
      next o notSpan negation =>
        rw [← guarded_bare] at h
        obtain ⟨m, found⟩ := (guardedCall_isSome standard s (s.down (.leftOf .or r sp) l)
          ((s.down (.rightOf .or l sp) r).bare.down (.operandOf .not notSpan) o).bare false).mpr
          (by rw [Site.node_bare]; exact h)
        refine ⟨m, .inr ⟨l, r, sp, o, notSpan, same, ?_, found⟩⟩
        rw [Site.node_bare]
        exact negation
      next => cases h
    next => cases h

theorem conditional_isSome (standard : d.compare = nullComparison) (s : Site) :
    (∃ m, d.conditional? s = some m) ↔ d.IsTernary s.node := by
  simp only [conditional_iff, standard]
  constructor
  · rintro ⟨m, t, y, n, sp, same, test, tests, other, others, found, calls, alike, first, tested,
      second, compared, argument, qualifier, -⟩
    rw [same]
    refine ⟨test.compared.node, test.equal, other.compared.node, found.equal,
      found.qualifier.node, found.argument.node, first, second, ?_, ?_, ?_, tested, qualifier,
      compared, argument⟩
    · exact nullTest_iff.mpr ⟨test, tests, rfl, rfl⟩
    · have := nullTest_iff.mpr ⟨other, others, rfl, alike⟩
      rw [Site.node_bare, Expr.nullTest_bare] at this
      rw [← this]
      cases test.equal <;> rfl
    · have := equalsCall_iff.mpr ⟨found, calls, rfl, rfl, rfl⟩
      rw [Site.node_bare, Expr.equalsCall_bare] at this
      rw [← this]
      cases test.equal <;> rfl
  · intro h
    unfold IsTernary at h
    split at h
    next t y n sp same =>
      obtain ⟨x, null, v, equal, q, a, first, second, tested, nulled, called, named, qualifier,
        compared, argument⟩ := h
      obtain ⟨test, tests, rfl, rfl⟩ :=
        (nullTest_iff (s := s.down (.testOf y n sp) t)).mp tested
      have nullBranch : (if test.equal then s.down (.yesOf t n sp) y
          else s.down (.noOf t y sp) n).bare.node.nullTest? = some (v, equal) := by
        rw [Site.node_bare, Expr.nullTest_bare, ← nulled]
        cases test.equal <;> rfl
      have valueBranch : (if test.equal then s.down (.noOf t y sp) n
          else s.down (.yesOf t n sp) y).bare.node.equalsCall? d.method = some (q, a, equal) := by
        rw [Site.node_bare, Expr.equalsCall_bare, ← called]
        cases test.equal <;> rfl
      obtain ⟨other, others, rfl, alike⟩ := nullTest_iff.mp nullBranch
      obtain ⟨found, calls, rfl, rfl, rfl⟩ := equalsCall_iff.mp valueBranch
      exact ⟨_, t, y, n, sp, same, test, tests, other, others, found, calls, alike, first, named,
        second, compared, argument, qualifier, rfl⟩
    next => cases h

theorem direct_isSome (call : Site) : (∃ m, d.direct? call = some m) ↔ d.IsDirect call.node := by
  simp only [direct_iff]
  constructor
  · rintro ⟨m, bare, q, receiver, a, sole, -⟩
    refine ⟨bare, ?_⟩
    unfold Site.receiver? at receiver
    unfold Site.soleArgument? at sole
    split at receiver
    next q id args sp same =>
      rw [same] at sole
      split at sole
      next isCall => cases isCall
      next isInvoke =>
        cases isInvoke
        exact ⟨_, _, _, _, same⟩
      next => cases sole
    next => cases receiver
  · rintro ⟨bare, q, id, a, sp, same⟩
    exact ⟨_, bare, call.down (.receiverOf id [a] sp) q, by simp [Site.receiver?, same],
      call.down (.argOfInvoke q id [] [] sp) a, by simp [Site.soleArgument?, same], rfl⟩

theorem inContext_isSome (standard : d.compare = nullComparison) (call context : Site) :
    (∃ m, d.inContext? call context = some m) ↔ d.Accepts (some context.node) call.node := by
  have guard := binary_isSome standard context
  have ternary := conditional_isSome standard context
  have direct := direct_isSome (d := d) call
  unfold inContext? Accepts
  cases same : context.node with
  | binary op l r sp =>
    rw [same] at guard
    cases found : d.binary? context with
    | some m => exact ⟨fun _ => .inl (guard.mp ⟨m, found⟩), fun _ => ⟨m, rfl⟩⟩
    | none =>
      have noGuard : ¬ d.IsGuard (.binary op l r sp) := by
        rw [← guard, found]
        simp
      by_cases shape : isGuardShape (.binary op l r sp) = true
      · simp [direct, noGuard, IsTernary, shape]
      · simp [noGuard, IsTernary, shape, Expr.isBinary]
  | conditional t y n sp =>
    rw [same] at ternary
    cases found : d.conditional? context with
    | some m => exact ⟨fun _ => .inr (.inl (ternary.mp ⟨m, found⟩)), fun _ => ⟨m, rfl⟩⟩
    | none =>
      have noTernary : ¬ d.IsTernary (.conditional t y n sp) := by
        rw [← ternary, found]
        simp
      simp [direct, noTernary, IsGuard, Expr.isBinary]
  | _ => simp [direct, IsGuard, IsTernary, Expr.isBinary]

/-- A call of the equality method is looked at in the nearest construct around it, if any. -/
theorem analyze_eq_elim (d : Detector) (call : Site) : d.analyze? call =
    if !d.applicable || call.node.calledName? ≠ some d.method then none
    else if call.receiver?.any fun q => q.node.isSelf then none
    else (call.enclosing? Expr.isTransparent).elim (d.direct? call) (d.inContext? call) := by
  unfold analyze?
  cases around : call.enclosing? Expr.isTransparent with
  | none =>
    have nothing : (call.enclosing? fun e => e.isParen || e.isPrefixed) = none := around
    simp only [nothing, Option.elim_none]
  | some context =>
    have near : (call.enclosing? fun e => e.isParen || e.isPrefixed) = some context := around
    simp only [near, Option.elim_some]

/-- A call of the equality method that is not on `this` or `super` has the match of its context. -/
theorem analyze_of_enclosing {call context : Site} {q a : Expr} {sp : Option Span}
    (applies : d.applicable = true) (node : call.node = .invoke q d.method [a] sp)
    (notSelf : q.isSelf = false) (around : call.enclosing? Expr.isTransparent = some context) :
    d.analyze? call = d.inContext? call context := by
  have other : (call.receiver?.any fun q => q.node.isSelf) = false := by
    simp [Site.receiver?, node, Site.down, notSelf]
  rw [analyze_eq_elim, applies, other, around, node]
  simp only [Expr.calledName?, Bool.not_true, ne_eq, not_true_eq_false, decide_false,
    Bool.or_self, Bool.false_eq_true, if_false, Option.elim_some]

/-- Whether there is a match for a call depends on the call and on what stands around it. -/
theorem analyze_isSome (standard : d.compare = nullComparison) (applies : d.applicable = true)
    (call : Site) : (∃ m, d.analyze? call = some m) ↔
      d.Reports ((call.enclosing? Expr.isTransparent).map Site.node) call.node := by
  have onSelf : (call.receiver?.any fun q => q.node.isSelf) = call.node.isOnSelf := by
    unfold Site.receiver? Expr.isOnSelf
    cases call.node <;> rfl
  unfold Reports
  rw [analyze_eq_elim, applies, onSelf]
  by_cases named : call.node.calledName? = some d.method
  · cases self : call.node.isOnSelf with
    | true => simp
    | false =>
      simp only [named, Bool.not_true, ne_eq, not_true_eq_false, decide_false, Bool.or_self,
        Bool.false_eq_true, if_false, true_and]
      cases around : call.enclosing? Expr.isTransparent with
      | none => exact direct_isSome call
      | some context => exact inContext_isSome standard call context
  · simp [named]

end Detector

end NullSafeEq
