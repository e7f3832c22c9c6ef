import NullSafeEq.Proofs.Idiom.Shape

/-!
# Spans do not matter

Whether there is a match for a call depends on no span, where the resolver looks at none. A table
of names and the naming conventions do not.
-/
namespace NullSafeEq

/-- Answers that do not depend on spans. -/
def Resolver.SpanFree (resolve : Resolver) : Prop := ∀ e, resolve e.unspanned = resolve e

namespace Expr

@[simp] theorem unspannedAll_eq (es : List Expr) : unspannedAll es = es.map unspanned := by
  induction es with
  | nil => rfl
  | cons e es ih => rw [unspannedAll, ih, List.map_cons]

theorem children_unspanned (e : Expr) : e.unspanned.children = e.children.map unspanned := by
  cases e <;> simp [unspanned, children]

theorem bare_unspanned (e : Expr) : e.unspanned.bare = e.bare.unspanned := by
  fun_induction bare e with
  | case1 e sp ih => exact ih
  | case2 e other =>
    cases e with
    | paren e sp => exact (other e sp rfl).elim
    | _ => rfl

theorem isNull_unspanned (e : Expr) : e.unspanned.isNull = e.isNull := by
  cases e with
  | literal kind => cases kind <;> rfl
  | _ => rfl

theorem isSelf_unspanned (e : Expr) : e.unspanned.isSelf = e.isSelf := by
  unfold isSelf
  rw [bare_unspanned]
  cases e.bare <;> rfl

theorem isReference_unspanned (e : Expr) : e.unspanned.isReference = e.isReference := by
  cases e <;> rfl

theorem isNot_unspanned (e : Expr) : e.unspanned.isNot = e.isNot := by
  cases e with
  | prefixed op => cases op <;> rfl
  | _ => rfl

theorem dotted_unspanned (e : Expr) : e.unspanned.dotted? = e.dotted? := by
  induction e using induct_children with
  | step e ih =>
  cases e with
  | member q id => rw [unspanned, dotted?, dotted?, ih q List.mem_cons_self]
  | paren e => exact ih e List.mem_cons_self
  | _ => rfl

end Expr

theorem Scope.spanFree (s : Scope) : Resolver.SpanFree s.resolve := by
  intro e
  induction e using Expr.induct_children with
  | step e ih =>
  cases e with
  | member q id sp =>
    have chain := Expr.dotted_unspanned (.member q id sp)
    rw [Expr.unspanned] at chain ⊢
    rw [resolve, resolve, chain, Expr.bare_unspanned, Expr.isReference_unspanned,
      ih q List.mem_cons_self]
  | paren e sp =>
    rw [Expr.unspanned, resolve, resolve]
    exact ih e List.mem_cons_self
  | _ => rfl

theorem Convention.spanFree (c : Convention) : Resolver.SpanFree c.resolve := by
  intro e
  induction e using Expr.induct_children with
  | step e ih =>
  cases e with
  | member q id sp =>
    rw [Expr.unspanned, resolve, resolve, Expr.bare_unspanned, Expr.isReference_unspanned,
      ih q List.mem_cons_self, Expr.isSelf_unspanned]
  | paren e sp =>
    rw [Expr.unspanned, resolve, resolve]
    exact ih e List.mem_cons_self
  | _ => rfl

theorem qualifiedName_unspanned {resolve : Resolver} (free : resolve.SpanFree) (e : Expr) :
    qualifiedName? resolve e.unspanned = qualifiedName? resolve e := by
  induction e using Expr.induct_children with
  | step e ih =>
  cases e with
  | name id sp =>
    have := free (.name id sp)
    rw [Expr.unspanned] at this ⊢
    rw [qualifiedName?, qualifiedName?, this]
  | member q id sp =>
    have := free (.member q id sp)
    rw [Expr.unspanned] at this ⊢
    rw [qualifiedName?, qualifiedName?, this, ih q List.mem_cons_self]
  | paren e sp =>
    rw [Expr.unspanned, qualifiedName?, qualifiedName?]
    exact ih e List.mem_cons_self
  | _ => rfl

namespace Expr

theorem denied_unspanned (e : Expr) :
    e.unspanned.denied = (e.denied.1.unspanned, e.denied.2) := by
  unfold denied
  rw [bare_unspanned]
  cases e.bare with
  | prefixed op o sp =>
    cases op with
    | not => simp only [unspanned, bare_unspanned]
    | negate | plus => rfl
  | _ => rfl

theorem comparedWithNull_unspanned (e : Expr) (equal : Bool) :
    e.unspanned.comparedWithNull? equal = (e.comparedWithNull? equal).map unspanned := by
  unfold comparedWithNull?
  rw [bare_unspanned]
  cases e.bare with
  | binary op l r sp =>
    simp only [unspanned, bare_unspanned, isNull_unspanned, apply_ite (Option.map unspanned),
      Option.map_some, Option.map_none]
  | _ => rfl

theorem nullTest_unspanned (e : Expr) :
    e.unspanned.nullTest? = e.nullTest?.map fun x => (x.1.unspanned, x.2) := by
  unfold nullTest?
  rw [denied_unspanned]
  simp only [comparedWithNull_unspanned]
  cases e.denied.1.comparedWithNull? true with
  | some x => rfl
  | none => cases e.denied.1.comparedWithNull? false <;> rfl

theorem equalsCall_unspanned (method : String) (e : Expr) : e.unspanned.equalsCall? method =
    (e.equalsCall? method).map fun x => (x.1.unspanned, x.2.1.unspanned, x.2.2) := by
  unfold equalsCall?
  rw [denied_unspanned]
  cases e.denied.1 with
  | invoke q id args sp =>
    match args with
    | [] | _ :: _ :: _ => simp [unspanned]
    | [a] =>
      simp only [unspanned, unspannedAll_eq, List.map_cons, List.map_nil, isSelf_unspanned,
        bare_unspanned]
      split <;> rfl
  | _ => rfl

end Expr

namespace Detector
variable {d : Detector}

theorem guarded_unspanned (free : d.resolve.SpanFree) (check callee : Expr) (equal : Bool) :
    d.Guarded check.unspanned callee.unspanned equal ↔ d.Guarded check callee equal := by
  unfold Guarded
  rw [Expr.nullTest_unspanned, Expr.equalsCall_unspanned]
  constructor
  · rintro ⟨_, _, _, name, mapped, mapped', named, qualifier⟩
    obtain ⟨⟨x, null⟩, tested, same⟩ := Option.map_eq_some_iff.mp mapped
    cases same
    obtain ⟨⟨q, a, affirmed⟩, called, same'⟩ := Option.map_eq_some_iff.mp mapped'
    cases same'
    rw [qualifiedName_unspanned free] at named qualifier
    exact ⟨x, q, a, name, tested, called, named, qualifier⟩
  · rintro ⟨x, q, a, name, tested, called, named, qualifier⟩
    rw [← qualifiedName_unspanned free] at named qualifier
    rw [tested, called]
    exact ⟨_, _, _, name, rfl, rfl, named, qualifier⟩

theorem isGuard_unspanned (free : d.resolve.SpanFree) (e : Expr) :
    d.IsGuard e.unspanned ↔ d.IsGuard e := by
  cases e with
  | binary op l r sp =>
    cases op with
    | and => exact guarded_unspanned free l r true
    | or =>
      unfold IsGuard
      simp only [Expr.unspanned, Expr.bare_unspanned]
      cases r.bare with
      | prefixed op o notSpan =>
        cases op with
        | not => exact guarded_unspanned free l o false
        | negate | plus => exact Iff.rfl
      | _ => exact Iff.rfl
    | _ => exact Iff.rfl
  | _ => exact Iff.rfl

theorem isTernary_unspanned (free : d.resolve.SpanFree) (e : Expr) :
    d.IsTernary e.unspanned ↔ d.IsTernary e := by
  cases e with
  | conditional t y n sp =>
    unfold IsTernary
    simp only [Expr.unspanned, ← apply_ite Expr.unspanned, Expr.nullTest_unspanned,
      Expr.equalsCall_unspanned]
    constructor
    · rintro ⟨_, null, _, equal, _, _, first, second, mapped, mapped', mapped'', names⟩
      obtain ⟨⟨x, null'⟩, tested, same⟩ := Option.map_eq_some_iff.mp mapped
      cases same
      obtain ⟨⟨v, equal'⟩, compared, same'⟩ := Option.map_eq_some_iff.mp mapped'
      cases same'
      obtain ⟨⟨q, a, equal''⟩, called, same''⟩ := Option.map_eq_some_iff.mp mapped''
      cases same''
      simp only [qualifiedName_unspanned free] at names
      exact ⟨x, _, v, _, q, a, first, second, tested, compared, called, names⟩
    · rintro ⟨x, null, v, equal, q, a, first, second, tested, compared, called, names⟩
      refine ⟨x.unspanned, null, v.unspanned, equal, q.unspanned, a.unspanned, first, second,
        by rw [tested]; rfl, by rw [compared]; rfl, by rw [called]; rfl, ?_⟩
      simp only [qualifiedName_unspanned free]
      exact names
  | _ => exact Iff.rfl

theorem isGuardShape_unspanned (e : Expr) : isGuardShape e.unspanned = isGuardShape e := by
  cases e with
  | binary op l r sp =>
    cases op with
    | or =>
      unfold isGuardShape
      simp only [Expr.unspanned, Expr.bare_unspanned]
      rw [Expr.isNot_unspanned]
    | _ => rfl
  | _ => rfl

theorem isDirect_unspanned (e : Expr) : d.IsDirect e.unspanned ↔ d.IsDirect e := by
  unfold IsDirect
  cases e with
  | invoke q id args sp =>
    match args with
    | [] | [_] | _ :: _ :: _ => simp [Expr.unspanned]
  | _ => simp [Expr.unspanned]

/-- Whether there is a match does not depend on spans. -/
theorem reports_unspanned (free : d.resolve.SpanFree) (context : Option Expr) (call : Expr) :
    d.Reports (context.map Expr.unspanned) call.unspanned ↔ d.Reports context call := by
  have named : call.unspanned.calledName? = call.calledName? := by cases call <;> rfl
  have onSelf : call.unspanned.isOnSelf = call.isOnSelf := by
    cases call with
    | invoke q => exact Expr.isSelf_unspanned q
    | _ => rfl
  unfold Reports Accepts
  rw [named, onSelf]
  cases context with
  | none => simp only [Option.map_none, isDirect_unspanned]
  | some c =>
    have binary : c.unspanned.isBinary = c.isBinary := by cases c <;> rfl
    simp only [Option.map_some, isGuard_unspanned free, isTernary_unspanned free,
      isDirect_unspanned, isGuardShape_unspanned, binary]

end Detector

end NullSafeEq
